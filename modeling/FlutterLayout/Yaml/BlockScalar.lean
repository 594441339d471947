import FlutterLayout.Yaml.Character

/-!
# Block scalars

A block scalar is a header and the lines below it that are indented far enough.  In a literal one every
line break counts; in a folded one a single break between lines that do not begin with a blank stands for a
space.  The header says how far the lines are indented, if the first one does not tell, and what becomes of
the breaks at the end.
-/

namespace FlutterLayout.Yaml

/-- What becomes of the line breaks at the end of a block scalar: one is kept, none, or all. -/
inductive Chomping where
  | clip
  | strip
  | keep
  deriving DecidableEq, Repr

structure BlockHeader where
  chomping : Chomping := .clip
  /-- The indentation of the lines over that of the block around them; 0 when the lines tell. -/
  increment : Nat := 0
  deriving DecidableEq, Repr

/-! ## The header -/

def chomping? (r : Rune) : Option Chomping :=
  if r = '+'.toNat then some .keep else if r = '-'.toNat then some .strip else none

def increment? (r : Rune) : Option (Except Malformed Nat) :=
  if isDigit r then some (if r = '0'.toNat then .error {} else .ok (r - '0'.toNat)) else none

def readChomping (cs : Characters) : Chomping × Characters :=
  match cs with
  | r :: rest =>
    match chomping? r with
    | some c => (c, rest)
    | none => (.clip, cs)
  | [] => (.clip, [])

def readIncrement (cs : Characters) : Except Malformed (Nat × Characters) :=
  match cs with
  | r :: rest =>
    match increment? r with
    | some n? => n?.map fun n => (n, rest)
    | none => .ok (0, cs)
  | [] => .ok (0, [])

def readHeader (cs : Characters) : Except Malformed (BlockHeader × Characters) :=
  match readChomping cs with
  | (.clip, rest) => do
    let (n, rest) ← readIncrement rest
    let (c, rest) := if n = 0 then (.clip, rest) else readChomping rest
    pure (⟨c, n⟩, rest)
  | (c, rest) => do
    let (n, rest) ← readIncrement rest
    pure (⟨c, n⟩, rest)

def restOfLine (cs : Characters) : Except Malformed Characters :=
  let rest := cs.dropWhile isBlank
  let rest := if rest.head? = some '#'.toNat then rest.dropWhile fun r => !isBreak r else rest
  match rest with
  | [] => .ok []
  | r :: _ => if isBreak r then .ok rest else .error {}

/-! ## The lines -/

structure VoidLines where
  breaks : Characters
  depth : Nat
  place : Place
  rest : Characters

/-- Passes over void lines and over the indentation of the next line, up to `indent` or, when that is 0, up
to the first character that is no space.  A tabulator must not indent a line. -/
def voidLinesFrom (indent : Nat) (breaks : Characters) (depth : Nat) (p : Place) :
    Characters → Except Malformed VoidLines
  | [] => .ok ⟨breaks, depth, p, []⟩
  | r :: t =>
    let inside := indent = 0 || p.column < indent
    if inside && r = space then voidLinesFrom indent breaks (max depth (p.column + 1)) (p.next r) t
    else if inside && r = tabulator then .error {}
    else if isBreak r then voidLinesFrom indent (r :: breaks) depth (p.next r) t
    else .ok ⟨breaks, depth, p, r :: t⟩

/-- A block scalar that is being read.  All lists have the last character first. -/
structure BlockLines where
  value : Characters := []
  lastBreak : Option Rune := none
  moreBreaks : Characters
  isIndented : Bool := false

def BlockLines.gap (b : BlockLines) (isLiteral isIndented : Bool) : Characters :=
  match b.lastBreak with
  | none => b.moreBreaks
  | some r =>
    if !isLiteral && !b.isIndented && !isIndented && r = lineFeed then
      if b.moreBreaks.isEmpty then [space] else b.moreBreaks
    else b.moreBreaks ++ [r]

def BlockLines.addLine (b : BlockLines) (isLiteral : Bool) (line : Characters) (lastBreak : Option Rune)
    (moreBreaks : Characters) : BlockLines :=
  let isIndented := (line.head?.map isBlank).getD false
  { value := line.reverse ++ (b.gap isLiteral isIndented ++ b.value)
    lastBreak := lastBreak
    moreBreaks := moreBreaks
    isIndented := isIndented }

def BlockLines.text (b : BlockLines) (c : Chomping) : Text :=
  let last := b.lastBreak.toList
  let tail :=
    match c with
    | .strip => []
    | .clip => last
    | .keep => b.moreBreaks ++ last
  Characters.text (tail ++ b.value).reverse

def blockLinesFrom (isLiteral : Bool) (indent : Nat) :
    (fuel : Nat) → BlockLines → Place → Characters → Except Malformed (BlockLines × Place × Characters)
  | 0, b, p, cs => .ok (b, p, cs)
  | fuel + 1, b, p, cs =>
    if cs.isEmpty || p.column ≠ indent then .ok (b, p, cs)
    else
      let line := cs.takeWhile fun r => !isBreak r
      let rest := cs.dropWhile fun r => !isBreak r
      let p := p.after line
      match rest with
      | [] => .ok (b.addLine isLiteral line none [], p, [])
      | r :: rest =>
        match voidLinesFrom indent [] 0 (p.next r) rest with
        | .error e => .error e
        | .ok v => blockLinesFrom isLiteral indent fuel (b.addLine isLiteral line (some r) v.breaks) v.place v.rest

def blockIndent (parent : Int) (header : BlockHeader) (depth : Nat) : Nat :=
  if header.increment = 0 then max depth (max (parent + 1).toNat 1)
  else parent.toNat + header.increment

/-- Reads a block scalar behind its first character, inside a block at column `parent`. -/
def readBlockScalar (isLiteral : Bool) (parent : Int) (p : Place) (cs : Characters) :
    Except Malformed (Text × Place × Characters) := do
  let (header, afterHeader) ← readHeader cs
  let lineEnd ← restOfLine afterHeader
  let p := p.after (cs.take (cs.length - lineEnd.length))
  match lineEnd with
  | [] => pure ([], p, [])
  | r :: rest =>
    let fixed := if header.increment = 0 then 0 else blockIndent parent header 0
    let void ← voidLinesFrom fixed [] 0 (p.next r) rest
    let indent := blockIndent parent header void.depth
    let (lines, p, rest) ←
      blockLinesFrom isLiteral indent (rest.length + 1) { moreBreaks := void.breaks } void.place void.rest
    pure (lines.text header.chomping, p, rest)

end FlutterLayout.Yaml
