import FlutterLayout.Yaml.Scalar
import FlutterLayout.Yaml.Tag

/-!
# Tokens of YAML

The tokens of a text: scalars, tags, anchors, the marks of flow collections, and the beginnings and ends of
block collections, which the indentation gives.
-/

namespace FlutterLayout.Yaml

inductive Token where
  | streamEnd
  | directive (d : Directive)
  | documentStart
  | documentEnd
  | blockSequence
  | blockMapping
  | blockEnd
  | flowSequence
  | flowSequenceEnd
  | flowMapping
  | flowMappingEnd
  | item
  | separator
  | key
  | value
  | reference (name : Text)
  | anchor (name : Text)
  | tag (t : TagName)
  | scalar (text : Text) (isPlain : Bool)
  deriving DecidableEq, Repr

/-- A token that may turn out to be a key. -/
structure PossibleKey where
  number : Nat
  place : Place
  isRequired : Bool
  deriving DecidableEq, Repr

/-- The state of reading tokens. -/
structure Scanner where
  place : Place := {}
  rest : Characters
  isFresh : Bool := false
  tokens : List Token := []
  count : Nat := 0
  /-- The possible key of each flow collection that is open, the innermost first, and of the block around
  them. -/
  keys : List (Option PossibleKey) := [none]
  /-- The column of the innermost block; -1 outside of all blocks. -/
  indent : Int := -1
  outerIndents : List Int := []
  keyAllowed : Bool := true

namespace Scanner

def inFlow (s : Scanner) : Bool :=
  match s.keys with
  | _ :: _ :: _ => true
  | _ => false

def push (s : Scanner) (t : Token) : Scanner :=
  { s with tokens := t :: s.tokens, count := s.count + 1 }

def insert (s : Scanner) (number : Nat) (t : Token) : Scanner :=
  let later := s.count - number
  { s with tokens := s.tokens.take later ++ t :: s.tokens.drop later, count := s.count + 1 }

def skip (s : Scanner) (n : Nat) : Scanner :=
  { s with place := s.place.after (s.rest.take n), rest := s.rest.drop n, isFresh := false }

def skipTo (s : Scanner) (rest : Characters) : Scanner :=
  s.skip (s.rest.length - rest.length)

/-! ## Possible keys -/

def currentKey (s : Scanner) : Option PossibleKey :=
  s.keys.head?.join

def setKey (s : Scanner) (k : Option PossibleKey) : Scanner :=
  { s with keys := k :: s.keys.drop 1 }

def isTooLate (s : Scanner) (k : PossibleKey) : Bool :=
  k.place.line < s.place.line || k.place.index + 1024 < s.place.index

/-- The possible key of the innermost open collection is none, which it must not be if it is required. -/
def dropKey (s : Scanner) : Except Malformed Scanner :=
  match s.currentKey with
  | some k => if k.isRequired then .error {} else .ok (s.setKey none)
  | none => .ok s

def saveKey (s : Scanner) : Except Malformed Scanner :=
  if s.keyAllowed then do
    let s ← s.dropKey
    let isRequired := !s.inFlow && s.indent = s.place.column
    pure (s.setKey (some ⟨s.count, s.place, isRequired⟩))
  else .ok s

/-! ## Blocks -/

/-- Opens a block at a column, unless one is open there; its token goes behind the first `number` tokens. -/
def openBlock (s : Scanner) (column number : Nat) (t : Token) : Scanner :=
  if !s.inFlow && s.indent < column then
    { s.insert number t with indent := column, outerIndents := s.indent :: s.outerIndents }
  else s

def closeBlocksTo (column : Int) : (outer : List Int) → Scanner → Scanner
  | [], s => s
  | outer :: more, s =>
    if s.indent ≤ column then s
    else closeBlocksTo column more { s.push .blockEnd with indent := outer, outerIndents := more }

def closeBlocks (s : Scanner) (column : Int) : Scanner :=
  if s.inFlow then s else closeBlocksTo column s.outerIndents s

/-! ## Gaps -/

/-- Passes over blanks, line breaks and comments.  Behind a line break a key is allowed, unless a flow
collection is open.  A tabulator is passed over only where it cannot be taken for indentation: in a flow
collection, where no key is allowed, and between two comments (`isBetween`). -/
def skipGapFrom (inFlow : Bool) (keyAllowed inComment isBetween : Bool) (p : Place) :
    Characters → Bool × Place × Characters
  | [] => (keyAllowed, p, [])
  | r :: t =>
    if isBreak r then
      let between := (inComment || isBetween) && (t.dropWhile isGap).head? = some '#'.toNat
      skipGapFrom inFlow (keyAllowed || !inFlow) false between (p.next r) t
    else if inComment || r = '#'.toNat then skipGapFrom inFlow keyAllowed true false (p.next r) t
    else if r = space || (p.column = 0 && r = byteOrderMark) then
      skipGapFrom inFlow keyAllowed false isBetween (p.next r) t
    else if r = tabulator && (inFlow || !keyAllowed || isBetween) then
      skipGapFrom inFlow keyAllowed false isBetween (p.next r) t
    else (keyAllowed, p, r :: t)

def skipGap (s : Scanner) : Scanner :=
  let (keyAllowed, p, rest) := skipGapFrom s.inFlow s.keyAllowed false false s.place s.rest
  { s with keyAllowed := keyAllowed, place := p, rest := rest }

def skipComment (s : Scanner) : Scanner :=
  let rest := s.rest.dropWhile isBlank
  if !s.isFresh && rest.head? = some '#'.toNat then s.skipTo (rest.dropWhile fun r => !isBreak r) else s

/-! ## Tokens -/

def readEnd (s : Scanner) : Except Malformed Scanner := do
  let s ← (s.closeBlocks (-1)).dropKey
  pure { s.push .streamEnd with keyAllowed := false }

def readDirectiveLine (s : Scanner) : Except Malformed Scanner := do
  let s ← (s.closeBlocks (-1)).dropKey
  let (d, rest) ← readDirective (s.rest.drop 1)
  let s := { s.skipTo rest with keyAllowed := false }
  pure ((match rest with
    | r :: more => { s with place := s.place.next r, rest := more, isFresh := true }
    | [] => s).push (.directive d))

def readDocumentMark (s : Scanner) (t : Token) : Except Malformed Scanner := do
  let s ← (s.closeBlocks (-1)).dropKey
  pure ({ s.skip 3 with keyAllowed := false }.push t)

def maxDepth : Nat := 10000

def readFlowStart (s : Scanner) (t : Token) : Except Malformed Scanner := do
  let s ← s.saveKey
  if maxDepth < s.keys.length then throw {}
  pure ({ s.skip 1 with keys := none :: s.keys, keyAllowed := true }.push t)

def readFlowEnd (s : Scanner) (t : Token) : Except Malformed Scanner := do
  let s ← s.dropKey
  let keys := if s.inFlow then s.keys.drop 1 else s.keys
  pure ({ s.skip 1 with keys := keys, keyAllowed := false }.push t)

def readSeparator (s : Scanner) : Except Malformed Scanner := do
  let s ← s.dropKey
  pure ({ s.skip 1 with keyAllowed := true }.push .separator)

def readItem (s : Scanner) : Except Malformed Scanner := do
  if !s.inFlow && !s.keyAllowed then throw {}
  let s ← (s.openBlock s.place.column s.count .blockSequence).dropKey
  pure ({ s.skip 1 with keyAllowed := true }.push .item)

def readKey (s : Scanner) : Except Malformed Scanner := do
  if !s.inFlow && !s.keyAllowed then throw {}
  let s ← (s.openBlock s.place.column s.count .blockMapping).dropKey
  pure ({ s.skip 1 with keyAllowed := !s.inFlow }.push .key)

/-- Reads a colon.  The possible key in front of it is one; without one the colon follows a key behind a
question mark. -/
def readColon (s : Scanner) : Except Malformed Scanner := do
  let k? := s.currentKey
  if k?.any fun k => s.isTooLate k && k.isRequired then throw {}
  match k?.filter fun k => !s.isTooLate k with
  | some k =>
    let s := ((s.insert k.number .key).openBlock k.place.column k.number .blockMapping).setKey none
    pure ({ s.skip 1 with keyAllowed := false }.push .value)
  | none =>
    if !s.inFlow && !s.keyAllowed then throw {}
    let s := (s.openBlock s.place.column s.count .blockMapping).setKey none
    pure ({ s.skip 1 with keyAllowed := !s.inFlow }.push .value)

def readNamed (s : Scanner) (token : Text → Token) : Except Malformed Scanner := do
  let s ← s.saveKey
  let (name, rest) ← readName (s.rest.drop 1)
  pure ({ s.skipTo rest with keyAllowed := false }.push (token name))

def readTagToken (s : Scanner) : Except Malformed Scanner := do
  let s ← s.saveKey
  let (t, rest) ← readTag s.rest
  pure ({ s.skipTo rest with keyAllowed := false }.push (.tag t))

def readBlockScalarToken (s : Scanner) (isLiteral : Bool) : Except Malformed Scanner := do
  let s ← s.dropKey
  let s := s.skip 1
  let (t, p, rest) ← readBlockScalar isLiteral s.indent s.place s.rest
  let isFresh := s.place.line < p.line
  pure ({ s with place := p, rest := rest, isFresh := isFresh, keyAllowed := true }.push (.scalar t false))

def readQuotedToken (s : Scanner) (isDouble : Bool) : Except Malformed Scanner := do
  let s ← s.saveKey
  let s := s.skip 1
  let (t, p, rest) ←
    if isDouble then doubleQuotedFrom {} s.place 0 s.rest else singleQuotedFrom {} s.place 0 s.rest
  pure ({ s with place := p, rest := rest, keyAllowed := false }.push (.scalar t false))

def readPlainToken (s : Scanner) : Except Malformed Scanner := do
  let s ← s.saveKey
  let (f, p, rest) ← plainFrom s.inFlow (s.indent + 1).toNat {} s.place s.rest
  pure ({ s with place := p, rest := rest, isFresh := f.isBroken, keyAllowed := f.isBroken }.push
    (.scalar f.text true))

/-- Reads the token that begins with a character, which is neither a document mark nor a directive. -/
def readTokenAt (s : Scanner) (r : Rune) (rest : Characters) : Except Malformed Scanner :=
  if r = '['.toNat then s.readFlowStart .flowSequence
  else if r = 0x7B then s.readFlowStart .flowMapping
  else if r = ']'.toNat then s.readFlowEnd .flowSequenceEnd
  else if r = 0x7D then s.readFlowEnd .flowMappingEnd
  else if r = ','.toNat then s.readSeparator
  else if r = '-'.toNat && startsGap rest then s.readItem
  else if r = '?'.toNat && (s.inFlow || startsGap rest) then s.readKey
  else if r = ':'.toNat && (s.inFlow || startsGap rest) then s.readColon
  else if r = '*'.toNat then s.readNamed .reference
  else if r = '&'.toNat then s.readNamed .anchor
  else if r = '!'.toNat then s.readTagToken
  else if r = '|'.toNat && !s.inFlow then s.readBlockScalarToken true
  else if r = '>'.toNat && !s.inFlow then s.readBlockScalarToken false
  else if r = 0x27 then s.readQuotedToken false
  else if r = '"'.toNat then s.readQuotedToken true
  else if startsPlain s.inFlow (r :: rest) then s.readPlainToken
  else .error {}

/-- A comment may follow the last token on its line.  Behind a dash it belongs to what comes next. -/
def skipCommentUnlessItem (s : Scanner) : Scanner :=
  if s.tokens.head? = some .item then s else s.skipComment

def step (s : Scanner) : Except Malformed Scanner :=
  let s := s.skipGap
  let s := s.closeBlocks s.place.column
  if maxDepth < s.outerIndents.length then .error {}
  else
    match s.rest with
    | [] => s.readEnd
    | r :: rest =>
      if s.place.column = 0 && r = '%'.toNat then s.readDirectiveLine
      else if s.place.column = 0 && startsDocumentMark s.rest then
        s.readDocumentMark (if r = '-'.toNat then .documentStart else .documentEnd)
      else (s.readTokenAt r rest).map skipCommentUnlessItem

/-! ## The tokens of a text -/

def reach (s : Scanner) : Nat :=
  let pending := s.keys.filterMap fun k? => k?.filter fun k => k.isRequired || !s.isTooLate k
  (pending.map PossibleKey.number).foldl min (s.count - 2)

def run : (fuel : Nat) → Scanner → List Token
  | 0, s => s.tokens.reverse
  | fuel + 1, s =>
    match s.step with
    | .error _ => s.tokens.reverse.take s.reach
    | .ok s => if s.tokens.head? = some .streamEnd then s.tokens.reverse else run fuel s

end Scanner

def tokens (cs : Characters) : List Token :=
  Scanner.run (cs.length + 1) { rest := cs }

end FlutterLayout.Yaml
