import FlutterLayout.Text.Basic

/-!
# Marks — what each byte of an expression is

An expression is read byte by byte.  A string literal runs from a quote to the next quote of the same
kind that no backslash escapes.  Outside literals every byte has a bracket depth; a bracket itself has
the depth of what surrounds it, and a closing bracket that closes nothing stays at depth zero.  A single
`|` outside literals is a pipe; two of them are an operator.
-/

namespace FlutterLayout.Pipe

/-- Where a reader stands between two bytes. -/
inductive Lexical where
  | code (depth : Nat)
  | literal (quote : UInt8) (depth : Nat)
  | escape (quote : UInt8) (depth : Nat)
  deriving DecidableEq, Repr

def isOpening (b : UInt8) : Bool :=
  b = 0x28 || b = 0x5B || b = 0x7B

def isClosing (b : UInt8) : Bool :=
  b = 0x29 || b = 0x5D || b = 0x7D

def isQuote (b : UInt8) : Bool :=
  b = Text.singleQuote || b = Text.doubleQuote

namespace Lexical

/-- The depth of the byte `b` read here; none inside a literal, its quotes included. -/
def depthOf? (s : Lexical) (b : UInt8) : Option Nat :=
  match s with
  | code depth => if isQuote b then none else some (if isClosing b then depth - 1 else depth)
  | literal _ _ => none
  | escape _ _ => none

def step (s : Lexical) (b : UInt8) : Lexical :=
  match s with
  | code depth =>
    if isQuote b then literal b depth
    else if isClosing b then code (depth - 1)
    else if isOpening b then code (depth + 1)
    else code depth
  | literal quote depth =>
    if b = Text.backslash then escape quote depth
    else if b = quote then code depth
    else literal quote depth
  | escape quote depth => literal quote depth

end Lexical

abbrev bar : UInt8 := 0x7C

/-- A byte of an expression with what it is. -/
structure Mark where
  byte : UInt8
  /-- The bracket depth; none inside a literal. -/
  depth? : Option Nat
  isPipe : Bool
  deriving DecidableEq, Repr

def marksFrom (s : Lexical) (previous : Option UInt8) : Text → List Mark
  | [] => []
  | b :: t =>
    let depth? := s.depthOf? b
    let isPipe := depth?.isSome && b = bar && previous ≠ some bar && t.head? ≠ some bar
    ⟨b, depth?, isPipe⟩ :: marksFrom (s.step b) (some b) t

def marks (t : Text) : List Mark :=
  marksFrom (.code 0) none t

def hasPipe (t : Text) : Bool :=
  (marks t).any Mark.isPipe

/-- The texts between the marks at which to cut; there is always at least one. -/
def splitMarks (cutAt : Mark → Bool) : List Mark → List Text
  | [] => [[]]
  | m :: ms =>
    if cutAt m then [] :: splitMarks cutAt ms
    else
      match splitMarks cutAt ms with
      | [] => [[m.byte]]
      | piece :: pieces => (m.byte :: piece) :: pieces

def splitTop (separator : UInt8) (t : Text) : List Text :=
  splitMarks (fun m => m.depth? = some 0 && m.byte = separator) (marks t)

def splitPipes (t : Text) : List Text :=
  splitMarks (fun m => m.depth? = some 0 && m.isPipe) (marks t)

/-! ## Parenthesised groups -/

/-- A group at depth zero: what stands between it and the group before it, and what it encloses. -/
structure Group where
  before : Text
  inner : Text
  deriving DecidableEq, Repr

def unclosed : Option Text → Text
  | none => []
  | some inner => Text.byte '(' :: inner

/-- The groups of an expression and the text behind the last one.  `before` is the text read since the
last group and `opened` what has been read behind a parenthesis that may turn out to open a group. -/
def groupsFrom (before : Text) (opened : Option Text) : List Mark → List Group × Text
  | [] => ([], before ++ unclosed opened)
  | m :: ms =>
    if m.depth? = some 0 && m.byte = Text.byte '(' then
      groupsFrom (before ++ unclosed opened) (some []) ms
    else
      match opened with
      | none => groupsFrom (before ++ [m.byte]) none ms
      | some inner =>
        if m.depth? = some 0 && m.byte = Text.byte ')' then
          let (groups, tail) := groupsFrom [] none ms
          (⟨before, inner⟩ :: groups, tail)
        else groupsFrom before (some (inner ++ [m.byte])) ms

def groups (t : Text) : List Group × Text :=
  groupsFrom [] none (marks t)

def wholeGroup? (t : Text) : Option Text :=
  match groups t with
  | ([⟨[], inner⟩], []) => some inner
  | _ => none

end FlutterLayout.Pipe
