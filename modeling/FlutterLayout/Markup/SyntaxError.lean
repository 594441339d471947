import FlutterLayout.Text.Quoted
import FlutterLayout.Markup.Position

/-!
# Syntax errors

`Fault` lists what can be wrong with a source and `Fault.message` words it.  A `Failure` is a fault at
a position; a `SyntaxError` adds the file name and an excerpt of the source line.
-/

namespace FlutterLayout.Markup

/-- What is wrong with a source. -/
inductive Fault where
  | unterminatedElement (name : Text)
  | unexpectedEndTag
  | unterminatedComment
  | unterminatedCData
  | unterminatedInstruction
  | unterminatedDoctype
  | expectedElementName
  | invalidAttributeName
  | redefinedAttribute (name : Text)
  | expectedQuotedValue (name : Text)
  | unterminatedValue (name : Text)
  | missingSemicolon
  | invalidCharacterReference (reference : Text)
  | unknownEntity (reference : Text)
  | invalidSpace (value : Text)
  | unterminatedStartTag (name : Text)
  | mismatchedEndTag (expected found : Text)
  | unterminatedEndTag (name : Text)
  | multipleRoots
  | textOutsideRoot
  deriving DecidableEq, Repr

def Fault.message : Fault → Text
  | unterminatedElement name => "unterminated element <" ++ name ++ ">"
  | unexpectedEndTag => "unexpected end tag"
  | unterminatedComment => "unterminated comment"
  | unterminatedCData => "unterminated CDATA section"
  | unterminatedInstruction => "unterminated processing instruction"
  | unterminatedDoctype => "unterminated DOCTYPE"
  | expectedElementName => "expected element name"
  | invalidAttributeName => "invalid attribute name"
  | redefinedAttribute name => "redefined attribute " ++ Text.quoted name
  | expectedQuotedValue name => "expected quoted value for attribute " ++ Text.quoted name
  | unterminatedValue name => "unterminated value for attribute " ++ Text.quoted name
  | missingSemicolon => "invalid entity: missing ';'"
  | invalidCharacterReference reference => "invalid character reference " ++ reference
  | unknownEntity reference => "unknown entity " ++ reference
  | invalidSpace value => "invalid xml:space value " ++ Text.quoted value
  | unterminatedStartTag name => "unterminated start tag <" ++ name ++ ">"
  | mismatchedEndTag expected found =>
    "mismatched end tag: expected </" ++ expected ++ ">, found </" ++ found ++ ">"
  | unterminatedEndTag name => "unterminated end tag </" ++ name ++ ">"
  | multipleRoots => "multiple root elements"
  | textOutsideRoot => "text outside of the root element"

/-- A fault and where it is. -/
structure Failure where
  position : Position
  fault : Fault
  deriving DecidableEq, Repr

def excerptLength : Nat := 30

/-- The first `n` bytes of a text, less the bytes of a rune that would be cut in two. -/
def cutAtRune (t : Text) : Nat → Text
  | 0 => []
  | n + 1 =>
    match t[n + 1]? with
    | some b => if Text.isRuneStart b then t.take (n + 1) else cutAtRune t n
    | none => t

/-- The text of the line at a position from the first rune that starts there or later, cut to
`excerptLength` bytes at the border of a rune. -/
def excerpt (source : Text) (p : Position) : Text :=
  let line := (Text.splitOn Text.lineFeed source).getD (p.line - 1) []
  let tail := (line.drop (p.column - 1)).dropWhile fun b => !Text.isRuneStart b
  cutAtRune tail excerptLength

/-- A failure as it is reported. -/
structure SyntaxError where
  filename : Text
  position : Position
  excerpt : Text
  fault : Fault
  deriving DecidableEq, Repr

namespace SyntaxError

def ofFailure (filename source : Text) (f : Failure) : SyntaxError :=
  ⟨filename, f.position, Markup.excerpt source f.position, f.fault⟩

def message (e : SyntaxError) : Text :=
  let place := Text.ofNat e.position.line ++ ":" ++ Text.ofNat e.position.column
  let place := if e.filename.isEmpty then place else e.filename ++ ":" ++ place
  let text := place ++ ": " ++ e.fault.message
  if e.excerpt.isEmpty then text else text ++ " (near " ++ Text.quoted e.excerpt ++ ")"

end SyntaxError

end FlutterLayout.Markup
