import FlutterLayout.Text.Rune

/-!
# Blanks — the Unicode property White_Space

Trimming and splitting into fields look for the twenty-five code points with the property
White_Space, among them U+0085, U+00A0 and U+3000, but not U+200B or U+FEFF.
-/

namespace FlutterLayout.Text

def blankRunes : List Rune :=
  [0x09, 0x0A, 0x0B, 0x0C, 0x0D, 0x20, 0x85, 0xA0, 0x1680, 0x2000, 0x2001, 0x2002, 0x2003, 0x2004,
    0x2005, 0x2006, 0x2007, 0x2008, 0x2009, 0x200A, 0x2028, 0x2029, 0x202F, 0x205F, 0x3000]

def blanks : List Text :=
  blankRunes.map ofRune

/-- The number of bytes of the blank, one of `marks`, that `t` starts with; zero when there is none. -/
def leadingBlank (marks : List Text) (t : Text) : Nat :=
  match marks.find? fun mark => startsWith mark t with
  | some mark => mark.length
  | none => 0

/-- Drops the blanks at the start; the first `skip` bytes belong to a blank. -/
def dropBlanksFrom (marks : List Text) : (skip : Nat) → Text → Text
  | _, [] => []
  | skip + 1, _ :: t => dropBlanksFrom marks skip t
  | 0, b :: t =>
    match leadingBlank marks (b :: t) with
    | 0 => b :: t
    | n + 1 => dropBlanksFrom marks n t

def trimStart (t : Text) : Text :=
  dropBlanksFrom blanks 0 t

def trimEnd (t : Text) : Text :=
  (dropBlanksFrom (blanks.map List.reverse) 0 t.reverse).reverse

def trim (t : Text) : Text :=
  trimEnd (trimStart t)

def isBlank (t : Text) : Bool :=
  (trimStart t).isEmpty

/-- The fields of a text: `field` holds, in reverse, the bytes of the field being read, and the first
`skip` bytes belong to a blank. -/
def fieldsFrom (field : Text) : (skip : Nat) → Text → List Text
  | _, [] => if field.isEmpty then [] else [field.reverse]
  | skip + 1, _ :: t => fieldsFrom field skip t
  | 0, b :: t =>
    match leadingBlank blanks (b :: t) with
    | 0 => fieldsFrom (b :: field) 0 t
    | n + 1 => if field.isEmpty then fieldsFrom [] n t else field.reverse :: fieldsFrom [] n t

def fields (t : Text) : List Text :=
  fieldsFrom [] 0 t

end FlutterLayout.Text
