import FlutterLayout.Text.Quoted

/-!
# JSON values

Numbers are kept as they are written and members in the order they are written.  `compact` and `indented`
print a value; characters that mean something in HTML are escaped.
-/

namespace FlutterLayout

inductive Json where
  | null
  | bool (b : Bool)
  | number (numeral : Text)
  | string (t : Text)
  | array (items : List Json)
  | object (members : List (Text × Json))

namespace Json

def escapeLetter? (r : Rune) : Option UInt8 :=
  [(0x22, Text.doubleQuote), (0x5C, Text.backslash), (0x08, Text.byte 'b'), (0x0C, Text.byte 'f'),
    (0x0A, Text.byte 'n'), (0x0D, Text.byte 'r'), (0x09, Text.byte 't')].lookup r

def isWrittenByNumber (r : Rune) : Bool :=
  r < 0x20 || r = 0x3C || r = 0x3E || r = 0x26 || r = 0x2028 || r = 0x2029

/-- A part of a string between quotes; a stray byte becomes the replacement character. -/
def writtenSegment (s : Text.Segment) : Text :=
  match s.rune? with
  | none => "\\ufffd"
  | some r =>
    match escapeLetter? r with
    | some letter => [Text.backslash, letter]
    | none => if isWrittenByNumber r then "\\u" ++ Text.hexNumeral 4 r else s.bytes

def quote (t : Text) : Text :=
  Text.doubleQuote :: (Text.segments t).flatMap writtenSegment ++ [Text.doubleQuote]

def member (name : Text) (value : Json) : Text × Json := (name, value)

def ofInt (n : Int) : Json := .number (Text.ofInt n)

mutual

def compact : Json → Text
  | null => "null"
  | bool b => if b then "true" else "false"
  | number n => n
  | string t => quote t
  | array items => "[" ++ Text.join "," (compactItems items) ++ "]"
  | object members => "\x7b" ++ Text.join "," (compactMembers members) ++ "\x7d"

def compactItems : List Json → List Text
  | [] => []
  | j :: js => j.compact :: compactItems js

def compactMembers : List (Text × Json) → List Text
  | [] => []
  | m :: ms => compactMember m :: compactMembers ms

def compactMember : Text × Json → Text
  | (name, j) => quote name ++ ":" ++ j.compact

end

/-- Pieces between brackets, each on a line of its own one level deeper than `level`; brackets alone when
there are none. -/
def enclosed (opening closing : Text) (level : Nat) (pieces : List Text) : Text :=
  if pieces.isEmpty then opening ++ closing
  else
    let inner := Text.repeated (level + 1) "  "
    opening ++ "\n" ++ inner ++ Text.join (",\n" ++ inner) pieces ++ "\n" ++ Text.repeated level "  "
      ++ closing

mutual

def indentedAt (level : Nat) : Json → Text
  | array items => enclosed "[" "]" level (indentedItems (level + 1) items)
  | object members => enclosed "\x7b" "\x7d" level (indentedMembers (level + 1) members)
  | null => "null"
  | bool b => if b then "true" else "false"
  | number n => n
  | string t => quote t

def indentedItems (level : Nat) : List Json → List Text
  | [] => []
  | j :: js => j.indentedAt level :: indentedItems level js

def indentedMembers (level : Nat) : List (Text × Json) → List Text
  | [] => []
  | m :: ms => indentedMember level m :: indentedMembers level ms

def indentedMember (level : Nat) : Text × Json → Text
  | (name, j) => quote name ++ ": " ++ j.indentedAt level

end

def indented (j : Json) : Text :=
  j.indentedAt 0

/-! ## Nesting -/

mutual

/-- How many brackets are open at most. -/
def depth : Json → Nat
  | array items => depthOfItems items + 1
  | object members => depthOfMembers members + 1
  | _ => 0

def depthOfItems : List Json → Nat
  | [] => 0
  | j :: js => max j.depth (depthOfItems js)

def depthOfMembers : List (Text × Json) → Nat
  | [] => 0
  | m :: ms => max (depthOfMember m) (depthOfMembers ms)

def depthOfMember : Text × Json → Nat
  | (_, j) => j.depth

end

end Json

end FlutterLayout
