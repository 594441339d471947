import FlutterLayout.Markup.Document
import FlutterLayout.Proofs.Text.Trimming

/-!
# The grammar of documents

What a source has to look like, said without reading it.  The text between two tags is a sequence of
comments, CDATA sections, processing instructions, document type declarations, character data and elements.
-/

namespace FlutterLayout.Markup

open Text

/-! ## Line ends -/

/-- The lines of the first text end in any way, those of the second with a line feed. -/
inductive EndsLines : Text → Text → Prop where
  | nil : EndsLines [] []
  | pair {t u : Text} (h : EndsLines t u) :
      EndsLines (carriageReturn :: lineFeed :: t) (lineFeed :: u)
  | single {t u : Text} (hnext : t.head? ≠ some lineFeed) (h : EndsLines t u) :
      EndsLines (carriageReturn :: t) (lineFeed :: u)
  | byte {b : UInt8} {t u : Text} (hb : b ≠ carriageReturn) (h : EndsLines t u) :
      EndsLines (b :: t) (b :: u)

def byteOrderMark : Text := [0xEF, 0xBB, 0xBF]

/-- `t` is the source without one byte order mark in front and with line feeds for line ends. -/
inductive HasNormalForm : (source t : Text) → Prop where
  | marked {source t : Text} (h : EndsLines source t) : HasNormalForm (byteOrderMark ++ source) t
  | unmarked {source t : Text} (hmark : ¬ byteOrderMark <+: source) (h : EndsLines source t) :
      HasNormalForm source t

/-! ## Where delimited items end -/

/-- In `body` with the delimiter behind it, the delimiter occurs only at the end. -/
def EndsAt (delimiter body : Text) : Prop :=
  ∀ a b, body ++ delimiter = a ++ delimiter ++ b → b = []

/-- The `>` behind `body` is the first one at which opening brackets do not outnumber closing ones. -/
structure IsDoctypeBody (body : Text) : Prop where
  closes : body.count (byte '[') ≤ body.count (byte ']')
  first : ∀ p, p ++ [byte '>'] <+: body → p.count (byte ']') < p.count (byte '[')

/-! ## References -/

def entities : List (Text × Text) :=
  [("amp", "&"), ("lt", "<"), ("gt", ">"), ("quot", "\""), ("apos", "'")]

def IsDigit (b : UInt8) (d : Nat) : Prop :=
  (ofString "0123456789abcdef")[d]? = some (lowerByte b)

inductive IsNumeral (base : Nat) : Text → Nat → Prop where
  | digit {b : UInt8} {d : Nat} (hb : IsDigit b d) (hd : d < base) : IsNumeral base [b] d
  | more {t : Text} {n : Nat} {b : UInt8} {d : Nat} (ht : IsNumeral base t n) (hb : IsDigit b d) (hd : d < base) :
      IsNumeral base (t ++ [b]) (n * base + d)

/-- What may stand between `&` and `;`, and the text it stands for. -/
inductive IsReference : (name value : Text) → Prop where
  | entity {name value : Text} (h : (name, value) ∈ entities) : IsReference name value
  | decimal {digits : Text} {n : Nat} (h : IsNumeral 10 digits n) (hzero : n ≠ 0) (hscalar : n.isValidChar) :
      IsReference (byte '#' :: digits) (ofRune n)
  | hexadecimal {x : UInt8} {digits : Text} {n : Nat} (hx : x = byte 'x' ∨ x = byte 'X')
      (h : IsNumeral 16 digits n) (hzero : n ≠ 0) (hscalar : n.isValidChar) :
      IsReference (byte '#' :: x :: digits) (ofRune n)

/-- Every `&` begins a reference, and `value` has what they stand for in their places. -/
inductive Decodes : (raw value : Text) → Prop where
  | nil : Decodes [] []
  | byte {b : UInt8} {raw value : Text} (hb : b ≠ byte '&') (h : Decodes raw value) :
      Decodes (b :: raw) (b :: value)
  | reference {name replacement raw value : Text} (hname : IsReference name replacement) (h : Decodes raw value) :
      Decodes (byte '&' :: (name ++ byte ';' :: raw)) (replacement ++ value)

/-! ## Tags -/

def IsLayout (t : Text) : Prop :=
  ∀ b ∈ t, Cursor.isLayoutByte b = true

def IsName (t : Text) : Prop :=
  t ≠ [] ∧ ∀ b ∈ t, isNameByte b = true

def EndsName (rest : Text) : Prop :=
  ∀ b ∈ rest.head?, isNameByte b = false

/-- The attributes of a start tag as they are written, each with the layout in front of it.  An attribute
without a value is empty. -/
inductive AreAttributes : Text → List Attribute → Prop where
  | nil : AreAttributes [] []
  | bare {gap name t : Text} {attributes : List Attribute} (hgap : IsLayout gap) (hname : IsName name)
      (hend : EndsName t) (h : AreAttributes t attributes) :
      AreAttributes (gap ++ (name ++ t)) ((name, []) :: attributes)
  | valued {gap name before behind raw value t : Text} {quote : UInt8} {attributes : List Attribute}
      (hgap : IsLayout gap) (hname : IsName name) (hbefore : IsLayout before) (hbehind : IsLayout behind)
      (hquote : quote = doubleQuote ∨ quote = singleQuote) (hraw : quote ∉ raw)
      (hvalue : Decodes raw value) (h : AreAttributes t attributes) :
      AreAttributes (gap ++ (name ++ (before ++ byte '=' :: (behind ++ quote :: (raw ++ quote :: t)))))
        ((name, value) :: attributes)

inductive IsTag : (name : Text) → List Attribute → Text → Prop where
  | mk {name t gap : Text} {attributes : List Attribute} (hname : IsName name) (hend : EndsName t)
      (ht : AreAttributes t attributes) (hgap : IsLayout gap) (hdistinct : (attributes.map Prod.fst).Nodup)
      (hspace : ∀ value, (ofString "xml:space", value) ∈ attributes → value = "preserve" ∨ value = "default") :
      IsTag name attributes (name ++ (t ++ gap))

/-! ## Content -/

/-- What content holds: character data with references resolved, and elements. -/
inductive Part where
  | characters (value : Text)
  | element (name : Text) (attributes : List Attribute) (content : List Part)

inductive IsContent : Text → List Part → Prop where
  | nil : IsContent [] []
  | comment {body t : Text} {parts : List Part} (hbody : EndsAt "-->" body) (h : IsContent t parts) :
      IsContent ("<!--" ++ (body ++ "-->" ++ t)) parts
  | cdata {body t : Text} {parts : List Part} (hbody : EndsAt "]]>" body) (h : IsContent t parts) :
      IsContent ("<![CDATA[" ++ (body ++ "]]>" ++ t)) (.characters body :: parts)
  | instruction {body t : Text} {parts : List Part} (hbody : EndsAt "?>" body) (h : IsContent t parts) :
      IsContent ("<?" ++ (body ++ "?>" ++ t)) parts
  | doctype {body t : Text} {parts : List Part} (hbody : IsDoctypeBody body) (h : IsContent t parts) :
      IsContent ("<!DOCTYPE" ++ (body ++ ">" ++ t)) parts
  | characters {raw value t : Text} {parts : List Part} (hne : raw ≠ []) (hraw : byte '<' ∉ raw)
      (hvalue : Decodes raw value) (hend : ∀ b ∈ t.head?, b = byte '<') (h : IsContent t parts) :
      IsContent (raw ++ t) (.characters value :: parts)
  | closed {name tag t : Text} {attributes : List Attribute} {parts : List Part}
      (htag : IsTag name attributes tag) (h : IsContent t parts) :
      IsContent ("<" ++ (tag ++ ("/>" ++ t))) (.element name attributes [] :: parts)
  | element {name tag inner gap t : Text} {attributes : List Attribute} {content parts : List Part}
      (htag : IsTag name attributes tag) (hinner : IsContent inner content) (hgap : IsLayout gap)
      (h : IsContent t parts) :
      IsContent ("<" ++ (tag ++ (">" ++ (inner ++ ("</" ++ (name ++ (gap ++ (">" ++ t))))))))
        (.element name attributes content :: parts)

/-! ## The top level -/

def elementCount : List Part → Nat
  | [] => 0
  | .characters _ :: parts => elementCount parts
  | .element .. :: parts => elementCount parts + 1

/-- The character data between elements; there is one run more than there are elements. -/
def runs : List Part → List Text
  | [] => [[]]
  | .element .. :: parts => [] :: runs parts
  | .characters value :: parts =>
    match runs parts with
    | [] => [value]
    | run :: more => (value ++ run) :: more

structure IsDocument (parts : List Part) : Prop where
  single : elementCount parts ≤ 1
  blank : ∀ run ∈ runs parts, Text.IsBlanks run

end FlutterLayout.Markup
