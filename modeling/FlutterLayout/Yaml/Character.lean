import FlutterLayout.Text.Rune

/-!
# The characters of a YAML text

A YAML text is a list of code points.  The bytes may be UTF-8 or, with a byte order mark in front, UTF-16;
most control characters are not allowed.  `Characters.read` gives the code points with every line break
that is not a separator of its own made a line feed.
-/

namespace FlutterLayout.Yaml

/-- A text that is not YAML, or not of the shape that is asked for. -/
structure Malformed where
  deriving DecidableEq, Repr

abbrev Characters := List Rune

abbrev lineFeed : Rune := 0x0A

abbrev space : Rune := 0x20

abbrev tabulator : Rune := 0x09

abbrev byteOrderMark : Rune := 0xFEFF

/-! ## Classes -/

def isBlank (r : Rune) : Bool :=
  r = space || r = tabulator

/-- A line feed, or one of the two separators that are kept where other breaks become line feeds. -/
def isBreak (r : Rune) : Bool :=
  r = lineFeed || r = 0x2028 || r = 0x2029

def isGap (r : Rune) : Bool :=
  isBlank r || isBreak r

def startsGap (cs : Characters) : Bool :=
  match cs with
  | [] => true
  | r :: _ => isGap r

def isDigit (r : Rune) : Bool :=
  '0'.toNat ≤ r && r ≤ '9'.toNat

def isNameCharacter (r : Rune) : Bool :=
  isDigit r || ('A'.toNat ≤ r && r ≤ 'Z'.toNat) || ('a'.toNat ≤ r && r ≤ 'z'.toNat) || r = '_'.toNat
    || r = '-'.toNat

def isFlowMark (r : Rune) : Bool :=
  r = ','.toNat || r = '['.toNat || r = ']'.toNat || r = 0x7B || r = 0x7D

def hexDigit? (r : Rune) : Option Nat :=
  if r < 0x80 then Text.hexValue? r.toUInt8 else none

/-- Three dashes or three points that stand alone; at the start of a line they begin or end a document. -/
def startsDocumentMark (cs : Characters) : Bool :=
  match cs with
  | a :: b :: c :: rest =>
    a = b && b = c && (a = '-'.toNat || a = '.'.toNat) && startsGap rest
  | _ => false

/-! ## Places -/

/-- A place in a text: the characters in front of it, the lines in front of it, and the characters in front
of it on its line. -/
structure Place where
  index : Nat := 0
  line : Nat := 0
  column : Nat := 0
  deriving DecidableEq, Repr

def Place.next (p : Place) (r : Rune) : Place :=
  if isBreak r then ⟨p.index + 1, p.line + 1, 0⟩ else ⟨p.index + 1, p.line, p.column + 1⟩

def Place.after (p : Place) (cs : Characters) : Place :=
  cs.foldl Place.next p

/-! ## Reading -/

def isAllowed (r : Rune) : Bool :=
  r = tabulator || r = lineFeed || r = 0x0D || (0x20 ≤ r && r ≤ 0x7E) || r = 0x85
    || (0xA0 ≤ r && r ≤ 0xD7FF) || (0xE000 ≤ r && r ≤ 0xFFFD) || (0x10000 ≤ r && r ≤ 0x10FFFF)

/-- Makes a carriage return, with the line feed behind it if there is one, and a next-line character a line
feed. -/
def unifyBreaks : Characters → Characters
  | [] => []
  | r :: t =>
    if r = 0x0D then
      match t with
      | f :: _ => if f = lineFeed then unifyBreaks t else lineFeed :: unifyBreaks t
      | [] => [lineFeed]
    else if r = 0x85 then lineFeed :: unifyBreaks t
    else r :: unifyBreaks t

def ofUtf8 (t : Text) : Except Malformed Characters :=
  if Text.isUtf8 t then .ok (Text.runes t) else .error {}

def units (highFirst : Bool) : Text → Except Malformed (List Nat)
  | [] => .ok []
  | [_] => .error {}
  | a :: b :: t =>
    let unit := if highFirst then a.toNat * 256 + b.toNat else b.toNat * 256 + a.toNat
    (units highFirst t).map (unit :: ·)

def ofUnits : List Nat → Except Malformed Characters
  | [] => .ok []
  | u :: us =>
    if 0xDC00 ≤ u && u ≤ 0xDFFF then .error {}
    else if 0xD800 ≤ u && u ≤ 0xDBFF then
      match us with
      | v :: rest =>
        if 0xDC00 ≤ v && v ≤ 0xDFFF then
          (ofUnits rest).map ((0x10000 + (u - 0xD800) * 0x400 + (v - 0xDC00)) :: ·)
        else .error {}
      | [] => .error {}
    else (ofUnits us).map (u :: ·)

def decode (t : Text) : Except Malformed Characters :=
  match t with
  | 0xFF :: 0xFE :: rest => (units false rest).bind ofUnits
  | 0xFE :: 0xFF :: rest => (units true rest).bind ofUnits
  | 0xEF :: 0xBB :: 0xBF :: rest => ofUtf8 rest
  | _ => ofUtf8 t

def Characters.read (t : Text) : Except Malformed Characters :=
  (decode t).bind fun cs => if cs.all isAllowed then .ok (unifyBreaks cs) else .error {}

def Characters.text (cs : Characters) : Text :=
  cs.flatMap Text.ofRune

end FlutterLayout.Yaml
