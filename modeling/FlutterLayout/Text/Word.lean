import FlutterLayout.Text.Rune

/-!
# Words — looking for a name in an expression

A name occurs in a text as a whole word when its runes stand there and there is a word border before
and behind them.  A word border lies between a word rune (an ASCII letter, an ASCII digit or an
underscore) and anything else, the ends of the text included.
-/

namespace FlutterLayout.Text

def isWordRune (r : Rune) : Bool :=
  r < 0x80 && (isAsciiAlnum r.toUInt8 || r = 0x5F)

/-- There is a word border between two runes, or between a rune and the end of the text. -/
def isWordBorder (before behind : Option Rune) : Bool :=
  (before.map isWordRune).getD false != (behind.map isWordRune).getD false

def afterRunes? : (name t : List Rune) → Option (List Rune)
  | [], t => some t
  | _ :: _, [] => none
  | a :: name, b :: t => if a = b then afterRunes? name t else none

/-- The runes `name` stand as a whole word at the start of `t`, behind the rune `before`. -/
def wordStarts (name : List Rune) (before : Option Rune) (t : List Rune) : Bool :=
  isWordBorder before t.head? &&
    match afterRunes? name t with
    | some rest => isWordBorder (name.getLast?.or before) rest.head?
    | none => false

/-- The runes `name` stand as a whole word somewhere in `t`, behind the rune `before`. -/
def wordOccurs (name : List Rune) (before : Option Rune) : List Rune → Bool
  | [] => wordStarts name before []
  | b :: t => wordStarts name before (b :: t) || wordOccurs name (some b) t

/-- A name that cannot be looked for because it is not UTF-8. -/
structure UnreadableName where
  name : Text
  deriving DecidableEq, Repr

def UnreadableName.message (e : UnreadableName) : Text :=
  "invalid UTF-8 in bound name: " ++ e.name

/-- One of the names occurs in the text as a whole word.  Empty names are passed over, and the names
behind the first that occurs are not looked at. -/
def mentionsAny (t : Text) : List Text → Except UnreadableName Bool
  | [] => .ok false
  | name :: names =>
    if name.isEmpty then mentionsAny t names
    else if !isUtf8 name then .error ⟨name⟩
    else if wordOccurs (runes name) none (runes t) then .ok true
    else mentionsAny t names

end FlutterLayout.Text
