import FlutterLayout.Number.Double
import FlutterLayout.Text.Base64
import FlutterLayout.Time.Timestamp
import FlutterLayout.Yaml.Node

/-!
# Values of scalars

A plain scalar has the type it looks like: nothing, a truth value, an integer, a number, a point in time or
else a string.  A tag demands a type; `Scalar.value` fails when the scalar does not look like it.
-/

namespace FlutterLayout.Yaml

inductive Value where
  | null
  | bool (b : Bool)
  | int (n : Int)
  | float (x : Number.Double)
  | infinite (isNegative : Bool)
  | notANumber
  | time (t : Timestamp)
  | string (t : Text)
  | list (items : List Value)
  | map (stringKeys : Bool) (entries : List (Value × Value))

/-! ## Looks -/

def nullWords : List Text := [[], "~", "null", "Null", "NULL"]

def trueWords : List Text := ["true", "True", "TRUE"]

def falseWords : List Text := ["false", "False", "FALSE"]

def notANumberWords : List Text := [".nan", ".NaN", ".NAN"]

def infinityWords : List Text := [".inf", ".Inf", ".INF", "+.inf", "+.Inf", "+.INF"]

def negativeInfinityWords : List Text := ["-.inf", "-.Inf", "-.INF"]

def withoutUnderscores (t : Text) : Text :=
  t.filter fun b => b ≠ Text.byte '_'

def integerBy? (readInt : Text → Except Number.Fault Int) (readNat : Text → Except Number.Fault Nat)
    (t : Text) : Option Int :=
  match readInt t with
  | .ok n => some n
  | .error _ =>
    match readNat t with
    | .ok n => some n
    | .error _ => none

/-- The integer a plain scalar stands for.  Behind a mark of base two or eight the digits may have a
sign. -/
def integer? (t : Text) : Option Int :=
  let inBase (base : Nat) (digits : Text) : Option Int :=
    integerBy? (Number.readIntIn base) (Number.readNatIn base Number.maxUnsigned) digits
  (integerBy? Number.readInt (Number.readNat Number.maxUnsigned) t).or
    ((Text.after? "0b" t).bind (inBase 2) |>.or ((Text.after? "0o" t).bind (inBase 8)))

def number? (t : Text) : Option Number.Double :=
  (Number.Decimal.read? t).bind Number.Double.ofDecimal?

def looksLikeDate (t : Text) : Bool :=
  (t.takeWhile Text.isAsciiDigit).length = 4 && t[4]? = some (Text.byte '-')

def numeric (maybeTime : Bool) (t : Text) : Value :=
  match t with
  | [] => .null
  | b :: _ =>
    if b = Text.byte '.' then (number? t).elim (.string t) .float
    else if Text.isAsciiDigit b || b = Text.byte '+' || b = Text.byte '-' then
      match if maybeTime && looksLikeDate t then Timestamp.readLoose? t else none with
      | some time => .time time
      | none =>
        let plain := withoutUnderscores t
        match integer? plain with
        | some n => .int n
        | none => (number? plain).elim (.string t) .float
    else .string t

def looks (maybeTime : Bool) (t : Text) : Value :=
  if nullWords.contains t then .null
  else if trueWords.contains t then .bool true
  else if falseWords.contains t then .bool false
  else if notANumberWords.contains t then .notANumber
  else if infinityWords.contains t then .infinite false
  else if negativeInfinityWords.contains t then .infinite true
  else numeric maybeTime t

/-! ## Tags -/

def Value.tag : Value → Text
  | null => Tag.null
  | bool _ => Tag.bool
  | int _ => Tag.int
  | float _ | infinite _ | notANumber => Tag.float
  | time _ => Tag.timestamp
  | string _ => Tag.string
  | list _ => "!!seq"
  | map _ _ => "!!map"

def ofInteger (n : Int) : Value :=
  match Number.Double.ofDecimal? ⟨n < 0, n.natAbs, 0⟩ with
  | some x => .float x
  | none => .infinite (n < 0)

/-- The value of a scalar that must have the type of a tag.  An integer of 64 bits will do for a number. -/
def demanded (tag text : Text) : Except Malformed Value :=
  let v := looks (tag = Tag.timestamp) text
  if v.tag = tag then .ok v
  else
    match v with
    | .int n => if tag = Tag.float && n < Number.signedLimit then .ok (ofInteger n) else .error {}
    | _ => .error {}

def demandingTags : List Text := [Tag.bool, Tag.int, Tag.float, Tag.null, Tag.timestamp]

namespace Scalar

def value (s : Scalar) : Except Malformed Value :=
  match s.tag? with
  | none => .ok (looks true s.text)
  | some tag =>
    if tag = Tag.binary then
      match Text.Base64.decode? s.text with
      | some t => .ok (.string t)
      | none => .error {}
    else if demandingTags.contains tag then demanded tag s.text
    else .ok (.string s.text)

def tag (s : Scalar) : Text :=
  s.tag?.getD (looks true s.text).tag

end Scalar

/-! ## Text -/

namespace Value

def typeName : Value → Text
  | null => "<nil>"
  | bool _ => "bool"
  | int n => if (Number.signedLimit : Int) ≤ n then "uint64" else "int"
  | float _ | infinite _ | notANumber => "float64"
  | time _ => "time.Time"
  | string _ => "string"
  | list _ => "[]interface \x7b\x7d"
  | map stringKeys _ =>
    if stringKeys then "map[string]interface \x7b\x7d" else "map[interface \x7b\x7d]interface \x7b\x7d"

def infinityText (isNegative : Bool) : Text :=
  if isNegative then "-Inf" else "+Inf"

def typeRank : Value → Nat
  | null => 0
  | bool _ => 1
  | int n => if (Number.signedLimit : Int) ≤ n then 3 else 2
  | float _ | infinite _ | notANumber => 4
  | string _ => 5
  | _ => 6

def keyLe (a b : Value) : Bool :=
  match a, b with
  | bool x, bool y => !x || y
  | int m, int n => m ≤ n
  | string s, string t => Text.le s t
  | notANumber, _ => a.typeRank ≤ b.typeRank
  | infinite x, infinite y => x || !y
  | infinite x, float _ => x
  | float _, infinite y => !y
  | float x, float y => Number.Double.le x y
  | a, b => a.typeRank ≤ b.typeRank

mutual

def shown : Value → Text
  | null => "<nil>"
  | bool b => if b then "true" else "false"
  | int n => Text.ofInt n
  | float x => x.general
  | infinite isNegative => infinityText isNegative
  | notANumber => "NaN"
  | time t => t.shown
  | string t => t
  | list items => "[" ++ Text.join " " (shownItems items) ++ "]"
  | map _ entries =>
    let ordered := (shownEntries entries).mergeSort fun x y => keyLe x.1 y.1
    "map[" ++ Text.join " " (ordered.map Prod.snd) ++ "]"

def shownItems : List Value → List Text
  | [] => []
  | v :: vs => v.shown :: shownItems vs

def shownEntries : List (Value × Value) → List (Value × Text)
  | [] => []
  | e :: es => shownEntry e :: shownEntries es

def shownEntry : Value × Value → Value × Text
  | (k, v) => (k, k.shown ++ ":" ++ v.shown)

end

end Value

end FlutterLayout.Yaml
