import FlutterLayout.Text.Basic

/-!
# Integer numerals

A numeral has an optional sign and digits in a base its first characters name: `0x` for sixteen, `0b` for
two, `0o` or a leading zero for eight, ten otherwise.  Underscores may stand between digits and behind the
mark of the base.
-/

namespace FlutterLayout.Number

/-- Why a text is not a number of some range. -/
inductive Fault where
  | malformed
  | outOfRange
  deriving DecidableEq, Repr

def Fault.message : Fault → Text
  | malformed => "invalid syntax"
  | outOfRange => "value out of range"

def digitValue? (b : UInt8) : Option Nat :=
  if Text.isAsciiDigit b then some (b.toNat - 48)
  else if Text.isAsciiLower (Text.lowerByte b) then some ((Text.lowerByte b).toNat - 97 + 10)
  else none

/-- Reads digits behind a number already read; underscores are passed over where `gaps` are allowed. -/
def digitsFrom (gaps : Bool) (base limit : Nat) (value : Nat) : Text → Except Fault Nat
  | [] => .ok value
  | b :: t =>
    if gaps && b = Text.byte '_' then digitsFrom gaps base limit value t
    else
      match digitValue? b with
      | none => .error .malformed
      | some d =>
        if base ≤ d then .error .malformed
        else if limit < value * base + d then .error .outOfRange
        else digitsFrom gaps base limit (value * base + d) t

def splitBase (t : Text) : Nat × Text :=
  match t with
  | zero :: mark :: d :: rest =>
    if zero = Text.byte '0' then
      if Text.lowerByte mark = Text.byte 'x' then (16, d :: rest)
      else if Text.lowerByte mark = Text.byte 'b' then (2, d :: rest)
      else if Text.lowerByte mark = Text.byte 'o' then (8, d :: rest)
      else (8, mark :: d :: rest)
    else (10, t)
  | b :: rest => if b = Text.byte '0' then (8, rest) else (10, t)
  | [] => (10, [])

/-- What stands in front of a position in a numeral. -/
inductive Before where
  | start
  | digit
  | underscore
  | other
  deriving DecidableEq, Repr

def underscoresFrom (hex : Bool) (before : Before) : Text → Bool
  | [] => before ≠ .underscore
  | b :: t =>
    let letter := Text.lowerByte b
    if Text.isAsciiDigit b || (hex && Text.byte 'a' ≤ letter && letter ≤ Text.byte 'f') then
      underscoresFrom hex .digit t
    else if b = Text.byte '_' then before = .digit && underscoresFrom hex .underscore t
    else before ≠ .underscore && underscoresFrom hex .other t

/-- Every underscore of a numeral without sign stands between digits or behind the mark of the base. -/
def underscoresStandWell (t : Text) : Bool :=
  match t with
  | zero :: mark :: rest =>
    let letter := Text.lowerByte mark
    if zero = Text.byte '0' && letter ∈ [Text.byte 'x', Text.byte 'b', Text.byte 'o'] then
      underscoresFrom (letter = Text.byte 'x') .digit rest
    else underscoresFrom false .start t
  | _ => underscoresFrom false .start t

def readNat (limit : Nat) (t : Text) : Except Fault Nat :=
  if t.isEmpty then .error .malformed
  else
    let (base, digits) := splitBase t
    match digitsFrom true base limit 0 digits with
    | .error f => .error f
    | .ok n => if underscoresStandWell t then .ok n else .error .malformed

def maxUnsigned : Nat := 18446744073709551615

def maxWord : Nat := 4294967295

def signedLimit : Nat := 9223372036854775808

def splitSign (t : Text) : Bool × Text :=
  match t with
  | b :: rest =>
    if b = Text.byte '-' then (true, rest) else if b = Text.byte '+' then (false, rest) else (false, t)
  | [] => (false, [])

def readSigned (readDigits : Text → Except Fault Nat) (t : Text) : Except Fault Int :=
  let (negative, digits) := splitSign t
  match readDigits digits with
  | .error f => .error f
  | .ok n =>
    if negative then
      if signedLimit < n then .error .outOfRange else .ok (-(n : Int))
    else if signedLimit ≤ n then .error .outOfRange
    else .ok n

def readInt (t : Text) : Except Fault Int :=
  readSigned (readNat maxUnsigned) t

/-- Reads digits of a known base. -/
def readNatIn (base limit : Nat) (t : Text) : Except Fault Nat :=
  if t.isEmpty then .error .malformed else digitsFrom false base limit 0 t

def readIntIn (base : Nat) (t : Text) : Except Fault Int :=
  readSigned (readNatIn base maxUnsigned) t

end FlutterLayout.Number
