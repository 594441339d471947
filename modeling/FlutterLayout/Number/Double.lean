import FlutterLayout.Number.Integer

/-!
# Binary numbers of 53 digits

A `Double` is a number `± mantissa * 2 ^ exponent` with a mantissa below `2 ^ 53`.  `ofDecimal?` takes the
nearest one, a tie going to the even mantissa; `shortest` gives the fewest decimal digits that still stand
for the number, and of those the nearest to it.
-/

namespace FlutterLayout.Number

/-! ## Decimal numbers

A `Decimal` is a coefficient and a power of ten.  It is written with an optional sign, digits with an
optional point among them, and an optional exponent. -/

/-- The number `± coefficient * 10 ^ exponent`. -/
structure Decimal where
  isNegative : Bool
  coefficient : Nat
  exponent : Int
  deriving DecidableEq, Repr

namespace Decimal

def digitsValue (digits : Text) : Nat :=
  digits.foldl (fun n b => 10 * n + (b.toNat - 48)) 0

def readExponent? (t : Text) : Option Int :=
  match t with
  | [] => some 0
  | mark :: rest =>
    if Text.lowerByte mark = Text.byte 'e' then
      let (negative, digits) := splitSign rest
      if digits.isEmpty || !digits.all Text.isAsciiDigit then none
      else some (if negative then -(digitsValue digits : Int) else digitsValue digits)
    else none

def read? (t : Text) : Option Decimal :=
  let (negative, t) := splitSign t
  let whole := t.takeWhile Text.isAsciiDigit
  let rest := t.dropWhile Text.isAsciiDigit
  let (places, rest) :=
    match rest with
    | b :: more =>
      if b = Text.byte '.' then (more.takeWhile Text.isAsciiDigit, more.dropWhile Text.isAsciiDigit)
      else ([], rest)
    | [] => ([], [])
  if whole.isEmpty && places.isEmpty then none
  else
    (readExponent? rest).map fun e =>
      ⟨negative, digitsValue (whole ++ places), e - places.length⟩

end Decimal

/-! ## Doubles -/

/-- The number `± mantissa * 2 ^ exponent`. -/
structure Double where
  isNegative : Bool
  mantissa : Nat
  exponent : Int
  deriving DecidableEq, Repr

namespace Double

def minExponent : Int := -1074

def maxExponent : Int := 971

def mantissaLimit : Nat := 9007199254740992

def scaled (b n d : Nat) (e : Int) : Nat × Nat :=
  if e < 0 then (n * Nat.pow b (-e).toNat, d) else (n, d * Nat.pow b e.toNat)

def roundFraction (f : Nat × Nat) : Nat :=
  let q := f.1 / f.2
  let r := f.1 % f.2
  if 2 * r < f.2 then q else if f.2 < 2 * r then q + 1 else if q % 2 = 0 then q else q + 1

def nearest (n d : Nat) : Nat × Int :=
  let e : Int := (Nat.log2 n : Int) - Nat.log2 d - 53
  let e := if mantissaLimit ≤ (scaled 2 n d e).1 / (scaled 2 n d e).2 then e + 1 else e
  let e := if e < minExponent then minExponent else e
  let m := roundFraction (scaled 2 n d e)
  if m = mantissaLimit then (m / 2, e + 1) else (m, e)

def digitCount (n : Nat) : Nat :=
  (Nat.toDigits 10 n).length

/-- The nearest number to a decimal; none when it is too large. -/
def ofDecimal? (x : Decimal) : Option Double :=
  let size : Int := digitCount x.coefficient + x.exponent
  if x.coefficient = 0 || size < -400 then some ⟨x.isNegative, 0, minExponent⟩
  else if 400 < size then none
  else
    let (n, d) := scaled 10 x.coefficient 1 (-x.exponent)
    let (m, e) := nearest n d
    if maxExponent < e then none else some ⟨x.isNegative, m, e⟩

def isZero (x : Double) : Bool :=
  x.mantissa = 0

def wholePart (x : Double) : Nat :=
  let (n, d) := scaled 2 x.mantissa 1 (-x.exponent)
  n / d

def le (x y : Double) : Bool :=
  let signed (x : Double) : Int := if x.isNegative then -(x.mantissa : Int) else x.mantissa
  let low := min x.exponent y.exponent
  let aligned (x : Double) : Int := signed x * Nat.pow 2 (x.exponent - low).toNat
  aligned x ≤ aligned y

/-! ## Shortest digits -/

def standsFor (m : Nat) (e : Int) (c : Nat) (p : Int) : Bool :=
  let narrow := m = mantissaLimit / 2 && minExponent < e
  let low := if narrow then 4 * m - 1 else 4 * m - 2
  let high := 4 * m + 2
  let (n, d) := scaled 10 c 1 (-p)
  let (s, u) := scaled 2 1 1 (2 - e)
  let left := low * s * d
  let middle := n * u
  let right := high * s * d
  if m % 2 = 0 then left ≤ middle && middle ≤ right else left < middle && middle < right

/-- Of the two multiples of `10 ^ p` next to a fraction those that stand for the number, the nearest
first. -/
def candidates (m : Nat) (e : Int) (p : Int) : List Nat :=
  let (n, d) := scaled 2 m 1 (-e)
  let (n, d) := scaled 10 n d p
  let below := n / d
  let pair := if 2 * (n % d) < d || (2 * (n % d) = d && below % 2 = 0) then [below, below + 1]
    else [below + 1, below]
  pair.filter fun c => standsFor m e c p

/-- The first decimal that stands for a number among those with ever smaller units, beginning with
`10 ^ p`. -/
def shortestFrom (m : Nat) (e : Int) : (fuel : Nat) → (p : Int) → Nat × Int
  | 0, p => (0, p)
  | fuel + 1, p =>
    match candidates m e p with
    | c :: _ => (c, p)
    | [] => shortestFrom m e fuel (p - 1)

def withoutZeros : (fuel : Nat) → Nat × Int → Nat × Int
  | 0, x => x
  | fuel + 1, (c, p) => if c ≠ 0 && c % 10 = 0 then withoutZeros fuel (c / 10, p + 1) else (c, p)

def shortest (x : Double) : Decimal :=
  if x.isZero then ⟨x.isNegative, 0, 0⟩
  else
    let (n, d) := scaled 2 x.mantissa 1 (-x.exponent)
    let top : Int := if n < d then 0 else digitCount (n / d)
    let (c, p) := withoutZeros 400 (shortestFrom x.mantissa x.exponent 800 top)
    ⟨x.isNegative, c, p⟩

/-! ## Text -/

def sign (x : Double) : Text :=
  if x.isNegative then "-" else []

def positional (x : Double) : Text :=
  let s := x.shortest
  let digits := Text.ofNat s.coefficient
  let unsigned : Text :=
    if 0 ≤ s.exponent then digits ++ List.replicate s.exponent.toNat (Text.byte '0')
    else
      let places := (-s.exponent).toNat
      let padded := List.replicate (places + 1 - digits.length) (Text.byte '0') ++ digits
      padded.take (padded.length - places) ++ "." ++ padded.drop (padded.length - places)
  x.sign ++ unsigned

/-- The shortest text of a number; very small and large ones have an exponent. -/
def general (x : Double) : Text :=
  let s := x.shortest
  let digits := Text.ofNat s.coefficient
  let e : Int := if x.isZero then 0 else s.exponent + digits.length - 1
  if e < -4 || 6 ≤ e then
    let places : Text := if digits.length ≤ 1 then [] else "." ++ digits.drop 1
    let size := Text.ofNat e.natAbs
    let size : Text := if size.length < 2 then "0" ++ size else size
    let mark : Text := if e < 0 then "e-" else "e+"
    x.sign ++ digits.take 1 ++ places ++ mark ++ size
  else x.positional

end Double

end FlutterLayout.Number
