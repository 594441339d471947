import FlutterLayout.Text.Basic

/-!
# Runes — reading text as UTF-8

A rune is a code point.  Text is read one rune at a time; a byte that starts no well-formed UTF-8
sequence stands for itself alone.

A set of code points is written as the increasing list of its borders: the first member of a run,
then the first code point behind it, and so on.  A code point belongs to the set when an odd number
of borders is at or below it.  A long list is given by the distances from each border to the next.

Two names are the same without regard to case when they fold to the same text.  Besides the ASCII letters,
two characters fold to one: the long s and the kelvin sign.
-/

namespace FlutterLayout

abbrev Rune := Nat

namespace Text

def replacementRune : Rune := 0xFFFD

def isContinuation (b : UInt8) : Bool :=
  0x80 ≤ b && b ≤ 0xBF

def isRuneStart (b : UInt8) : Bool :=
  !isContinuation b

def continuationBits (b : UInt8) : Nat :=
  b.toNat - 0x80

def secondOfThree (a : UInt8) : UInt8 × UInt8 :=
  if a = 0xE0 then (0xA0, 0xBF) else if a = 0xED then (0x80, 0x9F) else (0x80, 0xBF)

def secondOfFour (a : UInt8) : UInt8 × UInt8 :=
  if a = 0xF0 then (0x90, 0xBF) else if a = 0xF4 then (0x80, 0x8F) else (0x80, 0xBF)

/-- The rune whose bytes are `a` and the first bytes of `t`, with the number of bytes it takes. -/
def leadingRune? (a : UInt8) (t : Text) : Option (Rune × Nat) :=
  if a < 0x80 then some (a.toNat, 1)
  else if 0xC2 ≤ a && a ≤ 0xDF then
    match t with
    | b :: _ =>
      if isContinuation b then some ((a.toNat - 0xC0) * 0x40 + continuationBits b, 2) else none
    | _ => none
  else if 0xE0 ≤ a && a ≤ 0xEF then
    match t with
    | b :: c :: _ =>
      if (secondOfThree a).1 ≤ b && b ≤ (secondOfThree a).2 && isContinuation c then
        some ((a.toNat - 0xE0) * 0x1000 + continuationBits b * 0x40 + continuationBits c, 3)
      else none
    | _ => none
  else if 0xF0 ≤ a && a ≤ 0xF4 then
    match t with
    | b :: c :: d :: _ =>
      if (secondOfFour a).1 ≤ b && b ≤ (secondOfFour a).2 && isContinuation c && isContinuation d then
        some ((a.toNat - 0xF0) * 0x40000 + continuationBits b * 0x1000 + continuationBits c * 0x40
          + continuationBits d, 4)
      else none
    | _ => none
  else none

/-- A rune with its bytes, or a stray byte. -/
structure Segment where
  rune? : Option Rune
  bytes : Text
  deriving DecidableEq, Repr

def Segment.rune (s : Segment) : Rune :=
  s.rune?.getD replacementRune

/-- The segments of a text of which the first `skip` bytes belong to a segment already cut off. -/
def segmentsFrom : (skip : Nat) → Text → List Segment
  | _, [] => []
  | skip + 1, _ :: t => segmentsFrom skip t
  | 0, a :: t =>
    match leadingRune? a t with
    | some (r, n) => ⟨some r, a :: t.take (n - 1)⟩ :: segmentsFrom (n - 1) t
    | none => ⟨none, [a]⟩ :: segmentsFrom 0 t

def segments (t : Text) : List Segment :=
  segmentsFrom 0 t

def runes (t : Text) : List Rune :=
  (segments t).map Segment.rune

def isUtf8 (t : Text) : Bool :=
  (segments t).all fun s => s.rune?.isSome

def isScalar (r : Rune) : Bool :=
  r < 0xD800 || (0xE000 ≤ r && r ≤ 0x10FFFF)

/-- The bytes of a code point; U+FFFD for what is no scalar value. -/
def ofRune (r : Rune) : Text :=
  if r < 0x80 then [r.toUInt8]
  else if r < 0x800 then [(0xC0 + r / 0x40).toUInt8, (0x80 + r % 0x40).toUInt8]
  else if !isScalar r then [0xEF, 0xBF, 0xBD]
  else if r < 0x10000 then
    [(0xE0 + r / 0x1000).toUInt8, (0x80 + r / 0x40 % 0x40).toUInt8, (0x80 + r % 0x40).toUInt8]
  else
    [(0xF0 + r / 0x40000).toUInt8, (0x80 + r / 0x1000 % 0x40).toUInt8,
      (0x80 + r / 0x40 % 0x40).toUInt8, (0x80 + r % 0x40).toUInt8]

/-! ## Sets of runes -/

/-- The borders at these distances, each from the one before it and the first from `last`. -/
def bordersFrom (last : Rune) : (distances : List Nat) → List Rune
  | [] => []
  | distance :: distances => (last + distance) :: bordersFrom (last + distance) distances

/-- `r` belongs to the set with these borders; `inside` tells whether what lies below does. -/
def withinFrom (inside : Bool) : List Rune → Rune → Bool
  | [], _ => inside
  | border :: borders, r => if r < border then inside else withinFrom (!inside) borders r

def within (borders : List Rune) (r : Rune) : Bool :=
  withinFrom false borders r

/-! ## Text without regard to case -/

def foldRune (r : Rune) : Rune :=
  if 0x41 ≤ r && r ≤ 0x5A then r + 0x20
  else if r = 0x17F then 0x73
  else if r = 0x212A then 0x6B
  else r

def folded (t : Text) : List Rune :=
  (runes t).map foldRune

def sameFolded (s t : Text) : Bool :=
  folded s = folded t

end Text
end FlutterLayout
