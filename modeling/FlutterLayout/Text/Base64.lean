import FlutterLayout.Text.Basic

/-!
# Base 64

Four characters stand for three bytes.  One or two equality signs fill up the last four characters.  Line
breaks count for nothing.
-/

namespace FlutterLayout.Text
namespace Base64

def value? (b : UInt8) : Option Nat :=
  if isAsciiUpper b then some (b.toNat - 65)
  else if isAsciiLower b then some (b.toNat - 97 + 26)
  else if isAsciiDigit b then some (b.toNat - 48 + 52)
  else if b = byte '+' then some 62
  else if b = byte '/' then some 63
  else none

abbrev filler : UInt8 := 0x3D

def last? (a b c d : UInt8) : Option Text := do
  let a ← value? a
  let b ← value? b
  let first := (a * 4 + b / 16).toUInt8
  if c = filler then
    if d = filler then some [first] else none
  else
    let c ← value? c
    let second := (b % 16 * 16 + c / 4).toUInt8
    if d = filler then some [first, second]
    else
      let d ← value? d
      some [first, second, (c % 4 * 64 + d).toUInt8]

def groups? : Text → Option Text
  | [] => some []
  | a :: b :: c :: d :: rest => do
    let bytes ← last? a b c d
    if d = filler && !rest.isEmpty then none
    let more ← groups? rest
    some (bytes ++ more)
  | _ => none

def decode? (t : Text) : Option Text :=
  groups? (t.filter fun b => b ≠ lineFeed && b ≠ carriageReturn)

end Base64
end FlutterLayout.Text
