import FlutterLayout.Text.Quoted

/-!
# SHA-256

The digest of a text: eight words of 32 bits, changed by one round for each word of a schedule that is
computed from each block of 64 bytes.
-/

namespace FlutterLayout.Digest

structure Words where
  a : UInt32
  b : UInt32
  c : UInt32
  d : UInt32
  e : UInt32
  f : UInt32
  g : UInt32
  h : UInt32
  deriving DecidableEq, Repr

def Words.start : Words :=
  ⟨0x6a09e667, 0xbb67ae85, 0x3c6ef372, 0xa54ff53a, 0x510e527f, 0x9b05688c, 0x1f83d9ab, 0x5be0cd19⟩

def roundConstants : List UInt32 :=
  [0x428a2f98, 0x71374491, 0xb5c0fbcf, 0xe9b5dba5, 0x3956c25b, 0x59f111f1, 0x923f82a4, 0xab1c5ed5,
    0xd807aa98, 0x12835b01, 0x243185be, 0x550c7dc3, 0x72be5d74, 0x80deb1fe, 0x9bdc06a7, 0xc19bf174,
    0xe49b69c1, 0xefbe4786, 0x0fc19dc6, 0x240ca1cc, 0x2de92c6f, 0x4a7484aa, 0x5cb0a9dc, 0x76f988da,
    0x983e5152, 0xa831c66d, 0xb00327c8, 0xbf597fc7, 0xc6e00bf3, 0xd5a79147, 0x06ca6351, 0x14292967,
    0x27b70a85, 0x2e1b2138, 0x4d2c6dfc, 0x53380d13, 0x650a7354, 0x766a0abb, 0x81c2c92e, 0x92722c85,
    0xa2bfe8a1, 0xa81a664b, 0xc24b8b70, 0xc76c51a3, 0xd192e819, 0xd6990624, 0xf40e3585, 0x106aa070,
    0x19a4c116, 0x1e376c08, 0x2748774c, 0x34b0bcb5, 0x391c0cb3, 0x4ed8aa4a, 0x5b9cca4f, 0x682e6ff3,
    0x748f82ee, 0x78a5636f, 0x84c87814, 0x8cc70208, 0x90befffa, 0xa4506ceb, 0xbef9a3f7, 0xc67178f2]

def turned (x n : UInt32) : UInt32 :=
  (x >>> n) ||| (x <<< (32 - n))

def bigEndian (width n : Nat) : Text :=
  (List.range width).map fun i => (n >>> (8 * (width - 1 - i))).toUInt8

def padded (t : Text) : Text :=
  let zeros := (119 - t.length % 64) % 64
  t ++ 0x80 :: List.replicate zeros 0 ++ bigEndian 8 (8 * t.length)

def blockWords : Text → List UInt32
  | a :: b :: c :: d :: t =>
    ((a.toUInt32 <<< 24) ||| (b.toUInt32 <<< 16) ||| (c.toUInt32 <<< 8) ||| d.toUInt32) :: blockWords t
  | _ => []

def extendSchedule : (n : Nat) → List UInt32 → List UInt32
  | 0, ws => ws
  | n + 1, ws =>
    let word (i : Nat) : UInt32 := (ws[i]?).getD 0
    let x := word 14
    let y := word 1
    let s0 := turned x 7 ^^^ turned x 18 ^^^ (x >>> 3)
    let s1 := turned y 17 ^^^ turned y 19 ^^^ (y >>> 10)
    extendSchedule n ((word 15 + s0 + word 6 + s1) :: ws)

def schedule (block : Text) : List UInt32 :=
  (extendSchedule 48 (blockWords block).reverse).reverse

def round (s : Words) (kw : UInt32 × UInt32) : Words :=
  let s1 := turned s.e 6 ^^^ turned s.e 11 ^^^ turned s.e 25
  let choice := (s.e &&& s.f) ^^^ (~~~s.e &&& s.g)
  let t1 := s.h + s1 + choice + kw.1 + kw.2
  let s0 := turned s.a 2 ^^^ turned s.a 13 ^^^ turned s.a 22
  let majority := (s.a &&& s.b) ^^^ (s.a &&& s.c) ^^^ (s.b &&& s.c)
  ⟨t1 + s0 + majority, s.a, s.b, s.c, s.d + t1, s.e, s.f, s.g⟩

def absorb (s : Words) (block : Text) : Words :=
  let r := (roundConstants.zip (schedule block)).foldl round s
  ⟨s.a + r.a, s.b + r.b, s.c + r.c, s.d + r.d, s.e + r.e, s.f + r.f, s.g + r.g, s.h + r.h⟩

def absorbAll : (n : Nat) → Words → Text → Words
  | 0, s, _ => s
  | n + 1, s, t => absorbAll n (absorb s (t.take 64)) (t.drop 64)

def sha256 (t : Text) : Text :=
  let p := padded t
  let s := absorbAll (p.length / 64) Words.start p
  [s.a, s.b, s.c, s.d, s.e, s.f, s.g, s.h].flatMap fun w => bigEndian 4 w.toNat

def hex (t : Text) : Text :=
  t.flatMap fun b => Text.hexNumeral 2 b.toNat

end FlutterLayout.Digest
