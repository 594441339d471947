/-!
# Text — byte strings

Layout sources, attribute values and generated code are strings of bytes: they are almost always
UTF-8, but nothing forces them to be.
-/

namespace FlutterLayout

abbrev Text := List UInt8

namespace Text

def ofString (s : String) : Text :=
  s.toList.flatMap String.utf8EncodeChar

instance : Coe String Text := ⟨ofString⟩

abbrev byte (c : Char) : UInt8 :=
  c.toUInt8

abbrev lineFeed : UInt8 := 0x0A

abbrev carriageReturn : UInt8 := 0x0D

abbrev tabulator : UInt8 := 0x09

abbrev space : UInt8 := 0x20

abbrev doubleQuote : UInt8 := 0x22

abbrev singleQuote : UInt8 := 0x27

abbrev backslash : UInt8 := 0x5C

def ofNat (n : Nat) : Text :=
  (Nat.toDigits 10 n).map fun c => c.toUInt8

def ofInt : Int → Text
  | .ofNat n => ofNat n
  | .negSucc n => byte '-' :: ofNat (n + 1)

/-! ## ASCII classes -/

def isAsciiDigit (b : UInt8) : Bool :=
  0x30 ≤ b && b ≤ 0x39

def isAsciiUpper (b : UInt8) : Bool :=
  0x41 ≤ b && b ≤ 0x5A

def isAsciiLower (b : UInt8) : Bool :=
  0x61 ≤ b && b ≤ 0x7A

def isAsciiAlnum (b : UInt8) : Bool :=
  isAsciiDigit b || isAsciiUpper b || isAsciiLower b

def hexValue? (b : UInt8) : Option Nat :=
  if isAsciiDigit b then some (b.toNat - 0x30)
  else if 0x61 ≤ b && b ≤ 0x66 then some (b.toNat - 0x61 + 10)
  else if 0x41 ≤ b && b ≤ 0x46 then some (b.toNat - 0x41 + 10)
  else none

def hexDigit (n : Nat) : UInt8 :=
  if n < 10 then (0x30 + n).toUInt8 else (0x61 + (n - 10)).toUInt8

/-- An ASCII capital made small; every other byte is kept. -/
def lowerByte (b : UInt8) : UInt8 :=
  if isAsciiUpper b then b + 0x20 else b

/-- An ASCII small letter made capital; every other byte is kept. -/
def upperByte (b : UInt8) : UInt8 :=
  if isAsciiLower b then b - 0x20 else b

/-! ## Search -/

def after? : (p t : Text) → Option Text
  | [], t => some t
  | _ :: _, [] => none
  | a :: p, b :: t => if a = b then after? p t else none

def startsWith (p t : Text) : Bool :=
  (after? p t).isSome

def endsWith (p t : Text) : Bool :=
  startsWith p.reverse t.reverse

def withoutLeading (p t : Text) : Text :=
  (after? p t).getD t

def withoutTrailing (p t : Text) : Text :=
  match after? p.reverse t.reverse with
  | some rest => rest.reverse
  | none => t

def cut? (sep : Text) : Text → Option (Text × Text)
  | [] => (after? sep []).map fun rest => ([], rest)
  | b :: t =>
    match after? sep (b :: t) with
    | some rest => some ([], rest)
    | none => (cut? sep t).map fun (before, rest) => (b :: before, rest)

def contains (part t : Text) : Bool :=
  (cut? part t).isSome

/-- The pieces of `t` between the bytes equal to `sep`; there is always at least one. -/
def splitOn (sep : UInt8) : Text → List Text
  | [] => [[]]
  | b :: t =>
    if b = sep then [] :: splitOn sep t
    else
      match splitOn sep t with
      | [] => [[b]]
      | piece :: pieces => (b :: piece) :: pieces

/-- Replaces occurrences of `old` from left to right; the first `skip` bytes belong to an occurrence
that has been replaced already. -/
def replaceFrom (old new : Text) : (skip : Nat) → Text → Text
  | _, [] => []
  | skip + 1, _ :: t => replaceFrom old new skip t
  | 0, b :: t =>
    if startsWith old (b :: t) then new ++ replaceFrom old new (old.length - 1) t
    else b :: replaceFrom old new 0 t

/-- Replaces every occurrence of the non-empty text `old`, from left to right and without looking at
what was put in. -/
def replaceAll (old new t : Text) : Text :=
  replaceFrom old new 0 t

/-! ## What was cut -/

theorem after?_eq_some_iff : after? p t = some rest ↔ t = p ++ rest := by
  induction p generalizing t with
  | nil => simp [after?, eq_comm]
  | cons x p ih =>
    cases t with
    | nil => simp [after?]
    | cons y t =>
      rw [after?]
      split
      · rename_i hxy
        subst hxy
        simp [ih]
      · rename_i hxy
        simp [Ne.symm hxy]

theorem eq_of_cut? (h : cut? sep t = some (before, rest)) : t = before ++ sep ++ rest := by
  induction t generalizing before with
  | nil =>
    rw [cut?] at h
    obtain ⟨r, hr, he⟩ := Option.map_eq_some_iff.1 h
    cases he
    simpa using after?_eq_some_iff.1 hr
  | cons b t ih =>
    rw [cut?] at h
    split at h
    · rename_i r hr
      cases h
      simpa using after?_eq_some_iff.1 hr
    · obtain ⟨⟨x, y⟩, hxy, he⟩ := Option.map_eq_some_iff.1 h
      cases he
      simp [ih hxy]

theorem length_cut? (h : cut? sep t = some (before, rest)) :
    t.length = before.length + sep.length + rest.length := by
  rw [eq_of_cut? h, List.length_append, List.length_append]

/-! ## Pieces and order -/

def repeated (n : Nat) (t : Text) : Text :=
  (List.replicate n t).flatten

def join (sep : Text) (pieces : List Text) : Text :=
  sep.intercalate pieces

def compareBytes : (s t : Text) → Ordering
  | [], [] => .eq
  | [], _ :: _ => .lt
  | _ :: _, [] => .gt
  | a :: s, b :: t => (compare a b).then (compareBytes s t)

def le (s t : Text) : Bool :=
  compareBytes s t != .gt

/-- Texts in byte-wise order; equal ones stay in the order they came in. -/
def sorted (ts : List Text) : List Text :=
  ts.mergeSort le

end Text
end FlutterLayout
