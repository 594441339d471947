import FlutterLayout.Text.Basic

/-!
# Numerals — decimal digits in a row

The numeral of a number is made of digits (`isAsciiDigit_of_mem_ofNat`), starts with a zero only if it is one
(`head_ofNat_ne_zero`), and tells the number (`ofNat_injective`, `ofInt_injective`).
-/

namespace FlutterLayout.Text

variable {b : UInt8} {k n : Nat}

theorem forall_isDigit {P : Char → Prop} (h : ∀ n < 58, 48 ≤ n → P (Char.ofNat n)) {d : Char}
    (hd : d.isDigit = true) : P d := by
  simp only [Char.isDigit, Bool.and_eq_true, decide_eq_true_eq, ge_iff_le, UInt32.le_iff_toNat_le] at hd
  have := h d.toNat (Nat.lt_succ_of_le hd.2) hd.1
  rwa [Char.ofNat_toNat] at this

theorem isAsciiDigit_of_mem_ofNat (hb : b ∈ ofNat n) : isAsciiDigit b = true := by
  obtain ⟨d, hd, rfl⟩ := List.mem_map.1 hb
  exact forall_isDigit (P := fun d => isAsciiDigit d.toUInt8 = true) (by decide)
    (Nat.isDigit_of_mem_toDigits (by decide) (by decide) hd)

theorem ofNat_injective (h : ofNat k = ofNat n) : k = n := by
  have hback : ∀ n, (ofNat n).map (fun b => Char.ofNat b.toNat) = Nat.toDigits 10 n := by
    intro n
    have hsame : ∀ d ∈ Nat.toDigits 10 n, Char.ofNat d.toUInt8.toNat = d := fun d hd =>
      forall_isDigit (P := fun d => Char.ofNat d.toUInt8.toNat = d) (by decide)
        (Nat.isDigit_of_mem_toDigits (by decide) (by decide) hd)
    rw [ofNat, List.map_map]
    exact (List.map_congr_left hsame).trans (List.map_id' _)
  rw [← Nat.ofDigitChars_toDigits (b := 10) (n := k) (by decide) (by decide), ← hback, h, hback,
    Nat.ofDigitChars_toDigits (by decide) (by decide)]

theorem ofNat_ne_nil (n : Nat) : ofNat n ≠ [] := by
  simp [ofNat]

theorem head_ofNat_ne_zero (h : n ≠ 0) : (ofNat n).head? ≠ some (byte '0') := by
  induction n using Nat.strongRecOn with
  | ind n ih =>
    by_cases hlt : n < 10
    · have hsmall : ∀ n < 10, n ≠ 0 → (ofNat n).head? ≠ some (byte '0') := by decide
      exact hsmall n hlt h
    · have hdigits : ofNat n = ofNat (n / 10) ++ [(n % 10).digitChar.toUInt8] := by
        rw [ofNat, Nat.toDigits_of_base_le (by decide) (Nat.le_of_not_lt hlt), List.map_append]
        rfl
      have hhead : (ofNat n).head? = (ofNat (n / 10)).head? := by
        obtain ⟨d, ds, hds⟩ := List.exists_cons_of_ne_nil (ofNat_ne_nil (n / 10))
        rw [hdigits, hds]
        rfl
      rw [hhead]
      exact ih (n / 10) (by omega) (by omega)

theorem ofInt_injective (h : ofInt i = ofInt j) : i = j := by
  have hminus : ∀ n t, ofNat n ≠ byte '-' :: t := fun n t hn =>
    absurd (isAsciiDigit_of_mem_ofNat (n := n) (hn ▸ List.mem_cons_self)) (by decide)
  cases i with
  | ofNat k =>
    cases j with
    | ofNat n => exact congrArg Int.ofNat (ofNat_injective h)
    | negSucc n => exact absurd h (hminus k _)
  | negSucc k =>
    cases j with
    | ofNat n => exact absurd h.symm (hminus n _)
    | negSucc n => exact congrArg Int.negSucc (Nat.succ.inj (ofNat_injective (List.cons.inj h).2))

end FlutterLayout.Text
