import FlutterLayout.Proofs.Text.Trimming

/-!
# Replacing — occurrences from left to right

`replaceAll` one occurrence at a time: it replaces what it finds at the start (`replaceAll_append_self`),
passes over a byte at which nothing is found (`replaceAll_cons`), and treats what stands on the two sides of
a byte that does not occur in the old text apart (`replaceAll_append_cons`).
-/

namespace FlutterLayout.Text

open List

variable {old new t u : Text} {b c : UInt8}

theorem replaceFrom_eq (skip : Nat) (t : Text) : replaceFrom old new skip t = replaceAll old new (t.drop skip) := by
  induction t generalizing skip with
  | nil => cases skip <;> simp [replaceAll, replaceFrom]
  | cons b t ih =>
    cases skip with
    | zero => rfl
    | succ skip => rw [replaceFrom, ih skip, drop_succ_cons]

@[simp] theorem replaceAll_nil : replaceAll old new [] = [] := rfl

theorem replaceAll_cons (h : ¬ old <+: b :: t) : replaceAll old new (b :: t) = b :: replaceAll old new t := by
  rw [replaceAll, replaceFrom, if_neg fun hstart => h (startsWith_iff.1 hstart)]
  rfl

theorem replaceAll_append_self (hold : old ≠ []) (t : Text) :
    replaceAll old new (old ++ t) = new ++ replaceAll old new t := by
  obtain ⟨b, old, rfl⟩ := exists_cons_of_ne_nil hold
  have hstart : startsWith (b :: old) (b :: (old ++ t)) = true := startsWith_iff.2 (prefix_append (b :: old) t)
  rw [cons_append, replaceAll, replaceFrom, if_pos hstart, replaceFrom_eq, length_cons, Nat.add_sub_cancel, drop_left]

theorem prefix_of_prefix_append_cons (hc : c ∉ p) (h : p <+: t ++ c :: u) : p <+: t := by
  rcases prefix_or_prefix_of_prefix h (prefix_append t _) with hle | ⟨k, rfl⟩
  · exact hle
  · rcases k with - | ⟨d, k⟩
    · simp
    · obtain ⟨rest, hrest⟩ := h
      have hd : d = c ∧ k ++ rest = u := by simpa using hrest
      exact absurd (by simp [hd.1]) hc

/-- A byte that is not in the old text keeps apart what is on its two sides. -/
theorem replaceAll_append_cons (hold : old ≠ []) (hc : c ∉ old) (t u : Text) :
    replaceAll old new (t ++ c :: u) = replaceAll old new t ++ c :: replaceAll old new u := by
  induction hn : t.length using Nat.strongRecOn generalizing t with
  | ind n ih =>
    by_cases hstart : old <+: t ++ c :: u
    · obtain ⟨rest, rfl⟩ := prefix_of_prefix_append_cons hc hstart
      have hlt : rest.length < n := by
        have := length_pos_iff.2 hold
        rw [length_append] at hn
        omega
      rw [append_assoc, replaceAll_append_self hold, replaceAll_append_self hold, ih _ hlt rest rfl, append_assoc]
    · cases t with
      | nil => rw [nil_append, replaceAll_cons hstart, replaceAll_nil, nil_append]
      | cons b t =>
        have hself : ¬ old <+: b :: t := fun h => hstart (h.trans (prefix_append _ _))
        rw [cons_append] at hstart ⊢
        rw [replaceAll_cons hstart, replaceAll_cons hself,
          ih _ (by rw [← hn]; exact Nat.lt_succ_self _) t rfl, cons_append]

theorem replaceAll_append (h : ∀ s, s <:+ t → s ≠ [] → ¬ old <+: s ++ u) :
    replaceAll old new (t ++ u) = t ++ replaceAll old new u := by
  induction t with
  | nil => rfl
  | cons b t ih =>
    have hstart := h (b :: t) (suffix_refl _) (cons_ne_nil b t)
    rw [cons_append] at hstart ⊢
    rw [replaceAll_cons hstart, ih fun s hs => h s (hs.trans (suffix_cons b t)), cons_append]

/-- The first occurrence, where there is one, tells what a text and its replacement start with. -/
theorem replaceAll_starts (hold : old ≠ []) (t : Text) :
    replaceAll old new t = t ∨ ∃ x r r', t = x ++ (old ++ r) ∧ replaceAll old new t = x ++ (new ++ r') := by
  induction t with
  | nil => exact .inl rfl
  | cons b t ih =>
    by_cases hstart : old <+: b :: t
    · obtain ⟨r, hr⟩ := hstart
      exact .inr ⟨[], r, replaceAll old new r, hr.symm, by rw [← hr, replaceAll_append_self hold]; rfl⟩
    · rw [replaceAll_cons hstart]
      rcases ih with hsame | ⟨x, r, r', ht, hnew⟩
      · exact .inl (by rw [hsame])
      · exact .inr ⟨b :: x, r, r', by rw [ht]; rfl, by rw [hnew]; rfl⟩

theorem replaceAll_ends (hold : old ≠ []) (t : Text) :
    replaceAll old new t = t ∨ ∃ x x' r, t = x ++ (old ++ r) ∧ replaceAll old new t = x' ++ (new ++ r) := by
  induction hn : t.length using Nat.strongRecOn generalizing t with
  | ind n ih =>
    rcases t with - | ⟨b, t⟩
    · exact .inl rfl
    by_cases hstart : old <+: b :: t
    · obtain ⟨r, hr⟩ := hstart
      have hlt : r.length < n := by
        have := length_pos_iff.2 hold
        rw [← hr, length_append] at hn
        omega
      right
      rw [← hr, replaceAll_append_self hold]
      rcases ih _ hlt r rfl with hsame | ⟨x, x', r', hx, hnew⟩
      · exact ⟨[], [], r, rfl, by rw [hsame]; rfl⟩
      · exact ⟨old ++ x, new ++ x', r', by rw [hx]; simp, by rw [hnew]; simp⟩
    · rw [replaceAll_cons hstart]
      rcases ih _ (by rw [← hn]; exact Nat.lt_succ_self _) t rfl with hsame | ⟨x, x', r, hx, hnew⟩
      · exact .inl (by rw [hsame])
      · exact .inr ⟨b :: x, b :: x', r, by rw [hx]; rfl, by rw [hnew]; rfl⟩

end FlutterLayout.Text
