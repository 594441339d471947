import FlutterLayout.Text.Quoted
import FlutterLayout.Proofs.Text.Segments

/-!
# Quoting — what stands between the quotes

A rune is written as it is, or as a backslash with letters, digits, a quote or a backslash behind it
(`isEscape_quotedSegment`).  A word that starts with none of these and has no backslash is therefore part of a
quoted text only if it is part of the text itself (`infix_of_infix_quoted`).
-/

namespace FlutterLayout.Text

open List

variable {t w : Text} {ss : List Segment} {s : Segment} {b : UInt8}

def IsEscaped (b : UInt8) : Prop :=
  isAsciiAlnum b = true ∨ b = backslash

instance (b : UInt8) : Decidable (IsEscaped b) :=
  inferInstanceAs (Decidable (_ ∨ _))

theorem isAsciiAlnum_of_mem_hexNumeral (hb : b ∈ hexNumeral width n) : isAsciiAlnum b = true := by
  have hdigit : ∀ n < 16, isAsciiAlnum (hexDigit n) = true := by decide
  induction width generalizing n with
  | zero => cases hb
  | succ width ih =>
    rcases mem_append.1 hb with hb | hb
    · exact ih hb
    · obtain rfl := mem_singleton.1 hb
      exact hdigit _ (Nat.mod_lt _ (by decide))

theorem isEscaped_of_mem_controlLetter? (hb : b ∈ controlLetter? r) : IsEscaped b := by
  unfold controlLetter? at hb
  split at hb
  all_goals
    cases hb
    try decide

theorem quotedSegment_cases (h : Cut t ss) (hs : s ∈ ss) :
    (∃ r a more, s = ⟨some r, a :: more⟩ ∧ Encodes r a more ∧ r ≠ doubleQuote.toNat ∧ r ≠ backslash.toNat ∧
      quotedSegment s = s.bytes) ∨ s.rune = doubleQuote.toNat ∧ quotedSegment s = [backslash, doubleQuote] ∨
      ∃ b u, quotedSegment s = backslash :: b :: u ∧ IsEscaped b ∧ ∀ c ∈ u, isAsciiAlnum c = true := by
  unfold quotedSegment
  split
  · rename_i hnone
    obtain ⟨a, ha⟩ := h.stray_bytes hs hnone
    rw [ha, flatMap_singleton]
    exact .inr (.inr ⟨_, _, rfl, by decide, fun _ => isAsciiAlnum_of_mem_hexNumeral⟩)
  · rename_i r hr
    obtain ⟨a, more, hbytes, he⟩ := h.encodes hs hr
    split
    · rename_i hmeta
      rw [hbytes, ← ofRune_of_encodes he]
      rcases Bool.or_eq_true_iff.1 hmeta with hquote | hslash
      · rw [of_decide_eq_true hquote] at hr ⊢
        exact .inr (.inl ⟨by simp [Segment.rune, hr], rfl⟩)
      · rw [of_decide_eq_true hslash]
        exact .inr (.inr ⟨backslash, [], rfl, by decide, forall_mem_nil _⟩)
    · rename_i hmeta
      rw [Bool.or_eq_true_iff, decide_eq_true_iff, decide_eq_true_iff, not_or] at hmeta
      split
      · exact .inl ⟨r, a, more, by rw [← hr, ← hbytes], he, hmeta.1, hmeta.2, rfl⟩
      · refine .inr (.inr ?_)
        split
        · rename_i letter hletter
          exact ⟨letter, [], rfl, isEscaped_of_mem_controlLetter? hletter, forall_mem_nil _⟩
        · split
          · exact ⟨_, _, rfl, by decide, fun _ => isAsciiAlnum_of_mem_hexNumeral⟩
          · split <;> exact ⟨_, _, rfl, by decide, fun _ => isAsciiAlnum_of_mem_hexNumeral⟩

inductive IsEscape (s : Segment) : Text → Prop where
  | verbatim {r : Rune} {a : UInt8} {more : Text} (hs : s = ⟨some r, a :: more⟩) (he : Encodes r a more) :
      IsEscape s s.bytes
  | quote (hrune : s.rune = doubleQuote.toNat) : IsEscape s [backslash, doubleQuote]
  | escape {u : Text} (hu : ∀ b ∈ u, IsEscaped b) : IsEscape s (backslash :: u)

theorem isEscape_quotedSegment (h : Cut t ss) (hs : s ∈ ss) : IsEscape s (quotedSegment s) := by
  rcases quotedSegment_cases h hs with ⟨r, a, more, hs, he, -, -, hw⟩ | ⟨hr, hw⟩ | ⟨b, u, hw, hb, hu⟩ <;> rw [hw]
  · exact .verbatim hs he
  · exact .quote hr
  · exact .escape (forall_mem_cons.2 ⟨hb, fun c hc => .inl (hu c hc)⟩)

theorem prefix_of_prefix_quoted (hclean : backslash ∉ w) (h : ∀ s ∈ ss, IsEscape s (quotedSegment s))
    (hw : w <+: ss.flatMap quotedSegment) : w <+: ss.flatMap Segment.bytes := by
  induction ss generalizing w with
  | nil => exact hw
  | cons s ss ih =>
    obtain ⟨hs, h⟩ := forall_mem_cons.1 h
    rw [flatMap_cons] at hw ⊢
    have hescape : ∀ {u : Text}, w <+: backslash :: u → w <+: s.bytes ++ ss.flatMap Segment.bytes := by
      intro u hu
      rcases w with - | ⟨b, w⟩
      · exact nil_prefix
      · obtain ⟨rfl, -⟩ := cons_prefix_cons.1 hu
        exact absurd mem_cons_self hclean
    generalize quotedSegment s = written at hs hw
    cases hs with
    | verbatim _ _ =>
      rcases prefix_or_prefix_of_prefix hw (prefix_append _ _) with hle | ⟨w', rfl⟩
      · exact hle.trans (prefix_append _ _)
      · refine (prefix_append_right_inj _).2 (ih (fun hmem => hclean ?_) h ((prefix_append_right_inj _).1 hw))
        exact mem_append_right _ hmem
    | quote | escape => exact hescape hw

def StartsPlain (w : Text) : Prop :=
  ∃ b ∈ w.head?, ¬ IsEscaped b ∧ b ≠ doubleQuote

theorem StartsPlain.infix_of_append (h : StartsPlain w) (hx : ∀ b ∈ x, IsEscaped b ∨ b = doubleQuote)
    (hw : w <:+: x ++ y) : w <:+: y := by
  obtain ⟨b, hb, hplain⟩ := h
  have hfree : b ∉ x := fun hmem => (hx b hmem).elim hplain.1 hplain.2
  rcases infix_append_iff.1 hw with hw | hw | ⟨u, v, rfl, hu, hv⟩
  · exact absurd (hw.subset (mem_of_head? hb)) hfree
  · exact hw
  · rcases u with - | ⟨c, u⟩
    · exact hv.isInfix
    · obtain rfl : c = b := by simpa using hb
      exact absurd (hu.subset mem_cons_self) hfree

theorem infix_of_infix_quoted (hclean : backslash ∉ w) (hstart : StartsPlain w)
    (hw : w <:+: (segments t).flatMap quotedSegment) : w <:+: t := by
  have hcut := cut_segments t
  have hwritten : ∀ s ∈ segments t, IsEscape s (quotedSegment s) := fun s hs => isEscape_quotedSegment hcut hs
  have hslash : IsEscaped backslash := by decide
  rw [← hcut.flatMap_bytes]
  generalize segments t = ss at hwritten hw
  induction ss with
  | nil => exact hw
  | cons s ss ih =>
    obtain ⟨hs, hwritten⟩ := forall_mem_cons.1 hwritten
    rw [flatMap_cons] at hw ⊢
    have hrest : w <:+: ss.flatMap quotedSegment → w <:+: s.bytes ++ ss.flatMap Segment.bytes := fun hw =>
      (ih hwritten hw).trans (suffix_append _ _).isInfix
    generalize quotedSegment s = written at hs hw
    cases hs with
    | verbatim _ _ =>
      rcases infix_append_iff.1 hw with hw | hw | ⟨u, v, rfl, hu, hv⟩
      · exact hw.trans (prefix_append _ _).isInfix
      · exact hrest hw
      · refine infix_append_iff.2 (.inr (.inr ⟨u, v, rfl, hu, ?_⟩))
        exact prefix_of_prefix_quoted (fun hmem => hclean (mem_append_right _ hmem)) hwritten hv
    | quote _ => exact hrest (hstart.infix_of_append (by decide) hw)
    | escape hu =>
      refine hrest (hstart.infix_of_append (fun b hb => .inl ?_) hw)
      rcases mem_cons.1 hb with rfl | hb
      · exact hslash
      · exact hu b hb

end FlutterLayout.Text
