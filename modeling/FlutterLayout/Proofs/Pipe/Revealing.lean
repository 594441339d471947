import FlutterLayout.Proofs.Pipe.Hiding
import FlutterLayout.Proofs.Pipe.Names
import FlutterLayout.Proofs.Text.Numerals
import FlutterLayout.Proofs.Text.Replacing
import Mathlib.Data.List.Nodup

/-!
# Revealing — placeholders give way to groups

Placeholders are replaced one after the other, each wherever it is found.  It is found only where it was
put: no plain text holds the start of a placeholder, and none makes one together with the end of the
placeholder in front of it (`Piece.KeepsApart`).
-/

namespace FlutterLayout.Pipe

open List Text
open Text (IsBlanks Strips StartsBare EndsBare isAsciiDigit_of_mem_ofNat ofNat_injective)

variable {t u v x : Text} {b c : UInt8} {k n : Nat} {e : Expression}

/-! ## Placeholders -/

theorem placeholder_eq (n : Nat) : placeholder n = placeholderStart ++ (ofNat n ++ [byte '_', byte '_']) :=
  append_assoc ..

theorem placeholderStart_isPrefix (n : Nat) : placeholderStart <+: placeholder n :=
  ⟨_, (placeholder_eq n).symm⟩

theorem placeholder_ne_nil (n : Nat) : placeholder n ≠ [] := by
  rw [placeholder_eq]
  exact fun h => absurd (append_eq_nil_iff.1 h).1 (by decide)

def IsPlaceholderByte (b : UInt8) : Prop :=
  b ∈ placeholderStart ∨ isAsciiDigit b = true

instance (b : UInt8) : Decidable (IsPlaceholderByte b) :=
  inferInstanceAs (Decidable (_ ∨ _))

theorem isPlaceholderByte_of_mem (hb : b ∈ placeholder n) : IsPlaceholderByte b := by
  rw [placeholder_eq, mem_append, mem_append] at hb
  rcases hb with hb | hb | hb
  · exact .inl hb
  · exact .inr (isAsciiDigit_of_mem_ofNat hb)
  · have hend : ∀ b ∈ [byte '_', byte '_'], b ∈ placeholderStart := by decide
    exact .inl (hend b hb)

theorem tame_of_isPlaceholderByte (hb : IsPlaceholderByte b) : Tame b := by
  have hall : ∀ n < 256, IsPlaceholderByte (UInt8.ofNat n) → Tame (UInt8.ofNat n) := by decide +kernel
  simpa using hall b.toNat b.toNat_lt (by simpa using hb)

theorem not_isPlaceholderByte_of_isBlanks (ht : IsBlanks t) (hb : b ∈ t) : ¬ IsPlaceholderByte b := by
  have hall : ∀ b ∈ blanks.flatten, ¬ IsPlaceholderByte b := by decide +kernel
  exact hall b (ht.mem_flatten hb)

theorem placeholder_prefix_iff : placeholder k <+: placeholder n ++ u ↔ k = n := by
  constructor
  · rintro ⟨r, hr⟩
    simp only [placeholder_eq, append_assoc, append_cancel_left_eq] at hr
    have hfree : ∀ n, byte '_' ∉ ofNat n := by
      intro n hmem
      exact absurd (isAsciiDigit_of_mem_ofNat hmem) (by decide)
    apply ofNat_injective
    rcases append_eq_append_iff.1 hr with ⟨d, hd, hrest⟩ | ⟨d, hd, hrest⟩
    · rcases d with - | ⟨y, d⟩
      · simpa using hd.symm
      · obtain ⟨rfl, -⟩ := cons.inj hrest
        exact absurd (by simp [hd]) (hfree n)
    · rcases d with - | ⟨y, d⟩
      · simpa using hd
      · obtain ⟨rfl, -⟩ := cons.inj hrest
        exact absurd (by simp [hd]) (hfree k)
  · rintro rfl
    exact prefix_append _ _

/-! ## Replacing one placeholder -/

/-- What may follow plain text at its end: nothing, a group, or a placeholder. -/
def Follows (u : Text) : Prop :=
  u = [] ∨ u.head? = some (byte '(') ∨ placeholderStart <+: u

theorem Follows.not_prefix (hu : Follows u) (hne : d ≠ []) (hhead : d.head? ≠ some (byte '('))
    (htake : ¬ d.take 2 <+: placeholderStart) : ¬ d <+: u := by
  intro hstarts
  rcases hu with rfl | hu | hu
  · exact hne (prefix_nil.1 hstarts)
  · obtain ⟨r, rfl⟩ := hstarts
    rw [head?_append_of_ne_nil _ hne] at hu
    exact hhead hu
  · exact htake (prefix_of_prefix_length_le ((List.take_prefix 2 d).trans hstarts) hu
      (le_trans (length_take_le 2 d) (by decide)))

theorem not_prefix_of_clean (ht : Clean t) (hu : Follows u) (hx : x <:+ t) (hne : x ≠ []) :
    ¬ placeholderStart <+: x ++ u := by
  have hends : ∀ d ∈ placeholderStart.tails, d = [] ∨ d = placeholderStart ∨
      d ≠ [] ∧ d.head? ≠ some (byte '(') ∧ ¬ d.take 2 <+: placeholderStart := by decide
  rintro ⟨r, hr⟩
  rcases append_eq_append_iff.1 hr with ⟨d, hd, -⟩ | ⟨d, hd, hrest⟩
  · exact ht (.trans ⟨[], d, by simpa using hd.symm⟩ hx.isInfix)
  · -- The last bytes `d` of the start lie in `u`, which starts with none of them but the first.
    rcases hends d ((mem_tails _ _).2 ⟨x, hd.symm⟩) with rfl | rfl | ⟨hd', hhead, htake⟩
    · rw [append_nil] at hd
      exact ht (hd ▸ hx.isInfix)
    · exact hne (by simpa using hd)
    · exact hu.not_prefix hd' hhead htake ⟨r, hrest.symm⟩

theorem replaceAll_text (ht : Clean t) (hu : Follows u) :
    replaceAll (placeholder k) v (t ++ u) = t ++ replaceAll (placeholder k) v u :=
  replaceAll_append fun _ hx hne hstart =>
    not_prefix_of_clean ht hu hx hne ((placeholderStart_isPrefix k).trans hstart)

theorem replaceAll_clean (ht : Clean t) : replaceAll (placeholder k) v t = t := by
  have hnothing : Follows [] := .inl rfl
  simpa using replaceAll_text (v := v) (k := k) ht hnothing

theorem exists_digit_prefix (n : Nat) :
    ∃ d ∈ ofString "0123456789", [byte '_', byte '_', byte 'p', byte 'g', d] <+: placeholder n := by
  have hdigits : ∀ n < 256, isAsciiDigit (UInt8.ofNat n) = true → UInt8.ofNat n ∈ ofString "0123456789" := by
    decide +kernel
  have hne : ofNat n ≠ [] := by simp [ofNat]
  obtain ⟨d, ds, hd⟩ := exists_cons_of_ne_nil hne
  have hdigit : isAsciiDigit d = true := isAsciiDigit_of_mem_ofNat (n := n) (by simp [hd])
  refine ⟨d, by simpa using hdigits d.toNat d.toNat_lt (by simpa using hdigit), ds ++ [byte '_', byte '_'], ?_⟩
  rw [placeholder_eq, hd]
  rfl

/-- Another placeholder stays, unless what follows it makes a placeholder with its end. -/
theorem replaceAll_placeholder (hne : k ≠ n) (hu : ¬ GoesOn u) :
    replaceAll (placeholder k) v (placeholder n ++ u) = placeholder n ++ replaceAll (placeholder k) v u := by
  refine replaceAll_append fun x hx hx' hstart => ?_
  have hdiffer : byte '_' ≠ byte 'p' ∧ byte '_' ≠ byte 'g' := by decide
  have hwhole : placeholder n = byte '_' :: byte '_' :: byte 'p' :: byte 'g' ::
      (ofNat n ++ [byte '_', byte '_']) := by
    rw [placeholder_eq]
    rfl
  obtain ⟨digit, hdigit, hopens⟩ := exists_digit_prefix k
  have hstart' := hopens.trans hstart
  have hunder : ∀ d ∈ (x ++ u).head?, d = byte '_' := by
    obtain ⟨r, hr⟩ := hstart'
    rw [← hr]
    simp
  have hgoes : ∀ q ∈ [ofString "pg", ofString "_pg"], ¬ q ++ [digit] <+: u := fun q hq hq' =>
    hu ⟨_, mem_flatMap.2 ⟨q, hq, mem_map_of_mem hdigit⟩, hq'⟩
  have hshort : ¬ [byte 'p', byte 'g', digit] <+: u := hgoes (ofString "pg") (by simp)
  have hlong : ¬ [byte '_', byte 'p', byte 'g', digit] <+: u := hgoes (ofString "_pg") (by simp)
  -- A placeholder that starts in this one starts at its first byte or at its last two.
  rw [hwhole, suffix_cons_iff, ← hwhole] at hx
  rcases hx with rfl | hx
  · exact hne (placeholder_prefix_iff.1 hstart)
  rw [suffix_cons_iff] at hx
  rcases hx with rfl | hx
  · simp [hdiffer.1] at hstart'
  rw [suffix_cons_iff] at hx
  rcases hx with rfl | hx
  · exact hdiffer.1 (hunder _ rfl).symm
  rw [suffix_cons_iff] at hx
  rcases hx with rfl | hx
  · exact hdiffer.2 (hunder _ rfl).symm
  rcases suffix_or_suffix_of_suffix hx (suffix_append _ _) with hx | ⟨y, rfl⟩
  · rw [suffix_cons_iff, suffix_cons_iff, suffix_nil] at hx
    rcases hx with rfl | rfl | rfl
    · exact hshort (by simpa using hstart')
    · exact hlong (by simpa using hstart')
    · exact hx' rfl
  · rcases y with - | ⟨d, y⟩
    · exact hshort (by simpa using hstart')
    · obtain ⟨z, hz⟩ := hx
      rw [← append_assoc, append_cancel_right_eq] at hz
      have hd : d ∈ ofNat n := by simp [← hz]
      rw [hunder d rfl] at hd
      exact absurd (isAsciiDigit_of_mem_ofNat hd) (by decide)

theorem replaceAll_group (hvalue : Clean value) (u : Text) :
    replaceAll (placeholder k) v ("(" ++ value ++ ")" ++ u) =
      "(" ++ value ++ ")" ++ replaceAll (placeholder k) v u := by
  have hopen : byte '(' ∉ placeholderStart := by decide
  have hclose : byte ')' ∉ placeholder k := fun h => absurd (isPlaceholderByte_of_mem h) (by decide)
  have hclean : Clean ("(" ++ value) := (clean_cons hopen).2 hvalue
  have hsplit : ∀ r : Text, ofString "(" ++ value ++ ")" ++ r = ("(" ++ value) ++ byte ')' :: r := by simp
  rw [hsplit, replaceAll_append_cons (placeholder_ne_nil k) hclose, replaceAll_clean hclean, ← hsplit]

/-! ## Revealing pieces -/

/-- A group as it is written while its number is not in `done`, and behind that. -/
def shown (done : List Nat) (g : Nat × Expression) : Text :=
  if g.1 ∈ done then "(" ++ g.2.value ++ ")" else placeholder g.1

variable {done : List Nat} {p : Piece (Nat × Expression)} {rest : List ((Nat × Expression) × Text)}

theorem follows_shown_append (done : List Nat) (g : Nat × Expression) (u : Text) : Follows (shown done g ++ u) := by
  unfold shown
  split
  · exact .inr (.inl rfl)
  · exact .inr (.inr ((placeholderStart_isPrefix g.1).trans (prefix_append _ u)))

theorem flatMap_spell_cons {α : Type} (f : α → Text) (g : α) (t : Text) (rest : List (α × Text)) :
    ((g, t) :: rest).flatMap (fun (g, t) => f g ++ t) = f g ++ (t ++ rest.flatMap fun (g, t) => f g ++ t) :=
  append_assoc ..

theorem follows_flatMap (done : List Nat) (rest : List ((Nat × Expression) × Text)) :
    Follows (rest.flatMap fun (g, t) => shown done g ++ t) := by
  rcases rest with - | ⟨⟨g, t⟩, rest⟩
  · exact .inl rfl
  · rw [flatMap_spell_cons]
    exact follows_shown_append done g _

/-- Text that keeps apart from the placeholder in front of it does so whatever follows it. -/
theorem not_goesOn_append (ht : ¬ GoesOn t) (hu : Follows u) : ¬ GoesOn (t ++ u) := by
  have hends : ∀ q ∈ continuations, ∀ d ∈ q.tails, d = [] ∨
      d ≠ [] ∧ d.head? ≠ some (byte '(') ∧ ¬ d.take 2 <+: placeholderStart := by decide +kernel
  -- As in plain text, the bytes that would have to lie in `u` are none that it starts with.
  rintro ⟨q, hq, r, hr⟩
  rcases append_eq_append_iff.1 hr with ⟨d, hd, -⟩ | ⟨d, hd, hrest⟩
  · exact ht ⟨q, hq, d, hd.symm⟩
  · rcases hends q hq d ((mem_tails _ _).2 ⟨t, hd.symm⟩) with rfl | ⟨hd', hhead, htake⟩
    · exact ht ⟨q, hq, by rw [hd, append_nil]⟩
    · exact hu.not_prefix hd' hhead htake ⟨r, hrest.symm⟩

/-- Replacing the placeholder of one number reveals a group of that number and leaves any other as it is. -/
theorem replaceAll_shown_append (hvalue : Clean g.2.value) (hk : g.1 = k → g.2 = e) (hu : ¬ GoesOn u) :
    replaceAll (placeholder k) ("(" ++ e.value ++ ")") (shown done g ++ u) =
      shown (k :: done) g ++ replaceAll (placeholder k) ("(" ++ e.value ++ ")") u := by
  by_cases hdone : g.1 ∈ done
  · rw [shown, if_pos hdone, shown, if_pos (mem_cons_of_mem _ hdone), replaceAll_group hvalue]
  rw [shown, if_neg hdone]
  by_cases hnumber : g.1 = k
  · rw [shown, if_pos (by simp [hnumber]), hnumber, replaceAll_append_self (placeholder_ne_nil k), hk hnumber]
  · rw [shown, if_neg (by simp [hnumber, hdone]), replaceAll_placeholder (.symm hnumber) hu]

theorem replaceAll_flatMap (hclean : ∀ g ∈ rest, Clean g.2 ∧ Clean g.1.2.value) (hapart : ∀ g ∈ rest, ¬ GoesOn g.2)
    (hk : ∀ g ∈ rest, g.1.1 = k → g.1.2 = e) :
    replaceAll (placeholder k) ("(" ++ e.value ++ ")") (rest.flatMap fun (g, t) => shown done g ++ t) =
      rest.flatMap fun (g, t) => shown (k :: done) g ++ t := by
  induction rest with
  | nil => rfl
  | cons one rest ih =>
    obtain ⟨g, t⟩ := one
    obtain ⟨⟨ht, hvalue⟩, hclean⟩ := forall_mem_cons.1 hclean
    obtain ⟨happ, hapart⟩ := forall_mem_cons.1 hapart
    obtain ⟨hsame, hk⟩ := forall_mem_cons.1 hk
    have hfollows := follows_flatMap done rest
    rw [flatMap_spell_cons, flatMap_spell_cons,
      replaceAll_shown_append hvalue hsame (not_goesOn_append happ hfollows), replaceAll_text ht hfollows,
      ih hclean hapart hk]

theorem Piece.spell_congr {α : Type} {f f' : α → Text} {p : Piece α} (h : ∀ g ∈ p.groups, f g = f' g) :
    p.spell f = p.spell f' := by
  have hrest : ∀ one ∈ p.rest, (fun (g, t) => f g ++ t) one = (fun (g, t) => f' g ++ t) one := fun one hone =>
    congrArg (· ++ one.2) (h one.1 (mem_map_of_mem hone))
  rw [Piece.spell, Piece.spell, flatMap_congr hrest]

structure Piece.Reveals (p : Piece (Nat × Expression)) : Prop where
  clean : ∀ t ∈ p.texts, Clean t
  apart : p.KeepsApart
  values : ∀ g ∈ p.groups, Clean g.2.value

theorem Piece.Reveals.replaceAll_spell (h : p.Reveals) (hk : ∀ g ∈ p.groups, g.1 = k → g.2 = e) :
    replaceAll (placeholder k) ("(" ++ e.value ++ ")") (p.spell (shown done)) = p.spell (shown (k :: done)) := by
  obtain ⟨first, rest⟩ := p
  have hfirst : Clean first := h.clean first (by simp [Piece.texts])
  have hrest : ∀ g ∈ rest, Clean g.2 ∧ Clean g.1.2.value := fun g hg =>
    ⟨h.clean g.2 (mem_cons_of_mem _ (mem_map_of_mem hg)), h.values g.1 (mem_map_of_mem hg)⟩
  have hapart : ∀ g ∈ rest, ¬ GoesOn g.2 := fun g hg => h.apart g.2 (mem_map_of_mem hg)
  have hnumber : ∀ g ∈ rest, g.1.1 = k → g.1.2 = e := fun g hg => hk g.1 (mem_map_of_mem hg)
  rw [Piece.spell, Piece.spell, replaceAll_text hfirst (follows_flatMap done rest),
    replaceAll_flatMap hrest hapart hnumber]

def entries (hidden : List (Nat × Expression)) : List (Text × Text) :=
  hidden.map fun g => (placeholder g.1, "(" ++ g.2.value ++ ")")

def revealAll (hidden : List (Nat × Expression)) (t : Text) : Text :=
  (entries hidden).foldl (fun t (mark, value) => replaceAll mark value t) t

variable {hidden : List (Nat × Expression)}

theorem revealAll_cons (g : Nat × Expression) (hidden : List (Nat × Expression)) (t : Text) :
    revealAll (g :: hidden) t = revealAll hidden (replaceAll (placeholder g.1) ("(" ++ g.2.value ++ ")") t) := rfl

theorem Hidden.reveal_eq (text : Text) (subscriptions : List Subscription) :
    Hidden.reveal ⟨text, entries hidden, subscriptions⟩ = revealAll hidden := rfl

theorem Piece.Reveals.revealAll_shown (h : p.Reveals) (hsame : ∀ g ∈ p.groups, ∀ g' ∈ hidden, g.1 = g'.1 → g.2 = g'.2) :
    revealAll hidden (p.spell (shown done)) = p.spell (shown ((hidden.map Prod.fst).reverse ++ done)) := by
  induction hidden generalizing done with
  | nil => rfl
  | cons g hidden ih =>
    rw [revealAll_cons, h.replaceAll_spell fun g' hg' => hsame g' hg' g mem_cons_self,
      ih fun g' hg' x hx => hsame g' hg' x (mem_cons_of_mem _ hx)]
    simp

theorem Piece.Reveals.revealAll_spell (h : p.Reveals) (hmem : ∀ g ∈ p.groups, g ∈ hidden)
    (hdist : (hidden.map Prod.fst).Nodup) :
    revealAll hidden (p.spell fun g => placeholder g.1) = p.spell fun g => "(" ++ g.2.value ++ ")" := by
  have hsame : ∀ g ∈ p.groups, ∀ g' ∈ hidden, g.1 = g'.1 → g.2 = g'.2 := fun g hg g' hg' heq =>
    congrArg Prod.snd (inj_on_of_nodup_map hdist (hmem g hg) hg' heq)
  have hmarks : (fun g : Nat × Expression => placeholder g.1) = shown [] := by
    funext g
    simp [shown]
  have hvalues : ∀ g ∈ p.groups, shown ((hidden.map Prod.fst).reverse ++ []) g = "(" ++ g.2.value ++ ")" := by
    intro g hg
    rw [shown, if_pos (by simpa using ⟨g.2, hmem g hg⟩)]
  rw [hmarks, h.revealAll_shown hsame]
  exact Piece.spell_congr hvalues

/-! ## Revealing the parts of an expression -/

theorem revealAll_append_cons (hc : ¬ IsPlaceholderByte c) (t u : Text) :
    revealAll hidden (t ++ c :: u) = revealAll hidden t ++ c :: revealAll hidden u := by
  induction hidden generalizing t u with
  | nil => rfl
  | cons g hidden ih =>
    have hmark : c ∉ placeholder g.1 := fun h => hc (isPlaceholderByte_of_mem h)
    rw [revealAll_cons, replaceAll_append_cons (placeholder_ne_nil g.1) hmark, ih]
    rfl

theorem revealAll_clean (ht : Clean t) : revealAll hidden t = t := by
  induction hidden with
  | nil => rfl
  | cons g hidden ih => rw [revealAll_cons, replaceAll_clean ht, ih]

@[simp] theorem revealAll_empty : revealAll hidden [] = [] :=
  revealAll_clean clean_nil

theorem revealAll_append_left (ht : ∀ c ∈ t, ¬ IsPlaceholderByte c) (u : Text) :
    revealAll hidden (t ++ u) = t ++ revealAll hidden u := by
  induction t with
  | nil => rfl
  | cons c t ih =>
    obtain ⟨hc, ht⟩ := forall_mem_cons.1 ht
    have hfirst : revealAll hidden ([] ++ c :: (t ++ u)) = _ := revealAll_append_cons hc [] (t ++ u)
    rw [revealAll_empty, nil_append, nil_append] at hfirst
    rw [cons_append, hfirst, ih ht, cons_append]

theorem revealAll_append_right (t : Text) (hu : ∀ c ∈ u, ¬ IsPlaceholderByte c) :
    revealAll hidden (t ++ u) = revealAll hidden t ++ u := by
  rcases u with - | ⟨c, u⟩
  · simp
  · obtain ⟨hc, hu⟩ := forall_mem_cons.1 hu
    have hrest : revealAll hidden (u ++ []) = _ := revealAll_append_left hu []
    rw [append_nil, revealAll_empty, append_nil] at hrest
    rw [revealAll_append_cons hc, hrest]

theorem revealAll_strips (h : Strips t u) : Strips (revealAll hidden t) (revealAll hidden u) := by
  obtain ⟨a, b, ha, hb, rfl⟩ := h
  refine ⟨a, b, ha, hb, ?_⟩
  rw [revealAll_append_right _ fun c hc => not_isPlaceholderByte_of_isBlanks hb hc,
    revealAll_append_left fun c hc => not_isPlaceholderByte_of_isBlanks ha hc]

theorem startsBare_revealAll (h : StartsBare t) : StartsBare (revealAll hidden t) := by
  have hunder : byte '_' ∉ blanks.flatten := by decide +kernel
  have hopen : byte '(' ∉ blanks.flatten := by decide +kernel
  induction hidden generalizing t with
  | nil => exact h
  | cons g hidden ih =>
    rw [revealAll_cons]
    apply ih
    rcases replaceAll_starts (placeholder_ne_nil g.1) t with hsame | ⟨x, r, r', rfl, hnew⟩
    · rw [hsame]
      exact h
    · rw [hnew]
      exact (startsBare_append_cons hopen).2 ((startsBare_append_cons hunder).1 h)

theorem endsBare_revealAll (h : EndsBare t) : EndsBare (revealAll hidden t) := by
  have hunder : byte '_' ∉ blanks.flatten := by decide +kernel
  have hclose : byte ')' ∉ blanks.flatten := by decide +kernel
  induction hidden generalizing t with
  | nil => exact h
  | cons g hidden ih =>
    rw [revealAll_cons]
    apply ih
    rcases replaceAll_ends (placeholder_ne_nil g.1) t with hsame | ⟨x, x', r, rfl, hnew⟩
    · rw [hsame]
      exact h
    · have hmark : x ++ (placeholder g.1 ++ r) =
          (x ++ placeholderStart ++ ofNat g.1 ++ [byte '_']) ++ byte '_' :: r := by
        simp [placeholder_eq]
      have hvalue : x' ++ ("(" ++ g.2.value ++ ")" ++ r) = (x' ++ "(" ++ g.2.value) ++ byte ')' :: r := by
        simp
      rw [hmark, endsBare_append_cons hunder] at h
      rw [hnew, hvalue, endsBare_append_cons hclose]
      exact h

theorem revealAll_trim (t : Text) : revealAll hidden (trim t) = trim (revealAll hidden t) := by
  have hstrips : Strips (revealAll hidden t) (revealAll hidden (trim t)) := revealAll_strips (strips_trim t)
  rw [hstrips.trim_eq, trim_of_bare (startsBare_revealAll (startsBare_trim t))
    (endsBare_revealAll (endsBare_trim t))]

end FlutterLayout.Pipe
