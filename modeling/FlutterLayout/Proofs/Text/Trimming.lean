import FlutterLayout.Text.Blank
import Mathlib.Data.List.Forall2
import Mathlib.Data.List.Infix

/-!
# Trimming — texts up to blanks at their ends

`Strips t u` says that `u` is `t` without some of the blanks at its ends.  This file shows that

* `trim` strips, and gives one answer for all texts that differ by blanks at their ends
  (`strips_trim`, `Strips.trim_eq`);
* whether a text is trimmed is decided by what stands before its first and behind its last byte that is
  in no blank (`startsBare_append_cons`, `endsBare_append_cons`).
-/

namespace FlutterLayout.Text

open List

/-- What is said of the members of a list is decided member by member, although there are only finitely many
bytes. -/
instance (priority := 1100) decidableForallMem {α : Type} {f : α → Prop} [DecidablePred f] (l : List α) :
    Decidable (∀ x ∈ l, f x) :=
  decidableBAll f l

variable {p t u a b : Text} {c : UInt8}

theorem startsWith_iff : startsWith p t = true ↔ p <+: t := by
  rw [startsWith, Option.isSome_iff_exists]
  constructor
  · rintro ⟨rest, h⟩
    exact ⟨rest, (after?_eq_some_iff.1 h).symm⟩
  · rintro ⟨rest, h⟩
    exact ⟨rest, after?_eq_some_iff.2 h.symm⟩

theorem after?_eq_none_iff : after? p t = none ↔ ¬ p <+: t := by
  rw [← startsWith_iff, startsWith, Option.not_isSome_iff_eq_none]

theorem endsWith_iff : endsWith p t = true ↔ p <:+ t := by
  rw [endsWith, startsWith_iff, reverse_prefix]

/-! ## Leading marks -/

section Marks

variable {marks : List Text}

def MadeOf (marks : List Text) (t : Text) : Prop :=
  ∃ ms : List Text, (∀ m ∈ ms, m ∈ marks) ∧ t = ms.flatten

theorem madeOf_nil : MadeOf marks [] :=
  ⟨[], by simp, rfl⟩

theorem MadeOf.cons (hm : m ∈ marks) (h : MadeOf marks t) : MadeOf marks (m ++ t) := by
  obtain ⟨ms, hms, rfl⟩ := h
  exact ⟨m :: ms, by simpa [hm] using hms, rfl⟩

theorem MadeOf.append (ha : MadeOf marks a) (hb : MadeOf marks b) : MadeOf marks (a ++ b) := by
  obtain ⟨ms, hms, rfl⟩ := ha
  obtain ⟨ns, hns, rfl⟩ := hb
  refine ⟨ms ++ ns, fun m hm => ?_, by simp⟩
  rcases mem_append.1 hm with hm | hm
  · exact hms m hm
  · exact hns m hm

theorem MadeOf.mem_flatten (h : MadeOf marks t) (hc : c ∈ t) : c ∈ marks.flatten := by
  obtain ⟨ms, hms, rfl⟩ := h
  obtain ⟨m, hm, hcm⟩ := mem_flatten.1 hc
  exact mem_flatten.2 ⟨m, hms m hm, hcm⟩

theorem madeOf_map_reverse (h : MadeOf (marks.map reverse) t) : MadeOf marks t.reverse := by
  obtain ⟨ms, hms, rfl⟩ := h
  refine ⟨(ms.map reverse).reverse, fun m hm => ?_, by rw [reverse_flatten]⟩
  obtain ⟨m', hm', rfl⟩ := mem_map.1 (mem_reverse.1 hm)
  obtain ⟨n, hn, rfl⟩ := mem_map.1 (hms m' hm')
  simpa using hn

theorem dropBlanksFrom_eq (skip : Nat) (t : Text) :
    dropBlanksFrom marks skip t = dropBlanksFrom marks 0 (t.drop skip) := by
  induction t generalizing skip with
  | nil => cases skip <;> simp [dropBlanksFrom]
  | cons x t ih =>
    cases skip with
    | zero => rfl
    | succ skip => rw [dropBlanksFrom, ih skip, drop_succ_cons]

theorem dropBlanksFrom_of_find? (hm : m ≠ []) (h : marks.find? (fun mark => startsWith mark (m ++ t)) = some m) :
    dropBlanksFrom marks 0 (m ++ t) = dropBlanksFrom marks 0 t := by
  obtain ⟨x, m, rfl⟩ := exists_cons_of_ne_nil hm
  have hlength : leadingBlank marks (x :: (m ++ t)) = m.length + 1 := by
    rw [leadingBlank]
    simp only [cons_append] at h
    simp [h]
  rw [cons_append, dropBlanksFrom]
  simp only [hlength]
  rw [dropBlanksFrom_eq, drop_left]

theorem dropBlanksFrom_of_forall (h : ∀ m ∈ marks, ¬ m <+: t) : dropBlanksFrom marks 0 t = t := by
  have hnone : marks.find? (fun mark => startsWith mark t) = none := by
    rw [find?_eq_none]
    intro m hm hstart
    exact h m hm (startsWith_iff.1 hstart)
  cases t with
  | nil => rfl
  | cons x t => simp [dropBlanksFrom, leadingBlank, hnone]

theorem exists_dropBlanksFrom (hne : [] ∉ marks) (t : Text) : ∃ a, MadeOf marks a ∧ t = a ++ dropBlanksFrom marks 0 t ∧
      ∀ m ∈ marks, ¬ m <+: dropBlanksFrom marks 0 t := by
  induction hn : t.length using Nat.strong_induction_on generalizing t with
  | _ n ih =>
    cases hfind : marks.find? (fun mark => startsWith mark t) with
    | none =>
      have hbare : ∀ m ∈ marks, ¬ m <+: t := by
        intro m hm hstart
        exact find?_eq_none.1 hfind m hm (startsWith_iff.2 hstart)
      rw [dropBlanksFrom_of_forall hbare]
      exact ⟨[], madeOf_nil, rfl, hbare⟩
    | some m =>
      have hm := mem_of_find?_eq_some hfind
      have hstart : startsWith m t = true := by simpa using find?_some hfind
      obtain ⟨rest, rfl⟩ := startsWith_iff.1 hstart
      have hm0 : m ≠ [] := fun h0 => hne (h0 ▸ hm)
      have hlt : rest.length < n := by
        have := length_pos_iff.2 hm0
        simp only [length_append] at hn
        omega
      obtain ⟨a, ha, hrest, hbare⟩ := ih rest.length hlt rest rfl
      rw [dropBlanksFrom_of_find? hm0 hfind]
      exact ⟨m ++ a, ha.cons hm, by rw [append_assoc, ← hrest], hbare⟩

def PrefixFree (marks : List Text) : Prop :=
  ∀ m ∈ marks, ∀ n ∈ marks, m <+: n → m = n

instance : Decidable (PrefixFree marks) :=
  inferInstanceAs (Decidable (∀ m ∈ marks, ∀ n ∈ marks, m <+: n → m = n))

theorem dropBlanksFrom_append (hne : [] ∉ marks) (hfree : PrefixFree marks) (ha : MadeOf marks a) :
    dropBlanksFrom marks 0 (a ++ t) = dropBlanksFrom marks 0 t := by
  obtain ⟨ms, hms, rfl⟩ := ha
  induction ms with
  | nil => rfl
  | cons m ms ih =>
    have hm := hms m mem_cons_self
    have hm0 : m ≠ [] := fun h0 => hne (h0 ▸ hm)
    have hfind : marks.find? (fun mark => startsWith mark (m ++ (ms.flatten ++ t))) = some m := by
      cases hfound : marks.find? (fun mark => startsWith mark (m ++ (ms.flatten ++ t))) with
      | none => exact absurd (startsWith_iff.2 (prefix_append _ _)) (find?_eq_none.1 hfound m hm)
      | some n =>
        have hn := mem_of_find?_eq_some hfound
        have hstart : n <+: m ++ (ms.flatten ++ t) := startsWith_iff.1 (by simpa using find?_some hfound)
        -- two marks at the start of one text: one begins with the other
        rcases prefix_or_prefix_of_prefix hstart (prefix_append m _) with h | h
        · rw [hfree n hn m hm h]
        · rw [hfree m hm n hn h]
    rw [flatten_cons, append_assoc, dropBlanksFrom_of_find? hm0 hfind]
    exact ih fun n hn => hms n (mem_cons_of_mem _ hn)

end Marks

/-! ## Blanks -/

abbrev IsBlanks (t : Text) : Prop :=
  MadeOf blanks t

def StartsBare (t : Text) : Prop :=
  ∀ m ∈ blanks, ¬ m <+: t

def EndsBare (t : Text) : Prop :=
  ∀ m ∈ blanks, ¬ m <:+ t

theorem nil_not_mem_blanks : [] ∉ blanks := by
  decide

theorem prefixFree_blanks : PrefixFree blanks := by
  decide +kernel

theorem prefixFree_reverse_blanks : PrefixFree (blanks.map reverse) := by
  decide +kernel

theorem nil_not_mem_reverse_blanks : [] ∉ blanks.map reverse := by
  simpa using nil_not_mem_blanks

theorem head_not_mem_tail_blanks : ∀ m ∈ blanks, ∀ n ∈ blanks, ∀ c ∈ n.tail, m.head? ≠ some c := by
  decide +kernel

theorem isBlanks_space : IsBlanks [space] :=
  ⟨[[space]], by decide, rfl⟩

theorem exists_trimStart (t : Text) : ∃ a, IsBlanks a ∧ t = a ++ trimStart t ∧ StartsBare (trimStart t) :=
  exists_dropBlanksFrom nil_not_mem_blanks t

theorem exists_trimEnd (t : Text) : ∃ b, IsBlanks b ∧ t = trimEnd t ++ b ∧ EndsBare (trimEnd t) := by
  obtain ⟨a, ha, ht, hbare⟩ := exists_dropBlanksFrom nil_not_mem_reverse_blanks t.reverse
  refine ⟨a.reverse, madeOf_map_reverse ha, ?_, fun m hm hend => ?_⟩
  · simpa [trimEnd] using congrArg reverse ht
  · refine hbare m.reverse (mem_map_of_mem hm) ?_
    simpa [trimEnd] using reverse_prefix.2 hend

theorem trimStart_append (ha : IsBlanks a) (t : Text) : trimStart (a ++ t) = trimStart t :=
  dropBlanksFrom_append nil_not_mem_blanks prefixFree_blanks ha

theorem trimEnd_append (hb : IsBlanks b) (t : Text) : trimEnd (t ++ b) = trimEnd t := by
  have hdouble : MadeOf ((blanks.map reverse).map reverse) b := by simpa using hb
  have hrev : MadeOf (blanks.map reverse) b.reverse := madeOf_map_reverse hdouble
  rw [trimEnd, trimEnd, reverse_append,
    dropBlanksFrom_append nil_not_mem_reverse_blanks prefixFree_reverse_blanks hrev]

theorem trimStart_eq_nil_iff : trimStart t = [] ↔ IsBlanks t := by
  constructor
  · intro h
    obtain ⟨a, ha, ht, -⟩ := exists_trimStart t
    rwa [ht, h, append_nil]
  · intro h
    simpa [trimStart, dropBlanksFrom] using trimStart_append h []

theorem trimEnd_eq_nil_iff : trimEnd t = [] ↔ IsBlanks t := by
  constructor
  · intro h
    obtain ⟨b, hb, ht, -⟩ := exists_trimEnd t
    rwa [ht, h, nil_append]
  · intro h
    simpa [trimEnd, dropBlanksFrom] using trimEnd_append h []

theorem isBlank_iff : isBlank t = true ↔ IsBlanks t := by
  rw [isBlank, List.isEmpty_iff, trimStart_eq_nil_iff]

instance (t : Text) : Decidable (IsBlanks t) :=
  decidable_of_iff _ isBlank_iff

theorem StartsBare.trimStart_eq (h : StartsBare t) : trimStart t = t :=
  dropBlanksFrom_of_forall h

theorem EndsBare.trimEnd_eq (h : EndsBare t) : trimEnd t = t := by
  have hrev : ∀ m ∈ blanks.map reverse, ¬ m <+: t.reverse := by
    intro m hm hstart
    obtain ⟨n, hn, rfl⟩ := mem_map.1 hm
    exact h n hn (List.reverse_prefix.1 hstart)
  rw [trimEnd, dropBlanksFrom_of_forall hrev, reverse_reverse]

theorem startsBare_append_cons (hc : c ∉ blanks.flatten) : StartsBare (a ++ c :: t) ↔ StartsBare a := by
  constructor
  · intro h m hm hstart
    exact h m hm (hstart.trans (prefix_append _ _))
  · intro h m hm hstart
    rcases prefix_or_prefix_of_prefix hstart (prefix_append a _) with hle | ⟨k, rfl⟩
    · exact h m hm hle
    · rcases k with - | ⟨x, k⟩
      · exact h _ hm (by simp)
      · obtain ⟨rest, hrest⟩ := hstart
        have hx : x = c ∧ k ++ rest = t := by simpa using hrest
        exact hc (mem_flatten.2 ⟨_, hm, by simp [hx.1]⟩)

theorem endsBare_append_cons (hc : c ∉ blanks.flatten) : EndsBare (t ++ c :: b) ↔ EndsBare b := by
  constructor
  · intro h m hm hend
    exact h m hm (hend.trans ((suffix_cons c b).trans (suffix_append t _)))
  · intro h m hm hend
    have hb : b <:+ t ++ c :: b := (suffix_cons c b).trans (suffix_append t _)
    rcases suffix_or_suffix_of_suffix hend hb with hle | ⟨k, rfl⟩
    · exact h m hm hle
    · rcases eq_nil_or_concat k with rfl | ⟨k, x, rfl⟩
      · exact h _ hm (by simp)
      · obtain ⟨rest, hrest⟩ := hend
        have hcut : (rest ++ k ++ [x]) ++ b = (t ++ [c]) ++ b := by simpa using hrest
        replace hcut := append_cancel_right hcut
        have hx : x = c := by simpa using congrArg getLast? hcut
        exact hc (mem_flatten.2 ⟨_, hm, by simp [hx]⟩)

/-! ## Stripping -/

def Strips (t u : Text) : Prop :=
  ∃ a b, IsBlanks a ∧ IsBlanks b ∧ t = a ++ u ++ b

theorem Strips.refl (t : Text) : Strips t t :=
  ⟨[], [], madeOf_nil, madeOf_nil, by simp⟩

theorem Strips.trans (h : Strips t u) (h' : Strips u v) : Strips t v := by
  obtain ⟨a, b, ha, hb, rfl⟩ := h
  obtain ⟨a', b', ha', hb', rfl⟩ := h'
  exact ⟨a ++ a', b' ++ b, ha.append ha', hb'.append hb, by simp⟩

theorem strips_trim (t : Text) : Strips t (trim t) := by
  obtain ⟨a, ha, ht, -⟩ := exists_trimStart t
  obtain ⟨b, hb, hstart, -⟩ := exists_trimEnd (trimStart t)
  exact ⟨a, b, ha, hb, by rw [append_assoc, trim, ← hstart, ← ht]⟩

theorem startsBare_trim (t : Text) : StartsBare (trim t) := by
  obtain ⟨-, -, -, hbare⟩ := exists_trimStart t
  obtain ⟨b, -, hstart, -⟩ := exists_trimEnd (trimStart t)
  intro m hm hle
  exact hbare m hm (hle.trans ⟨b, hstart.symm⟩)

theorem endsBare_trim (t : Text) : EndsBare (trim t) := by
  obtain ⟨-, -, -, hbare⟩ := exists_trimEnd (trimStart t)
  exact hbare

theorem trim_of_bare (hstart : StartsBare t) (hend : EndsBare t) : trim t = t := by
  rw [trim, hstart.trimStart_eq, hend.trimEnd_eq]

theorem StartsBare.append (h : StartsBare t) (ht : t ≠ []) (hb : IsBlanks b) : StartsBare (t ++ b) := by
  intro m hm hstart
  rcases prefix_or_prefix_of_prefix hstart (prefix_append t b) with hle | ⟨k, rfl⟩
  · exact h m hm hle
  · rcases k with - | ⟨x, k⟩
    · exact h _ hm (by simp)
    · obtain ⟨rest, hrest⟩ := hstart
      have hb' : x :: k ++ rest = b := by simpa using hrest
      obtain ⟨ms, hms, hflat⟩ := hb
      have hx : x ∈ (t ++ x :: k).tail := by
        obtain ⟨y, t, rfl⟩ := exists_cons_of_ne_nil ht
        simp
      -- the byte behind `t` would start one blank and continue another
      rcases ms with - | ⟨n, ms⟩
      · simp [hflat] at hb'
      · have hn : n ≠ [] := fun h0 => nil_not_mem_blanks (h0 ▸ hms n mem_cons_self)
        obtain ⟨y, n, rfl⟩ := exists_cons_of_ne_nil hn
        have hxy : x = y := by simpa [hflat] using congrArg head? hb'
        exact head_not_mem_tail_blanks _ (hms _ mem_cons_self) _ hm x hx (by simp [hxy])

theorem Strips.trim_eq (h : Strips t u) : trim t = trim u := by
  obtain ⟨a, b, ha, hb, rfl⟩ := h
  obtain ⟨a', ha', hu, hbare⟩ := exists_trimStart u
  have hstart : trimStart (a ++ u ++ b) = trimStart (trimStart u ++ b) := by
    rw [append_assoc, trimStart_append ha]
    conv => lhs; rw [hu]
    rw [append_assoc, trimStart_append ha']
  rw [trim, trim, hstart]
  by_cases hnil : trimStart u = []
  · have hblank : trimStart b = [] := by simpa [trimStart, dropBlanksFrom] using trimStart_append hb []
    rw [hnil, nil_append, hblank]
  · rw [(hbare.append hnil hb).trimStart_eq, trimEnd_append hb]

theorem map_trim_eq (h : Forall₂ Strips xs us) : xs.map trim = us.map trim := by
  induction h with
  | nil => rfl
  | cons hx _ ih => rw [map_cons, map_cons, hx.trim_eq, ih]

end FlutterLayout.Text
