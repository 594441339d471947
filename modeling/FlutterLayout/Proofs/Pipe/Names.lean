import FlutterLayout.Proofs.Pipe.Grammar
import FlutterLayout.Proofs.Text.Segments

/-!
# Names — of pipes and of variables

The name of a pipe is read back from where it was written: it has no blanks at its ends
(`IsName.trim_eq`), no byte with a meaning of its own (`IsName.tame`), and stands between quotes as it is
(`IsName.quoted_eq`).  The names of the variables of a subscription have no such byte either
(`tame_variableName`).
-/

namespace FlutterLayout.Pipe

open List Text
open Text (Encodes Cut Segment)

variable {r : Rune} {a b c : UInt8} {t u more source : Text} {ss : List Segment} {s : Segment}

/-! ## Sets of runes -/

/-- Every member of the first set is one of the second, as far as `fuel` borders tell. -/
def coversFrom : (fuel : Nat) → (inner outer : Bool) → (borders wider : List Rune) → Bool
  | 0, _, _, _, _ => false
  | fuel + 1, inner, outer, borders, wider =>
    (!inner || outer) &&
      match borders, wider with
      | [], [] => true
      | _ :: as, [] => coversFrom fuel (!inner) outer as []
      | [], _ :: bs => coversFrom fuel inner (!outer) [] bs
      | a :: as, b :: bs =>
        if a < b then coversFrom fuel (!inner) outer as (b :: bs)
        else if b < a then coversFrom fuel inner (!outer) (a :: as) bs
        else coversFrom fuel (!inner) (!outer) as bs

theorem withinFrom_of_coversFrom {inner : Bool} (h : coversFrom fuel inner outer borders wider = true)
    (hr : withinFrom inner borders r = true) : withinFrom outer wider r = true := by
  induction fuel generalizing inner outer borders wider with
  | zero => cases h
  | succ fuel ih =>
    unfold coversFrom at h
    rw [Bool.and_eq_true_iff] at h
    obtain ⟨himp, hrest⟩ := h
    have hkeep : inner = true → outer = true := by
      rintro rfl
      simpa using himp
    match borders, wider, hrest with
    | [], [], _ => exact hkeep hr
    | a :: as, [], hrest =>
      rw [withinFrom] at hr
      split at hr
      · exact hkeep hr
      · exact ih hrest hr
    | [], b :: bs, hrest =>
      rw [withinFrom]
      split
      · exact hkeep hr
      · exact ih hrest hr
    | a :: as, b :: bs, hrest =>
      simp only at hrest
      split at hrest
      · rename_i hab
        rw [withinFrom] at hr
        split at hr
        · rename_i hra
          rw [withinFrom, if_pos (Nat.lt_trans hra hab)]
          exact hkeep hr
        · exact ih hrest hr
      · split at hrest
        · rename_i hba
          rw [withinFrom]
          split
          · rename_i hrb
            rw [withinFrom, if_pos (Nat.lt_trans hrb hba)] at hr
            exact hkeep hr
          · exact ih hrest hr
        · rename_i hab hba
          obtain rfl : a = b := by lia
          rw [withinFrom] at hr ⊢
          split
          · rename_i hra
            rw [if_pos hra] at hr
            exact hkeep hr
          · rename_i hra
            rw [if_neg hra] at hr
            exact ih hrest hr

theorem isPrintable_of_isLetter (h : isLetter r = true) : isPrintable r = true := by
  have hcovers : coversFrom 4000 false false letterBorders printableBorders = true := by decide +kernel
  unfold isLetter at h
  unfold isPrintable
  split
  · rename_i hr
    simp only [hr, if_true, Bool.or_eq_true, Bool.and_eq_true, decide_eq_true_eq] at h
    simp only [Bool.and_eq_true, decide_eq_true_eq]
    lia
  · rename_i hr
    rw [if_neg hr] at h
    exact withinFrom_of_coversFrom hcovers h

theorem isPrintable_of_isDigit (h : isDigit r = true) : isPrintable r = true := by
  have hcovers : coversFrom 4000 false false digitBorders printableBorders = true := by decide +kernel
  unfold isDigit at h
  unfold isPrintable
  split
  · rename_i hr
    simp only [hr, if_true, Bool.and_eq_true, decide_eq_true_eq] at h
    simp only [Bool.and_eq_true, decide_eq_true_eq]
    lia
  · rename_i hr
    rw [if_neg hr] at h
    exact withinFrom_of_coversFrom hcovers h

theorem isPrintable_of_isNameRune (h : isNameRune r = true) : isPrintable r = true := by
  simp only [isNameRune, isIdentifierRune, Bool.or_eq_true, decide_eq_true_eq] at h
  rcases h with rfl | (rfl | h) | h
  · rfl
  · rfl
  · exact isPrintable_of_isLetter h
  · exact isPrintable_of_isDigit h

/-! ## Bytes of names -/

def Tame (b : UInt8) : Prop :=
  isOrdinary b = true ∧ b ∉ [bar, byte ',', byte ':']

instance (b : UInt8) : Decidable (Tame b) :=
  inferInstanceAs (Decidable (_ ∧ _))

theorem tame_of_le (h : 0x80 ≤ b) : Tame b := by
  have hall : ∀ n < 256, 0x80 ≤ UInt8.ofNat n → Tame (UInt8.ofNat n) := by decide +kernel
  simpa using hall b.toNat b.toNat_lt (by simpa using h)

theorem tame_of_encodes (he : Encodes r a more) (hr : isNameRune r = true) : ∀ b ∈ a :: more, Tame b := by
  intro b hb
  by_cases ha : a < 0x80
  · obtain ⟨rfl, rfl⟩ := he.ascii ha
    have hall : ∀ n < 128, isNameRune n = true → Tame (UInt8.ofNat n) := by decide +kernel
    obtain rfl : b = a := by simpa using hb
    simpa using hall b.toNat ha hr
  · rcases mem_cons.1 hb with rfl | hb
    · exact tame_of_le (UInt8.not_lt.1 ha)
    · exact tame_of_le (isContinuation_eq_true_iff.1 (he.continues b hb)).1

theorem exists_encodes (h : Cut t ss) (hs : s ∈ ss) (hr : isNameRune s.rune = true) :
    ∃ a more, s.rune? = some s.rune ∧ s.bytes = a :: more ∧ Encodes s.rune a more := by
  cases hrune : s.rune? with
  | none =>
    have hstray : s.rune = replacementRune := by simp [Segment.rune, hrune]
    rw [hstray] at hr
    exact absurd hr (by decide +kernel)
  | some r =>
    obtain rfl : s.rune = r := by simp [Segment.rune, hrune]
    obtain ⟨a, more, hbytes, he⟩ := h.encodes hs hrune
    exact ⟨a, more, rfl, hbytes, he⟩

namespace IsName

theorem rune (h : IsName t) (hs : s ∈ segments t) : isNameRune s.rune = true :=
  h.2 _ (mem_map_of_mem hs)

theorem exists_rune (h : IsName t) (hb : b ∈ t) :
    ∃ r a more, isNameRune r = true ∧ Encodes r a more ∧ b ∈ a :: more := by
  have hcut := cut_segments t
  rw [← hcut.flatMap_bytes] at hb
  obtain ⟨s, hs, hbs⟩ := mem_flatMap.1 hb
  obtain ⟨a, more, -, hbytes, he⟩ := exists_encodes hcut hs (h.rune hs)
  exact ⟨s.rune, a, more, h.rune hs, he, hbytes ▸ hbs⟩

theorem tame (h : IsName t) : ∀ b ∈ t, Tame b := by
  intro b hb
  obtain ⟨r, a, more, hr, he, hb⟩ := h.exists_rune hb
  exact tame_of_encodes he hr b hb

theorem quoted_eq (h : IsName t) : quoted t = doubleQuote :: (t ++ [doubleQuote]) := by
  have hcut := cut_segments t
  have hseg : ∀ s ∈ segments t, quotedSegment s = s.bytes := by
    intro s hs
    obtain ⟨a, more, hrune, -, -⟩ := exists_encodes hcut hs (h.rune hs)
    have hplain : ∀ r, isNameRune r = true → r ≠ doubleQuote.toNat ∧ r ≠ backslash.toNat := by
      intro r hr
      constructor
      all_goals
        rintro rfl
        exact absurd hr (by decide)
    obtain ⟨hquote, hescape⟩ := hplain _ (h.rune hs)
    simp [quotedSegment, hrune, hquote, hescape, isPrintable_of_isNameRune (h.rune hs)]
  rw [quoted, flatMap_congr hseg, hcut.flatMap_bytes]
  rfl

theorem not_blank (hr : isNameRune r = true) : r ∉ blankRunes := by
  have hall : ∀ r ∈ blankRunes, isNameRune r = false := by decide +kernel
  intro hmem
  rw [hall r hmem] at hr
  cases hr

theorem exists_encodes_blank (hm : m ∈ blanks) : ∃ q ∈ blankRunes, ∃ a more, m = a :: more ∧ Encodes q a more := by
  obtain ⟨q, hq, rfl⟩ := mem_map.1 hm
  have hcheck : ∀ q ∈ blankRunes, ∃ a ∈ (ofRune q).head?,
      leadingRune? a (ofRune q).tail = some (q, (ofRune q).tail.length + 1) := by decide +kernel
  obtain ⟨a, ha, hlead⟩ := hcheck q hq
  obtain ⟨more, rest, hmore, hlength, he⟩ := encodes_of_leadingRune? hlead
  obtain rfl : rest = [] := by simpa [hmore] using hlength
  exact ⟨q, hq, a, more, by rw [eq_cons_of_mem_head? ha, hmore, append_nil], he⟩

theorem startsBare (h : IsName t) : StartsBare t := by
  intro m hm hstart
  obtain ⟨q, hq, b, more', rfl, hb⟩ := exists_encodes_blank hm
  have hcut := cut_segments t
  have hrune : ∀ s ∈ segments t, isNameRune s.rune = true := fun s hs => h.rune hs
  generalize segments t = ss at hcut hrune
  cases hcut with
  | nil => exact h.1 rfl
  | stray _ =>
    obtain ⟨_, _, hsome, -⟩ := exists_encodes (.stray .nil) mem_cons_self (hrune _ mem_cons_self)
    cases hsome
  | rune he _ =>
    rename_i a t more r ss _
    obtain ⟨rfl, rest, hrest⟩ := cons_prefix_cons.1 hstart
    -- both are read at the start of one text
    have hread := hb.read rest
    rw [hrest, he.read t] at hread
    obtain rfl : r = q := (Prod.mk.inj (Option.some.inj hread)).1
    exact not_blank (hrune _ mem_cons_self) hq

theorem endsBare (h : IsName t) : EndsBare t := by
  intro m hm hend
  obtain ⟨q, hq, b, more', rfl, hb⟩ := exists_encodes_blank hm
  have hcut := cut_segments t
  have hbytes := hcut.flatMap_bytes
  rcases eq_nil_or_concat' (segments t) with hnil | ⟨ss, s, hlast⟩
  · rw [hnil] at hbytes
    exact h.1 hbytes.symm
  · have hs : s ∈ segments t := by simp [hlast]
    obtain ⟨a, more, -, hsbytes, he⟩ := exists_encodes hcut hs (h.rune hs)
    have hsuffix : a :: more <:+ t := ⟨ss.flatMap Segment.bytes, by simpa [hlast, hsbytes] using hbytes⟩
    -- of two runes at one end, neither starts inside the other
    have hsame : b :: more' = a :: more := by
      rcases suffix_or_suffix_of_suffix hend hsuffix with hle | hle
      · rcases suffix_cons_iff.1 hle with heq | hle
        · exact heq
        · have := he.continues b (hle.subset mem_cons_self)
          rw [hb.start] at this
          cases this
      · rcases suffix_cons_iff.1 hle with heq | hle
        · exact heq.symm
        · have := hb.continues a (hle.subset mem_cons_self)
          rw [he.start] at this
          cases this
    obtain ⟨rfl, rfl⟩ := cons.inj hsame
    have hread := (hb.read []).symm.trans (he.read [])
    obtain rfl : q = s.rune := (Prod.mk.inj (Option.some.inj hread)).1
    exact not_blank (h.rune hs) hq

theorem trim_eq (h : IsName t) : trim t = t :=
  trim_of_bare h.startsBare h.endsBare

end IsName

/-! ## Clean texts -/

theorem part_cases (hc : c ∉ p.tail) (h : p <:+: x ++ c :: y) : p <:+: x ∨ p <+: c :: y ∨ p <:+: y := by
  rcases infix_append_iff.1 h with h | h | ⟨u, v, rfl, hu, hv⟩
  · exact .inl h
  · exact .inr (infix_cons_iff.1 h)
  · rcases u with - | ⟨d, u⟩
    · exact .inr (.inl hv)
    · rcases prefix_cons_iff.1 hv with rfl | ⟨v, rfl, -⟩
      · exact .inl (by simpa using hu.isInfix)
      · exact absurd (by simp) hc

theorem part_of_part_append_cons (hc : c ∉ p) (h : p <:+: x ++ c :: y) : p <:+: x ∨ p <:+: y := by
  rcases part_cases (fun hmem => hc (mem_of_mem_tail hmem)) h with h | h | h
  · exact .inl h
  · rcases prefix_cons_iff.1 h with rfl | ⟨v, rfl, -⟩
    · exact .inl nil_infix
    · exact absurd mem_cons_self hc
  · exact .inr h

theorem Clean.of_part (h : Clean t) (hu : u <:+: t) : Clean u :=
  fun hstart => h (hstart.trans hu)

/-- A byte that is in no placeholder keeps apart what is on its two sides. -/
theorem clean_append_cons (hc : c ∉ placeholderStart) : Clean (t ++ c :: u) ↔ Clean t ∧ Clean u := by
  constructor
  · intro h
    exact ⟨h.of_part (prefix_append _ _).isInfix, h.of_part ((suffix_cons c u).trans (suffix_append t _)).isInfix⟩
  · rintro ⟨ht, hu⟩ h
    exact (part_of_part_append_cons hc h).elim ht hu

theorem clean_nil : Clean [] := by
  decide

theorem clean_cons (hc : c ∉ placeholderStart) : Clean (c :: u) ↔ Clean u := by
  simpa [clean_nil] using clean_append_cons (t := []) (u := u) hc

/-! ## Variables -/

theorem isNameRune_of_isIdentifierRune (h : isIdentifierRune r = true) : isNameRune r = true := by
  simp [isNameRune, h]

def Spelled (t : Text) : Prop :=
  ∀ s ∈ segments t, isIdentifierRune s.rune = true

theorem spelled_nil : Spelled [] :=
  forall_mem_nil _

theorem Spelled.append (ht : Spelled t) (hu : Spelled u) (hstart : ∀ c ∈ u.head?, isContinuation c = false) :
    Spelled (t ++ u) := by
  rw [Spelled, segments_append hstart]
  exact forall_mem_append.2 ⟨ht, hu⟩

theorem Spelled.isName (h : Spelled t) (hne : t ≠ []) : IsName t :=
  ⟨hne, forall_mem_map.2 fun s hs => isNameRune_of_isIdentifierRune (h s hs)⟩

theorem mem_identifierRunsFrom (h : Cut t ss) (hrun : Spelled run)
    (hu : u ∈ identifierRunsFrom run ss) : u <:+: run ++ t ∧ Spelled u := by
  have hstep : ∀ {s : Segment} {ss : List Segment} {t run : Text},
      (isIdentifierRune s.rune = true → Spelled s.bytes ∧ ∀ c ∈ s.bytes.head?, isContinuation c = false) →
      (∀ {run : Text}, Spelled run → u ∈ identifierRunsFrom run ss → u <:+: run ++ t ∧ Spelled u) →
      Spelled run → u ∈ identifierRunsFrom run (s :: ss) → u <:+: run ++ (s.bytes ++ t) ∧ Spelled u := by
    intro s ss t run hs ih hrun hu
    have hskip : u ∈ identifierRunsFrom [] ss → u <:+: run ++ (s.bytes ++ t) ∧ Spelled u := by
      intro hu
      obtain ⟨hpart, hspell⟩ := ih spelled_nil hu
      refine ⟨hpart.trans ?_, hspell⟩
      rw [nil_append, ← append_assoc]
      exact (suffix_append _ t).isInfix
    rw [identifierRunsFrom] at hu
    split at hu
    · rename_i hrune
      rw [← append_assoc]
      exact ih (hrun.append (hs hrune).1 (hs hrune).2) hu
    · split at hu
      · exact hskip hu
      · rcases mem_cons.1 hu with rfl | hu
        · exact ⟨(prefix_append _ _).isInfix, hrun⟩
        · exact hskip hu
  induction h generalizing run with
  | nil =>
    rw [identifierRunsFrom] at hu
    split at hu
    · cases hu
    · obtain rfl := mem_singleton.1 hu
      exact ⟨by simp, hrun⟩
  | stray _ ih =>
    refine hstep (fun hrune => ?_) ih hrun hu
    obtain ⟨_, _, hsome, -⟩ := exists_encodes (.stray .nil) mem_cons_self (isNameRune_of_isIdentifierRune hrune)
    cases hsome
  | rune he _ ih =>
    refine hstep (s := ⟨some _, _⟩) (fun hrune => ⟨?_, by simpa using he.start⟩) ih hrun hu
    have hone := segments_of_encodes he []
    rw [append_nil] at hone
    rw [Spelled, hone]
    exact forall_mem_singleton.2 hrune

theorem trimUnderscores_isPrefix (t : Text) : trimUnderscores t <+: t.dropWhile fun b => b = byte '_' :=
  reverse_suffix.1 (by simpa [trimUnderscores] using dropWhile_suffix _)

theorem head?_trimUnderscores (t : Text) : (trimUnderscores t).head? ≠ some (byte '_') := by
  intro hhead
  obtain ⟨rest, hrest⟩ := trimUnderscores_isPrefix t
  have hnot := head?_dropWhile_not (fun b => decide (b = byte '_')) t
  rw [← hrest, head?_append, hhead] at hnot
  simp at hnot

theorem spelled_trimUnderscores (h : Spelled t) : Spelled (trimUnderscores t) := by
  have hdrop : ∀ t : Text, Spelled t → Spelled (t.dropWhile fun b => b = byte '_') := by
    intro t ht
    induction t with
    | nil => exact ht
    | cons b t ih =>
      rw [dropWhile_cons]
      split
      · rename_i hb
        rw [of_decide_eq_true hb, Spelled, segments_ascii (by decide)] at ht
        exact ih (forall_mem_cons.1 ht).2
      · exact ht
  have hbehind : ∀ t u : Text, (∀ c ∈ u, c = byte '_') → Spelled (t ++ u) → Spelled t := by
    intro t u hu htu
    rw [Spelled, segments_append fun c hc => ?_] at htu
    · exact (forall_mem_append.1 htu).1
    · rw [hu c (mem_of_head? hc)]
      rfl
  have hspell := hdrop t h
  simp only [trimUnderscores]
  generalize (t.dropWhile fun b => decide (b = byte '_')) = u at hspell ⊢
  refine hbehind _ (u.reverse.takeWhile fun b => decide (b = byte '_')).reverse (fun c hc => ?_) ?_
  · have hall := all_takeWhile (p := fun b => decide (b = byte '_')) (l := u.reverse)
    simpa using all_eq_true.1 hall c (mem_reverse.1 hc)
  · rw [← reverse_append, takeWhile_append_dropWhile, reverse_reverse]
    exact hspell

structure IsRun (source t : Text) : Prop where
  ne_nil : t ≠ []
  head : t.head? ≠ some (byte '_')
  part : t <:+: source
  spelled : Spelled t

theorem IsRun.tame (h : IsRun source t) : ∀ b ∈ t, Tame b :=
  (h.spelled.isName h.ne_nil).tame

theorem isRun_of_mem (h : t ∈ ((identifierRuns source).map trimUnderscores).filter (!·.isEmpty)) : IsRun source t := by
  obtain ⟨hmem, hne⟩ := mem_filter.1 h
  obtain ⟨u, hu, rfl⟩ := mem_map.1 hmem
  obtain ⟨hpart, hspell⟩ := mem_identifierRunsFrom (cut_segments source) spelled_nil hu
  have htrimmed := (trimUnderscores_isPrefix u).isInfix.trans (dropWhile_suffix _).isInfix
  exact ⟨by simpa using hne, head?_trimUnderscores u, htrimmed.trans (by simpa using hpart),
    spelled_trimUnderscores hspell⟩

/-- What follows the first run of a name starts with a byte that no placeholder has. -/
theorem exists_capitalised (h : IsRun source t) :
    ∃ c u, capitalised t = c :: u ∧ c ∉ placeholderStart ∧ (Clean t → Clean u) ∧ ∀ b ∈ c :: u, Tame b := by
  obtain ⟨b, t, rfl⟩ := exists_cons_of_ne_nil h.ne_nil
  have ht : Clean (b :: t) → Clean t := fun hclean => hclean.of_part (suffix_cons b t).isInfix
  have htame : ∀ x ∈ t, Tame x := fun x hx => h.tame x (mem_cons_of_mem _ hx)
  by_cases hb : b < 0x80
  · have hupper : ∀ n < 256, UInt8.ofNat n ≠ byte '_' → Tame (UInt8.ofNat n) →
        upperByte (UInt8.ofNat n) ∉ placeholderStart ∧ Tame (upperByte (UInt8.ofNat n)) := by
      decide +kernel
    obtain ⟨hstart, hbyte⟩ := hupper b.toNat b.toNat_lt (by simpa using h.head)
      (by simpa using h.tame b mem_cons_self)
    rw [UInt8.ofNat_toNat] at hstart hbyte
    refine ⟨upperByte b, t, by simp [capitalised, hb], hstart, ht, ?_⟩
    rw [forall_mem_cons]
    exact ⟨hbyte, htame⟩
  · refine ⟨0xEF, [0xBF, 0xBD] ++ t, by simp [capitalised, hb]; rfl, by decide, fun hclean => ?_, ?_⟩
    · exact (clean_cons (by decide)).2 ((clean_cons (by decide)).2 (ht hclean))
    · have hbytes : ∀ x ∈ ([0xEF, 0xBF, 0xBD] : Text), Tame x := by decide
      intro x hx
      rcases mem_append.1 (show x ∈ [0xEF, 0xBF, 0xBD] ++ t from hx) with hx | hx
      · exact hbytes x hx
      · exact htame x hx

theorem tame_camelCase (hruns : ∀ t ∈ runs, IsRun source t) : ∀ b ∈ camelCase runs, Tame b := by
  cases runs with
  | nil => simp [camelCase]
  | cons x runs =>
    obtain ⟨hx, hruns⟩ := forall_mem_cons.1 hruns
    refine forall_mem_append.2 ⟨hx.tame, fun b hb => ?_⟩
    obtain ⟨y, hy, hb⟩ := mem_flatMap.1 hb
    obtain ⟨c, u, hcap, -, -, htame⟩ := exists_capitalised (hruns y hy)
    exact htame b (hcap ▸ hb)

theorem clean_camelCase (hruns : ∀ t ∈ runs, IsRun source t) (hclean : Clean source) : Clean (camelCase runs) := by
  have hmore : ∀ {runs : List Text} {t : Text}, (∀ t ∈ runs, IsRun source t) → Clean t →
      Clean (t ++ runs.flatMap capitalised) := by
    intro runs t hruns ht
    induction runs generalizing t with
    | nil => simpa using ht
    | cons x runs ih =>
      obtain ⟨hx, hruns⟩ := forall_mem_cons.1 hruns
      obtain ⟨c, u, hcap, hstart, hu, -⟩ := exists_capitalised hx
      rw [flatMap_cons, ← append_assoc, hcap]
      exact ih hruns ((clean_append_cons hstart).2 ⟨ht, hu (hclean.of_part hx.part)⟩)
  cases runs with
  | nil => exact clean_nil
  | cons x runs =>
    obtain ⟨hx, hruns⟩ := forall_mem_cons.1 hruns
    exact hmore hruns (hclean.of_part hx.part)

/-- A property of the joined runs that a letter in front keeps holds of the name of a variable. -/
theorem variableName_induct {P : Text → Prop} (hnone : P "pipe") (hcons : ∀ t, P t → P (byte 'v' :: t))
    (hruns : ∀ runs, (∀ t ∈ runs, IsRun source t) → P (camelCase runs)) : P (variableName source) := by
  have hname := hruns _ fun t ht => isRun_of_mem ht
  unfold variableName
  dsimp only
  split
  · exact hnone
  · split
    · exact hcons _ hname
    · exact hname

theorem tame_variableName (source : Text) : ∀ b ∈ variableName source, Tame b :=
  variableName_induct (P := fun t => ∀ b ∈ t, Tame b) (by decide) (fun t ht => forall_mem_cons.2 ⟨by decide, ht⟩)
    fun _ hruns => tame_camelCase hruns

theorem tame_valueName (kind : Kind) (source stem : Text) :
    ∀ b ∈ (Subscription.make kind source stem).valueName, Tame b := by
  have hsuffix : ∀ b ∈ ofString "Value", Tame b := by decide
  exact forall_mem_append.2 ⟨tame_variableName stem, hsuffix⟩

theorem clean_variableName (hclean : Clean source) : Clean (variableName source) :=
  variableName_induct (by decide) (fun t ht => (clean_cons (by decide)).2 ht) fun _ hruns =>
    clean_camelCase hruns hclean

end FlutterLayout.Pipe
