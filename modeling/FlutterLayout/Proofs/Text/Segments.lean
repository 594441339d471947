import FlutterLayout.Text.Rune

/-!
# Segments — what a text is cut into

`Encodes r a more` says that `a` and `more` are the bytes of the rune `r`: only the first of them can start
a rune.  `Cut t ss` is the cut of a text into runes and stray bytes as a relation, to reason by induction on
it; `segments` makes such a cut (`cut_segments`).  The bytes a rune is read from are the ones `ofRune` writes
(`ofRune_of_encodes`), so a text that is well-formed UTF-8 is the row of the bytes of its runes.
-/

namespace FlutterLayout.Text

open List

variable {a b : UInt8} {t more : Text} {r : Rune} {ss : List Segment} {s : Segment}

structure Encodes (r : Rune) (a : UInt8) (more : Text) : Prop where
  start : isContinuation a = false
  continues : ∀ b ∈ more, isContinuation b = true
  ascii : a < 0x80 → more = [] ∧ r = a.toNat
  read : ∀ t, leadingRune? a (more ++ t) = some (r, more.length + 1)

theorem isContinuation_eq_true_iff : isContinuation b = true ↔ 0x80 ≤ b ∧ b ≤ 0xBF := by
  simp [isContinuation]

theorem isContinuation_eq_false_of_lt (h : a < 0x80) : isContinuation a = false := by
  rw [Bool.eq_false_iff, Ne, isContinuation_eq_true_iff]
  exact fun ha => UInt8.not_le.2 h ha.1

theorem isContinuation_eq_false_of_le (h : 0xC0 ≤ a) : isContinuation a = false := by
  rw [Bool.eq_false_iff, Ne, isContinuation_eq_true_iff]
  exact fun ha => absurd (UInt8.le_trans h ha.2) (by decide)

theorem isContinuation_iff_toNat : isContinuation b = true ↔ 0x80 ≤ b.toNat ∧ b.toNat ≤ 0xBF := by
  simp [isContinuation, UInt8.le_iff_toNat_le]

theorem secondOfThree_toNat (h : (secondOfThree x).1 ≤ y ∧ y ≤ (secondOfThree x).2) :
    (0x80 ≤ y.toNat ∧ y.toNat ≤ 0xBF) ∧ (x.toNat = 0xE0 → 0xA0 ≤ y.toNat) ∧ (x.toNat = 0xED → y.toNat ≤ 0x9F) := by
  simp only [secondOfThree, UInt8.le_iff_toNat_le, ← UInt8.toNat_inj] at h
  split at h
  · simp_all; omega
  · split at h
    · simp_all; omega
    · simp_all

theorem secondOfFour_toNat (h : (secondOfFour x).1 ≤ y ∧ y ≤ (secondOfFour x).2) :
    (0x80 ≤ y.toNat ∧ y.toNat ≤ 0xBF) ∧ (x.toNat = 0xF0 → 0x90 ≤ y.toNat) ∧ (x.toNat = 0xF4 → y.toNat ≤ 0x8F) := by
  simp only [secondOfFour, UInt8.le_iff_toNat_le, ← UInt8.toNat_inj] at h
  split at h
  · simp_all; omega
  · split at h
    · simp_all; omega
    · simp_all

/-! ## Forms -/

/-- The bytes of a rune: one, or a first byte that says how many follow. -/
inductive Form (a : UInt8) : Text → Rune → Prop where
  | one (ha : a < 0x80) : Form a [] a.toNat
  | two {b : UInt8} (ha : 0xC2 ≤ a ∧ a ≤ 0xDF) (hb : isContinuation b = true) :
      Form a [b] ((a.toNat - 0xC0) * 0x40 + continuationBits b)
  | three {b c : UInt8} (ha : 0xE0 ≤ a ∧ a ≤ 0xEF) (hb : (secondOfThree a).1 ≤ b ∧ b ≤ (secondOfThree a).2)
      (hc : isContinuation c = true) :
      Form a [b, c] ((a.toNat - 0xE0) * 0x1000 + continuationBits b * 0x40 + continuationBits c)
  | four {b c d : UInt8} (ha : 0xF0 ≤ a ∧ a ≤ 0xF4) (hb : (secondOfFour a).1 ≤ b ∧ b ≤ (secondOfFour a).2)
      (hc : isContinuation c = true) (hd : isContinuation d = true) : Form a [b, c, d]
        ((a.toNat - 0xF0) * 0x40000 + continuationBits b * 0x1000 + continuationBits c * 0x40 + continuationBits d)

theorem form_of_leadingRune? (h : leadingRune? a t = some (r, n)) :
    ∃ more rest, t = more ++ rest ∧ n = more.length + 1 ∧ Form a more r ∧
      ∀ u, leadingRune? a (more ++ u) = some (r, more.length + 1) := by
  simp only [leadingRune?, Bool.and_eq_true, decide_eq_true_eq] at h ⊢
  split at h
  · rename_i hone
    cases h
    exact ⟨[], t, rfl, rfl, .one hone, fun u => by simp [hone]⟩
  split at h
  · rename_i hone htwo
    split at h
    · rename_i b rest
      obtain ⟨hb, heq⟩ := Option.ite_none_right_eq_some.1 h
      obtain ⟨rfl, rfl⟩ := Prod.mk.inj (Option.some.inj heq)
      exact ⟨[b], rest, rfl, rfl, .two htwo hb, fun u => by simp [hone, htwo, hb]⟩
    · cases h
  split at h
  · rename_i hone htwo hthree
    split at h
    · rename_i b c rest
      obtain ⟨⟨hb, hc⟩, heq⟩ := Option.ite_none_right_eq_some.1 h
      obtain ⟨rfl, rfl⟩ := Prod.mk.inj (Option.some.inj heq)
      exact ⟨[b, c], rest, rfl, rfl, .three hthree hb hc, fun u => by simp [hone, htwo, hthree, hb, hc]⟩
    · cases h
  split at h
  · rename_i hone htwo hthree hfour
    split at h
    · rename_i b c d rest
      obtain ⟨⟨⟨hb, hc⟩, hd⟩, heq⟩ := Option.ite_none_right_eq_some.1 h
      obtain ⟨rfl, rfl⟩ := Prod.mk.inj (Option.some.inj heq)
      exact ⟨[b, c, d], rest, rfl, rfl, .four hfour hb hc hd,
        fun u => by simp [hone, htwo, hthree, hfour, hb, hc, hd]⟩
    · cases h
  · cases h

theorem Form.continues (h : Form a more r) : ∀ b ∈ more, isContinuation b = true := by
  cases h with
  | one => exact forall_mem_nil _
  | two _ hb => exact forall_mem_singleton.2 hb
  | three _ hb hc => simp [isContinuation_iff_toNat.2 (secondOfThree_toNat hb).1, hc]
  | four _ hb hc hd => simp [isContinuation_iff_toNat.2 (secondOfFour_toNat hb).1, hc, hd]

theorem Form.one_or_more (h : Form a more r) : (a < 0x80 ∧ more = [] ∧ r = a.toNat) ∨ 0xC0 ≤ a := by
  cases h with
  | one ha => exact .inl ⟨ha, rfl, rfl⟩
  | two ha | three ha | four ha => exact .inr (UInt8.le_trans (by decide) ha.1)

theorem encodes_of_leadingRune? (h : leadingRune? a t = some (r, n)) :
    ∃ more rest, t = more ++ rest ∧ n = more.length + 1 ∧ Encodes r a more := by
  obtain ⟨more, rest, rfl, rfl, hform, hread⟩ := form_of_leadingRune? h
  refine ⟨more, rest, rfl, rfl, ?_⟩
  rcases hform.one_or_more with ⟨ha, hone⟩ | ha
  · exact ⟨isContinuation_eq_false_of_lt ha, hform.continues, fun _ => hone, hread⟩
  · refine ⟨isContinuation_eq_false_of_le ha, hform.continues, fun hlt => ?_, hread⟩
    exact absurd (UInt8.lt_of_le_of_lt ha hlt) (by decide)

theorem Encodes.form (h : Encodes r a more) : Form a more r := by
  obtain ⟨more', rest, hmore, hlength, hform, -⟩ := form_of_leadingRune? (h.read [])
  rw [append_nil] at hmore
  obtain rfl : rest = [] := by simpa [hmore] using hlength
  rwa [hmore, append_nil]

/-- What follows a text does not change how it is read, unless it starts in the middle of a rune. -/
theorem leadingRune?_append (hu : ∀ c ∈ u.head?, isContinuation c = false) :
    leadingRune? a (t ++ u) = leadingRune? a t := by
  cases h : leadingRune? a t with
  | some found =>
    obtain ⟨more, rest, rfl, hlength, he⟩ := encodes_of_leadingRune? h
    rw [append_assoc, he.read, ← hlength]
  | none =>
    cases h' : leadingRune? a (t ++ u) with
    | none => rfl
    | some found =>
      obtain ⟨more, rest, heq, -, he⟩ := encodes_of_leadingRune? h'
      rcases append_eq_append_iff.1 heq with ⟨k, rfl, rfl⟩ | ⟨k, rfl, -⟩
      · rcases k with - | ⟨c, k⟩
        · rw [← append_nil t, ← append_nil t, he.read] at h
          cases h
        · have := he.continues c (by simp)
          rw [hu c rfl] at this
          cases this
      · rw [he.read] at h
        cases h

/-! ## Cuts -/

inductive Cut : Text → List Segment → Prop where
  | nil : Cut [] []
  | stray {a : UInt8} {t : Text} {ss : List Segment} (h : Cut t ss) : Cut (a :: t) (⟨none, [a]⟩ :: ss)
  | rune {a : UInt8} {t more : Text} {r : Rune} {ss : List Segment} (he : Encodes r a more) (h : Cut t ss) :
      Cut (a :: (more ++ t)) (⟨some r, a :: more⟩ :: ss)

theorem segmentsFrom_eq (skip : Nat) (t : Text) : segmentsFrom skip t = segments (t.drop skip) := by
  induction t generalizing skip with
  | nil => cases skip <;> simp [segments, segmentsFrom]
  | cons a t ih =>
    cases skip with
    | zero => rfl
    | succ skip => rw [segmentsFrom, ih skip, drop_succ_cons]

theorem segments_of_encodes (he : Encodes r a more) (t : Text) :
    segments (a :: more ++ t) = ⟨some r, a :: more⟩ :: segments t := by
  rw [segments, cons_append, segmentsFrom, he.read]
  simp only
  rw [Nat.add_sub_cancel, take_left, segmentsFrom_eq, drop_left]

theorem encodes_ascii (ha : a < 0x80) : Encodes a.toNat a [] :=
  ⟨isContinuation_eq_false_of_lt ha, forall_mem_nil _, fun _ => ⟨rfl, rfl⟩, fun _ => if_pos ha⟩

theorem segments_ascii (ha : a < 0x80) (t : Text) : segments (a :: t) = ⟨some a.toNat, [a]⟩ :: segments t :=
  segments_of_encodes (encodes_ascii ha) t

theorem segments_append (hu : ∀ c ∈ u.head?, isContinuation c = false) (t : Text) :
    segments (t ++ u) = segments t ++ segments u := by
  induction hn : t.length using Nat.strongRecOn generalizing t with
  | ind n ih =>
    cases t with
    | nil => rfl
    | cons a t =>
      rw [length_cons] at hn
      cases hread : leadingRune? a t with
      | some found =>
        obtain ⟨more, rest, rfl, hlength, he⟩ := encodes_of_leadingRune? hread
        have hrest := ih rest.length (by simp at hn; omega) rest rfl
        rw [← cons_append, append_assoc, segments_of_encodes he, segments_of_encodes he, hrest]
        rfl
      | none =>
        have hrest := ih t.length (by omega) t rfl
        rw [segments, cons_append, segmentsFrom, leadingRune?_append hu, hread, segments, segmentsFrom, hread]
        exact congrArg _ hrest

theorem cut_segments (t : Text) : Cut t (segments t) := by
  induction hn : t.length using Nat.strongRecOn generalizing t with
  | ind n ih =>
    cases t with
    | nil => exact .nil
    | cons a t =>
      rw [length_cons] at hn
      cases hread : leadingRune? a t with
      | some found =>
        obtain ⟨more, rest, rfl, -, he⟩ := encodes_of_leadingRune? hread
        rw [← cons_append, segments_of_encodes he]
        exact .rune he (ih rest.length (by simp at hn; omega) rest rfl)
      | none =>
        rw [segments, segmentsFrom, hread]
        exact .stray (ih t.length (by omega) t rfl)

namespace Cut

theorem flatMap_bytes (h : Cut t ss) : ss.flatMap Segment.bytes = t := by
  induction h with
  | nil => rfl
  | stray _ ih | rune _ _ ih => simp [ih]

theorem stray_bytes (h : Cut t ss) (hs : s ∈ ss) (hr : s.rune? = none) : ∃ a, s.bytes = [a] := by
  induction h with
  | nil => cases hs
  | stray _ ih =>
    rcases mem_cons.1 hs with rfl | hs
    · exact ⟨_, rfl⟩
    · exact ih hs
  | rune _ _ ih =>
    rcases mem_cons.1 hs with rfl | hs
    · cases hr
    · exact ih hs

theorem encodes (h : Cut t ss) (hs : s ∈ ss) (hr : s.rune? = some r) :
    ∃ a more, s.bytes = a :: more ∧ Encodes r a more := by
  induction h with
  | nil => cases hs
  | stray _ ih =>
    rcases mem_cons.1 hs with rfl | hs
    · cases hr
    · exact ih hs
  | rune he _ ih =>
    rcases mem_cons.1 hs with rfl | hs
    · cases hr
      exact ⟨_, _, rfl, he⟩
    · exact ih hs

end Cut

/-! ## Encoding -/

theorem ofRune_of_two {n x y : Nat} (hx : 0xC2 ≤ x ∧ x ≤ 0xDF) (hy : 0x80 ≤ y ∧ y ≤ 0xBF)
    (hn : n = (x - 0xC0) * 0x40 + (y - 0x80)) : ofRune n = [x.toUInt8, y.toUInt8] := by
  have hone : ¬ n < 0x80 := by omega
  have htwo : n < 0x800 := by omega
  have hfirst : 0xC0 + n / 0x40 = x := by omega
  have hsecond : 0x80 + n % 0x40 = y := by omega
  rw [ofRune, if_neg hone, if_pos htwo, hfirst, hsecond]

theorem ofRune_of_three {n x y z : Nat} (hx : 0xE0 ≤ x ∧ x ≤ 0xEF) (hy : 0x80 ≤ y ∧ y ≤ 0xBF)
    (hz : 0x80 ≤ z ∧ z ≤ 0xBF) (hshort : x = 0xE0 → 0xA0 ≤ y) (hsurrogate : x = 0xED → y ≤ 0x9F)
    (hn : n = (x - 0xE0) * 0x1000 + (y - 0x80) * 0x40 + (z - 0x80)) : ofRune n = [x.toUInt8, y.toUInt8, z.toUInt8] := by
  have hone : ¬ n < 0x80 := by omega
  have htwo : ¬ n < 0x800 := by omega
  have hthree : n < 0x10000 := by omega
  have hrange : n < 0xD800 ∨ 0xE000 ≤ n ∧ n ≤ 0x10FFFF := by omega
  have hscalar : isScalar n = true := by simpa [isScalar] using hrange
  have hfirst : 0xE0 + n / 0x1000 = x := by omega
  have hsecond : 0x80 + n / 0x40 % 0x40 = y := by omega
  have hthird : 0x80 + n % 0x40 = z := by omega
  rw [ofRune, if_neg hone, if_neg htwo, hscalar, if_neg (by decide), if_pos hthree, hfirst, hsecond, hthird]

theorem ofRune_of_four {n x y z u : Nat} (hx : 0xF0 ≤ x ∧ x ≤ 0xF4) (hy : 0x80 ≤ y ∧ y ≤ 0xBF)
    (hz : 0x80 ≤ z ∧ z ≤ 0xBF) (hu : 0x80 ≤ u ∧ u ≤ 0xBF) (hshort : x = 0xF0 → 0x90 ≤ y) (hlong : x = 0xF4 → y ≤ 0x8F)
    (hn : n = (x - 0xF0) * 0x40000 + (y - 0x80) * 0x1000 + (z - 0x80) * 0x40 + (u - 0x80)) :
    ofRune n = [x.toUInt8, y.toUInt8, z.toUInt8, u.toUInt8] := by
  have hone : ¬ n < 0x80 := by omega
  have htwo : ¬ n < 0x800 := by omega
  have hthree : ¬ n < 0x10000 := by omega
  have hrange : n < 0xD800 ∨ 0xE000 ≤ n ∧ n ≤ 0x10FFFF := by omega
  have hscalar : isScalar n = true := by simpa [isScalar] using hrange
  have hfirst : 0xF0 + n / 0x40000 = x := by omega
  have hsecond : 0x80 + n / 0x1000 % 0x40 = y := by omega
  have hthird : 0x80 + n / 0x40 % 0x40 = z := by omega
  have hfourth : 0x80 + n % 0x40 = u := by omega
  rw [ofRune, if_neg hone, if_neg htwo, hscalar, if_neg (by decide), if_neg hthree, hfirst, hsecond, hthird, hfourth]

theorem ofRune_of_encodes (h : Encodes r a more) : ofRune r = a :: more := by
  cases h.form with
  | one ha =>
    have hlt : a.toNat < 0x80 := UInt8.lt_iff_toNat_lt.1 ha
    rw [ofRune, if_pos hlt]
    simp
  | two ha hb =>
    simp only [UInt8.le_iff_toNat_le] at ha
    exact (ofRune_of_two ha (isContinuation_iff_toNat.1 hb) rfl).trans (by simp)
  | three ha hb hc =>
    obtain ⟨hb, hshort, hsurrogate⟩ := secondOfThree_toNat hb
    simp only [UInt8.le_iff_toNat_le] at ha
    exact (ofRune_of_three ha hb (isContinuation_iff_toNat.1 hc) hshort hsurrogate rfl).trans (by simp)
  | four ha hb hc hd =>
    obtain ⟨hb, hshort, hlong⟩ := secondOfFour_toNat hb
    simp only [UInt8.le_iff_toNat_le] at ha
    exact (ofRune_of_four ha hb (isContinuation_iff_toNat.1 hc) (isContinuation_iff_toNat.1 hd)
      hshort hlong rfl).trans (by simp)

theorem flatMap_ofRune_runes (h : isUtf8 t = true) : (runes t).flatMap ofRune = t := by
  have hcut := cut_segments t
  rw [runes, flatMap_map]
  refine Eq.trans ?_ hcut.flatMap_bytes
  refine congrArg flatten (map_congr_left fun s hs => ?_)
  obtain ⟨r, hr⟩ := Option.isSome_iff_exists.1 (all_eq_true.1 h s hs)
  obtain ⟨a, more, hbytes, henc⟩ := hcut.encodes hs hr
  rw [Segment.rune, hr, hbytes]
  exact ofRune_of_encodes henc

end FlutterLayout.Text
