import FlutterLayout.Proofs.Pipe.Names
import FlutterLayout.Proofs.Pipe.Sharing

/-!
# VariableNames — when the name of a variable is an identifier

A variable is named after the runs of identifier runes in a source.  All runes of the runs may stand in a name, but
runs are joined byte by byte: a later run that starts beyond ASCII loses its first byte to U+FFFD, and a digit
beyond ASCII at the start is not seen to be one.  `isVariable_variableName_iff` says that nothing else goes wrong.
-/

namespace FlutterLayout.Pipe

open List Text
open Text (Encodes)

variable {a b : UInt8} {t u source stem : Text} {r : Rune} {more : Text} {runs : List Text}

/-- The name of a variable: UTF-8, identifier runes only, and neither a digit nor an underscore first. -/
structure IsVariable (t : Text) : Prop where
  utf8 : isUtf8 t = true
  spelled : Spelled t
  first : ∃ s ss, segments t = s :: ss ∧ isDigit s.rune = false ∧ s.rune ≠ 0x5F

/-- The runs a variable is named after. -/
def nameRuns (source : Text) : List Text :=
  ((identifierRuns source).map trimUnderscores).filter (!·.isEmpty)

/-- All runs but the first start with an ASCII byte, and the first one with no digit beyond ASCII. -/
def HasPlainRuns (source : Text) : Prop :=
  (∀ t ∈ (nameRuns source).tail, ∀ b ∈ t.head?, b < 0x80) ∧
    ∀ t ∈ (nameRuns source).head?, ∀ s ∈ (segments t).head?, isDigit s.rune = true → s.rune < 0x80

instance (source : Text) : Decidable (HasPlainRuns source) :=
  inferInstanceAs (Decidable (_ ∧ _))

/-! ## Identifier runes -/

/-- A stray byte is no identifier rune. -/
theorem Spelled.isUtf8 (h : Spelled t) : isUtf8 t = true := by
  refine all_eq_true.2 fun s hs => ?_
  obtain ⟨_, _, hrune, -⟩ := exists_encodes (cut_segments t) hs (isNameRune_of_isIdentifierRune (h s hs))
  rw [hrune, Option.isSome_some]

theorem spelled_append_iff (hu : ∀ c ∈ u.head?, isContinuation c = false) :
    Spelled (t ++ u) ↔ Spelled t ∧ Spelled u := by
  rw [Spelled, segments_append hu, forall_mem_append]
  rfl

theorem spelled_cons_iff (hb : b < 0x80) : Spelled (b :: t) ↔ isIdentifierRune b.toNat = true ∧ Spelled t := by
  rw [Spelled, segments_ascii hb, forall_mem_cons]
  rfl

/-- A rune of ASCII is written as itself. -/
theorem lt_of_encodes (he : Encodes r a more) (hr : r < 0x80) : r = a.toNat := by
  have hbytes := ofRune_of_encodes he
  rw [ofRune, if_pos hr] at hbytes
  obtain ⟨rfl, -⟩ := cons.inj hbytes
  exact (Nat.mod_eq_of_lt (Nat.lt_trans hr (by decide))).symm

theorem encodes_replacementRune : Encodes replacementRune 0xEF [0xBF, 0xBD] where
  start := rfl
  continues := by decide
  ascii h := absurd h (by decide)
  read _ := rfl

/-! ## Runs in a name -/

theorem isIdentifierRune_upperByte (hb : b < 0x80) (h : isIdentifierRune b.toNat = true) :
    upperByte b < 0x80 ∧ isIdentifierRune (upperByte b).toNat = true := by
  have hall : ∀ n < 128, isIdentifierRune n = true →
      upperByte (UInt8.ofNat n) < 0x80 ∧ isIdentifierRune (upperByte (UInt8.ofNat n)).toNat = true := by
    decide
  have hupper := hall b.toNat (UInt8.lt_iff_toNat_lt.1 hb) h
  rwa [UInt8.ofNat_toNat] at hupper

/-- A later run keeps to identifier runes exactly if it starts with an ASCII byte. -/
theorem spelled_capitalised_iff (h : IsRun source t) : Spelled (capitalised t) ↔ ∀ b ∈ t.head?, b < 0x80 := by
  obtain ⟨b, u, rfl⟩ := exists_cons_of_ne_nil h.ne_nil
  simp only [head?_cons, Option.mem_some_iff, forall_eq']
  by_cases hb : b < 0x80
  · obtain ⟨hrune, hu⟩ := (spelled_cons_iff hb).1 h.spelled
    obtain ⟨hupper, hident⟩ := isIdentifierRune_upperByte hb hrune
    have hspell : Spelled (upperByte b :: u) := (spelled_cons_iff hupper).2 ⟨hident, hu⟩
    rw [capitalised, if_pos hb]
    exact ⟨fun _ => hb, fun _ => hspell⟩
  · rw [capitalised, if_neg hb]
    refine ⟨fun hspell => ?_, fun h => absurd h hb⟩
    have hsegs := segments_of_encodes encodes_replacementRune u
    have hfirst := hspell _ (hsegs ▸ mem_cons_self)
    exact absurd hfirst (by decide +kernel)

theorem not_isContinuation_capitalised (h : IsRun source t) :
    ∀ c ∈ (capitalised t ++ u).head?, isContinuation c = false := by
  obtain ⟨b, v, rfl⟩ := exists_cons_of_ne_nil h.ne_nil
  by_cases hb : b < 0x80
  · have hupper := (isIdentifierRune_upperByte hb ((spelled_cons_iff hb).1 h.spelled).1).1
    rw [capitalised, if_pos hb]
    rintro c ⟨⟩
    exact isContinuation_eq_false_of_lt hupper
  · rw [capitalised, if_neg hb]
    rintro c ⟨⟩
    rfl

theorem not_isContinuation_flatMap (h : ∀ t ∈ runs, IsRun source t) :
    ∀ c ∈ (runs.flatMap capitalised).head?, isContinuation c = false := by
  cases runs with
  | nil => simp
  | cons x runs => exact not_isContinuation_capitalised (h x mem_cons_self)

theorem spelled_flatMap_iff (h : ∀ t ∈ runs, IsRun source t) :
    Spelled (runs.flatMap capitalised) ↔ ∀ t ∈ runs, ∀ b ∈ t.head?, b < 0x80 := by
  induction runs with
  | nil => exact ⟨fun _ => forall_mem_nil _, fun _ => spelled_nil⟩
  | cons x runs ih =>
    obtain ⟨hx, hruns⟩ := forall_mem_cons.1 h
    rw [flatMap_cons, spelled_append_iff (not_isContinuation_flatMap hruns), spelled_capitalised_iff hx, ih hruns,
      forall_mem_cons]

/-! ## The first rune -/

/-- The first rune of a run, and its first byte. -/
theorem IsRun.exists_first (h : IsRun source (b :: u)) :
    ∃ s ss more, segments (b :: u) = s :: ss ∧ Encodes s.rune b more := by
  have hcut := cut_segments (b :: u)
  generalize hsegs : segments (b :: u) = segments at hcut
  cases segments with
  | nil => cases hcut
  | cons s ss =>
    have hs := h.spelled s (hsegs ▸ mem_cons_self)
    obtain ⟨a, more, -, hbytes, henc⟩ := exists_encodes hcut mem_cons_self (isNameRune_of_isIdentifierRune hs)
    have hflat := hcut.flatMap_bytes
    rw [flatMap_cons, hbytes] at hflat
    obtain ⟨rfl, -⟩ := cons.inj hflat
    exact ⟨s, ss, more, rfl, henc⟩

theorem isAsciiDigit_of_isDigit (hb : b < 0x80) (h : isDigit b.toNat = true) : isAsciiDigit b = true := by
  have hall : ∀ n < 128, isDigit n = true → isAsciiDigit (UInt8.ofNat n) = true := by decide
  have hdigit := hall b.toNat (UInt8.lt_iff_toNat_lt.1 hb) h
  rwa [UInt8.ofNat_toNat] at hdigit

/-- A run that starts with no ASCII digit starts a name, unless its first rune is another digit. -/
theorem IsRun.first_iff (h : IsRun source (b :: u)) (hb : isAsciiDigit b = false) :
    (∃ s ss, segments (b :: u) = s :: ss ∧ isDigit s.rune = false ∧ s.rune ≠ 0x5F) ↔
      ∀ s ∈ (segments (b :: u)).head?, isDigit s.rune = true → s.rune < 0x80 := by
  obtain ⟨s, ss, more, hsegs, henc⟩ := h.exists_first
  simp only [hsegs, head?_cons, Option.mem_some_iff, forall_eq']
  constructor
  · rintro ⟨s', ss', heq, hdigit, -⟩ hdigit'
    obtain ⟨rfl, -⟩ := cons.inj heq
    rw [hdigit] at hdigit'
    cases hdigit'
  · intro hplain
    refine ⟨s, ss, rfl, ?_, fun hunderscore => ?_⟩
    · by_contra hdigit
      rw [Bool.not_eq_false] at hdigit
      have hrune := lt_of_encodes henc (hplain hdigit)
      have hlow : b < 0x80 := UInt8.lt_iff_toNat_lt.2 (hrune ▸ hplain hdigit)
      rw [isAsciiDigit_of_isDigit hlow (hrune ▸ hdigit)] at hb
      cases hb
    · have hrune := lt_of_encodes henc (hunderscore ▸ by decide)
      refine h.head (congrArg some (UInt8.toNat_inj.1 ?_))
      rw [← hrune, hunderscore]
      rfl

/-! ## Names -/

theorem IsVariable.append (h : IsVariable t) (hu : Spelled u) (hstart : ∀ c ∈ u.head?, isContinuation c = false) :
    IsVariable (t ++ u) := by
  have hspell : Spelled (t ++ u) := h.spelled.append hu hstart
  obtain ⟨s, ss, hsegs, hfirst⟩ := h.first
  exact ⟨hspell.isUtf8, hspell, s, ss ++ segments u, by rw [segments_append hstart, hsegs, cons_append], hfirst⟩

theorem isVariable_pipe : IsVariable "pipe" := by
  have hspell : Spelled "pipe" := by
    change ∀ s ∈ segments "pipe", _
    decide
  exact ⟨hspell.isUtf8, hspell, _, _, rfl, by decide, by decide⟩

/-- A name that starts with an ASCII digit gets a letter in front. -/
theorem isVariable_letter_iff : IsVariable (byte 'v' :: t) ↔ Spelled t := by
  have hletter : byte 'v' < 0x80 ∧ isIdentifierRune (byte 'v').toNat = true := by decide
  refine ⟨fun h => ((spelled_cons_iff hletter.1).1 h.spelled).2, fun h => ?_⟩
  have hspell := (spelled_cons_iff hletter.1).2 ⟨hletter.2, h⟩
  exact ⟨hspell.isUtf8, hspell, _, _, segments_ascii hletter.1 t, by decide, by decide⟩

/-- The name of a variable is an identifier exactly if the runs of the source can be joined byte by byte. -/
theorem isVariable_variableName_iff (source : Text) : IsVariable (variableName source) ↔ HasPlainRuns source := by
  have hruns : ∀ t ∈ nameRuns source, IsRun source t := fun t ht => isRun_of_mem ht
  unfold nameRuns at hruns
  unfold variableName HasPlainRuns nameRuns
  generalize ((identifierRuns source).map trimUnderscores).filter (!·.isEmpty) = runs at hruns ⊢
  cases runs with
  | nil => exact ⟨fun _ => ⟨by simp, by simp⟩, fun _ => isVariable_pipe⟩
  | cons first later =>
    obtain ⟨hfirst, hlater⟩ := forall_mem_cons.1 hruns
    obtain ⟨b, u, rfl⟩ := exists_cons_of_ne_nil hfirst.ne_nil
    have hstart := not_isContinuation_flatMap hlater
    have hspell : Spelled (b :: u ++ later.flatMap capitalised) ↔ ∀ t ∈ later, ∀ b ∈ t.head?, b < 0x80 := by
      rw [spelled_append_iff hstart, spelled_flatMap_iff hlater]
      exact and_iff_right hfirst.spelled
    simp only [tail_cons, head?_cons, Option.mem_some_iff, forall_eq']
    change IsVariable (if isAsciiDigit b then _ :: (b :: u ++ later.flatMap capitalised) else
      b :: u ++ later.flatMap capitalised) ↔ _
    split
    · rename_i hdigit
      have hlow : b < 0x80 := by
        have hall : ∀ n < 256, isAsciiDigit (UInt8.ofNat n) = true → UInt8.ofNat n < 0x80 := by decide +kernel
        have hlow := hall b.toNat b.toNat_lt (by rwa [UInt8.ofNat_toNat])
        rwa [UInt8.ofNat_toNat] at hlow
      simp only [isVariable_letter_iff, hspell, segments_ascii hlow, head?_cons, Option.mem_some_iff, forall_eq']
      exact (and_iff_left fun _ => UInt8.lt_iff_toNat_lt.1 hlow).symm
    · rename_i hdigit
      rw [← hspell, ← hfirst.first_iff (Bool.eq_false_iff.2 hdigit)]
      constructor
      · intro h
        obtain ⟨s, ss, hsegs, hrune⟩ := h.first
        obtain ⟨s', ss', -, hsegments', -⟩ := hfirst.exists_first
        rw [segments_append hstart, hsegments', cons_append] at hsegs
        obtain ⟨rfl, -⟩ := cons.inj hsegs
        exact ⟨h.spelled, s', ss', hsegments', hrune⟩
      · rintro ⟨hall, s, ss, hsegs, hrune⟩
        exact ⟨hall.isUtf8, hall, s, ss ++ _, by rw [segments_append hstart, hsegs, cons_append], hrune⟩

/-- The names a builder binds are identifiers exactly if the runs of what they are named after can be joined byte
by byte, and then they can be looked for in every text. -/
theorem names_isVariable_iff (kind : Kind) (source stem : Text) :
    (IsVariable (variableName stem) ↔ HasPlainRuns stem) ∧
      (HasPlainRuns stem → ∀ name ∈ (builder (Subscription.make kind source stem) WidgetId.none).binds,
        IsVariable name) ∧
      (HasPlainRuns stem → ∀ t, ∃ found,
        Text.mentionsAny t (builder (Subscription.make kind source stem) WidgetId.none).binds = .ok found) := by
  have hnames : HasPlainRuns stem →
      ∀ name ∈ (builder (Subscription.make kind source stem) WidgetId.none).binds, IsVariable name := by
    intro h
    have hname := (isVariable_variableName_iff stem).2 h
    have hvalue : Spelled "Value" := by
      change ∀ s ∈ Text.segments "Value", _
      decide
    have hsnapshot : Spelled "Snapshot" := by
      change ∀ s ∈ Text.segments "Snapshot", _
      decide
    exact List.forall_mem_cons.2 ⟨hname.append hvalue (by rintro c ⟨⟩; rfl),
      List.forall_mem_singleton.2 (hname.append hsnapshot (by rintro c ⟨⟩; rfl))⟩
  exact ⟨isVariable_variableName_iff stem, hnames,
    fun h t => mentionsAny_ok t fun name hname => (hnames h name hname).utf8⟩

/-- A run behind another that starts beyond ASCII, and a digit beyond ASCII at the start. -/
theorem exists_not_isVariable :
    Text.isUtf8 "a.é" = true ∧ Text.isUtf8 (variableName "a.é") = false ∧
      Text.mentionsAny "a" [variableName "a.é"] = .error ⟨variableName "a.é"⟩ ∧
      variableName "٣" = "٣" ∧ Text.isDigit 0x663 = true ∧ ¬ HasPlainRuns "٣" := by
  decide

end FlutterLayout.Pipe
