import FlutterLayout.Proofs.Markup.Grammar
import FlutterLayout.Proofs.Text.Replacing

/-!
# Scanning — the readers of small items

Each reader below the level of tokens is compared with the grammar: what it takes has the form the grammar
asks for, and what has this form is taken.  Positions play no part in this, so a cursor is only looked at
for the text behind it.
-/

namespace FlutterLayout.Markup

open List Text Reference Option Number

variable {p t u r body rest value name : Text} {b q : UInt8} {c c' : Cursor} {depth : Int} {base n : Nat}

/-! ## Line ends -/

theorem endsLines_replaceAll (t : Text) : EndsLines t (replaceAll [carriageReturn] [lineFeed]
      (replaceAll [carriageReturn, lineFeed] [lineFeed] t)) := by
  have hne : carriageReturn ≠ lineFeed := by decide
  have hfeed : ∀ u, replaceAll [carriageReturn] [lineFeed] (lineFeed :: u) =
      lineFeed :: replaceAll [carriageReturn] [lineFeed] u := fun u =>
    replaceAll_cons (by simpa using hne)
  have hreturn : ∀ u, replaceAll [carriageReturn] [lineFeed] (carriageReturn :: u) =
      lineFeed :: replaceAll [carriageReturn] [lineFeed] u := fun u =>
    replaceAll_append_self (by simp) u
  induction hn : t.length using Nat.strongRecOn generalizing t with
  | ind n ih =>
    rcases t with - | ⟨b, t⟩
    · exact .nil
    by_cases hb : b = carriageReturn
    · subst hb
      rcases t with - | ⟨c, t⟩
      · exact .single (by simp) .nil
      by_cases hc : c = lineFeed
      · subst hc
        have hpair : replaceAll [carriageReturn, lineFeed] [lineFeed]
            (carriageReturn :: lineFeed :: t)
              = lineFeed :: replaceAll [carriageReturn, lineFeed] [lineFeed] t :=
          replaceAll_append_self (by simp) t
        rw [hpair, hfeed]
        exact .pair (ih t.length (by simp only [← hn, length_cons]; omega) t rfl)
      · have hpair : ¬ [carriageReturn, lineFeed] <+: carriageReturn :: c :: t := by
          simpa using Ne.symm hc
        rw [replaceAll_cons hpair, hreturn]
        exact .single (by simpa using hc) (ih _ (by simp [← hn]) (c :: t) rfl)
    · have hpair : ¬ [carriageReturn, lineFeed] <+: b :: t := by
        simpa using fun h => absurd h.symm hb
      have hsingle : ∀ u, ¬ [carriageReturn] <+: b :: u := by
        simpa using Ne.symm hb
      rw [replaceAll_cons hpair, replaceAll_cons (hsingle _)]
      exact .byte hb (ih t.length (by simp [← hn]) t rfl)

theorem EndsLines.functional (h : EndsLines t u) (h' : EndsLines t r) : u = r := by
  induction h generalizing r with
  | nil =>
    cases h'
    rfl
  | pair _ ih =>
    cases h' with
    | pair h' => rw [ih h']
    | single hnext _ => exact absurd rfl hnext
    | byte hb _ => exact absurd rfl hb
  | single hnext _ ih =>
    cases h' with
    | pair _ => exact absurd rfl hnext
    | single _ h' => rw [ih h']
    | byte hb _ => exact absurd rfl hb
  | byte hb _ ih =>
    cases h' with
    | pair | single => exact absurd rfl hb
    | byte _ h' => rw [ih h']

theorem hasNormalForm_iff : HasNormalForm source t ↔ normalise source = t := by
  have hread : ∀ source, EndsLines (withoutLeading byteOrderMark source) (normalise source) := fun source =>
    endsLines_replaceAll _
  have hmarked : ∀ source, withoutLeading byteOrderMark (byteOrderMark ++ source) = source := by
    intro source
    rw [withoutLeading, after?_eq_some_iff.2 rfl]
    rfl
  have hunmarked : ∀ {source}, ¬ byteOrderMark <+: source → withoutLeading byteOrderMark source = source := by
    intro source hmark
    rw [withoutLeading, after?_eq_none_iff.2 hmark]
    rfl
  constructor
  · intro hform
    cases hform with
    | @marked rest _ h =>
      have := hread (byteOrderMark ++ rest)
      rw [hmarked] at this
      exact this.functional h
    | unmarked hmark h =>
      have := hread source
      rw [hunmarked hmark] at this
      exact this.functional h
  · rintro rfl
    by_cases hmark : byteOrderMark <+: source
    · obtain ⟨rest, rfl⟩ := hmark
      have := hread (byteOrderMark ++ rest)
      rw [hmarked] at this
      exact .marked this
    · have := hread source
      rw [hunmarked hmark] at this
      exact .unmarked hmark this

/-! ## Delimited items -/

theorem endsAt_nil (delimiter : Text) : EndsAt delimiter [] := by
  intro a b h
  have := congrArg length h
  simp only [nil_append, length_append] at this
  exact length_eq_zero_iff.1 (by omega)

theorem EndsAt.not_starts (h : EndsAt p (b :: body)) (rest : Text) : ¬ p <+: b :: (body ++ p ++ rest) := by
  intro hstart
  have hlong : p <+: b :: body ++ p := by
    have hwhole : b :: body ++ p <+: b :: (body ++ p ++ rest) := ⟨rest, by simp⟩
    exact prefix_of_prefix_length_le hstart hwhole (by simp only [length_append]; omega)
  obtain ⟨more, hmore⟩ := hlong
  have hnil := h [] more (by simpa using hmore.symm)
  subst hnil
  have := congrArg length hmore
  simp only [append_nil, length_append, length_cons] at this
  omega

theorem EndsAt.tail (h : EndsAt p (b :: body)) : EndsAt p body := by
  intro x y hxy
  exact h (b :: x) y (by simp [hxy])

theorem endsAt_cons (hstart : ¬ p <+: b :: (body ++ p)) (h : EndsAt p body) : EndsAt p (b :: body) := by
  intro x y hxy
  rcases x with - | ⟨d, x⟩
  · exact absurd ⟨y, by simpa using hxy.symm⟩ hstart
  · obtain ⟨rfl, hrest⟩ := cons.inj hxy
    exact h x y (by simpa using hrest)

theorem cut?_of_endsAt (h : EndsAt p body) (rest : Text) : cut? p (body ++ p ++ rest) = some (body, rest) := by
  induction body with
  | nil =>
    rw [nil_append]
    cases hp : p ++ rest with
    | nil =>
      obtain ⟨rfl, rfl⟩ := append_eq_nil_iff.1 hp
      rfl
    | cons b t => rw [cut?, after?_eq_some_iff.2 hp.symm]
  | cons b body ih =>
    rw [cons_append, cons_append, cut?, after?_eq_none_iff.2 (h.not_starts rest), ih h.tail]
    rfl

theorem endsAt_of_cut? (h : cut? p t = some (body, rest)) : t = body ++ p ++ rest ∧ EndsAt p body := by
  induction t generalizing body with
  | nil =>
    rw [cut?] at h
    obtain ⟨r, hr, he⟩ := map_eq_some_iff.1 h
    cases he
    exact ⟨by simpa using after?_eq_some_iff.1 hr, endsAt_nil p⟩
  | cons b t ih =>
    rw [cut?] at h
    split at h
    · rename_i r hr
      cases h
      exact ⟨by simpa using after?_eq_some_iff.1 hr, endsAt_nil p⟩
    · rename_i hnone
      obtain ⟨⟨x, y⟩, hxy, he⟩ := map_eq_some_iff.1 h
      cases he
      obtain ⟨rfl, hx⟩ := ih hxy
      refine ⟨by simp, endsAt_cons (fun hstart => after?_eq_none_iff.1 hnone ?_) hx⟩
      exact hstart.trans (prefix_append (b :: (x ++ p)) rest)

theorem endsAt_singleton_iff : EndsAt [b] body ↔ b ∉ body := by
  constructor
  · intro h hmem
    obtain ⟨x, y, rfl⟩ := append_of_mem hmem
    have := h x (y ++ [b]) (by simp)
    simp at this
  · intro hb x y hxy
    rcases eq_nil_or_concat' y with rfl | ⟨y, d, rfl⟩
    · rfl
    · obtain ⟨rfl, -⟩ := append_inj' (hxy.trans (append_assoc ..).symm) rfl
      exact absurd (by simp) hb

/-! ## Document types -/

def surplus (t : Text) : Int :=
  t.count (byte '[') - t.count (byte ']')

theorem surplus_cons (b : UInt8) (t : Text) :
    surplus (b :: t) = surplus t + (if b = byte '[' then 1 else if b = byte ']' then -1 else 0) := by
  have hne : byte '[' ≠ byte ']' := by decide
  by_cases hopen : b = byte '['
  · subst hopen
    simp [surplus, count_cons_of_ne hne]
    omega
  · by_cases hclose : b = byte ']'
    · subst hclose
      simp [surplus, hne.symm]
      omega
    · simp [surplus, hopen, hclose]

/-- The `>` behind `body` is the first that ends a declaration of which `depth` brackets are open. -/
structure ClosesAt (depth : Int) (body : Text) : Prop where
  closes : depth + surplus body ≤ 0
  first : ∀ p, p ++ [byte '>'] <+: body → 0 < depth + surplus p

theorem closesAt_zero_iff : ClosesAt 0 body ↔ IsDoctypeBody body := by
  have hlt : ∀ p : Text, 0 < 0 + surplus p ↔ p.count (byte ']') < p.count (byte '[') := by
    intro p
    simp only [surplus]
    omega
  have hle : 0 + surplus body ≤ 0 ↔ body.count (byte '[') ≤ body.count (byte ']') := by
    simp only [surplus]
    omega
  constructor
  · rintro ⟨hcloses, hfirst⟩
    exact ⟨hle.1 hcloses, fun p hp => (hlt p).1 (hfirst p hp)⟩
  · rintro ⟨hcloses, hfirst⟩
    exact ⟨hle.2 hcloses, fun p hp => (hlt p).2 (hfirst p hp)⟩

theorem closesAt_cons (hstep : ∀ t, depth + surplus (b :: t) = depth' + surplus t)
    (hgo : b = byte '>' → 0 < depth) : ClosesAt depth (b :: body) ↔ ClosesAt depth' body := by
  constructor
  · rintro ⟨hcloses, hfirst⟩
    refine ⟨hstep body ▸ hcloses, fun p hp => ?_⟩
    rw [← hstep]
    exact hfirst (b :: p) (by simpa using hp)
  · rintro ⟨hcloses, hfirst⟩
    refine ⟨hstep body ▸ hcloses, fun p hp => ?_⟩
    rcases p with - | ⟨d, p⟩
    · have hb : b = byte '>' := by simpa [eq_comm] using hp
      simpa [surplus] using hgo hb
    · obtain ⟨rfl, hp'⟩ := cons_prefix_cons.1 hp
      rw [hstep]
      exact hfirst p hp'

/-- A byte that does not end the declaration is passed over, and counted if it is a bracket. -/
theorem skipDoctype_cons (hgo : b = byte '>' → 0 < depth) (place : Position) :
    ∃ depth', (∀ body, ClosesAt depth (b :: body) ↔ ClosesAt depth' body) ∧
      ∀ t, skipDoctype depth place (b :: t) = skipDoctype depth' (place.step b) t := by
  have hnot : ¬ (decide (b = byte '>') && decide (depth ≤ 0)) = true := by
    simp only [Bool.and_eq_true, decide_eq_true_eq]
    rintro ⟨hb, hdepth⟩
    exact absurd (hgo hb) (by omega)
  refine ⟨depth + if b = byte '[' then 1 else if b = byte ']' then -1 else 0, fun body => ?_, fun t => ?_⟩
  · refine closesAt_cons (fun t => ?_) hgo
    rw [surplus_cons]
    omega
  · rw [skipDoctype, if_neg hnot]
    split
    · rfl
    · split
      · rfl
      · rw [Int.add_zero]

theorem skipDoctype_of_closesAt (h : ClosesAt depth body) (place : Position) (rest : Text) :
    ∃ place', skipDoctype depth place (body ++ byte '>' :: rest) = some ⟨place', rest⟩ := by
  induction body generalizing depth place with
  | nil =>
    have hdepth : depth ≤ 0 := by simpa [surplus] using h.closes
    exact ⟨_, by simp only [nil_append, skipDoctype, hdepth]; rfl⟩
  | cons b body ih =>
    have hgo : b = byte '>' → 0 < depth := by
      rintro rfl
      simpa [surplus] using h.first [] (by simp)
    obtain ⟨depth', hcloses, hskip⟩ := skipDoctype_cons hgo place
    rw [cons_append, hskip]
    exact ih ((hcloses body).1 h) _

theorem closesAt_of_skipDoctype (h : skipDoctype depth place t = some c) :
    ∃ body, t = body ++ byte '>' :: c.rest ∧ ClosesAt depth body := by
  induction t generalizing depth place with
  | nil => cases h
  | cons b t ih =>
    by_cases hend : b = byte '>' ∧ depth ≤ 0
    · rw [skipDoctype, if_pos (by simpa using hend)] at h
      cases h
      exact ⟨[], by simp [hend.1], by simpa [surplus] using hend.2, by simp⟩
    · obtain ⟨depth', hcloses, hskip⟩ := skipDoctype_cons (fun hb => Int.not_le.1 fun hdepth => hend ⟨hb, hdepth⟩) place
      rw [hskip] at h
      obtain ⟨body, rfl, hbody⟩ := ih h
      exact ⟨b :: body, rfl, (hcloses body).2 hbody⟩

/-! ## References -/

theorem hexValue?_eq_some_iff : hexValue? b = some d ↔ IsDigit b d := by
  have hsmall : ∀ n : Fin 256, ∀ d : Fin 16,
      hexValue? (UInt8.ofNat n) = some d.val ↔ IsDigit (UInt8.ofNat n) d.val := by
    unfold IsDigit
    decide +kernel
  have hbound : ∀ n : Fin 256, ∀ d ∈ hexValue? (UInt8.ofNat n), d < 16 := by decide +kernel
  have hb : b = UInt8.ofNat b.toNat := by simp
  by_cases hd : d < 16
  · rw [hb]
    exact hsmall ⟨b.toNat, b.toNat_lt⟩ ⟨d, hd⟩
  · constructor
    · intro h
      exact absurd (hbound ⟨b.toNat, b.toNat_lt⟩ d (by rw [← hb]; exact h)) hd
    · intro h
      have hlength : (ofString "0123456789abcdef").length = 16 := by decide
      obtain ⟨hlt, -⟩ := List.getElem?_eq_some_iff.1 h
      omega

theorem digitValue?_eq_some_iff (hd : d < 16) : digitValue? b = some d ↔ IsDigit b d := by
  have hsmall : ∀ n : Fin 256, ∀ d : Fin 16,
      digitValue? (UInt8.ofNat n) = some d.val ↔ hexValue? (UInt8.ofNat n) = some d.val := by decide +kernel
  rw [← hexValue?_eq_some_iff]
  simpa using hsmall ⟨b.toNat, b.toNat_lt⟩ ⟨d, hd⟩

theorem digitsFrom_append : digitsFrom false base limit m (t ++ u) = .ok n ↔
    ∃ k, digitsFrom false base limit m t = .ok k ∧ digitsFrom false base limit k u = .ok n := by
  induction t generalizing m with
  | nil => simp [digitsFrom]
  | cons b t ih =>
    simp only [cons_append, digitsFrom, Bool.false_and, Bool.false_eq_true, if_false]
    cases digitValue? b with
    | none => simp
    | some d =>
      dsimp only
      split
      · simp
      · split
        · simp
        · exact ih

theorem digitsFrom_singleton (hbase : base ≤ 16) : digitsFrom false base limit m [b] = .ok n ↔
    ∃ d, IsDigit b d ∧ d < base ∧ n = m * base + d ∧ n ≤ limit := by
  simp only [digitsFrom, Bool.false_and, Bool.false_eq_true, if_false]
  constructor
  · intro h
    cases hvalue : digitValue? b with
    | none => simp [hvalue] at h
    | some d =>
      simp only [hvalue] at h
      split at h
      · cases h
      · split at h
        · cases h
        · cases h
          have hd : d < base := by omega
          exact ⟨d, (digitValue?_eq_some_iff (by omega)).1 hvalue, hd, rfl, by omega⟩
  · rintro ⟨d, hb, hd, rfl, hlimit⟩
    rw [(digitValue?_eq_some_iff (by omega)).2 hb]
    simp [Nat.not_le.2 hd, Nat.not_lt.2 hlimit]

/-- Digits within the limit are read as the number they write; the numbers of fewer digits are smaller. -/
theorem readNatIn_eq_ok_iff (hbase : base ≤ 16) : readNatIn base limit digits = .ok n ↔
    IsNumeral base digits n ∧ n ≤ limit := by
  induction digits using reverseRecOn generalizing n with
  | nil =>
    constructor
    · intro h
      cases h
    · rintro ⟨h, -⟩
      generalize hnil : ([] : Text) = digits at h
      cases h <;> simp at hnil
  | append_singleton t b ih =>
    have hconcat : readNatIn base limit (t ++ [b]) = .ok n ↔ ∃ m, digitsFrom false base limit 0 t = .ok m ∧
        ∃ d, IsDigit b d ∧ d < base ∧ n = m * base + d ∧ n ≤ limit := by
      have hempty : (t ++ [b]).isEmpty = false := by simp
      simp only [readNatIn, hempty, Bool.false_eq_true, if_false, digitsFrom_append, digitsFrom_singleton hbase]
    rw [hconcat]
    -- A single digit stands alone, since the number in front of it is not written.
    rcases t with - | ⟨a, t⟩
    · constructor
      · rintro ⟨m, hm, d, hb, hd, rfl, hlimit⟩
        cases hm
        exact ⟨by simpa using .digit hb hd, hlimit⟩
      · rintro ⟨h, hlimit⟩
        generalize hdigits : ([] ++ [b] : Text) = digits at h
        cases h with
        | digit hb hd =>
          cases hdigits
          exact ⟨0, rfl, _, hb, hd, by simp, hlimit⟩
        | more ht =>
          obtain ⟨rfl, -⟩ := append_inj' hdigits rfl
          cases ih.2 ⟨ht, (Nat.le_mul_of_pos_right _ (by omega)).trans ((Nat.le_add_right _ _).trans hlimit)⟩
    · have ih' : ∀ {m}, digitsFrom false base limit 0 (a :: t) = .ok m ↔
          IsNumeral base (a :: t) m ∧ m ≤ limit := fun {m} => ih
      constructor
      · rintro ⟨m, hm, d, hb, hd, rfl, hlimit⟩
        exact ⟨.more (ih'.1 hm).1 hb hd, hlimit⟩
      · rintro ⟨h, hlimit⟩
        generalize hdigits : (a :: t) ++ [b] = digits at h
        cases h with
        | digit => simp at hdigits
        | more ht hb hd =>
          obtain ⟨rfl, hsame⟩ := append_inj' hdigits rfl
          cases hsame
          have hsmaller := (Nat.le_mul_of_pos_right _ (by omega)).trans ((Nat.le_add_right _ _).trans hlimit)
          exact ⟨_, ih'.2 ⟨ht, hsmaller⟩, _, hb, hd, rfl, hlimit⟩

theorem number?_eq_some_iff (hbase : base ≤ 16) : number? base digits = some n ↔
    IsNumeral base digits n ∧ n ≤ maxWord := by
  rw [← readNatIn_eq_ok_iff hbase, number?]
  cases readNatIn base maxWord digits <;> simp [Except.toOption]

theorem IsNumeral.forall_digit (h : IsNumeral base digits n) : digits ≠ [] ∧ ∀ b ∈ digits, ∃ d < base, IsDigit b d := by
  induction h with
  | digit hb hd => exact ⟨by simp, by simpa using ⟨_, hd, hb⟩⟩
  | more ht hb hd ih =>
    refine ⟨by simp, fun c hc => ?_⟩
    rcases mem_append.1 hc with hc | hc
    · exact ih.2 c hc
    · rw [mem_singleton.1 hc]
      exact ⟨_, hd, hb⟩

theorem isScalar_iff : isScalar n = true ↔ n.isValidChar := by
  simp only [isScalar, Nat.isValidChar, Bool.or_eq_true, Bool.and_eq_true, decide_eq_true_eq]
  change n < 0xD800 ∨ 0xE000 ≤ n ∧ n ≤ 0x10FFFF ↔ _
  omega

theorem le_maxWord_of_isValidChar (h : n.isValidChar) : n ≤ maxWord := by
  simp only [Nat.isValidChar, maxWord] at *
  omega

theorem toInt_ofNat_of_le (h : n ≤ maxWord) :
    (Int32.ofNat n).toInt = if n < 2147483648 then (n : Int) else n - 4294967296 := by
  rw [Int32.toInt_ofNat', Int.bmod]
  simp only [maxWord, Int32.size] at *
  split <;> split <;> omega

/-- The number of a character reference: hexadecimal behind an `x`, else decimal. -/
theorem codePoint?_eq_some_iff : codePoint? reference = some n ↔ (IsNumeral 10 reference n ∨
      ∃ x digits, reference = x :: digits ∧ (x = byte 'x' ∨ x = byte 'X') ∧ IsNumeral 16 digits n) ∧ n ≤ maxWord := by
  rcases reference with - | ⟨b, digits⟩
  · have hnil : ¬ IsNumeral 10 [] n := fun h => h.forall_digit.1 rfl
    simp [codePoint?, hnil]
  · by_cases hx : b = byte 'x' ∨ b = byte 'X'
    · have hnot : ¬ IsNumeral 10 (b :: digits) n := by
        intro h
        obtain ⟨d, -, hd⟩ := h.forall_digit.2 b (by simp)
        rw [← hexValue?_eq_some_iff] at hd
        rcases hx with rfl | rfl
        · exact absurd hd (by rw [show hexValue? (byte 'x') = none by decide]; simp)
        · exact absurd hd (by rw [show hexValue? (byte 'X') = none by decide]; simp)
      simp only [codePoint?, Bool.or_eq_true, decide_eq_true_eq, hx, if_true, hnot, false_or,
        number?_eq_some_iff (Nat.le_refl 16)]
      refine and_congr_left fun _ => ?_
      constructor
      · intro h
        exact ⟨b, digits, rfl, hx, h⟩
      · rintro ⟨x, more, he, -, h⟩
        cases he
        exact h
    · simp only [codePoint?, Bool.or_eq_true, decide_eq_true_eq, hx, if_false,
        number?_eq_some_iff (show 10 ≤ 16 by decide)]
      refine and_congr_left fun _ => ⟨.inl, ?_⟩
      rintro (h | ⟨x, more, he, hx', -⟩)
      · exact h
      · cases he
        exact absurd hx' hx

/-- The conversion to a code point with a sign takes no number of 32 bits to a character that is not its own:
the numbers that wrap around become negative. -/
theorem character?_eq_some_iff : character? reference = some value ↔
      ∃ n, codePoint? reference = some n ∧ n ≠ 0 ∧ n.isValidChar ∧ value = ofRune n := by
  unfold character?
  cases hn : codePoint? reference with
  | none => simp
  | some n =>
    have hword := toInt_ofNat_of_le (codePoint?_eq_some_iff.1 hn).2
    have hclamp : (Int32.ofNat n).toNatClampNeg = (Int32.ofNat n).toInt.toNat := rfl
    have hzero : Int32.ofNat n = 0 ↔ (Int32.ofNat n).toInt = 0 := by
      rw [← Int32.toInt_inj]
      rfl
    have hsign : 0 ≤ Int32.ofNat n ↔ 0 ≤ (Int32.ofNat n).toInt := Int32.le_iff_toInt_le
    simp only [ite_none_right_eq_some, Bool.and_eq_true, decide_eq_true_eq, isScalar_iff, some.injEq,
      exists_eq_left', and_assoc, ne_eq, hzero, hsign, hclamp, hword, Nat.isValidChar]
    split
    · simp only [Int.toNat_natCast, Int.natCast_eq_zero, Int.natCast_nonneg, true_and, @eq_comm _ value]
    · constructor
      · rintro ⟨-, hpositive, -⟩
        have := (codePoint?_eq_some_iff.1 hn).2
        simp only [maxWord] at this
        omega
      · rintro ⟨-, hvalid, -⟩
        omega

theorem resolve_eq_ok_iff : resolve {} name = .ok value ↔ IsReference name value := by
  have hhash : ofString "#" = [byte '#'] := by decide
  have hentities : predefined = entities := by decide
  have hnumber : ∀ number, IsReference (byte '#' :: number) value ↔
      character? number = some value := by
    intro number
    rw [character?_eq_some_iff]
    constructor
    · intro h
      generalize hname : byte '#' :: number = name at h
      cases h with
      | entity h =>
        have hfree : ∀ one ∈ entities, one.1.head? ≠ some (byte '#') := by decide
        exact absurd (by rw [← hname]; rfl) (hfree _ h)
      | decimal h hzero hscalar =>
        cases hname
        exact ⟨_, codePoint?_eq_some_iff.2 ⟨.inl h, le_maxWord_of_isValidChar hscalar⟩, hzero, hscalar, rfl⟩
      | hexadecimal hx h hzero hscalar =>
        cases hname
        refine ⟨_, codePoint?_eq_some_iff.2 ⟨.inr ⟨_, _, rfl, hx, h⟩, ?_⟩, hzero, hscalar, rfl⟩
        exact le_maxWord_of_isValidChar hscalar
    · rintro ⟨n, hn, hzero, hscalar, rfl⟩
      rcases (codePoint?_eq_some_iff.1 hn).1 with h | ⟨x, digits, rfl, hx, h⟩
      · exact .decimal h hzero hscalar
      · exact .hexadecimal hx h hzero hscalar
  simp only [resolve]
  cases hafter : after? "#" name with
  | some number =>
    have hname : name = byte '#' :: number := by
      have := after?_eq_some_iff.1 hafter
      rwa [hhash] at this
    rw [hname, hnumber]
    dsimp only
    split <;> simp_all
  | none =>
    have hnot : ∀ number, name ≠ byte '#' :: number := by
      rintro number rfl
      exact after?_eq_none_iff.1 hafter ⟨number, rfl⟩
    have hlookup : (predefined ++ []).lookup name = some value ↔ (name, value) ∈ entities := by
      rw [append_nil, hentities]
      constructor
      · intro h
        obtain ⟨l1, l2, hsplit, -⟩ := lookup_eq_some_iff.1 h
        simp [hsplit]
      · have hall : ∀ one ∈ entities, entities.lookup one.1 = some one.2 := by decide
        exact hall (name, value)
    have hiff : IsReference name value ↔ (name, value) ∈ entities := by
      refine ⟨fun h => ?_, .entity⟩
      cases h with
      | entity h => exact h
      | decimal | hexadecimal => exact absurd rfl (hnot _)
    rw [hiff, ← hlookup]
    dsimp only
    cases (predefined ++ []).lookup name <;> simp

/-- A byte that is in no reference: it is no digit, marks no number and is in no name of an entity. -/
def IsForeign (b : UInt8) : Prop :=
  hexValue? b = none ∧ (b ≠ byte '#' ∧ b ≠ byte 'x' ∧ b ≠ byte 'X') ∧ ∀ one ∈ entities, b ∉ one.1

theorem IsReference.not_mem_of_isForeign (h : IsReference name value) (hb : IsForeign b) : b ∉ name := by
  obtain ⟨hhex, hmarks, hentities⟩ := hb
  have hdigits : ∀ {base n digits}, IsNumeral base digits n → b ∉ digits := by
    intro base n digits h hmem
    obtain ⟨d, -, hd⟩ := h.forall_digit.2 b hmem
    rw [← hexValue?_eq_some_iff, hhex] at hd
    cases hd
  cases h with
  | entity h => exact hentities _ h
  | decimal h => simp [hmarks.1, hdigits h]
  | hexadecimal hx h =>
    rcases hx with rfl | rfl
    · simp [hmarks, hdigits h]
    · simp [hmarks, hdigits h]

theorem IsReference.not_mem_semicolon (h : IsReference name value) : byte ';' ∉ name :=
  h.not_mem_of_isForeign (by unfold IsForeign; decide)

theorem decodeFrom_eq (options : ReadOptions) (skip : Nat) (t : Text) :
    decodeFrom options skip t = decode options (t.drop skip) := by
  induction t generalizing skip with
  | nil => cases skip <;> simp [decode, decodeFrom]
  | cons b t ih =>
    cases skip with
    | zero => rfl
    | succ skip => rw [decodeFrom, ih, drop_succ_cons]

theorem decode_cons (options : ReadOptions) (hb : b ≠ byte '&') (t : Text) :
    decode options (b :: t) = (decode options t).map (b :: ·) := by
  rw [decode, decodeFrom, if_neg hb, decodeFrom_eq, drop_zero]

theorem decode_ampersand (options : ReadOptions) (hname : byte ';' ∉ name) :
    decode options (byte '&' :: (name ++ byte ';' :: raw)) =
      match resolve options name with
      | .error fault => .error fault
      | .ok value => (decode options raw).map (value ++ ·) := by
  have hsemi : ofString ";" = [byte ';'] := by decide
  have hcut : cut? ";" (name ++ byte ';' :: raw) = some (name, raw) := by
    rw [hsemi]
    simpa using cut?_of_endsAt (endsAt_singleton_iff.2 hname) raw
  rw [decode, decodeFrom, if_pos rfl, hcut]
  have hdrop : (name ++ byte ';' :: raw).drop (name.length + 1) = raw := by simp
  cases hres : resolve options name <;> simp only [hres, decodeFrom_eq, hdrop]

/-- What the grammar takes for a reference is one, whatever else the caller declares. -/
theorem resolve_of_isReference (options : ReadOptions) (h : IsReference name value) :
    resolve options name = .ok value := by
  have hbare := resolve_eq_ok_iff.2 h
  unfold resolve at hbare ⊢
  dsimp only at hbare ⊢
  split at hbare
  · exact hbare
  · cases hlookup : predefined.lookup name with
    | some found =>
      simp only [lookup_append, hlookup, some_or] at hbare ⊢
      exact hbare
    | none => simp [hlookup] at hbare

theorem decode_of_decodes (options : ReadOptions) (h : Decodes raw value) : decode options raw = .ok value := by
  induction h with
  | nil => rfl
  | byte hb _ ih =>
    rw [decode_cons options hb, ih]
    rfl
  | reference hname _ ih =>
    rw [decode_ampersand options hname.not_mem_semicolon, resolve_of_isReference options hname, ih]
    rfl

theorem decode_eq_ok_iff : decode {} raw = .ok value ↔ Decodes raw value := by
  have hmap : ∀ {x : Except Fault Text} {f : Text → Text} {v : Text},
      x.map f = .ok v ↔ ∃ w, x = .ok w ∧ f w = v := by
    intro x f v
    cases x <;> simp [Except.map]
  refine ⟨fun h => ?_, decode_of_decodes {}⟩
  induction hn : raw.length using Nat.strongRecOn generalizing raw value with
  | ind n ih =>
    rcases raw with - | ⟨b, raw⟩
    · cases h
      exact .nil
    by_cases hb : b = byte '&'
    · subst hb
      have hsemi : ofString ";" = [byte ';'] := by decide
      -- Without a semicolon nothing is read, so the name ends at the first one.
      cases hcut : cut? ";" raw with
      | none =>
        rw [decode, decodeFrom, if_pos rfl, hcut] at h
        cases h
      | some both =>
        obtain ⟨name, rest⟩ := both
        obtain ⟨rfl, hends⟩ := endsAt_of_cut? hcut
        rw [hsemi, endsAt_singleton_iff] at hends
        rw [hsemi, append_assoc, singleton_append] at h ⊢
        rw [decode_ampersand {} hends] at h
        cases hres : resolve {} name with
        | error fault => simp [hres] at h
        | ok replacement =>
          simp only [hres, hmap] at h
          obtain ⟨w, hw, rfl⟩ := h
          refine .reference (resolve_eq_ok_iff.1 hres) (ih _ ?_ hw rfl)
          simp only [← hn, length_cons, length_append]
          omega
    · rw [decode_cons {} hb, hmap] at h
      obtain ⟨w, hw, rfl⟩ := h
      exact .byte hb (ih _ (by simp [← hn]) hw rfl)

/-! ## Refused references -/

/-- How the number of a character reference is written behind its `#`: in which base, and with which digits. -/
inductive IsWritten : (number : Text) → (base : Nat) → (digits : Text) → Prop where
  | decimal {digits : Text} (hx : ∀ x ∈ digits.head?, x ≠ byte 'x' ∧ x ≠ byte 'X') : IsWritten digits 10 digits
  | hexadecimal {x : UInt8} {digits : Text} (hx : x = byte 'x' ∨ x = byte 'X') : IsWritten (x :: digits) 16 digits

/-- The digits write no number, or one that is no character. -/
inductive WritesNone (base : Nat) (digits : Text) : Prop where
  | missing (h : digits = [])
  | foreign {b : UInt8} (hb : b ∈ digits) (h : ∀ d < base, ¬ IsDigit b d)
  | excluded {n : Nat} (h : IsNumeral base digits n) (hn : n = 0 ∨ 0xD800 ≤ n ∧ n ≤ 0xDFFF ∨ 0x10FFFF < n)

theorem IsWritten.codePoint? (h : IsWritten number base digits) : codePoint? number = number? base digits := by
  cases h with
  | decimal hx =>
    rcases number with - | ⟨b, digits⟩
    · rfl
    · simp [codePoint?, hx b rfl]
  | hexadecimal hx => simp [codePoint?, hx]

theorem IsWritten.base_le (h : IsWritten number base digits) : base ≤ 16 := by
  cases h <;> decide

theorem exists_isNumeral (hne : digits ≠ []) (h : ∀ b ∈ digits, ∃ d < base, IsDigit b d) :
    ∃ n, IsNumeral base digits n := by
  induction digits using reverseRecOn with
  | nil => exact absurd rfl hne
  | append_singleton t b ih =>
    obtain ⟨d, hd, hb⟩ := h b (by simp)
    rcases eq_or_ne t [] with rfl | ht
    · exact ⟨d, .digit hb hd⟩
    · obtain ⟨n, hn⟩ := ih ht fun c hc => h c (mem_append_left _ hc)
      exact ⟨_, .more hn hb hd⟩

theorem not_writesNone_iff (hbase : base ≤ 16) :
    ¬ WritesNone base digits ↔ ∃ n, IsNumeral base digits n ∧ n ≠ 0 ∧ n.isValidChar := by
  constructor
  · intro hnone
    have hne : digits ≠ [] := fun h => hnone (.missing h)
    have hall : ∀ b ∈ digits, ∃ d < base, IsDigit b d := by
      intro b hb
      by_contra hforeign
      exact hnone (.foreign hb fun d hd hdigit => hforeign ⟨d, hd, hdigit⟩)
    obtain ⟨n, hn⟩ := exists_isNumeral hne hall
    have hfit : ¬ (n = 0 ∨ 0xD800 ≤ n ∧ n ≤ 0xDFFF ∨ 0x10FFFF < n) := fun h => hnone (.excluded hn h)
    refine ⟨n, hn, fun hzero => hfit (.inl hzero), ?_⟩
    rw [Nat.isValidChar]
    omega
  · rintro ⟨n, hn, hzero, hscalar⟩ hnone
    cases hnone with
    | missing hempty => exact hn.forall_digit.1 hempty
    | foreign hb hforeign =>
      obtain ⟨d, hd, hdigit⟩ := hn.forall_digit.2 _ hb
      exact hforeign d hd hdigit
    | @excluded m hm hexcluded =>
      have hsame := ((readNatIn_eq_ok_iff hbase).2 ⟨hn, Nat.le_max_left n m⟩).symm.trans
        ((readNatIn_eq_ok_iff hbase).2 ⟨hm, Nat.le_max_right n m⟩)
      cases hsame
      rw [Nat.isValidChar] at hscalar
      omega

/-- References stand for what the grammar says, whatever else the caller declares, and what they stand for is not looked
at again.  A character reference is refused exactly if it writes no number, or that of no character. -/
theorem decode_refuses_iff (options : ReadOptions) :
    (∀ raw value, Decodes raw value → decode options raw = .ok value) ∧
      ∀ number base digits, IsWritten number base digits → byte ';' ∉ number →
        (WritesNone base digits → ∀ raw, decode options (byte '&' :: (byte '#' :: number ++ byte ';' :: raw)) =
          .error (.invalidCharacterReference ("&#" ++ number ++ ";"))) ∧
        (¬ WritesNone base digits → ∃ n, IsNumeral base digits n ∧
          ∀ raw, decode options (byte '&' :: (byte '#' :: number ++ byte ';' :: raw)) =
            (decode options raw).map (ofRune n ++ ·)) := by
  refine ⟨fun raw value => decode_of_decodes options, fun number base digits hwritten hsemicolon => ?_⟩
  have hname : byte ';' ∉ byte '#' :: number := not_mem_cons_of_ne_of_not_mem (by decide) hsemicolon
  have hafter : after? "#" (byte '#' :: number) = some number := after?_eq_some_iff.2 rfl
  refine ⟨fun hnone raw => ?_, fun hsome => ?_⟩
  · have hcharacter : character? number = none := by
      rw [eq_none_iff_forall_ne_some]
      intro value hvalue
      obtain ⟨n, hn, hzero, hscalar, -⟩ := character?_eq_some_iff.1 hvalue
      rw [hwritten.codePoint?, number?_eq_some_iff hwritten.base_le] at hn
      exact (not_writesNone_iff hwritten.base_le).2 ⟨n, hn.1, hzero, hscalar⟩ hnone
    have hresolve : resolve options (byte '#' :: number) =
        .error (.invalidCharacterReference ("&#" ++ number ++ ";")) := by
      simp only [resolve, hafter, hcharacter]
      rfl
    rw [decode_ampersand options hname, hresolve]
  · obtain ⟨n, hn, hzero, hscalar⟩ := (not_writesNone_iff hwritten.base_le).1 hsome
    have hnumber : codePoint? number = some n := by
      rw [hwritten.codePoint?]
      exact (number?_eq_some_iff hwritten.base_le).2 ⟨hn, le_maxWord_of_isValidChar hscalar⟩
    have hcharacter : character? number = some (ofRune n) :=
      character?_eq_some_iff.2 ⟨n, hnumber, hzero, hscalar, rfl⟩
    have hresolve : resolve options (byte '#' :: number) = .ok (ofRune n) := by
      simp only [resolve, hafter, hcharacter]
    exact ⟨n, hn, fun raw => by rw [decode_ampersand options hname, hresolve]⟩

/-- The number is that of an `A` and 2 ^ 32 more. -/
theorem decode_refuses_wrapped :
    decode {} "&#4294967361;" = .error (.invalidCharacterReference "&#4294967361;") := by
  have hnumeral : IsNumeral 10 "4294967361" 4294967361 :=
    ((readNatIn_eq_ok_iff (by decide)).1 (show readNatIn 10 4294967361 "4294967361" = .ok 4294967361 by decide)).1
  have hrefuses := (decode_refuses_iff {}).2 "4294967361" 10 "4294967361"
    (.decimal (by rintro _ ⟨⟩; decide)) (by decide)
  exact hrefuses.1 (.excluded hnumeral (by decide)) []

end FlutterLayout.Markup
