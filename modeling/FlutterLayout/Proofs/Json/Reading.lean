import FlutterLayout.Json.Reader
import FlutterLayout.Proofs.Text.Segments
import FlutterLayout.Proofs.Text.Numerals
import FlutterLayout.Proofs.Text.Trimming

/-!
# Reading what was written

`Reads t j` says that the text `t` is read as the value `j` wherever it stands.  The values a printer writes are
read back piece by piece: a string with its stray bytes mended (`reads_quote`), an integer (`reads_ofInt`), and
pieces between brackets, with or without blanks between them (`reads_array`, `reads_object`).
-/

namespace FlutterLayout.Json

open List
open Text (Encodes Cut Segment byte ofString doubleQuote backslash segments ofRune hexNumeral hexDigit isAsciiDigit
  join after? lowerByte replacementRune ofNat hexValue? cut_segments isUtf8 isContinuation_eq_true_iff ofNat_ne_nil
  isAsciiDigit_of_mem_ofNat ofRune_of_encodes)

variable {t rest value u v : Text} {a : UInt8} {more : Text} {r : Rune} {ss : List Segment} {n : Nat} {j : Json}

/-! ## Strings -/

/-- The bytes of a segment; those of the replacement character for a stray byte. -/
def mended (s : Segment) : Text :=
  if s.rune?.isSome then s.bytes else ofRune replacementRune

def reread (t : Text) : Text :=
  sanitised ((segments t).flatMap mended)

theorem reread_of_isUtf8 (h : isUtf8 t = true) : reread t = t := by
  have hmended : (segments t).flatMap mended = t := by
    refine Eq.trans ?_ (cut_segments t).flatMap_bytes
    exact congrArg flatten (map_congr_left fun s hs => if_pos (all_eq_true.1 h s hs))
  rw [reread, hmended]
  exact Text.flatMap_ofRune_runes h

theorem hexValue?_hexDigit : ∀ n < 16, hexValue? (hexDigit n) = some n := by
  decide

theorem fourDigits?_hexNumeral (h : n < 0x10000) (t : Text) : fourDigits? (hexNumeral 4 n ++ t) = some n := by
  have hnumeral : hexNumeral 4 n = [hexDigit (n / 16 / 16 / 16 % 16), hexDigit (n / 16 / 16 % 16),
      hexDigit (n / 16 % 16), hexDigit (n % 16)] := rfl
  have hvalue (m : Nat) : hexValue? (hexDigit (m % 16)) = some (m % 16) :=
    hexValue?_hexDigit _ (Nat.mod_lt _ (by decide))
  rw [hnumeral]
  simp only [cons_append, fourDigits?, hvalue, Option.pure_def, Option.bind_eq_bind, Option.bind_some]
  rw [Option.some_inj]
  omega

theorem stringFrom?_skip (value skipped t : Text) :
    stringFrom? value skipped.length (skipped ++ t) = stringFrom? value 0 t := by
  induction skipped with
  | nil => rfl
  | cons b skipped ih => exact ih

theorem stringFrom?_cons (hquote : b ≠ doubleQuote) (hcontrol : ¬ b < 0x20) (hslash : b ≠ backslash) :
    stringFrom? value 0 (b :: t) = stringFrom? (value ++ [b]) 0 t := by
  rw [stringFrom?.eq_def]
  simp only [if_neg hquote, if_neg hcontrol, if_neg hslash]

theorem stringFrom?_plain (h : ∀ b ∈ bs, b ≠ doubleQuote ∧ ¬ b < 0x20 ∧ b ≠ backslash) :
    stringFrom? value 0 (bs ++ t) = stringFrom? (value ++ bs) 0 t := by
  induction bs generalizing value with
  | nil => simp
  | cons b bs ih =>
    obtain ⟨⟨hquote, hcontrol, hslash⟩, hbs⟩ := forall_mem_cons.1 h
    rw [cons_append, stringFrom?_cons hquote hcontrol hslash, ih hbs, append_assoc]
    rfl

theorem stringFrom?_letter (hletter : letter ≠ byte 'u') (hescape : escape? letter = some e) :
    stringFrom? value 0 (backslash :: letter :: t) = stringFrom? (value ++ [e]) 0 t := by
  rw [stringFrom?.eq_def]
  simp only [if_neg hletter, hescape]
  rfl

theorem stringFrom?_number (h : n < 0x10000) (hhigh : ¬ (0xD800 ≤ n ∧ n ≤ 0xDBFF)) :
    stringFrom? value 0 ("\\u" ++ hexNumeral 4 n ++ t) = stringFrom? (value ++ ofRune n) 0 t := by
  have hstart : ofString "\\u" = [backslash, byte 'u'] := by decide
  have hnum : numbered? (hexNumeral 4 n ++ t) = some (ofRune n, 4) := by
    rw [numbered?, fourDigits?_hexNumeral h]
    simp [hhigh]
  have hskip := stringFrom?_skip (value ++ ofRune n) (byte 'u' :: hexNumeral 4 n) t
  rw [hstart, append_assoc, cons_append, cons_append, nil_append, stringFrom?.eq_def]
  simp only [hnum]
  exact hskip

theorem escape?_of_escapeLetter? (h : escapeLetter? r = some letter) :
    r < 0x80 ∧ letter ≠ byte 'u' ∧ escape? letter = some r.toUInt8 := by
  obtain ⟨before, after, hlist, -⟩ := lookup_eq_some_iff.1 h
  have hmem : (r, letter) ∈ before ++ (r, letter) :: after := by simp
  rw [← hlist] at hmem
  simp only [mem_cons, not_mem_nil, or_false, Prod.mk.injEq] at hmem
  rcases hmem with ⟨rfl, rfl⟩ | ⟨rfl, rfl⟩ | ⟨rfl, rfl⟩ | ⟨rfl, rfl⟩ | ⟨rfl, rfl⟩ | ⟨rfl, rfl⟩ | ⟨rfl, rfl⟩ <;> decide

theorem lt_of_isWrittenByNumber (h : isWrittenByNumber n = true) : n < 0x2030 := by
  have hcases : ((((n < 0x20 ∨ n = 0x3C) ∨ n = 0x3E) ∨ n = 0x26) ∨ n = 0x2028) ∨ n = 0x2029 := by
    simpa [isWrittenByNumber] using h
  omega

theorem isPlain_of_encodes (h : Encodes r a more) (hletter : escapeLetter? r = none)
    (hnumber : isWrittenByNumber r = false) (hb : b ∈ a :: more) : b ≠ doubleQuote ∧ ¬ b < 0x20 ∧ b ≠ backslash := by
  by_cases hhigh : 0x80 ≤ b
  · refine ⟨?_, ?_, ?_⟩
    · rintro rfl
      exact absurd hhigh (by decide)
    · exact UInt8.not_lt.2 (UInt8.le_trans (by decide) hhigh)
    · rintro rfl
      exact absurd hhigh (by decide)
  · obtain rfl : b = a := by
      rcases mem_cons.1 hb with rfl | hb
      · rfl
      · exact absurd (isContinuation_eq_true_iff.1 (h.continues b hb)).1 hhigh
    obtain ⟨-, rfl⟩ := h.ascii (UInt8.not_le.1 hhigh)
    refine ⟨?_, ?_, ?_⟩
    · rintro rfl
      exact absurd hletter (by decide)
    · intro hlow
      have hlt : b.toNat < 0x20 := UInt8.lt_iff_toNat_lt.1 hlow
      simp [isWrittenByNumber, hlt] at hnumber
    · rintro rfl
      exact absurd hletter (by decide)

theorem stringFrom?_stray :
    stringFrom? value 0 (writtenSegment ⟨none, [a]⟩ ++ t) = stringFrom? (value ++ mended ⟨none, [a]⟩) 0 t := by
  have hwritten : writtenSegment ⟨none, [a]⟩ = "\\u" ++ hexNumeral 4 replacementRune := by
    change ofString "\\ufffd" = _
    decide
  rw [hwritten]
  exact stringFrom?_number (by decide) (by decide)

theorem stringFrom?_rune (h : Encodes r a more) :
    stringFrom? value 0 (writtenSegment ⟨some r, a :: more⟩ ++ t) = stringFrom? (value ++ (a :: more)) 0 t := by
  have hbytes := ofRune_of_encodes h
  unfold writtenSegment
  dsimp only
  split
  · rename_i letter hletter
    obtain ⟨hlow, hu, hescape⟩ := escape?_of_escapeLetter? hletter
    rw [ofRune, if_pos hlow] at hbytes
    rw [← hbytes]
    exact stringFrom?_letter hu hescape
  · rename_i hletter
    split
    · rename_i hnumber
      have hlt := lt_of_isWrittenByNumber hnumber
      rw [← hbytes]
      exact stringFrom?_number (Nat.lt_trans hlt (by decide)) fun hhigh =>
        absurd (Nat.le_trans hhigh.1 (Nat.le_of_lt hlt)) (by decide)
    · rename_i hnumber
      exact stringFrom?_plain fun b hb => isPlain_of_encodes h hletter (Bool.eq_false_iff.2 hnumber) hb

theorem stringFrom?_segments (h : Cut t ss) : stringFrom? value 0 (ss.flatMap writtenSegment ++ doubleQuote :: rest) =
      some (value ++ ss.flatMap mended, rest) := by
  induction h generalizing value with
  | nil => simp [stringFrom?]
  | stray _ ih => rw [flatMap_cons, append_assoc, stringFrom?_stray, ih, flatMap_cons, append_assoc]
  | rune he _ ih =>
    rw [flatMap_cons, append_assoc, stringFrom?_rune he, ih, flatMap_cons, append_assoc]
    rfl

theorem stringFrom?_quote (t rest : Text) :
    stringFrom? [] 0 ((segments t).flatMap writtenSegment ++ doubleQuote :: rest) =
      some ((segments t).flatMap mended, rest) :=
  stringFrom?_segments (cut_segments t)

theorem quote_eq (t : Text) : quote t = doubleQuote :: ((segments t).flatMap writtenSegment ++ [doubleQuote]) := rfl

/-! ## Values -/

def Blanks (t : Text) : Prop :=
  ∀ b ∈ t, isBlank b = true

def EndsNumber (t : Text) : Prop :=
  ∀ b ∈ t.head?, isAsciiDigit b = false ∧ b ≠ byte '.' ∧ lowerByte b ≠ byte 'e'

/-- The text is read as a value, behind blanks and in front of anything that does not make a number longer. -/
structure Reads (t : Text) (j : Json) : Prop where
  start : ∃ b u, t = b :: u ∧ isBlank b = false ∧ b ≠ byte ']'
  value? : ∀ (before rest : Text) (fuel : Nat), Blanks before → EndsNumber rest → 2 * t.length ≤ fuel →
    Json.value? fuel (before ++ (t ++ rest)) = some (j, rest)

theorem skipBlanks_append (h : Blanks before) (t : Text) : skipBlanks (before ++ t) = skipBlanks t := by
  unfold skipBlanks
  exact dropWhile_append_of_pos h

theorem skipBlanks_cons (h : isBlank b = false) (t : Text) : skipBlanks (b :: t) = b :: t := by
  unfold skipBlanks
  exact dropWhile_cons_of_neg (by simp [h])

theorem reads_of_leaf (hblank : isBlank b = false)
    (hbracket : b ≠ byte '[') (hbrace : b ≠ 0x7B) (hclosing : b ≠ byte ']')
    (h : ∀ rest, EndsNumber rest → leaf? (b :: u ++ rest) = some (j, rest)) : Reads (b :: u) j where
  start := ⟨b, u, rfl, hblank, hclosing⟩
  value? before rest fuel hbefore hrest hfuel := by
    obtain ⟨fuel, rfl⟩ : ∃ n, fuel = n + 1 := ⟨fuel - 1, by rw [length_cons] at hfuel; omega⟩
    rw [value?, skipBlanks_append hbefore, cons_append, skipBlanks_cons hblank]
    simp only [if_neg hbracket, if_neg hbrace]
    exact h rest hrest

theorem reads_bool (b : Bool) : Reads (if b then "true" else "false" : Text) (.bool b) := by
  cases b with
  | true | false => exact reads_of_leaf (by decide) (by decide) (by decide) (by decide) fun _ _ => rfl

theorem leaf?_cons (hn : b ≠ byte 'n') (ht : b ≠ byte 't') (hf : b ≠ byte 'f') (u : Text) :
    leaf? (b :: u) = if b = doubleQuote then (stringFrom? [] 0 u).map fun x => (.string (sanitised x.1), x.2)
      else (number? (b :: u)).map fun x => (.number x.1, x.2) := by
  have hnone : (words.findSome? fun x => (after? x.1 (b :: u)).map fun rest => (x.2, rest)) = none := by
    have hnull : after? "null" (b :: u) = none := if_neg (Ne.symm hn)
    have htrue : after? "true" (b :: u) = none := if_neg (Ne.symm ht)
    have hfalse : after? "false" (b :: u) = none := if_neg (Ne.symm hf)
    simp [words, hnull, htrue, hfalse]
  unfold leaf?
  rw [hnone]

theorem reads_quote (t : Text) : Reads (quote t) (.string (reread t)) := by
  rw [quote_eq]
  refine reads_of_leaf (by decide) (by decide) (by decide) (by decide) fun rest _ => ?_
  rw [cons_append, leaf?_cons (by decide) (by decide) (by decide), if_pos rfl, append_assoc,
    singleton_append, stringFrom?_quote]
  rfl

/-! ### Numbers -/

theorem digits?_append (hne : ds ≠ []) (hds : ∀ b ∈ ds, isAsciiDigit b = true) (hrest : EndsNumber rest) :
    digits? (ds ++ rest) = some (ds, rest) := by
  have hstop : rest.takeWhile isAsciiDigit = [] ∧ rest.dropWhile isAsciiDigit = rest := by
    cases rest with
    | nil => exact ⟨rfl, rfl⟩
    | cons b rest =>
      have hb := (hrest b rfl).1
      exact ⟨takeWhile_cons_of_neg (by simp [hb]), dropWhile_cons_of_neg (by simp [hb])⟩
  unfold digits?
  rw [takeWhile_append_of_pos hds, dropWhile_append_of_pos hds, hstop.1, hstop.2, append_nil]
  exact if_neg (by simpa using hne)

theorem places?_of_endsNumber (h : EndsNumber rest) : places? rest = some ([], rest) := by
  cases rest with
  | nil => rfl
  | cons b rest => exact if_neg (h b rfl).2.1

theorem exponent?_of_endsNumber (h : EndsNumber rest) : exponent? rest = some ([], rest) := by
  cases rest with
  | nil => rfl
  | cons b rest => exact if_neg (h b rfl).2.2

theorem whole?_ofNat (n : Nat) (h : EndsNumber rest) : whole? (ofNat n ++ rest) = some (ofNat n, rest) := by
  by_cases hn : n = 0
  · subst hn
    rfl
  · obtain ⟨d, ds, hds⟩ := exists_cons_of_ne_nil (ofNat_ne_nil n)
    have hzero : d ≠ byte '0' := by
      rintro rfl
      exact Text.head_ofNat_ne_zero hn (by rw [hds]; rfl)
    have hdigits := digits?_append (ofNat_ne_nil n) (fun _ => isAsciiDigit_of_mem_ofNat) h
    rw [hds] at hdigits ⊢
    exact (if_neg hzero).trans hdigits

theorem ofNat_ne_minus (h : ofNat n = b :: u) : b ≠ byte '-' := by
  rintro rfl
  exact absurd (isAsciiDigit_of_mem_ofNat (n := n) (h ▸ mem_cons_self)) (by decide)

theorem number?_ofInt (i : Int) (h : EndsNumber rest) : number? (.ofInt i ++ rest) = some (.ofInt i, rest) := by
  cases i with
  | ofNat n =>
    obtain ⟨d, ds, hds⟩ := exists_cons_of_ne_nil (ofNat_ne_nil n)
    have hwhole := whole?_ofNat n h
    change number? (ofNat n ++ rest) = some (ofNat n, rest)
    rw [hds] at hwhole ⊢
    have hminus := ofNat_ne_minus hds
    rw [cons_append] at hwhole ⊢
    simp [number?, hminus, hwhole, places?_of_endsNumber h, exponent?_of_endsNumber h]
  | negSucc n =>
    have hwhole := whole?_ofNat (n + 1) h
    change number? (byte '-' :: (ofNat (n + 1) ++ rest)) = some (byte '-' :: ofNat (n + 1), rest)
    simp [number?, hwhole, places?_of_endsNumber h, exponent?_of_endsNumber h]

theorem reads_ofInt (i : Int) : Reads (.ofInt i) (ofInt i) := by
  have hstart : ∃ b u, Text.ofInt i = b :: u ∧ (b = byte '-' ∨ isAsciiDigit b = true) := by
    cases i with
    | ofNat n =>
      obtain ⟨d, ds, hds⟩ := exists_cons_of_ne_nil (ofNat_ne_nil n)
      exact ⟨d, ds, hds, .inr (isAsciiDigit_of_mem_ofNat (n := n) (hds ▸ mem_cons_self))⟩
    | negSucc n => exact ⟨_, _, rfl, .inl rfl⟩
  obtain ⟨b, u, hbu, hb⟩ := hstart
  have hne : ∀ c : UInt8, c ≠ byte '-' → isAsciiDigit c = false → b ≠ c := by
    rintro c hminus hdigit rfl
    rcases hb with rfl | hb
    · exact hminus rfl
    · rw [hdigit] at hb
      cases hb
  have hblank : isBlank b = false := by
    simp [isBlank, hne 0x20 (by decide) (by decide), hne 0x09 (by decide) (by decide),
      hne 0x0A (by decide) (by decide), hne 0x0D (by decide) (by decide)]
  rw [ofInt, hbu]
  refine reads_of_leaf hblank (hne _ (by decide) (by decide)) (hne _ (by decide) (by decide))
    (hne _ (by decide) (by decide)) fun rest hrest => ?_
  have hnumber := number?_ofInt i hrest
  rw [hbu, cons_append] at hnumber
  rw [cons_append, leaf?_cons (hne _ (by decide) (by decide)) (hne _ (by decide) (by decide))
    (hne _ (by decide) (by decide)), if_neg (hne _ (by decide) (by decide)), hnumber]
  rfl

/-! ### Collections -/

section Collections

variable {α : Type} {Read : Text → α → Prop} {many : Nat → Text → Option (List α × Text)} {closing : UInt8} {x y : Text}
  {ts : List Text} {as : List α} {fuel : Nat}

theorem join_singleton (sep t : Text) : join sep [t] = t := by
  simp [join]

theorem join_cons_cons (sep t u : Text) (ts : List Text) :
    join sep (t :: u :: ts) = t ++ (sep ++ join sep (u :: ts)) := by
  simp [join, intercalate]

theorem endsNumber_cons (h : isAsciiDigit b = false ∧ b ≠ byte '.' ∧ lowerByte b ≠ byte 'e') (rest : Text) :
    EndsNumber (b :: rest) := by
  rintro _ ⟨⟩
  exact h

theorem endsNumber_blanks (hy : Blanks y) (hrest : EndsNumber rest) : EndsNumber (y ++ rest) := by
  cases y with
  | nil => exact hrest
  | cons b y =>
    have hb := hy b mem_cons_self
    simp only [isBlank, Bool.or_eq_true, decide_eq_true_eq] at hb
    refine endsNumber_cons ?_ _
    rcases hb with ((rfl | rfl) | rfl) | rfl <;> decide

/-- What follows a piece: a comma and further pieces, or the closing byte. -/
def goOn (closing : UInt8) (more : Text → Option (List α × Text)) (a : α) : Text → Option (List α × Text)
  | [] => none
  | b :: rest =>
    if b = byte ',' then (more rest).map fun r => (a :: r.1, r.2)
    else if b = closing then some ([a], rest)
    else none

/-- A reader of pieces behind blanks, with commas between them and a closing byte behind them. -/
structure Collects (x : Text) (closing : UInt8) (Read : Text → α → Prop) (many : Nat → Text → Option (List α × Text)) :
    Prop where
  start : ∀ {t a}, Read t a → ∃ b u, t = b :: u ∧ isBlank b = false ∧ b ≠ closing
  step : ∀ {t a u fuel}, Read t a → EndsNumber u → 2 * t.length ≤ fuel →
    many (fuel + 1) (x ++ (t ++ u)) = goOn closing (many fuel) a (skipBlanks u)
  closes : closing = byte ']' ∨ closing = 0x7D

theorem Collects.skipBlanks_closing (h : Collects x closing Read many) (hy : Blanks y) (rest : Text) :
    skipBlanks (y ++ closing :: rest) = closing :: rest := by
  rw [skipBlanks_append hy]
  rcases h.closes with rfl | rfl <;> exact skipBlanks_cons (by decide) _

theorem Collects.many_join (h : Collects x closing Read many) (hy : Blanks y)
    (hreads : Forall₂ Read ts as) (hne : ts ≠ [])
    (hfuel : 2 * (x.length + (join (byte ',' :: x) ts).length + 1) ≤ fuel) :
    many fuel (x ++ (join (byte ',' :: x) ts ++ (y ++ closing :: rest))) = some (as, rest) := by
  induction hreads generalizing fuel with
  | nil => exact absurd rfl hne
  | @cons t a ts as hread hreads ih =>
    obtain ⟨fuel, rfl⟩ : ∃ n, fuel = n + 1 := ⟨fuel - 1, by omega⟩
    cases hreads with
    | nil =>
      rw [join_singleton] at hfuel ⊢
      have hends : EndsNumber (closing :: rest) := by
        rcases h.closes with rfl | rfl <;> exact endsNumber_cons (by decide) _
      rw [h.step hread (endsNumber_blanks hy hends) (by omega), h.skipBlanks_closing hy]
      rcases h.closes with rfl | rfl <;> rfl
    | @cons u a' us as' hread' hreads' =>
      rw [join_cons_cons] at hfuel ⊢
      have hmany := @ih fuel (cons_ne_nil _ _) (by simp only [length_append, length_cons] at hfuel ⊢; omega)
      simp only [append_assoc, cons_append]
      rw [h.step hread (endsNumber_cons (by decide) _) (by simp only [length_append] at hfuel; omega),
        skipBlanks_cons (by decide), goOn, if_pos rfl, hmany]
      rfl

/-- No pieces, with the closing byte at once, or pieces that do not begin with it. -/
theorem Collects.cases (h : Collects x closing Read many) (hx : Blanks x) (hy : Blanks y) (hreads : Forall₂ Read ts as)
    (fuel : Nat) (hfuel : 2 * (x.length + (join (byte ',' :: x) ts).length + 1) ≤ fuel) (rest : Text) :
    let u := x ++ (join (byte ',' :: x) ts ++ (y ++ closing :: rest))
    (as = [] ∧ after? [closing] (skipBlanks u) = some rest) ∨
      after? [closing] (skipBlanks u) = none ∧ many fuel u = some (as, rest) := by
  intro u
  cases hreads with
  | nil =>
    refine .inl ⟨rfl, ?_⟩
    have hskip : skipBlanks u = closing :: rest := (skipBlanks_append hx _).trans (h.skipBlanks_closing hy rest)
    rw [hskip]
    exact if_pos rfl
  | @cons t a ts as hread hreads =>
    refine .inr ⟨?_, h.many_join hy (.cons hread hreads) (cons_ne_nil _ _) hfuel⟩
    obtain ⟨b, v, rfl, hb, hclosing⟩ := h.start hread
    have hjoin : ∃ w, join (byte ',' :: x) ((b :: v) :: ts) = b :: w := by
      cases ts with
      | nil => exact ⟨v, join_singleton _ _⟩
      | cons t' ts => exact ⟨_, (join_cons_cons _ _ _ _).trans cons_append⟩
    obtain ⟨w, hw⟩ := hjoin
    have hskip : skipBlanks u = b :: (w ++ (y ++ closing :: rest)) := by
      rw [skipBlanks_append hx, hw, cons_append, skipBlanks_cons hb]
    rw [hskip]
    exact if_neg (Ne.symm hclosing)

theorem collects_items (hx : Blanks x) : Collects x (byte ']') Reads items? where
  start := Reads.start
  step {_ _ u fuel} hread hu hfuel := by
    rw [items?, hread.value? x u fuel hx hu hfuel]
    rfl
  closes := .inl rfl

theorem reads_array (hx : Blanks x) (hy : Blanks y) (h : Forall₂ Reads ts js) :
    Reads (byte '[' :: (x ++ (join (byte ',' :: x) ts ++ (y ++ [byte ']'])))) (.array js) where
  start := ⟨_, _, rfl, by decide, by decide⟩
  value? before rest fuel hbefore hrest hfuel := by
    obtain ⟨fuel, rfl⟩ : ∃ n, fuel = n + 1 := ⟨fuel - 1, by rw [length_cons] at hfuel; omega⟩
    have hclosing : ofString "]" = [byte ']'] := by decide
    rw [value?, skipBlanks_append hbefore, cons_append, skipBlanks_cons (by decide)]
    simp only [if_pos, append_assoc, singleton_append, hclosing]
    rcases (collects_items hx).cases hx hy h fuel (by simp only [length_cons, length_append] at hfuel; omega) rest
      with ⟨rfl, hclosed⟩ | ⟨hopen, hitems⟩
    · rw [hclosed]
    · rw [hopen, hitems]
      rfl

/-! ### Objects -/

structure ReadsMember (u : Text) (m : Text × Json) : Prop where
  form : ∃ name blanks v, u = quote name ++ byte ':' :: (blanks ++ v) ∧ Blanks blanks ∧ m.1 = reread name ∧
    Reads v m.2

theorem collects_members (hx : Blanks x) : Collects x 0x7D ReadsMember members? where
  start h := by
    obtain ⟨name, blanks, v, rfl, -⟩ := h.form
    exact ⟨doubleQuote, _, rfl, by decide, by decide⟩
  step {_ m u fuel} h hu hfuel := by
    obtain ⟨name, blanks, v, rfl, hblanks, hname, hread⟩ := h.form
    have hvalue := hread.value? blanks u fuel hblanks hu (by simp only [length_append, length_cons] at hfuel; omega)
    have hopened : after? "\"" (skipBlanks (x ++ (quote name ++ byte ':' :: (blanks ++ v) ++ u))) =
        some ((segments name).flatMap writtenSegment ++ doubleQuote :: (byte ':' :: (blanks ++ v) ++ u)) := by
      rw [skipBlanks_append hx, quote_eq]
      simp only [cons_append, append_assoc, nil_append]
      rw [skipBlanks_cons (by decide)]
      rfl
    have hcolon : after? ":" (skipBlanks (byte ':' :: (blanks ++ v) ++ u)) = some (blanks ++ (v ++ u)) := by
      rw [cons_append, skipBlanks_cons (by decide), append_assoc]
      rfl
    have hm : m = (sanitised ((segments name).flatMap mended), m.2) := Prod.ext hname rfl
    rw [members?, hopened]
    simp only [Option.bind_eq_bind, Option.bind_some, stringFrom?_quote, hcolon, hvalue]
    rw [hm]
    rfl
  closes := .inr rfl

theorem reads_object (hx : Blanks x) (hy : Blanks y) (h : Forall₂ ReadsMember ts ms) :
    Reads (0x7B :: (x ++ (join (byte ',' :: x) ts ++ (y ++ [0x7D])))) (.object ms) where
  start := ⟨_, _, rfl, by decide, by decide⟩
  value? before rest fuel hbefore hrest hfuel := by
    obtain ⟨fuel, rfl⟩ : ∃ n, fuel = n + 1 := ⟨fuel - 1, by rw [length_cons] at hfuel; omega⟩
    have hclosing : ofString "\x7d" = [0x7D] := by decide
    rw [value?, skipBlanks_append hbefore, cons_append, skipBlanks_cons (by decide)]
    simp only [append_assoc, singleton_append, hclosing]
    rw [if_neg (by decide), if_pos trivial]
    rcases (collects_members hx).cases hx hy h fuel (by simp only [length_cons, length_append] at hfuel; omega) rest
      with ⟨rfl, hclosed⟩ | ⟨hopen, hmem⟩
    · rw [hclosed]
    · rw [hopen, hmem]
      rfl

end Collections

theorem Reads.value?_alone (h : Reads t j) : Json.value? (2 * t.length + 2) t = some (j, []) := by
  have hvalue := h.value? [] [] (2 * t.length + 2) (fun _ hb => absurd hb not_mem_nil)
    (fun _ hb => by cases hb) (by omega)
  rwa [nil_append, append_nil] at hvalue

theorem Reads.unique (h : Reads t j) (h' : Reads t j') : j = j' := by
  have hsame := h.value?_alone.symm.trans h'.value?_alone
  cases hsame
  rfl

/-- A text that is read as a value wherever it stands is read as no other when it stands alone. -/
theorem eq_of_read? (h : Reads t j) (hread : read? t = some j') : j' = j := by
  rw [read?, h.value?_alone] at hread
  exact (Option.some.inj (Option.ite_none_right_eq_some.1 hread).2).symm

end FlutterLayout.Json
