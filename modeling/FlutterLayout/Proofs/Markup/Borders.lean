import FlutterLayout.Proofs.Markup.Tags
import FlutterLayout.Proofs.Text.Segments
import Mathlib.Data.List.Chain

/-!
# Borders — tokens are cut between runes

The bytes of a rune behind its first are continuation bytes, and no ASCII byte stands before one in a source that
is UTF-8.  Tokens begin and end at ASCII bytes, so no character data begins with a continuation byte
(`Tokens.read_whole`).  A text that is made of such pieces is blank just if each piece is (`isBlanks_flatten`).
-/

namespace FlutterLayout

open List Text

namespace Text

variable {a b t u : Text} {c : UInt8}

def StartsWhole (t : Text) : Prop :=
  ∀ b ∈ t.head?, isContinuation b = false

def Bordered (t : Text) : Prop :=
  t.IsChain fun a b => a < 0x80 → isContinuation b = false

theorem startsWhole_nil : StartsWhole [] := by
  intro b hb
  cases hb

theorem startsWhole_cons (hc : c < 0x80) (t : Text) : StartsWhole (c :: t) := by
  intro b hb
  cases hb
  exact isContinuation_eq_false_of_lt hc

theorem StartsWhole.append (ha : StartsWhole a) (hb : StartsWhole b) : StartsWhole (a ++ b) := by
  cases a with
  | nil => exact hb
  | cons c a => exact ha

theorem StartsWhole.of_append (h : StartsWhole (a ++ b)) : StartsWhole a := by
  cases a with
  | nil => exact startsWhole_nil
  | cons c a => exact h

theorem bordered_cons : Bordered (c :: t) ↔ (c < 0x80 → StartsWhole t) ∧ Bordered t := by
  cases t with
  | nil => exact ⟨fun _ => ⟨fun _ => startsWhole_nil, .nil⟩, fun _ => .singleton c⟩
  | cons b t => simp [Bordered, StartsWhole, isChain_cons_cons]

theorem Bordered.suffix (h : Bordered t) (hsuffix : u <:+ t) : Bordered u := by
  obtain ⟨p, rfl⟩ := hsuffix
  exact (isChain_append.1 h).2.1

theorem Bordered.startsWhole_of_suffix (h : Bordered t) (hc : c < 0x80) (hsuffix : c :: u <:+ t) : StartsWhole u :=
  (bordered_cons.1 (h.suffix hsuffix)).1 hc

/-- A text that is cut into runes is bordered, behind an ASCII byte as well. -/
theorem Cut.bordered (h : Cut t ss) (hrunes : ∀ s ∈ ss, s.rune?.isSome = true) : StartsWhole t ∧ Bordered t := by
  induction h with
  | nil => exact ⟨startsWhole_nil, .nil⟩
  | stray _ _ => cases (forall_mem_cons.1 hrunes).1
  | @rune x t more r ss he _ ih =>
    obtain ⟨hstart, hchain⟩ := ih (forall_mem_cons.1 hrunes).2
    refine ⟨fun y hy => ?_, ?_⟩
    · cases hy
      exact he.start
    · -- behind the first byte there are continuation bytes only, which are not ASCII
      have hmore : ∀ (more : Text) (x : UInt8), (∀ y ∈ more, isContinuation y = true) → (x < 0x80 → more = []) →
          Bordered (x :: (more ++ t)) := by
        intro more
        induction more with
        | nil => exact fun x _ _ => bordered_cons.2 ⟨fun _ => hstart, hchain⟩
        | cons y more ih =>
          intro x hall hx
          rw [forall_mem_cons] at hall
          have hy : ¬ y < 0x80 := fun hlt => by
            rw [isContinuation_eq_false_of_lt hlt] at hall
            exact absurd hall.1 (by decide)
          exact bordered_cons.2 ⟨fun hlt => absurd (hx hlt) (by simp), ih y hall.2 fun hlt => absurd hlt hy⟩
      exact hmore more x he.continues fun hlt => (he.ascii hlt).1

theorem bordered_of_isUtf8 (h : isUtf8 t = true) : StartsWhole t ∧ Bordered t :=
  (cut_segments t).bordered fun s hs => all_eq_true.1 h s hs

theorem isUtf8_append (hb : StartsWhole b) : isUtf8 (a ++ b) = true ↔ isUtf8 a = true ∧ isUtf8 b = true := by
  rw [isUtf8, segments_append hb, all_append, Bool.and_eq_true]
  rfl

theorem isUtf8_cons_ascii (hc : c < 0x80) : isUtf8 (c :: t) = isUtf8 t := by
  rw [isUtf8, segments_ascii hc]
  rfl

/-! ## Blank texts -/

theorem isContinuation_of_mem_tail_blanks : ∀ m ∈ blanks, ∀ c ∈ m.tail, isContinuation c = true := by
  decide

theorem IsBlanks.of_append (hb : StartsWhole b) (h : IsBlanks (a ++ b)) : IsBlanks a ∧ IsBlanks b := by
  obtain ⟨ms, hms, heq⟩ := h
  induction ms generalizing a with
  | nil =>
    obtain ⟨rfl, rfl⟩ := append_eq_nil_iff.1 heq
    exact ⟨madeOf_nil, madeOf_nil⟩
  | cons m ms ih =>
    rw [forall_mem_cons] at hms
    rw [flatten_cons] at heq
    rcases append_eq_append_iff.1 heq with ⟨x, rfl, rfl⟩ | ⟨x, rfl, hrest⟩
    · -- the blank reaches beyond `a`, so `a` is empty or `b` begins within it
      cases a with
      | nil => exact ⟨madeOf_nil, .cons hms.1 ⟨ms, hms.2, rfl⟩⟩
      | cons c a =>
        cases x with
        | nil =>
          rw [append_nil] at hms
          exact ⟨⟨[c :: a], by simpa using hms.1, by simp⟩, ⟨ms, hms.2, rfl⟩⟩
        | cons d x =>
          have hd := isContinuation_of_mem_tail_blanks _ hms.1 d (by simp)
          rw [hb d rfl] at hd
          cases hd
    · obtain ⟨ha, hb⟩ := ih hms.2 hrest.symm
      exact ⟨.cons hms.1 ha, hb⟩

theorem isBlanks_flatten {ps : List Text} (hps : ∀ p ∈ ps, StartsWhole p) :
    IsBlanks ps.flatten ↔ ∀ p ∈ ps, IsBlanks p := by
  induction ps with
  | nil => exact ⟨fun _ => by simp, fun _ => madeOf_nil⟩
  | cons p ps ih =>
    rw [forall_mem_cons] at hps
    have hrest : StartsWhole ps.flatten := by
      clear ih
      obtain ⟨-, hps⟩ := hps
      induction ps with
      | nil => exact startsWhole_nil
      | cons q ps ih =>
        rw [forall_mem_cons] at hps
        exact hps.1.append (ih hps.2)
    rw [flatten_cons, forall_mem_cons, ← ih hps.2]
    exact ⟨IsBlanks.of_append hrest, fun h => h.1.append h.2⟩

theorem startsWhole_ofRune (r : Rune) : StartsWhole (ofRune r) := by
  have hlead : ∀ n : Nat, 0xC0 ≤ n → n < 0x100 → isContinuation n.toUInt8 = false := by
    intro n hlow hhigh
    refine isContinuation_eq_false_of_le ?_
    rw [UInt8.le_iff_toNat_le]
    simpa [Nat.mod_eq_of_lt hhigh] using hlow
  have hdiv : ∀ m n : Nat, r < m * n → r / n < m := fun m n h => Nat.div_lt_of_lt_mul (Nat.mul_comm m n ▸ h)
  unfold ofRune
  intro b hb
  split at hb
  · rename_i hr
    cases hb
    refine isContinuation_eq_false_of_lt ?_
    have hsmall : r < 256 := Nat.lt_trans hr (by decide : 128 < 256)
    rw [UInt8.lt_iff_toNat_lt]
    simpa [Nat.mod_eq_of_lt hsmall] using hr
  · split at hb
    · rename_i hr
      cases hb
      exact hlead _ (Nat.le_add_right ..) ((Nat.add_lt_add_left (hdiv 0x20 0x40 hr) 0xC0).trans (by decide))
    · split at hb
      · cases hb
        decide
      · rename_i hscalar
        have hr : r < 0x110000 := by
          simp only [isScalar, Bool.not_eq_true', Bool.not_eq_false, Bool.or_eq_true, Bool.and_eq_true,
            decide_eq_true_eq] at hscalar
          rcases hscalar with hlow | hhigh
          · exact Nat.lt_trans hlow (by decide)
          · exact Nat.lt_succ_of_le hhigh.2
        split at hb
        · rename_i hthree
          cases hb
          exact hlead _ (Nat.le_trans (by decide) (Nat.le_add_right 0xE0 _))
            ((Nat.add_lt_add_left (hdiv 0x10 0x1000 hthree) 0xE0).trans_le (by decide))
        · cases hb
          have hfour : r / 0x40000 < 5 := hdiv 5 0x40000 (Nat.lt_trans hr (by decide))
          exact hlead _ (Nat.le_trans (by decide) (Nat.le_add_right 0xF0 _))
            ((Nat.add_lt_add_left hfour 0xF0).trans_le (by decide))

end Text

namespace Markup

open Text (StartsWhole Bordered)

variable {options : ReadOptions} {c c' : Cursor} {t u v : Text} {token : Token}

/-! ## Tokens -/

def Token.Whole : Token → Prop
  | .characters value => StartsWhole value
  | .cdata body => StartsWhole body
  | _ => True

def Tokens.Whole : Tokens → Prop
  | .more _ token rest => token.Whole ∧ rest.Whole
  | _ => True

def ReadOptions.Whole (options : ReadOptions) : Prop :=
  ∀ e ∈ options.entities, StartsWhole e.2

theorem startsWhole_resolve (hopts : options.Whole) (h : Reference.resolve options t = .ok v) : StartsWhole v := by
  unfold Reference.resolve at h
  dsimp only at h
  split at h
  · split at h
    · rename_i bytes hchar
      cases h
      obtain ⟨n, -, -, -, rfl⟩ := character?_eq_some_iff.1 hchar
      exact startsWhole_ofRune n
    · cases h
  · split at h
    · rename_i value hlookup
      cases h
      have hmem : (t, v) ∈ Reference.predefined ++ options.entities := by
        obtain ⟨l1, l2, heq, -⟩ := lookup_eq_some_iff.1 hlookup
        rw [heq]
        simp
      rcases mem_append.1 hmem with hpredefined | hentity
      · have hall : (Reference.predefined.all fun e => e.2.head?.all fun b => !isContinuation b) = true := by decide
        have hhead := all_eq_true.1 hall _ hpredefined
        exact fun b hb => by simpa using (Option.all_eq_true _ _).1 hhead b hb
      · exact hopts _ hentity
    · split at h
      · cases h
        exact startsWhole_cons (by decide) _
      · cases h

theorem startsWhole_decode (hopts : options.Whole) (hstart : StartsWhole t) (hborders : Bordered t)
    (h : Reference.decode options t = .ok v) : StartsWhole v := by
  induction hn : t.length using Nat.strongRecOn generalizing t v with
  | ind n ih =>
    cases t with
    | nil =>
      cases h
      exact startsWhole_nil
    | cons b t =>
      rw [Reference.decode, Reference.decodeFrom] at h
      split at h
      · split at h
        · cases h
        · rename_i name rest hcut
          obtain ⟨heq, -⟩ := endsAt_of_cut? hcut
          split at h
          · cases h
          · rename_i value hres
            rw [decodeFrom_eq] at h
            obtain ⟨more, hmore, rfl⟩ : ∃ more, Reference.decode options (t.drop (name.length + 1)) = .ok more ∧
                v = value ++ more := by
              revert h
              cases Reference.decode options (t.drop (name.length + 1)) with
              | error _ => exact fun h => by cases h
              | ok more =>
                intro h
                cases h
                exact ⟨more, rfl, rfl⟩
            -- what is left begins behind a semicolon
            have heq : t = name ++ byte ';' :: rest := heq.trans (append_assoc ..)
            have hdrop : t.drop (name.length + 1) = rest := by
              rw [heq, ← singleton_append, ← append_assoc, drop_left' (by simp)]
            have hsemi : byte ';' :: rest <:+ b :: t := ⟨b :: name, by rw [heq]; rfl⟩
            rw [hdrop] at hmore
            have hrest : rest <:+ b :: t := (suffix_cons _ _).trans hsemi
            refine (startsWhole_resolve hopts hres).append (ih rest.length ?_
              (hborders.startsWhole_of_suffix (by decide) hsemi) (hborders.suffix hrest) hmore rfl)
            have hlength := hsemi.length_le
            simp only [length_cons] at hn hlength
            omega
      · intro x hx
        refine hstart x ?_
        revert h
        cases Reference.decodeFrom options 0 t with
        | error _ => exact fun h => by cases h
        | ok more =>
          intro h
          cases h
          exact hx

/-- A token ends behind an ASCII byte, or before a byte that is not part of a rune. -/
theorem startsWhole_rest (hborders : Bordered c.rest) (h : Token.read options c = .ok (token, c')) :
    StartsWhole c'.rest := by
  -- every delimiter ends in the same ASCII byte
  have hbehind : ∀ {u p : Text}, c.rest = u ++ (p ++ [byte '>']) ++ c'.rest → StartsWhole c'.rest := by
    intro u p heq
    have hsuffix : byte '>' :: c'.rest <:+ c.rest := ⟨u ++ p, by rw [heq]; simp⟩
    exact hborders.startsWhole_of_suffix (by decide) hsuffix
  cases Token.between_of_read h with
  | delimited hmake hopen hclose =>
    have hrest := (Cursor.rest_of_eat? hopen).trans (congrArg _ (Cursor.rest_of_through? hclose))
    rw [← append_assoc, ← append_assoc] at hrest
    cases hmake with
    | comment => exact hbehind (p := "--") hrest
    | cdata => exact hbehind (p := "]]") hrest
    | instruction => exact hbehind (p := "?") hrest
  | doctype hopen hclose =>
    obtain ⟨body, hbody, -⟩ := closesAt_of_skipDoctype hclose
    refine hbehind (u := "<!DOCTYPE" ++ body) (p := []) ?_
    rw [Cursor.rest_of_eat? hopen, hbody]
    simp
  | @startTag behind _ _ _ _ closed hopen _ hread _ hclose =>
    have hname := (behind.suffix_span isNameByte).trans (Cursor.suffix_of_eat? hopen)
    obtain ⟨u, hu⟩ := (suffix_readAttributes hread).trans hname
    rw [Cursor.rest_of_eat? hclose, ← append_assoc] at hu
    cases closed with
    | true => exact hbehind (p := "/") hu.symm
    | false => exact hbehind (p := []) hu.symm
  | @endTag behind _ hopen hclose =>
    have hname := (behind.suffix_span isNameByte).trans (Cursor.suffix_of_eat? hopen)
    obtain ⟨u, hu⟩ := (Cursor.suffix_skipLayout _).trans hname
    rw [Cursor.rest_of_eat? hclose, ← append_assoc] at hu
    exact hbehind (p := []) hu.symm
  | @unclosed behind hopen =>
    intro b hb
    -- neither a name byte nor layout
    obtain ⟨gap, hgap, heq⟩ := (behind.span isNameByte).2.rest_skipLayout
    rcases eq_nil_or_concat' gap with rfl | ⟨gap, x, rfl⟩
    · rw [nil_append] at heq
      have hnot := Cursor.of_head_span (f := isNameByte) (c := behind) (heq ▸ hb)
      refine isContinuation_eq_false_of_lt (UInt8.not_le.1 fun hle => ?_)
      simp [isNameByte, hle] at hnot
    · have hx : x < 0x80 := by
        have := hgap x (by simp)
        simp only [Cursor.isLayoutByte, Bool.or_eq_true, decide_eq_true_eq] at this
        rcases this with (rfl | rfl) | rfl <;> decide
      have hname := (behind.suffix_span isNameByte).trans (Cursor.suffix_of_eat? hopen)
      refine hborders.startsWhole_of_suffix hx ?_ b hb
      refine .trans ⟨gap, ?_⟩ hname
      rw [heq]
      simp
  | characters =>
    intro b hb
    have hless := Cursor.of_head_span (f := fun b => b ≠ byte '<') (c := c) hb
    have heq : b = byte '<' := by simpa using hless
    rw [heq]
    decide

theorem Token.whole_of_read (hopts : options.Whole) (hstart : StartsWhole c.rest) (hborders : Bordered c.rest)
    (h : Token.read options c = .ok (token, c')) : token.Whole := by
  cases between_of_read h with
  | @delimited _ _ _ _ behind _ hmake hopen hclose =>
    cases hmake with
    | comment | instruction => trivial
    | cdata =>
      -- the data begin behind the second bracket
      have hopening : byte '[' :: behind.rest <:+ c.rest := ⟨"<![CDATA", (Cursor.rest_of_eat? hopen).symm⟩
      have hinside : StartsWhole behind.rest := hborders.startsWhole_of_suffix (by decide) hopening
      rw [Cursor.rest_of_through? hclose, append_assoc] at hinside
      exact hinside.of_append
  | characters _ hvalue =>
    rw [c.rest_span fun b => b ≠ byte '<'] at hstart hborders
    exact startsWhole_decode hopts hstart.of_append (isChain_append.1 hborders).1 hvalue
  | doctype | startTag | endTag | unclosed => trivial

theorem Tokens.read_whole (hopts : options.Whole) (hstart : StartsWhole c.rest) (hborders : Bordered c.rest) :
    (Tokens.read options c).Whole := by
  fun_induction Tokens.read options c with
  | case1 | case2 => trivial
  | case3 c hne token behind hread ih =>
    have hsuffix := ((Token.between_of_read hread).advances hne).suffix
    exact ⟨Token.whole_of_read hopts hstart hborders hread,
      ih (startsWhole_rest hborders hread) (hborders.suffix hsuffix)⟩

/-! ## The normal form of a source -/

theorem isUtf8_of_endsLines (h : EndsLines t u) (lead : Text) (ht : isUtf8 (lead ++ t) = true) :
    isUtf8 (lead ++ u) = true := by
  have hbreak : ∀ {lead t u : Text}, (isUtf8 t = true → isUtf8 u = true) →
      isUtf8 (lead ++ carriageReturn :: t) = true → isUtf8 (lead ++ lineFeed :: u) = true := by
    intro lead t u hrest h
    rw [isUtf8_append (startsWhole_cons (by decide) t), isUtf8_cons_ascii (by decide)] at h
    rw [isUtf8_append (startsWhole_cons (by decide) u), isUtf8_cons_ascii (by decide)]
    exact ⟨h.1, hrest h.2⟩
  induction h generalizing lead with
  | nil => exact ht
  | @pair t _ _ ih =>
    have hfeed : isUtf8 (lineFeed :: t) = isUtf8 t := isUtf8_cons_ascii (by decide)
    exact hbreak (fun h => ih [] (hfeed ▸ h)) ht
  | single _ _ ih => exact hbreak (ih []) ht
  | @byte b t u _ _ ih =>
    have hnext := ih (lead ++ [b])
    simp only [append_assoc, singleton_append] at hnext
    exact hnext ht

theorem isUtf8_of_byteOrderMark (h : isUtf8 (byteOrderMark ++ t) = true) : isUtf8 t = true := by
  have hsegs : segments (byteOrderMark ++ t) = ⟨some 0xFEFF, byteOrderMark⟩ :: segments t := by
    have hskip := segmentsFrom_eq 2 (0xBB :: 0xBF :: t)
    rw [drop_succ_cons, drop_succ_cons, drop_zero] at hskip
    rw [← hskip]
    rfl
  rw [isUtf8, hsegs, all_cons] at h
  exact (Bool.and_eq_true_iff.1 h).2

theorem isUtf8_normalise (h : isUtf8 source = true) : isUtf8 (normalise source) = true := by
  have hform : HasNormalForm source (normalise source) := hasNormalForm_iff.2 rfl
  generalize normalise source = t at hform
  cases hform with
  | marked hends => exact isUtf8_of_endsLines hends [] (isUtf8_of_byteOrderMark h)
  | unmarked _ hends => exact isUtf8_of_endsLines hends [] h

end Markup

end FlutterLayout
