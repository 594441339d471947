import FlutterLayout.Proofs.Pipe.Numbering
import FlutterLayout.Proofs.Pipe.Pipeless

/-!
# Outlines — expressions with holes for their groups

An expression is hidden, cut and revealed as a text, but what happens to it does not depend on the texts that
stand in for its groups.  An `Outline` is an expression with holes in place of its groups with pipes.  It is
the same expression in three states: with the groups in the holes it is the expression itself
(`fill_outline`), with placeholders it is what the reader cuts (`Hides.exists_numbered`), and with values it is what the
reader puts together.
-/

namespace FlutterLayout.Pipe

open List Lexical

variable {s : Lexical} {previous : Option UInt8} {t x r : Text} {b c : UInt8} {f g : Nat → Text}

/-! ## Filling holes -/

abbrev Outline := List (UInt8 ⊕ Nat)

def fill (f : Nat → Text) (o : Outline) : Text :=
  o.flatMap (Sum.elim (fun b => [b]) f)

def plain (t : Text) : Outline :=
  t.map Sum.inl

@[simp] theorem fill_nil : fill f [] = [] := rfl

@[simp] theorem fill_byte (b : UInt8) (o : Outline) : fill f (.inl b :: o) = b :: fill f o := rfl

@[simp] theorem fill_hole (i : Nat) (o : Outline) : fill f (.inr i :: o) = f i ++ fill f o := rfl

@[simp] theorem fill_append (o o' : Outline) : fill f (o ++ o') = fill f o ++ fill f o' :=
  flatMap_append ..

@[simp] theorem fill_plain (t : Text) : fill f (plain t) = t := by
  simp [fill, plain, flatMap_map]

def raise (o : Outline) : Outline :=
  o.map (Sum.map id Nat.succ)

theorem fill_raise (o : Outline) : fill f (raise o) = fill (fun i => f (i + 1)) o := by
  have helim : (Sum.elim (fun b => [b]) f) ∘ Sum.map id Nat.succ = Sum.elim (fun b => [b]) fun i => f (i + 1) := by
    funext x
    cases x <;> rfl
  rw [fill, raise, flatMap_map]
  exact congrArg (flatMap · o) helim

/-! ## Cutting outlines -/

def Inert (x : Text) : Prop :=
  x ≠ [] ∧ ∀ b ∈ x, IsPlaceholderByte b

theorem inert_placeholder (n : Nat) : Inert (placeholder n) :=
  ⟨placeholder_ne_nil n, fun _ hb => isPlaceholderByte_of_mem hb⟩

def Lexical.IsQuoted : Lexical → Prop
  | code _ => True
  | literal quote _ => isQuote quote = true
  | escape quote _ => isQuote quote = true

theorem Lexical.IsQuoted.step (h : s.IsQuoted) (b : UInt8) : (s.step b).IsQuoted := by
  cases s with
  | code depth =>
    simp only [step]
    split_ifs with hquote
    · exact hquote
    all_goals trivial
  | literal quote depth =>
    simp only [step]
    split_ifs
    · exact h
    · trivial
    · exact h
  | escape quote depth => exact h

def Lexical.behind : Lexical → Lexical
  | escape quote depth => literal quote depth
  | s => s

theorem Lexical.step_of_isPlaceholderByte (h : s.IsQuoted) (hb : IsPlaceholderByte b) : s.step b = s.behind := by
  have hord := (tame_of_isPlaceholderByte hb).1
  simp only [isOrdinary, Bool.and_eq_true, Bool.not_eq_true'] at hord
  cases s with
  | code depth => simp [step, behind, hord]
  | literal quote depth =>
    have hquote : b ≠ quote := fun heq => by simp [heq, show isQuote quote = true from h] at hord
    have hescape : b ≠ Text.backslash := fun heq => absurd (heq ▸ hb) (by decide)
    simp [step, behind, hquote, hescape]
  | escape quote depth => rfl

theorem Lexical.foldl_step_of_inert (h : s.IsQuoted) (hx : Inert x) : x.foldl step s = s.behind := by
  obtain ⟨hne, hbytes⟩ := hx
  induction x generalizing s with
  | nil => exact absurd rfl hne
  | cons b x ih =>
    obtain ⟨hb, hbytes⟩ := forall_mem_cons.1 hbytes
    rw [foldl_cons, step_of_isPlaceholderByte h hb]
    cases x with
    | nil => rfl
    | cons b' x =>
      have hbehind : s.behind.IsQuoted := by cases s <;> exact h
      rw [ih hbehind (cons_ne_nil _ _) hbytes]
      cases s <;> rfl

theorem exists_marksFrom_append (s : Lexical) (previous : Option UInt8) (x r : Text) :
    ∃ ms, marksFrom s previous (x ++ r) = ms ++ marksFrom (x.foldl step s) (lastByte previous x) r ∧
      ms.map Mark.byte = x := by
  induction x generalizing s previous with
  | nil => exact ⟨[], rfl, rfl⟩
  | cons b x ih =>
    obtain ⟨ms, hms, hbytes⟩ := ih (s.step b) (some b)
    exact ⟨_ :: ms, by rw [cons_append, marksFrom, hms]; rfl, by rw [map_cons, hbytes]⟩

theorem head?_fill (hf : ∀ i, Inert (f i)) (o : Outline) : (fill f o).head? = some bar ↔ o.head? = some (.inl bar) := by
  cases o with
  | nil => simp
  | cons x o =>
    cases x with
    | inl b => simp
    | inr i =>
      obtain ⟨b, x, hx⟩ := exists_cons_of_ne_nil (hf i).1
      have hb : b ≠ bar := by
        rintro rfl
        exact absurd ((hf i).2 bar (by simp [hx])) (by decide)
      simp [hx, hb]

def joinBy (c : UInt8) : List Outline → Outline
  | [] => []
  | [p] => p
  | p :: q :: ps => p ++ .inl c :: joinBy c (q :: ps)

theorem joinBy_cons_byte (c b : UInt8) (p : Outline) (ps : List Outline) :
    joinBy c ((.inl b :: p) :: ps) = .inl b :: joinBy c (p :: ps) := by
  cases ps <;> rfl

theorem joinBy_cons_hole (c : UInt8) (i : Nat) (p : Outline) (ps : List Outline) :
    joinBy c ((.inr i :: p) :: ps) = .inr i :: joinBy c (p :: ps) := by
  cases ps <;> rfl

theorem infix_joinBy (hp : p ∈ ps) : p <:+: joinBy c ps := by
  induction ps with
  | nil => cases hp
  | cons q ps ih =>
    cases ps with
    | nil =>
      obtain rfl := mem_singleton.1 hp
      exact infix_rfl
    | cons q' ps =>
      rcases mem_cons.1 hp with rfl | hp
      · exact (prefix_append _ _).isInfix
      · exact (ih hp).trans ((suffix_cons _ _).trans (suffix_append _ _)).isInfix

def markOf (s : Lexical) (previous : Option UInt8) (b : UInt8) (o : Outline) : Mark :=
  ⟨b, s.depthOf? b, (s.depthOf? b).isSome && b = bar && previous ≠ some bar && o.head? ≠ some (.inl bar)⟩

theorem marksFrom_fill_byte (hf : ∀ i, Inert (f i)) (s : Lexical) (previous : Option UInt8) (b : UInt8) (o : Outline) :
    marksFrom s previous (fill f (.inl b :: o)) =
      markOf s previous b o :: marksFrom (s.step b) (some b) (fill f o) := by
  simp only [fill_byte, marksFrom, ne_eq, head?_fill hf, markOf]

/-- The outlines between the marks at which to cut, where the holes are not looked into. -/
def cut (cutAt : Mark → Bool) : Lexical → Option UInt8 → Outline → List Outline
  | _, _, [] => [[]]
  | s, previous, .inl b :: o =>
    if cutAt (markOf s previous b o) then [] :: cut cutAt (s.step b) (some b) o
    else (cut cutAt (s.step b) (some b) o).modifyHead (.inl b :: ·)
  | s, _, .inr i :: o => (cut cutAt s.behind none o).modifyHead (.inr i :: ·)

theorem exists_cut (cutAt : Mark → Bool) (s : Lexical) (previous : Option UInt8) (o : Outline) :
    ∃ p ps, cut cutAt s previous o = p :: ps := by
  induction o generalizing s previous with
  | nil => exact ⟨[], [], rfl⟩
  | cons x o ih =>
    cases x with
    | inl b =>
      obtain ⟨p, ps, hcut⟩ := ih (s.step b) (some b)
      rw [cut]
      split
      · exact ⟨_, _, rfl⟩
      · exact ⟨.inl b :: p, ps, by rw [hcut]; rfl⟩
    | inr i =>
      obtain ⟨p, ps, hcut⟩ := ih s.behind none
      exact ⟨.inr i :: p, ps, by rw [cut, hcut]; rfl⟩

section Cuts

variable {cutAt : Mark → Bool} (hbyte : ∀ (s : Lexical) (previous : Option UInt8) (t : Text),
  ∀ m ∈ marksFrom s previous t, cutAt m = true → m.byte = c)
include hbyte

theorem joinBy_cut (s : Lexical) (previous : Option UInt8) (o : Outline) : joinBy c (cut cutAt s previous o) = o := by
  induction o generalizing s previous with
  | nil => rfl
  | cons x o ih =>
    cases x with
    | inl b =>
      obtain ⟨p, ps, hcut⟩ := exists_cut cutAt (s.step b) (some b) o
      have hjoin := ih (s.step b) (some b)
      rw [hcut] at hjoin
      rw [cut, hcut]
      split
      · rename_i hm
        have hb : b = c := by
          refine hbyte s previous (fill (fun _ => placeholder 0) (.inl b :: o)) (markOf s previous b o) ?_ hm
          rw [marksFrom_fill_byte fun _ => inert_placeholder 0]
          exact mem_cons_self
        rw [joinBy, hjoin, hb]
        rfl
      · rw [modifyHead_cons, joinBy_cons_byte, hjoin]
    | inr i =>
      obtain ⟨p, ps, hcut⟩ := exists_cut cutAt s.behind none o
      have hjoin := ih s.behind none
      rw [hcut] at hjoin
      rw [cut, hcut, modifyHead_cons, joinBy_cons_hole, hjoin]

theorem splitMarks_fill (hc : ¬ IsPlaceholderByte c) (hf : ∀ i, Inert (f i)) (hs : s.IsQuoted) (o : Outline) :
    splitMarks cutAt (marksFrom s previous (fill f o)) = (cut cutAt s previous o).map (fill f) := by
  induction o generalizing s previous with
  | nil => rfl
  | cons x o ih =>
    cases x with
    | inl b =>
      obtain ⟨p, ps, hcut⟩ := exists_cut cutAt (s.step b) (some b) o
      rw [marksFrom_fill_byte hf, splitMarks, ih (hs.step b), cut]
      split
      · rfl
      · rw [hcut]
        rfl
    | inr i =>
      have hbehind : s.behind.IsQuoted := by cases s <;> exact hs
      obtain ⟨p, ps, hcut⟩ := exists_cut cutAt s.behind none o
      obtain ⟨ms, hms, hbytes⟩ := exists_marksFrom_append s previous (f i) (fill f o)
      have hlast : lastByte previous (f i) ≠ some bar := by
        obtain ⟨b, x, hx⟩ := exists_cons_of_ne_nil (hf i).1
        have hfree : bar ∉ f i := fun hmem => absurd ((hf i).2 bar hmem) (by decide)
        rw [hx, mem_cons, not_or] at hfree
        rw [hx, lastByte]
        exact lastByte_ne_bar (by simpa using Ne.symm hfree.1) hfree.2
      have hquiet : ∀ m ∈ ms, cutAt m = false := by
        intro m hm
        rw [Bool.eq_false_iff]
        intro hcut
        have hmem : m ∈ marksFrom s previous (f i ++ fill f o) := hms ▸ mem_append_left _ hm
        refine hc (hbyte s previous _ m hmem hcut ▸ (hf i).2 m.byte ?_)
        rw [← hbytes]
        exact mem_map_of_mem hm
      obtain ⟨q, qs, hrest, hall⟩ := exists_splitMarks_append_left hquiet
        (marksFrom s.behind none (fill f o))
      rw [ih hbehind, hcut] at hrest
      obtain ⟨rfl, rfl⟩ := cons.inj hrest
      rw [fill_hole, hms, foldl_step_of_inert hs (hf i),
        marksFrom_previous hlast (Option.some_ne_none bar).symm, hall, hbytes, cut, hcut]
      rfl

end Cuts

def cutTop (c : UInt8) (o : Outline) : List Outline :=
  cut (fun m => m.depth? = some 0 && m.byte = c) (.code 0) none o

def cutPipes (o : Outline) : List Outline :=
  cut (fun m => m.depth? = some 0 && m.isPipe) (.code 0) none o

theorem joinBy_cutTop (c : UInt8) (o : Outline) : joinBy c (cutTop c o) = o :=
  joinBy_cut (fun _ _ _ m _ hm => by simpa using And.right (by simpa using hm)) ..

theorem infix_of_mem_cutTop (hp : p ∈ cutTop c o) : p <:+: o :=
  (infix_joinBy hp).trans (by rw [joinBy_cutTop])

theorem splitTop_fill (hc : ¬ IsPlaceholderByte c) (hf : ∀ i, Inert (f i)) (o : Outline) :
    splitTop c (fill f o) = (cutTop c o).map (fill f) :=
  splitMarks_fill (fun _ _ _ m _ hm => by simpa using And.right (by simpa using hm)) hc hf (s := .code 0) trivial o

theorem joinBy_cutPipes (o : Outline) : joinBy bar (cutPipes o) = o :=
  joinBy_cut (fun _ _ _ m hm hcut => byte_eq_bar hm (by simp at hcut; exact hcut.2)) ..

theorem infix_of_mem_cutPipes (hp : p ∈ cutPipes o) : p <:+: o :=
  (infix_joinBy hp).trans (by rw [joinBy_cutPipes])

theorem splitPipes_fill (hf : ∀ i, Inert (f i)) (o : Outline) : splitPipes (fill f o) = (cutPipes o).map (fill f) :=
  splitMarks_fill (fun _ _ _ m hm hcut => byte_eq_bar hm (by simp at hcut; exact hcut.2)) (by decide) hf
    (s := .code 0) trivial o

/-! ## The outline of an expression -/

def inners (gs : List Group) : List Text :=
  (gs.filter fun g => hasPipe g.inner).map Group.inner

def outlineGroups : List Group → Text → Outline
  | [], tail => plain tail
  | g :: gs, tail =>
    if hasPipe g.inner then plain g.before ++ .inr 0 :: raise (outlineGroups gs tail)
    else plain (g.before ++ Text.byte '(' :: (g.inner ++ [Text.byte ')'])) ++ outlineGroups gs tail

def outline (t : Text) : Outline :=
  outlineGroups (groups t).1 (groups t).2

def parenthesised (t : Text) : Text :=
  Text.byte '(' :: (t ++ [Text.byte ')'])

def parens (ts : List Text) (i : Nat) : Text :=
  parenthesised (ts.getD i [])

@[simp] theorem inners_cons (g : Group) (gs : List Group) :
    inners (g :: gs) = if hasPipe g.inner then g.inner :: inners gs else inners gs := by
  unfold inners
  split_ifs with h <;> simp [h]

theorem fill_outlineGroups (gs : List Group) (tail : Text) :
    fill (parens (inners gs)) (outlineGroups gs tail) = assemble (gs, tail) := by
  induction gs with
  | nil => simp [outlineGroups, assemble]
  | cons g gs ih =>
    have hrest : assemble (g :: gs, tail) = g.before ++ (parenthesised g.inner ++ assemble (gs, tail)) := by
      simp [assemble, parenthesised]
    rw [hrest, outlineGroups, inners_cons, ← ih]
    split
    · rw [fill_append, fill_plain, fill_hole, fill_raise]
      rfl
    · rw [fill_append, fill_plain]
      simp [parenthesised]

theorem fill_outline (t : Text) : fill (parens (inners (groups t).1)) (outline t) = t := by
  rw [outline, fill_outlineGroups]
  exact assemble_groups t

def placeholders (hs : List (Nat × Expression)) (i : Nat) : Text :=
  placeholder (hs.getD i ⟨0, ⟨[], []⟩⟩).1

theorem inert_placeholders (hs : List (Nat × Expression)) (i : Nat) : Inert (placeholders hs i) :=
  inert_placeholder _

/-- Groups are read one after the other and get numbers from `n` up to `k`. -/
structure Numbered (es : List Expression) (n : Nat) (hs : List (Nat × Expression)) (k : Nat) : Prop where
  le : n ≤ k
  expressions : hs.map Prod.snd = es
  distinct : (hs.map Prod.fst).Nodup
  bounds : ∀ h ∈ hs, n ≤ h.1 ∧ h.1 < k

/-- What a reader may do: from a text and a number it may come to an expression and a number. -/
abbrev Reader := Text → Nat → Expression → Nat → Prop

def Reader.Settles (reads : Reader) (t : Text) (e : Expression) : Prop :=
  ∀ n e' k, reads t n e' k → e' = e ∧ n ≤ k

inductive Hides (reads : Reader) : List Group → Hidden → Nat → Hidden → Nat → Prop where
  | nil {h : Hidden} {n : Nat} : Hides reads [] h n h n
  | piped {g : Group} {gs : List Group} {h h' : Hidden} {n k l : Nat} {e : Expression} (hg : hasPipe g.inner = true)
      (hread : reads g.inner n e k) (hrest : Hides reads gs ((h.grow g.before).cover k e) (k + 1) h' l) :
      Hides reads (g :: gs) h n h' l
  | plain {g : Group} {gs : List Group} {h h' : Hidden} {n l : Nat} (hg : hasPipe g.inner = false)
      (hrest : Hides reads gs (h.grow (g.before ++ parenthesised g.inner)) n h' l) : Hides reads (g :: gs) h n h' l

theorem Hides.exists_numbered
    (hides : Hides reads gs h n h' k) (hes : Forall₂ reads.Settles (inners gs) es) (tail : Text) :
    ∃ hs, Numbered es n hs k ∧ h'.grow tail = h.take (fill (placeholders hs) (outlineGroups gs tail)) hs := by
  induction hides generalizing es with
  | nil =>
    cases hes
    refine ⟨[], ⟨Nat.le_refl _, rfl, .nil, by simp⟩, ?_⟩
    rw [Hidden.take_nil, outlineGroups, fill_plain]
  | @piped g gs h h' n k l e hg hread hrest ih =>
    rw [inners_cons, if_pos hg] at hes
    obtain ⟨e', es', hsettles, hes', rfl⟩ := forall₂_cons_left_iff.1 hes
    obtain ⟨rfl, hle⟩ := hsettles n e k hread
    obtain ⟨hs, hnum, hhidden⟩ := ih hes'
    have hfirst : placeholders ((k, e) :: hs) 0 = placeholder k := rfl
    have hothers : (fun i => placeholders ((k, e) :: hs) (i + 1)) = placeholders hs := rfl
    refine ⟨(k, e) :: hs, ⟨(Nat.le_succ_of_le hle).trans hnum.le, ?_, ?_, ?_⟩, ?_⟩
    · rw [map_cons, hnum.expressions]
    · refine nodup_cons.2 ⟨fun hmem => ?_, hnum.distinct⟩
      obtain ⟨p, hp, hnumber⟩ := mem_map.1 hmem
      exact absurd (hnum.bounds p hp).1 (by simp only at hnumber; omega)
    · refine forall_mem_cons.2 ⟨⟨hle, hnum.le⟩, fun p hp => ?_⟩
      exact ⟨hle.trans (Nat.le_of_succ_le (hnum.bounds p hp).1), (hnum.bounds p hp).2⟩
    · rw [hhidden, outlineGroups, if_pos hg, fill_append, fill_plain, fill_hole, fill_raise, hfirst, hothers]
      simp [Hidden.take, Hidden.cover, Hidden.grow, entries]
  | @plain g gs h h' n l hg hrest ih =>
    rw [inners_cons, if_neg (by simp [hg])] at hes
    obtain ⟨hs, hnum, hhidden⟩ := ih hes
    refine ⟨hs, hnum, ?_⟩
    rw [hhidden, outlineGroups, if_neg (by simp [hg]), fill_append, fill_plain]
    simp [Hidden.take, Hidden.grow, parenthesised]

end FlutterLayout.Pipe
