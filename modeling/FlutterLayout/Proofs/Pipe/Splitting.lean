import FlutterLayout.Pipe.Expression
import FlutterLayout.Proofs.Pipe.Nesting

/-!
# Splitting — expressions cut at depth zero

* `strips_splitTop`, `strips_splitPipes`: what is cut differs by blanks at the ends when the texts do, so
  a chain is read in the same way with and without blanks around it (`readChain_strips`).
* `splitTop_flatMap`, `splitPipes_flatMap`: balanced texts put together with separators are cut into those
  texts again.
-/

namespace FlutterLayout.Pipe

open List Text
open Text (IsBlanks Strips)

variable {inside outside : List UInt8} {t u r x : Text} {b c : UInt8} {xs : List Text} {previous : Option UInt8}
variable {cutAt : Mark → Bool} {ms ns : List Mark}

/-! ## Marks of parts -/

@[simp] theorem map_byte_marksFrom (s : Lexical) (previous : Option UInt8) (t : Text) :
    (marksFrom s previous t).map Mark.byte = t := by
  induction t generalizing s previous with
  | nil => rfl
  | cons b t ih => rw [marksFrom, map_cons, ih]

theorem byte_eq_bar (hm : m ∈ marksFrom s previous t) (hpipe : m.isPipe = true) : m.byte = bar := by
  induction t generalizing s previous with
  | nil => cases hm
  | cons b t ih =>
    rcases mem_cons.1 hm with rfl | hm
    · simp only [Bool.and_eq_true, decide_eq_true_eq] at hpipe
      exact hpipe.1.1.2
    · exact ih hm

theorem marksFrom_previous (h : previous ≠ some bar)
    (h' : previous' ≠ some bar) (t : Text) : marksFrom s previous t = marksFrom s previous' t := by
  cases t with
  | nil => rfl
  | cons b t => simp [marksFrom, h, h']

theorem marksFrom_append (hr : r.head? ≠ some bar) (s : Lexical) (previous : Option UInt8) (t : Text) :
    marksFrom s previous (t ++ r) =
      marksFrom s previous t ++ marksFrom (t.foldl .step s) (lastByte previous t) r := by
  induction t generalizing s previous with
  | nil => rfl
  | cons b t ih =>
    have hnext : (t ++ r).head? ≠ some bar ↔ t.head? ≠ some bar := by
      cases t with
      | nil => simpa using hr
      | cons b' t => simp
    rw [cons_append, marksFrom, ih, marksFrom, cons_append]
    simp only [hnext, foldl_cons, lastByte]

theorem lastByte_ne_bar (h : previous ≠ some bar) (ht : bar ∉ t) : lastByte previous t ≠ some bar := by
  induction t generalizing previous with
  | nil => exact h
  | cons b t ih =>
    rw [mem_cons, not_or] at ht
    exact ih (by simpa using Ne.symm ht.1) ht.2

theorem bar_not_mem_of_isBlanks (h : IsBlanks t) : bar ∉ t := fun hmem =>
  (isOrdinary_of_mem_blanks bar (h.mem_flatten hmem)).2 rfl

theorem exists_marks_strips {b : Text} (ha : IsBlanks a) (hb : IsBlanks b) (t : Text) :
    ∃ ms ns, marks (a ++ t ++ b) = ms ++ (marks t ++ ns) ∧ ms.map Mark.byte = a ∧ ns.map Mark.byte = b ∧
      (∀ m ∈ ms, m.isPipe = false) ∧ ∀ m ∈ ns, m.isPipe = false := by
  have hblank : Nests [bar] [bar] a := nests_of_isBlanks ha (by decide +kernel)
  obtain ⟨ms, hms, hspan, hquiet⟩ := hblank.marksFrom 0 none (t ++ b)
  have hhead : b.head? ≠ some bar := fun h => bar_not_mem_of_isBlanks hb (mem_of_head? h)
  have hlast : lastByte none a ≠ some bar := lastByte_ne_bar (by simp) (bar_not_mem_of_isBlanks ha)
  refine ⟨ms, marksFrom (t.foldl Lexical.step (.code 0)) (lastByte none t) b, ?_, hspan.bytes, by simp,
    hquiet (by simp) (by simp), fun m hm => ?_⟩
  · rw [marks, append_assoc, hms, marksFrom_previous hlast (Option.some_ne_none bar).symm, marksFrom_append hhead]
    rfl
  · rw [Bool.eq_false_iff]
    intro hpipe
    have hmem : m.byte ∈ b := by
      rw [← map_byte_marksFrom _ _ b]
      exact mem_map_of_mem hm
    exact bar_not_mem_of_isBlanks hb (byte_eq_bar hm hpipe ▸ hmem)

/-! ## Cuts -/

theorem exists_splitMarks (cutAt : Mark → Bool) (ms : List Mark) : ∃ p ps, splitMarks cutAt ms = p :: ps := by
  cases ms with
  | nil => exact ⟨[], [], rfl⟩
  | cons m ms =>
    rw [splitMarks]
    split
    · exact ⟨_, _, rfl⟩
    · split <;> exact ⟨_, _, rfl⟩

theorem exists_splitMarks_append_left (hms : ∀ m ∈ ms, cutAt m = false) (ns : List Mark) :
    ∃ p ps, splitMarks cutAt ns = p :: ps ∧ splitMarks cutAt (ms ++ ns) = (ms.map Mark.byte ++ p) :: ps := by
  induction ms with
  | nil =>
    obtain ⟨p, ps, hns⟩ := exists_splitMarks cutAt ns
    exact ⟨p, ps, hns, hns⟩
  | cons m ms ih =>
    obtain ⟨p, ps, hns, hsplit⟩ := ih fun m' hm' => hms m' (mem_cons_of_mem _ hm')
    exact ⟨p, ps, hns, by simp [splitMarks, hms m mem_cons_self, hsplit]⟩

theorem splitMarks_of_forall (hms : ∀ m ∈ ms, cutAt m = false) : splitMarks cutAt ms = [ms.map Mark.byte] := by
  obtain ⟨p, ps, hnil, hsplit⟩ := exists_splitMarks_append_left hms []
  obtain ⟨rfl, rfl⟩ : [] = p ∧ [] = ps := by simpa [splitMarks] using hnil
  simpa using hsplit

theorem splitMarks_append_cons (hms : ∀ m ∈ ms, cutAt m = false) (hm : cutAt m = true)
    (ns : List Mark) : splitMarks cutAt (ms ++ m :: ns) = ms.map Mark.byte :: splitMarks cutAt ns := by
  obtain ⟨p, ps, hcons, hsplit⟩ := exists_splitMarks_append_left hms (m :: ns)
  obtain ⟨rfl, rfl⟩ : [] = p ∧ splitMarks cutAt ns = ps := by simpa [splitMarks, hm] using hcons
  simpa using hsplit

theorem exists_splitMarks_append_right (ms : List Mark) (hns : ∀ m ∈ ns, cutAt m = false) :
    ∃ ps p, splitMarks cutAt ms = ps ++ [p] ∧ splitMarks cutAt (ms ++ ns) = ps ++ [p ++ ns.map Mark.byte] := by
  induction ms with
  | nil => exact ⟨[], [], rfl, by simpa using splitMarks_of_forall hns⟩
  | cons m ms ih =>
    obtain ⟨ps, p, hms, hsplit⟩ := ih
    by_cases hm : cutAt m = true
    · exact ⟨[] :: ps, p, by simp [splitMarks, hm, hms], by simp [splitMarks, hm, hsplit]⟩
    · cases ps with
      | nil => exact ⟨[], m.byte :: p, by simp [splitMarks, hm, hms], by simp [splitMarks, hm, hsplit]⟩
      | cons q ps =>
        exact ⟨(m.byte :: q) :: ps, p, by simp [splitMarks, hm, hms], by simp [splitMarks, hm, hsplit]⟩

/-! ## Blanks at the ends -/

theorem strips_splitMarks (hcut : ∀ m : Mark, m.isPipe = false → m.byte ∈ blanks.flatten → cutAt m = false)
    (h : Strips t u) : Forall₂ Strips (splitMarks cutAt (marks t)) (splitMarks cutAt (marks u)) := by
  obtain ⟨a, b, ha, hb, rfl⟩ := h
  obtain ⟨ms, ns, hmarks, rfl, rfl, hms, hns⟩ := exists_marks_strips ha hb u
  have hcut' : ∀ {ls : List Mark}, IsBlanks (ls.map Mark.byte) → (∀ m ∈ ls, m.isPipe = false) →
      ∀ m ∈ ls, cutAt m = false := fun hblanks hquiet m hm =>
    hcut m (hquiet m hm) (hblanks.mem_flatten (mem_map_of_mem hm))
  obtain ⟨p, ps, hleft, hsplit⟩ := exists_splitMarks_append_left (hcut' ha hms) (marks u ++ ns)
  obtain ⟨qs, q, hu, hright⟩ := exists_splitMarks_append_right (marks u) (hcut' hb hns)
  rw [hmarks, hsplit, hu]
  rw [hright] at hleft
  -- the blanks in front go to the first part, those behind to the last, which may be the same
  rcases qs with - | ⟨q', qs⟩
  · obtain ⟨rfl, rfl⟩ : q ++ ns.map Mark.byte = p ∧ [] = ps := by simpa using hleft
    exact .cons ⟨_, _, ha, hb, by simp⟩ .nil
  · obtain ⟨rfl, rfl⟩ : q' = p ∧ qs ++ [q ++ ns.map Mark.byte] = ps := by simpa using hleft
    refine .cons ⟨_, [], ha, madeOf_nil, by simp⟩ ?_
    refine rel_append (forall₂_same.2 fun v _ => Strips.refl v) ?_
    exact .cons ⟨[], _, madeOf_nil, hb, by simp⟩ .nil

theorem strips_splitTop (hc : c ∉ blanks.flatten) (h : Strips t u) :
    Forall₂ Strips (splitTop c t) (splitTop c u) := by
  refine strips_splitMarks (fun m _ hm => ?_) h
  have hne : m.byte ≠ c := fun heq => hc (heq ▸ hm)
  simp [hne]

theorem strips_splitPipes (h : Strips t u) : Forall₂ Strips (splitPipes t) (splitPipes u) :=
  strips_splitMarks (fun m hm _ => by simp [hm]) h

variable {provider : Text} {reveal : Text → Text}

/-- A pipe is read up to blanks at the ends of its name and its arguments. -/
theorem Chain.pipe_strips (chain : Chain) (h : Strips t u) :
    chain.pipe provider reveal t = chain.pipe provider reveal u := by
  have hsegs := strips_splitTop (by decide +kernel : byte ':' ∉ blanks.flatten) h
  unfold Chain.pipe
  generalize splitTop (byte ':') t = xs at hsegs ⊢
  generalize splitTop (byte ':') u = ys at hsegs ⊢
  cases hsegs with
  | nil => rfl
  | cons hx hrest =>
    rename_i x y xs ys
    have hargs : xs.map (fun a => reveal (trim a)) = ys.map (fun a => reveal (trim a)) := by
      simpa [Function.comp_def] using congrArg (map reveal) (map_trim_eq hrest)
    simp only [headD_cons, tail_cons, hx.trim_eq, hargs]
    rfl

theorem foldl_pipe_strips (h : Forall₂ Strips parts parts') (chain : Chain) :
    parts.foldl (.pipe provider reveal) chain = parts'.foldl (.pipe provider reveal) chain := by
  induction h generalizing chain with
  | nil => rfl
  | cons hx _ ih =>
    rw [foldl_cons, foldl_cons, Chain.pipe_strips chain hx]
    exact ih _

/-- A chain is read from the parts its text is cut into, whatever blanks there are around them. -/
theorem readChain_of_parts (h : Forall₂ Strips (splitPipes t) (x :: parts)) : readChain provider reveal t =
      parts.foldl (.pipe provider reveal) ⟨reveal (trim x), reveal (trim x), []⟩ := by
  unfold readChain
  generalize splitPipes t = cut at h
  cases h with
  | cons hx hrest =>
    simp only [headD_cons, tail_cons, hx.trim_eq]
    exact foldl_pipe_strips hrest _

theorem readChain_strips (h : Strips t u) : readChain provider reveal t = readChain provider reveal u := by
  have hparts := strips_splitPipes h
  obtain ⟨x, parts, hu⟩ : ∃ x parts, splitPipes u = x :: parts := exists_splitMarks _ _
  have hself : Forall₂ Strips (splitPipes u) (x :: parts) := by
    rw [hu]
    exact forall₂_same.2 fun v _ => .refl v
  rw [hu] at hparts
  rw [readChain_of_parts hparts, readChain_of_parts hself]

/-! ## Texts put together -/

theorem Spans.not_cut (h : Spans outside 0 t ms) (hc : isOrdinary c = true) (hbar : c ≠ bar) (hout : c ∈ outside) :
    ∀ m ∈ ms, (decide (m.depth? = some 0) && decide (m.byte = c)) = false := by
  intro m hm
  rw [Bool.and_eq_false_iff, decide_eq_false_iff_not, decide_eq_false_iff_not, ← not_and_or]
  rintro ⟨hdepth, rfl⟩
  exact hbar (h.outside m hm hdepth hc hout)

theorem splitTop_flatMap (hc : isOrdinary c = true) (hbar : c ≠ bar) (hout : c ∈ outside)
    (hx : Nests inside outside x) (hxs : ∀ y ∈ xs, Nests inside outside y) :
    splitTop c (x ++ xs.flatMap (c :: ·)) = x :: xs := by
  unfold splitTop marks
  generalize (none : Option UInt8) = previous
  induction xs generalizing x previous with
  | nil =>
    obtain ⟨ms, hms, hspan, -⟩ := hx.marksFrom 0 previous []
    rw [flatMap_nil, hms, marksFrom, append_nil, splitMarks_of_forall (hspan.not_cut hc hbar hout), hspan.bytes]
  | cons y ys ih =>
    obtain ⟨ms, hms, hspan, -⟩ := hx.marksFrom 0 previous (c :: (y ++ ys.flatMap (c :: ·)))
    rw [flatMap_cons, cons_append, hms, marksFrom_ordinary hc,
      splitMarks_append_cons (hspan.not_cut hc hbar hout) (by simp), hspan.bytes]
    rw [ih (hxs y mem_cons_self) (fun z hz => hxs z (mem_cons_of_mem _ hz))]

theorem strips_splitMarks_flatMap (hin : bar ∈ inside) (hout : bar ∈ outside)
    (hspace : space ∉ outside) (hx : Nests inside outside x') (hxs : ∀ y ∈ xs, Nests inside outside y)
    (hstrips : Strips x' x) (previous : Option UInt8) :
    Forall₂ Strips (splitMarks (fun m => m.depth? = some 0 && m.isPipe)
      (marksFrom (.code 0) previous (x' ++ xs.flatMap ([space, bar, space] ++ ·)))) (x :: xs) := by
  have hquiet : ∀ {ms : List Mark}, (∀ m ∈ ms, m.isPipe = false) →
      ∀ m ∈ ms, (decide (m.depth? = some 0) && m.isPipe) = false := fun h m hm => by simp [h m hm]
  have hpad : Nests inside outside [space] := .byte (by decide) hspace .nil
  have hne : space ≠ bar := by decide
  induction xs generalizing x x' previous with
  | nil =>
    obtain ⟨ms, hms, hspan, hpipe⟩ := hx.marksFrom 0 previous []
    rw [flatMap_nil, hms, marksFrom, append_nil, splitMarks_of_forall (hquiet (hpipe hin hout)), hspan.bytes]
    exact .cons hstrips .nil
  | cons y ys ih =>
    obtain ⟨ms, hms, hspan, hpipe⟩ := (hx.append hpad).marksFrom 0 previous
      (bar :: (([space] ++ y) ++ ys.flatMap ([space, bar, space] ++ ·)))
    have htext : x' ++ (y :: ys).flatMap ([space, bar, space] ++ ·) = (x' ++ [space]) ++
        bar :: (([space] ++ y) ++ ys.flatMap ([space, bar, space] ++ ·)) := by
      simp
    rw [htext, hms, marksFrom_ordinary (by decide),
      splitMarks_append_cons (hquiet (hpipe hin hout)) (by simp [lastByte, hne]), hspan.bytes]
    have hleft : Strips (x' ++ [space]) x' := ⟨[], [space], madeOf_nil, isBlanks_space, by simp⟩
    have hright : Strips ([space] ++ y) y := ⟨[space], [], isBlanks_space, madeOf_nil, by simp⟩
    exact .cons (hleft.trans hstrips) (ih (hpad.append (hxs y mem_cons_self))
      (fun z hz => hxs z (mem_cons_of_mem _ hz)) hright (some bar))

theorem readChain_flatMap (hin : bar ∈ inside) (hout : bar ∈ outside) (hspace : space ∉ outside)
    (hx : Nests inside outside x) (hxs : ∀ y ∈ xs, Nests inside outside y) :
    readChain provider reveal (x ++ xs.flatMap ([space, bar, space] ++ ·)) =
      xs.foldl (.pipe provider reveal) ⟨reveal (trim x), reveal (trim x), []⟩ :=
  readChain_of_parts (strips_splitMarks_flatMap hin hout hspace hx hxs (.refl x) none)

end FlutterLayout.Pipe
