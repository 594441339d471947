import FlutterLayout.Proofs.Layout.Contents
import FlutterLayout.Proofs.Pipe.Erasure

/-!
# Spreading — what is emitted as several items stands in lists

A sequence is emitted as several items, so it may not stand where one expression is asked for: wrapped by a
widget, or as the one widget of a property.  While a tree is built the rule has exceptions, reactive builders
that still stand around a sequence and are about to be moved.
-/

namespace FlutterLayout

open List FlutterLayout.Tree

def PropertyValue.single? : PropertyValue → Option WidgetId
  | widget id => some id
  | fragment id => some id
  | _ => none

namespace Layout

variable {bar bar' exempt exempt' : WidgetId → Prop} {t t' t'' : Tree Deferral} {w w' : Widget} {p : Property}
  {m n : Int} {u x id top middle bottom current current' outer : WidgetId} {bs bs' : List WidgetId}
  {f : Widget → Widget} {s : Tower}

/-! ## The rule -/

/-- The widget is emitted as several items, or is a conditional node of which that is not known. -/
def Spread (bar : WidgetId → Prop) (t : Tree Deferral) (x : WidgetId) : Prop :=
  bar x ∨ t.isSequence x = true

def Fine (bar : WidgetId → Prop) (t : Tree Deferral) (p : Property) : Prop :=
  ∀ i ∈ p.value.single?, i ≤ t.size ∧ ¬ Spread bar t i

/-- No spread widget is wrapped, but by exempt widgets, or held alone by a property. -/
structure Placed (bar exempt : WidgetId → Prop) (t : Tree Deferral) : Prop where
  barred : ∀ {x : WidgetId}, bar x → 0 < x ∧ x ≤ t.size
  builder : ∀ {u : WidgetId} {w : Widget}, t.get? u = some w → w.generator = Widget.reactiveGenerator →
    w.isSequence = false
  born : ∀ {u : WidgetId} {w : Widget}, t.get? u = some w → w.wrapped ≤ t.size
  wrapped : ∀ {u : WidgetId} {w : Widget}, t.get? u = some w → Spread bar t w.wrapped → exempt u
  fine : ∀ {u : WidgetId} {w : Widget}, t.get? u = some w → ∀ p ∈ w.properties, Fine bar t p

theorem isSequence_of_get? (hw : t.get? x = some w) : t.isSequence x = w.isSequence := by
  unfold isSequence
  rw [hw]

theorem isSequence_of_get?_none (hw : t.get? x = none) : t.isSequence x = false := by
  unfold isSequence
  rw [hw]

theorem fine_of_single? (h : p.value.single? = none) : Fine bar t p := by
  intro i hi
  rw [h] at hi
  cases hi

namespace Placed

theorem mono (h : Placed bar exempt t) (hsub : ∀ u, exempt u → exempt' u) : Placed bar exempt' t :=
  ⟨h.barred, h.builder, h.born, fun hw hspread => hsub _ (h.wrapped hw hspread), h.fine⟩

theorem not_spread_none (h : Placed bar exempt t) : ¬ Spread bar t .none := by
  rintro (hbar | hseq)
  · exact Int.lt_irrefl _ (h.barred hbar).1
  · cases hseq

theorem not_spread_builder (h : Placed bar exempt t) (hwraps : Wraps t u x) (hbar : ¬ bar u) : ¬ Spread bar t u := by
  obtain ⟨w, hw, hgen, -⟩ := hwraps
  rintro (hu | hseq)
  · exact hbar hu
  · rw [isSequence_of_get? hw, h.builder hw hgen] at hseq
    cases hseq

end Placed

/-! ## Frames -/

structure Frames (n : Int) (t t' : Tree Deferral) : Prop where
  size : t.size ≤ t'.size
  old : ∀ {x : WidgetId} {w : Widget}, x ≤ n → t.get? x = some w →
    ∃ w', t'.get? x = some w' ∧ w'.generator = w.generator ∧ w'.wrapped = w.wrapped ∧ w'.isSequence = w.isSequence

/-- The change keeps what a widget is and what it wraps. -/
def Steady (f : Widget → Widget) : Prop :=
  ∀ w, (f w).generator = w.generator ∧ (f w).wrapped = w.wrapped ∧ (f w).isSequence = w.isSequence

namespace Frames

theorem refl (t : Tree Deferral) : Frames n t t :=
  ⟨Nat.le_refl _, fun _ hw => ⟨_, hw, rfl, rfl, rfl⟩⟩

theorem mono (h : Frames n t t') (hmn : m ≤ n) : Frames m t t' :=
  ⟨h.size, fun hx => h.old (Int.le_trans hx hmn)⟩

theorem trans (h : Frames n t t') (h' : Frames n t' t'') : Frames n t t'' where
  size := Nat.le_trans h.size h'.size
  old hx hw := by
    obtain ⟨w', hw', hgen, hwrap, hseq⟩ := h.old hx hw
    obtain ⟨w'', hw'', hgen', hwrap', hseq'⟩ := h'.old hx hw'
    exact ⟨w'', hw'', hgen'.trans hgen, hwrap'.trans hwrap, hseq'.trans hseq⟩

theorem append (h : Frames t.size t t') (h' : Frames t'.size t' t'') : Frames t.size t t'' :=
  h.trans (h'.mono (Int.ofNat_le.2 h.size))

theorem isSequence_eq (h : Frames n t t') (hx : x ≤ n) (hsize : x ≤ t.size) : t'.isSequence x = t.isSequence x := by
  by_cases hpos : 0 < x
  · obtain ⟨w, hw⟩ := exists_get? hpos hsize
    obtain ⟨w', hw', -, -, hseq⟩ := h.old hx hw
    rw [isSequence_of_get? hw, isSequence_of_get? hw', hseq]
  · have hnone : ∀ t : Tree Deferral, t.get? x = none := by
      intro t
      by_contra hne
      obtain ⟨w, hw⟩ := Option.ne_none_iff_exists'.1 hne
      exact hpos (pos_of_get? hw)
    rw [isSequence_of_get?_none (hnone t), isSequence_of_get?_none (hnone t')]

theorem spread_iff (h : Frames n t t') (hx : x ≤ n) (hsize : x ≤ t.size) : Spread bar t' x ↔ Spread bar t x := by
  unfold Spread
  rw [h.isSequence_eq hx hsize]

theorem add (w : Widget) : Frames n t (t.add w).2 :=
  ⟨by simp, fun _ hv => ⟨_, get?_add_of_get? hv, rfl, rfl, rfl⟩⟩

theorem modify (hf : Steady f) : Frames n t (t.modify x f) where
  size := by simp
  old {y w} _ hw := by
    obtain ⟨v, hv, ⟨-, rfl⟩ | rfl⟩ := exists_get?_modify x f hw
    · exact ⟨f w, hv, hf w⟩
    · exact ⟨v, hv, rfl, rfl, rfl⟩

theorem modify_newer (hx : n < x) : Frames n t (t.modify x f) where
  size := by simp
  old {y w} hy hw := by
    have hne : y ≠ x := by
      rintro rfl
      exact Int.not_lt.2 hy hx
    exact ⟨w, by rw [get?_modify_of_ne f hne, hw], rfl, rfl, rfl⟩

end Frames

/-! ## Steps -/

/-- The rule for one widget. -/
structure Seated (bar exempt : WidgetId → Prop) (t : Tree Deferral) (u : WidgetId) (w : Widget) : Prop where
  builder : w.generator = Widget.reactiveGenerator → w.isSequence = false
  born : w.wrapped ≤ t.size
  wrapped : Spread bar t w.wrapped → exempt u
  fine : ∀ p ∈ w.properties, Fine bar t p

/-- Nothing becomes spread from one tree to the other. -/
structure Calms (bar : WidgetId → Prop) (t : Tree Deferral) (bar' : WidgetId → Prop) (t' : Tree Deferral) : Prop where
  size : t.size ≤ t'.size
  spread : ∀ {x : WidgetId}, x ≤ t.size → Spread bar' t' x → Spread bar t x

theorem Frames.calms (h : Frames t.size t t') : Calms bar t bar t' :=
  ⟨h.size, fun hx => (h.spread_iff hx hx).1⟩

theorem Calms.fine (h : Calms bar t bar' t') (hp : Fine bar t p) : Fine bar' t' p := by
  intro i hi
  obtain ⟨hle, hnot⟩ := hp i hi
  refine ⟨?_, fun hspread => hnot (h.spread hle hspread)⟩
  have hsize := h.size
  lia

namespace Seated

theorem calm (h : Seated bar exempt t u w) (hcalms : Calms bar t bar' t') : Seated bar' exempt t' u w where
  builder := h.builder
  born := by
    have hborn := h.born
    have hsize := hcalms.size
    lia
  wrapped hspread := h.wrapped (hcalms.spread h.born hspread)
  fine p hp := hcalms.fine (h.fine p hp)

theorem of_nil (hgen : w.generator ≠ Widget.reactiveGenerator) (hwrap : w.wrapped = .none)
    (hnone : ¬ Spread bar t .none) (hprops : w.properties = []) : Seated bar exempt t u w where
  builder heq := absurd heq hgen
  born := by
    rw [hwrap]
    change (0 : Int) ≤ t.size
    lia
  wrapped hspread := absurd (hwrap ▸ hspread) hnone
  fine := by simp [hprops]

end Seated

namespace Placed

section

variable (h : Placed bar exempt t)
include h

theorem seated (hw : t.get? u = some w) : Seated bar exempt t u w :=
  ⟨h.builder hw, h.born hw, h.wrapped hw, h.fine hw⟩

/-- A tree is placed if what changed in it is, and nothing became spread. -/
theorem change_of_seated (hcalms : Calms bar t bar' t') (hbarred : ∀ {x : WidgetId}, bar' x → 0 < x ∧ x ≤ t'.size)
    (hseated : ∀ {u : WidgetId} {v : Widget}, t'.get? u = some v → t.get? u = some v ∨ Seated bar' exempt t' u v) :
    Placed bar' exempt t' := by
  have hall : ∀ {u : WidgetId} {v : Widget}, t'.get? u = some v → Seated bar' exempt t' u v :=
    fun hv => (hseated hv).elim (fun hold => (h.seated hold).calm hcalms) id
  exact ⟨hbarred, fun hv => (hall hv).builder, fun hv => (hall hv).born, fun hv => (hall hv).wrapped,
    fun hv => (hall hv).fine⟩

theorem barred_of_size (hsize : t.size ≤ t'.size) (hx : bar x) : 0 < x ∧ x ≤ t'.size := by
  obtain ⟨hpos, hle⟩ := h.barred hx
  lia

theorem add (hbuilder : w.generator = Widget.reactiveGenerator → w.isSequence = false)
    (hborn : w.wrapped ≤ t.size) (hwrap : Spread bar t w.wrapped → exempt (t.add w).1)
    (hfine : ∀ p ∈ w.properties, Fine bar t p) : Placed bar exempt (t.add w).2 := by
  have hframes : Frames t.size t (t.add w).2 := .add w
  refine h.change_of_seated hframes.calms (h.barred_of_size hframes.size) fun hv => ?_
  refine (get?_add_cases hv).imp_right ?_
  rintro ⟨rfl, rfl⟩
  exact .calm ⟨hbuilder, hborn, hwrap, hfine⟩ hframes.calms

theorem modify (hf : Steady f)
    (hfine : ∀ w, t.get? x = some w → ∀ p ∈ (f w).properties, Fine bar t p) : Placed bar exempt (t.modify x f) := by
  have hframes : Frames t.size t (t.modify x f) := .modify hf
  refine h.change_of_seated hframes.calms (h.barred_of_size hframes.size) fun hv => ?_
  obtain ⟨w, hw, ⟨rfl, rfl⟩ | rfl⟩ := get?_modify_cases hv
  · obtain ⟨hgen, hwrap, hseq⟩ := hf w
    have hold := h.seated hw
    refine .inr (.calm ⟨?_, ?_, ?_, hfine w hw⟩ hframes.calms)
    · rw [hgen, hseq]
      exact hold.builder
    · rw [hwrap]
      exact hold.born
    · rw [hwrap]
      exact hold.wrapped
  · exact .inl hw

theorem enter (hgen : w.generator ≠ Widget.reactiveGenerator)
    (hwrap : w.wrapped = .none) (hprops : w.properties = []) :
    Placed (fun x => bar x ∨ x = (t.add w).1) exempt (t.add w).2 := by
  have hframes : Frames t.size t (t.add w).2 := .add w
  -- Nothing that was there refers to the new node.
  have hcalms : Calms bar t (fun x => bar x ∨ x = (t.add w).1) (t.add w).2 := by
    refine ⟨hframes.size, fun {x} hx => ?_⟩
    rintro ((hbar | rfl) | hseq)
    · exact .inl hbar
    · rw [add_fst] at hx
      lia
    · exact (hframes.spread_iff hx hx).1 (.inr hseq)
  refine h.change_of_seated hcalms ?_ fun hv => (get?_add_cases hv).imp_right ?_
  · rintro x (hx | rfl)
    · exact h.barred_of_size hframes.size hx
    · rw [add_fst, size_add]
      lia
  · rintro ⟨rfl, rfl⟩
    exact (Seated.of_nil hgen hwrap h.not_spread_none hprops).calm hcalms

end

theorem leave (h : Placed bar' exempt t) (hc : bar' c) (hsub : ∀ x, bar x → bar' x)
    (hgen : ∀ w, t.get? c = some w → w.generator ≠ Widget.reactiveGenerator) :
    Placed bar exempt (t.modify c fun w => { w with isSequence := flag }) := by
  have hcalms : Calms bar' t bar (t.modify c fun w => { w with isSequence := flag }) := by
    refine ⟨Nat.le_of_eq (size_modify _).symm, fun {x} _ => ?_⟩
    rintro (hbar | hseq)
    · exact .inl (hsub x hbar)
    · by_cases heq : x = c
      · exact .inl (heq ▸ hc)
      · refine .inr ?_
        unfold isSequence at hseq ⊢
        rwa [get?_modify_of_ne _ heq] at hseq
  refine h.change_of_seated hcalms (fun hx => h.barred_of_size hcalms.size (hsub _ hx)) fun hv => ?_
  obtain ⟨w, hw, ⟨rfl, rfl⟩ | rfl⟩ := get?_modify_cases hv
  · have hold := (h.seated hw).calm hcalms
    exact .inr ⟨fun heq => absurd heq (hgen w hw), hold.born, hold.wrapped, hold.fine⟩
  · exact .inl hw

end Placed

/-! ## Stacks -/

/-- The builders that stand on top of each other, from the first one down to a widget. -/
inductive Stacked (t : Tree Deferral) : List WidgetId → (top bottom : WidgetId) → Prop where
  | nil {x : WidgetId} : Stacked t [] x x
  | cons {u v bottom : WidgetId} {bs : List WidgetId} (hwraps : Wraps t u v) (h : Stacked t bs v bottom) :
      Stacked t (u :: bs) u bottom

namespace Stacked

theorem append (h : Stacked t bs' top middle) (h' : Stacked t bs middle bottom) : Stacked t (bs' ++ bs) top bottom := by
  induction h with
  | nil => exact h'
  | cons hwraps _ ih => exact .cons hwraps (ih h')

section

variable (h : Stacked t bs top bottom)
include h

theorem exists_wraps : ∀ x ∈ bs, ∃ v, Wraps t x v := by
  induction h with
  | nil => simp
  | cons hwraps _ ih => exact forall_mem_cons.2 ⟨⟨_, hwraps⟩, ih⟩

/-- The first builder is the top; without builders the top is what they stand on. -/
theorem top_eq : top ∈ bs ∨ top = bottom := by
  cases h with
  | nil => exact .inr rfl
  | cons _ _ => exact .inl mem_cons_self

theorem wraps_eq (hu : u ∈ bs) (hwraps : Wraps t u v) : v ∈ bs ∨ v = bottom := by
  induction h with
  | nil => cases hu
  | cons hfirst hrest ih =>
    rcases mem_cons.1 hu with rfl | hu
    · obtain ⟨w, hw, -, rfl⟩ := hwraps
      obtain ⟨w', hw', -, rfl⟩ := hfirst
      rw [hw] at hw'
      cases hw'
      exact hrest.top_eq.imp_left (mem_cons_of_mem _)
    · exact (ih hu).imp_left (mem_cons_of_mem _)

theorem of_get? (hsame : ∀ x ∈ bs, t'.get? x = t.get? x) : Stacked t' bs top bottom := by
  induction h with
  | nil => exact .nil
  | cons hwraps _ ih =>
    rw [forall_mem_cons] at hsame
    obtain ⟨w, hw, hwrap⟩ := hwraps
    exact .cons ⟨w, hsame.1.trans hw, hwrap⟩ (ih hsame.2)

theorem frame (hframes : Frames n t t') (hbs : ∀ x ∈ bs, x ≤ n) : Stacked t' bs top bottom := by
  induction h with
  | nil => exact .nil
  | cons hwraps _ ih =>
    rw [forall_mem_cons] at hbs
    obtain ⟨w, hw, hgen, hwrap⟩ := hwraps
    obtain ⟨w', hw', hgen', hwrap', -⟩ := hframes.old hbs.1 hw
    exact .cons ⟨w', hw', hgen'.trans hgen, hwrap'.trans hwrap⟩ (ih hbs.2)

theorem le_size : ∀ x ∈ bs, x ≤ t.size := by
  intro x hx
  obtain ⟨v, w, hw, -⟩ := h.exists_wraps x hx
  exact le_size_of_get? hw

theorem top_le (hbottom : bottom ≤ t.size) : top ≤ t.size := by
  rcases h.top_eq with hmem | rfl
  · exact h.le_size top hmem
  · exact hbottom

end

end Stacked

structure Pile (n : Int) (t : Tree Deferral) (bs : List WidgetId) (top bottom : WidgetId) : Prop where
  stacked : Stacked t bs top bottom
  nodup : bs.Nodup
  fresh : ∀ x ∈ bs, n < x

theorem Pile.nil : Pile n t [] x x :=
  ⟨.nil, nodup_nil, by simp⟩

theorem Pile.mono (h : Pile n t bs top bottom) (hmn : m ≤ n) : Pile m t bs top bottom :=
  ⟨h.stacked, h.nodup, fun x hx => Int.lt_of_le_of_lt hmn (h.fresh x hx)⟩

theorem Pile.frame (h : Pile n t bs top bottom) (hframes : Frames t.size t t') : Pile n t' bs top bottom :=
  ⟨h.stacked.frame hframes h.stacked.le_size, h.nodup, h.fresh⟩

theorem Pile.append (h : Pile m t bs' top middle) (h' : Pile n t bs middle bottom) (hnm : n ≤ m)
    (hbs : ∀ x ∈ bs, x ≤ m) : Pile n t (bs' ++ bs) top bottom where
  stacked := h.stacked.append h'.stacked
  nodup := nodup_append'.2 ⟨h.nodup, h'.nodup, fun x hx hx' => Int.not_lt.2 (hbs x hx') (h.fresh x hx)⟩
  fresh x hx := by
    rcases mem_append.1 hx with hx | hx
    · exact Int.lt_of_le_of_lt hnm (h.fresh x hx)
    · exact h'.fresh x hx

theorem Placed.settle (h : Placed bar (fun u => exempt u ∨ u ∈ bs) t) (hstacked : Stacked t bs top bottom)
    (hbar : ∀ x ∈ bs, ¬ bar x) (hbottom : ¬ Spread bar t bottom) : Placed bar exempt t := by
  refine ⟨h.barred, h.builder, h.born, ?_, h.fine⟩
  intro u w hw hspread
  rcases h.wrapped hw hspread with hexempt | hu
  · exact hexempt
  · obtain ⟨v, w', hw', hgen, -⟩ := hstacked.exists_wraps u hu
    rw [hw] at hw'
    cases hw'
    rcases hstacked.wraps_eq hu ⟨w, hw, hgen, rfl⟩ with hv | hv
    · obtain ⟨v', hwraps⟩ := hstacked.exists_wraps _ hv
      exact absurd hspread (h.not_spread_builder hwraps (hbar _ hv))
    · exact absurd (hv ▸ hspread) hbottom

theorem Stacked.not_spread_top (hstacked : Stacked t bs top bottom) (h : Placed bar exempt t)
    (hbar : ∀ x ∈ bs, ¬ bar x) (hbottom : ¬ Spread bar t bottom) : ¬ Spread bar t top := by
  rcases hstacked.top_eq with hmem | rfl
  · obtain ⟨v, hwraps⟩ := hstacked.exists_wraps _ hmem
    exact h.not_spread_builder hwraps (hbar _ hmem)
  · exact hbottom

/-! ## Raising -/

structure Raises (bar exempt : WidgetId → Prop) (bs : List WidgetId) (t : Tree Deferral) (current : WidgetId)
    (t' : Tree Deferral) (current' : WidgetId) : Prop where
  frames : Frames t.size t t'
  pile : Pile t.size t' bs current' current
  placed : Placed bar (fun u => exempt u ∨ u ∈ bs) t'

namespace Raises

theorem of_frames (hframes : Frames t.size t t') (h : Placed bar exempt t') :
    Raises bar exempt [] t current t' current :=
  ⟨hframes, .nil, h.mono fun _ => .inl⟩

theorem trans (h : Raises bar exempt bs t current t' middle)
    (h' : Raises bar (fun u => exempt u ∨ u ∈ bs) bs' t' middle t'' current') :
    Raises bar exempt (bs' ++ bs) t current t'' current' where
  frames := h.frames.append h'.frames
  pile := h'.pile.append (h.pile.frame h'.frames) (Int.ofNat_le.2 h.frames.size) h.pile.stacked.le_size
  placed := h'.placed.mono fun u hu => by
    simp only [mem_append]
    tauto

section

variable (h : Raises bar exempt bs t current t' current')
include h

theorem then_frames (hframes : Frames t'.size t' t'')
    (hplaced : Placed bar (fun u => exempt u ∨ u ∈ bs) t'') : Raises bar exempt bs t current t'' current' where
  frames := h.frames.append hframes
  pile := h.pile.frame hframes
  placed := hplaced

theorem current_le (hcur : current ≤ t.size) : current' ≤ t'.size := by
  refine h.pile.stacked.top_le ?_
  have hsize := h.frames.size
  lia

theorem not_bar (hplaced : Placed bar exempt t) : ∀ x ∈ bs, ¬ bar x :=
  fun x hx hbar => Int.not_lt.2 (hplaced.barred hbar).2 (h.pile.fresh x hx)

theorem settle (hplaced : Placed bar exempt t) (hle : current ≤ t.size) (hcur : ¬ Spread bar t current) :
    Placed bar exempt t' := by
  have hbottom : ¬ Spread bar t' current := fun hspread => hcur ((h.frames.spread_iff hle hle).1 hspread)
  exact h.placed.settle h.pile.stacked (h.not_bar hplaced) hbottom

end

end Raises

/-! ## Hoisting -/

def Solid (t : Tree Deferral) (x : WidgetId) : Prop :=
  ∃ w, t.get? x = some w ∧ w.generator ≠ Widget.reactiveGenerator

theorem peelWithin_stacked (h : Stacked t bs top bottom) (hsolid : Solid t bottom)
    (hfuel : bs.length ≤ fuel) : peelWithin t fuel top = (bs, bottom) := by
  induction h generalizing fuel with
  | nil =>
    obtain ⟨w, hw, hgen⟩ := hsolid
    cases fuel with
    | zero => rfl
    | succ fuel => simp [peelWithin, hw, hgen]
  | cons hwraps _ ih =>
    obtain ⟨w, hw, hgen, rfl⟩ := hwraps
    cases fuel with
    | zero => simp at hfuel
    | succ fuel =>
      simp only [length_cons, Nat.add_le_add_iff_right] at hfuel
      simp [peelWithin, hw, hgen, ih hsolid hfuel]

theorem Pile.peel_eq (h : Pile n t bs top bottom) (hsolid : Solid t bottom) : peel t top = (bs, bottom) := by
  refine peelWithin_stacked h.stacked hsolid (length_le_size h.nodup fun x hx => ?_)
  obtain ⟨v, w, hw, -⟩ := h.stacked.exists_wraps x hx
  exact ⟨w, hw⟩

variable {b b' : Build}

theorem restack_stacked (builders : List WidgetId) (hnodup : builders.Nodup)
    (hbuilders : ∀ x ∈ builders, ∃ v, Wraps b.tree x v) (hapart : ∀ x ∈ builders, x ∉ bs)
    (hstacked : Stacked b.tree bs outer bottom) (hrun : (restack builders outer).run b = .ok (r, b')) :
    Stacked b'.tree (builders.reverse ++ bs) r bottom := by
  induction builders generalizing b outer bs with
  | nil =>
    obtain ⟨rfl, rfl⟩ := run_pure hrun
    exact hstacked
  | cons y builders ih =>
    obtain ⟨_, b1, hchange, hrest⟩ := run_bind hrun
    have htree := run_change hchange
    rw [nodup_cons] at hnodup
    rw [forall_mem_cons] at hbuilders hapart
    have hsame : ∀ x, x ≠ y → b1.tree.get? x = b.tree.get? x := by
      intro x hx
      rw [htree]
      exact get?_modify_of_ne _ hx
    have hwraps : Wraps b1.tree y outer := by
      obtain ⟨-, w, hw, hgen, -⟩ := hbuilders.1
      rw [htree]
      exact ⟨{ w with wrapped := outer }, get?_modify_of_get? hw, hgen, rfl⟩
    have hbelow : Stacked b1.tree bs outer bottom := hstacked.of_get? fun x hx => hsame x fun heq => hapart.1 (heq ▸ hx)
    have hothers : ∀ x ∈ builders, ∃ v, Wraps b1.tree x v := by
      intro x hx
      obtain ⟨v, w, hw, hgen, hwrap⟩ := hbuilders.2 x hx
      exact ⟨v, w, by rw [hsame x fun heq => hnodup.1 (heq ▸ hx), hw], hgen, hwrap⟩
    have hapart' : ∀ x ∈ builders, x ∉ y :: bs := by
      intro x hx hmem
      rcases mem_cons.1 hmem with rfl | hmem
      · exact hnodup.1 hx
      · exact hapart.2 x hx hmem
    have hstack := ih hnodup.2 hothers hapart' (.cons hwraps hbelow) hrest
    rwa [reverse_cons, append_assoc, singleton_append]

theorem Restacks.placed (hr : Restacks bs outer t t') (h : Placed bar exempt t)
    (hbuilders : ∀ x ∈ bs, exempt x ∧ ∃ v, Wraps t x v) (houter : outer ≤ t.size) : Placed bar exempt t' := by
  have hsize : t.size ≤ t'.size := Nat.le_of_eq hr.size.symm
  have hmoved : ∀ {u : WidgetId}, u ∈ bs → ∃ w v, t.get? u = some w ∧ t'.get? u = some { w with wrapped := v } ∧
      v ≤ t.size := by
    intro u hu
    obtain ⟨-, -, w, hw, -⟩ := hbuilders u hu
    obtain ⟨v, hv, rfl | hin⟩ := hr.wraps hu hw
    · exact ⟨w, _, hw, hv, houter⟩
    · obtain ⟨-, -, w', hw', -⟩ := hbuilders v hin
      exact ⟨w, v, hw, hv, le_size_of_get? hw'⟩
  have hcalms : Calms bar t bar t' := by
    refine ⟨hsize, fun {x} _ => .imp_right fun hseq => ?_⟩
    by_cases hx : x ∈ bs
    · obtain ⟨w, v, hw, hv, -⟩ := hmoved hx
      rw [isSequence_of_get? hv] at hseq
      rwa [isSequence_of_get? hw]
    · unfold isSequence at hseq ⊢
      rwa [hr.others hx] at hseq
  refine h.change_of_seated hcalms (h.barred_of_size hsize) fun {u v} hv => ?_
  by_cases hu : u ∈ bs
  · obtain ⟨w, y, hw, hy, hle⟩ := hmoved hu
    rw [hv] at hy
    cases hy
    have hold := (h.seated hw).calm hcalms
    exact .inr ⟨hold.builder, by rw [hr.size]; exact hle, fun _ => (hbuilders u hu).1, hold.fine⟩
  · exact .inl ((hr.others hu).symm.trans hv)

theorem Restacks.frames (hr : Restacks bs outer t t') (hfresh : ∀ x ∈ bs, n < x) : Frames n t t' where
  size := Nat.le_of_eq hr.size.symm
  old {x w} hx hw := by
    have hnot : x ∉ bs := fun hmem => Int.not_lt.2 hx (hfresh x hmem)
    exact ⟨w, by rw [hr.others hnot, hw], rfl, rfl, rfl⟩

structure Tower where
  top : WidgetId
  builders : List WidgetId
  bottom : WidgetId

structure Tower.Stands (n : Int) (t : Tree Deferral) (s : Tower) : Prop where
  pile : Pile n t s.builders s.top s.bottom
  fresh : n < s.bottom
  solid : Solid t s.bottom

theorem Tower.Stands.top_fresh (h : s.Stands n t) : n < s.top ∧ s.top ≤ t.size := by
  obtain ⟨w, hw, -⟩ := h.solid
  refine ⟨?_, h.pile.stacked.top_le (le_size_of_get? hw)⟩
  rcases h.pile.stacked.top_eq with hmem | heq
  · exact h.pile.fresh _ hmem
  · rw [heq]
    exact h.fresh

theorem Solid.not_mem (h : Solid t x) (hstacked : Stacked t bs top bottom) : x ∉ bs := by
  intro hmem
  obtain ⟨w, hw, hgen⟩ := h
  obtain ⟨v, w', hw', hgen', -⟩ := hstacked.exists_wraps x hmem
  rw [hw] at hw'
  cases hw'
  exact hgen hgen'

theorem Tower.Stands.of_get? (h : s.Stands n t) (hstacked : Stacked t bs top bottom) (hapart : ∀ x ∈ s.builders, x ∉ bs)
    (hsame : ∀ x, x ∉ bs → t'.get? x = t.get? x) : s.Stands n t' := by
  have hbottom := h.solid.not_mem hstacked
  obtain ⟨w, hw, hgen⟩ := h.solid
  exact ⟨⟨h.pile.stacked.of_get? fun x hx => hsame x (hapart x hx), h.pile.nodup, h.pile.fresh⟩, h.fresh,
    ⟨w, by rw [hsame _ hbottom, hw], hgen⟩⟩

/-- One tower of a run is hoisted: its builders are moved if it stands on a sequence, and need no exemption
if it does not. -/
theorem hoist_raises (hs : s.Stands n b.tree) (hpile : Pile n b.tree bs outer base)
    (hbase : base ≤ b.tree.size) (hapart : ∀ x ∈ s.builders, x ∉ bs) (hbar : ∀ x, bar x → x ≤ n)
    (h : Placed bar (fun u => (exempt u ∨ u ∈ bs) ∨ u ∈ s.builders) b.tree)
    (hrun : (hoist s.top outer).run b = .ok ((id', outer'), b')) :
    ∃ bs', Pile n b'.tree bs' outer' base ∧ Placed bar (fun u => exempt u ∨ u ∈ bs') b'.tree ∧
      bs' ⊆ s.builders ++ bs ∧ (∀ x, x ∉ s.builders → b'.tree.get? x = b.tree.get? x) ∧
      Frames n b.tree b'.tree ∧ b'.tree.size = b.tree.size ∧ n < id' ∧ id' ≤ b'.tree.size := by
  have hcases := hoist_cases hrun
  rw [hs.pile.peel_eq hs.solid] at hcases
  have hfresh : ∀ x ∈ s.builders, ¬ bar x := fun x hx hb => Int.not_lt.2 (hbar x hb) (hs.pile.fresh x hx)
  obtain ⟨w, hw, -⟩ := hs.solid
  rcases hcases with ⟨-, rfl, hstack⟩ | ⟨hsequence, rfl, rfl, rfl⟩
  · obtain ⟨hrestacks, -⟩ := restack_restacks _ hstack
    have hmem : ∀ {x : WidgetId}, x ∈ s.builders.reverse ↔ x ∈ s.builders := mem_reverse
    have hwraps : ∀ x ∈ s.builders.reverse, ∃ v, Wraps b.tree x v :=
      fun x hx => hs.pile.stacked.exists_wraps x (hmem.1 hx)
    have hstacked := restack_stacked _ (nodup_reverse.2 hs.pile.nodup) hwraps
      (fun x hx => hapart x (hmem.1 hx)) hpile.stacked hstack
    rw [reverse_reverse] at hstacked
    refine ⟨s.builders ++ bs, ⟨hstacked, ?_, ?_⟩, ?_, .refl _, ?_, ?_, hrestacks.size, hs.fresh, ?_⟩
    · exact nodup_append'.2 ⟨hs.pile.nodup, hpile.nodup, hapart⟩
    · exact fun x hx => (mem_append.1 hx).elim (hs.pile.fresh x) (hpile.fresh x)
    · refine (hrestacks.placed h (fun x hx => ⟨.inr (hmem.1 hx), hwraps x hx⟩)
        (hpile.stacked.top_le hbase)).mono fun u hu => ?_
      simp only [mem_append]
      tauto
    · exact fun x hx => hrestacks.others fun hx' => hx (hmem.1 hx')
    · exact hrestacks.frames fun x hx => hs.pile.fresh x (hmem.1 hx)
    · rw [hrestacks.size]
      exact le_size_of_get? hw
  · have hbottom : ¬ Spread bar b'.tree s.bottom := by
      rintro (hb | hseq)
      · exact Int.not_lt.2 (hbar _ hb) hs.fresh
      · exact Bool.eq_false_iff.1 hsequence hseq
    exact ⟨bs, hpile, h.settle hs.pile.stacked hfresh hbottom, subset_append_right _ _, fun _ _ => rfl,
      .refl _, rfl, hs.top_fresh⟩

theorem hoistAll_raises (towers : List Tower)
    (htowers : ∀ s ∈ towers, s.Stands n b.tree) (hpile : Pile n b.tree bs outer base) (hbase : base ≤ b.tree.size)
    (hapart : (bs :: towers.map Tower.builders).Pairwise Disjoint) (hbar : ∀ x, bar x → x ≤ n)
    (h : Placed bar (fun u => exempt u ∨ u ∈ bs ∨ ∃ s ∈ towers, u ∈ s.builders) b.tree)
    (hrun : (hoistAll (towers.map Tower.top) outer).run b = .ok ((ids, outer'), b')) :
    ∃ bs', Pile n b'.tree bs' outer' base ∧ Placed bar (fun u => exempt u ∨ u ∈ bs') b'.tree ∧
      Frames n b.tree b'.tree ∧ ∀ i ∈ ids, n < i ∧ i ≤ b'.tree.size := by
  induction towers generalizing b outer bs ids with
  | nil =>
    obtain ⟨⟨⟩, rfl⟩ := run_pure hrun
    exact ⟨bs, hpile, h.mono (by simp), .refl _, by simp⟩
  | cons s towers ih =>
    obtain ⟨⟨id, outer1⟩, b1, hone, hrest⟩ := run_bind hrun
    obtain ⟨⟨more, outer2⟩, hmore, ⟨⟩⟩ := run_last hrest
    rw [forall_mem_cons] at htowers
    simp only [map_cons, pairwise_cons, forall_mem_cons] at hapart
    obtain ⟨⟨hown, hothers⟩, hnext, hrest⟩ := hapart
    -- The other towers are exempt while this one is hoisted.
    have hplaced : Placed bar (fun u => ((exempt u ∨ ∃ s' ∈ towers, u ∈ s'.builders) ∨ u ∈ bs) ∨ u ∈ s.builders)
        b.tree := h.mono fun u hu => by
      rcases hu with hu | hu | ⟨s', hs', hu⟩
      · exact .inl (.inl (.inl hu))
      · exact .inl (.inr hu)
      · rcases mem_cons.1 hs' with rfl | hs'
        · exact .inr hu
        · exact .inl (.inl (.inr ⟨s', hs', hu⟩))
    obtain ⟨bs1, hpile1, hplaced1, hsub, hsame, hframes, hsize, hid⟩ :=
      hoist_raises htowers.1 hpile hbase (fun x hx hx' => hown hx' hx) hbar hplaced hone
    have htowers1 : ∀ s' ∈ towers, s'.Stands n b1.tree := by
      intro s' hs'
      refine (htowers.2 s' hs').of_get? htowers.1.pile.stacked (fun x hx hx' => ?_) hsame
      exact hnext s'.builders (mem_map_of_mem hs') hx' hx
    have hapart1 : (bs1 :: towers.map Tower.builders).Pairwise Disjoint := by
      refine pairwise_cons.2 ⟨fun builders hb x hx hx' => ?_, hrest⟩
      rcases mem_append.1 (hsub hx) with hx | hx
      · exact hnext builders hb hx hx'
      · exact hothers builders hb hx hx'
    obtain ⟨bs', hpile', hplaced', hframes', hmore'⟩ := ih htowers1 hpile1 (hsize ▸ hbase) hapart1
      (hplaced1.mono fun u hu => by tauto) hmore
    refine ⟨bs', hpile', hplaced', hframes.trans hframes', forall_mem_cons.2 ⟨⟨hid.1, ?_⟩, hmore'⟩⟩
    have hgrows := hframes'.size
    lia

end Layout
end FlutterLayout
