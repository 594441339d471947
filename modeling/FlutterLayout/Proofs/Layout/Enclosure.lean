import FlutterLayout.Proofs.Layout.Directives

/-!
# Enclosure — parts of a tree that are entered through binders only

A part is a set of ids.  `Encloses names part t` says that a widget outside of the part refers to a widget
of the part only where one of `names` is bound: in the body of a function that binds it, or in a slot of a
loop that does.  Without names the part is not referred to at all.
-/

namespace FlutterLayout

open List FlutterLayout.Tree PropertyValue
open Widget (reactiveGenerator)

/-- The value holds no barred id, unless it is a function that binds one of the names. -/
def PropertyValue.Admits (bar : WidgetId → Prop) (names : List Text) (v : PropertyValue) : Prop :=
  (∃ f, v = .function (some f) ∧ ∃ y ∈ names, y ∈ f.binds) ∨ ∀ c ∈ v.held, ¬ bar c

/-- No slot of the widget holds a barred id, except where one of the names is bound.  A reactive builder
binds no name in this sense. -/
def Widget.Admits (bar : WidgetId → Prop) (names : List Text) (w : Widget) : Prop :=
  (w.generator ≠ Widget.reactiveGenerator ∧ ∃ y ∈ names, y ∈ w.binds) ∨
    (¬ bar w.wrapped ∧ ∀ p ∈ w.properties, p.value.Admits bar names)

section Admits

variable {bar bar' : WidgetId → Prop} {names names' : List Text} {v : PropertyValue} {w : Widget}

theorem PropertyValue.Admits.mono (h : v.Admits bar names) (hbar : ∀ c, bar' c → bar c)
    (hnames : names ⊆ names') : v.Admits bar' names' := by
  rcases h with ⟨f, hf, y, hy, hbinds⟩ | h
  · exact .inl ⟨f, hf, y, hnames hy, hbinds⟩
  · exact .inr fun c hc hc' => h c hc (hbar c hc')

theorem Widget.Admits.mono (h : w.Admits bar names) (hbar : ∀ c, bar' c → bar c) (hnames : names ⊆ names') :
    w.Admits bar' names' := by
  rcases h with ⟨hgen, y, hy, hbinds⟩ | ⟨hwrap, hprops⟩
  · exact .inl ⟨hgen, y, hnames hy, hbinds⟩
  · exact .inr ⟨fun hc => hwrap (hbar _ hc), fun p hp => (hprops p hp).mono hbar hnames⟩

theorem PropertyValue.admits_text (t : Text) : (text t).Admits bar names :=
  .inr fun _ hc => absurd hc not_mem_nil

theorem PropertyValue.admits_widgets (h : ∀ c ∈ ids, ¬ bar c) : (widgets ids).Admits bar names :=
  .inr h

theorem PropertyValue.admits_widget {id : WidgetId} (h : ¬ bar id) : (widget id).Admits bar names := by
  refine .inr ?_
  intro c hc
  change c ∈ (if id = .none then [] else [id]) at hc
  split at hc
  · exact absurd hc not_mem_nil
  · rwa [mem_singleton.1 hc]

theorem PropertyValue.admits_fragment {id : WidgetId} (h : ¬ bar id) :
    (fragment id).Admits bar names := by
  rcases (admits_widget h : (widget id).Admits bar names) with ⟨f, hf, -⟩ | h
  · cases hf
  · exact .inr h

end Admits

theorem Tree.exists_get? {α : Type} {t : Tree α} {x : WidgetId} (hpos : 0 < x) (hle : x ≤ t.size) :
    ∃ w, t.get? x = some w := by
  have hlt : x.toNat - 1 < t.widgets.length := by
    unfold size at hle
    lia
  exact ⟨_, get?_eq_some_iff.2 ⟨hpos, getElem?_eq_getElem hlt⟩⟩

namespace Layout

variable {names names' : List Text} {part part' : WidgetId → Prop} {t t' t'' : Tree Deferral} {x id : WidgetId}
  {w : Widget} {target target' : Target}

/-! ## Enclosed parts -/

/-- What may not be referred to: the widgets of a part, and ids that name no widget yet. -/
def Barred (part : WidgetId → Prop) (t : Tree Deferral) (x : WidgetId) : Prop :=
  part x ∨ (t.size : Int) < x

/-- Outside of the part, references into it stand only where one of the names is bound, and no reference
leads to a widget that is not there yet. -/
structure Encloses (names : List Text) (part : WidgetId → Prop) (t : Tree Deferral) : Prop where
  admits : ∀ {x : WidgetId} {w : Widget}, ¬ part x → t.get? x = some w → w.Admits (Barred part t) names
  born : ∀ {x : WidgetId}, part x → 0 < x ∧ x ≤ t.size
  builder : ∀ {x : WidgetId} {w : Widget}, t.get? x = some w → w.generator = Widget.reactiveGenerator →
    w.properties = []

/-- A step from one tree to the next that leaves the part alone and keeps it enclosed. -/
structure Keeps (names : List Text) (part : WidgetId → Prop) (t t' : Tree Deferral) : Prop
    extends Encloses names part t' where
  size : t.size ≤ t'.size
  same : ∀ {x : WidgetId}, part x → t'.get? x = t.get? x
  fixed : ∀ {x : WidgetId} {w : Widget}, t.get? x = some w →
    ∃ w', t'.get? x = some w' ∧ w'.binds = w.binds ∧ w'.generator = w.generator

/-- The target is outside of the part, and its widget binds nothing for its slots. -/
structure Aside (part : WidgetId → Prop) (t : Tree Deferral) (target : Target) : Prop where
  current : ¬ Barred part t target.current
  inner : ¬ Barred part t target.inner
  plain : ∀ {w : Widget}, t.get? target.inner = some w →
    w.binds = [] ∧ w.generator ≠ Widget.reactiveGenerator

/-- A step that works on a target outside of the part and ends with one for the same widget. -/
structure Works (names : List Text) (part : WidgetId → Prop) (t : Tree Deferral) (target : Target)
    (t' : Tree Deferral) (target' : Target) : Prop extends Keeps names part t t' where
  aside : Aside part t' target'
  inner : target'.inner = target.inner

theorem Barred.mono (h : Barred part t' x) (hsize : t.size ≤ t'.size) : Barred part t x := by
  rcases h with h | h
  · exact .inl h
  · right
    lia

theorem Encloses.not_barred_none (h : Encloses names part t) : ¬ Barred part t .none := by
  rintro (hpart | hsize)
  · exact absurd (h.born hpart).1 (by decide)
  · change (t.size : Int) < 0 at hsize
    lia

theorem Encloses.not_barred_of_get? (h : ¬ part x) (hw : t.get? x = some w) : ¬ Barred part t x := by
  rintro (hpart | hsize)
  · exact h hpart
  · have hle := le_size_of_get? hw
    lia

theorem Encloses.wrapped (h : Encloses names part t) (hx : ¬ part x) (hw : t.get? x = some w)
    (hgen : w.generator = reactiveGenerator) : ¬ Barred part t w.wrapped := by
  rcases h.admits hx hw with ⟨hne, -⟩ | ⟨hwrap, -⟩
  · exact absurd hgen hne
  · exact hwrap

theorem Aside.inner_le (ha : Aside part t target) : target.inner ≤ t.size := by
  by_contra hlt
  exact ha.inner (.inr (Int.not_le.1 hlt))

/-- A widget that binds nothing refers to the part in function bodies only. -/
theorem Aside.admits (ha : Aside part t target) (h : Encloses names part t) (hw : t.get? target.inner = some w) :
    ¬ Barred part t w.wrapped ∧ ∀ p ∈ w.properties, p.value.Admits (Barred part t) names := by
  rcases h.admits (fun hpart => ha.inner (.inl hpart)) hw with ⟨-, y, -, hy⟩ | hboth
  · rw [(ha.plain hw).1] at hy
    exact absurd hy not_mem_nil
  · exact hboth

namespace Keeps

theorem refl (h : Encloses names part t) : Keeps names part t t :=
  ⟨h, Nat.le_refl _, fun _ => rfl, fun hw => ⟨_, hw, rfl, rfl⟩⟩

section

variable (h : Keeps names part t t')
include h

theorem trans (h' : Keeps names part t' t'') : Keeps names part t t'' where
  toEncloses := h'.toEncloses
  size := Nat.le_trans h.size h'.size
  same hx := (h'.same hx).trans (h.same hx)
  fixed hw := by
    obtain ⟨w', hw', hbinds, hgen⟩ := h.fixed hw
    obtain ⟨w'', hw'', hbinds', hgen'⟩ := h'.fixed hw'
    exact ⟨w'', hw'', hbinds'.trans hbinds, hgen'.trans hgen⟩

theorem not_barred (hx : ¬ Barred part t x) : ¬ Barred part t' x :=
  fun hbarred => hx (hbarred.mono h.size)

theorem get?_of_get? {w' : Widget} (hx : ¬ Barred part t x) (hw' : t'.get? x = some w') :
    ∃ w, t.get? x = some w ∧ w'.binds = w.binds ∧ w'.generator = w.generator := by
  have hle : x ≤ t.size := by
    by_contra hlt
    exact hx (.inr (Int.not_le.1 hlt))
  obtain ⟨w, hw⟩ := exists_get? (pos_of_get? hw') hle
  obtain ⟨w'', hw'', hsame⟩ := h.fixed hw
  rw [hw'] at hw''
  cases hw''
  exact ⟨w, hw, hsame⟩

variable (ha : Aside part t target)
include ha

theorem aside : Aside part t' target where
  current := h.not_barred ha.current
  inner := h.not_barred ha.inner
  plain := by
    intro w' hw'
    obtain ⟨w, hw, hbinds, hgen⟩ := h.get?_of_get? ha.inner hw'
    rw [hbinds, hgen]
    exact ha.plain hw

theorem here : Works names part t target t' target :=
  ⟨h, h.aside ha, rfl⟩

/-- There is another outermost widget after the step, outside of the part. -/
theorem onto (houter : ¬ Barred part t' outer) : Works names part t target t' { target with current := outer } :=
  ⟨h, ⟨houter, (h.aside ha).inner, (h.aside ha).plain⟩, rfl⟩

theorem onto_wrapped (houter : ¬ Barred part t' outer) :
    Works names part t target t' ((Outcome.wrapped outer).onto target) := by
  unfold Outcome.onto
  split
  · exact h.here ha
  · exact h.onto ha houter

end

end Keeps

theorem Works.refl (h : Encloses names part t) (ha : Aside part t target) : Works names part t target t target :=
  (Keeps.refl h).here ha

theorem Works.trans (h : Works names part t target t' target')
    (h' : Works names part t' target' t'' target'') : Works names part t target t'' target'' :=
  ⟨h.toKeeps.trans h'.toKeeps, h'.aside, h'.inner.trans h.inner⟩

/-! ## Writers -/

section

variable (h : Encloses names part t)
include h

theorem keeps_add (hw : w.Admits (Barred part t) names)
    (hbuilder : w.generator = reactiveGenerator → w.properties = []) : Keeps names part t (t.add w).2 where
  admits := by
    intro x v hx hv
    have hbar : ∀ c, Barred part (t.add w).2 c → Barred part t c := by
      intro c hc
      refine hc.mono ?_
      rw [size_add]
      exact Nat.le_succ _
    rcases get?_add_cases hv with hv | ⟨-, rfl⟩
    · exact (h.admits hx hv).mono hbar (.refl _)
    · exact hw.mono hbar (.refl _)
  born hx := by
    rw [size_add]
    have hborn := h.born hx
    exact ⟨hborn.1, by lia⟩
  builder := by
    intro x v hv
    rcases get?_add_cases hv with hv | ⟨-, rfl⟩
    · exact h.builder hv
    · exact hbuilder
  size := by
    rw [size_add]
    exact Nat.le_succ _
  same hx := get?_add_of_le w (h.born hx).2
  fixed hv := ⟨_, get?_add_of_get? hv, rfl, rfl⟩

theorem not_barred_add : ¬ Barred part (t.add w).2 (t.add w).1 := by
  rintro (hpart | hsize)
  · have hborn := (h.born hpart).2
    rw [add_fst] at hborn
    lia
  · rw [size_add, add_fst] at hsize
    lia

theorem encloses_modify (hadmits : ∀ w, ¬ part x → t.get? x = some w → (f w).Admits (Barred part t) names)
    (hgen : ∀ w, (f w).generator = w.generator)
    (hbuilder : ∀ w, t.get? x = some w → w.generator = reactiveGenerator → (f w).properties = []) :
    Encloses names part (t.modify x f) where
  admits := by
    intro y v hy hv
    have hbar : ∀ c, Barred part (t.modify x f) c → Barred part t c := by
      intro c hc
      exact hc.mono (Nat.le_of_eq (size_modify f).symm)
    obtain ⟨w, hw, ⟨rfl, rfl⟩ | rfl⟩ := get?_modify_cases hv
    · exact (hadmits w hy hw).mono hbar (.refl _)
    · exact (h.admits hy hw).mono hbar (.refl _)
  born hy := by
    rw [size_modify]
    exact h.born hy
  builder := by
    intro y v hv hreact
    obtain ⟨w, hw, ⟨rfl, rfl⟩ | rfl⟩ := get?_modify_cases hv
    · exact hbuilder w hw ((hgen w).symm.trans hreact)
    · exact h.builder hw hreact

theorem keeps_modify (hx : ¬ part x) (hadmits : ∀ w, t.get? x = some w → (f w).Admits (Barred part t) names)
    (hfixed : ∀ w, (f w).binds = w.binds ∧ (f w).generator = w.generator)
    (hbuilder : ∀ w, t.get? x = some w → w.generator = reactiveGenerator → (f w).properties = []) :
    Keeps names part t (t.modify x f) where
  toEncloses := encloses_modify h (fun w _ => hadmits w) (fun w => (hfixed w).2) hbuilder
  size := Nat.le_of_eq (size_modify f).symm
  same := by
    intro y hy
    exact get?_modify_of_ne f fun heq => hx (heq ▸ hy)
  fixed := by
    intro y v hv
    obtain ⟨v', hv', ⟨-, rfl⟩ | rfl⟩ := exists_get?_modify x f hv
    · exact ⟨f v, hv', hfixed v⟩
    · exact ⟨v', hv', rfl, rfl⟩

theorem keeps_touch (hx : ¬ part x) (htouches : ∀ w, Touches w (f w)) : Keeps names part t (t.modify x f) := by
  refine keeps_modify h hx ?_ (fun w => ⟨(htouches w).binds, (htouches w).generator⟩) ?_
  · intro w hw
    have hsame := htouches w
    unfold Widget.Admits
    rw [hsame.generator, hsame.binds, hsame.wrapped, hsame.properties]
    exact h.admits hx hw
  · intro w hw hgen
    rw [(htouches w).properties]
    exact h.builder hw hgen

variable (ha : Aside part t target)
include ha

theorem works_properties {f : Widget → List Property}
    (hf : ∀ w, t.get? target.inner = some w → (∀ p ∈ w.properties, p.value.Admits (Barred part t) names) →
      ∀ p ∈ f w, p.value.Admits (Barred part t) names) :
    Works names part t target (t.modify target.inner fun w => { w with properties := f w }) target := by
  have hkeeps : Keeps names part t (t.modify target.inner fun w => { w with properties := f w }) := by
    refine keeps_modify h (fun hpart => ha.inner (.inl hpart)) ?_ (fun _ => ⟨rfl, rfl⟩) ?_
    · intro w hw
      obtain ⟨hwrap, hprops⟩ := ha.admits h hw
      exact .inr ⟨hwrap, hf w hw hprops⟩
    · exact fun w hw hgen => absurd hgen (ha.plain hw).2
  exact hkeeps.here ha

theorem works_set (hp : p.value.Admits (Barred part t) names) :
    Works names part t target (t.modify target.inner fun w => w.set p) target := by
  refine works_properties (f := fun w => putProperty p w.properties) h ha ?_
  intro w _ hprops q hq
  rcases mem_putProperty hq with rfl | hq
  · exact hp
  · exact hprops q hq

theorem works_remove (name : Text) :
    Works names part t target (t.modify target.inner fun w => w.remove name) target := by
  refine works_properties (f := fun w => dropProperty name w.properties) h ha ?_
  exact fun w _ hprops q hq => hprops q ((dropProperty_sublist name _).subset hq)

end

variable {o : Options} {b b' : Build}

section

variable (h : Encloses names part b.tree)
include h

theorem add_keeps (hadd : (Build.add w).run b = .ok (id, b')) (hw : w.Admits (Barred part b.tree) names)
    (hbuilder : w.generator = reactiveGenerator → w.properties = []) :
    Keeps names part b.tree b'.tree ∧ ¬ Barred part b'.tree id := by
  obtain ⟨rfl, htree⟩ := run_add hadd
  rw [htree]
  exact ⟨keeps_add h hw hbuilder, not_barred_add h⟩

theorem add_aside (hadd : (Build.add w).run b = .ok (id, b'))
    (hw : w.Admits (Barred part b.tree) names) (hbinds : w.binds = []) (hgen : w.generator ≠ reactiveGenerator) :
    Keeps names part b.tree b'.tree ∧ Aside part b'.tree (.bare id) := by
  obtain ⟨hkeeps, hid⟩ := add_keeps h hadd hw fun hreact => absurd hreact hgen
  refine ⟨hkeeps, hid, hid, ?_⟩
  obtain ⟨rfl, htree⟩ := run_add hadd
  intro v hv
  change b'.tree.get? (b.tree.add w).1 = some v at hv
  rw [htree, get?_add_self] at hv
  cases hv
  exact ⟨hbinds, hgen⟩

theorem put_works (ha : Aside part b.tree target) (hrun : (Build.put target.inner p).run b = .ok (r, b'))
    (hp : p.value.Admits (Barred part b.tree) names) :
    Works names part b.tree target b'.tree target := by
  rw [run_put hrun]
  exact works_set h ha hp

theorem putText_works (ha : Aside part b.tree target) (hrun : (Build.put target.inner p).run b = .ok (r, b'))
    (hvalue : p.value = .text v) : Works names part b.tree target b'.tree target :=
  put_works h ha hrun (hvalue ▸ admits_text v)

theorem touch_keeps (hx : ¬ part x) (hrun : (Build.change x f).run b = .ok (r, b')) (htouches : ∀ w, Touches w (f w)) :
    Keeps names part b.tree b'.tree := by
  rw [run_change hrun]
  exact keeps_touch h hx htouches

end

/-! ## Values -/

theorem Mounts.keeps (hm : Mounts ss id t outer t')
    (h : Encloses names part t) (hid : ¬ Barred part t id) : Keeps names part t t' ∧ ¬ Barred part t' outer := by
  induction hm with
  | nil => exact ⟨.refl h, hid⟩
  | @cons s ss flag id outer t t' _ ih =>
    have hadmits : (Pipe.builder { s with skipNullCheck := flag } id).Admits (Barred part t) names :=
      .inr ⟨hid, nofun⟩
    have hfirst := keeps_add h hadmits fun _ => rfl
    obtain ⟨hrest, houter⟩ := ih hfirst.toEncloses (not_barred_add h)
    exact ⟨hfirst.trans hrest, houter⟩

theorem Mounts.works (hm : Mounts ss target.current t outer t') (h : Encloses names part t) (ha : Aside part t target) :
    Works names part t target t' { target with current := outer } := by
  obtain ⟨hkeeps, houter⟩ := hm.keeps h ha.current
  exact hkeeps.onto ha houter

theorem keeps_annotate (hf : Annotates texts ss f) (h : Encloses names part t) (hx : ¬ part x)
    (hplain : ∀ {w : Widget}, t.get? x = some w → w.generator ≠ reactiveGenerator) :
    Keeps names part t (t.modify x f) := by
  cases hf with
  | touch htouches => exact keeps_touch h hx htouches
  | @text p v hvalue =>
    refine keeps_modify h hx ?_ (fun _ => ⟨rfl, rfl⟩) fun w hw hgen => absurd hgen (hplain hw)
    intro w hw
    rcases h.admits hx hw with hbinds | ⟨hwrap, hprops⟩
    · exact .inl hbinds
    · refine .inr ⟨hwrap, ?_⟩
      intro q hq
      rcases mem_putProperty hq with rfl | hq
      · rw [hvalue]
        exact admits_text v
      · exact hprops q hq

theorem amends_keeps (ha : Amends texts id current t outer t') (h : Encloses names part t) (hid : ¬ Barred part t id)
    (hplain : ∀ {w : Widget}, t.get? id = some w → w.generator ≠ reactiveGenerator)
    (hcur : ¬ Barred part t current) : Keeps names part t t' ∧ ¬ Barred part t' outer := by
  induction ha with
  | refl => exact ⟨.refl h, hcur⟩
  | note _ hm hf ih =>
    obtain ⟨hfirst, hmiddle⟩ := ih
    obtain ⟨hstack, houter⟩ := hm.keeps hfirst.toEncloses hmiddle
    have hboth := hfirst.trans hstack
    have hnoted := keeps_annotate hf hboth.toEncloses (fun hpart => hid (.inl hpart)) fun hw' => by
      obtain ⟨w, hw, -, hgen⟩ := hboth.get?_of_get? hid hw'
      rw [hgen]
      exact hplain hw
    exact ⟨hboth.trans hnoted, hnoted.not_barred houter⟩

theorem amends_works (h : Encloses names part t) (ha : Aside part t target)
    (hamends : Amends texts target.inner target.current t outer t') :
    Works names part t target t' { target with current := outer } := by
  obtain ⟨hkeeps, houter⟩ := amends_keeps hamends h ha.inner (fun hw => (ha.plain hw).2) ha.current
  exact hkeeps.onto ha houter

/-! ## Directives -/

namespace Attribute

/-- A wrapper takes over what the child property of the widget holds, and no more. -/
theorem admits_takeOver (type tag : Text) (hnone : ¬ bar .none) (hp : ∀ p ∈ p?, p.value.Admits bar names) :
    (takeOver p? { type := type, isCustom := true, tag := tag }).Admits bar names := by
  unfold takeOver
  split
  · exact .inr ⟨hnone, by simp⟩
  · rename_i p
    have hp := hp p rfl
    have hheld : ∀ {id : WidgetId}, p.value = .widget id ∨ p.value = .fragment id → ¬ bar id := by
      intro id hvalue
      by_cases hid : id = .none
      · exact hid ▸ hnone
      · rcases hp with ⟨f, hf, -⟩ | hp
        · rcases hvalue with hvalue | hvalue <;> rw [hf] at hvalue <;> cases hvalue
        · refine hp id ?_
          rcases hvalue with hvalue | hvalue <;> simp [hvalue, held, hid]
    split
    · rename_i id hvalue
      exact .inr ⟨hheld (.inl hvalue), by simp⟩
    · rename_i id hvalue
      exact .inr ⟨hheld (.inr hvalue), by simp⟩
    · refine .inr ⟨hnone, ?_⟩
      exact forall_mem_singleton.2 hp

theorem admits_loopNode (hnone : ¬ bar .none) (hbody : ∀ c ∈ body, ¬ bar c) :
    (loopNode l needs body tag).Admits bar names := by
  refine .inr ⟨hnone, ?_⟩
  exact forall_mem_singleton.2 (admits_widgets hbody)

theorem not_barred_content
    (hp : ∀ p ∈ p?, p.value.Admits bar names) (hc : c ∈ childIds p? ∨ c ∈ childrenIds p?) : ¬ bar c := by
  have hvalue : ∃ p ∈ p?, c ∈ p.value.held ∧ ∀ f, p.value ≠ .function f := by
    rcases hc with hc | hc
    · unfold childIds at hc
      split at hc
      · exact ⟨_, rfl, hc, nofun⟩
      · exact ⟨_, rfl, hc, nofun⟩
      · exact absurd hc not_mem_nil
    · unfold childrenIds at hc
      split at hc
      · exact ⟨_, rfl, hc, nofun⟩
      · exact absurd hc not_mem_nil
  obtain ⟨p, hmem, hheld, hplain⟩ := hvalue
  rcases hp p hmem with ⟨f, hf, -⟩ | hadmits
  · exact absurd hf (hplain _)
  · exact hadmits c hheld

end Attribute

theorem not_barred_widgetsOf
    (hnone : ¬ bar .none) (hv : v.Admits bar names) (hc : c ∈ widgetsOf v) : ¬ bar c := by
  by_cases hzero : c = .none
  · exact hzero ▸ hnone
  · have hheld : c ∈ v.held ∧ ∀ f, v ≠ .function f := by
      cases v with
      | widget | fragment =>
        rw [mem_singleton.1 hc] at hzero ⊢
        simp [held, hzero]
      | widgets ids => exact ⟨hc, by simp⟩
      | _ => exact absurd hc not_mem_nil
    rcases hv with ⟨f, hf, -⟩ | hv
    · exact absurd hf (hheld.2 _)
    · exact hv c hheld.1

theorem keeps_filled
    (hkeeps : Keeps names part (t.add w).2 t1) (h : Encloses names part t) (hgen : w.generator ≠ reactiveGenerator)
    (hamends : Amends texts (t.add w).1 (t.add w).1 t1 outer t') : Keeps names part t1 t' ∧ ¬ Barred part t' outer := by
  have hnew : ¬ Barred part (t.add w).2 (t.add w).1 := not_barred_add h
  refine amends_keeps hamends hkeeps.toEncloses (hkeeps.not_barred hnew) ?_ (hkeeps.not_barred hnew)
  intro v hv
  obtain ⟨u, hu, -, hsame⟩ := hkeeps.get?_of_get? hnew hv
  rw [get?_add_self] at hu
  cases hu
  rwa [hsame]

theorem Shell.admits (hw : Shell current handler w) (hnone : ¬ bar .none) (hcur : ¬ bar current) :
    w.Admits bar names ∧ w.generator ≠ reactiveGenerator := by
  have hbody : ∀ c ∈ [current], ¬ bar c := forall_mem_singleton.2 hcur
  cases hw with
  | wrapper | condition => exact ⟨.inr ⟨hcur, nofun⟩, nofun⟩
  | «repeat» => exact ⟨Attribute.admits_loopNode hnone hbody, nofun⟩
  | @animation f hf =>
    refine ⟨.inr ⟨hnone, ?_⟩, nofun⟩
    intro p hp
    rw [mem_singleton.1 hp]
    refine .inr ?_
    change ∀ c ∈ f.body, ¬ bar c
    rwa [hf]

section

variable (h : Encloses names part t) (ha : Aside part t target)
include h ha

theorem works_dropContent : Works names part t target (t.modify target.inner dropContent) target := by
  refine works_properties
    (f := fun w => dropProperty childrenProperty (dropProperty childProperty w.properties)) h ha ?_
  intro w _ hprops q hq
  exact hprops q (((dropProperty_sublist _ _).trans (dropProperty_sublist _ _)).subset hq)

theorem Aside.admits_property (name : Text) :
    ∀ p ∈ (t.get? target.inner).bind fun w => w.property? name, p.value.Admits (Barred part t) names := by
  intro p hp
  obtain ⟨w, hw, hp⟩ := Option.bind_eq_some_iff.1 hp
  exact (ha.admits h hw).2 p (mem_of_find?_eq_some hp)

theorem Aside.not_barred_contentIds : ∀ c ∈ contentIds t target.inner, ¬ Barred part t c := by
  intro c hc
  rcases mem_append.1 hc with hc | hc
  · exact Attribute.not_barred_content (ha.admits_property h _) (.inl hc)
  · exact Attribute.not_barred_content (ha.admits_property h _) (.inr hc)

theorem directs_works (hd : Directs target t handler target' t') : Works names part t target t' target' := by
  cases hd with
  | amend hamends => exact amends_works h ha hamends
  | around hw hamends =>
    obtain ⟨hadmits, hgen⟩ := hw.admits h.not_barred_none ha.current
    have hshell := keeps_add h hadmits fun hreact => absurd hreact hgen
    obtain ⟨hfilled, houter⟩ := keeps_filled (.refl hshell.toEncloses) h hgen hamends
    exact (hshell.trans hfilled).onto ha houter
  | @between spec tag w outer t' _ hw hamends =>
    have hadmits : w.Admits (Barred part t) names := by
      rw [hw]
      exact Attribute.admits_takeOver spec.widget tag h.not_barred_none (ha.admits_property h childProperty)
    have hgen : w.generator ≠ reactiveGenerator := by
      rw [hw, generator_takeOver]
      decide
    have hshell := keeps_add h hadmits fun hreact => absurd hreact hgen
    have hrem := (works_remove hshell.toEncloses (hshell.aside ha) childProperty).toKeeps
    obtain ⟨hfilled, houter⟩ := keeps_filled hrem h hgen hamends
    have hbefore := (hshell.trans hrem).trans hfilled
    exact (hbefore.here ha).trans (works_set hbefore.toEncloses (hbefore.aside ha) (admits_widget houter))
  | disable hm =>
    obtain ⟨hkeeps, houter⟩ := hm.keeps h ha.current
    -- A tree in which an action waits has the same widgets.
    refine Keeps.onto ?_ ha houter
    exact ⟨⟨hkeeps.admits, hkeeps.born, hkeeps.builder⟩, hkeeps.size, hkeeps.same, hkeeps.fixed⟩
  | @childBuilder _ _ _ _ _ t2 w hm htake hw =>
    obtain ⟨hstack, houter⟩ := hm.keeps h ha.current
    have haside := hstack.aside ha
    have hbody := haside.not_barred_contentIds hstack.toEncloses
    have htaken := works_dropContent hstack.toEncloses haside
    rw [← htake] at htaken
    have hadmits : w.Admits (Barred part t2) names := by
      rw [hw]
      exact Attribute.admits_loopNode htaken.not_barred_none fun c hc => htaken.toKeeps.not_barred (hbody c hc)
    have hloop := keeps_add htaken.toEncloses hadmits (hw ▸ nofun)
    have hset := works_set (p := .ofWidgets childrenProperty _) hloop.toEncloses (hloop.aside htaken.aside)
      (admits_widgets (forall_mem_singleton.2 (not_barred_add htaken.toEncloses)))
    have hlater := (htaken.toKeeps.trans hloop).trans hset.toKeeps
    exact (hstack.trans hlater).onto ha (hlater.not_barred houter)
  | @itemBuilder ss count f _ _ _ hm hcount hbody =>
    obtain ⟨hstack, houter⟩ := hm.keeps h ha.current
    have hcounted := works_set (p := .ofExpression "itemCount" ⟨count, ss⟩) hstack.toEncloses (hstack.aside ha)
      (admits_text _)
    rw [← hcount] at hcounted
    have hheld := hcounted.aside.not_barred_contentIds hcounted.toEncloses
    have htaken := works_dropContent hcounted.toEncloses hcounted.aside
    rw [← hbody] at hheld
    have hset := works_set (p := .ofFunction "itemBuilder" f ss) htaken.toEncloses htaken.aside
      (.inr fun c hc => htaken.toKeeps.not_barred (hheld c hc))
    have hlater := (hcounted.toKeeps.trans htaken.toKeeps).trans hset.toKeeps
    exact (hstack.trans hlater).onto ha (hlater.not_barred houter)

end

theorem resolveClaims_works (cs : List Claim) (h : Encloses names part b.tree)
    (ha : Aside part b.tree target) (hrun : (cs.foldlM (resolveClaim o e) target).run b = .ok (target', b')) :
    Works names part b.tree target b'.tree target' := by
  refine resolveClaims_induct (P := fun target1 t1 => Works names part b.tree target t1 target1) cs
    (fun c _ => ?_) (fun c _ => ?_) (.refl h ha) hrun
  · intro t1 t2 target1 outer hfirst hset
    exact hfirst.trans (amends_works hfirst.toEncloses hfirst.aside hset)
  · intro t1 t2 target1 target2 r _ hfirst happly
    exact hfirst.trans (directs_works hfirst.toEncloses hfirst.aside happly)

end Layout
end FlutterLayout
