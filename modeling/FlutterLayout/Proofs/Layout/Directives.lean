import FlutterLayout.Proofs.Layout.Standing

/-!
# Directives — what attributes do to the widget they stand on

Each directive is shown to be a step that works on its target (`Advances`): the books stay right, nothing
beside the target changes, and what the new texts use is bound above them.  Most directives put a widget
around the target; three move content:

* a wrapper that asks for the child goes between a widget and its child (`between_advances`);
* `:childBuilder` moves the content of a widget into a loop, `:itemBuilder` into a callback.
-/

namespace FlutterLayout.Layout

open List Attribute
open List (Subperm)
open Ledger (Enters Rewires)

variable {o : Options} {b b' : Build} {G : Ledger} {t t' : Tree Deferral} {target target' : Target}
  {hole outer id current : WidgetId} {spec : Directive.WrapperSpec} {w : Widget} {names : List Text}
  {ss : List Pipe.Subscription} {f : Widget → Widget} {handler : Directive.Handler}

/-! ## Texts and notes -/

theorem Annotates.rewrites (hf : Annotates names ss f) (hplain : w.generator ≠ Widget.reactiveGenerator) :
    Rewrites ss [] [] w (f w) := by
  cases hf with
  | @text p v hvalue hneeds _ =>
    have hset := rewrites_set w p hplain (hvalue ▸ isFilled_text v)
    rw [hvalue, held_text] at hset
    exact hset.weaken hneeds (.refl _)
  | touch htouches _ hneeds => exact rewrites_touch (htouches w) (hneeds w)

theorem amends_advances (h : G.Sound t) (hs : Stands t G target hole) (hinner : target.inner = hole)
    (ha : Amends names target.inner target.current t outer t') :
    ∃ G', Advances hole t G target t' G' { target with current := outer } := by
  subst hinner
  induction ha with
  | refl => exact ⟨G, .refl h hs⟩
  | note _ hm hf ih =>
    obtain ⟨G1, hfirst⟩ := ih
    obtain ⟨G2, hstacks⟩ := hm.stacks hfirst.sound hfirst.stands.free
    exact ⟨G2, (hfirst.trans (hstacks.advances hfirst.stands)).write (fun w _ hplain => hf.rewrites hplain)
      (hstacks.bound hfirst.stands.reaches)⟩

/-- The widget is no builder, and its properties of the names hold nothing. -/
def Bare (names : List Text) (t : Tree Deferral) (id : WidgetId) : Prop :=
  ∃ w, t.get? id = some w ∧ w.generator ≠ Widget.reactiveGenerator ∧
    ∀ q ∈ w.properties, q.name ∈ names → q.value.held = []

theorem held_subset_set (h : ∀ q ∈ w.properties, q.name = p.name → q.value.held = []) :
    ∀ c ∈ w.held, c ∈ (w.set p).held := by
  intro c hc
  rcases mem_append.1 hc with hc | hc
  · exact mem_append_left _ hc
  · exact mem_append_right _ (held_subset_putProperty h hc)

theorem Annotates.keeps (hf : Annotates names ss f) (h : ∀ q ∈ w.properties, q.name ∈ names → q.value.held = []) :
    (∀ c ∈ w.held, c ∈ (f w).held) ∧ ∀ q ∈ (f w).properties, q.name ∈ names → q.value.held = [] := by
  cases hf with
  | @text p v hvalue _ hname =>
    refine ⟨held_subset_set fun q hq heq => h q hq (heq ▸ hname), fun q hq => ?_⟩
    rcases mem_putProperty hq with rfl | hq
    · exact fun _ => hvalue ▸ rfl
    · exact h q hq
  | touch htouches _ _ =>
    rw [(htouches w).properties]
    refine ⟨fun c hc => ?_, h⟩
    simpa only [Widget.held, (htouches w).properties, (htouches w).wrapped] using hc

/-- Texts on a widget put nothing between it and what it holds in other properties. -/
theorem Amends.covers (ha : Amends names id current t outer t') (h : G.Sound t) (hfree : G.Free t current)
    (hid : G.Reaches t current id) (hbare : Bare names t id) :
    ∃ G', Covers t G current t' G' outer ∧ Bare names t' id := by
  induction ha with
  | refl => exact ⟨G, .refl h hfree, hbare⟩
  | note _ hm hf ih =>
    obtain ⟨G1, hcovers, w, hw, hplain, hheld⟩ := ih
    obtain ⟨G2, hstacks⟩ := hm.stacks hcovers.sound hcovers.free
    have hreaches := hcovers.reaches hid
    have hrw := hf.rewrites hplain
    have hr := Rewires.of_rewrites hrw hstacks.sound (hstacks.live hreaches) (hstacks.get? hw) .nil
      (hstacks.bound hreaches)
    obtain ⟨hkeep, hheld⟩ := hf.keeps hheld
    refine ⟨G2, (hcovers.trans hstacks.toCovers).change hr rfl (hstacks.reaches hreaches) hkeep, _,
      Tree.get?_modify_of_get? (hstacks.get? hw), ?_, hheld⟩
    rwa [hrw.alike.generator]

/-! ## Wrappers -/

theorem repeat_ne_reactive : Directive.repeatName ≠ Widget.reactiveGenerator := by decide

theorem Shell.holds (hw : Shell current handler w) (hne : current ≠ .none) :
    Fits w ∧ w.held = [current] ∧ w.isCustom = true ∧ w.needed = [] ∧ w.generator ≠ Widget.reactiveGenerator ∧
      ∀ q ∈ w.properties, q.name ∈ textNames handler → q.value.held = [] := by
  have hplain : ([] : Text) ≠ Widget.reactiveGenerator := by decide
  have hcond : Directive.conditionName ≠ Widget.reactiveGenerator := by decide
  cases hw with
  | wrapper =>
    exact ⟨fits_of_nil rfl hplain, by simp [Widget.held, hne], rfl, rfl, hplain, fun q hq => absurd hq not_mem_nil⟩
  | animation hbody =>
    refine ⟨fits_of_single rfl (isFilled_function _) hplain, ?_, rfl, rfl, hplain, ?_⟩
    · exact (append_nil _).trans hbody
    · intro q hq hname
      rw [mem_singleton.1 hq] at hname
      exact absurd hname (show Text.ofString "builder" ∉ textNames .animation by decide)
  | condition =>
    exact ⟨fits_of_nil rfl hcond, by simp [Widget.held, hne], rfl, rfl, hcond,
      fun q hq => absurd hq not_mem_nil⟩
  | «repeat» =>
    exact ⟨fits_of_single rfl (isFilled_widgets _) repeat_ne_reactive, rfl, rfl, rfl, repeat_ne_reactive,
      fun _ _ hname => absurd hname not_mem_nil⟩

theorem around_advances (hw : Shell target.current handler w) (h : G.Sound t) (hs : Stands t G target hole)
    (ha : Amends (textNames handler) (t.add w).1 (t.add w).1 (t.add w).2 outer t') :
    ∃ G', Advances hole t G target t' G' { target with current := outer } := by
  obtain ⟨hfits, hheld, hcustom, hneeds, hplain, hbare⟩ := hw.holds hs.free.live.ne_none
  have hwrap := covers_add h hs.free hfits hheld hcustom hneeds
  obtain ⟨G', hcovers, -⟩ := ha.covers hwrap.sound hwrap.free .refl ⟨w, Tree.get?_add_self w, hplain, hbare⟩
  exact ⟨G', (hwrap.trans hcovers).advances hs⟩

/-- A wrapper that takes over the child of a widget is a loose part, and what it holds is in the scope of the
widget. -/
structure Shells (hole : WidgetId) (t : Tree Deferral) (G : Ledger) (target : Target) (t' : Tree Deferral)
    (G' : Ledger) (id : WidgetId) : Prop where
  advances : Advances hole t G target t' G' target
  stands : Stands t' G' (.bare id) id
  new : (t.size : Int) < id
  scope : ∀ {s : Pipe.Subscription}, G'.scope id s → G.Provides t hole s

theorem shells_takeOver (type tag : Text) (h : G.Sound t) (hs : Stands t G target hole) (hw : t.get? hole = some w) :
    ∃ G', Shells hole t G target
      ((t.add (takeOver (w.property? childProperty) { type := type, isCustom := true, tag := tag })).2.modify
        hole fun w => w.remove childProperty) G'
      (t.add (takeOver (w.property? childProperty) { type := type, isCustom := true, tag := tag })).1 := by
  generalize hshell : takeOver (w.property? childProperty) { type := type, isCustom := true, tag := tag }
    = shell
  have hlive := hs.live h
  have hmem : ∀ p ∈ w.property? childProperty, p ∈ w.properties := fun p hp => mem_of_find?_eq_some hp
  have hfilled : ∀ p ∈ w.property? childProperty, p.value.IsFilled := fun p hp => (h.fits hw).filled p (hmem p hp)
  have hheld : shell.held = ((w.property? childProperty).map fun p => p.value.held).getD [] := hshell ▸ held_takeOver
  -- First the child leaves its slot, then the wrapper takes it.
  rw [Tree.modify_add shell _ hlive.le_size,
    show (t.add shell).1 = ((t.modify hole fun w => w.remove childProperty).add shell).1 by
      rw [Tree.add_fst, Tree.add_fst, Tree.size_modify]]
  have hr : Rewires t G hole w (w.remove childProperty) [] shell.held :=
    .of_rewrites (hheld ▸ rewrites_remove w childProperty) h hlive hw .nil
      fun s hs => absurd hs not_mem_nil
  have hfirst : Advances hole t G target (t.modify hole fun w => w.remove childProperty) G target :=
    (Advances.refl h hs).change hr rfl .nil
  have hsound := hr.sound (f := fun w => w.remove childProperty) rfl h
  have howns : ∀ c ∈ shell.held, G.Owns t hole c := by
    intro c hc
    refine hr.owns_held ?_
    simpa using hr.held.subset (mem_append_right _ hc)
  have henters : Enters (t.modify hole fun w => w.remove childProperty) G shell (G.Provides t hole) := by
    refine ⟨hshell ▸ fits_takeOver hfilled, ?_, ?_, ?_, ?_⟩
    · exact (hr.nodup_held h).of_append_right
    · exact fun c hc => hr.free_given rfl h hc
    · exact fun c hc s hs => .inl (h.bound (howns c hc) hs)
    · intro s hs
      obtain ⟨p, hp, hneeds⟩ := needed_takeOver (hshell ▸ hs)
      exact .inl (h.needs hlive.kept hw (mem_append_right _ (mem_flatMap.2 ⟨p, hmem p hp, hneeds⟩)))
  have hspare : Spare t G target target shell.held :=
    ⟨fun hc => hs.free.unheld hole (howns _ hc), fun c hc => .inr fun hfree => hfree.unheld hole (howns c hc)⟩
  refine ⟨_, ⟨hfirst.beside (Enters.evolves hsound) (henters.sound hsound) hspare, ?_, ?_, Enters.scope_id.1⟩⟩
  · refine ⟨henters.free_id hsound, .refl, .inl rfl, .inl rfl, shell, Tree.get?_add_self shell, ?_⟩
    rw [← hshell, generator_takeOver]
    decide
  · rw [Tree.add_fst, Tree.size_modify]
    lia

/-- A wrapper that asks for the child stands between a widget and its child. -/
theorem between_advances (h : G.Sound t) (hs : Stands t G target hole) (hinner : target.inner = hole)
    (hw : w = takeOver ((t.get? target.inner).bind fun w => w.property? childProperty)
      { type := spec.widget, isCustom := true, tag := tag }) (ha : Amends names (t.add w).1 (t.add w).1
      ((t.add w).2.modify target.inner fun w => w.remove childProperty) outer t') : ∃ G', Advances hole t G target
      (t'.modify target.inner fun w => w.set (.ofWidget childProperty outer)) G' target := by
  obtain ⟨v, hv, -⟩ := hs.plain
  rw [hinner, hv, Option.bind_some] at hw
  rw [hinner] at ha ⊢
  obtain ⟨G1, hshells⟩ := shells_takeOver spec.widget tag h hs hv
  rw [← hw] at hshells
  obtain ⟨G2, hfills⟩ := amends_advances hshells.advances.sound hshells.stands rfl ha
  have hnew : (t.size : Int) < outer := by
    have hsize := hshells.advances.evolves.size
    rcases hfills.current with heq | hlater
    · exact lt_of_lt_of_eq hshells.new heq.symm
    · exact Int.lt_of_le_of_lt (Int.ofNat_le.2 hsize) hlater
  have hbeside : Advances hole t G target t' G2 target :=
    hshells.advances.beside hfills.evolves hfills.sound ((Advances.refl h hs).spare_new hshells.new)
  have hfree : G2.Free t' outer := hfills.stands.free
  have hheld : (Property.ofWidget childProperty outer).value.held = [outer] := by
    simp [Property.ofWidget, PropertyValue.held, hfree.live.ne_none]
  refine ⟨G2, hbeside.put ?_ ?_ fun s hs => absurd hs not_mem_nil⟩
  · exact ⟨fun heq => hfree.live.ne_none (PropertyValue.widget.inj heq), by intro heq; cases heq⟩
  · rw [hheld]
    refine ⟨.single hfree fun s hs' => ?_, (Advances.refl h hs).spare_new hnew⟩
    exact hbeside.evolves.provides (hs.live h) (hshells.scope (hfills.scope hs'))

/-! ## Content that moves -/

/-- Content that is taken out of a widget is loose, and the slots of the widget are in its scope. -/
theorem dropContent_parts (h : Advances hole t0 G0 target0 t G target) :
    Advances hole t0 G0 target0 (t.modify hole dropContent) G target ∧
      Parts hole t0 G0 target0 (t.modify hole dropContent) G target (contentIds t hole) := by
  obtain ⟨w, hw, -⟩ := h.stands.plain
  have hr := Rewires.of_rewrites (rewrites_takeContent w) h.sound (h.stands.live h.sound) hw .nil
    fun s hs => absurd hs not_mem_nil
  rw [show contentIds t hole = childIds (w.property? childProperty)
    ++ childrenIds (w.property? childrenProperty) by simp only [contentIds, hw, Option.bind_some]]
  generalize childIds (w.property? childProperty)
    ++ childrenIds (w.property? childrenProperty) = body at hr
  have howns : ∀ c ∈ body, G.Owns t hole c := by
    intro c hc
    refine hr.owns_held ?_
    simpa using hr.held.subset (mem_append_right _ hc)
  refine ⟨h.change hr rfl .nil, ⟨?_, ?_, ?_⟩, ?_, ?_⟩
  · exact fun c hc => hr.free_given rfl h.sound hc
  · exact (hr.nodup_held h.sound).of_append_right
  · exact fun c hc s hs => hr.provides rfl (h.sound.bound (howns c hc) hs)
  · exact fun hc => h.stands.free.unheld hole (howns _ hc)
  · exact fun c hc => h.made fun hfree => hfree.unheld hole (howns c hc)

/-- The content of a widget goes into a loop, which becomes its content. -/
theorem childBuilder_advances (h : G.Sound t) (hs : Stands t G target hole) (hm : Mounts ss target.current t outer t')
    (hw : w = loopNode l ss (contentIds t' hole) tag) : ∃ G', Advances hole t G target
      (((t'.modify hole dropContent).add w).2.modify hole fun v =>
        v.set (.ofWidgets childrenProperty [((t'.modify hole dropContent).add w).1])) G'
      { target with current := outer } := by
  obtain ⟨G1, hstacks⟩ := hm.stacks h hs.free
  obtain ⟨hemptied, hparts⟩ := dropContent_parts (hstacks.advances hs)
  have hheld : w.held = contentIds t' hole := by
    simp [hw, loopNode, Widget.held, Property.ofWidgets]
  -- The loop is going to stand in a slot of the widget, so it may use what the widget provides.
  have henters : Enters (t'.modify hole dropContent) G1 w (G1.Provides (t'.modify hole dropContent) hole) := by
    refine ⟨hw ▸ fits_of_single rfl (isFilled_widgets _) repeat_ne_reactive, ?_, ?_, ?_, ?_⟩
    · rw [hheld]
      exact hparts.nodup
    · rw [hheld]
      exact hparts.free
    · rw [hheld]
      exact fun c hc s hs => .inl (hparts.bound c hc s hs)
    · intro s hs'
      refine .inl (hstacks.bound hs.reaches s ?_)
      simpa [hw, loopNode, Widget.needed, Property.ofWidgets] using hs'
  obtain ⟨G2, hentered, hevolves, hfree, hscope, hnew⟩ := hemptied.enter henters (hheld.symm ▸ hparts.toSpare)
  refine ⟨G2, hentered.put (isFilled_widgets _) ?_ fun s hs => absurd hs not_mem_nil⟩
  refine ⟨.single hfree fun s hs' => ?_, hemptied.spare_new hnew⟩
  exact hevolves.provides (hemptied.stands.live hemptied.sound) ((hscope s).1 hs')

/-! ## All attributes -/

theorem Directs.advances (hd : Directs target t handler target' t') (h : G.Sound t) (hs : Stands t G target hole)
    (hinner : target.inner = hole) : ∃ G', Advances hole t G target t' G' target' := by
  subst hinner
  cases hd with
  | amend ha => exact amends_advances h hs rfl ha
  | around hw ha => exact around_advances hw h hs ha
  | between _ hw ha => exact between_advances h hs rfl hw ha
  | @disable e outer t1 hm =>
    obtain ⟨G1, hstacks⟩ := hm.stacks h hs.free
    -- The builders stand around what was outermost when the condition was read.
    have hdefers : G1.Defers t1 target.inner target.current e := by
      refine ⟨?_, fun _ => hstacks.bound .refl⟩
      rcases hs.outer with heq | ⟨w, hw, hcustom⟩
      · obtain ⟨w, hw⟩ := hs.free.live.found
        exact ⟨w, hstacks.get? hw, .inl heq.symm⟩
      · exact ⟨w, hstacks.get? hw, .inr hcustom⟩
    exact ⟨G1, (hstacks.advances hs).beside Ledger.evolves_defer (Ledger.sound_defer hstacks.sound hdefers) .nil⟩
  | childBuilder hm htake hw =>
    subst htake
    exact childBuilder_advances h hs hm hw
  | @itemBuilder _ count _ _ _ _ hm hcount hbody =>
    subst hcount
    obtain ⟨G1, hstacks⟩ := hm.stacks h hs.free
    have hneeds := hstacks.bound hs.reaches
    have hcounted := (hstacks.advances hs).putText (p := .ofExpression "itemCount" ⟨count, _⟩) rfl hneeds
    obtain ⟨hemptied, hparts⟩ := dropContent_parts hcounted
    rw [← hbody] at hparts
    exact ⟨G1, hemptied.put (isFilled_function _) hparts hneeds⟩

theorem resolveAttributes_advances
    (h : G.Sound b.tree) (hs : Stands b.tree G target hole) (hinner : target.inner = hole)
    (hrun : (resolveAttributes o e attributes target).run b = .ok (target', b')) :
    ∃ G', Advances hole b.tree G target b'.tree G' target' := by
  refine resolveClaims_induct (P := fun target1 t1 => ∃ G1, Advances hole b.tree G target t1 G1 target1) _
    (fun c _ => ?_) (fun c _ => ?_) ⟨G, .refl h hs⟩ hrun
  · rintro t1 t2 target1 outer ⟨G1, hfirst⟩ hset
    obtain ⟨G2, hlast⟩ := amends_advances hfirst.sound hfirst.stands (hfirst.inner.trans hinner) hset
    exact ⟨G2, hfirst.trans hlast⟩
  · rintro t1 t2 target1 target2 r - ⟨G1, hfirst⟩ happly
    obtain ⟨G2, hlast⟩ := happly.advances hfirst.sound hfirst.stands (hfirst.inner.trans hinner)
    exact ⟨G2, hfirst.trans hlast⟩

end FlutterLayout.Layout
