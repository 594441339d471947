import Mathlib.Data.List.Flatten
import FlutterLayout.Proofs.Layout.Courses
import FlutterLayout.Proofs.Layout.Directives
import FlutterLayout.Proofs.Layout.Hoisting

/-!
# Items — what becomes of the content of a widget

An item of a layout makes a new part, or changes the widget it stands in.  `Stage.Makes` says so for items,
properties and branches, and `Course.makes` shows it by induction on the course of resolving them.
-/

namespace FlutterLayout.Layout

open List PropertyValue
open Ledger (Evolves Enters Rewires)

variable {o : Options} {G G' G₀ : Ledger} {t t₀ : Tree Deferral} {b b' : Build} {hole id : WidgetId}
  {target target' target₀ : Target} {e : Markup.Element} {ids : List WidgetId} {w : Widget} {item : Item}
  {content : List Item} {branches : List Branch} {p : Property}

/-! ## Text -/

/-- The text of an element is a property of its widget, or a new part that goes into it. -/
theorem inlineText_parts (h : G.Sound b.tree) (hs : Stands b.tree G target hole)
    (hinner : target.inner = hole) (hrun : (inlineText o e target).run b = .ok ((texts, target'), b')) :
    ∃ G', Advances hole b.tree G target b'.tree G' target' ∧ Parts hole b.tree G target b'.tree G' target' texts := by
  rcases inlineText_cases hrun with ⟨rfl, rfl, rfl⟩ | ⟨value, b1, -, hvalue, hplace⟩
  · exact ⟨G, .refl h hs, .nil⟩
  · obtain ⟨htarget, hmounts⟩ := textValue_mounts hvalue
    obtain ⟨G1, hstacks⟩ := hmounts.stacks h hs.free
    have hfirst := hstacks.advances hs
    rw [← htarget] at hfirst
    have hneeds := hstacks.bound hs.reaches
    rcases hplace with ⟨type, property, rfl, -, -, hput⟩ | ⟨id, rfl, hadd⟩
    · rw [run_put hput, hfirst.inner, hinner]
      exact ⟨G1, hfirst.putText rfl hneeds, .nil⟩
    · -- The new widget is going to stand where the variables of its text are bound.
      have henters : Enters b1.tree G1
          { type := "Text", tag := e.name, properties := [.ofExpression [] value] } (· ∈ value.subscriptions) := by
        refine ⟨fits_of_single rfl (isFilled_text _) nofun, nodup_nil, nofun, nofun, ?_⟩
        intro s hs
        simpa [Widget.needed, Property.ofExpression] using hs
      obtain ⟨rfl, htree⟩ := run_add hadd
      obtain ⟨G2, hlast, hevolves, hfree, hscope, hnew⟩ := hfirst.enter henters .nil
      rw [htree]
      refine ⟨G2, hlast, .single hfree fun s hs' => ?_, hfirst.spare_new hnew⟩
      exact .inl (hevolves.scope_mono (hfirst.stands.live hfirst.sound) (hneeds s ((hscope s).1 hs')))

/-! ## Content -/

theorem setContent_advances (h : Advances hole t₀ G₀ target₀ b.tree G target)
    (hparts : Parts hole t₀ G₀ target₀ b.tree G target ids) (hrun : (setContent o e hole ids).run b = .ok (r, b')) :
    Advances hole t₀ G₀ target₀ b'.tree G target := by
  rcases setContent_cases hrun with rfl | hput | ⟨child, rfl, -, hput⟩
  · exact h
  · exact run_put hput ▸ h.put (isFilled_widgets _) hparts fun s hs => absurd hs not_mem_nil
  · have hne := (hparts.free child (mem_singleton.2 rfl)).live.ne_none
    have hheld : (Property.ofWidget childProperty child).value.held = [child] := by
      simp [Property.ofWidget, held, hne]
    rw [run_put hput]
    refine h.put ⟨fun heq => hne (widget.inj heq), by intro heq; cases heq⟩ ?_
      fun s hs => absurd hs not_mem_nil
    rwa [hheld]

theorem touchCurrent_advances (h : Advances hole t₀ G₀ target₀ b.tree G target)
    (hrun : (Build.change target.current f).run b = .ok (r, b')) (htouches : ∀ w, Touches w (f w))
    (hneeds : ∀ w, (f w).needs = w.needs) : Advances hole t₀ G₀ target₀ b'.tree G target := by
  obtain ⟨w, hw⟩ := h.stands.free.live.found
  have hrw : Rewrites [] [] [] w (f w) := rewrites_touch (htouches w) fun s hs => .inl (hneeds w ▸ hs)
  have hr := Rewires.of_rewrites hrw h.sound h.stands.free.live hw .nil fun s hs => absurd hs not_mem_nil
  have hcovers := (Covers.refl h.sound h.stands.free).change hr rfl .refl ?_
  · rw [run_change hrun]
    exact h.trans (hcovers.advances h.stands)
  · intro c hc
    simpa only [Widget.held, (htouches w).properties, (htouches w).wrapped] using hc

/-! ## New parts -/

structure Yields (t : Tree Deferral) (G : Ledger) (t' : Tree Deferral) (G' : Ledger) (id : WidgetId) :
    Prop where
  sound : G'.Sound t'
  evolves : Evolves [] t G t' G'
  free : G'.Free t' id
  closed : ∀ s, ¬ G'.scope id s
  new : (t.size : Int) < id

theorem yields_add (h : G.Sound b.tree) (hadd : (Build.add w).run b = .ok (id, b')) (hprops : w.properties = [])
    (hwrap : w.wrapped = .none) (hneeds : w.needs = []) (hplain : w.generator ≠ Widget.reactiveGenerator) :
    ∃ G', Yields b.tree G b'.tree G' id ∧ b'.tree.get? id = some w := by
  obtain ⟨rfl, htree⟩ := run_add hadd
  have hheld : w.held = [] := by simp [Widget.held, hprops, hwrap]
  have hneeded : w.needed = [] := by simp [Widget.needed, hprops, hneeds]
  have henters : Enters b.tree G w fun _ => False := by
    refine ⟨fits_of_nil hprops hplain, ?_, ?_, ?_, ?_⟩
    · rw [hheld]
      exact nodup_nil
    · rw [hheld]
      exact fun c hc => absurd hc not_mem_nil
    · rw [hheld]
      exact fun c hc => absurd hc not_mem_nil
    · rw [hneeded]
      exact fun s hs => absurd hs not_mem_nil
  have hevolves : Evolves w.held b.tree G (b.tree.add w).2 (G.enter (b.tree.add w).1 fun _ => False) := Enters.evolves h
  rw [hheld] at hevolves
  rw [htree]
  exact ⟨_, ⟨henters.sound h, hevolves, henters.free_id h, fun _ => Enters.scope_id.1, Enters.lt_id w⟩,
    Tree.get?_add_self w⟩

theorem Yields.advance (h : Yields t G t1 G1 id)
    (ha : Advances hole t1 G1 target t₀ G₀ target') (hid : target.current = id) : Yields t G t₀ G₀ target'.current where
  sound := ha.sound
  evolves := by
    refine h.evolves.trans ha.evolves ?_
    intro x hx
    rw [mem_singleton.1 hx, hid]
    exact .inr (Ledger.not_free_of_size_lt h.new)
  free := ha.stands.free
  closed s hs := h.closed s (hid ▸ ha.scope hs)
  new := by
    have hsize := h.evolves.size
    have hnew := h.new
    rcases ha.current with heq | hlater
    · rw [heq, hid]
      exact hnew
    · lia

/-! ## Parts -/

theorem Loose.nil : Loose size t G current [] :=
  ⟨nodup_nil, nofun, nofun, nofun, not_mem_nil⟩

theorem Loose.append (h : Loose size t G target.current ids) (hsize : size ≤ t.size)
    (ha : Advances hole t G target t₀ G₀ target') (h' : Loose t.size t₀ G₀ target'.current more) :
    Loose size t₀ G₀ target'.current (ids ++ more) := by
  have hkeep : ∀ i ∈ ids, i ∉ [target.current] := by
    intro i hi hmem
    exact h.apart (mem_singleton.1 hmem ▸ hi)
  have hdisj : ∀ i ∈ ids, ∀ j ∈ more, i ≠ j := by
    rintro i hi j hj rfl
    exact Ledger.not_free_of_size_lt (h'.new i hj) (h.free i hi)
  refine ⟨nodup_append.2 ⟨h.nodup, h'.nodup, hdisj⟩, ?_, ?_, ?_, ?_⟩
  · intro i hi
    rcases mem_append.1 hi with hi | hi
    · exact ha.evolves.free (h.free i hi) (hkeep i hi)
    · exact h'.free i hi
  · intro i hi s hs
    rcases mem_append.1 hi with hi | hi
    · exact h.closed i hi s (ha.evolves.scope_free (h.free i hi) (hkeep i hi) hs)
    · exact h'.closed i hi s hs
  · intro i hi
    rcases mem_append.1 hi with hi | hi
    · exact h.new i hi
    · have hnew := h'.new i hi
      lia
  · intro hmem
    rcases mem_append.1 hmem with hmem | hmem
    · exact ha.ne_current (h.free _ hmem).live (fun heq => h.apart (heq ▸ hmem)) rfl
    · exact h'.apart hmem

theorem Yields.stands {inner : WidgetId} (h : Yields t G t₀ G₀ id) (hw : t₀.get? id = some w)
    (hplain : w.generator ≠ Widget.reactiveGenerator) (hinner : inner = id ∨ inner = .none) :
    Stands t₀ G₀ ⟨inner, id⟩ id :=
  ⟨h.free, .refl, hinner, .inl rfl, w, hw, hplain⟩

theorem Yields.beside (h : Yields t G t₀ G₀ id) (hsound : G.Sound t) (hs : Stands t G target hole) :
    Advances hole t G target t₀ G₀ target ∧ Loose t.size t₀ G₀ target.current [id] := by
  refine ⟨(Advances.refl hsound hs).beside h.evolves h.sound .nil, nodup_singleton id, ?_, ?_, ?_, ?_⟩
  · exact forall_mem_singleton.2 h.free
  · exact forall_mem_singleton.2 h.closed
  · exact forall_mem_singleton.2 h.new
  · intro hmem
    exact Ledger.not_free_of_size_lt h.new (mem_singleton.1 hmem ▸ hs.free)

/-! ## Callbacks -/

theorem Stands.detach (hs : Stands t G target hole) : Stands t G ⟨.none, target.current⟩ hole :=
  ⟨hs.free, hs.reaches, .inr rfl, hs.outer, hs.plain⟩

theorem Advances.attach (h : Advances hole t G ⟨.none, target.current⟩ t₀ G₀ detached)
    (hinner : target.inner = hole ∨ target.inner = .none) :
    Advances hole t G target t₀ G₀ { target with current := detached.current } :=
  ⟨h.sound, h.evolves, ⟨h.stands.free, h.stands.reaches, hinner, h.stands.outer, h.stands.plain⟩, rfl,
    h.current, h.scope⟩

theorem setCallback_advances {head : CallbackHead} {inner : WidgetId}
    (h : Advances hole t₀ G₀ target₀ t G target) (hinner : inner = hole ∨ inner = .none)
    (hparts : Parts hole t₀ G₀ target₀ t G target body) (hneeds : ∀ s ∈ head.needs, G.scope hole s) :
    Advances hole t₀ G₀ target₀ (t.modify inner (setCallback head body)) G target := by
  rcases hinner with rfl | rfl
  · exact h.rewrite (fun w _ hplain => rewrites_setCallback head body w hplain) hparts hneeds
  · rw [Tree.modify_eq_self]
    · exact h
    · intro w hw
      rw [Tree.get?_none] at hw
      cases hw

/-! ## Properties -/

structure Offers (t : Tree Deferral) (G : Ledger) (t' : Tree Deferral) (G' : Ledger) (p : Property) :
    Prop where
  sound : G'.Sound t'
  evolves : Evolves [] t G t' G'
  filled : p.value.IsFilled
  needs : p.needs = []
  nodup : p.value.held.Nodup
  free : ∀ c ∈ p.value.held, G'.Free t' c
  closed : ∀ c ∈ p.value.held, ∀ s, ¬ G'.scope c s
  made : ∀ c ∈ p.value.held, ¬ G.Free t c

theorem Yields.offers (h : Yields t G t₀ G₀ id) (name : Text) :
    Offers t G t₀ G₀ { name := name, value := .fragment id } := by
  have hne := h.free.live.ne_none
  have hheld : (fragment id).held = [id] := by simp [held, hne]
  refine ⟨h.sound, h.evolves, ⟨by simp, fun heq => hne (fragment.inj heq)⟩, rfl, ?_, ?_, ?_, ?_⟩
  · rw [hheld]
    exact nodup_singleton id
  · exact hheld ▸ forall_mem_singleton.2 h.free
  · exact hheld ▸ forall_mem_singleton.2 h.closed
  · exact hheld ▸ forall_mem_singleton.2 (Ledger.not_free_of_size_lt h.new)

theorem held_sublist_of_mem (hp : p ∈ w.properties) : p.value.held.Sublist w.held := by
  have hone : (heldBy [p]).Sublist (heldBy w.properties) := (singleton_sublist.2 hp).flatMap _
  have hheld : heldBy [p] = p.value.held := by simp [heldBy]
  exact hheld ▸ hone.trans (sublist_append_right _ _)

theorem mem_of_content? (hp : w.content? = some p) : p ∈ w.properties := by
  unfold Widget.content? at hp
  cases hchild : w.property? childProperty with
  | some q =>
    rw [hchild] at hp
    cases hp
    exact mem_of_find?_eq_some hchild
  | none =>
    rw [hchild] at hp
    exact mem_of_find?_eq_some hp

/-- The fragment is dropped, and its content is loose: nothing is bound between the two. -/
theorem Yields.donate (h : Yields t G t₀ G₀ id) (hw : t₀.get? id = some w)
    (hplain : w.generator ≠ Widget.reactiveGenerator) (hcustom : w.isCustom = false) (hp : p ∈ w.properties)
    (name : Text) : Offers t G t₀ (G₀.retire id) { p with name := name } := by
  have hsub := held_sublist_of_mem hp
  have howns : ∀ c ∈ p.value.held, G₀.Owns t₀ id c := fun c hc =>
    (Ledger.owns_iff hw).2 ⟨h.free.live.kept, hsub.subset hc⟩
  refine ⟨Ledger.sound_retire h.sound h.free hw hcustom, h.evolves.retire h.free h.new,
    (h.sound.fits hw).filled p hp, ?_, ?_, ?_, ?_, ?_⟩
  · refine eq_nil_iff_forall_not_mem.2 ?_
    intro s hs
    refine h.closed s (h.sound.needs h.free.live.kept hw ?_)
    exact mem_append_right _ (mem_flatMap.2 ⟨p, hp, hs⟩)
  · exact (h.sound.nodup h.free.live.kept hw).sublist hsub
  · exact fun c hc => Ledger.free_retire h.sound h.free (howns c hc)
  · intro c hc s hs
    rcases h.sound.bound (howns c hc) hs with hscope | ⟨w', hw', flag, hcarries⟩
    · exact h.closed s hscope
    · rw [hw] at hw'
      cases hw'
      simp [Widget.subscription?, hplain] at hcarries
  · intro c hc hfree
    exact (h.evolves.free hfree not_mem_nil).unheld id (howns c hc)

theorem fragmentProperty_offers (h : Yields t G b.tree G₀ target.current)
    (hs : Stands b.tree G₀ target hole) (hinner : target.inner = hole)
    (hcustom : ∀ w, b.tree.get? hole = some w → w.isCustom = false)
    (hrun : (fragmentProperty name target).run b = .ok (p, b')) : b' = b ∧ ∃ G', Offers t G b.tree G' p := by
  obtain ⟨rfl, rfl | ⟨w, q, hw, hcur, hq, rfl⟩⟩ := fragmentProperty_cases hrun
  · exact ⟨rfl, _, h.offers name⟩
  · obtain ⟨w', hw', hplain⟩ := hs.plain
    rw [hinner] at hcur hw
    rw [hw] at hw'
    cases hw'
    rw [hcur] at h
    exact ⟨rfl, _, h.donate hw hplain (hcustom w hw) (mem_of_content? hq) name⟩

/-- What a property offers is put into a slot of the widget of a target. -/
theorem Offers.advances (h : Offers t G t₀ G₀ p) (hsound : G.Sound t) (hs : Stands t G target hole) :
    Advances hole t G target (t₀.modify hole (joinProperty p)) G₀ target := by
  have ha := (Advances.refl hsound hs).beside h.evolves h.sound .nil
  refine ha.rewrite (fun w hw hplain => rewrites_joinProperty hw hplain h.filled) ⟨⟨h.free, h.nodup, ?_⟩, ?_, ?_⟩ ?_
  · exact fun c hc s hs => absurd hs (h.closed c hc s)
  · exact fun hmem => h.made _ hmem hs.free
  · exact fun c hc => .inr (h.made c hc)
  · rw [h.needs]
    exact fun s hs => absurd hs not_mem_nil

/-! ## Branches -/

theorem snd_zip_sublist (xs : List α) (ys : List β) : Sublist ((xs.zip ys).map Prod.snd) ys := by
  induction xs generalizing ys with
  | nil => exact nil_sublist ys
  | cons x xs ih =>
    cases ys with
    | nil => exact .refl _
    | cons y ys => exact (ih ys).cons_cons y

/-- Of the properties of branches, those that stay hold some of the widgets all of them hold. -/
theorem heldBy_sublist (hvalues : ps.map Property.value = (branches.zip properties).map fun q => q.2.value) :
    (heldBy ps).Sublist (heldBy properties) := by
  have hps : heldBy ps = heldBy ((branches.zip properties).map Prod.snd) := by
    have hflat : ∀ qs : List Property, heldBy qs = (qs.map Property.value).flatMap held :=
      fun qs => by simp [heldBy, flatMap_map]
    rw [hflat ps, hvalues, hflat, map_map]
    rfl
  rw [hps]
  exact (snd_zip_sublist branches properties).flatMap _

theorem heldBy_branchProperty (ps : List Property) : heldBy (branchProperty branch ids :: ps) = ids ++ heldBy ps := by
  unfold branchProperty
  split <;> rfl

theorem branchProperty_plain (branch : Branch) (ids : List WidgetId) :
    (branchProperty branch ids).needs = [] ∧ (branchProperty branch ids).value.IsFilled := by
  unfold branchProperty
  split
  · exact ⟨rfl, isFilled_widgets ids⟩
  · exact ⟨rfl, isFilled_widgets ids⟩

theorem conditions_advance (h : Advances id t₀ G₀ target₀ b.tree G ⟨.none, current⟩)
    (hparts : Parts id t₀ G₀ target₀ b.tree G ⟨.none, current⟩ (heldBy properties))
    (hplain : ∀ p ∈ properties, p.needs = [] ∧ p.value.IsFilled) (hget : t₀.get? id = some w)
    (hgen : w.generator = Directive.conditionalName)
    (hseq : (Build.change id fun w => { w with isSequence := isSequence }).run b = .ok (r, b1))
    (hconds : (resolveConditions o isSequence id (branches.zip properties) current).run b1
      = .ok ((ps, current'), b2)) (hset : (Build.change id fun w => { w with properties := ps }).run b2 = .ok (r, b3))
    (hcomment : (comment comments current').run b3 = .ok (r, b')) :
    ∃ G', Advances id t₀ G₀ target₀ b'.tree G' ⟨.none, current'⟩ := by
  have hmark : Advances id b.tree G ⟨.none, current⟩ b1.tree G ⟨.none, current⟩ := by
    rw [run_change hseq]
    exact (Advances.refl h.sound h.stands).write
      (fun w _ _ => rewrites_touch ⟨rfl, rfl, rfl, rfl, rfl, rfl⟩ fun s hs => .inl hs)
      fun s hs => absurd hs not_mem_nil
  have hzip : ∀ q ∈ branches.zip properties, q.2.needs = [] ∧ q.2.value.IsFilled :=
    fun q hq => hplain q.2 (of_mem_zip hq).2
  obtain ⟨-, hvalues, ss, hmounts, hss⟩ := resolveConditions_mounts _ hconds
  rw [hss fun q hq => (hzip q hq).1] at hmounts
  obtain ⟨G3, hstacks⟩ := hmounts.stacks hmark.sound hmark.stands.free
  have hstacked := hstacks.advances hmark.stands
  have hall := (h.trans hmark).trans hstacked
  have hheld := ((hparts.of_advances (h.stands.live h.sound) hmark).of_advances
    (hmark.stands.live hmark.sound) hstacked).sublist (heldBy_sublist hvalues)
  have hfilled : ∀ p ∈ ps, p.value.IsFilled := by
    intro p hp
    have hmem : p.value ∈ (branches.zip properties).map fun q => q.2.value := hvalues ▸ mem_map_of_mem hp
    obtain ⟨q, hq, heq⟩ := mem_map.1 hmem
    exact heq ▸ (hzip q hq).2
  -- The node is a conditional still, so its branches may have equal names.
  obtain ⟨w', hw', halike⟩ := hall.evolves.alike hget
  have hr := Rewires.of_rewrites (rewrites_branches ps (halike.generator.trans hgen) hfilled) hall.sound
    (hall.stands.live hall.sound) hw' hheld.toTakes (hstacks.bound hmark.stands.reaches)
  have hput := hall.change (f := fun w => { w with properties := ps }) hr rfl hheld.toSpare
  rw [← run_change hset] at hput
  exact ⟨G3, touchCurrent_advances hput hcomment (fun _ => ⟨rfl, rfl, rfl, rfl, rfl, rfl⟩) fun _ => rfl⟩

/-! ## The whole tree of items -/

/-- What is shown of a stage.  An item makes a new part, or works on the target; the properties among items
are set on the widget of the target, and the widgets of branches may go into the slots of a conditional node. -/
def Stage.Makes : Stage → Build → Build → Prop
  | .item _ target ids target', b, b' => ∀ ⦃G : Ledger⦄, G.Sound b.tree →
    (∃ id G', ids = [id] ∧ target' = target ∧ Yields b.tree G b'.tree G' id) ∨
      ids = [] ∧ ∀ ⦃hole : WidgetId⦄, Stands b.tree G target hole → (∀ s, ¬ G.scope target.current s) →
        ∃ G', Advances hole b.tree G target b'.tree G' target'
  | .items _ target ids target', b, b' => ∀ ⦃G : Ledger⦄ ⦃hole : WidgetId⦄, G.Sound b.tree →
    Stands b.tree G target hole → (∀ s, ¬ G.scope target.current s) →
      ∃ G', Advances hole b.tree G target b'.tree G' target' ∧ Loose b.tree.size b'.tree G' target'.current ids
  | .content _ target ids target', b, b' => ∀ ⦃G : Ledger⦄ ⦃hole : WidgetId⦄, G.Sound b.tree →
    Stands b.tree G target hole → (∀ s, ¬ G.scope target.current s) →
      ∃ G', Advances hole b.tree G target b'.tree G' target' ∧ Parts hole b.tree G target b'.tree G' target' ids
  | .property _ target target', b, b' | .properties _ target target', b, b' => ∀ ⦃G : Ledger⦄ ⦃hole : WidgetId⦄,
    G.Sound b.tree → Stands b.tree G target hole → target.inner = hole →
      ∃ G', Advances hole b.tree G target b'.tree G' target'
  | .branches _ current ps _ current', b, b' => ∀ ⦃G : Ledger⦄ ⦃hole : WidgetId⦄, G.Sound b.tree →
    Stands b.tree G ⟨WidgetId.none, current⟩ hole → (∀ s, ¬ G.scope current s) →
      ∃ G', Advances hole b.tree G ⟨WidgetId.none, current⟩ b'.tree G' ⟨WidgetId.none, current'⟩ ∧
        Parts hole b.tree G ⟨WidgetId.none, current⟩ b'.tree G' ⟨WidgetId.none, current'⟩ (heldBy ps) ∧
          ∀ p ∈ ps, p.needs = [] ∧ p.value.IsFilled

theorem Course.makes (h : Course o stage b b') : stage.Makes b b' := by
  induction h with
  | @widget _ _ _ _ _ _ _ target4 id _ _ _ _ _ _ _ _ _ _ _ hadd _ _ htext hset hattrs hcomment ihcontent ihproperties =>
    intro G hG
    obtain ⟨G1, hnew, hget⟩ := yields_add hG hadd rfl rfl rfl nofun
    obtain ⟨G2, ha1, hparts1⟩ := ihcontent hnew.sound (hnew.stands hget nofun (.inl rfl)) hnew.closed
    obtain ⟨G3, ha2⟩ := ihproperties ha1.sound ha1.stands ha1.inner
    obtain ⟨G4, ha3, hparts3⟩ := inlineText_parts ha2.sound ha2.stands (ha2.inner.trans ha1.inner) htext
    have hparts := (hparts1.of_advances (ha1.stands.live ha1.sound) ha2).followed (ha1.trans ha2) ha3 hparts3
    have hfull := setContent_advances ((ha1.trans ha2).trans ha3) hparts hset
    obtain ⟨G5, ha5⟩ := resolveAttributes_advances hfull.sound hfull.stands hfull.inner hattrs
    have hlast := touchCurrent_advances (hfull.trans ha5) hcomment (fun _ => ⟨rfl, rfl, rfl, rfl, rfl, rfl⟩)
      fun _ => rfl
    exact .inl ⟨target4.current, G5, rfl, rfl, hnew.advance hlast rfl⟩
  | beside => exact fun G hG => .inr ⟨rfl, fun hole hs _ => ⟨G, .refl hG hs⟩⟩
  | @callback _ _ outer _ _ current _ _ b b1 _ _ hhead _ hset ihcontent =>
    refine fun G hG => .inr ⟨rfl, fun hole hs hclosed => ?_⟩
    obtain ⟨G1, hstacks⟩ := (callbackHead_mounts hhead).2.stacks hG hs.free
    have ha1 : Advances hole b.tree G ⟨.none, outer.current⟩ b1.tree G1 ⟨.none, current⟩ :=
      Covers.advances hstacks.toCovers hs.detach
    obtain ⟨G2, ha2, hparts⟩ := ihcontent ha1.sound ha1.stands fun s hs => hclosed s (ha1.scope hs)
    have hlast := setCallback_advances ha2 hs.inner hparts fun s hneed =>
      ha2.evolves.scope_mono (ha1.stands.live ha1.sound) (hstacks.bound hs.reaches s hneed)
    rw [← run_change hset] at hlast
    exact ⟨G2, Advances.attach (ha1.trans hlast) hs.inner⟩
  | @conditional _ _ _ _ _ current' _ _ _ _ _ _ _ _ _ _ _ hadd _ hseq hconds hset hcomment ihbranches =>
    intro G hG
    obtain ⟨G1, hnew, hget⟩ := yields_add hG hadd rfl rfl rfl (by decide)
    obtain ⟨G2, ha, hparts, hplain⟩ := ihbranches hnew.sound (hnew.stands hget (by decide) (.inr rfl)) hnew.closed
    obtain ⟨G3, hlast⟩ := conditions_advance ha hparts hplain hget rfl hseq hconds hset hcomment
    exact .inl ⟨current', G3, rfl, rfl, hnew.advance hlast rfl⟩
  | nil => exact fun G hole hG hs _ => ⟨G, .refl hG hs, .nil⟩
  | @cons _ _ target target1 _ ids _ b b1 _ _ _ ihitem ihitems =>
    intro G hole hG hs hclosed
    have hfirst : ∃ G', Advances hole b.tree G target b1.tree G' target1 ∧
        Loose b.tree.size b1.tree G' target1.current ids := by
      rcases ihitem hG with ⟨id, G1, rfl, rfl, hnew⟩ | ⟨rfl, hworks⟩
      · exact ⟨G1, hnew.beside hG hs⟩
      · obtain ⟨G1, ha⟩ := hworks hs hclosed
        exact ⟨G1, ha, .nil⟩
    obtain ⟨G1, ha1, hloose1⟩ := hfirst
    obtain ⟨G2, ha2, hloose2⟩ := ihitems ha1.sound ha1.stands fun s hs => hclosed s (ha1.scope hs)
    exact ⟨G2, ha1.trans ha2, hloose1.append ha1.evolves.size ha2 hloose2⟩
  | content _ hfinish ihitems =>
    intro G hole hG hs hclosed
    obtain ⟨G1, hadvances, hloose⟩ := ihitems hG hs hclosed
    exact finishRun_parts hadvances hclosed hloose hfinish
  | pass | noProperties => exact fun G hole hG hs _ => ⟨G, .refl hG hs⟩
  | @text name _ _ _ _ _ value _ _ _ _ hvalue hjoin =>
    intro G hole hG hs hinner
    obtain ⟨htarget, hmounts⟩ := textValue_mounts hvalue
    obtain ⟨G1, hstacks⟩ := hmounts.stacks hG hs.free
    have hfirst := hstacks.advances hs
    rw [← htarget] at hfirst
    rw [run_change hjoin, hfirst.inner, hinner]
    refine ⟨G1, hfirst.write (fun w hw hplain => ?_) (hstacks.bound hs.reaches)⟩
    exact rewrites_joinProperty (p := .ofExpression name value) hw hplain (isFilled_text _)
  | fragment hadd _ _ hset hattrs hfrag hjoin ihcontent ihproperties =>
    intro G hole hG hs hinner
    obtain ⟨G1, hnew, hget⟩ := yields_add hG hadd rfl rfl rfl nofun
    obtain ⟨G2, ha1, hparts⟩ := ihcontent hnew.sound (hnew.stands hget nofun (.inl rfl)) hnew.closed
    obtain ⟨G3, ha2⟩ := ihproperties ha1.sound ha1.stands ha1.inner
    have hfull := setContent_advances (ha1.trans ha2) (hparts.of_advances (ha1.stands.live ha1.sound) ha2) hset
    obtain ⟨G4, ha3⟩ := resolveAttributes_advances hfull.sound hfull.stands hfull.inner hattrs
    have hall := hfull.trans ha3
    obtain ⟨rfl, G5, hoffers⟩ := fragmentProperty_offers (hnew.advance hall rfl) hall.stands hall.inner
      (fun w hw => by
        obtain ⟨w', hw', halike⟩ := hall.evolves.alike hget
        rw [hw] at hw'
        cases hw'
        exact halike.isCustom) hfrag
    rw [run_change hjoin, hinner]
    exact ⟨G5, hoffers.advances hG hs⟩
  | moreProperties _ _ ihitem ihitems =>
    intro G hole hG hs hinner
    obtain ⟨G1, ha1⟩ := ihitem hG hs hinner
    obtain ⟨G2, ha2⟩ := ihitems ha1.sound ha1.stands (ha1.inner.trans hinner)
    exact ⟨G2, ha1.trans ha2⟩
  | noBranches => exact fun G hole hG hs _ => ⟨G, .refl hG hs, .nil, nofun⟩
  | @moreBranches _ _ _ _ _ _ _ target1 _ _ _ _ _ _ _ ihcontent ihbranches =>
    intro G hole hG hs hclosed
    obtain ⟨G1, ha1, hparts1⟩ := ihcontent hG hs hclosed
    have htarget : target1 = ⟨.none, target1.current⟩ := congrArg (Target.mk · target1.current) ha1.inner
    rw [htarget] at ha1 hparts1
    obtain ⟨G2, ha2, hparts2, hplain⟩ := ihbranches ha1.sound ha1.stands fun s hs => hclosed s (ha1.scope hs)
    refine ⟨G2, ha1.trans ha2, ?_, forall_mem_cons.2 ⟨branchProperty_plain _ _, hplain⟩⟩
    rw [heldBy_branchProperty]
    exact hparts1.followed ha1 ha2 hparts2

end FlutterLayout.Layout
