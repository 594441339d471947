import FlutterLayout.Proofs.Layout.Layering

/-!
# LoopContent — what loop directives do with the content of a widget

A loop directive takes the content of its widget away and puts it into the loop: into a node that becomes the only
child, or into a callback (`Loops`).  It looks for one widget in the child and for a list in the children, so that
content of another kind is lost (`contentOf_eq_movable_iff`).
-/

namespace FlutterLayout.Layout

open List FlutterLayout.Tree Attribute
open Directive (Handler LoopHeader)

variable {o : Options} {b : Build} {t : Tree Deferral} {target : Target} {w : Widget}

/-! ## Content -/

def heldIn (w : Widget) (name : Text) : List WidgetId :=
  ((w.property? name).map fun p => p.value.held).getD []

/-- The widgets in the content of a widget, those of the child first. -/
def contentOf (w : Widget) : List WidgetId :=
  heldIn w childProperty ++ heldIn w childrenProperty

/-- The content that a loop directive takes. -/
def movable (w : Widget) : List WidgetId :=
  childIds (w.property? childProperty) ++ childrenIds (w.property? childrenProperty)

def isSingle : PropertyValue → Bool
  | .widgets ids => ids.isEmpty
  | .function (some f) => f.body.isEmpty
  | _ => true

def isListed : PropertyValue → Bool
  | .widget id | .fragment id => id = WidgetId.none
  | .function (some f) => f.body.isEmpty
  | _ => true

theorem held_eq_childIds_iff (p? : Option Property) : (p?.map fun p => p.value.held).getD [] = childIds p? ↔
    ∀ p ∈ p?, isSingle p.value = true := by
  cases p? with
  | none => simp [childIds]
  | some p =>
    obtain ⟨name, value⟩ := p
    cases value with
    | function f => cases f <;> simp [childIds, PropertyValue.held, isSingle]
    | _ => simp [childIds, PropertyValue.held, isSingle]

theorem held_eq_childrenIds_iff (p? : Option Property) : (p?.map fun p => p.value.held).getD [] = childrenIds p? ↔
    ∀ p ∈ p?, isListed p.value = true := by
  cases p? with
  | none => simp [childrenIds]
  | some p =>
    obtain ⟨name, value⟩ := p
    cases value with
    | function f => cases f <;> simp [childrenIds, PropertyValue.held, isListed]
    | _ => simp [childrenIds, PropertyValue.held, isListed]

/-- All content is taken if the child is no list or function of widgets, and the children are a list. -/
theorem contentOf_eq_movable_iff (w : Widget) : contentOf w = movable w ↔
    (∀ p ∈ w.property? childProperty, isSingle p.value = true) ∧
      ∀ p ∈ w.property? childrenProperty, isListed p.value = true := by
  rw [← held_eq_childIds_iff, ← held_eq_childrenIds_iff]
  refine ⟨fun h => ?_, fun h => congrArg₂ (· ++ ·) h.1 h.2⟩
  have hchild := (childIds_subperm (w.property? childProperty)).length_le
  have hkids := (childrenIds_subperm (w.property? childrenProperty)).length_le
  have hlength := congrArg length h
  simp only [movable, contentOf, heldIn, length_append] at hlength
  exact append_inj h (by lia)

theorem dropContent_perm (w : Widget) : Perm ((dropContent w).held ++ contentOf w) w.held := by
  have hkids := (w.remove childProperty).held_remove childrenProperty
  rw [children_remove_child] at hkids
  refine .trans ?_ (w.held_remove childProperty)
  refine (perm_append_comm.append_left _).trans ?_
  rw [← append_assoc]
  exact hkids.append_right _

theorem findProperty?_putProperty_of_ne (h : p.name ≠ name) (ps : List Property) :
    findProperty? name (putProperty p ps) = findProperty? name ps := by
  induction ps with
  | nil => simp [putProperty, findProperty?, h]
  | cons q ps ih =>
    by_cases hname : q.name = p.name
    · simp [putProperty, findProperty?, hname, h]
    · simp only [findProperty?] at ih
      simp only [putProperty, hname, if_false, findProperty?, find?_cons, ih]

theorem movable_set (hchild : p.name ≠ childProperty) (hkids : p.name ≠ childrenProperty) (w : Widget) :
    movable (w.set p) = movable w := by
  simp only [movable, Widget.property?, Widget.set, findProperty?_putProperty_of_ne hchild,
    findProperty?_putProperty_of_ne hkids]

/-! ## Directives -/

/-- What a loop directive makes of a widget: the ids are in a new node, its only child, or in a callback. -/
inductive Loops (ids : List WidgetId) (w : Widget) (bound : Int) (t' : Tree Deferral) : Handler → Widget → Prop where
  | node {loop : WidgetId} {v : Widget} (hnew : bound < loop) (hget : t'.get? loop = some v) (hheld : v.held = ids) :
      Loops ids w bound t' .childBuilder ((dropContent w).set (.ofWidgets childrenProperty [loop]))
  | callback {f : FunctionLiteral} {count : Pipe.Expression} {needs : List Pipe.Subscription} (hbody : f.body = ids) :
      Loops ids w bound t' .itemBuilder
        ((dropContent (w.set (.ofExpression "itemCount" count))).set (.ofFunction "itemBuilder" f needs))

theorem Layers.add (h : Layers target t layers f outer t') (hinner : target.inner ≤ t.size) (v : Widget) :
    Layers target t layers f outer (t'.add v).2 where
  size := Int.le_trans h.size (by rw [size_add]; lia)
  stacked := h.stacked.keep (Int.le_refl _) fun _ hget => get?_add_of_get? hget
  inner := (get?_add_of_le v (Int.le_trans hinner h.size)).trans h.inner
  others hx hne := (get?_add_of_le v (Int.le_trans hx h.size)).trans (h.others hx hne)

theorem Layers.const (h : Layers target t layers f outer t') (hw : t.get? target.inner = some w) :
    Layers target t layers (fun _ => f w) outer t' :=
  ⟨h.size, h.stacked, by rw [h.inner, hw]; rfl, h.others⟩

theorem held_loopNode (l : LoopHeader) (needs : List Pipe.Subscription) (body : List WidgetId) (tag : Text) :
    (loopNode l needs body tag).held = body := by
  simp [Widget.held, loopNode, heldBy, Property.ofWidgets]

theorem resolveValue_layers (hw : b.tree.get? target.inner = some w) (name value : Text) :
    ∃ e outer b1, (Build.resolveValue o name value target).run b = .ok ((e, outer), b1) ∧
      Layers target b.tree (builders e.subscriptions) (fun _ => w) outer b1.tree :=
  ⟨_, _, _, run_resolveValue hw rfl, (builders_layers _ (le_size_of_get? hw)).const hw⟩

theorem childBuilder_loops (hw : b.tree.get? target.inner = some w) (input : Input) :
    ∃ outer b' layers w', (childBuilder o input target).run b = .ok (.wrapped outer, b') ∧
      Loops (movable w) w b.tree.size b'.tree .childBuilder w' ∧
        Layers target b.tree layers (fun _ => w') outer b'.tree := by
  have hinner := le_size_of_get? hw
  obtain ⟨e, outer, ⟨t1, n⟩, hvalue, hbuilders⟩ :=
    resolveValue_layers (o := o) hw [] (LoopHeader.readLoose input.value).source
  have hids : contentIds t1 target.inner = movable w := by
    rw [contentIds, hbuilders.inner, hw]
    rfl
  let node := loopNode { LoopHeader.readLoose input.value with source := e.value } e.subscriptions
    (contentIds t1 target.inner) input.name
  let t2 := t1.modify target.inner dropContent
  let link (u : Widget) : Widget := u.set (.ofWidgets childrenProperty [(t2.add node).1])
  have hdrop := hbuilders.trans hinner (.modify ⟨target.inner, outer⟩ t1 dropContent)
  have hset := (hdrop.add hinner node).trans hinner (.modify ⟨target.inner, outer⟩ (t2.add node).2 link)
  have hloop : (b.tree.size : Int) < (t2.add node).1 := Int.lt_add_one_of_le hdrop.size
  have hne := Int.ne_of_gt (Int.lt_of_le_of_lt hinner hloop)
  refine ⟨outer, ⟨_, n⟩, _, _, ?_, .node hloop ((get?_modify_of_ne link hne).trans (get?_add_self node))
    ((held_loopNode ..).trans hids), hset.const hw⟩
  unfold childBuilder
  rw [run_bind_of_run hvalue]
  rfl

theorem itemBuilder_loops (hw : b.tree.get? target.inner = some w) (input : Input) :
    ∃ outer b' layers w', (itemBuilder o input target).run b = .ok (.wrapped outer, b') ∧
      Loops (movable w) w b.tree.size b'.tree .itemBuilder w' ∧
        Layers target b.tree layers (fun _ => w') outer b'.tree := by
  have hinner := le_size_of_get? hw
  obtain ⟨e, outer, ⟨t1, n⟩, hvalue, hbuilders⟩ :=
    resolveValue_layers (o := o) hw [] (LoopHeader.readLoose input.value).source
  let count : Pipe.Expression := ⟨e.value ++ ".length", e.subscriptions⟩
  have hcount := hbuilders.trans hinner
    (.modify ⟨target.inner, outer⟩ t1 fun u => u.set (.ofExpression "itemCount" count))
  let t2 := t1.modify target.inner fun u => u.set (.ofExpression "itemCount" count)
  have hids : contentIds t2 target.inner = movable w := by
    have hchild : Text.ofString "itemCount" ≠ childProperty := by decide
    have hkids : Text.ofString "itemCount" ≠ childrenProperty := by decide
    rw [contentIds, hcount.inner, hw]
    exact movable_set hchild hkids w
  let f : FunctionLiteral :=
    { params := ["BuildContext context", "int " ++ (LoopHeader.readLoose input.value).index]
      statements := [LoopHeader.declaration { LoopHeader.readLoose input.value with source := e.value }]
      body := contentIds t2 target.inner
      binds := [(LoopHeader.readLoose input.value).index, (LoopHeader.readLoose input.value).item] }
  have hset := (hcount.trans hinner (.modify ⟨target.inner, outer⟩ t2 dropContent)).trans hinner
    (.modify ⟨target.inner, outer⟩ _ fun u => u.set (.ofFunction "itemBuilder" f e.subscriptions))
  refine ⟨outer, ⟨_, n⟩, _, _, ?_, .callback hids, hset.const hw⟩
  unfold itemBuilder
  rw [run_bind_of_run hvalue]
  rfl

/-- A loop directive moves the child and then the children into the loop and leaves all else as it is.  That is the
whole content exactly when the child is no list or callback of widgets and the children are a list. -/
theorem apply_loops (hhandler : handler = .childBuilder ∨ handler = .itemBuilder)
    (hw : b.tree.get? target.inner = some w) (input : Input) :
    (∃ outer b' layers w', (apply o handler input target).run b = .ok (.wrapped outer, b') ∧
      Loops (movable w) w b.tree.size b'.tree handler w' ∧ Layers target b.tree layers (fun _ => w') outer b'.tree) ∧
    Perm ((dropContent w).held ++ contentOf w) w.held ∧
    (contentOf w = movable w ↔ (∀ p ∈ w.property? childProperty, isSingle p.value = true) ∧
      ∀ p ∈ w.property? childrenProperty, isListed p.value = true) := by
  refine ⟨?_, dropContent_perm w, contentOf_eq_movable_iff w⟩
  rcases hhandler with rfl | rfl
  · exact childBuilder_loops hw input
  · exact itemBuilder_loops hw input

def filledBox : Widget :=
  { type := "Box", properties := [.ofWidgets childrenProperty [2, 3], { name := childProperty, value := .fragment 4 }] }

def boxInput : Input :=
  { name := ":childBuilder", value := "x of xs | stream", element := .mk "Box" [] ⟨1, 1⟩ [] }

theorem apply_loops_filledBox : movable filledBox = [4, 2, 3] ∧ ∃ outer b' layers w',
    (apply Options.standard .childBuilder boxInput (.bare 1)).run { tree := { widgets := [filledBox] } }
        = .ok (.wrapped outer, b') ∧ Loops (movable filledBox) filledBox 1 b'.tree .childBuilder w' ∧
      Layers (.bare 1) { widgets := [filledBox] } layers (fun _ => w') outer b'.tree :=
  ⟨by decide, (apply_loops (.inl rfl) rfl boxInput).1⟩

def listedBox : Widget :=
  { type := "Box", properties := [.ofWidgets childProperty [2, 3]] }

theorem exists_lost_content : contentOf listedBox = [2, 3] ∧
    (((apply Options.standard .itemBuilder boxInput (.bare 1)).run { tree := { widgets := [listedBox] } }).toOption.all
      fun r => r.2.tree.widgets.all fun w => w.held.all fun id => id ≠ 2 && id ≠ 3) = true := by
  decide

end FlutterLayout.Layout
