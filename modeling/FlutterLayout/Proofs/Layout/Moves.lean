import FlutterLayout.Proofs.Layout.Writers

/-!
# Moves — what the steps of construction do to the tree

The steps of construction are runs of a state monad, and much is to be shown of the trees they leave.  So the
runs are read once, here, and what they do to the tree is said without the monad:

* `Mounts` — builders are put around a widget;
* `Amends` — a widget gets texts and notes, and builders around it for the values in them;
* `Directs` — a directive amends its target, puts a widget around it or between it and its child, or moves
  its content.
-/

namespace FlutterLayout.Layout

open List Build Attribute

/-! ## Runs -/

section Runs

variable {α β : Type} {b b' : Build} {a a' : α} {id : WidgetId}

/-- A run of two steps is a run of the first and then a run of the second. -/
theorem run_bind {f : α → BuildM β} (h : (m >>= f).run b = .ok r) :
    ∃ a b', m.run b = .ok (a, b') ∧ (f a).run b' = .ok r := by
  change (m.run b >>= fun p => (f p.1).run p.2) = .ok r at h
  cases hm : m.run b with
  | error e =>
    rw [hm] at h
    cases h
  | ok p =>
    rw [hm] at h
    exact ⟨p.1, p.2, rfl, h⟩

theorem run_bind_of_run {f : α → BuildM β} (h : m.run b = .ok (a, b')) :
    (m >>= f).run b = (f a).run b' := by
  rw [StateT.run_bind, h]
  rfl

theorem run_pure (h : (pure a : BuildM α).run b = .ok (a', b')) : a' = a ∧ b' = b := by
  cases h
  exact ⟨rfl, rfl⟩

theorem run_last {m : BuildM α} {f : α → β} (h : (m >>= fun a => pure (f a)).run b = .ok (r, b')) :
    ∃ a, m.run b = .ok (a, b') ∧ r = f a := by
  obtain ⟨a, b1, hm, hpure⟩ := run_bind h
  obtain ⟨rfl, rfl⟩ := run_pure hpure
  exact ⟨a, hm, rfl⟩

theorem run_add (h : (add w).run b = .ok (id, b')) :
    id = (b.tree.add w).1 ∧ b'.tree = (b.tree.add w).2 := by
  cases h
  exact ⟨rfl, rfl⟩

theorem run_change (h : (change id f).run b = .ok (r, b')) : b'.tree = b.tree.modify id f := by
  cases h
  rfl

theorem run_put (h : (put id p).run b = .ok (r, b')) : b'.tree = b.tree.modify id fun w => w.set p :=
  run_change h

theorem run_typeOf (h : (typeOf id).run b = .ok (type, b')) : b' = b := by
  cases h
  rfl

theorem run_typeOf_of_get? (hw : b.tree.get? id = some w) : (typeOf id).run b = .ok (w.type, b) := by
  change Except.ok (((b.tree.get? id).map Widget.type).getD [], b) = _
  rw [hw]
  rfl

theorem run_find? (h : (Build.find? id).run b = .ok (w?, b')) : w? = b.tree.get? id ∧ b' = b := by
  cases h
  exact ⟨rfl, rfl⟩

theorem run_property? (h : (property? id name).run b = .ok (p?, b')) :
    (p? = (b.tree.get? id).bind fun w => w.property? name) ∧ b' = b := by
  cases h
  exact ⟨rfl, rfl⟩

theorem run_get (h : (get : BuildM Build).run b = .ok (c, b')) : c = b ∧ b' = b := by
  cases h
  exact ⟨rfl, rfl⟩

end Runs

variable {t t' t'' : Tree Deferral} {target target' : Target} {o : Options} {b b' : Build}

/-! ## Builders -/

/-- Builders of `subscriptions` are added around `id` one by one, and `outer` is the outermost one. -/
inductive Mounts : List Pipe.Subscription → (id : WidgetId) → Tree Deferral → (outer : WidgetId) →
    Tree Deferral → Prop where
  | nil {id : WidgetId} {t : Tree Deferral} : Mounts [] id t id t
  | cons {s : Pipe.Subscription} {ss : List Pipe.Subscription} {flag : Bool} {id outer : WidgetId}
      {t t' : Tree Deferral}
      (h : Mounts ss (t.add (Pipe.builder { s with skipNullCheck := flag } id)).1
        (t.add (Pipe.builder { s with skipNullCheck := flag } id)).2 outer t') : Mounts (s :: ss) id t outer t'

theorem Mounts.trans {id : WidgetId} (h : Mounts ss id t outer t') (h' : Mounts ss' outer t' outer' t'') :
    Mounts (ss ++ ss') id t outer' t'' := by
  induction h with
  | nil => exact h'
  | cons _ ih => exact .cons (ih h')

theorem mounts_stackBuilders (flag : Bool) (subscriptions : List Pipe.Subscription) (id : WidgetId)
    (t : Tree Deferral) : Mounts subscriptions id t (Pipe.stackBuilders flag subscriptions id t).1
      (Pipe.stackBuilders flag subscriptions id t).2 := by
  induction subscriptions generalizing id t with
  | nil => exact .nil
  | cons s subscriptions ih => exact .cons (ih _ _)

/-! ## Values -/

theorem run_readPipes {id : WidgetId} (hrun : (readPipes o value id flag).run b = .ok ((e, outer), b')) :
    (outer, b'.tree) = Pipe.stackBuilders flag e.subscriptions id b.tree := by
  simp only [readPipes, StateT.run, modifyGet, MonadStateOf.modifyGet, StateT.modifyGet, pure,
    Except.pure] at hrun
  injection hrun with hrun
  generalize o.reading.read _ value b.placeholders = r at hrun
  cases r
  cases hrun
  rfl

/-- A value that no literal rule takes has its builders around the target, and a literal has none. -/
theorem resolveValue_mounts {name value : Text} {flag : Bool} {e : Pipe.Expression} {outer : WidgetId}
    (hrun : (resolveValue o name value target flag).run b = .ok ((e, outer), b')) :
    Mounts e.subscriptions target.current b.tree outer b'.tree := by
  obtain ⟨type, b1, htype, hrun⟩ := run_bind hrun
  rw [run_typeOf htype] at hrun
  generalize (if name.isEmpty then none else o.literals.apply? name value type) = literal? at hrun
  cases literal? with
  | some v =>
    cases hrun
    exact .nil
  | none =>
    have hmounts := mounts_stackBuilders flag e.subscriptions target.current b.tree
    rwa [← run_readPipes hrun] at hmounts

theorem interpolate_mounts (ps : List Piece) {e : Pipe.Expression}
    (hrun : (interpolate o ps target).run b = .ok ((e, target'), b')) :
    target' = { target with current := target'.current } ∧
      Mounts e.subscriptions target.current b.tree target'.current b'.tree := by
  induction ps generalizing b target e with
  | nil =>
    obtain ⟨⟨⟩, rfl⟩ := run_pure hrun
    exact ⟨rfl, .nil⟩
  | cons p ps ih =>
    cases p with
    | characters t =>
      obtain ⟨⟨rest, target1⟩, hmore, ⟨⟩⟩ := run_last hrun
      have hmounts := ih hmore
      exact hmounts
    | hole expression =>
      obtain ⟨⟨e1, current⟩, b1, hvalue, hrest⟩ := run_bind hrun
      obtain ⟨⟨rest, target1⟩, hmore, ⟨⟩⟩ := run_last hrest
      obtain ⟨htarget, hmounts⟩ := ih hmore
      exact ⟨htarget, (resolveValue_mounts hvalue).trans hmounts⟩

theorem textValue_mounts {text : Text} {e : Pipe.Expression}
    (hrun : (textValue o text target).run b = .ok ((e, target'), b')) :
    target' = { target with current := target'.current } ∧
      Mounts e.subscriptions target.current b.tree target'.current b'.tree := by
  unfold textValue at hrun
  split at hrun
  · obtain ⟨⟨e1, current⟩, hvalue, ⟨⟩⟩ := run_last hrun
    exact ⟨rfl, resolveValue_mounts hvalue⟩
  · obtain ⟨⟨inside, target1⟩, hinside, ⟨⟩⟩ := run_last hrun
    have hmounts := interpolate_mounts _ hinside
    exact hmounts

theorem callbackHead_mounts {e : Markup.Element} {head : CallbackHead} {current : WidgetId}
    (hrun : (callbackHead o e target).run b = .ok ((head, current), b')) :
    head.property = e.attributeOr "name" "builder" ∧ Mounts head.needs target.current b.tree current b'.tree := by
  unfold callbackHead at hrun
  dsimp only at hrun
  split at hrun
  · obtain ⟨⟨source, outer⟩, hvalue, ⟨⟩⟩ := run_last hrun
    exact ⟨rfl, resolveValue_mounts hvalue⟩
  · obtain ⟨⟨⟩, rfl⟩ := run_pure hrun
    exact ⟨rfl, .nil⟩

/-- The conditions are stacked in turn, and the branches keep their names and their widgets. -/
theorem resolveConditions_mounts {isSequence : Bool} {id current current' : WidgetId}
    (branches : List (Branch × Property)) {ps : List Property}
    (hrun : (resolveConditions o isSequence id branches current).run b = .ok ((ps, current'), b')) :
    ps.map Property.name = branches.map (fun q => q.2.name) ∧
      ps.map Property.value = branches.map (fun q => q.2.value) ∧ ∃ ss, Mounts ss current b.tree current' b'.tree ∧
          ((∀ q ∈ branches, q.2.needs = []) → ss = ps.flatMap Property.needs) := by
  induction branches generalizing b current ps with
  | nil =>
    obtain ⟨⟨⟩, rfl⟩ := run_pure hrun
    exact ⟨rfl, rfl, [], .nil, fun _ => rfl⟩
  | cons q branches ih =>
    obtain ⟨branch, p⟩ := q
    unfold resolveConditions at hrun
    split at hrun
    · obtain ⟨⟨ps1, current1⟩, hmore, ⟨⟩⟩ := run_last hrun
      obtain ⟨hnames, hvalues, ss, hmounts, hss⟩ := ih hmore
      refine ⟨by simp [hnames], by simp [hvalues], ss, hmounts, fun hneeds => ?_⟩
      rw [forall_mem_cons] at hneeds
      rw [flatMap_cons, hneeds.1, nil_append, hss hneeds.2]
    · obtain ⟨_, _, ⟨⟩, hrun⟩ := run_bind hrun
      split at hrun
      · cases hrun
      · obtain ⟨⟨condition, current1⟩, b1, hvalue, hrest⟩ := run_bind hrun
        obtain ⟨⟨ps1, current2⟩, hmore, ⟨⟩⟩ := run_last hrest
        obtain ⟨hnames, hvalues, ss, hmounts, hss⟩ := ih hmore
        refine ⟨by simp [hnames], by simp [hvalues], _, (resolveValue_mounts hvalue).trans hmounts, fun hneeds => ?_⟩
        rw [flatMap_cons, ← hss fun q hq => hneeds q (mem_cons_of_mem _ hq)]

/-! ## Texts and notes -/

def dropContent (w : Widget) : Widget :=
  (w.remove childProperty).remove childrenProperty

def contentIds (t : Tree Deferral) (id : WidgetId) : List WidgetId :=
  childIds ((t.get? id).bind fun w => w.property? childProperty)
    ++ childrenIds ((t.get? id).bind fun w => w.property? childrenProperty)

/-- A text of one of the names is set, or a field that holds no widget changes.  What is new uses the
variables of `ss`. -/
inductive Annotates (names : List Text) (ss : List Pipe.Subscription) : (Widget → Widget) → Prop where
  | text {p : Property} {v : Text} (hvalue : p.value = .text v) (hneeds : p.needs ⊆ ss) (hname : p.name ∈ names) :
      Annotates names ss fun w => w.set p
  | touch {f : Widget → Widget} (htouches : ∀ w, Touches w (f w))
      (hsame : ∀ w, (f w).isSequence = w.isSequence ∧ (f w).tag = w.tag ∧ (f w).type = w.type)
      (hneeds : ∀ w, ∀ s ∈ (f w).needs, s ∈ w.needs ∨ s ∈ ss) : Annotates names ss f

/-- The widget `id` is annotated, and the builders of its values go around `current`. -/
inductive Amends (names : List Text) (id current : WidgetId) (t : Tree Deferral) :
    (outer : WidgetId) → Tree Deferral → Prop where
  | refl : Amends names id current t current t
  | note {ss : List Pipe.Subscription} {f : Widget → Widget} {middle outer : WidgetId} {t₁ t₂ : Tree Deferral}
      (h : Amends names id current t middle t₁) (hm : Mounts ss middle t₁ outer t₂) (hf : Annotates names ss f) :
      Amends names id current t outer (t₂.modify id f)

section Amends

variable {names : List Text} {id current middle outer : WidgetId} {r : Unit}

theorem Mounts.outer_cases (h : Mounts ss id t outer t') : outer = id ∨ 0 < outer := by
  induction h with
  | nil => exact .inl rfl
  | cons _ ih =>
    right
    rcases ih with heq | hpos
    · rw [heq, Tree.add_fst]
      lia
    · exact hpos

theorem Amends.outer_cases (h : Amends names id current t outer t') : outer = current ∨ 0 < outer := by
  induction h with
  | refl => exact .inl rfl
  | note _ hm _ ih =>
    rcases hm.outer_cases with rfl | hpos
    · exact ih
    · exact .inr hpos

section

variable (h : Amends names id current t middle b.tree)
include h

theorem Amends.put (hrun : (put id p).run b = .ok (r, b')) (hvalue : p.value = .text v) (hneeds : p.needs = [])
    (hname : p.name ∈ names) : Amends names id current t middle b'.tree := by
  rw [run_put hrun]
  exact h.note .nil (.text hvalue (by simp [hneeds]) hname)

theorem Amends.touch (hrun : (change id f).run b = .ok (r, b')) (htouches : ∀ w, Touches w (f w))
    (hsame : ∀ w, (f w).isSequence = w.isSequence ∧ (f w).tag = w.tag ∧ (f w).type = w.type)
    (hneeds : ∀ w, (f w).needs = w.needs) : Amends names id current t middle b'.tree := by
  rw [run_change hrun]
  exact h.note .nil (.touch htouches hsame fun w s hs => .inl (hneeds w ▸ hs))

theorem setProperty_amends {name value : Text} (hname : name ∈ names)
    (hpositional : [] ∈ names) (hrun : (setProperty o name value ⟨id, middle⟩).run b = .ok (outer, b')) :
    Amends names id current t outer b'.tree := by
  obtain ⟨⟨e, current⟩, b1, hvalue, hrun⟩ := run_bind hrun
  obtain ⟨type, b2, htype, hrun⟩ := run_bind hrun
  obtain ⟨_, hput, rfl⟩ := run_last hrun
  rw [run_put hput, run_typeOf htype]
  refine h.note (resolveValue_mounts hvalue) (.text rfl (.refl _) ?_)
  simp only [Property.ofExpression, argumentName]
  split
  · exact hpositional
  · exact hname

end

theorem run_setProperty (hrun : (setProperty o name value target).run b = .ok (outer, b')) :
    Amends [[], name] target.inner target.current b.tree outer b'.tree :=
  setProperty_amends .refl (mem_cons_of_mem [] mem_cons_self) mem_cons_self hrun

end Amends

/-! ## Directives -/

def textNames : Directive.Handler → List Text
  | .wrapper spec => [] :: spec.property :: (spec.related.map Prod.snd ++ spec.defaults.map Prod.fst)
  | .animation => [[], "animation"]
  | .formControl => ["onChanged", "controller", "value", "groupValue"]
  | .controller => ["controller"]
  | _ => []

inductive Shell (current : WidgetId) : Directive.Handler → Widget → Prop where
  | wrapper (spec : Directive.WrapperSpec) (tag : Text) : Shell current (.wrapper spec)
      { type := spec.widget, isCustom := true, tag := tag, wrapped := current }
  | animation {f : FunctionLiteral} (hbody : f.body = [current]) (tag : Text) : Shell current .animation
      { type := "AnimatedBuilder", isCustom := true, tag := tag, properties := [.ofFunction "builder" f []] }
  | condition (tag : Text) : Shell current .condition
      { wrapped := current, isCustom := true, tag := tag, generator := Directive.conditionName }
  | «repeat» (l : Directive.LoopHeader) (tag : Text) : Shell current .repeat (loopNode l [] [current] tag)

inductive Directs (target : Target) (t : Tree Deferral) : Directive.Handler → Target → Tree Deferral → Prop where
  | amend {handler : Directive.Handler} {outer : WidgetId} {t' : Tree Deferral}
      (h : Amends (textNames handler) target.inner target.current t outer t') :
      Directs target t handler { target with current := outer } t'
  | around {handler : Directive.Handler} {w : Widget} {outer : WidgetId} {t' : Tree Deferral}
      (hw : Shell target.current handler w)
      (h : Amends (textNames handler) (t.add w).1 (t.add w).1 (t.add w).2 outer t') :
      Directs target t handler { target with current := outer } t'
  | between {spec : Directive.WrapperSpec} {tag : Text} {w : Widget} {outer : WidgetId} {t' : Tree Deferral}
      (hlist : ((t.get? target.inner).bind fun w => w.property? childrenProperty) = none)
      (hw : w = takeOver ((t.get? target.inner).bind fun w => w.property? childProperty)
        { type := spec.widget, isCustom := true, tag := tag })
      (h : Amends (textNames (.wrapper spec)) (t.add w).1 (t.add w).1
        ((t.add w).2.modify target.inner fun w => w.remove childProperty) outer t') :
      Directs target t (.wrapper spec) target (t'.modify target.inner fun w => w.set (.ofWidget childProperty outer))
  | disable {e : Pipe.Expression} {outer : WidgetId} {t' : Tree Deferral}
      (hm : Mounts e.subscriptions target.current t outer t') :
      Directs target t .disable { target with current := outer }
        (t'.defer target.inner (.disable target.current e))
  | childBuilder {ss : List Pipe.Subscription} {l : Directive.LoopHeader} {tag : Text} {outer : WidgetId}
      {t₁ t₂ : Tree Deferral} {w : Widget} (hm : Mounts ss target.current t outer t₁)
      (htake : t₂ = t₁.modify target.inner dropContent)
      (hw : w = loopNode l ss (contentIds t₁ target.inner) tag) :
      Directs target t .childBuilder { target with current := outer }
        ((t₂.add w).2.modify target.inner fun v => v.set (.ofWidgets childrenProperty [(t₂.add w).1]))
  | itemBuilder {ss : List Pipe.Subscription} {count : Text} {f : FunctionLiteral} {outer : WidgetId}
      {t₁ t₂ : Tree Deferral} (hm : Mounts ss target.current t outer t₁)
      (hcount : t₂ = t₁.modify target.inner fun w => w.set (.ofExpression "itemCount" ⟨count, ss⟩))
      (hbody : f.body = contentIds t₂ target.inner) :
      Directs target t .itemBuilder { target with current := outer }
        ((t₂.modify target.inner dropContent).modify target.inner fun w => w.set (.ofFunction "itemBuilder" f ss))

theorem Directs.inner (h : Directs target t handler target' t') : target'.inner = target.inner := by
  cases h <;> rfl

def Outcome.onto (outcome : Outcome) (target : Target) : Target :=
  if outcome.wrapper = WidgetId.none then target else { target with current := outcome.wrapper }

namespace Attribute

variable {spec : Directive.WrapperSpec} {input : Input} {outcome : Outcome} {id current middle outer : WidgetId}

/-- Whether something was put around the target or not, the directive ends with its outermost widget. -/
theorem onto_wrapped (h : outer = target.current ∨ 0 < outer) :
    (Outcome.wrapped outer).onto target = { target with current := outer } := by
  unfold Outcome.onto Outcome.wrapped
  split
  · rename_i hnone
    change outer = .none at hnone
    rcases h with heq | hpos
    · rw [heq]
    · rw [hnone] at hpos
      cases hpos
  · rfl

theorem fillRelated_amends (names : List Text) (h : Amends (textNames (.wrapper spec)) id current t middle b.tree)
    (hrun : (fillRelated o spec input id names middle).run b = .ok (outer, b')) :
    Amends (textNames (.wrapper spec)) id current t outer b'.tree := by
  induction names generalizing b middle with
  | nil =>
    obtain ⟨rfl, rfl⟩ := run_pure hrun
    exact h
  | cons name names ih =>
    unfold fillRelated at hrun
    split at hrun
    · obtain ⟨current', b1, hset, hrun⟩ := run_bind hrun
      refine ih (setProperty_amends h ?_ mem_cons_self hset) hrun
      cases hlookup : spec.related.lookup name with
      | none => exact mem_cons_self
      | some property =>
        obtain ⟨front, back, hrel, -⟩ := lookup_eq_some_iff.1 hlookup
        simp [textNames, hrel]
    · exact ih h hrun

theorem amends_defaults (defaults : List (Text × Text)) (hnames : ∀ d ∈ defaults, d.1 ∈ textNames (.wrapper spec))
    (h : Amends (textNames (.wrapper spec)) id current t middle t') :
    Amends (textNames (.wrapper spec)) id current t middle
      (t'.modify id fun w => defaults.foldl (fun w d => w.set (.ofText d.1 d.2)) w) := by
  induction defaults generalizing t' with
  | nil =>
    rw [Tree.modify_eq_self]
    · exact h
    · exact fun _ _ => rfl
  | cons d defaults ih =>
    obtain ⟨hname, hnames⟩ := forall_mem_cons.1 hnames
    have hrest := ih hnames (h.note .nil (.text (p := .ofText d.1 d.2) rfl (nil_subset _) hname))
    rwa [Tree.modify_modify] at hrest

theorem fill_amends (h : Amends (textNames (.wrapper spec)) id current t id b.tree)
    (hrun : (fill o spec input id).run b = .ok (outer, b')) :
    Amends (textNames (.wrapper spec)) id current t outer b'.tree := by
  obtain ⟨_, b1, hdefs, hrun⟩ := run_bind hrun
  have hfirst : Amends (textNames (.wrapper spec)) id current t id b1.tree := by
    rw [run_change hdefs]
    refine amends_defaults _ (fun d hd => ?_) h
    have hmem : d.1 ∈ spec.defaults.map Prod.fst := mem_map_of_mem (mem_mergeSort.1 hd)
    simp [textNames, hmem]
  dsimp only at hrun
  split at hrun
  · exact fillRelated_amends _ hfirst hrun
  · obtain ⟨current, b2, hprop, hrun⟩ := run_bind hrun
    exact fillRelated_amends _
      (setProperty_amends hfirst (mem_cons_of_mem _ mem_cons_self) mem_cons_self hprop) hrun

theorem around_directs (hw : Shell target.current handler w)
    (h : Amends (textNames handler) (t.add w).1 (t.add w).1 (t.add w).2 outer t') :
    Directs target t handler ((Outcome.wrapped outer).onto target) t' := by
  rw [onto_wrapped]
  · exact .around hw h
  · right
    rcases h.outer_cases with heq | hpos
    · rw [heq, Tree.add_fst]
      lia
    · exact hpos

/-- All runs of the step do to the target what the directive does. -/
def Performs (handler : Directive.Handler) (target : Target) (m : BuildM Outcome) : Prop :=
  ∀ {b : Build} {outcome : Outcome} {b' : Build}, m.run b = .ok (outcome, b') →
    Directs target b.tree handler (outcome.onto target) b'.tree

theorem wrapper_directs : Performs (.wrapper spec) target (wrapper o spec input target) := by
  intro b outcome b' hrun
  obtain ⟨children?, b1, hkids, hrest⟩ := run_bind hrun
  obtain ⟨hkids, rfl⟩ := run_property? hkids
  dsimp only at hrest
  split at hrest
  · rename_i hchild
    obtain ⟨child?, b2, hchild?, hrest⟩ := run_bind hrest
    obtain ⟨id, b3, hadd, hrest⟩ := run_bind hrest
    obtain ⟨_, b4, hremove, hrest⟩ := run_bind hrest
    obtain ⟨outer, b5, hfill, hrest⟩ := run_bind hrest
    obtain ⟨_, hput, rfl⟩ := run_last hrest
    obtain ⟨rfl, rfl⟩ := run_property? hchild?
    obtain ⟨rfl, hnew⟩ := run_add hadd
    have hfilled := fill_amends .refl hfill
    rw [run_change hremove, hnew] at hfilled
    rw [run_put hput]
    refine .between ?_ rfl hfilled
    rw [hkids] at hchild
    simpa using (Bool.and_eq_true_iff.1 hchild).2
  · obtain ⟨id, b2, hadd, hrest⟩ := run_bind hrest
    obtain ⟨outer, hfill, rfl⟩ := run_last hrest
    obtain ⟨rfl, hnew⟩ := run_add hadd
    have hfilled := fill_amends .refl hfill
    rw [hnew] at hfilled
    exact around_directs (.wrapper spec input.name) hfilled

theorem animation_directs : Performs .animation target (animation o input target) := by
  intro b outcome b' hrun
  obtain ⟨id, b1, hadd, hrest⟩ := run_bind hrun
  obtain ⟨outer, hset, rfl⟩ := run_last hrest
  obtain ⟨rfl, hnew⟩ := run_add hadd
  have hamends : Amends (textNames .animation) _ _ _ _ _ :=
    setProperty_amends .refl (mem_cons_of_mem [] mem_cons_self) mem_cons_self hset
  rw [hnew] at hamends
  exact around_directs (.animation rfl input.name) hamends

theorem noteValue_directs {f : Pipe.Expression → Widget → Widget}
    (hw : Shell target.current handler w)
    (hadd : (add w).run b = .ok (id, b1))
    (hvalue : (resolveValue o [] value (.bare id)).run b1 = .ok ((e, outer), b2))
    (hnote : (change id (f e)).run b2 = .ok (r, b')) (htouches : ∀ w, Touches w (f e w))
    (hsame : ∀ w, (f e w).isSequence = w.isSequence ∧ (f e w).tag = w.tag ∧ (f e w).type = w.type)
    (hnoted : ∀ w, (f e w).needs = e.subscriptions) :
    Directs target b.tree handler ((Outcome.wrapped outer).onto target) b'.tree := by
  obtain ⟨rfl, hnew⟩ := run_add hadd
  have hmounts := resolveValue_mounts hvalue
  rw [hnew] at hmounts
  rw [run_change hnote]
  exact around_directs hw (.note .refl hmounts (.touch htouches hsame fun w s hs => .inr (hnoted w ▸ hs)))

theorem condition_directs : Performs .condition target (condition o input target) := by
  intro b outcome b' hrun
  obtain ⟨id, b1, hadd, hrest⟩ := run_bind hrun
  obtain ⟨⟨e, outer⟩, b2, hvalue, hrest⟩ := run_bind hrest
  obtain ⟨_, hnote, rfl⟩ := run_last hrest
  exact noteValue_directs (f := fun e w => { w with condition := some e.value, needs := e.subscriptions })
    (.condition input.name) hadd hvalue hnote (fun _ => ⟨rfl, rfl, rfl, rfl, rfl, rfl⟩)
    (fun _ => ⟨rfl, rfl, rfl⟩) fun _ => rfl

theorem repeat_directs : Performs .repeat target («repeat» o input target) := by
  intro b outcome b' hrun
  obtain ⟨id, b1, hadd, hrest⟩ := run_bind hrun
  obtain ⟨⟨e, outer⟩, b2, hvalue, hrest⟩ := run_bind hrest
  obtain ⟨_, hnote, rfl⟩ := run_last hrest
  exact noteValue_directs
    (f := fun e w => { w with loop := some { Directive.LoopHeader.readLoose input.value with source := e.value }
                              needs := e.subscriptions })
    (.repeat _ input.name) hadd hvalue hnote (fun _ => ⟨rfl, rfl, rfl, rfl, rfl, rfl⟩)
    (fun _ => ⟨rfl, rfl, rfl⟩) fun _ => rfl

theorem disable_directs : Performs .disable target (disable o input target) := by
  intro b outcome b' hrun
  obtain ⟨⟨e, outer⟩, b1, hvalue, hrest⟩ := run_bind hrun
  obtain ⟨_, hdefer, rfl⟩ := run_last hrest
  have hmounts := resolveValue_mounts hvalue
  have htree : b'.tree = b1.tree.defer target.inner (.disable target.current e) := by
    cases hdefer
    rfl
  rw [onto_wrapped hmounts.outer_cases, htree]
  exact .disable hmounts

theorem controller_directs : Performs .controller target (controller o input target) := by
  intro b outcome b' hrun
  obtain ⟨type, b1, htype, hrest⟩ := run_bind hrun
  obtain ⟨_, b2, hdecl, hrest⟩ := run_bind hrest
  obtain ⟨_, hput, rfl⟩ := run_last hrest
  rw [run_typeOf htype] at hdecl
  have hdeclared : Amends (textNames .controller) _ target.current _ _ _ := Amends.refl.touch hdecl
    (fun _ => ⟨rfl, rfl, rfl, rfl, rfl, rfl⟩) (fun _ => ⟨rfl, rfl, rfl⟩) fun _ => rfl
  exact .amend (hdeclared.put hput rfl rfl mem_cons_self)

theorem formControl_directs : Performs .formControl target (formControl o input target) := by
  intro b outcome b' hrun
  obtain ⟨type, b1, htype, hrest⟩ := run_bind hrun
  obtain ⟨_, b2, hdecl, hrest⟩ := run_bind hrest
  obtain ⟨_, b3, hchanged, hrest⟩ := run_bind hrest
  rw [run_typeOf htype] at hdecl
  have hdeclared : Amends (textNames .formControl) _ target.current _ _ _ := Amends.refl.touch hdecl
    (fun _ => ⟨rfl, rfl, rfl, rfl, rfl, rfl⟩) (fun _ => ⟨rfl, rfl, rfl⟩) fun _ => rfl
  have hevent := hdeclared.put hchanged rfl rfl mem_cons_self
  split at hrest
  · obtain ⟨_, hput, rfl⟩ := run_last hrest
    exact .amend (hevent.put hput rfl rfl (mem_cons_of_mem _ mem_cons_self))
  · obtain ⟨⟨e, outer⟩, b4, hvalue, hrest⟩ := run_bind hrest
    obtain ⟨_, hput, rfl⟩ := run_last hrest
    have hmounts := resolveValue_mounts hvalue
    rw [onto_wrapped hmounts.outer_cases, run_put hput]
    refine .amend (hevent.note hmounts (.text rfl (Subset.refl _) ?_))
    simp only [Property.ofExpression]
    split <;> simp [textNames]

theorem run_takeContent {body : List WidgetId} (hrun : (takeContent id).run b = .ok (body, b')) :
    b'.tree = b.tree.modify id dropContent ∧ body = contentIds b.tree id := by
  obtain ⟨child?, b1, hchild, hrest⟩ := run_bind hrun
  obtain ⟨children?, b2, hkids, hrest⟩ := run_bind hrest
  obtain ⟨_, hremove, rfl⟩ := run_last hrest
  obtain ⟨rfl, rfl⟩ := run_property? hchild
  obtain ⟨rfl, rfl⟩ := run_property? hkids
  exact ⟨run_change hremove, rfl⟩

theorem itemBuilder_directs : Performs .itemBuilder target (itemBuilder o input target) := by
  intro b outcome b' hrun
  obtain ⟨⟨e, outer⟩, b1, hvalue, hrest⟩ := run_bind hrun
  obtain ⟨_, b2, hcount, hrest⟩ := run_bind hrest
  obtain ⟨body, b3, htake, hrest⟩ := run_bind hrest
  obtain ⟨_, hput, rfl⟩ := run_last hrest
  have hmounts := resolveValue_mounts hvalue
  obtain ⟨htree, hbody⟩ := run_takeContent htake
  rw [onto_wrapped hmounts.outer_cases, run_put hput, htree]
  exact .itemBuilder hmounts (run_put hcount) hbody

theorem childBuilder_directs : Performs .childBuilder target (childBuilder o input target) := by
  intro b outcome b' hrun
  obtain ⟨⟨e, outer⟩, b1, hvalue, hrest⟩ := run_bind hrun
  obtain ⟨body, b2, htake, hrest⟩ := run_bind hrest
  obtain ⟨id, b3, hadd, hrest⟩ := run_bind hrest
  obtain ⟨_, hput, rfl⟩ := run_last hrest
  have hmounts := resolveValue_mounts hvalue
  obtain ⟨htree, rfl⟩ := run_takeContent htake
  obtain ⟨rfl, hnew⟩ := run_add hadd
  rw [onto_wrapped hmounts.outer_cases, run_put hput, hnew]
  exact .childBuilder hmounts htree rfl

theorem apply_directs (hrun : (apply o handler input target).run b = .ok (outcome, b')) :
    Directs target b.tree handler (outcome.onto target) b'.tree := by
  cases handler with
  | wrapper spec => exact wrapper_directs hrun
  | rule spec =>
    simp only [apply, rule] at hrun
    split at hrun
    · obtain ⟨rfl, rfl⟩ := run_pure hrun
      exact .amend .refl
    · cases hrun
  | animation => exact animation_directs hrun
  | disable => exact disable_directs hrun
  | formControl => exact formControl_directs hrun
  | controller => exact controller_directs hrun
  | condition => exact condition_directs hrun
  | «repeat» => exact repeat_directs hrun
  | childBuilder => exact childBuilder_directs hrun
  | itemBuilder => exact itemBuilder_directs hrun
  | _ =>
    obtain ⟨rfl, rfl⟩ := run_pure hrun
    exact .amend .refl

end Attribute

/-! ## One attribute after the other -/

section Claims

variable {e : Markup.Element} {target' : Target}

/-- An attribute is a plain property, or its directive is applied and may leave a value for one. -/
theorem resolveClaim_cases {c : Claim} (hrun : (resolveClaim o e target c).run b = .ok (target', b')) :
    ((∀ r, c.registration? = some r → r.handler.resolves = false) ∧ ∃ value outer,
      (setProperty o (propertyName c.name) value target).run b = .ok (outer, b') ∧
        target' = { target with current := outer }) ∨ ∃ r outcome b1, c.registration? = some r ∧
        (apply o r.handler ⟨c.name, c.effectiveValue, e, c.related⟩ target).run b = .ok (outcome, b1) ∧
          (target' = outcome.onto target ∧ b' = b1 ∨ outcome.consumed = false ∧ ∃ outer,
            (setProperty o (propertyName c.name) outcome.value (outcome.onto target)).run b1 = .ok (outer, b') ∧
              target' = { outcome.onto target with current := outer }) := by
  have hplain : ∀ {b : Build} {target : Target} {value : Text},
      (do return { target with current := ← setProperty o (propertyName c.name) value target } :
        BuildM Target).run b = .ok (target', b') → ∃ outer,
          (setProperty o (propertyName c.name) value target).run b = .ok (outer, b') ∧
            target' = { target with current := outer } := by
    intro b target value hrun
    obtain ⟨outer, hset, rfl⟩ := run_last hrun
    exact ⟨outer, hset, rfl⟩
  unfold resolveClaim at hrun
  dsimp only at hrun
  split at hrun
  · rename_i hnone
    exact .inl ⟨fun r hr => (by rw [hnone] at hr; cases hr), _, hplain hrun⟩
  · rename_i r hr
    split at hrun
    · obtain ⟨outcome, b1, happly, hrest⟩ := run_bind hrun
      refine .inr ⟨r, outcome, b1, hr, happly, ?_⟩
      change (if outcome.consumed then pure (outcome.onto target) else _ : BuildM Target).run b1 = _ at hrest
      split at hrest
      · exact .inl (run_pure hrest)
      · exact .inr ⟨by simp_all, hplain hrest⟩
    · rename_i hres
      refine .inl ⟨fun r' hr' => ?_, _, hplain hrun⟩
      rw [hr] at hr'
      cases hr'
      simpa using hres

/-- What is kept by setting the property of an attribute and by applying its directive is kept by all attributes. -/
theorem resolveClaims_induct {P : Target → Tree Deferral → Prop} (cs : List Claim)
    (hset : ∀ c ∈ cs, ∀ {t t' : Tree Deferral} {target : Target} {outer : WidgetId}, P target t →
      Amends [[], propertyName c.name] target.inner target.current t outer t' → P { target with current := outer } t')
    (happly : ∀ c ∈ cs, ∀ {t t' : Tree Deferral} {target target' : Target} {r : Directive.Registration},
      c.registration? = some r → P target t → Directs target t r.handler target' t' → P target' t')
    (h : P target b.tree) (hrun : (cs.foldlM (resolveClaim o e) target).run b = .ok (target', b')) :
    P target' b'.tree := by
  induction cs generalizing b target with
  | nil =>
    obtain ⟨rfl, rfl⟩ := run_pure hrun
    exact h
  | cons c cs ih =>
    obtain ⟨target1, b1, hclaim, hrest⟩ := run_bind hrun
    refine ih (fun d hd => hset d (mem_cons_of_mem _ hd)) (fun d hd => happly d (mem_cons_of_mem _ hd)) ?_ hrest
    rcases resolveClaim_cases hclaim with ⟨-, value, outer, hplain, rfl⟩ | ⟨r, outcome, b2, hr, happlied, hleft⟩
    · exact hset c mem_cons_self h (run_setProperty hplain)
    · have hfirst := happly c mem_cons_self hr h (apply_directs happlied)
      rcases hleft with ⟨rfl, rfl⟩ | ⟨-, outer, hplain, rfl⟩
      · exact hfirst
      · exact hset c mem_cons_self hfirst (run_setProperty hplain)

end Claims

end FlutterLayout.Layout
