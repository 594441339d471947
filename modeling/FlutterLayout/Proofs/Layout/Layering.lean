import FlutterLayout.Proofs.Layout.ClaimOrder
import FlutterLayout.Proofs.Layout.Moves

/-!
# Layering — wrappers and builders nest by priority

Where the directives of an element are wrappers around it and none of them claims an attribute, what is put
around the widget of the element can be told in advance: `Claim.surroundings` says what one attribute adds, from the
inside out, and `Claim.settles` what it sets on the widget itself.

`Layers` says of two trees that the second one has the layers around the current widget and is the first one
otherwise.  One step is read from the code (`resolveClaim_layers`), and the steps are put together by
`Layers.trans` (`resolveClaims_layers`).
-/

namespace FlutterLayout.Layout

open List Claim FlutterLayout.Tree
open Directive (Handlers WrapperSpec)
open Markup (Attribute)
open Pipe (Expression Subscription)

variable {o : Options} {b : Build} {t t' t'' : Tree Deferral} {target : Target} {inside outer middle : WidgetId}
variable {layers layers' : List (WidgetId → Widget)} {f g : Widget → Widget}
variable {bound : Int} {spec : WrapperSpec} {c : Claim} {w : Widget}

/-! ## Stacks -/

/-- The layers stand around a widget, the first one innermost, and `outer` is the outermost widget.  They are
new: their ids are beyond the bound. -/
inductive Encased (t : Tree Deferral) (bound : Int) : WidgetId → List (WidgetId → Widget) → WidgetId → Prop where
  | nil {inside : WidgetId} : Encased t bound inside [] inside
  | cons {inside next outer : WidgetId} {layer : WidgetId → Widget} {layers : List (WidgetId → Widget)}
      (hnew : bound < next) (hget : t.get? next = some (layer inside)) (hwraps : (layer inside).wrapped = inside)
      (h : Encased t bound next layers outer) : Encased t bound inside (layer :: layers) outer

theorem Encased.append (h : Encased t bound inside layers middle) (h' : Encased t bound middle layers' outer) :
    Encased t bound inside (layers ++ layers') outer := by
  induction h with
  | nil => exact h'
  | cons hnew hget hwraps _ ih => exact .cons hnew hget hwraps (ih h')

theorem Encased.keep (h : Encased t bound inside layers outer) (hbound : bound' ≤ bound)
    (hkeep : ∀ {x w}, bound < x → t.get? x = some w → t'.get? x = some w) : Encased t' bound' inside layers outer := by
  induction h with
  | nil => exact .nil
  | cons hnew hget hwraps _ ih => exact .cons (Int.lt_of_le_of_lt hbound hnew) (hkeep hnew hget) hwraps ih

/-- The layers are put around the current widget, `f` changes the inner one, and no other widget changes. -/
structure Layers (target : Target) (t : Tree Deferral) (layers : List (WidgetId → Widget)) (f : Widget → Widget)
    (outer : WidgetId) (t' : Tree Deferral) : Prop where
  size : (t.size : Int) ≤ t'.size
  stacked : Encased t' t.size target.current layers outer
  inner : t'.get? target.inner = (t.get? target.inner).map f
  others : ∀ {x : WidgetId}, x ≤ t.size → x ≠ target.inner → t'.get? x = t.get? x

namespace Layers

theorem refl (target : Target) (t : Tree Deferral) : Layers target t [] id target.current t :=
  ⟨Int.le_refl _, .nil, by rw [Option.map_id, id], fun _ _ => rfl⟩

theorem trans (hinner : target.inner ≤ t.size) (h : Layers target t layers f middle t')
    (h' : Layers ⟨target.inner, middle⟩ t' layers' g outer t'') :
    Layers target t (layers ++ layers') (g ∘ f) outer t'' where
  size := Int.le_trans h.size h'.size
  stacked := by
    -- What stands around the inner widget already is not the inner widget, so the second part keeps it.
    refine (h.stacked.keep (Int.le_refl _) fun hnew hget => ?_).append
      (h'.stacked.keep h.size fun _ hget => hget)
    have hne := Int.ne_of_gt (Int.lt_of_le_of_lt hinner hnew)
    exact (h'.others (le_size_of_get? hget) hne).trans hget
  inner := by
    rw [← Option.map_map, ← h.inner]
    exact h'.inner
  others hx hne := (h'.others (Int.le_trans hx h.size) hne).trans (h.others hx hne)

theorem modify (target : Target) (t : Tree Deferral) (f : Widget → Widget) :
    Layers target t [] f target.current (t.modify target.inner f) where
  size := Int.le_of_eq (congrArg Nat.cast (size_modify f).symm)
  stacked := .nil
  inner := get?_modify_self f
  others _ hne := get?_modify_of_ne f hne

/-- A new widget around the current one, and what is put around the new one and set on it. -/
theorem around (layer : WidgetId → Widget) (hinner : target.inner ≤ t.size)
    (h : Layers (.bare (t.add (layer target.current)).1) (t.add (layer target.current)).2 layers f outer t')
    (hwraps : (f (layer target.current)).wrapped = target.current) :
    Layers target t ((fun below => f (layer below)) :: layers) id outer t' := by
  have hsize : (t.size : Int) < (t.add (layer target.current)).1 := Int.lt_succ _
  have hgrows : (t.size : Int) ≤ (t.add (layer target.current)).2.size := by
    rw [size_add]
    lia
  have hold : ∀ {x : WidgetId}, x ≤ t.size → t'.get? x = t.get? x := fun hx =>
    (h.others (Int.le_trans hx hgrows) (Int.ne_of_lt (Int.lt_of_le_of_lt hx hsize))).trans (get?_add_of_le _ hx)
  refine ⟨Int.le_trans hgrows h.size, .cons hsize ?_ hwraps (h.stacked.keep hgrows fun _ hget => hget), ?_,
    fun hx _ => hold hx⟩
  · exact h.inner.trans (congrArg (Option.map f) (get?_add_self _))
  · rw [hold hinner, Option.map_id, id]

end Layers

/-! ## Values -/

def builders (ss : List Subscription) : List (WidgetId → Widget) :=
  ss.map fun s => Pipe.builder { s with skipNullCheck := false }

theorem builders_layers (ss : List Subscription) (hinner : target.inner ≤ t.size) :
    Layers target t (builders ss) id (Pipe.stackBuilders false ss target.current t).1
      (Pipe.stackBuilders false ss target.current t).2 := by
  induction ss generalizing target t with
  | nil => exact .refl target t
  | cons s ss ih =>
    have hfirst := Layers.around (Pipe.builder { s with skipNullCheck := false }) hinner (.refl _ _) rfl
    exact hfirst.trans hinner (ih (Int.le_trans hinner hfirst.size))

/-- The value of a property of a widget of some type, and the number of placeholders in use behind it. -/
def valueOf (o : Options) (type name value : Text) (placeholders : Nat) : Expression × Nat :=
  match if name.isEmpty then none else o.literals.apply? name value type with
  | some v => (⟨v, []⟩, placeholders)
  | none =>
    (o.reading.read (if o.provider.isEmpty then Pipe.defaultProvider else o.provider) value).run placeholders

variable {name value : Text} {v : Expression × Nat}

theorem run_resolveValue (hw : b.tree.get? target.inner = some w)
    (hv : valueOf o w.type name value b.placeholders = v) : (Build.resolveValue o name value target).run b =
      .ok ((v.1, (Pipe.stackBuilders false v.1.subscriptions target.current b.tree).1),
        ⟨(Pipe.stackBuilders false v.1.subscriptions target.current b.tree).2, v.2⟩) := by
  unfold Build.resolveValue
  rw [run_bind_of_run (run_typeOf_of_get? hw)]
  unfold valueOf at hv
  generalize (if name.isEmpty then none else o.literals.apply? name value w.type) = literal? at hv ⊢
  subst hv
  cases literal? with
  | some | none => rfl

theorem setProperty_layers (hw : b.tree.get? target.inner = some w)
    (hv : valueOf o w.type name value b.placeholders = v) :
    ∃ outer t', (Build.setProperty o name value target).run b = .ok (outer, ⟨t', v.2⟩) ∧
      Layers target b.tree (builders v.1.subscriptions)
        (fun u => u.set (.ofExpression (Build.argumentName o w.type name) v.1)) outer t' := by
  have hinner := le_size_of_get? hw
  have hbuilders := builders_layers v.1.subscriptions hinner
  have hget : (Pipe.stackBuilders false v.1.subscriptions target.current b.tree).2.get? target.inner = some w := by
    rw [hbuilders.inner, hw]
    rfl
  have hlayers := hbuilders.trans hinner
    (.modify _ _ fun u => u.set (.ofExpression (Build.argumentName o w.type name) v.1))
  rw [append_nil] at hlayers
  refine ⟨_, _, ?_, hlayers⟩
  unfold Build.setProperty
  rw [run_bind_of_run (run_resolveValue hw hv), run_bind_of_run (run_typeOf_of_get? hget)]
  rfl

/-! ## Wrappers -/

def WrapperSpec.shell (spec : WrapperSpec) (tag : Text) (below : WidgetId) : Widget :=
  { type := spec.widget, isCustom := true, tag := tag, wrapped := below }

def WrapperSpec.filled (spec : WrapperSpec) (w : Widget) : Widget :=
  (spec.defaults.mergeSort fun a b => Text.le a.1 b.1).foldl (fun w (name, value) => w.set (.ofText name value)) w

/-- The widget of a wrapper: its defaults, and the value of its attribute. -/
def wrapperWidget (o : Options) (spec : WrapperSpec) (tag : Text) (e : Expression) (below : WidgetId) : Widget :=
  (WrapperSpec.filled spec (WrapperSpec.shell spec tag below)).set
    (.ofExpression (Build.argumentName o spec.widget spec.property) e)

theorem filled_alike (spec : WrapperSpec) (w : Widget) :
    (WrapperSpec.filled spec w).type = w.type ∧ (WrapperSpec.filled spec w).wrapped = w.wrapped := by
  unfold WrapperSpec.filled
  generalize spec.defaults.mergeSort (fun a b => Text.le a.1 b.1) = defaults
  induction defaults generalizing w with
  | nil => exact ⟨rfl, rfl⟩
  | cons d defaults ih => exact ih _

theorem fillRelated_of_nil (hrel : input.related = []) (names : List Text) (current : WidgetId) :
    Attribute.fillRelated o spec input inside names current = pure current := by
  induction names with
  | nil => rfl
  | cons name names ih =>
    unfold Attribute.fillRelated
    rw [hrel]
    exact ih

theorem wrapper_layers (input : Input) (hchild : spec.child = false) (hprop : spec.property ≠ [])
    (hrel : input.related = []) (hinner : target.inner ≤ b.tree.size)
    (hv : valueOf o spec.widget spec.property input.value b.placeholders = v) :
    ∃ outer t', (Attribute.wrapper o spec input target).run b = .ok (.wrapped outer, ⟨t', v.2⟩) ∧
      Layers target b.tree (wrapperWidget o spec input.name v.1 :: builders v.1.subscriptions) id outer t' := by
  obtain ⟨htype, hwrap⟩ := filled_alike spec (WrapperSpec.shell spec input.name target.current)
  set w := WrapperSpec.shell spec input.name target.current
  have hget : (b.tree.add w).2.get? (b.tree.add w).1 = some w := get?_add_self _
  have hfilled := get?_modify_of_get? (f := WrapperSpec.filled spec) hget
  have hv' : valueOf o (WrapperSpec.filled spec w).type spec.property input.value b.placeholders = v := by
    rw [htype]
    exact hv
  have hset : ∃ outer t', (Build.setProperty o spec.property input.value (.bare (b.tree.add w).1)).run
      ⟨_, b.placeholders⟩ = .ok (outer, ⟨t', v.2⟩) ∧ _ := setProperty_layers hfilled hv'
  obtain ⟨outer, t', hrun, hlayers⟩ := hset
  rw [htype] at hlayers
  have hown := (Layers.modify (.bare (b.tree.add w).1) _ _).trans (le_size_of_get? hget) hlayers
  refine ⟨outer, t', ?_, Layers.around (WrapperSpec.shell spec input.name) hinner hown hwrap⟩
  have hfill : (Attribute.fill o spec input (b.tree.add w).1).run ⟨(b.tree.add w).2, b.placeholders⟩ =
      .ok (outer, ⟨t', v.2⟩) := by
    unfold Attribute.fill
    simp only [List.isEmpty_iff, hprop, if_false, fillRelated_of_nil hrel]
    exact (run_bind_of_run rfl).trans ((run_bind_of_run hrun).trans rfl)
  unfold Attribute.wrapper
  simp only [hchild, Bool.false_and, Bool.false_eq_true, if_false]
  exact (run_bind_of_run rfl).trans ((run_bind_of_run rfl).trans ((run_bind_of_run hfill).trans rfl))

/-! ## One attribute -/

theorem Encased.outer_cases (h : Encased t bound inside layers outer) : outer = inside ∨ bound < outer := by
  induction h with
  | nil => exact .inl rfl
  | cons hnew _ _ _ ih => exact .inr (ih.elim (· ▸ hnew) fun hlt => hlt)

/-- The handler is a wrapper around the widget that sets a property of its own. -/
def surrounds : Directive.Handler → Bool
  | .wrapper spec => !spec.child && !spec.property.isEmpty
  | _ => false

namespace Claim

def wrapper? (c : Claim) : Option WrapperSpec :=
  c.registration?.bind fun r =>
    match r.handler with
    | .wrapper spec => some spec
    | _ => none

/-- The value of an attribute: of the property of its wrapper, or of the widget itself, which has the type. -/
def valueFor (o : Options) (type : Text) (c : Claim) (placeholders : Nat) : Expression × Nat :=
  match c.wrapper? with
  | some spec => valueOf o spec.widget spec.property c.effectiveValue placeholders
  | none => valueOf o type (propertyName c.name) c.effectiveValue placeholders

/-- What an attribute puts around the widget: its wrapper, and the builders of its value. -/
def surroundings (o : Options) (c : Claim) (e : Expression) : List (WidgetId → Widget) :=
  match c.wrapper? with
  | some spec => wrapperWidget o spec c.name e :: builders e.subscriptions
  | none => builders e.subscriptions

/-- What an attribute sets on the widget itself. -/
def settles (o : Options) (type : Text) (c : Claim) (e : Expression) (w : Widget) : Widget :=
  match c.wrapper? with
  | some _ => w
  | none => w.set (.ofExpression (Build.argumentName o type (propertyName c.name)) e)

/-- The attributes with their values, which are read one after the other. -/
def values (o : Options) (type : Text) : List Claim → (placeholders : Nat) → List (Claim × Expression)
  | [], _ => []
  | c :: cs, placeholders =>
    (c, (c.valueFor o type placeholders).1) :: values o type cs (c.valueFor o type placeholders).2

theorem type_settles (o : Options) (type : Text) (c : Claim) (e : Expression) (w : Widget) :
    (c.settles o type e w).type = w.type := by
  unfold settles
  split <;> rfl

end Claim

theorem resolveClaim_layers (hrel : c.related = [])
    (hreg : ∀ r, c.registration? = some r → surrounds r.handler = true) (hw : b.tree.get? target.inner = some w)
    (hv : c.valueFor o w.type b.placeholders = v) :
    ∃ outer t', (resolveClaim o e target c).run b = .ok (⟨target.inner, outer⟩, ⟨t', v.2⟩) ∧
      Layers target b.tree (c.surroundings o v.1) (c.settles o w.type v.1) outer t' := by
  unfold resolveClaim surroundings settles
  unfold valueFor wrapper? at hv
  cases hr : c.registration? with
  | none =>
    rw [hr] at hv
    obtain ⟨outer, t', hrun, hlayers⟩ := setProperty_layers hw hv
    refine ⟨outer, t', (run_bind_of_run hrun).trans rfl, ?_⟩
    simp only [wrapper?, hr, Option.bind_none]
    exact hlayers
  | some r =>
    have hsurrounds := hreg r hr
    cases hhandler : r.handler with
    | wrapper spec =>
      rw [hhandler, surrounds, Bool.and_eq_true, Bool.not_eq_true', Bool.not_eq_true',
        isEmpty_eq_false_iff] at hsurrounds
      rw [hr, Option.bind_some, hhandler] at hv
      obtain ⟨outer, t', hrun, hlayers⟩ := wrapper_layers ⟨c.name, c.effectiveValue, e, c.related⟩
        hsurrounds.1 hsurrounds.2 hrel (le_size_of_get? hw) hv
      have hne : outer ≠ .none := by
        cases hlayers.stacked with
        | cons hnew _ _ h =>
          have hpos : (b.tree.size : Int) < outer := h.outer_cases.elim (· ▸ hnew) fun hlt => hlt
          exact Int.ne_of_gt (Int.lt_of_le_of_lt (Int.natCast_nonneg _) hpos)
      simp only [wrapper?, hr, Option.bind_some, hhandler]
      refine ⟨outer, t', ?_, hlayers⟩
      refine (run_bind_of_run hrun).trans ?_
      simp only [Outcome.wrapped, hne, if_false, if_true]
      rfl
    | _ =>
      rw [hhandler] at hsurrounds
      cases hsurrounds

/-! ## All attributes -/

theorem resolveClaims_layers
    (hcs : ∀ c ∈ cs, c.related = [] ∧ ∀ r, c.registration? = some r → surrounds r.handler = true)
    (hw : b.tree.get? target.inner = some w) (htype : w.type = type) :
    ∃ outer b', (cs.foldlM (resolveClaim o e) target).run b = .ok (⟨target.inner, outer⟩, b') ∧
      Layers target b.tree ((values o type cs b.placeholders).flatMap fun p => p.1.surroundings o p.2)
        (fun u => (values o type cs b.placeholders).foldl (fun u p => p.1.settles o type p.2 u) u) outer b'.tree := by
  induction cs generalizing b target w with
  | nil => exact ⟨target.current, b, rfl, .refl target b.tree⟩
  | cons c cs ih =>
    rw [forall_mem_cons] at hcs
    obtain ⟨middle, t', hrun, hfirst⟩ := resolveClaim_layers (o := o) (e := e) hcs.1.1 hcs.1.2 hw rfl
    rw [htype] at hrun hfirst
    have hw' := hfirst.inner
    rw [hw, Option.map_some] at hw'
    obtain ⟨outer, b', hrest, hlayers⟩ := @ih ⟨t', _⟩ ⟨target.inner, middle⟩ _ hcs.2 hw'
      ((type_settles _ _ _ _ _).trans htype)
    refine ⟨outer, b', ?_, hfirst.trans (le_size_of_get? hw) hlayers⟩
    rw [foldlM_cons, run_bind_of_run hrun, hrest]

/-! ## No attribute is claimed -/

def Claim.alone (handlers : Handlers) (a : Attribute) : Claim :=
  ⟨a.1, a.2, handlers.get? a.1, []⟩

theorem claimRelated_of_absent (h : ∀ name ∈ names, name ≠ owner → present.lookup name = none) :
    claimRelated present owner names taken = ([], taken) := by
  induction names with
  | nil => rfl
  | cons name names ih =>
    rw [forall_mem_cons] at h
    unfold claimRelated
    by_cases hname : name = owner
    · simp only [hname, decide_true, Bool.true_or, if_true]
      split <;> exact ih h.2
    · rw [h.1 hname]
      exact ih h.2

theorem claimAll_of_apart
    (h : ∀ a ∈ rest, ∀ name ∈ relatedNames handlers a.1, name ≠ a.1 → present.lookup name = none) :
    claimAll handlers present rest [] = (rest.map (alone handlers), []) := by
  induction rest with
  | nil => rfl
  | cons a rest ih =>
    rw [forall_mem_cons] at h
    have hrel : claimRelated present a.1 (relatedNames handlers a.1) [] = ([], []) := claimRelated_of_absent h.1
    unfold relatedNames at hrel
    simp only [claimAll, contains_nil, Bool.false_eq_true, if_false, hrel, ih h.2]
    rfl

theorem claims_of_apart (h : ∀ a ∈ attributes, ∀ d ∈ attributes, d.1 ∈ relatedNames handlers a.1 → d.1 = a.1) :
    claims handlers attributes = sortClaims (attributes.map (alone handlers)) := by
  have habsent : ∀ a ∈ attributes, ∀ name ∈ relatedNames handlers a.1, name ≠ a.1 → attributes.lookup name = none := by
    intro a ha name hname hne
    refine lookup_eq_none_iff.2 fun d hd => ?_
    have hdiffers : name ≠ d.1 := by
      rintro rfl
      exact hne (h a ha d hd hname)
    simpa using hdiffers
  unfold claims
  rw [claimAll_of_apart habsent]
  simp

/-! ## Nesting -/

/-- The present directives are wrappers around the widget, none of them names another present attribute, and
the differences of their priorities do not wrap around. -/
structure Independent (handlers : Handlers) (attributes : List Attribute) : Prop where
  apart : ∀ a ∈ attributes, ∀ d ∈ attributes, d.1 ∈ relatedNames handlers a.1 → d.1 = a.1
  wrappers : ∀ a ∈ attributes, ∀ r, handlers.get? a.1 = some r → surrounds r.handler = true
  close : ∀ a ∈ attributes, ∀ d ∈ attributes,
    (alone handlers a).priority.toInt - (alone handlers d).priority.toInt < 9223372036854775808

theorem Independent.ranks (h : Independent handlers attributes) :
    Ranks before (fun c => c.priority.toInt) (· ∈ attributes.map (alone handlers)) := by
  intro c d hc hd
  obtain ⟨a, ha, rfl⟩ := mem_map.1 hc
  obtain ⟨a', ha', rfl⟩ := mem_map.1 hd
  exact before_iff (h.close a ha a' ha') (h.close a' ha' a ha)

/-- Wrappers and builders nest by the priorities of their attributes. -/
theorem resolveAttributes_nests (e : Markup.Element) (target : Target) {attributes : List Attribute}
    (h : Independent o.handlers attributes) (hw : b.tree.get? target.inner = some w) :
    ∃ order outer b', (resolveAttributes o e attributes target).run b = .ok (⟨target.inner, outer⟩, b') ∧
      Sorts (fun c => c.priority.toInt) (attributes.map (Claim.alone o.handlers)) order ∧
      Encased b'.tree b.tree.size target.current
        ((Claim.values o w.type order b.placeholders).flatMap fun p => p.1.surroundings o p.2) outer ∧
      b'.tree.get? target.inner =
        some ((Claim.values o w.type order b.placeholders).foldl (fun u p => p.1.settles o w.type p.2 u) w) ∧
      ∀ x : WidgetId, x ≤ b.tree.size → x ≠ target.inner → b'.tree.get? x = b.tree.get? x := by
  have hsorts : Sorts (fun c => c.priority.toInt) (attributes.map (Claim.alone o.handlers))
      (claims o.handlers attributes) := by
    rw [claims_of_apart h.apart]
    exact stableSort_sorts h.ranks fun c hc => hc
  have hcs : ∀ c ∈ claims o.handlers attributes,
      c.related = [] ∧ ∀ r, c.registration? = some r → surrounds r.handler = true := by
    intro c hc
    rw [claims_of_apart h.apart] at hc
    obtain ⟨a, ha, rfl⟩ := List.mem_map.1 ((stableSort_perm _).mem_iff.1 hc)
    exact ⟨rfl, h.wrappers a ha⟩
  obtain ⟨outer, b', hrun, hlayers⟩ := resolveClaims_layers (o := o) (e := e) hcs hw rfl
  refine ⟨_, outer, b', hrun, hsorts, hlayers.stacked, ?_, fun x hx hne => hlayers.others hx hne⟩
  rw [hlayers.inner, hw, Option.map_some]

/-- Two wrappers, the first of which goes outside. -/
def twoWrappers : Options where
  handlers := ⟨[(":far", ⟨.wrapper { widget := "Far", property := "p", priority := 300 }, none⟩),
    (":near", ⟨.wrapper { widget := "Near", property := "q", priority := 5 }, some "c | stream"⟩)]⟩

def threeAttributes : List Attribute :=
  [(":far", "1"), ("title", "a | stream"), (":near", "")]

theorem independent_threeAttributes : Independent twoWrappers.handlers threeAttributes := by
  have hboth : ∀ a ∈ threeAttributes, relatedNames twoWrappers.handlers a.1 = [] ∧
      ∀ r, twoWrappers.handlers.get? a.1 = some r → surrounds r.handler = true := by
    refine forall_mem_cons.2 ⟨⟨mergeSort_nil, fun r hr => Option.some.inj hr ▸ rfl⟩,
      forall_mem_cons.2 ⟨⟨rfl, fun r hr => ?_⟩, forall_mem_singleton.2
        ⟨mergeSort_nil, fun r hr => Option.some.inj hr ▸ rfl⟩⟩⟩
    cases hr
  exact ⟨fun a ha d _ hd => absurd ((hboth a ha).1 ▸ hd) not_mem_nil, fun a ha => (hboth a ha).2, by decide⟩

theorem resolveAttributes_nests_twoWrappers :
    let b : Build := { tree := (Tree.empty.add { type := "Text" }).2 }
    let e : Markup.Element := .mk "Text" threeAttributes ⟨1, 1⟩ []
    Independent twoWrappers.handlers threeAttributes ∧
      ∃ order outer b', (resolveAttributes twoWrappers e threeAttributes (.bare 1)).run b = .ok (⟨1, outer⟩, b') ∧
        Sorts (fun c => c.priority.toInt) (threeAttributes.map (Claim.alone twoWrappers.handlers)) order ∧
        Encased b'.tree 1 1 ((Claim.values twoWrappers "Text" order 0).flatMap fun p =>
          p.1.surroundings twoWrappers p.2) outer := by
  intro b e
  obtain ⟨order, outer, b', hrun, hsorts, hencased, -⟩ :=
    resolveAttributes_nests (b := b) e (.bare 1) independent_threeAttributes rfl
  exact ⟨independent_threeAttributes, order, outer, b', hrun, hsorts, hencased⟩

end FlutterLayout.Layout
