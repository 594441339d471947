import FlutterLayout.Compiler
import FlutterLayout.Proofs.Layout.Items

/-!
# Filenames — the name of a file appears in errors only

Two computations agree if they give the same result whenever one of them gives a result; their errors may
differ.  A layout is resolved with its file name at hand, but only to put it into errors, so under two names
every step agrees with itself (`compile_toOption_eq`).
-/

namespace FlutterLayout

theorem cases_of_toOption_eq {ε ε' α : Type} {x : Except ε α} {y : Except ε' α} (h : x.toOption = y.toOption) :
    (∃ a, x = .ok a ∧ y = .ok a) ∨ ∃ e e', x = .error e ∧ y = .error e' := by
  cases x with
  | error e =>
    cases y with
    | error e' => exact .inr ⟨e, e', rfl, rfl⟩
    | ok a => cases h
  | ok a =>
    cases y with
    | error e => cases h
    | ok a' =>
      cases h
      exact .inl ⟨a, rfl, rfl⟩

namespace Layout

open Markup (Element)

variable {α β : Type} {o : Options} {name : Text}

def Agrees (x y : BuildM α) : Prop :=
  ∀ b, (x.run b).toOption = (y.run b).toOption

namespace Agrees

theorem refl (x : BuildM α) : Agrees x x :=
  fun _ => rfl

theorem of_eq (h : x = y) : Agrees x y :=
  fun b => by rw [h]

theorem bind {x y : BuildM α} {f g : α → BuildM β} (h : Agrees x y) (hrest : ∀ a, Agrees (f a) (g a)) :
    Agrees (x >>= f) (y >>= g) := by
  intro b
  rw [StateT.run_bind, StateT.run_bind]
  rcases cases_of_toOption_eq (h b) with ⟨r, hx, hy⟩ | ⟨e, e', hx, hy⟩
  · rw [hx, hy]
    exact hrest r.1 r.2
  · rw [hx, hy]
    rfl

theorem throws (e e' : LayoutError) : Agrees (throw e : BuildM α) (throw e') :=
  fun _ => rfl

theorem ite [Decidable c] (h : Agrees x x') (h' : Agrees y y') :
    Agrees (if c then x else y) (if c then x' else y') := by
  split
  · exact h
  · exact h'

theorem foldlM (h : ∀ acc a, Agrees (f acc a) (g acc a)) (xs : List α) (acc : β) :
    Agrees (xs.foldlM f acc) (xs.foldlM g acc) := by
  induction xs generalizing acc with
  | nil => exact .refl _
  | cons a xs ih => exact (h acc a).bind fun acc' => ih acc'

end Agrees

def Options.named (o : Options) (name : Text) : Options :=
  { o with filename := name }

/-! ## Steps without errors -/

theorem resolveValue_named (property value : Text) (target : Target) (flag : Bool) :
    Build.resolveValue (o.named name) property value target flag = Build.resolveValue o property value target flag :=
  rfl

theorem setProperty_named : Build.setProperty (o.named name) = Build.setProperty o := rfl

theorem setContent_named : setContent (o.named name) = setContent o := rfl

theorem callbackHead_named : callbackHead (o.named name) = callbackHead o := rfl

theorem interpolate_named (ps : List Piece) (target : Target) :
    interpolate (o.named name) ps target = interpolate o ps target := by
  induction ps generalizing target with
  | nil => rfl
  | cons p ps ih =>
    cases p with
    | characters t =>
      unfold interpolate
      rw [ih]
    | hole t =>
      unfold interpolate
      simp only [resolveValue_named, ih]

theorem textValue_named (t : Text) (target : Target) : textValue (o.named name) t target = textValue o t target := by
  unfold textValue
  split
  · rw [resolveValue_named]
  · rw [interpolate_named]

theorem inlineText_named (e : Element) (target : Target) :
    inlineText (o.named name) e target = inlineText o e target := by
  unfold inlineText
  simp only [textValue_named]
  rfl

namespace Attribute

variable {spec : Directive.WrapperSpec} {input : Input} {id : WidgetId} {target : Target}

theorem fillRelated_named (names : List Text) (current : WidgetId) :
    fillRelated (o.named name) spec input id names current = fillRelated o spec input id names current := by
  induction names generalizing current with
  | nil => rfl
  | cons related names ih =>
    unfold fillRelated
    split
    · simp only [setProperty_named, ih]
    · exact ih current

theorem fill_named : fill (o.named name) spec input id = fill o spec input id := by
  unfold fill
  simp only [fillRelated_named, setProperty_named]

end Attribute

/-! ## Attributes -/

theorem apply_agrees (h : Directive.Handler) (input : Input) (target : Target) :
    Agrees (Attribute.apply (o.named name) h input target) (Attribute.apply o h input target) := by
  cases h with
  | rule spec =>
    unfold Attribute.apply Attribute.rule
    exact .ite (.refl _) (.throws _ _)
  | wrapper | animation | disable | formControl | condition | «repeat» | childBuilder | itemBuilder =>
    refine .of_eq ?_
    simp only [Attribute.apply, Attribute.wrapper, Attribute.fill_named, Attribute.animation, setProperty_named,
      Attribute.disable, Attribute.formControl, Attribute.condition, Attribute.repeat,
      Attribute.childBuilder, Attribute.itemBuilder, resolveValue_named]
  | controller | conditional | builder | reactive => exact .refl _

theorem resolveClaim_agrees (e : Element) (target : Target) (c : Claim) :
    Agrees (resolveClaim (o.named name) e target c) (resolveClaim o e target c) := by
  unfold resolveClaim
  simp only [setProperty_named]
  split
  · exact .refl _
  · exact .ite ((apply_agrees _ _ _).bind fun _ => .refl _) (.refl _)

theorem resolveAttributes_agrees (e : Element) (attributes : List Markup.Attribute) (target : Target) :
    Agrees (resolveAttributes (o.named name) e attributes target) (resolveAttributes o e attributes target) :=
  .foldlM (resolveClaim_agrees e) _ _

/-! ## Items -/

theorem resolveConditions_agrees (isSequence : Bool) (id : WidgetId) (pairs : List (Branch × Property))
    (current : WidgetId) : Agrees (resolveConditions (o.named name) isSequence id pairs current)
      (resolveConditions o isSequence id pairs current) := by
  induction pairs generalizing current with
  | nil => exact .refl _
  | cons q pairs ih =>
    obtain ⟨branch, p⟩ := q
    unfold resolveConditions
    rw [resolveValue_named]
    refine .ite ?_ ((Agrees.refl _).bind fun _ => .ite (.throws _ _) ?_)
    · exact (ih current).bind fun _ => .refl _
    · exact (Agrees.refl _).bind fun r => (ih r.2).bind fun _ => .refl _

mutual

theorem resolveItem_agrees : (item : Item) → (target : Target) →
    Agrees (resolveItem (o.named name) item target) (resolveItem o item target)
  | .widget comments e content, target => by
    unfold resolveItem
    simp only [inlineText_named, setContent_named]
    refine (Agrees.refl _).bind fun id => ?_
    refine (resolveItems_agrees content _).bind fun run => ?_
    refine (Agrees.refl _).bind fun made => ?_
    refine (resolveProperties_agrees content _).bind fun target1 => ?_
    refine (Agrees.refl _).bind fun texts => ?_
    refine (Agrees.refl _).bind fun _ => ?_
    exact (resolveAttributes_agrees e _ _).bind fun _ => .refl _
  | .property .., target => by
    unfold resolveItem
    exact .refl _
  | .callback e content, target => by
    unfold resolveItem
    rw [callbackHead_named]
    refine (Agrees.refl _).bind fun head => ?_
    exact (resolveItems_agrees content _).bind fun _ => .refl _
  | .conditional comments branches, target => by
    unfold resolveItem
    refine (Agrees.refl _).bind fun id => ?_
    refine (resolveBranches_agrees branches _).bind fun resolved => ?_
    refine (Agrees.refl _).bind fun _ => ?_
    exact (resolveConditions_agrees _ _ _ _).bind fun _ => .refl _

theorem resolveItems_agrees : (items : List Item) → (target : Target) →
    Agrees (resolveItems (o.named name) items target) (resolveItems o items target)
  | [], target => by
    unfold resolveItems
    exact .refl _
  | item :: items, target => by
    unfold resolveItems
    exact (resolveItem_agrees item _).bind fun run =>
      (resolveItems_agrees items _).bind fun _ => .refl _

theorem resolveProperties_agrees : (items : List Item) → (target : Target) →
    Agrees (resolveProperties (o.named name) items target) (resolveProperties o items target)
  | [], target => by
    unfold resolveProperties
    exact .refl _
  | item :: items, target => by
    unfold resolveProperties
    exact (resolveProperty_agrees item _).bind fun target1 => resolveProperties_agrees items target1

theorem resolveProperty_agrees : (item : Item) → (target : Target) →
    Agrees (resolveProperty (o.named name) item target) (resolveProperty o item target)
  | .property property e content, target => by
    unfold resolveProperty
    simp only [textValue_named, setContent_named]
    refine .ite (.refl _) ?_
    refine (Agrees.refl _).bind fun id => ?_
    refine (resolveItems_agrees content _).bind fun run => ?_
    refine (Agrees.refl _).bind fun made => ?_
    refine (resolveProperties_agrees content _).bind fun target1 => ?_
    refine (Agrees.refl _).bind fun _ => ?_
    exact (resolveAttributes_agrees e _ _).bind fun _ => .refl _
  | .widget .., target | .callback .., target | .conditional .., target => by
    unfold resolveProperty
    exact .refl _

theorem resolveBranches_agrees : (branches : List Branch) → (current : WidgetId) →
    Agrees (resolveBranches (o.named name) branches current) (resolveBranches o branches current)
  | [], current => by
    unfold resolveBranches
    exact .refl _
  | .mk _ _ content :: branches, current => by
    unfold resolveBranches resolveBranch
    refine .bind ?_ fun made => ?_
    · exact (resolveItems_agrees content _).bind fun _ => .refl _
    · exact (Agrees.refl _).bind fun _ => (resolveBranches_agrees branches _).bind fun _ => .refl _

end

/-! ## Documents -/

theorem buildRoot_agrees (fields : List ClassField) (comments : List Text) (e : Element) :
    Agrees (buildRoot (o.named name) fields comments e) (buildRoot o fields comments e) :=
  (resolveItem_agrees _ _).bind fun _ => .refl _

theorem assembleRoots_toOption_eq (info : ClassInfo) (roots : List (List Text × Element)) :
    (assembleRoots (o.named name) info roots).toOption = (assembleRoots o info roots).toOption := by
  unfold assembleRoots
  split
  · rfl
  · rename_i comments e
    rcases cases_of_toOption_eq (@buildRoot_agrees o name (info.fields ++ info.params) comments e {}) with
      ⟨r, hx, hy⟩ | ⟨_, _, hx, hy⟩
    · rw [hx, hy]
    · rw [hx, hy]
      rfl
  · rfl

theorem assemble_toOption_eq (d : Markup.Document) :
    (assemble (o.named name) d).toOption = (assemble o d).toOption := by
  unfold assemble
  split
  · rfl
  · change (if o.fragment then _ else _ : Except LayoutError Assembly).toOption = _
    split
    · exact assembleRoots_toOption_eq _ _
    · exact assembleRoots_toOption_eq _ _

theorem resolve_toOption_eq (d : Markup.Document) : (resolve (o.named name) d).toOption = (resolve o d).toOption := by
  unfold resolve
  rcases cases_of_toOption_eq (@assemble_toOption_eq o name d) with ⟨a, hx, hy⟩ | ⟨_, _, hx, hy⟩
  · rw [hx, hy]
  · rw [hx, hy]
    rfl

end Layout

theorem Markup.read_toOption_eq (options : Markup.ReadOptions) (filename filename' source : Text) :
    (Markup.Document.read options filename source).toOption =
      (Markup.Document.read options filename' source).toOption := by
  unfold Markup.Document.read
  dsimp only
  split
  · rfl
  · rfl

namespace Compiler

theorem resolve_toOption_eq (c : Compiler) (filename filename' source : Text) :
    (c.resolve filename source).toOption = (c.resolve filename' source).toOption := by
  unfold Compiler.resolve
  rcases cases_of_toOption_eq (Markup.read_toOption_eq c.markup filename filename' source) with
    ⟨d, hx, hy⟩ | ⟨_, _, hx, hy⟩
  · rw [hx, hy]
    dsimp only
    have hone : ∀ name, (Layout.resolve { c.layout with filename := name } d).toOption
        = (Layout.resolve c.layout d).toOption := fun name => Layout.resolve_toOption_eq d
    rcases cases_of_toOption_eq ((hone filename).trans (hone filename').symm) with ⟨r, hx, hy⟩ | ⟨e, e', hx, hy⟩
    · rw [hx, hy]
    · rw [hx, hy]
      cases e <;> cases e' <;> rfl
  · rw [hx, hy]
    rfl

theorem compile_toOption_eq (c : Compiler) (filename filename' source : Text) :
    (c.compile filename source).toOption = (c.compile filename' source).toOption := by
  unfold compile
  rcases cases_of_toOption_eq (c.resolve_toOption_eq filename filename' source) with ⟨r, hx, hy⟩ | ⟨_, _, hx, hy⟩
  · rw [hx, hy]
  · rw [hx, hy]
    rfl

end Compiler
end FlutterLayout
