import FlutterLayout.Layout.Widgets
import FlutterLayout.Proofs.Widget.Slots

/-!
# Writers — what the steps of construction do to one widget

Every change of a widget is one of a few: a property is set or removed, content is taken out, a list of
branches is put in, or a field that holds no widget changes.  `Rewrites` says what all of them have in
common, in terms of what they put into slots and take out of them:

* `fits` — the invariant of single widgets stays;
* `held` — nothing is in a slot that was not there before or put there, and what is taken out is gone;
* `needed` — the texts use no more variables than before and those of the new texts.
-/

namespace FlutterLayout

open List Widget
open List (Subperm)

def Widget.needed (w : Widget) : List Pipe.Subscription :=
  w.needs ++ w.properties.flatMap Property.needs

/-- The widget is a reactive builder of the subscription, with or without waiting for data. -/
def Widget.Carries (w : Widget) (s : Pipe.Subscription) : Prop :=
  ∃ flag, w.subscription? = some { s with skipNullCheck := flag }

namespace Layout

/-! ## Single widgets -/

structure Fits (w : Widget) : Prop where
  names : w.generator ≠ Directive.conditionalName → (namesOf w.properties).Nodup
  filled : ∀ p ∈ w.properties, p.value.IsFilled
  builder : w.generator = reactiveGenerator →
    w.properties = [] ∧ w.isCustom = true ∧ w.wrapped ≠ WidgetId.none ∧
      ∃ s, w.listens = some s ∧ w.binds = [s.valueName, s.snapshotName]

structure Alike (w w' : Widget) : Prop where
  isCustom : w'.isCustom = w.isCustom
  generator : w'.generator = w.generator
  subscription? : w'.subscription? = w.subscription?

theorem Alike.refl (w : Widget) : Alike w w := ⟨rfl, rfl, rfl⟩

theorem Alike.trans (h : Alike w w') (h' : Alike w' w'') : Alike w w'' :=
  ⟨h'.isCustom.trans h.isCustom, h'.generator.trans h.generator, h'.subscription?.trans h.subscription?⟩

theorem Alike.carries (h : Alike w w') (hs : w.Carries s) : w'.Carries s := by
  obtain ⟨flag, hflag⟩ := hs
  exact ⟨flag, h.subscription?.trans hflag⟩

/-- A widget that puts `taken` into its slots, takes `given` out of them, and whose new texts use the
variables of `needs`. -/
structure Rewrites (needs : List Pipe.Subscription) (taken given : List WidgetId) (w w' : Widget) :
    Prop where
  alike : Alike w w'
  fits : Fits w → Fits w'
  held : Subperm (w'.held ++ given) (w.held ++ taken)
  needed : ∀ s ∈ w'.needed, s ∈ w.needed ∨ s ∈ needs

variable {w w' w'' : Widget} {needs needs' : List Pipe.Subscription}
  {taken taken' given given' : List WidgetId}

theorem Rewrites.trans (h : Rewrites needs taken given w w') (h' : Rewrites needs' taken' given' w' w'') :
    Rewrites (needs ++ needs') (taken ++ taken') (given ++ given') w w'' where
  alike := h.alike.trans h'.alike
  fits hw := h'.fits (h.fits hw)
  held := by
    refine subperm_iff_count.2 ?_
    intro a
    have hfirst := subperm_iff_count.1 h.held a
    have hsecond := subperm_iff_count.1 h'.held a
    simp only [count_append] at hfirst hsecond ⊢
    omega
  needed s hs := by
    rcases h'.needed s hs with hs | hs
    · exact (h.needed s hs).imp_right (mem_append_left _)
    · exact .inr (mem_append_right _ hs)

theorem Rewrites.weaken (h : Rewrites needs taken given w w') (hneeds : needs ⊆ needs')
    (hgiven : Subperm given' given) : Rewrites needs' taken given' w w' where
  alike := h.alike
  fits := h.fits
  held := ((subperm_append_left _).2 hgiven).trans h.held
  needed s hs := (h.needed s hs).imp_right fun hs => hneeds hs

/-! ## Properties -/

theorem rewrites_set (w : Widget) (p : Property) (hplain : w.generator ≠ reactiveGenerator)
    (hfilled : p.value.IsFilled) : Rewrites p.needs p.value.held [] w (w.set p) where
  alike := ⟨rfl, rfl, rfl⟩
  fits hw :=
    { names := fun hgen => nodup_namesOf_putProperty (hw.names hgen)
      filled := by
        intro q hq
        rcases mem_putProperty hq with rfl | hq
        · exact hfilled
        · exact hw.filled q hq
      builder := fun hgen => absurd hgen hplain }
  held := by
    rw [append_nil]
    exact (sublist_append_left _ _).subperm.trans (held_set w p).subperm
  needed := by
    intro s hs
    rcases mem_append.1 hs with hs | hs
    · exact .inl (mem_append_left _ hs)
    · obtain ⟨q, hq, hneeds⟩ := mem_flatMap.1 hs
      rcases mem_putProperty hq with rfl | hold
      · exact .inr hneeds
      · exact .inl (mem_append_right _ (mem_flatMap.2 ⟨q, hold, hneeds⟩))

theorem rewrites_remove (w : Widget) (name : Text) :
    Rewrites [] [] (((w.property? name).map fun p => p.value.held).getD []) w (w.remove name) where
  alike := ⟨rfl, rfl, rfl⟩
  fits hw :=
    { names := fun hgen => nodup_namesOf_dropProperty (hw.names hgen)
      filled := fun q hq => hw.filled q ((dropProperty_sublist name _).subset hq)
      builder := by
        intro hgen
        obtain ⟨hprops, hrest⟩ := hw.builder hgen
        refine ⟨?_, hrest⟩
        simp [remove, hprops, dropProperty] }
  held := by
    rw [append_nil]
    exact (held_remove w name).subperm
  needed := by
    intro s hs
    rcases mem_append.1 hs with hs | hs
    · exact .inl (mem_append_left _ hs)
    · obtain ⟨q, hq, hs⟩ := mem_flatMap.1 hs
      exact .inl (mem_append_right _
        (mem_flatMap.2 ⟨q, (dropProperty_sublist name _).subset hq, hs⟩))

/-! ## Fields that hold no widget -/

structure Touches (w w' : Widget) : Prop where
  properties : w'.properties = w.properties
  wrapped : w'.wrapped = w.wrapped
  binds : w'.binds = w.binds
  listens : w'.listens = w.listens
  generator : w'.generator = w.generator
  isCustom : w'.isCustom = w.isCustom

theorem rewrites_touch (h : Touches w w') (hneeds : ∀ s ∈ w'.needs, s ∈ w.needs ∨ s ∈ needs) :
    Rewrites needs [] [] w w' where
  alike := ⟨h.isCustom, h.generator, by simp [subscription?, h.generator, h.listens]⟩
  fits hw := by
    constructor
    · rw [h.generator, h.properties]
      exact hw.names
    · rw [h.properties]
      exact hw.filled
    · rw [h.generator, h.properties, h.isCustom, h.wrapped, h.listens, h.binds]
      exact hw.builder
  held := by
    simp only [held, h.properties, h.wrapped]
    exact .refl _
  needed := by
    intro s hs
    rcases mem_append.1 hs with hs | hs
    · exact (hneeds s hs).imp_left (mem_append_left _)
    · rw [h.properties] at hs
      exact .inl (mem_append_right _ hs)

/-! ## Writers of the directives -/

theorem isFilled_text (v : Text) : (PropertyValue.text v).IsFilled :=
  ⟨nofun, nofun⟩

theorem isFilled_widgets (ids : List WidgetId) : (PropertyValue.widgets ids).IsFilled :=
  ⟨nofun, nofun⟩

theorem isFilled_function (f : Option FunctionLiteral) : (PropertyValue.function f).IsFilled :=
  ⟨nofun, nofun⟩

theorem fits_of_nil (hprops : w.properties = []) (hplain : w.generator ≠ reactiveGenerator) : Fits w where
  names _ := by simp [hprops, namesOf]
  filled p hp := by simp [hprops] at hp
  builder hgen := absurd hgen hplain

theorem fits_of_single (hprops : w.properties = [p]) (hfilled : p.value.IsFilled)
    (hplain : w.generator ≠ reactiveGenerator) : Fits w where
  names _ := by simp [hprops, namesOf]
  filled q hq := by
    rw [hprops] at hq
    rwa [mem_singleton.1 hq]
  builder hgen := absurd hgen hplain

theorem widgetsOf_subperm (hv : v.IsFilled) : Subperm (widgetsOf v) v.held := by
  cases v with
  | text | widgets | unknown => exact .refl _
  | widget id =>
    have hid : id ≠ .none := fun heq => hv.1 (heq ▸ rfl)
    simp [widgetsOf, PropertyValue.held, hid, Subperm.refl]
  | function f => exact nil_subperm
  | fragment id =>
    have hid : id ≠ .none := fun heq => hv.2 (heq ▸ rfl)
    simp [widgetsOf, PropertyValue.held, hid, Subperm.refl]

/-- A property that joins is set as it is, or as a list behind the widgets that are there already. -/
theorem joinProperty_cases (p : Property) (w : Widget) : joinProperty p w = w.set p ∨ ∃ q, w.property? p.name = some q ∧
      joinProperty p w = w.set (.ofWidgets p.name (widgetsOf q.value ++ widgetsOf p.value)) := by
  unfold joinProperty
  split
  · rename_i q hq
    split
    · exact .inr ⟨q, hq, rfl⟩
    · exact .inl rfl
  · exact .inl rfl

theorem rewrites_joinProperty (hw : Fits w) (hplain : w.generator ≠ reactiveGenerator)
    (hfilled : p.value.IsFilled) : Rewrites p.needs p.value.held [] w (joinProperty p w) := by
  rcases joinProperty_cases p w with hjoin | ⟨q, hq, hjoin⟩
  · exact hjoin ▸ rewrites_set w p hplain hfilled
  · rw [hjoin]
    have hset := rewrites_set w (.ofWidgets p.name (widgetsOf q.value ++ widgetsOf p.value)) hplain
      (isFilled_widgets _)
    refine ⟨hset.alike, hset.fits, ?_, fun s hs => (hset.needed s hs).imp_right nofun⟩
    refine subperm_iff_count.2 ?_
    intro a
    -- What `q` held leaves its place and enters the joined list.
    have hcount := (held_set w
      (.ofWidgets p.name (widgetsOf q.value ++ widgetsOf p.value))).count_eq a
    have hold := (widgetsOf_subperm (hw.filled q (mem_of_find?_eq_some hq))).count_le a
    have hnew := (widgetsOf_subperm hfilled).count_le a
    simp only [Property.ofWidgets, hq, held_widgets, count_append, Option.map_some,
      Option.getD_some, append_nil] at hcount ⊢
    omega

section TakeOver

variable {p? : Option Property} {type tag : Text}

theorem held_takeOver : (Attribute.takeOver p? { type := type, isCustom := true, tag := tag }).held
    = (p?.map fun p => p.value.held).getD [] := by
  cases p? with
  | none => rfl
  | some p =>
    obtain ⟨name, value⟩ := p
    cases value with
    | widget | fragment => exact append_nil _
    | _ => simp [Attribute.takeOver, Widget.held, Widget.set, putProperty, heldBy]

theorem generator_takeOver : (Attribute.takeOver p? { type := type, isCustom := true, tag := tag }).generator = [] := by
  unfold Attribute.takeOver
  split
  · rfl
  · split <;> rfl

theorem fits_takeOver (hfilled : ∀ p ∈ p?, p.value.IsFilled) :
    Fits (Attribute.takeOver p? { type := type, isCustom := true, tag := tag }) := by
  have hplain : (Attribute.takeOver p? { type := type, isCustom := true, tag := tag }).generator
      ≠ reactiveGenerator := by
    rw [generator_takeOver]
    decide
  revert hplain
  unfold Attribute.takeOver
  split
  · exact fits_of_nil rfl
  · split
    · exact fits_of_nil rfl
    · exact fits_of_nil rfl
    · exact fits_of_single rfl (hfilled _ rfl)

theorem needed_takeOver (hs : s ∈ (Attribute.takeOver p? { type := type, isCustom := true, tag := tag }).needed) :
    ∃ p ∈ p?, s ∈ p.needs := by
  unfold Attribute.takeOver at hs
  split at hs
  · cases hs
  · split at hs
    · cases hs
    · cases hs
    · exact ⟨_, rfl, by simpa [Widget.needed, Widget.set, putProperty] using hs⟩

end TakeOver

theorem childIds_subperm (p? : Option Property) :
    Subperm (Attribute.childIds p?) ((p?.map fun p => p.value.held).getD []) := by
  unfold Attribute.childIds
  split
  · exact .refl _
  · exact .refl _
  · exact nil_subperm

theorem childrenIds_subperm (p? : Option Property) :
    Subperm (Attribute.childrenIds p?) ((p?.map fun p => p.value.held).getD []) := by
  unfold Attribute.childrenIds
  split
  · exact .refl _
  · exact nil_subperm

theorem children_remove_child (w : Widget) :
    (w.remove childProperty).property? childrenProperty = w.property? childrenProperty :=
  findProperty?_dropProperty (by decide) w.properties

theorem rewrites_takeContent (w : Widget) : Rewrites [] [] (Attribute.childIds (w.property? childProperty)
      ++ Attribute.childrenIds (w.property? childrenProperty)) w
      ((w.remove childProperty).remove childrenProperty) := by
  have hboth := (rewrites_remove w childProperty).trans (rewrites_remove (w.remove childProperty) childrenProperty)
  rw [children_remove_child] at hboth
  refine hboth.weaken (nil_subset _) ?_
  exact (childIds_subperm _).append (childrenIds_subperm _)

theorem rewrites_branches (ps : List Property) (hgen : w.generator = Directive.conditionalName)
    (hfilled : ∀ p ∈ ps, p.value.IsFilled) :
    Rewrites (ps.flatMap Property.needs) (heldBy ps) [] w { w with properties := ps } where
  alike := ⟨rfl, rfl, rfl⟩
  fits _ :=
    { names := fun hne => absurd hgen hne
      filled := hfilled
      builder := fun hreact => absurd (hgen.symm.trans hreact) (by decide) }
  held := by
    refine subperm_iff_count.2 ?_
    intro a
    simp only [held, count_append, count_nil]
    omega
  needed s hs := (mem_append.1 hs).imp_left (mem_append_left _)

def CallbackHead.callback (head : CallbackHead) (body : List WidgetId) : Property :=
  .ofFunction head.property { head.literal with body := body } head.needs

/-- The callback is set last, and before it perhaps the number of items. -/
theorem setCallback_cases (head : CallbackHead) (body : List WidgetId) (w : Widget) :
    setCallback head body w = w.set (head.callback body) ∨ ∃ count, setCallback head body w =
      (w.set (.ofExpression "itemCount" ⟨count, head.needs⟩)).set (head.callback body) := by
  unfold setCallback
  dsimp only
  split
  · split
    · exact .inl rfl
    · exact .inr ⟨_, rfl⟩
  · exact .inl rfl

theorem rewrites_setCallback (head : CallbackHead) (body : List WidgetId) (w : Widget)
    (hplain : w.generator ≠ reactiveGenerator) : Rewrites head.needs body [] w (setCallback head body w) := by
  have hfun : ∀ v : Widget, v.generator ≠ reactiveGenerator →
      Rewrites head.needs body [] v (v.set (head.callback body)) :=
    fun v hv => rewrites_set v (head.callback body) hv (isFilled_function _)
  rcases setCallback_cases head body w with hset | ⟨count, hset⟩
  · exact hset ▸ hfun w hplain
  · rw [hset]
    have hcount := rewrites_set w (.ofExpression "itemCount" ⟨count, head.needs⟩) hplain (isFilled_text _)
    refine (hcount.trans (hfun _ hplain)).weaken ?_ (.refl _)
    exact append_subset.2 ⟨.refl _, .refl _⟩

end Layout
end FlutterLayout
