import FlutterLayout.Proofs.Widget.Slots

/-!
# Relabel — other ids in the slots of a widget

`mapIds` puts other ids into all slots of a widget at once.  Putting an id into one slot is a case of it, as
long as no other slot holds what was there (`put_eq_mapIds`), so that a change of one slot can be followed
through the references of a widget without looking at slots.
-/

namespace FlutterLayout

open List Property Widget

def PropertyValue.mapIds (f : WidgetId → WidgetId) : PropertyValue → PropertyValue
  | widget id => widget (f id)
  | fragment id => fragment (f id)
  | widgets ids => widgets (ids.map f)
  | function (some g) => function (some { g with body := g.body.map f })
  | value => value

def Property.mapIds (f : WidgetId → WidgetId) (p : Property) : Property :=
  { p with value := p.value.mapIds f }

def Widget.mapIds (f : WidgetId → WidgetId) (w : Widget) : Widget :=
  { w with wrapped := f w.wrapped, properties := w.properties.map (Property.mapIds f) }

def Reference.mapId (f : WidgetId → WidgetId) (r : Reference) : Reference :=
  { r with id := f r.id }

def KeepsNone (f : WidgetId → WidgetId) : Prop :=
  ∀ id, f id = WidgetId.none ↔ id = WidgetId.none

variable {f g : WidgetId → WidgetId} {w : Widget} {p : Property} {binds : List Text} {index : Nat} {r : Reference}
  {b c : WidgetId}

/-! ## References -/

theorem itemReferences_map (ids : List WidgetId) :
    itemReferences index binds (ids.map f) = (itemReferences index binds ids).map (.mapId f) := by
  simp only [itemReferences, zipIdx_map, map_map]
  rfl

theorem Property.references_mapIds (hf : KeepsNone f) :
    (p.mapIds f).references binds index = (p.references binds index).map (.mapId f) := by
  obtain ⟨name, value⟩ := p
  cases value with
  | text | unknown => rfl
  | widget id | fragment id =>
    by_cases hid : id = .none
    · simp [references, mapIds, PropertyValue.mapIds, hid, (hf _).2]
    · simp [references, mapIds, PropertyValue.mapIds, hid, mt (hf id).1 hid, Reference.mapId]
  | widgets ids => exact itemReferences_map ids
  | function g =>
    cases g with
    | none => rfl
    | some g => exact itemReferences_map g.body

theorem Widget.references_mapIds (hf : KeepsNone f) :
    (w.mapIds f).references = w.references.map (Reference.mapId f) := by
  have hprops : ((w.properties.map (Property.mapIds f)).zipIdx.flatMap fun x => x.1.references w.binds x.2)
      = (w.properties.zipIdx.flatMap fun x => x.1.references w.binds x.2).map (Reference.mapId f) := by
    rw [zipIdx_map, flatMap_map, map_flatMap]
    exact congrArg (flatMap · _) (funext fun a => Property.references_mapIds hf)
  rw [references, references, map_append]
  refine congrArg₂ (· ++ ·) ?_ hprops
  rw [mapIds]
  by_cases hw : w.wrapped = .none
  · simp [hw, (hf _).2]
  · simp [hw, mt (hf w.wrapped).1 hw, Reference.mapId]

/-! ## Relabellings in a row -/

theorem Property.mapIds_mapIds : (p.mapIds f).mapIds g = p.mapIds (g ∘ f) := by
  obtain ⟨name, value⟩ := p
  cases value with
  | function h => cases h <;> simp [mapIds, PropertyValue.mapIds]
  | _ => simp [mapIds, PropertyValue.mapIds]

theorem Widget.mapIds_mapIds : (w.mapIds f).mapIds g = w.mapIds (g ∘ f) := by
  simp [mapIds, Function.comp_def, Property.mapIds_mapIds]

theorem Property.mapIds_congr (binds : List Text) (index : Nat) (h : ∀ r ∈ p.references binds index, f r.id = g r.id)
    (hnone : f .none = g .none) : p.mapIds f = p.mapIds g := by
  have hids : ∀ (binds : List Text) (ids : List WidgetId),
      (∀ r ∈ itemReferences index binds ids, f r.id = g r.id) → ids.map f = ids.map g := by
    intro binds ids hall
    refine map_congr_left ?_
    intro id hid
    rw [← itemReferences_map_id index binds ids] at hid
    obtain ⟨r, hr, rfl⟩ := mem_map.1 hid
    exact hall r hr
  obtain ⟨name, value⟩ := p
  cases value with
  | text | unknown => rfl
  | widget id | fragment id =>
    by_cases hid : id = .none
    · simp [mapIds, PropertyValue.mapIds, hid, hnone]
    · simpa [mapIds, PropertyValue.mapIds, references, hid] using h
  | widgets ids => simp [mapIds, PropertyValue.mapIds, hids binds ids h]
  | function k =>
    cases k with
    | none => rfl
    | some k => simp [mapIds, PropertyValue.mapIds, hids (binds ++ k.binds) k.body h]

theorem Widget.mem_references_of_property (hp : (p, index) ∈ w.properties.zipIdx) (hr : r ∈ p.references w.binds index)
    : r ∈ w.references :=
  mem_append_right _ (mem_flatMap.2 ⟨(p, index), hp, hr⟩)

theorem Widget.mapIds_congr (h : ∀ r ∈ w.references, f r.id = g r.id)
    (hnone : f .none = g .none) : w.mapIds f = w.mapIds g := by
  have hwrap : f w.wrapped = g w.wrapped := by
    by_cases hw : w.wrapped = .none
    · rw [hw, hnone]
    · exact h ⟨.wrapped, w.wrapped, w.binds⟩ (by simp [references, hw])
  have hprops : w.properties.map (Property.mapIds f) = w.properties.map (Property.mapIds g) := by
    refine map_congr_left ?_
    intro p hp
    obtain ⟨index, hindex, rfl⟩ := getElem_of_mem hp
    refine Property.mapIds_congr w.binds index ?_ hnone
    intro r hr
    exact h r (mem_references_of_property (mk_mem_zipIdx_iff_getElem?.2 (by simp [hindex])) hr)
  simp [mapIds, hwrap, hprops]

theorem Property.mapIds_id : p.mapIds (fun id => id) = p := by
  obtain ⟨name, value⟩ := p
  cases value with
  | function h => cases h <;> simp [mapIds, PropertyValue.mapIds]
  | _ => simp [mapIds, PropertyValue.mapIds]

theorem Widget.mapIds_id : w.mapIds (fun id => id) = w := by
  have hid : Property.mapIds (fun id => id) = id := funext fun p => Property.mapIds_id
  simp [mapIds, hid]

/-! ## One slot -/

def redirect (b c id : WidgetId) : WidgetId :=
  if id = b then c else id

@[simp] theorem redirect_self (b c : WidgetId) : redirect b c b = c := by simp [redirect]

@[simp] theorem redirect_of_ne {b c id : WidgetId} (h : id ≠ b) : redirect b c id = id := by simp [redirect, h]

theorem keepsNone_redirect (hb : b ≠ .none) (hc : c ≠ .none) : KeepsNone (redirect b c) := by
  intro id
  by_cases hid : id = b
  · subst hid
    simp [hb, hc]
  · simp [hid]

theorem Property.mapIds_redirect_of_not_mem (binds : List Text) (index : Nat) (hb : b ≠ .none)
    (h : ∀ r ∈ p.references binds index, r.id ≠ b) : p.mapIds (redirect b c) = p := by
  have hsame : p.mapIds (redirect b c) = p.mapIds fun id => id :=
    mapIds_congr binds index (fun r hr => redirect_of_ne (h r hr)) (redirect_of_ne hb.symm)
  rw [hsame, mapIds_id]

theorem Widget.mapIds_redirect_of_not_mem (hb : b ≠ .none) (h : ∀ r ∈ w.references, r.id ≠ b) :
    w.mapIds (redirect b c) = w := by
  have hsame : w.mapIds (redirect b c) = w.mapIds fun id => id :=
    mapIds_congr (fun r hr => redirect_of_ne (h r hr)) (redirect_of_ne hb.symm)
  rw [hsame, mapIds_id]

theorem mem_itemReferences :
    r ∈ itemReferences index binds ids ↔ ∃ k, ids[k]? = some r.id ∧ r = ⟨.item index k, r.id, binds⟩ := by
  constructor
  · intro hr
    obtain ⟨⟨id, k⟩, hk, rfl⟩ := mem_map.1 hr
    exact ⟨k, mk_mem_zipIdx_iff_getElem?.1 hk, rfl⟩
  · rintro ⟨k, hk, hr⟩
    rw [hr]
    exact mem_map.2 ⟨(r.id, k), mk_mem_zipIdx_iff_getElem?.2 hk, rfl⟩

theorem set_eq_map_redirect {ids : List WidgetId} {k : Nat} (hk : ids[k]? = some b)
    (hunique : ∀ j, ids[j]? = some b → j = k) : ids.set k c = ids.map (redirect b c) := by
  refine ext_getElem? ?_
  intro j
  rw [getElem?_map]
  by_cases hj : j = k
  · subst hj
    have hlt : j < ids.length := (List.getElem?_eq_some_iff.1 hk).1
    simp [hk, getElem?_set_self hlt]
  · rw [getElem?_set_ne (Ne.symm hj)]
    cases hid : ids[j]? with
    | none => rfl
    | some id =>
      have hne : id ≠ b := fun heq => hj (hunique j (heq ▸ hid))
      simp [hne]

theorem Property.put_eq_mapIds (hr : r ∈ p.references binds index)
    (hunique : ∀ q ∈ p.references binds index, q.id = r.id → q.slot = r.slot) :
    ∃ position, (r.slot = .property index ∧ position = 0 ∨ r.slot = .item index position) ∧
      p.value.put position c = p.value.mapIds (redirect r.id c) := by
  have hitems : ∀ (binds : List Text) (ids : List WidgetId), r ∈ itemReferences index binds ids →
      (∀ q ∈ itemReferences index binds ids, q.id = r.id → q.slot = r.slot) →
        ∃ k, r.slot = .item index k ∧ ids.set k c = ids.map (redirect r.id c) := by
    intro binds ids hr hunique
    obtain ⟨k, hk, heq⟩ := mem_itemReferences.1 hr
    have hslot : r.slot = .item index k := congrArg Reference.slot heq
    refine ⟨k, hslot, set_eq_map_redirect hk ?_⟩
    intro j hj
    have hsame := hunique ⟨.item index j, r.id, binds⟩ (mem_itemReferences.2 ⟨j, hj, rfl⟩) rfl
    exact (Slot.item.inj (hsame.trans hslot)).2
  obtain ⟨name, value⟩ := p
  cases value with
  | text | unknown => cases hr
  | widget id | fragment id =>
    by_cases hid : id = .none
    · simp [references, hid] at hr
    · have heq : r = ⟨.property index, id, binds⟩ := by simpa [references, hid] using hr
      rw [heq]
      exact ⟨0, .inl ⟨rfl, rfl⟩, by simp [PropertyValue.put, PropertyValue.mapIds]⟩
  | widgets ids =>
    obtain ⟨k, hslot, hset⟩ := hitems binds ids hr hunique
    exact ⟨k, .inr hslot, congrArg PropertyValue.widgets hset⟩
  | function g =>
    cases g with
    | none => cases hr
    | some g =>
      obtain ⟨k, hslot, hset⟩ := hitems (binds ++ g.binds) g.body hr hunique
      exact ⟨k, .inr hslot, by simp [PropertyValue.put, PropertyValue.mapIds, hset]⟩

/-- Where one slot only holds `r.id`, putting another id there relabels the widget. -/
theorem Widget.put_eq_mapIds (hr : r ∈ w.references) (hunique : ∀ q ∈ w.references, q.id = r.id → q.slot = r.slot)
    (hid : r.id ≠ .none) : w.put r.slot c = w.mapIds (redirect r.id c) := by
  have hother : ∀ {k : Nat} {p : Property}, w.properties[k]? = some p → r.slot.index? ≠ some k →
      p.mapIds (redirect r.id c) = p := by
    intro k p hp hne
    refine Property.mapIds_redirect_of_not_mem w.binds k hid ?_
    intro q hq heq
    have hmem := mem_references_of_property (mk_mem_zipIdx_iff_getElem?.2 hp) hq
    rw [← hunique q hmem heq] at hne
    exact hne (index?_of_mem_references hq)
  rcases mem_append.1 hr with hwrap | hprop
  · split at hwrap
    · cases hwrap
    · have heq := mem_singleton.1 hwrap
      have hslot : r.slot = .wrapped := congrArg Reference.slot heq
      have hsame : r.id = w.wrapped := congrArg Reference.id heq
      have hprops : w.properties.map (Property.mapIds (redirect r.id c)) = w.properties.map id := by
        refine map_congr_left ?_
        intro p hp
        obtain ⟨k, hk⟩ := getElem?_of_mem hp
        exact hother hk (by simp [hslot, Slot.index?])
      rw [hslot]
      simp only [put, mapIds, hprops, map_id]
      rw [hsame, redirect_self]
  · obtain ⟨⟨p, k⟩, hp, hr⟩ := mem_flatMap.1 hprop
    have hpk := mk_mem_zipIdx_iff_getElem?.1 hp
    have hindex := index?_of_mem_references hr
    obtain ⟨position, hslot, hvalue⟩ := Property.put_eq_mapIds (c := c) hr
      fun q hq => hunique q (mem_references_of_property hp hq)
    have hwrap : redirect r.id c w.wrapped = w.wrapped := by
      refine redirect_of_ne ?_
      intro heq
      have hmem : (⟨.wrapped, w.wrapped, w.binds⟩ : Reference) ∈ w.references := by
        simp [references, heq, hid]
      rw [← hunique _ hmem heq] at hindex
      cases hindex
    have hprops : (w.properties.modify k fun p => { p with value := p.value.put position c })
        = w.properties.map (Property.mapIds (redirect r.id c)) := by
      refine ext_getElem? ?_
      intro j
      rw [getElem?_modify, getElem?_map]
      by_cases hj : k = j
      · subst hj
        simp [hpk, Property.mapIds, hvalue]
      · cases hpj : w.properties[j]? with
        | none => simp
        | some q => simp [hj, hother hpj (fun heq => hj (Option.some.inj (hindex.symm.trans heq)))]
    have hput : w.put r.slot c
        = { w with properties := w.properties.modify k fun p => { p with value := p.value.put position c } } := by
      rcases hslot with ⟨hslot, rfl⟩ | hslot
      · rw [hslot]
        rfl
      · rw [hslot]
        rfl
    rw [hput, hprops, mapIds, hwrap]

end FlutterLayout
