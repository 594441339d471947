import Mathlib.Data.List.Perm.Subperm
import FlutterLayout.Widget.Tree

/-!
# Slots — what the writers of a tree do to its widgets

Every change of a tree goes through `add`, `modify` or `defer`.  This file says once what each of them
does to `get?`, so that no later proof opens the list of widgets.
-/

namespace FlutterLayout

open List Widget
open List (Perm)

namespace Tree

variable {α : Type} {t : Tree α} {id x : WidgetId} {w : Widget}

/-! ## Looking up -/

theorem get?_eq_some_iff : t.get? id = some w ↔ 0 < id ∧ t.widgets[id.toNat - 1]? = some w := by
  unfold get? index?
  by_cases h : id ≤ 0
  · simp [h, Int.not_lt.2 h]
  · simp [h, Int.not_le.1 h]

theorem pos_of_get? (h : t.get? id = some w) : 0 < id :=
  (get?_eq_some_iff.1 h).1

theorem le_size_of_get? (h : t.get? id = some w) : id ≤ t.size := by
  obtain ⟨hpos, hw⟩ := get?_eq_some_iff.1 h
  obtain ⟨hlt, -⟩ := List.getElem?_eq_some_iff.1 hw
  unfold size
  lia

theorem ne_none_of_get? (h : t.get? id = some w) : id ≠ .none := by
  have hpos := pos_of_get? h
  intro hid
  rw [hid] at hpos
  exact absurd hpos (by decide)

@[simp] theorem get?_none : t.get? .none = none := rfl

theorem get?_of_size_lt (h : (t.size : Int) < id) : t.get? id = none := by
  cases hw : t.get? id with
  | none => rfl
  | some w =>
    have hle := le_size_of_get? hw
    lia

theorem get?_empty (x : WidgetId) : (empty : Tree α).get? x = none := by
  by_cases hpos : 0 < x
  · exact get?_of_size_lt hpos
  · cases hw : (empty : Tree α).get? x with
    | none => rfl
    | some w => exact absurd (pos_of_get? hw) hpos

/-! ## Adding -/

theorem add_fst (w : Widget) : (t.add w).1 = (t.size : Int) + 1 := rfl

@[simp] theorem size_add (w : Widget) : (t.add w).2.size = t.size + 1 := by
  simp [add, size]

theorem get?_add_self (w : Widget) : (t.add w).2.get? (t.add w).1 = some w := by
  refine get?_eq_some_iff.2 ⟨?_, ?_⟩
  · rw [add_fst]
    lia
  · simp [add]

theorem get?_add_of_le (w : Widget) (h : x ≤ t.size) : (t.add w).2.get? x = t.get? x := by
  unfold get? index?
  by_cases hx : x ≤ 0
  · simp [hx]
  · have hlt : x.toNat - 1 < t.widgets.length := by
      unfold size at h
      lia
    simp [hx, add, hlt, getElem?_append_left hlt]

theorem get?_add_of_ne (w : Widget) (h : x ≠ (t.add w).1) : (t.add w).2.get? x = t.get? x := by
  by_cases hx : x ≤ t.size
  · exact get?_add_of_le w hx
  · rw [add_fst] at h
    have hlt : ((t.add w).2.size : Int) < x := by
      rw [size_add]
      lia
    rw [get?_of_size_lt hlt, get?_of_size_lt (Int.not_le.1 hx)]

theorem get?_add_of_get? (h : t.get? x = some v) : (t.add w).2.get? x = some v := by
  rw [get?_add_of_le w (le_size_of_get? h), h]

theorem get?_add_cases (hv : (t.add w).2.get? x = some v) : t.get? x = some v ∨ (x = (t.add w).1 ∧ v = w) := by
  by_cases heq : x = (t.add w).1
  · subst heq
    rw [get?_add_self] at hv
    cases hv
    exact .inr ⟨rfl, rfl⟩
  · rw [get?_add_of_ne w heq] at hv
    exact .inl hv

/-! ## Changing -/

@[simp] theorem size_modify (f : Widget → Widget) : (t.modify id f).size = t.size := by
  unfold modify
  split <;> simp [size]

@[simp] theorem deferred_modify (f : Widget → Widget) : (t.modify id f).deferred = t.deferred := by
  unfold modify
  split <;> rfl

theorem get?_modify_self (f : Widget → Widget) : (t.modify id f).get? id = (t.get? id).map f := by
  unfold modify get? index?
  by_cases h : id ≤ 0
  · simp [h]
  · simp [h]

theorem get?_modify_of_ne (f : Widget → Widget) (h : x ≠ id) : (t.modify id f).get? x = t.get? x := by
  unfold modify get? index?
  by_cases hid : id ≤ 0
  · simp [hid]
  · by_cases hx : x ≤ 0
    · simp [hx]
    · have hne : ¬ id.toNat - 1 = x.toNat - 1 := by lia
      simp [hid, hx, hne]

theorem get?_modify_of_get? (h : t.get? id = some w) : (t.modify id f).get? id = some (f w) := by
  rw [get?_modify_self, h, Option.map_some]

theorem get?_modify_cases (hv : (t.modify id f).get? x = some v) :
    ∃ w, t.get? x = some w ∧ (x = id ∧ v = f w ∨ v = w) := by
  by_cases heq : x = id
  · subst heq
    rw [get?_modify_self] at hv
    obtain ⟨w, hw, rfl⟩ := Option.map_eq_some_iff.1 hv
    exact ⟨w, hw, .inl ⟨rfl, rfl⟩⟩
  · rw [get?_modify_of_ne f heq] at hv
    exact ⟨v, hv, .inr rfl⟩

theorem exists_get?_modify (id : WidgetId) (f : Widget → Widget) (hw : t.get? x = some w) :
    ∃ v, (t.modify id f).get? x = some v ∧ (x = id ∧ v = f w ∨ v = w) := by
  by_cases heq : x = id
  · subst heq
    exact ⟨f w, get?_modify_of_get? hw, .inl ⟨rfl, rfl⟩⟩
  · exact ⟨w, by rw [get?_modify_of_ne f heq, hw], .inr rfl⟩

theorem modify_eq_self (h : ∀ w, t.get? id = some w → f w = w) : t.modify id f = t := by
  have hlist : ∀ (ws : List Widget) (i : Nat), (∀ w, ws[i]? = some w → f w = w) → ws.modify i f = ws := by
    intro ws
    induction ws with
    | nil => exact fun i _ => modify_nil f i
    | cons v ws ih =>
      intro i hi
      cases i with
      | zero => simp [hi v rfl]
      | succ i => simp [ih i fun w hw => hi w (by simpa using hw)]
  unfold modify
  unfold get? at h
  split
  · rename_i i hi
    rw [hi] at h
    rw [hlist t.widgets i h]
  · rfl

theorem modify_modify (f g : Widget → Widget) : (t.modify id f).modify id g = t.modify id (g ∘ f) := by
  unfold modify
  split
  · simp [modify_modify_eq]
  · rfl

theorem modify_add (w : Widget) (f : Widget → Widget) (h : x ≤ t.size) :
    (t.add w).2.modify x f = ((t.modify x f).add w).2 := by
  have happend : ∀ (ws : List Widget) (i : Nat), i < ws.length →
      (ws ++ [w]).modify i f = ws.modify i f ++ [w] := by
    intro ws
    induction ws with
    | nil => exact fun i hi => absurd hi (Nat.not_lt_zero i)
    | cons v ws ih =>
      intro i hi
      cases i with
      | zero => rfl
      | succ i => simp [ih i (Nat.lt_of_succ_lt_succ hi)]
  unfold modify index?
  by_cases hx : x ≤ 0
  · simp [hx, add]
  · have hlt : x.toNat - 1 < t.widgets.length := by
      unfold size at h
      lia
    simp [hx, add, happend _ _ hlt]

/-! ## Queueing -/

theorem mem_deferred_defer : d ∈ (t.defer id action).deferred ↔ d ∈ t.deferred ∨ d = (id, action) := by
  simp [defer]

end Tree

/-! ## What a widget holds -/

def PropertyValue.held : PropertyValue → List WidgetId
  | widget id => if id = WidgetId.none then [] else [id]
  | fragment id => if id = WidgetId.none then [] else [id]
  | widgets ids => ids
  | function (some f) => f.body
  | _ => []

def heldBy (properties : List Property) : List WidgetId :=
  properties.flatMap fun p => p.value.held

def Widget.held (w : Widget) : List WidgetId :=
  (if w.wrapped = WidgetId.none then [] else [w.wrapped]) ++ heldBy w.properties

@[simp] theorem heldBy_nil : heldBy [] = [] := rfl

@[simp] theorem heldBy_cons (p : Property) (ps : List Property) : heldBy (p :: ps) = p.value.held ++ heldBy ps := rfl

@[simp] theorem held_text (t : Text) : (PropertyValue.text t).held = [] := rfl

@[simp] theorem held_widgets (ids : List WidgetId) : (PropertyValue.widgets ids).held = ids := rfl

def PropertyValue.IsFilled (v : PropertyValue) : Prop :=
  v ≠ .widget WidgetId.none ∧ v ≠ .fragment WidgetId.none

theorem itemReferences_map_id (index : Nat) (binds : List Text) (ids : List WidgetId) :
    (itemReferences index binds ids).map Reference.id = ids := by
  simp only [itemReferences, map_map]
  exact zipIdx_map_fst 0 ids

theorem Property.references_map_id (binds : List Text) (index : Nat) (p : Property) :
    (p.references binds index).map Reference.id = p.value.held := by
  unfold Property.references PropertyValue.held
  split <;> simp_all [itemReferences_map_id, apply_ite]

/-- The references of a widget, without slots and names, are the ids it holds. -/
theorem Widget.references_map_id (w : Widget) : w.references.map Reference.id = w.held := by
  have hprops : ∀ (ps : List Property) (k : Nat),
      ((ps.zipIdx k).flatMap fun x => x.1.references w.binds x.2).map Reference.id
        = heldBy ps := by
    intro ps
    induction ps with
    | nil =>
      intro k
      rfl
    | cons p ps ih =>
      intro k
      simp [zipIdx_cons, Property.references_map_id, ih (k + 1)]
  have hall := hprops w.properties 0
  rw [references, held, map_append]
  refine congrArg₂ (· ++ ·) ?_ hall
  split <;> rfl

theorem Tree.children_of_get? {α : Type} {t : Tree α} {id : WidgetId} {w : Widget}
    (h : t.get? id = some w) : t.children id = w.held := by
  simp [children, h, references_map_id]

/-! ## Slots are distinct -/

theorem itemReferences_pairwise (index : Nat) (binds : List Text) (ids : List WidgetId) :
    (itemReferences index binds ids).Pairwise fun r s => r.slot ≠ s.slot := by
  have hpositions : ∀ (ids : List WidgetId) (k : Nat),
      (ids.zipIdx k).Pairwise fun a b => a.2 ≠ b.2 := by
    intro ids
    induction ids with
    | nil =>
      intro k
      simp
    | cons a ids ih =>
      intro k
      refine pairwise_cons.2 ⟨?_, ih (k + 1)⟩
      intro b hb
      have hle := le_snd_of_mem_zipIdx hb
      exact Nat.ne_of_lt hle
  refine pairwise_map.2 ((hpositions ids 0).imp ?_)
  intro a b hne hslot
  exact hne (Slot.item.inj hslot).2

def Slot.index? : Slot → Option Nat
  | wrapped => none
  | property index => some index
  | item index _ => some index

theorem Property.index?_of_mem_references {binds : List Text} {index : Nat} {p : Property} {r : Reference}
    (h : r ∈ p.references binds index) : r.slot.index? = some index := by
  have hitems : ∀ (binds : List Text) (ids : List WidgetId),
      r ∈ itemReferences index binds ids → r.slot.index? = some index := by
    intro binds ids hr
    obtain ⟨a, -, rfl⟩ := mem_map.1 hr
    rfl
  unfold Property.references at h
  split at h
  · split at h <;> simp_all [Slot.index?]
  · split at h <;> simp_all [Slot.index?]
  · exact hitems _ _ h
  · exact hitems _ _ h
  · cases h

theorem Property.references_pairwise (binds : List Text) (index : Nat) (p : Property) :
    (p.references binds index).Pairwise fun r s => r.slot ≠ s.slot := by
  unfold Property.references
  split
  · split <;> simp
  · split <;> simp
  · exact itemReferences_pairwise _ _ _
  · exact itemReferences_pairwise _ _ _
  · simp

theorem Widget.references_pairwise (w : Widget) : w.references.Pairwise fun r s => r.slot ≠ s.slot := by
  have hmem : ∀ (ps : List Property) (k : Nat) (r : Reference),
      r ∈ ((ps.zipIdx k).flatMap fun x => x.1.references w.binds x.2) →
        ∃ index, k ≤ index ∧ r.slot.index? = some index := by
    intro ps k r hr
    obtain ⟨⟨p, index⟩, hp, hr⟩ := mem_flatMap.1 hr
    exact ⟨index, le_snd_of_mem_zipIdx hp, Property.index?_of_mem_references hr⟩
  have hprops : ∀ (ps : List Property) (k : Nat),
      ((ps.zipIdx k).flatMap fun x => x.1.references w.binds x.2).Pairwise
        fun r s => r.slot ≠ s.slot := by
    intro ps
    induction ps with
    | nil =>
      intro k
      simp
    | cons p ps ih =>
      intro k
      simp only [zipIdx_cons, flatMap_cons]
      refine pairwise_append.2 ⟨Property.references_pairwise _ _ _, ih (k + 1), ?_⟩
      -- Slots of different properties differ in their index.
      intro r hr s hs hslot
      obtain ⟨index, hle, hindex⟩ := hmem ps (k + 1) s hs
      rw [← hslot, Property.index?_of_mem_references hr] at hindex
      have := Option.some.inj hindex
      omega
  unfold references
  refine pairwise_append.2 ⟨?_, hprops _ _, ?_⟩
  · split <;> simp
  · intro r hr s hs hslot
    obtain ⟨index, -, hindex⟩ := hmem _ _ s hs
    split at hr
    · cases hr
    · rw [mem_singleton.1 hr] at hslot
      rw [← hslot] at hindex
      cases hindex

/-! ## Writers of properties -/

/-- A property that is set adds what it holds, and drops what the property in its place held. -/
theorem held_putProperty (p : Property) (ps : List Property) :
    Perm (heldBy (putProperty p ps) ++ ((findProperty? p.name ps).map fun q => q.value.held).getD [])
      (heldBy ps ++ p.value.held) := by
  induction ps with
  | nil => simp [putProperty, findProperty?]
  | cons q ps ih =>
    by_cases hname : q.name = p.name
    · -- The property `q` is replaced, and with it all it held.
      have hfound : findProperty? p.name (q :: ps) = some q := by simp [findProperty?, hname]
      simp only [putProperty, hname, if_true, heldBy_cons, hfound, Option.map_some, Option.getD_some]
      refine perm_append_comm.trans ?_
      rw [append_assoc]
      exact perm_append_comm.append_left _
    · have hfound : findProperty? p.name (q :: ps) = findProperty? p.name ps := by
        simp [findProperty?, hname]
      simp only [putProperty, hname, if_false, heldBy_cons, hfound, append_assoc]
      exact ih.append_left _

/-- What the dropped property held and what stays are together what was held. -/
theorem held_dropProperty (name : Text) (ps : List Property) : Perm (heldBy (dropProperty name ps)
      ++ ((findProperty? name ps).map fun p => p.value.held).getD []) (heldBy ps) := by
  induction ps with
  | nil => simp [dropProperty, findProperty?]
  | cons q ps ih =>
    by_cases hname : q.name = name
    · simpa [dropProperty, findProperty?, hname] using perm_append_comm
    · simp only [findProperty?] at ih
      simp only [dropProperty, findProperty?, hname, if_false, heldBy_cons, append_assoc, find?_cons, decide_false]
      exact ih.append_left _

theorem mem_putProperty (h : q ∈ putProperty p ps) : q = p ∨ q ∈ ps := by
  induction ps with
  | nil => exact .inl (mem_singleton.1 h)
  | cons r ps ih =>
    by_cases hname : r.name = p.name
    · simp only [putProperty, hname, if_true, mem_cons] at h
      exact h.imp_right (mem_cons_of_mem r)
    · simp only [putProperty, hname, if_false, mem_cons] at h
      rcases h with rfl | h
      · exact .inr mem_cons_self
      · exact (ih h).imp_right (mem_cons_of_mem r)

/-- A property in whose place another one is put holds nothing: then nothing is dropped. -/
theorem held_subset_putProperty
    (h : ∀ q ∈ ps, q.name = p.name → q.value.held = []) : heldBy ps ⊆ heldBy (putProperty p ps) := by
  induction ps with
  | nil => exact nil_subset _
  | cons q ps ih =>
    by_cases hname : q.name = p.name
    · have hnothing := h q mem_cons_self hname
      simp only [putProperty, hname, if_true, heldBy_cons, hnothing, nil_append]
      exact subset_append_right _ _
    · have hrest := ih fun r hr => h r (mem_cons_of_mem q hr)
      simp only [putProperty, hname, if_false, heldBy_cons]
      exact append_subset.2 ⟨subset_append_left _ _, List.Subset.trans hrest (subset_append_right _ _)⟩

theorem Widget.held_set (w : Widget) (p : Property) :
    Perm ((w.set p).held ++ ((w.property? p.name).map fun q => q.value.held).getD []) (w.held ++ p.value.held) := by
  simp only [held, set, property?, append_assoc]
  exact (held_putProperty p w.properties).append_left _

theorem Widget.held_remove (w : Widget) (name : Text) :
    Perm ((w.remove name).held ++ ((w.property? name).map fun p => p.value.held).getD []) w.held := by
  simp only [held, remove, property?, append_assoc]
  exact (held_dropProperty name w.properties).append_left _

theorem findProperty?_dropProperty (h : other ≠ name) (ps : List Property) :
    findProperty? other (dropProperty name ps) = findProperty? other ps := by
  induction ps with
  | nil => rfl
  | cons q ps ih =>
    by_cases hname : q.name = name
    · simp [dropProperty, findProperty?, hname, h.symm]
    · simp only [findProperty?] at ih
      simp only [dropProperty, hname, if_false, findProperty?, find?_cons, ih]

theorem dropProperty_putProperty_self (p : Property) (ps : List Property) :
    dropProperty p.name (putProperty p ps) = dropProperty p.name ps := by
  induction ps with
  | nil => simp [putProperty, dropProperty]
  | cons q ps ih =>
    by_cases hname : q.name = p.name
    · simp [putProperty, dropProperty, hname]
    · simp [putProperty, dropProperty, hname, ih]

theorem dropProperty_putProperty_of_ne (h : p.name ≠ name) (ps : List Property) :
    dropProperty name (putProperty p ps) = putProperty p (dropProperty name ps) := by
  induction ps with
  | nil => simp [putProperty, dropProperty, h]
  | cons q ps ih =>
    by_cases hput : q.name = p.name
    · simp [putProperty, dropProperty, hput, h]
    · by_cases hdrop : q.name = name
      · simp [putProperty, dropProperty, hdrop, Ne.symm h]
      · simp [putProperty, dropProperty, hput, hdrop, ih]

/-! ## Names of properties -/

def namesOf (ps : List Property) : List Text :=
  ps.map Property.name

theorem namesOf_putProperty (p : Property) (ps : List Property) : namesOf (putProperty p ps)
      = if p.name ∈ namesOf ps then namesOf ps else namesOf ps ++ [p.name] := by
  induction ps with
  | nil => simp [putProperty, namesOf]
  | cons q ps ih =>
    by_cases hname : q.name = p.name
    · simp [putProperty, namesOf, hname]
    · have hne : ¬ p.name = q.name := fun h => hname h.symm
      have hcons : namesOf (q :: putProperty p ps) = q.name :: namesOf (putProperty p ps) := rfl
      have hmem : p.name ∈ namesOf (q :: ps) ↔ p.name ∈ namesOf ps := by
        simp [namesOf, hne]
      simp only [putProperty, hname, if_false, hcons, ih, hmem]
      split <;> rfl

theorem nodup_namesOf_putProperty (h : (namesOf ps).Nodup) : (namesOf (putProperty p ps)).Nodup := by
  rw [namesOf_putProperty]
  split
  · exact h
  · rename_i hnew
    refine nodup_append.2 ⟨h, by simp, ?_⟩
    intro a ha b hb hab
    rw [mem_singleton.1 hb] at hab
    exact hnew (hab ▸ ha)

theorem dropProperty_sublist (name : Text) (ps : List Property) : (dropProperty name ps).Sublist ps := by
  induction ps with
  | nil => exact .slnil
  | cons q ps ih =>
    by_cases hname : q.name = name
    · simp [dropProperty, hname]
    · simpa [dropProperty, hname] using ih.cons_cons q

theorem nodup_namesOf_dropProperty (h : (namesOf ps).Nodup) : (namesOf (dropProperty name ps)).Nodup :=
  h.sublist ((dropProperty_sublist name ps).map Property.name)

end FlutterLayout
