import Mathlib.Data.List.Nodup
import FlutterLayout.Directive.Standard
import FlutterLayout.Proofs.Widget.Slots

/-!
# Shape — when the widgets below a root form a tree

A `Tree` is an arena in which anything may refer to anything.  This file says in terms of references alone
what it means that the widgets reachable from a root form a tree.
-/

namespace FlutterLayout.Tree

open List
open Relation (ReflTransGen TransGen)

variable {α : Type} {t : Tree α} {root u v x y : WidgetId} {w : Widget}

/-! ## References as a relation -/

def Holds (t : Tree α) (u v : WidgetId) : Prop :=
  v ∈ t.children u

def Reaches (t : Tree α) (root x : WidgetId) : Prop :=
  ReflTransGen t.Holds root x

theorem holds_iff : t.Holds u v ↔ ∃ w, t.get? u = some w ∧ v ∈ w.held := by
  unfold Holds
  cases hw : t.get? u with
  | none => simp [children, hw]
  | some w => simp [children_of_get? hw]

theorem holds_of_reference (hw : t.get? u = some w) (hr : r ∈ w.references) : t.Holds u r.id := by
  refine holds_iff.2 ⟨w, hw, ?_⟩
  rw [← Widget.references_map_id]
  exact mem_map_of_mem hr

theorem exists_reference_of_holds (h : t.Holds u v) : ∃ w, t.get? u = some w ∧ ∃ r ∈ w.references, r.id = v := by
  obtain ⟨w, hw, hv⟩ := holds_iff.1 h
  rw [← Widget.references_map_id] at hv
  obtain ⟨r, hr, hid⟩ := mem_map.1 hv
  exact ⟨w, hw, r, hr, hid⟩

/-! ## Trees -/

structure IsTree (t : Tree α) (root : WidgetId) : Prop where
  held_once : ∀ {u v : WidgetId} {wu wv : Widget} {r s : Reference},
    t.Reaches root u → t.Reaches root v → t.get? u = some wu → t.get? v = some wv →
      r ∈ wu.references → s ∈ wv.references → r.id = s.id → (∃ w, t.get? r.id = some w) →
        u = v ∧ r.slot = s.slot
  root_free : ∀ {u : WidgetId}, t.Reaches root u → ¬ t.Holds u root
  acyclic : ∀ {u : WidgetId}, t.Reaches root u → ¬ TransGen t.Holds u u

/-- The widgets reachable from `root` form a tree in which every reference leads to a widget and no name of
an argument is given twice, except for the branches of a conditional. -/
structure IsProper (t : Tree α) (root : WidgetId) : Prop extends t.IsTree root where
  allocated : ∀ {u v : WidgetId}, t.Reaches root u → t.Holds u v → ∃ w, t.get? v = some w
  names_nodup : ∀ {u : WidgetId} {w : Widget}, t.Reaches root u → t.get? u = some w →
    w.generator ≠ Directive.conditionalName → (namesOf w.properties).Nodup

/-- Where nothing holds the root and everything has one holder, nothing is below itself. -/
theorem not_transGen_self (hroot : ∀ {u : WidgetId}, t.Reaches root u → ¬ t.Holds u root)
    (hunique : ∀ {u v x : WidgetId}, t.Reaches root u → t.Reaches root v → t.Holds u x → t.Holds v x →
      (∃ w, t.get? x = some w) → u = v) (hu : t.Reaches root u) : ¬ TransGen t.Holds u u := by
  -- A cycle through `u` goes through the holder of `u` too, and so up to the root.
  induction hu with
  | refl =>
    intro hcycle
    obtain ⟨p, hp, hlast⟩ := TransGen.tail'_iff.1 hcycle
    exact hroot hp hlast
  | tail hp hpu ih =>
    rename_i p u
    intro hcycle
    obtain ⟨q, huq, hqu⟩ := TransGen.tail'_iff.1 hcycle
    have hq : t.Reaches root q := (hp.tail hpu).trans huq
    obtain ⟨c, hc, -⟩ := TransGen.head'_iff.1 hcycle
    obtain ⟨w, hw, -⟩ := holds_iff.1 hc
    have hqp : q = p := hunique hq hp hqu hpu ⟨w, hw⟩
    subst hqp
    exact ih (.head' hqu huq)

/-! ## A check -/

def HoldsOnce (t : Tree α) (root : WidgetId) : Prop :=
  (t.widgets.flatMap Widget.held).Nodup ∧ root ∉ t.widgets.flatMap Widget.held

instance (t : Tree α) (root : WidgetId) : Decidable (t.HoldsOnce root) :=
  inferInstanceAs (Decidable (_ ∧ _))

theorem index?_inj (hu : index? u = some i) (hv : index? v = some i) : u = v := by
  unfold index? at hu hv
  split at hu
  · cases hu
  · split at hv
    · cases hv
    · have hi := Option.some.inj hu
      have hj := Option.some.inj hv
      lia

theorem HoldsOnce.isTree (h : t.HoldsOnce root) : t.IsTree root := by
  have hmem : ∀ {u : WidgetId} {w : Widget}, t.get? u = some w → ∃ i, index? u = some i ∧ t.widgets[i]? = some w := by
    intro u w hw
    unfold get? at hw
    split at hw
    · rename_i i hi
      exact ⟨i, hi, hw⟩
    · cases hw
  have hroot : ∀ {u : WidgetId}, t.Reaches root u → ¬ t.Holds u root := by
    intro u _ hheld
    obtain ⟨w, hw, hmemroot⟩ := holds_iff.1 hheld
    obtain ⟨i, -, hi⟩ := hmem hw
    exact h.2 (mem_flatMap.2 ⟨w, mem_of_getElem? hi, hmemroot⟩)
  have honce : ∀ {u v : WidgetId} {wu wv : Widget} {r s : Reference}, t.get? u = some wu → t.get? v = some wv →
      r ∈ wu.references → s ∈ wv.references → r.id = s.id → u = v ∧ r.slot = s.slot := by
    intro u v wu wv r s hwu hwv hr hs hid
    obtain ⟨i, hui, hi⟩ := hmem hwu
    obtain ⟨j, hvj, hj⟩ := hmem hwv
    have hrheld : r.id ∈ wu.held := Widget.references_map_id wu ▸ mem_map_of_mem hr
    have hsheld : s.id ∈ wv.held := Widget.references_map_id wv ▸ mem_map_of_mem hs
    obtain ⟨hnodup, hdisj⟩ := nodup_flatMap.1 h.1
    have hij : i = j := by
      by_contra hne
      have hapart := pairwise_iff_getElem.1 hdisj
      obtain ⟨hilt, rfl⟩ := List.getElem?_eq_some_iff.1 hi
      obtain ⟨hjlt, rfl⟩ := List.getElem?_eq_some_iff.1 hj
      rcases Nat.lt_or_gt_of_ne hne with hlt | hlt
      · exact hapart i j hilt hjlt hlt hrheld (hid ▸ hsheld)
      · exact hapart j i hjlt hilt hlt (hid ▸ hsheld) hrheld
    subst hij
    rw [hi] at hj
    cases hj
    have hwidget := hnodup wu (mem_of_getElem? hi)
    rw [← Widget.references_map_id] at hwidget
    exact ⟨index?_inj hui hvj, congrArg Reference.slot (inj_on_of_nodup_map hwidget hr hs hid)⟩
  refine ⟨fun _ _ hwu hwv hr hs hid _ => honce hwu hwv hr hs hid, hroot, fun hu => not_transGen_self hroot ?_ hu⟩
  intro u v x _ _ hux hvx _
  obtain ⟨wu, hwu, r, hr, rfl⟩ := exists_reference_of_holds hux
  obtain ⟨wv, hwv, s, hs, hid⟩ := exists_reference_of_holds hvx
  exact (honce hwu hwv hr hs hid.symm).1

end FlutterLayout.Tree
