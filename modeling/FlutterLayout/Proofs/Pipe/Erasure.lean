import FlutterLayout.Proofs.Pipe.Merge

/-!
# Erasure — a tree without its reactive builders

`base` follows what builders wrap down to a widget that is none, and `erase` has the base of every id in its
place.  A builder that is taken out leaves no trace in the erased tree (`base_merge`, `get?_erase_merge`).
-/

namespace FlutterLayout

open List Widget
open Relation (TransGen)

theorem Tree.length_le_size {α : Type} {t : Tree α} {ids : List WidgetId} (hnodup : ids.Nodup)
    (hfound : ∀ x ∈ ids, ∃ w, t.get? x = some w) : ids.length ≤ t.size := by
  have hbound : ∀ x ∈ ids, 0 < x ∧ x ≤ t.size := by
    intro x hx
    obtain ⟨w, hw⟩ := hfound x hx
    exact ⟨Tree.pos_of_get? hw, Tree.le_size_of_get? hw⟩
  have hinj : (ids.map Int.toNat).Nodup := by
    refine hnodup.map_on ?_
    intro x hx y hy heq
    have hposx := (hbound x hx).1
    have hposy := (hbound y hy).1
    lia
  have hsub : ids.map Int.toNat ⊆ range' 1 t.size := by
    intro n hn
    obtain ⟨x, hx, rfl⟩ := mem_map.1 hn
    have hx' := hbound x hx
    refine mem_range'_1.2 ⟨?_, ?_⟩
    · lia
    · lia
  simpa using (subperm_of_subset hinj hsub).length_le

namespace Pipe

variable {α : Type} {t : Tree α} {root x y z p o c : WidgetId} {w : Widget} {r : Reference} {s : Subscription}

/-! ## The base of an id -/

def IsBuilder (t : Tree α) (x : WidgetId) : Prop :=
  ∃ w s, t.get? x = some w ∧ w.subscription? = some s

/-- What `id` stands for without builders, at most `fuel` of which are passed. -/
def baseWithin (t : Tree α) : (fuel : Nat) → WidgetId → WidgetId
  | 0, id => id
  | fuel + 1, id =>
    match t.get? id with
    | some w => if w.subscription?.isSome then baseWithin t fuel w.wrapped else id
    | none => id

def base (t : Tree α) (id : WidgetId) : WidgetId :=
  baseWithin t t.size id

def erase (t : Tree α) : Tree α :=
  { t with widgets := t.widgets.map (mapIds (base t)) }

theorem get?_erase : (erase t).get? x = (t.get? x).map (mapIds (base t)) := by
  unfold Tree.get? erase
  cases Tree.index? x with
  | none => rfl
  | some i => simp

inductive Erases (t : Tree α) : WidgetId → WidgetId → Prop
  | builder {x y : WidgetId} {w : Widget} {s : Subscription} (hw : t.get? x = some w)
      (hs : w.subscription? = some s) (hbelow : Erases t w.wrapped y) : Erases t x y
  | other {x : WidgetId} (hx : ¬ IsBuilder t x) : Erases t x x

namespace Erases

theorem functional (h : Erases t x y) (h' : Erases t x z) : y = z := by
  induction h with
  | builder hw hs _ ih =>
    cases h' with
    | builder hw' _ hbelow =>
      rw [hw] at hw'
      cases hw'
      exact ih hbelow
    | other hx => exact absurd ⟨_, _, hw, hs⟩ hx
  | other hx =>
    cases h' with
    | builder hw hs _ => exact absurd ⟨_, _, hw, hs⟩ hx
    | other _ => rfl

theorem not_isBuilder (h : Erases t x y) : ¬ IsBuilder t y := by
  induction h with
  | builder _ _ _ ih => exact ih
  | other hx => exact hx

theorem none_iff : Erases t .none y ↔ y = .none := by
  constructor
  · intro h
    cases h with
    | builder hw _ _ => cases hw
    | other _ => rfl
  · rintro rfl
    refine .other ?_
    rintro ⟨w, s, hw, -⟩
    cases hw

theorem reaches (h : Erases t x y) (hy : y ≠ .none) : t.Reaches x y := by
  induction h with
  | builder hw hs hbelow ih =>
    rename_i w s
    have hne : w.wrapped ≠ .none := by
      intro hnone
      rw [hnone, none_iff] at hbelow
      exact hy hbelow
    exact .head (Tree.holds_iff.2 ⟨w, hw, by simp [held, hne]⟩) (ih hy)
  | other _ => exact .refl

end Erases

theorem baseWithin_succ_of_builder (hw : t.get? x = some w) (hs : w.subscription? = some s) :
    baseWithin t (fuel + 1) x = baseWithin t fuel w.wrapped := by
  simp [baseWithin, hw, hs]

theorem baseWithin_of_not_isBuilder (hx : ¬ IsBuilder t x) : baseWithin t fuel x = x := by
  cases fuel with
  | zero => rfl
  | succ fuel =>
    unfold baseWithin
    split
    · rename_i w hw
      cases hs : w.subscription? with
      | none => simp
      | some s => exact absurd ⟨w, s, hw, hs⟩ hx
    · rfl

theorem erases_baseWithin (fuel : Nat) (h : ¬ IsBuilder t (baseWithin t fuel x)) :
    Erases t x (baseWithin t fuel x) := by
  induction fuel generalizing x with
  | zero => exact .other h
  | succ fuel ih =>
    by_cases hx : IsBuilder t x
    · obtain ⟨w, s, hw, hs⟩ := hx
      rw [baseWithin_succ_of_builder hw hs] at h ⊢
      exact .builder hw hs (ih h)
    · rw [baseWithin_of_not_isBuilder hx]
      exact .other hx

theorem exists_path_of_isBuilder (fuel : Nat) (h : IsBuilder t (baseWithin t fuel x)) :
    ∃ ids : List WidgetId, ids.length = fuel + 1 ∧ ids.Pairwise (TransGen t.Holds) ∧
      ∀ y ∈ ids, t.Reaches x y ∧ ∃ w, t.get? y = some w := by
  induction fuel generalizing x with
  | zero =>
    obtain ⟨w, s, hw, -⟩ := h
    refine ⟨[x], rfl, pairwise_singleton _ _, ?_⟩
    exact forall_mem_singleton.2 ⟨.refl, w, hw⟩
  | succ fuel ih =>
    by_cases hx : IsBuilder t x
    · obtain ⟨w, s, hw, hs⟩ := hx
      rw [baseWithin_succ_of_builder hw hs] at h
      obtain ⟨ids, hlength, hpairwise, hids⟩ := ih h
      -- The way goes on, so the builder wraps something.
      have hne : w.wrapped ≠ .none := by
        intro hnone
        rw [hnone, baseWithin_of_not_isBuilder (Erases.none_iff.2 rfl).not_isBuilder] at h
        exact (Erases.none_iff.2 rfl).not_isBuilder h
      have hdown : t.Holds x w.wrapped := Tree.holds_iff.2 ⟨w, hw, by simp [held, hne]⟩
      refine ⟨x :: ids, by simp [hlength], pairwise_cons.2 ⟨?_, hpairwise⟩, ?_⟩
      · exact fun y hy => .head' hdown (hids y hy).1
      · intro y hy
        rcases mem_cons.1 hy with rfl | hy
        · exact ⟨.refl, w, hw⟩
        · exact ⟨.head hdown (hids y hy).1, (hids y hy).2⟩
    · rw [baseWithin_of_not_isBuilder hx] at h
      exact absurd h hx

theorem erases_base (h : t.IsTree root) (hx : t.Reaches root x) : Erases t x (base t x) := by
  refine erases_baseWithin t.size ?_
  intro hbuilder
  obtain ⟨ids, hlength, hpairwise, hids⟩ := exists_path_of_isBuilder t.size hbuilder
  have hnodup : ids.Nodup := by
    refine hpairwise.imp_of_mem ?_
    rintro y z hy - hyz rfl
    exact h.acyclic (hx.trans (hids y hy).1) hyz
  have hle := Tree.length_le_size hnodup fun y hy => (hids y hy).2
  omega

theorem base_eq_of_erases (h : t.IsTree root) (hx : t.Reaches root x) (hy : Erases t x y) : base t x = y :=
  (erases_base h hx).functional hy

theorem base_none : base t .none = .none :=
  baseWithin_of_not_isBuilder (Erases.none_iff.2 rfl).not_isBuilder

/-! ## What the erased tree reaches -/

theorem exists_held_of_mapIds (hf : f .none = .none)
    (hd : d ∈ (w.mapIds f).held) : ∃ e ∈ w.held, f e = d := by
  have hone : ∀ id : WidgetId, d ∈ (if f id = .none then [] else [f id]) →
      ∃ e ∈ (if id = .none then [] else [id]), f e = d := by
    intro id hd
    by_cases hid : id = .none
    · simp [hid, hf] at hd
    · by_cases hfid : f id = .none
      · simp [hfid] at hd
      · rw [if_neg hfid, mem_singleton] at hd
        exact ⟨id, by simp [hid], hd.symm⟩
  rcases mem_append.1 hd with hd | hd
  · obtain ⟨e, he, hed⟩ := hone w.wrapped hd
    exact ⟨e, mem_append_left _ he, hed⟩
  · obtain ⟨q, hq, hd⟩ := mem_flatMap.1 hd
    obtain ⟨p, hp, rfl⟩ := mem_map.1 hq
    have hvalue : ∃ e ∈ p.value.held, f e = d := by
      obtain ⟨name, value⟩ := p
      cases value with
      | text | unknown => cases hd
      | widget id | fragment id => exact hone id hd
      | widgets ids => exact mem_map.1 hd
      | function g =>
        cases g with
        | none => cases hd
        | some g => exact mem_map.1 hd
    obtain ⟨e, he, hed⟩ := hvalue
    exact ⟨e, mem_append_right _ (mem_flatMap.2 ⟨p, hp, he⟩), hed⟩

/-- Below the root of the erased tree are widgets that are below the root and no builders. -/
theorem reaches_of_erase (h : t.IsTree root) (hx : (erase t).Reaches (base t root) x) :
    x = .none ∨ (t.Reaches root x ∧ ¬ IsBuilder t x) := by
  have hbase : ∀ {y : WidgetId}, t.Reaches root y →
      base t y = .none ∨ (t.Reaches root (base t y) ∧ ¬ IsBuilder t (base t y)) := by
    intro y hy
    have herases := erases_base h hy
    by_cases hnone : base t y = .none
    · exact .inl hnone
    · exact .inr ⟨hy.trans (herases.reaches hnone), herases.not_isBuilder⟩
  induction hx with
  | refl => exact hbase .refl
  | tail _ hux ih =>
    rename_i u x
    obtain ⟨w', hw', hx'⟩ := Tree.holds_iff.1 hux
    rw [get?_erase] at hw'
    obtain ⟨w, hw, rfl⟩ := Option.map_eq_some_iff.1 hw'
    rcases ih with rfl | ⟨hu, -⟩
    · cases hw
    · obtain ⟨e, he, rfl⟩ := exists_held_of_mapIds base_none hx'
      exact hbase (hu.tail (Tree.holds_iff.2 ⟨w, hw, he⟩))

/-! ## Erasure and merging -/

section

variable (hr : Redundant root t p r o s c)
include hr

theorem isBuilder_merge_iff (h : Shareable t root) (hx : t.Reaches root x) :
    IsBuilder (merge t p r o s c) x ↔ IsBuilder t x := by
  constructor
  · rintro ⟨w', s', hw', hs'⟩
    obtain ⟨w, hw⟩ := exists_get?_merge.1 ⟨w', hw'⟩
    rw [get?_merge hr.toWraps h.toIsTree hx hw] at hw'
    cases hw'
    obtain ⟨s0, hs0, -⟩ := subscription?_relabel_iff.1 hs'
    exact ⟨w, s0, hw, hs0⟩
  · rintro ⟨w, s0, hw, hs0⟩
    exact ⟨_, _, get?_merge hr.toWraps h.toIsTree hx hw, subscription?_relabel_iff.2 ⟨s0, hs0, rfl⟩⟩

theorem Redundant.ne_of_not_isBuilder (hnot : ¬ IsBuilder t x) : x ≠ r.id := by
  rintro rfl
  obtain ⟨wb, hwb, hs, -⟩ := hr.builder
  exact hnot ⟨wb, s, hwb, hs⟩

variable (h : Shareable t root) (hx : t.Reaches root x)
include h hx

theorem erases_merge (hy : Erases t x y) : Erases (merge t p r o s c) (redirect r.id c x) y := by
  induction hy with
  | builder hw hs hbelow ih =>
    rename_i x y w s0
    have hdown : Erases (merge t p r o s c) (redirect r.id c w.wrapped) y := by
      by_cases hnone : w.wrapped = .none
      · rw [hnone, redirect_of_ne hr.toWraps.ne_none.symm]
        rw [hnone] at hbelow
        exact Erases.none_iff.2 (Erases.none_iff.1 hbelow)
      · exact ih (hx.tail (Tree.holds_iff.2 ⟨w, hw, by simp [held, hnone]⟩))
    by_cases hxb : x = r.id
    · -- The builder that is taken out stands for what it wraps.
      obtain ⟨wb, hwb, -, rfl⟩ := hr.builder
      rw [hxb, hwb] at hw
      cases hw
      rw [redirect_of_ne (hr.toWraps.child_ne h.toIsTree)] at hdown
      rw [hxb, redirect_self]
      exact hdown
    · rw [redirect_of_ne hxb]
      exact .builder (get?_merge hr.toWraps h.toIsTree hx hw) (subscription?_relabel_iff.2 ⟨s0, hs, rfl⟩) hdown
  | other hnot =>
    rename_i x
    rw [redirect_of_ne (hr.ne_of_not_isBuilder hnot)]
    exact .other fun hbuilder => hnot ((isBuilder_merge_iff hr h hx).1 hbuilder)

theorem base_merge : base (merge t p r o s c) (redirect r.id c x) = base t x := by
  refine base_eq_of_erases (hr.toWraps.isTree h.toIsTree) ((reaches_merge hr h).2 ?_)
    (erases_merge hr h hx (erases_base h.toIsTree hx))
  by_cases hxb : x = r.id
  · rw [hxb, redirect_self]
    exact ⟨hr.toWraps.reaches_builder.tail ((hr.holds_iff h).2 rfl), hr.toWraps.child_ne h.toIsTree⟩
  · rw [redirect_of_ne hxb]
    exact ⟨hx, hxb⟩

theorem get?_erase_merge (hnot : ¬ IsBuilder t x) : (erase (merge t p r o s c)).get? x = (erase t).get? x := by
  rw [get?_erase, get?_erase]
  cases hw : t.get? x with
  | none =>
    have hnone : (merge t p r o s c).get? x = none := by
      rw [Option.eq_none_iff_forall_ne_some]
      intro w' hw'
      obtain ⟨w, hsome⟩ := exists_get?_merge.1 ⟨w', hw'⟩
      rw [hw] at hsome
      cases hsome
    rw [hnone]
    rfl
  | some w =>
    have ho : x ≠ o := by
      rintro rfl
      obtain ⟨w', s', hw', hs', -⟩ := hr.carries
      exact hnot ⟨w', s', hw', hs'⟩
    rw [get?_merge hr.toWraps h.toIsTree hx hw]
    simp only [ne_eq, ho, not_false_eq_true, decide_true, Bool.true_or, weaken_true, Option.map_some,
      mapIds_mapIds]
    congr 1
    refine mapIds_congr ?_ ?_
    · exact fun q hq => base_merge hr h (hx.tail (Tree.holds_of_reference hw hq))
    · rw [Function.comp_apply, redirect_of_ne hr.toWraps.ne_none.symm, base_none, base_none]

end

end Pipe
end FlutterLayout
