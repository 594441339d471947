import Mathlib.Data.Finset.Card
import FlutterLayout.Widget.Traversal
import FlutterLayout.Proofs.Widget.Shape

/-!
# Journal — actions that wait are performed once and bottom-up

A `Journal` keeps, beside a tree, every action that was ever queued for it and every one that was performed.
It balances after every history (`history_balances`), and the order of a run is fixed before its first
action (`run_performs_inTurn`).
-/

namespace FlutterLayout.Tree

open List

variable {α : Type}

section Walks

/-! ## The depth-first walk over an arena

`Visits` is the walk without a bound on its depth.  `visits_foldl_visit` says that it comes to an end on every arena
and that `visit` follows it, and `Visits.adds` what it adds to the widgets that were left before. -/

variable {t : Tree α} {walk walk' : Walk} {ids : List WidgetId} {root : WidgetId}

/-- The ids are visited in turn, and a widget is left when its references have been visited. -/
inductive Visits (t : Tree α) : Walk → List WidgetId → Walk → Prop where
  | nil {walk : Walk} : Visits t walk [] walk
  | skip {walk walk' : Walk} {id : WidgetId} {ids : List WidgetId} (hskip : id ∈ walk.seen ∨ t.get? id = none)
      (h : Visits t walk ids walk') : Visits t walk (id :: ids) walk'
  | enter {walk inner walk' : Walk} {id : WidgetId} {ids : List WidgetId} {w : Widget} (hnew : id ∉ walk.seen)
      (hw : t.get? id = some w) (hinner : Visits t { walk with seen := id :: walk.seen } (t.children id) inner)
      (h : Visits t { inner with order := inner.order ++ [id] } ids walk') : Visits t walk (id :: ids) walk'

/-- What a visit of `ids` adds to a walk: the widgets that can be reached from them and were not seen before. -/
structure Adds (t : Tree α) (walk : Walk) (ids new : List WidgetId) (walk' : Walk) : Prop where
  order : walk'.order = walk.order ++ new
  seen : ∀ {x : WidgetId}, x ∈ walk'.seen ↔ x ∈ walk.seen ∨ x ∈ new
  fresh : ∀ {x : WidgetId}, x ∈ new → x ∉ walk.seen
  nodup : new.Nodup
  reached : ∀ {x : WidgetId}, x ∈ new → (∃ w, t.get? x = some w) ∧ ∃ id ∈ ids, t.Reaches id x
  entered : ∀ {v : WidgetId}, v ∈ ids → (∃ w, t.get? v = some w) → v ∈ walk'.seen
  closed : ∀ {u v : WidgetId}, u ∈ new → t.Holds u v → (∃ w, t.get? v = some w) →
    v ∈ walk.seen ∨ v ∈ new ∧ t.Reaches v u ∨ [v, u] <+ new

theorem Visits.adds (h : t.Visits walk ids walk') : ∃ new, t.Adds walk ids new walk' := by
  induction h with
  | nil => exact ⟨[], by simp, by simp, by simp, nodup_nil, by simp, by simp, by simp⟩
  | @skip walk walk' id ids hskip _ ih =>
    obtain ⟨new, hadds⟩ := ih
    refine ⟨new, { hadds with reached := fun hx => ?_, entered := fun hv hw => ?_ }⟩
    · obtain ⟨hw, id', hid', hreach⟩ := hadds.reached hx
      exact ⟨hw, id', mem_cons_of_mem _ hid', hreach⟩
    · rcases mem_cons.1 hv with rfl | hv
      · rcases hskip with hseen | hnone
        · exact hadds.seen.2 (.inl hseen)
        · simp [hnone] at hw
      · exact hadds.entered hv hw
  | @enter walk inner walk' id ids w hnew hw _ _ ihinner ih =>
    obtain ⟨below, hbelow⟩ := ihinner
    obtain ⟨rest, hrest⟩ := ih
    have hinside : ∀ {x : WidgetId}, x ∈ inner.seen ↔ x = id ∨ x ∈ walk.seen ∨ x ∈ below := by
      intro x
      rw [hbelow.seen, mem_cons, or_assoc]
    have hdown : ∀ {x : WidgetId}, x ∈ below → t.Reaches id x := by
      intro x hx
      obtain ⟨-, c, hc, hreach⟩ := hbelow.reached hx
      exact .head hc hreach
    have hseen : ∀ {x : WidgetId}, x ∈ walk'.seen ↔ x ∈ walk.seen ∨ x ∈ below ++ id :: rest := by
      intro x
      rw [hrest.seen, hinside, mem_append, mem_cons]
      tauto
    refine ⟨below ++ id :: rest, by simp [hrest.order, hbelow.order], hseen, ?_, ?_, ?_, ?_, ?_⟩
    · intro x hx hwalk
      rw [mem_append, mem_cons] at hx
      rcases hx with hx | rfl | hx
      · exact hbelow.fresh hx (mem_cons_of_mem _ hwalk)
      · exact hnew hwalk
      · exact hrest.fresh hx (hinside.2 (.inr (.inl hwalk)))
    · refine nodup_append.2 ⟨hbelow.nodup,
      nodup_cons.2 ⟨fun hid => hrest.fresh hid (hinside.2 (.inl rfl)), hrest.nodup⟩, ?_⟩
      rintro x hx y hy rfl
      rcases mem_cons.1 hy with rfl | hy
      · exact hbelow.fresh hx mem_cons_self
      · exact hrest.fresh hy (hinside.2 (.inr (.inr hx)))
    · intro x hx
      rw [mem_append, mem_cons] at hx
      rcases hx with hx | rfl | hx
      · exact ⟨(hbelow.reached hx).1, id, mem_cons_self, hdown hx⟩
      · exact ⟨⟨w, hw⟩, x, mem_cons_self, .refl⟩
      · obtain ⟨hw, id', hid', hreach⟩ := hrest.reached hx
        exact ⟨hw, id', mem_cons_of_mem _ hid', hreach⟩
    · intro v hv hget
      rcases mem_cons.1 hv with rfl | hv
      · exact hseen.2 (.inr (by simp))
      · exact hrest.entered hv hget
    · intro u v hu huv hget
      rw [mem_append, mem_cons] at hu
      rcases hu with hu | rfl | hu
      · -- A reference from below to `id` leads back to a widget that is still open.
        rcases hbelow.closed hu huv hget with hv | hv | hv
        · rcases mem_cons.1 hv with rfl | hv
          · exact .inr (.inl ⟨by simp, hdown hu⟩)
          · exact .inl hv
        · exact .inr (.inl ⟨mem_append_left _ hv.1, hv.2⟩)
        · exact .inr (.inr (hv.trans (sublist_append_left ..)))
      · rcases hinside.1 (hbelow.entered huv hget) with rfl | hv | hv
        · exact .inr (.inl ⟨by simp, .refl⟩)
        · exact .inl hv
        · exact .inr (.inr ((singleton_sublist.2 hv).append (singleton_sublist.2 mem_cons_self)))
      · rcases hrest.closed hu huv hget with hv | hv | hv
        · rcases hinside.1 hv with rfl | hv | hv
          · exact .inr (.inr (((singleton_sublist.2 hu).cons_cons v).trans (sublist_append_right ..)))
          · exact .inl hv
          · exact .inr (.inr ((singleton_sublist.2 hv).append (singleton_sublist.2 (mem_cons_of_mem _ hu))))
        · exact .inr (.inl ⟨by simp [hv.1], hv.2⟩)
        · exact .inr (.inr ((hv.trans (sublist_cons_self ..)).trans (sublist_append_right ..)))

/-! ## The walk comes to an end -/

/-- How many widgets a walk has not entered. -/
def unseen (t : Tree α) (walk : Walk) : Nat :=
  ((Finset.range t.size).filter fun i : Nat => (i : Int) + 1 ∉ walk.seen).card

theorem unseen_le (hseen : walk.seen ⊆ walk'.seen) : t.unseen walk' ≤ t.unseen walk :=
  Finset.card_le_card (Finset.monotone_filter_right _ fun _ _ hnot hmem => hnot (hseen hmem))

theorem unseen_enter {id : WidgetId} (hnew : id ∉ walk.seen) (hw : t.get? id = some w) :
    t.unseen { walk with seen := id :: walk.seen } < t.unseen walk := by
  have hpos := pos_of_get? hw
  have hle := le_size_of_get? hw
  have hindex : ((id.toNat - 1 : Nat) : Int) + 1 = id := by lia
  refine Finset.card_lt_card (Finset.ssubset_iff_of_subset ?_ |>.2 ⟨id.toNat - 1, ?_, ?_⟩)
  · exact Finset.monotone_filter_right _ fun _ _ hnot hmem => hnot (mem_cons_of_mem _ hmem)
  · rw [Finset.mem_filter, Finset.mem_range, hindex]
    exact ⟨by lia, hnew⟩
  · simp [hindex]

theorem visits_foldl_visit (fuel : Nat) (ids : List WidgetId) (hfuel : t.unseen walk < fuel) :
    t.Visits walk ids (ids.foldl (visit t fuel) walk) := by
  induction fuel generalizing walk ids with
  | zero => cases hfuel
  | succ fuel ih =>
    induction ids generalizing walk with
    | nil => exact .nil
    | cons id ids ihids =>
      rw [foldl_cons, visit]
      split
      · exact .skip (.inl ‹_›) (ihids hfuel)
      · rename_i hnew
        split
        · exact .skip (.inr ‹_›) (ihids hfuel)
        · rename_i w hw
          have hinner := ih (w.references.map Reference.id)
            (Nat.lt_of_lt_of_le (unseen_enter hnew hw) (Nat.lt_succ_iff.1 hfuel))
          obtain ⟨new, hadds⟩ := hinner.adds
          refine .enter hnew hw (by rwa [children, hw]) (ihids (Nat.lt_of_le_of_lt (unseen_le ?_) hfuel))
          exact fun x hx => hadds.seen.2 (.inl (mem_cons_of_mem _ hx))

theorem visits_postOrder (t : Tree α) (root : WidgetId) :
    ∃ walk, t.Visits {} [root] walk ∧ walk.order = t.postOrder root ∧ t.Adds {} [root] (t.postOrder root) walk := by
  have hall : t.unseen {} < t.size + 1 :=
    Nat.lt_succ_iff.2 ((Finset.card_filter_le _ _).trans_eq (Finset.card_range _))
  have hvisits := visits_foldl_visit (t.size + 1) [root] hall
  obtain ⟨new, hadds⟩ := hvisits.adds
  obtain rfl : t.postOrder root = new := hadds.order
  exact ⟨_, hvisits, rfl, hadds⟩

theorem mem_postOrder : x ∈ t.postOrder root ↔ t.Reaches root x ∧ ∃ w, t.get? x = some w := by
  obtain ⟨walk, -, -, hadds⟩ := visits_postOrder t root
  constructor
  · intro hx
    obtain ⟨hw, id, hid, hreach⟩ := hadds.reached hx
    exact ⟨mem_singleton.1 hid ▸ hreach, hw⟩
  · rintro ⟨hreach, hw⟩
    induction hreach with
    | refl => simpa using hadds.seen.1 (hadds.entered mem_cons_self hw)
    | tail _ hheld ih =>
      obtain ⟨wu, hwu, -⟩ := holds_iff.1 hheld
      rcases hadds.closed (ih ⟨wu, hwu⟩) hheld hw with hseen | hback | hbefore
      · exact absurd hseen not_mem_nil
      · exact hback.1
      · exact hbefore.subset mem_cons_self

/-- Whatever refers to what, the walk ends and lists the widgets that can be reached, each once and the root last; a
widget comes behind those it refers to, unless they lead back to it. -/
theorem postOrder_isDepthFirst (t : Tree α) (root : WidgetId) :
    (∃ walk, t.Visits {} [root] walk ∧ walk.order = t.postOrder root) ∧
      (∀ x, x ∈ t.postOrder root ↔ t.Reaches root x ∧ ∃ w, t.get? x = some w) ∧ (t.postOrder root).Nodup ∧
      (∀ w, t.get? root = some w → (t.postOrder root).getLast? = some root) ∧
      (t.get? root = none → t.postOrder root = []) ∧
      ∀ u ∈ t.postOrder root, ∀ v ∈ t.postOrder root, t.Holds u v → ¬ t.Reaches v u → [v, u] <+ t.postOrder root := by
  obtain ⟨walk, hvisits, horder, hadds⟩ := visits_postOrder t root
  refine ⟨⟨walk, hvisits, horder⟩, fun x => mem_postOrder, hadds.nodup, ?_, ?_, ?_⟩
  · intro w hw
    cases hvisits with
    | skip hskip => simp [hw] at hskip
    | enter _ _ _ h =>
      cases h with
      | nil => simp [← horder]
  · intro hnone
    rw [← horder]
    cases hvisits with
    | skip _ h =>
      cases h with
      | nil => rfl
    | enter _ hw => simp [hnone] at hw
  · intro u hu v hv huv hnot
    rcases hadds.closed hu huv (mem_postOrder.1 hv).2 with hseen | hback | hbefore
    · exact absurd hseen not_mem_nil
    · exact absurd hback.2 hnot
    · exact hbefore

end Walks

/-! ## Actions that wait -/

/-- A tree, what was ever queued for it and, in order, what was performed. -/
structure Journal (α : Type) where
  tree : Tree α
  queued : List (WidgetId × α)
  performed : List (WidgetId × α) := []

inductive Operation (α : Type) where
  | defer (id : WidgetId) (action : α)
  | run (root : WidgetId)
  | rebuild (change : List Widget → List Widget)

def actionsOf (id : WidgetId) (entries : List (WidgetId × α)) : List α :=
  (entries.filter fun (key, _) => key = id).map Prod.snd

theorem queued_eq (t : Tree α) (id : WidgetId) : t.queued id = actionsOf id t.deferred := rfl

theorem actionsOf_append (id : WidgetId) (a b : List (WidgetId × α)) :
    actionsOf id (a ++ b) = actionsOf id a ++ actionsOf id b := by
  simp [actionsOf]

theorem queued_perm (t : Tree α) (id : WidgetId) :
    ((t.queued id).map (Prod.mk id) ++ (t.unqueue id).deferred) ~ t.deferred := by
  have hentries : (t.queued id).map (Prod.mk id) = t.deferred.filter fun (key, _) => key = id := by
    rw [queued, map_map, map_congr_left, map_id]
    intro entry hentry
    exact Prod.ext (of_decide_eq_true (mem_filter.1 hentry).2).symm rfl
  rw [hentries, unqueue]
  simpa using filter_append_perm (fun entry : WidgetId × α => entry.1 = id) t.deferred

theorem actionsOf_unqueue (t : Tree α) (id x : WidgetId) :
    actionsOf x (t.unqueue id).deferred = if x = id then [] else t.queued x := by
  rw [actionsOf, unqueue, filter_filter]
  split
  · subst x
    simp
  · rename_i hne
    refine congrArg (map Prod.snd) (filter_congr fun entry _ => ?_)
    by_cases hkey : entry.1 = x <;> simp [hkey, hne]

namespace Journal

variable (act : α → WidgetId → Tree α → Tree α)

/-- One action is performed.  What it queues stands behind what waits already. -/
def perform (id : WidgetId) (j : Journal α) (action : α) : Journal α where
  tree := act action id j.tree
  queued := j.queued ++ (act action id j.tree).deferred.drop j.tree.deferred.length
  performed := j.performed ++ [(id, action)]

def turn (j : Journal α) (id : WidgetId) : Journal α :=
  (j.tree.queued id).foldl (perform act id) { j with tree := j.tree.unqueue id }

def step (j : Journal α) : Operation α → Journal α
  | .defer id action => { j with tree := j.tree.defer id action, queued := j.queued ++ [(id, action)] }
  | .run root => (j.tree.postOrder root).foldl (turn act) j
  | .rebuild change => { j with tree := { j.tree with widgets := change j.tree.widgets } }

def history (t : Tree α) (operations : List (Operation α)) : Journal α :=
  operations.foldl (step act) ⟨t, t.deferred, []⟩

/-! ## Turns -/

/-- What has been added between two journals: `new` was queued and `done` performed. -/
structure Grows (j j' : Journal α) (new done : List (WidgetId × α)) : Prop where
  queued : j'.queued = j.queued ++ new
  performed : j'.performed = j.performed ++ done

/-- What was queued is what was performed and what waits. -/
def Balances (j : Journal α) : Prop :=
  j.queued ~ (j.performed ++ j.tree.deferred)

section

variable {act} {j : Journal α} {id : WidgetId} (hact : ∀ a id t, t.deferred <+: (act a id t).deferred)
include hact

theorem foldl_perform (actions : List α) (j : Journal α) :
    ∃ new, Grows j (actions.foldl (perform act id) j) new (actions.map (Prod.mk id)) ∧
      (actions.foldl (perform act id) j).tree = actions.foldl (fun t action => act action id t) j.tree ∧
      (actions.foldl (perform act id) j).tree.deferred = j.tree.deferred ++ new := by
  induction actions generalizing j with
  | nil => exact ⟨[], ⟨by simp, by simp⟩, rfl, by simp⟩
  | cons a actions ih =>
    obtain ⟨first, hfirst⟩ := hact a id j.tree
    obtain ⟨new, hgrows, htree, hdefer⟩ := ih (perform act id j a)
    refine ⟨first ++ new, ⟨?_, ?_⟩, htree, ?_⟩
    · rw [foldl_cons, hgrows.queued, perform, ← hfirst, drop_left, append_assoc]
    · rw [foldl_cons, hgrows.performed, perform, append_assoc, map_cons, singleton_append]
    · rw [foldl_cons, hdefer, perform, ← hfirst, append_assoc]

theorem exists_grows_turn (j : Journal α) (id : WidgetId) :
    ∃ new, Grows j (turn act j id) new ((j.tree.queued id).map (Prod.mk id)) ∧
      (turn act j id).tree.deferred = (j.tree.unqueue id).deferred ++ new ∧
      ∀ log, runQueue act (j.tree, log) id = ((turn act j id).tree, log ++ (j.tree.queued id).map (Prod.mk id)) := by
  obtain ⟨new, hgrows, htree, hdefer⟩ := foldl_perform hact (j.tree.queued id) { j with tree := j.tree.unqueue id }
  exact ⟨new, ⟨hgrows.queued, hgrows.performed⟩, hdefer, fun log => by rw [runQueue, turn, htree]⟩

/-- What a row of turns does: outside the row everything stays queued. -/
theorem exists_grows_turns (ids : List WidgetId) (j : Journal α) :
    ∃ new done, Grows j (ids.foldl (turn act) j) new done ∧
      (∀ log, ids.foldl (runQueue act) (j.tree, log) = ((ids.foldl (turn act) j).tree, log ++ done)) ∧
      (done ++ (ids.foldl (turn act) j).tree.deferred) ~ (j.tree.deferred ++ new) ∧
      ∀ x ∉ ids, (ids.foldl (turn act) j).tree.queued x = j.tree.queued x ++ actionsOf x new := by
  induction ids generalizing j with
  | nil => exact ⟨[], [], ⟨by simp, by simp⟩, by simp, by simp, by simp [actionsOf]⟩
  | cons id ids ih =>
    obtain ⟨first, hfirst, hdefer, hqueue⟩ := exists_grows_turn hact j id
    obtain ⟨new, done, hgrows, hruns, hperm, houtside⟩ := ih (turn act j id)
    refine ⟨first ++ new, (j.tree.queued id).map (Prod.mk id) ++ done, ⟨?_, ?_⟩, fun log => ?_, ?_, fun x hx => ?_⟩
    · rw [foldl_cons, hgrows.queued, hfirst.queued, append_assoc]
    · rw [foldl_cons, hgrows.performed, hfirst.performed, append_assoc]
    · rw [foldl_cons, hqueue, hruns, append_assoc, foldl_cons]
    · rw [hdefer, append_assoc] at hperm
      rw [append_assoc]
      refine (hperm.append_left _).trans ?_
      rw [← append_assoc]
      exact (queued_perm j.tree id).append_right _
    · rw [mem_cons, not_or] at hx
      have hturn : (turn act j id).tree.queued x = j.tree.queued x ++ actionsOf x first := by
        rw [queued_eq, hdefer, actionsOf_append, actionsOf_unqueue, if_neg hx.1]
      rw [foldl_cons, houtside x hx.2, hturn, actionsOf_append, append_assoc]

/-! ## Histories -/

theorem Balances.step (hj : j.Balances) (operation : Operation α) : (j.step act operation).Balances := by
  cases operation with
  | defer id action => exact (hj.append_right _).trans (by rw [append_assoc]; exact .refl _)
  | rebuild => exact hj
  | run root =>
    obtain ⟨new, done, hgrows, -, hperm, -⟩ := exists_grows_turns hact (j.tree.postOrder root) j
    rw [Balances, Journal.step, hgrows.queued, hgrows.performed, append_assoc]
    refine (hj.append_right new).trans ?_
    rw [append_assoc]
    exact hperm.symm.append_left _

theorem history_balances (t : Tree α) (operations : List (Operation α)) : (history act t operations).Balances := by
  induction operations using reverseRecOn with
  | nil => exact .refl _
  | append_singleton operations operation ih =>
    rw [history, foldl_append]
    exact ih.step hact operation

end

/-- Actions may change widgets and queue further actions.  After every history, what was queued is what was performed
and what waits.  A run then takes the widgets in the order computed before it; when the turn of one comes, what waits
for it is performed, and what is queued for it from then on stays queued, as does all that is outside the order.  The
log of a run is what was performed. -/
theorem run_performs_inTurn {act : α → WidgetId → Tree α → Tree α}
    (hact : ∀ a id t, t.deferred <+: (act a id t).deferred) (t : Tree α) (operations : List (Operation α))
    (root : WidgetId) (j j' : Journal α) (order : List WidgetId)
    (hj : history act t operations = j) (hj' : j.step act (.run root) = j') (horder : j.tree.postOrder root = order) :
    j.Balances ∧ j'.Balances ∧ (j.tree.runDeferred act root).1 = j'.tree ∧
      j'.performed = j.performed ++ (j.tree.runDeferred act root).2 ∧
      j'.performed.length = j.performed.length + (j.tree.runDeferred act root).2.length ∧
      (∀ before id after, order = before ++ id :: after → ∃ m, before.foldl (turn act) j = m ∧
        after.foldl (turn act) (turn act m id) = j' ∧
        (turn act m id).performed = m.performed ++ (m.tree.queued id).map (Prod.mk id) ∧
        j'.tree.queued id = actionsOf id (j'.queued.drop m.queued.length)) ∧
      ∀ x ∉ order, j'.tree.queued x = j.tree.queued x ++ actionsOf x (j'.queued.drop j.queued.length) := by
  subst hj'
  obtain ⟨new, done, hgrows, hruns, -, houtside⟩ := exists_grows_turns hact (j.tree.postOrder root) j
  have hrun : j.tree.runDeferred act root = ((j.step act (.run root)).tree, done) := hruns []
  rw [hrun]
  have hbalances : j.Balances := hj ▸ history_balances hact t operations
  refine ⟨hbalances, hbalances.step hact _, rfl, hgrows.performed, ?_, ?_, ?_⟩
  · rw [step, hgrows.performed, length_append]
  · intro before id after hsplit
    obtain ⟨first, hturn, hdeferred, -⟩ := exists_grows_turn hact (before.foldl (turn act) j) id
    obtain ⟨later, done', hlater, -, -, hstays⟩ :=
      exists_grows_turns hact after (turn act (before.foldl (turn act) j) id)
    have hnodup : (before ++ id :: after).Nodup := by
      obtain ⟨walk, -, -, hadds⟩ := visits_postOrder j.tree root
      exact hsplit ▸ horder ▸ hadds.nodup
    have hid : id ∉ after := (nodup_cons.1 hnodup.of_append_right).1
    have hend : after.foldl (turn act) (turn act (before.foldl (turn act) j) id) = j.step act (.run root) := by
      rw [step, horder, hsplit, foldl_append, foldl_cons]
    refine ⟨_, rfl, hend, hturn.performed, ?_⟩
    rw [← hend, hstays id hid, hlater.queued, hturn.queued, append_assoc, drop_left, actionsOf_append, queued_eq,
      hdeferred, actionsOf_append, actionsOf_unqueue, if_pos rfl, nil_append]
  · intro x hx
    rw [step, houtside x (horder ▸ hx), hgrows.queued, drop_left]

/-- A number above zero queues the next lower one for the first widget. -/
def countDown (n : Nat) (_ : WidgetId) (t : Tree Nat) : Tree Nat :=
  if n = 0 then t else t.defer 1 (n - 1)

theorem run_performs_inTurn_countDown :
    ∃ j j', history countDown ⟨[{ wrapped := 2 }, {}], [(3, 7)]⟩ [.defer 2 2] = j ∧ j.step countDown (.run 1) = j' ∧
      j.tree.postOrder 1 = [2, 1] ∧ j'.performed = [(2, 2), (1, 1)] ∧ j'.tree.deferred = [(3, 7), (1, 0)] ∧
      j'.Balances := by
  have hact : ∀ n id t, t.deferred <+: (countDown n id t).deferred := by
    intro n id t
    unfold countDown
    split
    · exact prefix_rfl
    · exact prefix_append ..
  refine ⟨_, _, rfl, rfl, by decide, by decide, by decide, ?_⟩
  exact (run_performs_inTurn hact _ [.defer 2 2] 1 _ _ _ rfl rfl rfl).2.1

end Journal

end FlutterLayout.Tree
