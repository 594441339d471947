import Mathlib.Data.Int.Interval
import Mathlib.Data.Set.Card
import FlutterLayout.Proofs.Pipe.Erasure

/-!
# Merges — builders that are taken out one after the other

`Merges root t log t'` is a run of merges, with a log of what was taken out and which builder stays in its
place.  What single merges keep, runs keep: the widgets that are not in the log (`Merges.reaches_iff`), paths
between them (`Merges.path`), the erased tree (`Merges.get?_erase`).
-/

namespace FlutterLayout.Pipe

open List
open Relation (ReflTransGen)

/-- A builder that was taken out of a slot of `parent`, and the builder that stays in its place. -/
structure Merger where
  builder : WidgetId
  owner : WidgetId
  parent : WidgetId
  flag : Bool
  deriving DecidableEq, Repr

variable {α : Type} {t t' t'' : Tree α} {root u v x y p o c : WidgetId} {w : Widget} {r : Reference} {s : Subscription}
  {log log' : List Merger} {m : Merger}

inductive Merges (root : WidgetId) : Tree α → List Merger → Tree α → Prop
  | refl (t : Tree α) : Merges root t [] t
  | step {t t' : Tree α} {p o c : WidgetId} {r : Reference} {s : Subscription} {log : List Merger}
      (hr : Redundant root t p r o s c) (hrest : Merges root (merge t p r o s c) log t') :
      Merges root t (⟨r.id, o, p, s.skipNullCheck⟩ :: log) t'

def taken (log : List Merger) : List WidgetId :=
  log.map Merger.builder

@[simp] theorem taken_nil : taken [] = [] := rfl

@[simp] theorem taken_cons (m : Merger) : taken (m :: log) = m.builder :: taken log := rfl

@[simp] theorem taken_append : taken (log ++ log') = taken log ++ taken log' := by simp [taken]

theorem mem_taken (hm : m ∈ log) : m.builder ∈ taken log :=
  mem_map_of_mem hm

/-- A builder does without data after the run only if all that were merged into it did. -/
def allows (log : List Merger) (x : WidgetId) : Bool :=
  log.all fun m => decide (m.owner ≠ x) || m.flag

theorem allows_eq_true_iff : allows log x = true ↔ ∀ m ∈ log, m.owner = x → m.flag = true := by
  simp only [allows, all_eq_true, Bool.or_eq_true, decide_eq_true_eq]
  exact forall₂_congr fun m _ => imp_iff_not_or.symm

def Skips (t : Tree α) (gone : WidgetId → Prop) (u v : WidgetId) : Prop :=
  gone u ∧ ∃ w, t.get? u = some w ∧ w.wrapped = v

namespace Merges

theorem trans (hm : Merges root t log t') (hm' : Merges root t' log' t'') : Merges root t (log ++ log') t'' := by
  induction hm with
  | refl => exact hm'
  | step hr _ ih => exact .step hr (ih hm')

theorem single (hr : Redundant root t p r o s c) : Merges root t [⟨r.id, o, p, s.skipNullCheck⟩] (merge t p r o s c) :=
  .step hr (.refl _)

section

variable (hm : Merges root t log t')
include hm

theorem size_eq : t'.size = t.size := by
  induction hm with
  | refl => rfl
  | step _ _ ih => rw [ih, size_merge]

theorem deferred_eq : t'.deferred = t.deferred := by
  induction hm with
  | refl => rfl
  | step _ _ ih => rw [ih, deferred_merge]

theorem shareable (h : Shareable t root) : Shareable t' root := by
  induction hm with
  | refl => exact h
  | step hr _ ih => exact ih (hr.shareable h)

theorem isProper (h : Shareable t root) (hproper : t.IsProper root) : t'.IsProper root := by
  induction hm with
  | refl => exact hproper
  | step hr _ ih => exact ih (hr.shareable h) (hr.isProper h hproper)

end

/-! ## What stays below the root -/

section

variable (hm : Merges root t log t') (h : Shareable t root)
include hm h

theorem reaches_iff : t'.Reaches root x ↔ t.Reaches root x ∧ x ∉ taken log := by
  induction hm with
  | refl => simp
  | step hr _ ih =>
    rw [ih (hr.shareable h), reaches_merge hr h, taken_cons, mem_cons, not_or, and_assoc]

theorem reaches_of_mem_taken (hx : x ∈ taken log) : t.Reaches root x := by
  induction hm with
  | refl => cases hx
  | step hr _ ih =>
    rcases mem_cons.1 hx with rfl | hx
    · exact hr.toWraps.reaches_builder
    · exact ((reaches_merge hr h).1 (ih (hr.shareable h) hx)).1

theorem exists_get? : (∃ w, t'.get? x = some w) ↔ ∃ w, t.get? x = some w := by
  induction hm with
  | refl => exact Iff.rfl
  | step hr _ ih => exact (ih (hr.shareable h)).trans exists_get?_merge

theorem found_of_mem_taken (hx : x ∈ taken log) : ∃ w, t.get? x = some w := by
  induction hm with
  | refl => cases hx
  | step hr _ ih =>
    rcases mem_cons.1 hx with rfl | hx
    · obtain ⟨w, hw, -⟩ := hr.builder
      exact ⟨w, hw⟩
    · exact exists_get?_merge.1 (ih (hr.shareable h) hx)

theorem wrapped_ne_none (hx : x ∈ taken log) (hw : t.get? x = some w) : w.wrapped ≠ .none := by
  induction hm generalizing w with
  | refl => cases hx
  | step hr hrest ih =>
    rcases mem_cons.1 hx with rfl | hx
    · obtain ⟨w', hw', -, hwrap⟩ := hr.builder
      rw [hw] at hw'
      cases hw'
      exact hwrap ▸ hr.wraps
    · have hreach := ((reaches_merge hr h).1 (hrest.reaches_of_mem_taken (hr.shareable h) hx)).1
      exact fun hnone => ih (hr.shareable h) hx (get?_merge hr.toWraps h.toIsTree hreach hw)
        ((hr.toWraps.keepsNone _).2 hnone)

theorem reaches_of (hu : t'.Reaches root u) (hx : t'.Reaches u x) : t.Reaches u x := by
  induction hm with
  | refl => exact hx
  | step hr hrest ih =>
    have hu' := ((hrest.reaches_iff (hr.shareable h)).1 hu).1
    exact reaches_of_merge hr.toWraps h.toIsTree ((reaches_merge hr h).1 hu').1 (ih (hr.shareable h) hu hx)

theorem path (hu : t'.Reaches root u) (hx : t'.Reaches root x) (hpath : ReflTransGen (Descends t harmless) u x) :
    ReflTransGen (Descends t' harmless) u x := by
  induction hm with
  | refl => exact hpath
  | step hr hrest ih =>
    obtain ⟨hureach, hune⟩ := (reaches_merge hr h).1 ((hrest.reaches_iff (hr.shareable h)).1 hu).1
    obtain ⟨-, hxne⟩ := (reaches_merge hr h).1 ((hrest.reaches_iff (hr.shareable h)).1 hx).1
    exact ih (hr.shareable h) hu hx ((hr.path_merge h hureach hune hpath).1 hxne)

theorem nodup_taken : (taken log).Nodup := by
  induction hm with
  | refl => exact nodup_nil
  | step hr hrest ih =>
    refine nodup_cons.2 ⟨?_, ih (hr.shareable h)⟩
    intro hmem
    exact ((reaches_merge hr h).1 (hrest.reaches_of_mem_taken (hr.shareable h) hmem)).2 rfl

end

/-! ## Widgets after a run -/

theorem skips_of_merge (hr : Redundant root t p r o s c) (h : Shareable t root)
    (hrest : Merges root (merge t p r o s c) log t')
    (hskip : ReflTransGen (Skips (merge t p r o s c) (· ∈ taken log)) u v) :
    ReflTransGen (Skips t (· ∈ taken (⟨r.id, o, p, s.skipNullCheck⟩ :: log))) u v := by
  have hfirst : Skips t (· ∈ taken (⟨r.id, o, p, s.skipNullCheck⟩ :: log)) r.id c := by
    obtain ⟨w, hw, -, hwrap⟩ := hr.builder
    exact ⟨mem_cons_self, w, hw, hwrap⟩
  induction hskip with
  | refl => exact .refl
  | tail hprev hstep ih =>
    rename_i y z
    obtain ⟨hmem, w', hw', rfl⟩ := hstep
    have hy := ((reaches_merge hr h).1 (hrest.reaches_of_mem_taken (hr.shareable h) hmem)).1
    obtain ⟨w, hw⟩ := exists_get?_merge.1 ⟨w', hw'⟩
    rw [get?_merge hr.toWraps h.toIsTree hy hw] at hw'
    cases hw'
    have hdown := ih.tail (⟨mem_cons_of_mem _ hmem, w, hw, rfl⟩ :
      Skips t (· ∈ taken (⟨r.id, o, p, s.skipNullCheck⟩ :: log)) y w.wrapped)
    change ReflTransGen _ u (redirect r.id c w.wrapped)
    by_cases heq : w.wrapped = r.id
    · rw [heq, redirect_self]
      exact (heq ▸ hdown).tail hfirst
    · rwa [redirect_of_ne heq]

/-- A widget has other ids in the slots that held builders of the log, and its flag may be lowered. -/
theorem get? (hm : Merges root t log t') (h : Shareable t root) (hw : t.get? x = some w) :
    ∃ f, KeepsNone f ∧ t'.get? x = some ((w.mapIds f).weaken (allows log x)) ∧
      ∀ id, ReflTransGen (Skips t (· ∈ taken log)) id (f id) := by
  induction hm generalizing w with
  | refl => exact ⟨fun id => id, fun _ => Iff.rfl, by simp [Widget.mapIds_id, allows, hw], fun _ => .refl⟩
  | step hr hrest ih =>
    rename_i t t' p o c r s log
    by_cases hx : t.Reaches root x
    · obtain ⟨f, hnone, hget, hskip⟩ := ih (hr.shareable h) (get?_merge hr.toWraps h.toIsTree hx hw)
      refine ⟨f ∘ redirect r.id c, fun id => (hnone _).trans (hr.toWraps.keepsNone id), ?_, ?_⟩
      · rw [hget, Widget.mapIds_weaken, Widget.weaken_weaken, Widget.mapIds_mapIds]
        simp only [allows, all_cons, ne_comm]
      · intro id
        refine .trans ?_ (skips_of_merge hr h hrest (hskip (redirect r.id c id)))
        by_cases heq : id = r.id
        · obtain ⟨wb, hwb, -, hwrap⟩ := hr.builder
          rw [heq, redirect_self]
          exact .single ⟨mem_cons_self, wb, hwb, hwrap⟩
        · rw [redirect_of_ne heq]
    · rw [← get?_merge_of_not_reaches hr hx] at hw
      obtain ⟨f, hnone, hget, hskip⟩ := ih (hr.shareable h) hw
      have hne : o ≠ x := fun heq => hx (heq ▸ hr.owner)
      refine ⟨f, hnone, ?_, fun id => skips_of_merge hr h hrest (hskip id)⟩
      rw [hget]
      simp [allows, hne]

/-! ## The erased tree and the number of builders -/

section

variable (hm : Merges root t log t') (h : Shareable t root)
include hm h

theorem isBuilder_iff (hx : t'.Reaches root x) : IsBuilder t' x ↔ IsBuilder t x := by
  induction hm with
  | refl => exact Iff.rfl
  | step hr hrest ih =>
    have hx' := ((hrest.reaches_iff (hr.shareable h)).1 hx).1
    exact (ih (hr.shareable h) hx).trans (isBuilder_merge_iff hr h ((reaches_merge hr h).1 hx').1)

theorem base_root : base t' root = base t root := by
  induction hm with
  | refl => rfl
  | step hr _ ih =>
    rw [ih (hr.shareable h), ← base_merge hr h .refl, redirect_of_ne (hr.toWraps.root_ne h.toIsTree)]

theorem get?_erase (hx : t.Reaches root x) (hnot : ¬ IsBuilder t x) : (erase t').get? x = (erase t).get? x := by
  induction hm with
  | refl => rfl
  | step hr _ ih =>
    have hx' := (reaches_merge hr h).2 ⟨hx, hr.ne_of_not_isBuilder hnot⟩
    have hnot' := mt (isBuilder_merge_iff hr h hx).1 hnot
    rw [ih (hr.shareable h) hx' hnot', get?_erase_merge hr h hx hnot]

end

end Merges

def buildersBelow (t : Tree α) (root : WidgetId) : Set WidgetId :=
  { x | t.Reaches root x ∧ IsBuilder t x }

theorem finite_buildersBelow : (buildersBelow t root).Finite := by
  refine (Set.finite_Icc (1 : Int) t.size).subset ?_
  rintro x ⟨-, w, s, hw, -⟩
  exact ⟨Tree.pos_of_get? hw, Tree.le_size_of_get? hw⟩

theorem buildersBelow_merge (hr : Redundant root t p r o s c) (h : Shareable t root) :
    buildersBelow t root = insert r.id (buildersBelow (merge t p r o s c) root) := by
  ext x
  simp only [buildersBelow, Set.mem_insert_iff, Set.mem_ofPred_eq, reaches_merge hr h]
  constructor
  · rintro ⟨hx, hbuilder⟩
    by_cases heq : x = r.id
    · exact .inl heq
    · exact .inr ⟨⟨hx, heq⟩, (isBuilder_merge_iff hr h hx).2 hbuilder⟩
  · rintro (rfl | ⟨⟨hx, -⟩, hbuilder⟩)
    · obtain ⟨wb, hwb, hs, -⟩ := hr.builder
      exact ⟨hr.toWraps.reaches_builder, wb, s, hwb, hs⟩
    · exact ⟨hx, (isBuilder_merge_iff hr h hx).1 hbuilder⟩

theorem Merges.ncard_buildersBelow (hm : Merges root t log t') (h : Shareable t root) :
    (buildersBelow t root).ncard = (buildersBelow t' root).ncard + log.length := by
  induction hm with
  | refl => rfl
  | step hr _ ih =>
    have hnot : ∀ {t : Tree α} {p o c : WidgetId} {r : Reference} {s : Subscription},
        Redundant root t p r o s c → Shareable t root → r.id ∉ buildersBelow (merge t p r o s c) root :=
      fun hr h hmem => ((reaches_merge hr h).1 hmem.1).2 rfl
    rw [buildersBelow_merge hr h, Set.ncard_insert_of_notMem (hnot hr h) finite_buildersBelow,
      ih (hr.shareable h), length_cons]
    omega

/-! ## What stays in place of a builder -/

def Separate (log : List Merger) : Prop :=
  ∀ m ∈ log, m.owner ∉ taken log ∧ m.parent ∉ taken log

theorem Separate.tail (h : Separate (m :: log)) : Separate log := by
  intro m' hm'
  obtain ⟨howner, hparent⟩ := h m' (mem_cons_of_mem _ hm')
  exact ⟨fun hmem => howner (mem_cons_of_mem _ hmem), fun hmem => hparent (mem_cons_of_mem _ hmem)⟩

/-- The builder `o` stays in place of `b`: it carries a subscription with the same key, and no name that the
source mentions is bound on the way from it down to the slot that held `b`. -/
structure Serves (root : WidgetId) (t t' : Tree α) (gone : WidgetId → Prop) (b o : WidgetId)
    (s : Subscription) : Prop where
  builder : ∃ w, t.get? b = some w ∧ w.subscription? = some s
  stays : t'.Reaches root o
  carries : ∃ w s', t'.get? o = some w ∧ w.subscription? = some s' ∧ s'.key = s.key
  slot : ∃ p w r, t'.Reaches root p ∧ t.get? p = some w ∧ r ∈ w.references ∧
    ReflTransGen (Skips t gone) r.id b ∧ ReflTransGen (Descends t' (Clear s.source)) o p ∧
      Clear s.source r.binds

theorem Merges.serves (hm : Merges root t log t') (h : Shareable t root) (hsep : Separate log) (hmem : m ∈ log) :
    ∃ s, Serves root t t' (· ∈ taken log) m.builder m.owner s ∧ s.skipNullCheck = m.flag := by
  induction hm with
  | refl => cases hmem
  | step hr hrest ih =>
    rename_i t t' p o c r s log
    rcases mem_cons.1 hmem with rfl | hlater
    · obtain ⟨hosep, hpsep⟩ := hsep _ mem_cons_self
      have ho : t'.Reaches root o := ((step hr hrest).reaches_iff h).2 ⟨hr.owner, hosep⟩
      have hp : t'.Reaches root p := ((step hr hrest).reaches_iff h).2 ⟨hr.parent, hpsep⟩
      obtain ⟨wb, hwb, hs, -⟩ := hr.builder
      obtain ⟨wo, so, hwo, hso, hkey⟩ := hr.carries
      obtain ⟨wp, hwp, hrp⟩ := hr.holds
      obtain ⟨f, -, hget, -⟩ := (step hr hrest).get? h hwo
      refine ⟨s, ⟨⟨wb, hwb, hs⟩, ho, ⟨_, _, hget, Widget.subscription?_relabel_iff.2 ⟨so, hso, rfl⟩, hkey⟩,
        p, wp, r, hp, hwp, hrp, .refl, (step hr hrest).path h ho hp hr.path, hr.clear⟩, rfl⟩
    · obtain ⟨s', hserves, hflag⟩ := ih (hr.shareable h) hsep.tail hlater
      obtain ⟨wb', hwb', hs'⟩ := hserves.builder
      obtain ⟨p', wp', r', hp', hwp', hrp', hskip, hpath, hclear⟩ := hserves.slot
      have hbreach := ((reaches_merge hr h).1
        (hrest.reaches_of_mem_taken (hr.shareable h) (mem_taken hlater))).1
      obtain ⟨wb, hwb⟩ := exists_get?_merge.1 ⟨wb', hwb'⟩
      rw [get?_merge hr.toWraps h.toIsTree hbreach hwb] at hwb'
      cases hwb'
      obtain ⟨s0, hs0, rfl⟩ := Widget.subscription?_relabel_iff.1 hs'
      -- The builder is not the one that stays in this merge, so its flag is as it was.
      have hne : m.builder ≠ o := by
        intro heq
        exact (hsep _ mem_cons_self).1 (heq ▸ mem_cons_of_mem _ (mem_taken hlater))
      have hp'reach := ((hrest.reaches_iff (hr.shareable h)).1 hp').1
      obtain ⟨wp, q, hwp, hq, -, hqbinds, hqid⟩ := exists_reference_of_merge hr.toWraps h.toIsTree hp'reach hwp' hrp'
      refine ⟨s0, ⟨⟨wb, hwb, hs0⟩, hserves.stays, hserves.carries, p', wp, q, hp', hwp, hq, ?_, hpath, ?_⟩, ?_⟩
      · rw [hqid] at hskip
        refine .trans ?_ (skips_of_merge hr h hrest hskip)
        by_cases heq : q.id = r.id
        · obtain ⟨w, hw, -, hwrap⟩ := hr.builder
          rw [heq, redirect_self]
          exact .single ⟨mem_cons_self, w, hw, hwrap⟩
        · rw [redirect_of_ne heq]
      · rw [hqbinds]
        exact hclear
      · simpa [hne] using hflag

end FlutterLayout.Pipe
