import FlutterLayout.Proofs.Pipe.Soundness

/-!
# Completeness — the walk leaves no redundant builder

The walk takes redundant builders out of a slot before it goes on below, and what it does below the slot
changes nothing that was looked at before (`Rearranged`).  So in the end every slot holds a widget that is not
redundant in the scope of the slot (`Settled`, `settles`).  Two things follow:

* a second walk finds nothing to do (`Settled.run_shareBelow`);
* no builder is left below one with the same key, unless a name in its source is bound between
  (`Settled.not_redundant`).
-/

namespace FlutterLayout

open List FlutterLayout.Tree

def Widget.face (w : Widget) : Option (Text × Text) × Bool × List (Slot × List Text) :=
  (w.subscription?.map fun s => (s.key, s.source), decide (w.wrapped = WidgetId.none),
    w.references.map fun r => (r.slot, r.binds))

theorem Widget.face_weaken (w : Widget) (flag : Bool) : (w.weaken flag).face = w.face := by
  simp only [face, subscription?_weaken, references_weaken, Option.map_map]
  rfl

theorem Widget.face_mapIds (hf : KeepsNone f) (w : Widget) : (w.mapIds f).face = w.face := by
  have hwrap : (w.mapIds f).wrapped = .none ↔ w.wrapped = .none := hf w.wrapped
  simp only [face, subscription?_mapIds, references_mapIds hf, map_map, hwrap]
  rfl

namespace Pipe

open Relation (TransGen)

variable {α : Type} {t t' t'' : Tree α} {root id u x : WidgetId} {w w' : Widget} {r q : Reference} {scope inner : Scope}
  {n fuel : Nat} {s s' : Sharing α} {a : Active}

/-! ## Settled trees -/

theorem scopeBelow_congr (h : w'.face = w.face) : scopeBelow scope id w' = scopeBelow scope id w := by
  have hkey : (w'.subscription?.map fun s => (s.key, s.source)) = w.subscription?.map fun s => (s.key, s.source) :=
    congrArg Prod.fst h
  unfold scopeBelow
  cases hs : w.subscription? with
  | none =>
    rw [hs, Option.map_none, Option.map_eq_none_iff] at hkey
    rw [hkey]
  | some s =>
    rw [hs] at hkey
    obtain ⟨s', hs', hpair⟩ := Option.map_eq_some_iff.1 hkey
    obtain ⟨hkey, hsource⟩ := Prod.mk.inj hpair
    simp only [hs', Scope.enter, hkey, hsource]

theorem redundant?_congr (h : (t'.get? id).map Widget.face = (t.get? id).map Widget.face)
    (hnone : redundant? t scope id = none) : redundant? t' scope id = none := by
  cases hw' : t'.get? id with
  | none => simp [redundant?, hw']
  | some w' =>
    rw [hw', Option.map_some, eq_comm, Option.map_eq_some_iff] at h
    obtain ⟨w, hw, hface⟩ := h
    have hkey : (w.subscription?.map fun s => (s.key, s.source)) = w'.subscription?.map fun s => (s.key, s.source) :=
      congrArg Prod.fst hface
    have hwrap : w.wrapped = .none ↔ w'.wrapped = .none := by
      simpa [Widget.face] using congrArg (fun face => face.2.1) hface
    cases hs' : w'.subscription? with
    | none => simp [redundant?, hw', hs']
    | some s' =>
      rw [hs', Option.map_some] at hkey
      obtain ⟨s, hs, hpair⟩ := Option.map_eq_some_iff.1 hkey
      simp only [redundant?, hw, hs, (Prod.mk.inj hpair).1, hwrap] at hnone
      simpa [redundant?, hw', hs'] using hnone

/-- No slot below `id` holds a builder that is redundant there, as far as a walk with `fuel` goes. -/
def Settled (t : Tree α) : (fuel : Nat) → Scope → WidgetId → Prop
  | 0, _, _ => True
  | fuel + 1, scope, id => ∀ w, t.get? id = some w → ∀ r ∈ w.references, ∃ inner,
      (scopeBelow scope id w).leaving r.binds = .ok inner ∧ redundant? t inner r.id = none ∧ Settled t fuel inner r.id

theorem Settled.run_shareBelow (h : Settled s.tree fuel scope id) :
    (shareBelow fuel scope id).run.run s = (.ok (), s) := by
  induction fuel generalizing scope id with
  | zero => rfl
  | succ fuel ih =>
    have hsplice : ∀ {inner : Scope} {slot : Slot} {x : WidgetId} (size : Nat), redundant? s.tree inner x = none →
        splice inner id slot size x s = (x, s) := by
      intro inner slot x size hnone
      cases size <;> simp [splice, hnone]
    rw [run_shareBelow_succ]
    cases hw : s.tree.get? id with
    | none => rfl
    | some w =>
      have hrefs := h w hw
      simp only
      generalize w.references = rs at hrefs
      induction rs with
      | nil => rfl
      | cons r rs ihrs =>
        obtain ⟨⟨inner, hleaving, hnone, hsettled⟩, hrest⟩ := forall_mem_cons.1 hrefs
        rw [run_forM_cons, run_visitReference, hleaving]
        simp only [hsplice _ hnone, ih hsettled]
        exact ihrs hrest

/-! ## What a walk changes -/

/-- The tree is still one; what was not `inside` has the ids it had in its slots, and nothing is below a
widget that was not below it before. -/
structure Rearranged (root : WidgetId) (t t' : Tree α) (inside : WidgetId → Prop) : Prop where
  isTree : t'.IsTree root
  size : t'.size = t.size
  face : ∀ x, (t'.get? x).map Widget.face = (t.get? x).map Widget.face
  outside : ∀ x, ¬ inside x → (t'.get? x).map Widget.references = (t.get? x).map Widget.references
  down : ∀ {u x : WidgetId}, t'.Reaches root u → t'.Reaches u x → t.Reaches u x

namespace Rearranged

variable {inside inside' : WidgetId → Prop}

theorem refl (h : t.IsTree root) : Rearranged root t t inside :=
  ⟨h, rfl, fun _ => rfl, fun _ _ => rfl, fun _ hx => hx⟩

theorem trans (h : Rearranged root t t' inside) (h' : Rearranged root t' t'' inside')
    (hsub : ∀ x, inside' x → inside x) : Rearranged root t t'' inside where
  isTree := h'.isTree
  size := h'.size.trans h.size
  face x := (h'.face x).trans (h.face x)
  outside x hx := (h'.outside x fun hin => hx (hsub x hin)).trans (h.outside x hx)
  down hu hx := h.down (h'.down .refl hu) (h'.down hu hx)

theorem mono (h : Rearranged root t t' inside') (hsub : ∀ x, inside' x → inside x) : Rearranged root t t' inside :=
  ⟨h.isTree, h.size, h.face, fun x hx => h.outside x fun hin => hx (hsub x hin), h.down⟩

section

variable (h : Rearranged root t t' inside)
include h

theorem holds (hu : ¬ inside u) (hx : t.Holds u x) : t'.Holds u x := by
  obtain ⟨w, hw, r, hr, rfl⟩ := exists_reference_of_holds hx
  have hrefs := h.outside u hu
  rw [hw, Option.map_some, Option.map_eq_some_iff] at hrefs
  obtain ⟨w', hw', hsame⟩ := hrefs
  exact holds_of_reference hw' (hsame ▸ hr)

theorem reaches (hu : t.Reaches root u)
    (habove : ∀ y, t.Reaches root y → TransGen t.Holds y u → ¬ inside y) : t'.Reaches root u := by
  induction hu with
  | refl => exact .refl
  | tail hy hyu ih =>
    refine (ih fun z hz hzy => habove z hz (hzy.tail hyu)).tail ?_
    exact h.holds (habove _ hy (.single hyu)) hyu

theorem readable (hread : Readable t root) : Readable t' root := by
  intro u w' r' name hu hw' hr' hname
  have hface := h.face u
  rw [hw', Option.map_some, eq_comm, Option.map_eq_some_iff] at hface
  obtain ⟨w, hw, hsame⟩ := hface
  have hslots : (w.references.map fun r => (r.slot, r.binds)) = w'.references.map fun r => (r.slot, r.binds) :=
    congrArg (fun face => face.2.2) hsame
  have hbinds : (r'.slot, r'.binds) ∈ w.references.map fun r => (r.slot, r.binds) := hslots ▸ mem_map_of_mem hr'
  obtain ⟨r, hr, hpair⟩ := mem_map.1 hbinds
  refine hread (h.down .refl hu) hw hr ?_
  rw [(Prod.mk.inj hpair).2]
  exact hname

theorem settled (hout : ∀ x w, t.get? x = some w → t.Reaches id x → ¬ inside x)
    (hsettled : Settled t fuel scope id) : Settled t' fuel scope id := by
  induction fuel generalizing scope id with
  | zero => exact hsettled
  | succ fuel ih =>
    intro w' hw' r hr
    have hface := h.face id
    rw [hw', Option.map_some, eq_comm, Option.map_eq_some_iff] at hface
    obtain ⟨w, hw, hface⟩ := hface
    have hrefs := h.outside id (hout id w hw .refl)
    rw [hw', hw, Option.map_some, Option.map_some, Option.some.injEq] at hrefs
    rw [hrefs] at hr
    obtain ⟨inner, hleaving, hnone, hbelow⟩ := hsettled w hw r hr
    refine ⟨inner, ?_, redundant?_congr (h.face _) hnone, ih (fun x v hv hx => ?_) hbelow⟩
    · rw [scopeBelow_congr hface.symm]
      exact hleaving
    · exact hout x v hv (.head (holds_of_reference hw hr) hx)

end

end Rearranged

/-! ## One slot -/

/-- The widget `w'` holds `c` in slot `r` and what `w` holds in the others. -/
def Refilled (w : Widget) (r : Reference) (c : WidgetId) (w' : Widget) : Prop :=
  ∀ q, q ∈ w'.references ↔ q = { r with id := c } ∨ q ∈ w.references ∧ q.slot ≠ r.slot

theorem Refilled.refl (hr : r ∈ w.references) : Refilled w r r.id w := by
  have hnodup : (w.references.map Reference.slot).Nodup := pairwise_map.2 w.references_pairwise
  intro q
  constructor
  · intro hq
    by_cases hslot : q.slot = r.slot
    · exact .inl (inj_on_of_nodup_map hnodup hq hr hslot)
    · exact .inr ⟨hq, hslot⟩
  · rintro (rfl | ⟨hq, -⟩)
    · exact hr
    · exact hq

section Wrapping

variable {o c : WidgetId} {sub : Subscription}

theorem Wraps.rearranged (hr : Wraps root t id r c) (h : t.IsTree root) :
    Rearranged root t (merge t id r o sub c) (· = id) := by
  have hother : ∀ {x : WidgetId}, x ≠ id → ∃ flag, (merge t id r o sub c).get? x = (t.get? x).map (.weaken flag) := by
    intro x hx
    by_cases ho : x = o
    · refine ⟨sub.skipNullCheck, ?_⟩
      rw [merge, get?_modify_of_ne _ hx, mergeInto, ho, get?_modify_self]
      rfl
    · refine ⟨true, ?_⟩
      rw [merge, get?_modify_of_ne _ hx, mergeInto, get?_modify_of_ne _ ho]
      cases t.get? x <;> simp
  refine ⟨hr.isTree h, size_merge, fun x => ?_, fun x hx => ?_, fun hu hx => ?_⟩
  · by_cases hx : x = id
    · obtain ⟨w, hw, -⟩ := hr.holds
      rw [hx, get?_merge hr h hr.parent hw, hw, Option.map_some, Option.map_some, Widget.face_weaken,
        Widget.face_mapIds hr.keepsNone]
    · obtain ⟨flag, hget⟩ := hother hx
      rw [hget, Option.map_map]
      exact congrArg (Option.map · _) (funext fun w => w.face_weaken flag)
  · obtain ⟨flag, hget⟩ := hother hx
    rw [hget, Option.map_map]
    rfl
  · exact reaches_of_merge hr h (reaches_of_merge_root hr h hu).1 hx

theorem Wraps.refilled (flag : Bool) (hr : Wraps root t id r c) (h : t.IsTree root) (hw : t.get? id = some w)
    (hmem : r ∈ w.references) : Refilled w r c ((w.mapIds (redirect r.id c)).weaken flag) := by
  have hkeep : ∀ {q : Reference}, q ∈ w.references → q.slot ≠ r.slot → q.mapId (redirect r.id c) = q := by
    intro q hq hne
    rw [Reference.mapId, redirect_of_ne fun heq => hne (hr.slot_unique h hr.parent hw hq heq).2]
  have hself : r.mapId (redirect r.id c) = { r with id := c } := by
    rw [Reference.mapId, redirect_self]
  intro q
  rw [Widget.references_weaken, Widget.references_mapIds hr.keepsNone, mem_map]
  constructor
  · rintro ⟨q, hq, rfl⟩
    rcases (Refilled.refl hmem q).1 hq with rfl | ⟨hq, hne⟩
    · exact .inl hself
    · rw [hkeep hq hne]
      exact .inr ⟨hq, hne⟩
  · rintro (rfl | ⟨hq, hne⟩)
    · exact ⟨r, hmem, hself⟩
    · exact ⟨q, hq, hkeep hq hne⟩

end Wrapping

/-- Slot `r` of `id` is emptied of redundant builders and holds `target` in the end. -/
structure Cleared (root : WidgetId) (t : Tree α) (inner : Scope) (id : WidgetId) (w : Widget) (r : Reference)
    (target : WidgetId) (t' : Tree α) : Prop where
  rearranged : Rearranged root t t' (· = id)
  reaches : t'.Reaches root id
  below : t.Reaches r.id target
  none : redundant? t' inner target = none
  refilled : ∃ w', t'.get? id = some w' ∧ Refilled w r target w'

/-- Every builder that is taken out is `gone` for good, so the fuel is enough. -/
theorem splice_cleared (fuel : Nat) {target : WidgetId} {gone : List WidgetId} (h : t.IsTree root)
    (hid : t.Reaches root id) (hw : t.get? id = some w) (hr : r ∈ w.references) (hgone : gone.Nodup)
    (hall : ∀ x ∈ gone, (∃ w, t.get? x = some w) ∧ ¬ t.Reaches root x) (hfuel : t.size ≤ gone.length + fuel)
    (hrun : splice inner id r.slot fuel r.id ⟨t, n⟩ = (target, s')) : Cleared root t inner id w r target s'.tree := by
  induction fuel generalizing t w n r gone with
  | zero =>
    cases hrun
    refine ⟨.refl h, hid, .refl, ?_, w, hw, .refl hr⟩
    by_contra hsome
    obtain ⟨⟨sub, c, o⟩, hred⟩ := Option.ne_none_iff_exists'.1 hsome
    obtain ⟨⟨wb, hwb, -⟩, -⟩ := redundant?_eq_some hred
    have hnodup : (r.id :: gone).Nodup := nodup_cons.2
      ⟨fun hmem => (hall _ hmem).2 (hid.tail (holds_of_reference hw hr)), hgone⟩
    have hle : _ ≤ t.size := length_le_size hnodup (forall_mem_cons.2 ⟨⟨wb, hwb⟩, fun x hx => (hall x hx).1⟩)
    rw [length_cons] at hle
    omega
  | succ fuel ih =>
    unfold splice at hrun
    split at hrun
    · rename_i hnone
      cases hrun
      exact ⟨.refl h, hid, .refl, hnone, w, hw, .refl hr⟩
    · rename_i sub c o hred
      obtain ⟨⟨wb, hwb, -, hwrap⟩, hc, -⟩ := redundant?_eq_some hred
      have hwraps : Wraps root t id r c := ⟨hid, ⟨w, hw, hr⟩, ⟨wb, hwb, hwrap⟩, hc⟩
      have hrearr : Rearranged root t (merge t id r o sub c) (· = id) := hwraps.rearranged h
      have hid' : (merge t id r o sub c).Reaches root id := by
        refine hrearr.reaches hid ?_
        rintro y hy hcycle rfl
        exact h.acyclic hy hcycle
      have hfilled := hwraps.refilled (decide (id ≠ o) || sub.skipNullCheck) h hw hr
      have hslot := (hfilled { r with id := c }).2 (.inl rfl)
      have hgone' : (r.id :: gone).Nodup := nodup_cons.2
        ⟨fun hmem => (hall _ hmem).2 hwraps.reaches_builder, hgone⟩
      have hall' : ∀ x ∈ r.id :: gone, (∃ w, (merge t id r o sub c).get? x = some w) ∧
          ¬ (merge t id r o sub c).Reaches root x := by
        refine forall_mem_cons.2 ⟨⟨exists_get?_merge.2 ⟨wb, hwb⟩, fun hx => ?_⟩, fun x hx => ?_⟩
        · exact (reaches_of_merge_root hwraps h hx).2 rfl
        · exact ⟨exists_get?_merge.2 (hall x hx).1, fun hx' => (hall x hx).2 (reaches_of_merge_root hwraps h hx').1⟩
      have hfuel' : (merge t id r o sub c).size ≤ (r.id :: gone).length + fuel := by
        rw [size_merge, length_cons]
        omega
      obtain ⟨hrest, hreaches, hbelow, hnone, w', hw', hrefilled⟩ :=
        ih hrearr.isTree hid' (get?_merge hwraps h hid hw) hslot hgone' hall' hfuel' hrun
      have hc' := hid'.tail (holds_of_reference (get?_merge hwraps h hid hw) hslot)
      refine ⟨hrearr.trans hrest fun _ hx => hx, hreaches,
        .head hwraps.holds_child (hrearr.down hc' hbelow), hnone, w', hw', fun q => ?_⟩
      rw [hrefilled q, hfilled q]
      constructor
      · rintro (hq | ⟨rfl | hq, hne⟩)
        · exact .inl hq
        · exact absurd rfl hne
        · exact .inr hq
      · rintro (hq | hq)
        · exact .inl hq
        · exact .inr ⟨.inr hq, hq.2⟩

/-! ## The walk -/

def Settles (α : Type) (root : WidgetId) (fuel : Nat) : Prop :=
  ∀ {t : Tree α} (scope : Scope) {id : WidgetId} (n : Nat), t.IsTree root → t.Reaches root id → Readable t root →
    ∃ t' n', (shareBelow fuel scope id).run.run ⟨t, n⟩ = (.ok (), ⟨t', n'⟩) ∧ Settled t' fuel scope id ∧
      Rearranged root t t' (t.Reaches id)

def Done (t : Tree α) (fuel : Nat) (scope : Scope) (r : Reference) : Prop :=
  ∃ inner, scope.leaving r.binds = .ok inner ∧ redundant? t inner r.id = none ∧ Settled t fuel inner r.id

theorem Done.of_rearranged (h : Rearranged root t t' inside)
    (hout : ∀ x w, t.get? x = some w → t.Reaches r.id x → ¬ inside x) (hdone : Done t fuel scope r) :
    Done t' fuel scope r := by
  obtain ⟨inner, hleaving, hnone, hsettled⟩ := hdone
  exact ⟨inner, hleaving, redundant?_congr (h.face _) hnone, h.settled hout hsettled⟩

/-- A visit is done with its reference and touches nothing that is not below it. -/
theorem visitReference_done (scope : Scope) (hsettles : Settles α root fuel) (h : t.IsTree root)
    (hid : t.Reaches root id)
    (hread : Readable t root) (hw : t.get? id = some w) (hr : r ∈ w.references) :
    ∃ t' n' target w', (visitReference fuel scope id r).run.run ⟨t, n⟩ = (.ok (), ⟨t', n'⟩) ∧
      Rearranged root t t' (fun x => x = id ∨ t.Reaches r.id x) ∧ t'.Reaches root id ∧
      t'.get? id = some w' ∧ Refilled w r target w' ∧ Done t' fuel scope { r with id := target } := by
  obtain ⟨inner, hleaving⟩ := leaving_ok scope fun name hname => hread hid hw hr hname
  cases hsplice : splice inner id r.slot t.size r.id ⟨t, n⟩ with
  | mk target s1 =>
    obtain ⟨hrearr, hreaches, hbelow, hnone, w1, hw1, hrefilled⟩ :=
      splice_cleared t.size h hid hw hr nodup_nil (by simp) (by simp) hsplice
    have hslot := (hrefilled _).2 (.inl rfl)
    have htarget : s1.tree.Reaches root target := hreaches.tail (holds_of_reference hw1 hslot)
    obtain ⟨t', n', hrun, hsettled, hwalk⟩ := hsettles inner s1.removed hrearr.isTree htarget
      (hrearr.readable hread)
    have habove : ¬ s1.tree.Reaches target id := not_reaches_of_slot hrearr.isTree hreaches hw1 hslot .refl
    have hsame := hwalk.outside id habove
    rw [hw1, Option.map_some, Option.map_eq_some_iff] at hsame
    obtain ⟨w', hw', hrefs⟩ := hsame
    refine ⟨t', n', target, w', ?_, ?_, ?_, hw', ?_, inner, hleaving, redundant?_congr (hwalk.face _) hnone, hsettled⟩
    · rw [run_visitReference, hleaving]
      simp only [hsplice]
      exact hrun
    · exact (hrearr.mono fun _ hx => .inl hx).trans hwalk fun x hx =>
        .inr (hbelow.trans (hrearr.down htarget hx))
    · exact hwalk.reaches hreaches fun y _ hy hin => habove (hin.trans hy.to_reflTransGen)
    · intro q
      rw [hrefs]
      exact hrefilled q

theorem visitAll_done (scope : Scope) (hsettles : Settles α root fuel) (rs : List Reference) (h : t.IsTree root)
    (hid : t.Reaches root id) (hread : Readable t root) (hw : t.get? id = some w) (hrs : ∀ r ∈ rs, r ∈ w.references)
    (hslots : rs.Pairwise fun r r' => r.slot ≠ r'.slot) (hdone : ∀ q ∈ w.references, q ∈ rs ∨ Done t fuel scope q) :
    ∃ t' n' w', (rs.forM (visitReference fuel scope id)).run.run ⟨t, n⟩ = (.ok (), ⟨t', n'⟩) ∧
      Rearranged root t t' (t.Reaches id) ∧ t'.get? id = some w' ∧ ∀ q ∈ w'.references, Done t' fuel scope q := by
  induction rs generalizing t n w with
  | nil => exact ⟨t, n, w, rfl, .refl h, hw, fun q hq => (hdone q hq).resolve_left (by simp)⟩
  | cons r rs ih =>
    obtain ⟨hr, hrs⟩ := forall_mem_cons.1 hrs
    obtain ⟨hne, hslots⟩ := pairwise_cons.1 hslots
    obtain ⟨t1, n1, target, w1, hrun, hrearr, hid1, hw1, hrefilled, htarget⟩ :=
      visitReference_done (n := n) scope hsettles h hid hread hw hr
    have hdone1 : ∀ q ∈ w1.references, q ∈ rs ∨ Done t1 fuel scope q := by
      intro q hq
      rcases (hrefilled q).1 hq with rfl | ⟨hq, hslot⟩
      · exact .inr htarget
      · rcases hdone q hq with hmem | hdone
        · exact .inl ((mem_cons.1 hmem).resolve_left fun heq => hslot (congrArg Reference.slot heq))
        · refine .inr (hdone.of_rearranged hrearr ?_)
          rintro x v hv hx (rfl | hx')
          · exact not_reaches_of_slot h hid hw hq hx .refl
          · exact hslot (slot_eq_of_reaches h hid hw hq hr hx hx' ⟨v, hv⟩)
    obtain ⟨t', n', w', hrest, hwalk, hw', hall⟩ := ih (n := n1) hrearr.isTree hid1 (hrearr.readable hread)
      hw1 (fun q hq => (hrefilled q).2 (.inr ⟨hrs q hq, (hne q hq).symm⟩)) hslots hdone1
    refine ⟨t', n', w', ?_, ?_, hw', hall⟩
    · rw [run_forM_cons, hrun]
      exact hrest
    · refine (hrearr.mono ?_).trans hwalk fun x hx => hrearr.down hid1 hx
      rintro x (rfl | hx)
      · exact .refl
      · exact .head (holds_of_reference hw hr) hx

theorem settles (root : WidgetId) (fuel : Nat) : Settles α root fuel := by
  induction fuel with
  | zero =>
    intro t scope id n h _ _
    exact ⟨t, n, rfl, trivial, .refl h⟩
  | succ fuel ih =>
    intro t scope id n h hid hread
    rw [run_shareBelow_succ]
    cases hw : t.get? id with
    | none => exact ⟨t, n, rfl, fun w hw' => by simp [hw] at hw', .refl h⟩
    | some w =>
      obtain ⟨t', n', w', hrun, hwalk, hw', hdone⟩ := visitAll_done (n := n) (scopeBelow scope id w) ih
        w.references h hid hread hw (fun _ hr => hr) w.references_pairwise fun _ hr => .inl hr
      refine ⟨t', n', hrun, fun w1 hw1 r hr => ?_, hwalk⟩
      obtain rfl := Option.some.inj (hw'.symm.trans hw1)
      have hface := hwalk.face id
      rw [hw', hw, Option.map_some, Option.map_some, Option.some.injEq] at hface
      rw [scopeBelow_congr hface]
      exact hdone r hr

/-! ## Settled trees have no redundant builders -/

def Scope.Sound (scope : Scope) : Prop :=
  ∀ a ∈ scope, ∃ s : Subscription, a.key = s.key ∧ a.source = s.source

/-- The subscription is active in the scope, though maybe on behalf of another builder. -/
def Scope.Knows (scope : Scope) (s : Subscription) : Prop :=
  ∃ a ∈ scope, a.key = s.key ∧ a.source = s.source

theorem sound_scopeBelow (h : scope.Sound) : (scopeBelow scope id w).Sound := by
  intro a ha
  rcases mem_scopeBelow ha with ha | ⟨s, -, rfl⟩
  · exact h a ha
  · exact ⟨s, rfl, rfl⟩

theorem Scope.Knows.scopeBelow (h : scope.Knows sub) : (scopeBelow scope id w).Knows sub := by
  obtain ⟨a, ha, hsame⟩ := h
  refine ⟨a, ?_, hsame⟩
  unfold Pipe.scopeBelow
  split
  · unfold Scope.enter
    split
    · exact ha
    · exact mem_append_left _ ha
  · exact ha

theorem knows_scopeBelow (hsound : scope.Sound) (hs : w.subscription? = some sub')
    (hkey : sub'.key = sub.key) : (scopeBelow scope id w).Knows sub := by
  simp only [scopeBelow, hs, Scope.enter]
  split
  · rename_i hsome
    obtain ⟨a, ha⟩ := Option.isSome_iff_exists.1 hsome
    obtain ⟨s, hs, hsource⟩ := hsound a (mem_of_find?_eq_some ha)
    have hakey : a.key = sub.key := by
      rw [← hkey]
      simpa using find?_some ha
    exact ⟨a, mem_of_find?_eq_some ha, hakey, hsource.trans (Subscription.source_eq_of_key_eq (hs.symm.trans hakey))⟩
  · exact ⟨_, mem_append_right _ mem_cons_self, hkey, Subscription.source_eq_of_key_eq hkey⟩

/-- The walk comes to `u` with enough fuel for what is below; `above` are the widgets on the way. -/
structure Arrives (t : Tree α) (root u : WidgetId) (above : List WidgetId) (fuel : Nat) (scope : Scope) : Prop where
  reaches : t.Reaches root u
  settled : Settled t fuel scope u
  sound : scope.Sound
  nodup : above.Nodup
  all : ∀ x ∈ above, (∃ w, t.get? x = some w) ∧ TransGen t.Holds x u
  fuel : t.size + 1 ≤ above.length + fuel

theorem Arrives.next (h : t.IsTree root) (harrives : Arrives t root u above fuel scope)
    (hw : t.get? u = some w) (hr : r ∈ w.references) :
    ∃ fuel' inner, (scopeBelow scope u w).leaving r.binds = .ok inner ∧ redundant? t inner r.id = none ∧
      Arrives t root r.id (u :: above) fuel' inner := by
  obtain ⟨hreaches, hsettled, hsound, hnodup, hall, hfuel⟩ := harrives
  have hholds := holds_of_reference hw hr
  have hnodup' : (u :: above).Nodup := nodup_cons.2 ⟨fun hmem => h.acyclic hreaches (hall u hmem).2, hnodup⟩
  have hall' : ∀ x ∈ u :: above, (∃ w, t.get? x = some w) ∧ TransGen t.Holds x r.id :=
    forall_mem_cons.2 ⟨⟨⟨w, hw⟩, .single hholds⟩, fun x hx => ⟨(hall x hx).1, (hall x hx).2.tail hholds⟩⟩
  have hle := length_le_size hnodup' fun x hx => (hall' x hx).1
  rw [length_cons] at hle
  obtain ⟨fuel', rfl⟩ : ∃ fuel', fuel = fuel' + 1 := ⟨fuel - 1, by omega⟩
  obtain ⟨inner, hleaving, hnone, hbelow⟩ := hsettled w hw r hr
  have hsound' : inner.Sound := fun a ha => sound_scopeBelow hsound a ((mem_leaving_iff hleaving).1 ha).1
  refine ⟨fuel', inner, hleaving, hnone, hreaches.tail hholds, hbelow, hsound', hnodup', hall', ?_⟩
  rw [length_cons]
  omega

theorem exists_arrives (h : t.IsTree root) (hsettled : Settled t (t.size + 1) [] root) (hu : t.Reaches root u) :
    ∃ above fuel scope, Arrives t root u above fuel scope := by
  induction hu with
  | refl => exact ⟨[], _, [], .refl, hsettled, nofun, .nil, nofun, by simp⟩
  | tail _ hux ih =>
    obtain ⟨above, fuel, scope, harrives⟩ := ih
    obtain ⟨w, hw, r, hr, rfl⟩ := exists_reference_of_holds hux
    obtain ⟨fuel', inner, -, -, hnext⟩ := harrives.next h hw hr
    exact ⟨_, fuel', inner, hnext⟩

/-- No name in the source is bound at the slot, so what is known above it is known there. -/
theorem Scope.Knows.leaving (h : scope.Knows sub)
    (hleaving : scope.leaving binds = .ok inner) (hclear : Clear sub.source binds) : inner.Knows sub := by
  obtain ⟨a, ha, hkey, hsource⟩ := h
  exact ⟨a, (mem_leaving_iff hleaving).2 ⟨ha, hsource ▸ hclear⟩, hkey, hsource⟩

theorem Settled.not_redundant (h : t.IsTree root)
    (hsettled : Settled t (t.size + 1) [] root) : ¬ Redundant root t p r o sub c := by
  intro hr
  -- from the builder above, its key is known all the way down to the slot
  have hknows : ∃ above fuel scope, Arrives t root p above fuel scope ∧
      ∀ w, t.get? p = some w → (scopeBelow scope p w).Knows sub := by
    have hpath := hr.path
    generalize p = u at hpath
    induction hpath with
    | refl =>
      obtain ⟨above, fuel, scope, harrives⟩ := exists_arrives h hsettled hr.owner
      refine ⟨above, fuel, scope, harrives, fun w hw => ?_⟩
      obtain ⟨wo, so, hwo, hso, hkey⟩ := hr.carries
      obtain rfl := Option.some.inj (hwo.symm.trans hw)
      exact knows_scopeBelow harrives.sound hso hkey
    | tail _ hstep ih =>
      obtain ⟨above, fuel, scope, harrives, hknows⟩ := ih
      obtain ⟨w, q, hw, hq, rfl, hclear⟩ := hstep
      obtain ⟨fuel', inner, hleaving, -, hnext⟩ := harrives.next h hw hq
      exact ⟨_, fuel', inner, hnext, fun _ _ => ((hknows w hw).leaving hleaving hclear).scopeBelow⟩
  obtain ⟨above, fuel, scope, harrives, hknows⟩ := hknows
  obtain ⟨w, hw, hmem⟩ := hr.holds
  obtain ⟨fuel', inner, hleaving, hnone, -⟩ := harrives.next h hw hmem
  obtain ⟨a, ha, hkey, -⟩ := (hknows w hw).leaving hleaving hr.clear
  obtain ⟨wb, hwb, hs, hwrap⟩ := hr.builder
  have hchild := hr.wraps
  simp only [redundant?, hwb, hs, hwrap, hchild, if_false, Option.map_eq_none_iff, Scope.find?,
    find?_eq_none] at hnone
  exact hnone a ha (by simpa using hkey)

/-- Sharing leaves no redundant builder, so doing it again changes nothing. -/
theorem share_complete (h : t.IsTree root) (hread : Readable t root) :
    ∃ count t', share t root = (.ok count, t') ∧ (∀ p r o s c, ¬ Redundant root t' p r o s c) ∧
      share t' root = (.ok 0, t') := by
  obtain ⟨t', n', hrun, hsettled, hwalk⟩ := settles root (t.size + 1) [] 0 h .refl hread
  rw [← hwalk.size] at hsettled
  have hagain := Settled.run_shareBelow (s := ⟨t', 0⟩) hsettled
  refine ⟨n', t', ?_, fun p r o s c => hsettled.not_redundant hwalk.isTree, ?_⟩
  · simp only [share, hrun]
    rfl
  · simp only [share, hagain]
    rfl

theorem share_complete_nestedBuilders :
    nestedBuilders.IsTree 1 ∧ Readable nestedBuilders 1 ∧ ∃ count t', share nestedBuilders 1 = (.ok count, t') ∧
      (∀ p r o s c, ¬ Redundant 1 t' p r o s c) ∧ share t' 1 = (.ok 0, t') := by
  have htree : nestedBuilders.HoldsOnce 1 := by decide +kernel
  have hnames : ∀ w ∈ nestedBuilders.widgets, ∀ r ∈ w.references, ∀ name ∈ r.binds, Text.isUtf8 name = true := by
    decide +kernel
  have hreadable : Readable nestedBuilders 1 := by
    intro u w r name _ hw hr hname
    exact hnames w (List.mem_of_getElem? (Tree.get?_eq_some_iff.1 hw).2) r hr name hname
  exact ⟨htree.isTree, hreadable, share_complete htree.isTree hreadable⟩

end Pipe
end FlutterLayout
