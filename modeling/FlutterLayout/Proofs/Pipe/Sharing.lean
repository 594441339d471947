import FlutterLayout.Proofs.Pipe.Merges

/-!
# Sharing — the walk that takes redundant builders out

The walk changes the tree while it goes down.  Two things make it a run of merges all the same:

* the scope it carries is right in the tree as it is (`ScopeAt`), whatever was taken out before;
* it takes out nothing but what lies strictly below the widget it is at (`Merged.builder`), so neither the
  way down to it nor the references it has yet to visit are touched.
-/

namespace FlutterLayout.Pipe

open List
open Relation (ReflTransGen TransGen)

variable {α : Type} {t t' : Tree α} {root id u x : WidgetId} {w : Widget} {r : Reference} {scope inner : Scope}
  {log : List Merger} {n : Nat} {s s' : Sharing α} {a : Active}

/-! ## Runs of the walk -/

/-- Visits one reference of `id`: takes redundant builders out of its slot and goes on below. -/
def visitReference (fuel : Nat) (scope : Scope) (id : WidgetId) (r : Reference) : SharingM α Unit := do
  let inner ← scope.leaving r.binds
  let size := (← get).tree.size
  let target ← modifyGet (splice inner id r.slot size r.id)
  shareBelow fuel inner target

def scopeBelow (scope : Scope) (id : WidgetId) (w : Widget) : Scope :=
  match w.subscription? with
  | some s => scope.enter s id
  | none => scope

theorem run_shareBelow_succ (fuel : Nat) : (shareBelow (fuel + 1) scope id).run.run s = match s.tree.get? id with
      | none => (.ok (), s)
      | some w => (w.references.forM (visitReference fuel (scopeBelow scope id w) id)).run.run s := by
  rw [shareBelow]
  change ((match s.tree.get? id with
    | none => pure ()
    | some w => w.references.forM (visitReference fuel (scopeBelow scope id w) id) :
      SharingM α Unit).run.run s) = _
  cases s.tree.get? id with
  | none | some => rfl

theorem run_visitReference (fuel : Nat) : (visitReference fuel scope id r).run.run s = match scope.leaving r.binds with
      | .error e => (.error e, s) | .ok inner =>
        (shareBelow fuel inner (splice inner id r.slot s.tree.size r.id s).1).run.run
          (splice inner id r.slot s.tree.size r.id s).2 := by
  unfold visitReference
  cases scope.leaving r.binds with
  | error | ok => rfl

theorem run_forM_cons {f : Reference → SharingM α Unit} :
    ((r :: rs).forM f).run.run s
      = match (f r).run.run s with
        | (.ok (), s') => (rs.forM f).run.run s'
        | (.error e, s') => (.error e, s') := by
  change ((f r >>= fun _ => rs.forM f).run.run s) = _
  rw [ExceptT.run_bind, StateT.run_bind]
  cases (f r).run.run s with
  | mk result s' => cases result <;> rfl

/-! ## Scopes -/

/-- Every active subscription is carried by a builder above `u`, and nothing it mentions is bound between. -/
structure Carried (root : WidgetId) (t : Tree α) (a : Active) (u : WidgetId) : Prop where
  reaches : t.Reaches root a.owner
  carries : ∃ w s, t.get? a.owner = some w ∧ w.subscription? = some s ∧ s.key = a.key ∧ s.source = a.source
  path : ReflTransGen (Descends t (Clear a.source)) a.owner u

def ScopeAt (root : WidgetId) (t : Tree α) (scope : Scope) (u : WidgetId) : Prop :=
  ∀ a ∈ scope, Carried root t a u

theorem Carried.above (h : Carried root t a u) : t.Reaches a.owner u :=
  .mono (fun _ _ hd => hd.holds) _ _ h.path

theorem mem_scopeBelow (ha : a ∈ scopeBelow scope id w) :
    a ∈ scope ∨ ∃ s, w.subscription? = some s ∧ a = ⟨s.key, s.source, id⟩ := by
  unfold scopeBelow at ha
  split at ha
  · rename_i s hs
    unfold Scope.enter at ha
    split at ha
    · exact .inl ha
    · rw [mem_append, mem_singleton] at ha
      exact ha.imp_right fun heq => ⟨s, hs, heq⟩
  · exact .inl ha

theorem scopeAt_scopeBelow (hscope : ScopeAt root t scope id) (hid : t.Reaches root id)
    (hw : t.get? id = some w) : ScopeAt root t (scopeBelow scope id w) id := by
  intro a ha
  rcases mem_scopeBelow ha with ha | ⟨s, hs, rfl⟩
  · exact hscope a ha
  · exact ⟨hid, ⟨w, s, hw, hs, rfl, rfl⟩, .refl⟩

/-- What leaves a slot is what is active above it and not mentioned by what is bound there. -/
theorem mem_leaving_iff (h : scope.leaving binds = .ok inner) : a ∈ inner ↔ a ∈ scope ∧ Clear a.source binds := by
  induction scope generalizing inner with
  | nil =>
    cases h
    simp
  | cons b scope ih =>
    unfold Scope.leaving at h
    split at h
    · cases h
    · rename_i mentioned hmention
      split at h
      · cases h
      · rename_i rest hrest
        cases h
        have hb : Clear b.source binds ↔ mentioned = false := by simp [Clear, hmention]
        rw [mem_cons, or_and_right, ← ih hrest]
        cases mentioned with
        | true => exact ⟨.inr, fun ha => ha.resolve_left fun h => Bool.noConfusion (hb.1 (h.1 ▸ h.2))⟩
        | false => exact mem_cons.trans (or_congr_left ⟨fun heq => ⟨heq, heq ▸ hb.2 rfl⟩, And.left⟩)

theorem Carried.of_merges (hcarried : Carried root t a u) (hm : Merges root t log t') (h : Shareable t root)
    (ho : a.owner ∉ taken log) (hu : u ∉ taken log) : Carried root t' a u := by
  have hureach := hcarried.reaches.trans hcarried.above
  have ho' := (hm.reaches_iff h).2 ⟨hcarried.reaches, ho⟩
  obtain ⟨w, s, hw, hs, hkey, hsource⟩ := hcarried.carries
  obtain ⟨f, -, hget, -⟩ := hm.get? h hw
  exact ⟨ho', ⟨_, _, hget, Widget.subscription?_relabel_iff.2 ⟨s, hs, rfl⟩, hkey, hsource⟩,
    hm.path h ho' ((hm.reaches_iff h).2 ⟨hureach, hu⟩) hcarried.path⟩

/-! ## Taking builders out of one slot -/

theorem redundant?_eq_some (h : redundant? t scope b = some (sub, c, o)) :
    (∃ w, t.get? b = some w ∧ w.subscription? = some sub ∧ w.wrapped = c) ∧ c ≠ .none ∧
      ∃ a ∈ scope, a.key = sub.key ∧ a.owner = o := by
  unfold redundant? at h
  split at h
  · cases h
  · rename_i w hw
    split at h
    · cases h
    · rename_i s' hs'
      split at h
      · cases h
      · rename_i hwrap
        obtain ⟨a, ha, hpair⟩ := Option.map_eq_some_iff.1 h
        cases hpair
        refine ⟨⟨w, hw, hs', rfl⟩, hwrap, a, mem_of_find?_eq_some ha, ?_, rfl⟩
        simpa using find?_some ha

theorem redundant_of_scopeAt (hid : t.Reaches root id)
    (hw : t.get? id = some w) (hr : r ∈ w.references) (hscope : ScopeAt root t inner id)
    (hclear : ∀ a ∈ inner, Clear a.source r.binds) (h : redundant? t inner r.id = some (sub, c, o)) :
    Redundant root t id r o sub c := by
  obtain ⟨hbuilder, hc, a, ha, hkey, rfl⟩ := redundant?_eq_some h
  obtain ⟨wo, so, hwo, hso, hsokey, hsource⟩ := (hscope a ha).carries
  have hsame : so.key = sub.key := hsokey.trans hkey
  have hsubsource : a.source = sub.source := hsource.symm.trans (Subscription.source_eq_of_key_eq hsame)
  refine ⟨hid, ⟨w, hw, hr⟩, hbuilder, hc, (hscope a ha).reaches, ⟨wo, so, hwo, hso, hsame⟩, ?_, ?_⟩
  · exact hsubsource ▸ (hscope a ha).path
  · exact hsubsource ▸ hclear a ha

structure Spliced (root : WidgetId) (t : Tree α) (n : Nat) (inner : Scope) (id : WidgetId) (r : Reference)
    (target : WidgetId) (log : List Merger) (t' : Tree α) (n' : Nat) : Prop where
  merges : Merges root t log t'
  count : n' = n + log.length
  builder : ∀ m ∈ log, t.Reaches r.id m.builder
  owner : ∀ m ∈ log, ∃ a ∈ inner, a.owner = m.owner
  parent : ∀ m ∈ log, m.parent = id
  below : t.Reaches r.id target
  scope : ScopeAt root t' inner id
  slot : ∃ w, t'.get? id = some w ∧ { r with id := target } ∈ w.references

theorem splice_spliced (fuel : Nat) (h : Shareable t root) (hid : t.Reaches root id)
    (hw : t.get? id = some w) (hr : r ∈ w.references) (hscope : ScopeAt root t inner id)
    (hclear : ∀ a ∈ inner, Clear a.source r.binds) (hrun : splice inner id r.slot fuel r.id ⟨t, n⟩ = (target, s')) :
    ∃ log, Spliced root t n inner id r target log s'.tree s'.removed := by
  have hstop : ∀ {t : Tree α} {w : Widget} {n : Nat} {r : Reference}, t.get? id = some w → r ∈ w.references →
      ScopeAt root t inner id → Spliced root t n inner id r r.id [] t n := by
    intro t w n r hw hr hscope
    exact ⟨.refl t, rfl, nofun, nofun, nofun, .refl, hscope, w, hw, hr⟩
  induction fuel generalizing t w n r with
  | zero =>
    cases hrun
    exact ⟨[], hstop hw hr hscope⟩
  | succ fuel ih =>
    unfold splice at hrun
    split at hrun
    · cases hrun
      exact ⟨[], hstop hw hr hscope⟩
    · rename_i sub c o hredundant
      have hred := redundant_of_scopeAt hid hw hr hscope hclear hredundant
      have hdown : t.Reaches r.id c := .single ((hred.holds_iff h).2 rfl)
      -- The slot holds what the builder wrapped, and the scope is as it was.
      have hslot : { r with id := c } ∈
          ((w.mapIds (redirect r.id c)).weaken (decide (id ≠ o) || sub.skipNullCheck)).references := by
        rw [Widget.references_weaken, Widget.references_mapIds hred.toWraps.keepsNone]
        exact mem_map.2 ⟨r, hr, by simp [Reference.mapId]⟩
      have hscope' : ScopeAt root (merge t id r o sub c) inner id := by
        intro a ha
        refine (hscope a ha).of_merges (.single hred) h ?_ ?_
        · intro hmem
          have heq : a.owner = r.id := mem_singleton.1 hmem
          have hcycle := TransGen.tail' (hscope a ha).above hred.toWraps.holds_builder
          exact h.acyclic hred.toWraps.reaches_builder (heq ▸ hcycle)
        · exact fun hmem => hred.toWraps.parent_ne h.toIsTree (mem_singleton.1 hmem)
      have hid' := (reaches_merge hred h).2 ⟨hid, hred.toWraps.parent_ne h.toIsTree⟩
      obtain ⟨log, hrest⟩ := ih (hred.shareable h) hid' (get?_merge hred.toWraps h.toIsTree hid hw)
        hslot hscope' hclear hrun
      have hcreach := hred.toWraps.reaches_builder.trans hdown
      have hback : ∀ {x : WidgetId}, (merge t id r o sub c).Reaches c x → t.Reaches r.id x :=
        fun hx => hdown.trans (reaches_of_merge hred.toWraps h.toIsTree hcreach hx)
      refine ⟨⟨r.id, o, id, sub.skipNullCheck⟩ :: log, .step hred hrest.merges, ?_, ?_, ?_, ?_, hback hrest.below,
        hrest.scope, hrest.slot⟩
      · have hcount : s'.removed = n + 1 + log.length := hrest.count
        rw [hcount, length_cons]
        omega
      · intro m hm
        rcases mem_cons.1 hm with rfl | hm
        · exact .refl
        · exact hback (hrest.builder m hm)
      · intro m hm
        rcases mem_cons.1 hm with rfl | hm
        · obtain ⟨-, -, a, ha, -, howner⟩ := redundant?_eq_some hredundant
          exact ⟨a, ha, howner⟩
        · exact hrest.owner m hm
      · exact forall_mem_cons.2 ⟨rfl, hrest.parent⟩

/-! ## The walk -/

theorem slot_eq_of_reaches (h : t.IsTree root) (hid : t.Reaches root id)
    (hw : t.get? id = some w) (hr : r ∈ w.references) (hr' : r' ∈ w.references) (hx : t.Reaches r.id x)
    (hx' : t.Reaches r'.id x) (hfound : ∃ w, t.get? x = some w) : r.slot = r'.slot := by
  have hheld : ∀ {q : WidgetId} {r : Reference}, t.Reaches root q → r ∈ w.references → t.Holds q r.id →
      (∃ w, t.get? r.id = some w) → q = id := by
    intro q r hq hr hqr hfound
    obtain ⟨wq, hwq, k, hk, hkid⟩ := Tree.exists_reference_of_holds hqr
    exact (h.held_once hq hid hwq hw hk hr hkid (hkid ▸ hfound)).1
  have hcycle : ∀ {r : Reference}, r ∈ w.references → ¬ t.Reaches r.id id := fun hr hback =>
    h.acyclic hid (TransGen.head' (Tree.holds_of_reference hw hr) hback)
  have hdown : ∀ {r : Reference}, r ∈ w.references → t.Reaches root r.id := fun hr =>
    hid.tail (Tree.holds_of_reference hw hr)
  induction hx with
  | refl =>
    rcases ReflTransGen.cases_tail hx' with heq | ⟨q, hq, hqr⟩
    · exact (h.held_once hid hid hw hw hr hr' heq hfound).2
    · exact absurd (hheld ((hdown hr').trans hq) hr hqr hfound ▸ hq) (hcycle hr')
  | tail hrq hqx ih =>
    rename_i q x
    rcases ReflTransGen.cases_tail hx' with rfl | ⟨q', hq', hqx'⟩
    · exact absurd (hheld ((hdown hr).trans hrq) hr' hqx hfound ▸ hrq) (hcycle hr)
    · obtain ⟨wq, hwq, k, hk, hkid⟩ := Tree.exists_reference_of_holds hqx
      obtain ⟨wq', hwq', k', hk', hkid'⟩ := Tree.exists_reference_of_holds hqx'
      have hqq := (h.held_once ((hdown hr).trans hrq) ((hdown hr').trans hq') hwq hwq' hk hk'
        (hkid.trans hkid'.symm) (hkid ▸ hfound)).1
      exact ih (hqq ▸ hq') ⟨wq, hwq⟩

/-- A run of merges that takes out what is `inside`, for builders that stay: those `fixed` beforehand, and
others inside. -/
structure Merged (root : WidgetId) (t : Tree α) (n : Nat) (inside fixed : WidgetId → Prop)
    (log : List Merger) (t' : Tree α) (n' : Nat) : Prop where
  merges : Merges root t log t'
  count : n' = n + log.length
  builder : ∀ m ∈ log, inside m.builder
  owner : ∀ m ∈ log, fixed m.owner ∨ (inside m.owner ∧ m.owner ∉ taken log)
  parent : ∀ m ∈ log, fixed m.parent ∨ (inside m.parent ∧ m.parent ∉ taken log)

namespace Merged

variable {inside inside' fixed fixed' : WidgetId → Prop} {n' : Nat}

theorem refl (t : Tree α) (n : Nat) : Merged root t n inside fixed [] t n :=
  ⟨.refl t, rfl, nofun, nofun, nofun⟩

theorem mono (h : Merged root t n inside fixed log t' n') (hinside : ∀ x, inside x → inside' x)
    (hfixed : ∀ x, fixed x → fixed' x) : Merged root t n inside' fixed' log t' n' where
  merges := h.merges
  count := h.count
  builder m hm := hinside _ (h.builder m hm)
  owner m hm := (h.owner m hm).imp (hfixed _) (.imp_left (hinside _))
  parent m hm := (h.parent m hm).imp (hfixed _) (.imp_left (hinside _))

theorem of_mem_taken (h : Merged root t n inside fixed log t' n') (hx : x ∈ taken log) : inside x := by
  obtain ⟨m, hm, rfl⟩ := mem_map.1 hx
  exact h.builder m hm

/-- One run after another: what stays in the first is not taken out in the second. -/
theorem trans (h : Merged root t n inside fixed log t1 n1) (h' : Merged root t1 n1 inside' fixed' log' t' n')
    (hinside : ∀ x, inside x → whole x) (hinside' : ∀ x, inside' x → whole x ∧ x ∉ taken log)
    (hlast : ∀ x, inside x → x ∉ taken log → x ∉ taken log') (hfixed : ∀ x, fixed x → stays x)
    (hfixed' : ∀ x, fixed' x → stays x ∨ (whole x ∧ x ∉ taken (log ++ log'))) :
    Merged root t n whole stays (log ++ log') t' n' := by
  have hfirst : ∀ x, fixed x ∨ (inside x ∧ x ∉ taken log) → stays x ∨ (whole x ∧ x ∉ taken (log ++ log')) := by
    rintro x (hx | ⟨hx, hnot⟩)
    · exact .inl (hfixed x hx)
    · refine .inr ⟨hinside x hx, ?_⟩
      rw [taken_append, mem_append, not_or]
      exact ⟨hnot, hlast x hx hnot⟩
  have hsecond : ∀ x, fixed' x ∨ (inside' x ∧ x ∉ taken log') → stays x ∨ (whole x ∧ x ∉ taken (log ++ log')) := by
    rintro x (hx | ⟨hx, hnot⟩)
    · exact hfixed' x hx
    · refine .inr ⟨(hinside' x hx).1, ?_⟩
      rw [taken_append, mem_append, not_or]
      exact ⟨(hinside' x hx).2, hnot⟩
  refine ⟨h.merges.trans h'.merges, ?_, forall_mem_append.2 ⟨?_, ?_⟩, forall_mem_append.2 ⟨?_, ?_⟩,
    forall_mem_append.2 ⟨?_, ?_⟩⟩
  · rw [h'.count, h.count, length_append]
    omega
  · exact fun m hm => hinside _ (h.builder m hm)
  · exact fun m hm => (hinside' _ (h'.builder m hm)).1
  · exact fun m hm => hfirst _ (h.owner m hm)
  · exact fun m hm => hsecond _ (h'.owner m hm)
  · exact fun m hm => hfirst _ (h.parent m hm)
  · exact fun m hm => hsecond _ (h'.parent m hm)

end Merged

def Stays (scope : Scope) (id x : WidgetId) : Prop :=
  x = id ∨ ∃ a ∈ scope, a.owner = x

theorem Spliced.merged (h : Spliced root t n inner id r target log t' n') :
    Merged root t n (· ∈ taken log) (Stays inner id) log t' n' where
  merges := h.merges
  count := h.count
  builder _ hm := mem_map_of_mem hm
  owner m hm := .inl (.inr (h.owner m hm))
  parent m hm := .inl (.inl (h.parent m hm))

def Readable (t : Tree α) (root : WidgetId) : Prop :=
  ∀ {u : WidgetId} {w : Widget} {r : Reference} {name : Text}, t.Reaches root u → t.get? u = some w →
    r ∈ w.references → name ∈ r.binds → Text.isUtf8 name = true

theorem mentionsAny_ok (source : Text) (h : ∀ name ∈ names, Text.isUtf8 name = true) :
    ∃ mentioned, Text.mentionsAny source names = .ok mentioned := by
  induction names with
  | nil => exact ⟨false, rfl⟩
  | cons name names ih =>
    have hrest := ih fun n hn => h n (mem_cons_of_mem _ hn)
    unfold Text.mentionsAny
    split
    · exact hrest
    · split
      · rename_i hbad
        simp [h name mem_cons_self] at hbad
      · split
        · exact ⟨true, rfl⟩
        · exact hrest

theorem leaving_ok (scope : Scope) (h : ∀ name ∈ binds, Text.isUtf8 name = true) :
    ∃ inner, scope.leaving binds = .ok inner := by
  induction scope with
  | nil => exact ⟨[], rfl⟩
  | cons a scope ih =>
    obtain ⟨mentioned, hmention⟩ := mentionsAny_ok a.source h
    obtain ⟨rest, hrest⟩ := ih
    refine ⟨if mentioned then rest else a :: rest, ?_⟩
    simp only [Scope.leaving, hmention, hrest]

theorem Readable.of_merges (hread : Readable t root) (hm : Merges root t log t') (h : Shareable t root) :
    Readable t' root := by
  induction hm with
  | refl => exact hread
  | step hr _ ih =>
    refine ih ?_ (hr.shareable h)
    intro u w q name hu hw hq hname
    obtain ⟨w', q', hw', hq', -, hbinds, -⟩ := exists_reference_of_merge hr.toWraps h.toIsTree hu hw hq
    exact hread ((reaches_merge hr h).1 hu).1 hw' hq' (hbinds ▸ hname)

def Walks (α : Type) (root : WidgetId) (fuel : Nat) : Prop :=
  ∀ {t : Tree α} {scope : Scope} {id : WidgetId} {n : Nat} {result : Except Text.UnreadableName Unit}
    {s' : Sharing α}, Shareable t root → t.Reaches root id → ScopeAt root t scope id →
      (shareBelow fuel scope id).run.run ⟨t, n⟩ = (result, s') →
        (∃ log, Merged root t n (TransGen t.Holds id) (Stays scope id) log s'.tree s'.removed) ∧
          (Readable t root → result = .ok ())

theorem not_reaches_of_slot (h : t.IsTree root) (hid : t.Reaches root id) (hw : t.get? id = some w)
    (hr : r ∈ w.references) (hx : t.Reaches r.id x) : ¬ t.Reaches x id := fun hback =>
  h.acyclic hid (TransGen.head' (Tree.holds_of_reference hw hr) (hx.trans hback))

theorem visitReference_merged (fuel : Nat) (hwalks : Walks α root fuel) (h : Shareable t root) (hid : t.Reaches root id)
    (hscope : ScopeAt root t scope id) (hw : t.get? id = some w) (hr : r ∈ w.references)
    (hrun : (visitReference fuel scope id r).run.run ⟨t, n⟩ = (result, s')) :
    (∃ log, Merged root t n (t.Reaches r.id) (Stays scope id) log s'.tree s'.removed) ∧
      (Readable t root → result = .ok ()) := by
  rw [run_visitReference] at hrun
  split at hrun
  · rename_i e hleaving
    cases hrun
    refine ⟨⟨[], .refl t n⟩, fun hread => ?_⟩
    obtain ⟨inner, hinner⟩ := leaving_ok scope fun name hname => hread hid hw hr hname
    rw [hleaving] at hinner
    cases hinner
  · rename_i inner hleaving
    have hinner : ∀ a ∈ inner, a ∈ scope ∧ Clear a.source r.binds := fun a ha => (mem_leaving_iff hleaving).1 ha
    cases hsplice : splice inner id r.slot t.size r.id ⟨t, n⟩ with
    | mk target s1 =>
      rw [hsplice] at hrun
      obtain ⟨log1, hspliced⟩ := splice_spliced t.size h hid hw hr (fun a ha => hscope a (hinner a ha).1)
        (fun a ha => (hinner a ha).2) hsplice
      have h1 := hspliced.merges.shareable h
      have hid1 : s1.tree.Reaches root id := by
        refine (hspliced.merges.reaches_iff h).2 ⟨hid, ?_⟩
        intro hmem
        obtain ⟨m, hm, heq⟩ := mem_map.1 hmem
        exact not_reaches_of_slot h.toIsTree hid hw hr (heq ▸ hspliced.builder m hm) .refl
      obtain ⟨w1, hw1, hslot⟩ := hspliced.slot
      have htarget : s1.tree.Reaches root target := hid1.tail (Tree.holds_of_reference hw1 hslot)
      have hscope1 : ScopeAt root s1.tree inner target := by
        intro a ha
        obtain ⟨hreach, hcarries, hpath⟩ := hspliced.scope a ha
        exact ⟨hreach, hcarries, hpath.tail ⟨w1, _, hw1, hslot, rfl, (hinner a ha).2⟩⟩
      obtain ⟨⟨log2, hmerged⟩, hok⟩ := hwalks h1 htarget hscope1 hrun
      refine ⟨⟨log1 ++ log2, ?_⟩, fun hread => hok (hread.of_merges hspliced.merges h)⟩
      have hback : ∀ {x : WidgetId}, s1.tree.Reaches target x → t.Reaches r.id x ∧ x ∉ taken log1 := by
        intro x hx
        exact ⟨hspliced.below.trans (hspliced.merges.reaches_of h htarget hx),
          ((hspliced.merges.reaches_iff h).1 (htarget.trans hx)).2⟩
      refine hspliced.merged.trans hmerged (fun x hx => ?_) (fun x hx => hback hx.to_reflTransGen)
        (fun x hx hnot => absurd hx hnot) ?_ ?_
      · obtain ⟨m, hm, rfl⟩ := mem_map.1 hx
        exact hspliced.builder m hm
      · exact fun x hx => hx.imp_right fun ⟨a, ha, howner⟩ => ⟨a, (hinner a ha).1, howner⟩
      · -- The slot stays, since it is above what is taken out below it.
        rintro x (rfl | ⟨a, ha, howner⟩)
        · refine .inr ⟨(hback .refl).1, ?_⟩
          rw [taken_append, mem_append, not_or]
          exact ⟨(hback .refl).2, fun hmem => h1.acyclic htarget (hmerged.of_mem_taken hmem)⟩
        · exact .inl (.inr ⟨a, (hinner a ha).1, howner⟩)

/-- What is yet to be visited of a widget is untouched by what was taken out below another slot. -/
theorem references_of_merges (h : Shareable t root) (hid : t.Reaches root id)
    (hw : t.get? id = some w) (hr : r ∈ w.references) (hm : Merges root t log t')
    (htaken : ∀ x ∈ taken log, t.Reaches r.id x) (hr' : r' ∈ w.references) (hne : r.slot ≠ r'.slot) :
    ∃ w', t'.get? id = some w' ∧ r' ∈ w'.references := by
  obtain ⟨f, hnone, hget, hskip⟩ := hm.get? h hw
  refine ⟨_, hget, ?_⟩
  have hkeep : f r'.id = r'.id := by
    rcases ReflTransGen.cases_head (hskip r'.id) with heq | ⟨y, ⟨hmem, -⟩, -⟩
    · exact heq.symm
    · exact absurd (slot_eq_of_reaches h.toIsTree hid hw hr hr' (htaken _ hmem) .refl
        (hm.found_of_mem_taken h hmem)) hne
  rw [Widget.references_weaken, Widget.references_mapIds hnone]
  exact mem_map.2 ⟨r', hr', by simp [Reference.mapId, hkeep]⟩

/-- The references of `id` are visited in turn, given what is known of the walk below each of them. -/
theorem visitAll_merged (fuel : Nat) (hwalks : Walks α root fuel) (rs : List Reference)
    (h : Shareable t root) (hid : t.Reaches root id)
    (hscope : ScopeAt root t scope id) (hw : t.get? id = some w) (hrs : ∀ r ∈ rs, r ∈ w.references)
    (hslots : rs.Pairwise fun r r' => r.slot ≠ r'.slot)
    (hrun : (rs.forM (visitReference fuel scope id)).run.run ⟨t, n⟩ = (result, s')) :
    (∃ log, Merged root t n (fun x => ∃ r ∈ rs, t.Reaches r.id x) (Stays scope id) log s'.tree s'.removed) ∧
      (Readable t root → result = .ok ()) := by
  induction rs generalizing t n w with
  | nil =>
    cases hrun
    exact ⟨⟨[], .refl t n⟩, fun _ => rfl⟩
  | cons r rs ih =>
    rw [run_forM_cons] at hrun
    have hr := hrs r mem_cons_self
    obtain ⟨hdist, hslots⟩ := pairwise_cons.1 hslots
    cases hfirst : (visitReference fuel scope id r).run.run ⟨t, n⟩ with
    | mk result1 s1 =>
      obtain ⟨⟨log1, hmerged1⟩, hok1⟩ := visitReference_merged fuel hwalks h hid hscope hw hr hfirst
      rw [hfirst] at hrun
      cases result1 with
      | error e =>
        cases hrun
        refine ⟨⟨log1, hmerged1.mono (fun x hx => ⟨r, mem_cons_self, hx⟩) fun x hx => hx⟩, ?_⟩
        exact fun hread => absurd (hok1 hread) nofun
      | ok a =>
        have h1 := hmerged1.merges.shareable h
        have habove : ∀ {x : WidgetId}, t.Reaches x id → x ∉ taken log1 := fun hx hmem =>
          not_reaches_of_slot h.toIsTree hid hw hr (hmerged1.of_mem_taken hmem) hx
        have hid1 := (hmerged1.merges.reaches_iff h).2 ⟨hid, habove .refl⟩
        have hscope1 : ScopeAt root s1.tree scope id := fun a ha =>
          (hscope a ha).of_merges hmerged1.merges h (habove (hscope a ha).above) (habove .refl)
        obtain ⟨f, -, hw1, -⟩ := hmerged1.merges.get? h hw
        have hrs1 : ∀ r' ∈ rs, r' ∈ ((w.mapIds f).weaken (allows log1 id)).references := by
          intro r' hr'
          obtain ⟨w', hw', hmem⟩ := references_of_merges h hid hw hr hmerged1.merges
            (fun x hx => hmerged1.of_mem_taken hx) (hrs r' (mem_cons_of_mem _ hr')) (hdist r' hr')
          rw [hw1] at hw'
          cases hw'
          exact hmem
        obtain ⟨⟨log2, hmerged2⟩, hok2⟩ := ih h1 hid1 hscope1 hw1 hrs1 hslots hrun
        refine ⟨⟨log1 ++ log2, ?_⟩, fun hread => hok2 (hread.of_merges hmerged1.merges h)⟩
        have hback : ∀ {x : WidgetId}, (∃ r' ∈ rs, s1.tree.Reaches r'.id x) →
            (∃ r' ∈ rs, t.Reaches r'.id x) ∧ x ∉ taken log1 := by
          rintro x ⟨r', hr', hx⟩
          have hreach := hid1.tail (Tree.holds_of_reference hw1 (hrs1 r' hr'))
          exact ⟨⟨r', hr', hmerged1.merges.reaches_of h hreach hx⟩,
            ((hmerged1.merges.reaches_iff h).1 (hreach.trans hx)).2⟩
        refine hmerged1.trans hmerged2 (fun x hx => ⟨r, mem_cons_self, hx⟩) (fun x hx => ?_) (fun x hx hnot hmem => ?_)
          (fun _ hx => hx) fun _ => .inl
        · obtain ⟨⟨r', hr', hx⟩, hnot⟩ := hback hx
          exact ⟨⟨r', mem_cons_of_mem _ hr', hx⟩, hnot⟩
        · -- Below different slots different builders are taken out.
          obtain ⟨⟨r', hr', hx'⟩, -⟩ := hback (hmerged2.of_mem_taken hmem)
          obtain ⟨v, hv⟩ := hmerged2.merges.found_of_mem_taken h1 hmem
          obtain ⟨v', hv'⟩ := (hmerged1.merges.exists_get? h).1 ⟨v, hv⟩
          exact hdist r' hr' (slot_eq_of_reaches h.toIsTree hid hw hr
            (hrs r' (mem_cons_of_mem _ hr')) hx hx' ⟨v', hv'⟩)

theorem walks (root : WidgetId) (fuel : Nat) : Walks α root fuel := by
  induction fuel with
  | zero =>
    intro t scope id n result s' h hid hscope hrun
    cases hrun
    exact ⟨⟨[], .refl t n⟩, fun _ => rfl⟩
  | succ fuel ih =>
    intro t scope id n result s' h hid hscope hrun
    rw [run_shareBelow_succ] at hrun
    dsimp only at hrun
    cases hw : t.get? id with
    | none =>
      rw [hw] at hrun
      cases hrun
      exact ⟨⟨[], .refl t n⟩, fun _ => rfl⟩
    | some w =>
      rw [hw] at hrun
      obtain ⟨⟨log, hmerged⟩, hok⟩ := visitAll_merged fuel ih w.references h hid
        (scopeAt_scopeBelow hscope hid hw) hw (fun r hr => hr) w.references_pairwise hrun
      refine ⟨⟨log, hmerged.mono ?_ ?_⟩, hok⟩
      · rintro x ⟨r, hr, hx⟩
        exact TransGen.head' (Tree.holds_of_reference hw hr) hx
      · rintro x (rfl | ⟨a, ha, rfl⟩)
        · exact .inl rfl
        · rcases mem_scopeBelow ha with ha | ⟨s, -, rfl⟩
          · exact .inr ⟨a, ha, rfl⟩
          · exact .inl rfl

/-- Sharing is a run of merges, in which no builder that stays for another is taken out.  It succeeds when all
bound names are readable. -/
theorem share_merges (h : Shareable t root) : ∃ log, Merges root t log (share t root).2 ∧ Separate log ∧
    (∀ k, (share t root).1 = .ok k → k = log.length) ∧ (Readable t root → (share t root).1 = .ok log.length) := by
  cases hrun : (shareBelow (t.size + 1) [] root).run.run (⟨t, 0⟩ : Sharing α) with
  | mk result s' =>
    obtain ⟨⟨log, hmerged⟩, hok⟩ := walks root (t.size + 1) h .refl (forall_mem_nil _) hrun
    have hshare : share t root = (result.map fun _ => s'.removed, s'.tree) := by
      unfold share
      rw [hrun]
    have hcount : s'.removed = log.length := by
      rw [hmerged.count]
      omega
    have hroot : root ∉ taken log := fun hmem => h.acyclic .refl (hmerged.of_mem_taken hmem)
    have hseparate : ∀ x, Stays [] root x ∨ (TransGen t.Holds root x ∧ x ∉ taken log) → x ∉ taken log := by
      rintro x ((rfl | ⟨a, ha, -⟩) | ⟨-, hnot⟩)
      · exact hroot
      · cases ha
      · exact hnot
    rw [hshare]
    refine ⟨log, hmerged.merges, ?_, ?_, ?_⟩
    · exact fun m hm => ⟨hseparate _ (hmerged.owner m hm), hseparate _ (hmerged.parent m hm)⟩
    · intro k hk
      cases result with
      | error e => cases hk
      | ok a =>
        cases hk
        exact hcount
    · intro hread
      rw [hok hread]
      exact congrArg Except.ok hcount

end FlutterLayout.Pipe
