import FlutterLayout.Pipe.Sharing
import FlutterLayout.Proofs.Widget.Relabel
import FlutterLayout.Proofs.Widget.Shape

/-!
# Merge — one redundant builder is taken out

`Redundant` says when a reactive builder may go: one with the same key stands above the slot that holds it,
and on the way down no name is bound anew that its source mentions.  `merge` is the tree without it.
-/

namespace FlutterLayout

open FlutterLayout.Tree Widget

def Widget.weaken (flag : Bool) (w : Widget) : Widget :=
  { w with listens := w.listens.map fun s => { s with skipNullCheck := s.skipNullCheck && flag } }

namespace Widget

variable {w : Widget} {a b flag : Bool} {f : WidgetId → WidgetId}

@[simp] theorem weaken_true : w.weaken true = w := by
  cases w with
  | mk => simp [weaken]

theorem weaken_weaken : (w.weaken a).weaken b = w.weaken (a && b) := by
  simp [weaken, Function.comp_def, Bool.and_assoc]

theorem mapIds_weaken : (w.weaken a).mapIds f = (w.mapIds f).weaken a := rfl

@[simp] theorem references_weaken : (w.weaken a).references = w.references := rfl

@[simp] theorem subscription?_mapIds : (w.mapIds f).subscription? = w.subscription? := rfl

theorem subscription?_weaken : (w.weaken flag).subscription?
    = w.subscription?.map fun s => { s with skipNullCheck := s.skipNullCheck && flag } := by
  unfold subscription? weaken
  split
  · rfl
  · rfl

theorem subscription?_relabel_iff : ((w.mapIds f).weaken flag).subscription? = some s ↔
      ∃ s', w.subscription? = some s' ∧ { s' with skipNullCheck := s'.skipNullCheck && flag } = s := by
  rw [subscription?_weaken, subscription?_mapIds, Option.map_eq_some_iff]

theorem put_weaken : (w.weaken a).put slot c = (w.put slot c).weaken a := by
  cases slot <;> rfl

end Widget

namespace Pipe

open Relation (ReflTransGen)

theorem Subscription.head?_key (s : Subscription) : s.key.head? = s.kind.name.head? := by
  unfold Subscription.key
  cases s.kind <;> rfl

theorem Subscription.source_eq_of_key_eq {s s' : Subscription} (h : s.key = s'.key) : s.source = s'.source := by
  have hkinds : ∀ k k' : Kind, k.name.head? = k'.name.head? → k = k' := by
    intro k k'
    cases k <;> cases k' <;> decide
  have hkind : s.kind = s'.kind := hkinds _ _ (by rw [← s.head?_key, h, s'.head?_key])
  unfold Subscription.key at h
  rw [hkind] at h
  exact List.append_cancel_left h

variable {α : Type} {t : Tree α} {root u v x y : WidgetId} {w : Widget}

/-! ## When a builder may go -/

def Clear (source : Text) (binds : List Text) : Prop :=
  Text.mentionsAny source binds = .ok false

/-- `u` holds `v` in a slot under which the names that are bound are harmless. -/
def Descends (t : Tree α) (harmless : List Text → Prop) (u v : WidgetId) : Prop :=
  ∃ w r, t.get? u = some w ∧ r ∈ w.references ∧ r.id = v ∧ harmless r.binds

variable {harmless : List Text → Prop}

theorem Descends.holds (h : Descends t harmless u v) : t.Holds u v := by
  obtain ⟨w, r, hw, hr, rfl, -⟩ := h
  exact holds_of_reference hw hr

/-- The widgets below the root form a tree, and reactive builders are nothing but builders. -/
structure Shareable (t : Tree α) (root : WidgetId) : Prop extends t.IsTree root where
  builder : ∀ {x : WidgetId} {w : Widget} {s : Subscription}, t.Reaches root x → t.get? x = some w →
    w.subscription? = some s → w.properties = [] ∧ w.binds = [s.valueName, s.snapshotName]

/-- The builder in slot `r` of `p` wraps `c`, and `o` above it carries a subscription with the same key. -/
structure Redundant (root : WidgetId) (t : Tree α) (p : WidgetId) (r : Reference) (o : WidgetId)
    (s : Subscription) (c : WidgetId) : Prop where
  parent : t.Reaches root p
  holds : ∃ w, t.get? p = some w ∧ r ∈ w.references
  builder : ∃ w, t.get? r.id = some w ∧ w.subscription? = some s ∧ w.wrapped = c
  wraps : c ≠ WidgetId.none
  owner : t.Reaches root o
  carries : ∃ w s', t.get? o = some w ∧ w.subscription? = some s' ∧ s'.key = s.key
  path : ReflTransGen (Descends t (Clear s.source)) o p
  clear : Clear s.source r.binds

def merge (t : Tree α) (p : WidgetId) (r : Reference) (o : WidgetId) (s : Subscription) (c : WidgetId) :
    Tree α :=
  (mergeInto t o s).modify p fun w => w.put r.slot c

variable {p o c : WidgetId} {r : Reference} {s : Subscription}

structure Wraps (root : WidgetId) (t : Tree α) (p : WidgetId) (r : Reference) (c : WidgetId) : Prop where
  parent : t.Reaches root p
  holds : ∃ w, t.get? p = some w ∧ r ∈ w.references
  wrapper : ∃ w, t.get? r.id = some w ∧ w.wrapped = c
  child : c ≠ WidgetId.none

theorem Redundant.toWraps (hr : Redundant root t p r o s c) : Wraps root t p r c where
  parent := hr.parent
  holds := hr.holds
  wrapper := hr.builder.imp fun _ hw => ⟨hw.1, hw.2.2⟩
  child := hr.wraps

namespace Wraps

section Slots

variable (hr : Wraps root t p r c)
include hr

theorem holds_builder : t.Holds p r.id := by
  obtain ⟨w, hw, hmem⟩ := hr.holds
  exact holds_of_reference hw hmem

theorem reaches_builder : t.Reaches root r.id :=
  hr.parent.tail hr.holds_builder

theorem ne_none : r.id ≠ .none := by
  obtain ⟨w, hw, -⟩ := hr.wrapper
  exact ne_none_of_get? hw

theorem holds_child : t.Holds r.id c := by
  obtain ⟨w, hw, rfl⟩ := hr.wrapper
  exact holds_iff.2 ⟨w, hw, by simp [held, hr.child]⟩

theorem keepsNone : KeepsNone (redirect r.id c) :=
  keepsNone_redirect hr.ne_none hr.child

variable (h : t.IsTree root)
include h

theorem parent_ne : p ≠ r.id := by
  intro heq
  exact h.acyclic hr.reaches_builder (.single (heq ▸ hr.holds_builder))

theorem child_ne : c ≠ r.id := by
  intro heq
  exact h.acyclic hr.reaches_builder (.single (heq ▸ hr.holds_child))

theorem root_ne : root ≠ r.id := by
  intro heq
  exact h.root_free hr.parent (heq ▸ hr.holds_builder)

theorem slot_unique (hu : t.Reaches root u) (hw : t.get? u = some w) (hq : q ∈ w.references)
    (hid : q.id = r.id) : u = p ∧ q.slot = r.slot := by
  obtain ⟨wp, hwp, hmem⟩ := hr.holds
  obtain ⟨wb, hwb, -⟩ := hr.wrapper
  exact h.held_once hu hr.parent hw hwp hq hmem hid ⟨wb, hid ▸ hwb⟩

end Slots

end Wraps

theorem Redundant.holds_iff (hr : Redundant root t p r o s c) (h : Shareable t root) : t.Holds r.id v ↔ v = c := by
  obtain ⟨w, hw, hs, rfl⟩ := hr.builder
  have hwrap := hr.wraps
  rw [holds_iff]
  simp [hw, held, (h.builder hr.toWraps.reaches_builder hw hs).1, hwrap]

/-! ## The widgets after a merge -/

@[simp] theorem size_merge : (merge t p r o s c).size = t.size := by
  simp [merge, mergeInto]

@[simp] theorem deferred_merge : (merge t p r o s c).deferred = t.deferred := by
  simp [merge, mergeInto]

@[simp] theorem isSome_get?_merge : ((merge t p r o s c).get? x).isSome = (t.get? x).isSome := by
  have hmodify : ∀ {t : Tree α} {id : WidgetId} {f : Widget → Widget},
      ((t.modify id f).get? x).isSome = (t.get? x).isSome := by
    intro t id f
    by_cases hid : x = id
    · rw [hid, get?_modify_self, Option.isSome_map]
    · rw [get?_modify_of_ne _ hid]
  rw [merge, mergeInto, hmodify, hmodify]

theorem exists_get?_merge : (∃ w, (merge t p r o s c).get? x = some w) ↔ ∃ w, t.get? x = some w := by
  simp only [← Option.isSome_iff_exists, isSome_get?_merge]

section Wrapping

variable (hr : Wraps root t p r c) (h : t.IsTree root)
include hr h

/-- A widget below the root has other ids in its slots, and its flag may be lowered. -/
theorem get?_merge (hx : t.Reaches root x) (hw : t.get? x = some w) : (merge t p r o s c).get? x
      = some ((w.mapIds (redirect r.id c)).weaken (decide (x ≠ o) || s.skipNullCheck)) := by
  have hflag : (mergeInto t o s).get? x = some (w.weaken (decide (x ≠ o) || s.skipNullCheck)) := by
    unfold mergeInto
    by_cases ho : x = o
    · subst ho
      rw [get?_modify_of_get? hw]
      simp [weaken]
    · rw [get?_modify_of_ne _ ho, hw]
      simp [ho]
  by_cases hp : x = p
  · subst hp
    obtain ⟨w', hw', hmem⟩ := hr.holds
    rw [hw] at hw'
    cases hw'
    have hput := put_eq_mapIds (c := c) hmem
      (fun q hq hid => (hr.slot_unique h hx hw hq hid).2) hr.ne_none
    rw [merge, get?_modify_of_get? hflag, put_weaken, hput]
  · have hsame : w.mapIds (redirect r.id c) = w := by
      refine mapIds_redirect_of_not_mem hr.ne_none ?_
      exact fun q hq hid => hp (hr.slot_unique h hx hw hq hid).1
    rw [merge, get?_modify_of_ne _ hp, hflag, hsame]

/-! ## The tree after a merge -/

theorem holds_merge (hu : t.Reaches root u) :
    (merge t p r o s c).Holds u v ↔ ∃ y, t.Holds u y ∧ redirect r.id c y = v := by
  unfold Holds children
  cases hw : t.get? u with
  | none =>
    have hnone := isSome_get?_merge (x := u) (t := t) (p := p) (r := r) (o := o) (s := s) (c := c)
    rw [hw, Option.isSome_none, Option.isSome_eq_false_iff, Option.isNone_iff_eq_none] at hnone
    simp [hnone]
  | some w =>
    rw [get?_merge hr h hu hw]
    simp [references_mapIds hr.keepsNone, Reference.mapId]

/-- Nothing but what hangs on the builder goes, and the builder does go. -/
theorem reaches_of_merge_root (hx : (merge t p r o s c).Reaches root x) : t.Reaches root x ∧ x ≠ r.id := by
  induction hx with
  | refl => exact ⟨.refl, hr.root_ne h⟩
  | tail _ hux ih =>
    rename_i u x
    obtain ⟨y, hy, rfl⟩ := (holds_merge hr h ih.1).1 hux
    by_cases heq : y = r.id
    · subst heq
      rw [redirect_self]
      exact ⟨(ih.1.tail hy).tail hr.holds_child, hr.child_ne h⟩
    · rw [redirect_of_ne heq]
      exact ⟨ih.1.tail hy, heq⟩

theorem reaches_of_merge (hu : t.Reaches root u) (hx : (merge t p r o s c).Reaches u x) : t.Reaches u x := by
  induction hx with
  | refl => exact .refl
  | tail _ hyx ih =>
    rename_i y x
    obtain ⟨z, hz, rfl⟩ := (holds_merge hr h (hu.trans ih)).1 hyx
    by_cases heq : z = r.id
    · subst heq
      rw [redirect_self]
      exact (ih.tail hz).tail (hr.holds_child)
    · rw [redirect_of_ne heq]
      exact ih.tail hz

/-- The slot a reference of the new tree has in the old one: its own, or that of the builder. -/
theorem exists_reference_of_merge (hu : (merge t p r o s c).Reaches root u)
    (hw' : (merge t p r o s c).get? u = some w') (hq : q ∈ w'.references) :
    ∃ w q', t.get? u = some w ∧ q' ∈ w.references ∧ q'.slot = q.slot ∧ q'.binds = q.binds ∧
      q.id = redirect r.id c q'.id := by
  have hreach := (reaches_of_merge_root hr h hu).1
  cases hw : t.get? u with
  | none =>
    obtain ⟨y, hy, -⟩ := (holds_merge hr h hreach).1 (holds_of_reference hw' hq)
    obtain ⟨w, hsome, -⟩ := holds_iff.1 hy
    rw [hw] at hsome
    cases hsome
  | some w =>
    rw [get?_merge hr h hreach hw] at hw'
    cases hw'
    rw [references_weaken, references_mapIds hr.keepsNone] at hq
    obtain ⟨q', hq', rfl⟩ := List.mem_map.1 hq
    exact ⟨w, q', rfl, hq', rfl, rfl, rfl⟩

namespace Wraps

theorem holder_of_child (hv : t.Reaches root v) (hvc : t.Holds v c) (hc : ∃ w, t.get? c = some w) : v = r.id := by
  obtain ⟨wv, hwv, q, hq, hqc⟩ := exists_reference_of_holds hvc
  obtain ⟨wb, hwb, qb, hqb, hqbc⟩ := exists_reference_of_holds hr.holds_child
  exact (h.held_once hv hr.reaches_builder hwv hwb hq hqb (hqc.trans hqbc.symm) (hqc ▸ hc)).1

theorem isTree : (merge t p r o s c).IsTree root := by
  have hroot : ∀ {u : WidgetId}, (merge t p r o s c).Reaches root u → ¬ (merge t p r o s c).Holds u root := by
    intro u hu hheld
    have hreach := (reaches_of_merge_root hr h hu).1
    obtain ⟨y, hy, hyroot⟩ := (holds_merge hr h hreach).1 hheld
    by_cases heq : y = r.id
    · rw [heq, redirect_self] at hyroot
      exact h.root_free hr.reaches_builder (hyroot ▸ hr.holds_child)
    · rw [redirect_of_ne heq] at hyroot
      exact h.root_free hreach (hyroot ▸ hy)
  have honce : ∀ {u v : WidgetId} {wu wv : Widget} {q q' : Reference}, (merge t p r o s c).Reaches root u →
      (merge t p r o s c).Reaches root v → (merge t p r o s c).get? u = some wu →
        (merge t p r o s c).get? v = some wv → q ∈ wu.references → q' ∈ wv.references → q.id = q'.id →
          (∃ w, (merge t p r o s c).get? q.id = some w) → u = v ∧ q.slot = q'.slot := by
    intro u v wu wv q q' hu hv hwu hwv hq hq' hid hfound
    obtain ⟨hureach, hune⟩ := reaches_of_merge_root hr h hu
    obtain ⟨hvreach, hvne⟩ := reaches_of_merge_root hr h hv
    obtain ⟨wu0, q0, hwu0, hq0, hslot, -, hqid⟩ := exists_reference_of_merge hr h hu hwu hq
    obtain ⟨wv0, q0', hwv0, hq0', hslot', -, hqid'⟩ := exists_reference_of_merge hr h hv hwv hq'
    have hthere := exists_get?_merge.1 hfound
    rw [← hslot, ← hslot']
    by_cases hb : q0.id = r.id
    · obtain ⟨hup, hus⟩ := hr.slot_unique h hureach hwu0 hq0 hb
      rw [hb, redirect_self] at hqid
      by_cases hb' : q0'.id = r.id
      · obtain ⟨hvp, hvs⟩ := hr.slot_unique h hvreach hwv0 hq0' hb'
        exact ⟨hup.trans hvp.symm, hus.trans hvs.symm⟩
      · rw [redirect_of_ne hb', ← hid, hqid] at hqid'
        exact absurd (hr.holder_of_child h hvreach (hqid' ▸ holds_of_reference hwv0 hq0') (hqid ▸ hthere)) hvne
    · rw [redirect_of_ne hb] at hqid
      by_cases hb' : q0'.id = r.id
      · rw [hb', redirect_self, ← hid] at hqid'
        rw [hqid'] at hqid hthere
        exact absurd (hr.holder_of_child h hureach (hqid ▸ holds_of_reference hwu0 hq0) hthere) hune
      · rw [redirect_of_ne hb'] at hqid'
        rw [hqid] at hid hthere
        exact h.held_once hureach hvreach hwu0 hwv0 hq0 hq0' (hid.trans hqid') hthere
  refine ⟨honce, hroot, fun hu => not_transGen_self hroot ?_ hu⟩
  intro u v x hu hv hux hvx hx
  obtain ⟨wu, hwu, q, hq, rfl⟩ := exists_reference_of_holds hux
  obtain ⟨wv, hwv, q', hq', hid⟩ := exists_reference_of_holds hvx
  exact (honce hu hv hwu hwv hq hq' hid.symm hx).1

theorem reference_eq (hu : t.Reaches root u) (hw : t.get? u = some w) (hq : q ∈ w.references) (hid : q.id = r.id) :
    u = p ∧ q = r := by
  obtain ⟨rfl, hslot⟩ := hr.slot_unique h hu hw hq hid
  obtain ⟨w', hw', hmem⟩ := hr.holds
  rw [hw] at hw'
  cases hw'
  have hnodup : (w.references.map Reference.slot).Nodup := List.pairwise_map.2 w.references_pairwise
  exact ⟨rfl, List.inj_on_of_nodup_map hnodup hq hmem hslot⟩

theorem descends_of_ne (hu : t.Reaches root u) (hd : Descends t harmless u v) (hv : v ≠ r.id) :
    Descends (merge t p r o s c) harmless u v := by
  obtain ⟨w, q, hw, hq, rfl, hclear⟩ := hd
  refine ⟨_, q.mapId (redirect r.id c), get?_merge hr h hu hw, ?_, redirect_of_ne hv, hclear⟩
  rw [references_weaken, references_mapIds hr.keepsNone]
  exact List.mem_map_of_mem hq

theorem descends_child (hclear : harmless r.binds) : Descends (merge t p r o s c) harmless p c := by
  obtain ⟨w, hw, hmem⟩ := hr.holds
  refine ⟨_, r.mapId (redirect r.id c), get?_merge hr h hr.parent hw, ?_, redirect_self _ _, hclear⟩
  rw [references_weaken, references_mapIds hr.keepsNone]
  exact List.mem_map_of_mem hmem

end Wraps

end Wrapping

theorem get?_merge_of_not_reaches (hr : Redundant root t p r o s c) (hx : ¬ t.Reaches root x) :
    (merge t p r o s c).get? x = t.get? x := by
  have hp : x ≠ p := fun heq => hx (heq ▸ hr.parent)
  have ho : x ≠ o := fun heq => hx (heq ▸ hr.owner)
  rw [merge, get?_modify_of_ne _ hp, mergeInto, get?_modify_of_ne _ ho]

theorem reaches_merge (hr : Redundant root t p r o s c) (h : Shareable t root) :
    (merge t p r o s c).Reaches root x ↔ t.Reaches root x ∧ x ≠ r.id := by
  have hw := hr.toWraps
  refine ⟨reaches_of_merge_root hw h.toIsTree, ?_⟩
  rintro ⟨hx, hne⟩
  -- On the way down, the builder is passed over from the widget that holds it.
  have hpath : (x ≠ r.id → (merge t p r o s c).Reaches root x) ∧
      (x = r.id → (merge t p r o s c).Reaches root p) := by
    clear hne
    induction hx with
    | refl => exact ⟨fun _ => .refl, fun heq => absurd heq (hw.root_ne h.toIsTree)⟩
    | tail hu hux ih =>
      rename_i u x
      by_cases hub : u = r.id
      · have hxc : x = c := (hr.holds_iff h).1 (hub ▸ hux)
        refine ⟨fun _ => (ih.2 hub).tail ?_, fun heq => absurd (hxc.symm.trans heq) (hw.child_ne h.toIsTree)⟩
        exact (holds_merge hw h.toIsTree hr.parent).2 ⟨r.id, hw.holds_builder, by simp [hxc]⟩
      · refine ⟨fun hne => (ih.1 hub).tail ?_, ?_⟩
        · exact (holds_merge hw h.toIsTree hu).2 ⟨x, hux, redirect_of_ne hne⟩
        · intro heq
          obtain ⟨w, hw', q, hq, hid⟩ := exists_reference_of_holds hux
          exact (hw.slot_unique h.toIsTree hu hw' hq (hid.trans heq)).1 ▸ ih.1 hub
  exact hpath.1 hne

namespace Redundant

theorem shareable (hr : Redundant root t p r o s c) (h : Shareable t root) : Shareable (merge t p r o s c) root := by
  refine ⟨hr.toWraps.isTree h.toIsTree, ?_⟩
  intro x w' s' hx hw' hs'
  have hreach := ((reaches_merge hr h).1 hx).1
  obtain ⟨w, hw⟩ := exists_get?_merge.1 ⟨w', hw'⟩
  rw [get?_merge hr.toWraps h.toIsTree hreach hw] at hw'
  cases hw'
  obtain ⟨s0, hs0, rfl⟩ := subscription?_relabel_iff.1 hs'
  obtain ⟨hprops, hbinds⟩ := h.builder hreach hw hs0
  refine ⟨?_, hbinds⟩
  simp [weaken, mapIds, hprops]

theorem isProper (hr : Redundant root t p r o s c) (h : Shareable t root) (hproper : t.IsProper root) :
    (merge t p r o s c).IsProper root := by
  refine ⟨hr.toWraps.isTree h.toIsTree, ?_, ?_⟩
  · intro u v hu huv
    have hreach := ((reaches_merge hr h).1 hu).1
    obtain ⟨y, hy, rfl⟩ := (holds_merge hr.toWraps h.toIsTree hreach).1 huv
    refine exists_get?_merge.2 ?_
    by_cases heq : y = r.id
    · rw [heq, redirect_self]
      exact hproper.allocated hr.toWraps.reaches_builder ((hr.holds_iff h).2 rfl)
    · rw [redirect_of_ne heq]
      exact hproper.allocated hreach hy
  · intro u w' hu hw' hgen
    have hreach := ((reaches_merge hr h).1 hu).1
    obtain ⟨w, hw⟩ := exists_get?_merge.1 ⟨w', hw'⟩
    rw [get?_merge hr.toWraps h.toIsTree hreach hw] at hw'
    cases hw'
    have hnames : namesOf (w.mapIds (redirect r.id c)).properties = namesOf w.properties := by
      simp [namesOf, mapIds, Property.mapIds, Function.comp_def]
    change (namesOf (w.mapIds (redirect r.id c)).properties).Nodup
    rw [hnames]
    exact hproper.names_nodup hreach hw hgen

/-! ## Paths after a merge -/

theorem path_merge (hr : Redundant root t p r o s c) (h : Shareable t root)
    (hu : t.Reaches root u) (hune : u ≠ r.id) (hpath : ReflTransGen (Descends t harmless) u x) :
    (x ≠ r.id → ReflTransGen (Descends (merge t p r o s c) harmless) u x) ∧
      (x = r.id → ReflTransGen (Descends (merge t p r o s c) harmless) u p ∧ harmless r.binds) := by
  induction hpath with
  | refl => exact ⟨fun _ => .refl, fun heq => absurd heq hune⟩
  | tail hpath hstep ih =>
    rename_i y x
    have hy : t.Reaches root y := hu.trans (.mono (fun _ _ hd => hd.holds) _ _ hpath)
    by_cases hyb : y = r.id
    · have hxc : x = c := (hr.holds_iff h).1 (hyb ▸ hstep.holds)
      obtain ⟨hup, hclear⟩ := ih.2 hyb
      refine ⟨fun _ => ?_, fun heq => absurd (hxc.symm.trans heq) (hr.toWraps.child_ne h.toIsTree)⟩
      rw [hxc]
      exact hup.tail (hr.toWraps.descends_child h.toIsTree hclear)
    · refine ⟨fun hne => (ih.1 hyb).tail (hr.toWraps.descends_of_ne h.toIsTree hy hstep hne), ?_⟩
      intro hxb
      obtain ⟨w, q, hw, hq, hid, hclear⟩ := hstep
      obtain ⟨hyp, hqr⟩ := hr.toWraps.reference_eq h.toIsTree hy hw hq (hid.trans hxb)
      rw [hqr] at hclear
      rw [← hyp]
      exact ⟨hyp ▸ ih.1 hyb, hclear⟩

end Redundant

end Pipe
end FlutterLayout
