import FlutterLayout.Proofs.Pipe.Sharing

/-!
# Soundness — sharing keeps what a tree means

`Sound` collects what can be relied on after redundant builders were taken out:

* without builders, the tree is the same as before;
* in place of each builder that is gone another one stays above its slot, with the same key, and nothing
  between the two binds a name its source mentions;
* a builder does without data only if all builders it stands for did;
* the number that is given is the number of builders that are gone.
-/

namespace FlutterLayout.Pipe

open List Widget
open Relation (ReflTransGen TransGen)

variable {α : Type} {t t' : Tree α} {root x : WidgetId} {w : Widget} {name key : Text} {log : List Merger}

/-! ## Names -/

/-- At `x` the name stands for a variable of a builder with the key: of all that bind the name on the way
down to `x`, such a builder is the innermost. -/
inductive Visible (t : Tree α) (root : WidgetId) (name : Text) : WidgetId → Text → Prop
  | here {p : WidgetId} {w : Widget} {r : Reference} {s : Subscription} (hp : t.Reaches root p)
      (hw : t.get? p = some w) (hr : r ∈ w.references) (hs : w.subscription? = some s) (hname : name ∈ r.binds) :
      Visible t root name r.id s.key
  | above {p : WidgetId} {w : Widget} {r : Reference} {key : Text} (hp : t.Reaches root p)
      (hw : t.get? p = some w) (hr : r ∈ w.references) (hname : name ∉ r.binds) (habove : Visible t root name p key) :
      Visible t root name r.id key

/-- Builders share names exactly when they share keys, and nothing else binds such a name. -/
structure Named (t : Tree α) (root : WidgetId) : Prop where
  same : ∀ {x y : WidgetId} {w v : Widget} {s s' : Subscription}, t.Reaches root x → t.Reaches root y →
    t.get? x = some w → t.get? y = some v → w.subscription? = some s → v.subscription? = some s' →
      s.key = s'.key → w.binds = v.binds
  apart : ∀ {x y : WidgetId} {w v : Widget} {s s' : Subscription} {name : Text}, t.Reaches root x →
    t.Reaches root y → t.get? x = some w → t.get? y = some v → w.subscription? = some s →
      v.subscription? = some s' → name ∈ w.binds → name ∈ v.binds → s.key = s'.key
  alone : ∀ {x y : WidgetId} {w v : Widget} {s : Subscription} {r : Reference} {name : Text},
    t.Reaches root x → t.Reaches root y → t.get? x = some w → t.get? y = some v →
      w.subscription? = some s → v.subscription? = none → name ∈ w.binds → r ∈ v.references → name ∉ r.binds

def BoundAbove (t : Tree α) (root : WidgetId) (name : Text) (x : WidgetId) (key : Text) : Prop :=
  ∃ b w s, t.Reaches root b ∧ t.get? b = some w ∧ w.subscription? = some s ∧ name ∈ w.binds ∧ s.key = key ∧
    TransGen t.Holds b x

theorem binds_eq_of_mem_references (h : Shareable t root)
    (hx : t.Reaches root x) (hw : t.get? x = some w) (hs : w.subscription? = some s) (hr : r ∈ w.references) :
    r.binds = w.binds := by
  have hprops := (h.builder hx hw hs).1
  simp only [references, hprops, zipIdx_nil, flatMap_nil, append_nil] at hr
  split at hr
  · cases hr
  · rw [mem_singleton.1 hr]

/-- Where names are used as keys are, it is enough that some builder above binds the name. -/
theorem visible_iff_boundAbove (h : Shareable t root) (hnamed : Named t root) :
    Visible t root name x key ↔ BoundAbove t root name x key := by
  constructor
  · intro hvisible
    induction hvisible with
    | here hp hw hr hs hname =>
      rw [binds_eq_of_mem_references h hp hw hs hr] at hname
      exact ⟨_, _, _, hp, hw, hs, hname, rfl, .single (Tree.holds_of_reference hw hr)⟩
    | above hp hw hr _ _ ih =>
      obtain ⟨b, v, s, hb, hv, hs, hname, hkey, hbelow⟩ := ih
      exact ⟨b, v, s, hb, hv, hs, hname, hkey, hbelow.tail (Tree.holds_of_reference hw hr)⟩
  · rintro ⟨b, v, s, hb, hv, hs, hname, rfl, hbelow⟩
    induction hbelow with
    | single hbx =>
      obtain ⟨v', hv', r, hr, rfl⟩ := Tree.exists_reference_of_holds hbx
      rw [hv] at hv'
      cases hv'
      exact .here hb hv hr hs (binds_eq_of_mem_references h hb hv hs hr ▸ hname)
    | tail hbp hpx ih =>
      rename_i p x
      have hp : t.Reaches root p := hb.trans hbp.to_reflTransGen
      obtain ⟨w, hw, r, hr, rfl⟩ := Tree.exists_reference_of_holds hpx
      by_cases hmem : name ∈ r.binds
      · cases hs' : w.subscription? with
        | none => exact absurd hmem (hnamed.alone hb hp hv hw hs hs' hname hr)
        | some s' =>
          -- Another builder binds the name further in; it is one with the same key.
          have hmem' := hmem
          rw [binds_eq_of_mem_references h hp hw hs' hr] at hmem'
          rw [hnamed.apart hb hp hv hw hs hs' hname hmem']
          exact .here hp hw hr hs' hmem
      · exact .above hp hw hr hmem ih

/-! ## Soundness -/

def Removed (root : WidgetId) (t t' : Tree α) (x : WidgetId) : Prop :=
  t.Reaches root x ∧ ¬ t'.Reaches root x

/-- What can be relied on after `n` redundant builders were taken out of `t`. -/
structure Sound (root : WidgetId) (t : Tree α) (n : Nat) (t' : Tree α) : Prop where
  base_root : base t' root = base t root
  erased : ∀ {x : WidgetId}, (erase t).Reaches (base t root) x → (erase t').get? x = (erase t).get? x
  /-- Nothing changes but slots that held a removed builder, which hold what it wrapped, and flags of
  builders. -/
  widgets : ∀ {x : WidgetId} {w : Widget}, t.get? x = some w →
    ∃ f flag, t'.get? x = some ((w.mapIds f).weaken flag) ∧
      (∀ id, ReflTransGen (Skips t (Removed root t t')) id (f id)) ∧ (¬ IsBuilder t x → flag = true)
  size : t'.size = t.size
  deferred : t'.deferred = t.deferred
  /-- Another builder stays in place of each removed one, and waits for data if one of them did. -/
  served : ∃ into : WidgetId → WidgetId,
    (∀ {b : WidgetId}, Removed root t t' b → ∃ s, Serves root t t' (Removed root t t') b (into b) s) ∧
    ∀ {o : WidgetId} {w : Widget} {s : Subscription}, t'.Reaches root o → t.get? o = some w →
      w.subscription? = some s → ∃ w' s', t'.get? o = some w' ∧ w'.subscription? = some s' ∧
        (s'.skipNullCheck = true ↔ s.skipNullCheck = true ∧
          ∀ {b : WidgetId} {v : Widget} {s₀ : Subscription}, Removed root t t' b → into b = o →
            t.get? b = some v → v.subscription? = some s₀ → s₀.skipNullCheck = true)
  count : (buildersBelow t root).ncard = (buildersBelow t' root).ncard + n
  visible : Named t root → ∀ {x : WidgetId} {name key : Text}, t'.Reaches root x →
    (Visible t' root name x key ↔ Visible t root name x key)

theorem Merges.removed_iff (hm : Merges root t log t') (h : Shareable t root) :
    Removed root t t' x ↔ x ∈ taken log := by
  unfold Removed
  rw [hm.reaches_iff h]
  constructor
  · rintro ⟨hx, hnot⟩
    by_contra hmem
    exact hnot ⟨hx, hmem⟩
  · exact fun hmem => ⟨hm.reaches_of_mem_taken h hmem, fun hx => hx.2 hmem⟩

theorem Merges.removed_eq (hm : Merges root t log t') (h : Shareable t root) : Removed root t t' = (· ∈ taken log) :=
  funext fun _ => propext (hm.removed_iff h)

def ownerOf (log : List Merger) (b : WidgetId) : WidgetId :=
  ((log.find? fun m => m.builder = b).map Merger.owner).getD WidgetId.none

theorem ownerOf_eq (hnodup : (taken log).Nodup) (hm : m ∈ log) : ownerOf log m.builder = m.owner := by
  induction log with
  | nil => cases hm
  | cons k log ih =>
    obtain ⟨hfresh, hnodup⟩ := nodup_cons.1 hnodup
    rcases mem_cons.1 hm with rfl | hm
    · simp [ownerOf]
    · have hne : k.builder ≠ m.builder := fun heq => hfresh (heq ▸ mem_taken hm)
      rw [← ih hnodup hm]
      simp [ownerOf, hne]

theorem Merges.get?_inv (hm : Merges root t log t') (h : Shareable t root)
    (hw' : t'.get? x = some w') : ∃ w f flag, KeepsNone f ∧ t.get? x = some w ∧ w' = (w.mapIds f).weaken flag := by
  obtain ⟨w, hw⟩ := (hm.exists_get? h).1 ⟨w', hw'⟩
  obtain ⟨f, hnone, hget, -⟩ := hm.get? h hw
  rw [hw'] at hget
  exact ⟨w, f, _, hnone, hw, Option.some.inj hget⟩

theorem Named.of_merges (hnamed : Named t root) (hm : Merges root t log t') (h : Shareable t root) : Named t' root := by
  have hback : ∀ {x : WidgetId}, t'.Reaches root x → t.Reaches root x := fun hx => ((hm.reaches_iff h).1 hx).1
  constructor
  · intro x y w' v' s s' hx hy hw' hv' hs hs' hkey
    obtain ⟨w, f, flag, -, hw, rfl⟩ := hm.get?_inv h hw'
    obtain ⟨v, g, flag', -, hv, rfl⟩ := hm.get?_inv h hv'
    obtain ⟨s0, hs0, rfl⟩ := subscription?_relabel_iff.1 hs
    obtain ⟨s0', hs0', rfl⟩ := subscription?_relabel_iff.1 hs'
    have hbinds : w.binds = v.binds := hnamed.same (hback hx) (hback hy) hw hv hs0 hs0' hkey
    exact hbinds
  · intro x y w' v' s s' name hx hy hw' hv' hs hs' hname hname'
    obtain ⟨w, f, flag, -, hw, rfl⟩ := hm.get?_inv h hw'
    obtain ⟨v, g, flag', -, hv, rfl⟩ := hm.get?_inv h hv'
    obtain ⟨s0, hs0, rfl⟩ := subscription?_relabel_iff.1 hs
    obtain ⟨s0', hs0', rfl⟩ := subscription?_relabel_iff.1 hs'
    have hkey : s0.key = s0'.key := hnamed.apart (hback hx) (hback hy) hw hv hs0 hs0' hname hname'
    exact hkey
  · intro x y w' v' s r name hx hy hw' hv' hs hs' hname hr
    obtain ⟨w, f, flag, -, hw, rfl⟩ := hm.get?_inv h hw'
    obtain ⟨v, g, flag', hnone, hv, rfl⟩ := hm.get?_inv h hv'
    obtain ⟨s0, hs0, rfl⟩ := subscription?_relabel_iff.1 hs
    rw [subscription?_weaken, subscription?_mapIds, Option.map_eq_none_iff] at hs'
    rw [references_weaken, references_mapIds hnone] at hr
    obtain ⟨q, hq, rfl⟩ := mem_map.1 hr
    have hnot : name ∉ q.binds := hnamed.alone (hback hx) (hback hy) hw hv hs0 hs' hname hq
    exact hnot

section

variable (hm : Merges root t log t') (h : Shareable t root)
include hm h

theorem Merges.transGen_iff
    (hu : t'.Reaches root u) (hx : t'.Reaches root x) : TransGen t'.Holds u x ↔ TransGen t.Holds u x := by
  have hreach : t'.Reaches u x ↔ t.Reaches u x := by
    refine ⟨hm.reaches_of h hu, fun hux => ?_⟩
    have hany : ReflTransGen (Descends t fun _ => True) u x := by
      refine .mono ?_ _ _ hux
      intro a b hab
      obtain ⟨w, hw, r, hr, hid⟩ := Tree.exists_reference_of_holds hab
      exact ⟨w, r, hw, hr, hid, trivial⟩
    exact .mono (fun _ _ hd => hd.holds) _ _ (hm.path h hu hx hany)
  have hacyclic := (hm.shareable h).acyclic hu
  have hacyclic' := h.acyclic ((hm.reaches_iff h).1 hu).1
  constructor
  · intro hux
    rcases Relation.reflTransGen_iff_eq_or_transGen.1 (hreach.1 hux.to_reflTransGen) with heq | hux'
    · exact absurd (heq ▸ hux) hacyclic
    · exact hux'
  · intro hux
    rcases Relation.reflTransGen_iff_eq_or_transGen.1 (hreach.2 hux.to_reflTransGen) with heq | hux'
    · exact absurd (heq ▸ hux) hacyclic'
    · exact hux'

theorem Merges.boundAbove_iff (hsep : Separate log) (hnamed : Named t root) (hx : t'.Reaches root x) :
    BoundAbove t' root name x key ↔ BoundAbove t root name x key := by
  constructor
  · rintro ⟨b, w', s', hb, hw', hs', hname, hkey, hbx⟩
    obtain ⟨w, f, flag, -, hw, rfl⟩ := hm.get?_inv h hw'
    obtain ⟨s, hs, rfl⟩ := subscription?_relabel_iff.1 hs'
    exact ⟨b, w, s, ((hm.reaches_iff h).1 hb).1, hw, hs, hname, hkey, (hm.transGen_iff h hb hx).1 hbx⟩
  · rintro ⟨b, w, s, hb, hw, hs, hname, rfl, hbx⟩
    by_cases hmem : b ∈ taken log
    · -- The builder that stays in its place binds the same names.
      obtain ⟨m, hmlog, rfl⟩ := mem_map.1 hmem
      obtain ⟨s0, hserves, -⟩ := hm.serves h hsep hmlog
      obtain ⟨wb, hwb, hs0⟩ := hserves.builder
      rw [hw] at hwb
      cases hwb
      rw [hs] at hs0
      cases hs0
      obtain ⟨wo', so', hwo', hso', hkey⟩ := hserves.carries
      obtain ⟨wo, f, flag, -, hwo, rfl⟩ := hm.get?_inv h hwo'
      obtain ⟨so, hso, rfl⟩ := subscription?_relabel_iff.1 hso'
      have hbinds := hnamed.same ((hm.reaches_iff h).1 hserves.stays).1 hb hwo hw hso hs hkey
      obtain ⟨p, wp, r, hp, hwp, hr, hskip, hpath, -⟩ := hserves.slot
      refine ⟨m.owner, _, _, hserves.stays, hwo', hso', hbinds ▸ hname, hkey, ?_⟩
      have hskip' : t.Reaches r.id m.builder := by
        refine .mono ?_ _ _ hskip
        rintro a c ⟨hgone, v, hv, rfl⟩
        exact Tree.holds_iff.2 ⟨v, hv, by simp [held, hm.wrapped_ne_none h hgone hv]⟩
      have hpx : TransGen t.Holds p x := TransGen.head' (Tree.holds_of_reference hwp hr)
        (hskip'.trans hbx.to_reflTransGen)
      exact .trans_right (.mono (fun _ _ hd => hd.holds) _ _ hpath)
        ((hm.transGen_iff h hp hx).2 hpx)
    · have hb' := (hm.reaches_iff h).2 ⟨hb, hmem⟩
      obtain ⟨f, -, hget, -⟩ := hm.get? h hw
      exact ⟨b, _, _, hb', hget, subscription?_relabel_iff.2 ⟨s, hs, rfl⟩, hname, rfl,
        (hm.transGen_iff h hb' hx).2 hbx⟩

theorem Merges.sound (hsep : Separate log) : Sound root t log.length t' where
  base_root := hm.base_root h
  erased hx := by
    rcases reaches_of_erase h.toIsTree hx with rfl | ⟨hreach, hnot⟩
    · rfl
    · exact hm.get?_erase h hreach hnot
  widgets hw := by
    obtain ⟨f, -, hget, hskip⟩ := hm.get? h hw
    rw [hm.removed_eq h]
    refine ⟨f, _, hget, hskip, ?_⟩
    intro hnot
    refine allows_eq_true_iff.2 ?_
    rintro m hmem rfl
    obtain ⟨s, hserves, -⟩ := hm.serves h hsep hmem
    obtain ⟨w', s', hw', hs', -⟩ := hserves.carries
    exact absurd ((hm.isBuilder_iff h hserves.stays).1 ⟨w', s', hw', hs'⟩) hnot
  size := hm.size_eq
  deferred := hm.deferred_eq
  served := by
    have hnodup := hm.nodup_taken h
    refine ⟨ownerOf log, ?_, ?_⟩
    · intro b hb
      obtain ⟨m, hmem, rfl⟩ := mem_map.1 ((hm.removed_iff h).1 hb)
      rw [hm.removed_eq h, ownerOf_eq hnodup hmem]
      obtain ⟨s, hserves, -⟩ := hm.serves h hsep hmem
      exact ⟨s, hserves⟩
    · intro o w s _ hw hs
      obtain ⟨f, -, hget, -⟩ := hm.get? h hw
      refine ⟨_, _, hget, subscription?_relabel_iff.2 ⟨s, hs, rfl⟩, ?_⟩
      rw [Bool.and_eq_true, allows_eq_true_iff]
      refine and_congr_right fun _ => ⟨?_, ?_⟩
      · intro hall b v s0 hb howner hv hs0
        obtain ⟨m, hmem, rfl⟩ := mem_map.1 ((hm.removed_iff h).1 hb)
        obtain ⟨s1, hserves, hflag⟩ := hm.serves h hsep hmem
        obtain ⟨v', hv', hs1⟩ := hserves.builder
        rw [hv] at hv'
        cases hv'
        rw [hs0] at hs1
        cases hs1
        rw [hflag]
        exact hall m hmem ((ownerOf_eq hnodup hmem).symm.trans howner)
      · intro hall m hmem howner
        obtain ⟨s1, hserves, hflag⟩ := hm.serves h hsep hmem
        obtain ⟨v, hv, hs1⟩ := hserves.builder
        rw [← hflag]
        exact hall ((hm.removed_iff h).2 (mem_taken hmem)) ((ownerOf_eq hnodup hmem).trans howner) hv hs1
  count := hm.ncard_buildersBelow h
  visible hnamed x name key hx := by
    rw [visible_iff_boundAbove (hm.shareable h) (hnamed.of_merges hm h), visible_iff_boundAbove h hnamed]
    exact hm.boundAbove_iff h hsep hnamed hx

end

/-- Sharing is sound, and fails on no tree in which all bound names are readable. -/
theorem share_sound (h : Shareable t root) (hread : Readable t root) :
    ∃ n t', share t root = (.ok n, t') ∧ Sound root t n t' := by
  obtain ⟨log, hm, hsep, -, hok⟩ := share_merges h
  exact ⟨log.length, (share t root).2, Prod.ext (hok hread) rfl, hm.sound h hsep⟩

/-- A row under a builder, with a text in it under another builder of the same stream that does without
data. -/
def nestedBuilders : Tree Unit where
  widgets :=
    let s := Subscription.make .stream "user" "user"
    [builder s 2, { type := "Row", properties := [.ofWidgets childrenProperty [3]] },
      builder { s with skipNullCheck := true } 4, { type := "Text" }]

theorem share_sound_nestedBuilders :
    Shareable nestedBuilders 1 ∧ Readable nestedBuilders 1 ∧ (share nestedBuilders 1).1.toOption = some 1 ∧
      ∃ n t', share nestedBuilders 1 = (.ok n, t') ∧ Sound 1 nestedBuilders n t' := by
  have hwidgets : ∀ {x : WidgetId} {w : Widget}, nestedBuilders.get? x = some w → w ∈ nestedBuilders.widgets := by
    intro x w hw
    unfold Tree.get? at hw
    split at hw
    · exact List.mem_of_getElem? hw
    · cases hw
  have htree : nestedBuilders.HoldsOnce 1 := by decide +kernel
  have hbuilders : ∀ w ∈ nestedBuilders.widgets, ∀ s ∈ w.subscription?,
      w.properties = [] ∧ w.binds = [s.valueName, s.snapshotName] := by decide +kernel
  have hnames : ∀ w ∈ nestedBuilders.widgets, ∀ r ∈ w.references, ∀ name ∈ r.binds, Text.isUtf8 name = true := by
    decide +kernel
  have hshareable : Shareable nestedBuilders 1 :=
    ⟨htree.isTree, fun _ hw hs => hbuilders _ (hwidgets hw) _ hs⟩
  have hreadable : Readable nestedBuilders 1 := fun _ hw hr hname => hnames _ (hwidgets hw) _ hr _ hname
  exact ⟨hshareable, hreadable, by decide +kernel, share_sound hshareable hreadable⟩

end FlutterLayout.Pipe
