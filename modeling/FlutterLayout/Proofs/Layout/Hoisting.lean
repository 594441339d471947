import FlutterLayout.Proofs.Layout.Standing

/-!
# Hoisting — builders that move off a sequence

Builders that stand around a sequence are moved around the widget the sequence goes into.  A whole stack of
builders moves at once: only the innermost one gets another child, `run_restack`.  What the builders bind
stays in the scope of the sequence, because they are above its new place as well (`hoist_hoists`).
-/

namespace FlutterLayout.Layout

open List
open Relation (TransGen)
open Ledger (Evolves Rewires)

variable {G G' G₀ : Ledger} {t t₀ : Tree Deferral} {b b' : Build} {id outer hole : WidgetId}
  {target target₀ : Target}

/-! ## Moving a stack -/

theorem restack_append (front back : List WidgetId) (outer : WidgetId) :
    restack (front ++ back) outer = restack front outer >>= restack back := by
  induction front generalizing outer with
  | nil => rfl
  | cons b front ih =>
    simp only [cons_append, restack, ih]
    rfl

theorem owns_wrapped (h : G.Sound t) (hlive : G.Live t id) (hw : t.get? id = some w)
    (hgen : w.generator = Widget.reactiveGenerator) : G.Owns t id w.wrapped ∧ w.held = [w.wrapped] := by
  obtain ⟨hprops, -, hwrap, -⟩ := (h.fits hw).builder hgen
  have hheld : w.held = [w.wrapped] := by simp [Widget.held, hprops, hwrap]
  exact ⟨(Ledger.owns_iff hw).2 ⟨hlive.kept, hheld ▸ mem_singleton.2 rfl⟩, hheld⟩

/-- Of the builders around `inner` only the innermost one is changed: it wraps `outer`.  Where there are
none, nothing happens. -/
theorem run_restack {inner : WidgetId} {builders : List WidgetId} (fuel : Nat) (h : G.Sound b.tree)
    (htop : G.Free b.tree top) (hid : G.Reaches b.tree top id) (hpeel : peelWithin b.tree fuel id = (builders, inner))
    (hrun : (restack builders.reverse outer).run b = .ok (r, b')) : (inner = id ∧ r = outer ∧ b' = b) ∨
      ((r = id ∧ ∃ w, b.tree.get? id = some w ∧ w.isCustom = true) ∧
        ∃ last w, G.Reaches b.tree id last ∧ b.tree.get? last = some w ∧
          w.generator = Widget.reactiveGenerator ∧ w.wrapped = inner ∧
            b'.tree = b.tree.modify last fun w => { w with wrapped := outer }) := by
  induction fuel generalizing id builders b' r with
  | zero =>
    cases hpeel
    exact .inl ⟨rfl, run_pure hrun⟩
  | succ fuel ih =>
    unfold peelWithin at hpeel
    split at hpeel
    · rename_i w hw
      split at hpeel
      · rename_i hgen
        have hlive := h.live_of_reaches htop.live hid
        obtain ⟨howns, -⟩ := owns_wrapped h hlive hw hgen
        cases hrest : peelWithin b.tree fuel w.wrapped with
        | mk rest below =>
          rw [hrest] at hpeel
          cases hpeel
          rw [reverse_cons, restack_append] at hrun
          obtain ⟨r1, b1, hfirst, hlast⟩ := run_bind hrun
          obtain ⟨_, hchange, rfl⟩ := run_last hlast
          have htree := run_change hchange
          right
          refine ⟨⟨rfl, w, hw, ((h.fits hw).builder hgen).2.1⟩, ?_⟩
          rcases ih (hid.tail howns) hrest hfirst with ⟨rfl, rfl, rfl⟩ | hstack
          · exact ⟨r, w, .refl, hw, hgen, rfl, htree⟩
          · obtain ⟨⟨rfl, -⟩, last, v, hreach, hv, hvgen, hvwrapped, htree1⟩ := hstack
            refine ⟨last, v, .head howns hreach, hv, hvgen, hvwrapped, ?_⟩
            -- The builder further out wraps already what it is told to wrap.
            rw [htree, htree1]
            refine Tree.modify_eq_self ?_
            intro w' hw'
            have hne : r ≠ last := by
              rintro rfl
              exact h.acyclic htop hid (TransGen.head' howns hreach)
            rw [Tree.get?_modify_of_ne _ hne, hw] at hw'
            cases hw'
            rfl
      · cases hpeel
        exact .inl ⟨rfl, run_pure hrun⟩
    · cases hpeel
      exact .inl ⟨rfl, run_pure hrun⟩

/-! ## Moving the builders of a sequence -/

theorem hoist_cases (hrun : (hoist id outer).run b = .ok ((id', outer'), b')) :
    (b.tree.isSequence id' = true ∧ id' = (peel b.tree id).2 ∧
      (restack (peel b.tree id).1.reverse outer).run b = .ok (outer', b')) ∨
    (b.tree.isSequence (peel b.tree id).2 = false ∧ id' = id ∧ outer' = outer ∧ b' = b) := by
  obtain ⟨c, b1, hget, hrest⟩ := run_bind hrun
  rw [(run_get hget).1, (run_get hget).2] at hrest
  dsimp only at hrest
  split at hrest
  · rename_i hseq
    obtain ⟨r, hstack, ⟨⟩⟩ := run_last hrest
    exact .inl ⟨hseq, rfl, hstack⟩
  · rename_i hseq
    obtain ⟨⟨⟩, rfl⟩ := run_pure hrest
    exact .inr ⟨Bool.eq_false_iff.2 hseq, rfl, rfl, rfl⟩

/-- The part `id` was put in order beside a target: its builders are around the target where it is a
sequence, and `id'` is what goes into a slot of the hole. -/
structure Hoists (hole : WidgetId) (t : Tree Deferral) (G : Ledger) (id outer : WidgetId)
    (t' : Tree Deferral) (G' : Ledger) (id' outer' : WidgetId) : Prop where
  sound : G'.Sound t'
  evolves : Evolves [id, outer] t G t' G'
  free_id : G'.Free t' id'
  free_outer : G'.Free t' outer'
  ne : id' ≠ outer'
  reaches : G'.Reaches t' outer' hole
  closed : ∀ s, ¬ G'.scope outer' s
  bound : ∀ s, G'.scope id' s → G'.scope hole s
  part : id' = id ∨ ¬ G.Free t id'
  current : outer' = outer ∨ (outer' = id ∧ ∃ w, t'.get? outer' = some w ∧ w.isCustom = true)

section

variable (h : G.Sound b.tree) (hid : G.Free b.tree id) (houter : G.Free b.tree outer) (hne : id ≠ outer)
  (hhole : G.Reaches b.tree outer hole) (hclosed : ∀ s, ¬ G.scope id s) (hclosed' : ∀ s, ¬ G.scope outer s)
include h hid houter hne hhole hclosed hclosed'

theorem Hoists.refl : Hoists hole b.tree G id outer b.tree G id outer :=
  ⟨h, .refl _ _ _, hid, houter, hne, hhole, hclosed', fun s hs => absurd hs (hclosed s), .inl rfl, .inl rfl⟩

/-- The innermost builder of a stack gets another child: the stack is around `outer`, and what was below it
is loose. -/
theorem hoists_relink {inner : WidgetId} (hcustom : ∃ w, b.tree.get? id = some w ∧ w.isCustom = true)
    (hlast : G.Reaches b.tree id last) (hw : b.tree.get? last = some w)
    (hgen : w.generator = Widget.reactiveGenerator) (hinner : w.wrapped = inner)
    (hf : f w = { w with wrapped := outer }) (ht : b'.tree = b.tree.modify last f) :
    ∃ G', Hoists hole b.tree G id outer b'.tree G' inner id := by
  rw [ht]
  have hlive := h.live_of_reaches hid.live hlast
  obtain ⟨howns, hheld⟩ := owns_wrapped h hlive hw hgen
  rw [hinner] at howns hheld
  obtain ⟨hprops, hwcustom, -, s, hlistens, hbinds⟩ := (h.fits hw).builder hgen
  have hheld' : ({ w with wrapped := outer } : Widget).held = [outer] := by
    simp [Widget.held, hprops, houter.live.ne_none]
  have hr : Rewires b.tree G last w { w with wrapped := outer } [outer] [inner] := by
    refine ⟨hlive.kept, hw, ⟨rfl, rfl, rfl⟩, ?_, ?_, .single houter fun s hs => absurd hs (hclosed' s), ?_⟩
    · exact ⟨(h.fits hw).names, (h.fits hw).filled,
        fun _ => ⟨hprops, hwcustom, houter.live.ne_none, s, hlistens, hbinds⟩⟩
    · rw [hheld', hheld]
      exact (Perm.swap inner outer []).subperm
    · exact fun s hs => h.needs hlive.kept hw hs
  have hsound := hr.sound hf h
  have hfirst := hr.evolves hf h hid hlast
  have howns' : G.Owns (b.tree.modify last f) last outer :=
    (hr.owns_cases hf).2 (.inl ⟨rfl, hheld' ▸ mem_singleton.2 rfl⟩)
  have hid' : G.Free (b.tree.modify last f) id := hr.free_of_not_mem hf hid fun hmem => hne (mem_singleton.1 hmem)
  have hhole' : G.Reaches (b.tree.modify last f) outer hole :=
    hr.reaches_of_not_above hf (fun hreach => hne (h.top_unique hid houter hlast hreach)) hhole
  -- All below `outer` is in the scope of the builders now, which is the scope the inner part had.
  have hmore : ∀ p s, G.Owns (b.tree.modify last f) p outer → G.scope inner s →
      G.Provides (b.tree.modify last f) p s := by
    intro p s hp hs
    rw [hsound.unique hp howns']
    exact hr.provides hf (h.bound howns hs)
  have hgrow : Evolves [] (b.tree.modify last f) G (b.tree.modify last f)
      (G.grow (b.tree.modify last f) outer (G.scope inner)) := Ledger.evolves_grow howns'
  refine ⟨G.grow (b.tree.modify last f) outer (G.scope inner), ⟨Ledger.sound_grow hsound hmore,
    hfirst.trans hgrow (by simp), ?_, ?_, ?_, ?_, ?_, ?_, ?_, ?_⟩⟩
  · exact hgrow.free (hr.free_given hf h (mem_singleton.2 rfl)) not_mem_nil
  · exact hgrow.free hid' not_mem_nil
  · exact fun heq => hid.unheld last (heq ▸ howns)
  · exact ((hr.reaches_self hf hlast).tail howns').trans hhole'
  · exact fun s hs => hclosed s (hgrow.scope_free hid' not_mem_nil hs)
  · intro s hs
    refine Ledger.scope_grow hhole' ?_
    rcases hs with hs | ⟨-, hs⟩
    · exact hs
    · exact hs
  · exact .inr fun hfree => hfree.unheld last howns
  · exact .inr ⟨rfl, custom_of_evolves hfirst hcustom⟩

theorem hoist_hoists (hrun : (hoist id outer).run b = .ok ((id', outer'), b')) :
    ∃ G', Hoists hole b.tree G id outer b'.tree G' id' outer' := by
  rcases hoist_cases hrun with ⟨-, hid', hstack⟩ | ⟨-, rfl, rfl, rfl⟩
  · rcases run_restack b.tree.size h hid .refl rfl hstack with
      ⟨hsame, rfl, rfl⟩ | ⟨⟨rfl, hcustom⟩, last, w, hlast, hw, hgen, hinner, htree⟩
    · rw [hid'.trans hsame]
      exact ⟨G, .refl h hid houter hne hhole hclosed hclosed'⟩
    · rw [hid']
      exact hoists_relink h hid houter hne hhole hclosed hclosed' hcustom hlast hw hgen hinner rfl htree
  · exact ⟨G, .refl h hid houter hne hhole hclosed hclosed'⟩

end

/-! ## Runs of siblings -/

/-- A run of new parts beside `current`, whose texts use nothing that is bound outside of them. -/
structure Loose (size : Nat) (t : Tree Deferral) (G : Ledger) (current : WidgetId) (ids : List WidgetId) :
    Prop where
  nodup : ids.Nodup
  free : ∀ i ∈ ids, G.Free t i
  closed : ∀ i ∈ ids, ∀ s, ¬ G.scope i s
  new : ∀ i ∈ ids, (size : Int) < i
  apart : current ∉ ids

structure HoistsAll (hole : WidgetId) (t : Tree Deferral) (G : Ledger) (ids : List WidgetId)
    (outer : WidgetId) (t' : Tree Deferral) (G' : Ledger) (ids' : List WidgetId) (outer' : WidgetId) :
    Prop where
  sound : G'.Sound t'
  evolves : Evolves (outer :: ids) t G t' G'
  free : G'.Free t' outer'
  reaches : G'.Reaches t' outer' hole
  closed : ∀ s, ¬ G'.scope outer' s
  takes : Ledger.Takes t' G' hole ids'
  apart : outer' ∉ ids'
  parts : ∀ c ∈ ids', c ∈ outer :: ids ∨ ¬ G.Free t c
  current : outer' = outer ∨ (outer' ∈ ids ∧ ∃ w, t'.get? outer' = some w ∧ w.isCustom = true)

theorem hoistAll_hoistsAll (h : G.Sound b.tree)
    (houter : G.Free b.tree outer) (hhole : G.Reaches b.tree outer hole) (hclosed : ∀ s, ¬ G.scope outer s)
    (hloose : Loose size b.tree G outer ids) (hrun : (hoistAll ids outer).run b = .ok ((ids', outer'), b')) :
    ∃ G', HoistsAll hole b.tree G ids outer b'.tree G' ids' outer' := by
  induction ids generalizing G b outer ids' with
  | nil =>
    obtain ⟨⟨⟩, rfl⟩ := run_pure hrun
    exact ⟨G, h, Evolves.refl _ _ _, houter, hhole, hclosed, .nil, not_mem_nil,
      fun c hc => absurd hc not_mem_nil, .inl rfl⟩
  | cons id ids ih =>
    obtain ⟨⟨id1, outer1⟩, b1, hone, hrest⟩ := run_bind hrun
    obtain ⟨⟨more, outer2⟩, hmore, ⟨⟩⟩ := run_last hrest
    obtain ⟨hfresh, hnodup⟩ := nodup_cons.1 hloose.nodup
    have hne : id ≠ outer := fun heq => hloose.apart (heq ▸ mem_cons_self)
    obtain ⟨G1, hfirst⟩ := hoist_hoists h (hloose.free id mem_cons_self) houter hne hhole
      (hloose.closed id mem_cons_self) hclosed hone
    have hkeep : ∀ i ∈ ids, i ∉ [id, outer] := by
      intro i hi hmem
      rcases mem_cons.1 hmem with rfl | hmem
      · exact hfresh hi
      · exact hloose.apart (mem_cons_of_mem _ (mem_singleton.1 hmem ▸ hi))
    have hother : outer1 ∉ ids := by
      rcases hfirst.current with rfl | ⟨rfl, -⟩
      · exact fun hmem => hloose.apart (mem_cons_of_mem _ hmem)
      · exact hfresh
    have hwaiting : Loose size b1.tree G1 outer1 ids := by
      refine ⟨hnodup, ?_, ?_, ?_, hother⟩
      · exact fun i hi => hfirst.evolves.free (hloose.free i (mem_cons_of_mem _ hi)) (hkeep i hi)
      · intro i hi s hs
        have hfree := hloose.free i (mem_cons_of_mem _ hi)
        exact hloose.closed i (mem_cons_of_mem _ hi) s (hfirst.evolves.scope_free hfree (hkeep i hi) hs)
      · exact fun i hi => hloose.new i (mem_cons_of_mem _ hi)
    obtain ⟨G2, hlast⟩ := ih hfirst.sound hfirst.free_outer hfirst.reaches hfirst.closed hwaiting hmore
    -- The first part waits while the others are put in order.
    have hpart : id1 ∉ outer1 :: ids := by
      intro hmem
      rcases mem_cons.1 hmem with heq | hmem
      · exact hfirst.ne heq
      · rcases hfirst.part with rfl | hheld
        · exact hfresh hmem
        · exact hheld (hloose.free id1 (mem_cons_of_mem _ hmem))
    have hlive := hfirst.sound.live_of_reaches hfirst.free_outer.live hfirst.reaches
    have hnew : id1 ∉ more := fun hmem => (hlast.parts id1 hmem).elim hpart fun hnot => hnot hfirst.free_id
    have hcur : outer1 ∈ outer :: id :: ids := by
      rcases hfirst.current with rfl | ⟨rfl, -⟩
      · exact mem_cons_self
      · exact mem_cons_of_mem _ mem_cons_self
    have hevolves : Evolves (outer :: id :: ids) b.tree G b1.tree G1 := by
      refine (Evolves.refl _ _ _).trans hfirst.evolves ?_
      intro x hx
      left
      simp only [mem_cons, not_mem_nil, or_false] at hx ⊢
      tauto
    refine ⟨G2, hlast.sound, hevolves.trans hlast.evolves ?_, hlast.free, hlast.reaches, hlast.closed,
      ⟨?_, nodup_cons.2 ⟨hnew, hlast.takes.nodup⟩, ?_⟩, ?_, ?_, ?_⟩
    · intro x hx
      rcases mem_cons.1 hx with rfl | hx
      · exact .inl hcur
      · exact .inl (mem_cons_of_mem _ (mem_cons_of_mem _ hx))
    · exact forall_mem_cons.2 ⟨hlast.evolves.free hfirst.free_id hpart, hlast.takes.free⟩
    · intro c hc s hs
      rcases mem_cons.1 hc with rfl | hc
      · have hbefore := hlast.evolves.scope_free hfirst.free_id hpart hs
        exact .inl (hlast.evolves.scope_mono hlive (hfirst.bound s hbefore))
      · exact hlast.takes.bound c hc s hs
    · intro hmem
      rcases mem_cons.1 hmem with heq | hmem
      · rcases hlast.current with heq' | ⟨hids, -⟩
        · exact hfirst.ne (heq.symm.trans heq')
        · exact hpart (heq ▸ mem_cons_of_mem _ hids)
      · exact hlast.apart hmem
    · intro c hc
      have hback : ¬ G1.Free b1.tree c → c ∈ outer :: id :: ids ∨ ¬ G.Free b.tree c := by
        intro hnot
        by_cases hfree : G.Free b.tree c
        · left
          by_contra hout
          exact hnot (hevolves.free hfree hout)
        · exact .inr hfree
      rcases mem_cons.1 hc with rfl | hc
      · refine hfirst.part.imp_left ?_
        rintro rfl
        exact mem_cons_of_mem _ mem_cons_self
      · rcases hlast.parts c hc with hmem | hnot
        · left
          rcases mem_cons.1 hmem with rfl | hmem
          · exact hcur
          · exact mem_cons_of_mem _ (mem_cons_of_mem _ hmem)
        · exact hback hnot
    · rcases hlast.current with rfl | ⟨hmem, hcustom⟩
      · refine hfirst.current.imp_right ?_
        rintro ⟨rfl, hcustom⟩
        exact ⟨mem_cons_self, custom_of_evolves hlast.evolves hcustom⟩
      · exact .inr ⟨mem_cons_of_mem _ hmem, hcustom⟩

theorem finishRun_parts (h : Advances hole t₀ G₀ target₀ b.tree G target) (hclosed : ∀ s, ¬ G₀.scope target₀.current s)
    (hloose : Loose t₀.size b.tree G target.current ids)
    (hrun : (finishRun (ids, target)).run b = .ok ((ids', target'), b')) :
    ∃ G', Advances hole t₀ G₀ target₀ b'.tree G' target' ∧ Parts hole t₀ G₀ target₀ b'.tree G' target' ids' := by
  obtain ⟨⟨more, outer⟩, hall, ⟨⟩⟩ := run_last hrun
  obtain ⟨G', hhoists⟩ := hoistAll_hoistsAll h.sound h.stands.free h.stands.reaches
    (fun s hs => hclosed s (h.scope hs)) hloose hall
  have hmade : ∀ c ∈ target.current :: ids, c ∈ [target₀.current] ∨ ¬ G₀.Free t₀ c := by
    intro c hc
    rcases mem_cons.1 hc with rfl | hc
    · exact h.current.imp mem_singleton.2 Ledger.not_free_of_size_lt
    · exact .inr (Ledger.not_free_of_size_lt (hloose.new c hc))
  refine ⟨G', ⟨hhoists.sound, h.evolves.trans hhoists.evolves hmade, ?_, h.inner, ?_, ?_⟩,
    hhoists.takes, hhoists.apart, ?_⟩
  · refine ⟨hhoists.free, hhoists.reaches, h.stands.inner, ?_, plain_of_evolves hhoists.evolves h.stands.plain⟩
    rcases hhoists.current with heq | ⟨-, hcustom⟩
    · rcases h.stands.outer with hhole | hcustom
      · exact .inl (heq.trans hhole)
      · right
        change ∃ w, b'.tree.get? outer = some w ∧ w.isCustom = true
        rw [heq]
        exact custom_of_evolves hhoists.evolves hcustom
    · exact .inr hcustom
  · rcases hhoists.current with heq | ⟨hmem, -⟩
    · change outer = _ ∨ _ < outer
      rw [heq]
      exact h.current
    · exact .inr (hloose.new outer hmem)
  · exact fun hs => absurd hs (hhoists.closed _)
  · intro c hc
    rcases hhoists.parts c hc with hmem | hnot
    · exact hmade c hmem
    · exact h.made hnot

end FlutterLayout.Layout
