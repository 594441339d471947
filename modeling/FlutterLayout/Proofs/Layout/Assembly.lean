import FlutterLayout.Proofs.Layout.Documents
import FlutterLayout.Proofs.Pipe.Sharing
import FlutterLayout.Proofs.Widget.Journal

/-!
# Assembly — the complete tree of a document

A document is assembled in two stages.  The widgets are built, and then the actions that waited are
performed, which change nothing but texts.  `Rooted` holds after the first stage (`buildRoot_rooted`), and
every action keeps it (`performDeferral_rooted`), so it holds of the result (`assemble_rooted`).

A document is resolved by assembling it and taking redundant builders out.  The first gives a proper tree
(`Rooted.isProper`) in which builders are as they were made (`Rooted.shareable`), and the second keeps it one
(`Pipe.Merges.isProper`).
-/

namespace FlutterLayout

open List
open Relation (ReflTransGen TransGen)

namespace Layout

open Ledger (Rewires)

variable {G G' : Ledger} {t t' : Tree Deferral} {root x : WidgetId} {w w' : Widget}

/-! ## Complete trees -/

/-- The books of a tree whose construction has ended at `root`: nothing is assumed of the place where the
root stands. -/
structure Rooted (t : Tree Deferral) (G : Ledger) (root : WidgetId) : Prop where
  sound : G.Sound t
  free : G.Free t root
  closed : ∀ s, ¬ G.scope root s

namespace Rooted

section

variable (h : Rooted t G root)
include h

theorem reaches (hx : t.Reaches root x) : G.Reaches t root x := by
  induction hx with
  | refl => exact .refl
  | tail _ hp ih => exact ih.tail ⟨(h.sound.live_of_reaches h.free.live ih).kept, hp⟩

theorem live (hx : t.Reaches root x) : G.Live t x :=
  h.sound.live_of_reaches h.free.live (h.reaches hx)

theorem owns (hu : t.Reaches root u) (huv : t.Holds u v) : G.Owns t u v :=
  ⟨(h.live hu).kept, huv⟩

theorem isProper : t.IsProper root where
  held_once := by
    intro u v wu wv r s hu hv hwu hwv hr hs hid _
    have hur := h.owns hu (Tree.holds_of_reference hwu hr)
    have hvs := h.owns hv (Tree.holds_of_reference hwv hs)
    have huv : u = v := h.sound.unique hur (hid ▸ hvs)
    subst huv
    rw [hwu] at hwv
    cases hwv
    have hnodup := h.sound.nodup hur.1 hwu
    rw [← Widget.references_map_id] at hnodup
    exact ⟨rfl, congrArg Reference.slot (inj_on_of_nodup_map hnodup hr hs hid)⟩
  root_free hu hheld := h.free.unheld _ (h.owns hu hheld)
  acyclic hu := Tree.not_transGen_self (fun hu hheld => h.free.unheld _ (h.owns hu hheld))
    (fun hu hv hux hvx _ => h.sound.unique (h.owns hu hux) (h.owns hv hvx)) hu
  allocated hu huv := (h.sound.live (h.owns hu huv)).found
  names_nodup _ hw := (h.sound.fits hw).names

theorem bound (hx : t.Reaches root x) (hs : G.scope x s) :
    ∃ b v, t.Reaches root b ∧ TransGen t.Holds b x ∧ t.get? b = some v ∧ v.Carries s := by
  induction hx with
  | refl => exact absurd hs (h.closed s)
  | tail hp hpx ih =>
    rename_i p x
    rcases h.sound.bound (h.owns hp hpx) hs with hs | ⟨v, hv, hcarries⟩
    · obtain ⟨b, v, hb, hbp, hv, hcarries⟩ := ih hs
      exact ⟨b, v, hb, hbp.tail hpx, hv, hcarries⟩
    · exact ⟨p, v, hp, .single hpx, hv, hcarries⟩

theorem rewire (hr : Rewires t G u w w' [] []) (hf : f w = w') : Rooted (t.modify u f) G root :=
  ⟨hr.sound hf h.sound, hr.free_of_not_mem hf h.free not_mem_nil, h.closed⟩

end

end Rooted

/-! ## The root -/

variable {o : Options} {b b' : Build}

theorem listRoot_rooted {id : WidgetId} (h : Rooted b.tree G id) (hrun : (listRoot id).run b = .ok (outer, b')) :
    ∃ G', Rooted b'.tree G' outer := by
  rcases listRoot_cases hrun with ⟨column, b2, sequence, b3, hadd, hhoist, hput⟩ | ⟨-, rfl, rfl⟩
  · obtain ⟨G1, hnew, hcolumn⟩ := yields_add h.sound hadd rfl rfl rfl nofun
    have hne : id ≠ column := fun heq => Ledger.not_free_of_size_lt hnew.new (heq ▸ h.free)
    have hid := hnew.evolves.free h.free not_mem_nil
    have hclosed : ∀ s, ¬ G1.scope id s := fun s hs =>
      h.closed s (hnew.evolves.scope_free h.free not_mem_nil hs)
    obtain ⟨G2, hhoists⟩ := hoist_hoists hnew.sound hid hnew.free hne .refl hclosed hnew.closed hhoist
    obtain ⟨w, hw, hplain⟩ := plain_of_evolves hhoists.evolves ⟨_, hcolumn, nofun⟩
    have htakes : Ledger.Takes b3.tree G2 column [sequence] :=
      .single hhoists.free_id fun s hs => .inl (hhoists.bound s hs)
    have hr := Rewires.of_rewrites
      (rewrites_set w (.ofWidgets childrenProperty [sequence]) hplain (isFilled_widgets _)) hhoists.sound
      (hhoists.sound.live_of_reaches hhoists.free_outer.live hhoists.reaches) hw htakes
      fun s hs => absurd hs not_mem_nil
    rw [run_put hput]
    refine ⟨G2, hr.sound rfl hhoists.sound, hr.free_of_not_mem rfl hhoists.free_outer ?_, hhoists.closed⟩
    exact fun hmem => hhoists.ne (mem_singleton.1 hmem).symm
  · exact ⟨G, h⟩

theorem buildRoot_rooted
    (hrun : (buildRoot o fields comments e).run {} = .ok (root, b)) : ∃ G, Rooted b.tree G root := by
  obtain ⟨ids, target, b1, b2, hitem, hlist, hchange⟩ := buildRoot_cases hrun
  have hcourse := item_course _ hitem
  obtain ⟨id, G1, rfl, -, hnew⟩ | ⟨rfl, -⟩ := hcourse.makes Ledger.sound_blank
  swap
  · cases hcourse
  have hrooted : Rooted b1.tree G1 id := ⟨hnew.sound, hnew.free, hnew.closed⟩
  obtain ⟨G2, hroot⟩ := listRoot_rooted hrooted hlist
  obtain ⟨w, hw⟩ := hroot.free.live.found
  have hrw : Rewrites [] [] [] w { w with fields := w.fields ++ fields } :=
    rewrites_touch ⟨rfl, rfl, rfl, rfl, rfl, rfl⟩ fun s hs => .inl hs
  have hr := Rewires.of_rewrites hrw hroot.sound hroot.free.live hw .nil fun s hs => absurd hs not_mem_nil
  rw [run_change hchange]
  exact ⟨G2, hroot.rewire hr rfl⟩

/-! ## Waiting actions -/

/-- Construction has ended, so a step from one tree to the next drops nothing and may only add to the scope
of a widget. -/
structure Settles (t : Tree Deferral) (G : Ledger) (t' : Tree Deferral) (G' : Ledger) : Prop where
  gone : ∀ {x : WidgetId}, G'.gone x ↔ G.gone x
  alike : ∀ {x : WidgetId} {w : Widget}, t.get? x = some w → ∃ w', t'.get? x = some w' ∧ Alike w w'
  scope : ∀ {x : WidgetId} {s : Pipe.Subscription}, G.scope x s → G'.scope x s

namespace Settles

theorem refl (t : Tree Deferral) (G : Ledger) : Settles t G t G :=
  ⟨Iff.rfl, fun hw => ⟨_, hw, .refl _⟩, fun hs => hs⟩

theorem trans (h : Settles t G t' G') (h' : Settles t' G' t'' G'') : Settles t G t'' G'' where
  gone := h'.gone.trans h.gone
  alike hw := by
    obtain ⟨w1, hw1, halike1⟩ := h.alike hw
    obtain ⟨w2, hw2, halike2⟩ := h'.alike hw1
    exact ⟨w2, hw2, halike1.trans halike2⟩
  scope hs := h'.scope (h.scope hs)

theorem defers (h : Settles t G t' G') (hd : G.Defers t key outer condition) : G'.Defers t' key outer condition := by
  obtain ⟨w, hw, hasked⟩ := hd.asked
  obtain ⟨w', hw', halike⟩ := h.alike hw
  refine ⟨⟨w', hw', hasked.imp_right halike.isCustom.trans⟩, ?_⟩
  exact fun hkept s hs => h.scope (hd.bound (fun hgone => hkept (h.gone.2 hgone)) s hs)

end Settles

theorem rewrites_disableFirst? (h : disableFirst? condition w.properties = some ps) :
    Rewrites condition.subscriptions [] [] w { w with properties := ps } := by
  refine ⟨⟨rfl, rfl, rfl⟩, ?_, ?_, ?_⟩
  · intro hw
    refine ⟨?_, ?_, ?_⟩
    · intro hgen
      exact (namesOf_disableFirst? h).symm ▸ hw.names hgen
    · intro q hq
      rcases mem_of_disableFirst? h hq with hq | ⟨v, hvalue⟩
      · exact hw.filled q hq
      · exact hvalue ▸ isFilled_text v
    · intro hgen
      rw [(hw.builder hgen).1] at h
      cases h
  · obtain ⟨front, p, back, v, v', hvalue, hold, rfl⟩ := disableFirst?_eq_some h
    have hsame : ({ w with properties := front
        ++ { p with value := .text v', needs := condition.subscriptions ++ p.needs } :: back } : Widget).held
        = w.held := by
      simp [Widget.held, heldBy, hold, hvalue]
    rw [hsame]
  · obtain ⟨front, p, back, v, v', -, hold, rfl⟩ := disableFirst?_eq_some h
    intro s hs
    simp only [Widget.needed, hold, flatMap_append, flatMap_cons, mem_append] at hs ⊢
    tauto

theorem reaches_of_mem_chain (h : G.Sound t) (hx : x ∈ t.chain outer) : G.Reaches t outer x := by
  have hlast : ∀ {id : WidgetId}, x ∈ [id] → G.Reaches t id x := by
    intro id hmem
    rw [mem_singleton.1 hmem]
    exact .refl
  have hfrom : ∀ (fuel : Nat) (id : WidgetId), x ∈ t.chainFrom fuel id → G.Reaches t id x := by
    intro fuel
    induction fuel with
    | zero => exact fun id hmem => hlast hmem
    | succ fuel ih =>
      intro id hmem
      unfold Tree.chainFrom at hmem
      split at hmem
      · rename_i w hw
        split at hmem
        · rename_i hwraps
          simp only [Bool.and_eq_true, decide_eq_true_eq] at hwraps
          rcases mem_cons.1 hmem with rfl | hmem
          · exact .refl
          · refine .head ((Ledger.owns_iff hw).2 ⟨?_, ?_⟩) (ih w.wrapped hmem)
            · intro hgone
              obtain ⟨v, hv, hplain⟩ := h.gone_plain hgone
              rw [hw] at hv
              cases hv
              rw [hplain] at hwraps
              exact Bool.false_ne_true hwraps.1
            · simp [Widget.held, hwraps.2]
        · exact hlast hmem
      · exact hlast hmem
  exact hfrom t.size outer hx

theorem disableIn_rooted (ids : List WidgetId) (h : Rooted t G root)
    (hids : ∀ x ∈ ids, G.Live t x ∧ ∀ s ∈ condition.subscriptions, G.scope x s) :
    Rooted (disableIn condition t ids) G root ∧ Settles t G (disableIn condition t ids) G := by
  rcases disableIn_cases condition t ids with hsame | ⟨x, hx, w, ps, hw, hps, hchanged⟩
  · exact hsame.symm ▸ ⟨h, .refl t G⟩
  · obtain ⟨hlive, hscope⟩ := hids x hx
    have hr := Rewires.of_rewrites (rewrites_disableFirst? hps) h.sound hlive hw .nil hscope
    rw [hchanged]
    exact ⟨h.rewire hr rfl, Iff.rfl, hr.alike_get? rfl, fun hs => hs⟩

/-- An action that waited for a widget in use changes a text that is in the scope of its condition. -/
theorem performDeferral_rooted (h : Rooted t G root) (hd : G.Defers t key outer condition) (hkey : ¬ G.gone key) :
    ∃ G', Rooted (performDeferral (.disable outer condition) key t) G' root ∧
      Settles t G (performDeferral (.disable outer condition) key t) G' := by
  have hkept : ¬ G.gone outer := by
    intro hgone
    obtain ⟨w, hw, hasked⟩ := hd.asked
    obtain ⟨v, hv, hplain⟩ := h.sound.gone_plain hgone
    rw [hw] at hv
    cases hv
    rcases hasked with rfl | hcustom
    · exact hkey hgone
    · rw [hplain] at hcustom
      cases hcustom
  have hbound := hd.bound hkept
  -- All below the outermost wrapper is in the scope of the condition, as the wrapper itself is.
  have hmore : ∀ p s, G.Owns t p outer → s ∈ condition.subscriptions → G.Provides t p s :=
    fun p s hp hs => h.sound.bound hp (hbound s hs)
  have hrooted : Rooted t (G.grow t outer (· ∈ condition.subscriptions)) root := by
    refine ⟨Ledger.sound_grow h.sound hmore, ⟨⟨h.free.live.kept, h.free.live.found⟩, h.free.unheld⟩, ?_⟩
    rintro s (hs | ⟨hreach, hs⟩)
    · exact h.closed s hs
    · exact h.closed s (h.free.eq_of_reaches hreach ▸ hbound s hs)
  have hsettles : Settles t G t (G.grow t outer (· ∈ condition.subscriptions)) :=
    ⟨Iff.rfl, fun hw => ⟨_, hw, .refl _⟩, .inl⟩
  have houter : G.Live t outer := by
    obtain ⟨w, hw, -⟩ := hd.asked
    exact ⟨hkept, w, hw⟩
  have hchain : ∀ x ∈ (t.chain outer).reverse, (G.grow t outer (· ∈ condition.subscriptions)).Live t x ∧
      ∀ s ∈ condition.subscriptions, (G.grow t outer (· ∈ condition.subscriptions)).scope x s := by
    intro x hx
    have hreach := reaches_of_mem_chain h.sound (mem_reverse.1 hx)
    have hlive := h.sound.live_of_reaches houter hreach
    exact ⟨⟨hlive.kept, hlive.found⟩, fun s hs => Ledger.scope_grow hreach hs⟩
  obtain ⟨hdone, hlast⟩ := disableIn_rooted _ hrooted hchain
  exact ⟨_, hdone, hsettles.trans hlast⟩

theorem performAll_rooted (actions : List Deferral) (h : Rooted t G root) (hkey : ¬ G.gone key)
    (hd : ∀ outer condition, .disable outer condition ∈ actions → G.Defers t key outer condition) :
    ∃ G', Rooted (actions.foldl (fun t action => performDeferral action key t) t) G' root ∧
      Settles t G (actions.foldl (fun t action => performDeferral action key t) t) G' := by
  induction actions generalizing t G with
  | nil => exact ⟨G, h, .refl t G⟩
  | cons action actions ih =>
    obtain ⟨outer, condition⟩ := action
    obtain ⟨G1, hrooted, hfirst⟩ := performDeferral_rooted h (hd outer condition mem_cons_self) hkey
    obtain ⟨G2, hdone, hlast⟩ := ih hrooted (fun hgone => hkey (hfirst.gone.1 hgone))
      fun outer' condition' hmem => hfirst.defers (hd outer' condition' (mem_cons_of_mem _ hmem))
    exact ⟨G2, hdone, hfirst.trans hlast⟩

theorem Rooted.unqueue (h : Rooted t G root) (id : WidgetId) : Rooted (t.unqueue id) G root where
  sound :=
    { fits := h.sound.fits
      live := fun huv => ⟨(h.sound.live huv).kept, (h.sound.live huv).found⟩
      unique := h.sound.unique
      nodup := h.sound.nodup
      bound := h.sound.bound
      needs := h.sound.needs
      gone_plain := h.sound.gone_plain
      deferred := fun hd =>
        have hdefers := h.sound.deferred (mem_of_mem_filter hd)
        ⟨hdefers.asked, hdefers.bound⟩ }
  free := ⟨⟨h.free.live.kept, h.free.live.found⟩, h.free.unheld⟩
  closed := h.closed

theorem runQueue_rooted (log : List (WidgetId × Deferral)) {id : WidgetId} (h : Rooted t G root) (hid : ¬ G.gone id) :
    ∃ G', Rooted (Tree.runQueue performDeferral (t, log) id).1 G' root ∧ ∀ {x : WidgetId}, G'.gone x ↔ G.gone x := by
  have hd : ∀ outer condition, .disable outer condition ∈ t.queued id →
      G.Defers (t.unqueue id) id outer condition := by
    intro outer condition hmem
    obtain ⟨⟨key, action⟩, hmem, rfl⟩ := mem_map.1 hmem
    obtain ⟨hthere, hkey⟩ := mem_filter.1 hmem
    have heq : key = id := by simpa using hkey
    subst heq
    have hdefers := h.sound.deferred hthere
    exact ⟨hdefers.asked, hdefers.bound⟩
  obtain ⟨G', hdone, hsettles⟩ := performAll_rooted (t.queued id) (h.unqueue id) hid hd
  exact ⟨G', hdone, hsettles.gone⟩

theorem runDeferred_rooted (h : Rooted t G root) : ∃ G', Rooted (t.runDeferred performDeferral root).1 G' root := by
  have hall : ∀ (ids : List WidgetId) {t : Tree Deferral} {log : List (WidgetId × Deferral)} {G : Ledger},
      Rooted t G root → (∀ id ∈ ids, ¬ G.gone id) →
        ∃ G', Rooted (ids.foldl (Tree.runQueue performDeferral) (t, log)).1 G' root := by
    intro ids
    induction ids with
    | nil => exact fun h _ => ⟨_, h⟩
    | cons id ids ih =>
      intro t log G h hids
      obtain ⟨G1, hfirst, hgone⟩ := runQueue_rooted log h (hids id mem_cons_self)
      exact ih hfirst fun i hi hmem => hids i (mem_cons_of_mem _ hi) (hgone.1 hmem)
  exact hall (t.postOrder root) h fun id hid => (h.live (Tree.mem_postOrder.1 hid).1).kept

/-! ## Documents -/

theorem assemble_rooted (h : assemble o d = .ok a) : a.root = .none ∨ ∃ G, Rooted a.tree G a.root := by
  rcases assemble_cases h with ⟨hnone, -⟩ | ⟨fields, comments, e, b, hbuilt⟩
  · exact .inl hnone
  · obtain ⟨G, hrooted⟩ := buildRoot_rooted hbuilt.run
    exact .inr (hbuilt.tree ▸ runDeferred_rooted hrooted)

/-! ## Scopes -/

theorem binds_of_carries (hw : Fits w) (hs : w.Carries s) : w.binds = [s.valueName, s.snapshotName] := by
  obtain ⟨flag, hflag⟩ := hs
  unfold Widget.subscription? at hflag
  split at hflag
  · rename_i hgen
    obtain ⟨-, -, -, s', hlistens, hbinds⟩ := hw.builder hgen
    rw [hlistens] at hflag
    cases hflag
    exact hbinds
  · cases hflag

/-- Every variable that a text of an assembled document uses is bound by a reactive builder above the widget
the text stands on: a widget records with each text the subscriptions of the expression it was read from. -/
theorem needed_bound_above {d : Markup.Document} {a : Assembly} {s : Pipe.Subscription}
    (h : assemble o d = .ok a) (hx : a.tree.Reaches a.root x) (hw : a.tree.get? x = some w)
    (hs : s ∈ w.needed) :
    ∃ b v flag, a.tree.Reaches a.root b ∧ TransGen a.tree.Holds b x ∧ a.tree.get? b = some v ∧
      v.subscription? = some { s with skipNullCheck := flag } ∧ v.binds = [s.valueName, s.snapshotName] := by
  rcases assemble_rooted h with hroot | ⟨G, hrooted⟩
  · rw [hroot] at hx
    rcases ReflTransGen.cases_head hx with rfl | ⟨c, hc, -⟩
    · cases hw
    · obtain ⟨w', hw', -⟩ := Tree.holds_iff.1 hc
      cases hw'
  · obtain ⟨b, v, hb, hbx, hv, hcarries⟩ := hrooted.bound hx (hrooted.sound.needs (hrooted.live hx).kept hw hs)
    have hbinds := binds_of_carries (hrooted.sound.fits hv) hcarries
    obtain ⟨flag, hflag⟩ := hcarries
    exact ⟨b, v, flag, hb, hbx, hv, hflag, hbinds⟩

def disabledButton : Markup.Document :=
  ⟨[.element (.mk "Button" [(":disable", "busy | stream"), ("onPressed", "go")] ⟨1, 1⟩ [])]⟩

/-- The condition that waited for the complete tree is below the builder of its stream. -/
theorem needed_bound_above_disabledButton :
    ∃ a w s, assemble { Options.standard with fragment := true } disabledButton = .ok a ∧
      a.tree.Reaches a.root 1 ∧ a.tree.get? 1 = some w ∧ s ∈ w.needed ∧
        ∃ b v flag, a.tree.Reaches a.root b ∧ TransGen a.tree.Holds b 1 ∧ a.tree.get? b = some v ∧
          v.subscription? = some { s with skipNullCheck := flag } ∧
            v.binds = [s.valueName, s.snapshotName] := by
  have hrun : (assemble { Options.standard with fragment := true } disabledButton).toOption.any fun a =>
      a.tree.children a.root = [1] && (a.tree.get? 1).any fun w => !w.needed.isEmpty := by decide +kernel
  cases ha : assemble { Options.standard with fragment := true } disabledButton with
  | error e =>
    rw [ha] at hrun
    cases hrun
  | ok a =>
    simp only [ha, Except.toOption, Option.any_some, Bool.and_eq_true, decide_eq_true_eq, Option.any_eq_true] at hrun
    obtain ⟨hchildren, w, hw, hneeded⟩ := hrun
    obtain ⟨s, hs⟩ := List.exists_mem_of_ne_nil w.needed (by simpa using hneeded)
    have hx : a.tree.Reaches a.root 1 := .single (by simp [Tree.Holds, hchildren])
    exact ⟨a, w, s, rfl, hx, hw, hs, needed_bound_above ha hx hw hs⟩

/-! ## Resolved documents -/

theorem Rooted.shareable (h : Rooted t G root) : Pipe.Shareable t root := by
  refine ⟨h.isProper.toIsTree, ?_⟩
  intro x w s _ hw hs
  have hfits := h.sound.fits hw
  have hgen : w.generator = Widget.reactiveGenerator := by
    by_contra hne
    simp [Widget.subscription?, hne] at hs
  exact ⟨(hfits.builder hgen).1, binds_of_carries hfits ⟨s.skipNullCheck, hs⟩⟩

/-- A resolved document is an assembled one, in which builders were merged. -/
theorem exists_merges_of_resolve (h : resolve o d = .ok r) (hroot : r.root ≠ .none) :
    ∃ a log, assemble o d = .ok a ∧ a.root = r.root ∧ Pipe.Shareable a.tree a.root ∧
      Pipe.Merges a.root a.tree log r.tree := by
  unfold resolve at h
  split at h
  · rename_i a ha
    unfold Assembly.share at h
    split at h
    · rename_i removed t hshare
      cases h
      obtain ⟨G, hrooted⟩ := (assemble_rooted ha).resolve_left hroot
      obtain ⟨log, hmerges, -⟩ := Pipe.share_merges hrooted.shareable
      rw [hshare] at hmerges
      exact ⟨a, log, ha, rfl, hrooted.shareable, hmerges⟩
    · cases h
  · cases h

/-- A resolved document comes from an assembled one by merging builders. -/
theorem resolve_cases (h : resolve o d = .ok r) :
    r.root = .none ∨ ∃ a fields comments e b log, BuiltFrom o d a fields comments e b ∧
      a.root = r.root ∧ Pipe.Merges a.root a.tree log r.tree := by
  by_cases hroot : r.root = .none
  · exact .inl hroot
  · obtain ⟨a, log, hassemble, haroot, -, hmerges⟩ := exists_merges_of_resolve h hroot
    rcases assemble_cases hassemble with ⟨hnone, -⟩ | ⟨fields, comments, e, b, hbuilt⟩
    · exact absurd (haroot ▸ hnone) hroot
    · exact .inr ⟨a, fields, comments, e, b, log, hbuilt, haroot, hmerges⟩

/-- Every document that resolves has a proper tree below its root. -/
theorem resolve_isProper {d : Markup.Document} {r : Resolution} (h : resolve o d = .ok r)
    (hroot : r.root ≠ WidgetId.none) : r.tree.IsProper r.root := by
  unfold resolve at h
  split at h
  · rename_i a ha
    unfold Assembly.share at h
    split at h
    · rename_i removed t hshare
      cases h
      rcases assemble_rooted ha with hnone | ⟨G, hrooted⟩
      · exact absurd hnone hroot
      · obtain ⟨log, hmerges, -⟩ := Pipe.share_merges hrooted.shareable
        rw [hshare] at hmerges
        exact hmerges.isProper hrooted.shareable hrooted.isProper
    · cases h
  · cases h

def repeatedText : Markup.Document :=
  ⟨[.element (.mk "Card" [("title", "names | stream")] ⟨1, 1⟩
    [.element (.mk "Text" [("text", "names | stream"), (":padding", "4"), (":repeat", "name of names | stream")]
      ⟨1, 9⟩ [])])]⟩

/-- The builders of the loop are moved around the card, where all but one are redundant. -/
theorem resolve_isProper_repeatedText :
    ∃ r, resolve { Options.standard with fragment := true } repeatedText = .ok r ∧ r.removedCount = 2 ∧
      r.root ≠ WidgetId.none ∧ r.tree.IsProper r.root := by
  have hrun : (match resolve { Options.standard with fragment := true } repeatedText with
      | .ok r => r.removedCount = 2 && r.root ≠ WidgetId.none
      | .error _ => false) = true := by decide +kernel
  split at hrun
  · rename_i r hr
    simp only [Bool.and_eq_true, decide_eq_true_eq] at hrun
    exact ⟨r, hr, hrun.1, hrun.2, resolve_isProper hr hrun.2⟩
  · cases hrun

end Layout
end FlutterLayout
