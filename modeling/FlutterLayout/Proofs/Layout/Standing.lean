import FlutterLayout.Proofs.Layout.Ledger
import FlutterLayout.Proofs.Layout.Moves

/-!
# Standing — a widget under construction and the wrappers around it

A target names the widget an element became and the outermost wrapper around it.  `Stands` says how the two
are related: nothing holds the outermost one, and the place where content goes is below it.  Wrappers and
builders are put around the outermost one, so they end up above that place, and what they bind is in its
scope.
-/

namespace FlutterLayout.Layout

open List Ledger
open Relation (ReflTransGen)
open Ledger (Evolves Enters Rewires)

/-! ## Targets -/

variable {G G' G'' : Ledger} {t t' t'' : Tree Deferral} {u x y hole : WidgetId} {w w' : Widget}
  {s : Pipe.Subscription} {target target' target'' : Target}

/-- Content goes to `hole`, and wrappers go around the outermost widget of the target.  The target names
the hole, or nothing where content is not set on a widget. -/
structure Stands (t : Tree Deferral) (G : Ledger) (target : Target) (hole : WidgetId) : Prop where
  free : G.Free t target.current
  reaches : G.Reaches t target.current hole
  inner : target.inner = hole ∨ target.inner = WidgetId.none
  outer : target.current = hole ∨ ∃ w, t.get? target.current = some w ∧ w.isCustom = true
  plain : ∃ w, t.get? hole = some w ∧ w.generator ≠ Widget.reactiveGenerator

theorem Stands.live (hs : Stands t G target hole) (h : G.Sound t) : G.Live t hole :=
  h.live_of_reaches hs.free.live hs.reaches

theorem plain_of_evolves (he : Evolves taken t G t' G')
    (hp : ∃ w, t.get? hole = some w ∧ w.generator ≠ Widget.reactiveGenerator) :
    ∃ w, t'.get? hole = some w ∧ w.generator ≠ Widget.reactiveGenerator := by
  obtain ⟨w, hw, hplain⟩ := hp
  obtain ⟨w', hw', halike⟩ := he.alike hw
  exact ⟨w', hw', fun hgen => hplain (halike.generator.symm.trans hgen)⟩

theorem custom_of_evolves (he : Evolves taken t G t' G')
    (hc : ∃ w, t.get? x = some w ∧ w.isCustom = true) : ∃ w, t'.get? x = some w ∧ w.isCustom = true := by
  obtain ⟨w, hw, hcustom⟩ := hc
  obtain ⟨w', hw', halike⟩ := he.alike hw
  exact ⟨w', hw', halike.isCustom.trans hcustom⟩

/-- A step that does not take the outermost widget leaves the target standing. -/
theorem Stands.of_evolves (hs : Stands t G target hole)
    (he : Evolves taken t G t' G') (htaken : target.current ∉ taken) : Stands t' G' target hole where
  free := he.free hs.free htaken
  reaches := he.reaches hs.free htaken hs.reaches
  inner := hs.inner
  outer := hs.outer.imp_right fun hc => custom_of_evolves he hc
  plain := plain_of_evolves he hs.plain

/-- A step that works on a target: it may change the target and make new parts, and leaves all other parts
alone. -/
structure Advances (hole : WidgetId) (t : Tree Deferral) (G : Ledger) (target : Target)
    (t' : Tree Deferral) (G' : Ledger) (target' : Target) : Prop where
  sound : G'.Sound t'
  evolves : Evolves [target.current] t G t' G'
  stands : Stands t' G' target' hole
  inner : target'.inner = target.inner
  current : target'.current = target.current ∨ (t.size : Int) < target'.current
  scope : ∀ {s : Pipe.Subscription}, G'.scope target'.current s → G.scope target.current s

namespace Advances

theorem refl (h : G.Sound t) (hs : Stands t G target hole) : Advances hole t G target t G target :=
  ⟨h, .refl _ _ _, hs, rfl, .inl rfl, fun hs => hs⟩

section

variable (h : Advances hole t G target t' G' target')
include h

theorem trans (h' : Advances hole t' G' target' t'' G'' target'') : Advances hole t G target t'' G'' target'' where
  sound := h'.sound
  evolves := by
    refine h.evolves.trans h'.evolves ?_
    exact forall_mem_singleton.2 (h.current.imp mem_singleton.2 not_free_of_size_lt)
  stands := h'.stands
  inner := h'.inner.trans h.inner
  current := by
    have hsize := h.evolves.size
    rcases h'.current with heq | hnew
    · rw [heq]
      exact h.current
    · right
      lia
  scope hs := h.scope (h'.scope hs)

/-- A part made before the step that is not the outermost widget is not the outermost widget after it. -/
theorem ne_current (hx : G.Live t x) (hne : x ≠ target.current) : x ≠ target'.current := by
  have hle := hx.le_size
  rcases h.current with heq | hnew
  · rwa [heq]
  · lia

/-- What something holds after the step was not a loose part beside the target before it. -/
theorem made (hx : ¬ G'.Free t' x) : x ∈ [target.current] ∨ ¬ G.Free t x := by
  by_cases hmem : x ∈ [target.current]
  · exact .inl hmem
  · exact .inr fun hfree => hx (h.evolves.free hfree hmem)

end

end Advances

structure Spare (t₀ : Tree Deferral) (G₀ : Ledger) (target₀ target : Target) (ids : List WidgetId) :
    Prop where
  apart : target.current ∉ ids
  made : ∀ c ∈ ids, c ∈ [target₀.current] ∨ ¬ G₀.Free t₀ c

theorem Spare.nil : Spare t₀ G₀ target₀ target [] :=
  ⟨not_mem_nil, fun _ hc => absurd hc not_mem_nil⟩

namespace Advances

section

variable (h : Advances hole t G target t' G' target')
include h

theorem spare_new (hn : (t'.size : Int) < n) : Spare t G target target' [n] := by
  refine ⟨?_, ?_⟩
  · intro hmem
    exact not_free_of_size_lt hn (mem_singleton.1 hmem ▸ h.stands.free)
  · exact forall_mem_singleton.2 (h.made (not_free_of_size_lt hn))

theorem beside (he : Evolves taken t' G' t'' G'') (hsound : G''.Sound t'') (hspare : Spare t G target target' taken) :
    Advances hole t G target t'' G'' target' where
  sound := hsound
  evolves := h.evolves.trans he hspare.made
  stands := h.stands.of_evolves he hspare.apart
  inner := h.inner
  current := h.current
  scope hs := h.scope (he.scope_free h.stands.free hspare.apart hs)

/-- A widget above or below that gives up nothing leaves everything where it is. -/
theorem change (hr : Rewires t' G' hole w w' taken given) (hf : f w = w')
    (hspare : Spare t G target target' taken) : Advances hole t G target (t'.modify hole f) G' target' where
  sound := hr.sound hf h.sound
  evolves := by
    refine h.evolves.trans (hr.evolves hf h.sound h.stands.free h.stands.reaches) ?_
    exact forall_mem_cons.2 ⟨h.current.imp mem_singleton.2 not_free_of_size_lt, hspare.made⟩
  stands :=
    { free := hr.free_of_not_mem hf h.stands.free hspare.apart
      reaches := hr.reaches_self hf h.stands.reaches
      inner := h.stands.inner
      outer := h.stands.outer.imp_right fun hc =>
        custom_of_evolves (hr.evolves hf h.sound h.stands.free h.stands.reaches) hc
      plain := plain_of_evolves (hr.evolves hf h.sound h.stands.free h.stands.reaches) h.stands.plain }
  inner := h.inner
  current := h.current
  scope := h.scope

end

end Advances

structure Parts (hole : WidgetId) (t₀ : Tree Deferral) (G₀ : Ledger) (target₀ : Target) (t : Tree Deferral)
    (G : Ledger) (target : Target) (ids : List WidgetId) : Prop extends Ledger.Takes t G hole ids,
    Spare t₀ G₀ target₀ target ids

namespace Parts

variable {t₀ : Tree Deferral} {G₀ : Ledger} {target₀ : Target} {ids more : List WidgetId}

theorem nil : Parts hole t₀ G₀ target₀ t G target [] :=
  ⟨.nil, .nil⟩

theorem of_advances (h : Parts hole t₀ G₀ target₀ t G target ids) (hlive : G.Live t hole)
    (ha : Advances hole t G target t' G' target') : Parts hole t₀ G₀ target₀ t' G' target' ids := by
  have hkeep : ∀ c ∈ ids, c ∉ [target.current] := by
    intro c hc hmem
    exact h.apart (mem_singleton.1 hmem ▸ hc)
  refine ⟨⟨?_, h.nodup, ?_⟩, ⟨?_, h.made⟩⟩
  · exact fun c hc => ha.evolves.free (h.free c hc) (hkeep c hc)
  · intro c hc s hs
    exact ha.evolves.provides hlive (h.bound c hc s (ha.evolves.scope_free (h.free c hc) (hkeep c hc) hs))
  · intro hmem
    exact ha.ne_current (h.free _ hmem).live (fun heq => h.apart (heq ▸ hmem)) rfl

/-- Parts made on the way from a later target were made on the way from an earlier one. -/
theorem of_later (h : Advances hole t₀ G₀ target₀ t G target)
    (hparts : Parts hole t G target t' G' target' ids) : Parts hole t₀ G₀ target₀ t' G' target' ids := by
  refine ⟨hparts.toTakes, hparts.apart, ?_⟩
  intro c hc
  rcases hparts.made c hc with hmem | hnot
  · rw [mem_singleton.1 hmem]
    exact h.current.imp mem_singleton.2 not_free_of_size_lt
  · exact h.made hnot

theorem append (h : Parts hole t₀ G₀ target₀ t G target ids) (h' : Parts hole t₀ G₀ target₀ t G target more)
    (hdisj : ∀ c ∈ ids, c ∉ more) : Parts hole t₀ G₀ target₀ t G target (ids ++ more) where
  free c hc := (mem_append.1 hc).elim (h.free c) (h'.free c)
  nodup := nodup_append.2 ⟨h.nodup, h'.nodup, fun a ha _ hb heq => hdisj a ha (heq ▸ hb)⟩
  bound c hc := (mem_append.1 hc).elim (h.bound c) (h'.bound c)
  apart hmem := (mem_append.1 hmem).elim h.apart h'.apart
  made c hc := (mem_append.1 hc).elim (h.made c) (h'.made c)

/-- Parts that were there wait, and parts that are made meanwhile join them. -/
theorem followed (h : Parts hole t₀ G₀ target₀ t G target ids) (ha0 : Advances hole t₀ G₀ target₀ t G target)
    (ha : Advances hole t G target t' G' target') (h' : Parts hole t G target t' G' target' more) :
    Parts hole t₀ G₀ target₀ t' G' target' (ids ++ more) := by
  refine (h.of_advances (ha0.stands.live ha0.sound) ha).append (h'.of_later ha0) ?_
  intro c hc hmore
  rcases h'.made c hmore with hmem | hnot
  · exact h.apart (mem_singleton.1 hmem ▸ hc)
  · exact hnot (h.free c hc)

theorem sublist (h : Parts hole t₀ G₀ target₀ t G target more) (hsub : ids.Sublist more) :
    Parts hole t₀ G₀ target₀ t G target ids where
  free c hc := h.free c (hsub.subset hc)
  nodup := h.nodup.sublist hsub
  bound c hc := h.bound c (hsub.subset hc)
  apart hmem := h.apart (hsub.subset hmem)
  made c hc := h.made c (hsub.subset hc)

end Parts

namespace Advances

/-- A writer of the widget the target stands on, which takes parts made on the way. -/
theorem rewrite (h : Advances hole t G target t' G' target')
    (hrw : ∀ w, Fits w → w.generator ≠ Widget.reactiveGenerator → Rewrites needs taken [] w (f w))
    (hparts : Parts hole t G target t' G' target' taken) (hneeds : ∀ s ∈ needs, G'.scope hole s) :
    Advances hole t G target (t'.modify hole f) G' target' := by
  obtain ⟨w, hw, hplain⟩ := h.stands.plain
  have hr := Rewires.of_rewrites (hrw w (h.sound.fits hw) hplain) h.sound (h.stands.live h.sound) hw
    hparts.toTakes hneeds
  exact h.change hr rfl hparts.toSpare

theorem write (h : Advances hole t G target t' G' target')
    (hrw : ∀ w, Fits w → w.generator ≠ Widget.reactiveGenerator → Rewrites needs [] [] w (f w))
    (hneeds : ∀ s ∈ needs, G'.scope hole s) : Advances hole t G target (t'.modify hole f) G' target' :=
  h.rewrite hrw .nil hneeds

end Advances

/-! ## Covers -/

/-- Something was put around the loose part `id`, and `outer` is the outermost widget now. -/
structure Covers (t : Tree Deferral) (G : Ledger) (id : WidgetId) (t' : Tree Deferral) (G' : Ledger)
    (outer : WidgetId) : Prop where
  sound : G'.Sound t'
  evolves : Evolves [id] t G t' G'
  free : G'.Free t' outer
  current : outer = id ∨ ((t.size : Int) < outer ∧ ∃ w, t'.get? outer = some w ∧ w.isCustom = true)
  scope : ∀ {s : Pipe.Subscription}, G'.scope outer s → G.scope id s
  reaches : ∀ {y : WidgetId}, G.Reaches t id y → G'.Reaches t' outer y

namespace Covers

variable {id outer outer' : WidgetId}

theorem refl (h : G.Sound t) (hid : G.Free t id) : Covers t G id t G id :=
  ⟨h, .refl _ _ _, hid, .inl rfl, fun hs => hs, fun hy => hy⟩

theorem trans (h : Covers t G id t' G' outer) (h' : Covers t' G' outer t'' G'' outer') :
    Covers t G id t'' G'' outer' where
  sound := h'.sound
  evolves := by
    refine h.evolves.trans h'.evolves ?_
    exact forall_mem_singleton.2 (h.current.imp mem_singleton.2 fun hc => not_free_of_size_lt hc.1)
  free := h'.free
  current := by
    have hsize := h.evolves.size
    rcases h'.current with rfl | ⟨hnew, hcustom⟩
    · exact h.current.imp_right fun hc => ⟨hc.1, custom_of_evolves h'.evolves hc.2⟩
    · refine .inr ⟨?_, hcustom⟩
      lia
  scope hs := h.scope (h'.scope hs)
  reaches hy := h'.reaches (h.reaches hy)

theorem live (h : Covers t G id t' G' outer) (hy : G.Reaches t id y) : G'.Live t' y :=
  h.sound.live_of_reaches h.free.live (h.reaches hy)

/-- What is put around the outermost widget of a target is above the place it stands for. -/
theorem advances (h : Covers t G target.current t' G' outer) (hs : Stands t G target hole) :
    Advances hole t G target t' G' { target with current := outer } where
  sound := h.sound
  evolves := h.evolves
  stands :=
    { free := h.free
      reaches := h.reaches hs.reaches
      inner := hs.inner
      outer := by
        rcases h.current with heq | ⟨-, hcustom⟩
        · rcases hs.outer with hhole | hcustom
          · exact .inl (heq.trans hhole)
          · right
            change ∃ w, t'.get? outer = some w ∧ w.isCustom = true
            rw [heq]
            exact custom_of_evolves h.evolves hcustom
        · exact .inr hcustom
      plain := plain_of_evolves h.evolves hs.plain }
  inner := rfl
  current := h.current.imp_right And.left
  scope := h.scope

/-- A widget above or below that gives up nothing leaves everything where it is. -/
theorem change (h : Covers t G id t' G' outer)
    (hr : Rewires t' G' u w w' [] []) (hf : f w = w') (hu : G'.Reaches t' outer u)
    (hkeep : ∀ c ∈ w.held, c ∈ w'.held) : Covers t G id (t'.modify u f) G' outer :=
  have hevolves := hr.evolves hf h.sound h.free hu
  { sound := hr.sound hf h.sound
    evolves := by
      refine h.evolves.trans hevolves ?_
      exact forall_mem_singleton.2 (h.current.imp mem_singleton.2 fun hc => not_free_of_size_lt hc.1)
    free := hr.free_of_not_mem hf h.free not_mem_nil
    current := h.current.imp_right fun hc => ⟨hc.1, custom_of_evolves hevolves hc.2⟩
    scope := h.scope
    reaches := fun hy => hr.reaches_of_subset hf hkeep (h.reaches hy) }

end Covers

theorem covers_add {id : WidgetId} (h : G.Sound t) (hid : G.Free t id) (hfits : Fits w)
    (hheld : w.held = [id]) (hcustom : w.isCustom = true) (hneeds : w.needed = []) :
    Covers t G id (t.add w).2 (G.enter (t.add w).1 (G.scope id)) (t.add w).1 := by
  have henters : Enters t G w (G.scope id) := by
    refine ⟨hfits, ?_, ?_, ?_, ?_⟩
    · rw [hheld]
      simp
    · exact hheld ▸ forall_mem_singleton.2 hid
    · exact hheld ▸ forall_mem_singleton.2 fun s hs => .inl hs
    · rw [hneeds]
      exact fun s hs => absurd hs not_mem_nil
  have hevolves : Evolves w.held t G (t.add w).2 (G.enter (t.add w).1 (G.scope id)) := Enters.evolves h
  rw [hheld] at hevolves
  refine ⟨henters.sound h, hevolves, henters.free_id h, ?_, Enters.scope_id.1, ?_⟩
  · exact .inr ⟨Enters.lt_id w, w, Tree.get?_add_self w, hcustom⟩
  · intro y hy
    refine ReflTransGen.head ?_ (Enters.reaches h hy)
    exact (Enters.owns_iff h).2 (.inl ⟨rfl, hheld ▸ mem_singleton.2 rfl⟩)

/-! ## Builders -/

/-- Builders of `subscriptions` were put around `id`, and `outer` is the outermost one. -/
structure Stacks (subscriptions : List Pipe.Subscription) (t : Tree Deferral) (G : Ledger) (id : WidgetId)
    (t' : Tree Deferral) (G' : Ledger) (outer : WidgetId) : Prop extends Covers t G id t' G' outer where
  bound : ∀ {y : WidgetId}, G.Reaches t id y → ∀ s ∈ subscriptions, G'.scope y s
  get? : ∀ {x : WidgetId} {w : Widget}, t.get? x = some w → t'.get? x = some w

variable {id : WidgetId}

theorem Stacks.nil (h : G.Sound t) (hid : G.Free t id) : Stacks [] t G id t G id :=
  ⟨.refl h hid, fun _ _ hs => absurd hs not_mem_nil, fun hw => hw⟩

theorem Stacks.trans (h : Stacks ss t G id t' G' outer) (h' : Stacks ss' t' G' outer t'' G'' outer') :
    Stacks (ss ++ ss') t G id t'' G'' outer' := by
  refine ⟨h.toCovers.trans h'.toCovers, ?_, fun hw => h'.get? (h.get? hw)⟩
  intro y hy s hs
  rcases mem_append.1 hs with hs | hs
  · exact h'.evolves.scope_mono (h.live hy) (h.bound hy s hs)
  · exact h'.bound (h.reaches hy) s hs

theorem fits_builder (s : Pipe.Subscription) (hid : id ≠ .none) : Fits (Pipe.builder s id) where
  names _ := nodup_nil
  filled _ hp := nomatch hp
  builder _ := ⟨rfl, rfl, hid, s, rfl, rfl⟩

theorem held_builder (s : Pipe.Subscription) (hid : id ≠ .none) :
    (Pipe.builder s id).held = [id] := by
  simp [Pipe.builder, Widget.held, hid]

theorem carries_builder (s : Pipe.Subscription) (flag : Bool) (id : WidgetId) :
    (Pipe.builder { s with skipNullCheck := flag } id).Carries s :=
  ⟨flag, by simp [Pipe.builder, Widget.subscription?]⟩

theorem stacks_one (h : G.Sound t) (hid : G.Free t id) (s : Pipe.Subscription) (flag : Bool) :
    ∃ G', Stacks [s] t G id (t.add (Pipe.builder { s with skipNullCheck := flag } id)).2 G'
      (t.add (Pipe.builder { s with skipNullCheck := flag } id)).1 := by
  generalize hw : Pipe.builder { s with skipNullCheck := flag } id = w
  have hheld : w.held = [id] := hw ▸ held_builder _ hid.live.ne_none
  have hcarries : w.Carries s := hw ▸ carries_builder s flag id
  have hcovers := covers_add h hid (hw ▸ fits_builder _ hid.live.ne_none) hheld (hw ▸ rfl) (hw ▸ rfl)
  -- The builder enters with the scope of what it wraps, whose own scope then grows by what it carries.
  generalize hG : G.enter (t.add w).1 (G.scope id) = G1 at hcovers
  have howns : G1.Owns (t.add w).2 (t.add w).1 id :=
    hG ▸ (Enters.owns_iff h).2 (.inl ⟨rfl, hheld ▸ mem_singleton.2 rfl⟩)
  have hmore : ∀ p r, G1.Owns (t.add w).2 p id → w.Carries r → G1.Provides (t.add w).2 p r := by
    intro p r hp hr
    rw [hcovers.sound.unique hp howns]
    exact .inr ⟨w, Tree.get?_add_self w, hr⟩
  have hgrow : Evolves [] (t.add w).2 G1 (t.add w).2 (G1.grow (t.add w).2 id w.Carries) := evolves_grow howns
  refine ⟨G1.grow (t.add w).2 id w.Carries, ⟨?_, ?_, ?_, hcovers.current, ?_, hcovers.reaches⟩, ?_,
    Tree.get?_add_of_get?⟩
  · exact sound_grow hcovers.sound hmore
  · exact hcovers.evolves.trans hgrow (by simp)
  · exact hgrow.free hcovers.free not_mem_nil
  · exact fun hr => hcovers.scope (hgrow.scope_free hcovers.free not_mem_nil hr)
  · intro y hy r hr
    rw [mem_singleton.1 hr]
    have hbelow : G1.Reaches (t.add w).2 id y := hG ▸ Enters.reaches h hy
    exact scope_grow hbelow hcarries

theorem Mounts.stacks (hm : Mounts ss id t outer t') (h : G.Sound t) (hid : G.Free t id) :
    ∃ G', Stacks ss t G id t' G' outer := by
  induction hm generalizing G with
  | nil => exact ⟨G, .nil h hid⟩
  | cons _ ih =>
    obtain ⟨G1, hone⟩ := stacks_one h hid _ _
    obtain ⟨G2, hrest⟩ := ih hone.sound hone.free
    exact ⟨G2, hone.trans hrest⟩

/-! ## Properties -/

namespace Advances

variable {t₀ : Tree Deferral} {G₀ : Ledger} {target₀ : Target}

section

variable (h : Advances hole t₀ G₀ target₀ t G target)
include h

/-- A property that is set on the widget of a target and takes parts made on the way. -/
theorem put (hfilled : p.value.IsFilled)
    (hparts : Parts hole t₀ G₀ target₀ t G target p.value.held) (hneeds : ∀ s ∈ p.needs, G.scope hole s) :
    Advances hole t₀ G₀ target₀ (t.modify hole fun w => w.set p) G target :=
  h.rewrite (fun w _ hplain => rewrites_set w p hplain hfilled) hparts hneeds

theorem putText (hvalue : p.value = .text v) (hneeds : ∀ s ∈ p.needs, G.scope hole s) :
    Advances hole t₀ G₀ target₀ (t.modify hole fun w => w.set p) G target := by
  refine h.put (hvalue ▸ isFilled_text v) ?_ hneeds
  rw [hvalue, held_text]
  exact .nil

/-- A widget that is added beside a target and takes parts made on the way. -/
theorem enter (henters : Enters t G w around) (hspare : Spare t₀ G₀ target₀ target w.held) :
    ∃ G', Advances hole t₀ G₀ target₀ (t.add w).2 G' target ∧ Evolves w.held t G (t.add w).2 G' ∧
      G'.Free (t.add w).2 (t.add w).1 ∧ (∀ s, G'.scope (t.add w).1 s ↔ around s) ∧ (t.size : Int) < (t.add w).1 := by
  have hevolves : Evolves w.held t G (t.add w).2 (G.enter (t.add w).1 around) := Enters.evolves h.sound
  exact ⟨_, h.beside hevolves (henters.sound h.sound) hspare, hevolves, henters.free_id h.sound,
    fun _ => Enters.scope_id, Enters.lt_id w⟩

end

end Advances

end FlutterLayout.Layout
