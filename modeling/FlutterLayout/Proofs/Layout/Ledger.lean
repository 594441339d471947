import FlutterLayout.Proofs.Layout.Writers
import FlutterLayout.Proofs.Widget.Shape

/-!
# Ledgers — who holds which widget while a tree is built

While a tree is built its parts are loose: a widget that was just added stands nowhere yet, and content
that is moved is out of its old slot before it is in its new one.  A `Ledger` records what is gone and
which variables are bound where.
-/

namespace FlutterLayout

open List FlutterLayout.Tree
open List (Subperm)
open Relation (ReflTransGen TransGen)

namespace Layout

structure Ledger where
  gone : WidgetId → Prop
  /-- The variables of the subscription are bound where the widget stands or is going to stand. -/
  scope : WidgetId → Pipe.Subscription → Prop

namespace Ledger

/-! ## The books -/

section Definitions

variable (G : Ledger) (t : Tree Deferral)

def Owns (u v : WidgetId) : Prop :=
  ¬ G.gone u ∧ t.Holds u v

def Reaches (u v : WidgetId) : Prop :=
  ReflTransGen (G.Owns t) u v

structure Live (x : WidgetId) : Prop where
  kept : ¬ G.gone x
  found : ∃ w, t.get? x = some w

structure Free (x : WidgetId) : Prop where
  live : G.Live t x
  unheld : ∀ u, ¬ G.Owns t u x

def Provides (u : WidgetId) (s : Pipe.Subscription) : Prop :=
  G.scope u s ∨ ∃ w, t.get? u = some w ∧ w.Carries s

structure Defers (key outer : WidgetId) (condition : Pipe.Expression) : Prop where
  asked : ∃ w, t.get? outer = some w ∧ (key = outer ∨ w.isCustom = true)
  bound : ¬ G.gone outer → ∀ s ∈ condition.subscriptions, G.scope outer s

structure Sound : Prop where
  fits : ∀ {x : WidgetId} {w : Widget}, t.get? x = some w → Fits w
  live : ∀ {u v : WidgetId}, G.Owns t u v → G.Live t v
  unique : ∀ {u v x : WidgetId}, G.Owns t u x → G.Owns t v x → u = v
  nodup : ∀ {u : WidgetId} {w : Widget}, ¬ G.gone u → t.get? u = some w → w.held.Nodup
  bound : ∀ {u v : WidgetId} {s : Pipe.Subscription}, G.Owns t u v → G.scope v s → G.Provides t u s
  needs : ∀ {x : WidgetId} {w : Widget} {s : Pipe.Subscription}, ¬ G.gone x → t.get? x = some w →
    s ∈ w.needed → G.scope x s
  gone_plain : ∀ {x : WidgetId}, G.gone x → ∃ w, t.get? x = some w ∧ w.isCustom = false
  deferred : ∀ {key outer : WidgetId} {condition : Pipe.Expression},
    (key, .disable outer condition) ∈ t.deferred → G.Defers t key outer condition

end Definitions

variable {G G' G'' : Ledger} {t t' t'' : Tree Deferral} {u v x y : WidgetId} {w : Widget}
  {s : Pipe.Subscription}

theorem owns_iff (hw : t.get? u = some w) : G.Owns t u v ↔ ¬ G.gone u ∧ v ∈ w.held := by
  unfold Owns Holds
  rw [children_of_get? hw]

theorem Owns.found (h : G.Owns t u v) : ∃ w, t.get? u = some w ∧ v ∈ w.held :=
  holds_iff.1 h.2

theorem Live.le_size (h : G.Live t x) : x ≤ t.size := by
  obtain ⟨w, hw⟩ := h.found
  exact le_size_of_get? hw

theorem Live.ne_none (h : G.Live t x) : x ≠ .none := by
  obtain ⟨w, hw⟩ := h.found
  exact ne_none_of_get? hw

theorem not_free_of_size_lt (hx : (t.size : Int) < x) : ¬ G.Free t x := by
  intro hfree
  have hle := hfree.live.le_size
  lia

theorem Free.eq_of_reaches (h : G.Free t x) (hu : G.Reaches t u x) : u = x := by
  rcases ReflTransGen.cases_tail hu with heq | ⟨p, -, hp⟩
  · exact heq.symm
  · exact absurd hp (h.unheld p)

theorem Sound.live_of_reaches (h : G.Sound t) (hx : G.Live t x) (hy : G.Reaches t x y) : G.Live t y := by
  rcases ReflTransGen.cases_tail hy with rfl | ⟨p, -, hp⟩
  · exact hx
  · exact h.live hp

/-- What is above the holder is above the widget, and the other way round. -/
theorem Sound.reaches_holder (h : G.Sound t) (hp : G.Owns t v x) (hu : G.Reaches t u x) (hne : u ≠ x) :
    G.Reaches t u v := by
  rcases ReflTransGen.cases_tail hu with heq | ⟨p, hup, hpx⟩
  · exact absurd heq.symm hne
  · rw [h.unique hp hpx]
    exact hup

theorem Sound.top_unique (h : G.Sound t) (hx : G.Free t x) (hy : G.Free t y) (hxu : G.Reaches t x u)
    (hyu : G.Reaches t y u) : x = y := by
  induction hxu with
  | refl => exact (hx.eq_of_reaches hyu).symm
  | tail hxp hp ih =>
    rename_i p u
    by_cases heq : y = u
    · subst heq
      exact absurd hp (hy.unheld p)
    · exact ih (h.reaches_holder hp hyu heq)

theorem Sound.acyclic (h : G.Sound t) (hx : G.Free t x) (hu : G.Reaches t x u) : ¬ TransGen (G.Owns t) u u := by
  induction hu with
  | refl =>
    intro hcycle
    obtain ⟨p, -, hlast⟩ := TransGen.tail'_iff.1 hcycle
    exact hx.unheld p hlast
  | tail hxp hp ih =>
    intro hcycle
    obtain ⟨q, huq, hqu⟩ := TransGen.tail'_iff.1 hcycle
    rw [h.unique hp hqu] at ih
    exact ih (.head' hqu huq)

/-! ## What a step may do to other parts -/

/-- A step from one tree to the next.  Of the loose parts only those in `taken` may change: the others stay
loose, with the same scope and the same widgets below. -/
structure Evolves (taken : List WidgetId) (t : Tree Deferral) (G : Ledger) (t' : Tree Deferral)
    (G' : Ledger) : Prop where
  size : t.size ≤ t'.size
  gone_mono : ∀ {x : WidgetId}, G.gone x → G'.gone x
  gone_new : ∀ {x : WidgetId}, G'.gone x → G.gone x ∨ (t.size : Int) < x
  alike : ∀ {x : WidgetId} {w : Widget}, t.get? x = some w → ∃ w', t'.get? x = some w' ∧ Alike w w'
  scope_mono : ∀ {x : WidgetId} {s : Pipe.Subscription}, G.Live t x → G.scope x s → G'.scope x s
  free : ∀ {x : WidgetId}, G.Free t x → x ∉ taken → G'.Free t' x
  scope_free : ∀ {x : WidgetId} {s : Pipe.Subscription}, G.Free t x → x ∉ taken → G'.scope x s →
    G.scope x s
  reaches : ∀ {x y : WidgetId}, G.Free t x → x ∉ taken → G.Reaches t x y → G'.Reaches t' x y

namespace Evolves

variable {taken taken' : List WidgetId}

theorem refl (taken : List WidgetId) (t : Tree Deferral) (G : Ledger) : Evolves taken t G t G where
  size := Nat.le_refl _
  gone_mono h := h
  gone_new h := .inl h
  alike hw := ⟨_, hw, .refl _⟩
  scope_mono _ h := h
  free h _ := h
  scope_free _ _ h := h
  reaches _ _ h := h

theorem live (h : Evolves taken t G t' G') (hx : G.Live t x) : G'.Live t' x := by
  obtain ⟨w, hw⟩ := hx.found
  obtain ⟨w', hw', -⟩ := h.alike hw
  refine ⟨?_, w', hw'⟩
  intro hgone
  rcases h.gone_new hgone with hold | hnew
  · exact hx.kept hold
  · have hle := hx.le_size
    lia

theorem provides (h : Evolves taken t G t' G') (hx : G.Live t x) (hs : G.Provides t x s) : G'.Provides t' x s := by
  rcases hs with hscope | ⟨w, hw, hcarries⟩
  · exact .inl (h.scope_mono hx hscope)
  · obtain ⟨w', hw', halike⟩ := h.alike hw
    exact .inr ⟨w', hw', halike.carries hcarries⟩

/-- A second step may take what the first one may take, and what was not a loose part before. -/
theorem trans (h : Evolves taken t G t' G') (h' : Evolves taken' t' G' t'' G'')
    (htaken : ∀ x ∈ taken', x ∈ taken ∨ ¬ G.Free t x) : Evolves taken t G t'' G'' := by
  have hkeep : ∀ {x : WidgetId}, G.Free t x → x ∉ taken → x ∉ taken' := by
    intro x hfree hx hx'
    rcases htaken x hx' with hold | hnew
    · exact hx hold
    · exact hnew hfree
  have hsize := h.size
  constructor
  · exact Nat.le_trans h.size h'.size
  · exact fun hx => h'.gone_mono (h.gone_mono hx)
  · intro x hx
    rcases h'.gone_new hx with hx | hx
    · exact h.gone_new hx
    · right
      lia
  · intro x w hw
    obtain ⟨w', hw', halike⟩ := h.alike hw
    obtain ⟨w'', hw'', halike'⟩ := h'.alike hw'
    exact ⟨w'', hw'', halike.trans halike'⟩
  · exact fun hlive hs => h'.scope_mono (h.live hlive) (h.scope_mono hlive hs)
  · exact fun hfree hx => h'.free (h.free hfree hx) (hkeep hfree hx)
  · exact fun hfree hx hs => h.scope_free hfree hx (h'.scope_free (h.free hfree hx) (hkeep hfree hx) hs)
  · exact fun hfree hx hy => h'.reaches (h.free hfree hx) (hkeep hfree hx) (h.reaches hfree hx hy)

end Evolves

/-! ## Adding a widget -/

/-- The books after a widget was added that is going to stand in the scope `around`. -/
def enter (G : Ledger) (id : WidgetId) (around : Pipe.Subscription → Prop) : Ledger where
  gone := G.gone
  scope x s := if x = id then around s else G.scope x s

structure Enters (t : Tree Deferral) (G : Ledger) (w : Widget) (around : Pipe.Subscription → Prop) :
    Prop where
  fits : Fits w
  nodup : w.held.Nodup
  free : ∀ c ∈ w.held, G.Free t c
  bound : ∀ c ∈ w.held, ∀ s, G.scope c s → around s ∨ w.Carries s
  needs : ∀ s ∈ w.needed, around s

namespace Enters

variable {around : Pipe.Subscription → Prop}

theorem lt_id (w : Widget) : (t.size : Int) < (t.add w).1 := by
  rw [add_fst]
  lia

theorem ne_id (hx : G.Live t x) (w : Widget) : x ≠ (t.add w).1 := by
  have hle := hx.le_size
  have hlt : (t.size : Int) < (t.add w).1 := lt_id w
  lia

theorem scope_of_ne (hx : x ≠ (t.add w).1) : (G.enter (t.add w).1 around).scope x s ↔ G.scope x s := by
  simp [enter, hx]

theorem scope_id : (G.enter (t.add w).1 around).scope (t.add w).1 s ↔ around s := by
  simp [enter]

variable (h : G.Sound t)
include h

theorem not_gone (w : Widget) : ¬ G.gone (t.add w).1 := by
  intro hgone
  obtain ⟨v, hv, -⟩ := h.gone_plain hgone
  have hle := le_size_of_get? hv
  have hlt : (t.size : Int) < (t.add w).1 := lt_id w
  lia

theorem owns_iff : (G.enter (t.add w).1 around).Owns (t.add w).2 u v ↔
      (u = (t.add w).1 ∧ v ∈ w.held) ∨ G.Owns t u v := by
  by_cases hu : u = (t.add w).1
  · subst hu
    rw [owns_iff (get?_add_self w)]
    constructor
    · exact fun hv => .inl ⟨rfl, hv.2⟩
    · rintro (hv | hv)
      · exact ⟨not_gone h w, hv.2⟩
      · obtain ⟨w', hw', -⟩ := hv.found
        exact absurd rfl (ne_id ⟨hv.1, w', hw'⟩ w)
  · unfold Owns Holds children
    rw [get?_add_of_ne w hu]
    simp [hu, enter]

theorem live_iff : (G.enter (t.add w).1 around).Live (t.add w).2 x ↔ x = (t.add w).1 ∨ G.Live t x := by
  constructor
  · rintro ⟨hkept, v, hv⟩
    rcases get?_add_cases hv with hv | ⟨hx, -⟩
    · exact .inr ⟨hkept, v, hv⟩
    · exact .inl hx
  · rintro (rfl | ⟨hkept, v, hv⟩)
    · exact ⟨not_gone h w, w, get?_add_self w⟩
    · exact ⟨hkept, v, get?_add_of_get? hv⟩

theorem sound (hw : Enters t G w around) : (G.enter (t.add w).1 around).Sound (t.add w).2 := by
  constructor
  · intro x v hv
    rcases get?_add_cases hv with hv | ⟨-, rfl⟩
    · exact h.fits hv
    · exact hw.fits
  · intro u v huv
    rw [live_iff h]
    rcases (owns_iff h).1 huv with ⟨-, hv⟩ | huv
    · exact .inr (hw.free v hv).live
    · exact .inr (h.live huv)
  · intro u v x hu hv
    -- What the new widget holds was held by nothing.
    rcases (owns_iff h).1 hu with ⟨rfl, hux⟩ | hux <;> rcases (owns_iff h).1 hv with ⟨rfl, hvx⟩ | hvx
    · rfl
    · exact absurd hvx ((hw.free x hux).unheld v)
    · exact absurd hux ((hw.free x hvx).unheld u)
    · exact h.unique hux hvx
  · intro x v hkept hv
    rcases get?_add_cases hv with hv | ⟨-, rfl⟩
    · exact h.nodup hkept hv
    · exact hw.nodup
  · intro u v s huv hs
    rcases (owns_iff h).1 huv with ⟨rfl, hv⟩ | huv
    · rw [scope_of_ne (ne_id (hw.free v hv).live w)] at hs
      rcases hw.bound v hv s hs with hs | hs
      · exact .inl (scope_id.2 hs)
      · exact .inr ⟨w, get?_add_self w, hs⟩
    · obtain ⟨w', hw', -⟩ := huv.found
      rw [scope_of_ne (ne_id (h.live huv) w)] at hs
      rcases h.bound huv hs with hs | ⟨b, hb, hs⟩
      · exact .inl ((scope_of_ne (ne_id ⟨huv.1, w', hw'⟩ w)).2 hs)
      · exact .inr ⟨b, get?_add_of_get? hb, hs⟩
  · intro x v s hkept hv hs
    rcases get?_add_cases hv with hv | ⟨rfl, rfl⟩
    · exact (scope_of_ne (ne_id ⟨hkept, v, hv⟩ w)).2 (h.needs hkept hv hs)
    · exact scope_id.2 (hw.needs s hs)
  · intro x hx
    obtain ⟨v, hv, hplain⟩ := h.gone_plain hx
    exact ⟨v, get?_add_of_get? hv, hplain⟩
  · intro key outer condition hd
    obtain ⟨⟨v, hv, hkey⟩, hbound⟩ := h.deferred hd
    refine ⟨⟨v, get?_add_of_get? hv, hkey⟩, ?_⟩
    intro hkept s hs
    exact (scope_of_ne (ne_id ⟨hkept, v, hv⟩ w)).2 (hbound hkept s hs)

theorem reaches (hy : G.Reaches t x y) : (G.enter (t.add w).1 around).Reaches (t.add w).2 x y :=
  .mono (fun _ _ huv => (owns_iff h).2 (.inr huv)) _ _ hy

theorem free_of_not_mem (hx : G.Free t x) (hmem : x ∉ w.held) :
    (G.enter (t.add w).1 around).Free (t.add w).2 x := by
  refine ⟨(live_iff h).2 (.inr hx.live), ?_⟩
  intro u hu
  rcases (owns_iff h).1 hu with ⟨-, hux⟩ | hux
  · exact hmem hux
  · exact hx.unheld u hux

theorem free_id (hw : Enters t G w around) :
    (G.enter (t.add w).1 around).Free (t.add w).2 (t.add w).1 := by
  refine ⟨(live_iff h).2 (.inl rfl), ?_⟩
  intro u hu
  rcases (owns_iff h).1 hu with ⟨-, hmem⟩ | hold
  · exact ne_id (hw.free _ hmem).live w rfl
  · exact ne_id (h.live hold) w rfl

theorem evolves : Evolves w.held t G (t.add w).2 (G.enter (t.add w).1 around) where
  size := by
    rw [size_add]
    lia
  gone_mono hx := hx
  gone_new hx := .inl hx
  alike hv := ⟨_, get?_add_of_get? hv, .refl _⟩
  scope_mono hlive hs := (scope_of_ne (ne_id hlive w)).2 hs
  free hfree hx := free_of_not_mem h hfree hx
  scope_free hfree _ hs := (scope_of_ne (ne_id hfree.live w)).1 hs
  reaches _ _ hy := reaches h hy

end Enters
/-! ## Changing a widget -/

/-- The parts are loose and in the slots of `u` they would be in their scope. -/
structure Takes (t : Tree Deferral) (G : Ledger) (u : WidgetId) (taken : List WidgetId) : Prop where
  free : ∀ c ∈ taken, G.Free t c
  nodup : taken.Nodup
  bound : ∀ c ∈ taken, ∀ s, G.scope c s → G.Provides t u s

theorem Takes.nil : Takes t G u [] :=
  ⟨fun _ hc => absurd hc not_mem_nil, nodup_nil, fun _ hc => absurd hc not_mem_nil⟩

theorem Takes.single (hfree : G.Free t c) (hbound : ∀ s, G.scope c s → G.Provides t u s) : Takes t G u [c] :=
  ⟨forall_mem_singleton.2 hfree, nodup_singleton c, forall_mem_singleton.2 hbound⟩

/-- What has to be known of a widget `u` that changes from `w` to `w'`: it takes loose parts into its slots
and gives up others. -/
structure Rewires (t : Tree Deferral) (G : Ledger) (u : WidgetId) (w w' : Widget)
    (taken given : List WidgetId) : Prop where
  kept : ¬ G.gone u
  found : t.get? u = some w
  alike : Alike w w'
  fits : Fits w'
  held : Subperm (w'.held ++ given) (w.held ++ taken)
  takes : Takes t G u taken
  needs : ∀ s ∈ w'.needed, G.scope u s

namespace Rewires

variable {w' : Widget} {f : Widget → Widget} {taken given : List WidgetId} {top c : WidgetId}

section

variable (hr : Rewires t G u w w' taken given)
include hr

theorem owns_held (hc : c ∈ w.held) : G.Owns t u c :=
  (owns_iff hr.found).2 ⟨hr.kept, hc⟩

theorem nodup_held (h : G.Sound t) : (w'.held ++ given).Nodup := by
  have hbefore : (w.held ++ taken).Nodup := by
    refine nodup_append.2 ⟨h.nodup hr.kept hr.found, hr.takes.nodup, ?_⟩
    rintro a ha b hb rfl
    exact (hr.takes.free a hb).unheld u (hr.owns_held ha)
  obtain ⟨l, hperm, hsub⟩ := hr.held
  exact hperm.nodup_iff.1 (hbefore.sublist hsub)

theorem mem_held (hc : c ∈ w'.held) : c ∈ w.held ∨ c ∈ taken :=
  mem_append.1 (hr.held.subset (mem_append_left _ hc))

variable (hf : f w = w')
include hf

theorem get?_self : (t.modify u f).get? u = some w' := by
  rw [get?_modify_of_get? hr.found, hf]

theorem get?_cases {v : Widget} (hv : (t.modify u f).get? x = some v) : (x = u ∧ v = w') ∨ t.get? x = some v := by
  obtain ⟨v', hv', ⟨rfl, rfl⟩ | rfl⟩ := get?_modify_cases hv
  · cases hr.found.symm.trans hv'
    exact .inl ⟨rfl, hf⟩
  · exact .inr hv'

theorem alike_get? {v : Widget} (hv : t.get? x = some v) : ∃ v', (t.modify u f).get? x = some v' ∧ Alike v v' := by
  obtain ⟨v', hv', ⟨rfl, rfl⟩ | rfl⟩ := exists_get?_modify u f hv
  · cases hr.found.symm.trans hv
    exact ⟨f w, hv', hf ▸ hr.alike⟩
  · exact ⟨v', hv', .refl v'⟩

theorem owns_cases : G.Owns (t.modify u f) v x ↔ (v = u ∧ x ∈ w'.held) ∨ (v ≠ u ∧ G.Owns t v x) := by
  by_cases hv : v = u
  · subst hv
    rw [owns_iff (hr.get?_self hf)]
    simp [hr.kept]
  · unfold Owns Holds children
    rw [get?_modify_of_ne f hv]
    simp [hv]

theorem live_iff : G.Live (t.modify u f) x ↔ G.Live t x := by
  constructor
  · rintro ⟨hkept, v, hv⟩
    rcases hr.get?_cases hf hv with ⟨rfl, rfl⟩ | hv
    · exact ⟨hkept, w, hr.found⟩
    · exact ⟨hkept, v, hv⟩
  · rintro ⟨hkept, v, hv⟩
    obtain ⟨v', hv', -⟩ := hr.alike_get? hf hv
    exact ⟨hkept, v', hv'⟩

theorem provides (hs : G.Provides t x s) : G.Provides (t.modify u f) x s := by
  rcases hs with hs | ⟨v, hv, hs⟩
  · exact .inl hs
  · obtain ⟨v', hv', halike⟩ := hr.alike_get? hf hv
    exact .inr ⟨v', hv', halike.carries hs⟩

theorem sound (h : G.Sound t) : G.Sound (t.modify u f) := by
  constructor
  · intro x v hv
    rcases hr.get?_cases hf hv with ⟨rfl, rfl⟩ | hv
    · exact hr.fits
    · exact h.fits hv
  · intro v x hx
    rw [hr.live_iff hf]
    rcases (hr.owns_cases hf).1 hx with ⟨rfl, hmem⟩ | ⟨-, hold⟩
    · rcases hr.mem_held hmem with hmem | hmem
      · exact h.live (hr.owns_held hmem)
      · exact (hr.takes.free x hmem).live
    · exact h.live hold
  · -- What `u` holds now was held by `u` or by nothing.
    have hother : ∀ {v x : WidgetId}, x ∈ w'.held → v ≠ u → ¬ G.Owns t v x := by
      intro v x hx hv hvx
      rcases hr.mem_held hx with hx | hx
      · exact hv (h.unique hvx (hr.owns_held hx))
      · exact (hr.takes.free x hx).unheld v hvx
    intro v v' x hv hv'
    rcases (hr.owns_cases hf).1 hv with ⟨rfl, hx⟩ | ⟨hne, hx⟩ <;>
      rcases (hr.owns_cases hf).1 hv' with ⟨rfl, hx'⟩ | ⟨hne', hx'⟩
    · rfl
    · exact absurd hx' (hother hx hne')
    · exact absurd hx (hother hx' hne)
    · exact h.unique hx hx'
  · intro x v hkept hv
    rcases hr.get?_cases hf hv with ⟨rfl, rfl⟩ | hv
    · exact (hr.nodup_held h).of_append_left
    · exact h.nodup hkept hv
  · intro v x s hx hs
    refine hr.provides hf ?_
    rcases (hr.owns_cases hf).1 hx with ⟨rfl, hmem⟩ | ⟨-, hold⟩
    · rcases hr.mem_held hmem with hmem | hmem
      · exact h.bound (hr.owns_held hmem) hs
      · exact hr.takes.bound x hmem s hs
    · exact h.bound hold hs
  · intro x v s hkept hv hs
    rcases hr.get?_cases hf hv with ⟨rfl, rfl⟩ | hv
    · exact hr.needs s hs
    · exact h.needs hkept hv hs
  · intro x hx
    obtain ⟨v, hv, hplain⟩ := h.gone_plain hx
    obtain ⟨v', hv', halike⟩ := hr.alike_get? hf hv
    exact ⟨v', hv', halike.isCustom.trans hplain⟩
  · intro key outer condition hd
    rw [deferred_modify] at hd
    obtain ⟨⟨v, hv, hkey⟩, hbound⟩ := h.deferred hd
    obtain ⟨v', hv', halike⟩ := hr.alike_get? hf hv
    exact ⟨⟨v', hv', hkey.imp id halike.isCustom.trans⟩, hbound⟩

theorem free_of_not_mem (hx : G.Free t x) (hmem : x ∉ taken) : G.Free (t.modify u f) x := by
  refine ⟨(hr.live_iff hf).2 hx.live, ?_⟩
  intro v hv
  rcases (hr.owns_cases hf).1 hv with ⟨rfl, hheld⟩ | ⟨-, hold⟩
  · rcases hr.mem_held hheld with hheld | htaken
    · exact hx.unheld _ (hr.owns_held hheld)
    · exact hmem htaken
  · exact hx.unheld v hold

theorem free_given (h : G.Sound t) (hx : x ∈ given) : G.Free (t.modify u f) x := by
  have hnot : x ∉ w'.held := fun hx' => (nodup_append.1 (hr.nodup_held h)).2.2 x hx' x hx rfl
  have hbefore : G.Live t x ∧ ∀ v, v ≠ u → ¬ G.Owns t v x := by
    rcases mem_append.1 (hr.held.subset (mem_append_right _ hx)) with hold | htaken
    · exact ⟨h.live (hr.owns_held hold), fun v hne hv => hne (h.unique hv (hr.owns_held hold))⟩
    · exact ⟨(hr.takes.free x htaken).live, fun v _ => (hr.takes.free x htaken).unheld v⟩
  refine ⟨(hr.live_iff hf).2 hbefore.1, ?_⟩
  intro v hv
  rcases (hr.owns_cases hf).1 hv with ⟨-, hmem⟩ | ⟨hne, hold⟩
  · exact hnot hmem
  · exact hbefore.2 v hne hold

theorem reaches_self (hx : G.Reaches t x u) : G.Reaches (t.modify u f) x u := by
  induction hx using ReflTransGen.head_induction_on with
  | refl => exact .refl
  | @head v _ hstep _ ih =>
    by_cases hv : v = u
    · rw [hv]
      exact .refl
    · exact .head ((hr.owns_cases hf).2 (.inr ⟨hv, hstep⟩)) ih

theorem reaches_of_not_above (hx : ¬ G.Reaches t x u) (hy : G.Reaches t x y) : G.Reaches (t.modify u f) x y := by
  induction hy with
  | refl => exact .refl
  | tail hxp hp ih =>
    refine ih.tail ((hr.owns_cases hf).2 (.inr ⟨?_, hp⟩))
    rintro rfl
    exact hx hxp

theorem reaches_of_subset (hkeep : ∀ c ∈ w.held, c ∈ w'.held) (hx : G.Reaches t x y) :
    G.Reaches (t.modify u f) x y := by
  refine .mono (fun v c hvc => ?_) _ _ hx
  by_cases hv : v = u
  · subst hv
    exact (hr.owns_cases hf).2 (.inl ⟨rfl, hkeep c ((owns_iff hr.found).1 hvc).2⟩)
  · exact (hr.owns_cases hf).2 (.inr ⟨hv, hvc⟩)

theorem evolves (h : G.Sound t) (htop : G.Free t top) (hu : G.Reaches t top u) :
    Evolves (top :: taken) t G (t.modify u f) G where
  size := Nat.le_of_eq (size_modify f).symm
  gone_mono hx := hx
  gone_new hx := .inl hx
  alike hv := hr.alike_get? hf hv
  scope_mono _ hs := hs
  free hfree hx := hr.free_of_not_mem hf hfree fun hmem => hx (mem_cons_of_mem _ hmem)
  scope_free _ _ hs := hs
  reaches := by
    -- `u` is below `top`, so it is not below another loose part.
    intro x y hfree hx hy
    refine hr.reaches_of_not_above hf ?_ hy
    intro hxu
    exact hx (h.top_unique hfree htop hxu hu ▸ mem_cons_self)

end

/-- A writer makes a sound change where it takes what fits and needs what is in scope. -/
theorem of_rewrites {needs : List Pipe.Subscription} (hrw : Rewrites needs taken given w w') (h : G.Sound t)
    (hlive : G.Live t u) (hw : t.get? u = some w) (htakes : Takes t G u taken)
    (hneeds : ∀ s ∈ needs, G.scope u s) : Rewires t G u w w' taken given where
  kept := hlive.kept
  found := hw
  alike := hrw.alike
  fits := hrw.fits (h.fits hw)
  held := hrw.held
  takes := htakes
  needs s hs := (hrw.needed s hs).elim (h.needs hlive.kept hw) (hneeds s)

end Rewires

/-! ## Changes of the books alone -/

def grow (G : Ledger) (t : Tree Deferral) (c : WidgetId) (more : Pipe.Subscription → Prop) : Ledger where
  gone := G.gone
  scope x s := G.scope x s ∨ (G.Reaches t c x ∧ more s)

section Grow

variable {c : WidgetId} {more : Pipe.Subscription → Prop}

theorem scope_grow (hx : G.Reaches t c x) (hs : more s) : (G.grow t c more).scope x s :=
  .inr ⟨hx, hs⟩

theorem sound_grow (h : G.Sound t) (hmore : ∀ p s, G.Owns t p c → more s → G.Provides t p s) :
    (G.grow t c more).Sound t where
  fits hw := h.fits hw
  live huv := ⟨(h.live huv).kept, (h.live huv).found⟩
  unique hu hv := h.unique hu hv
  nodup hkept hw := h.nodup hkept hw
  bound := by
    intro u v s huv hs
    have hold : G.Provides t u s → (G.grow t c more).Provides t u s := Or.imp_left .inl
    rcases hs with hs | ⟨hv, hs⟩
    · exact hold (h.bound huv hs)
    · by_cases heq : c = v
      · subst heq
        exact hold (hmore u s huv hs)
      · exact .inl (scope_grow (h.reaches_holder huv hv heq) hs)
  needs hkept hw hs := .inl (h.needs hkept hw hs)
  gone_plain hx := h.gone_plain hx
  deferred hd :=
    have hdefers := h.deferred hd
    ⟨hdefers.asked, fun hkept s hs => .inl (hdefers.bound hkept s hs)⟩

theorem evolves_grow (hp : G.Owns t p c) : Evolves [] t G t (G.grow t c more) where
  size := Nat.le_refl _
  gone_mono hx := hx
  gone_new hx := .inl hx
  alike hw := ⟨_, hw, .refl _⟩
  scope_mono _ hs := .inl hs
  free hx _ := ⟨⟨hx.live.kept, hx.live.found⟩, hx.unheld⟩
  scope_free hx _ hs := by
    rcases hs with hs | ⟨hreach, -⟩
    · exact hs
    · rw [hx.eq_of_reaches hreach] at hp
      exact absurd hp (hx.unheld p)
  reaches _ _ hy := hy

end Grow

def retire (G : Ledger) (c : WidgetId) : Ledger where
  gone x := G.gone x ∨ x = c
  scope := G.scope

section Retire

variable {c : WidgetId} {taken : List WidgetId}

theorem owns_retire : (G.retire c).Owns t u v ↔ u ≠ c ∧ G.Owns t u v := by
  simp only [Owns, retire, not_or]
  tauto

theorem sound_retire (h : G.Sound t) (hc : G.Free t c) (hw : t.get? c = some w)
    (hplain : w.isCustom = false) : (G.retire c).Sound t where
  fits hv := h.fits hv
  live := by
    intro u v huv
    have hold := (owns_retire.1 huv).2
    refine ⟨?_, (h.live hold).found⟩
    rintro (hgone | rfl)
    · exact (h.live hold).kept hgone
    · exact hc.unheld u hold
  unique hu hv := h.unique (owns_retire.1 hu).2 (owns_retire.1 hv).2
  nodup hkept hv := h.nodup (fun hgone => hkept (.inl hgone)) hv
  bound huv hs := h.bound (owns_retire.1 huv).2 hs
  needs hkept hv hs := h.needs (fun hgone => hkept (.inl hgone)) hv hs
  gone_plain := by
    rintro x (hx | rfl)
    · exact h.gone_plain hx
    · exact ⟨w, hw, hplain⟩
  deferred hd :=
    have hdefers := h.deferred hd
    ⟨hdefers.asked, fun hkept s hs => hdefers.bound (fun hgone => hkept (.inl hgone)) s hs⟩

theorem free_retire (h : G.Sound t) (hc : G.Free t c) (hx : G.Owns t c x) : (G.retire c).Free t x := by
  refine ⟨⟨?_, (h.live hx).found⟩, ?_⟩
  · rintro (hgone | rfl)
    · exact (h.live hx).kept hgone
    · exact hc.unheld _ hx
  · intro u hu
    obtain ⟨hne, hold⟩ := owns_retire.1 hu
    exact hne (h.unique hold hx)

theorem free_retire_of_ne (hx : G.Free t x) (hne : x ≠ c) : (G.retire c).Free t x :=
  ⟨⟨fun hgone => hgone.elim hx.live.kept hne, hx.live.found⟩, fun u hu => hx.unheld u (owns_retire.1 hu).2⟩

theorem reaches_retire (hc : G.Free t c) (hne : x ≠ c) (hy : G.Reaches t x y) : (G.retire c).Reaches t x y := by
  induction hy with
  | refl => exact .refl
  | tail hxp hp ih =>
    refine ih.tail (owns_retire.2 ⟨?_, hp⟩)
    rintro rfl
    exact hne (hc.eq_of_reaches hxp)

theorem Evolves.retire (h : Evolves taken t G t' G') (hc : G'.Free t' c) (hnew : (t.size : Int) < c) :
    Evolves taken t G t' (G'.retire c) := by
  have hne : ∀ {x}, G.Live t x → x ≠ c := by
    intro x hx
    have hle := hx.le_size
    lia
  constructor
  · exact h.size
  · exact fun hx => .inl (h.gone_mono hx)
  · rintro x (hx | rfl)
    · exact h.gone_new hx
    · exact .inr hnew
  · exact h.alike
  · exact h.scope_mono
  · exact fun hfree hx => free_retire_of_ne (h.free hfree hx) (hne hfree.live)
  · exact h.scope_free
  · exact fun hfree hx hy => reaches_retire hc (hne hfree.live) (h.reaches hfree hx hy)

end Retire

theorem sound_defer (h : G.Sound t)
    (hd : G.Defers t key outer condition) : G.Sound (t.defer key (.disable outer condition)) where
  fits hw := h.fits hw
  live huv := ⟨(h.live huv).kept, (h.live huv).found⟩
  unique hu hv := h.unique hu hv
  nodup hkept hw := h.nodup hkept hw
  bound huv hs := h.bound huv hs
  needs hkept hw hs := h.needs hkept hw hs
  gone_plain hx := h.gone_plain hx
  deferred := by
    intro key' outer' condition' hmem
    rcases mem_deferred_defer.1 hmem with hold | hnew
    · exact ⟨(h.deferred hold).asked, (h.deferred hold).bound⟩
    · cases hnew
      exact ⟨hd.asked, hd.bound⟩

theorem evolves_defer : Evolves [] t G (t.defer key d) G where
  size := Nat.le_refl _
  gone_mono hx := hx
  gone_new hx := .inl hx
  alike hw := ⟨_, hw, .refl _⟩
  scope_mono _ hs := hs
  free hx _ := ⟨⟨hx.live.kept, hx.live.found⟩, hx.unheld⟩
  scope_free _ _ hs := hs
  reaches _ _ hy := hy

def blank : Ledger where
  gone _ := False
  scope _ _ := False

theorem sound_blank : blank.Sound .empty := by
  have hempty : ∀ {x w}, ¬ (.empty : Tree Deferral).get? x = some w := by
    intro x w hw
    rw [get?_empty] at hw
    cases hw
  have howns : ∀ {u v}, ¬ blank.Owns (.empty : Tree Deferral) u v := by
    intro u v huv
    obtain ⟨w, hw, -⟩ := huv.found
    exact hempty hw
  constructor
  · exact fun hw => absurd hw hempty
  · exact fun huv => absurd huv howns
  · exact fun huv => absurd huv howns
  · exact fun _ hw => absurd hw hempty
  · exact fun huv => absurd huv howns
  · exact fun _ hw => absurd hw hempty
  · exact False.elim
  · intro key outer condition hd
    cases hd

end Ledger
end Layout
end FlutterLayout
