import FlutterLayout.Proofs.Layout.Claims

/-!
# ClaimOrder — attributes are resolved in the order of their priorities

Priorities are compared by a difference that may wrap around.  Those of the standard directives are close to
each other, so for them the comparison is the order of the numbers, and claims are sorted (`claims_inOrder`).
In particular `:repeat` comes last (`eq_nil_of_repeat`).  Other registries sort claims, too, as long as no two of
the priorities are so far apart that their difference wraps around (`resolveAttributes_inOrder`); beyond that it
fails (`exists_claims_not_inOrder`).
-/

namespace FlutterLayout

open List Directive

theorem Registry.mem_of_get? {α : Type} {r : Registry α} {name : Text} {v : α} (h : r.get? name = some v) :
    (name, v) ∈ r.entries := by
  obtain ⟨front, back, hentries, -⟩ := lookup_eq_some_iff.1 h
  rw [hentries]
  simp

namespace Layout

variable {attributes : List Markup.Attribute} {c d : Claim} {front back : List Claim}

/-! ## Registrations -/

theorem of_mem_claims
    (hc : c ∈ claims handlers attributes) : c.own ∈ attributes ∧ c.registration? = handlers.get? c.name := by
  have hpending : c ∈ pending handlers attributes := (mem_filter.1 (claims_perm_untaken.mem_iff.1 hc)).1
  exact ⟨own_mem_attributes hpending, (of_mem_claimAll hpending).1⟩

/-- Priorities whose differences do not wrap around are compared as numbers. -/
theorem Claim.before_iff (hcd : c.priority.toInt - d.priority.toInt < 9223372036854775808)
    (hdc : d.priority.toInt - c.priority.toInt < 9223372036854775808) :
    c.before d = true ↔ c.priority.toInt < d.priority.toInt := by
  unfold before
  rw [decide_eq_true_eq, Int64.lt_iff_toInt_lt, Int64.toInt_sub, Int.bmod_eq_of_le (by lia) (by lia)]
  change c.priority.toInt - d.priority.toInt < 0 ↔ _
  lia

/-! ## Standard directives -/

def Claim.IsStandard (c : Claim) : Prop :=
  c.registration? = standard.get? c.name

/-- The standard directives: their priorities, and which one has the last. -/
theorem standard_priorities : ∀ q ∈ standard.entries,
    (-1000 ≤ q.2.handler.priority.toInt ∧ q.2.handler.priority.toInt ≤ 200000) ∧
      (q.2.handler.priority.toInt = 200000 ↔ q.2.handler = .repeat) ∧
      (q.2.handler = .repeat → q.1 = repeatName) := by decide +kernel

namespace Claim.IsStandard

theorem priority_bounds (h : c.IsStandard) : -1000 ≤ c.priority.toInt ∧ c.priority.toInt ≤ 200000 := by
  unfold priority
  cases hr : c.registration? with
  | none => decide
  | some r => exact (standard_priorities _ (Registry.mem_of_get? (h.symm.trans hr))).1

theorem priority_eq (h : c.IsStandard) (hlast : 200000 ≤ c.priority.toInt) : c.name = repeatName := by
  have hle := h.priority_bounds.2
  unfold priority at hlast hle
  cases hr : c.registration? with
  | none =>
    rw [hr] at hlast
    exact absurd hlast (by decide)
  | some r =>
    rw [hr] at hlast hle
    obtain ⟨-, hprio, hname⟩ := standard_priorities _ (Registry.mem_of_get? (h.symm.trans hr))
    exact hname (hprio.1 (Int.le_antisymm hle hlast))

end Claim.IsStandard

theorem ranks_before : Ranks Claim.before (fun c => c.priority.toInt) Claim.IsStandard := by
  intro c d hc hd
  have hc := hc.priority_bounds
  have hd := hd.priority_bounds
  exact Claim.before_iff (by lia) (by lia)

theorem claims_inOrder : InOrder (fun c => c.priority.toInt) (claims standard attributes) := by
  refine (stableSort_sorts ranks_before fun c hc => ?_).inOrder
  exact (of_mem_claimAll (mem_of_mem_filter hc)).1

/-- Behind `:repeat` nothing is applied, if no attribute is written twice. -/
theorem eq_nil_of_repeat (hnodup : (attributes.map Prod.fst).Nodup)
    (hclaims : claims standard attributes = front ++ c :: back)
    (hrepeat : c.priority.toInt = 200000) : back = [] := by
  refine eq_nil_iff_forall_not_mem.2 fun d hd => ?_
  have hstd : ∀ {x : Claim}, x ∈ claims standard attributes → x.IsStandard :=
    fun hx => (of_mem_claims hx).2
  have hnames : ((claims standard attributes).map Claim.name).Nodup := by
    refine (List.Perm.map Claim.name claims_perm_untaken).nodup_iff.2 (List.Nodup.sublist ?_ hnodup)
    have hown : (pending standard attributes).map Claim.name
        = ((pending standard attributes).map Claim.own).map Prod.fst := by
      rw [map_map]
      rfl
    exact (filter_sublist.map _).trans (hown ▸ own_sublist_claimAll.map _)
  have horder : InOrder (fun c => c.priority.toInt) (claims standard attributes) := claims_inOrder
  have hc : c ∈ claims standard attributes := by simp [hclaims]
  have hd' : d ∈ claims standard attributes := by simp [hclaims, hd]
  unfold InOrder at horder
  rw [hclaims, pairwise_append, pairwise_cons] at horder
  rw [hclaims, map_append, map_cons, nodup_append'] at hnames
  have hlast : 200000 ≤ d.priority.toInt := hrepeat ▸ horder.2.1.1 d hd
  have hsame : d.name = c.name :=
    ((hstd hd').priority_eq hlast).trans ((hstd hc).priority_eq (Int.le_of_eq hrepeat.symm)).symm
  exact (nodup_cons.1 hnames.2.1).1 (hsame ▸ mem_map_of_mem hd)

/-! ## Other registries -/

open Markup (Attribute)

variable {handlers : Handlers}

/-- No two of the priorities are so far apart that their difference wraps around. -/
def Close (cs : List Claim) : Prop :=
  ∀ c ∈ cs, ∀ d ∈ cs, c.priority.toInt - d.priority.toInt < 9223372036854775808

theorem claims_sorts (h : Close (claims handlers attributes)) :
    Sorts (fun c => c.priority.toInt) (untaken (pending handlers attributes)) (claims handlers attributes) := by
  have hranks : Ranks Claim.before (fun c => c.priority.toInt) (· ∈ claims handlers attributes) :=
    fun hc hd => Claim.before_iff (h _ hc _ hd) (h _ hd _ hc)
  rw [claims_eq] at hranks ⊢
  exact stableSort_sorts hranks fun c hc => (stableSort_perm _).mem_iff.2 hc

/-- The attributes that no other one takes are resolved in the order of the priorities of their directives, those of
one priority in source order, unless two priorities are too far apart. -/
theorem resolveAttributes_inOrder (o : Options) (e : Markup.Element) (attributes : List Attribute) (target : Target)
    (h : Close (claims o.handlers attributes)) :
    resolveAttributes o e attributes target = (claims o.handlers attributes).foldlM (resolveClaim o e) target ∧
      claims o.handlers attributes ~ untaken (pending o.handlers attributes) ∧
      InOrder (fun c => c.priority.toInt) (claims o.handlers attributes) ∧
      ∀ k, ((claims o.handlers attributes).filter (·.priority.toInt = k)).map Claim.own <+ attributes := by
  have hsorts := claims_sorts h
  refine ⟨rfl, claims_perm_untaken, hsorts.inOrder, fun k => ?_⟩
  rw [hsorts.stable k]
  exact (filter_sublist.trans filter_sublist).map Claim.own |>.trans own_sublist_claimAll

/-- The first two directives change places; the two plain attributes stay in source order between them. -/
theorem resolveAttributes_inOrder_fourAttributes :
    let o : Options := { handlers := ⟨[(":far", ⟨.rule { priority := 300 }, none⟩),
      (":near", ⟨.rule { priority := -5 }, none⟩)]⟩ }
    let attributes : List Attribute := [(":far", "1"), ("b", "2"), (":near", "3"), ("a", "4")]
    let order : List Attribute := [(":near", "3"), ("b", "2"), ("a", "4"), (":far", "1")]
    Close (claims o.handlers attributes) ∧ (claims o.handlers attributes).map Claim.own = order ∧
      InOrder (fun c => c.priority.toInt) (claims o.handlers attributes) := by
  intro o attributes order
  have hclose : Close (claims o.handlers attributes) := by unfold Close; decide +kernel
  exact ⟨hclose, by decide +kernel,
    (resolveAttributes_inOrder o (.mk "A" attributes ⟨1, 1⟩ []) attributes (.bare 1) hclose).2.2.1⟩

/-- The difference of the two priorities is beyond the greatest number, and so it is taken to be negative. -/
theorem exists_claims_not_inOrder : ∃ (handlers : Handlers) (attributes : List Attribute),
    (attributes.map Prod.fst).Nodup ∧ ¬ InOrder (fun c => c.priority.toInt) (claims handlers attributes) :=
  ⟨⟨[(":far", ⟨.rule { priority := 9223372036854775807 }, none⟩), (":near", ⟨.rule { priority := -10 }, none⟩)]⟩,
    [(":far", "1"), (":near", "2")], by decide, by unfold InOrder; decide +kernel⟩

end Layout
end FlutterLayout
