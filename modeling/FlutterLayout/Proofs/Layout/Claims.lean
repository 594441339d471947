import Mathlib.Data.List.Flatten
import Mathlib.Data.List.Nodup
import Mathlib.Data.List.Pairwise
import FlutterLayout.Layout.Dispatch
import FlutterLayout.Proofs.StableSort

/-!
# Claims — what becomes of each attribute

The attributes of an element are gone through in source order, and each directive takes the present
attributes it names unless they are taken already.  An attribute is *used* when it is resolved itself or
is handed to a directive that is resolved.
-/

namespace FlutterLayout.Layout

open List Claim
open Directive (Handlers)
open Markup (Attribute)
open scoped List

variable {handlers : Handlers} {present attributes rest : List Attribute} {names taken : List Text}
variable {owner name : Text} {a b : Attribute} {c d : Claim}

/-! ## What one directive takes -/

/-- What is taken stands in front of what was taken before, the last one first. -/
theorem claimRelated_snd (present : List Attribute) (owner : Text) (names taken : List Text) :
    (claimRelated present owner names taken).2 =
      ((claimRelated present owner names taken).1.map Prod.fst).reverse ++ taken := by
  fun_induction claimRelated present owner names taken with
  | case1 => rfl
  | case2 _ _ _ _ _ _ ih | case4 _ _ _ _ ih => exact ih
  | case3 name names taken value _ _ claimed taken' heq ih =>
    rw [heq] at ih
    simpa using ih

theorem nodup_claimRelated (h : taken.Nodup) : (claimRelated present owner names taken).2.Nodup := by
  fun_induction claimRelated present owner names taken with
  | case1 => exact h
  | case2 _ _ _ _ _ _ ih | case4 _ _ _ _ ih => exact ih h
  | case3 name names taken value _ hfree claimed taken' heq ih =>
    have hnew : name ∉ taken := fun hmem => hfree (by simp [hmem])
    rw [heq] at ih
    exact ih (h.cons hnew)

theorem lookup_of_mem_claimRelated (h : a ∈ (claimRelated present owner names taken).1) :
    present.lookup a.1 = some a.2 := by
  fun_induction claimRelated present owner names taken with
  | case1 => cases h
  | case2 _ _ _ _ _ _ ih | case4 _ _ _ _ ih => exact ih h
  | case3 name names taken value hvalue hfree claimed taken' heq ih =>
    rw [heq] at ih
    rcases mem_cons.1 h with rfl | h
    · exact hvalue
    · exact ih h

/-! ## The pass over all attributes -/

def relatedNames (handlers : Handlers) (name : Text) : List Text :=
  ((handlers.get? name).map fun r => r.handler.related).getD []

namespace Claim

def own (c : Claim) : Attribute :=
  (c.name, c.value)

def uses (c : Claim) : List Attribute :=
  c.own :: c.related

end Claim

def takenBy (cs : List Claim) : List Text :=
  (cs.flatMap related).map Prod.fst

theorem mem_takenBy_iff : name ∈ takenBy cs ↔ ∃ c ∈ cs, ∃ b ∈ c.related, b.1 = name := by
  simp only [takenBy, mem_map, mem_flatMap]
  constructor
  · rintro ⟨b, ⟨c, hc, hb⟩, rfl⟩
    exact ⟨c, hc, b, hb, rfl⟩
  · rintro ⟨c, hc, b, hb, rfl⟩
    exact ⟨b, ⟨c, hc, hb⟩, rfl⟩

theorem claimAll_snd (present rest : List Attribute) (taken : List Text) : (claimAll handlers present rest taken).2 =
      (takenBy (claimAll handlers present rest taken).1).reverse ++ taken := by
  fun_induction claimAll handlers present rest taken with
  | case1 => rfl
  | case2 name value rest taken _ ih => exact ih
  | case3 name value rest taken _ registration? names related taken' hrel claims taken'' hclaims ih =>
    have htaken := claimRelated_snd present name names taken
    rw [hrel] at htaken
    rw [hclaims] at ih
    simp only at ih htaken
    simp [ih, htaken, takenBy]

theorem nodup_claimAll (h : taken.Nodup) : (claimAll handlers present rest taken).2.Nodup := by
  fun_induction claimAll handlers present rest taken with
  | case1 => exact h
  | case2 name value rest taken _ ih => exact ih h
  | case3 name value rest taken _ registration? names related taken' hrel claims taken'' hclaims ih =>
    have hnodup : (claimRelated present name names taken).2.Nodup := nodup_claimRelated h
    rw [hrel] at hnodup
    rw [hclaims] at ih
    exact ih hnodup

theorem own_sublist_claimAll : ((claimAll handlers present rest taken).1.map own).Sublist rest := by
  fun_induction claimAll handlers present rest taken with
  | case1 => exact .slnil
  | case2 name value rest taken _ ih => exact ih.cons _
  | case3 name value rest taken _ registration? names related taken' hrel claims taken'' hclaims ih =>
    rw [hclaims] at ih
    exact ih.cons_cons _

theorem own_or_taken_of_mem (h : a ∈ rest) : a ∈ (claimAll handlers present rest taken).1.map own ∨
    a.1 ∈ (claimAll handlers present rest taken).2 := by
  fun_induction claimAll handlers present rest taken with
  | case1 => cases h
  | case2 name value rest taken htaken ih =>
    rcases mem_cons.1 h with rfl | h
    · right
      rw [claimAll_snd]
      exact mem_append_right _ (by simpa using htaken)
    · exact ih h
  | case3 name value rest taken _ registration? names related taken' hrel claims taken'' hclaims ih =>
    rw [hclaims] at ih
    rcases mem_cons.1 h with rfl | h
    · exact .inl mem_cons_self
    · exact (ih h).imp_left (mem_cons_of_mem _)

theorem of_mem_claimAll (hc : c ∈ (claimAll handlers present rest taken).1) : c.registration? = handlers.get? c.name ∧
    ∃ taken, c.related = (claimRelated present c.name (relatedNames handlers c.name) taken).1 := by
  fun_induction claimAll handlers present rest taken with
  | case1 => cases hc
  | case2 name value rest taken _ ih => exact ih hc
  | case3 name value rest taken _ registration? names related taken' hrel claims taken'' hclaims ih =>
    rw [hclaims] at ih
    rcases mem_cons.1 hc with rfl | hc
    · exact ⟨rfl, taken, (congrArg Prod.fst hrel).symm⟩
    · exact ih hc

/-! ## Using each attribute -/

def pending (handlers : Handlers) (attributes : List Attribute) : List Claim :=
  (claimAll handlers attributes attributes []).1

def Takes (handlers : Handlers) (attributes : List Attribute) (a b : Attribute) : Prop :=
  ∃ c ∈ pending handlers attributes, c.own = a ∧ b ∈ c.related

def untaken (cs : List Claim) : List Claim :=
  cs.filter fun c => c.name ∉ takenBy cs

theorem claims_eq : claims handlers attributes = sortClaims (untaken (pending handlers attributes)) := by
  refine congrArg sortClaims (filter_congr fun c _ => ?_)
  rw [claimAll_snd, append_nil]
  change (!(takenBy (pending handlers attributes)).reverse.contains c.name) = _
  simp

theorem claims_perm_untaken : claims handlers attributes ~ untaken (pending handlers attributes) := by
  rw [claims_eq]
  exact stableSort_perm _

theorem mem_of_lookup {entries : List Attribute} {value : Text} (h : entries.lookup name = some value) :
    (name, value) ∈ entries := by
  obtain ⟨front, back, rfl, -⟩ := lookup_eq_some_iff.1 h
  simp

section Pass

variable (hnames : (attributes.map Prod.fst).Nodup)

theorem nodup_takenBy_pending : (takenBy (pending handlers attributes)).Nodup := by
  have h : (claimAll handlers attributes attributes []).2.Nodup := nodup_claimAll .nil
  rw [claimAll_snd, append_nil, nodup_reverse] at h
  exact h

theorem own_mem_attributes (hc : c ∈ pending handlers attributes) : c.own ∈ attributes :=
  own_sublist_claimAll.subset (mem_map_of_mem hc)

theorem related_mem_attributes (hc : c ∈ pending handlers attributes) (ha : a ∈ c.related) : a ∈ attributes := by
  obtain ⟨-, taken, hrel⟩ := of_mem_claimAll hc
  exact mem_of_lookup (lookup_of_mem_claimRelated (hrel ▸ ha))

include hnames in
theorem attribute_ext (ha : a ∈ attributes) (hb : b ∈ attributes) (h : a.1 = b.1) : a = b :=
  inj_on_of_nodup_map hnames ha hb h

include hnames in
theorem exists_takes (ha : a ∈ attributes) (h : a.1 ∈ takenBy (pending handlers attributes)) :
    ∃ c ∈ pending handlers attributes, a ∈ c.related := by
  obtain ⟨c, hc, b, hb, hname⟩ := mem_takenBy_iff.1 h
  obtain rfl := attribute_ext hnames ha (related_mem_attributes hc hb) hname.symm
  exact ⟨c, hc, hb⟩

theorem claim_ext_of_related (hc : c ∈ pending handlers attributes) (hd : d ∈ pending handlers attributes)
    (hac : a ∈ c.related) (had : a ∈ d.related) : c = d := by
  have hnodup : ((pending handlers attributes).flatMap related).Nodup := .of_map _ nodup_takenBy_pending
  have hsymm : Std.Symm (Function.onFun Disjoint related) := ⟨fun _ _ h _ hx hy => h hy hx⟩
  by_contra hne
  exact (nodup_flatMap.1 hnodup).2.forall hc hd hne hac had

include hnames in
theorem nodup_uses_untaken : ((untaken (pending handlers attributes)).flatMap uses).Nodup := by
  have hsplit : (untaken (pending handlers attributes)).flatMap uses ~
      (untaken (pending handlers attributes)).map own ++
        (untaken (pending handlers attributes)).flatMap related := by
    have := flatMap_append_perm (untaken (pending handlers attributes)) (fun c => [c.own]) related
    rw [← map_eq_flatMap] at this
    exact this.symm
  have hsub : (untaken (pending handlers attributes)).Sublist (pending handlers attributes) := filter_sublist
  rw [hsplit.nodup_iff, nodup_append']
  refine ⟨?_, ?_, ?_⟩
  · have hown : (pending handlers attributes).map own <+ attributes := own_sublist_claimAll
    exact (Nodup.of_map _ hnames).sublist ((hsub.map _).trans hown)
  · exact (Nodup.of_map _ nodup_takenBy_pending).sublist (hsub.flatMap _)
  · -- what a claim takes is taken, and what is resolved is not
    intro a hown hrel
    obtain ⟨c, hc, rfl⟩ := mem_map.1 hown
    obtain ⟨d, hd, had⟩ := mem_flatMap.1 hrel
    have hfree := (mem_filter.1 hc).2
    have htaken : c.name ∈ takenBy (pending handlers attributes) :=
      mem_takenBy_iff.2 ⟨d, hsub.subset hd, c.own, had, rfl⟩
    simp [htaken] at hfree

include hnames in
/-- An attribute is used unless it is taken by one that is taken itself. -/
theorem mem_uses_untaken_iff (ha : a ∈ attributes) : a ∈ (untaken (pending handlers attributes)).flatMap uses ↔
    ¬ ∃ b d, Takes handlers attributes d b ∧ Takes handlers attributes b a := by
  have huntaken : ∀ {c}, c ∈ untaken (pending handlers attributes) ↔
      c ∈ pending handlers attributes ∧ c.name ∉ takenBy (pending handlers attributes) := by
    intro c
    simp [untaken]
  constructor
  · rintro hused ⟨b, d, ⟨y, hy, rfl, hyb⟩, ⟨x, hx, rfl, hxa⟩⟩
    obtain ⟨c, hc, hca⟩ := mem_flatMap.1 hused
    obtain ⟨hc, hfree⟩ := huntaken.1 hc
    rcases mem_cons.1 hca with rfl | hca
    · exact hfree (mem_takenBy_iff.2 ⟨x, hx, c.own, hxa, rfl⟩)
    · obtain rfl := claim_ext_of_related hc hx hca hxa
      exact hfree (mem_takenBy_iff.2 ⟨y, hy, c.own, hyb, rfl⟩)
  · intro hkept
    by_cases htaken : a.1 ∈ takenBy (pending handlers attributes)
    · obtain ⟨c, hc, hca⟩ := exists_takes hnames ha htaken
      have hfree : c.name ∉ takenBy (pending handlers attributes) := by
        intro hmem
        obtain ⟨d, hd, hdc⟩ := exists_takes hnames (own_mem_attributes hc) hmem
        exact hkept ⟨c.own, d.own, ⟨d, hd, rfl, hdc⟩, ⟨c, hc, rfl, hca⟩⟩
      exact mem_flatMap.2 ⟨c, huntaken.2 ⟨hc, hfree⟩, mem_cons_of_mem _ hca⟩
    · have hown : a ∈ (pending handlers attributes).map own := by
        refine (own_or_taken_of_mem ha).resolve_right fun hmem => htaken ?_
        rw [claimAll_snd, append_nil, mem_reverse] at hmem
        exact hmem
      obtain ⟨c, hc, rfl⟩ := mem_map.1 hown
      exact mem_flatMap.2 ⟨c, huntaken.2 ⟨hc, htaken⟩, mem_cons_self⟩

end Pass

/-- No attribute is used twice, and an attribute is used once exactly when it is not taken by one that is
taken itself. -/
theorem count_uses_claims (hnames : (attributes.map Prod.fst).Nodup) (ha : a ∈ attributes) :
    ((claims handlers attributes).flatMap Claim.uses).count a ≤ 1 ∧
      (((claims handlers attributes).flatMap Claim.uses).count a = 1 ↔
        ¬ ∃ b c, Takes handlers attributes c b ∧ Takes handlers attributes b a) := by
  have hperm : (claims handlers attributes).flatMap Claim.uses ~
      (untaken (pending handlers attributes)).flatMap Claim.uses := claims_perm_untaken.flatMap_right _
  have hnodup : ((untaken (pending handlers attributes)).flatMap Claim.uses).Nodup := nodup_uses_untaken hnames
  rw [hperm.count_eq, ← mem_uses_untaken_iff hnames ha]
  have hle := List.nodup_iff_count_le_one.1 hnodup a
  refine ⟨hle, fun h => List.count_pos_iff.1 (by omega), fun h => ?_⟩
  have := List.count_pos_iff.2 h
  omega

theorem count_uses_claims_sizedBox :
    let attributes : List Attribute := [(":height", "2"), ("color", "Colors.red"), (":width", "1")]
    let width : Attribute := (":width", "1")
    (attributes.map Prod.fst).Nodup ∧ width ∈ attributes ∧
      ((claims Directive.standard attributes).flatMap Claim.uses).count width ≤ 1 ∧
      (((claims Directive.standard attributes).flatMap Claim.uses).count width = 1 ↔
        ¬ ∃ b c, Takes Directive.standard attributes c b ∧ Takes Directive.standard attributes b width) := by
  intro attributes width
  exact ⟨by decide, by decide, count_uses_claims (by decide) (by decide)⟩

/-- An attribute can be lost: here `c` is taken by `:b`, which comes first and is then taken by `:a`. -/
theorem exists_lost_attribute : ∃ (handlers : Handlers) (attributes : List Attribute), ∃ a ∈ attributes,
    (attributes.map Prod.fst).Nodup ∧ a ∉ (claims handlers attributes).flatMap Claim.uses :=
  ⟨⟨[(":a", ⟨.rule { related := [":b"] }, none⟩), (":b", ⟨.rule { related := ["c"] }, none⟩)]⟩,
    [(":b", "1"), (":a", "2"), ("c", "3")], ("c", "3"), by decide, by decide, by decide +kernel⟩

end FlutterLayout.Layout
