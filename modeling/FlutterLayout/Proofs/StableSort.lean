import Mathlib.Data.List.Perm.Basic
import FlutterLayout.StableSort

/-!
# Sorting keeps what there is, puts it in order and is stable

Runs are sorted by insertion and merged by cutting and joining, so nothing is lost and nothing is repeated
whatever `before` says: `stableSort before xs` is a permutation of `xs` also when `before` is no order.  Where
`before` compares keys, it is in the order of the keys, and for each key its elements are those of `xs` in the
order they have there (`stableSort_sorts`).

* `bisect_boundary` says of any test that it is true just in front of the index `bisect` gives and false at
  it; that is all that sorted runs need.
* `cut_inOrder` and `cut_lt` are the facts about the cut of two runs: nothing in front of it is behind anything
  beyond, and what is moved to the front across other elements has smaller keys than these.
-/

namespace FlutterLayout

open List

variable {α : Type} {before : α → α → Bool}

/-! ## Permutations -/

theorem insertSorted_parts (xs : List α) (x : α) :
    (xs.reverse.dropWhile (before x)).reverse ++ (xs.reverse.takeWhile (before x)).reverse = xs := by
  rw [← reverse_append, takeWhile_append_dropWhile, reverse_reverse]

theorem insertSorted_perm (xs : List α) (x : α) : (insertSorted before xs x).Perm (x :: xs) := by
  calc insertSorted before xs x
      = (xs.reverse.dropWhile (before x)).reverse ++ x :: (xs.reverse.takeWhile (before x)).reverse := rfl
    _ ~ x :: ((xs.reverse.dropWhile (before x)).reverse ++ (xs.reverse.takeWhile (before x)).reverse) := perm_middle
    _ = x :: xs := by rw [insertSorted_parts]

theorem foldl_insertSorted_perm (xs sorted : List α) : (xs.foldl (insertSorted before) sorted).Perm (sorted ++ xs) := by
  induction xs generalizing sorted with
  | nil => simp
  | cons x xs ih =>
    calc (x :: xs).foldl (insertSorted before) sorted
        ~ insertSorted before sorted x ++ xs := ih _
      _ ~ (x :: sorted) ++ xs := (insertSorted_perm sorted x).append_right xs
      _ ~ sorted ++ x :: xs := perm_middle.symm

theorem insertionSort_perm (xs : List α) : (insertionSort before xs).Perm xs := by
  simpa [insertionSort] using foldl_insertSorted_perm xs []

/-- Cutting two runs and joining their lower and their upper parts keeps all elements. -/
theorem perm_of_cut {lower upper xs ys : List α} {i j : Nat} (hlower : lower.Perm (xs.take i ++ ys.take j))
    (hupper : upper.Perm (xs.drop i ++ ys.drop j)) : (lower ++ upper).Perm (xs ++ ys) := by
  calc lower ++ upper
      ~ (xs.take i ++ ys.take j) ++ (xs.drop i ++ ys.drop j) := hlower.append hupper
    _ ~ (xs.take i ++ xs.drop i) ++ (ys.take j ++ ys.drop j) := by
        simp only [append_assoc]
        exact (perm_append_comm_assoc _ _ _).append_left _
    _ = xs ++ ys := by rw [take_append_drop, take_append_drop]

theorem symmetricMerge_perm (fuel : Nat) (xs ys : List α) : (symmetricMerge before fuel xs ys).Perm (xs ++ ys) := by
  fun_induction symmetricMerge before fuel xs ys with
  | case1 | case2 => exact .refl _
  | case3 => simp
  | case4 _ x ys _ i =>
    calc ys.take i ++ x :: ys.drop i
        ~ x :: (ys.take i ++ ys.drop i) := perm_middle
      _ = [x] ++ ys := by rw [take_append_drop]; rfl
  | case5 _ xs y _ _ i =>
    calc xs.take i ++ y :: xs.drop i
        ~ y :: (xs.take i ++ xs.drop i) := perm_middle
      _ = y :: xs := by rw [take_append_drop]
      _ ~ xs ++ [y] := (perm_append_singleton y xs).symm
  | case6 _ xs ys _ _ _ _ half i ihlower ihupper => exact perm_of_cut ihlower ihupper

theorem mergePairs_perm (runs : List (List α)) : (mergePairs before runs).flatten.Perm runs.flatten := by
  fun_induction mergePairs before runs with
  | case1 xs ys runs ih => simpa using (symmetricMerge_perm _ xs ys).append ih
  | case2 => exact .refl _

theorem mergeRuns_perm (fuel : Nat) (runs : List (List α)) : (mergeRuns before fuel runs).Perm runs.flatten := by
  fun_induction mergeRuns before fuel runs with
  | case1 | case3 => exact .refl _
  | case2 => simp
  | case4 fuel runs _ _ ih => exact ih.trans (mergePairs_perm runs)

theorem flatten_cutRuns (fuel : Nat) (xs : List α) : (cutRuns fuel xs).flatten = xs := by
  fun_induction cutRuns fuel xs with
  | case1 | case2 => simp
  | case3 fuel xs _ ih => simp [ih]

theorem flatten_map_perm (hf : ∀ xs, (f xs).Perm xs) (runs : List (List α)) :
    (runs.map f).flatten.Perm runs.flatten := by
  induction runs with
  | nil => exact .refl _
  | cons xs runs ih => simpa using (hf xs).append ih

theorem stableSort_perm (xs : List α) : (stableSort before xs).Perm xs := by
  calc stableSort before xs
      ~ ((cutRuns xs.length xs).map (insertionSort before)).flatten := mergeRuns_perm _ _
    _ ~ (cutRuns xs.length xs).flatten := flatten_map_perm insertionSort_perm _
    _ = xs := flatten_cutRuns _ xs

/-! ## Order -/

variable {key : α → Int} {P : α → Prop} {xs ys : List α} {x y : α} {fuel i : Nat}

def Ranks (before : α → α → Bool) (key : α → Int) (P : α → Prop) : Prop :=
  ∀ {a b : α}, P a → P b → (before a b = true ↔ key a < key b)

def InOrder (key : α → Int) (xs : List α) : Prop :=
  xs.Pairwise fun a b => key a ≤ key b

/-- `zs` has the elements of `xs` in the order of their keys, those of one key in the order of `xs`. -/
structure Sorts (key : α → Int) (xs zs : List α) : Prop where
  inOrder : InOrder key zs
  stable : ∀ k, zs.filter (key · = k) = xs.filter (key · = k)

/-- Two parts of a list change places without a change among the elements of one key, if no key is in both. -/
theorem filter_swap (xs ys : List α) (h : ∀ a ∈ xs, ∀ b ∈ ys, key a < key b) (k : Int) :
    (xs ++ ys).filter (key · = k) = (ys ++ xs).filter (key · = k) := by
  rw [filter_append, filter_append]
  by_cases hk : ∃ a ∈ xs, key a = k
  · obtain ⟨a, ha, rfl⟩ := hk
    have hnil : ys.filter (key · = key a) = [] :=
      filter_eq_nil_iff.2 fun b hb => by simpa using (Int.ne_of_lt (h a ha b hb)).symm
    rw [hnil, append_nil, nil_append]
  · have hnil : xs.filter (key · = k) = [] :=
      filter_eq_nil_iff.2 fun a ha => by simpa using fun heq => hk ⟨a, ha, heq⟩
    rw [hnil, append_nil, nil_append]

theorem Ranks.not_before (h : Ranks before key P) (hx : P x) (hy : P y) : before x y = false ↔ key y ≤ key x := by
  rw [← Bool.not_eq_true, h hx hy, Int.not_lt]

/-! ## Insertion -/

theorem insertSorted_sorts (h : Ranks before key P) (hx : P x) (hxs : ∀ a ∈ xs, P a) (hsorted : InOrder key xs) :
    Sorts key (xs ++ [x]) (insertSorted before xs x) := by
  have hparts := @insertSorted_parts _ before xs x
  have hlater : ∀ a ∈ xs.reverse.takeWhile (before x), key x < key a := by
    intro a ha
    have hmem : a ∈ xs := mem_reverse.1 (takeWhile_subset _ ha)
    exact (h hx (hxs a hmem)).1 (all_eq_true.1 all_takeWhile a ha)
  have hearlier : ∀ a ∈ xs.reverse.dropWhile (before x), key a ≤ key x := by
    have hrev : (xs.reverse.dropWhile (before x)).Pairwise fun a b => key b ≤ key a :=
      (pairwise_reverse.2 hsorted).sublist (dropWhile_sublist _)
    -- The first element that is left is not behind `x`, and the others are not behind that one.
    cases hdrop : xs.reverse.dropWhile (before x) with
    | nil => simp
    | cons first rest =>
      rw [hdrop, pairwise_cons] at hrev
      have hmem : first ∈ xs := by
        refine mem_reverse.1 (dropWhile_subset (before x) ?_)
        rw [hdrop]
        exact mem_cons_self
      have hfirst : before x first = false := by
        have hhead := head?_dropWhile_not (before x) xs.reverse
        rw [hdrop] at hhead
        simpa using hhead
      have hle : key first ≤ key x := (h.not_before hx (hxs first hmem)).1 hfirst
      intro a ha
      rcases mem_cons.1 ha with rfl | ha
      · exact hle
      · exact Int.le_trans (hrev.1 a ha) hle
  unfold InOrder at hsorted
  rw [← hparts, pairwise_append] at hsorted
  unfold insertSorted
  refine ⟨pairwise_append.2 ⟨hsorted.1, pairwise_cons.2 ⟨?_, hsorted.2.1⟩, ?_⟩, fun k => ?_⟩
  · exact fun a ha => Int.le_of_lt (hlater a (mem_reverse.1 ha))
  · intro a ha b hb
    rcases mem_cons.1 hb with rfl | hb
    · exact hearlier a (mem_reverse.1 ha)
    · exact hsorted.2.2 a ha b hb
  · have hswap := filter_swap [x] (xs.reverse.takeWhile (before x)).reverse
      (fun a ha b hb => mem_singleton.1 ha ▸ hlater b (mem_reverse.1 hb)) k
    rw [singleton_append] at hswap
    rw [filter_append, hswap, ← filter_append, ← append_assoc, hparts]

theorem insertionSort_sorts (h : Ranks before key P) (hxs : ∀ a ∈ xs, P a) :
    Sorts key xs (insertionSort before xs) := by
  have hfold : ∀ (xs front sorted : List α), (∀ a ∈ xs, P a) → (∀ a ∈ sorted, P a) → Sorts key front sorted →
      Sorts key (front ++ xs) (xs.foldl (insertSorted before) sorted) := by
    intro xs
    induction xs with
    | nil => exact fun front _ _ _ hsorted => (append_nil front).symm ▸ hsorted
    | cons x xs ih =>
      intro front sorted hxs hmem hsorted
      rw [forall_mem_cons] at hxs
      have hinsert : Sorts key _ (insertSorted before sorted x) := insertSorted_sorts h hxs.1 hmem hsorted.inOrder
      rw [append_cons]
      refine ih _ _ hxs.2 ?_ ⟨hinsert.inOrder, fun k => ?_⟩
      · intro a ha
        rcases mem_cons.1 ((insertSorted_perm sorted x).mem_iff.1 ha) with rfl | ha
        · exact hxs.1
        · exact hmem a ha
      · rw [hinsert.stable, filter_append, filter_append, hsorted.stable]
  exact hfold xs [] [] hxs (by simp) ⟨.nil, fun _ => rfl⟩

/-! ## Bisection -/

/-- The test is true just in front of the index and false at it, wherever these are between the bounds. -/
theorem bisect_boundary (hi : i = bisect test fuel low high) (hle : low ≤ high) (hfuel : high ≤ low + fuel) :
    low ≤ i ∧ i ≤ high ∧ (low < i → test (i - 1) = true) ∧ (i < high → test i = false) := by
  subst hi
  fun_induction bisect test fuel low high with
  | case1 | case4 => grind
  | case2 fuel low high hlt middle htest ih =>
    have hmiddle : low ≤ middle ∧ middle < high := by grind
    obtain ⟨hlow, hhigh, htrue, hfalse⟩ := ih (by lia) (by lia)
    refine ⟨by lia, hhigh, fun _ => ?_, hfalse⟩
    by_cases heq : bisect test fuel (middle + 1) high = middle + 1
    · rw [heq]
      simpa using htest
    · exact htrue (by lia)
  | case3 fuel low high hlt middle htest ih =>
    have hmiddle : low ≤ middle ∧ middle < high := by grind
    obtain ⟨hlow, hhigh, htrue, hfalse⟩ := ih (by lia) (by lia)
    refine ⟨hlow, by lia, htrue, fun _ => ?_⟩
    by_cases heq : bisect test fuel low middle = middle
    · rw [heq]
      simpa using htest
    · exact hfalse (by lia)

/-! ## Merging -/

/-- In a sorted list the last element in front of an index is the largest of those in front of it. -/
theorem InOrder.take_le (h : InOrder key xs) (hi : i ≤ xs.length)
    (hlast : 0 < i → ∀ y ∈ xs[i - 1]?, key y ≤ k) : ∀ a ∈ xs.take i, key a ≤ k := by
  intro a ha
  obtain ⟨j, hj, rfl⟩ := getElem_of_mem ha
  rw [length_take] at hj
  rw [getElem_take]
  have hlt : i - 1 < xs.length := by lia
  have hk := hlast (by lia) _ (getElem?_eq_getElem hlt)
  by_cases heq : j = i - 1
  · subst heq
    exact hk
  · exact Int.le_trans (pairwise_iff_getElem.1 h j (i - 1) _ hlt (by lia)) hk

theorem InOrder.le_drop (h : InOrder key xs) (hfirst : ∀ y ∈ xs[i]?, k ≤ key y) : ∀ a ∈ xs.drop i, k ≤ key a := by
  intro a ha
  obtain ⟨j, hj, rfl⟩ := getElem_of_mem ha
  rw [length_drop] at hj
  rw [getElem_drop]
  have hlt : i < xs.length := by lia
  have hk := hfirst _ (getElem?_eq_getElem hlt)
  by_cases heq : j = 0
  · subst heq
    exact hk
  · exact Int.le_trans hk (pairwise_iff_getElem.1 h i (i + j) hlt _ (by lia))

theorem InOrder.take_drop (h : InOrder key xs) (i : Nat) : ∀ a ∈ xs.take i, ∀ b ∈ xs.drop i, key a ≤ key b := by
  unfold InOrder at h
  rw [← take_append_drop i xs, pairwise_append] at h
  exact h.2.2

/-- An element goes in where all in front of it are at most as large and all behind it at least. -/
theorem InOrder.insertAt (h : InOrder key xs) (hfront : ∀ a ∈ xs.take i, key a ≤ key x)
    (hback : ∀ a ∈ xs.drop i, key x ≤ key a) : InOrder key (xs.take i ++ x :: xs.drop i) := by
  refine pairwise_append.2
    ⟨h.sublist (take_sublist _ _), pairwise_cons.2 ⟨hback, h.sublist (drop_sublist _ _)⟩, ?_⟩
  intro a ha b hb
  rcases mem_cons.1 hb with rfl | hb
  · exact hfront a ha
  · exact h.take_drop i a ha b hb

/-- The bounds between which the lower run is cut, and what the cut means for the elements beside it. -/
theorem lowerCut_boundary (before : α → α → Bool) (xs ys : List α)
    (hhalf : half = (xs.length + ys.length) / 2) (hi : i = lowerCut before xs ys) :
    i ≤ xs.length ∧ i ≤ half ∧ half - i ≤ ys.length ∧
      (0 < i → ∀ x ∈ xs[i - 1]?, ∀ y ∈ ys[half - i]?, before y x = false) ∧
      (0 < half - i → ∀ x ∈ xs[i]?, ∀ y ∈ ys[half - i - 1]?, before y x = true) := by
  unfold lowerCut at hi
  rw [← hhalf] at hi
  dsimp only at hi
  set low := if half < xs.length then half - ys.length else 0 with hlow
  set high := min half xs.length with hhigh
  have hbounds : low ≤ high ∧ high ≤ low + (xs.length + ys.length) ∧ half - low ≤ ys.length := by grind
  obtain ⟨hge, hle, htrue, hfalse⟩ := bisect_boundary hi hbounds.1 hbounds.2.1
  refine ⟨by lia, by lia, by lia, ?_, ?_⟩
  · intro hpos x hx y hy
    have hxy := htrue (by grind)
    have hsame : half - 1 - (i - 1) = half - i := by lia
    rw [hsame, Option.mem_def.1 hx, Option.mem_def.1 hy] at hxy
    simpa using hxy
  · intro hpos x hx y hy
    have hxy := hfalse (by grind)
    have hsame : half - 1 - i = half - i - 1 := by lia
    rw [hsame, Option.mem_def.1 hx, Option.mem_def.1 hy] at hxy
    simpa using hxy

theorem two_le_length (hne : xs ≠ []) (hone : ∀ x, xs ≠ [x]) : 2 ≤ xs.length := by
  rcases xs with - | ⟨x, - | ⟨y, xs⟩⟩
  · exact absurd rfl hne
  · exact absurd rfl (hone x)
  · simp

section

variable (h : Ranks before key P) (hxs : ∀ a ∈ xs, P a) (hys : ∀ a ∈ ys, P a) (hsx : InOrder key xs)
  (hsy : InOrder key ys)
include h hxs hys hsx hsy

/-- What the upper run has in front of its cut is smaller than what the lower run has beyond. -/
theorem cut_lt (hhalf : half = (xs.length + ys.length) / 2) (hi : i = lowerCut before xs ys) :
    ∀ a ∈ ys.take (half - i), ∀ b ∈ xs.drop i, key a < key b := by
  obtain ⟨-, -, hiy, -, hhigh⟩ := lowerCut_boundary before xs ys hhalf hi
  intro a ha b hb
  refine Int.lt_of_le_sub_one (hsy.take_le hiy (fun hpos y hy => ?_) a ha)
  refine Int.le_sub_one_of_lt (hsx.le_drop (k := key y + 1) (fun x hx => ?_) b hb)
  exact (h (hys y (mem_of_getElem? hy)) (hxs x (mem_of_getElem? hx))).1 (hhigh hpos x hx y hy)

/-- Nothing in front of the cut of two sorted runs is larger than anything beyond it. -/
theorem cut_inOrder (hhalf : half = (xs.length + ys.length) / 2) (hi : i = lowerCut before xs ys) :
    ∀ a ∈ xs.take i ++ ys.take (half - i), ∀ b ∈ xs.drop i ++ ys.drop (half - i), key a ≤ key b := by
  obtain ⟨hix, -, -, hlow, -⟩ := lowerCut_boundary before xs ys hhalf hi
  intro a ha b hb
  rcases mem_append.1 ha with ha | ha <;> rcases mem_append.1 hb with hb | hb
  · exact hsx.take_drop i a ha b hb
  · refine hsx.take_le hix (fun hpos x hx => ?_) a ha
    refine hsy.le_drop (fun y hy => ?_) b hb
    exact (h.not_before (hys y (mem_of_getElem? hy)) (hxs x (mem_of_getElem? hx))).1
      (hlow hpos x hx y hy)
  · exact Int.le_of_lt (cut_lt h hxs hys hsx hsy hhalf hi a ha b hb)
  · exact hsy.take_drop (half - i) a ha b hb

theorem symmetricMerge_sorts (hfuel : xs.length + ys.length ≤ fuel) :
    Sorts key (xs ++ ys) (symmetricMerge before fuel xs ys) := by
  fun_induction symmetricMerge before fuel xs ys with
  | case1 xs ys =>
    have hnil : xs = [] ∧ ys = [] := ⟨eq_nil_of_length_eq_zero (by lia), eq_nil_of_length_eq_zero (by lia)⟩
    rw [hnil.1, hnil.2]
    exact ⟨.nil, fun _ => rfl⟩
  | case2 => exact ⟨hsy, fun _ => rfl⟩
  | case3 => exact ⟨hsx, fun _ => by rw [append_nil]⟩
  | case4 _ x ys _ i =>
    obtain ⟨-, hle, htrue, hfalse⟩ : _ ∧ i ≤ ys.length ∧ _ :=
      bisect_boundary rfl (Nat.zero_le ys.length) (Nat.le_add_left _ _)
    have hx : P x := hxs x mem_cons_self
    have hfront : ∀ a ∈ ys.take i, key a < key x := by
      refine fun a ha => Int.lt_of_le_sub_one (hsy.take_le hle (fun hpos y hy => ?_) a ha)
      have hbefore := htrue hpos
      rw [testAt, Option.mem_def.1 hy] at hbefore
      exact Int.le_sub_one_of_lt ((h (hys y (mem_of_getElem? hy)) hx).1 hbefore)
    refine ⟨hsy.insertAt (fun a ha => Int.le_of_lt (hfront a ha)) (hsy.le_drop fun y hy => ?_), fun k => ?_⟩
    · have hbefore := hfalse (List.getElem?_eq_some_iff.1 hy).1
      rw [testAt, Option.mem_def.1 hy] at hbefore
      exact (h.not_before (hys y (mem_of_getElem? hy)) hx).1 hbefore
    · have hswap := filter_swap _ [x] (fun a ha b hb => mem_singleton.1 hb ▸ hfront a ha) k
      rw [append_cons, filter_append, hswap, ← filter_append, append_assoc, take_append_drop]
  | case5 _ xs y _ _ i =>
    obtain ⟨-, hle, htrue, hfalse⟩ : _ ∧ i ≤ xs.length ∧ _ :=
      bisect_boundary rfl (Nat.zero_le xs.length) (Nat.le_add_left _ _)
    have hy : P y := hys y mem_cons_self
    have hback : ∀ a ∈ xs.drop i, key y < key a := by
      refine hsx.le_drop (k := key y + 1) fun x hx => ?_
      have hbefore := hfalse (List.getElem?_eq_some_iff.1 hx).1
      rw [testAt, Option.mem_def.1 hx] at hbefore
      exact (h hy (hxs x (mem_of_getElem? hx))).1 (by simpa using hbefore)
    refine ⟨hsx.insertAt (hsx.take_le hle fun hpos x hx => ?_) fun a ha => Int.le_of_lt (hback a ha), fun k => ?_⟩
    · have hbefore := htrue hpos
      rw [testAt, Option.mem_def.1 hx] at hbefore
      exact (h.not_before hy (hxs x (mem_of_getElem? hx))).1 (by simpa using hbefore)
    · have hswap := filter_swap [y] _ (fun a ha b hb => mem_singleton.1 ha ▸ hback b hb) k
      change (_ ++ ([y] ++ _)).filter _ = _
      rw [filter_append, hswap, ← filter_append, ← append_assoc, take_append_drop]
  | case6 fuel xs ys hnx hny hsx1 hsy1 half i ihlower ihupper =>
    obtain ⟨hix, hih, hiy, -, -⟩ : i ≤ xs.length ∧ i ≤ half ∧ half - i ≤ ys.length ∧ _ :=
      lowerCut_boundary before xs ys rfl rfl
    have hlong : 2 ≤ xs.length ∧ 2 ≤ ys.length := ⟨two_le_length hnx hsx1, two_le_length hny hsy1⟩
    have htake : ∀ {zs : List α} (j : Nat), (∀ a ∈ zs, P a) → ∀ a ∈ zs.take j, P a :=
      fun j hzs a ha => hzs a (mem_of_mem_take ha)
    have hdrop : ∀ {zs : List α} (j : Nat), (∀ a ∈ zs, P a) → ∀ a ∈ zs.drop j, P a :=
      fun j hzs a ha => hzs a (mem_of_mem_drop ha)
    have hlower := ihlower (htake i hxs) (htake _ hys) (hsx.sublist (take_sublist _ _))
      (hsy.sublist (take_sublist _ _)) (by simp only [length_take]; grind)
    have hupper := ihupper (hdrop i hxs) (hdrop _ hys) (hsx.sublist (drop_sublist _ _))
      (hsy.sublist (drop_sublist _ _)) (by simp only [length_drop]; grind)
    refine ⟨pairwise_append.2 ⟨hlower.inOrder, hupper.inOrder, ?_⟩, fun k => ?_⟩
    · intro a ha b hb
      exact cut_inOrder h hxs hys hsx hsy rfl rfl a ((symmetricMerge_perm _ _ _).mem_iff.1 ha) b
        ((symmetricMerge_perm _ _ _).mem_iff.1 hb)
    · have hswap := filter_swap _ _ (cut_lt h hxs hys hsx hsy rfl rfl) k
      simp only [filter_append] at hswap
      have hparts : (xs ++ ys).filter (key · = k) =
          ((xs.take i ++ xs.drop i) ++ (ys.take (half - i) ++ ys.drop (half - i))).filter (key · = k) := by
        rw [take_append_drop, take_append_drop]
      rw [hparts, filter_append, hlower.stable, hupper.stable]
      simp only [filter_append, append_assoc]
      rw [← append_assoc ((ys.take _).filter _), hswap, append_assoc]

end

/-! ## The whole sort -/

theorem mergePairs_sorts (h : Ranks before key P) (hmem : ∀ run ∈ runs, ∀ a ∈ run, P a)
    (hsorted : ∀ run ∈ runs, InOrder key run) : (∀ run ∈ mergePairs before runs, InOrder key run) ∧
      ∀ k, (mergePairs before runs).flatten.filter (key · = k) = runs.flatten.filter (key · = k) := by
  fun_induction mergePairs before runs with
  | case1 xs ys runs ih =>
    simp only [forall_mem_cons] at hmem hsorted ⊢
    have hmerge := symmetricMerge_sorts h hmem.1 hmem.2.1 hsorted.1 hsorted.2.1 (Nat.le_refl _)
    obtain ⟨hrest, hstable⟩ := ih hmem.2.2 hsorted.2.2
    refine ⟨⟨hmerge.inOrder, hrest⟩, fun k => ?_⟩
    simp only [flatten_cons, filter_append, hmerge.stable, hstable, append_assoc]
  | case2 => exact ⟨hsorted, fun _ => rfl⟩

theorem length_mergePairs (runs : List (List α)) : (mergePairs before runs).length = (runs.length + 1) / 2 := by
  fun_induction mergePairs before runs with
  | case1 xs ys runs ih =>
    simp only [length_cons, ih]
    lia
  | case2 runs hshort =>
    rcases runs with - | ⟨xs, - | ⟨ys, runs⟩⟩
    · simp
    · simp
    · exact absurd rfl (hshort xs ys runs)

theorem mergeRuns_sorts (h : Ranks before key P) (hfuel : runs.length ≤ fuel + 1)
    (hmem : ∀ run ∈ runs, ∀ a ∈ run, P a) (hsorted : ∀ run ∈ runs, InOrder key run) :
    Sorts key runs.flatten (mergeRuns before fuel runs) := by
  fun_induction mergeRuns before fuel runs with
  | case1 => exact ⟨.nil, fun _ => rfl⟩
  | case2 => exact ⟨hsorted _ mem_cons_self, fun _ => by rw [flatten_singleton]⟩
  | case3 runs hne hone =>
    have hlong := two_le_length hne hone
    lia
  | case4 fuel runs hne hone ih =>
    have hlong := two_le_length hne hone
    obtain ⟨hpairs, hstable⟩ := mergePairs_sorts h hmem hsorted
    have hround := ih (by rw [length_mergePairs]; lia) (fun run hrun a ha => ?_) hpairs
    · exact ⟨hround.inOrder, fun k => (hround.stable k).trans (hstable k)⟩
    · have hflat : a ∈ runs.flatten := (mergePairs_perm runs).mem_iff.1 (mem_flatten.2 ⟨run, hrun, ha⟩)
      obtain ⟨run', hrun', ha'⟩ := mem_flatten.1 hflat
      exact hmem run' hrun' a ha'

theorem stableSort_sorts (h : Ranks before key P) (hxs : ∀ a ∈ xs, P a) : Sorts key xs (stableSort before xs) := by
  have hruns : ∀ run ∈ cutRuns xs.length xs, ∀ a ∈ run, P a := by
    intro run hrun a ha
    refine hxs a ?_
    rw [← flatten_cutRuns xs.length xs]
    exact mem_flatten.2 ⟨run, hrun, ha⟩
  have hmerge : Sorts key ((cutRuns xs.length xs).map (insertionSort before)).flatten (stableSort before xs) := by
    refine mergeRuns_sorts h (Nat.le_succ _) ?_ ?_
    · intro run hrun a ha
      obtain ⟨run', hrun', rfl⟩ := mem_map.1 hrun
      exact hruns run' hrun' a ((insertionSort_perm run').mem_iff.1 ha)
    · intro run hrun
      obtain ⟨run', hrun', rfl⟩ := mem_map.1 hrun
      exact (insertionSort_sorts h (hruns run' hrun')).inOrder
  refine ⟨hmerge.inOrder, fun k => (hmerge.stable k).trans ?_⟩
  have hcut : xs.filter (key · = k) = (cutRuns xs.length xs).flatten.filter (key · = k) := by rw [flatten_cutRuns]
  rw [hcut, filter_flatten, filter_flatten, map_map]
  exact congrArg _ (map_congr_left fun run hrun => (insertionSort_sorts h (hruns run hrun)).stable k)

end FlutterLayout
