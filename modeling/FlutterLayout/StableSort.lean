/-!
# Stable sort — runs, and symmetric merges of them

`stableSort before xs` puts `xs` in order and keeps elements in place of which neither is before the other.
It sorts runs of twenty elements by insertion and merges neighbouring runs until there is one left.
-/

namespace FlutterLayout

variable {α : Type}

def insertSorted (before : α → α → Bool) (xs : List α) (x : α) : List α :=
  let later := xs.reverse.takeWhile (before x)
  let earlier := xs.reverse.dropWhile (before x)
  earlier.reverse ++ x :: later.reverse

def insertionSort (before : α → α → Bool) (xs : List α) : List α :=
  xs.foldl (insertSorted before) []

/-- Halves the indices from `low` up to `high` until one is left: goes above an index at which `test` is
true, and below one at which it is not.  `fuel` bounds the number of halvings. -/
def bisect (test : Nat → Bool) : (fuel low high : Nat) → Nat
  | 0, low, _ => low
  | fuel + 1, low, high =>
    if low < high then
      let middle := (low + high) / 2
      if test middle then bisect test fuel (middle + 1) high else bisect test fuel low middle
    else low

/-- A test of an element of a list; no element passes it behind the end. -/
def testAt (xs : List α) (test : α → Bool) (i : Nat) : Bool :=
  (xs[i]?).any test

/-- Where to cut the lower run `xs`, so that its elements in front of the cut and the right number of those
of the upper run `ys` make up the lower half of the merged run. -/
def lowerCut (before : α → α → Bool) (xs ys : List α) : Nat :=
  let half := (xs.length + ys.length) / 2
  let low := if half < xs.length then half - ys.length else 0
  let high := min half xs.length
  let staysLow (i : Nat) : Bool :=
    match xs[i]?, ys[half - 1 - i]? with
    | some x, some y => !before y x
    | _, _ => false
  bisect staysLow (xs.length + ys.length) low high

/-- Merges two runs, of which `xs` comes first.  `fuel` bounds the depth of cutting them. -/
def symmetricMerge (before : α → α → Bool) : (fuel : Nat) → (xs ys : List α) → List α
  | 0, xs, ys => xs ++ ys
  | _ + 1, [], ys => ys
  | _ + 1, xs, [] => xs
  | _ + 1, [x], ys =>
    let i := bisect (testAt ys fun y => before y x) ys.length 0 ys.length
    ys.take i ++ x :: ys.drop i
  | _ + 1, xs, [y] =>
    let i := bisect (testAt xs fun x => !before y x) xs.length 0 xs.length
    xs.take i ++ y :: xs.drop i
  | fuel + 1, xs, ys =>
    let half := (xs.length + ys.length) / 2
    let i := lowerCut before xs ys
    symmetricMerge before fuel (xs.take i) (ys.take (half - i))
      ++ symmetricMerge before fuel (xs.drop i) (ys.drop (half - i))

def mergePairs (before : α → α → Bool) : List (List α) → List (List α)
  | xs :: ys :: runs => symmetricMerge before (xs.length + ys.length) xs ys :: mergePairs before runs
  | runs => runs

/-- Merges neighbouring runs until one is left; `fuel` bounds the number of rounds. -/
def mergeRuns (before : α → α → Bool) : (fuel : Nat) → List (List α) → List α
  | _, [] => []
  | _, [run] => run
  | 0, runs => runs.flatten
  | fuel + 1, runs => mergeRuns before fuel (mergePairs before runs)

def runLength : Nat := 20

def cutRuns : (fuel : Nat) → List α → List (List α)
  | 0, xs => [xs]
  | fuel + 1, xs =>
    if xs.length ≤ runLength then [xs] else xs.take runLength :: cutRuns fuel (xs.drop runLength)

/-- The elements in order; of two elements neither of which is before the other, the first stays first. -/
def stableSort (before : α → α → Bool) (xs : List α) : List α :=
  let runs := (cutRuns xs.length xs).map (insertionSort before)
  mergeRuns before runs.length runs

end FlutterLayout
