import Smalltalk.Sorting.Search

/-!
# `Smalltalk.Sorting.Run`: stretches that are in order already

A run is a stretch of neighbours none of which is less than the one before it,
or each of which is, and which is then turned round (`Sorting.firstRun`). A run
that is too short for merging takes in what follows it, one element at a time
(`Sorting.insert`). `Sorting.runs` cuts a list into runs.
-/

set_option autoImplicit false

namespace Smalltalk.Sorting

variable {α : Type}

/-- The longest stretch from `x` on with a relation between neighbours, and the rest. -/
def chain (next : α → α → Bool) (x : α) : List α → List α × List α
  | [] => ([x], [])
  | y :: ys =>
    if next x y then
      let (stretch, rest) := chain next y ys
      (x :: stretch, rest)
    else ([x], y :: ys)

/-- The run at the front of a list, in order, and the rest. -/
def firstRun (less : α → α → Bool) : List α → List α × List α
  | [] => ([], [])
  | [x] => ([x], [])
  | x :: y :: ys =>
    if less y x then
      let (stretch, rest) := chain (fun u v => less v u) x (y :: ys)
      (stretch.reverse, rest)
    else chain (fun u v => !less v u) x (y :: ys)

/-- Puts an element behind those of a run that it is not less than. -/
def insert (less : α → α → Bool) (run : Array α) (x : α) : Array α :=
  run.insertIdxIfInBounds (halve (fun y => !less x y) run 0 run.size) x

/-- How long a run of a list has to be: all of a list shorter than 64, otherwise
so that halving the list leads to it, rounded up. -/
def shortest (size : Nat) (odd : Nat) : Nat :=
  if 64 ≤ size then shortest (size / 2) (max odd (size % 2)) else size + odd
termination_by size

/-- The rest behind a stretch is no longer than what follows its first element. -/
theorem length_chain_snd_le (next : α → α → Bool) (x : α) (xs : List α) :
    (chain next x xs).2.length ≤ xs.length := by
  induction xs generalizing x with
  | nil => simp [chain]
  | cons y ys ih =>
    rw [chain]
    split
    · exact Nat.le_succ_of_le (ih y)
    · exact Nat.le_refl _

/-- The rest behind the first run is shorter than the list. -/
theorem length_firstRun_snd_le (less : α → α → Bool) (x : α) (xs : List α) :
    (firstRun less (x :: xs)).2.length ≤ xs.length := by
  cases xs with
  | nil => simp [firstRun]
  | cons y ys =>
    rw [firstRun]
    split <;> exact length_chain_snd_le _ x (y :: ys)

/-- A list cut into runs of at least a length, the last one apart. -/
def runs (less : α → α → Bool) (least : Nat) : List α → List (List α)
  | [] => []
  | x :: xs =>
    let found := firstRun less (x :: xs)
    let wanted := least - found.1.length
    let run := (found.2.take wanted).foldl (insert less) found.1.toArray
    run.toList :: runs less least (found.2.drop wanted)
termination_by xs => xs.length
decreasing_by
  have := length_firstRun_snd_le less x xs
  simp only [List.length_drop, List.length_cons]
  omega

end Smalltalk.Sorting
