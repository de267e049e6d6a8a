import Smalltalk.Sorting.Merge
import Smalltalk.Sorting.Run

/-!
# `Smalltalk.Sorting`: a stable merge sort of runs

`Sorting.sort` cuts a list into runs and joins neighbours until one is left.
Which neighbours are joined first depends on the power of the boundary between
them: the depth at which halving the whole list, again and again, first comes
between their middles (`Sorting.power`). Boundaries of a greater power are
closed first, so that the joins are balanced whatever the lengths of the runs.

Where the relation is an order, elements that are equal in it stay in the order
they came in. It need not be one: then too the result is fixed, by the
questions asked and their answers.
-/

set_option autoImplicit false

namespace Smalltalk.Sorting

variable {α : Type}

/-- The power of the boundary between two neighbouring runs in a list of a size. -/
def power (size start left right : Nat) : Nat :=
  let first := 2 * start + left
  let second := first + left + right
  let depths := List.range (size.log2 + 1)
  let isBetween (k : Nat) : Bool := first * Nat.pow 2 k / size != second * Nat.pow 2 k / size
  (depths.find? isBetween).getD depths.length + 1

/-- The last run, the runs before it, the nearest first and each with the power of the
boundary behind it, and the patience for the next merge. -/
structure Pending (α : Type) where
  top : List α
  below : List (List α × Nat)
  patience : Nat

namespace Pending

/-- Joins the last runs while the boundary before them has more than a power. -/
def close (less : α → α → Bool) (limit patience : Nat) (top : List α) :
    List (List α × Nat) → Pending α
  | [] => ⟨top, [], patience⟩
  | (run, p) :: below =>
    if limit < p then
      let (joined, patience) := join less patience run top
      close less limit patience joined below
    else ⟨top, (run, p) :: below, patience⟩

/-- Takes in the next run of a list of a size. -/
def push (less : α → α → Bool) (size : Nat) (s : Pending α) (run : List α) : Pending α :=
  let start := (s.below.flatMap (·.1)).length
  let p := power size start s.top.length run.length
  let s := close less p s.patience s.top s.below
  ⟨run, (s.top, p) :: s.below, s.patience⟩

/-- Joins what is left from the back, a run with the shorter of its neighbours. -/
def finish (less : α → α → Bool) (patience : Nat) (top : List α) : List (List α × Nat) → List α
  | [] => top
  | [(run, _)] => (join less patience run top).1
  | (run, _) :: (before, q) :: below =>
    if before.length < top.length then
      let (joined, patience) := join less patience before run
      finish less patience top ((joined, q) :: below)
    else
      let (joined, patience) := join less patience run top
      finish less patience joined ((before, q) :: below)
termination_by below => below.length

end Pending

/-- A list sorted by a relation. -/
def sort (less : α → α → Bool) (xs : List α) : List α :=
  match runs less (shortest xs.length 0) xs with
  | [] => []
  | run :: rest =>
    let s := rest.foldl (Pending.push less xs.length) ⟨run, [], longLeap⟩
    Pending.finish less s.patience s.top s.below

end Smalltalk.Sorting
