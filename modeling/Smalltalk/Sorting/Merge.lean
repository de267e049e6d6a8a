import Smalltalk.Sorting.Search

/-!
# `Smalltalk.Sorting.Merge`: joining two neighbouring runs

`Sorting.join` makes one run of two. What of the left run stays before all of
the right one and what of the right run stays behind all of the left one is
left where it is; the shorter of the two middles is then merged into the other,
from the front if the left one is shorter, from the back otherwise.

Merging goes by steps, one element after the other, until one run wins often
enough in a row, and then by leaps, a stretch of each run in turn, as long as
the stretches are long (`Sorting.Pace`). How often is enough, the patience, is
kept from one merge to the next: leaps that pay lower it, steps taken up again
raise it.
-/

set_option autoImplicit false

namespace Smalltalk.Sorting

variable {α : Type}

/-- The end from which two runs are merged. From the back both runs and the
result are turned round. -/
inductive Direction where
  | front
  | back

namespace Direction

/-- Whether the order of what is left is clear: a run has come to its end, or the
shorter run to its last element, which is known to come after the other run. -/
def isDone : Direction → List α → List α → Bool
  | .front, left, right => left.length ≤ 1 || right.isEmpty
  | .back, left, right => right.length ≤ 1 || left.isEmpty

/-- What is left, in order. -/
def remainder : Direction → List α → List α → List α
  | .front, left, right => right ++ left
  | .back, left, right => left ++ right

/-- Whether the first of the right run goes before the first of the left run. -/
def takesRight (less : α → α → Bool) (x y : α) : Direction → Bool
  | .front => less y x
  | .back => !less y x

/-- How many elements of a run a leap takes, where `stays` says which of them come
before the key in order. -/
def reach (stays : α → Bool) (run : List α) : Direction → Nat
  | .front => split stays run.toArray 0
  | .back => run.length - split stays run.reverse.toArray (run.length - 1)

end Direction

/-- How a merge goes on: by steps, with the number of times in a row that the left
or the right run has won, or by leaps, of the left run next or, after a leap of
some length, of the right run. -/
inductive Pace where
  | steps (left right : Nat)
  | leapLeft
  | leapRight (left : Nat)

/-- The number of elements from which on leaps pay. -/
def longLeap : Nat := 7

/-- Steps, or leaps where a run has won as often as patience allows. -/
def Pace.after (patience left right : Nat) : Pace :=
  if patience ≤ max left right then .leapLeft else .steps left right

/-- Two runs merged, and the patience after it. -/
def merge (less : α → α → Bool) (d : Direction) (pace : Pace) (patience : Nat)
    (left right : List α) : List α × Nat :=
  if d.isDone left right then (d.remainder left right, patience)
  else
    match left, right with
    | [], _ | _, [] => (d.remainder left right, patience)
    | x :: xs, y :: ys =>
      match pace with
      | .steps wonLeft wonRight =>
        if d.takesRight less x y then
          let (zs, p) := merge less d (.after patience 0 (wonRight + 1)) patience (x :: xs) ys
          (y :: zs, p)
        else
          let (zs, p) := merge less d (.after patience (wonLeft + 1) 0) patience xs (y :: ys)
          (x :: zs, p)
      | .leapLeft =>
        let k := d.reach (fun z => !less y z) (x :: xs)
        let stretch := (x :: xs).take k
        let rest := (x :: xs).drop k
        if d.isDone rest (y :: ys) then (stretch ++ d.remainder rest (y :: ys), patience)
        else
          let (zs, p) := merge less d (.leapRight k) patience rest ys
          (stretch ++ y :: zs, p)
      | .leapRight k =>
        let m := d.reach (fun z => less z x) (y :: ys)
        let stretch := (y :: ys).take m
        let rest := (y :: ys).drop m
        if d.isDone (x :: xs) rest then (stretch ++ d.remainder (x :: xs) rest, patience)
        else if d.isDone xs rest then (stretch ++ x :: d.remainder xs rest, patience)
        else
          let (zs, p) :=
            if longLeap ≤ max k m then merge less d .leapLeft (max 1 (patience - 1)) xs rest
            else merge less d (.steps 0 0) (patience + 1) xs rest
          (stretch ++ x :: zs, p)
termination_by left.length + right.length
decreasing_by all_goals simp +zetaDelta only [List.length_cons, List.length_drop]; omega

/-- One run of two neighbours, and the patience after it. -/
def join (less : α → α → Bool) (patience : Nat) (left right : List α) : List α × Nat :=
  match right with
  | [] => (left, patience)
  | y :: _ =>
    let k := split (fun z => !less y z) left.toArray 0
    let middle := left.drop k
    match middle.getLast? with
    | none => (left ++ right, patience)
    | some x =>
      let m := split (fun z => less z x) right.toArray (right.length - 1)
      let other := right.take m
      let (merged, p) :=
        if middle.length ≤ other.length then
          let (zs, p) := merge less .front (.steps 0 0) patience middle other.tail
          (other.take 1 ++ zs, p)
        else
          let before := middle.dropLast.reverse
          let (zs, p) := merge less .back (.steps 0 0) patience before other.reverse
          ((x :: zs).reverse, p)
      (left.take k ++ merged ++ right.drop m, p)

end Smalltalk.Sorting
