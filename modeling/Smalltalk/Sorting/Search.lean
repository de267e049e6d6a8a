/-!
# `Smalltalk.Sorting.Search`: where a key belongs

A search asks of elements whether they stay before a key, and answers a place
that splits the elements: in a list in order, those before the place stay
before the key and the others do not. `Sorting.halve` halves a stretch,
`Sorting.split` leaps away from a place where the key is expected, ever
further, and then halves the last leap.

Where the question does not split the elements, as with a number that is not
in order with any other, the place still depends on the elements asked, and so
the two searches may differ.
-/

set_option autoImplicit false

namespace Smalltalk.Sorting

variable {α : Type}

/-- Whether the element at a place stays before the key; what is behind the end does. -/
def staysAt (stays : α → Bool) (xs : Array α) (i : Nat) : Bool := xs[i]?.all stays

/-- The place between `low` and `high` that halving leads to. -/
def halve (stays : α → Bool) (xs : Array α) (low high : Nat) : Nat :=
  if low < high then
    let middle := (low + high) / 2
    if staysAt stays xs middle then halve stays xs (middle + 1) high
    else halve stays xs low middle
  else low
termination_by high - low

/-- The last two distances of the leaps up from a place, while what they reach
stays before the key and within a bound. -/
def leapUp (stays : α → Bool) (xs : Array α) (start bound last next : Nat) : Nat × Nat :=
  if next < bound && staysAt stays xs (start + next) then
    leapUp stays xs start bound next (2 * next + 1)
  else (last, min next bound)
termination_by bound - next
decreasing_by simp_all; omega

/-- The last two distances of the leaps down from a place, while what they reach
does not stay before the key and within a bound. -/
def leapDown (stays : α → Bool) (xs : Array α) (start bound last next : Nat) : Nat × Nat :=
  if next < bound && !staysAt stays xs (start - next) then
    leapDown stays xs start bound next (2 * next + 1)
  else (last, min next bound)
termination_by bound - next
decreasing_by simp_all; omega

/-- The place that leaps from `start` lead to. -/
def split (stays : α → Bool) (xs : Array α) (start : Nat) : Nat :=
  if staysAt stays xs start then
    let (last, next) := leapUp stays xs start (xs.size - start) 0 1
    halve stays xs (start + last + 1) (start + next)
  else
    let (last, next) := leapDown stays xs start (start + 1) 0 1
    halve stays xs (start + 1 - next) (start - last)

end Smalltalk.Sorting
