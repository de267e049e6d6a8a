import Smalltalk.Json

/-!
# `Smalltalk.Dictionary`: values under names, in order of definition

A `Dictionary` holds one value under each key and remembers the order in
which the keys were first used and the name that was first written for
each. Giving a key a new value changes neither.

The lemmas say what `find?`, `contains` and `keys` answer after a `put`.
-/

set_option autoImplicit false

namespace Smalltalk

/-- One named value. -/
structure Entry (α : Type) where
  key : Key
  name : Json
  value : α
deriving Inhabited

/-- Named values in order of first definition. -/
structure Dictionary (α : Type) where
  entries : List (Entry α) := []
deriving Inhabited

namespace Dictionary

variable {α : Type}

/-- The dictionary with nothing in it. -/
def empty : Dictionary α := ⟨[]⟩

/-- Puts a value under a key in a list of entries. -/
def putEntry (key : Key) (name : Json) (value : α) : List (Entry α) → List (Entry α)
  | [] => [⟨key, name, value⟩]
  | e :: rest =>
    if e.key = key then { e with value := value } :: rest
    else e :: putEntry key name value rest

/-- Puts a value under a key; `name` is what the key is written as, and counts
only where the key is new. -/
def put (d : Dictionary α) (key : Key) (name : Json) (value : α) : Dictionary α :=
  ⟨putEntry key name value d.entries⟩

/-- The value under a key. -/
def find? (d : Dictionary α) (key : Key) : Option α :=
  (d.entries.find? fun e => e.key = key).map (·.value)

/-- Whether a key has a value. -/
def contains (d : Dictionary α) (key : Key) : Bool :=
  (d.find? key).isSome

/-- The keys, in order of first use. -/
def keys (d : Dictionary α) : List Key := d.entries.map (·.key)

/-- The names as first written, in that order. -/
def names (d : Dictionary α) : List Json := d.entries.map (·.name)

/-- How many keys there are. -/
def size (d : Dictionary α) : Nat := d.entries.length

@[simp] theorem find?_empty (key : Key) : (empty : Dictionary α).find? key = none := rfl

theorem find?_put (d : Dictionary α) (key other : Key) (name : Json) (value : α) :
    (d.put key name value).find? other = if other = key then some value else d.find? other := by
  unfold put find?
  simp only
  induction d.entries with
  | nil => by_cases h : other = key <;> simp [putEntry, h, eq_comm]
  | cons e rest ih =>
    by_cases hk : e.key = key
    · by_cases h : other = key
      · simp [putEntry, hk, h]
      · have : ¬ key = other := fun h' => h h'.symm
        simp [putEntry, hk, h, this]
    · by_cases h : e.key = other
      · have : ¬ other = key := fun h' => hk (h.trans h')
        simp [putEntry, h, this]
      · simp [putEntry, hk, h, ih]

@[simp] theorem find?_put_self (d : Dictionary α) (key : Key) (name : Json) (value : α) :
    (d.put key name value).find? key = some value := by
  simp [find?_put]

theorem find?_put_of_ne (d : Dictionary α) {key other : Key} (name : Json) (value : α)
    (h : other ≠ key) : (d.put key name value).find? other = d.find? other := by
  simp [find?_put, h]

theorem contains_put (d : Dictionary α) (key other : Key) (name : Json) (value : α) :
    (d.put key name value).contains other = (decide (other = key) || d.contains other) := by
  unfold contains
  rw [find?_put]
  by_cases h : other = key <;> simp [h]

/-- A new key goes to the end, a known one keeps its place. -/
theorem keys_put (d : Dictionary α) (key : Key) (name : Json) (value : α) :
    (d.put key name value).keys = if key ∈ d.keys then d.keys else d.keys ++ [key] := by
  unfold put keys
  simp only
  induction d.entries with
  | nil => simp [putEntry]
  | cons e rest ih =>
    by_cases hk : e.key = key
    · simp [putEntry, hk]
    · have hk' : ¬ key = e.key := fun h => hk h.symm
      by_cases hm : key ∈ rest.map (·.key)
      · simp only [List.map_cons, putEntry, hk, if_false, ih, hm, List.mem_cons, or_true, if_true]
      · simp [putEntry, hk, ih, hm, hk']

end Dictionary

end Smalltalk
