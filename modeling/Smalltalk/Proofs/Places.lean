import Smalltalk.Proofs.Equality
import Smalltalk.Proofs.Structure

/-!
# `Smalltalk.Proofs.Places`: elements and slots by their index

What a value holds comes in two parts (`Part`): the elements of an array or of an object, and
the slots of an object. `at:` and `at:put:` go to the elements, `instVarAt:` and
`instVarAt:put:` to the slots, and both count from one (`Value.place?`). The code of a method
goes to the slots of its receiver by references and assignments, which count from zero.

The two parts are one family, so there is one account of fetching and storing
(`Memory.Accesses`). A store that succeeds changes one place of one part of one value
(`Memory.Puts`), whatever name the value goes by, and everything that fails changes nothing.
`Memory.Varies` says that references and assignments are at the same slots, and
`places_agree` puts this together.
-/

set_option autoImplicit false

namespace Smalltalk

variable {settings : Settings} {m m' : Memory} {depth : Nat}

/-! ### Places -/

/-- The place that an index from one names among so many: it has to be a SmallInteger, and not
beyond them. -/
def Value.place? (index : Value) (size : Nat) : Option Nat :=
  match index with
  | .int i => if SmallInteger.holds i ∧ 1 ≤ i ∧ i ≤ size then some (i - 1).toNat else none
  | _ => none

theorem Value.place?_int (i : Int) (size : Nat) : (Value.int i).place? size
    = if SmallInteger.holds i ∧ 1 ≤ i ∧ i ≤ size then some (i - 1).toNat else none :=
  rfl

theorem Value.place?_eq_some {index : Value} {size k : Nat} :
    index.place? size = some k ↔
      index = .int (k + 1) ∧ SmallInteger.holds (k + 1) = true ∧ k < size := by
  constructor
  · intro h
    cases index with
    | int i =>
        rw [place?_int] at h
        split at h
        · rename_i hi
          obtain ⟨hholds, hlow, hhigh⟩ := hi
          obtain rfl := Option.some.inj h
          -- places count from one, and the arrays from zero
          have hindex : ((i - 1).toNat : Int) + 1 = i := by omega
          rw [hindex]
          exact ⟨rfl, hholds, by omega⟩
        · cases h
    | _ => cases h
  · rintro ⟨rfl, hholds, hk⟩
    have hbounds : 1 ≤ (k : Int) + 1 ∧ (k : Int) + 1 ≤ size := by omega
    rw [place?_int, if_pos ⟨hholds, hbounds⟩, Int.add_sub_cancel, Int.toNat_natCast]

/-- The primitives find the same place. -/
theorem Primitive.place_eq (index : Value) (size : Nat) :
    (∃ k, index.place? size = some k ∧ place index size = .ok k) ∨
      index.place? size = none ∧ ∃ reason, place index size = .error reason := by
  cases hk : index.place? size with
  | some k =>
      obtain ⟨rfl, hholds, hlt⟩ := Value.place?_eq_some.mp hk
      exact .inl ⟨k, rfl, place_of_lt hlt hholds⟩
  | none =>
      refine .inr ⟨rfl, ?_⟩
      cases index with
      | int i =>
          -- the index is out of bounds, or it is no small integer at all
          unfold place
          by_cases hi : SmallInteger.holds i = true
          · have hbounds : ¬(1 ≤ i ∧ i ≤ size) := fun h => by
              rw [Value.place?_int, if_pos ⟨hi, h⟩] at hk
              cases hk
            rw [integerValue_of_holds hi]
            exact ⟨_, if_neg hbounds⟩
          · have hvalue : integerValue (.int i) = .error .typeMismatch := if_neg hi
            rw [hvalue]
            exact ⟨_, rfl⟩
      | _ => exact ⟨_, rfl⟩

/-! ### Parts -/

/-- What a value may hold by number. -/
inductive Part where
  | elements
  | slots
deriving DecidableEq, Repr

/-- What a value holds in a part, if it has the part. -/
def Memory.part? (m : Memory) : Part → Value → Option (Array Value)
  | .elements, .array a => some (m.heap.array a)
  | .elements, .object o => (m.heap.object o).elements
  | .slots, .object o => some (m.heap.object o).slots
  | _, _ => none

namespace Part

/-- The selector that fetches from a part. -/
def fetching : Part → String
  | elements => "at:"
  | slots => "instVarAt:"

/-- The selector that stores into a part. -/
def storing : Part → String
  | elements => "at:put:"
  | slots => "instVarAt:put:"

/-- The primitive that fetches from a part, with its number. -/
def fetch : Part → Int × Primitive
  | elements => (60, .fetch)
  | slots => (73, .fetchSlot)

/-- The primitive that stores into a part, with its number. -/
def store : Part → Int × Primitive
  | elements => (61, .store)
  | slots => (74, .storeSlot)

/-- The change of the heap by storing into a part. -/
def put (x : Value) (k : Nat) (v : Value) (h : Heap) : Part → Heap
  | elements =>
    match x with
    | .array a => h.setElement a k v
    | .object o => h.setIndexed o k v
    | _ => h
  | slots =>
    match x with
    | .object o => h.setSlot o k v
    | _ => h

end Part

/-- A memory in which something has been put into a place of a part. -/
def Memory.put (m : Memory) (part : Part) (x : Value) (k : Nat) (v : Value) : Memory :=
  { m with heap := part.put x k v m.heap }

/-- Nothing has changed that was there but elements and slots, and there are no others. -/
structure Memory.Besides (m m' : Memory) : Prop extends m.Later m' where
  bound : m'.globals = m.globals
  arrays : m'.heap.arrays.size = m.heap.arrays.size
  objects : m'.heap.objects.size = m.heap.objects.size
  frame : ∀ f < m.heap.frames.size, m'.heap.frame f = m.heap.frame f

/-- A value has been put into one place of a part of `x`, and nothing else has changed that was
there. -/
structure Memory.Puts (part : Part) (x : Value) (k : Nat) (v : Value) (m m' : Memory) : Prop
    extends m.Besides m' where
  there : m'.part? part x = (m.part? part x).map fun xs => xs.setIfInBounds k v
  others : ∀ y, y ≠ x → m'.part? part y = m.part? part y
  apart : ∀ other, other ≠ part → ∀ y, m'.part? other y = m.part? other y

namespace Memory

variable {part : Part} {x v : Value} {k : Nat} {xs : Array Value}

/-- What has a part goes by one name only. -/
theorem eq_of_identical_of_part (hx : m.part? part x = some xs) {y : Value}
    (h : y.identical x = true) : y = x := by
  -- floats and values from outside may go by several, but have no parts
  rcases Value.cases_of_identical h with rfl | ⟨_, _, _, rfl, -⟩ | ⟨_, _, _, _, rfl⟩
  · rfl
  · cases part <;> cases hx
  · cases part <;> cases hx

theorem Aside.part? {own : List FrameId} (a : m.Aside own m') (part : Part) (x : Value) :
    m'.part? part x = m.part? part x := by
  unfold Memory.part?
  simp only [a.array, a.object]

theorem part?_put_self (m : Memory) (part : Part) (x : Value) (k : Nat) (v : Value) :
    (m.put part x k v).part? part x = (m.part? part x).map fun xs => xs.setIfInBounds k v := by
  cases part with
  | elements =>
      cases x with
      | array a => exact congrArg some (getD_modify_self _ _ _ rfl)
      | object o => exact congrArg Instance.elements (getD_modify_self _ _ _ rfl)
      | _ => rfl
  | slots =>
      cases x with
      | object o => exact congrArg (fun y => some (Instance.slots y)) (getD_modify_self _ _ _ rfl)
      | _ => rfl

theorem part?_put_of_ne (m : Memory) (part : Part) {x y : Value} (h : y ≠ x) (k : Nat)
    (v : Value) : (m.put part x k v).part? part y = m.part? part y := by
  -- only an element of what was changed reads back differently
  have harray : ∀ {a b}, Value.array b ≠ .array a → b ≠ a := fun h hb => h (congrArg _ hb)
  have hobject : ∀ {o p}, Value.object p ≠ .object o → p ≠ o := fun h hp => h (congrArg _ hp)
  cases part with
  | elements =>
      cases x with
      | array a =>
          cases y with
          | array b => exact congrArg some (getD_modify_of_ne _ _ _ (harray h))
          | _ => rfl
      | object o =>
          cases y with
          | object p => exact congrArg Instance.elements (getD_modify_of_ne _ _ _ (hobject h))
          | _ => rfl
      | _ => rfl
  | slots =>
      cases x with
      | object o =>
          cases y with
          | object p =>
              exact congrArg (fun y => some (Instance.slots y))
                (getD_modify_of_ne _ _ _ (hobject h))
          | _ => rfl
      | _ => rfl

theorem part?_put_other (m : Memory) {part other : Part} (h : other ≠ part) (x y : Value) (k : Nat)
    (v : Value) : (m.put part x k v).part? other y = m.part? other y := by
  cases part with
  | elements =>
      -- an object is the only value with both parts, and one part keeps the other
      obtain rfl : other = .slots := by cases other <;> first | rfl | exact absurd rfl h
      cases x with
      | object o =>
          cases y with
          | object p =>
              show some ((m.heap.setIndexed o k v).object p).slots = some (m.heap.object p).slots
              rw [Heap.object_setIndexed]
              split
              · rename_i hp
                rw [hp.1]
              · rfl
          | _ => rfl
      | _ => cases y <;> rfl
  | slots =>
      obtain rfl : other = .elements := by cases other <;> first | rfl | exact absurd rfl h
      cases x with
      | object o =>
          cases y with
          | object p =>
              show ((m.heap.setSlot o k v).object p).elements = (m.heap.object p).elements
              rw [Heap.object_setSlot]
              split
              · rename_i hp
                rw [hp.1]
              · rfl
          | _ => rfl
      | _ => cases y <;> rfl

theorem frames_put (m : Memory) (part : Part) (x : Value) (k : Nat) (v : Value) :
    (m.put part x k v).heap.frames = m.heap.frames := by
  cases part <;> cases x <;> rfl

/-- Putting something makes nothing. -/
theorem Besides.put (m : Memory) (part : Part) (x : Value) (k : Nat) (v : Value) :
    m.Besides (m.put part x k v) := by
  have harray (a : ArrayId) := Later.of_heap (m := m) (Heap.Later.setElement m.heap a k v)
  have hindexed (o : ObjectId) := Later.of_heap (m := m) (Heap.Later.setIndexed m.heap o k v)
  have hslot (o : ObjectId) := Later.of_heap (m := m) (Heap.Later.setSlot m.heap o k v)
  -- whatever is changed, no size is, and a value without the part is left alone
  refine ⟨?_, rfl, ?_, ?_, fun f _ => ?_⟩
  · cases part with
    | elements =>
        cases x with
        | array a => exact harray a
        | object o => exact hindexed o
        | _ => exact .refl m
    | slots =>
        cases x with
        | object o => exact hslot o
        | _ => exact .refl m
  · cases part <;> cases x <;> first | rfl | exact Heap.size_setElement ..
  · cases part <;> cases x <;>
      first | rfl | exact Heap.size_setIndexed .. | exact Heap.size_setSlot ..
  · cases part <;> cases x <;> rfl

/-- What has only been added stays when something is put into a place that was there. -/
theorem Aside.put {own : List FrameId} (a : m.Aside own m') (part : Part) (x : Value) (k : Nat)
    (v : Value) : (m.put part x k v).Aside own (m'.put part x k v) := by
  -- arrays and objects were the same and change alike, and closures and frames do not change
  have harrays : (m'.put part x k v).heap.arrays = (m.put part x k v).heap.arrays := by
    cases part <;> cases x <;>
      simp only [Memory.put, Part.put, Heap.setElement, Heap.setIndexed, Heap.setSlot, a.arrays]
  have hobjects : (m'.put part x k v).heap.objects = (m.put part x k v).heap.objects := by
    cases part <;> cases x <;>
      simp only [Memory.put, Part.put, Heap.setElement, Heap.setIndexed, Heap.setSlot, a.objects]
  have hclosures : ∀ n : Memory, (n.put part x k v).heap.closures = n.heap.closures := by
    intro n
    cases part <;> cases x <;> rfl
  refine ⟨⟨⟨?_, ?_, ?_, ?_, ?_, ?_, ?_, ?_⟩, a.registry, a.globals, a.recording⟩, a.bound, harrays,
    hobjects, ?_⟩
  · rw [harrays]
  · intro b _
    unfold Heap.array
    rw [harrays]
  · rw [hobjects]
  · intro o _
    unfold Heap.object
    rw [hobjects]
  · rw [hclosures, hclosures]
    exact a.heap.closures
  · unfold Heap.closure
    rw [hclosures, hclosures]
    exact a.heap.closure
  · rw [frames_put, frames_put]
    exact a.heap.frames
  · unfold Heap.frame
    rw [frames_put, frames_put]
    exact a.heap.frame
  · unfold Heap.frame
    rw [frames_put, frames_put]
    exact a.frame

/-- So only that has changed. -/
theorem Puts.of_aside (a : (m.put part x k v).Aside [] m') : m.Puts part x k v m' := by
  have b := Besides.put m part x k v
  exact {
    toLater := b.toLater.trans a.toLater
    bound := a.bound
    arrays := (congrArg Array.size a.arrays).trans b.arrays
    objects := (congrArg Array.size a.objects).trans b.objects
    frame := fun f hf => (a.frame f (by rwa [frames_put]) List.not_mem_nil).trans (b.frame f hf)
    there := (a.part? part x).trans (part?_put_self ..)
    others := fun y hy => (a.part? part y).trans (part?_put_of_ne m part hy k v)
    apart := fun other h y => (a.part? other y).trans (part?_put_other m h x y k v) }

theorem Besides.classOf? (b : m.Besides m') (x : Value) : m'.classOf? x = m.classOf? x := by
  have hcls : ∀ o, (m'.heap.object o).cls = (m.heap.object o).cls := by
    intro o
    by_cases ho : o < m.heap.objects.size
    -- an object keeps its class, and where there is none there still is none
    · exact congrArg (·.1) (b.heap.object o ho)
    · have hnone : ∀ n : Memory, n.heap.objects.size = m.heap.objects.size →
          n.heap.object o = default := fun n hn => getD_of_le _ _ (hn ▸ Nat.le_of_not_lt ho)
      rw [hnone m' b.objects, hnone m rfl]
  unfold Memory.classOf?
  simp only [hcls, b.registry]

theorem Besides.follows (b : m.Besides m') {className : String} {selectors : List String}
    (h : m.Follows x className selectors) : m'.Follows x className selectors := by
  unfold Follows
  rw [b.classOf?, b.registry]
  exact h

end Memory

/-! ### What the primitives decide -/

namespace Primitive

variable {x : Value}

/-- What has neither elements nor characters has none to fetch, -/
theorem elementAt_of_missing (hx : m.part? .elements x = none) (hchars : x.chars? = none)
    (i : Value) : elementAt m x i = .error .typeMismatch := by
  cases x with
  | array a => cases hx
  | object o =>
      have helements : (m.heap.object o).elements = none := hx
      simp only [elementAt, helements]
  | text | symbol => cases hchars
  | _ => rfl

/-- and what has no elements has no place to put one. -/
theorem putElement_of_missing (hx : m.part? .elements x = none) (i v : Value) :
    putElement m x i v = .error .typeMismatch := by
  cases x with
  | array a => cases hx
  | object o =>
      have helements : (m.heap.object o).elements = none := hx
      simp only [putElement, helements]
  | _ => rfl

end Primitive

namespace Part

variable {part : Part} {x : Value} {xs : Array Value}

/-- The primitive fetches what is at the place, if there is one. -/
theorem attempt_fetch (hx : m.part? part x = some xs) (i : Value) :
    part.fetch.2.attempt m x [i]
      = (Primitive.place i xs.size >>= fun k => pure (.answer (xs.getD k .nil))) := by
  cases part with
  | elements =>
      cases x with
      | array a =>
          obtain rfl := Option.some.inj hx
          rfl
      | object o =>
          -- an object without elements has no such part, so this one has some
          have helements : (m.heap.object o).elements = some xs := hx
          show Primitive.elementAt m (.object o) i = _
          simp only [Primitive.elementAt, helements]
      | _ => cases hx
  | slots =>
      cases x with
      | object o =>
          obtain rfl := Option.some.inj hx
          rfl
      | _ => cases hx

theorem answers_fetch (hx : m.part? part x = some xs) (i : Value) :
    part.fetch.2.Answers m x [i] ((i.place? xs.size).map fun k => xs.getD k .nil) := by
  have hattempt := attempt_fetch hx i
  rcases Primitive.place_eq i xs.size with ⟨k, hk, hplace⟩ | ⟨hk, reason, hplace⟩
  · rw [hk]
    show part.fetch.2.attempt m x [i] = _
    rw [hattempt, hplace]
    rfl
  · rw [hk]
    refine ⟨reason, ?_⟩
    rw [hattempt, hplace]
    rfl

/-- The primitive settles on the change of the place, if there is one. -/
theorem attempt_store (settings : Settings) (hx : m.part? part x = some xs) (i v : Value) :
    ∃ action : Nat → Action, part.store.2.attempt m x [i, v]
        = (Primitive.place i xs.size >>= fun k => pure (action k)) ∧
      (∀ rec f k, Eval.perform settings rec f (action k) m = .ok v (m.put part x k v)) ∧
      ∀ f k b depth, (Planned.perform settings f (action k)).Goes (Eval.run settings depth)
        (Call.seen settings b depth) m (.ok v (m.put part x k v)) [] := by
  cases part with
  | elements =>
      cases x with
      | array a =>
          obtain rfl := Option.some.inj hx
          exact ⟨fun k => .setElement a k v, rfl, fun _ _ _ => rfl,
            fun _ _ _ _ => .still fun _ _ => rfl⟩
      | object o =>
          have helements : (m.heap.object o).elements = some xs := hx
          refine ⟨fun k => .setIndexed o k v, ?_, fun _ _ _ => rfl,
            fun _ _ _ _ => .still fun _ _ => rfl⟩
          show Primitive.putElement m (.object o) i v = _
          simp only [Primitive.putElement, helements]
      | _ => cases hx
  | slots =>
      cases x with
      | object o =>
          obtain rfl := Option.some.inj hx
          exact ⟨fun k => .setSlot o k v, rfl, fun _ _ _ => rfl,
            fun _ _ _ _ => .still fun _ _ => rfl⟩
      | _ => cases hx

theorem answers_store_none (hx : m.part? part x = some xs) {i : Value}
    (hi : i.place? xs.size = none) (v : Value) : part.store.2.Answers m x [i, v] none := by
  obtain ⟨action, hattempt, -⟩ := attempt_store {} hx i v
  rcases Primitive.place_eq i xs.size with ⟨k, hk, -⟩ | ⟨-, reason, hplace⟩
  · cases hi.symm.trans hk
  · refine ⟨reason, ?_⟩
    rw [hattempt, hplace]
    rfl

/-- Where the part is missing, neither primitive has an answer, but for the characters of
texts. -/
theorem answers_missing (hx : m.part? part x = none)
    (htext : part = elements → x.chars? = none) (i v : Value) :
    part.fetch.2.Answers m x [i] none ∧ part.store.2.Answers m x [i, v] none := by
  cases part with
  | elements =>
      exact ⟨⟨_, Primitive.elementAt_of_missing hx (htext rfl) i⟩,
        _, Primitive.putElement_of_missing hx i v⟩
  | slots =>
      cases x with
      | object o => cases hx
      | _ => exact ⟨⟨_, rfl⟩, _, rfl⟩

end Part

/-! ### Sends -/

/-- The methods for elements and slots, with those by which they give up. -/
def Kernel.accessing : List String :=
  ["at:", "at:put:", "size", "instVarAt:", "instVarAt:put:", "primitiveFailed", "error:"]

/-- Arrays have them. -/
theorem Memory.Equipped.follows_accessing (he : m.Equipped settings) (a : ArrayId) :
    m.Follows (.array a) "Object" Kernel.accessing := by
  refine (he.follows rfl Kernel.accessing).like fun s hs => ⟨hs, ?_⟩
  unfold Kernel.accessing at hs
  fin_cases hs <;> rfl

/-- Every send of a message in a memory ends with a value and leaves such a memory, unless it
runs out of depth, for which so many levels are enough. -/
def Memory.SendLeaves (settings : Settings) (m : Memory) (enough : Nat) (receiver : Value)
    (selector : String) (args : List Value) (v : Value) (P : Memory → Prop) : Prop :=
  ∀ ⦃depth : Nat⦄ ⦃calls : List Call⦄ ⦃out : Outcome Value⦄,
    Memory.Sends settings receiver selector args m depth calls out →
    (enough ≤ depth ∨ ¬ Eval.OutOfDepth out) → ∃ m', P m' ∧ out = .ok v m'

/-- The kernel method that fetches from a part. -/
theorem Part.fetching_kernel (part : Part) : part.fetching ∈ Kernel.accessing ∧
    part.fetch ∈ Primitive.numbered ∧ Kernel.tree? "Object" part.fetching
      = some (Kernel.byPrimitive part.fetching part.fetch.1 ["index"]) := by
  cases part <;> exact ⟨by decide, by decide, rfl⟩

/-- The kernel method that stores into a part. -/
theorem Part.storing_kernel (part : Part) : part.storing ∈ Kernel.accessing ∧
    part.store ∈ Primitive.numbered ∧ Kernel.tree? "Object" part.storing
      = some (Kernel.byPrimitive part.storing part.store.1 ["index", "value"]) := by
  cases part <;> exact ⟨by decide, by decide, rfl⟩

section
variable {part : Part} {x : Value} {xs : Array Value} (hs : settings.KnowsPrimitives)

include hs

/-- Activating the method of a store, at an index that names a place. -/
theorem Part.activate_store (hx : m.part? part x = some xs) {i : Value} {k : Nat}
    (hi : i.place? xs.size = some k) (v : Value) {owner : Behavior} {body : List Node}
    (callers : List FrameId) (a : m.Aside [] m') :
    ∃ m'', (m.put part x k v).Aside [] m'' ∧ Eval.run settings 1 (.activate ⟨.str part.storing,
      ["index", "value"].map .str, [], body, .int part.store.1, owner⟩ x [i, v] callers) m'
        = .ok v m'' := by
  obtain ⟨-, hp, -⟩ := part.storing_kernel
  have htakes : Method.Takes ⟨.str part.storing, ["index", "value"].map .str, [], body,
      .int part.store.1, owner⟩ ["index", "value"] [i, v] := ⟨rfl, by decide, rfl⟩
  obtain ⟨f, m₁, o, hends⟩ :=
    Call.Goes.activatePrimitive htakes rfl (hs _ hp) x callers m' 0
  have a₁ := a.append o.aside
  obtain ⟨action, hattempt, -, hperform⟩ :=
    Part.attempt_store settings ((a₁.part? part x).trans hx) i v
  rcases Primitive.place_eq i xs.size with ⟨k', hk, hplace⟩ | ⟨hk, -⟩
  · obtain rfl := Option.some.inj (hi.symm.trans hk)
    rw [hplace] at hattempt
    -- the frame of the method is closed, and it was not there before
    refine ⟨(m₁.put part x k v).retire f, (a₁.put part x k v).trans (.retire _ f) ?_, ?_⟩
    · intro g hg
      obtain rfl := List.mem_singleton.mp hg
      rw [Memory.frames_put]
      exact .inr (Nat.le_trans a.heap.frames o.fresh)
    · exact (hends 0 _ _ _ hattempt (hperform f k 0 0)).outcome
  · cases hi.symm.trans hk

variable (h : m.Follows x "Object" Kernel.accessing)

include h

namespace Memory.Follows

/-- A store at an index that names a place. -/
theorem sends_store (hx : m.part? part x = some xs) {i : Value} {k : Nat}
    (hi : i.place? xs.size = some k) (v : Value) :
    m.SendLeaves settings 1 x part.storing [i, v] v (m.Puts part x k v) := by
  obtain ⟨hmem, -, htree⟩ := part.storing_kernel
  obtain ⟨cls, hclass, hmethods⟩ := h
  obtain ⟨owner, next, hmethod⟩ := (hmethods _ hmem _ htree).method
  intro depth calls out hsend hdepth
  have hends : ∃ m', (m.put part x k v).Aside [] m' ∧ out = Eval.ended (.ok v) m' :=
    hsend.ends hclass hmethod rfl hdepth fun callers m' a =>
      Part.activate_store hs hx hi v callers a
  obtain ⟨m', a, hout⟩ := hends
  exact ⟨m', .of_aside a, hout⟩

/-- A fetch answers what its primitive does, or gives up. -/
theorem sends_fetch {i : Value} {answer : Option Value}
    (hanswers : ∀ m', m.Aside [] m' → part.fetch.2.Answers m' x [i] answer) :
    m.SendYields settings 7 x part.fetching [i] (Kernel.orFailed answer) := by
  obtain ⟨hmem, hp, htree⟩ := part.fetching_kernel
  have hgives := h.givesUp (by decide) (by decide) (by decide)
  exact (h.replies_orFailed hmem (List.nodup_singleton _) rfl hgives hs hp htree
    hanswers).sendYields

/-- A store gives up where its primitive has no answer. -/
theorem sends_store_none {i v : Value}
    (hanswers : ∀ m', m.Aside [] m' → part.store.2.Answers m' x [i, v] none) :
    m.SendYields settings 7 x part.storing [i, v] (.error Kernel.failed) := by
  obtain ⟨hmem, hp, htree⟩ := part.storing_kernel
  have hgives := h.givesUp (by decide) (by decide) (by decide)
  exact (h.replies_orFailed hmem (by decide) rfl hgives hs hp htree hanswers).sendYields

theorem sends_size (hx : m.part? .elements x = some xs) (hroom : xs.size ≤ settings.room) :
    m.SendYields settings 1 x "size" [] (.ok (.int xs.size)) := by
  have htree : Kernel.tree? "Object" "size"
    = some (Kernel.byPrimitiveOr "size" 62 [] (.int 0)) := rfl
  have hp : (62, Primitive.count) ∈ Primitive.numbered := by decide
  -- the count is taken when the primitive runs, and nothing has changed until then
  have hattempt : ∀ m', m.Aside [] m' →
      Primitive.count.attempt m' x [] = .ok (.tally xs.size) := by
    intro m' a
    have hx' := (a.part? .elements x).trans hx
    show (Primitive.elementCount m' x).map Action.tally = _
    cases x with
    | array b =>
        obtain rfl := Option.some.inj hx'
        rfl
    | object o =>
        have helements : (m'.heap.object o).elements = some xs := hx'
        simp only [Primitive.elementCount, helements]
        rfl
    | _ => cases hx'
  exact (h.replies_primitive (by decide) List.nodup_nil rfl hs hp htree hattempt
    (if_pos hroom)).sendYields

end Memory.Follows

end

/-! ### References and assignments -/

/-- The slot that an index names is one of those that there are. -/
theorem Eval.lt_of_slotNumber {index : Json} {size k : Nat} {bad : Unit → Fault}
    (h : slotNumber index size bad = .ok k) : k < size := by
  have hint : ∀ i : Int, (if 0 ≤ i ∧ i < size then Except.ok i.toNat else .error (bad ())) = .ok k →
      k < size := by
    intro i hi
    split at hi
    · rename_i hbounds
      obtain rfl := Except.ok.inj hi
      omega
    · cases hi
  unfold slotNumber at h
  cases index with
  | bool b => exact hint _ h
  | int i => exact hint i h
  | float x =>
      simp only at h
      split at h <;> cases h
  | _ => cases h

section
variable {o : ObjectId} {f : FrameId} (hf : (m.heap.frame f).receiver = .object o)

include hf

theorem Eval.slotOf_eq (index : Json) : slotOf f index m
    = (ofExcept (slotNumber index (m.heap.object o).slots.size fun _ =>
        .badSlot index (m.inspect (.object o))) >>= fun k => pure (o, k)) m := by
  unfold slotOf
  rw [bind_of_ok (show (get : Eval Memory) m = .ok m m from rfl)]
  simp only [hf]

/-- An index names a slot, or it is a fault and nothing happens. -/
theorem Eval.slotOf_object (index : Json) :
    (∃ k < (m.heap.object o).slots.size, slotOf f index m = .ok (o, k) m) ∨
      ∃ fault, slotOf f index m = .error (.fault fault) m := by
  rw [slotOf_eq hf]
  cases hk : slotNumber index (m.heap.object o).slots.size
      fun _ => .badSlot index (m.inspect (.object o)) with
  | ok k => exact .inl ⟨k, lt_of_slotNumber hk, rfl⟩
  | error fault => exact .inr ⟨fault, rfl⟩

/-- An index from zero names the place that the one above it names from one. -/
theorem Eval.slotOf_place {i : Int} {k : Nat}
    (hi : (Value.int i).place? (m.heap.object o).slots.size = some k) :
    slotOf f (.int (i - 1)) m = .ok (o, k) m := by
  obtain ⟨hindex, -, hk⟩ := Value.place?_eq_some.mp hi
  obtain rfl := Value.int.inj hindex
  have hbounds : 0 ≤ (k : Int) ∧ (k : Int) < (m.heap.object o).slots.size := by omega
  have hnumber : ∀ bad, slotNumber (.int k) (m.heap.object o).slots.size bad = .ok k :=
    fun bad => if_pos hbounds
  rw [Int.add_sub_cancel, slotOf_eq hf, hnumber]
  rfl

end

section
variable {o : ObjectId} {f : FrameId} {index : Json} {k : Nat} {fault : Fault} (name : Json)

theorem Eval.run_reference (h : slotOf f index m = .ok (o, k) m) :
    run settings (depth + 1) (.evaluate (.reference name .instvar index) f) m
      = .ok ((m.heap.object o).slots.getD k .nil) m := by
  show (slotOf f index >>= _) m = _
  rw [bind_of_ok h]
  rfl

theorem Eval.run_reference_fault (h : slotOf f index m = .error (.fault fault) m) :
    run settings (depth + 1) (.evaluate (.reference name .instvar index) f) m
      = .error (.fault fault) m :=
  bind_of_error h

variable {value : Node} {v : Value} {m₀ : Memory}
  (hvalue : Eval.run settings depth (.evaluate value f) m₀ = .ok v m)

include hvalue

theorem Eval.run_assign (h : slotOf f index m = .ok (o, k) m) :
    run settings (depth + 1) (.evaluate (.assign name .instvar index value) f) m₀
      = .ok v (m.put .slots (.object o) k v) := by
  have hwrite : writeVariable f name .instvar index v m = .ok () (m.put .slots (.object o) k v) :=
    bind_of_ok h
  show (run settings depth (.evaluate value f) >>= _) m₀ = _
  rw [bind_of_ok hvalue, bind_of_ok hwrite]
  rfl

theorem Eval.run_assign_fault (h : slotOf f index m = .error (.fault fault) m) :
    run settings (depth + 1) (.evaluate (.assign name .instvar index value) f) m₀
      = .error (.fault fault) m := by
  have hwrite : writeVariable f name .instvar index v m = .error (.fault fault) m :=
    bind_of_error h
  show (run settings depth (.evaluate value f) >>= _) m₀ = _
  rw [bind_of_ok hvalue, bind_of_error hwrite]

end

/-! ### The results -/

/-- How a part of a value is accessed that holds these values. -/
structure Memory.Accesses (settings : Settings) (m : Memory) (part : Part) (x : Value)
    (xs : Array Value) : Prop where
  /-- A store at an index that names a place puts the value there and answers it. -/
  store : ∀ i v k, i.place? xs.size = some k →
    m.SendLeaves settings 1 x part.storing [i, v] v (m.Puts part x k v)
  /-- At any other index it fails and changes nothing. -/
  refuse : ∀ i v, i.place? xs.size = none →
    m.SendYields settings 7 x part.storing [i, v] (.error Kernel.failed)
  /-- A fetch answers what is at the place, or fails where there is none. -/
  fetch : ∀ i, m.SendYields settings 7 x part.fetching [i]
    (Kernel.orFailed ((i.place? xs.size).map fun k => xs.getD k .nil))
  /-- After a store it answers the value that was put there, and at the other places what was
  there before, under whatever name. -/
  later : ∀ k v m', k < xs.size → m.Puts part x k v m' → ∀ y, y.identical x = true → ∀ i,
    m'.SendYields settings 7 y part.fetching [i]
      (Kernel.orFailed ((i.place? xs.size).map fun j => if j = k then v else xs.getD j .nil))

/-- How the code of an object goes to these slots: in any frame that the object runs in, and
with any indices. -/
structure Memory.Varies (settings : Settings) (m : Memory) (o : ObjectId)
    (slots : Array Value) : Prop where
  /-- A reference reads the slot that the index above it names for `instVarAt:`. -/
  read : ∀ f, (m.heap.frame f).receiver = .object o → ∀ i k,
    (Value.int i).place? slots.size = some k → ∀ name depth,
    Eval.run settings (depth + 1) (.evaluate (.reference name .instvar (.int (i - 1))) f) m
      = .ok (slots.getD k .nil) m
  /-- An assignment, when its value is evaluated, changes this slot. -/
  write : ∀ f, (m.heap.frame f).receiver = .object o → ∀ i k,
    (Value.int i).place? slots.size = some k → ∀ name depth value v m₀,
    Eval.run settings depth (.evaluate value f) m₀ = .ok v m →
    ∃ m', m.Puts .slots (.object o) k v m' ∧ Eval.run settings (depth + 1)
      (.evaluate (.assign name .instvar (.int (i - 1)) value) f) m₀ = .ok v m'
  /-- A reference that fails changes nothing, -/
  unread : ∀ f, (m.heap.frame f).receiver = .object o → ∀ index name depth,
    (∃ k < slots.size, Eval.run settings (depth + 1)
      (.evaluate (.reference name .instvar index) f) m = .ok (slots.getD k .nil) m) ∨
    ∃ fault, Eval.run settings (depth + 1)
      (.evaluate (.reference name .instvar index) f) m = .error (.fault fault) m
  /-- nor does an assignment. -/
  unwritten : ∀ f, (m.heap.frame f).receiver = .object o → ∀ index name depth value v m₀,
    Eval.run settings depth (.evaluate value f) m₀ = .ok v m →
    (∃ k < slots.size, ∃ m', m.Puts .slots (.object o) k v m' ∧ Eval.run settings (depth + 1)
      (.evaluate (.assign name .instvar index value) f) m₀ = .ok v m') ∨
    ∃ fault, Eval.run settings (depth + 1)
      (.evaluate (.assign name .instvar index value) f) m₀ = .error (.fault fault) m

namespace Memory

variable {part : Part} {x v : Value} {k : Nat} {xs : Array Value}

theorem Puts.of_put (m : Memory) (part : Part) (x : Value) (k : Nat) (v : Value) :
    m.Puts part x k v (m.put part x k v) :=
  .of_aside (.refl [] _)

/-- However something is put somewhere, no part of anything becomes longer or shorter. -/
theorem Puts.size (h : m.Puts part x k v m') {other : Part} {y : Value} {ys : Array Value}
    (hy : m.part? other y = some ys) :
    ∃ ys', m'.part? other y = some ys' ∧ ys'.size = ys.size := by
  by_cases hpart : other = part
  -- only the part itself of the value itself has changed, in one place
  · subst hpart
    by_cases hyx : y = x
    · subst hyx
      refine ⟨ys.setIfInBounds k v, ?_, Array.size_setIfInBounds⟩
      rw [h.there, hy]
      rfl
    · exact ⟨ys, (h.others y hyx).trans hy, rfl⟩
  · exact ⟨ys, (h.apart other hpart y).trans hy, rfl⟩

theorem Follows.accesses (hs : settings.KnowsPrimitives)
    (h : m.Follows x "Object" Kernel.accessing) (hx : m.part? part x = some xs) :
    m.Accesses settings part x xs where
  store _ v _ hi := h.sends_store hs hx hi v
  refuse _ v hi := h.sends_store_none hs fun _ a =>
    Part.answers_store_none ((a.part? part x).trans hx) hi v
  fetch i := h.sends_fetch hs fun _ a => Part.answers_fetch ((a.part? part x).trans hx) i
  later k v m' hk hputs y hy i := by
    obtain rfl := eq_of_identical_of_part hx hy
    -- what is fetched after the store is fetched from the changed part, which is as long
    have hy' : m'.part? part y = some (xs.setIfInBounds k v) := by
      rw [hputs.there, hx]
      rfl
    have hfetch := (hputs.follows h).sends_fetch hs fun _ a =>
      Part.answers_fetch ((a.part? part y).trans hy') i
    simp only [getD_setIfInBounds xs hk, Array.size_setIfInBounds] at hfetch
    exact hfetch

theorem varies (settings : Settings) (m : Memory) (o : ObjectId) :
    m.Varies settings o (m.heap.object o).slots where
  read _ hf _ _ hi name _ := Eval.run_reference name (Eval.slotOf_place hf hi)
  write _ hf _ _ hi name _ _ _ _ hvalue :=
    ⟨_, .of_put .., Eval.run_assign name hvalue (Eval.slotOf_place hf hi)⟩
  unread f hf index name depth := by
    rcases Eval.slotOf_object hf index with ⟨k, hk, h⟩ | ⟨fault, h⟩
    · exact .inl ⟨k, hk, Eval.run_reference name h⟩
    · exact .inr ⟨fault, Eval.run_reference_fault name h⟩
  unwritten f hf index name depth value v m₀ hvalue := by
    rcases Eval.slotOf_object hf index with ⟨k, hk, h⟩ | ⟨fault, h⟩
    · exact .inl ⟨k, hk, _, .of_put .., Eval.run_assign name hvalue h⟩
    · exact .inr ⟨fault, Eval.run_assign_fault name hvalue h⟩

/-- Elements and slots are at the places that their indices name, for whatever has the access
methods of the kernel. -/
structure Places (settings : Settings) (m : Memory) : Prop where
  /-- Elements and slots are accessed alike, and each by itself. -/
  access : ∀ part x xs, m.Follows x "Object" Kernel.accessing → m.part? part x = some xs →
    m.Accesses settings part x xs
  /-- What has no such part refuses, texts excepted, which have characters. -/
  missing : ∀ part x, m.Follows x "Object" Kernel.accessing → m.part? part x = none →
    (part = .elements → x.chars? = none) → ∀ i v,
      m.SendYields settings 7 x part.fetching [i] (.error Kernel.failed) ∧
      m.SendYields settings 7 x part.storing [i, v] (.error Kernel.failed)
  /-- The size is the number of elements, -/
  size : ∀ x xs, m.Follows x "Object" Kernel.accessing → m.part? .elements x = some xs →
    xs.size ≤ settings.room → m.SendYields settings 1 x "size" [] (.ok (.int xs.size))
  /-- and stays it whatever is put anywhere. -/
  sizeStays : ∀ x xs, m.Follows x "Object" Kernel.accessing → m.part? .elements x = some xs →
    xs.size ≤ settings.room → ∀ part y k v m', m.Puts part y k v m' →
      m'.SendYields settings 1 x "size" [] (.ok (.int xs.size))
  /-- The code of an object goes to the same slots. -/
  code : ∀ o, m.Varies settings o (m.heap.object o).slots
  /-- There is one for each instance variable of its class. -/
  instSize : ∀ o < m.heap.objects.size, (m.heap.object o).slots.size
    = (m.registry.layout ⟨(m.heap.object o).cls, false⟩).length

end Memory

/-- Whatever a system has come to, all accesses agree on the places, and the ones that fail
change nothing. -/
theorem places_agree (hs : settings.KnowsPrimitives) (h : Charter.free.Reached m) :
    m.Places settings where
  access _ _ _ hx hpart := hx.accesses hs hpart
  missing part x hx hpart htext i v := by
    have hmissing := fun (m' : Memory) (a : m.Aside [] m') =>
      Part.answers_missing ((a.part? part x).trans hpart) htext i v
    exact ⟨hx.sends_fetch hs fun m' a => (hmissing m' a).1,
      hx.sends_store_none hs fun m' a => (hmissing m' a).2⟩
  size _ _ hx helements hroom := hx.sends_size hs helements hroom
  sizeStays x xs hx helements hroom part y k v m' hputs := by
    obtain ⟨xs', helements', hsize⟩ := hputs.size helements
    rw [← hsize] at hroom ⊢
    exact (hputs.follows hx).sends_size hs helements' hroom
  code o := Memory.varies settings m o
  instSize o ho := ((h.abides Charter.free_lawful).object o ho).slots

/-- A system with an object of one instance variable and two elements. -/
def Kernel.withShelf : Memory :=
  Command.run (Command.run memory
      (.define (.str "Shelf") (.str "Object") (.arr [.str "label"]) (.bool true)))
    (.evaluate {} (.send (.behavior ⟨15, false⟩) (.str "basicNew:") [.int 2]))

/-- Arrays and the object have the access methods of the kernel, and the last element of the
object can be changed. -/
theorem places_of_shelf : Kernel.withShelf.Places {} ∧
    (∀ a, Kernel.withShelf.Follows (.array a) "Object" Kernel.accessing) ∧
    Kernel.withShelf.Follows (.object 0) "Object" Kernel.accessing ∧
    ∃ m', Kernel.withShelf.Puts .elements (.object 0) 1 (.bool true) m' ∧
      (Query.send (.object 0) (.str "at:put:") [.int 2, .bool true]).perform {} Kernel.withShelf
        = .ok (.bool true) m' := by
  have hclass : Charter.free.Reached (Command.run Kernel.memory
      (.define (.str "Shelf") (.str "Object") (.arr [.str "label"]) (.bool true))) :=
    .command .start trivial
  have hshelf : Charter.free.Reached Kernel.withShelf := by
    refine .command hclass ⟨⟨fun _ _ _ _ _ _ => trivial, fun _ _ => trivial⟩, ?_, ?_⟩
    · exact Charter.holds_behavior (by decide +kernel)
    · intro v hv
      obtain rfl := List.mem_singleton.mp hv
      exact Charter.holds_int trivial
  have he : Kernel.withShelf.Equipped {} := Kernel.equipped_of_isInPlace (by decide +kernel)
  have hcomputed : Kernel.withShelf.classOf? (.object 0) = some ⟨15, false⟩ ∧
      Kernel.withShelf.registry.find? "Object" = some 0 ∧
      Kernel.withShelf.registry.line ⟨15, false⟩
        = [⟨15, false⟩] ++ Kernel.withShelf.registry.line ⟨0, false⟩ ∧
      (∀ c ∈ [Behavior.mk 15 false], ∀ selector ∈ Kernel.accessing,
        (Kernel.withShelf.registry.table c).methods.contains (.text selector) = false) ∧
      (Kernel.withShelf.part? .elements (.object 0)).map Array.size = some 2 := by
    decide +kernel
  obtain ⟨hinstance, hobject, hline, hown, hsize⟩ := hcomputed
  obtain ⟨xs, hxs, hsize⟩ := Option.map_eq_some_iff.mp hsize
  have hfollows := he.follows_of_extends hinstance (by decide) ⟨0, _, hobject, hline, hown⟩
  have hplaces := places_agree he.primitive hshelf
  have hplace : (Value.int 2).place? xs.size = some 1 := by
    rw [hsize]
    decide
  refine ⟨hplaces, he.follows_accessing, hfollows, ?_⟩
  exact (hplaces.access _ _ xs hfollows hxs).store _ (.bool true) _ hplace (.query _)
    (.inl (by decide))

end Smalltalk
