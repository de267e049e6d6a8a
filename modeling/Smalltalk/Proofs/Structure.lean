import Smalltalk.Proofs.Reached

/-!
# `Smalltalk.Proofs.Structure`: structure never changes

`Memory.Intact m m'` says what of a memory `m` is still there in `m'`: all that has been
made is what it was, up to the values that are stored in it. The slots and the elements of
an object are moreover those that its class gives it, at both moments, also where the class
has lost its name to a new one.

That something is kept holds from any memory on (`Memory.LeadsTo.continues`). That objects
have the slots of their classes needs that they were made of classes that were there; so
`structure_never_changes` is about systems that are given only values that refer to
something (`Charter.free`).
-/

set_option autoImplicit false

namespace Smalltalk

/-- The charter that allows everything. All that it asks for is that values refer to what is
there. -/
def Charter.free : Charter where
  int _ := True
  code _ _ _ := True
  seat _ _ _ := True
  classes _ := True
  strict := False

theorem Charter.free_lawful : Charter.free.Lawful where
  start := trivial
  small _ _ := trivial
  literal _ _ _ _ := trivial
  part _ _ _ _ _ _ := trivial
  block _ _ _ _ _ _ _ _ := trivial
  codeStays _ _ _ _ _ _ _ := trivial
  seatStays _ _ _ _ _ _ _ _ _ := trivial
  found _ _ _ _ _ _ _ _ _ := trivial
  above _ _ _ _ _ _ _ _ _ _ _ := trivial
  slot strict := strict.elim

/-- What of one moment is still there at a later one. -/
structure Memory.Intact (m m' : Memory) : Prop where
  /-- An object keeps its class, the number of its slots and that of its elements. -/
  object : ∀ o < m.heap.objects.size, o < m'.heap.objects.size ∧
    (m'.heap.object o).cls = (m.heap.object o).cls ∧
    (m'.heap.object o).slots.size = (m.heap.object o).slots.size ∧
    (m'.heap.object o).elements.map Array.size = (m.heap.object o).elements.map Array.size
  /-- The slots are those of its class, and it has elements if the class is indexable. -/
  shaped : ∀ o < m.heap.objects.size,
    m.Shaped (m.heap.object o) ∧ m'.Shaped (m'.heap.object o)
  /-- An array keeps its length. -/
  array : ∀ a < m.heap.arrays.size,
    a < m'.heap.arrays.size ∧ (m'.heap.array a).size = (m.heap.array a).size
  /-- A closure keeps its code and the frame it was made in. -/
  closure : ∀ c < m.heap.closures.size,
    c < m'.heap.closures.size ∧ m'.heap.closure c = m.heap.closure c
  /-- A frame keeps its receiver, its method and the frames around it. -/
  frame : ∀ f < m.heap.frames.size, f < m'.heap.frames.size ∧
    (m'.heap.frame f).receiver = (m.heap.frame f).receiver ∧
    (m'.heap.frame f).method = (m.heap.frame f).method ∧
    (m'.heap.frame f).outer = (m.heap.frame f).outer
  /-- It loses no variable, -/
  declared : ∀ f < m.heap.frames.size, ∀ key,
    (m.heap.frame f).slots.contains key = true → (m'.heap.frame f).slots.contains key = true
  /-- and once it is over it stays so. -/
  ended : ∀ f < m.heap.frames.size,
    (m.heap.frame f).active = false → (m'.heap.frame f).active = false
  /-- No global and no name of a class becomes unbound. -/
  global : ∀ key, m.globals.contains key = true → m'.globals.contains key = true
  named : ∀ name, (m.registry.find? name).isSome → (m'.registry.find? name).isSome

variable {m m' : Memory}

/-- What continues a memory whose objects have the shape of their classes. -/
theorem Memory.Abides.intact {K : Charter} (a : m.Abides K) (h : m.Continues m') :
    m.Intact m' where
  object o ho := by
    -- the shape of an object is its class and the two sizes
    have hshape := h.heap.object o ho
    simp only [Instance.shape, Prod.mk.injEq] at hshape
    exact ⟨Nat.lt_of_lt_of_le ho h.heap.objects, hshape⟩
  shaped o ho := by
    have hshaped := a.object o ho
    exact ⟨hshaped, hshaped.continues (h.heap.object o ho) a.ordered h⟩
  array b hb := ⟨Nat.lt_of_lt_of_le hb h.heap.arrays, h.heap.array b hb⟩
  closure c hc := ⟨Nat.lt_of_lt_of_le hc h.heap.closures, h.heap.closure c hc⟩
  frame f hf := by
    have l := h.heap.frame f hf
    exact ⟨Nat.lt_of_lt_of_le hf h.heap.frames, l.receiver, l.method, l.outer⟩
  declared f hf := (h.heap.frame f hf).declared
  ended f hf := (h.heap.frame f hf).ended
  global := h.globals
  named := h.registry.names

/-- Whatever a system does from some moment on, and however it ends, the structure that was
there stays: at any later moment, and whenever a call begins or ends in the middle of a
query. -/
theorem structure_never_changes (h : Charter.free.Reached m) (h' : m.LeadsTo m') :
    m.Intact m' ∧ ∀ settings q c outer, InProgress settings m' q (c :: outer) →
      m.Intact c.memory ∧ m.Intact (left (c.outcome settings)) := by
  have a := h.abides Charter.free_lawful
  refine ⟨a.intact h'.continues, fun settings q c outer hc => ?_⟩
  obtain ⟨hbegin, hend⟩ := hc.continues
  exact ⟨a.intact (h'.continues.trans hbegin), a.intact (h'.continues.trans hend)⟩

/-- A class `Point` with some instance variables. -/
def definePoint (instanceVariables : List String) : Command :=
  .define (.str "Point") (.str "Object") (.arr (instanceVariables.map .str)) .null

/-- A point of two coordinates keeps them when points come to have three. -/
theorem point_stays_intact : ∃ m m' : Memory, m.Intact m' ∧ m.heap.objects.size = 1 ∧
    (m'.heap.object 0).slots.size = 2 ∧ m'.registry.find? "Point" = some 16 ∧
    (m'.registry.layout ⟨16, false⟩).length = 3 := by
  have hpoint : Charter.free.Reached (Command.run Kernel.memory (definePoint ["x", "y"])) :=
    .command .start trivial
  have hnew : Charter.free.Reached (Command.run
      (Command.run Kernel.memory (definePoint ["x", "y"]))
      (.evaluate {} (.send (.behavior ⟨15, false⟩) (.str "new") []))) := by
    refine .command hpoint ⟨⟨fun _ _ _ _ _ _ => trivial, fun _ _ => trivial⟩, ?_, ?_⟩
    · exact Charter.holds_behavior (by decide +kernel)
    · exact fun v hv => absurd hv List.not_mem_nil
  have hagain := structure_never_changes hnew (.command .refl (definePoint ["x", "y", "z"]))
  exact ⟨_, _, hagain.1, by decide +kernel, by decide +kernel, by decide +kernel,
    by decide +kernel⟩

end Smalltalk
