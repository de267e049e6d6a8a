import Smalltalk.Memory
import Smalltalk.Proofs.Heap

/-!
# `Smalltalk.Proofs.Later`: what no evaluation changes

`Memory.Later m m'` says that `m'` can come after `m`: whatever was there
before is still there and has kept its structure. An array has kept its size,
an object its class and its numbers of slots and elements, a closure all that
it is, and a frame everything but its variables and whether it is active.
No variable or global has become undeclared, no frame that was over is active
again, and the classes are the same.

The relation is reflexive and transitive, and every change of the heap
respects it (`Heap.Later.newArray` and those after it). So it holds between
any two moments of an evaluation.

A line in the journal changes nothing but the journal (`Memory.heap_note` and those
after it).
-/

set_option autoImplicit false

namespace Smalltalk

/-! ### The journal -/

namespace Memory

/-- A line in the journal leaves everything else alone. -/
@[simp] theorem heap_note (m : Memory) (line : String) : (m.note line).heap = m.heap := by
  unfold note
  split <;> rfl

@[simp] theorem registry_note (m : Memory) (line : String) :
    (m.note line).registry = m.registry := by
  unfold note
  split <;> rfl

@[simp] theorem globals_note (m : Memory) (line : String) :
    (m.note line).globals = m.globals := by
  unfold note
  split <;> rfl

@[simp] theorem recording_note (m : Memory) (line : String) :
    (m.note line).journal.recording = m.journal.recording := by
  unfold note
  split <;> rfl

/-- A journal that is not kept gets no line. -/
theorem note_of_quiet {m : Memory} (hquiet : m.journal.recording = false) (line : String) :
    m.note line = m := by
  unfold note
  rw [if_neg (by rw [hquiet]; exact Bool.false_ne_true)]

/-- The word for a method depends on the classes alone. -/
theorem methodWord_congr {m m' : Memory} (h : m'.registry = m.registry) (method : Method) :
    m'.methodWord method = m.methodWord method := by
  unfold methodWord
  rw [h]

end Memory

/-! ### Parts -/

/-- What never changes of an object: its class and how many slots and elements
it has. -/
def Instance.shape (x : Instance) : ClassId × Nat × Option Nat :=
  (x.cls, x.slots.size, x.elements.map Array.size)

/-- One frame at two moments. -/
structure Frame.Later (x y : Frame) : Prop where
  receiver : y.receiver = x.receiver
  method : y.method = x.method
  outer : y.outer = x.outer
  callers : y.callers = x.callers
  isBlock : y.isBlock = x.isBlock
  ended : x.active = false → y.active = false
  declared : ∀ key, x.slots.contains key = true → y.slots.contains key = true

theorem Frame.Later.refl (x : Frame) : x.Later x :=
  ⟨rfl, rfl, rfl, rfl, rfl, id, fun _ => id⟩

theorem Frame.Later.trans {x y z : Frame} (hxy : x.Later y) (hyz : y.Later z) : x.Later z :=
  ⟨hyz.receiver.trans hxy.receiver, hyz.method.trans hxy.method, hyz.outer.trans hxy.outer,
    hyz.callers.trans hxy.callers, hyz.isBlock.trans hxy.isBlock,
    fun h => hyz.ended (hxy.ended h), fun key h => hyz.declared key (hxy.declared key h)⟩

namespace Heap

/-- One heap at two moments. -/
structure Later (h h' : Heap) : Prop where
  arrays : h.arrays.size ≤ h'.arrays.size
  array : ∀ a < h.arrays.size, (h'.array a).size = (h.array a).size
  objects : h.objects.size ≤ h'.objects.size
  object : ∀ o < h.objects.size, (h'.object o).shape = (h.object o).shape
  closures : h.closures.size ≤ h'.closures.size
  closure : ∀ c < h.closures.size, h'.closure c = h.closure c
  frames : h.frames.size ≤ h'.frames.size
  frame : ∀ f < h.frames.size, (h.frame f).Later (h'.frame f)

namespace Later

theorem refl (h : Heap) : h.Later h :=
  ⟨Nat.le_refl _, fun _ _ => rfl, Nat.le_refl _, fun _ _ => rfl, Nat.le_refl _, fun _ _ => rfl,
    Nat.le_refl _, fun _ _ => Frame.Later.refl _⟩

theorem trans {h₁ h₂ h₃ : Heap} (h₁₂ : h₁.Later h₂) (h₂₃ : h₂.Later h₃) : h₁.Later h₃ where
  arrays := Nat.le_trans h₁₂.arrays h₂₃.arrays
  array a ha := (h₂₃.array a (Nat.lt_of_lt_of_le ha h₁₂.arrays)).trans (h₁₂.array a ha)
  objects := Nat.le_trans h₁₂.objects h₂₃.objects
  object o ho := (h₂₃.object o (Nat.lt_of_lt_of_le ho h₁₂.objects)).trans (h₁₂.object o ho)
  closures := Nat.le_trans h₁₂.closures h₂₃.closures
  closure c hc := (h₂₃.closure c (Nat.lt_of_lt_of_le hc h₁₂.closures)).trans (h₁₂.closure c hc)
  frames := Nat.le_trans h₁₂.frames h₂₃.frames
  frame f hf := (h₁₂.frame f hf).trans (h₂₃.frame f (Nat.lt_of_lt_of_le hf h₁₂.frames))

variable (h : Heap)

/-! ### Making -/

theorem newArray (xs : Array Value) : h.Later (h.newArray xs).1 :=
  { refl h with
    arrays := by rw [size_newArray]; omega
    array := fun a ha => by rw [array_newArray, if_neg (Nat.ne_of_lt ha)] }

theorem newObject (x : Instance) : h.Later (h.newObject x).1 :=
  { refl h with
    objects := by rw [size_newObject]; omega
    object := fun o ho => by rw [object_newObject, if_neg (Nat.ne_of_lt ho)] }

theorem newClosure (x : Closure) : h.Later (h.newClosure x).1 :=
  { refl h with
    closures := by rw [size_newClosure]; omega
    closure := fun c hc => by rw [closure_newClosure, if_neg (Nat.ne_of_lt hc)] }

theorem newFrame (x : Frame) : h.Later (h.newFrame x).1 :=
  { refl h with
    frames := by rw [size_newFrame]; omega
    frame := fun f hf => by
      rw [frame_newFrame, if_neg (Nat.ne_of_lt hf)]
      exact Frame.Later.refl _ }

/-! ### Changing -/

theorem setElement (a : ArrayId) (i : Nat) (v : Value) : h.Later (h.setElement a i v) :=
  { refl h with
    arrays := Nat.le_of_eq (size_setElement ..).symm
    array := fun b _ => by
      rw [array_setElement]
      split
      · rename_i hb
        rw [hb.1, Array.size_setIfInBounds]
      · rfl }

theorem setIndexed (o : ObjectId) (i : Nat) (v : Value) : h.Later (h.setIndexed o i v) :=
  { refl h with
    objects := Nat.le_of_eq (size_setIndexed ..).symm
    object := fun p _ => by
      rw [object_setIndexed]
      split
      · rename_i hp
        rw [hp.1]
        simp only [Instance.shape, Option.map_map, Function.comp_def, Array.size_setIfInBounds]
      · rfl }

theorem setSlot (o : ObjectId) (i : Nat) (v : Value) : h.Later (h.setSlot o i v) :=
  { refl h with
    objects := Nat.le_of_eq (size_setSlot ..).symm
    object := fun p _ => by
      rw [object_setSlot]
      split
      · rename_i hp
        rw [hp.1]
        simp only [Instance.shape, Array.size_setIfInBounds]
      · rfl }

theorem declare (f : FrameId) (key : Key) (name : Json) (v : Value) :
    h.Later (h.declare f key name v) :=
  { refl h with
    frames := Nat.le_of_eq (size_declare ..).symm
    frame := fun g _ => by
      rw [frame_declare]
      split
      · rename_i hg
        rw [hg.1]
        -- only the variables are different, and none has gone
        refine { Frame.Later.refl _ with declared := fun k hk => ?_ }
        rw [Dictionary.contains_put, hk, Bool.or_true]
      · exact Frame.Later.refl _ }

theorem retire (f : FrameId) : h.Later (h.retire f) :=
  { refl h with
    frames := Nat.le_of_eq (size_retire ..).symm
    frame := fun g _ => by
      rw [frame_retire]
      split
      · rename_i hg
        rw [hg.1]
        exact { Frame.Later.refl _ with ended := fun _ => rfl }
      · exact Frame.Later.refl _ }

/-- The count of texts made so far may be anything. -/
theorem texts (n : Nat) : h.Later { h with texts := n } :=
  { refl h with }

end Later

end Heap

/-! ### Memories -/

/-- One system at two moments of an evaluation. -/
structure Memory.Later (m m' : Memory) : Prop where
  heap : m.heap.Later m'.heap
  registry : m'.registry = m.registry
  globals : ∀ key, m.globals.contains key = true → m'.globals.contains key = true
  recording : m'.journal.recording = m.journal.recording

namespace Memory.Later

theorem refl (m : Memory) : m.Later m :=
  ⟨Heap.Later.refl _, rfl, fun _ => id, rfl⟩

theorem trans {m₁ m₂ m₃ : Memory} (h₁₂ : m₁.Later m₂) (h₂₃ : m₂.Later m₃) : m₁.Later m₃ where
  heap := h₁₂.heap.trans h₂₃.heap
  registry := h₂₃.registry.trans h₁₂.registry
  globals key h := h₂₃.globals key (h₁₂.globals key h)
  recording := h₂₃.recording.trans h₁₂.recording

/-- A change of the heap alone. -/
theorem of_heap {m : Memory} {h : Heap} (hh : m.heap.Later h) : m.Later { m with heap := h } :=
  ⟨hh, rfl, fun _ => id, rfl⟩

/-- A global that was bound or assigned to. -/
theorem bind (m : Memory) (key : Key) (name : Json) (v : Value) :
    m.Later { m with globals := m.globals.put key name v } where
  heap := Heap.Later.refl _
  registry := rfl
  globals k hk := by
    rw [Dictionary.contains_put, hk, Bool.or_true]
  recording := rfl

end Memory.Later

end Smalltalk
