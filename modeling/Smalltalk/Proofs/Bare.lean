import Smalltalk.Proofs.Likeness

/-!
# `Smalltalk.Proofs.Bare`: memories without the tags of methods in frames

A frame remembers the method that it runs, tag and all. `Memory.bare` forgets
these tags, and the lines of the journal. Frames that are the same but for the tags
are alike (`Likeness.tags`), and memories with one bare form are those with alike
frames (`Memory.bare_eq_iff`).
-/

set_option autoImplicit false

namespace Smalltalk

/-! ### Bare memories -/

/-- The same method without a tag. -/
def Method.bare (method : Method) : Method := { method with primitive := .null }

/-- A frame that has forgotten the tag of its method. -/
def Frame.bare (x : Frame) : Frame := { x with method := x.method.map Method.bare }

/-- A heap whose frames have forgotten the tags of their methods. -/
def Heap.bare (h : Heap) : Heap := { h with frames := h.frames.map Frame.bare }

/-- A memory without the tags of the methods that frames run, and without the lines
of the journal. -/
def Memory.bare (m : Memory) : Memory :=
  { m with heap := m.heap.bare, journal := { m.journal with lines := [] } }

theorem Heap.frame_bare (h : Heap) (f : FrameId) : h.bare.frame f = (h.frame f).bare := by
  unfold Heap.frame Heap.bare
  simp only [Array.getD_eq_getD_getElem?, Array.getElem?_map]
  cases h.frames[f]? <;> rfl

/-! ### Alike up to tags -/

/-- What is read of the bare form is the same in two frames that share it. -/
theorem Frame.read_bare {α : Type} (read : Frame → α) (hread : ∀ x, read x.bare = read x)
    {x x' : Frame} (h : x.bare = x'.bare) : read x = read x' := by
  rw [← hread x, h, hread x']

/-- A tag is code, so frames may differ in it. -/
theorem Frame.like_of_bare {x x' : Frame} (h : x.bare = x'.bare) : x.Like x' where
  receiver := read_bare Frame.receiver (fun _ => rfl) h
  outer := read_bare Frame.outer (fun _ => rfl) h
  callers := read_bare Frame.callers (fun _ => rfl) h
  isBlock := read_bare Frame.isBlock (fun _ => rfl) h
  slots := read_bare Frame.slots (fun _ => rfl) h
  active := read_bare Frame.active (fun _ => rfl) h
  selector := read_bare (fun x => x.method.map Method.selector) (fun _ => Option.map_map ..) h
  owner := read_bare (fun x => x.method.map Method.owner) (fun _ => Option.map_map ..) h

/-- Frames that are the same but for the tags of their methods. -/
def Likeness.tags : Likeness where
  base := 0
  Frames _ x x' := x.bare = x'.bare
  like := Frame.like_of_bare
  declare key name v h := congrArg (fun y => { y with slots := y.slots.put key name v }) h
  retire _ h := congrArg (fun y => { y with active := false }) h
  home _ _ := rfl
  block {_ g _ _} callers _ h := congrArg (fun y => Frame.block y g callers) h

theorem Memory.bare_eq_iff {m m' : Memory} :
    m.bare = m'.bare ↔ Likeness.tags.Memories m m' := by
  constructor
  · intro h
    have hrest : m.bare.frameless = m'.bare.frameless := congrArg Memory.frameless h
    refine ⟨hrest, ?_, Nat.zero_le _, fun f => ?_⟩
    · have hsize := congrArg (fun n => n.heap.frames.size) h
      simp only [bare, Heap.bare, Array.size_map] at hsize
      exact hsize
    · show (m.heap.frame f).bare = (m'.heap.frame f).bare
      rw [← Heap.frame_bare, ← Heap.frame_bare]
      exact congrArg (fun n => n.heap.frame f) h
  · intro h
    have hframes : m.heap.bare.frames = m'.heap.bare.frames := by
      refine Array.ext ?_ fun f hf hf' => ?_
      · simp only [Heap.bare, Array.size_map, h.size]
      · have hframe : (m.heap.frame f).bare = (m'.heap.frame f).bare := h.frame f
        have hbare : m.heap.bare.frame f = m'.heap.bare.frame f := by
          rw [Heap.frame_bare, Heap.frame_bare]
          exact hframe
        -- both have as many frames, so each is read without a default
        unfold Heap.frame at hbare
        rw [← Array.getElem_eq_getD, ← Array.getElem_eq_getD] at hbare
        exact hbare
    show { m.frameless with heap := { m.frameless.heap with frames := m.heap.bare.frames } }
      = { m'.frameless with heap := { m'.frameless.heap with frames := m'.heap.bare.frames } }
    rw [hframes, h.rest]

end Smalltalk
