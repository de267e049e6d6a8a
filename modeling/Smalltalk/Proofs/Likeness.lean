import Smalltalk.Proofs.Heap
import Smalltalk.Proofs.Keeps

/-!
# `Smalltalk.Proofs.Likeness`: memories whose frames are alike

What runs in a frame never looks at the code of the method that the frame remembers: the
code was read when the method was activated. So two frames that differ in the code at most
are as good as one another (`Frame.Like`).

A `Likeness` says which frames are alike, and what it has to say for that: what is done to
alike frames leaves them alike, new frames are alike, and so are the frames of blocks that
were made in alike frames. It may protect the frames up to a number from being closed.

`Likeness.Memories` are memories with alike frames that are the same otherwise, up to the
lines of the journal. The lemmas say that whatever an evaluation reads is the same in both,
and that both can be changed in the same way.
-/

set_option autoImplicit false

namespace Smalltalk

/-! ### Frames -/

/-- Two frames that differ in the code of their methods at most. -/
structure Frame.Like (x x' : Frame) : Prop where
  receiver : x.receiver = x'.receiver
  outer : x.outer = x'.outer
  callers : x.callers = x'.callers
  isBlock : x.isBlock = x'.isBlock
  slots : x.slots = x'.slots
  active : x.active = x'.active
  selector : x.method.map Method.selector = x'.method.map Method.selector
  owner : x.method.map Method.owner = x'.method.map Method.owner

/-- The frame of a block that was made in a frame, before it has any variables. -/
def Frame.block (x : Frame) (f : FrameId) (callers : List FrameId) : Frame where
  receiver := x.receiver
  method := x.method
  outer := f :: x.outer
  callers := callers
  isBlock := true

/-- Which frames are alike, by their numbers. -/
structure Likeness where
  /-- Frames with smaller numbers are not closed. -/
  base : Nat
  Frames : FrameId → Frame → Frame → Prop
  like : ∀ {f x x'}, Frames f x x' → x.Like x'
  declare : ∀ {f x x'} (key name v), Frames f x x' →
    Frames f { x with slots := x.slots.put key name v } { x' with slots := x'.slots.put key name v }
  retire : ∀ {f x x'}, base ≤ f → Frames f x x' →
    Frames f { x with active := false } { x' with active := false }
  home : ∀ {f x}, base ≤ f → x.outer = [] → Frames f x x
  block : ∀ {f g x x'} (callers), base ≤ f → Frames g x x' →
    Frames f (x.block g callers) (x'.block g callers)

/-! ### Memories -/

/-- A memory without frames, and without the lines of the journal. -/
def Memory.frameless (m : Memory) : Memory :=
  { m with heap := { m.heap with frames := #[] }, journal := { m.journal with lines := [] } }

namespace Memory

variable (m : Memory)

theorem inspect_frameless (v : Value) : m.frameless.inspect v = m.inspect v := by
  have hin : ∀ fuel opened, m.frameless.inspectIn fuel opened = m.inspectIn fuel opened := by
    intro fuel
    induction fuel with
    | zero => exact fun opened => rfl
    | succ fuel ih =>
        intro opened
        funext v
        unfold inspectIn
        simp only [ih]
        rfl
  exact congrFun (hin _ _) v

theorem print?_frameless (v : Value) : m.frameless.print? v = m.print? v := by
  have hin : ∀ fuel opened, m.frameless.printIn fuel opened = m.printIn fuel opened := by
    intro fuel
    induction fuel with
    | zero => exact fun opened => rfl
    | succ fuel ih =>
        intro opened
        funext v
        unfold printIn
        simp only [ih]
        rfl
  exact congrFun (hin _ _) v

theorem classOf?_frameless (v : Value) : m.frameless.classOf? v = m.classOf? v := by
  unfold classOf?
  rfl

/-- A primitive looks at no frame. -/
theorem attempt_frameless (p : Primitive) (receiver : Value) (args : List Value) :
    p.attempt m.frameless receiver args = p.attempt m receiver args := by
  have hchoose : ∀ arg, p.choose m.frameless receiver arg = p.choose m receiver arg := by
    intro arg
    cases p with
    | classOf =>
        unfold Primitive.choose
        simp only [m.classOf?_frameless, m.inspect_frameless]
    | _ => rfl
  unfold Primitive.attempt
  rw [hchoose]

theorem decide_frameless (settings : Settings) (receiver : Value) (args : List Value)
    (number : Json) : Eval.decide settings m.frameless receiver args number
      = Eval.decide settings m receiver args number := by
  unfold Eval.decide
  simp only [attempt_frameless]

end Memory

namespace Likeness

variable (L : Likeness)

/-- Memories with alike frames, and the same otherwise. -/
structure Memories (m m' : Memory) : Prop where
  rest : m.frameless = m'.frameless
  size : m.heap.frames.size = m'.heap.frames.size
  room : L.base ≤ m.heap.frames.size
  frame : ∀ f, L.Frames f (m.heap.frame f) (m'.heap.frame f)

variable {L} {m m' m₁ m₁' : Memory}

namespace Memories

/-! ### What can be read -/

/-- What is read without frames. -/
theorem read {α : Type} (h : L.Memories m m') (get : Memory → α)
    (hget : ∀ m, get m.frameless = get m) : get m = get m' := by
  rw [← hget m, h.rest, hget m']

theorem registry (h : L.Memories m m') : m.registry = m'.registry :=
  h.read Memory.registry fun _ => rfl

theorem recording (h : L.Memories m m') : m.journal.recording = m'.journal.recording :=
  h.read (fun m => m.journal.recording) fun _ => rfl

theorem object (h : L.Memories m m') : m.heap.object = m'.heap.object :=
  h.read (fun m => m.heap.object) fun _ => rfl

theorem inspect (h : L.Memories m m') : m.inspect = m'.inspect :=
  h.read Memory.inspect fun m => funext m.inspect_frameless

theorem classOf? (h : L.Memories m m') : m.classOf? = m'.classOf? :=
  h.read Memory.classOf? fun m => funext m.classOf?_frameless

theorem print? (h : L.Memories m m') : m.print? = m'.print? :=
  h.read Memory.print? fun m => funext m.print?_frameless

theorem like (h : L.Memories m m') (f : FrameId) : (m.heap.frame f).Like (m'.heap.frame f) :=
  L.like (h.frame f)

theorem home (h : L.Memories m m') (f : FrameId) : m.heap.home f = m'.heap.home f := by
  unfold Heap.home
  rw [(h.like f).outer]

theorem owner? (h : L.Memories m m') (f : FrameId) (key : Key) :
    m.heap.owner? f key = m'.heap.owner? f key := by
  unfold Heap.owner? Heap.chain
  rw [(h.like f).outer]
  simp only [fun g => (h.like g).slots]

theorem lookup? (h : L.Memories m m') (f : FrameId) (key : Key) :
    m.heap.lookup? f key = m'.heap.lookup? f key := by
  unfold Heap.lookup?
  rw [h.owner?]
  simp only [fun g => (h.like g).slots]

theorem frameWord (h : L.Memories m m') (f : FrameId) : m.frameWord f = m'.frameWord f := by
  have hslots : m.slotsText = m'.slotsText := by
    unfold Memory.slotsText
    rw [h.inspect]
  have hselector := (h.like f).selector
  unfold Memory.frameWord
  simp only [hslots, (h.like f).isBlock, (h.like f).slots]
  -- a frame without a method has a word as well
  cases hmethod : (m.heap.frame f).method with
  | none =>
      rw [hmethod] at hselector
      rw [Option.map_eq_none_iff.mp hselector.symm]
  | some method =>
      rw [hmethod] at hselector
      obtain ⟨method', hmethod', hsame⟩ := Option.map_eq_some_iff.mp hselector.symm
      rw [hmethod']
      simp only [hsame]

theorem argumentsOf (h : L.Memories m m') (f : FrameId) (method : Method) :
    Eval.argumentsOf m f method = Eval.argumentsOf m' f method := by
  unfold Eval.argumentsOf
  rw [(h.like f).slots]

/-! ### What can be changed -/

/-- A change of anything but the frames. -/
theorem change (h : L.Memories m m') (hframes : m₁.heap.frames = m.heap.frames)
    (hframes' : m₁'.heap.frames = m'.heap.frames) (hrest : m₁.frameless = m₁'.frameless) :
    L.Memories m₁ m₁' where
  rest := hrest
  size := by rw [hframes, hframes', h.size]
  room := hframes ▸ h.room
  frame f := by
    unfold Heap.frame
    rw [hframes, hframes']
    exact h.frame f

/-- A change of a frame that leaves it alike. -/
theorem modify (h : L.Memories m m') {f : FrameId} {change : Frame → Frame}
    (hchange : ∀ x x', L.Frames f x x' → L.Frames f (change x) (change x')) :
    L.Memories { m with heap := { m.heap with frames := m.heap.frames.modify f change } }
      { m' with heap := { m'.heap with frames := m'.heap.frames.modify f change } } where
  rest := h.rest
  size := by
    show (m.heap.frames.modify f change).size = (m'.heap.frames.modify f change).size
    rw [Array.size_modify, Array.size_modify, h.size]
  room := by
    show L.base ≤ (m.heap.frames.modify f change).size
    rw [Array.size_modify]
    exact h.room
  frame g := by
    show L.Frames g ((m.heap.frames.modify f change).getD g default)
      ((m'.heap.frames.modify f change).getD g default)
    rw [getD_modify, getD_modify, ← h.size]
    split
    · rename_i hg
      rw [hg.1]
      exact hchange _ _ (h.frame f)
    · exact h.frame g

theorem declare (h : L.Memories m m') (f : FrameId) (key : Key) (name : Json) (v : Value) :
    L.Memories { m with heap := m.heap.declare f key name v }
      { m' with heap := m'.heap.declare f key name v } :=
  h.modify fun _ _ hx => L.declare key name v hx

theorem retire (h : L.Memories m m') {f : FrameId} (hf : L.base ≤ f) :
    L.Memories { m with heap := m.heap.retire f } { m' with heap := m'.heap.retire f } :=
  h.modify fun _ _ hx => L.retire hf hx

theorem newFrame (h : L.Memories m m') {x x' : Frame}
    (hx : L.Frames m.heap.frames.size x x') :
    L.Memories { m with heap := (m.heap.newFrame x).1 }
      { m' with heap := (m'.heap.newFrame x').1 } where
  rest := h.rest
  size := by
    show (m.heap.newFrame x).1.frames.size = (m'.heap.newFrame x').1.frames.size
    rw [Heap.size_newFrame, Heap.size_newFrame, h.size]
  room := by
    show L.base ≤ (m.heap.newFrame x).1.frames.size
    rw [Heap.size_newFrame]
    exact Nat.le_succ_of_le h.room
  frame f := by
    show L.Frames f ((m.heap.newFrame x).1.frame f) ((m'.heap.newFrame x').1.frame f)
    rw [Heap.frame_newFrame, Heap.frame_newFrame, ← h.size]
    split
    · rename_i hf
      rw [hf]
      exact hx
    · exact h.frame f

theorem note (h : L.Memories m m') (line line' : String) :
    L.Memories (m.note line) (m'.note line') := by
  unfold Memory.note
  rw [h.recording]
  split
  · exact h.change rfl rfl h.rest
  · exact h

end Memories

end Likeness

end Smalltalk
