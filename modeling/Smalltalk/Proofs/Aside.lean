import Smalltalk.Evaluation
import Smalltalk.Proofs.Later
import Smalltalk.Proofs.Moves

/-!
# `Smalltalk.Proofs.Aside`: changes that only concern some frames

`Memory.Aside own m m'` says that between `m` and `m'` nothing has changed that was there,
but for the frames `own`: no array, object, closure, class or global, and no other frame.
Closures and frames may have been made, texts and lines of the journal as well. With no
frames of its own an evaluation has only added something (`Aside []`).

There is a lemma for each change that such an evaluation is made of, and `Aside.trans` puts
them together. What was made on the way does not count, so a frame that was made and then
changed is no frame of one's own (`Aside.trans`, in its last hypothesis).
-/

set_option autoImplicit false

namespace Smalltalk

/-- Nothing has changed that was there, but for some frames. -/
structure Memory.Aside (own : List FrameId) (m m' : Memory) : Prop extends m.Later m' where
  bound : m'.globals = m.globals
  arrays : m'.heap.arrays = m.heap.arrays
  objects : m'.heap.objects = m.heap.objects
  frame : ∀ f < m.heap.frames.size, f ∉ own → m'.heap.frame f = m.heap.frame f

/-- A memory but for the lines of its journal. -/
structure Memory.Noted (m m' : Memory) : Prop where
  heap : m'.heap = m.heap
  registry : m'.registry = m.registry
  globals : m'.globals = m.globals
  recording : m'.journal.recording = m.journal.recording

/-- The variables of a frame with these names and values. -/
def Dictionary.putAll : (names : List String) → List Value → Dictionary Value → Dictionary Value
  | name :: names, v :: vs, d => putAll names vs (d.put (.text name) (.str name) v)
  | _, _, d => d

namespace Memory.Aside

variable {own own' : List FrameId} {m m' m'' : Memory} {h : Heap}

theorem refl (own : List FrameId) (m : Memory) : m.Aside own m :=
  { Later.refl m with bound := rfl, arrays := rfl, objects := rfl, frame := fun _ _ _ => rfl }

/-- Frames that the second change has of its own may have been made by the first. -/
theorem trans (a : m.Aside own m') (a' : m'.Aside own' m'')
    (hown : ∀ f ∈ own', f ∈ own ∨ m.heap.frames.size ≤ f) : m.Aside own m'' where
  toLater := a.toLater.trans a'.toLater
  bound := a'.bound.trans a.bound
  arrays := a'.arrays.trans a.arrays
  objects := a'.objects.trans a.objects
  frame f hf hnot := by
    have hnot' : f ∉ own' := fun hmem =>
      (hown f hmem).elim hnot fun hle => Nat.lt_irrefl _ (Nat.lt_of_lt_of_le hf hle)
    rw [a'.frame f (Nat.lt_of_lt_of_le hf a.heap.frames) hnot', a.frame f hf hnot]

/-- Nothing but additions after one another. -/
theorem append (a : m.Aside own m') (a' : m'.Aside [] m'') : m.Aside own m'' :=
  a.trans a' fun _ h => absurd h List.not_mem_nil

/-- The frames may be more. -/
theorem mono (a : m.Aside own m') (hown : ∀ f ∈ own, f ∈ own') : m.Aside own' m' :=
  { a with frame := fun f hf hnot => a.frame f hf fun hmem => hnot (hown f hmem) }

theorem of_noted (n : m.Noted m') : m.Aside [] m' where
  toLater := ⟨n.heap ▸ Heap.Later.refl _, n.registry, fun _ h => n.globals ▸ h, n.recording⟩
  bound := n.globals
  arrays := by rw [n.heap]
  objects := by rw [n.heap]
  frame _ _ _ := by rw [n.heap]

/-! ### The changes -/

theorem newClosure (m : Memory) (x : Closure) :
    m.Aside [] { m with heap := (m.heap.newClosure x).1 } :=
  { Later.of_heap (Heap.Later.newClosure m.heap x) with
    bound := rfl, arrays := rfl, objects := rfl, frame := fun _ _ _ => rfl }

theorem newFrame (m : Memory) (x : Frame) :
    m.Aside [] { m with heap := (m.heap.newFrame x).1 } :=
  { Later.of_heap (Heap.Later.newFrame m.heap x) with
    bound := rfl
    arrays := rfl
    objects := rfl
    frame := fun f hf _ => by rw [Heap.frame_newFrame, if_neg (Nat.ne_of_lt hf)] }

theorem newText (m : Memory) (s : String) : m.Aside [] (m.newText s).1 :=
  { Later.of_heap (Heap.Later.texts m.heap _) with
    bound := rfl, arrays := rfl, objects := rfl, frame := fun _ _ _ => rfl }

theorem declare (m : Memory) (f : FrameId) (key : Key) (name : Json) (v : Value) :
    m.Aside [f] { m with heap := m.heap.declare f key name v } :=
  { Later.of_heap (Heap.Later.declare m.heap f key name v) with
    bound := rfl
    arrays := rfl
    objects := rfl
    frame := fun g _ hnot => by
      rw [Heap.frame_declare, if_neg fun h => hnot (List.mem_singleton.mpr h.1)] }

theorem retire (m : Memory) (f : FrameId) : m.Aside [f] { m with heap := m.heap.retire f } :=
  { Later.of_heap (Heap.Later.retire m.heap f) with
    bound := rfl
    arrays := rfl
    objects := rfl
    frame := fun g _ hnot => by
      rw [Heap.frame_retire, if_neg fun h => hnot (List.mem_singleton.mpr h.1)] }

/-! ### What can be read -/

theorem array (a : m.Aside own m') (i : ArrayId) : m'.heap.array i = m.heap.array i := by
  unfold Heap.array
  rw [a.arrays]

theorem object (a : m.Aside own m') (o : ObjectId) : m'.heap.object o = m.heap.object o := by
  unfold Heap.object
  rw [a.objects]

theorem classOf? (a : m.Aside own m') (v : Value) : m'.classOf? v = m.classOf? v := by
  unfold Memory.classOf?
  simp only [a.object, a.registry]

/-- A variable of a frame that was there, with frames around it that were. -/
theorem lookup? (a : m.Aside [] m') {f : FrameId} (hf : ∀ g ∈ m.heap.chain f,
    g < m.heap.frames.size) (key : Key) : m'.heap.lookup? f key = m.heap.lookup? f key := by
  have hframe : ∀ g ∈ m.heap.chain f, m'.heap.frame g = m.heap.frame g :=
    fun g hg => a.frame g (hf g hg) List.not_mem_nil
  exact Heap.lookup?_congr hframe key

end Memory.Aside

/-! ### New frames with variables -/

namespace Heap

/-- A variable of a frame that has just been made might have been made with it. -/
theorem declare_newFrame (h : Heap) (x : Frame) (key : Key) (name : Json) (v : Value) :
    (h.newFrame x).1.declare h.frames.size key name v
      = (h.newFrame { x with slots := x.slots.put key name v }).1 := by
  unfold declare newFrame
  simp only [Heap.mk.injEq, true_and, and_true]
  apply Array.ext
  · simp
  · intro i hi _
    have hi' : i < h.frames.size + 1 := by simpa using hi
    rcases Nat.lt_succ_iff_lt_or_eq.mp hi' with hlt | rfl
    · simp [Array.getElem_modify, Array.getElem_push, hlt, Nat.ne_of_gt hlt]
    · simp [Array.getElem_modify]

end Heap

namespace Eval

theorem declare_newFrame {name : Json} {key : Key} (hkey : name.key? = some key) (v : Value)
    (m : Memory) (x : Frame) :
    declare m.heap.frames.size name v { m with heap := (m.heap.newFrame x).1 }
      = .ok () { m with heap := (m.heap.newFrame
          { x with slots := x.slots.put key name v }).1 } := by
  rw [← Heap.declare_newFrame]
  exact bind_of_ok (ofExcept_keyOf hkey _)

/-- Declaring the variables of a frame that has just been made. -/
theorem declareAll_newFrame (names : List String) (vs : List Value) (x : Frame) (m : Memory) :
    declareAll m.heap.frames.size (names.map .str) vs
        { m with heap := (m.heap.newFrame x).1 }
      = .ok () { m with heap :=
          (m.heap.newFrame { x with slots := Dictionary.putAll names vs x.slots }).1 } := by
  induction names generalizing vs x with
  | nil => rfl
  | cons name names ih =>
      cases vs with
      | nil => rfl
      | cons v vs =>
          have hkey : (Json.str name).key? = some (.text name) := rfl
          show (declare m.heap.frames.size (.str name) v >>= fun _ =>
            declareAll m.heap.frames.size (names.map .str) vs) _ = _
          rw [bind_of_ok (declare_newFrame hkey v m x)]
          exact ih vs _

/-- The frame of an activation is made with the arguments as its variables. -/
theorem enter_of_texts {method : Method} {names : List String}
    (hparams : method.params = names.map .str) (receiver : Value) (args : List Value)
    (callers : List FrameId) (m : Memory) :
    enter method receiver args callers m = .ok m.heap.frames.size { m with heap :=
      (m.heap.newFrame {
        receiver, method := some method, callers,
        slots := Dictionary.putAll names args {} }).1 } := by
  have hdeclare := declareAll_newFrame names args
    { receiver, method := some method, callers } m
  show (declareAll m.heap.frames.size method.params args >>= _) _ = _
  rw [hparams]
  exact bind_of_ok hdeclare

end Eval

end Smalltalk
