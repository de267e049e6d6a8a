import Smalltalk.Proofs.Invariant

/-!
# `Smalltalk.Proofs.Wrap`: two memories, one with a block around an expression

Evaluating `[e] value` makes three things that evaluating `e` does not: a closure,
the frame of the activation of `value`, and the frame of the block. From then on two
runs make the same things one by one, so what has a number from then on in the one
has a number that is greater by one or two in the other. A `Wrap` says from where on,
and in which frame the block was evaluated; `Wrap.toFrame` and `Wrap.toClosure` are the
renumbering.

`Wrap.Twins` says that two memories agree up to it. The frame of the block is the one
exception: it is nobody's twin, has no variables, and stands in some chains between
the frame that the block was evaluated in and the frames inside (`Wrap.Threads`).

The lemmas say that what an evaluation reads of the one memory is there in the other:
variables and homes, although the chains differ; and what values look like. And heaps
stay twins when the same is done to both (`Wrap.Heaps.newFrame` and those around it).
-/

set_option autoImplicit false

namespace Smalltalk

/-- An expression that is wrapped into a block: how many frames and closures there are
before, and the frame it is evaluated in. -/
structure Wrap where
  frames : Nat
  closures : Nat
  frame : FrameId
  inside : frame < frames

namespace Wrap

variable (w : Wrap)

/-! ### Renumbering -/

/-- The frame of the activation of `value`. -/
def call : Nat := w.frames

/-- The frame of the block. -/
def extra : Nat := w.frames + 1

/-- The number that a frame has in the memory with the block. -/
def toFrame (f : Nat) : Nat := if f < w.frames then f else f + 2

/-- The number that a closure has there. -/
def toClosure (c : Nat) : Nat := if c < w.closures then c else c + 1

/-- What a value is there. -/
def value : Value → Value
  | .closure c => .closure (w.toClosure c)
  | v => v

/-- What an object is there. -/
def object (x : Instance) : Instance :=
  { x with slots := x.slots.map w.value, elements := x.elements.map fun xs => xs.map w.value }

/-- What a fault is there. -/
def fault : Fault → Fault
  | .deadReturn v shown => .deadReturn (w.value v) shown
  | .nonBoolean v shown => .nonBoolean (w.value v) shown
  | f => f

/-- What a stop is there: an unwinding has the same home. -/
def stop : Stop → Stop
  | .unwind v home => .unwind (w.value v) (w.toFrame home)
  | .fault f => .fault (w.fault f)
  | s => s

@[simp] theorem toFrame_frame : w.toFrame w.frame = w.frame := if_pos w.inside

@[simp] theorem toFrame_zero : w.toFrame 0 = 0 :=
  if_pos (Nat.lt_of_le_of_lt (Nat.zero_le _) w.inside)

@[simp] theorem value_nil : w.value .nil = .nil := rfl

theorem toFrame_of_le {n : Nat} (h : w.frames ≤ n) : w.toFrame n = n + 2 :=
  if_neg (Nat.not_lt.mpr h)

theorem toClosure_of_le {n : Nat} (h : w.closures ≤ n) : w.toClosure n = n + 1 :=
  if_neg (Nat.not_lt.mpr h)

theorem toFrame_inj {f g : Nat} (h : w.toFrame f = w.toFrame g) : f = g := by
  unfold toFrame at h
  split at h <;> split at h <;> omega

theorem toClosure_inj {c d : Nat} (h : w.toClosure c = w.toClosure d) : c = d := by
  unfold toClosure at h
  split at h <;> split at h <;> omega

theorem toFrame_ne_call (f : Nat) : w.toFrame f ≠ w.call := by
  unfold toFrame call
  split <;> omega

theorem toFrame_ne_extra (f : Nat) : w.toFrame f ≠ w.extra := by
  unfold toFrame extra
  split <;> omega

theorem toFrame_lt {f n : Nat} (hn : w.frames ≤ n) : w.toFrame f < n + 2 ↔ f < n := by
  unfold toFrame
  split <;> omega

theorem identical_value (v u : Value) :
    Value.identical (w.value v) (w.value u) = Value.identical v u := by
  have hclosure : ∀ c d : Nat, (w.toClosure c == w.toClosure d) = (c == d) := by
    intro c d
    rw [Bool.eq_iff_iff, beq_iff_eq, beq_iff_eq]
    exact ⟨w.toClosure_inj, congrArg w.toClosure⟩
  cases v <;> cases u <;> first | rfl | exact hclosure _ _

/-! ### Chains -/

/-- Two chains with the same frames, but that the frame of the block may stand before the
frame in which the block was evaluated. -/
inductive Threads : List FrameId → List FrameId → Prop where
  | nil : Threads [] []
  | cons (f : FrameId) {l l' : List FrameId} (rest : Threads l l') :
    Threads (f :: l) (w.toFrame f :: l')
  | inserted (l : List FrameId) :
    Threads (w.frame :: l) (w.extra :: w.frame :: l.map w.toFrame)

namespace Threads

variable {w} {l l' : List FrameId}

theorem map (l : List FrameId) : w.Threads l (l.map w.toFrame) := by
  induction l with
  | nil => exact .nil
  | cons f l ih => exact .cons f ih

theorem getLastD_map (l : List FrameId) (f : FrameId) :
    (l.map w.toFrame).getLastD (w.toFrame f) = w.toFrame (l.getLastD f) := by
  induction l generalizing f with
  | nil => rfl
  | cons g l ih =>
      rw [List.map_cons, List.getLastD_cons, List.getLastD_cons]
      exact ih g

/-- The outermost frame is the same. -/
theorem last (h : w.Threads l l') (f : FrameId) :
    l'.getLastD (w.toFrame f) = w.toFrame (l.getLastD f) := by
  induction h generalizing f with
  | nil => rfl
  | cons g rest ih =>
      rw [List.getLastD_cons, List.getLastD_cons]
      exact ih g
  | inserted l =>
      rw [List.getLastD_cons, List.getLastD_cons, List.getLastD_cons, ← getLastD_map,
        toFrame_frame]

/-- So is the first frame that something holds of, if it does not hold of the block's. -/
theorem find? (h : w.Threads l l') {P P' : FrameId → Bool} (hP : ∀ f, P' (w.toFrame f) = P f)
    (hextra : P' w.extra = false) : l'.find? P' = (l.find? P).map w.toFrame := by
  have hmap : ∀ l : List FrameId, (l.map w.toFrame).find? P' = (l.find? P).map w.toFrame := by
    intro l
    rw [List.find?_map]
    exact congrArg (fun p => (l.find? p).map w.toFrame) (funext hP)
  induction h with
  | nil => rfl
  | cons f rest ih =>
      rw [List.find?_cons, List.find?_cons, hP f, ih]
      cases P f <;> rfl
  | inserted l =>
      rw [List.find?_cons, hextra]
      have hframe := hmap (w.frame :: l)
      rw [List.map_cons, toFrame_frame] at hframe
      exact hframe

end Threads

/-! ### Twins -/

/-- Dictionaries with the same keys and the same values under them. -/
structure Same (d d' : Dictionary Value) : Prop where
  keys : d'.keys = d.keys
  find? : ∀ key, d'.find? key = (d.find? key).map w.value

/-- Frames that differ in numbers only, and in who called. -/
structure Alike (x x' : Frame) : Prop where
  receiver : x'.receiver = w.value x.receiver
  method : x'.method = x.method
  outer : w.Threads x.outer x'.outer
  isBlock : x'.isBlock = x.isBlock
  slots : w.Same x.slots x'.slots
  active : x'.active = x.active

/-- Closures with one code, in frames that are twins, or in the frame of the block in
place of the frame that the block was evaluated in. -/
structure Shares (x x' : Closure) : Prop where
  params : x'.params = x.params
  temps : x'.temps = x.temps
  statements : x'.statements = x.statements
  frame : x'.frame = w.toFrame x.frame ∨ x.frame = w.frame ∧ x'.frame = w.extra

/-- Heaps that agree up to the renumbering, and in one of which the frame of the block
continues the frame that the block was evaluated in. -/
structure Heaps (h h' : Heap) : Prop where
  texts : h'.texts = h.texts
  arrays : h'.arrays.size = h.arrays.size
  array : ∀ a, h'.array a = (h.array a).map w.value
  objects : h'.objects.size = h.objects.size
  object : ∀ o, h'.object o = w.object (h.object o)
  olderClosures : w.closures ≤ h.closures.size
  closures : h'.closures.size = h.closures.size + 1
  closure : ∀ c, w.Shares (h.closure c) (h'.closure (w.toClosure c))
  olderFrames : w.frames ≤ h.frames.size
  frames : h'.frames.size = h.frames.size + 2
  frame : ∀ f, w.Alike (h.frame f) (h'.frame (w.toFrame f))
  receiver : (h'.frame w.extra).receiver = w.value (h.frame w.frame).receiver
  method : (h'.frame w.extra).method = (h.frame w.frame).method
  outer : (h'.frame w.extra).outer = (h.chain w.frame).map w.toFrame
  empty : (h'.frame w.extra).slots = {}

/-- Memories that agree up to the renumbering, and up to the lines of the journal. -/
structure Twins (m m' : Memory) : Prop where
  heap : w.Heaps m.heap m'.heap
  registry : m'.registry = m.registry
  globals : w.Same m.globals m'.globals
  recording : m'.journal.recording = m.journal.recording

/-- Frames in which the same is evaluated: twins, or the frame of the block in place of the
frame that the block was evaluated in. -/
def Stands (f f' : FrameId) : Prop := f' = w.toFrame f ∨ f = w.frame ∧ f' = w.extra

variable {w}

/-! ### Dictionaries -/

theorem Same.contains {d d' : Dictionary Value} (h : w.Same d d') (key : Key) :
    d'.contains key = d.contains key := by
  unfold Dictionary.contains
  rw [h.find?, Option.isSome_map]

theorem Same.put {d d' : Dictionary Value} (h : w.Same d d') (key : Key) (name : Json)
    (v : Value) : w.Same (d.put key name v) (d'.put key name (w.value v)) where
  keys := by rw [Dictionary.keys_put, Dictionary.keys_put, h.keys]
  find? other := by
    rw [Dictionary.find?_put, Dictionary.find?_put]
    split
    · rfl
    · exact h.find? other

theorem Same.empty : w.Same {} {} := ⟨rfl, fun _ => rfl⟩

/-! ### Reading frames -/

section
variable {h h' : Heap} {f f' : FrameId}

theorem Heaps.receiver_eq (t : w.Heaps h h') (hf : w.Stands f f') :
    (h'.frame f').receiver = w.value (h.frame f).receiver := by
  rcases hf with rfl | ⟨rfl, rfl⟩
  · exact (t.frame f).receiver
  · exact t.receiver

theorem Heaps.method_eq (t : w.Heaps h h') (hf : w.Stands f f') :
    (h'.frame f').method = (h.frame f).method := by
  rcases hf with rfl | ⟨rfl, rfl⟩
  · exact (t.frame f).method
  · exact t.method

theorem Heaps.chain (t : w.Heaps h h') (hf : w.Stands f f') :
    w.Threads (h.chain f) (h'.chain f') := by
  rcases hf with rfl | ⟨rfl, rfl⟩
  · exact .cons f (t.frame f).outer
  · unfold Heap.chain
    rw [t.outer]
    unfold Heap.chain
    rw [List.map_cons, toFrame_frame]
    exact .inserted _

/-- The home is the same. -/
theorem Heaps.home (t : w.Heaps h h') (hf : w.Stands f f') :
    h'.home f' = w.toFrame (h.home f) := by
  have hlast : ∀ (h : Heap) (f : FrameId), h.home f = (h.chain f).getLastD 0 := fun h f => by
    unfold Heap.home Heap.chain
    rw [List.getLastD_cons]
  have hchain := (t.chain hf).last 0
  rw [toFrame_zero] at hchain
  rw [hlast, hlast, hchain]

/-- The frame that declares a variable is the same: the frame of the block declares none. -/
theorem Heaps.owner? (t : w.Heaps h h') (hf : w.Stands f f') (key : Key) :
    h'.owner? f' key = (h.owner? f key).map w.toFrame := by
  refine (t.chain hf).find? (fun g => (t.frame g).slots.contains key) ?_
  rw [t.empty]
  rfl

theorem Heaps.lookup? (t : w.Heaps h h') (hf : w.Stands f f') (key : Key) :
    h'.lookup? f' key = (h.lookup? f key).map w.value := by
  unfold Heap.lookup?
  rw [t.owner? hf]
  cases h.owner? f key with
  | none => rfl
  | some g => exact (t.frame g).slots.find? key

theorem Heaps.active (t : w.Heaps h h') (f : FrameId) :
    (h'.frame (w.toFrame f)).active = (h.frame f).active := (t.frame f).active

end

/-! ### What values look like -/

section
variable {m m' : Memory}

theorem Twins.inspectWith (t : w.Twins m m') {shown shown' : ArrayId → String}
    (hshown : ∀ a, shown' a = shown a) (v : Value) :
    m'.inspectWith shown' (w.value v) = m.inspectWith shown v := by
  cases v with
  | array a => exact hshown a
  | object o =>
      show Memory.instanceText (m'.registry.entry (m'.heap.object o).cls).name = _
      rw [t.registry, t.heap.object]
      rfl
  | closure c =>
      show Memory.closureText (m'.heap.closure (w.toClosure c)).arity = _
      unfold Closure.arity
      rw [(t.heap.closure c).params]
      rfl
  | behavior b =>
      show m'.registry.nameOf b = _
      rw [t.registry]
      rfl
  | _ => rfl

theorem Twins.inspect (t : w.Twins m m') (v : Value) : m'.inspect (w.value v) = m.inspect v := by
  have hin : ∀ fuel opened v, m'.inspectIn fuel opened (w.value v) = m.inspectIn fuel opened v := by
    intro fuel
    induction fuel with
    | zero => exact fun opened v => t.inspectWith (fun _ => rfl) v
    | succ fuel ih =>
        intro opened v
        unfold Memory.inspectIn
        refine t.inspectWith (fun a => ?_) v
        rw [t.heap.array, Array.toList_map, List.map_map]
        have hparts : (m'.inspectIn fuel (a :: opened)) ∘ w.value
            = m.inspectIn fuel (a :: opened) :=
          funext (ih (a :: opened))
        rw [hparts]
  unfold Memory.inspect
  rw [t.heap.arrays]
  exact hin _ _ v

theorem Twins.printWith (t : w.Twins m m') {shown shown' : ArrayId → Option String}
    (hshown : ∀ a, shown' a = shown a) (v : Value) :
    m'.printWith shown' (w.value v) = m.printWith shown v := by
  have hinspect := t.inspectWith (fun _ : ArrayId => (rfl : "" = "")) v
  cases v with
  | array a => exact hshown a
  | nil => rfl
  | bool b => rfl
  | text s origin => rfl
  | _ => exact congrArg some hinspect

theorem Twins.print? (t : w.Twins m m') (v : Value) : m'.print? (w.value v) = m.print? v := by
  have hin : ∀ fuel opened v, m'.printIn fuel opened (w.value v) = m.printIn fuel opened v := by
    intro fuel
    induction fuel with
    | zero => exact fun opened v => t.printWith (fun _ => rfl) v
    | succ fuel ih =>
        intro opened v
        unfold Memory.printIn
        refine t.printWith (fun a => ?_) v
        rw [t.heap.array, Array.toList_map, List.mapM_map]
        have hparts : (m'.printIn fuel (a :: opened)) ∘ w.value = m.printIn fuel (a :: opened) :=
          funext (ih (a :: opened))
        rw [hparts]
  unfold Memory.print?
  rw [t.heap.arrays]
  exact hin _ _ v

theorem Twins.classOf? (t : w.Twins m m') (v : Value) :
    m'.classOf? (w.value v) = m.classOf? v := by
  unfold Memory.classOf?
  rw [t.registry]
  cases v with
  | object o =>
      simp only [value, t.heap.object]
      rfl
  | _ => rfl

theorem Twins.printOrigin (t : w.Twins m m') (v : Value) :
    m'.printOrigin (w.value v) = m.printOrigin v := by
  unfold Memory.printOrigin
  rw [t.registry, t.heap.texts]
  cases v <;> rfl

/-- The lines of the journal may differ. -/
theorem Twins.note (t : w.Twins m m') (line line' : String) :
    w.Twins (m.note line) (m'.note line') := by
  unfold Memory.note
  split <;> split <;> exact { t with }

theorem map_const {α β ε : Type} (x : Except ε α) (f : α → β) :
    (x.map f).map (fun _ => ()) = x.map fun _ => () := by
  cases x <;> rfl

/-- Whether a frame can be shown is the same; what is shown only goes into the journal. -/
theorem Twins.frameWord (t : w.Twins m m') (f : FrameId) :
    (m'.frameWord (w.toFrame f)).map (fun _ => ()) = (m.frameWord f).map fun _ => () := by
  unfold Memory.frameWord
  simp only [(t.heap.frame f).method, map_const]

end

/-! ### Changes of twin heaps -/

namespace Heaps

variable {h h' : Heap}

theorem toClosure_size (t : w.Heaps h h') : w.toClosure h.closures.size = h'.closures.size := by
  rw [toClosure_of_le _ t.olderClosures, t.closures]

theorem toFrame_size (t : w.Heaps h h') : w.toFrame h.frames.size = h'.frames.size := by
  rw [toFrame_of_le _ t.olderFrames, t.frames]

/-- The frame that the block was evaluated in is an old one. -/
theorem frame_lt (t : w.Heaps h h') : w.frame < h.frames.size :=
  Nat.lt_of_lt_of_le w.inside t.olderFrames

theorem extra_ne_size (t : w.Heaps h h') : w.extra ≠ h'.frames.size := by
  have hold := t.olderFrames
  rw [t.frames]
  unfold extra
  omega

theorem newArray (t : w.Heaps h h') (xs : Array Value) :
    w.Heaps (h.newArray xs).1 (h'.newArray (xs.map w.value)).1 :=
  { t with
    arrays := by rw [Heap.size_newArray, Heap.size_newArray, t.arrays]
    array := fun a => by
      rw [Heap.array_newArray, Heap.array_newArray, t.arrays]
      split
      · rfl
      · exact t.array a }

theorem newObject (t : w.Heaps h h') (x : Instance) :
    w.Heaps (h.newObject x).1 (h'.newObject (w.object x)).1 :=
  { t with
    objects := by rw [Heap.size_newObject, Heap.size_newObject, t.objects]
    object := fun o => by
      rw [Heap.object_newObject, Heap.object_newObject, t.objects]
      split
      · rfl
      · exact t.object o }

theorem newClosure (t : w.Heaps h h') {x x' : Closure} (hx : w.Shares x x') :
    w.Heaps (h.newClosure x).1 (h'.newClosure x').1 :=
  { t with
    olderClosures := by
      rw [Heap.size_newClosure]
      exact Nat.le_succ_of_le t.olderClosures
    closures := by rw [Heap.size_newClosure, Heap.size_newClosure, t.closures]
    closure := fun c => by
      rw [Heap.closure_newClosure, Heap.closure_newClosure, ← t.toClosure_size]
      by_cases hc : c = h.closures.size
      · rw [if_pos hc, if_pos (congrArg w.toClosure hc)]
        exact hx
      · rw [if_neg hc, if_neg fun heq => hc (w.toClosure_inj heq)]
        exact t.closure c }

theorem newFrame (t : w.Heaps h h') {x x' : Frame} (hx : w.Alike x x') :
    w.Heaps (h.newFrame x).1 (h'.newFrame x').1 := by
  -- the two frames that the pairing speaks of were there before
  have hold : (h.newFrame x).1.frame w.frame = h.frame w.frame := by
    rw [Heap.frame_newFrame, if_neg (Nat.ne_of_lt t.frame_lt)]
  have hextra : (h'.newFrame x').1.frame w.extra = h'.frame w.extra := by
    rw [Heap.frame_newFrame, if_neg t.extra_ne_size]
  refine { t with
    olderFrames := ?_, frames := ?_, frame := fun f => ?_, receiver := ?_, method := ?_,
    outer := ?_, empty := ?_ }
  · rw [Heap.size_newFrame]
    exact Nat.le_succ_of_le t.olderFrames
  · rw [Heap.size_newFrame, Heap.size_newFrame, t.frames]
  · rw [Heap.frame_newFrame, Heap.frame_newFrame, ← t.toFrame_size]
    by_cases hf : f = h.frames.size
    · rw [if_pos hf, if_pos (congrArg w.toFrame hf)]
      exact hx
    · rw [if_neg hf, if_neg fun heq => hf (w.toFrame_inj heq)]
      exact t.frame f
  · rw [hextra, hold]
    exact t.receiver
  · rw [hextra, hold]
    exact t.method
  · unfold Heap.chain
    rw [hextra, hold]
    exact t.outer
  · rw [hextra]
    exact t.empty

theorem setElement (t : w.Heaps h h') (a : ArrayId) (i : Nat) (v : Value) :
    w.Heaps (h.setElement a i v) (h'.setElement a i (w.value v)) :=
  { t with
    arrays := by rw [Heap.size_setElement, Heap.size_setElement, t.arrays]
    array := fun b => by
      rw [Heap.array_setElement, Heap.array_setElement, t.arrays, t.array, t.array]
      split
      · exact (Array.map_setIfInBounds ..).symm
      · rfl }

theorem setIndexed (t : w.Heaps h h') (o : ObjectId) (i : Nat) (v : Value) :
    w.Heaps (h.setIndexed o i v) (h'.setIndexed o i (w.value v)) :=
  { t with
    objects := by rw [Heap.size_setIndexed, Heap.size_setIndexed, t.objects]
    object := fun p => by
      rw [Heap.object_setIndexed, Heap.object_setIndexed, t.objects, t.object, t.object]
      split
      · unfold Wrap.object
        simp only [Option.map_map, Function.comp_def, Array.map_setIfInBounds]
      · rfl }

theorem setSlot (t : w.Heaps h h') (o : ObjectId) (i : Nat) (v : Value) :
    w.Heaps (h.setSlot o i v) (h'.setSlot o i (w.value v)) :=
  { t with
    objects := by rw [Heap.size_setSlot, Heap.size_setSlot, t.objects]
    object := fun p => by
      rw [Heap.object_setSlot, Heap.object_setSlot, t.objects, t.object, t.object]
      split
      · unfold Wrap.object
        simp only [Array.map_setIfInBounds]
      · rfl }

/-- A change of a frame that leaves alone what is the frame's for good. -/
theorem modifyFrame (t : w.Heaps h h') (f : FrameId) {change change' : Frame → Frame}
    (halike : ∀ x x', w.Alike x x' → w.Alike (change x) (change' x'))
    (hkept : ∀ x, (change x).receiver = x.receiver ∧ (change x).method = x.method ∧
      (change x).outer = x.outer) :
    w.Heaps { h with frames := h.frames.modify f change }
      { h' with frames := h'.frames.modify (w.toFrame f) change' } := by
  have hframe : ∀ g, ({ h with frames := h.frames.modify f change } : Heap).frame g
      = if g = f ∧ f < h.frames.size then change (h.frame f) else h.frame g :=
    fun g => getD_modify ..
  have hframe' : ∀ g, ({ h' with frames := h'.frames.modify (w.toFrame f) change' } : Heap).frame g
      = if g = w.toFrame f ∧ w.toFrame f < h'.frames.size then change' (h'.frame (w.toFrame f))
        else h'.frame g :=
    fun g => getD_modify ..
  -- the extra frame is the twin of none, so it is not the one that is changed
  have hextra : ({ h' with frames := h'.frames.modify (w.toFrame f) change' } : Heap).frame w.extra
      = h'.frame w.extra := by
    rw [hframe', if_neg fun heq => w.toFrame_ne_extra f heq.1.symm]
  have hold : ∀ g, ({ h with frames := h.frames.modify f change } : Heap).frame g
      = h.frame g ∨ g = f ∧ ({ h with frames := h.frames.modify f change } : Heap).frame g
        = change (h.frame g) := by
    intro g
    rw [hframe]
    split
    · rename_i hg
      exact .inr ⟨hg.1, by rw [hg.1]⟩
    · exact .inl rfl
  have hkept' : ∀ g, (({ h with frames := h.frames.modify f change } : Heap).frame g).receiver
        = (h.frame g).receiver ∧
      (({ h with frames := h.frames.modify f change } : Heap).frame g).method
        = (h.frame g).method ∧
      (({ h with frames := h.frames.modify f change } : Heap).frame g).outer
        = (h.frame g).outer := by
    intro g
    rcases hold g with hsame | ⟨-, hchanged⟩
    · rw [hsame]
      exact ⟨rfl, rfl, rfl⟩
    · rw [hchanged]
      exact hkept _
  refine { t with
    olderFrames := ?_, frames := ?_, frame := fun g => ?_, receiver := ?_, method := ?_,
    outer := ?_, empty := ?_ }
  · show _ ≤ (h.frames.modify f change).size
    rw [Array.size_modify]
    exact t.olderFrames
  · show (h'.frames.modify _ change').size = (h.frames.modify f change).size + 2
    rw [Array.size_modify, Array.size_modify, t.frames]
  · rw [hframe, hframe', t.frames]
    by_cases hg : g = f ∧ f < h.frames.size
    · obtain ⟨rfl, hlt⟩ := hg
      rw [if_pos ⟨rfl, hlt⟩, if_pos ⟨rfl, (w.toFrame_lt t.olderFrames).mpr hlt⟩]
      exact halike _ _ (t.frame g)
    · rw [if_neg hg, if_neg fun heq => hg ⟨w.toFrame_inj heq.1,
        (w.toFrame_lt t.olderFrames).mp heq.2⟩]
      exact t.frame g
  · rw [hextra, (hkept' w.frame).1]
    exact t.receiver
  · rw [hextra, (hkept' w.frame).2.1]
    exact t.method
  · unfold Heap.chain
    rw [hextra, (hkept' w.frame).2.2]
    exact t.outer
  · rw [hextra]
    exact t.empty

theorem declare (t : w.Heaps h h') (f : FrameId) (key : Key) (name : Json) (v : Value) :
    w.Heaps (h.declare f key name v) (h'.declare (w.toFrame f) key name (w.value v)) :=
  t.modifyFrame f (fun _ _ hx => { hx with slots := hx.slots.put key name v })
    fun _ => ⟨rfl, rfl, rfl⟩

theorem retire (t : w.Heaps h h') (f : FrameId) :
    w.Heaps (h.retire f) (h'.retire (w.toFrame f)) :=
  t.modifyFrame f (fun _ _ hx => { hx with active := rfl }) fun _ => ⟨rfl, rfl, rfl⟩

/-- The activation of `value` has no twin, so it may end. -/
theorem retire_call (t : w.Heaps h h') : w.Heaps h (h'.retire w.call) := by
  have hsame : ∀ g, g ≠ w.call → (h'.retire w.call).frame g = h'.frame g := fun g hg => by
    rw [Heap.frame_retire, if_neg fun heq => hg heq.1]
  have hextra : (h'.retire w.call).frame w.extra = h'.frame w.extra :=
    hsame _ (Nat.succ_ne_self _)
  refine { t with
    frames := ?_, frame := fun f => ?_, receiver := ?_, method := ?_, outer := ?_, empty := ?_ }
  · rw [Heap.size_retire]
    exact t.frames
  · rw [hsame _ (w.toFrame_ne_call f)]
    exact t.frame f
  · rw [hextra]
    exact t.receiver
  · rw [hextra]
    exact t.method
  · rw [hextra]
    exact t.outer
  · rw [hextra]
    exact t.empty

end Heaps

end Wrap

end Smalltalk
