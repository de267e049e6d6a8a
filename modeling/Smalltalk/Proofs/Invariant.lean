import Smalltalk.Kernel
import Smalltalk.Proofs.Later
import Smalltalk.Proofs.Regime

/-!
# `Smalltalk.Proofs.Invariant`: what holds at every moment

`Memory.WellFormed` is the part of the invariant that does not depend on what
is running: every value that is stored is admitted and refers to something
that is there, every frame runs a method and shares receiver and method with
the frame around it, every closure belongs to a frame, and the kernel classes
are registered.

`Memory.Good` adds what ties the frames to the activations in progress. These
are given as a list `opened` of the frames they made. All of them are active,
and whenever the home of a closure is not among them, it is over
(`Heap.Settled`).

`WellFormed.later` is the one place where the parts are put together again
after a change: what was there before is settled by `Memory.Later`, so only
what is new has to be looked at.
-/

set_option autoImplicit false

namespace Smalltalk

variable {R : Regime} {m m' : Memory}

/-! ### Values -/

theorem Memory.Knows.later {v : Value} (hv : m.Knows v) (l : m.Later m') : m'.Knows v := by
  cases v with
  | array a => exact Nat.lt_of_lt_of_le hv l.heap.arrays
  | object o => exact Nat.lt_of_lt_of_le hv l.heap.objects
  | closure c => exact Nat.lt_of_lt_of_le hv l.heap.closures
  | behavior b =>
      show b.id < m'.registry.classes.size
      rw [l.registry]
      exact hv
  | _ => trivial

theorem Regime.Holds.later {v : Value} (hv : R.Holds m v) (l : m.Later m') : R.Holds m' v :=
  ⟨hv.1, hv.2.later l⟩

theorem Regime.holds_nil : R.Holds m .nil := ⟨rfl, trivial⟩

/-! ### Frames -/

namespace Heap

/-- A frame has no frame around it, or continues an older one. -/
def Nested (h : Heap) (f : FrameId) : Prop :=
  (h.frame f).outer = [] ∨
    ∃ g < f, (h.frame f).outer = g :: (h.frame g).outer ∧
      (h.frame f).receiver = (h.frame g).receiver ∧ (h.frame f).method = (h.frame g).method

theorem Nested.later {h h' : Heap} {f : FrameId} (hf : h.Nested f) (l : h.Later h')
    (hs : f < h.frames.size) : h'.Nested f := by
  rcases hf with hf | ⟨g, hg, houter, hreceiver, hmethod⟩
  · exact .inl ((l.frame f hs).outer.trans hf)
  · have lf := l.frame f hs
    have lg := l.frame g (Nat.lt_trans hg hs)
    refine .inr ⟨g, hg, ?_, ?_, ?_⟩
    · rw [lf.outer, lg.outer, houter]
    · rw [lf.receiver, lg.receiver, hreceiver]
    · rw [lf.method, lg.method, hmethod]

/-- The home of a frame that continues another is the home of the other. -/
theorem home_of_outer {h : Heap} {f g : FrameId}
    (houter : (h.frame f).outer = g :: (h.frame g).outer) : h.home f = h.home g := by
  unfold home
  rw [houter, List.getLastD_cons]

theorem home_of_outer_nil {h : Heap} {f : FrameId} (houter : (h.frame f).outer = []) :
    h.home f = f := by
  unfold home
  rw [houter, List.getLastD_nil]

theorem chain_of_outer {h : Heap} {f g : FrameId}
    (houter : (h.frame f).outer = g :: (h.frame g).outer) : h.chain f = f :: h.chain g :=
  congrArg (f :: ·) houter

theorem chain_of_outer_nil {h : Heap} {f : FrameId} (houter : (h.frame f).outer = []) :
    h.chain f = [f] :=
  congrArg (f :: ·) houter

/-- Going inwards, from the frames with nothing around them. -/
@[elab_as_elim]
theorem nested_induction {h : Heap} (hn : ∀ f < h.frames.size, h.Nested f)
    {motive : (f : FrameId) → f < h.frames.size → Prop}
    (outermost : ∀ f hf, (h.frame f).outer = [] → motive f hf)
    (inner : ∀ f hf g (hg : g < f), (h.frame f).outer = g :: (h.frame g).outer →
      (h.frame f).receiver = (h.frame g).receiver → (h.frame f).method = (h.frame g).method →
      motive g (Nat.lt_trans hg hf) → motive f hf)
    (f : FrameId) (hf : f < h.frames.size) : motive f hf := by
  -- the frame around a frame is older, so the induction is on the number
  induction f using Nat.strongRecOn with
  | ind f ih =>
    rcases hn f hf with houter | ⟨g, hg, houter, hreceiver, hmethod⟩
    · exact outermost f hf houter
    · exact inner f hf g hg houter hreceiver hmethod (ih g hg (Nat.lt_trans hg hf))

/-- The home of a frame is no younger than the frame. -/
theorem home_le {h : Heap} (hn : ∀ f < h.frames.size, h.Nested f) (f : FrameId)
    (hf : f < h.frames.size) : h.home f ≤ f := by
  induction f, hf using nested_induction hn with
  | outermost f hf houter => exact Nat.le_of_eq (home_of_outer_nil houter)
  | inner f hf g hg houter _ _ ih =>
      rw [home_of_outer houter]
      exact Nat.le_trans ih (Nat.le_of_lt hg)

theorem home_later {h h' : Heap} (l : h.Later h') {f : FrameId} (hf : f < h.frames.size) :
    h'.home f = h.home f := by
  unfold home
  rw [(l.frame f hf).outer]

/-- A frame whose home is over unless it is one of the frames in a list. -/
def Settled (opened : List FrameId) (h : Heap) (f : FrameId) : Prop :=
  f < h.frames.size ∧ (h.home f ∈ opened ∨ (h.frame (h.home f)).active = false)

theorem Settled.later {opened : List FrameId} {h h' : Heap} {f : FrameId}
    (hf : Settled opened h f) (l : h.Later h') (hn : ∀ f < h.frames.size, h.Nested f) :
    Settled opened h' f := by
  have hlt : h.home f < h.frames.size := Nat.lt_of_le_of_lt (home_le hn f hf.1) hf.1
  refine ⟨Nat.lt_of_lt_of_le hf.1 l.frames, ?_⟩
  rw [home_later l hf.1]
  exact hf.2.imp_right (l.frame _ hlt).ended

end Heap

/-! ### Memories -/

/-- The classes: what is registered is there, every method is admitted, and the
kernel classes are registered. -/
structure Registry.Sound (R : Regime) (r : Registry) : Prop where
  registered : ∀ name id, r.find? name = some id → id < r.classes.size
  method : ∀ b key method, (r.table b).methods.find? key = some method → R.method method = true
  kernel : ∀ c ∈ Kernel.classes, (r.find? c.name).isSome = true

namespace Memory

/-- The part of the invariant that does not depend on what is running. -/
structure WellFormed (R : Regime) (m : Memory) : Prop where
  stored : ∀ v, m.heap.Stores v → R.Holds m v
  bound : ∀ key v, m.globals.find? key = some v → R.Holds m v
  object : ∀ o < m.heap.objects.size, (m.heap.object o).cls < m.registry.classes.size
  closure : ∀ c < m.heap.closures.size,
    (m.heap.closure c).frame < m.heap.frames.size ∧ R.closure (m.heap.closure c) = true
  running : ∀ f < m.heap.frames.size,
    ∃ method, (m.heap.frame f).method = some method ∧ R.method method = true
  nested : ∀ f < m.heap.frames.size, m.heap.Nested f
  classes : m.registry.Sound R
  quiet : m.journal.recording = false

/-- After a change only what is new has to be looked at. -/
theorem WellFormed.later (w : m.WellFormed R) (l : m.Later m')
    (stored : ∀ v, m'.heap.Stores v → R.Holds m' v)
    (bound : ∀ key v, m'.globals.find? key = some v → R.Holds m' v)
    (object : ∀ o < m'.heap.objects.size, m.heap.objects.size ≤ o →
      (m'.heap.object o).cls < m.registry.classes.size)
    (closure : ∀ c < m'.heap.closures.size, m.heap.closures.size ≤ c →
      (m'.heap.closure c).frame < m'.heap.frames.size ∧ R.closure (m'.heap.closure c) = true)
    (frame : ∀ f < m'.heap.frames.size, m.heap.frames.size ≤ f →
      (∃ method, (m'.heap.frame f).method = some method ∧ R.method method = true) ∧
        m'.heap.Nested f) :
    m'.WellFormed R where
  stored := stored
  bound := bound
  object o ho := by
    rw [l.registry]
    rcases Nat.lt_or_ge o m.heap.objects.size with hlt | hge
    · -- an object that was there has kept its class
      have hcls : (m'.heap.object o).cls = (m.heap.object o).cls :=
        congrArg Prod.fst (l.heap.object o hlt)
      rw [hcls]
      exact w.object o hlt
    · exact object o ho hge
  closure c hc := by
    rcases Nat.lt_or_ge c m.heap.closures.size with hlt | hge
    · rw [l.heap.closure c hlt]
      exact ⟨Nat.lt_of_lt_of_le (w.closure c hlt).1 l.heap.frames, (w.closure c hlt).2⟩
    · exact closure c hc hge
  running f hf := by
    rcases Nat.lt_or_ge f m.heap.frames.size with hlt | hge
    · rw [(l.heap.frame f hlt).method]
      exact w.running f hlt
    · exact (frame f hf hge).1
  nested f hf := by
    rcases Nat.lt_or_ge f m.heap.frames.size with hlt | hge
    · exact (w.nested f hlt).later l.heap hlt
    · exact (frame f hf hge).2
  classes := l.registry ▸ w.classes
  quiet := l.recording.trans w.quiet

/-- The whole invariant, where `opened` are the frames of the activations in
progress. -/
structure Good (R : Regime) (opened : List FrameId) (m : Memory) : Prop
    extends m.WellFormed R where
  active : ∀ f ∈ opened, f < m.heap.frames.size ∧ (m.heap.frame f).active = true ∧
    (m.heap.frame f).outer = []
  settled : ∀ c < m.heap.closures.size, Heap.Settled opened m.heap (m.heap.closure c).frame

namespace Good

variable {opened : List FrameId}

/-- A change that makes no object, closure or frame. -/
theorem change (g : m.Good R opened) (l : m.Later m')
    (stored : ∀ v, m'.heap.Stores v → R.Holds m' v)
    (bound : ∀ key v, m'.globals.find? key = some v → R.Holds m' v)
    (objects : m'.heap.objects.size = m.heap.objects.size)
    (closures : m'.heap.closures.size = m.heap.closures.size)
    (frames : m'.heap.frames.size = m.heap.frames.size)
    (active : ∀ f ∈ opened, (m'.heap.frame f).active = (m.heap.frame f).active) :
    m'.Good R opened where
  toWellFormed := g.toWellFormed.later l stored bound
    (fun o ho hge => absurd ho (by omega)) (fun c hc hge => absurd hc (by omega))
    (fun f hf hge => absurd hf (by omega))
  active f hf := by
    obtain ⟨hlt, hactive, houter⟩ := g.active f hf
    rw [active f hf, (l.heap.frame f hlt).outer]
    exact ⟨frames ▸ hlt, hactive, houter⟩
  settled c hc := by
    have hlt : c < m.heap.closures.size := closures ▸ hc
    rw [l.heap.closure c hlt]
    exact (g.settled c hlt).later l.heap g.nested

/-- What is stored stays admitted; only the new value has to be. -/
theorem stored_later (g : m.Good R opened) (l : m.Later m') {w : Value} (hw : R.Holds m w)
    (h : ∀ v, m'.heap.Stores v → m.heap.Stores v ∨ v = w) (v : Value) (hv : m'.heap.Stores v) :
    R.Holds m' v := by
  rcases h v hv with hv | rfl
  · exact (g.stored v hv).later l
  · exact hw.later l

theorem bound_later (g : m.Good R opened) (l : m.Later m') (h : m'.globals = m.globals)
    (key : Key) (v : Value) (hv : m'.globals.find? key = some v) : R.Holds m' v :=
  (g.bound key v (h ▸ hv)).later l

theorem setElement (g : m.Good R opened) (a : ArrayId) (i : Nat) {v : Value}
    (hv : R.Holds m v) : Good R opened { m with heap := m.heap.setElement a i v } := by
  have l := Memory.Later.of_heap (Heap.Later.setElement m.heap a i v)
  exact g.change l (g.stored_later l hv fun _ => Heap.Stores.of_setElement) (g.bound_later l rfl)
    rfl rfl rfl fun _ _ => rfl

theorem setIndexed (g : m.Good R opened) (o : ObjectId) (i : Nat) {v : Value}
    (hv : R.Holds m v) : Good R opened { m with heap := m.heap.setIndexed o i v } := by
  have l := Memory.Later.of_heap (Heap.Later.setIndexed m.heap o i v)
  exact g.change l (g.stored_later l hv fun _ => Heap.Stores.of_setIndexed) (g.bound_later l rfl)
    (Heap.size_setIndexed ..) rfl rfl fun _ _ => rfl

theorem setSlot (g : m.Good R opened) (o : ObjectId) (i : Nat) {v : Value}
    (hv : R.Holds m v) : Good R opened { m with heap := m.heap.setSlot o i v } := by
  have l := Memory.Later.of_heap (Heap.Later.setSlot m.heap o i v)
  exact g.change l (g.stored_later l hv fun _ => Heap.Stores.of_setSlot) (g.bound_later l rfl)
    (Heap.size_setSlot ..) rfl rfl fun _ _ => rfl

theorem declare (g : m.Good R opened) (f : FrameId) (key : Key) (name : Json) {v : Value}
    (hv : R.Holds m v) : Good R opened { m with heap := m.heap.declare f key name v } := by
  have l := Memory.Later.of_heap (Heap.Later.declare m.heap f key name v)
  refine g.change l (g.stored_later l hv fun _ => Heap.Stores.of_declare) (g.bound_later l rfl)
    rfl rfl (Heap.size_declare ..) ?_
  intro f' _
  rw [Heap.frame_declare]
  split
  · rename_i h
    rw [h.1]
  · rfl

theorem bind (g : m.Good R opened) (key : Key) (name : Json) {v : Value} (hv : R.Holds m v) :
    Good R opened { m with globals := m.globals.put key name v } := by
  have l := Memory.Later.bind m key name v
  refine g.change l (fun w hw => (g.stored w hw).later l) (fun k w hw => ?_) rfl rfl rfl
    fun _ _ => rfl
  simp only [Dictionary.find?_put] at hw
  split at hw
  · exact Option.some.inj hw ▸ hv.later l
  · exact (g.bound k w hw).later l

theorem newArray (g : m.Good R opened) {xs : Array Value} (hxs : ∀ v ∈ xs, R.Holds m v) :
    Good R opened { m with heap := (m.heap.newArray xs).1 } := by
  have l := Memory.Later.of_heap (Heap.Later.newArray m.heap xs)
  refine g.change l (fun v hv => ?_) (g.bound_later l rfl) rfl rfl rfl fun _ _ => rfl
  rcases Heap.Stores.of_newArray hv with hv | hv
  · exact (g.stored v hv).later l
  · exact (hxs v hv).later l

theorem newObject (g : m.Good R opened) {x : Instance} (hx : ∀ v, x.Has v → R.Holds m v)
    (hcls : x.cls < m.registry.classes.size) :
    Good R opened { m with heap := (m.heap.newObject x).1 } := by
  have l := Memory.Later.of_heap (Heap.Later.newObject m.heap x)
  have w : WellFormed R { m with heap := (m.heap.newObject x).1 } := by
    refine g.toWellFormed.later l (fun v hv => ?_) (g.bound_later l rfl) (fun o ho hge => ?_)
      (fun c hc hge => absurd hc (Nat.not_lt.mpr hge))
      (fun f hf hge => absurd hf (Nat.not_lt.mpr hge))
    · rcases Heap.Stores.of_newObject hv with hv | hv
      · exact (g.stored v hv).later l
      · exact (hx v hv).later l
    · rw [Heap.size_newObject] at ho
      have ho' : o = m.heap.objects.size := Nat.le_antisymm (Nat.le_of_lt_succ ho) hge
      rw [Heap.object_newObject, if_pos ho']
      exact hcls
  exact { toWellFormed := w, active := g.active, settled := g.settled }

theorem newClosure (g : m.Good R opened) {x : Closure} (hx : R.closure x = true)
    (hframe : Heap.Settled opened m.heap x.frame) :
    Good R opened { m with heap := (m.heap.newClosure x).1 } := by
  have l := Memory.Later.of_heap (Heap.Later.newClosure m.heap x)
  -- a closure that was not there before is the new one
  have hnew : ∀ c, c < (m.heap.newClosure x).1.closures.size → m.heap.closures.size ≤ c →
      (m.heap.newClosure x).1.closure c = x := by
    intro c hc hge
    rw [Heap.size_newClosure] at hc
    rw [Heap.closure_newClosure, if_pos (Nat.le_antisymm (Nat.le_of_lt_succ hc) hge)]
  have w : WellFormed R { m with heap := (m.heap.newClosure x).1 } := by
    refine g.toWellFormed.later l (fun v hv => ?_) (g.bound_later l rfl)
      (fun o ho hge => absurd ho (Nat.not_lt.mpr hge)) (fun c hc hge => ?_)
      (fun f hf hge => absurd hf (Nat.not_lt.mpr hge))
    · exact (g.stored v (Heap.Stores.of_newClosure hv)).later l
    · rw [hnew c hc hge]
      exact ⟨hframe.1, hx⟩
  refine { toWellFormed := w, active := g.active, settled := fun c hc => ?_ }
  rcases Nat.lt_or_ge c m.heap.closures.size with hlt | hge
  · rw [l.heap.closure c hlt]
    exact (g.settled c hlt).later l.heap g.nested
  · rw [hnew c hc hge]
    exact hframe.later l.heap g.nested

/-- A new frame is in none of the closures, so it may be active or not. -/
theorem newFrame (g : m.Good R opened) {x : Frame} (hx : ∀ v, x.Has v → R.Holds m v)
    (hmethod : ∃ method, x.method = some method ∧ R.method method = true)
    (hnested : (m.heap.newFrame x).1.Nested m.heap.frames.size) :
    Good R opened { m with heap := (m.heap.newFrame x).1 } := by
  have l := Memory.Later.of_heap (Heap.Later.newFrame m.heap x)
  have w : WellFormed R { m with heap := (m.heap.newFrame x).1 } := by
    refine g.toWellFormed.later l (fun v hv => ?_) (g.bound_later l rfl)
      (fun o ho hge => absurd ho (Nat.not_lt.mpr hge))
      (fun c hc hge => absurd hc (Nat.not_lt.mpr hge)) (fun f hf hge => ?_)
    · rcases Heap.Stores.of_newFrame hv with hv | hv
      · exact (g.stored v hv).later l
      · exact (hx v hv).later l
    · rw [Heap.size_newFrame] at hf
      obtain rfl : f = m.heap.frames.size := Nat.le_antisymm (Nat.le_of_lt_succ hf) hge
      refine ⟨?_, hnested⟩
      rw [Heap.frame_newFrame, if_pos rfl]
      exact hmethod
  refine { toWellFormed := w, active := fun f hf => ?_, settled := fun c hc => ?_ }
  · obtain ⟨hlt, hactive, houter⟩ := g.active f hf
    rw [Heap.frame_newFrame, if_neg (Nat.ne_of_lt hlt)]
    exact ⟨Nat.lt_of_lt_of_le hlt l.heap.frames, hactive, houter⟩
  · exact (g.settled c hc).later l.heap g.nested

/-- An activation that begins: its frame has just been made, so it is the home of
no closure. -/
theorem begin (g : m.Good R opened) {f : FrameId} (hf : f < m.heap.frames.size)
    (hactive : (m.heap.frame f).active = true) (houter : (m.heap.frame f).outer = []) :
    Good R (f :: opened) m where
  toWellFormed := g.toWellFormed
  active f' hf' := by
    rcases List.mem_cons.mp hf' with rfl | hf'
    · exact ⟨hf, hactive, houter⟩
    · exact g.active f' hf'
  settled c hc := ⟨(g.settled c hc).1, (g.settled c hc).2.imp_left (List.mem_cons_of_mem _)⟩

/-- An activation that ends: its frame is over, and the others are as they were. -/
theorem retire {f : FrameId} (g : m.Good R (f :: opened)) (hf : f ∉ opened) :
    Good R opened { m with heap := m.heap.retire f } := by
  have l := Memory.Later.of_heap (Heap.Later.retire m.heap f)
  have w : WellFormed R { m with heap := m.heap.retire f } :=
    g.toWellFormed.later l (fun v hv => (g.stored v (Heap.Stores.of_retire hv)).later l)
      (g.bound_later l rfl) (fun o ho hge => absurd ho (Nat.not_lt.mpr hge))
      (fun c hc hge => absurd hc (Nat.not_lt.mpr hge))
      (fun f' hf' hge => absurd hf' (by rw [Heap.size_retire]; exact Nat.not_lt.mpr hge))
  refine { toWellFormed := w, active := fun f' hf' => ?_, settled := fun c hc => ?_ }
  · obtain ⟨hlt, hactive, houter⟩ := g.active f' (List.mem_cons_of_mem _ hf')
    have hne : f' ≠ f := fun h => hf (h ▸ hf')
    rw [Heap.frame_retire, if_neg (fun h => hne h.1), Heap.size_retire]
    exact ⟨hlt, hactive, houter⟩
  · -- a home that was in the list is still there, unless it is the frame that ends
    obtain ⟨hlt, hhome⟩ := (g.settled c hc).later l.heap g.nested
    refine ⟨hlt, hhome.elim (fun hmem => ?_) .inr⟩
    rcases List.mem_cons.mp hmem with heq | hmem
    · refine .inr ?_
      show ((m.heap.retire f).frame ((m.heap.retire f).home (m.heap.closure c).frame)).active
        = false
      rw [heq, Heap.frame_retire, if_pos ⟨rfl, (g.active f List.mem_cons_self).1⟩]
    · exact .inl hmem

end Good

end Memory

end Smalltalk
