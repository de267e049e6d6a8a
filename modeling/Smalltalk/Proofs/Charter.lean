import Smalltalk.Proofs.Growth
import Smalltalk.Proofs.Misuse

/-!
# `Smalltalk.Proofs.Charter`: what a system may come to hold

A `Charter` says what a system sticks to for good: which integers come up, which code
runs for which method, and which method may run on which receiver. `Memory.Abides`
says that a memory keeps to it. It is about everything that is stored, so it holds at
every moment, whatever is in progress, and it is kept when classes change. Nothing is
said of activations here, and frames may have been made from outside.

Three laws hold under every charter: an object has the slots that its class gives it,
and elements if its class is indexable; a closure holds code for the method of its
frame; and every value that is stored refers to something that is there.

`Charter.Lawful` are the conditions on a charter: it allows the SmallIntegers, the
parts of code that it allows, and the methods that a look-up finds. As time goes on
it only comes to allow more.
-/

set_option autoImplicit false

namespace Smalltalk

open Relation (ReflTransGen)

/-- What a system sticks to. -/
structure Charter where
  /-- The integers that there may be. -/
  int : Int → Prop
  /-- The trees that may be evaluated in a frame of some method, or of none. -/
  code : Registry → Option Method → Node → Prop
  /-- The methods that a frame may have, given its receiver. -/
  seat : Memory → Value → Option Method → Prop
  /-- What has to hold of the classes at any time. -/
  classes : Registry → Prop
  /-- Whether every instance variable that code uses has to be there. -/
  strict : Prop

/-- Whether the fault is that an instance variable is not there. -/
def Fault.isSlotFault : Fault → Bool
  | badSlot _ _ | noInstanceVariables _ => true
  | _ => false

/-- No misuse is a missing instance variable. -/
theorem Fault.isSlotFault_of_isMisuse {f : Fault} (h : f.isMisuse = true) :
    f.isSlotFault = false := by
  cases f <;> first | rfl | cases h

namespace Memory

variable {m m' : Memory}

/-- An object has as many slots as its class says, and elements if its class says so. -/
structure Shaped (m : Memory) (x : Instance) : Prop where
  cls : x.cls < m.registry.classes.size
  slots : x.slots.size = (m.registry.layout ⟨x.cls, false⟩).length
  elements : x.elements.isSome = m.registry.isIndexable ⟨x.cls, false⟩

theorem Knows.continues {v : Value} (hv : m.Knows v) (h : m.Continues m') : m'.Knows v := by
  cases v with
  | array a => exact Nat.lt_of_lt_of_le hv h.heap.arrays
  | object o => exact Nat.lt_of_lt_of_le hv h.heap.objects
  | closure c => exact Nat.lt_of_lt_of_le hv h.heap.closures
  | behavior b => exact Nat.lt_of_lt_of_le hv h.registry.size
  | _ => trivial

/-- An object that has kept its shape still has that of its class. -/
theorem Shaped.continues {x y : Instance} (hx : m.Shaped x) (hshape : y.shape = x.shape)
    (o : m.registry.Ordered) (h : m.Continues m') : m'.Shaped y := by
  obtain ⟨cls, slots, elements⟩ := x
  obtain ⟨cls', slots', elements'⟩ := y
  simp only [Instance.shape, Prod.mk.injEq] at hshape
  obtain ⟨rfl, hslots, helements⟩ := hshape
  refine ⟨Nat.lt_of_lt_of_le hx.cls h.registry.size, ?_, ?_⟩
  · -- the class still has the layout that the object was made with
    rw [h.registry.layout o hx.cls]
    exact hslots.trans hx.slots
  · rw [h.registry.isIndexable hx.cls, ← hx.elements]
    have hsome := congrArg Option.isSome helements
    simpa only [Option.isSome_map] using hsome

end Memory

namespace Charter

variable (K : Charter)

/-- A value that is allowed and refers to something that is there. -/
def Holds (m : Memory) (v : Value) : Prop := m.Knows v ∧ ∀ i, v = .int i → K.int i

/-- The faults that may arise. -/
def Fails (f : Fault) : Prop := K.strict → f.isSlotFault = false

/-- A method may be activated on a receiver. -/
def Enters (m : Memory) (v : Value) (method : Method) : Prop :=
  K.seat m v (some method) ∧ ∀ s ∈ method.statements, K.code m.registry (some method) s

/-- Code for a frame uses an instance variable by its index. -/
def Uses (r : Registry) (method : Option Method) (index : Json) : Prop :=
  (∃ name, K.code r method (.reference name .instvar index)) ∨
    ∃ name value, K.code r method (.assign name .instvar index value)

end Charter

/-- A memory keeps to a charter. -/
structure Memory.Abides (K : Charter) (m : Memory) : Prop where
  stored : ∀ v, m.heap.Stores v → K.Holds m v
  bound : ∀ key v, m.globals.find? key = some v → K.Holds m v
  object : ∀ o < m.heap.objects.size, m.Shaped (m.heap.object o)
  closure : ∀ c < m.heap.closures.size, (m.heap.closure c).frame < m.heap.frames.size ∧
    ∀ s ∈ (m.heap.closure c).statements,
      K.code m.registry (m.heap.frame (m.heap.closure c).frame).method s
  seated : ∀ f < m.heap.frames.size,
    K.seat m (m.heap.frame f).receiver (m.heap.frame f).method
  owned : m.registry.Owned
  ordered : m.registry.Ordered
  grown : Kernel.memory.registry.Grows m.registry
  classes : K.classes m.registry

/-- The laws of a charter. -/
structure Charter.Lawful (K : Charter) : Prop where
  start : K.classes Kernel.memory.registry
  small : ∀ i, SmallInteger.holds i = true → K.int i
  literal : ∀ r method i, K.code r method (.literal (.int i)) → K.int i
  part : ∀ r method n, K.code r method n → ∀ p ∈ n.parts, K.code r method p
  block : ∀ r method params temps statements, K.code r method (.block params temps statements) →
    ∀ s ∈ statements, K.code r method s
  /-- Code that may run may always run. -/
  codeStays : ∀ r r' method n, r.Ordered → r.Grows r' → K.code r method n → K.code r' method n
  /-- A receiver keeps its methods. -/
  seatStays : ∀ m m' v method, m.Abides K → m.Knows v → m.Continues m' →
    K.classes m'.registry → K.seat m v method → K.seat m' v method
  /-- What a receiver understands may run on it, -/
  found : ∀ m v b key method, m.Abides K → K.Holds m v → m.classOf? v = some b →
    m.registry.lookup? key b = some method → K.seat m v (some method)
  /-- and so may what is found above the owner of a method that runs on it. -/
  above : ∀ m v running b key method, m.Abides K → K.Holds m v → K.seat m v (some running) →
    m.registry.superclass? running.owner = some b → m.registry.lookup? key b = some method →
    K.seat m v (some method)
  /-- Where instance variables have to be there, the receiver is an object that has them. -/
  slot : K.strict → ∀ m v method index, m.Abides K → K.Holds m v → K.seat m v method →
    K.Uses m.registry method index →
    ∃ o i, v = .object o ∧ ∀ bad, Eval.slotNumber index (m.heap.object o).slots.size bad = .ok i

variable {K : Charter} {m m' : Memory}

/-! ### Values and faults -/

namespace Charter

theorem Holds.continues {v : Value} (hv : K.Holds m v) (h : m.Continues m') : K.Holds m' v :=
  ⟨hv.1.continues h, hv.2⟩

theorem Holds.later {v : Value} (hv : K.Holds m v) (l : m.Later m') : K.Holds m' v :=
  hv.continues l.continues

theorem holds_nil : K.Holds m .nil := ⟨trivial, fun _ h => nomatch h⟩

theorem holds_text (s : String) (origin : TextOrigin) : K.Holds m (.text s origin) :=
  ⟨trivial, fun _ h => nomatch h⟩

theorem holds_symbol (s : String) : K.Holds m (.symbol s) := ⟨trivial, fun _ h => nomatch h⟩

theorem holds_int {i : Int} (h : K.int i) : K.Holds m (.int i) := by
  refine ⟨trivial, ?_⟩
  rintro _ ⟨⟩
  exact h

theorem holds_array {a : ArrayId} (h : a < m.heap.arrays.size) : K.Holds m (.array a) :=
  ⟨h, fun _ h => nomatch h⟩

theorem holds_object {o : ObjectId} (h : o < m.heap.objects.size) : K.Holds m (.object o) :=
  ⟨h, fun _ h => nomatch h⟩

theorem holds_closure {c : ClosureId} (h : c < m.heap.closures.size) : K.Holds m (.closure c) :=
  ⟨h, fun _ h => nomatch h⟩

theorem holds_behavior {b : Behavior} (h : b.id < m.registry.classes.size) :
    K.Holds m (.behavior b) :=
  ⟨h, fun _ h => nomatch h⟩

/-- Any fault but a missing instance variable may arise. -/
theorem fails {f : Fault} (h : f.isSlotFault = false) : K.Fails f := fun _ => h

theorem fails_of_isMisuse {f : Fault} (h : f.isMisuse = true) : K.Fails f :=
  fails (Fault.isSlotFault_of_isMisuse h)

/-- A fault about a name. -/
theorem fails_about {name : Json} {fault : String → Fault}
    (h : ∀ word, (fault word).isSlotFault = false) : K.Fails (Fault.about name fault) :=
  Fault.of_about (fun word => fails (h word)) fun _ => fails_of_isMisuse

theorem Enters.continues (lawful : K.Lawful) {v : Value} {method : Method}
    (h : K.Enters m v method) (a : m.Abides K) (hv : m.Knows v) (hm : m.Continues m')
    (classes : K.classes m'.registry) : K.Enters m' v method :=
  ⟨lawful.seatStays m m' v _ a hv hm classes h.1,
    fun s hs => lawful.codeStays _ _ _ _ a.ordered hm.registry (h.2 s hs)⟩

end Charter

/-! ### Changes of a memory -/

namespace Memory.Abides

open Charter

/-- Where there are no more than before, nothing new has to be looked at. -/
theorem none_new {n n' : Nat} {P : Nat → Prop} (h : n' = n) : ∀ i < n', n ≤ i → P i := by
  intro i hi hge
  omega

/-- The one place where the parts are put together again after a change: what was there
before has kept its structure, so only what is new has to be looked at. -/
theorem continues (lawful : K.Lawful) (a : m.Abides K) (h : m.Continues m')
    (stored : ∀ v, m'.heap.Stores v → K.Holds m' v)
    (bound : ∀ key v, m'.globals.find? key = some v → K.Holds m' v)
    (object : ∀ o < m'.heap.objects.size, m.heap.objects.size ≤ o → m'.Shaped (m'.heap.object o))
    (closure : ∀ c < m'.heap.closures.size, m.heap.closures.size ≤ c →
      (m'.heap.closure c).frame < m'.heap.frames.size ∧
        ∀ s ∈ (m'.heap.closure c).statements,
          K.code m'.registry (m'.heap.frame (m'.heap.closure c).frame).method s)
    (frame : ∀ f < m'.heap.frames.size, m.heap.frames.size ≤ f →
      K.seat m' (m'.heap.frame f).receiver (m'.heap.frame f).method)
    (owned : m'.registry.Owned) (ordered : m'.registry.Ordered)
    (classes : K.classes m'.registry) : m'.Abides K where
  stored := stored
  bound := bound
  object o ho := by
    rcases Nat.lt_or_ge o m.heap.objects.size with hlt | hge
    · exact (a.object o hlt).continues (h.heap.object o hlt) a.ordered h
    · exact object o ho hge
  closure c hc := by
    rcases Nat.lt_or_ge c m.heap.closures.size with hlt | hge
    · -- the same code, in a frame with the same method
      obtain ⟨hframe, hcode⟩ := a.closure c hlt
      rw [h.heap.closure c hlt, (h.heap.frame _ hframe).method]
      refine ⟨Nat.lt_of_lt_of_le hframe h.heap.frames, fun s hs => ?_⟩
      exact lawful.codeStays _ _ _ _ a.ordered h.registry (hcode s hs)
    · exact closure c hc hge
  seated f hf := by
    rcases Nat.lt_or_ge f m.heap.frames.size with hlt | hge
    · rw [(h.heap.frame f hlt).receiver, (h.heap.frame f hlt).method]
      refine lawful.seatStays m m' _ _ a ?_ h classes (a.seated f hlt)
      exact (a.stored _ (.of_frame (.inl rfl))).1
    · exact frame f hf hge
  owned := owned
  ordered := ordered
  grown := a.grown.trans h.registry
  classes := classes

/-- A change that leaves the classes alone. -/
theorem later (lawful : K.Lawful) (a : m.Abides K) (l : m.Later m')
    (stored : ∀ v, m'.heap.Stores v → K.Holds m' v)
    (bound : ∀ key v, m'.globals.find? key = some v → K.Holds m' v)
    (object : ∀ o < m'.heap.objects.size, m.heap.objects.size ≤ o → m'.Shaped (m'.heap.object o))
    (closure : ∀ c < m'.heap.closures.size, m.heap.closures.size ≤ c →
      (m'.heap.closure c).frame < m'.heap.frames.size ∧
        ∀ s ∈ (m'.heap.closure c).statements,
          K.code m'.registry (m'.heap.frame (m'.heap.closure c).frame).method s)
    (frame : ∀ f < m'.heap.frames.size, m.heap.frames.size ≤ f →
      K.seat m' (m'.heap.frame f).receiver (m'.heap.frame f).method) : m'.Abides K :=
  a.continues lawful l.continues stored bound object closure frame (l.registry ▸ a.owned)
    (l.registry ▸ a.ordered) (l.registry ▸ a.classes)

/-- What is stored was stored before, or it is one of the values that may be stored. -/
theorem stored_later (a : m.Abides K) (l : m.Later m') {new : Value → Prop}
    (hnew : ∀ v, new v → K.Holds m v) (h : ∀ v, m'.heap.Stores v → m.heap.Stores v ∨ new v)
    (v : Value) (hv : m'.heap.Stores v) : K.Holds m' v :=
  ((h v hv).elim (a.stored v) (hnew v)).later l

theorem bound_later (a : m.Abides K) (l : m.Later m') (h : m'.globals = m.globals) (key : Key)
    (v : Value) (hv : m'.globals.find? key = some v) : K.Holds m' v :=
  (a.bound key v (h ▸ hv)).later l

/-- A change of the heap in which nothing is made. -/
theorem write (lawful : K.Lawful) (a : m.Abides K) {h : Heap} (l : m.heap.Later h) {v : Value}
    (hv : K.Holds m v) (stored : ∀ w, h.Stores w → m.heap.Stores w ∨ w = v)
    (objects : h.objects.size = m.heap.objects.size)
    (closures : h.closures.size = m.heap.closures.size)
    (frames : h.frames.size = m.heap.frames.size) : Abides K { m with heap := h } := by
  have l' := Memory.Later.of_heap l
  have hv' : ∀ w, w = v → K.Holds m w := by
    rintro _ rfl
    exact hv
  exact a.later lawful l' (a.stored_later l' hv' stored) (a.bound_later l' rfl)
    (none_new objects) (none_new closures) (none_new frames)

variable (lawful : K.Lawful)
include lawful

theorem setElement (a : m.Abides K) (id : ArrayId) (i : Nat) {v : Value} (hv : K.Holds m v) :
    Abides K { m with heap := m.heap.setElement id i v } :=
  a.write lawful (.setElement m.heap id i v) hv (fun _ => Heap.Stores.of_setElement) rfl rfl rfl

theorem setIndexed (a : m.Abides K) (o : ObjectId) (i : Nat) {v : Value} (hv : K.Holds m v) :
    Abides K { m with heap := m.heap.setIndexed o i v } :=
  a.write lawful (.setIndexed m.heap o i v) hv (fun _ => Heap.Stores.of_setIndexed)
    (Heap.size_setIndexed ..) rfl rfl

theorem setSlot (a : m.Abides K) (o : ObjectId) (i : Nat) {v : Value} (hv : K.Holds m v) :
    Abides K { m with heap := m.heap.setSlot o i v } :=
  a.write lawful (.setSlot m.heap o i v) hv (fun _ => Heap.Stores.of_setSlot)
    (Heap.size_setSlot ..) rfl rfl

theorem declare (a : m.Abides K) (f : FrameId) (key : Key) (name : Json) {v : Value}
    (hv : K.Holds m v) : Abides K { m with heap := m.heap.declare f key name v } :=
  a.write lawful (.declare m.heap f key name v) hv (fun _ => Heap.Stores.of_declare) rfl rfl
    (Heap.size_declare ..)

theorem retire (a : m.Abides K) (f : FrameId) :
    Abides K { m with heap := m.heap.retire f } :=
  a.write lawful (.retire m.heap f) holds_nil (fun _ h => .inl (Heap.Stores.of_retire h)) rfl rfl
    (Heap.size_retire ..)

theorem texts (a : m.Abides K) (n : Nat) :
    Abides K { m with heap := { m.heap with texts := n } } :=
  a.write lawful (.texts m.heap n) holds_nil (fun _ h => .inl h) rfl rfl rfl

/-- The journal is nothing that a charter speaks about. -/
theorem journal (a : m.Abides K) (j : Journal) : Abides K { m with journal := j } := by
  have h : m.Continues { m with journal := j } := ⟨.refl _, .refl _, fun _ => id⟩
  exact a.continues lawful h (fun v hv => (a.stored v hv).continues h)
    (fun key v hv => (a.bound key v hv).continues h)
    (none_new rfl) (none_new rfl) (none_new rfl) a.owned a.ordered a.classes

theorem note (a : m.Abides K) (line : String) : (m.note line).Abides K := by
  unfold Memory.note
  split
  · exact a.journal lawful _
  · exact a

theorem bind (a : m.Abides K) (key : Key) (name : Json) {v : Value} (hv : K.Holds m v) :
    Abides K { m with globals := m.globals.put key name v } := by
  have l := Memory.Later.bind m key name v
  refine a.later lawful l (fun w hw => (a.stored w hw).later l) (fun k w hw => ?_)
    (none_new rfl) (none_new rfl) (none_new rfl)
  -- the value is the one that is bound now, or it was bound before
  simp only [Dictionary.find?_put] at hw
  split at hw
  · exact Option.some.inj hw ▸ hv.later l
  · exact (a.bound k w hw).later l

theorem newArray (a : m.Abides K) {xs : Array Value} (hxs : ∀ v ∈ xs, K.Holds m v) :
    Abides K { m with heap := (m.heap.newArray xs).1 } := by
  have l := Memory.Later.of_heap (Heap.Later.newArray m.heap xs)
  exact a.later lawful l (a.stored_later l hxs fun _ => Heap.Stores.of_newArray)
    (a.bound_later l rfl) (none_new rfl) (none_new rfl) (none_new rfl)

theorem newObject (a : m.Abides K) {x : Instance} (hx : ∀ v, x.Has v → K.Holds m v)
    (hshape : m.Shaped x) : Abides K { m with heap := (m.heap.newObject x).1 } := by
  have l := Memory.Later.of_heap (Heap.Later.newObject m.heap x)
  refine a.later lawful l (a.stored_later l hx fun _ => Heap.Stores.of_newObject)
    (a.bound_later l rfl) (fun o ho hge => ?_) (none_new rfl) (none_new rfl)
  rw [Heap.size_newObject] at ho
  rw [Heap.object_newObject, if_pos (Nat.le_antisymm (Nat.le_of_lt_succ ho) hge)]
  exact ⟨hshape.cls, hshape.slots, hshape.elements⟩

theorem newClosure (a : m.Abides K) {x : Closure} (hframe : x.frame < m.heap.frames.size)
    (hcode : ∀ s ∈ x.statements, K.code m.registry (m.heap.frame x.frame).method s) :
    Abides K { m with heap := (m.heap.newClosure x).1 } := by
  have l := Memory.Later.of_heap (Heap.Later.newClosure m.heap x)
  refine a.later lawful l (fun v hv => (a.stored v (Heap.Stores.of_newClosure hv)).later l)
    (a.bound_later l rfl) (none_new rfl) (fun c hc hge => ?_) (none_new rfl)
  rw [Heap.size_newClosure] at hc
  rw [Heap.closure_newClosure, if_pos (Nat.le_antisymm (Nat.le_of_lt_succ hc) hge)]
  exact ⟨hframe, hcode⟩

theorem newFrame (a : m.Abides K) {x : Frame} (hx : ∀ v, x.Has v → K.Holds m v)
    (hseat : K.seat m x.receiver x.method) :
    Abides K { m with heap := (m.heap.newFrame x).1 } := by
  have l := Memory.Later.of_heap (Heap.Later.newFrame m.heap x)
  refine a.later lawful l (a.stored_later l hx fun _ => Heap.Stores.of_newFrame)
    (a.bound_later l rfl) (none_new rfl) (none_new rfl) fun f hf hge => ?_
  rw [Heap.size_newFrame] at hf
  rw [Heap.frame_newFrame, if_pos (Nat.le_antisymm (Nat.le_of_lt_succ hf) hge)]
  exact lawful.seatStays m _ _ _ a (hx _ (.inl rfl)).1 l.continues (l.registry ▸ a.classes) hseat

end Memory.Abides

/-! ### Changes of the classes -/

namespace Memory

variable {P : Method → Prop}

/-- What reforms leave: the heap but for the count of texts, and the globals but for new
classes. -/
structure Reformed (m m' : Memory) : Prop where
  continues : m.Continues m'
  heap : m'.heap = { m.heap with texts := m'.heap.texts }
  bound : ∀ key v, m'.globals.find? key = some v →
    m.globals.find? key = some v ∨ ∃ id < m'.registry.classes.size, v = .behavior ⟨id, false⟩
  owned : m.registry.Owned → m'.registry.Owned
  ordered : m.registry.Ordered → m'.registry.Ordered

theorem Reform.reformed (h : m.Reform P m') : m.Reformed m' := by
  have e := h.revision.edit
  refine ⟨e.continues, e.heap, ?_, e.owned, e.ordered⟩
  cases h with
  | define name parent declared indexable _ =>
      intro key v hv
      simp only [Dictionary.find?_put] at hv
      split at hv
      · refine .inr ⟨m.registry.classes.size, ?_, (Option.some.inj hv).symm⟩
        rw [Registry.size_define]
        exact Nat.lt_succ_self _
      · exact .inl hv
  | note line =>
      intro key v hv
      rw [globals_note] at hv
      exact .inl hv
  | _ => exact fun _ _ => .inl

theorem reformed_of_reforms (h : ReflTransGen (Memory.Reform P) m m') : m.Reformed m' := by
  refine Moves.preserve (P := fun m' => m.Reformed m') h (fun m₁ m₂ hstep h₁ => ?_)
    ⟨.refl m, rfl, fun _ _ => .inl, id, id⟩
  have h₂ := hstep.reformed
  refine ⟨h₁.continues.trans h₂.continues, by rw [h₂.heap, h₁.heap], fun key v hv => ?_,
    fun o => h₂.owned (h₁.owned o), fun o => h₂.ordered (h₁.ordered o)⟩
  rcases h₂.bound key v hv with hv | hnew
  · rcases h₁.bound key v hv with hv | ⟨id, hid, rfl⟩
    · exact .inl hv
    · exact .inr ⟨id, Nat.lt_of_lt_of_le hid h₂.continues.registry.size, rfl⟩
  · exact .inr hnew

/-- A memory still keeps to the charter when its classes have changed. -/
theorem Abides.reformed (lawful : K.Lawful) (a : m.Abides K) (h : m.Reformed m')
    (classes : K.classes m'.registry) : m'.Abides K := by
  have hheap := h.heap
  have hobjects : m'.heap.objects.size = m.heap.objects.size := by rw [hheap]
  have hclosures : m'.heap.closures.size = m.heap.closures.size := by rw [hheap]
  have hframes : m'.heap.frames.size = m.heap.frames.size := by rw [hheap]
  refine a.continues lawful h.continues (fun v hv => ?_) (fun key v hv => ?_)
    (none_new hobjects) (none_new hclosures) (none_new hframes) (h.owned a.owned)
    (h.ordered a.ordered) classes
  · rw [hheap] at hv
    exact (a.stored v hv).continues h.continues
  · rcases h.bound key v hv with hv | ⟨id, hid, rfl⟩
    · exact (a.bound key v hv).continues h.continues
    · exact Charter.holds_behavior hid

end Memory

end Smalltalk
