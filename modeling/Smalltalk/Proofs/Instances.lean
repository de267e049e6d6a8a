import Smalltalk.Proofs.Sends
import Smalltalk.Proofs.Structure

/-!
# `Smalltalk.Proofs.Instances`: what classes make

A class makes instances by the primitives 70 and 71. What it makes depends on its name, on
the instance variables of all classes above it, and on whether it is indexable, which may
have changed with each definition of its name (`Memory.Instantiates`). Whatever it makes is
new: the number of the instance has not been given to anything before, so nothing refers to
it (`instances_are_new`).

What a primitive comes to is said of its number: it fails for a reason
(`Memory.PrimitiveFails`), or it answers a value in whatever activation it runs
(`Memory.PrimitiveAnswers`).
-/

set_option autoImplicit false

namespace Smalltalk

variable {settings : Settings} {m m' : Memory} {receiver v : Value} {args : List Value}

/-! ### What primitives come to -/

/-- A primitive fails for a reason, so the body of its method runs. -/
def Memory.PrimitiveFails (settings : Settings) (m : Memory) (number : Int) (receiver : Value)
    (args : List Value) (reason : Reason) : Prop :=
  Eval.decide settings m receiver args (.int number) = .ok (.error reason)

/-- A primitive answers a value and leaves the memory `m'`, in whatever activation it runs. -/
def Memory.PrimitiveAnswers (settings : Settings) (m : Memory) (number : Int) (receiver : Value)
    (args : List Value) (v : Value) (m' : Memory) : Prop :=
  ∃ action, Eval.decide settings m receiver args (.int number) = .ok (.ok action) ∧
    ∀ rec f, Eval.perform settings rec f action m = .ok v m'

namespace Settings.KnowsPrimitives

variable (hs : settings.KnowsPrimitives) {number : Int} {p : Primitive}
  (hp : (number, p) ∈ Primitive.numbered)

include hs hp

/-- What is decided is what the primitive of the number decides. -/
theorem decide_eq (m : Memory) (receiver : Value) (args : List Value) :
    Eval.decide settings m receiver args (.int number) = .ok (p.attempt m receiver args) :=
  Eval.decide_of_find? (hs _ hp) m receiver args

theorem fails_iff {reason : Reason} : m.PrimitiveFails settings number receiver args reason ↔
    p.attempt m receiver args = .error reason := by
  unfold Memory.PrimitiveFails
  rw [hs.decide_eq hp]
  exact ⟨Except.ok.inj, congrArg Except.ok⟩

theorem answers {action : Action} (hattempt : p.attempt m receiver args = .ok action)
    (hperform : ∀ rec f, Eval.perform settings rec f action m = .ok v m') :
    m.PrimitiveAnswers settings number receiver args v m' := by
  refine ⟨action, ?_, hperform⟩
  rw [hs.decide_eq hp, hattempt]

end Settings.KnowsPrimitives

/-! ### Instances -/

/-- A new instance: all slots are nil, and so are the elements, if the class has any. -/
def Registry.blank (r : Registry) (c : ClassId) (k : Nat) : Instance where
  cls := c
  slots := Array.replicate (r.layout ⟨c, false⟩).length .nil
  elements :=
    if r.isIndexable ⟨c, false⟩ then some (Array.replicate k .nil) else none

/-- What a class makes when `k` elements are asked for. The instances of classes with two of
the names are arrays and texts. -/
inductive Memory.Instantiates (m : Memory) (c : ClassId) (k : Nat) : Value → Memory → Prop where
  | array (name : (m.registry.entry c).name = "Array") :
    Instantiates m c k (.array m.heap.arrays.size)
      { m with heap := (m.heap.newArray (Array.replicate k .nil)).1 }
  | text (name : (m.registry.entry c).name = "String") :
    Instantiates m c k (m.newText (String.ofList (List.replicate k ' '))).2
      (m.newText (String.ofList (List.replicate k ' '))).1
  | object (noArray : (m.registry.entry c).name ≠ "Array")
    (noText : (m.registry.entry c).name ≠ "String") :
    Instantiates m c k (.object m.heap.objects.size)
      { m with heap := (m.heap.newObject (m.registry.blank c k)).1 }

/-- The slots of an instance are those that its class and all classes above declare. -/
theorem Registry.size_slots_blank (r : Registry) (c : ClassId) (k : Nat) :
    (r.blank c k).slots.size
      = ((r.lineage c).flatMap fun id => (r.entry id).instanceVariables).length := by
  show (Array.replicate (r.layout ⟨c, false⟩).length Value.nil).size = _
  rw [Array.size_replicate]
  -- the oldest ancestor comes first in the layout, and last in the lineage
  exact ((r.lineage c).reverse_perm.flatMap_right _).length_eq

theorem Registry.elements_blank {r : Registry} {c : ClassId}
    (h : r.isIndexable ⟨c, false⟩ = true) (k : Nat) :
    (r.blank c k).elements = some (Array.replicate k .nil) :=
  if_pos h

namespace Memory.Instantiates

variable {c : ClassId} {k : Nat}

/-- The class of an instance is the one that made it: a name that stands for special values
stands for the class. -/
theorem classOf? (h : m.Instantiates c k v m')
    (hc : m.registry.find? (m.registry.entry c).name = some c) :
    m'.classOf? v = some ⟨c, false⟩ := by
  cases h with
  | array name =>
      rw [name] at hc
      show (m.registry.find? "Array").map _ = _
      rw [hc]
      rfl
  | text name =>
      rw [name] at hc
      show (m.registry.find? "String").map _ = _
      rw [hc]
      rfl
  | object noArray noText =>
      show some (Behavior.mk ((m.heap.newObject _).1.object m.heap.objects.size).cls false) = _
      rw [Heap.object_newObject, if_pos rfl]
      rfl

theorem object_eq (h : m.Instantiates c k v m') {o : ObjectId} (ho : v = .object o) :
    m'.heap.object o = m.registry.blank c k := by
  cases h with
  | object noArray noText =>
      obtain rfl := Value.object.inj ho
      show (m.heap.newObject _).1.object m.heap.objects.size = _
      rw [Heap.object_newObject, if_pos rfl]
  | array name => cases ho
  | text name => cases ho

theorem array_eq (h : m.Instantiates c k v m') {a : ArrayId} (ha : v = .array a) :
    m'.heap.array a = Array.replicate k .nil := by
  cases h with
  | array name =>
      obtain rfl := Value.array.inj ha
      show (m.heap.newArray _).1.array m.heap.arrays.size = _
      rw [Heap.array_newArray, if_pos rfl]
  | object noArray noText => cases ha
  | text name => cases ha

/-- It is a text, or has a number that nothing has had. -/
theorem isNew (h : m.Instantiates c k v m') : ¬ m.Knows v ∨ ∃ s n, v = .text s n := by
  cases h with
  | array name => exact .inl (Nat.lt_irrefl _)
  | text name => exact .inr ⟨_, _, rfl⟩
  | object noArray noText => exact .inl (Nat.lt_irrefl _)

end Memory.Instantiates

/-! ### The two primitives -/

namespace Primitive

/-- What is done to make an instance. -/
def making (m : Memory) (c : ClassId) (k : Nat) : Action :=
  if (m.registry.entry c).name = "Array" then .newArray (Array.replicate k .nil)
  else if (m.registry.entry c).name = "String" then
    .newText (String.ofList (List.replicate k ' '))
  else .newObject c k

theorem perform_making (settings : Settings) (m : Memory) (c : ClassId) (k : Nat) :
    ∃ v m', m.Instantiates c k v m' ∧
      ∀ rec f, Eval.perform settings rec f (making m c k) m = .ok v m' := by
  unfold making
  split
  · rename_i hname
    exact ⟨_, _, .array hname, fun _ _ => rfl⟩
  · split
    · rename_i hname
      exact ⟨_, _, .text hname, fun _ _ => rfl⟩
    · rename_i harray htext
      exact ⟨_, _, .object harray htext, fun _ _ => rfl⟩

theorem integerValue_eq_ok {n : Int} :
    integerValue v = .ok n ↔ v = .int n ∧ SmallInteger.holds n = true := by
  constructor
  · intro h
    cases v with
    | int i =>
        simp only [integerValue] at h
        split at h
        · rename_i hi
          obtain rfl := Except.ok.inj h
          exact ⟨rfl, hi⟩
        · cases h
    | _ => cases h
  · rintro ⟨rfl, hn⟩
    exact integerValue_of_holds hn

theorem instantiable_class (m : Memory) (c : ClassId) :
    instantiable m (.behavior ⟨c, false⟩) =
      if (m.registry.entry c).name ∈ uninstantiable then .error .typeMismatch else .ok c := by
  unfold instantiable
  simp only [Bool.false_or, List.contains_iff_mem]

/-- Making an instance without elements. -/
theorem attempt_new (m : Memory) (c : ClassId) :
    new.attempt m (.behavior ⟨c, false⟩) [] =
      if (m.registry.entry c).name ∈ uninstantiable then .error .typeMismatch
      else .ok (making m c 0) := by
  show makeNew m (.behavior ⟨c, false⟩) = _
  unfold makeNew making
  rw [instantiable_class]
  split
  · rfl
  · simp only [bind, Except.bind]
    split
    · rfl
    · split <;> rfl

/-- Making an instance with a number of elements. -/
theorem attempt_newSized (m : Memory) (c : ClassId) (size : Value) :
    newSized.attempt m (.behavior ⟨c, false⟩) [size] =
      if (m.registry.entry c).name ∈ uninstantiable then .error .typeMismatch
      else if m.registry.isIndexable ⟨c, false⟩ = false then .error .typeMismatch
      else integerValue size >>= fun n =>
        if n < 0 then .error .indexOutOfBounds else .ok (making m c n.toNat) := by
  show makeSized m (.behavior ⟨c, false⟩) size = _
  unfold makeSized making
  rw [instantiable_class]
  split
  · rfl
  · simp only [bind, Except.bind, Bool.not_eq_true']
    split
    · rfl
    · cases integerValue size with
      | error reason => rfl
      | ok n =>
          simp only
          split
          · rfl
          · split
            · rfl
            · split <;> rfl

/-- It fails for want of a class that makes instances, of elements, or of a size. -/
theorem attempt_newSized_fails_iff {c : ClassId} {size : Value} :
    (∃ reason, newSized.attempt m (.behavior ⟨c, false⟩) [size] = .error reason) ↔
      (m.registry.entry c).name ∈ uninstantiable ∨ m.registry.isIndexable ⟨c, false⟩ = false ∨
        ∀ k : Nat, SmallInteger.holds k = true → size ≠ .int k := by
  rw [attempt_newSized]
  -- the conditions in the order in which they are checked
  by_cases hhost : (m.registry.entry c).name ∈ uninstantiable
  · rw [if_pos hhost]
    exact iff_of_true ⟨_, rfl⟩ (.inl hhost)
  by_cases hindexable : m.registry.isIndexable ⟨c, false⟩ = false
  · rw [if_neg hhost, if_pos hindexable]
    exact iff_of_true ⟨_, rfl⟩ (.inr (.inl hindexable))
  rw [if_neg hhost, if_neg hindexable]
  simp only [hhost, hindexable, Bool.true_eq_false, false_or]
  cases hsize : integerValue size with
  | error reason =>
      refine iff_of_true ⟨reason, rfl⟩ ?_
      rintro k hk rfl
      rw [integerValue_of_holds hk] at hsize
      cases hsize
  | ok n =>
      obtain ⟨rfl, hn⟩ := integerValue_eq_ok.mp hsize
      show (∃ reason, (if n < 0 then _ else _) = _) ↔ _
      by_cases hneg : n < 0
      · rw [if_pos hneg]
        refine iff_of_true ⟨_, rfl⟩ ?_
        rintro k _ hk
        cases hk
        omega
      · rw [if_neg hneg]
        obtain ⟨k, rfl⟩ := Int.eq_ofNat_of_zero_le (Int.not_lt.mp hneg)
        exact iff_of_false (fun ⟨_, hfails⟩ => nomatch hfails) fun hno => hno k hn rfl

end Primitive

/-! ### The result -/

/-- A value is an instance that a class has just made, and nobody had it before. -/
structure Memory.NewInstance (m : Memory) (c : ClassId) (k : Nat) (v : Value) (m' : Memory) :
    Prop where
  made : m.Instantiates c k v m'
  /-- Its class is the one that made it. -/
  cls : m'.classOf? v = some ⟨c, false⟩
  /-- It has the slots of its class and of all classes above, and everything in it is nil. -/
  object : ∀ o, v = .object o → m'.heap.object o = m.registry.blank c k ∧
    (m'.heap.object o).slots.size
      = ((m.registry.lineage c).flatMap fun id => (m.registry.entry id).instanceVariables).length
  array : ∀ a, v = .array a → m'.heap.array a = Array.replicate k .nil
  /-- Texts cannot change; anything else has been made now, and nothing refers to it. -/
  unshared : (∃ s n, v = .text s n) ∨
    ¬ m.Knows v ∧ ¬ m.heap.Stores v ∧ ∀ key, m.globals.find? key ≠ some v

/-- What a class makes, and when it makes nothing. -/
structure Memory.MakesInstances (settings : Settings) (m : Memory) (c : ClassId) : Prop where
  /-- Without a size, only the classes of values that are not made fail. -/
  new_fails : (∃ reason, m.PrimitiveFails settings 70 (.behavior ⟨c, false⟩) [] reason) ↔
    (m.registry.entry c).name ∈ uninstantiable
  new : (m.registry.entry c).name ∉ uninstantiable →
    ∃ v m', m.PrimitiveAnswers settings 70 (.behavior ⟨c, false⟩) [] v m' ∧
      m.NewInstance c 0 v m'
  /-- With a size, a class has to be indexable, and the size a SmallInteger from zero on. -/
  newSized_fails : ∀ size,
    (∃ reason, m.PrimitiveFails settings 71 (.behavior ⟨c, false⟩) [size] reason) ↔
      (m.registry.entry c).name ∈ uninstantiable ∨ m.registry.isIndexable ⟨c, false⟩ = false ∨
        ∀ k : Nat, SmallInteger.holds k = true → size ≠ .int k
  newSized : ∀ k : Nat, SmallInteger.holds k = true →
    (m.registry.entry c).name ∉ uninstantiable → m.registry.isIndexable ⟨c, false⟩ = true →
    ∃ v m', m.PrimitiveAnswers settings 71 (.behavior ⟨c, false⟩) [.int k] v m' ∧
      m.NewInstance c k v m'

/-- What a registered class makes is new. -/
theorem Charter.Reached.newInstance (h : Charter.free.Reached m) {c : ClassId}
    (hc : m.registry.find? (m.registry.entry c).name = some c) {k : Nat}
    (hv : m.Instantiates c k v m') : m.NewInstance c k v m' where
  made := hv
  cls := hv.classOf? hc
  object o ho := by
    have hblank := hv.object_eq ho
    rw [hblank]
    exact ⟨rfl, m.registry.size_slots_blank c k⟩
  array _ ha := hv.array_eq ha
  unshared := by
    have abides := h.abides Charter.free_lawful
    rcases hv.isNew with hnew | htext
    · exact .inr ⟨hnew, fun hstored => hnew (abides.stored v hstored).1,
        fun key hbound => hnew (abides.bound key v hbound).1⟩
    · exact .inl htext

/-- In every system, for every class that a name stands for, the two primitives fail in the
stated cases only, and answer a new instance in all others. -/
theorem instances_are_new (hs : settings.KnowsPrimitives) (h : Charter.free.Reached m)
    {name : String} {c : ClassId} (hc : m.registry.find? name = some c) :
    (m.registry.entry c).name = name ∧ m.MakesInstances settings c := by
  have hname : (m.registry.entry c).name = name := h.leadsTo.kept.1.named name c hc
  subst hname
  have hnew : ((70 : Int), Primitive.new) ∈ Primitive.numbered := by decide
  have hnewSized : ((71 : Int), Primitive.newSized) ∈ Primitive.numbered := by decide
  refine ⟨rfl, ?_, fun hmade => ?_, fun size => ?_, fun k hk hmade hindexable => ?_⟩
  · simp only [hs.fails_iff hnew, Primitive.attempt_new]
    split
    · rename_i hhost
      exact iff_of_true ⟨_, rfl⟩ hhost
    · rename_i hhost
      exact iff_of_false (fun ⟨_, hfails⟩ => nomatch hfails) hhost
  · obtain ⟨v, m', hv, hperform⟩ := Primitive.perform_making settings m c 0
    refine ⟨v, m', hs.answers hnew ?_ hperform, h.newInstance hc hv⟩
    rw [Primitive.attempt_new, if_neg hmade]
  · simp only [hs.fails_iff hnewSized]
    exact Primitive.attempt_newSized_fails_iff
  · obtain ⟨v, m', hv, hperform⟩ := Primitive.perform_making settings m c k
    refine ⟨v, m', hs.answers hnewSized ?_ hperform, h.newInstance hc hv⟩
    have hpositive : ¬ (k : Int) < 0 := by omega
    rw [Primitive.attempt_newSized, if_neg hmade, if_neg (ne_true_of_eq_false · hindexable),
      Primitive.integerValue_of_holds hk]
    simp only [bind, Except.bind, if_neg hpositive, Int.toNat_natCast]

/-- A system with a class whose instances have a slot of its own, one of the class above, and
elements, as the class above says. -/
def Kernel.withCase : Memory :=
  Command.run (Command.run memory
      (.define (.str "Shelf") (.str "Object") (.arr [.str "label"]) (.bool true)))
    (.define (.str "Case") (.str "Shelf") (.arr [.str "width"]) .null)

/-- The class makes an instance with two slots and three elements. -/
theorem instance_of_case : Kernel.withCase.MakesInstances {} 16 ∧
    ∃ v m', Kernel.withCase.PrimitiveAnswers {} 71 (.behavior ⟨16, false⟩) [.int 3] v m' ∧
      ∃ o, v = .object o ∧ (m'.heap.object o).slots.size = 2 ∧
        (m'.heap.object o).elements = some #[.nil, .nil, .nil] ∧
        ¬ Kernel.withCase.heap.Stores v := by
  have hshelf : Charter.free.Reached (Command.run Kernel.memory
      (.define (.str "Shelf") (.str "Object") (.arr [.str "label"]) (.bool true))) :=
    .command .start trivial
  have hcase : Charter.free.Reached Kernel.withCase := .command hshelf trivial
  have hcomputed : Kernel.withCase.registry.find? "Case" = some 16 ∧
      (Kernel.withCase.registry.entry 16).name = "Case" ∧
      Kernel.withCase.registry.isIndexable ⟨16, false⟩ = true ∧
      ((Kernel.withCase.registry.lineage 16).flatMap fun id =>
        (Kernel.withCase.registry.entry id).instanceVariables).length = 2 := by
    decide +kernel
  obtain ⟨hfound, hname, hindexable, hslots⟩ := hcomputed
  have hmakes := (instances_are_new Kernel.memory_equipped.primitive hcase hfound).2
  obtain ⟨v, m', hanswers, hnew⟩ :=
    hmakes.newSized 3 (by decide) (by rw [hname]; decide) hindexable
  have hobject : ∃ o, v = .object o := by
    cases hnew.made with
    | array harray => exact absurd (hname.symm.trans harray) (by decide)
    | text htext => exact absurd (hname.symm.trans htext) (by decide)
    | object noArray noText => exact ⟨_, rfl⟩
  obtain ⟨o, rfl⟩ := hobject
  obtain ⟨hblank, hsize⟩ := hnew.object o rfl
  refine ⟨hmakes, _, m', hanswers, o, rfl, hsize.trans hslots, ?_, ?_⟩
  · rw [hblank, Registry.elements_blank hindexable]
    rfl
  · rcases hnew.unshared with ⟨s, n, htext⟩ | ⟨-, hstored, -⟩
    · cases htext
    · exact hstored

end Smalltalk
