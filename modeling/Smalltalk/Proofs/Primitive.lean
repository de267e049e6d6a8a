import Smalltalk.Proofs.Invariant

/-!
# `Smalltalk.Proofs.Primitive`: what primitives decide on

`Regime.Admits R m action` says that an action stores and answers admitted
values only, calls closures that are there, and refuses with a fault that may
arise. `Primitive.attempt_admits` is the result: a primitive that is given
admitted values decides on such an action.

What a primitive may decide on is said once, in `Primitive.MayChoose`: it answers,
changes and runs what it is given or what is stored in that, or makes something
new. `Primitive.mayChoose_of_choose` goes through the primitives; whatever keeps to
what is given follows from it without another look at them.

That a class is found for every value but a foreign one is `classOf?_isSome`;
it needs the kernel classes to be registered.
-/

set_option autoImplicit false

namespace Smalltalk

/-- The faults that may arise. -/
def Regime.Fails (R : Regime) (f : Fault) : Prop :=
  (R.named = true → f.isMisuse = false) ∧ ∀ shown, f = .noClass shown → R.foreign = true

/-- The actions that a primitive may decide on. -/
def Regime.Admits (R : Regime) (m : Memory) : Action → Prop
  | .answer v | .setElement _ _ v | .setIndexed _ _ v | .setSlot _ _ v => R.Holds m v
  | .newArray xs => ∀ v ∈ xs, R.Holds m v
  | .newObject cls _ => cls < m.registry.classes.size
  | .call c args => c < m.heap.closures.size ∧ ∀ v ∈ args, R.Holds m v
  | .loop condition body _ => condition < m.heap.closures.size ∧ body < m.heap.closures.size
  | .refuse f => R.Fails f
  | .tally _ | .newText _ | .print _ | .signal _ => True

variable {R : Regime} {m : Memory}

/-! ### Values that refer to nothing -/

theorem Regime.holds_bool (b : Bool) : R.Holds m (.bool b) := ⟨rfl, trivial⟩

theorem Regime.holds_float (x : Float) : R.Holds m (.float x) := ⟨rfl, trivial⟩

theorem Regime.holds_text (s : String) (origin : TextOrigin) : R.Holds m (.text s origin) :=
  ⟨rfl, trivial⟩

theorem Regime.holds_symbol (s : String) : R.Holds m (.symbol s) := ⟨rfl, trivial⟩

theorem Regime.holds_int {i : Int} (h : R.int i = true) : R.Holds m (.int i) := ⟨h, trivial⟩

/-! ### Classes -/

/-- The kernel classes are registered. -/
theorem Registry.Sound.find?_isSome {r : Registry} (s : r.Sound R) {name : String}
    (h : name ∈ Kernel.classes.map (·.name)) : ∃ id, r.find? name = some id := by
  obtain ⟨c, hc, rfl⟩ := List.mem_map.mp h
  exact Option.isSome_iff_exists.mp (s.kernel c hc)

namespace Memory

/-- The class of a value that is neither object nor class is found by name. -/
theorem classOf?_of_kernelClass? {v : Value} {name : String} (h : v.kernelClass? = some name) :
    m.classOf? v = (m.registry.find? name).map fun id => ⟨id, false⟩ := by
  cases v with
  | object _ => cases h
  | behavior _ => cases h
  | _ =>
      unfold classOf?
      simp only [h, Option.bind_some]

/-- What a primitive relies on: all that is stored is admitted, names and objects have
classes that are there, and only where foreign values are admitted is there a value
without a class. -/
structure Stocked (R : Regime) (m : Memory) : Prop where
  stored : ∀ v, m.heap.Stores v → R.Holds m v
  registered : ∀ name id, m.registry.find? name = some id → id < m.registry.classes.size
  object : ∀ o < m.heap.objects.size, (m.heap.object o).cls < m.registry.classes.size
  classless : ∀ v, R.Holds m v → m.classOf? v = none → R.foreign = true

/-- The class of a value is there. -/
theorem classOf?_lt
    (registered : ∀ name id, m.registry.find? name = some id → id < m.registry.classes.size)
    (object : ∀ o < m.heap.objects.size, (m.heap.object o).cls < m.registry.classes.size)
    {v : Value} (hv : m.Knows v) {b : Behavior} (h : m.classOf? v = some b) :
    b.id < m.registry.classes.size := by
  have hnamed : ∀ name : String, (m.registry.find? name).map (fun id => Behavior.mk id false)
      = some b → b.id < m.registry.classes.size := by
    intro name hname
    obtain ⟨id, hid, rfl⟩ := Option.map_eq_some_iff.mp hname
    exact registered name id hid
  cases v with
  | object o =>
      obtain rfl := Option.some.inj h
      exact object o hv
  | behavior c =>
      simp only [classOf?] at h
      split at h
      · exact hnamed _ h
      · obtain rfl := Option.some.inj h
        exact hv
  | foreign _ _ => cases h
  | bool b =>
      cases b with
      | false => exact hnamed "False" h
      | true => exact hnamed "True" h
  | _ => exact hnamed _ ((classOf?_of_kernelClass? rfl).symm.trans h)

/-- Only a foreign value has no class. -/
theorem WellFormed.classOf?_isSome (w : m.WellFormed R) {v : Value} (hv : R.Holds m v)
    (h : m.classOf? v = none) : R.foreign = true := by
  -- a name of a kernel class is registered, so what is looked up by it is found
  have hnamed : ∀ name ∈ Kernel.classes.map (·.name),
      (m.registry.find? name).map (fun id => Behavior.mk id false) ≠ none := by
    intro name hmem hnone
    obtain ⟨id, hid⟩ := w.classes.find?_isSome hmem
    rw [hid] at hnone
    cases hnone
  cases v with
  | foreign j mark => exact hv.1
  | object o => cases h
  | behavior c =>
      simp only [classOf?] at h
      split at h
      · exact absurd h (hnamed "Class" (by decide))
      · cases h
  | bool b =>
      cases b with
      | false => exact absurd h (hnamed "False" (by decide))
      | true => exact absurd h (hnamed "True" (by decide))
  | _ => exact absurd ((classOf?_of_kernelClass? rfl).symm.trans h) (hnamed _ (by decide))

theorem WellFormed.stocked (w : m.WellFormed R) : m.Stocked R :=
  ⟨w.stored, w.classes.registered, w.object, fun _ => w.classOf?_isSome⟩

end Memory

/-! ### Operations -/

namespace Primitive

variable {receiver argument v : Value} {action : Action}

/-- What comes of two steps comes of the second. -/
theorem of_bind {ε α β : Type} {x : Except ε α} {f : α → Except ε β} {b : β}
    (h : x >>= f = .ok b) : ∃ a, x = .ok a ∧ f a = .ok b := by
  cases x with
  | ok a => exact ⟨a, rfl, h⟩
  | error e => cases h

theorem of_map {ε α β : Type} {x : Except ε α} {f : α → β} {b : β}
    (h : x.map f = .ok b) : ∃ a, x = .ok a ∧ f a = b := by
  cases x with
  | ok a => exact ⟨a, rfl, Except.ok.inj h⟩
  | error e => cases h

theorem bind_eq_ok {ε α β : Type} {x : Except ε α} {f : α → Except ε β} {b : β} :
    x >>= f = .ok b ↔ ∃ a, x = .ok a ∧ f a = .ok b := by
  constructor
  · exact of_bind
  · rintro ⟨a, rfl, hf⟩
    exact hf

theorem map_eq_ok {ε α β : Type} {x : Except ε α} {f : α → β} {b : β} :
    x.map f = .ok b ↔ ∃ a, x = .ok a ∧ f a = b := by
  constructor
  · exact of_map
  · rintro ⟨a, rfl, rfl⟩
    rfl

/-- What is decided is what some primitive has come to. -/
theorem of_decide {settings : Settings} {m : Memory} {receiver : Value} {args : List Value}
    {number : Json} {action : Action}
    (h : Eval.decide settings m receiver args number = .ok (.ok action)) :
    ∃ p : Primitive, p.attempt m receiver args = .ok action := by
  obtain ⟨key, -, h⟩ := of_bind h
  split at h
  · exact ⟨_, Except.ok.inj h⟩
  · cases h

theorem integerValue_of_holds {i : Int} (h : SmallInteger.holds i = true) :
    integerValue (.int i) = .ok i :=
  if_pos h

theorem holds_of_integerValue {i : Int} (h : integerValue v = .ok i) :
    SmallInteger.holds i = true := by
  cases v with
  | int j =>
      simp only [integerValue] at h
      split at h
      · rename_i hj
        exact Except.ok.inj h ▸ hj
      · cases h
  | _ => cases h

theorem place_of_lt {k size : Nat} (hk : k < size) (hholds : SmallInteger.holds (k + 1) = true) :
    place (.int (k + 1)) size = .ok k := by
  have hbounds : 1 ≤ (k : Int) + 1 ∧ (k : Int) + 1 ≤ size := by omega
  unfold place
  rw [integerValue_of_holds hholds]
  simp only [bind, Except.bind]
  rw [if_pos hbounds, Int.add_sub_cancel, Int.toNat_natCast]
  rfl

/-- The remainder by a SmallInteger is one: it is nearer to zero than the divisor. -/
theorem holds_fmod {a b : Int} (h : SmallInteger.holds b = true) (hb : b ≠ 0) :
    SmallInteger.holds (Int.fmod a b) = true := by
  have hbounds := Bool.and_eq_true_iff.mp h
  have hleast : SmallInteger.least ≤ b := of_decide_eq_true hbounds.1
  have hgreatest : b ≤ SmallInteger.greatest := of_decide_eq_true hbounds.2
  have hmod : SmallInteger.least ≤ Int.fmod a b ∧ Int.fmod a b ≤ SmallInteger.greatest := by
    unfold SmallInteger.least SmallInteger.greatest at *
    rcases Int.lt_or_gt_of_ne hb with hneg | hpos
    · -- negating both numbers negates the remainder
      have hpos : 0 < -b := by omega
      have hlower := Int.fmod_nonneg_of_pos (-a) hpos
      have hupper := Int.fmod_lt_of_pos (-a) hpos
      rw [Int.neg_fmod_neg] at hlower hupper
      omega
    · have hlower := Int.fmod_nonneg_of_pos a hpos
      have hupper := Int.fmod_lt_of_pos a hpos
      omega
  exact Bool.and_eq_true_iff.mpr ⟨decide_eq_true hmod.1, decide_eq_true hmod.2⟩

theorem closure_of_closureValue {c : ClosureId} (h : closureValue v = .ok c) :
    v = .closure c := by
  cases v with
  | closure d => exact congrArg Value.closure (Except.ok.inj h)
  | _ => cases h

theorem object_of_objectValue {o : ObjectId} (h : objectValue v = .ok o) : v = .object o := by
  cases v with
  | object p => exact congrArg Value.object (Except.ok.inj h)
  | _ => cases h

/-- The class that makes instances is there. -/
theorem instantiable_lt (hv : R.Holds m v) {cls : ClassId} (h : instantiable m v = .ok cls) :
    cls < m.registry.classes.size := by
  cases v with
  | behavior b =>
      simp only [instantiable] at h
      split at h
      · cases h
      · exact Except.ok.inj h ▸ hv.2
  | _ => cases h

/-! ### What a primitive may decide on -/

/-- The values that a primitive may answer or hand on: some that refer to nothing, the class of
its receiver, what it is given, and what is stored in that. -/
inductive MayUse (m : Memory) (receiver : Value) (arg : Nat → Value) : Value → Prop where
  | nil : MayUse m receiver arg .nil
  | bool (b : Bool) : MayUse m receiver arg (.bool b)
  | int {i : Int} (small : SmallInteger.holds i = true) : MayUse m receiver arg (.int i)
  | float (x : Float) : MayUse m receiver arg (.float x)
  | cls {b : Behavior} (found : m.classOf? receiver = some b) :
    MayUse m receiver arg (.behavior b)
  | self : MayUse m receiver arg receiver
  | argument (i : Nat) : MayUse m receiver arg (arg i)
  | element {a : ArrayId} {v : Value} (given : receiver = .array a ∨ arg 0 = .array a)
      (stored : v ∈ m.heap.array a) : MayUse m receiver arg v
  | part {o : ObjectId} {v : Value} (given : receiver = .object o)
      (stored : (m.heap.object o).Has v) : MayUse m receiver arg v

/-- The actions that a primitive may decide on. What it changes or runs it has been given, and
it refuses only values without a class and integers beyond all floats. -/
inductive MayChoose (m : Memory) (receiver : Value) (arg : Nat → Value) : Action → Prop where
  | answer {v : Value} (used : MayUse m receiver arg v) : MayChoose m receiver arg (.answer v)
  | tally (n : Nat) : MayChoose m receiver arg (.tally n)
  | newText (s : String) : MayChoose m receiver arg (.newText s)
  | newArray {xs : Array Value} (blank : ∀ v ∈ xs, v = .nil) :
    MayChoose m receiver arg (.newArray xs)
  | newObject {cls : ClassId} (makes : instantiable m receiver = .ok cls) (size : Nat) :
    MayChoose m receiver arg (.newObject cls size)
  | setElement {a : ArrayId} (given : receiver = .array a) (i : Nat) :
    MayChoose m receiver arg (.setElement a i (arg 1))
  | setIndexed {o : ObjectId} (given : receiver = .object o) (i : Nat) :
    MayChoose m receiver arg (.setIndexed o i (arg 1))
  | setSlot {o : ObjectId} (given : receiver = .object o) (i : Nat) :
    MayChoose m receiver arg (.setSlot o i (arg 1))
  | call {c : ClosureId} {args : List Value} (given : receiver = .closure c)
      (used : ∀ v ∈ args, MayUse m receiver arg v) : MayChoose m receiver arg (.call c args)
  | loop {condition body : ClosureId} (given : receiver = .closure condition)
      (handed : arg 0 = .closure body) (goOn : Bool) :
    MayChoose m receiver arg (.loop condition body goOn)
  | print : MayChoose m receiver arg (.print receiver)
  | signal : MayChoose m receiver arg (.signal (arg 0))
  | noClass (classless : m.classOf? receiver = none) :
    MayChoose m receiver arg (.refuse (.noClass (m.inspect receiver)))
  | beyondFloat {i : Int} (used : MayUse m receiver arg (.int i))
      (large : Binary64.ofInt? i = none) : MayChoose m receiver arg (.refuse (.beyondFloat i))

section
variable {arg : Nat → Value}

theorem mayChoose_of_inRange {i : Int} (h : inRange i = .ok action) :
    MayChoose m receiver arg action := by
  unfold inRange at h
  split at h <;> cases h
  rename_i hsmall
  exact .answer (.int hsmall)

theorem mayChoose_of_withNumber (hv : MayUse m receiver arg v)
    {go : Float → Except Reason Action}
    (hgo : ∀ x, go x = .ok action → MayChoose m receiver arg action)
    (h : withNumber v go = .ok action) : MayChoose m receiver arg action := by
  cases v with
  | float x => exact hgo x h
  | int i =>
      simp only [withNumber] at h
      split at h
      · exact hgo _ h
      · rename_i hlarge
        cases h
        exact .beyondFloat hv hlarge
  | _ => cases h

theorem mayChoose_of_elementAt (h : elementAt m receiver argument = .ok action) :
    MayChoose m receiver arg action := by
  cases receiver with
  | array a =>
      obtain ⟨i, _, h⟩ := of_bind h
      cases h
      exact .answer (forall_getD .nil (fun x hx => .element (.inl rfl) hx) i)
  | object o =>
      simp only [elementAt] at h
      split at h
      · rename_i xs hxs
        obtain ⟨i, _, h⟩ := of_bind h
        cases h
        exact .answer (forall_getD .nil (fun x hx => .part rfl (.inr ⟨xs, hxs, hx⟩)) i)
      · cases h
  | text s origin =>
      obtain ⟨i, _, h⟩ := of_bind h
      cases h
      exact .newText _
  | symbol s =>
      obtain ⟨i, _, h⟩ := of_bind h
      cases h
      exact .newText _
  | _ => cases h

theorem mayChoose_of_putElement (h : putElement m receiver argument (arg 1) = .ok action) :
    MayChoose m receiver arg action := by
  cases receiver with
  | array a =>
      obtain ⟨i, _, h⟩ := of_bind h
      cases h
      exact .setElement rfl i
  | object o =>
      simp only [putElement] at h
      split at h
      · obtain ⟨i, _, h⟩ := of_bind h
        cases h
        exact .setIndexed rfl i
      · cases h
  | _ => cases h

theorem mayChoose_of_makeNew (h : makeNew m receiver = .ok action) :
    MayChoose m receiver arg action := by
  obtain ⟨cls, hcls, h⟩ := of_bind h
  simp only at h
  split at h
  · cases h
    exact .newArray fun x hx => absurd hx (Array.not_mem_empty x)
  · split at h <;> cases h
    · exact .newText _
    · exact .newObject hcls 0

theorem mayChoose_of_makeSized (h : makeSized m receiver argument = .ok action) :
    MayChoose m receiver arg action := by
  obtain ⟨cls, hcls, h⟩ := of_bind h
  split at h
  · cases h
  obtain ⟨n, _, h⟩ := of_bind h
  split at h
  · cases h
  simp only at h
  split at h
  · cases h
    exact .newArray fun x hx => (Array.mem_replicate.mp hx).2
  · split at h <;> cases h
    · exact .newText _
    · exact .newObject hcls _

/-- Joining answers one of the two texts or a new one. -/
theorem mayChoose_of_joinTexts (h : joinTexts receiver (arg 0) = .ok action) :
    MayChoose m receiver arg action := by
  unfold joinTexts at h
  repeat' split at h
  all_goals first
    | exact Except.ok.inj h ▸ .answer .self
    | exact Except.ok.inj h ▸ .answer (.argument 0)
    | exact Except.ok.inj h ▸ .newText _
    | cases h

theorem mayChoose_of_textsEqual (h : textsEqual receiver argument = .ok action) :
    MayChoose m receiver arg action := by
  unfold textsEqual at h
  split at h <;> cases h <;> exact .answer (.bool _)

theorem mayChoose_of_loopOf {goOn : Bool} (h : loopOf receiver (arg 0) goOn = .ok action) :
    MayChoose m receiver arg action := by
  obtain ⟨condition, hcondition, h⟩ := of_bind h
  obtain ⟨body, hbody, h⟩ := of_bind h
  cases h
  exact .loop (closure_of_closureValue hcondition) (closure_of_closureValue hbody) goOn

/-- One case for each primitive. -/
theorem mayChoose_of_choose {p : Primitive} (h : p.choose m receiver arg = .ok action) :
    MayChoose m receiver arg action := by
  cases p with
  | integer op =>
      obtain ⟨a, _, h⟩ := of_bind h
      obtain ⟨b, _, h⟩ := of_bind h
      exact mayChoose_of_inRange h
  | compareIntegers op =>
      obtain ⟨a, _, h⟩ := of_bind h
      obtain ⟨b, _, h⟩ := of_bind h
      cases h
      exact .answer (.bool _)
  | divide =>
      obtain ⟨a, _, h⟩ := of_bind h
      obtain ⟨b, _, h⟩ := of_bind h
      split at h
      · cases h
      split at h
      · cases h
      exact mayChoose_of_inRange h
  | modulo =>
      obtain ⟨a, _, h⟩ := of_bind h
      obtain ⟨b, hb, h⟩ := of_bind h
      split at h
      · cases h
      rename_i hzero
      cases h
      exact .answer (.int (holds_fmod (holds_of_integerValue hb) hzero))
  | floorDivide =>
      obtain ⟨a, _, h⟩ := of_bind h
      obtain ⟨b, _, h⟩ := of_bind h
      split at h
      · cases h
      exact mayChoose_of_inRange h
  | asFloat =>
      obtain ⟨a, ha, h⟩ := of_bind h
      refine mayChoose_of_withNumber (.int (holds_of_integerValue ha)) (fun x hx => ?_) h
      cases hx
      exact .answer (.float x)
  | float op =>
      obtain ⟨a, _, h⟩ := of_bind h
      refine mayChoose_of_withNumber (.argument 0) (fun x hx => ?_) h
      cases hx
      exact .answer (.float _)
  | compareFloats op =>
      obtain ⟨a, _, h⟩ := of_bind h
      refine mayChoose_of_withNumber (.argument 0) (fun x hx => ?_) h
      cases hx
      exact .answer (.bool _)
  | divideFloats =>
      obtain ⟨a, _, h⟩ := of_bind h
      refine mayChoose_of_withNumber (.argument 0) (fun x hx => ?_) h
      split at hx <;> cases hx
      exact .answer (.float _)
  | fetch => exact mayChoose_of_elementAt h
  | store => exact mayChoose_of_putElement h
  | count =>
      obtain ⟨n, _, rfl⟩ := of_map h
      exact .tally n
  | new => exact mayChoose_of_makeNew h
  | newSized => exact mayChoose_of_makeSized h
  | fetchSlot =>
      obtain ⟨o, ho, h⟩ := of_bind h
      obtain ⟨i, _, h⟩ := of_bind h
      cases h
      exact .answer (forall_getD .nil (fun x hx => .part (object_of_objectValue ho) (.inl hx)) i)
  | storeSlot =>
      obtain ⟨o, ho, h⟩ := of_bind h
      obtain ⟨i, _, h⟩ := of_bind h
      cases h
      exact .setSlot (object_of_objectValue ho) i
  | identical | notIdentical =>
      cases h
      exact .answer (.bool _)
  | classOf =>
      simp only [choose] at h
      split at h
      · rename_i b hfound
        cases h
        exact .answer (.cls hfound)
      · rename_i hclassless
        cases h
        exact .noClass hclassless
  | call n =>
      obtain ⟨c, hc, rfl⟩ := of_map h
      refine .call (closure_of_closureValue hc) fun v hv => ?_
      obtain ⟨i, _, rfl⟩ := List.mem_map.mp hv
      exact .argument i
  | callWithArray =>
      obtain ⟨c, hc, h⟩ := of_bind h
      split at h
      · -- the arguments are what the array stores
        rename_i a harray
        cases h
        exact .call (closure_of_closureValue hc) fun v hv =>
          .element (.inr harray) (Array.mem_toList_iff.mp hv)
      · cases h
  | arity =>
      obtain ⟨c, _, rfl⟩ := of_map h
      exact .tally _
  | join => exact mayChoose_of_joinTexts h
  | equalTexts => exact mayChoose_of_textsEqual h
  | print =>
      cases h
      exact .print
  | signal =>
      cases h
      exact .signal
  | whileTrue => exact mayChoose_of_loopOf h
  | whileFalse => exact mayChoose_of_loopOf h

end

/-! ### Primitives -/

section
variable {settings : Settings} (w : m.Stocked R) (suits : R.Suits settings) {arg : Nat → Value}
  (hreceiver : R.Holds m receiver) (harg : ∀ i, R.Holds m (arg i))

include w suits hreceiver harg

theorem holds_of_mayUse (h : MayUse m receiver arg v) : R.Holds m v := by
  cases h with
  | nil => exact Regime.holds_nil
  | bool b => exact Regime.holds_bool b
  | int small => exact Regime.holds_int (suits.small _ small)
  | float x => exact Regime.holds_float x
  | cls found => exact ⟨rfl, Memory.classOf?_lt w.registered w.object hreceiver.2 found⟩
  | self => exact hreceiver
  | argument i => exact harg i
  | element _ stored => exact w.stored v (.of_array stored)
  | part _ stored => exact w.stored v (.of_object stored)

/-- A primitive that is given admitted values decides on an admitted action. -/
theorem choose_admits {p : Primitive} (h : p.choose m receiver arg = .ok action) :
    R.Admits m action := by
  have hused : ∀ {v}, MayUse m receiver arg v → R.Holds m v :=
    holds_of_mayUse w suits hreceiver harg
  cases mayChoose_of_choose h with
  | answer used => exact hused used
  | tally | newText | print | signal => trivial
  | newArray blank =>
      intro v hv
      rw [blank v hv]
      exact Regime.holds_nil
  | newObject makes => exact instantiable_lt hreceiver makes
  | setElement | setIndexed | setSlot => exact harg 1
  | call given used =>
      have hclosure := given ▸ hreceiver
      exact ⟨hclosure.2, fun v hv => hused (used v hv)⟩
  | loop given handed =>
      have hcondition := given ▸ hreceiver
      have hbody := handed ▸ harg 0
      exact ⟨hcondition.2, hbody.2⟩
  | noClass classless => exact ⟨fun _ => rfl, fun _ _ => w.classless _ hreceiver classless⟩
  | beyondFloat used large =>
      refine ⟨fun hnamed => ?_, fun shown hshown => nomatch hshown⟩
      -- where code is well named, every admitted integer has a double
      have hsome := suits.double hnamed _ (hused used).1
      rw [large] at hsome
      cases hsome

end

theorem attempt_admits {settings : Settings} (w : m.Stocked R) (suits : R.Suits settings)
    {args : List Value} (hreceiver : R.Holds m receiver) (hargs : ∀ v ∈ args, R.Holds m v)
    {p : Primitive} (h : p.attempt m receiver args = .ok action) : R.Admits m action := by
  unfold attempt at h
  split at h
  · refine choose_admits w suits hreceiver (fun i => ?_) h
    rw [List.getD_eq_getElem?_getD]
    cases hx : args[i]? with
    | none => exact Regime.holds_nil
    | some x => exact hargs x (List.mem_of_getElem? hx)
  · cases h

/-- A primitive refuses values without a class and integers beyond all floats, and nothing
else. -/
theorem of_choose_refuse {p : Primitive} {m : Memory} {receiver : Value} {arg : Nat → Value}
    {f : Fault} (h : p.choose m receiver arg = .ok (.refuse f)) :
    (∃ shown, f = .noClass shown) ∨ ∃ i, f = .beyondFloat i := by
  cases mayChoose_of_choose h with
  | noClass => exact .inl ⟨_, rfl⟩
  | beyondFloat => exact .inr ⟨_, rfl⟩

theorem of_attempt_refuse {p : Primitive} {m : Memory} {receiver : Value} {args : List Value}
    {f : Fault} (h : p.attempt m receiver args = .ok (.refuse f)) :
    (∃ shown, f = .noClass shown) ∨ ∃ i, f = .beyondFloat i := by
  unfold attempt at h
  split at h
  · exact of_choose_refuse h
  · cases h

end Primitive

end Smalltalk
