import Smalltalk.Proofs.Confined

/-!
# `Smalltalk.Proofs.Coincide`: memories that are the same on a realm

Two memories coincide on a realm when they differ at most in what cells outside of it have
(`Memory.Coincides`). The same cells are made in both, with the same numbers, and the
classes and the globals are the same.

They still coincide when one cell is made in both or one of the realm is changed in both.
What is read from cells of the realm is the same in both: variables along a chain, the text
and the class of a value, and what a primitive decides on.
-/

set_option autoImplicit false

namespace Smalltalk

variable {r : Realm} {m n : Memory}

/-- Taking the elements of a list one by one asks for nothing but these. -/
theorem mapM_congr {α β : Type} {f g : α → Option β} {xs : List α} (h : ∀ x ∈ xs, f x = g x) :
    xs.mapM f = xs.mapM g := by
  induction xs with
  | nil => rfl
  | cons x xs ih =>
      rw [List.mapM_cons, List.mapM_cons, h x List.mem_cons_self,
        ih fun y hy => h y (List.mem_cons_of_mem _ hy)]

/-- What is made of a result does not matter where there is an error. -/
theorem map_error_iff {ε α β : Type} {e : Except ε α} {f : α → β} {x : ε} :
    e.map f = .error x ↔ e = .error x := by
  cases e with
  | ok a => exact ⟨nofun, nofun⟩
  | error y => simp only [Except.map, Except.error.injEq]

/-- Two memories are the same, but for what cells outside the realm have and for the lines of
the journal. -/
structure Memory.Coincides (r : Realm) (m n : Memory) : Prop where
  contains : ∀ c, n.heap.Contains c ↔ m.heap.Contains c
  agrees : ∀ c, r.Has m.heap c → m.heap.Agrees n.heap c
  texts : n.heap.texts = m.heap.texts
  registry : n.registry = m.registry
  globals : n.globals = m.globals
  recording : n.journal.recording = m.journal.recording

namespace Memory.Coincides

/-! ### Changes in both -/

theorem change (k : m.Coincides r n) {f : Heap → Heap} {cell : Cell} {new : Cell → Prop}
    (changes : Heap.Changes f cell new) (hcell : r.Has m.heap cell) :
    Coincides r { m with heap := f m.heap } { n with heap := f n.heap } where
  contains c := (changes.contains _ c).trans ((k.contains c).trans (changes.contains _ c).symm)
  agrees c hc := by
    by_cases hself : c = cell
    · subst hself
      exact changes.same _ _ (k.contains c) (k.agrees c hcell)
    · have hbefore : r.Has m.heap c := hc.imp_right (.imp_right (changes.contains _ c).mp)
      exact ((changes.agrees _ c hself).symm.trans (k.agrees c hbefore)).trans
        (changes.agrees _ c hself)
  texts := (changes.texts _).trans (k.texts.trans (changes.texts _).symm)
  registry := k.registry
  globals := k.globals
  recording := k.recording

/-- What is made in both has the same number. -/
theorem make {α : Type} (k : m.Coincides r n) {f : Heap → Heap × α} {cell : Heap → Cell}
    {new : Cell → Prop} (makes : Heap.Makes f cell new) :
    (f n.heap).2 = (f m.heap).2 ∧
      Coincides r { m with heap := (f m.heap).1 } { n with heap := (f n.heap).1 } := by
  obtain ⟨hcell, hid, hsame⟩ := makes.same m.heap n.heap k.contains
  refine ⟨hid, fun c => ?_, fun c hc => ?_, ?_, k.registry, k.globals, k.recording⟩
  · show (f n.heap).1.Contains c ↔ (f m.heap).1.Contains c
    rw [makes.contains, makes.contains, k.contains c, hcell]
  · by_cases hself : c = cell m.heap
    · exact hself ▸ hsame
    · have hbefore : r.Has m.heap c := hc.imp_right
        (.imp_right fun hmade => ((makes.contains _ c).mp hmade).resolve_right hself)
      exact ((makes.agrees _ c hself).symm.trans (k.agrees c hbefore)).trans
        (makes.agrees _ c (hcell ▸ hself))
  · exact (makes.texts _).trans (k.texts.trans (makes.texts _).symm)

theorem newText (k : m.Coincides r n) (s : String) :
    (n.newText s).2 = (m.newText s).2 ∧ (m.newText s).1.Coincides r (n.newText s).1 where
  left := congrArg (fun i => Value.text s (.made i)) k.texts
  right :=
    { contains := fun c => (Heap.contains_texts _ c).trans
        ((k.contains c).trans (Heap.contains_texts _ c).symm)
      agrees := fun c hc => by
        have hbefore : r.Has m.heap c :=
          hc.imp_right (.imp_right (Heap.contains_texts _ c).mp)
        exact ((Heap.agrees_texts _ c).symm.trans (k.agrees c hbefore)).trans
          (Heap.agrees_texts _ c)
      texts := congrArg (· + 1) k.texts
      registry := k.registry
      globals := k.globals
      recording := k.recording }

theorem bind (k : m.Coincides r n) (key : Key) (name : Json) (v : Value) :
    Coincides r { m with globals := m.globals.put key name v }
      { n with globals := n.globals.put key name v } :=
  { k with globals := congrArg (fun globals => globals.put key name v) k.globals }

/-- The lines of the journal do not matter. -/
theorem note (k : m.Coincides r n) (line line' : String) :
    (m.note line).Coincides r (n.note line') := by
  unfold Memory.note
  rw [k.recording]
  split
  · exact { k with recording := k.recording }
  · exact k

/-! ### What is the same in both -/

theorem array (k : m.Coincides r n) {a : ArrayId} (ha : r.Has m.heap (.array a)) :
    n.heap.array a = m.heap.array a :=
  k.agrees _ ha

theorem object (k : m.Coincides r n) {o : ObjectId} (ho : r.Has m.heap (.object o)) :
    n.heap.object o = m.heap.object o :=
  k.agrees _ ho

theorem closure (k : m.Coincides r n) {c : ClosureId} (hc : r.Has m.heap (.closure c)) :
    n.heap.closure c = m.heap.closure c :=
  k.agrees _ hc

theorem frame (k : m.Coincides r n) {f : FrameId} (hf : r.Has m.heap (.frame f)) :
    n.heap.frame f = m.heap.frame f :=
  k.agrees _ hf

theorem owner? (k : m.Coincides r n) (w : m.Confined r) {f : FrameId}
    (hf : r.Has m.heap (.frame f)) (key : Key) : n.heap.owner? f key = m.heap.owner? f key :=
  Heap.owner?_congr (fun _ hg => k.frame (w.chain hf hg)) key

theorem lookup? (k : m.Coincides r n) (w : m.Confined r) {f : FrameId}
    (hf : r.Has m.heap (.frame f)) (key : Key) : n.heap.lookup? f key = m.heap.lookup? f key :=
  Heap.lookup?_congr (fun _ hg => k.frame (w.chain hf hg)) key

theorem home (k : m.Coincides r n) {f : FrameId} (hf : r.Has m.heap (.frame f)) :
    n.heap.home f = m.heap.home f := by
  unfold Heap.home
  rw [k.frame hf]

theorem classOf? (k : m.Coincides r n) {v : Value} (hv : r.Admits m.heap v) :
    n.classOf? v = m.classOf? v := by
  unfold Memory.classOf?
  rw [k.registry]
  cases v with
  | object o =>
      simp only
      rw [k.object (hv _ rfl)]
  | _ => rfl

/-- A value of the realm is shown by what is in the realm. -/
theorem inspectWith (k : m.Coincides r n) {v : Value} (hv : r.Admits m.heap v)
    {array array' : ArrayId → String} (harray : ∀ a, v = .array a → array' a = array a) :
    n.inspectWith array' v = m.inspectWith array v := by
  cases v with
  | array a => exact harray a rfl
  | object o =>
      simp only [Memory.inspectWith]
      rw [k.object (hv _ rfl), k.registry]
  | closure c =>
      simp only [Memory.inspectWith]
      rw [k.closure (hv _ rfl)]
  | behavior b =>
      simp only [Memory.inspectWith]
      rw [k.registry]
  | _ => rfl

theorem inspectIn (k : m.Coincides r n) (w : m.Confined r) (fuel : Nat) (opened : List ArrayId)
    {v : Value} (hv : r.Admits m.heap v) :
    n.inspectIn fuel opened v = m.inspectIn fuel opened v := by
  induction fuel generalizing opened v with
  | zero => exact k.inspectWith hv fun _ _ => rfl
  | succ fuel ih =>
      refine k.inspectWith hv ?_
      rintro a rfl
      have helements : (m.heap.array a).toList.map (n.inspectIn fuel (a :: opened))
          = (m.heap.array a).toList.map (m.inspectIn fuel (a :: opened)) :=
        List.map_congr_left fun x hx => ih _ (w.ofArray (hv _ rfl) (Array.mem_toList_iff.mp hx))
      simp only [k.array (hv _ rfl), helements]

theorem inspect (k : m.Coincides r n) (w : m.Confined r) {v : Value} (hv : r.Admits m.heap v) :
    n.inspect v = m.inspect v := by
  have hsize : n.heap.arrays.size = m.heap.arrays.size :=
    Heap.size_eq fun a => k.contains (.array a)
  unfold Memory.inspect
  rw [hsize, k.inspectIn w _ _ hv]

theorem printWith (k : m.Coincides r n) {v : Value} (hv : r.Admits m.heap v)
    {array array' : ArrayId → Option String} (harray : ∀ a, v = .array a → array' a = array a) :
    n.printWith array' v = m.printWith array v := by
  have hinspect : n.inspectWith (fun _ => "") v = m.inspectWith (fun _ => "") v :=
    k.inspectWith hv fun _ _ => rfl
  cases v with
  | array a => exact harray a rfl
  | nil => rfl
  | bool b => rfl
  | text s origin => rfl
  | _ => exact congrArg some hinspect

theorem printIn (k : m.Coincides r n) (w : m.Confined r) (fuel : Nat) (opened : List ArrayId)
    {v : Value} (hv : r.Admits m.heap v) : n.printIn fuel opened v = m.printIn fuel opened v := by
  induction fuel generalizing opened v with
  | zero => exact k.printWith hv fun _ _ => rfl
  | succ fuel ih =>
      refine k.printWith hv ?_
      rintro a rfl
      have helements : (m.heap.array a).toList.mapM (n.printIn fuel (a :: opened))
          = (m.heap.array a).toList.mapM (m.printIn fuel (a :: opened)) :=
        mapM_congr fun x hx => ih _ (w.ofArray (hv _ rfl) (Array.mem_toList_iff.mp hx))
      simp only [k.array (hv _ rfl), helements]

theorem print? (k : m.Coincides r n) (w : m.Confined r) {v : Value} (hv : r.Admits m.heap v) :
    n.print? v = m.print? v := by
  have hsize : n.heap.arrays.size = m.heap.arrays.size :=
    Heap.size_eq fun a => k.contains (.array a)
  unfold Memory.print?
  rw [hsize, k.printIn w _ _ hv]

theorem printOrigin (k : m.Coincides r n) (v : Value) : n.printOrigin v = m.printOrigin v := by
  unfold Memory.printOrigin
  rw [k.registry, k.texts]

theorem methodWord (k : m.Coincides r n) (method : Method) :
    n.methodWord method = m.methodWord method :=
  Memory.methodWord_congr k.registry method

/-- The word for a frame fails alike; what it says of the variables does not matter. -/
theorem frameWord (k : m.Coincides r n) {f : FrameId} (hf : r.Has m.heap (.frame f))
    (e : Fault) : n.frameWord f = .error e ↔ m.frameWord f = .error e := by
  unfold Memory.frameWord
  rw [k.frame hf]
  exact map_error_iff.trans map_error_iff.symm

theorem failureLine (k : m.Coincides r n) (method : Method) (reason : Reason) :
    Eval.failureLine method reason n = Eval.failureLine method reason m := by
  unfold Eval.failureLine
  rw [k.methodWord]

theorem argumentsOf (k : m.Coincides r n) {f : FrameId} (hf : r.Has m.heap (.frame f))
    (method : Method) : Eval.argumentsOf n f method = Eval.argumentsOf m f method := by
  unfold Eval.argumentsOf
  rw [k.frame hf]

/-! ### Primitives -/

variable {receiver : Value}

theorem elementAt (k : m.Coincides r n) (hreceiver : r.Admits m.heap receiver) (index : Value) :
    Primitive.elementAt n receiver index = Primitive.elementAt m receiver index := by
  cases receiver with
  | array a =>
      simp only [Primitive.elementAt]
      rw [k.array (hreceiver _ rfl)]
  | object o =>
      simp only [Primitive.elementAt]
      rw [k.object (hreceiver _ rfl)]
  | _ => rfl

theorem putElement (k : m.Coincides r n) (hreceiver : r.Admits m.heap receiver)
    (index v : Value) :
    Primitive.putElement n receiver index v = Primitive.putElement m receiver index v := by
  cases receiver with
  | array a =>
      simp only [Primitive.putElement]
      rw [k.array (hreceiver _ rfl)]
  | object o =>
      simp only [Primitive.putElement]
      rw [k.object (hreceiver _ rfl)]
  | _ => rfl

theorem elementCount (k : m.Coincides r n) (hreceiver : r.Admits m.heap receiver) :
    Primitive.elementCount n receiver = Primitive.elementCount m receiver := by
  cases receiver with
  | array a =>
      simp only [Primitive.elementCount]
      rw [k.array (hreceiver _ rfl)]
  | object o =>
      simp only [Primitive.elementCount]
      rw [k.object (hreceiver _ rfl)]
  | _ => rfl

theorem instantiable (k : m.Coincides r n) (v : Value) :
    Primitive.instantiable n v = Primitive.instantiable m v := by
  unfold Primitive.instantiable
  rw [k.registry]

/-- A primitive looks at what its receiver and its arguments refer to, and at the classes. -/
theorem choose (k : m.Coincides r n) (w : m.Confined r) (hreceiver : r.Admits m.heap receiver)
    {arg : Nat → Value} (harg : ∀ i, r.Admits m.heap (arg i)) (p : Primitive) :
    p.choose n receiver arg = p.choose m receiver arg := by
  cases p with
  | fetch => exact k.elementAt hreceiver (arg 0)
  | store => exact k.putElement hreceiver (arg 0) (arg 1)
  | count => exact congrArg (Except.map _) (k.elementCount hreceiver)
  | new =>
      simp only [Primitive.choose, Primitive.makeNew]
      rw [k.instantiable, k.registry]
  | newSized =>
      simp only [Primitive.choose, Primitive.makeSized]
      rw [k.instantiable, k.registry]
  | fetchSlot =>
      cases receiver with
      | object o =>
          have hobject := k.object (hreceiver _ rfl)
          simp only [Primitive.choose, Primitive.objectValue, Except.bind, Bind.bind, hobject]
      | _ => rfl
  | storeSlot =>
      cases receiver with
      | object o =>
          have hobject := k.object (hreceiver _ rfl)
          simp only [Primitive.choose, Primitive.objectValue, Except.bind, Bind.bind, hobject]
      | _ => rfl
  | classOf =>
      simp only [Primitive.choose]
      rw [k.classOf? hreceiver, k.inspect w hreceiver]
  | callWithArray =>
      have hzero := harg 0
      simp only [Primitive.choose]
      cases harray : arg 0 with
      | array a =>
          rw [harray] at hzero
          simp only [k.array (hzero _ rfl)]
      | _ => rfl
  | arity =>
      cases receiver with
      | closure c =>
          have hclosure := k.closure (hreceiver _ rfl)
          simp only [Primitive.choose, Primitive.closureValue, Except.map, hclosure]
      | _ => rfl
  -- all others look at nothing but the values themselves
  | _ => rfl

theorem attempt (k : m.Coincides r n) (w : m.Confined r) (hreceiver : r.Admits m.heap receiver)
    {args : List Value} (hargs : ∀ v ∈ args, r.Admits m.heap v) (p : Primitive) :
    p.attempt n receiver args = p.attempt m receiver args := by
  unfold Primitive.attempt
  rw [k.choose w hreceiver (Realm.admits_argument hargs) p]

theorem decide (k : m.Coincides r n) (w : m.Confined r) (settings : Settings)
    (hreceiver : r.Admits m.heap receiver) {args : List Value}
    (hargs : ∀ v ∈ args, r.Admits m.heap v) (number : Json) :
    Eval.decide settings n receiver args number = Eval.decide settings m receiver args number := by
  unfold Eval.decide
  simp only [k.attempt w hreceiver hargs]

end Memory.Coincides

end Smalltalk
