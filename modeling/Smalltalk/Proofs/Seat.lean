import Smalltalk.Proofs.Reached
import Smalltalk.Proofs.Scope

/-!
# `Smalltalk.Proofs.Seat`: instance variables are where the code expects them

Code names an instance variable by its index, and the index was made for the class that
owns the method. It is right for every receiver that the method runs on, because the owner
is above the class of the receiver (the seat of a method), and the instance variables of a
class come first in all its subclasses.

Both need a registry only, and hold in every one that a system can come to, with all
names redefined (`Registry.Ordered.layout_prefix`). For a run, however, the class of a
value that is no object is found by its name. So `Charter.seated` asks that the names of
the kernel stay with their classes, and with these the look-up behind the metaclasses.

A method that is found for a receiver has its seat there, and one that a send to super
finds has it above the owner of a method with that seat. A block has the receiver and the
method of the frame that it was made in.
-/

set_option autoImplicit false

namespace Smalltalk

/-! ### Code -/

/-- An index from zero of one of so many instance variables. -/
def Json.isBelow (size : Nat) : Json → Bool
  | .int i => decide (0 ≤ i ∧ i < size)
  | .bool b => decide (b.toNat < size)
  | _ => false

/-- Whether a tree, if it names an instance variable, names one of so many. -/
def Node.fits (size : Nat) : Node → Bool
  | .reference _ .instvar index | .assign _ .instvar index _ => index.isBelow size
  | _ => true

theorem Json.isBelow_mono {size size' : Nat} (h : size ≤ size') {index : Json}
    (hindex : index.isBelow size = true) : index.isBelow size' = true := by
  cases index with
  | int i =>
      simp only [isBelow, decide_eq_true_eq] at hindex ⊢
      omega
  | bool b =>
      simp only [isBelow, decide_eq_true_eq] at hindex ⊢
      omega
  | _ => cases hindex

theorem Node.fits_mono {size size' : Nat} (h : size ≤ size') {node : Node}
    (hnode : node.fits size = true) : node.fits size' = true := by
  cases node with
  | reference name kind index =>
      cases kind with
      | instvar => exact Json.isBelow_mono h hnode
      | _ => rfl
  | assign name kind index value =>
      cases kind with
      | instvar => exact Json.isBelow_mono h hnode
      | _ => rfl
  | _ => rfl

/-- An index below the number of slots is that of a slot. -/
theorem Json.slotNumber_of_isBelow {size : Nat} {index : Json}
    (h : index.isBelow size = true) : ∃ i, ∀ bad, Eval.slotNumber index size bad = .ok i := by
  cases index with
  | int i =>
      simp only [isBelow, decide_eq_true_eq] at h
      exact ⟨i.toNat, fun bad => if_pos h⟩
  | bool b =>
      simp only [isBelow, decide_eq_true_eq] at h
      cases b with
      | false => exact ⟨0, fun bad => if_pos ⟨by omega, by simpa using h⟩⟩
      | true => exact ⟨1, fun bad => if_pos ⟨by omega, Int.ofNat_lt.mpr h⟩⟩
  | _ => cases h

/-! ### The kernel -/

/-- The names of the kernel stand for the classes of the kernel. -/
def Registry.KeepsKernel (r : Registry) : Prop :=
  ∀ c ∈ Kernel.classes, r.find? c.name = Kernel.memory.registry.find? c.name

instance (r : Registry) : Decidable r.KeepsKernel :=
  inferInstanceAs (Decidable (∀ c ∈ Kernel.classes,
    r.find? c.name = Kernel.memory.registry.find? c.name))

/-- A metaclass, or one of the classes of the kernel: none of them declares anything. -/
def Kernel.Bare (b : Behavior) : Prop :=
  b.isMeta = true ∨ b.id < Kernel.memory.registry.classes.size

namespace Registry

variable {r : Registry}

theorem KeepsKernel.find? (k : r.KeepsKernel) {name : String}
    (hname : name ∈ Kernel.classes.map (·.name)) :
    r.find? name = Kernel.memory.registry.find? name := by
  obtain ⟨c, hc, rfl⟩ := List.mem_map.mp hname
  exact k c hc

/-- What has a name of the kernel is a class of the kernel. -/
theorem KeepsKernel.bare (k : r.KeepsKernel) {name : String}
    (hname : name ∈ Kernel.classes.map (·.name)) {id : ClassId} (h : r.find? name = some id) :
    Kernel.Bare ⟨id, false⟩ := by
  rw [k.find? hname] at h
  exact .inr ((Memory.Edits.ordered Kernel.memory_edits).registered name id h)

theorem Grows.layout_of_bare (grown : Kernel.memory.registry.Grows r) {b : Behavior}
    (h : Kernel.Bare b) : r.layout b = [] := by
  obtain ⟨id, side⟩ := b
  cases side with
  | true => rfl
  | false =>
      have hid : id < Kernel.memory.registry.classes.size := h.resolve_left Bool.false_ne_true
      rw [grown.layout (Memory.Edits.ordered Kernel.memory_edits) hid]
      have hall : ∀ id < Kernel.memory.registry.classes.size,
          (Kernel.memory.registry.layout ⟨id, false⟩).isEmpty = true := by decide +kernel
      exact List.isEmpty_iff.mp (hall id hid)

/-- Above a metaclass or a class of the kernel there are only such. -/
theorem KeepsKernel.bare_of_above (k : r.KeepsKernel) (o : r.Ordered) {b s : Behavior}
    (hb : Kernel.Bare b) (h : r.Above b s) : Kernel.Bare s := by
  induction h with
  | refl => exact hb
  | tail _ hnext ih =>
      rcases o.of_superclass? hnext with ⟨hside, hlt⟩ | ⟨-, id, hfind, rfl⟩
      · rcases ih with hmeta | hid
        · exact .inl (hside.trans hmeta)
        · exact .inr (Nat.lt_trans hlt hid)
      · exact k.bare (by decide) hfind

end Registry

namespace Memory

variable {m m' : Memory}

/-- The class of a value that is no object is bare. -/
theorem bare_of_classOf? (k : m.registry.KeepsKernel) {v : Value} {c : Behavior}
    (h : m.classOf? v = some c) : (∃ o, v = .object o) ∨ Kernel.Bare c := by
  have hnamed : ∀ name ∈ Kernel.classes.map (·.name),
      (m.registry.find? name).map (fun id => Behavior.mk id false) = some c → Kernel.Bare c := by
    intro name hname hfind
    obtain ⟨id, hid, rfl⟩ := Option.map_eq_some_iff.mp hfind
    exact k.bare hname hid
  cases v with
  | object o => exact .inl ⟨o, rfl⟩
  | behavior b =>
      refine .inr ?_
      simp only [classOf?] at h
      split at h
      · exact hnamed "Class" (by decide) h
      · cases h
        exact .inl rfl
  | foreign _ _ => cases h
  | bool b =>
      cases b with
      | false => exact .inr (hnamed "False" (by decide) h)
      | true => exact .inr (hnamed "True" (by decide) h)
  | _ => exact .inr (hnamed _ (by decide) ((classOf?_of_kernelClass? rfl).symm.trans h))

/-- A value keeps its class. -/
theorem Continues.classOf? (h : m.Continues m') (k : m.registry.KeepsKernel)
    (k' : m'.registry.KeepsKernel) {v : Value} (hv : m.Knows v) :
    m'.classOf? v = m.classOf? v := by
  have hnamed : ∀ name ∈ Kernel.classes.map (·.name),
      (m'.registry.find? name).map (fun id => Behavior.mk id false)
        = (m.registry.find? name).map fun id => Behavior.mk id false := by
    intro name hname
    rw [k.find? hname, k'.find? hname]
  cases v with
  | object o =>
      have hshape := congrArg Prod.fst (h.heap.object o hv)
      exact congrArg (fun cls => some (Behavior.mk cls false)) hshape
  | behavior b =>
      simp only [Memory.classOf?]
      rw [hnamed "Class" (by decide)]
  | foreign _ _ => rfl
  | bool b =>
      cases b with
      | false => exact hnamed "False" (by decide)
      | true => exact hnamed "True" (by decide)
  | _ => exact hnamed _ (by decide)

end Memory

/-! ### The charter -/

/-- A method runs on receivers of its owner and of what is below it, and uses only instance
variables that its owner has. -/
def Charter.seated : Charter where
  int _ := True
  code r method node := ∀ running, method = some running →
    ∀ n ∈ node.inner, n.fits (r.layout running.owner).length = true
  seat m v method := ∃ running c, method = some running ∧ m.classOf? v = some c ∧
    m.registry.Above c running.owner
  classes r := r.KeepsKernel
  strict := True

theorem Charter.seated_lawful : Charter.seated.Lawful where
  start _ _ := rfl
  small _ _ := trivial
  literal _ _ _ _ := trivial
  part _ _ _ h _ hpart running hmethod n hn :=
    h running hmethod n (Node.inner_of_mem_parts hpart hn)
  block _ _ _ _ _ h _ hs running hmethod n hn :=
    h running hmethod n (Node.inner_of_block hs hn)
  codeStays _ _ _ _ o h hcode running hmethod n hn :=
    Node.fits_mono (h.length_layout_le o running.owner) (hcode running hmethod n hn)
  seatStays := by
    rintro m m' v method a hv h classes ⟨running, c, rfl, hclass, habove⟩
    have hc := Memory.classOf?_lt a.ordered.registered (fun o ho => (a.object o ho).cls) hv hclass
    refine ⟨running, c, rfl, (h.classOf? a.classes classes hv).trans hclass, ?_⟩
    have hsame : m'.registry.find? "Class" = m.registry.find? "Class" :=
      (classes.find? (by decide)).trans (a.classes.find? (by decide)).symm
    exact h.registry.above a.ordered hsame hc habove
  found m v b key method a hv hclass hfound :=
    ⟨method, b, rfl, hclass, a.ordered.above_of_mem_line (a.owned.of_lookup hfound).1⟩
  above := by
    rintro m v running b key method a hv ⟨_, c, ⟨⟩, hclass, habove⟩ hnext hfound
    have hbeyond := a.ordered.above_of_mem_line (a.owned.of_lookup hfound).1
    exact ⟨method, c, rfl, hclass, (habove.tail hnext).trans hbeyond⟩
  slot := by
    rintro - m v method index a hv ⟨running, c, rfl, hclass, habove⟩ huses
    have hindex : index.isBelow (m.registry.layout running.owner).length = true := by
      rcases huses with ⟨name, hcode⟩ | ⟨name, value, hcode⟩
      · exact hcode running rfl _ (Node.self_mem_inner _)
      · exact hcode running rfl _ (Node.self_mem_inner _)
    -- only objects have slots, and values of the other sorts have classes of the kernel
    rcases Memory.bare_of_classOf? a.classes hclass with ⟨o, rfl⟩ | hbare
    · cases hclass
      -- the slots of the object are those of its class, with those of the owner in front
      have hprefix := a.ordered.layout_prefix (Registry.inherits_of_above habove)
      have hslots := (a.object o hv.1).slots
      have hbelow := Json.isBelow_mono (hslots ▸ hprefix.length_le) hindex
      obtain ⟨i, hi⟩ := Json.slotNumber_of_isBelow hbelow
      exact ⟨o, i, rfl, hi⟩
    · -- no class above that of another value declares anything
      rw [a.grown.layout_of_bare (a.classes.bare_of_above a.ordered hbare habove)] at hindex
      cases index with
      | int i =>
          simp only [Json.isBelow, List.length_nil, decide_eq_true_eq] at hindex
          omega
      | _ => cases hindex

/-! ### The result -/

/-- The instance variables of a class come first in those of all classes below it, so whatever
a class declares or inherits has the same index there. -/
structure Registry.LaidOut (r : Registry) : Prop where
  first : ∀ b s, r.Inherits b s → r.layout s <+: r.layout b
  index : ∀ b s, r.Inherits b s → ∀ name,
    (∃ declared ∈ r.layout s, declared.same name = true) →
      ∃ i, r.slotIndex? s name = some i ∧ r.slotIndex? b name = some i

/-- Every frame runs a method whose owner is above the class of its receiver. -/
def Memory.Seated (m : Memory) : Prop :=
  ∀ f < m.heap.frames.size, ∃ method c, (m.heap.frame f).method = some method ∧
    m.classOf? (m.heap.frame f).receiver = some c ∧ m.registry.Above c method.owner

/-- No instance variable was missing. -/
structure Eval.InPlace (out : Outcome Value) : Prop where
  seated : (left out).Seated
  found : ∀ fault m, out = .error (.fault fault) m → fault.isSlotFault = false

variable {settings : Settings} {m : Memory}

theorem Memory.Abides.allSeated (a : m.Abides Charter.seated) : m.Seated :=
  fun f hf => a.seated f hf

theorem Eval.Upheld.inPlace {out : Outcome Value} {post : Value → Memory → Prop}
    (h : Upheld Charter.seated settings m post out) : InPlace out where
  seated := h.left.toAbides.allSeated
  found fault m' hout := by
    rw [hout] at h
    exact h.2.2 trivial

/-- In whatever classes a system can come to, a slot has one index all the way down. And
where the names of the kernel stay with its classes and all installed code keeps to the
instance variables of the owner, every frame at any moment runs a method from above the
class of its receiver, and no instance variable is ever missing: not in the query, nor in any
call that comes up on the way. -/
theorem slots_are_in_place :
    (∀ m, Kernel.memory.LeadsTo m → m.registry.LaidOut) ∧
    ∀ m, Charter.seated.Reached m → m.Seated ∧ ∀ settings q,
      m.registry.Everywhere
        (fun method => Node.fits (m.registry.layout method.owner).length) →
      Charter.seated.Asks m q →
        Eval.InPlace (q.perform settings m) ∧
        ∀ c outer, InProgress settings m q (c :: outer) →
          c.memory.Seated ∧ Eval.InPlace (c.outcome settings) := by
  constructor
  · intro m h
    have o := h.sound.2.2
    exact ⟨fun b s => o.layout_prefix, fun b s hs name => o.slotIndex?_eq hs⟩
  · intro m h
    have a := h.abides Charter.seated_lawful
    refine ⟨a.allSeated, fun settings q hinstalled hq => ?_⟩
    have g : m.Runs Charter.seated settings := by
      refine ⟨a, Charter.seated_lawful, ?_, fun _ _ => trivial⟩
      rintro b key method hfind s hs _ ⟨⟩
      exact hinstalled b key method hfind s hs
    constructor
    · rw [Query.perform_eq_performBy]
      exact (Query.upholds (Charter.Honours.run _ _ _) g hq).inPlace
    · intro c outer hc
      obtain ⟨g', hrequires⟩ := hc.upheld g hq
      exact ⟨g'.toAbides.allSeated, (Call.upheld g' hrequires).inPlace⟩

/-- A class of pairs, and one below it of triples. A triple answers its left part from a
block, by a send to super. -/
def tuples : Json :=
  let left := Node.method (.str "left") [] []
    [.answer (.reference (.str "left") .instvar (.int 0))] .null
  let copied := Node.method (.str "left") [] []
    [.assign (.str "third") .instvar (.int 2) (.literal (.int 7)),
      .assign (.str "left") .instvar (.int 0) (.reference (.str "third") .instvar (.int 2)),
      .send (.block [] [] [.answer (.send .super (.str "left") [])]) (.str "value") []] .null
  .arr [
    .obj [("name", .str "Pair"), ("superclass", .str "Object"),
      ("instanceVariables", .arr [.str "left", .str "right"]),
      ("methods", .obj [("left", left.toJson)])],
    .obj [("name", .str "Triple"), ("superclass", .str "Pair"),
      ("instanceVariables", .arr [.str "third"]),
      ("methods", .obj [("left", copied.toJson)])]]

/-- Workspace code that asks a new triple for its left part. -/
def leftOfTriple : Node :=
  .send (.send (.reference (.str "Triple") .global .null) (.str "new") []) (.str "left") []

/-- The answer is an integer. -/
def Eval.isInt (i : Int) : Outcome Value → Bool
  | .ok (.int j) _ => i == j
  | _ => false

theorem left_of_triple_in_place : ∃ m : Memory, m.registry.LaidOut ∧ m.Seated ∧
    Eval.InPlace ((Query.doit leftOfTriple .nil).perform {} m) ∧
    Eval.isInt 7 ((Query.doit leftOfTriple .nil).perform {} m) = true := by
  obtain ⟨hlaid, hruns⟩ := slots_are_in_place
  have hkernel : (Command.run Kernel.memory (.load tuples)).registry.KeepsKernel := by
    decide +kernel
  have hreached : Charter.seated.Reached (Command.run Kernel.memory (.load tuples)) :=
    .command .start hkernel
  obtain ⟨hseated, hquery⟩ := hruns _ hreached
  have hinstalled := Registry.everywhere_of_all
    (r := (Command.run Kernel.memory (.load tuples)).registry)
    (p := fun method => Node.fits
      ((Command.run Kernel.memory (.load tuples)).registry.layout method.owner).length)
    (by decide +kernel)
  have hcode : ∀ n ∈ leftOfTriple.inner, n.fits 0 = true := by decide
  have hasks : Charter.seated.Asks (Command.run Kernel.memory (.load tuples))
      (.doit leftOfTriple .nil) := by
    refine ⟨Charter.holds_nil, fun owner hclass => ⟨⟨_, owner, rfl, hclass, .refl⟩, ?_⟩⟩
    rintro _ ⟨⟩ n hn
    exact Node.fits_mono (Nat.zero_le _) (hcode n hn)
  have hanswer := (hquery {} (.doit leftOfTriple .nil) hinstalled hasks).1
  exact ⟨_, hlaid _ (.command .refl _), hseated, hanswer, by decide +kernel⟩

end Smalltalk
