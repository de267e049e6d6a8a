import Smalltalk.Proofs.Lexical

/-!
# `Smalltalk.Proofs.Hierarchy`: classes stay in order, whatever is defined

Names can be defined again, those of the kernel as well. The class that had the name
before stays what it is, with its subclasses and its methods, and a class may even have a
superclass of its own name. So nothing is said here about names being unique: the facts
are about all classes that there are, by number, and about what names stand for.

`Registry.Kept` is what one revision of the classes keeps, and so every move of a system.
`classes_stay_in_order` reads it for the reader: from any class the way up ends, and both
sides of it are alike (`Registry.Climbs`); a method is filed in its owner under its own
selector; and a name stands for a class of that name.
-/

set_option autoImplicit false

namespace Smalltalk

namespace Registry

/-! ### The way up -/

/-- The superclass that a class or metaclass was defined with. -/
def ownSuperclass? (r : Registry) (b : Behavior) : Option Behavior :=
  (r.entry b.id).ancestors.head?.map fun id => ⟨id, b.isMeta⟩

/-- Going from superclass to superclass meets these classes or metaclasses, and ends. -/
inductive Climbs (r : Registry) : Behavior → List Behavior → Prop where
  | root {b : Behavior} (none : r.ownSuperclass? b = none) : Climbs r b [b]
  | up {b s : Behavior} {rest : List Behavior} (superclass : r.ownSuperclass? b = some s)
      (above : Climbs r s rest) : Climbs r b (b :: rest)

/-- The metaclasses have the superclasses that their classes have. -/
theorem ownSuperclass?_metaclass (r : Registry) (id : ClassId) :
    r.ownSuperclass? ⟨id, true⟩ = (r.ownSuperclass? ⟨id, false⟩).map Behavior.metaclass := by
  unfold ownSuperclass?
  cases (r.entry id).ancestors <;> rfl

variable {r : Registry}

theorem superclass?_eq (r : Registry) (b : Behavior) :
    r.superclass? b = match r.ownSuperclass? b with
      | some s => some s
      | none => if b.isMeta then (r.find? "Class").map fun id => ⟨id, false⟩ else none := by
  unfold superclass? ownSuperclass?
  cases (r.entry b.id).ancestors <;> rfl

/-- The way up is the line of ancestors that a class holds. -/
theorem Ordered.climbs (o : r.Ordered) (id : ClassId) (side : Bool) :
    r.Climbs ⟨id, side⟩ ((r.lineage id).map fun i => ⟨i, side⟩) := by
  induction id using Nat.strongRecOn with
  | ind id ih =>
      unfold lineage
      rcases o.inherits id with hroot | ⟨s, hs, hline⟩
      · rw [hroot]
        refine .root ?_
        unfold ownSuperclass?
        rw [hroot]
        rfl
      · rw [hline]
        refine .up (s := ⟨s, side⟩) ?_ (ih s hs)
        unfold ownSuperclass?
        rw [hline]
        rfl

/-- Every class is younger than those above it. -/
theorem Ordered.lineage_pairwise (o : r.Ordered) (id : ClassId) :
    (r.lineage id).Pairwise (· > ·) := by
  induction id using Nat.strongRecOn with
  | ind id ih =>
      unfold lineage
      rcases o.inherits id with hroot | ⟨s, hs, hline⟩
      · rw [hroot]
        exact List.pairwise_singleton _ _
      · rw [hline]
        refine List.Pairwise.cons (fun i hi => ?_) (ih s hs)
        rcases List.mem_cons.mp hi with rfl | hi
        · exact hs
        · exact Nat.lt_trans (List.rel_of_pairwise_cons (ih s hs) hi) hs

/-! ### What is kept -/

/-- What every revision of the classes keeps. -/
structure Kept (r : Registry) : Prop where
  ordered : r.Ordered
  owned : r.Owned
  keyed : ∀ b key method, (r.table b).methods.find? key = some method →
    method.selector.key? = some key
  named : ∀ name id, r.find? name = some id → (r.entry id).name = name

theorem Kept.named_define (k : r.Kept) (name : String) (parent : Option ClassId)
    (declared : List Json) (indexable : Json) (other : String) (id : ClassId)
    (h : (r.define name parent declared indexable).1.find? other = some id) :
    ((r.define name parent declared indexable).1.entry id).name = other := by
  rw [find?_define] at h
  split at h
  · rename_i hname
    rw [entry_define, if_pos (Option.some.inj h).symm]
    exact hname.symm
  · rw [entry_define_of_lt _ _ _ _ (k.ordered.registered other id h)]
    exact k.named other id h

end Registry

namespace Memory

open Registry

variable {m m' : Memory} {P : Method → Prop}

/-- What has a name before an edit has it afterwards. -/
theorem Edit.knows (h : m.Edit m') {name : String} (hname : (m.registry.find? name).isSome) :
    (m'.registry.find? name).isSome := by
  cases h with
  | define other parent declared indexable _ =>
      exact isSome_find?_define other parent declared indexable hname
  | note line => exact registry_note m line ▸ hname
  | _ => exact hname

theorem Revision.kept (h : m.Revision P m') (k : m.registry.Kept) : m'.registry.Kept where
  ordered := h.edit.ordered k.ordered
  owned := h.edit.owned k.owned
  keyed b key method hfind := (h.installed b key method hfind).elim (k.keyed b key method) And.right
  named := by
    cases h.edit with
    | define name parent declared indexable _ => exact k.named_define name parent declared indexable
    | protocol owner key name =>
        exact fun other id h => (name_updateTable ..).trans (k.named other id h)
    | install method protocol key =>
        exact fun other id h => (name_updateTable ..).trans (k.named other id h)
    | note line => exact registry_note m line ▸ k.named
    | _ => exact k.named

/-- A move keeps the classes in order, and every name that is known. -/
theorem Move.kept (h : m.Move m') (k : m.registry.Kept) :
    m'.registry.Kept ∧
      ∀ name, (m.registry.find? name).isSome → (m'.registry.find? name).isSome := by
  cases h with
  | revision r => exact ⟨r.kept k, fun name => r.edit.knows⟩
  | effect e =>
      rw [e.later.registry]
      exact ⟨k, fun _ => id⟩
  | journal recording => exact ⟨k, fun _ => id⟩

theorem kept_empty : ({} : Memory).registry.Kept where
  ordered := ⟨fun _ _ h => (nomatch h), fun _ => .inl rfl⟩
  owned := by rintro ⟨id, _ | _⟩ key method hfind <;> cases hfind
  keyed := by rintro ⟨id, _ | _⟩ key method hfind <;> cases hfind
  named _ _ h := nomatch h

/-- Whatever a system comes to, the classes are in order and no kernel class has lost its name. -/
theorem LeadsTo.kept (h : Kernel.memory.LeadsTo m) : m.registry.Kept ∧
    ∀ c ∈ Kernel.classes, (m.registry.find? c.name).isSome := by
  have hkernel : Kernel.memory.registry.Kept :=
    Moves.preserve (P := fun m => m.registry.Kept) Kernel.memory_revisions
      (fun _ _ r k => r.kept k) kept_empty
  have hnames : ∀ c ∈ Kernel.classes, (Kernel.memory.registry.find? c.name).isSome := by
    decide +kernel
  refine Moves.preserve (P := fun m => m.registry.Kept ∧
    ∀ c ∈ Kernel.classes, (m.registry.find? c.name).isSome) h.movements ?_ ⟨hkernel, hnames⟩
  rintro m₁ m₂ hmove ⟨k, hnames⟩
  obtain ⟨k', hknows⟩ := hmove.kept k
  exact ⟨k', fun c hc => hknows _ (hnames c hc)⟩

end Memory

/-! ### The result -/

/-- How the classes of a registry hang together. -/
structure Registry.InOrder (r : Registry) : Prop where
  /-- From every class, registered or not, the way up ends. It meets classes only, each older
  than the one before. -/
  chain : ∀ id < r.classes.size, ∃ ids : List ClassId,
    r.Climbs ⟨id, false⟩ (ids.map fun i => ⟨i, false⟩) ∧ ids.Pairwise (· > ·) ∧
      ∀ i ∈ ids, i < r.classes.size
  /-- The superclass of a metaclass is the metaclass of the superclass, or there is none. -/
  metaclass : ∀ id, r.ownSuperclass? ⟨id, true⟩
    = (r.ownSuperclass? ⟨id, false⟩).map Behavior.metaclass
  /-- Look-up goes the same way, but from the metaclass of a root it goes on to what is
  registered as `Class`. -/
  lookUp : ∀ b, r.superclass? b = match r.ownSuperclass? b with
    | some s => some s
    | none => if b.isMeta then (r.find? "Class").map fun id => ⟨id, false⟩ else none
  /-- A method is found in its owner only, and under its own selector. -/
  filed : ∀ b key method, (r.table b).methods.find? key = some method →
    method.owner = b ∧ method.selector.key? = some key
  /-- A name stands for a class of that name. -/
  named : ∀ name id, r.find? name = some id → id < r.classes.size ∧ (r.entry id).name = name
  /-- The names of the kernel stand for classes. -/
  kernel : ∀ c ∈ Kernel.classes, (r.find? c.name).isSome

/-- Whatever is defined, compiled and loaded, also where it fails midway, the classes of a
system are in order. -/
theorem classes_stay_in_order {m : Memory} (h : Kernel.memory.LeadsTo m) :
    m.registry.InOrder := by
  obtain ⟨k, hkernel⟩ := h.kept
  exact {
    chain := fun id hid => by
      have hpairwise := k.ordered.lineage_pairwise id
      refine ⟨m.registry.lineage id, k.ordered.climbs id false, hpairwise, fun i hi => ?_⟩
      rcases List.mem_cons.mp hi with rfl | hi
      · exact hid
      · exact Nat.lt_trans (List.rel_of_pairwise_cons hpairwise hi) hid
    metaclass := m.registry.ownSuperclass?_metaclass
    lookUp := m.registry.superclass?_eq
    filed := fun b key method hfind => ⟨k.owned b key method hfind, k.keyed b key method hfind⟩
    named := fun name id hfind => ⟨k.ordered.registered name id hfind, k.named name id hfind⟩
    kernel := hkernel }

/-- An image that extends a class of the kernel and then fails. -/
def brokenImage : Json :=
  .arr [.obj [("name", .str "Array"),
    ("classMethods", .obj [("word", (Node.method (.str "word") [] []
      [.answer (.literal (.text "array" 0))] .null).toJson)])], .null]

/-- `Array` is defined again below itself, and an image that fails extends the new one. There
are two classes of the name, both in order, and the method stays in the one that has it now. -/
theorem in_order_of_redefined : ∃ m : Memory, m.registry.InOrder ∧
    m.registry.find? "Array" = some 15 ∧
    m.registry.ownSuperclass? ⟨15, true⟩ = some ⟨11, true⟩ ∧
    (m.registry.entry 11).name = "Array" ∧
    ((m.registry.table ⟨15, true⟩).methods.find? (.text "word")).isSome := by
  have h : Kernel.memory.LeadsTo (Command.run (Command.run Kernel.memory
      (.define (.str "Array") (.str "Array") .null .null)) (.load brokenImage)) :=
    .command (.command .refl _) _
  exact ⟨_, classes_stay_in_order h, by decide +kernel, by decide +kernel, by decide +kernel,
    by decide +kernel⟩

end Smalltalk
