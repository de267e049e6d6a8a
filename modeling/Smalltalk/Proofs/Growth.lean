import Smalltalk.Proofs.Hierarchy

/-!
# `Smalltalk.Proofs.Growth`: what no class ever loses

Classes are defined and methods are installed, and a name may come to stand for
another class. A class itself stays what it was defined as:

* `Registry.Grows r r'`: every class of `r` has the same ancestors, instance
  variables and sort of instances in `r'`, and what was registered still is.
* `Registry.Ordered.layout_prefix`: the instance variables of a class come first in
  those of its subclasses, so a slot has one index all the way down
  (`Registry.Ordered.slotIndex?_eq`).
* `Registry.Above` is what look-up goes through. Above a class there are the classes it
  inherits from; above a metaclass come the metaclasses, and then what is registered as
  `Class`.
* `Memory.Continues m m'` adds the heap and the globals: this is what holds between
  any two moments of a system (`Memory.LeadsTo.continues`), whatever has been run
  and defined in between, and while a query is evaluated (`InProgress.continues`).
-/

set_option autoImplicit false

namespace Smalltalk

open Relation (ReflTransGen)

namespace Registry

/-! ### Layouts -/

variable {r r' r'' : Registry}

/-- The layout of a class is that of the class it inherits from, and then what it declares
itself. -/
theorem layout_of_inherits {id s : ClassId} (h : (r.entry id).ancestors = r.lineage s) :
    r.layout ⟨id, false⟩ = r.layout ⟨s, false⟩ ++ (r.entry id).instanceVariables := by
  simp [layout, lineage, h]

/-- Every class of a line is as old as the first one. -/
theorem Ordered.le_of_mem_lineage (o : r.Ordered) {id i : ClassId} (h : i ∈ r.lineage id) :
    i ≤ id := by
  rcases List.mem_cons.mp h with rfl | h
  · exact Nat.le_refl _
  · exact Nat.le_of_lt (List.rel_of_pairwise_cons (o.lineage_pairwise id) h)

/-- A class or metaclass and those it inherits from. -/
abbrev Inherits (r : Registry) : Behavior → Behavior → Prop :=
  ReflTransGen fun b s => r.ownSuperclass? b = some s

/-- The instance variables of an ancestor come first. -/
theorem Ordered.layout_prefix (o : r.Ordered) {b s : Behavior} (h : r.Inherits b s) :
    r.layout s <+: r.layout b := by
  have hstep : ∀ b s, r.ownSuperclass? b = some s → r.layout s <+: r.layout b := by
    intro b s hs
    obtain ⟨id, side⟩ := b
    obtain ⟨p, hp, rfl⟩ := Option.map_eq_some_iff.mp hs
    cases side with
    | true =>
        -- metaclasses declare nothing
        exact List.prefix_refl _
    | false =>
        rcases o.inherits id with hroot | ⟨s, -, hline⟩
        · simp only [hroot] at hp
          cases hp
        · simp only [hline] at hp
          cases hp
          rw [layout_of_inherits hline]
          exact List.prefix_append _ _
  induction h with
  | refl => exact List.prefix_refl _
  | tail _ hlast ih => exact (hstep _ _ hlast).trans ih

/-- What a list has first it has at the same place in all that go on from it. -/
theorem findIdx?_of_prefix {α : Type} {p : α → Bool} {xs ys : List α} {i : Nat}
    (h : xs <+: ys) (hi : xs.findIdx? p = some i) : ys.findIdx? p = some i := by
  obtain ⟨rest, rfl⟩ := h
  rw [List.findIdx?_append, hi]
  rfl

/-- An instance variable that a class declares or inherits has the same place in all that
inherit from the class. -/
theorem Ordered.slotIndex?_eq (o : r.Ordered) {b s : Behavior} (h : r.Inherits b s) {name : Json}
    (hname : ∃ declared ∈ r.layout s, declared.same name = true) :
    ∃ i, r.slotIndex? s name = some i ∧ r.slotIndex? b name = some i := by
  obtain ⟨declared, hmem, hsame⟩ := hname
  have hsome : (r.slotIndex? s name).isSome := by
    unfold slotIndex?
    rw [List.findIdx?_isSome, List.any_eq_true]
    exact ⟨declared, hmem, hsame⟩
  obtain ⟨i, hi⟩ := Option.isSome_iff_exists.mp hsome
  exact ⟨i, hi, findIdx?_of_prefix (o.layout_prefix h) hi⟩

/-! ### Look-up -/

/-- A class or metaclass and what look-up goes on to from there. -/
abbrev Above (r : Registry) : Behavior → Behavior → Prop :=
  ReflTransGen fun b s => r.superclass? b = some s

/-- Look-up goes on to an older class of the same side, or from a metaclass to a class. -/
theorem Ordered.of_superclass? (o : r.Ordered) {b s : Behavior} (h : r.superclass? b = some s) :
    (s.isMeta = b.isMeta ∧ s.id < b.id) ∨
      (b.isMeta = true ∧ ∃ id, r.find? "Class" = some id ∧ s = ⟨id, false⟩) := by
  obtain ⟨id, side⟩ := b
  unfold superclass? at h
  rcases o.inherits id with hroot | ⟨p, hp, hline⟩
  · simp only [hroot] at h
    split at h
    · rename_i hside
      obtain ⟨c, hc, rfl⟩ := Option.map_eq_some_iff.mp h
      exact .inr ⟨hside, c, hc, rfl⟩
    · cases h
  · simp only [hline, lineage] at h
    cases h
    exact .inl ⟨rfl, hp⟩

/-- Every entry of a line is above its first. The recursion follows the line: first the
metaclasses, then the classes, each older than the one before. -/
theorem Ordered.above_of_mem_line (o : r.Ordered) {b s : Behavior} (h : s ∈ r.line b) :
    r.Above b s := by
  rw [o.line_eq b] at h
  rcases List.mem_cons.mp h with rfl | h
  · exact .refl
  · cases hnext : r.superclass? b with
    | none =>
        rw [hnext] at h
        exact absurd h List.not_mem_nil
    | some c =>
        rw [hnext] at h
        have hdecreases := o.of_superclass? hnext
        exact .head hnext (o.above_of_mem_line h)
termination_by (b.isMeta.toNat, b.id)
decreasing_by
  rcases hdecreases with ⟨hside, hlt⟩ | ⟨hside, id, -, rfl⟩
  · rw [hside]
    exact .right _ hlt
  · rw [hside]
    exact .left _ _ Nat.one_pos

/-- Above a class are just those that it inherits from. -/
theorem inherits_of_above {id : ClassId} {s : Behavior} (h : r.Above ⟨id, false⟩ s) :
    r.Inherits ⟨id, false⟩ s := by
  have hside : s.isMeta = false ∧ r.Inherits ⟨id, false⟩ s := by
    induction h with
    | refl => exact ⟨rfl, .refl⟩
    | @tail b c _ hnext ih =>
        obtain ⟨hside, hinherits⟩ := ih
        rw [superclass?_eq] at hnext
        cases hown : r.ownSuperclass? b with
        | some s =>
            rw [hown] at hnext
            cases hnext
            obtain ⟨p, -, rfl⟩ := Option.map_eq_some_iff.mp hown
            exact ⟨hside, hinherits.tail hown⟩
        | none =>
            rw [hown] at hnext
            simp only [hside] at hnext
            cases hnext
  exact hside.2

/-! ### Growth -/

/-- The classes at two moments: each is still what it was defined as, and each name still
stands for a class. -/
structure Grows (r r' : Registry) : Prop where
  size : r.classes.size ≤ r'.classes.size
  ancestors : ∀ id < r.classes.size, (r'.entry id).ancestors = (r.entry id).ancestors
  declared : ∀ id < r.classes.size,
    (r'.entry id).instanceVariables = (r.entry id).instanceVariables
  indexable : ∀ id < r.classes.size, (r'.entry id).indexable = (r.entry id).indexable
  names : ∀ name, (r.find? name).isSome → (r'.find? name).isSome

namespace Grows

theorem refl (r : Registry) : r.Grows r :=
  ⟨Nat.le_refl _, fun _ _ => rfl, fun _ _ => rfl, fun _ _ => rfl, fun _ => id⟩

theorem trans (h : r.Grows r') (h' : r'.Grows r'') : r.Grows r'' where
  size := Nat.le_trans h.size h'.size
  ancestors id hid := (h'.ancestors id (Nat.lt_of_lt_of_le hid h.size)).trans (h.ancestors id hid)
  declared id hid := (h'.declared id (Nat.lt_of_lt_of_le hid h.size)).trans (h.declared id hid)
  indexable id hid :=
    (h'.indexable id (Nat.lt_of_lt_of_le hid h.size)).trans (h.indexable id hid)
  names name hname := h'.names name (h.names name hname)

/-- Methods are nothing that a class is defined with. -/
theorem updateTable (r : Registry) (b : Behavior) (change : MethodTable → MethodTable) :
    r.Grows (r.updateTable b change) where
  size := Nat.le_of_eq (r.size_updateTable b change).symm
  ancestors id _ := r.ancestors_updateTable b change id
  declared id _ := r.instanceVariables_updateTable b change id
  indexable id _ := r.indexable_updateTable b change id
  names _ := id

/-- A new class leaves the others alone, even if it takes the name of one. -/
theorem define (r : Registry) (name : String) (parent : Option ClassId) (declared : List Json)
    (indexable : Json) : r.Grows (r.define name parent declared indexable).1 where
  size := Nat.le_of_lt (Nat.lt_of_lt_of_eq (Nat.lt_succ_self _) (r.size_define ..).symm)
  ancestors _ hid := congrArg ClassEntry.ancestors (entry_define_of_lt _ _ _ _ hid)
  declared _ hid := congrArg ClassEntry.instanceVariables (entry_define_of_lt _ _ _ _ hid)
  indexable _ hid := congrArg ClassEntry.indexable (entry_define_of_lt _ _ _ _ hid)
  names _ hother := isSome_find?_define _ _ _ _ hother

/-- What is in the line of a class stays there, and nothing is added to the line of a class
that is there already. -/
theorem lineage (h : r.Grows r') {id : ClassId} (hid : id < r.classes.size) :
    r'.lineage id = r.lineage id := by
  unfold Registry.lineage
  rw [h.ancestors id hid]

theorem layout (h : r.Grows r') (o : r.Ordered) {id : ClassId} (hid : id < r.classes.size)
    (side : Bool) : r'.layout ⟨id, side⟩ = r.layout ⟨id, side⟩ := by
  unfold Registry.layout
  split
  · rfl
  · show (r'.lineage id).reverse.flatMap _ = (r.lineage id).reverse.flatMap _
    rw [h.lineage hid]
    -- all classes of the line are there already, so each declares what it did
    rw [List.flatMap_def, List.flatMap_def]
    refine congrArg List.flatten (List.map_congr_left fun i hi => h.declared i ?_)
    exact Nat.lt_of_le_of_lt (o.le_of_mem_lineage (List.mem_reverse.mp hi)) hid

/-- What is above a class that is there stays above it, as long as the same class is registered
as `Class`. -/
theorem above (h : r.Grows r') (o : r.Ordered) (hclass : r'.find? "Class" = r.find? "Class")
    {b s : Behavior} (hb : b.id < r.classes.size) (hs : r.Above b s) : r'.Above b s := by
  have hthere : s.id < r.classes.size ∧ r'.Above b s := by
    induction hs with
    | refl => exact ⟨hb, .refl⟩
    | @tail s next _ hnext ih =>
        obtain ⟨hlt, habove⟩ := ih
        -- what comes next depends on the ancestors and on what is registered as Class
        have hnext' : r'.superclass? s = some next := by
          rw [← hnext]
          unfold superclass?
          rw [h.ancestors s.id hlt, hclass]
        refine ⟨?_, habove.tail hnext'⟩
        rcases o.of_superclass? hnext with ⟨-, hlt'⟩ | ⟨-, id, hfind, rfl⟩
        · exact Nat.lt_trans hlt' hlt
        · exact o.registered _ id hfind
  exact hthere.2

/-- A class never has fewer instance variables than before. One that is not there has none. -/
theorem length_layout_le (h : r.Grows r') (o : r.Ordered) (b : Behavior) :
    (r.layout b).length ≤ (r'.layout b).length := by
  rcases Nat.lt_or_ge b.id r.classes.size with hlt | hge
  · exact Nat.le_of_eq (congrArg List.length (h.layout o hlt b.isMeta)).symm
  · have hentry : r.entry b.id = default := by
      unfold entry
      rw [Array.getD_eq_getD_getElem?, Array.getElem?_eq_none hge]
      rfl
    have hempty : (default : ClassEntry).ancestors = [] ∧
        (default : ClassEntry).instanceVariables = [] := ⟨rfl, rfl⟩
    have hnone : r.layout b = [] := by
      simp [Registry.layout, Registry.lineage, hentry, hempty]
    rw [hnone]
    exact Nat.zero_le _

theorem isIndexable (h : r.Grows r') {id : ClassId} (hid : id < r.classes.size) (side : Bool) :
    r'.isIndexable ⟨id, side⟩ = r.isIndexable ⟨id, side⟩ := by
  unfold Registry.isIndexable
  rw [h.indexable id hid]

end Grows

end Registry

/-! ### Systems -/

namespace Memory

open Registry

variable {m m' m'' : Memory}

theorem Edit.grows (h : m.Edit m') : m.registry.Grows m'.registry := by
  cases h with
  | define name parent declared indexable _ => exact .define _ name parent declared indexable
  | protocol owner key name =>
      exact .updateTable m.registry owner fun t => t.addProtocol key name
  | install method protocol key =>
      exact .updateTable m.registry method.owner fun t => t.install protocol key method
  | note line => exact registry_note m line ▸ .refl _
  | _ => exact .refl _

/-- One system at two moments: everything in the heap has kept its structure, the classes
have only grown, and no global has become unbound. -/
structure Continues (m m' : Memory) : Prop where
  heap : m.heap.Later m'.heap
  registry : m.registry.Grows m'.registry
  globals : ∀ key, m.globals.contains key = true → m'.globals.contains key = true

theorem Continues.refl (m : Memory) : m.Continues m := ⟨.refl _, .refl _, fun _ => id⟩

theorem Continues.trans (h : m.Continues m') (h' : m'.Continues m'') : m.Continues m'' where
  heap := h.heap.trans h'.heap
  registry := h.registry.trans h'.registry
  globals key hkey := h'.globals key (h.globals key hkey)

theorem Later.continues (l : m.Later m') : m.Continues m' :=
  ⟨l.heap, l.registry ▸ .refl _, l.globals⟩

/-- A global that is bound stays bound when another one is. -/
theorem contains_put (d : Dictionary Value) (key other : Key) (name : Json) (v : Value)
    (h : d.contains other = true) : (d.put key name v).contains other = true := by
  rw [Dictionary.contains_put, h, Bool.or_true]

theorem Edit.continues (h : m.Edit m') : m.Continues m' := by
  have hheap : m.heap.Later m'.heap := h.heap ▸ .texts _ _
  refine ⟨hheap, h.grows, ?_⟩
  cases h with
  | define name parent declared indexable _ => exact fun other => contains_put _ _ other _ _
  | bind key name v => exact fun other => contains_put _ _ other _ _
  | note line =>
      intro key hkey
      rw [globals_note]
      exact hkey
  | _ => exact fun _ => id

theorem Move.continues (h : m.Move m') : m.Continues m' := by
  cases h with
  | revision r => exact r.edit.continues
  | effect e => exact e.later.continues
  | journal recording => exact ⟨.refl _, .refl _, fun _ => id⟩

/-- What holds between any two moments of a system. -/
theorem LeadsTo.continues (h : m.LeadsTo m') : m.Continues m' :=
  Moves.preserve (P := fun m' => m.Continues m') h.movements
    (fun _ _ e hm => hm.trans e.continues) (.refl m)

theorem Effects.continues (h : m.Effects m') : m.Continues m' := (Effects.later h).continues

end Memory

/-! ### Queries -/

open Eval in
/-- What a query does before its task are effects, and the frame of the task is there. -/
theorem Query.effects_of_call? {settings : Settings} {m : Memory} {q : Query} {c : Call}
    (hc : q.call? settings m = some c) : m.Effects c.memory ∧ c.task.Within c.memory := by
  have hprepare := prepare_of_call? hc
  cases q with
  | send receiver selector args =>
      obtain ⟨b, m₁, hclass, hrest⟩ := of_bind_ok hprepare
      obtain ⟨found, m₂, hfound, htask⟩ := of_bind_ok hrest
      have heffects := ((Does.classOf receiver).of_ok hclass).trans
        ((Does.methodFrom selector (some b)).of_ok hfound)
      cases found with
      | none =>
          -- there is no task
          obtain ⟨_, _, -, hrest⟩ := of_bind_ok htask
          obtain ⟨_, _, -, hfail⟩ := of_bind_ok hrest
          cases hfail
      | some method =>
          injection htask with htask hmemory
          rw [← htask, ← hmemory]
          exact ⟨heffects, trivial⟩
  | execute method receiver args =>
      injection hprepare with htask hmemory
      rw [← htask, ← hmemory]
      exact ⟨.refl, trivial⟩
  | executeNode node receiver args =>
      obtain ⟨method, htask, -, -⟩ := owner_of_executeNode hc
      rw [htask]
      refine ⟨?_, trivial⟩
      cases node with
      | method selector params temps statements primitive =>
          obtain ⟨owner, m₁, hclass, hpure⟩ := of_bind_ok hprepare
          obtain ⟨-, rfl⟩ := of_classOf hclass
          injection hpure with _ hmemory
          exact hmemory ▸ .refl
      | _ => cases hprepare
  | doit code receiver =>
      obtain ⟨f, m₁, henter, hpure⟩ := of_bind_ok hprepare
      obtain ⟨owner, m₂, hclass, hmake⟩ := of_bind_ok henter
      obtain ⟨-, rfl⟩ := of_classOf hclass
      cases hmake
      injection hpure with htask hmemory
      rw [← htask, ← hmemory]
      exact ⟨.single (.newHome _ rfl), Heap.lt_newFrame ..⟩

/-- The moments at which a call begins and ends while a query is evaluated. -/
theorem InProgress.continues {settings : Settings} {m : Memory} {q : Query} {c : Call}
    {outer : List Call} (h : InProgress settings m q (c :: outer)) :
    m.Continues c.memory ∧ m.Continues (left (c.outcome settings)) := by
  obtain ⟨c₀, hcall, hinvolves⟩ := h.involves c outer rfl
  obtain ⟨hbefore, hwithin⟩ := Query.effects_of_call? hcall
  obtain ⟨heffects, hwithin'⟩ := hinvolves.effects hwithin
  have hbegin := hbefore.trans heffects
  have hend := hbegin.trans (Eval.Does.run settings c.depth c.task c.memory hwithin')
  exact ⟨Memory.Effects.continues hbegin, Memory.Effects.continues hend⟩

end Smalltalk
