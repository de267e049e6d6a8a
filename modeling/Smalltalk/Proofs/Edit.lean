import Smalltalk.Proofs.Moves

/-!
# `Smalltalk.Proofs.Edit`: what can happen to the classes

Whatever is defined, compiled or loaded comes down to a few edits of a memory:
a class is defined, a protocol made known, a method installed, a global bound,
a text counted, a line written (`Memory.Edit`). `Change.Makes act m` says that
all that `act` does to `m` is edits, also where it ends with a fault on the way.

A revision is an edit that says more of what it installs: only methods of some
sort, each under its own selector (`Memory.Revision`). A reform is a revision that
binds no global but the name of a new class (`Memory.Reform`), and that is all that
the changes of classes do. The lemmas are about reforms, and the rest follows.

`Kernel.memory_edits` says of the kernel that it is edited together from
nothing. So what every edit preserves holds in every system, and that is a proof
by cases: `Registry.Owned` is the first, that a method is found only in the class
that owns it.
-/

set_option autoImplicit false

namespace Smalltalk

open Relation (ReflTransGen)

/-- One edit of a memory. -/
inductive Memory.Edit (m : Memory) : Memory → Prop where
  | define (name : String) (parent : Option ClassId) (declared : List Json) (indexable : Json)
      (registered : ∀ id, parent = some id → ∃ s, m.registry.find? s = some id) :
    Edit m { m with
      registry := (m.registry.define name parent declared indexable).1
      globals := m.globals.put (.text name) (.str name)
        (.behavior ⟨m.registry.classes.size, false⟩) }
  | protocol (owner : Behavior) (key : Key) (name : Json) :
    Edit m { m with registry := m.registry.updateTable owner fun t => t.addProtocol key name }
  | install (method : Method) (protocol key : Key) :
    Edit m { m with
      registry := m.registry.updateTable method.owner fun t => t.install protocol key method }
  | bind (key : Key) (name : Json) (v : Value) :
    Edit m { m with globals := m.globals.put key name v }
  | texts (n : Nat) : Edit m { m with heap := { m.heap with texts := n } }
  | note (line : String) : Edit m (m.note line)

/-- Any number of edits. -/
abbrev Memory.Edits : Memory → Memory → Prop := ReflTransGen Memory.Edit

/-- An edit leaves the heap alone, but for the count of texts. -/
theorem Memory.Edit.heap {m m' : Memory} (h : m.Edit m') :
    m'.heap = { m.heap with texts := m'.heap.texts } := by
  cases h with
  | note line => rw [heap_note]
  | _ => rfl

/-! ### Revisions -/

/-- An edit that installs only methods of some sort, and each under its own selector. -/
structure Memory.Revision (P : Method → Prop) (m m' : Memory) : Prop where
  edit : m.Edit m'
  installed : ∀ b key method, (m'.registry.table b).methods.find? key = some method →
    (m.registry.table b).methods.find? key = some method ∨
      P method ∧ method.selector.key? = some key

/-- Any number of revisions. -/
abbrev Memory.Revisions (P : Method → Prop) : Memory → Memory → Prop :=
  ReflTransGen (Memory.Revision P)

namespace Memory

variable {P : Method → Prop} {m m' : Memory}

/-- An edit that leaves the classes alone. -/
theorem Edit.revision (e : m.Edit m') (same : m'.registry = m.registry) : m.Revision P m' :=
  ⟨e, fun _ _ _ h => .inl (same ▸ h)⟩

/-- A class that is defined has no methods yet. -/
theorem revision_define (name : String) (parent : Option ClassId) (declared : List Json)
    (indexable : Json)
    (registered : ∀ id, parent = some id → ∃ s, m.registry.find? s = some id) :
    m.Revision P { m with
      registry := (m.registry.define name parent declared indexable).1
      globals := m.globals.put (.text name) (.str name)
        (.behavior ⟨m.registry.classes.size, false⟩) } := by
  refine ⟨.define name parent declared indexable registered, fun b key method h => ?_⟩
  rw [Registry.table_define] at h
  split at h
  · cases h
  · exact .inl h

/-- A change of one table. -/
theorem revision_updateTable (owner : Behavior) {change : MethodTable → MethodTable}
    (e : m.Edit { m with registry := m.registry.updateTable owner change })
    (hchange : ∀ t key method, (change t).methods.find? key = some method →
      t.methods.find? key = some method ∨ P method ∧ method.selector.key? = some key) :
    m.Revision P { m with registry := m.registry.updateTable owner change } := by
  refine ⟨e, fun b key method h => ?_⟩
  rw [Registry.table_updateTable] at h
  split at h
  · rename_i hb
    rw [hb.1]
    exact hchange _ key method h
  · exact .inl h

theorem revision_protocol (owner : Behavior) (key : Key) (name : Json) :
    m.Revision P
      { m with registry := m.registry.updateTable owner fun t => t.addProtocol key name } := by
  refine revision_updateTable owner (.protocol owner key name) fun t key' method h => .inl ?_
  unfold MethodTable.addProtocol at h
  split at h <;> exact h

theorem revision_install {method : Method} (hmethod : P method) (protocol : Key) {key : Key}
    (hkey : method.selector.key? = some key) :
    m.Revision P { m with
      registry := m.registry.updateTable method.owner fun t => t.install protocol key method } := by
  refine revision_updateTable method.owner (.install method protocol key) fun t key' found h => ?_
  simp only [MethodTable.install, Dictionary.find?_put] at h
  split at h
  · rename_i heq
    obtain rfl := Option.some.inj h
    exact .inr ⟨hmethod, heq ▸ hkey⟩
  · exact .inl h

/-- One thing that a change of the classes does. It binds no global but the name of a class
that it defines. -/
inductive Reform (P : Method → Prop) (m : Memory) : Memory → Prop where
  | define (name : String) (parent : Option ClassId) (declared : List Json) (indexable : Json)
      (registered : ∀ id, parent = some id → ∃ s, m.registry.find? s = some id) :
    Reform P m { m with
      registry := (m.registry.define name parent declared indexable).1
      globals := m.globals.put (.text name) (.str name)
        (.behavior ⟨m.registry.classes.size, false⟩) }
  | protocol (owner : Behavior) (key : Key) (name : Json) :
    Reform P m { m with registry := m.registry.updateTable owner fun t => t.addProtocol key name }
  | install (method : Method) (hmethod : P method) (protocol key : Key)
      (hkey : method.selector.key? = some key) :
    Reform P m { m with
      registry := m.registry.updateTable method.owner fun t => t.install protocol key method }
  | texts (n : Nat) : Reform P m { m with heap := { m.heap with texts := n } }
  | note (line : String) : Reform P m (m.note line)

theorem Reform.revision (h : m.Reform P m') : m.Revision P m' := by
  cases h with
  | define name parent declared indexable registered =>
      exact revision_define name parent declared indexable registered
  | protocol owner key name => exact revision_protocol owner key name
  | install method hmethod protocol key hkey => exact revision_install hmethod protocol hkey
  | texts n => exact (Edit.texts n).revision rfl
  | note line => exact (Edit.note line).revision (registry_note m line)

end Memory

/-! ### Changes -/

namespace Registry

theorem find?_of_named {r : Registry} {name : Json} {id : ClassId} (h : r.named name = .ok id) :
    ∃ s, r.find? s = some id := by
  unfold named at h
  split at h
  · rename_i s
    split at h
    · rename_i id' hfind
      cases h
      exact ⟨s, hfind⟩
    · cases h
  · split at h <;> cases h

/-- A superclass that has been found is registered. -/
theorem find?_of_parent {r : Registry} {superclass : Json} {id : ClassId}
    (h : r.parent superclass = .ok (some id)) : ∃ s, r.find? s = some id := by
  unfold parent at h
  split at h
  · cases h
  · cases hnamed : r.named superclass with
    | ok id' =>
        rw [hnamed] at h
        cases h
        exact find?_of_named hnamed
    | error f =>
        rw [hnamed] at h
        cases h

end Registry

/-- A tree that, wherever it is placed, describes only methods of some sort. -/
def Node.Files (P : Method → Prop) (node : Node) : Prop :=
  ∀ owner next method, Method.ofNode? owner (node.withSites next).1 = some method → P method

/-- The trees that the methods of one side are read as, where they are trees. -/
def Image.sideTrees : Option Json → List Node
  | some (.obj fields) => fields.filterMap fun field => (Node.ofJson? field.2).toOption
  | _ => []

/-- The trees that the methods of a definition are read as. -/
def Image.definitionTrees : Json → List Node
  | .obj fields =>
    sideTrees (fields.lookup "methods") ++ sideTrees (fields.lookup "classMethods")
  | _ => []

/-- The trees that the methods of an image are read as. -/
def Image.trees : Json → List Node
  | .arr definitions => definitions.flatMap definitionTrees
  | _ => []

namespace Change

theorem of_ofExcept {α : Type} {e : Except Fault α} {m m' : Memory} {a : α}
    (h : Change.ofExcept e m = .ok a m') : e = .ok a ∧ m' = m := by
  cases e with
  | ok b =>
      cases h
      exact ⟨rfl, rfl⟩
  | error f => cases h

theorem key?_of_keyOf {name : Json} {key : Key} {m m' : Memory}
    (h : Change.ofExcept (Fault.keyOf name) m = .ok key m') : name.key? = some key :=
  Fault.keyOf_eq_ok.mp (of_ofExcept h).1

/-- All that a change does is reforms that install only methods of some sort. -/
abbrev Reforms {α : Type} (P : Method → Prop) (act : Change α) (m : Memory) : Prop :=
  Moves (Memory.Reform P) act m

namespace Reforms

variable {α : Type} {P : Method → Prop} {m : Memory}

theorem ofExcept (e : Except Fault α) : Reforms P (Change.ofExcept e) m := by
  cases e with
  | ok a => exact .pure a
  | error f => exact .throw f

theorem note (line : String) : Reforms P (Change.note line) m :=
  .single (.note line)

theorem place (node : Node) : Reforms P (Change.place node) m :=
  .single (.texts _)

theorem define (name superclass instanceVariables indexable : Json) :
    Reforms P (Change.define name superclass instanceVariables indexable) m := by
  unfold Change.define
  refine .get (.bind (ofExcept _) ?_)
  intro parent m₁ hparent _
  obtain ⟨hparent, rfl⟩ := of_ofExcept hparent
  refine .bind (ofExcept _) ?_
  intro declared m₂ hdeclared _
  obtain ⟨-, rfl⟩ := of_ofExcept hdeclared
  split
  · refine .single (.define _ parent declared _ ?_)
    rintro id rfl
    exact Registry.find?_of_parent hparent
  · exact .throw _

theorem install {method : Method} (hmethod : P method) (protocol : Json) :
    Reforms P (Change.install method protocol) m := by
  unfold Change.install
  refine .bind (ofExcept _) ?_
  intro protocolKey m₁ _ _
  refine .bind (.single (.protocol method.owner protocolKey protocol)) ?_
  intro _ m₂ _ _
  refine .bind (ofExcept _) ?_
  intro key m₃ hkey _
  exact .single (.install method hmethod protocolKey key (key?_of_keyOf hkey))

theorem compile (owner : Behavior) {node : Node}
    (hnode : ∀ method, Method.ofNode? owner node = some method → P method) (protocol : Json) :
    Reforms P (Change.compile owner node protocol) m := by
  unfold Change.compile
  split
  · rename_i method hmethod
    exact .bind (install (hnode method hmethod) _) fun _ _ _ _ => .pure _
  · exact .throw _

theorem loadMethods (className : String) (owner : Behavior) {fields : List (String × Json)}
    (hfields : ∀ node ∈ Image.sideTrees (some (.obj fields)), node.Files P) :
    Reforms P (Image.loadMethods className owner fields) m := by
  induction fields generalizing m with
  | nil => exact .pure ()
  | cons field rest ih =>
      obtain ⟨selector, json⟩ := field
      unfold Image.loadMethods
      simp only [Image.sideTrees, List.filterMap_cons] at hfields ih
      cases hread : Node.ofJson? json with
      | error e => exact .throw _
      | ok node =>
          simp only [hread, Except.toOption, List.forall_mem_cons] at hfields
          obtain ⟨hnode, hrest⟩ := hfields
          simp only
          split
          · exact .throw _
          · -- the tree is filed only under its own selector
            split
            · split
              · refine .bind (place node) fun placed m₁ hplaced _ => ?_
                cases hplaced
                exact .bind (compile owner (hnode owner _) _) fun _ _ _ _ => ih hrest
              · exact .throw _
            · exact .throw _

theorem loadSide (className : String) (owner : Behavior) {methods : Option Json}
    (hmethods : ∀ node ∈ Image.sideTrees methods, node.Files P) :
    Reforms P (Image.loadSide className owner methods) m := by
  unfold Image.loadSide
  split
  · exact .pure ()
  · exact loadMethods className owner hmethods
  · exact .throw _

theorem classFor (name : String) (fields : List (String × Json)) :
    Reforms P (Image.classFor name fields) m := by
  unfold Image.classFor
  refine .get ?_
  split
  · split
    · exact .throw _
    · exact .bind (note _) fun _ _ _ _ => .pure _
  · refine .bind (ofExcept _) ?_
    intro _ m₁ _ _
    refine .bind (define _ _ _ _) ?_
    intro id m₂ _ _
    exact .bind (note _) fun _ _ _ _ => .pure _

theorem loadDefinition {definition : Json}
    (hdefinition : ∀ node ∈ Image.definitionTrees definition, node.Files P) :
    Reforms P (Image.loadDefinition definition) m := by
  unfold Image.loadDefinition
  split
  · obtain ⟨hmethods, hclassMethods⟩ := List.forall_mem_append.mp hdefinition
    split
    · refine .bind (classFor _ _) ?_
      intro id m₁ _ _
      refine .bind (loadSide _ _ hmethods) ?_
      intro _ m₂ _ _
      exact .bind (loadSide _ _ hclassMethods) fun _ _ _ _ => .pure _
    · exact .throw _
  · exact .throw _

theorem load {image : Json} (himage : ∀ node ∈ Image.trees image, node.Files P) :
    Reforms P (Image.load image) m := by
  unfold Image.load
  split
  · refine .mapM fun d hd _ _ => loadDefinition fun node hnode => himage node ?_
    exact List.mem_flatMap.mpr ⟨d, hd, hnode⟩
  · exact .throw _

end Reforms

/-- All that a change does is revisions that install only methods of some sort. -/
abbrev Revises {α : Type} (P : Method → Prop) (act : Change α) (m : Memory) : Prop :=
  Moves (Memory.Revision P) act m

theorem Reforms.revises {α : Type} {P : Method → Prop} {act : Change α} {m : Memory}
    (h : Reforms P act m) : Revises P act m :=
  ReflTransGen.mono (fun _ _ r => Memory.Reform.revision r) _ _ h

namespace Revises

variable {α : Type} {P : Method → Prop} {m : Memory}

theorem ofExcept (e : Except Fault α) : Revises P (Change.ofExcept e) m :=
  (Reforms.ofExcept e).revises

theorem place (node : Node) : Revises P (Change.place node) m := (Reforms.place node).revises

theorem define (name superclass instanceVariables indexable : Json) :
    Revises P (Change.define name superclass instanceVariables indexable) m :=
  (Reforms.define name superclass instanceVariables indexable).revises

theorem compile (owner : Behavior) {node : Node}
    (hnode : ∀ method, Method.ofNode? owner node = some method → P method) (protocol : Json) :
    Revises P (Change.compile owner node protocol) m :=
  (Reforms.compile owner hnode protocol).revises

theorem load {image : Json} (himage : ∀ node ∈ Image.trees image, node.Files P) :
    Revises P (Image.load image) m :=
  (Reforms.load himage).revises

end Revises

/-- All that a change does is edits. -/
abbrev Makes {α : Type} (act : Change α) (m : Memory) : Prop := Moves Memory.Edit act m

/-- Whatever a change does, it does in edits, for every method is of some sort. -/
theorem Revises.makes {α : Type} {P : Method → Prop} {act : Change α} {m : Memory}
    (h : Revises P act m) : Makes act m :=
  ReflTransGen.mono (fun _ _ r => Memory.Revision.edit r) _ _ h

theorem Makes.load {m : Memory} (image : Json) : Makes (Image.load image) m :=
  (Revises.load (P := fun _ => True) fun _ _ _ _ _ _ => trivial).makes

end Change

namespace Kernel

open Change

theorem build_revises : Revises (fun _ => True) build {} := by
  unfold build
  refine .bind (.forIn ?_) ?_
  · intro c _ _ m _
    exact .bind (Revises.define _ _ _ _) fun _ _ _ _ => .pure _
  · intro _ m₁ _ _
    refine .bind (.forIn ?_) ?_
    · rintro ⟨name, nodes⟩ _ _ m _
      refine .get (.bind (Revises.ofExcept _) ?_)
      intro id m₂ _ _
      refine .bind (.forIn ?_) fun _ _ _ _ => .pure _
      intro node _ _ m _
      refine .bind (Revises.place node) ?_
      intro placed m₃ _ _
      exact .bind (Revises.compile _ (fun _ _ => trivial) _) fun _ _ _ _ => .pure _
    · intro _ m₂ _ _
      have bound (m : Memory) (key : Key) (name : Json) (v : Value) :
          m.Revision (fun _ => True) { m with globals := m.globals.put key name v } :=
        (Memory.Edit.bind key name v).revision rfl
      exact ((ReflTransGen.single (bound _ _ _ _)).tail (bound _ _ _ _)).tail (bound _ _ _ _)

/-- The kernel is put together from nothing by revisions. -/
theorem memory_revisions : ({} : Memory).Revisions (fun _ => True) memory := by
  have hbuild : ({} : Memory).Revisions (fun _ => True) (left (build.run {})) := build_revises
  unfold memory
  generalize build.run {} = result at hbuild ⊢
  cases result <;> exact hbuild

/-- The kernel is edited together from nothing. -/
theorem memory_edits : ({} : Memory).Edits memory :=
  ReflTransGen.mono (fun _ _ r => Memory.Revision.edit r) _ _ memory_revisions

end Kernel

/-! ### Owners -/

namespace Registry

/-- A method is found only in the class or metaclass that owns it. -/
def Owned (r : Registry) : Prop :=
  ∀ b key method, (r.table b).methods.find? key = some method → method.owner = b

theorem Owned.define {r : Registry} (h : r.Owned) (name : String) (parent : Option ClassId)
    (declared : List Json) (indexable : Json) :
    (r.define name parent declared indexable).1.Owned := by
  intro b key method hfind
  rw [table_define] at hfind
  split at hfind
  · -- a new class has no methods
    cases hfind
  · exact h b key method hfind

theorem Owned.updateTable {r : Registry} (h : r.Owned) (owner : Behavior)
    {change : MethodTable → MethodTable}
    (hchange : ∀ t key method, (change t).methods.find? key = some method →
      t.methods.find? key = some method ∨ method.owner = owner) :
    (r.updateTable owner change).Owned := by
  intro b key method hfind
  rw [table_updateTable] at hfind
  split at hfind
  · rename_i hb
    rw [hb.1]
    rcases hchange _ key method hfind with hold | hnew
    · exact h owner key method hold
    · exact hnew
  · exact h b key method hfind

end Registry

/-! ### Lines -/

namespace Registry

/-- Every class that inherits does so from an older one, and takes over its whole line. -/
structure Ordered (r : Registry) : Prop where
  registered : ∀ name id, r.find? name = some id → id < r.classes.size
  inherits : ∀ id, (r.entry id).ancestors = [] ∨
    ∃ s < id, (r.entry id).ancestors = r.lineage s

theorem Ordered.updateTable {r : Registry} (o : r.Ordered) (b : Behavior)
    (change : MethodTable → MethodTable) : (r.updateTable b change).Ordered where
  registered name id h := by
    rw [size_updateTable]
    exact o.registered name id h
  inherits id := by
    unfold lineage
    simp only [ancestors_updateTable]
    exact o.inherits id

theorem Ordered.define {r : Registry} (o : r.Ordered) (name : String) {parent : Option ClassId}
    (declared : List Json) (indexable : Json)
    (hparent : ∀ id, parent = some id → ∃ s, r.find? s = some id) :
    (r.define name parent declared indexable).1.Ordered where
  registered := registered_define o.registered name parent declared indexable
  inherits id := by
    unfold lineage
    rw [entry_define]
    split
    · -- the new class: its superclass is registered, so it was there before
      rename_i hid
      cases parent with
      | none => exact .inl rfl
      | some s =>
          obtain ⟨other, hs⟩ := hparent s rfl
          have hlt := o.registered other s hs
          refine .inr ⟨s, hid ▸ hlt, ?_⟩
          rw [entry_define_of_lt name _ declared indexable hlt]
          rfl
    · refine (o.inherits id).imp_right ?_
      rintro ⟨s, hs, heq⟩
      refine ⟨s, hs, ?_⟩
      rw [entry_define, if_neg ?_]
      · exact heq
      · -- a class beyond the last one inherits nothing
        rintro rfl
        rw [entry_of_le (Nat.le_of_lt hs)] at heq
        cases heq

/-- The line of a class or metaclass goes on with the line of its superclass. -/
theorem Ordered.line_eq {r : Registry} (o : r.Ordered) (b : Behavior) :
    r.line b = b :: ((r.superclass? b).map r.line).getD [] := by
  obtain ⟨id, side⟩ := b
  unfold superclass?
  rcases o.inherits id with hroot | ⟨s, -, hline⟩
  · simp only [hroot]
    cases side with
    | false => simp [line, lineage, hroot]
    | true =>
        cases hclass : r.find? "Class" <;> simp [line, lineage, hroot, classLine, hclass]
  · cases side <;> simp [line, lineage, hline]

end Registry

namespace Memory

variable {m m' : Memory}

/-- An edit files a method only under its owner. -/
theorem Edit.owned (h : m.Edit m') (ho : m.registry.Owned) : m'.registry.Owned := by
  cases h with
  | define name parent declared indexable _ => exact ho.define name parent declared indexable
  | protocol owner key name =>
      refine ho.updateTable owner fun t key' method hfind => .inl ?_
      unfold MethodTable.addProtocol at hfind
      split at hfind <;> exact hfind
  | install method protocol key =>
      refine ho.updateTable method.owner fun t key' found hfind => ?_
      simp only [MethodTable.install, Dictionary.find?_put] at hfind
      split at hfind
      · exact .inr (Option.some.inj hfind ▸ rfl)
      · exact .inl hfind
  | note line => exact registry_note m line ▸ ho
  | _ => exact ho

/-- An edit defines classes only below those that are there. -/
theorem Edit.ordered (h : m.Edit m') (o : m.registry.Ordered) : m'.registry.Ordered := by
  cases h with
  | define name parent declared indexable registered =>
      exact o.define name declared indexable registered
  | protocol owner key name => exact o.updateTable owner fun t => t.addProtocol key name
  | install method protocol key =>
      exact o.updateTable method.owner fun t => t.install protocol key method
  | note line => exact registry_note m line ▸ o
  | _ => exact o

/-- What has been edited together from nothing has its methods filed under their owners
and its classes in order. -/
theorem Edits.owned (h : ({} : Memory).Edits m) : m.registry.Owned := by
  refine Moves.preserve (P := fun m => m.registry.Owned) h (fun _ _ h => h.owned) ?_
  rintro ⟨id, _ | _⟩ key method hfind <;> cases hfind

theorem Edits.ordered (h : ({} : Memory).Edits m) : m.registry.Ordered := by
  refine Moves.preserve (P := fun m => m.registry.Ordered) h (fun _ _ h => h.ordered) ?_
  exact ⟨fun _ _ h => (nomatch h), fun _ => .inl rfl⟩

end Memory

end Smalltalk
