import Smalltalk.Proofs.Asks

/-!
# `Smalltalk.Proofs.Scope`: which names the text declares

What a frame is made for is a `Body`: the code of a method, of a block or of
workspace code, with the names it declares. A `Nest` is a body with the bodies around
it in the text, innermost first, so `Nest.index?` is what a reader of the text says
about a name: how many bodies out the name is declared.

Code is well-scoped (`Body.isScoped`) when some body around every use of a variable
declares it, and sequences are bodies only. The lemmas take this from a body to all
that is written in it, blocks included (`Nest.Written.isScoped`).
-/

set_option autoImplicit false

namespace Smalltalk

open Relation (ReflTransGen)

/-- The names that some code declares, parameters first, and its statements. -/
structure Body where
  names : List Json
  statements : List Node

/-- Whether a body declares what a key stands for. -/
def Body.declares (b : Body) (key : Key) : Bool := b.names.any fun name => name.key? = some key

/-- The code of a method. -/
def Method.body (method : Method) : Body := ⟨method.params ++ method.temps, method.statements⟩

/-- The code of a closure. -/
def Closure.body (c : Closure) : Body := ⟨c.params ++ c.temps, c.statements⟩

/-- The code of a tree that is evaluated as workspace code: a sequence is a body, and any
other tree is the only statement of one. -/
def Node.workspace : Node → Body
  | .sequence temps statements => ⟨temps, statements⟩
  | node => ⟨[], [node]⟩

/-- A body and those around it in the text, innermost first. -/
abbrev Nest := List Body

/-- How many bodies out a name is declared. -/
def Nest.index? (nest : Nest) (key : Key) : Option Nat := nest.findIdx? fun b => b.declares key

/-! ### Well-scoped code -/

/-- Whether a variable is a parameter or a temp. -/
def VariableKind.isLocal : VariableKind → Bool
  | temp | arg => true
  | global | instvar => false

/-- Whether a variable that is used in a nest is declared there. A name without a key is
never looked up. -/
def Nest.knows (nest : Nest) (name : Json) (kind : VariableKind) : Bool :=
  !kind.isLocal || name.key?.all fun key => nest.any fun b => b.declares key

mutual
/-- Whether all variables in a tree are declared, where the tree stands in the first body of
a nest. Trees of methods inside are never evaluated. -/
def Node.isScoped (nest : Nest) : Node → Bool
  | .self | .super | .literal _ | .symbol _ | .method .. => true
  | .reference name kind _ => nest.knows name kind
  | .literalArray elements => allScoped nest elements
  | .sequence _ _ => false
  | .block params temps statements => allScoped (⟨params ++ temps, statements⟩ :: nest) statements
  | .send receiver _ args => receiver.isScoped nest && allScoped nest args
  | .assign name kind _ value => nest.knows name kind && value.isScoped nest
  | .answer value => value.isScoped nest

/-- `Node.isScoped` of every tree of a list. -/
def allScoped (nest : Nest) : List Node → Bool
  | [] => true
  | node :: rest => node.isScoped nest && allScoped nest rest
end

/-- Whether a body is well-scoped inside others. -/
def Body.isScoped (b : Body) (outer : Nest) : Bool := allScoped (b :: outer) b.statements

/-- Whether a tree, if it is a method, describes a well-scoped one. -/
def Node.isScopedMethod : Node → Bool
  | .method _ params temps statements _ => Body.isScoped ⟨params ++ temps, statements⟩ []
  | _ => true

/-- Every installed method is well-scoped. -/
def Registry.Scoped (r : Registry) : Prop :=
  ∀ b key method, (r.table b).methods.find? key = some method → method.body.isScoped [] = true

theorem allScoped_iff {nest : Nest} {nodes : List Node} :
    allScoped nest nodes = true ↔ ∀ node ∈ nodes, node.isScoped nest = true := by
  induction nodes with
  | nil => simp [allScoped]
  | cons node rest ih => simp [allScoped, ih]

/-- What a well-scoped tree is made of is well-scoped. -/
theorem Node.isScoped_of_mem_parts {nest : Nest} {node part : Node}
    (h : node.isScoped nest = true) (hpart : part ∈ node.parts) : part.isScoped nest = true := by
  cases node with
  | literalArray elements => exact allScoped_iff.mp h part hpart
  | sequence temps statements => cases h
  | send receiver selector args =>
      simp only [isScoped, Bool.and_eq_true] at h
      rcases List.mem_cons.mp hpart with rfl | hpart
      · exact h.1
      · exact allScoped_iff.mp h.2 part hpart
  | assign name kind index value =>
      simp only [isScoped, Bool.and_eq_true] at h
      obtain rfl := List.mem_singleton.mp hpart
      exact h.2
  | answer value =>
      obtain rfl := List.mem_singleton.mp hpart
      exact h
  | _ => cases hpart

/-- A variable that is declared is declared some number of bodies out. -/
theorem Nest.index?_of_knows {nest : Nest} {name : Json} {kind : VariableKind} {key : Key}
    (h : nest.knows name kind = true) (hlocal : kind.isLocal = true)
    (hkey : name.key? = some key) : ∃ k, nest.index? key = some k := by
  have hsome : (nest.index? key).isSome = true := by
    simpa [knows, hlocal, hkey, index?, List.findIdx?_isSome] using h
  exact Option.isSome_iff_exists.mp hsome

/-! ### The text -/

/-- A tree stands in the statements of a body, not inside a block in them. -/
def Body.Writes (b : Body) (node : Node) : Prop :=
  ∃ statement ∈ b.statements, ReflTransGen (fun n part => part ∈ n.parts) statement node

theorem Body.writes_statement {b : Body} {node : Node} (h : node ∈ b.statements) :
    b.Writes node :=
  ⟨node, h, .refl⟩

theorem Body.Writes.part {b : Body} {node part : Node} (h : b.Writes node)
    (hpart : part ∈ node.parts) : b.Writes part := by
  obtain ⟨statement, hstatement, hnode⟩ := h
  exact ⟨statement, hstatement, hnode.tail hpart⟩

theorem Body.Writes.isScoped {b : Body} {outer : Nest} {node : Node} (h : b.Writes node)
    (hb : b.isScoped outer = true) : node.isScoped (b :: outer) = true := by
  obtain ⟨statement, hstatement, hnode⟩ := h
  induction hnode with
  | refl => exact allScoped_iff.mp hb statement hstatement
  | tail _ hpart ih => exact Node.isScoped_of_mem_parts ih hpart

/-- The bodies of a nest are as the text has them: the outermost is a well-scoped method or
workspace code, and every other is the code of a block that stands in the next. -/
inductive Nest.Written : Nest → Prop where
  | outermost {b : Body} (declared : b.isScoped [] = true) : Written [b]
  | block {b : Body} {outer : Nest} (params temps : List Json) {statements : List Node}
      (around : Written (b :: outer)) (stands : b.Writes (.block params temps statements)) :
    Written (⟨params ++ temps, statements⟩ :: b :: outer)

/-- Code in blocks is well-scoped because the code around it is. -/
theorem Nest.Written.isScoped {b : Body} {outer : Nest} (h : Nest.Written (b :: outer)) :
    b.isScoped outer = true := by
  generalize hnest : b :: outer = nest at h
  induction h generalizing b outer with
  | outermost declared =>
      cases hnest
      exact declared
  | block params temps around stands ih =>
      cases hnest
      exact stands.isScoped (ih rfl)

/-! ### The kernel -/

/-- Every method of a table is well-scoped. -/
def MethodTable.isScoped (t : MethodTable) : Bool :=
  t.methods.entries.all fun e => e.value.body.isScoped []

/-- What holds of every table, and of one without methods, holds of the table of any class
or metaclass. -/
theorem Registry.table_of_all {r : Registry} {p : MethodTable → Bool} (hempty : p {} = true)
    (h : (r.classes.all fun e => p e.instanceSide && p e.classSide) = true) (b : Behavior) :
    p (r.table b) = true := by
  have hentry : p (r.entry b.id).instanceSide = true ∧ p (r.entry b.id).classSide = true := by
    unfold entry
    rw [Array.getD_eq_getD_getElem?]
    cases hfind : r.classes[b.id]? with
    | none => exact ⟨hempty, hempty⟩
    | some e =>
        have hall := Array.all_eq_true_iff_forall_mem.mp h e (Array.mem_of_getElem? hfind)
        exact Bool.and_eq_true_iff.mp hall
  unfold table
  split
  · exact hentry.2
  · exact hentry.1

/-- What holds of every tree in installed code can be computed. -/
theorem Registry.everywhere_of_all {r : Registry} {p : Method → Node → Bool}
    (h : (r.classes.all fun e =>
      (e.instanceSide.methods.entries.all fun e => (allInner e.value.statements).all (p e.value)) &&
        e.classSide.methods.entries.all fun e =>
          (allInner e.value.statements).all (p e.value)) = true) : r.Everywhere p := by
  intro b key method hfind s hs n hn
  have htable := Registry.table_of_all
    (p := fun t => t.methods.entries.all fun e => (allInner e.value.statements).all (p e.value))
    rfl h b
  obtain ⟨e, he, rfl⟩ := Kernel.mem_entries_of_find? hfind
  have hinner := List.all_eq_true.mp (List.all_eq_true.mp htable e he)
  exact hinner n (mem_allInner.mpr ⟨s, hs, hn⟩)

theorem Kernel.registry_scoped : Kernel.memory.registry.Scoped := by
  intro b key method hfind
  have htable : (Kernel.memory.registry.table b).isScoped = true :=
    Registry.table_of_all (p := MethodTable.isScoped) rfl (by decide +kernel) b
  obtain ⟨e, he, rfl⟩ := Kernel.mem_entries_of_find? hfind
  exact List.all_eq_true.mp htable e he

end Smalltalk
