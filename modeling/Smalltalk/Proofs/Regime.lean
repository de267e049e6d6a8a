import Mathlib.Algebra.Group.Nat.Defs
import Smalltalk.Evaluation
import Smalltalk.Image

/-!
# `Smalltalk.Proofs.Regime`: what a session may contain

A `Regime` says which integers may come up, whether values from outside that
belong to no class may, and whether the code is well named: every name and
selector in it is a text, and every index of a slot and every tag of a
primitive is an integer or null. The checks on literals, trees, methods and
images follow from these three and can be computed.

`Regime.any` admits everything. `Regime.tame` is what a front end produces:
well-named code over integers that are far below the greatest double.

A regime suits a system (`Regime.Suits`) when evaluation stays inside it:
SmallIntegers and all counts are admitted and, where code is well named, no
integer is beyond all doubles.
-/

set_option autoImplicit false

namespace Smalltalk

/-- What a session may contain. -/
structure Regime where
  int : Int → Bool
  foreign : Bool
  named : Bool

namespace Regime

/-- Everything. -/
def any : Regime := ⟨fun _ => true, true, false⟩

/-- Evaluation with these settings stays inside the regime. -/
structure Suits (R : Regime) (settings : Settings) : Prop where
  small : ∀ i, SmallInteger.holds i = true → R.int i = true
  count : ∀ n, n ≤ settings.room → R.int n = true
  double : R.named = true → ∀ i, R.int i = true → (Binary64.ofInt? i).isSome = true

variable (R : Regime)

/-! ### Code -/

/-- A name or selector. -/
def name : Json → Bool
  | .str _ => true
  | _ => !R.named

theorem any_name (j : Json) : any.name j = true := by cases j <;> rfl

theorem any_names (js : List Json) : js.all any.name = true :=
  List.all_eq_true.mpr fun j _ => any_name j

/-- An index of a slot, or a tag of a primitive. -/
def number : Json → Bool
  | .null | .int _ => true
  | _ => !R.named

theorem any_number (j : Json) : any.number j = true := by cases j <;> rfl

/-- The index of a variable of some kind: only that of an instance variable counts. -/
def index : VariableKind → Json → Bool
  | .instvar, j => R.number j
  | _, _ => true

theorem any_index (kind : VariableKind) (j : Json) : any.index kind j = true := by
  cases kind with
  | instvar => exact any_number j
  | _ => rfl

/-- A literal. -/
def literal : Literal → Bool
  | .int i => R.int i
  | _ => true

mutual
/-- A tree. -/
def node : Node → Bool
  | .self | .super | .symbol _ => true
  | .reference name kind index => R.name name && R.index kind index
  | .literal value => R.literal value
  | .literalArray elements => nodes elements
  | .sequence temps statements => temps.all R.name && nodes statements
  | .block params temps statements => params.all R.name && temps.all R.name && nodes statements
  | .send receiver selector args => node receiver && R.name selector && nodes args
  | .assign name kind index value => R.name name && R.index kind index && node value
  | .answer value => node value
  | .method selector params temps statements primitive =>
    R.name selector && params.all R.name && temps.all R.name && nodes statements &&
      R.number primitive

/-- Every tree of a list. -/
def nodes : List Node → Bool
  | [] => true
  | n :: rest => node n && nodes rest
end

@[simp] theorem nodes_eq_true_iff (ns : List Node) :
    R.nodes ns = true ↔ ∀ n ∈ ns, R.node n = true := by
  induction ns with
  | nil => simp [nodes]
  | cons n rest ih => simp [nodes, ih]

mutual
/-- There is a regime that admits every tree. -/
theorem any_node : (n : Node) → any.node n = true
  | .self | .super | .symbol _ => rfl
  | .reference name kind index => by
      simp only [node, any_name, any_index, Bool.and_self]
  | .literal value => by cases value <;> rfl
  | .literalArray elements => any_nodes elements
  | .sequence temps statements => by
      simp only [node, any_names, any_nodes statements, Bool.and_self]
  | .block params temps statements => by
      simp only [node, any_names, any_nodes statements, Bool.and_self]
  | .send receiver selector args => by
      simp only [node, any_node receiver, any_name, any_nodes args, Bool.and_self]
  | .assign name kind index value => by
      simp only [node, any_name, any_index, any_node value, Bool.and_self]
  | .answer value => any_node value
  | .method selector params temps statements primitive => by
      simp only [node, any_name, any_names, any_nodes statements, any_number, Bool.and_self]

/-- The same of every tree of a list. -/
theorem any_nodes : (ns : List Node) → any.nodes ns = true
  | [] => rfl
  | n :: rest => by
      simp only [nodes, any_node n, any_nodes rest, Bool.and_self]
end

/-- A method. -/
def method (m : Method) : Bool := R.node m.toNode

/-- The code of a closure. -/
def closure (c : Closure) : Bool := R.node (.block c.params c.temps c.statements)

/-! ### Values -/

/-- A value, wherever it refers to. -/
def value : Value → Bool
  | .int i => R.int i
  | .foreign _ _ => R.foreign
  | _ => true

/-! ### Images -/

/-- A part of an image that may be a tree. -/
def part (json : Json) : Bool :=
  match Node.ofJson? json with
  | .ok n => R.node n
  | .error _ => true

/-- The methods under a field of a class definition. -/
def side : Option Json → Bool
  | some (.obj fields) => fields.all fun field => R.part field.2
  | _ => true

/-- A class definition. -/
def definition : Json → Bool
  | .obj fields => R.side (fields.lookup "methods") && R.side (fields.lookup "classMethods")
  | _ => true

/-- An image. -/
def image : Json → Bool
  | .arr definitions => definitions.all R.definition
  | _ => true

end Regime

/-! ### Where values are -/

namespace Memory

/-- A value refers to nothing, or to something that is there. -/
def Knows (m : Memory) : Value → Prop
  | .array a => a < m.heap.arrays.size
  | .object o => o < m.heap.objects.size
  | .closure c => c < m.heap.closures.size
  | .behavior b => b.id < m.registry.classes.size
  | _ => True

end Memory

/-- A value that the regime admits and that the memory knows. -/
def Regime.Holds (R : Regime) (m : Memory) (v : Value) : Prop := R.value v = true ∧ m.Knows v

end Smalltalk
