import Smalltalk.Proofs.Edit
import Smalltalk.Proofs.Grammar

/-!
# `Smalltalk.Proofs.Reread`: trees that are written and read again

A tree that is read has no sites, by induction on how the grammar spells it
(`Json.Spells.unplaced`), and writing loses nothing but sites. So what is written for it
is read as the very same tree, although the form may have changed: names that were left
out, or given as a text, are written as a list.

A tree that is compiled gets sites, and its method holds them. Neither is written: the
method writes what the tree does (`Change.toJson_of_compile`), wherever it was placed.
`trees_survive_writing` has both.
-/

set_option autoImplicit false

namespace Smalltalk

open Json
open Primitive (map_eq_ok)

/-! ### What has been read -/

mutual
/-- A literal that is read has no site yet. -/
theorem Json.SpellsLiteral.unplaced {value : Json} {node : Node} :
    value.SpellsLiteral node → node.unplaced = node
  | .null | .bool _ | .int _ | .float _ | .text _ => rfl
  | .list each => congrArg Node.literalArray each.unplaced

/-- The same of every tree of a list. -/
theorem Json.SpellsLiterals.unplaced {values : List Json} {nodes : List Node} :
    SpellsLiterals values nodes → Node.listUnplaced nodes = nodes
  | .nil => rfl
  | .cons first rest => congrArg₂ List.cons first.unplaced rest.unplaced
end

mutual
/-- A tree that is read has no sites yet. -/
theorem Json.Spells.unplaced {value : Json} {node : Node} :
    value.Spells node → node.unplaced = node
  | .self _ | .super _ | .reference _ _ _ | .symbol _ _ => rfl
  | .literal _ _ spelled => spelled.unplaced
  | .literalArray _ _ spelled => congrArg Node.literalArray spelled.unplaced
  | .sequence _ _ spelled _ => congrArg (Node.sequence _) spelled.unplaced
  | .block _ _ spelled _ _ => congrArg (Node.block _ _) spelled.unplaced
  | .send _ _ spelled _ _ arguments =>
      congrArg₂ (fun receiver args => Node.send receiver _ args) spelled.unplaced
        arguments.unplaced
  | .sendNothing _ _ spelled _ _ =>
    congrArg (fun receiver => Node.send receiver _ []) spelled.unplaced
  | .assign _ _ _ _ spelled => congrArg (Node.assign _ _ _) spelled.unplaced
  | .answer _ _ spelled => congrArg Node.answer spelled.unplaced
  | .method _ _ _ spelled _ _ =>
      congrArg (fun statements => Node.method _ _ _ statements _) spelled.unplaced

/-- The same of every tree of a list. -/
theorem Json.SpellsList.unplaced {value : Json} {nodes : List Node} :
    value.SpellsList nodes → Node.listUnplaced nodes = nodes
  | .list each => each.unplaced
  | .noText | .noFields => rfl

theorem Json.SpellsEach.unplaced {values : List Json} {nodes : List Node} :
    SpellsEach values nodes → Node.listUnplaced nodes = nodes
  | .nil => rfl
  | .cons first rest => congrArg₂ List.cons first.unplaced rest.unplaced
end

/-! ### What has been compiled -/

namespace Memory

/-- A memory after a method was installed under a protocol. -/
def installed (m : Memory) (method : Method) (protocol : Json) (protocolKey key : Key) : Memory :=
  let known := m.registry.updateTable method.owner fun t => t.addProtocol protocolKey protocol
  { m with registry := known.updateTable method.owner fun t => t.install protocolKey key method }

/-- A method that was installed is found in its owner. -/
theorem find?_installed (m : Memory) {method : Method} (protocol : Json) (protocolKey key : Key)
    (howner : method.owner.id < m.registry.classes.size) :
    ((m.installed method protocol protocolKey key).registry.table method.owner).methods.find? key
      = some method := by
  unfold installed
  rw [Registry.table_updateTable, if_pos ⟨rfl, by rwa [Registry.size_updateTable]⟩]
  exact (Dictionary.find?_put ..).trans (if_pos rfl)

end Memory

namespace Change

variable {m m' : Memory} {owner : Behavior} {node : Node} {method : Method} {protocol : Json}

theorem keyOf_eq_ok {name : Json} {key : Key} :
    Change.ofExcept (Fault.keyOf name) m = .ok key m' ↔ name.key? = some key ∧ m' = m := by
  constructor
  · exact fun h => ⟨key?_of_keyOf h, (of_ofExcept h).2⟩
  · rintro ⟨hkey, rfl⟩
    rw [Fault.keyOf_eq_ok.mpr hkey]
    rfl

/-- Compiling a tree succeeds where it is a method and its selector and the protocol name
something. -/
theorem compile_eq_ok : compile owner node protocol m = .ok method m' ↔
    Method.ofNode? owner node = some method ∧ ∃ protocolKey key,
      protocol.key? = some protocolKey ∧ method.selector.key? = some key ∧
        m' = m.installed method protocol protocolKey key := by
  constructor
  · intro h
    unfold compile at h
    cases hmethod : Method.ofNode? owner node with
    | none =>
        rw [hmethod] at h
        cases h
    | some method' =>
        rw [hmethod] at h
        obtain ⟨_, m₁, hinstall, hpure⟩ := of_bind_ok h
        cases hpure
        unfold install at hinstall
        obtain ⟨protocolKey, m₂, hprotocol, hrest⟩ := of_bind_ok hinstall
        obtain ⟨hprotocolKey, rfl⟩ := keyOf_eq_ok.mp hprotocol
        obtain ⟨_, m₃, hadd, hrest⟩ := of_bind_ok hrest
        cases hadd
        obtain ⟨key, m₄, hselector, hrest⟩ := of_bind_ok hrest
        obtain ⟨hkey, rfl⟩ := keyOf_eq_ok.mp hselector
        cases hrest
        exact ⟨rfl, protocolKey, key, hprotocolKey, hkey, rfl⟩
  · rintro ⟨hmethod, protocolKey, key, hprotocolKey, hkey, rfl⟩
    -- the protocol is listed before the selector is looked at, and both name something
    have hinstall : install method protocol m
        = .ok () (m.installed method protocol protocolKey key) := by
      unfold install
      rw [bind_of_ok (keyOf_eq_ok.mpr ⟨hprotocolKey, rfl⟩)]
      show (Change.ofExcept (Fault.keyOf method.selector) >>= _) _ = _
      rw [bind_of_ok (keyOf_eq_ok.mpr ⟨hkey, rfl⟩)]
      rfl
    unfold compile
    rw [hmethod]
    exact bind_of_ok hinstall

/-- A method has the tree that it was compiled from. -/
theorem toNode_of_ofNode? (h : Method.ofNode? owner node = some method) :
    method.toNode = node ∧ method.owner = owner := by
  cases node with
  | method selector params temps statements primitive =>
      cases h
      exact ⟨rfl, rfl⟩
  | _ => cases h

end Change

/-- Placing a tree does not change what is written for it. -/
theorem Node.toJson_withSites (next : Nat) (node : Node) :
    (node.withSites next).1.toJson = node.toJson := by
  rw [← toJson_unplaced, unplaced_withSites, toJson_unplaced]

namespace Change

variable {m m' : Memory} {owner : Behavior} {node : Node} {method : Method} {protocol : Json}

/-- A method writes what the tree does that it was placed and compiled from. -/
theorem toJson_of_compile
    (h : (place node >>= fun placed => compile owner placed protocol) m = .ok method m') :
    method.toNode.toJson = node.toJson ∧
      (owner.id < m.registry.classes.size → ∃ key, method.selector.key? = some key ∧
        (m'.registry.table owner).methods.find? key = some method) := by
  obtain ⟨placed, m₁, hplace, hcompile⟩ := of_bind_ok h
  cases hplace
  obtain ⟨hmethod, protocolKey, key, -, hkey, rfl⟩ := compile_eq_ok.mp hcompile
  obtain ⟨htree, rfl⟩ := toNode_of_ofNode? hmethod
  refine ⟨?_, fun howner => ⟨key, hkey, Memory.find?_installed _ _ _ _ howner⟩⟩
  rw [htree]
  exact Node.toJson_withSites m.heap.texts node

/-- The tree of a method is compiled when its selector and the protocol name something. -/
theorem compile_of_keys {selector : Json} {params temps : List Json} {statements : List Node}
    {primitive : Json} {key protocolKey : Key} (hselector : selector.key? = some key)
    (hprotocol : protocol.key? = some protocolKey) :
    ∃ method m', (place (.method selector params temps statements primitive) >>= fun placed =>
      compile owner placed protocol) m = .ok method m' := by
  let sites := Node.listWithSites m.heap.texts statements
  let method : Method := ⟨selector, params, temps, sites.1, primitive, owner⟩
  let m₁ : Memory := { m with heap := { m.heap with texts := sites.2 } }
  have hplace : place (.method selector params temps statements primitive) m
      = .ok method.toNode m₁ := rfl
  have hcompile : compile owner method.toNode protocol m₁
      = .ok method (m₁.installed method protocol protocolKey key) :=
    compile_eq_ok.mpr ⟨rfl, protocolKey, key, hprotocol, hselector, rfl⟩
  exact ⟨method, _, (bind_of_ok hplace).trans hcompile⟩

end Change

/-- Whatever is read as a tree, what is written for the tree is read as the very same tree,
and so written the same way again. And whatever method tree is compiled, wherever it was
placed, the method that is then found in the class or metaclass is written like the tree.
The compilation only fails for a selector or a protocol that names nothing. -/
theorem trees_survive_writing :
    (∀ value node, Node.ofJson? value = .ok node → Node.ofJson? node.toJson = .ok node) ∧
      (∀ value written, (Node.ofJson? value).map Node.toJson = .ok written →
        (Node.ofJson? written).map Node.toJson = .ok written) ∧
      (∀ (m m' : Memory) owner node protocol method,
        (Change.place node >>= fun placed => Change.compile owner placed protocol) m
            = .ok method m' →
          method.toNode.toJson = node.toJson ∧
            (owner.id < m.registry.classes.size → ∃ key, method.selector.key? = some key ∧
              (m'.registry.table owner).methods.find? key = some method)) ∧
      ∀ (m : Memory) owner selector params temps statements primitive protocol key protocolKey,
        selector.key? = some key → protocol.key? = some protocolKey →
          ∃ method m', (Change.place (.method selector params temps statements primitive) >>=
            fun placed => Change.compile owner placed protocol) m = .ok method m' := by
  have hread : ∀ value node, Node.ofJson? value = .ok node →
      Node.ofJson? node.toJson = .ok node := by
    intro value node h
    rw [Node.ofJson?_toJson, (Node.ofJson?_eq_ok.mp h).unplaced]
  refine ⟨hread, fun value written h => ?_, fun m m' owner node protocol method h =>
    Change.toJson_of_compile h, fun m owner selector params temps statements primitive protocol
      key protocolKey => Change.compile_of_keys⟩
  obtain ⟨node, hnode, rfl⟩ := map_eq_ok.mp h
  rw [hread value node hnode]
  rfl

/-- A method in an unusual form: the parameters are the letters of a text, and there is no
field for the temps. -/
def looseMethod : Json :=
  .obj [("node", .str "method"), ("selector", .str "with:with:"), ("args", .str "ab"),
    ("statements", .arr [.obj [("node", .str "literal"), ("value", .arr [.str "c", .null])]])]

/-- The tree that it is read as is written in the usual form, and compiled on the class side. -/
theorem loose_method_survives : ∃ node method m', Node.ofJson? looseMethod = .ok node ∧
    node.toJson.same looseMethod = false ∧ Node.ofJson? node.toJson = .ok node ∧
    (Change.place node >>= fun placed => Change.compile ⟨0, true⟩ placed (.str "tests"))
      Kernel.memory = .ok method m' ∧
    method.toNode.toJson = node.toJson := by
  have hread : Node.ofJson? looseMethod = .ok (.method (.str "with:with:") [.str "a", .str "b"] []
      [.literalArray [.literal (.text "c" 0), .literal .nil]] .null) := rfl
  obtain ⟨hagain, -, hwritten, hcompiles⟩ := trees_survive_writing
  obtain ⟨method, m', hcompile⟩ := hcompiles Kernel.memory ⟨0, true⟩ (.str "with:with:")
    [.str "a", .str "b"] [] [.literalArray [.literal (.text "c" 0), .literal .nil]] .null
    (.str "tests") _ _ rfl rfl
  exact ⟨_, method, m', hread, rfl, hagain _ _ hread, hcompile, (hwritten _ _ _ _ _ _ hcompile).1⟩

end Smalltalk
