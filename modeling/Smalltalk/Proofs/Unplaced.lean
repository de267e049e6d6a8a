import Smalltalk.Node.Form

/-!
# `Smalltalk.Proofs.Unplaced`: what an image keeps of a tree

Writing a tree loses nothing but the sites of its text literals, and they are not
part of the program: they say which text object a literal answers. `Node.unplaced`
is the tree without them.

`Node.ofJson?_toJson` is the law: what is written for a tree is read as the same
tree without its sites. So the written form does not depend on the sites
(`Node.toJson_unplaced`), nor does the tree that is kept depend on where it was
placed (`Node.unplaced_withSites`).
-/

set_option autoImplicit false

namespace Smalltalk

namespace Node

mutual
/-- The tree with all sites zero, as it is read from an image. -/
def unplaced : Node → Node
  | literal (.text s _) => literal (.text s 0)
  | literalArray elements => literalArray (listUnplaced elements)
  | sequence temps statements => sequence temps (listUnplaced statements)
  | block params temps statements => block params temps (listUnplaced statements)
  | send receiver selector args => send receiver.unplaced selector (listUnplaced args)
  | assign name kind index value => assign name kind index value.unplaced
  | answer value => answer value.unplaced
  | method selector params temps statements primitive =>
    method selector params temps (listUnplaced statements) primitive
  | node => node

/-- `unplaced`, tree by tree. -/
def listUnplaced : List Node → List Node
  | [] => []
  | node :: rest => node.unplaced :: listUnplaced rest
end

mutual
/-- Where a tree is placed does not matter for what is kept of it. -/
theorem unplaced_withSites (next : Nat) :
    (n : Node) → (n.withSites next).1.unplaced = n.unplaced
  | .self | .super | .reference .. | .symbol _ => rfl
  | .literal value => by cases value <;> rfl
  | .literalArray elements => by
      simp only [withSites, unplaced, listUnplaced_withSites next elements]
  | .sequence temps statements => by
      simp only [withSites, unplaced, listUnplaced_withSites next statements]
  | .block params temps statements => by
      simp only [withSites, unplaced, listUnplaced_withSites next statements]
  | .send receiver selector args => by
      simp only [withSites, unplaced, unplaced_withSites next receiver,
        listUnplaced_withSites _ args]
  | .assign name kind index value => by
      simp only [withSites, unplaced, unplaced_withSites next value]
  | .answer value => by
      simp only [withSites, unplaced, unplaced_withSites next value]
  | .method selector params temps statements primitive => by
      simp only [withSites, unplaced, listUnplaced_withSites next statements]

/-- The same of every tree of a list. -/
theorem listUnplaced_withSites (next : Nat) :
    (ns : List Node) → listUnplaced (listWithSites next ns).1 = listUnplaced ns
  | [] => rfl
  | n :: rest => by
      simp only [listWithSites, listUnplaced, unplaced_withSites next n,
        listUnplaced_withSites _ rest]
end

mutual
/-- The sites are not written. -/
theorem toJson_unplaced : (n : Node) → n.unplaced.toJson = n.toJson
  | .self | .super | .reference .. | .symbol _ => rfl
  | .literal value => by cases value <;> rfl
  | .literalArray elements => by
      simp only [unplaced, toJson, listToJson_unplaced elements]
  | .sequence temps statements => by
      simp only [unplaced, toJson, listToJson_unplaced statements]
  | .block params temps statements => by
      simp only [unplaced, toJson, listToJson_unplaced statements]
  | .send receiver selector args => by
      simp only [unplaced, toJson, toJson_unplaced receiver, listToJson_unplaced args]
  | .assign name kind index value => by
      simp only [unplaced, toJson, toJson_unplaced value]
  | .answer value => by
      simp only [unplaced, toJson, toJson_unplaced value]
  | .method selector params temps statements primitive => by
      simp only [unplaced, toJson, listToJson_unplaced statements]

/-- The same of every tree of a list. -/
theorem listToJson_unplaced : (ns : List Node) → listToJson (listUnplaced ns) = listToJson ns
  | [] => rfl
  | n :: rest => by
      simp only [listUnplaced, listToJson, toJson_unplaced n, listToJson_unplaced rest]
end

end Node

/-! ### Reading what was written -/

namespace Form

@[simp] theorem json_ofJson (j : Json) : (ofJson j).json = j := by
  cases j <;> rfl

@[simp] theorem trees_ofJson_arr (items : List Json) (tag : String) :
    (ofJson (.arr items)).trees tag = all (ofItems items) := rfl

/-- The fields of a tagged object. -/
def Fields.ofTagged (tag : String) (fields : List (String × Json)) : Fields :=
  ofNamed (("node", .str tag) :: fields)

theorem ofJson?_tagged (tag : String) (fields : List (String × Json)) :
    Node.ofJson? (Node.tagged tag fields) = (Fields.ofTagged tag fields).tree tag := rfl

/-- Looking up what was written: the first field, or one behind it. -/
theorem lookup_ofNamed_cons (name other : String) (value : Json)
    (fields : List (String × Json)) :
    (ofNamed ((name, value) :: fields)).lookup other
      = if other = name then some (ofJson value) else (ofNamed fields).lookup other := by
  have hbeq : (other == name) = decide (other = name) := rfl
  by_cases h : other = name <;> simp [ofNamed, List.lookup_cons, hbeq, h]

@[simp] theorem lookup_ofNamed_nil (other : String) : (ofNamed []).lookup other = none := rfl

/-- The list of names that a value stands for. -/
def listed (tag : String) (value : Json) : Except FormError (List Json) :=
  if value.truthy then
    match value.elements? with
    | some names => .ok names
    | none => .error (.notAList tag value)
  else .ok []

theorem names_eq_listed (fields : Fields) (tag name : String) :
    fields.names tag name = listed tag (fields.orNull name) := rfl

/-- A list stands for itself, also where it is empty. -/
@[simp] theorem listed_arr (tag : String) (names : List Json) :
    listed tag (.arr names) = .ok names := by
  cases names <;> rfl

end Form

@[simp] theorem VariableKind.ofJson?_word (kind : VariableKind) :
    VariableKind.ofJson? (.str kind.word) = some kind := by
  cases kind <;> rfl

namespace Node

theorem ofLiteral?_toJson (value : Literal) :
    ofLiteral? value.toJson = .ok (literal value).unplaced := by
  cases value <;> rfl

open Form in
mutual
/-- What is written for a tree is read as the tree, without its sites. -/
theorem ofJson?_toJson : (n : Node) → ofJson? n.toJson = .ok n.unplaced
  | .self | .super | .symbol _ => rfl
  | .reference name kind index => by
      rw [toJson, ofJson?_tagged]
      simp [Fields.tree, Fields.need, Fields.orNull, Fields.ofTagged, lookup_ofNamed_cons,
        Form.kind, unplaced, bind, Except.bind, pure, Except.pure]
  | .literal value => by
      rw [toJson, ofJson?_tagged]
      simp [Fields.tree, Fields.need, Fields.ofTagged, lookup_ofNamed_cons, ofLiteral?_toJson,
        bind, Except.bind]
  | .literalArray elements => by
      rw [toJson, ofJson?_tagged]
      simp [Fields.tree, Fields.need, Fields.ofTagged, lookup_ofNamed_cons,
        all_listToJson elements, unplaced, bind, Except.bind, pure, Except.pure]
  | .sequence temps statements => by
      rw [toJson, ofJson?_tagged]
      simp [Fields.tree, Fields.need, names_eq_listed, Fields.orNull, Fields.ofTagged,
        lookup_ofNamed_cons, all_listToJson statements, unplaced, bind, Except.bind,
        pure, Except.pure]
  | .block params temps statements => by
      rw [toJson, ofJson?_tagged]
      simp [Fields.tree, Fields.need, names_eq_listed, Fields.orNull, Fields.ofTagged,
        lookup_ofNamed_cons, all_listToJson statements, unplaced, bind, Except.bind,
        pure, Except.pure]
  | .send receiver selector args => by
      have hreceiver : (ofJson receiver.toJson).tree = .ok receiver.unplaced :=
        ofJson?_toJson receiver
      rw [toJson, ofJson?_tagged]
      simp [Fields.tree, Fields.need, Fields.ofTagged, lookup_ofNamed_cons,
        all_listToJson args, hreceiver, unplaced, bind, Except.bind, pure, Except.pure]
  | .assign name kind index value => by
      have hvalue : (ofJson value.toJson).tree = .ok value.unplaced := ofJson?_toJson value
      rw [toJson, ofJson?_tagged]
      simp [Fields.tree, Fields.need, Fields.orNull, Fields.ofTagged, lookup_ofNamed_cons,
        Form.kind, hvalue, unplaced, bind, Except.bind, pure, Except.pure]
  | .answer value => by
      have hvalue : (ofJson value.toJson).tree = .ok value.unplaced := ofJson?_toJson value
      rw [toJson, ofJson?_tagged]
      simp [Fields.tree, Fields.need, Fields.ofTagged, lookup_ofNamed_cons, hvalue, unplaced,
        bind, Except.bind, pure, Except.pure]
  | .method selector params temps statements primitive => by
      rw [toJson, ofJson?_tagged]
      -- no primitive is not written, and what is not written is no primitive
      cases primitive <;>
        simp [primitiveField, Fields.tree, Fields.need, names_eq_listed, Fields.orNull,
          Fields.ofTagged, lookup_ofNamed_cons, all_listToJson statements, unplaced, bind,
          Except.bind, pure, Except.pure]

/-- The same of every tree of a list. -/
theorem all_listToJson : (ns : List Node) →
    Form.all (Form.ofItems (listToJson ns)) = .ok (listUnplaced ns)
  | [] => rfl
  | n :: rest => by
      have hn : (ofJson n.toJson).tree = .ok n.unplaced := ofJson?_toJson n
      simp [listToJson, ofItems, all, hn, all_listToJson rest, listUnplaced, bind, Except.bind,
        pure, Except.pure]
end

/-- A list without sites has none to lose: it is written the same way and read once. -/
theorem listUnplaced_listUnplaced (ns : List Node) :
    listUnplaced (listUnplaced ns) = listUnplaced ns := by
  have hagain := all_listToJson (listUnplaced ns)
  rw [listToJson_unplaced, all_listToJson] at hagain
  exact (Except.ok.inj hagain).symm

end Node

end Smalltalk
