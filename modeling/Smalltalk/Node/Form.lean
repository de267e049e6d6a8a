import Smalltalk.Node
import Smalltalk.Json.Writer

/-!
# `Smalltalk.Node.Form`: trees in image files

`Node.toJson` writes a tree as an object tagged with the sort of the tree,
and `Node.ofJson?` reads one back or answers a `FormError`. Reading a field
that has to be a list of names takes whatever is empty for the empty list,
and the characters of a text or the names of an object for their list;
a list of trees is taken as it is, so only an empty text or object passes
for one.

The reader is a fold: `Form.ofJson` computes, for every part of a JSON value,
what the part is as a tree and as a list of trees, and the reader of a tagged
object picks from the parts. No other recursion is needed, and the fields are
looked at in the order in which a fault in them is reported.
-/

set_option autoImplicit false

namespace Smalltalk

/-- Why a JSON value is not a tree. -/
inductive FormError where
  | notATree (value : Json)
  | unknownTag (tag : Json)
  | missingField (tag field : String)
  | notAList (tag : String) (value : Json)
  | unknownKind (tag : String) (kind : Json)
  | symbolNotText (value : Json)
  | noLiteral (value : Json)

/-- What a field of a wrong sort is called. -/
def FormError.kindComplaint (tag : String) : String :=
  if tag = "assign" then "Unknown assignment target type: " else "Unknown reference type: "

/-- The words of a fault. -/
def FormError.message : FormError → String
  | notATree value => "Not a node: " ++ value.inspect
  | unknownTag tag => "Unknown node type '" ++ tag.plain ++ "'"
  | missingField tag field => "Node '" ++ tag ++ "' is missing field " ++ Text.inspect field
  | notAList tag value =>
    "Bad '" ++ tag ++ "' node: '" ++ value.typeName ++ "' object is not iterable"
  | unknownKind tag kind => "Bad '" ++ tag ++ "' node: " ++ kindComplaint tag ++ kind.plain
  | symbolNotText value => "Symbol literal must be a string: " ++ value.inspect
  | noLiteral value => "No literal form for " ++ value.inspect

namespace Node

/-! ### Writing -/

/-- The object for a tree of a sort. -/
def tagged (tag : String) (fields : List (String × Json)) : Json :=
  .obj (("node", .str tag) :: fields)

/-- The field for a primitive number, where there is one. -/
def primitiveField : Json → List (String × Json)
  | .null => []
  | primitive => [("primitive", primitive)]

mutual
/-- The object that stands for a tree in an image. -/
def toJson : Node → Json
  | self => tagged "self" []
  | super => tagged "super" []
  | reference name kind index =>
    tagged "reference" [("name", name), ("kind", .str kind.word), ("index", index)]
  | literal value => tagged "literal" [("value", value.toJson)]
  | symbol name => tagged "symbol" [("value", .str name)]
  | literalArray elements => tagged "literalArray" [("elements", .arr (listToJson elements))]
  | sequence temps statements =>
    tagged "sequence" [("temps", .arr temps), ("statements", .arr (listToJson statements))]
  | block params temps statements =>
    tagged "block" [("params", .arr params), ("temps", .arr temps),
      ("statements", .arr (listToJson statements))]
  | send receiver selector args =>
    tagged "send" [("receiver", toJson receiver), ("selector", selector),
      ("args", .arr (listToJson args))]
  | assign name kind index value =>
    tagged "assign" [("name", name), ("kind", .str kind.word), ("index", index),
      ("value", toJson value)]
  | answer value => tagged "answer" [("value", toJson value)]
  | method selector params temps statements primitive =>
    tagged "method" ([("selector", selector), ("args", .arr params), ("temps", .arr temps),
      ("statements", .arr (listToJson statements))] ++ primitiveField primitive)

/-- `toJson`, tree by tree. -/
def listToJson : List Node → List Json
  | [] => []
  | node :: rest => toJson node :: listToJson rest
end

/-! ### Reading -/

mutual
/-- The literal tree for a JSON value: a list becomes a literal array, and an
object has no literal form. -/
def ofLiteral? : Json → Except FormError Node
  | .null => .ok (literal .nil)
  | .bool b => .ok (literal (.bool b))
  | .int i => .ok (literal (.int i))
  | .float x => .ok (literal (.float x))
  | .str s => .ok (literal (.text s 0))
  | .arr items => (ofLiterals? items).map literalArray
  | .obj fields => .error (.noLiteral (.obj fields))

/-- `ofLiteral?`, item by item. -/
def ofLiterals? : List Json → Except FormError (List Node)
  | [] => .ok []
  | item :: rest => do
    let node ← ofLiteral? item
    let nodes ← ofLiterals? rest
    pure (node :: nodes)
end

end Node

/-- A JSON value with what it is when read as a tree, and when read as a list of
trees inside a tree with some tag. -/
structure Form where
  json : Json
  tree : Except FormError Node
  trees : String → Except FormError (List Node)

namespace Form

/-- The fields of an object, read. -/
abbrev Fields := List (String × Form)

/-- A field that a tree needs. -/
def Fields.need (fields : Fields) (tag name : String) : Except FormError Form :=
  match fields.lookup name with
  | some form => .ok form
  | none => .error (.missingField tag name)

/-- A field that may be absent, which counts as null. -/
def Fields.orNull (fields : Fields) (name : String) : Json :=
  match fields.lookup name with
  | some form => form.json
  | none => .null

/-- A list of names: nothing where the field is absent or empty. -/
def Fields.names (fields : Fields) (tag name : String) : Except FormError (List Json) :=
  let value := fields.orNull name
  if value.truthy then
    match value.elements? with
    | some names => .ok names
    | none => .error (.notAList tag value)
  else .ok []

/-- The kind of a variable. -/
def kind (tag : String) (form : Form) : Except FormError VariableKind :=
  match VariableKind.ofJson? form.json with
  | some kind => .ok kind
  | none => .error (.unknownKind tag form.json)

/-- The tree that an object with these fields and this tag is. Trees among the
fields are read before the lists of names are taken apart. -/
def Fields.tree (fields : Fields) (tag : String) : Except FormError Node :=
  match tag with
  | "self" => .ok .self
  | "super" => .ok .super
  | "reference" => do
    let name ← fields.need tag "name"
    let kind ← (← fields.need tag "kind").kind tag
    pure (.reference name.json kind (fields.orNull "index"))
  | "literal" => do
    let value ← fields.need tag "value"
    Node.ofLiteral? value.json
  | "symbol" => do
    let value ← fields.need tag "value"
    match value.json with
    | .str s => pure (.symbol s)
    | value => .error (.symbolNotText value)
  | "literalArray" => do
    let elements ← (← fields.need tag "elements").trees tag
    pure (.literalArray elements)
  | "sequence" => do
    let statements ← (← fields.need tag "statements").trees tag
    let temps ← fields.names tag "temps"
    pure (.sequence temps statements)
  | "block" => do
    let statements ← (← fields.need tag "statements").trees tag
    let params ← fields.names tag "params"
    let temps ← fields.names tag "temps"
    pure (.block params temps statements)
  | "send" => do
    let receiver ← (← fields.need tag "receiver").tree
    let selector ← fields.need tag "selector"
    -- no arguments may be left out, but null is no list
    let args ←
      match fields.lookup "args" with
      | some form => form.trees tag
      | none => pure []
    pure (.send receiver selector.json args)
  | "assign" => do
    let name ← fields.need tag "name"
    -- a kind that is there but wrong is reported behind the faults of the value
    let kindForm ← fields.need tag "kind"
    let value ← (← fields.need tag "value").tree
    let kind ← kindForm.kind tag
    pure (.assign name.json kind (fields.orNull "index") value)
  | "answer" => do
    let value ← (← fields.need tag "value").tree
    pure (.answer value)
  | "method" => do
    let selector ← fields.need tag "selector"
    let statements ← (← fields.need tag "statements").trees tag
    let params ← fields.names tag "args"
    let temps ← fields.names tag "temps"
    pure (.method selector.json params temps statements (fields.orNull "primitive"))
  | _ => .error (.unknownTag (.str tag))

/-- The tree that an object is. -/
def ofFields (json : Json) (fields : Fields) : Except FormError Node :=
  match fields.lookup "node" with
  | none => .error (.notATree json)
  | some form =>
    match form.json with
    | .str tag => fields.tree tag
    | tag => .error (.unknownTag tag)

/-- The trees that the parts of a list are. -/
def all : List Form → Except FormError (List Node)
  | [] => .ok []
  | form :: rest => do
    let tree ← form.tree
    let trees ← all rest
    pure (tree :: trees)

/-- Something that is gone through part by part, and whose parts are no trees:
it is a list of trees only if it has no parts. -/
def noTrees (parts : List Json) : Except FormError (List Node) :=
  match parts with
  | [] => .ok []
  | part :: _ => .error (.notATree part)

mutual
/-- Everything that a JSON value is. -/
def ofJson : Json → Form
  | .arr items =>
    -- the items are read once, however often the form is asked
    let trees := all (ofItems items)
    ⟨.arr items, .error (.notATree (.arr items)), fun _ => trees⟩
  | .obj fields =>
    ⟨.obj fields, ofFields (.obj fields) (ofNamed fields),
      fun _ => noTrees (fields.map fun f => .str f.1)⟩
  | .str s =>
    ⟨.str s, .error (.notATree (.str s)),
      fun _ => noTrees (s.toList.map fun c => .str (String.singleton c))⟩
  | value => ⟨value, .error (.notATree value), fun tag => .error (.notAList tag value)⟩

/-- `ofJson`, item by item. -/
def ofItems : List Json → List Form
  | [] => []
  | item :: rest => ofJson item :: ofItems rest

/-- `ofJson`, field by field. -/
def ofNamed : List (String × Json) → Fields
  | [] => []
  | (name, value) :: rest => (name, ofJson value) :: ofNamed rest
end

end Form

/-- The tree that a JSON value stands for. -/
def Node.ofJson? (json : Json) : Except FormError Node := (Form.ofJson json).tree

end Smalltalk
