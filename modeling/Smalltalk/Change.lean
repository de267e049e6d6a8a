import Smalltalk.Memory

/-!
# `Smalltalk.Change`: defining classes and installing methods

A `Change` edits the classes and globals of a memory, or ends with a fault.
What it has done before the fault stays done.
-/

set_option autoImplicit false

namespace Smalltalk

/-- An edit of a memory. -/
abbrev Change := EStateM Fault Memory

namespace Change

/-- A value that there may be a fault instead of. -/
def ofExcept {α : Type} : Except Fault α → Change α
  | .ok a => pure a
  | .error f => throw f

/-- Changes the classes. -/
def changeRegistry (f : Registry → Registry) : Change Unit :=
  modify fun m => { m with registry := f m.registry }

/-- Writes a line into the journal, if one is kept. -/
def note (line : String) : Change Unit := modify fun m => m.note line

/-- Gives the text literals of a tree their identity. -/
def place (node : Node) : Change Node :=
  modifyGet fun m =>
    let (m, node) := m.place node
    (node, m)

end Change

namespace Registry

/-- The class that a name stands for. -/
def named (r : Registry) (name : Json) : Except Fault ClassId :=
  match name with
  | .str s =>
    match r.find? s with
    | some id => .ok id
    | none => .error (.unknownClass s)
  | name =>
    match Fault.keyOf name with
    | .ok _ => .error (.nameNotText name)
    | .error f => .error f

/-- The class that a superclass stands for, where null stands for none. -/
def parent (r : Registry) (superclass : Json) : Except Fault (Option ClassId) :=
  match superclass with
  | .null => .ok none
  | superclass => (r.named superclass).map some

end Registry

namespace Change

/-- The list of names that a value stands for; whatever is empty stands for none. -/
def namesOf (value : Json) : Except Fault (List Json) :=
  if value.truthy then
    match value.elements? with
    | some names => .ok names
    | none => .error (.notAList value)
  else .ok []

/-- Defines a class and binds its name as a global. Where `indexable` is null the
class is as indexable as its superclass. -/
def define (name superclass instanceVariables indexable : Json) : Change ClassId := do
  let m ← get
  let parent ← ofExcept (m.registry.parent superclass)
  -- null and false differ here: a class can be less indexable than its superclass
  let indexable :=
    match indexable, parent with
    | .null, none => .bool false
    | .null, some id => (m.registry.entry id).indexable
    | indexable, _ => indexable
  let declared ← ofExcept (namesOf instanceVariables)
  match name with
  | .str s =>
    modifyGet fun m =>
      let (registry, id) := m.registry.define s parent declared indexable
      (id, { m with
        registry
        globals := m.globals.put (.text s) name (.behavior ⟨id, false⟩) })
  | name => throw (.notAName name)

/-- Installs a method in its owner, under a protocol. -/
def install (method : Method) (protocol : Json) : Change Unit := do
  let protocolKey ← ofExcept (Fault.keyOf protocol)
  changeRegistry fun r => r.updateTable method.owner fun t => t.addProtocol protocolKey protocol
  -- a selector that names nothing leaves the protocol behind
  let key ← ofExcept (Fault.keyOf method.selector)
  changeRegistry fun r => r.updateTable method.owner fun t => t.install protocolKey key method

/-- Compiles a method tree into a class or metaclass. -/
def compile (owner : Behavior) (node : Node) (protocol : Json) : Change Method :=
  match Method.ofNode? owner node with
  | some method => do
    install method protocol
    pure method
  | none => throw .notAMethod

end Change

end Smalltalk
