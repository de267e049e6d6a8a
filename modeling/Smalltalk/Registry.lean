import Smalltalk.Dictionary
import Smalltalk.Node
import Smalltalk.Value

/-!
# `Smalltalk.Registry`: classes and their methods

A class never changes its superclass, so it holds the whole line of its
ancestors, nearest first: every chain of superclasses is finite by its type.
The metaclass of a class is the other side of the same entry, and the
ancestors of a metaclass are the metaclasses of the ancestors. The line of a
metaclass goes on with the class that is registered as `Class`
(`Registry.line`).

Classes are registered by name. Defining a name again binds it to a new
class; the class that had it before stays as it is for its instances and
subclasses.

`Registry.lookup?` is the first method in a line; `Registry.layout` are the
names of the instance variables, inherited ones first.
-/

set_option autoImplicit false

namespace Smalltalk

/-- A method as it is installed in a class or metaclass. -/
structure Method where
  selector : Json
  params : List Json
  temps : List Json
  statements : List Node
  primitive : Json
  owner : Behavior
deriving Inhabited

namespace Method

/-- How many arguments the method takes. -/
def arity (m : Method) : Nat := m.params.length

/-- Whether the method names a primitive, registered or not. -/
def isPrimitive (m : Method) : Bool :=
  match m.primitive with
  | .null => false
  | _ => true

/-- The method that a method tree describes, for an owner. -/
def ofNode? (owner : Behavior) : Node → Option Method
  | .method selector params temps statements primitive =>
    some ⟨selector, params, temps, statements, primitive, owner⟩
  | _ => none

/-- The tree of a method. -/
def toNode (m : Method) : Node :=
  .method m.selector m.params m.temps m.statements m.primitive

end Method

/-- The methods of one side of a class: by selector, and by protocol and
selector. -/
structure MethodTable where
  methods : Dictionary Method := {}
  protocols : Dictionary (Dictionary Method) := {}
deriving Inhabited

namespace MethodTable

/-- Makes a protocol known. -/
def addProtocol (t : MethodTable) (key : Key) (name : Json) : MethodTable :=
  if t.protocols.contains key then t
  else { t with protocols := t.protocols.put key name {} }

/-- Files a method under its selector, in a protocol that is known. -/
def install (t : MethodTable) (protocol key : Key) (m : Method) : MethodTable where
  methods := t.methods.put key m.selector m
  protocols :=
    match t.protocols.find? protocol with
    | some listed => t.protocols.put protocol .null (listed.put key m.selector m)
    | none => t.protocols

end MethodTable

/-- A class with both its sides. -/
structure ClassEntry where
  name : String
  ancestors : List ClassId
  instanceVariables : List Json
  indexable : Json
  instanceSide : MethodTable := {}
  classSide : MethodTable := {}
deriving Inhabited

/-- All classes ever defined, and those that names stand for, in the order in
which the names were first defined. -/
structure Registry where
  classes : Array ClassEntry := #[]
  names : List (String × ClassId) := []
deriving Inhabited

namespace Registry

/-- The entry of a class. -/
def entry (r : Registry) (id : ClassId) : ClassEntry := r.classes.getD id default

/-- The class registered under a name. -/
def find? (r : Registry) (name : String) : Option ClassId := r.names.lookup name

/-- The name of a class or metaclass. -/
def nameOf (r : Registry) (b : Behavior) : String :=
  if b.isMeta then (r.entry b.id).name ++ " class" else (r.entry b.id).name

/-- The methods of a class or metaclass. -/
def table (r : Registry) (b : Behavior) : MethodTable :=
  if b.isMeta then (r.entry b.id).classSide else (r.entry b.id).instanceSide

/-- A class and its ancestors, nearest first. -/
def lineage (r : Registry) (id : ClassId) : List ClassId := id :: (r.entry id).ancestors

/-- The class registered as `Class`, and its ancestors. -/
def classLine (r : Registry) : List Behavior :=
  match r.find? "Class" with
  | some c => (r.lineage c).map fun id => ⟨id, false⟩
  | none => []

/-- Where methods are looked for, nearest first: the ancestors on the same side,
and behind the metaclasses the line of `Class`. -/
def line (r : Registry) (b : Behavior) : List Behavior :=
  if b.isMeta then (r.lineage b.id).map (fun id => ⟨id, true⟩) ++ r.classLine
  else (r.lineage b.id).map fun id => ⟨id, false⟩

/-- The next in the line of a class or metaclass. -/
def superclass? (r : Registry) (b : Behavior) : Option Behavior :=
  match (r.entry b.id).ancestors with
  | id :: _ => some ⟨id, b.isMeta⟩
  -- the metaclass of a root comes before the class registered as `Class`
  | [] => if b.isMeta then (r.find? "Class").map fun id => ⟨id, false⟩ else none

/-- The method that a line has first for a selector. -/
def lookup? (r : Registry) (selector : Key) (b : Behavior) : Option Method :=
  (r.line b).findSome? fun c => (r.table c).methods.find? selector

/-- The names of a class's instance variables, those of the oldest ancestor
first. A metaclass declares none. -/
def layout (r : Registry) (b : Behavior) : List Json :=
  if b.isMeta then []
  else (r.lineage b.id).reverse.flatMap fun id => (r.entry id).instanceVariables

/-- The place of an instance variable in the layout of a class. -/
def slotIndex? (r : Registry) (b : Behavior) (name : Json) : Option Nat :=
  (r.layout b).findIdx? fun declared => declared.same name

/-- Whether instances have indexed elements. -/
def isIndexable (r : Registry) (b : Behavior) : Bool :=
  !b.isMeta && (r.entry b.id).indexable.truthy

/-- Whether a name still stands for this class, or the class of this metaclass. -/
def isRegistered (r : Registry) (b : Behavior) : Bool :=
  r.find? (r.entry b.id).name == some b.id

/-- Binds a name to a class, in its old place where the name is known. -/
def bind (name : String) (id : ClassId) : List (String × ClassId) → List (String × ClassId)
  | [] => [(name, id)]
  | (n, i) :: rest => if n = name then (n, id) :: rest else (n, i) :: bind name id rest

/-- Defines a class under a name. -/
def define (r : Registry) (name : String) (superclass : Option ClassId)
    (instanceVariables : List Json) (indexable : Json) : Registry × ClassId :=
  let id := r.classes.size
  let ancestors :=
    match superclass with
    | some s => r.lineage s
    | none => []
  ({ classes := r.classes.push ⟨name, ancestors, instanceVariables, indexable, {}, {}⟩
     names := bind name id r.names }, id)

/-- Changes the methods of a class or metaclass. -/
def updateTable (r : Registry) (b : Behavior) (change : MethodTable → MethodTable) : Registry :=
  { r with classes := r.classes.modify b.id fun e =>
      if b.isMeta then { e with classSide := change e.classSide }
      else { e with instanceSide := change e.instanceSide } }

end Registry

end Smalltalk
