import Smalltalk.Change
import Smalltalk.Json.Reader

/-!
# `Smalltalk.Image`: loading and saving class definitions

An image is a list of class definitions. A definition without a superclass,
of a name that is registered, only adds methods to the class; any other
defines a class. Loading goes definition by definition and method by method,
the instance side before the class side; a fault leaves in place what was
done before it.

`Image.ofClass` is the definition of a class as it stands, and `Image.save`
the text of several.
-/

set_option autoImplicit false

namespace Smalltalk.Image

/-! ### Loading -/

/-- Compiles the methods of one side, in order. -/
def loadMethods (className : String) (owner : Behavior) :
    List (String × Json) → Change Unit
  | [] => pure ()
  | (selector, json) :: rest => do
    match Node.ofJson? json with
    | .error e => throw (.malformed e)
    | .ok node =>
      let word := className ++ ">>" ++ selector
      match Method.ofNode? owner node with
      | none => throw (.image (word ++ " is not a method node"))
      | some method =>
        let matching :=
          match method.selector with
          | .str s => s == selector
          | _ => false
        -- the methods before this one stay installed, whatever becomes of it
        if matching then do
          let _ ← Change.compile owner (← Change.place node) (.str "image")
          loadMethods className owner rest
        else
          throw (.image (word ++ " holds a method for #" ++ method.selector.plain))

/-- Compiles the methods under a field of a definition. -/
def loadSide (className : String) (owner : Behavior) (methods : Option Json) : Change Unit :=
  match methods with
  | none => pure ()
  | some (.obj fields) => loadMethods className owner fields
  | some _ => throw (.image ("Methods of " ++ className ++ " must be a dictionary"))

/-- Whether a definition can name this superclass; null names none. -/
def checkSuperclass (r : Registry) (name : String) (superclass : Json) : Except Fault Unit :=
  match superclass with
  | .null => .ok ()
  | superclass =>
    match r.named superclass with
    | .ok _ => .ok ()
    | .error (.notAName n) => .error (.notAName n)
    | .error _ =>
      .error (.image ("Unknown superclass '" ++ superclass.plain ++ "' for " ++ name))

/-- The class that a definition is about: the one that it extends, or a new one. -/
def classFor (name : String) (fields : List (String × Json)) : Change ClassId := do
  let m ← get
  match m.registry.find? name, fields.lookup "superclass" with
  | some id, none =>
    if ((fields.lookup "instanceVariables").getD .null).truthy then
      throw (.image ("Cannot add instance variables to existing class " ++ name))
    else
      Change.note ("treetalk.image: extending " ++ name)
      pure id
  -- a superclass that is written as null still makes a new class
  | _, superclass =>
    let superclass := superclass.getD .null
    Change.ofExcept (checkSuperclass m.registry name superclass)
    let id ← Change.define (.str name) superclass
      ((fields.lookup "instanceVariables").getD (.arr []))
      ((fields.lookup "indexable").getD .null)
    Change.note ("treetalk.image: defined " ++ name)
    pure id

/-- Loads one definition. -/
def loadDefinition (definition : Json) : Change ClassId :=
  match definition with
  | .obj fields =>
    match fields.lookup "name" with
    | some (.str name) => do
      let id ← classFor name fields
      loadSide name ⟨id, false⟩ (fields.lookup "methods")
      loadSide name ⟨id, true⟩ (fields.lookup "classMethods")
      pure id
    | _ => throw (.image ("Class definition without a name: " ++ definition.inspect))
  | _ => throw (.image ("Class definition without a name: " ++ definition.inspect))

/-- Loads definitions, in order. -/
def load (image : Json) : Change (List ClassId) :=
  match image with
  | .arr definitions => definitions.mapM loadDefinition
  | _ => throw (.image "An image is a list of class definitions")

/-- A text with every line ended by a line feed. -/
def unixLines : List Char → List Char
  | [] => []
  | '\r' :: '\n' :: rest => '\n' :: unixLines rest
  | '\r' :: rest => '\n' :: unixLines rest
  | c :: rest => c :: unixLines rest

/-- Loads the text of a file. -/
def loadText (file text : String) : Change (List ClassId) :=
  let cs := unixLines text.toList
  match Json.read cs with
  | .ok image => load image
  | .error e => throw (.image (file ++ ": not valid JSON: " ++ e.message cs))

/-! ### Saving -/

/-- The name of a field for a selector. -/
def fieldName : Json → String
  | .str s => s
  | selector => selector.scalarText

/-- The methods of one side. -/
def ofMethods (t : MethodTable) : Json :=
  .obj (t.methods.entries.map fun e => (fieldName e.name, e.value.toNode.toJson))

/-- The definition of a class. -/
def ofClass (r : Registry) (id : ClassId) : Json :=
  let entry := r.entry id
  let superclass :=
    match entry.ancestors with
    | s :: _ => .str (r.entry s).name
    | [] => .null
  .obj [("name", .str entry.name), ("superclass", superclass),
    ("instanceVariables", .arr entry.instanceVariables), ("indexable", entry.indexable),
    ("methods", ofMethods entry.instanceSide), ("classMethods", ofMethods entry.classSide)]

/-- The text of an image with these classes. -/
def save (r : Registry) (classes : List ClassId) : String :=
  (Json.arr (classes.map (ofClass r))).indented

end Smalltalk.Image
