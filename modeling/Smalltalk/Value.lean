import Smalltalk.Json

/-!
# `Smalltalk.Value`: what expressions answer

Numbers, booleans, nil, symbols and texts are values outright. Arrays,
objects, closures and classes are references: their contents live in a
`Heap` or a `Registry`, so every alias sees a change.

Texts cannot change, but programs can ask whether two of them are the same
object, so a text knows where it comes from (`TextOrigin`). Numbers and
symbols are the same object when they are equal.
-/

set_option autoImplicit false

namespace Smalltalk

/-- A class, by the order of definition. -/
abbrev ClassId := Nat

/-- An array in the heap. -/
abbrev ArrayId := Nat

/-- An object in the heap. -/
abbrev ObjectId := Nat

/-- A closure in the heap. -/
abbrev ClosureId := Nat

/-- An activation in the heap. -/
abbrev FrameId := Nat

/-- Something that holds methods: a class or its metaclass. -/
structure Behavior where
  id : ClassId
  isMeta : Bool := false
deriving DecidableEq, Repr, Inhabited

/-- The metaclass of a class. -/
def Behavior.metaclass (b : Behavior) : Behavior := { b with isMeta := true }

/-- Where a text comes from: it was made, or read, as the `n`-th; or it is one
of the words that print nil and the booleans and that mark a metaclass; or it is
a class's name. -/
inductive TextOrigin where
  | made (n : Nat)
  | word
  | nameOf (b : Behavior)
deriving DecidableEq, Repr

/-- A value of a program. A foreign value comes from outside and belongs to no
class; its `mark` tells it from an equal one. -/
inductive Value where
  | nil
  | bool (b : Bool)
  | int (i : Int)
  | float (x : Float)
  | text (s : String) (origin : TextOrigin)
  | symbol (s : String)
  | array (id : ArrayId)
  | object (id : ObjectId)
  | closure (id : ClosureId)
  | behavior (b : Behavior)
  | foreign (json : Json) (mark : Nat)
deriving Inhabited

namespace Value

/-- Whether two values are one object. Integers, floats and symbols are when
they are equal, so a float that is no number is never the same as itself. -/
def identical : Value → Value → Bool
  | nil, nil => true
  | bool a, bool b => a == b
  | int a, int b => a == b
  | float a, float b => a == b
  | text s o, text t p => s == t && o == p
  | symbol s, symbol t => s == t
  | array a, array b => a == b
  | object a, object b => a == b
  | closure a, closure b => a == b
  | behavior a, behavior b => a == b
  | foreign _ a, foreign _ b => a == b
  | _, _ => false

/-- The characters of a text or symbol. -/
def chars? : Value → Option String
  | text s _ => some s
  | symbol s => some s
  | _ => none

/-- The kernel class whose instances are written as these values. -/
def kernelClass? : Value → Option String
  | nil => some "UndefinedObject"
  | bool true => some "True"
  | bool false => some "False"
  | int _ => some "SmallInteger"
  | float _ => some "Float"
  | symbol _ => some "Symbol"
  | text _ _ => some "String"
  | array _ => some "Array"
  | closure _ => some "BlockClosure"
  | _ => none

end Value

end Smalltalk
