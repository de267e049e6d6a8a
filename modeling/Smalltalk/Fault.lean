import Smalltalk.Node.Form
import Smalltalk.Value

/-!
# `Smalltalk.Fault`: why a request has no answer

A `Fault` is a cause, with what the message says about it. The faults fall
in two groups. The first are the errors of programs and images: a variable
that nobody declares, a message nobody understands, a return to an
activation that is over. The second are misuses that no well-made tree
contains, such as a list where a name belongs (`Fault.isMisuse`).

Messages are made when the fault arises, because the values they show can
change afterwards.
-/

set_option autoImplicit false

namespace Smalltalk

/-- Why a request has no answer. Texts named `shown` are values as messages show
them. -/
inductive Fault where
  | unresolvedVariable (name : String)
  | unresolvedGlobal (name : String)
  | doesNotUnderstand (className selector : String)
  | arityMismatch (callee : String) (expected given : Nat)
  | deadReturn (value : Value) (shown : String)
  | noInstanceVariables (shown : String)
  | badSlot (index : Json) (shown : String)
  | notEvaluable (sort : String)
  | signalled (message : String)
  | noClass (shown : String)
  | nonBoolean (value : Value) (shown : String)
  | tooDeep (activity : String)
  | malformed (error : FormError)
  | image (message : String)
  | notAName (name : Json)
  | nameNotText (name : Json)
  | notAnIndex (index : Json)
  | notAList (value : Json)
  | notANumber (value : Json)
  | notFinite (x : Float)
  | noMethod
  | notAMethod
  | notAClosure
  | beyondFloat (i : Int)
  | unknownClass (name : String)
  | unknownName (name : String)
  | endless

namespace Fault

/-- Whether the fault is a misuse that no well-made tree or request contains. -/
def isMisuse : Fault → Bool
  | notAName _ | nameNotText _ | notAnIndex _ | notAList _ | notANumber _ | notFinite _
  | noMethod | notAMethod | notAClosure | beyondFloat _ | unknownClass _ | unknownName _
  | endless => true
  | _ => false

/-- The words of a fault. -/
def message : Fault → String
  | unresolvedVariable name => "Unresolved variable '" ++ name ++ "'"
  | unresolvedGlobal name => "Unresolved global '" ++ name ++ "'"
  | doesNotUnderstand className selector => className ++ " does not understand #" ++ selector
  | arityMismatch callee expected given =>
    callee ++ " expects " ++ toString expected ++ " argument(s), got " ++ toString given
  | deadReturn _ shown => "Cannot return " ++ shown ++ ": home context is dead"
  | noInstanceVariables shown => shown ++ " has no instance variables"
  | badSlot index shown =>
    "Bad instance variable index " ++ index.inspect ++ " for " ++ shown
  | notEvaluable sort => "Cannot evaluate node " ++ sort
  | signalled message => message
  | noClass shown => "No class for host value " ++ shown
  | nonBoolean _ shown => "Loop condition answered non-boolean " ++ shown
  | tooDeep activity => "Stack depth exceeded " ++ activity
  | malformed error => error.message
  | image message => message
  | notAName name => "unhashable type: '" ++ name.typeName ++ "'"
  | nameNotText name =>
    match name with
    | .bool _ | .int _ | .float _ =>
      "Unknown format code 's' for object of type '" ++ name.typeName ++ "'"
    | _ => "unsupported format string passed to " ++ name.typeName ++ ".__format__"
  | notAnIndex index => "'" ++ index.typeName ++ "' is not an index"
  | notAList value => "'" ++ value.typeName ++ "' object is not iterable"
  | notANumber value => "a number is required, not " ++ value.typeName
  | notFinite x => "cannot convert float " ++ Binary64.text x ++ " to integer"
  | noMethod => "the frame runs no method"
  | notAMethod => "the tree is not a method"
  | notAClosure => "the value is not a closure"
  | beyondFloat _ => "int too large to convert to float"
  | unknownClass name => "Unknown class '" ++ name ++ "'"
  | unknownName name => name
  | endless => "the value contains itself"

/-- The key of a name, or the fault that it names nothing. -/
def keyOf (name : Json) : Except Fault Key :=
  match name.key? with
  | some key => .ok key
  | none => .error (.notAName name)

theorem keyOf_eq_ok {name : Json} {key : Key} :
    keyOf name = .ok key ↔ name.key? = some key := by
  unfold keyOf
  cases name.key? <;> simp

theorem keyOf_eq_error {name : Json} {f : Fault} :
    keyOf name = .error f ↔ name.key? = none ∧ f = .notAName name := by
  unfold keyOf
  cases name.key? <;> simp [eq_comm]

/-- The text that a message has for a name, or the fault that there is none. -/
def wordOf (name : Json) : Except Fault String :=
  match name with
  | .str s => .ok s
  | name => .error (.nameNotText name)

/-- The text of a number without its fraction, or the fault that there is none. -/
def wholeOf (number : Json) : Except Fault String :=
  match number with
  | .bool b => .ok (if b then "1" else "0")
  | .int i => .ok (toString i)
  | .float x =>
    match Binary64.truncate? x with
    | some i => .ok (toString i)
    | none => .error (.notFinite x)
  | value => .error (.notANumber value)

/-- A fault about a name, if the name can be put into a message. -/
def about (name : Json) (fault : String → Fault) : Fault :=
  match wordOf name with
  | .ok word => fault word
  | .error e => e

end Fault

end Smalltalk
