import Smalltalk.Node

/-!
# `Smalltalk.Node.Short`: trees built by hand

Short ways to write the trees that occur often: variables and assignments by
kind, sends without and with arguments, literals.
-/

set_option autoImplicit false

namespace Smalltalk.Node

/-- A temp. -/
def temp (name : Json) : Node := reference name .temp .null

/-- An argument. -/
def arg (name : Json) : Node := reference name .arg .null

/-- An instance variable with its index. -/
def instVar (name index : Json) : Node := reference name .instvar index

/-- A global. -/
def global (name : Json) : Node := reference name .global .null

/-- An assignment to a temp. -/
def setTemp (name : Json) (value : Node) : Node := assign name .temp .null value

/-- An assignment to an instance variable. -/
def setInstVar (name index : Json) (value : Node) : Node := assign name .instvar index value

/-- An assignment to a global. -/
def setGlobal (name : Json) (value : Node) : Node := assign name .global .null value

/-- A send by the selector's text. -/
def call (receiver : Node) (selector : String) (args : List Node) : Node :=
  send receiver (.str selector) args

/-- The answer of a send. -/
def answerCall (receiver : Node) (selector : String) (args : List Node) : Node :=
  answer (call receiver selector args)

/-- An integer. -/
def int (i : Int) : Node := literal (.int i)

/-- A boolean. -/
def bool (b : Bool) : Node := literal (.bool b)

/-- A block without temps. -/
def blockOf (params : List String) (statements : List Node) : Node :=
  block (params.map .str) [] statements

end Smalltalk.Node
