import Smalltalk.Change
import Smalltalk.Node.Short

/-!
# `Smalltalk.Kernel`: the classes that every system starts with

`Kernel.memory` is a memory with the kernel classes, their methods in the
protocol `kernel`, and nil, true and false bound as globals for code that
reads them by name.

A method with a primitive carries as its body what to do when the primitive
fails. Where nothing better is known the body answers `self primitiveFailed`,
which ends in `error:`.
-/

set_option autoImplicit false

namespace Smalltalk.Kernel

open Node

/-- A kernel class: its name, that of its superclass, and whether its instances
have indexed elements. -/
structure ClassSpec where
  name : String
  superclass : Option String
  indexable : Bool := false

/-- The kernel classes, each behind its superclass. -/
def classes : List ClassSpec := [
  ⟨"Object", none, false⟩,
  ⟨"Class", some "Object", false⟩,
  ⟨"UndefinedObject", some "Object", false⟩,
  ⟨"Boolean", some "Object", false⟩,
  ⟨"True", some "Boolean", false⟩,
  ⟨"False", some "Boolean", false⟩,
  ⟨"Magnitude", some "Object", false⟩,
  ⟨"Number", some "Magnitude", false⟩,
  ⟨"SmallInteger", some "Number", false⟩,
  ⟨"Float", some "Number", false⟩,
  ⟨"Collection", some "Object", false⟩,
  ⟨"Array", some "Collection", true⟩,
  ⟨"String", some "Collection", true⟩,
  ⟨"Symbol", some "String", true⟩,
  ⟨"BlockClosure", some "Object", false⟩]

/-! ### Building methods -/

/-- A method without primitive and temps. -/
def plain (selector : String) (params : List String) (statements : List Node) : Node :=
  method (.str selector) (params.map .str) [] statements .null

/-- A method that answers the value of a tree. -/
def answering (selector : String) (params : List String) (value : Node) : Node :=
  plain selector params [answer value]

/-- A method with a primitive and a body for when it fails. -/
def byPrimitiveOr (selector : String) (number : Int) (params : List String)
    (fallback : Node) : Node :=
  method (.str selector) (params.map .str) [] [answer fallback] (.int number)

/-- A method with a primitive that must not fail. -/
def byPrimitive (selector : String) (number : Int) (params : List String) : Node :=
  byPrimitiveOr selector number params (call self "primitiveFailed" [])

/-- An argument by its text. -/
def argument (name : String) : Node := arg (.str name)

/-! ### The methods -/

/-- What every object understands. -/
def ofObject : List Node :=
  let other := argument "anObject"
  [byPrimitive "==" 110 ["anObject"],
    byPrimitiveOr "~~" 169 ["anObject"] (call (call self "==" [other]) "not" []),
    answering "=" ["anObject"] (call self "==" [other]),
    answering "~=" ["anObject"] (call (call self "=" [other]) "not" []),
    byPrimitive "class" 111 [],
    plain "yourself" [] [],
    answering "isNil" [] (bool false),
    answering "notNil" [] (bool true),
    answering "isNumber" [] (bool false),
    plain "ifNil:" ["aBlock"] [],
    answering "ifNotNil:" ["aBlock"] (call (argument "aBlock") "value:" [self]),
    byPrimitive "at:" 60 ["index"],
    byPrimitive "at:put:" 61 ["index", "value"],
    byPrimitiveOr "size" 62 [] (int 0),
    byPrimitive "instVarAt:" 73 ["index"],
    byPrimitive "instVarAt:put:" 74 ["index", "value"],
    byPrimitive "printString" 501 [],
    byPrimitive "error:" 502 ["aString"],
    answering "primitiveFailed" []
      (call self "error:" [literal (.text "a primitive has failed" 0)])]

/-- What every class understands. -/
def ofClass : List Node := [
  byPrimitive "basicNew" 70 [],
  byPrimitive "basicNew:" 71 ["size"],
  answering "new" [] (call self "basicNew" []),
  answering "new:" ["size"] (call self "basicNew:" [argument "size"])]

/-- What nil understands. -/
def ofNil : List Node := [
  answering "isNil" [] (bool true),
  answering "notNil" [] (bool false),
  answering "ifNil:" ["aBlock"] (call (argument "aBlock") "value" []),
  plain "ifNotNil:" ["aBlock"] []]

/-- Runs the block that is an argument. -/
def runs (name : String) : Node := call (argument name) "value" []

/-- What true understands. -/
def ofTrue : List Node := [
  answering "ifTrue:" ["aBlock"] (runs "aBlock"),
  answering "ifFalse:" ["aBlock"] (literal .nil),
  answering "ifTrue:ifFalse:" ["trueBlock", "falseBlock"] (runs "trueBlock"),
  answering "ifFalse:ifTrue:" ["falseBlock", "trueBlock"] (runs "trueBlock"),
  answering "and:" ["aBlock"] (runs "aBlock"),
  answering "or:" ["aBlock"] (bool true),
  answering "&" ["aBoolean"] (argument "aBoolean"),
  answering "|" ["aBoolean"] (bool true),
  answering "not" [] (bool false)]

/-- What false understands. -/
def ofFalse : List Node := [
  answering "ifTrue:" ["aBlock"] (literal .nil),
  answering "ifFalse:" ["aBlock"] (runs "aBlock"),
  answering "ifTrue:ifFalse:" ["trueBlock", "falseBlock"] (runs "falseBlock"),
  answering "ifFalse:ifTrue:" ["falseBlock", "trueBlock"] (runs "falseBlock"),
  answering "and:" ["aBlock"] (bool false),
  answering "or:" ["aBlock"] (runs "aBlock"),
  answering "&" ["aBoolean"] (bool false),
  answering "|" ["aBoolean"] (argument "aBoolean"),
  answering "not" [] (bool true)]

/-- The choice between the receiver and the argument by a comparison. -/
def choosing (selector comparison : String) : Node :=
  answering selector ["aNumber"]
    (call (call self comparison [argument "aNumber"]) "ifTrue:ifFalse:"
      [blockOf [] [self], blockOf [] [argument "aNumber"]])

/-- What every number understands. -/
def ofNumber : List Node :=
  let i := temp (.str "i")
  [answering "isNumber" [] (bool true),
    answering "negated" [] (call (int 0) "-" [self]),
    choosing "max:" ">",
    choosing "min:" "<",
    method (.str "to:do:") [.str "stop", .str "aBlock"] [.str "i"]
      [setTemp (.str "i") self,
        call (blockOf [] [call i "<=" [argument "stop"]]) "whileTrue:"
          [blockOf [] [call (argument "aBlock") "value:" [i],
            setTemp (.str "i") (call i "+" [int 1])]]]
      .null]

/-- An operation on SmallIntegers that is tried again on floats. -/
def retriedOnFloats (selector : String) (number : Int) : Node :=
  byPrimitiveOr selector number ["aNumber"]
    (call (call self "asFloat" []) selector [argument "aNumber"])

/-- What SmallIntegers understand. -/
def ofSmallInteger : List Node :=
  let other := argument "aNumber"
  [retriedOnFloats "+" 1, retriedOnFloats "-" 2, retriedOnFloats "*" 9,
    retriedOnFloats "/" 10, retriedOnFloats "<" 3, retriedOnFloats ">" 4,
    retriedOnFloats "<=" 5, retriedOnFloats ">=" 6,
    byPrimitiveOr "=" 7 ["aNumber"]
      (call (call other "isNumber" []) "and:"
        [blockOf [] [call (call self "asFloat" []) "=" [other]]]),
    byPrimitiveOr "~=" 8 ["aNumber"] (call (call self "=" [other]) "not" []),
    byPrimitive "//" 12 ["aNumber"],
    byPrimitive "\\\\" 11 ["aNumber"],
    byPrimitive "asFloat" 40 []]

/-- What floats understand. -/
def ofFloat : List Node := [
  byPrimitive "+" 41 ["aNumber"], byPrimitive "-" 42 ["aNumber"], byPrimitive "*" 49 ["aNumber"],
  byPrimitive "/" 50 ["aNumber"], byPrimitive "<" 43 ["aNumber"], byPrimitive ">" 44 ["aNumber"],
  byPrimitive "<=" 45 ["aNumber"], byPrimitive ">=" 46 ["aNumber"],
  byPrimitiveOr "=" 47 ["aNumber"] (bool false),
  byPrimitiveOr "~=" 48 ["aNumber"] (call (call self "=" [argument "aNumber"]) "not" []),
  plain "asFloat" [] []]

/-- What every collection understands. -/
def ofCollection : List Node := [
  plain "do:" ["aBlock"]
    [call (int 1) "to:do:" [call self "size" [],
      blockOf ["i"] [call (argument "aBlock") "value:" [call self "at:" [argument "i"]]]]],
  answering "isEmpty" [] (call (call self "size" []) "=" [int 0])]

/-- What texts and symbols understand. -/
def ofString : List Node := [
  byPrimitive "," 500 ["aString"],
  byPrimitiveOr "=" 503 ["aString"] (bool false)]

/-- What closures understand. -/
def ofClosure : List Node := [
  byPrimitive "value" 201 [],
  byPrimitive "value:" 202 ["arg1"],
  byPrimitive "value:value:" 203 ["arg1", "arg2"],
  byPrimitive "value:value:value:" 204 ["arg1", "arg2", "arg3"],
  byPrimitive "value:value:value:value:" 205 ["arg1", "arg2", "arg3", "arg4"],
  byPrimitive "valueWithArguments:" 206 ["anArray"],
  byPrimitive "numArgs" 207 [],
  byPrimitive "whileTrue:" 510 ["aBlock"],
  byPrimitive "whileFalse:" 511 ["aBlock"]]

/-- The methods of the kernel classes. -/
def methods : List (String × List Node) := [
  ("Object", ofObject),
  ("Class", ofClass),
  ("UndefinedObject", ofNil),
  ("True", ofTrue),
  ("False", ofFalse),
  ("Number", ofNumber),
  ("SmallInteger", ofSmallInteger),
  ("Float", ofFloat),
  ("Collection", ofCollection),
  ("String", ofString),
  ("BlockClosure", ofClosure)]

/-! ### The memory -/

/-- Defines the kernel classes, compiles their methods and binds the globals. -/
def build : Change Unit := do
  for c in classes do
    let superclass :=
      match c.superclass with
      | some s => .str s
      | none => .null
    let _ ← Change.define (.str c.name) superclass .null (.bool c.indexable)
  for (name, nodes) in methods do
    let m ← get
    let id ← Change.ofExcept (m.registry.named (.str name))
    for node in nodes do
      let _ ← Change.compile ⟨id, false⟩ (← Change.place node) (.str "kernel")
  modify fun m => { m with
    globals := ((m.globals.put (.text "nil") (.str "nil") .nil).put
      (.text "true") (.str "true") (.bool true)).put (.text "false") (.str "false") (.bool false) }

/-- The memory that every system starts with. -/
def memory : Memory :=
  match build.run {} with
  | .ok _ m => m
  -- no definition above fails
  | .error _ m => m

end Smalltalk.Kernel
