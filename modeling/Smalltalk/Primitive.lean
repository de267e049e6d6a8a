import Smalltalk.Dictionary

/-!
# `Smalltalk.Primitive`: what a method can be tagged with

A method may name a primitive by number. `Primitive` lists what primitives
there are, `Primitive.numbered` gives them their numbers, and a
`PrimitiveTable` is the choice of them that a system runs with. A primitive
that cannot do its work fails with a `Reason`, and the method's own body
runs instead.
-/

set_option autoImplicit false

namespace Smalltalk

/-- Arithmetic that integers and floats share. -/
inductive Arithmetic where
  | add
  | subtract
  | multiply
deriving DecidableEq, Repr

/-- Comparisons. -/
inductive Comparison where
  | less
  | greater
  | lessOrEqual
  | greaterOrEqual
  | equal
  | different
deriving DecidableEq, Repr

/-- The primitives. -/
inductive Primitive where
  | integer (op : Arithmetic)
  | compareIntegers (op : Comparison)
  | divide
  | modulo
  | floorDivide
  | asFloat
  | float (op : Arithmetic)
  | compareFloats (op : Comparison)
  | divideFloats
  | fetch
  | store
  | count
  | new
  | newSized
  | fetchSlot
  | storeSlot
  | identical
  | notIdentical
  | classOf
  | call (arity : Nat)
  | callWithArray
  | arity
  | join
  | print
  | signal
  | equalTexts
  | whileTrue
  | whileFalse
deriving DecidableEq, Repr

/-- Why a primitive did not do its work. -/
inductive Reason where
  | typeMismatch
  | indexOutOfBounds
  | divisionByZero
  | overflow
  | inexactResult
  | argumentCount
  | notImplemented
deriving DecidableEq, Repr

/-- The word for a reason. -/
def Reason.word : Reason → String
  | typeMismatch => "TypeMismatch"
  | indexOutOfBounds => "IndexOutOfBounds"
  | divisionByZero => "DivisionByZero"
  | overflow => "Overflow"
  | inexactResult => "InexactResult"
  | argumentCount => "ArgumentCount"
  | notImplemented => "NotImplemented"

namespace Primitive

/-- How many arguments a primitive takes. -/
def argumentCount : Primitive → Nat
  | asFloat | count | new | classOf | arity | print => 0
  | store | storeSlot => 2
  | call n => n
  | _ => 1

/-- The primitives with their numbers. -/
def numbered : List (Int × Primitive) := [
  (1, integer .add), (2, integer .subtract), (9, integer .multiply),
  (3, compareIntegers .less), (4, compareIntegers .greater),
  (5, compareIntegers .lessOrEqual), (6, compareIntegers .greaterOrEqual),
  (7, compareIntegers .equal), (8, compareIntegers .different),
  (10, divide), (12, floorDivide), (11, modulo),
  (40, asFloat), (41, float .add), (42, float .subtract), (49, float .multiply),
  (43, compareFloats .less), (44, compareFloats .greater),
  (45, compareFloats .lessOrEqual), (46, compareFloats .greaterOrEqual),
  (47, compareFloats .equal), (48, compareFloats .different), (50, divideFloats),
  (60, fetch), (61, store), (62, count), (70, new), (71, newSized),
  (73, fetchSlot), (74, storeSlot),
  (110, identical), (169, notIdentical), (111, classOf),
  (201, call 0), (202, call 1), (203, call 2), (204, call 3), (205, call 4),
  (206, callWithArray), (207, arity),
  (500, join), (503, equalTexts), (501, print), (502, signal),
  (510, whileTrue), (511, whileFalse)]

end Primitive

/-- The primitives that a system knows, by number. -/
abbrev PrimitiveTable := Dictionary Primitive

namespace PrimitiveTable

/-- Adds a primitive under an integer. -/
def define (t : PrimitiveTable) (number : Int) (p : Primitive) : PrimitiveTable :=
  t.put (.number number) (.int number) p

/-- The table of some numbered primitives. -/
def ofList (ps : List (Int × Primitive)) : PrimitiveTable :=
  ps.foldl (fun t p => define t p.1 p.2) {}

/-- The table of all primitives. -/
def standard : PrimitiveTable := ofList Primitive.numbered

end PrimitiveTable

end Smalltalk
