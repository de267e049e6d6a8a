import Smalltalk.Decimal.Binary64

/-!
# `Smalltalk.Json`: the values that images are written in

A JSON value keeps what an image can tell apart: integers of any size are
not floats, and an object keeps its fields in the order they were first
written. Images may put any value where a program needs a name, so this
file also says which values can name things (`Json.key?`), when two values
are the same (`Json.same`), and which count as nothing (`Json.truthy`).
-/

set_option autoImplicit false

namespace Smalltalk

/-- A JSON value. The fields of an object have different names. -/
inductive Json where
  | null
  | bool (b : Bool)
  | int (i : Int)
  | float (x : Float)
  | str (s : String)
  | arr (items : List Json)
  | obj (fields : List (String × Json))
deriving Inhabited

/-- What a name is compared by. -/
inductive Key where
  | null
  | number (i : Int)
  | fraction (bits : UInt64)
  | text (s : String)
deriving DecidableEq, Repr, Inhabited

namespace Json

/-- The key of a value used as a name. Numbers are compared by value across
booleans, integers and floats; lists and objects name nothing. -/
def key? : Json → Option Key
  | null => some .null
  | bool b => some (.number (if b then 1 else 0))
  | int i => some (.number i)
  | float x =>
    match Binary64.toInt? x with
    | some i => some (.number i)
    | none => some (.fraction x.toBits)
  | str s => some (.text s)
  | arr _ => none
  | obj _ => none

/-- Adds a field, or gives an earlier field of that name a new value where it
stands. -/
def putField (name : String) (value : Json) : List (String × Json) → List (String × Json)
  | [] => [(name, value)]
  | (n, v) :: rest =>
    if n = name then (n, value) :: rest else (n, v) :: putField name value rest

mutual
/-- Equality of values: numbers by value, lists by their items in order,
objects by their fields in any order. -/
def same : Json → Json → Bool
  | arr xs, b =>
    match b with
    | arr ys => sameItems xs ys
    | _ => false
  | obj fs, b =>
    match b with
    | obj gs => fs.length == gs.length && sameFields fs gs
    | _ => false
  | a, b =>
    match a.key?, b.key? with
    | some j, some k => j == k
    | _, _ => false

/-- `same`, item by item. -/
def sameItems : List Json → List Json → Bool
  | [], [] => true
  | x :: xs, y :: ys => same x y && sameItems xs ys
  | _, _ => false

/-- Every field of the first object is in the second with the same value. -/
def sameFields : List (String × Json) → List (String × Json) → Bool
  | [], _ => true
  | (n, v) :: fs, gs =>
    (match gs.lookup n with
      | some w => same v w
      | none => false) && sameFields fs gs
end

/-- Whether a value counts as something: null, false, zero and whatever is
empty do not. -/
def truthy : Json → Bool
  | null => false
  | bool b => b
  | int i => i != 0
  | float x => x != 0.0
  | str s => s != ""
  | arr xs => !xs.isEmpty
  | obj fs => !fs.isEmpty

/-- The word for a value's type in messages. -/
def typeName : Json → String
  | null => "NoneType"
  | bool _ => "bool"
  | int _ => "int"
  | float _ => "float"
  | str _ => "str"
  | arr _ => "list"
  | obj _ => "dict"

/-- The parts of a value that can be gone through one by one: the items of a
list, the characters of a text, the names of an object's fields. -/
def elements? : Json → Option (List Json)
  | arr xs => some xs
  | str s => some (s.toList.map fun c => str (String.singleton c))
  | obj fs => some (fs.map fun f => str f.1)
  | _ => none

end Json

end Smalltalk
