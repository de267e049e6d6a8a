import Smalltalk.Memory
import Smalltalk.Sorting

/-!
# `Smalltalk.Registry.Summary`: a class at a glance

`Summary.of` gathers what a browser shows of a class or metaclass: its place
in the hierarchy, the layout of its instances, and its selectors in order,
all of them and by protocol. Selectors are put in order by code points, or
by their exact value where all of them are numbers; a mixture has no order.

The float that is not a number is neither less nor greater than any other.
Where it is among the selectors, their order is what `Sorting.sort` makes of it.
-/

set_option autoImplicit false

namespace Smalltalk

/-- What a browser shows of a class or metaclass. -/
structure Summary where
  name : String
  superclasses : List String
  isMeta : Bool
  className : String
  indexable : Bool
  layout : List Json
  selectors : List Json
  protocols : List (Json × List Json)

namespace Summary

/-- The texts among names, if all of them are. -/
def texts? (names : List Json) : Option (List String) :=
  names.mapM fun name =>
    match name with
    | .str s => some s
    | _ => none

/-- The number that a name is, or the fault that it is none. -/
def numberOf : Json → Except Fault Binary64.Parts
  | .bool b => .ok (.ofInt (if b then 1 else 0))
  | .int i => .ok (.ofInt i)
  | .float x => .ok (Binary64.parts x)
  | name => .error (.notANumber name)

/-- Names in order, or a fault where they have none. -/
def inOrder (names : List Json) : Except Fault (List Json) :=
  match names, texts? names with
  | _, some texts => .ok ((texts.mergeSort fun a b => !decide (b < a)).map Json.str)
  | [name], none => .ok [name]
  | names, none => do
    let numbered ← names.mapM fun name => (numberOf name).map fun x => (x, name)
    pure ((Sorting.sort (fun a b => a.1.less b.1) numbered).map (·.2))

/-- The summary of a class or metaclass. -/
def of (m : Memory) (b : Behavior) : Except Fault Summary := do
  let r := m.registry
  let table := r.table b
  let selectors ← inOrder table.methods.names
  let protocols ← table.protocols.entries.mapM fun e => do
    let listed ← inOrder e.value.names
    pure (e.name, listed)
  pure {
    name := r.nameOf b
    superclasses := (r.line b).tail.map r.nameOf
    isMeta := b.isMeta
    className := ((m.classOf? (.behavior b)).map r.nameOf).getD ""
    indexable := r.isIndexable b
    layout := r.layout b
    selectors, protocols }

end Summary

end Smalltalk
