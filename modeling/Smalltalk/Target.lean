import Smalltalk.Text.Blank

/-!
# `Smalltalk.Target`: naming a method to run

A target is written `Class>>selector`, or `Class class>>selector` for a
method of the class side. The first `>>` divides it; blanks around both
halves do not count.
-/

set_option autoImplicit false

namespace Smalltalk

/-- A method to run. -/
structure Target where
  className : String
  classSide : Bool
  selector : String
deriving Repr, DecidableEq

namespace Target

/-- The text before the first `>>` and the text behind it. -/
def divide : List Char → Option (List Char × List Char)
  | '>' :: '>' :: rest => some ([], rest)
  | c :: rest => (divide rest).map fun p => (c :: p.1, p.2)
  | [] => none

/-- What marks the class side, at the end of the first half. -/
def classMark : List Char := [' ', 'c', 'l', 'a', 's', 's']

/-- The text before a mark at its end. -/
def dropMark? (mark cs : List Char) : Option (List Char) :=
  if mark.isSuffixOf cs then some (cs.take (cs.length - mark.length)) else none

/-- The target that a text names. Both halves have to hold something; of the
class that is asked after trimming, of the selector before. -/
def parse? (text : List Char) : Option Target :=
  match divide text with
  | none => none
  | some (before, selector) =>
    -- trimming comes before the mark is looked for, so `X class` may have blanks around it
    let before := Text.trim before
    let (name, classSide) :=
      match dropMark? classMark before with
      | some name => (Text.trim name, true)
      | none => (before, false)
    if name.isEmpty || selector.isEmpty then none
    else some ⟨String.ofList name, classSide, String.ofList (Text.trim selector)⟩

/-- The complaint about a text that is no target. -/
def complaint (text : String) : String := "expected Class>>selector, got '" ++ text ++ "'"

end Target

end Smalltalk
