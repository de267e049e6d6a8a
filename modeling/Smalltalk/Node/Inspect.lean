import Smalltalk.Node
import Smalltalk.Json.Writer

/-!
# `Smalltalk.Node.Inspect`: trees as a reader of messages sees them

`Node.inspect` names the sort of a tree and lists its parts by name. The
temps and statements of a block or method are shown as the sequence they
make.
-/

set_option autoImplicit false

namespace Smalltalk.Node

/-- A sort with its parts, each with a name. -/
def listing (sort : String) (parts : List (String × String)) : String :=
  sort ++ ": \x7b" ++
    ", ".intercalate (parts.map fun p => Text.inspect p.1 ++ ": " ++ p.2) ++ "\x7d"

/-- Parts between brackets. -/
def bracketed (parts : List String) : String := "[" ++ ", ".intercalate parts ++ "]"

/-- Names between brackets. -/
def inspectNames (names : List Json) : String := bracketed (names.map Json.inspect)

/-- A sequence, from the text of its statements. -/
def inspectBody (temps : List Json) (statements : List String) : String :=
  listing "PSequence" [("temps", inspectNames temps), ("statements", bracketed statements)]

mutual
/-- A tree with its parts. -/
def inspect : Node → String
  | self => listing "PSelf" []
  | super => listing "PSuper" []
  | reference name kind index =>
    listing "PReference" [("name", name.inspect), ("kind", Text.inspect kind.word),
      ("index", index.inspect)]
  | literal value => listing "PLiteral" [("value", value.toJson.inspect)]
  | symbol name => listing "PSymbol" [("value", Text.inspect name)]
  | literalArray elements =>
    listing "PLiteralArray" [("elements", bracketed (inspectAll elements))]
  | sequence temps statements => inspectBody temps (inspectAll statements)
  | block params temps statements =>
    listing "PBlock" [("params", inspectNames params),
      ("body", inspectBody temps (inspectAll statements))]
  | send receiver selector args =>
    listing "PSend" [("receiver", inspect receiver), ("selector", selector.inspect),
      ("args", bracketed (inspectAll args))]
  | assign name kind index value =>
    listing "PAssignment" [("name", name.inspect), ("kind", Text.inspect kind.word),
      ("index", index.inspect), ("value", inspect value)]
  | answer value => listing "PAnswer" [("expr", inspect value)]
  | method selector params temps statements primitive =>
    listing "PMethod" [("selector", selector.inspect), ("args", inspectNames params),
      ("body", inspectBody temps (inspectAll statements)), ("primitive", primitive.inspect)]

/-- `inspect`, tree by tree. -/
def inspectAll : List Node → List String
  | [] => []
  | node :: rest => inspect node :: inspectAll rest
end

end Smalltalk.Node
