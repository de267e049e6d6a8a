import Smalltalk.Json

/-!
# `Smalltalk.Node`: the trees that are evaluated

Method bodies and workspace code arrive as trees whose variables are already
classified. A name or selector in a tree is whatever JSON value the image
holds there, nearly always a text; `Json.key?` says which of them can be
looked up.

A text literal carries the `site` it was read at. Evaluating the literal
answers the same text object every time, and another literal with the same
characters answers another object. Trees come out of `Node.ofJson?` with all
sites zero; `Node.withSites` numbers them.
-/

set_option autoImplicit false

namespace Smalltalk

/-- Where a variable lives. -/
inductive VariableKind where
  | global
  | temp
  | arg
  | instvar
deriving DecidableEq, Repr

/-- The kinds by the words that images use. -/
def VariableKind.ofJson? : Json → Option VariableKind
  | .str "global" => some .global
  | .str "temp" => some .temp
  | .str "arg" => some .arg
  | .str "instvar" => some .instvar
  | _ => none

/-- The word for a kind. -/
def VariableKind.word : VariableKind → String
  | global => "global"
  | temp => "temp"
  | arg => "arg"
  | instvar => "instvar"

/-- A value that a tree can hold outright. -/
inductive Literal where
  | nil
  | bool (b : Bool)
  | int (i : Int)
  | float (x : Float)
  | text (s : String) (site : Nat)

/-- The JSON value of a literal. -/
def Literal.toJson : Literal → Json
  | nil => .null
  | bool b => .bool b
  | int i => .int i
  | float x => .float x
  | text s _ => .str s

/-- A syntax tree. An absent instance variable index or primitive number is
null. -/
inductive Node where
  | self
  | super
  | reference (name : Json) (kind : VariableKind) (index : Json)
  | literal (value : Literal)
  | symbol (name : String)
  | literalArray (elements : List Node)
  | sequence (temps : List Json) (statements : List Node)
  | block (params temps : List Json) (statements : List Node)
  | send (receiver : Node) (selector : Json) (args : List Node)
  | assign (name : Json) (kind : VariableKind) (index : Json) (value : Node)
  | answer (value : Node)
  | method (selector : Json) (params temps : List Json) (statements : List Node)
      (primitive : Json)

instance : Inhabited Node := ⟨.self⟩

namespace Node

/-- Whether a tree is the word super. -/
def isSuper : Node → Bool
  | super => true
  | _ => false

/-- Whether a tree is a send that starts its look-up above the running method's
class. -/
def isSendToSuper : Node → Bool
  | send receiver _ _ => receiver.isSuper
  | _ => false

/-- The word for a tree's sort in messages. -/
def sortName : Node → String
  | self => "PSelf"
  | super => "PSuper"
  | reference .. => "PReference"
  | literal _ => "PLiteral"
  | symbol _ => "PSymbol"
  | literalArray _ => "PLiteralArray"
  | sequence .. => "PSequence"
  | block .. => "PBlock"
  | send .. => "PSend"
  | assign .. => "PAssignment"
  | answer _ => "PAnswer"
  | method .. => "PMethod"

mutual
/-- The tree with its text literals numbered from `next` on, in the order they
are written, and the first number not used. -/
def withSites (next : Nat) : Node → Node × Nat
  | literal (.text s _) => (literal (.text s next), next + 1)
  | literalArray elements =>
    let (elements, next) := listWithSites next elements
    (literalArray elements, next)
  | sequence temps statements =>
    let (statements, next) := listWithSites next statements
    (sequence temps statements, next)
  | block params temps statements =>
    let (statements, next) := listWithSites next statements
    (block params temps statements, next)
  | send receiver selector args =>
    let (receiver, next) := receiver.withSites next
    let (args, next) := listWithSites next args
    (send receiver selector args, next)
  | assign name kind index value =>
    let (value, next) := value.withSites next
    (assign name kind index value, next)
  | answer value =>
    let (value, next) := value.withSites next
    (answer value, next)
  | method selector params temps statements primitive =>
    let (statements, next) := listWithSites next statements
    (method selector params temps statements primitive, next)
  | node => (node, next)

/-- `withSites`, tree by tree. -/
def listWithSites (next : Nat) : List Node → List Node × Nat
  | [] => ([], next)
  | node :: rest =>
    let (node, next) := node.withSites next
    let (rest, next) := listWithSites next rest
    (node :: rest, next)
end

end Node

end Smalltalk
