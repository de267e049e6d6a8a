import Smalltalk.Heap
import Smalltalk.Fault

/-!
# `Smalltalk.Memory`: the state of a running system

`Memory` joins the heap, the classes, the globals and the journal. This file
says which class a value belongs to and how values look in messages and in
print.

`Memory.inspect` is the text that messages use. It always ends: an array that
is met inside itself is shown as dots. `Memory.print?` is the text a program
gets from printing a value, and there is none for a value that contains
itself. Arrays can only nest as deeply as there are arrays, unless one
contains itself, so their number bounds both walks.
-/

set_option autoImplicit false

namespace Smalltalk

/-- A record of what was sent and answered, kept while `recording`. The newest
line comes first. -/
structure Journal where
  recording : Bool := false
  lines : List String := []
deriving Inhabited

/-- The state of a system. -/
structure Memory where
  heap : Heap := {}
  registry : Registry := {}
  globals : Dictionary Value := {}
  journal : Journal := {}
deriving Inhabited

namespace Memory

/-- The class of a value; foreign values have none. -/
def classOf? (m : Memory) (v : Value) : Option Behavior :=
  match v with
  | .object o => some ⟨(m.heap.object o).cls, false⟩
  | .behavior b =>
    if b.isMeta then (m.registry.find? "Class").map fun id => ⟨id, false⟩
    else some b.metaclass
  | v => v.kernelClass?.bind fun name => (m.registry.find? name).map fun id => ⟨id, false⟩

/-- An instance by its class: with an article, which is `an` before a capital
vowel and where the name is empty. -/
def instanceText (name : String) : String :=
  let vowel :=
    match name.toList with
    | [] => true
    | c :: _ => ['A', 'E', 'I', 'O', 'U'].contains c
  (if vowel then "an " else "a ") ++ name

/-- A closure by its arity. -/
def closureText (arity : Nat) : String :=
  "a BlockClosure(" ++ toString arity ++ " args)"

/-- A value as messages show it, where an array is shown by `array`. -/
def inspectWith (m : Memory) (array : ArrayId → String) : Value → String
  | .nil => "None"
  | .bool b => Json.boolWord b
  | .int i => toString i
  | .float x => Binary64.text x
  | .text s _ => Text.inspect s
  | .symbol s => "#" ++ s
  | .array a => array a
  | .object o => instanceText (m.registry.entry (m.heap.object o).cls).name
  | .closure c => closureText (m.heap.closure c).arity
  | .behavior b => m.registry.nameOf b
  | .foreign json _ => json.inspect

/-- A value as messages show it. `opened` are the arrays that the value lies in,
and `fuel` is how many more may be opened. -/
def inspectIn (m : Memory) : Nat → List ArrayId → Value → String
  | 0, _, v => m.inspectWith (fun _ => "[...]") v
  | fuel + 1, opened, v =>
    m.inspectWith (fun a =>
      if opened.contains a then "[...]"
      else
        "[" ++ ", ".intercalate ((m.heap.array a).toList.map (inspectIn m fuel (a :: opened))) ++
          "]") v

/-- A value as messages show it. -/
def inspect (m : Memory) (v : Value) : String := m.inspectIn m.heap.arrays.size [] v

/-- A value that may stand for a word, as messages show it. -/
def plain (m : Memory) (v : Value) : String :=
  match v.chars? with
  | some s => s
  | none => m.inspect v

/-- A value in a program's own print, where an array is printed by `array`. -/
def printWith (m : Memory) (array : ArrayId → Option String) : Value → Option String
  | .nil => some "nil"
  | .bool b => some (if b then "true" else "false")
  | .text s _ => some (Text.literal s)
  | .array a => array a
  | v => some (m.inspectWith (fun _ => "") v)

/-- A value in a program's own print. `opened` are the arrays that the value lies
in, and `fuel` is how many more may be opened. -/
def printIn (m : Memory) : Nat → List ArrayId → Value → Option String
  | 0, _, v => m.printWith (fun _ => none) v
  | fuel + 1, opened, v =>
    m.printWith (fun a =>
      if opened.contains a then none
      else
        ((m.heap.array a).toList.mapM (printIn m fuel (a :: opened))).map fun parts =>
          "#(" ++ " ".intercalate parts ++ ")") v

/-- A value in a program's own print. A value that contains itself has none. -/
def print? (m : Memory) (v : Value) : Option String := m.printIn m.heap.arrays.size [] v

/-- Where the printed text of a value comes from: the words and the names of
classes are there already, any other text is new. The name of a metaclass is
made from the name of its class; where that is empty, nothing is added to the
word for a metaclass, and all of them have that word. -/
def printOrigin (m : Memory) (v : Value) : TextOrigin :=
  match v with
  | .nil => .word
  | .bool _ => .word
  | .behavior b => if b.isMeta && (m.registry.entry b.id).name.isEmpty then .word else .nameOf b
  | _ => .made m.heap.texts

/-- A method by owner and selector, if the selector is a text. -/
def methodWord (m : Memory) (method : Method) : Except Fault String :=
  (Fault.wordOf method.selector).map fun s => m.registry.nameOf method.owner ++ ">>" ++ s

/-- The variables of a frame as messages show them. -/
def slotsText (m : Memory) (slots : Dictionary Value) : String :=
  let parts := slots.entries.map fun e => e.name.inspect ++ ": " ++ m.inspect e.value
  "\x7b" ++ ", ".intercalate parts ++ "\x7d"

/-- A frame as messages show it, if its selector is a text. -/
def frameWord (m : Memory) (f : FrameId) : Except Fault String :=
  let frame := m.heap.frame f
  let selector :=
    match frame.method with
    | some method => Fault.wordOf method.selector
    | none => .ok "?"
  selector.map fun s =>
    "<Frame " ++ (if frame.isBlock then "block " else "method ") ++ s ++ " " ++
      m.slotsText frame.slots ++ ">"

/-- Adds a line to the journal while it is recording. -/
def note (m : Memory) (line : String) : Memory :=
  if m.journal.recording then
    { m with journal := { m.journal with lines := line :: m.journal.lines } }
  else m

/-- A new text. -/
def newText (m : Memory) (s : String) : Memory × Value :=
  ({ m with heap := { m.heap with texts := m.heap.texts + 1 } }, .text s (.made m.heap.texts))

/-- A tree whose text literals are objects of this memory. -/
def place (m : Memory) (node : Node) : Memory × Node :=
  let (node, next) := node.withSites m.heap.texts
  ({ m with heap := { m.heap with texts := next } }, node)

end Memory

end Smalltalk
