import Smalltalk.Primitive.Action

/-!
# `Smalltalk.Evaluation`: how trees, methods and blocks run

An evaluation changes a `Memory` and ends with a value or with a `Stop`: it
unwinds to the activation that a return belongs to, it has met a fault, it
nests too deeply, or it is not finished within the rounds that a loop may
take or within the room there is for what is counted. Only the activation
that a return belongs to stops an unwinding, and nothing that runs stops the
other three.

There are three tasks: to evaluate a tree in a frame, to activate a method,
to invoke a closure. `step` says what each does, given how the tasks inside
it are done, and `run` does tasks that nest to a given depth. What is true of
`step` for every way of doing the inner tasks is so proved without a mutual
induction, and `run` adds one induction on the depth.
-/

set_option autoImplicit false

namespace Smalltalk

/-- How an evaluation ends without a value. -/
inductive Stop where
  | unwind (value : Value) (home : FrameId)
  | fault (f : Fault)
  | tooDeep
  | unfinished

/-- An evaluation: it changes the memory, and ends with a value or a stop. -/
abbrev Eval := EStateM Stop Memory

/-- What a system runs with: the primitives it knows, how deeply tasks may nest,
how many rounds a loop may take, and how many parts an array or a text may have. -/
structure Settings where
  primitives : PrimitiveTable := PrimitiveTable.standard
  depth : Nat := 5000
  rounds : Nat := 1000000000000
  room : Nat := 9223372036854775807

/-- Something to do. The frames that asked for it come innermost first. -/
inductive Task where
  | evaluate (node : Node) (frame : FrameId)
  | activate (method : Method) (receiver : Value) (args : List Value) (callers : List FrameId)
  | invoke (closure : ClosureId) (args : List Value) (caller : FrameId)

namespace Eval

/-- Ends with a fault. -/
def fail {α : Type} (f : Fault) : Eval α := throw (.fault f)

/-- A value that there may be a fault instead of. -/
def ofExcept {α : Type} : Except Fault α → Eval α
  | .ok a => pure a
  | .error f => fail f

/-- Looks something up in the memory. -/
def ask {α : Type} (f : Memory → α) : Eval α := do
  let m ← get
  return f m

/-- Changes the heap. -/
def changeHeap (f : Heap → Heap) : Eval Unit := modify fun m => { m with heap := f m.heap }

/-- Makes something in the heap. -/
def make {α : Type} (f : Heap → Heap × α) : Eval α :=
  modifyGet fun m =>
    match m with
    | ⟨heap, registry, globals, journal⟩ =>
      let (heap, a) := f heap
      (a, ⟨heap, registry, globals, journal⟩)

/-- Makes a text. -/
def makeText (s : String) : Eval Value :=
  modifyGet fun m =>
    let (m, v) := m.newText s
    (v, m)

/-- Writes a line into the journal, if one is kept. The line is only made then, so
only then is it a fault that it cannot be made. -/
def note (line : Memory → Except Fault String) : Eval Unit := do
  let m ← get
  if m.journal.recording then
    let text ← ofExcept (line m)
    set (m.note text)

/-- The class of a value. -/
def classOf (v : Value) : Eval Behavior := do
  let m ← get
  match m.classOf? v with
  | some b => pure b
  | none => fail (.noClass (m.inspect v))

/-! ### Variables -/

/-- Declares a variable in a frame. -/
def declare (frame : FrameId) (name : Json) (v : Value) : Eval Unit := do
  let key ← ofExcept (Fault.keyOf name)
  changeHeap fun h => h.declare frame key name v

/-- Declares variables with their values, in order. -/
def declareAll (frame : FrameId) (names : List Json) (vs : List Value) : Eval Unit :=
  (names.zip vs).forM fun p => declare frame p.1 p.2

/-- The value of a variable as seen from a frame. -/
def lookup (frame : FrameId) (name : Json) : Eval Value := do
  let key ← ofExcept (Fault.keyOf name)
  match ← ask fun m => m.heap.lookup? frame key with
  | some v => pure v
  | none => fail (Fault.about name .unresolvedVariable)

/-- Assigns to a variable as seen from a frame. -/
def assign (frame : FrameId) (name : Json) (v : Value) : Eval Unit := do
  let key ← ofExcept (Fault.keyOf name)
  match ← ask fun m => m.heap.owner? frame key with
  -- the owner declares the name already, so declaring it again only changes the value
  | some owner => changeHeap fun h => h.declare owner key name v
  | none => fail (Fault.about name .unresolvedVariable)

/-- The value of a global. -/
def lookupGlobal (name : Json) : Eval Value := do
  let key ← ofExcept (Fault.keyOf name)
  match ← ask fun m => m.globals.find? key with
  | some v => pure v
  | none => fail (Fault.about name .unresolvedGlobal)

/-- Assigns to a global; a new name is bound. -/
def assignGlobal (name : Json) (v : Value) : Eval Unit := do
  let key ← ofExcept (Fault.keyOf name)
  modify fun m => { m with globals := m.globals.put key name v }

/-- The slot that an index names among `size` slots. Booleans count as numbers
here; whether a float is in range decides which fault it is. -/
def slotNumber (index : Json) (size : Nat) (bad : Unit → Fault) : Except Fault Nat :=
  let ofInt (i : Int) : Except Fault Nat :=
    if 0 ≤ i ∧ i < size then .ok i.toNat else .error (bad ())
  match index with
  | .null => .error (bad ())
  | .bool b => ofInt (if b then 1 else 0)
  | .int i => ofInt i
  | .float x =>
    -- the range is looked at before the type
    if 0.0 ≤ x ∧ x < Float.ofNat size then .error (.notAnIndex index) else .error (bad ())
  | index => .error (.notAnIndex index)

/-- The object that runs in a frame and the slot of it that an index names. -/
def slotOf (frame : FrameId) (index : Json) : Eval (ObjectId × Nat) := do
  let m ← get
  let receiver := (m.heap.frame frame).receiver
  match receiver with
  | .object o =>
    let bad := fun _ => Fault.badSlot index (m.inspect receiver)
    let i ← ofExcept (slotNumber index (m.heap.object o).slots.size bad)
    pure (o, i)
  | v => fail (.noInstanceVariables (m.inspect v))

/-! ### Trees -/

/-- Declares the temps and does the statements in order; the value of the last
one, or nil, is the value. -/
def runBody (rec : Task → Eval Value) (frame : FrameId) (temps : List Json)
    (statements : List Node) : Eval Value := do
  temps.forM fun name => declare frame name .nil
  statements.foldlM (fun _ statement => rec (.evaluate statement frame)) .nil

/-- The value of a variable of some kind. -/
def readVariable (frame : FrameId) (name : Json) (kind : VariableKind) (index : Json) :
    Eval Value :=
  match kind with
  | .instvar => do
    let (o, i) ← slotOf frame index
    ask fun m => (m.heap.object o).slots.getD i .nil
  | .global => lookupGlobal name
  | .temp | .arg => lookup frame name

/-- Assigns to a variable of some kind. -/
def writeVariable (frame : FrameId) (name : Json) (kind : VariableKind) (index : Json)
    (v : Value) : Eval Unit :=
  match kind with
  | .instvar => do
    let (o, i) ← slotOf frame index
    changeHeap fun h => h.setSlot o i v
  | .global => assignGlobal name v
  | .temp | .arg => assign frame name v

/-- The value of a literal. -/
def literalValue : Literal → Value
  | .nil => .nil
  | .bool b => .bool b
  | .int i => .int i
  | .float x => .float x
  | .text s site => .text s (.made site)

/-- Returns a value from the home of a frame: everything up to the home is
unwound, if the home is still active. -/
def returnFrom (frame : FrameId) (v : Value) : Eval Value := do
  let home ← ask fun m => m.heap.home frame
  if ← ask fun m => (m.heap.frame home).active then
    note fun m => (m.frameWord home).map fun frame =>
      "treetalk.interpreter: ^" ++ m.inspect v ++ " to " ++ frame
    throw (.unwind v home)
  else
    fail (.deadReturn v (← ask fun m => m.inspect v))

/-- Where the look-up for a send starts: above the owner of the running method
for a send to super, else at the class of the receiver. -/
def startOf (frame : FrameId) (toSuper : Bool) (receiver : Value) : Eval (Option Behavior) :=
  if toSuper then do
    match ← ask fun m => (m.heap.frame frame).method with
    | some method => ask fun m => m.registry.superclass? method.owner
    | none => fail .noMethod
  else do
    let b ← classOf receiver
    pure (some b)

/-- The method that a selector finds from a start. -/
def methodFrom (selector : Json) : Option Behavior → Eval (Option Method)
  | none => pure none
  | some b => do
    let key ← ofExcept (Fault.keyOf selector)
    ask fun m => m.registry.lookup? key b

/-- The fault of a receiver that has no method for a selector. -/
def notUnderstood {α : Type} (receiver : Value) (selector : Json) : Eval α := do
  let b ← classOf receiver
  let name ← ask fun m => m.registry.nameOf b
  fail (Fault.about selector fun word => .doesNotUnderstand name word)

/-- The frames behind a task that a frame asks for. -/
def callersFrom (frame : FrameId) : Eval (List FrameId) :=
  ask fun m => frame :: (m.heap.frame frame).callers

/-- Sends a message: receiver, arguments from left to right, look-up, activation. -/
def sendMessage (rec : Task → Eval Value) (frame : FrameId) (receiver : Node) (selector : Json)
    (args : List Node) : Eval Value := do
  -- super is the receiver like self; only the start of the look-up differs
  let toSuper := receiver.isSuper
  let receiver ← rec (.evaluate receiver frame)
  let args ← args.mapM fun arg => rec (.evaluate arg frame)
  let start ← startOf frame toSuper receiver
  match ← methodFrom selector start with
  | none => notUnderstood receiver selector
  | some method =>
    note fun m => (m.methodWord method).map fun found =>
      "treetalk.interpreter: " ++ m.inspect receiver ++ " #" ++ selector.plain ++ " -> " ++ found
    rec (.activate method receiver args (← callersFrom frame))

/-- Evaluates a tree in a frame. -/
def evaluateNode (rec : Task → Eval Value) (frame : FrameId) : Node → Eval Value
  | .self | .super => ask fun m => (m.heap.frame frame).receiver
  | .reference name kind index => readVariable frame name kind index
  | .literal value => pure (literalValue value)
  | .symbol name => pure (.symbol name)
  | .literalArray elements => do
    let values ← elements.mapM fun e => rec (.evaluate e frame)
    let a ← make fun h => h.newArray values.toArray
    pure (.array a)
  | .sequence temps statements => runBody rec frame temps statements
  | .block params temps statements => do
    let c ← make fun h => h.newClosure ⟨params, temps, statements, frame⟩
    pure (.closure c)
  | .send receiver selector args => sendMessage rec frame receiver selector args
  | .assign name kind index value => do
    -- the value comes first, so an assignment that fails has evaluated it
    let v ← rec (.evaluate value frame)
    writeVariable frame name kind index v
    pure v
  | .answer value => do
    let v ← rec (.evaluate value frame)
    returnFrom frame v
  | .method selector params temps statements primitive =>
    fail (.notEvaluable (Node.method selector params temps statements primitive).sortName)

/-! ### Primitives -/

/-- Alternates condition and body as long as the condition answers `goOn`, and
answers nil when it answers the other boolean. -/
def alternate (condition body : Eval Value) (goOn : Bool) : Nat → Eval Value
  | 0 => throw .unfinished
  | rounds + 1 => do
    match ← condition with
    | .bool b =>
      if b = goOn then do
        -- what the body answers does not matter
        let _ ← body
        alternate condition body goOn rounds
      else pure .nil
    | v => do
      let shown ← ask fun m => m.inspect v
      fail (.nonBoolean v shown)

/-- The printed text of a value. -/
def printed (v : Value) : Eval String := do
  match ← ask fun m => m.print? v with
  | some s => pure s
  | none => throw .tooDeep

/-- Does what a primitive has decided on. -/
def perform (settings : Settings) (rec : Task → Eval Value) (frame : FrameId) :
    Action → Eval Value
  | .answer v => pure v
  -- nothing has more parts than there is room for
  | .tally n => if n ≤ settings.room then pure (.int n) else throw .unfinished
  | .newText s => makeText s
  | .newArray elements => do
    let a ← make fun h => h.newArray elements
    pure (.array a)
  | .newObject cls size => do
    let m ← get
    let slots := Array.replicate (m.registry.layout ⟨cls, false⟩).length Value.nil
    let elements :=
      if m.registry.isIndexable ⟨cls, false⟩ then some (Array.replicate size Value.nil) else none
    let o ← make fun h => h.newObject ⟨cls, slots, elements⟩
    pure (.object o)
  | .setElement a i v => do
    changeHeap fun h => h.setElement a i v
    pure v
  | .setIndexed o i v => do
    changeHeap fun h => h.setIndexed o i v
    pure v
  | .setSlot o i v => do
    changeHeap fun h => h.setSlot o i v
    pure v
  | .call c args => rec (.invoke c args frame)
  | .loop condition body goOn =>
    alternate (rec (.invoke condition [] frame)) (rec (.invoke body [] frame)) goOn
      settings.rounds
  | .print v => do
    let s ← printed v
    -- the words and the names of classes are not made anew
    match ← ask fun m => m.printOrigin v with
    | .made _ => makeText s
    | origin => pure (.text s origin)
  | .signal v => do
    match v.chars? with
    | some s => fail (.signalled s)
    | none => fail (.signalled (← printed v))
  | .refuse f => fail f

/-- The arguments that a frame was activated with, by the names of the
parameters: of two parameters with one name, both have the later value. -/
def argumentsOf (m : Memory) (frame : FrameId) (method : Method) : List Value :=
  method.params.map fun name =>
    match name.key? with
    | some key => ((m.heap.frame frame).slots.find? key).getD .nil
    | none => .nil

/-- What the primitive with a number decides. A number that no primitive has
fails like one. -/
def decide (settings : Settings) (m : Memory) (receiver : Value) (args : List Value)
    (number : Json) : Except Fault (Except Reason Action) := do
  let key ← Fault.keyOf number
  match settings.primitives.find? key with
  | some p => pure (p.attempt m receiver args)
  | none => pure (.error .notImplemented)

/-- The line of the journal about a primitive that failed. -/
def failureLine (method : Method) (reason : Reason) (m : Memory) : Except Fault String := do
  let number ← Fault.wholeOf method.primitive
  let word ← m.methodWord method
  pure ("treetalk.interpreter: primitive " ++ number ++ " of " ++ word ++ " failed: " ++
    reason.word)

/-! ### Activations -/

/-- Ends the activation of a frame, however its evaluation ended. An unwinding
to this very frame ends here with its value. -/
def closing (frame : FrameId) (act : Eval Value) : Eval Value := fun m =>
  match act m with
  | .ok v m => .ok v { m with heap := m.heap.retire frame }
  | .error (.unwind v home) m =>
    -- the frame is over for an unwinding that goes on, too
    let m := { m with heap := m.heap.retire frame }
    if home = frame then .ok v m else .error (.unwind v home) m
  | .error stop m => .error stop { m with heap := m.heap.retire frame }

/-- Runs the body of a method in a frame, and answers the receiver. -/
def runMethodBody (rec : Task → Eval Value) (frame : FrameId) (method : Method)
    (receiver : Value) : Eval Value := do
  let _ ← runBody rec frame method.temps method.statements
  pure receiver

/-- Runs the primitive of a method, or its body where there is none or it fails. -/
def runMethod (settings : Settings) (rec : Task → Eval Value) (frame : FrameId)
    (method : Method) (receiver : Value) : Eval Value :=
  if method.isPrimitive then do
    let m ← get
    match ← ofExcept (decide settings m receiver (argumentsOf m frame method) method.primitive) with
    | .ok action => perform settings rec frame action
    | .error reason =>
      -- a primitive that fails has changed nothing, and the body runs in the same frame
      note (failureLine method reason)
      runMethodBody rec frame method receiver
  else runMethodBody rec frame method receiver

/-- Makes the frame of an activation and gives the parameters their arguments. A
method sees no variables but its own and the globals: the frame has no outer ones. -/
def enter (method : Method) (receiver : Value) (args : List Value) (callers : List FrameId) :
    Eval FrameId := do
  let frame ← make fun h => h.newFrame { receiver, method := some method, callers }
  declareAll frame method.params args
  pure frame

/-- Activates a method. -/
def activate (settings : Settings) (rec : Task → Eval Value) (method : Method)
    (receiver : Value) (args : List Value) (callers : List FrameId) : Eval Value := do
  if args.length ≠ method.arity then
    let word ← ofExcept (Memory.methodWord (← get) method)
    fail (.arityMismatch word method.arity args.length)
  else
    let frame ← enter method receiver args callers
    closing frame (runMethod settings rec frame method receiver)

/-- Invokes a closure. The new frame continues the frame the closure was made in:
it has the same receiver and method. -/
def invoke (rec : Task → Eval Value) (closure : ClosureId) (args : List Value)
    (caller : FrameId) : Eval Value := do
  let c ← ask fun m => m.heap.closure closure
  if args.length ≠ c.arity then
    fail (.arityMismatch "a block" c.arity args.length)
  else
    let callers ← callersFrom caller
    let defining ← ask fun m => m.heap.frame c.frame
    let frame ← make fun h => h.newFrame {
      receiver := defining.receiver, method := defining.method,
      outer := c.frame :: defining.outer, callers, isBlock := true }
    declareAll frame c.params args
    -- the frame stays active: only the home counts for a return
    runBody rec frame c.temps c.statements

/-- Does a task, given how the tasks inside it are done. -/
def step (settings : Settings) (rec : Task → Eval Value) : Task → Eval Value
  | .evaluate node frame => evaluateNode rec frame node
  | .activate method receiver args callers => activate settings rec method receiver args callers
  | .invoke closure args caller => invoke rec closure args caller

/-- Does a task in which tasks nest at most `depth` deep. -/
def run (settings : Settings) : (depth : Nat) → Task → Eval Value
  | 0, _ => throw .tooDeep
  | depth + 1, task => step settings (run settings depth) task

end Eval

end Smalltalk
