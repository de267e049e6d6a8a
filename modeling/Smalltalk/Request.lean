import Smalltalk.Evaluation

/-!
# `Smalltalk.Request`: what can be asked of a system from outside

Requests start with no frame of their own: send a message, execute a method,
evaluate workspace code, evaluate a tree in a frame made for it, run a
primitive. A request that nests too deeply ends with a fault that names what
was asked for; the frames of requests have no callers. A frame can be asked
for the arguments it was activated with.
-/

set_option autoImplicit false

namespace Smalltalk.Eval

/-- Turns an exhausted depth into a fault that names the activity. -/
def naming (activity : Memory → Except Fault String) (act : Eval Value) : Eval Value := fun m =>
  match act m with
  | .error .tooDeep m =>
    match activity m with
    | .ok words => .error (.fault (.tooDeep words)) m
    | .error f => .error (.fault f) m
  | result => result

/-- Activates a method. -/
def execute (settings : Settings) (method : Method) (receiver : Value) (args : List Value) :
    Eval Value :=
  naming (fun m => (m.methodWord method).map ("while running " ++ ·))
    (run settings settings.depth (.activate method receiver args []))

/-- Activates the method that a method tree describes, as if it were installed in
the receiver's class. -/
def executeNode (settings : Settings) (node : Node) (receiver : Value) (args : List Value) :
    Eval Value :=
  match node with
  | .method selector params temps statements primitive => do
    let owner ← classOf receiver
    execute settings ⟨selector, params, temps, statements, primitive, owner⟩ receiver args
  | _ => fail .notAMethod

/-- Sends a message. -/
def send (settings : Settings) (receiver : Value) (selector : Json) (args : List Value) :
    Eval Value := do
  let b ← classOf receiver
  match ← methodFrom selector (some b) with
  | none => notUnderstood receiver selector
  | some method => execute settings method receiver args

/-- The method whose activation evaluates workspace code. -/
def workspaceMethod (owner : Behavior) : Method := ⟨.str "DoIt", [], [], [], .null, owner⟩

/-- Evaluates workspace code in an activation of its own: the value is that of
the last statement, or what a return answers. -/
def doit (settings : Settings) (code : Node) (receiver : Value) : Eval Value := do
  let owner ← classOf receiver
  let frame ← make fun h => h.newFrame { receiver, method := some (workspaceMethod owner) }
  naming (fun _ => .ok "in DoIt")
    (closing frame (run settings settings.depth (.evaluate code frame)))

/-- Evaluates a tree in a new frame that runs no method and is not closed
afterwards. -/
def evaluateIn (settings : Settings) (code : Node) (receiver : Value)
    (slots : List (Json × Value)) (active : Bool) : Eval Value := do
  let frame ← make fun h => h.newFrame { receiver, method := none, active }
  slots.forM fun slot => declare frame slot.1 slot.2
  run settings settings.depth (.evaluate code frame)

/-- Runs a primitive for a receiver with arguments; the answer may be that it
fails. -/
def tryPrimitive (settings : Settings) (number : Json) (receiver : Value) (args : List Value) :
    Eval (Except Reason Value) := do
  let m ← get
  match ← ofExcept (decide settings m receiver args number) with
  | .ok action => do
    let frame ← make fun h => h.newFrame { receiver, method := none }
    let v ← perform settings (run settings settings.depth) frame action
    pure (.ok v)
  | .error reason => pure (.error reason)

/-! ### Arguments -/

/-- The method that runs in a frame. -/
def methodOf (frame : FrameId) : Eval Method := do
  match ← ask fun m => (m.heap.frame frame).method with
  | some method => pure method
  | none => fail .noMethod

/-- How many arguments a frame was activated with. -/
def frameArity (frame : FrameId) : Eval Nat := do
  let method ← methodOf frame
  pure method.arity

/-- The parameter that an index from one names; none where it is out of range. -/
def parameterAt (params : List Json) (index : Json) : Except Fault (Option Json) :=
  let ofInt (i : Int) : Option Json := if i < 1 then none else params[(i - 1).toNat]?
  match index with
  | .bool b => .ok (ofInt (if b then 1 else 0))
  | .int i => .ok (ofInt i)
  | .float x =>
    if 1.0 ≤ x ∧ x ≤ Float.ofNat params.length then .error (.notAnIndex index) else .ok none
  | index => .error (.notAnIndex index)

/-- The argument at an index from one, by the name of the parameter; an index out
of range fails like a primitive. -/
def argument (frame : FrameId) (index : Json) : Eval (Except Reason Value) := do
  let method ← methodOf frame
  match ← ofExcept (parameterAt method.params index) with
  | none => pure (.error .argumentCount)
  | some name => do
    let key ← ofExcept (Fault.keyOf name)
    match ← ask fun m => (m.heap.frame frame).slots.find? key with
    | some v => pure (.ok v)
    | none => fail (.unknownName name.plain)

end Smalltalk.Eval
