import Smalltalk.Proofs.Plan
import Smalltalk.Proofs.Session

/-!
# `Smalltalk.Proofs.Call`: what is in progress

The first half gives every function of the evaluator its plan. They are put
together as the functions are. An activation follows the plan of its method and
then closes its frame, so a step is a plan with a frame that may be closed at
its end (`Staged`).

A `Call` is a task with the memory it starts in and the depth that tasks may
nest to. `Call.calls` are the calls it makes, in order, and `InProgress` the
stacks of calls, innermost first, that come up while a query is evaluated. Every
moment at which a call begins or ends is so a call on top of such a stack.
-/

set_option autoImplicit false

namespace Smalltalk

/-! ### Plans of the evaluator -/

/-- Does no task. -/
def idle : Task → Eval Value := fun _ => throw .unfinished

namespace Planned

/-- An evaluation that asks for no task. -/
def still {α : Type} {act : (Task → Eval Value) → Eval α}
    (h : ∀ rec rec', act rec = act rec') : Planned act :=
  (const (act idle)).congr fun rec => h rec idle

def runBody (frame : FrameId) (temps : List Json) (statements : List Node) :
    Planned fun rec => Eval.runBody rec frame temps statements :=
  (const (temps.forM fun name => Eval.declare frame name .nil)).bind fun _ =>
    foldlM (fun _ statement => call (.evaluate statement frame)) .nil statements

def sendMessage (frame : FrameId) (receiver : Node) (selector : Json) (args : List Node) :
    Planned fun rec => Eval.sendMessage rec frame receiver selector args :=
  (call (.evaluate receiver frame)).bind fun v =>
    (mapM (fun arg => call (.evaluate arg frame)) args).bind fun vs =>
      (const (Eval.startOf frame receiver.isSuper v)).bind fun start =>
        (const (Eval.methodFrom selector start)).bind fun found =>
          match found with
          | none => const (Eval.notUnderstood v selector)
          | some method =>
            (const (Eval.note fun m => (m.methodWord method).map fun found =>
              "treetalk.interpreter: " ++ m.inspect v ++ " #" ++ selector.plain ++ " -> " ++
                found)).bind fun _ =>
              (const (Eval.callersFrom frame)).bind fun callers =>
                call (.activate method v vs callers)

def evaluateNode (frame : FrameId) :
    (node : Node) → Planned fun rec => Eval.evaluateNode rec frame node
  | .self | .super | .reference .. | .literal _ | .symbol _ | .block .. | .method .. =>
    still fun _ _ => rfl
  | .literalArray elements =>
    (mapM (fun e => call (.evaluate e frame)) elements).bind fun values =>
      (const (Eval.make fun h => h.newArray values.toArray)).bind fun a =>
        const (pure (Value.array a))
  | .sequence temps statements => runBody frame temps statements
  | .send receiver selector args => sendMessage frame receiver selector args
  | .assign name kind index value =>
    (call (.evaluate value frame)).bind fun v =>
      (const (Eval.writeVariable frame name kind index v)).bind fun _ => const (pure v)
  | .answer value =>
    (call (.evaluate value frame)).bind fun v => const (Eval.returnFrom frame v)

/-- A loop makes at most two calls a round. -/
def alternate (condition body : Task) (goOn : Bool) :
    (rounds : Nat) → Planned fun rec => Eval.alternate (rec condition) (rec body) goOn rounds
  | 0 => still fun _ _ => rfl
  | rounds + 1 =>
    (call condition).bind fun v =>
      match v with
      | .bool b => ite (b = goOn)
          ((call body).bind fun _ => alternate condition body goOn rounds)
          (const (pure Value.nil))
      | .nil | .int _ | .float _ | .text _ _ | .symbol _ | .array _ | .object _ | .closure _
      | .behavior _ | .foreign _ _ => still fun _ _ => rfl

def perform (settings : Settings) (frame : FrameId) :
    (action : Action) → Planned fun rec => Eval.perform settings rec frame action
  | .call c args => call (.invoke c args frame)
  | .loop condition body goOn =>
    alternate (.invoke condition [] frame) (.invoke body [] frame) goOn settings.rounds
  | .answer _ | .tally _ | .newText _ | .newArray _ | .newObject _ _ | .setElement _ _ _
  | .setIndexed _ _ _ | .setSlot _ _ _ | .print _ | .signal _ | .refuse _ =>
    still fun _ _ => rfl

def runMethodBody (frame : FrameId) (method : Method) (receiver : Value) :
    Planned fun rec => Eval.runMethodBody rec frame method receiver :=
  (runBody frame method.temps method.statements).bind fun _ => const (pure receiver)

def runMethod (settings : Settings) (frame : FrameId) (method : Method) (receiver : Value) :
    Planned fun rec => Eval.runMethod settings rec frame method receiver :=
  ite (method.isPrimitive = true)
    ((const get).bind fun m =>
      (const (Eval.ofExcept (Eval.decide settings m receiver (Eval.argumentsOf m frame method)
        method.primitive))).bind fun choice =>
        match choice with
        | .ok action => perform settings frame action
        | .error reason =>
          (const (Eval.note (Eval.failureLine method reason))).bind fun _ =>
            runMethodBody frame method receiver)
    (runMethodBody frame method receiver)

def invoke (closure : ClosureId) (args : List Value) (caller : FrameId) :
    Planned fun rec => Eval.invoke rec closure args caller :=
  (const (Eval.ask fun m => m.heap.closure closure)).bind fun c =>
    ite (args.length ≠ c.arity)
      (const (Eval.fail (.arityMismatch "a block" c.arity args.length)))
      ((const (Eval.callersFrom caller)).bind fun callers =>
        (const (Eval.ask fun m => m.heap.frame c.frame)).bind fun defining =>
          (const (Eval.make fun h => h.newFrame {
            receiver := defining.receiver, method := defining.method,
            outer := c.frame :: defining.outer, callers, isBlock := true })).bind fun frame =>
            (const (Eval.declareAll frame c.params args)).bind fun _ =>
              runBody frame c.temps c.statements)

end Planned

/-! ### Steps -/

namespace Memory

/-- Ends the activation of a frame. -/
def retire (m : Memory) (frame : FrameId) : Memory := { m with heap := m.heap.retire frame }

end Memory

namespace Eval

/-- What becomes of an outcome where the activation of a frame ends with it. -/
def close (frame : FrameId) : Outcome Value → Outcome Value
  | .ok v m => .ok v (m.retire frame)
  | .error (.unwind v home) m =>
    if home = frame then .ok v (m.retire frame) else .error (.unwind v home) (m.retire frame)
  | .error stop m => .error stop (m.retire frame)

theorem closing_eq_close (frame : FrameId) (act : Eval Value) (m : Memory) :
    closing frame act m = close frame (act m) := by
  unfold closing
  cases act m with
  | ok v m' => rfl
  | error stop m' => cases stop <;> rfl

/-- What becomes of an outcome where some frames may be closed after it. -/
def closeAll : List FrameId → Outcome Value → Outcome Value
  | [], outcome => outcome
  | frame :: rest, outcome => closeAll rest (close frame outcome)

end Eval

/-- An evaluation that follows a plan and then closes the frame that it has opened
for it, if any. -/
structure Staged (act : (Task → Eval Value) → Eval Value) where
  plan : Memory → Plan Value
  opens : Memory → List FrameId
  follows : ∀ rec m, act rec m = Eval.closeAll (opens m) ((plan m).follow rec)

namespace Staged

/-- An evaluation that opens no frame of its own. -/
def ofPlanned {act : (Task → Eval Value) → Eval Value} (p : Planned act) : Staged act where
  plan := p.plan
  opens _ := []
  follows := p.follows

/-- An activation, which opens a frame once the number of arguments is right and the
parameters are declared. -/
def activate (settings : Settings) (method : Method) (receiver : Value) (args : List Value)
    (callers : List FrameId) :
    Staged fun rec => Eval.activate settings rec method receiver args callers where
  plan m :=
    if args.length ≠ method.arity then
      .done (Eval.activate settings idle method receiver args callers m)
    else
      match Eval.enter method receiver args callers m with
      | .ok frame m' => (Planned.runMethod settings frame method receiver).plan m'
      | .error stop m' => .done (.error stop m')
  opens m :=
    if args.length ≠ method.arity then []
    else
      match Eval.enter method receiver args callers m with
      | .ok frame _ => [frame]
      | .error _ _ => []
  follows rec m := by
    unfold Eval.activate
    by_cases harity : args.length ≠ method.arity
    · rw [if_pos harity, if_pos harity, if_pos harity, if_pos harity]
      rfl
    · rw [if_neg harity, if_neg harity, if_neg harity]
      show EStateM.bind _ _ m = _
      unfold EStateM.bind
      cases Eval.enter method receiver args callers m with
      | ok frame m' =>
          show Eval.closing frame _ m' = _
          rw [Eval.closing_eq_close, (Planned.runMethod settings frame method receiver).follows]
          rfl
      | error stop m' => rfl

/-- One case for each task. -/
def step (settings : Settings) : (task : Task) → Staged fun rec => Eval.step settings rec task
  | .evaluate node frame => ofPlanned (Planned.evaluateNode frame node)
  | .activate method receiver args callers => activate settings method receiver args callers
  | .invoke closure args caller => ofPlanned (Planned.invoke closure args caller)

section
variable {settings : Settings} {method : Method} {receiver : Value} {args : List Value}
  {callers : List FrameId} {m m' : Memory} {f : FrameId}

/-- A method is entered by making its frame and declaring its parameters there. -/
theorem declared_of_enter (h : Eval.enter method receiver args callers m = .ok f m') :
    f = m.heap.frames.size ∧
      Eval.declareAll m.heap.frames.size method.params args { m with
        heap := (m.heap.newFrame { receiver, method := some method, callers }).1 } = .ok () m' := by
  obtain ⟨_, m₁, hmake, hrest⟩ := of_bind_ok h
  obtain ⟨_, m₂, hdeclare, hpure⟩ := of_bind_ok hrest
  cases hpure
  cases hmake
  exact ⟨rfl, hdeclare⟩

/-- An activation with as many arguments as the method takes follows the plan of the method, in
the frame that it opens. -/
theorem activate_of_enter (settings : Settings) (harity : args.length = method.arity)
    (henters : Eval.enter method receiver args callers m = .ok f m') :
    (step settings (.activate method receiver args callers)).opens m = [f] ∧
      (step settings (.activate method receiver args callers)).plan m
        = (Planned.runMethod settings f method receiver).plan m' := by
  constructor
  · show (if args.length ≠ method.arity then _ else _) = [f]
    rw [if_neg (not_not_intro harity), henters]
  · show (if args.length ≠ method.arity then _ else _ : Plan Value) = _
    rw [if_neg (not_not_intro harity), henters]

/-- An activation asks for nothing before it has entered the method. -/
theorem enter_of_mem_path {rec : Task → Eval Value} {c : Task × Memory}
    (hc : c ∈ ((step settings (.activate method receiver args callers)).plan m).path rec) :
    ∃ f m', args.length = method.arity ∧
      Eval.enter method receiver args callers m = .ok f m' ∧
      c ∈ ((Planned.runMethod settings f method receiver).plan m').path rec := by
  by_cases harity : args.length = method.arity
  · cases henters : Eval.enter method receiver args callers m with
    | ok f m' =>
        rw [(activate_of_enter settings harity henters).2] at hc
        exact ⟨f, m', harity, rfl, hc⟩
    | error stop m' =>
        change c ∈ (if args.length ≠ method.arity then _ else _ : Plan Value).path rec at hc
        rw [if_neg (not_not_intro harity), henters] at hc
        exact absurd hc List.not_mem_nil
  · change c ∈ (if args.length ≠ method.arity then _ else _ : Plan Value).path rec at hc
    rw [if_pos harity] at hc
    exact absurd hc List.not_mem_nil

end

end Staged

/-! ### Calls -/

/-- A task, the memory that it starts in, and how deep tasks inside it may nest. -/
structure Call where
  task : Task
  memory : Memory
  depth : Nat

namespace Call

/-- What comes of a call. -/
def outcome (settings : Settings) (c : Call) : Outcome Value :=
  Eval.run settings c.depth c.task c.memory

/-- The frame that a call is made from: the one its tree is evaluated in, or the one
that sends the message or invokes the closure. -/
def frame? (c : Call) : Option FrameId :=
  match c.task with
  | .evaluate _ frame => some frame
  | .activate _ _ _ callers => callers.head?
  | .invoke _ _ caller => some caller

/-- The frame that an activation makes has the next number. -/
def opens (c : Call) : List FrameId :=
  match c.task with
  | .activate _ _ _ _ => [c.memory.heap.frames.size]
  | _ => []

/-- The calls that a call makes, in order. -/
def calls (settings : Settings) (c : Call) : List Call :=
  match c.depth with
  | 0 => []
  | depth + 1 =>
    (((Staged.step settings c.task).plan c.memory).path (Eval.run settings depth)).map
      fun p => ⟨p.1, p.2, depth⟩

/-- The calls that a call makes come up in the plan of its step, one level further down. -/
theorem of_mem_calls {settings : Settings} {c c' : Call} (h : c' ∈ c.calls settings) :
    c.depth = c'.depth + 1 ∧
      (c'.task, c'.memory) ∈
        ((Staged.step settings c.task).plan c.memory).path (Eval.run settings c'.depth) := by
  obtain ⟨task, m, depth⟩ := c
  cases depth with
  | zero => exact absurd h List.not_mem_nil
  | succ depth =>
      obtain ⟨p, hp, rfl⟩ := List.mem_map.mp h
      exact ⟨rfl, hp⟩

end Call

/-- The call that a query makes, if it gets that far. -/
def Query.call? (settings : Settings) (m : Memory) (q : Query) : Option Call :=
  match q.prepare m with
  | .ok task m' => some ⟨task, m', settings.depth⟩
  | .error _ _ => none

namespace Query

variable {settings : Settings} {m m' : Memory} {q : Query}

theorem call?_of_ok {task : Task} (h : q.prepare m = .ok task m') :
    q.call? settings m = some ⟨task, m', settings.depth⟩ := by
  unfold call?
  rw [h]

theorem call?_of_error {stop : Stop} (h : q.prepare m = .error stop m') :
    q.call? settings m = none := by
  unfold call?
  rw [h]

theorem prepare_of_call? {c : Call} (h : q.call? settings m = some c) :
    q.prepare m = .ok c.task c.memory := by
  cases hprepare : q.prepare m with
  | ok task m' =>
      rw [call?_of_ok hprepare] at h
      obtain rfl := Option.some.inj h
      rfl
  | error stop m' =>
      rw [call?_of_error hprepare] at h
      cases h

/-- A query concludes from what comes of its call. -/
theorem perform_of_call? {c : Call} (h : q.call? settings m = some c) :
    q.perform settings m = conclude c.task (Eval.run settings c.depth c.task) c.memory := by
  have hprepare := prepare_of_call? h
  rw [call?_of_ok hprepare] at h
  have hdepth : settings.depth = c.depth := congrArg Call.depth (Option.some.inj h)
  rw [perform_eq_performBy, hdepth]
  exact bind_of_ok hprepare

end Query

/-- The stacks of calls that come up while a query is evaluated, innermost first. -/
inductive InProgress (settings : Settings) (m : Memory) (q : Query) : List Call → Prop where
  | first {c : Call} (h : q.call? settings m = some c) : InProgress settings m q [c]
  | inner {c c' : Call} {outer : List Call} (h : InProgress settings m q (c :: outer))
      (hc : c' ∈ c.calls settings) : InProgress settings m q (c' :: c :: outer)

/-- The frames of the activations in progress: those of the calls on a stack, and that
of workspace code. -/
def openFrames (m : Memory) (q : Query) (stack : List Call) : List FrameId :=
  stack.flatMap Call.opens ++ q.opens m

end Smalltalk
