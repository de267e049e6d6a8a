import Smalltalk.Proofs.Blind
import Smalltalk.Proofs.Call

/-!
# `Smalltalk.Proofs.Failure`: a primitive that fails

Some primitives run blocks, and other primitives fail in there. Each failure is
for the activation whose primitive it is. If one came out of a block, the
activation that runs the block would take it for its own and run its body, after
the block has done half of its work. `Eval` has no word for a failure that is on
its way, so it cannot even say that this does not happen.

`Raising` is an evaluator that can. A primitive raises its failure, a failure
passes through everything on its way out, and an activation takes whatever
failure comes out of its primitive, from however deep inside. `Raising.run_eq`
says that this makes no difference.

`failure_contained` draws the conclusions. No evaluation ends with a failure; a
primitive that fails has changed nothing and has run no block; and the activation
ends as if its method had no tag, in the same memory up to the tag.
-/

set_option autoImplicit false

namespace Smalltalk

/-! ### An evaluator in which failures are raised -/

/-- How an evaluation ends without a value, where the failure of a primitive is one way. -/
inductive Ending where
  | stop (s : Stop)
  | failed (reason : Reason)

/-- An evaluation that may end with the failure of a primitive. -/
abbrev Raising := EStateM Ending Memory

/-- An outcome that is no failure. -/
def raised {α : Type} : Outcome α → EStateM.Result Ending Memory α
  | .ok a m => .ok a m
  | .error s m => .error (.stop s) m

/-- What comes of a plan where a task may end with a failure. -/
def Plan.raise {α : Type} (rec : Task → Raising Value) :
    Plan α → EStateM.Result Ending Memory α
  | done outcome => raised outcome
  | ask task m next =>
    match rec task m with
    | .ok v m' => (next v m').raise rec
    | .error ending m' => .error ending m'

namespace Raising

variable {α : Type}

/-- An evaluation that does no task. -/
def lift (act : Eval α) : Raising α := fun m => raised (act m)

/-- Goes through a plan. A failure of a task passes. -/
def through (plan : Memory → Plan α) (rec : Task → Raising Value) : Raising α :=
  fun m => (plan m).raise rec

/-- Runs the primitive of a method: it raises its failure, or does what it has decided on. -/
def runPrimitive (settings : Settings) (rec : Task → Raising Value) (frame : FrameId)
    (method : Method) (receiver : Value) : Raising Value := do
  let m ← get
  let args := Eval.argumentsOf m frame method
  match ← lift (Eval.ofExcept (Eval.decide settings m receiver args method.primitive)) with
  | .ok action => through (Planned.perform settings frame action).plan rec
  | .error reason => throw (.failed reason)

/-- Goes on from a failure. What has been done until then stays done. -/
def recover (act : Raising Value) (go : Reason → Raising Value) : Raising Value := fun m =>
  match act m with
  | .error (.failed reason) m' => go reason m'
  | result => result

/-- Runs the body of a method, and answers the receiver. -/
def runMethodBody (rec : Task → Raising Value) (frame : FrameId) (method : Method)
    (receiver : Value) : Raising Value :=
  through (Planned.runMethodBody frame method receiver).plan rec

/-- Runs the primitive of a method, or its body where there is none or a failure comes
out of it. -/
def runMethod (settings : Settings) (rec : Task → Raising Value) (frame : FrameId)
    (method : Method) (receiver : Value) : Raising Value :=
  if method.isPrimitive then
    recover (runPrimitive settings rec frame method receiver) fun reason => do
      lift (Eval.note (Eval.failureLine method reason))
      runMethodBody rec frame method receiver
  else runMethodBody rec frame method receiver

/-- Ends the activation of a frame, however its evaluation ended. -/
def closing (frame : FrameId) (act : Raising Value) : Raising Value := fun m =>
  match act m with
  | .ok v m => .ok v (m.retire frame)
  | .error (.stop (.unwind v home)) m =>
    if home = frame then .ok v (m.retire frame)
    else .error (.stop (.unwind v home)) (m.retire frame)
  | .error ending m => .error ending (m.retire frame)

/-- Activates a method. -/
def activate (settings : Settings) (rec : Task → Raising Value) (method : Method)
    (receiver : Value) (args : List Value) (callers : List FrameId) : Raising Value :=
  if args.length ≠ method.arity then
    lift (Eval.activate settings idle method receiver args callers)
  else do
    let frame ← lift (Eval.enter method receiver args callers)
    closing frame (runMethod settings rec frame method receiver)

/-- Does a task, given how the tasks inside it are done. -/
def step (settings : Settings) (rec : Task → Raising Value) : Task → Raising Value
  | .evaluate node frame => through (Planned.evaluateNode frame node).plan rec
  | .activate method receiver args callers => activate settings rec method receiver args callers
  | .invoke closure args caller => through (Planned.invoke closure args caller).plan rec

/-- Does a task in which tasks nest at most `depth` deep. -/
def run (settings : Settings) : (depth : Nat) → Task → Raising Value
  | 0, _ => throw (.stop .tooDeep)
  | depth + 1, task => step settings (run settings depth) task

/-- Turns an exhausted depth into a fault that names the activity. -/
def naming (activity : Memory → Except Fault String) (act : Raising Value) : Raising Value :=
  fun m =>
    match act m with
    | .error (.stop .tooDeep) m =>
      match activity m with
      | .ok words => .error (.stop (.fault (.tooDeep words))) m
      | .error f => .error (.stop (.fault f)) m
    | result => result

/-- What a query makes of its task. -/
def conclude (task : Task) (act : Raising Value) : Raising Value :=
  naming (Query.activity task) <|
    match task with
    | .evaluate _ frame => closing frame act
    | _ => act

/-- Evaluates a query. -/
def perform (settings : Settings) (q : Query) : Raising Value := do
  let task ← lift q.prepare
  conclude task (run settings settings.depth task)

/-! ### The two evaluators agree -/

variable {settings : Settings} {rec : Task → Eval Value} {m : Memory}

/-- Where no task ends with a failure, a plan does not either. -/
theorem raise_lift (rec : Task → Eval Value) (p : Plan α) :
    p.raise (fun task => lift (rec task)) = raised (p.follow rec) := by
  induction p with
  | done outcome => rfl
  | ask task m next ih =>
      unfold Plan.raise Plan.follow lift
      cases rec task m with
      | ok v m' => exact ih v m'
      | error stop m' => rfl

theorem through_lift {act : (Task → Eval Value) → Eval α} (p : Planned act)
    (rec : Task → Eval Value) : through p.plan (fun task => lift (rec task)) = lift (act rec) := by
  funext m
  unfold through lift
  rw [p.follows, ← raise_lift]
  rfl

theorem lift_bind {β : Type} (x : Eval α) (f : α → Eval β) :
    (lift x >>= fun a => lift (f a)) = lift (x >>= f) := by
  funext m
  show EStateM.bind (lift x) (fun a => lift (f a)) m = raised (EStateM.bind x f m)
  unfold EStateM.bind lift
  cases x m <;> rfl

/-- What a primitive does is settled by what it decides. -/
theorem runPrimitive_eq (rec : Task → Raising Value) (frame : FrameId) (method : Method)
    (receiver : Value) (m : Memory) : runPrimitive settings rec frame method receiver m =
      match Eval.decide settings m receiver (Eval.argumentsOf m frame method)
        method.primitive with
      | .ok (.ok action) => ((Planned.perform settings frame action).plan m).raise rec
      | .ok (.error reason) => .error (.failed reason) m
      | .error f => .error (.stop (.fault f)) m := by
  show EStateM.bind (lift (Eval.ofExcept (Eval.decide settings m receiver
    (Eval.argumentsOf m frame method) method.primitive))) _ m = _
  unfold EStateM.bind
  cases Eval.decide settings m receiver (Eval.argumentsOf m frame method) method.primitive with
  | error f => rfl
  | ok choice => cases choice <;> rfl

/-- Where no task ends with a failure, the only failure that comes out of a primitive is
the one that it has decided on. -/
theorem runMethod_lift (rec : Task → Eval Value) (frame : FrameId) (method : Method)
    (receiver : Value) : runMethod settings (fun task => lift (rec task)) frame method receiver
      = lift (Eval.runMethod settings rec frame method receiver) := by
  have hbody : runMethodBody (fun task => lift (rec task)) frame method receiver
      = lift (Eval.runMethodBody rec frame method receiver) := through_lift _ rec
  unfold runMethod Eval.runMethod
  rw [hbody]
  by_cases htagged : method.isPrimitive = true
  · rw [if_pos htagged, if_pos htagged]
    funext m
    unfold recover
    rw [runPrimitive_eq]
    show _ = raised (EStateM.bind (Eval.ofExcept (Eval.decide settings m receiver
      (Eval.argumentsOf m frame method) method.primitive)) _ m)
    unfold EStateM.bind
    cases Eval.decide settings m receiver (Eval.argumentsOf m frame method) method.primitive with
    | error f => rfl
    | ok choice =>
        cases choice with
        | error reason => exact congrFun (lift_bind _ _) m
        | ok action =>
            show _ = raised (Eval.perform settings rec frame action m)
            rw [(Planned.perform settings frame action).follows]
            simp only [raise_lift]
            -- a raised failure comes from the choice alone: no stop of a task is one
            cases ((Planned.perform settings frame action).plan m).follow rec <;> rfl
  · rw [if_neg htagged, if_neg htagged]

theorem closing_lift (frame : FrameId) (act : Eval Value) :
    closing frame (lift act) = lift (Eval.closing frame act) := by
  funext m
  unfold closing lift
  rw [Eval.closing_eq_close]
  cases act m with
  | ok v m' => rfl
  | error stop m' =>
      cases stop with
      | unwind v home =>
          show (if home = frame then _ else _) = raised (if home = frame then _ else _)
          split <;> rfl
      | _ => rfl

theorem step_lift (settings : Settings) (rec : Task → Eval Value) (task : Task) :
    step settings (fun task => lift (rec task)) task = lift (Eval.step settings rec task) := by
  cases task with
  | evaluate node frame => exact through_lift _ rec
  | invoke closure args caller => exact through_lift _ rec
  | activate method receiver args callers =>
      show activate settings _ method receiver args callers
        = lift (Eval.activate settings rec method receiver args callers)
      unfold activate Eval.activate
      by_cases harity : args.length ≠ method.arity
      · simp only [if_pos harity]
      · simp only [if_neg harity, ← lift_bind, runMethod_lift, closing_lift]

/-- The evaluator in which failures are raised is the evaluator. -/
theorem run_eq (settings : Settings) (depth : Nat) (task : Task) :
    run settings depth task = lift (Eval.run settings depth task) := by
  induction depth generalizing task with
  | zero => rfl
  | succ depth ih =>
      unfold run Eval.run
      rw [← step_lift, funext ih]

theorem naming_lift (activity : Memory → Except Fault String) (act : Eval Value) :
    naming activity (lift act) = lift (Eval.naming activity act) := by
  funext m
  unfold naming lift Eval.naming
  cases act m with
  | ok v m' => rfl
  | error stop m' =>
      cases stop with
      | tooDeep =>
          simp only [raised]
          cases activity m' <;> rfl
      | _ => rfl

/-- Queries end in the same way, too. -/
theorem perform_eq (settings : Settings) (q : Query) :
    perform settings q = lift (q.perform settings) := by
  have hconclude : ∀ (task : Task) (act : Eval Value),
      conclude task (lift act) = lift (Query.conclude task act) := by
    intro task act
    unfold conclude Query.conclude
    rw [← naming_lift]
    cases task with
    | evaluate node frame =>
        simp only
        rw [closing_lift]
    | _ => rfl
  rw [q.perform_eq_performBy]
  unfold perform Query.performBy
  simp only [← lift_bind, run_eq, hconclude]

/-! ### Failures -/

theorem lift_ne_failed (act : Eval α) (reason : Reason) (m m' : Memory) :
    lift act m ≠ .error (.failed reason) m' := by
  unfold lift
  cases act m <;> exact fun h => nomatch h

/-- A primitive from which a failure comes has decided on it, and done nothing. -/
theorem decide_of_failed {frame : FrameId} {method : Method} {receiver : Value}
    {reason : Reason} {m' : Memory}
    (h : runPrimitive settings (fun task => lift (rec task)) frame method receiver m
      = .error (.failed reason) m') :
    m' = m ∧ Eval.decide settings m receiver (Eval.argumentsOf m frame method) method.primitive
      = .ok (.error reason) := by
  rw [runPrimitive_eq] at h
  cases hdecide : Eval.decide settings m receiver (Eval.argumentsOf m frame method)
      method.primitive with
  | error f =>
      rw [hdecide] at h
      cases h
  | ok choice =>
      rw [hdecide] at h
      cases choice with
      | error reason' =>
          cases h
          exact ⟨rfl, rfl⟩
      | ok action =>
          simp only [raise_lift] at h
          exact absurd h (lift_ne_failed (fun _ => _) reason m m')

end Raising

/-- The activation of a method has made its frame, and its primitive starts. -/
structure Starts (method : Method) (receiver : Value) (args : List Value)
    (callers : List FrameId) (m : Memory) (frame : FrameId) (m₁ : Memory) : Prop where
  tagged : method.isPrimitive = true
  arity : args.length = method.arity
  enters : Eval.enter method receiver args callers m = .ok frame m₁

variable {settings : Settings} {m m₁ : Memory} {method : Method} {receiver : Value}
  {args : List Value} {callers : List FrameId} {frame : FrameId} {reason : Reason}

theorem Eval.activate_of_enter (harity : args.length = method.arity)
    (henters : Eval.enter method receiver args callers m = .ok frame m₁)
    (rec : Task → Eval Value) : Eval.activate settings rec method receiver args callers m
      = Eval.closing frame (Eval.runMethod settings rec frame method receiver) m₁ := by
  unfold Eval.activate
  rw [if_neg (not_not_intro harity)]
  exact bind_of_ok henters

/-- A line that can be made changes nothing but the journal. -/
theorem Eval.note_of_ok {line : Memory → Except Fault String}
    (hline : m.journal.recording = true → ∃ text, line m = .ok text) :
    ∃ m', Eval.note line m = .ok () m' ∧ m'.bare = m.bare := by
  cases hrecording : m.journal.recording with
  | false => exact ⟨m, note_of_quiet hrecording, rfl⟩
  | true =>
      obtain ⟨text, htext⟩ := hline hrecording
      refine ⟨m.note text, note_of_made hrecording htext, ?_⟩
      unfold Memory.note
      rw [if_pos hrecording]
      rfl

/-- A primitive that decides that it fails leaves the rest to the body. -/
theorem Eval.runMethod_of_decide (htagged : method.isPrimitive = true)
    (hdecide : Eval.decide settings m₁ receiver (Eval.argumentsOf m₁ frame method)
      method.primitive = .ok (.error reason))
    (hline : m₁.journal.recording = true → ∃ text, Eval.failureLine method reason m₁ = .ok text)
    (rec : Task → Eval Value) : ∃ m₂, m₂.bare = m₁.bare ∧
      Eval.runMethod settings rec frame method receiver m₁
        = Eval.runMethodBody rec frame method receiver m₂ := by
  obtain ⟨m₂, hnote, hbare⟩ := Eval.note_of_ok hline
  refine ⟨m₂, hbare, ?_⟩
  unfold Eval.runMethod
  rw [if_pos htagged]
  show EStateM.bind (Eval.ofExcept (Eval.decide settings m₁ receiver
    (Eval.argumentsOf m₁ frame method) method.primitive)) _ m₁ = _
  rw [hdecide]
  exact bind_of_ok hnote

/-- An activation whose primitive decides that it fails ends as if there were no tag. -/
theorem Starts.sameOutcome (h : Starts method receiver args callers m frame m₁)
    (hdecide : Eval.decide settings m₁ receiver (Eval.argumentsOf m₁ frame method)
      method.primitive = .ok (.error reason))
    (hline : m₁.journal.recording = true → ∃ text, Eval.failureLine method reason m₁ = .ok text)
    {rec : Task → Eval Value} (hrec : Eval.AllBlind rec) :
    SameOutcome (Eval.activate settings rec method receiver args callers m)
      (Eval.activate settings rec method.bare receiver args callers m) := by
  -- without the tag, the frame is the same up to the tag
  obtain ⟨m₁', henters, hbare₁⟩ : ∃ m₁', Eval.enter method.bare receiver args callers m
      = .ok frame m₁' ∧ m₁.bare = m₁'.bare := by
    have hsame := Eval.Alike.enter method receiver args callers m m rfl
    rw [h.enters] at hsame
    generalize Eval.enter method.bare receiver args callers m = r at hsame ⊢
    cases hsame with
    | ok _ hbare => exact ⟨_, rfl, hbare⟩
  have huntagged : Eval.runMethod settings rec frame method.bare receiver
      = Eval.runMethodBody rec frame method receiver := rfl
  -- with the tag, the body runs after the line for the journal
  obtain ⟨m₂, hbare₂, hbody⟩ := Eval.runMethod_of_decide h.tagged hdecide hline rec
  have hclosing : Eval.closing frame (Eval.runMethod settings rec frame method receiver) m₁
      = Eval.closing frame (Eval.runMethodBody rec frame method receiver) m₂ := by
    rw [Eval.closing_eq_close, Eval.closing_eq_close, hbody]
  have harity : args.length = method.bare.arity := h.arity
  rw [Eval.activate_of_enter h.arity h.enters, Eval.activate_of_enter harity henters, hclosing,
    huntagged]
  exact Eval.Alike.closing frame (Eval.Alike.runMethodBody hrec frame method receiver) m₂ m₁'
    (hbare₂.trans hbare₁)

/-- No evaluation and no query ends with the failure of a primitive: the evaluator in
which failures are raised, and pass through all that is no activation, is the evaluator
itself. A primitive that fails leaves the memory as it was when it started. It fails so
whatever would become of the tasks that it might ask for, which is to say that it asks
for none and runs no block. And if the line about it can be made where a journal is kept,
its activation ends as if the method had no tag: with the same value or the same stop, and
in the same memory, but for the tag that frames remember, and the line. -/
theorem failure_contained (settings : Settings) :
    (∀ depth task m,
      Raising.run settings depth task m = raised (Eval.run settings depth task m)) ∧
    (∀ q m, Raising.perform settings q m = raised (q.perform settings m)) ∧
    (∀ depth task m reason m', Raising.run settings depth task m ≠ .error (.failed reason) m') ∧
    (∀ q m reason m', Raising.perform settings q m ≠ .error (.failed reason) m') ∧
    ∀ depth method receiver args callers m frame m₁ reason m₂,
      Starts method receiver args callers m frame m₁ →
      Raising.runPrimitive settings (Raising.run settings depth) frame method receiver m₁
        = .error (.failed reason) m₂ →
      m₂ = m₁ ∧
      (∀ rec, Raising.runPrimitive settings rec frame method receiver m₁
        = .error (.failed reason) m₁) ∧
      ((m₁.journal.recording = true → ∃ text, Eval.failureLine method reason m₁ = .ok text) →
        SameOutcome (Eval.run settings (depth + 1) (.activate method receiver args callers) m)
          (Eval.run settings (depth + 1) (.activate method.bare receiver args callers) m)) := by
  have hrun : ∀ depth task, Raising.run settings depth task = Raising.lift _ :=
    Raising.run_eq settings
  have hperform : ∀ q, Raising.perform settings q = Raising.lift _ := Raising.perform_eq settings
  refine ⟨fun depth task m => congrFun (hrun depth task) m, fun q m => congrFun (hperform q) m,
    fun depth task m reason m' => ?_, fun q m reason m' => ?_, ?_⟩
  · rw [hrun]
    exact Raising.lift_ne_failed _ reason m m'
  · rw [hperform]
    exact Raising.lift_ne_failed _ reason m m'
  · intro depth method receiver args callers m frame m₁ reason m₂ hstarts hfailed
    rw [funext (hrun depth)] at hfailed
    obtain ⟨hsame, hdecide⟩ := Raising.decide_of_failed hfailed
    refine ⟨hsame, fun rec => ?_, fun hline => ?_⟩
    · rw [Raising.runPrimitive_eq, hdecide]
    · exact hstarts.sameOutcome hdecide hline (Eval.Alike.run settings depth)

/-- A method that is tagged with the addition of integers, and returns seven. -/
def adding : Method where
  selector := .str "+"
  params := [.str "x"]
  temps := []
  statements := [.answer (.literal (.int 7))]
  primitive := .int 1
  owner := ⟨0, false⟩

/-- There is no adding to nil, so nil answers seven, with the tag as without it. -/
theorem failure_contained_of_adding : ∃ m₁ m₂, Starts adding .nil [.nil] [] {} 0 m₁ ∧
    Eval.run {} 3 (.activate adding .nil [.nil] []) {} = .ok (.int 7) m₂ ∧
    SameOutcome (Eval.run {} 3 (.activate adding .nil [.nil] []) {})
      (Eval.run {} 3 (.activate adding.bare .nil [.nil] []) {}) := by
  refine ⟨_, _, ⟨rfl, rfl, rfl⟩, rfl, ?_⟩
  obtain ⟨-, -, -, -, hfails⟩ := failure_contained {}
  have hstarts : Starts adding .nil [.nil] [] {} 0 _ := ⟨rfl, rfl, rfl⟩
  obtain ⟨-, -, hsame⟩ := hfails 2 adding .nil [.nil] [] {} 0 _ .typeMismatch _ hstarts rfl
  exact hsame fun hrecording => absurd hrecording Bool.false_ne_true

end Smalltalk
