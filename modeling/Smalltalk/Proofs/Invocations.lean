import Smalltalk.Proofs.Failure
import Smalltalk.Proofs.Moves

/-!
# `Smalltalk.Proofs.Invocations`: when a call invokes a closure

`Call.invocations` are the calls that invoke a given closure while a call is made, in the
order in which they begin. What happens inside such an invocation is the affair of the
closure, so the invocations inside it are left out.

`Call.Goes` says what comes of a call together with its invocations of a closure, and
`Planned.Goes` says it of an evaluation that has a plan. The rules for `Planned.Goes` follow
the plans: what is seen in two parts after one another is seen in the order of the parts. A
step of the evaluator goes as its plan does (`Call.Goes.evaluate`, `Call.Goes.activate`,
`Call.Goes.invoke`).
-/

set_option autoImplicit false

namespace Smalltalk

/-- Whether a task invokes a closure. -/
def Task.invokes (b : ClosureId) : Task → Bool
  | .invoke closure _ _ => closure == b
  | _ => false

namespace Call

variable (settings : Settings) (b : ClosureId)

/-- The invocations of a closure while a task is done, but for those inside another one. -/
def invocationsOf : (depth : Nat) → Task → Memory → List Call
  | 0, _, _ => []
  | depth + 1, task, m => ((Call.mk task m (depth + 1)).calls settings).flatMap fun c =>
      if c.task.invokes b then [c] else invocationsOf depth c.task c.memory

/-- The invocations of a closure while a call is made, but for those inside another one. -/
def invocations (c : Call) : List Call := invocationsOf settings b c.depth c.task c.memory

/-- What an inner call counts for: itself if it invokes the closure, else its invocations. -/
def seen (depth : Nat) (task : Task) (m : Memory) : List Call :=
  if task.invokes b then [⟨task, m, depth⟩] else invocationsOf settings b depth task m

theorem invocationsOf_succ (depth : Nat) (task : Task) (m : Memory) :
    invocationsOf settings b (depth + 1) task m =
      (((Staged.step settings task).plan m).path (Eval.run settings depth)).flatMap
        fun p => seen settings b depth p.1 p.2 :=
  List.flatMap_map ..

end Call

/-! ### Plans -/

theorem Plan.path_bind {α β : Type} (rec : Task → Eval Value) (p : Plan α)
    (k : α → Memory → Plan β) : (p.bind k).path rec =
      p.path rec ++
        match p.follow rec with
        | .ok a m => (k a m).path rec
        | .error _ _ => [] := by
  induction p with
  | done outcome => cases outcome <;> rfl
  | ask task m next ih =>
      simp only [bind, path, follow]
      cases rec task m with
      | ok v m' => exact congrArg (List.cons _) (ih v m')
      | error stop m' => rfl

/-- An evaluation that follows a plan ends so, and this is seen on the way. -/
structure Planned.Goes {α : Type} {act : (Task → Eval Value) → Eval α} (p : Planned act)
    (rec : Task → Eval Value) (see : Task → Memory → List Call) (m : Memory) (out : Outcome α)
    (seen : List Call) : Prop where
  ends : act rec m = out
  sees : ((p.plan m).path rec).flatMap (fun c => see c.1 c.2) = seen

namespace Planned.Goes

variable {α β : Type} {rec : Task → Eval Value} {see : Task → Memory → List Call}
  {m m' : Memory} {out : Outcome β} {seen seen' : List Call}

theorem const (act : Eval α) : (Planned.const act).Goes rec see m (act m) [] := ⟨rfl, rfl⟩

theorem still {act : (Task → Eval Value) → Eval α} (h : ∀ rec rec', act rec = act rec') :
    (Planned.still h).Goes rec see m (act rec m) [] := ⟨rfl, rfl⟩

theorem call (task : Task) : (Planned.call task).Goes rec see m (rec task m) (see task m) where
  ends := rfl
  sees := by
    simp only [Planned.call, Plan.path]
    cases rec task m <;> exact List.append_nil _

section
variable {x : (Task → Eval Value) → Eval α} {f : α → (Task → Eval Value) → Eval β}
  {px : Planned x} {pf : ∀ a, Planned (f a)}

theorem bind {a : α} (hx : px.Goes rec see m (.ok a m') seen)
    (hf : (pf a).Goes rec see m' out seen') :
    (px.bind pf).Goes rec see m out (seen ++ seen') where
  ends := (bind_of_ok hx.ends).trans hf.ends
  sees := by
    show (((px.plan m).bind fun a m' => (pf a).plan m').path rec).flatMap _ = _
    rw [Plan.path_bind, ← px.follows, hx.ends, List.flatMap_append, hx.sees]
    exact congrArg _ hf.sees

/-- Nothing is seen in the first part. -/
theorem bind_nil {a : α} (hx : px.Goes rec see m (.ok a m') [])
    (hf : (pf a).Goes rec see m' out seen) : (px.bind pf).Goes rec see m out seen :=
  hx.bind hf

/-- Nothing is seen in the second part. -/
theorem bind_last {a : α} (hx : px.Goes rec see m (.ok a m') seen)
    (hf : (pf a).Goes rec see m' out []) : (px.bind pf).Goes rec see m out seen := by
  have h := hx.bind hf
  rwa [List.append_nil] at h

theorem bind_stop {stop : Stop} (hx : px.Goes rec see m (.error stop m') seen) :
    (px.bind pf).Goes rec see m (.error stop m') seen where
  ends := bind_of_error hx.ends
  sees := by
    show (((px.plan m).bind fun a m' => (pf a).plan m').path rec).flatMap _ = _
    rw [Plan.path_bind, ← px.follows, hx.ends, List.append_nil, hx.sees]

end

theorem congr {act act' : (Task → Eval Value) → Eval β} {p : Planned act}
    {h : ∀ rec, act' rec = act rec} (hp : p.Goes rec see m out seen) :
    (p.congr h).Goes rec see m out seen :=
  ⟨(congrFun (h rec) m).trans hp.ends, hp.sees⟩

section
variable {x y : (Task → Eval Value) → Eval β} {c : Prop} [Decidable c] {px : Planned x}
  {py : Planned y}

theorem ite_pos (hc : c) (h : px.Goes rec see m out seen) :
    (Planned.ite c px py).Goes rec see m out seen := by
  unfold Planned.ite
  exact ⟨(congrFun (if_pos hc) m).trans h.ends, by rw [dif_pos hc]; exact h.sees⟩

theorem ite_neg (hc : ¬ c) (h : py.Goes rec see m out seen) :
    (Planned.ite c px py).Goes rec see m out seen := by
  unfold Planned.ite
  exact ⟨(congrFun (if_neg hc) m).trans h.ends, by rw [dif_neg hc]; exact h.sees⟩

end

end Planned.Goes

/-! ### Steps -/

/-- An evaluation that opens a frame of its own ends so, and this is seen on the way. -/
structure Staged.Goes {act : (Task → Eval Value) → Eval Value} (s : Staged act)
    (rec : Task → Eval Value) (see : Task → Memory → List Call) (m : Memory)
    (out : Outcome Value) (seen : List Call) : Prop where
  ends : act rec m = out
  sees : ((s.plan m).path rec).flatMap (fun c => see c.1 c.2) = seen

section
variable {rec : Task → Eval Value} {see : Task → Memory → List Call} {m m' : Memory}
  {out : Outcome Value} {seen : List Call}

/-- A step without a frame of its own goes as its plan does. -/
theorem Planned.Goes.staged {act : (Task → Eval Value) → Eval Value} {p : Planned act}
    (h : p.Goes rec see m out seen) : (Staged.ofPlanned p).Goes rec see m out seen :=
  ⟨h.ends, h.sees⟩

/-- An activation makes its frame, runs the method in it and closes it. -/
theorem Staged.Goes.activate {settings : Settings} {method : Method} {receiver : Value}
    {args : List Value} {callers : List FrameId} {f : FrameId}
    (harity : args.length = method.arity)
    (henters : Eval.enter method receiver args callers m = .ok f m')
    (h : (Planned.runMethod settings f method receiver).Goes rec see m' out seen) :
    (Staged.step settings (.activate method receiver args callers)).Goes rec see m
      (Eval.close f out) seen := by
  obtain ⟨hopens, hplan⟩ := Staged.activate_of_enter settings harity henters
  constructor
  · show Eval.step settings rec (.activate method receiver args callers) m = _
    rw [(Staged.step settings _).follows, hopens, hplan,
      ← (Planned.runMethod settings f method receiver).follows, h.ends]
    rfl
  · rw [hplan]
    exact h.sees

end

/-! ### Calls -/

/-- A call ends so, with these invocations of a closure on the way. -/
structure Call.Goes (settings : Settings) (b : ClosureId) (c : Call) (out : Outcome Value)
    (seen : List Call) : Prop where
  outcome : c.outcome settings = out
  invocations : c.invocations settings b = seen

section
variable {settings : Settings} {b : ClosureId} {depth : Nat} {m m' : Memory}
  {out : Outcome Value} {seen : List Call}

/-- A call that does not invoke the closure itself counts for what it involves. -/
theorem Planned.Goes.inner {task : Task} (h : (Call.mk task m depth).Goes settings b out seen)
    (hother : task.invokes b = false) : (Planned.call task).Goes (Eval.run settings depth)
      (Call.seen settings b depth) m out seen := by
  have hcall : (Planned.call task).Goes (Eval.run settings depth) (Call.seen settings b depth) m
      (Eval.run settings depth task m) (Call.seen settings b depth task m) := .call task
  have hseen : Call.seen settings b depth task m = seen := by
    unfold Call.seen
    rw [hother]
    exact h.invocations
  exact ⟨hcall.ends.trans h.outcome, hcall.sees.trans hseen⟩

/-- A call that invokes the closure is seen itself. -/
theorem Planned.Goes.invocation (args : List Value) (caller : FrameId) :
    (Planned.call (.invoke b args caller)).Goes (Eval.run settings depth)
      (Call.seen settings b depth) m
      ((Call.mk (.invoke b args caller) m depth).outcome settings)
      [⟨.invoke b args caller, m, depth⟩] := by
  have hseen : Call.seen settings b depth (.invoke b args caller) m
      = [⟨.invoke b args caller, m, depth⟩] := if_pos (beq_self_eq_true b)
  have hcall : (Planned.call (.invoke b args caller)).Goes (Eval.run settings depth)
      (Call.seen settings b depth) m _ _ := .call _
  exact ⟨hcall.ends, hcall.sees.trans hseen⟩

namespace Call.Goes

/-- A call with some depth left goes as the step of its task does. -/
theorem of_step {task : Task} (h : (Staged.step settings task).Goes (Eval.run settings depth)
      (Call.seen settings b depth) m out seen) :
    (Call.mk task m (depth + 1)).Goes settings b out seen :=
  ⟨h.ends, (invocationsOf_succ settings b depth task m).trans h.sees⟩

theorem evaluate {node : Node} {f : FrameId} (h : (Planned.evaluateNode f node).Goes
      (Eval.run settings depth) (Call.seen settings b depth) m out seen) :
    (Call.mk (.evaluate node f) m (depth + 1)).Goes settings b out seen :=
  of_step h.staged

theorem invoke {c : ClosureId} {args : List Value} {caller : FrameId}
    (h : (Planned.invoke c args caller).Goes (Eval.run settings depth)
      (Call.seen settings b depth) m out seen) :
    (Call.mk (.invoke c args caller) m (depth + 1)).Goes settings b out seen :=
  of_step h.staged

theorem activate {method : Method} {receiver : Value} {args : List Value}
    {callers : List FrameId} {f : FrameId} (harity : args.length = method.arity)
    (henters : Eval.enter method receiver args callers m = .ok f m')
    (h : (Planned.runMethod settings f method receiver).Goes (Eval.run settings depth)
      (Call.seen settings b depth) m' out seen) :
    (Call.mk (.activate method receiver args callers) m (depth + 1)).Goes settings b
      (Eval.close f out) seen :=
  of_step (.activate harity henters h)

end Call.Goes

end

end Smalltalk
