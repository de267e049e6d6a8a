import Smalltalk.Proofs.Counting

/-!
# `Smalltalk.Proofs.Direct`: the calls that a call makes itself

Some methods of the kernel only hand on: their primitive invokes closures, and the code
behind it is for the case that the primitive fails. `Call.Unfolds` says how a call ends and
which calls it makes itself, in order. So it says as well that nothing else was run.

`Kernel.sendToClosure` is a send to a closure whose method has a primitive that does not
fail. It activates the method, and that does what the primitive has decided on, in a frame
of its own.
-/

set_option autoImplicit false

namespace Smalltalk

variable {settings : Settings} {depth : Nat} {m m' : Memory} {out : Outcome Value}
  {calls : List Call}

/-- An inner call, as one that is made directly. -/
def Call.direct (depth : Nat) (task : Task) (m : Memory) : List Call := [⟨task, m, depth⟩]

/-- The frames that have asked for an activation, innermost first. -/
def Task.callers : Task → List FrameId
  | .activate _ _ _ callers => callers
  | _ => []

/-- A call ends so, and makes these calls itself. -/
structure Call.Unfolds (settings : Settings) (c : Call) (out : Outcome Value)
    (calls : List Call) : Prop where
  outcome : c.outcome settings = out
  calls_eq : c.calls settings = calls

namespace Call.Unfolds

/-- A call with some depth left makes the calls that are seen in the step of its task. -/
theorem of_step {task : Task} (h : (Staged.step settings task).Goes (Eval.run settings depth)
      (Call.direct depth) m out calls) :
    (Call.mk task m (depth + 1)).Unfolds settings out calls where
  outcome := h.ends
  calls_eq := by
    rw [← h.sees]
    exact (List.flatMap_pure_eq_map ..).symm

theorem activate {method : Method} {receiver : Value} {args : List Value}
    {callers : List FrameId} {f : FrameId} (harity : args.length = method.arity)
    (henters : Eval.enter method receiver args callers m = .ok f m')
    (h : (Planned.runMethod settings f method receiver).Goes (Eval.run settings depth)
      (Call.direct depth) m' out calls) :
    (Call.mk (.activate method receiver args callers) m (depth + 1)).Unfolds settings
      (Eval.close f out) calls :=
  of_step (.activate harity henters h)

end Call.Unfolds

/-! ### Frames of activations -/

/-- An outcome after the frame of an activation was retired. -/
def Eval.retired (f : FrameId) : Outcome Value → Outcome Value
  | .ok v m => .ok v (m.retire f)
  | .error stop m => .error stop (m.retire f)

/-- What does not unwind to a frame stays as it is when the frame is closed. -/
theorem Eval.close_eq_retired {f : FrameId} (h : ∀ v m, out ≠ .error (.unwind v f) m) :
    close f out = retired f out := by
  cases out with
  | ok v m => rfl
  | error stop m => exact close_error (fun v heq => h v m (heq ▸ rfl)) m

theorem Eval.tooDeep_retired {f : FrameId} : TooDeep (retired f out) ↔ TooDeep out := by
  constructor
  · rintro ⟨m', h⟩
    cases out with
    | ok v m => cases h
    | error stop m =>
        cases h
        exact ⟨m, rfl⟩
  · rintro ⟨m, rfl⟩
    exact ⟨m.retire f, rfl⟩

/-- A memory with one more frame. -/
def Memory.withFrame (m : Memory) (x : Frame) : Memory :=
  { m with heap := (m.heap.newFrame x).1 }

theorem Memory.makes_withFrame (m : Memory) (x : Frame) :
    m.Makes x m.heap.frames.size (m.withFrame x) := by
  refine ⟨.newFrame m x, Nat.le_refl _, ?_, ?_⟩
  · show _ < (m.heap.newFrame x).1.frames.size
    rw [Heap.size_newFrame]
    exact Nat.lt_succ_self _
  · exact (Heap.frame_newFrame ..).trans (if_pos rfl)

/-- A line of the journal more does not matter to what is made. -/
theorem Memory.Noted.makes_withFrame (n : m.Noted m') (x : Frame) :
    m.Makes x m.heap.frames.size (m'.withFrame x) := by
  have h := (m'.makes_withFrame x).prepend (.of_noted n)
  rwa [n.heap] at h

/-! ### Sends to closures -/

namespace Kernel

/-- A send to a closure whose method has a primitive that does not fail. In the next frame the
activation does what the primitive has decided on, and nothing else. -/
theorem sendToClosure {c : ClosureId} {selector : String} {number : Int} {names : List String}
    {p : Primitive} {args : List Value} {action : Action} (he : m.Equipped settings)
    (hnode : tree? "BlockClosure" selector = some (byPrimitive selector number names))
    (hnodup : names.Nodup) (hlength : args.length = names.length)
    (hp : (number, p) ∈ Primitive.numbered)
    (hattempt : ∀ m', m.Aside [] m' → p.attempt m' (.closure c) args = .ok action)
    (h : Memory.Sends settings (.closure c) selector args m (depth + 1) calls out) :
    ∃ activation m₀ x, calls = [activation] ∧ m.Noted m₀ ∧
      activation.task.callers = x.callers ∧
      (∀ out seen, (Planned.perform settings m.heap.frames.size action).Goes
        (Eval.run settings depth) (Call.direct depth) (m₀.withFrame x) out seen →
        activation.Unfolds settings (Eval.close m.heap.frames.size out) seen) ∧
      (out = activation.outcome settings ∨
        Eval.OutOfDepth out ∧ Eval.TooDeep (activation.outcome settings)) := by
  obtain ⟨cls, hclass, hunderstands⟩ := he.understands (v := .closure c) rfl hnode
  obtain ⟨owner, next, hmethod⟩ := hunderstands.method
  obtain ⟨callers, m₀, hnoted, rfl, hout⟩ := h.activates hclass hmethod rfl
  let method : Method := ⟨.str selector, names.map .str, [], (Node.listWithSites next
    [.answer (.call .self "primitiveFailed" [])]).1, .int number, owner⟩
  have htakes : method.Takes names args := ⟨rfl, hnodup, hlength⟩
  let x : Frame := { receiver := .closure c, method := some method, callers,
                     slots := Dictionary.putAll names args {} }
  have henter : Eval.enter method (.closure c) args callers m₀
      = .ok m.heap.frames.size (m₀.withFrame x) := by
    rw [← hnoted.heap]
    exact Eval.enter_of_texts rfl ..
  have o := hnoted.makes_withFrame x
  have hargs : Eval.argumentsOf (m₀.withFrame x) m.heap.frames.size method = args :=
    Eval.argumentsOf_of_frame rfl hnodup hlength (congrArg Frame.slots o.frame)
  refine ⟨_, m₀, x, rfl, hnoted, rfl, fun out seen hperform => ?_, hout⟩
  exact .activate htakes.arity henter (.runMethod_primitive rfl (he.primitive (number, p) hp)
    hargs (hattempt _ o.aside) hperform)

end Kernel

end Smalltalk
