import Smalltalk.Proofs.Effect

/-!
# `Smalltalk.Proofs.Asks`: what a task may ask for

The text of a program bounds what runs on behalf of it. A tree asks for the parts
that it is made of, in the same frame, and for activations. An activation and a
closure ask for the statements in their code, in the frame that is made for them;
an activation may have closures invoked from there (`Task.MayAsk`).

`Call.mayAsk_of_mem_calls` says so of every call. `Plan.Only` is the bound on a
plan, whatever the answers are, and is put together as the plans are.
-/

set_option autoImplicit false

namespace Smalltalk

/-- The trees that a tree is made of and that are evaluated in the same frame. The
code of a block is not among them. -/
def Node.parts : Node → List Node
  | .literalArray elements => elements
  | .sequence _ statements => statements
  | .send receiver _ args => receiver :: args
  | .assign _ _ _ value => [value]
  | .answer value => [value]
  | .self | .super | .reference .. | .literal _ | .symbol _ | .block .. | .method .. => []

mutual
/-- A tree and all trees that may be evaluated on behalf of it: its parts, and the code of
blocks. A method tree is not evaluated. -/
def Node.inner : Node → List Node
  | .literalArray elements => .literalArray elements :: allInner elements
  | .sequence temps statements => .sequence temps statements :: allInner statements
  | .block params temps statements => .block params temps statements :: allInner statements
  | .send receiver selector args =>
    .send receiver selector args :: (receiver.inner ++ allInner args)
  | .assign name kind index value => .assign name kind index value :: value.inner
  | .answer value => .answer value :: value.inner
  | node => [node]

/-- The same of some trees. -/
def allInner : List Node → List Node
  | [] => []
  | node :: rest => node.inner ++ allInner rest
end

theorem mem_allInner {nodes : List Node} {n : Node} :
    n ∈ allInner nodes ↔ ∃ node ∈ nodes, n ∈ node.inner := by
  induction nodes with
  | nil => simp [allInner]
  | cons node rest ih => simp [allInner, ih]

theorem Node.self_mem_inner (node : Node) : node ∈ node.inner := by
  cases node <;> simp [inner]

/-- What is evaluated on behalf of a part is so on behalf of the whole. -/
theorem Node.inner_of_mem_parts {node part n : Node} (hpart : part ∈ node.parts)
    (h : n ∈ part.inner) : n ∈ node.inner := by
  cases node with
  | literalArray elements => exact List.mem_cons_of_mem _ (mem_allInner.mpr ⟨part, hpart, h⟩)
  | sequence temps statements =>
      exact List.mem_cons_of_mem _ (mem_allInner.mpr ⟨part, hpart, h⟩)
  | send receiver selector args =>
      refine List.mem_cons_of_mem _ (List.mem_append.mpr ?_)
      rcases List.mem_cons.mp hpart with rfl | hpart
      · exact .inl h
      · exact .inr (mem_allInner.mpr ⟨part, hpart, h⟩)
  | assign name kind index value =>
      obtain rfl := List.mem_singleton.mp hpart
      exact List.mem_cons_of_mem _ h
  | answer value =>
      obtain rfl := List.mem_singleton.mp hpart
      exact List.mem_cons_of_mem _ h
  | _ => cases hpart

theorem Node.inner_of_block {params temps : List Json} {statements : List Node} {s n : Node}
    (hs : s ∈ statements) (h : n ∈ s.inner) : n ∈ (Node.block params temps statements).inner :=
  List.mem_cons_of_mem _ (mem_allInner.mpr ⟨s, hs, h⟩)

/-- Something holds of every tree in the code of every method that is installed. -/
def Registry.Everywhere (p : Method → Node → Bool) (r : Registry) : Prop :=
  ∀ b key method, (r.table b).methods.find? key = some method →
    ∀ s ∈ method.statements, ∀ n ∈ s.inner, p method n = true

/-- A task asks for no other tasks than these. -/
def Task.MayAsk (m : Memory) : Task → Task → Prop
  | .evaluate node frame, task =>
    (∃ part ∈ node.parts, task = .evaluate part frame) ∨
      ∃ method receiver args callers, task = .activate method receiver args (frame :: callers)
  | .activate method _ _ _, task =>
    (∃ statement ∈ method.statements, task = .evaluate statement m.heap.frames.size) ∨
      ∃ closure args, task = .invoke closure args m.heap.frames.size
  | .invoke closure _ _, task =>
    ∃ statement ∈ (m.heap.closure closure).statements,
      task = .evaluate statement m.heap.frames.size

/-! ### Plans -/

namespace Plan

variable {α β : Type} {P : Task → Prop}

/-- A plan that only asks for tasks of some sort, whatever they answer. -/
def Only (P : Task → Prop) : Plan α → Prop
  | done _ => True
  | ask task _ next => P task ∧ ∀ v m, (next v m).Only P

theorem Only.of_path {p : Plan α} (h : p.Only P) {rec : Task → Eval Value}
    {c : Task × Memory} (hc : c ∈ p.path rec) : P c.1 := by
  induction p with
  | done outcome => exact absurd hc List.not_mem_nil
  | ask task m next ih =>
      obtain ⟨hfirst, hrest⟩ := h
      unfold path at hc
      rcases List.mem_cons.mp hc with rfl | hc
      · exact hfirst
      · cases hanswer : rec task m with
        | ok v m' =>
            rw [hanswer] at hc
            exact ih v m' (hrest v m') hc
        | error stop m' =>
            rw [hanswer] at hc
            exact absurd hc List.not_mem_nil

theorem Only.bind {p : Plan α} (hp : p.Only P) {k : α → Memory → Plan β}
    (hk : ∀ a m, (k a m).Only P) : (p.bind k).Only P := by
  induction p with
  | done outcome =>
      cases outcome with
      | ok a m => exact hk a m
      | error stop m => trivial
  | ask task m next ih => exact ⟨hp.1, fun v m' => ih v m' (hp.2 v m')⟩

end Plan

namespace Planned

variable {α β : Type} {P : Task → Prop}

/-- A planned evaluation that only asks for tasks of some sort, from any memory. -/
def Only (P : Task → Prop) {act : (Task → Eval Value) → Eval α} (p : Planned act) : Prop :=
  ∀ m, (p.plan m).Only P

theorem only_const (act : Eval α) : (const act).Only P := fun _ => trivial

theorem only_still {act : (Task → Eval Value) → Eval α} (h : ∀ rec rec', act rec = act rec') :
    (still h).Only P :=
  fun _ => trivial

theorem only_call {task : Task} (h : P task) : (call task).Only P :=
  fun _ => ⟨h, fun _ _ => trivial⟩

theorem Only.bind {x : (Task → Eval Value) → Eval α} {f : α → (Task → Eval Value) → Eval β}
    {px : Planned x} {pf : ∀ a, Planned (f a)} (hx : px.Only P) (hf : ∀ a, (pf a).Only P) :
    (px.bind pf).Only P :=
  fun m => (hx m).bind fun a m' => hf a m'

theorem Only.ite {x y : (Task → Eval Value) → Eval α} (c : Prop) [Decidable c] {px : Planned x}
    {py : Planned y} (hx : px.Only P) (hy : py.Only P) : (Planned.ite c px py).Only P := by
  unfold Planned.ite
  split
  · exact hx
  · exact hy

theorem only_mapM {f : α → (Task → Eval Value) → Eval β} {pf : ∀ a, Planned (f a)}
    (xs : List α) (hf : ∀ x ∈ xs, (pf x).Only P) : (mapM pf xs).Only P := by
  induction xs with
  | nil => exact only_const _
  | cons x xs ih =>
      have hrest := ih fun y hy => hf y (List.mem_cons_of_mem _ hy)
      exact (hf x List.mem_cons_self).bind fun _ => hrest.bind fun _ => only_const _

theorem only_foldlM {f : β → α → (Task → Eval Value) → Eval β} {pf : ∀ b a, Planned (f b a)}
    (b : β) (xs : List α) (hf : ∀ b, ∀ x ∈ xs, (pf b x).Only P) : (foldlM pf b xs).Only P := by
  induction xs generalizing b with
  | nil => exact only_const _
  | cons x xs ih =>
      exact (hf b x List.mem_cons_self).bind fun b' =>
        ih b' fun c y hy => hf c y (List.mem_cons_of_mem _ hy)

/-! ### The evaluator -/

theorem only_runBody {frame : FrameId} {temps : List Json} {statements : List Node}
    (h : ∀ n ∈ statements, P (.evaluate n frame)) : (runBody frame temps statements).Only P :=
  (only_const _).bind fun _ => only_foldlM _ _ fun _ n hn => only_call (h n hn)

theorem only_sendMessage {frame : FrameId} {receiver : Node} {selector : Json}
    {args : List Node} (hparts : ∀ n ∈ receiver :: args, P (.evaluate n frame))
    (hactivate : ∀ method v vs callers, P (.activate method v vs (frame :: callers))) :
    (sendMessage frame receiver selector args).Only P := by
  refine (only_call (hparts _ List.mem_cons_self)).bind fun v => ?_
  refine (only_mapM _ fun n hn => only_call (hparts n (List.mem_cons_of_mem _ hn))).bind ?_
  intro vs
  refine (only_const _).bind fun start => (only_const _).bind fun found => ?_
  cases found with
  | none => exact only_const _
  | some method =>
      refine (only_const _).bind fun _ => ?_
      -- the callers are those of the frame, so the frame comes first
      intro m
      exact ⟨hactivate _ _ _ _, fun _ _ => trivial⟩

/-- One case for each sort of tree. -/
theorem only_evaluateNode {frame : FrameId} {node : Node}
    (hparts : ∀ n ∈ node.parts, P (.evaluate n frame))
    (hactivate : ∀ method v vs callers, P (.activate method v vs (frame :: callers))) :
    (evaluateNode frame node).Only P := by
  cases node with
  | literalArray elements =>
      refine (only_mapM _ fun n hn => only_call (hparts n hn)).bind fun _ => ?_
      exact (only_const _).bind fun _ => only_const _
  | sequence temps statements => exact only_runBody hparts
  | send receiver selector args => exact only_sendMessage hparts hactivate
  | assign name kind index value =>
      refine (only_call (hparts value List.mem_cons_self)).bind fun _ => ?_
      exact (only_const _).bind fun _ => only_const _
  | answer value =>
      exact (only_call (hparts value List.mem_cons_self)).bind fun _ => only_const _
  | _ => exact only_still _

/-- The loop is an induction on the rounds it may take. -/
theorem only_alternate {condition body : Task} (hcondition : P condition) (hbody : P body)
    (goOn : Bool) (rounds : Nat) : (alternate condition body goOn rounds).Only P := by
  induction rounds with
  | zero => exact only_still _
  | succ rounds ih =>
      refine (only_call hcondition).bind fun v => ?_
      cases v with
      | bool b => exact .ite _ ((only_call hbody).bind fun _ => ih) (only_const _)
      | _ => exact only_still _

/-- One case for each action. -/
theorem only_perform {settings : Settings} {frame : FrameId} {action : Action}
    (hinvoke : ∀ closure args, P (.invoke closure args frame)) :
    (perform settings frame action).Only P := by
  cases action with
  | call c args => exact only_call (hinvoke c args)
  | loop condition body goOn => exact only_alternate (hinvoke _ _) (hinvoke _ _) _ _
  | _ => exact only_still _

theorem only_runMethod {settings : Settings} {frame : FrameId} {method : Method}
    {receiver : Value} (hstatements : ∀ n ∈ method.statements, P (.evaluate n frame))
    (hinvoke : ∀ closure args, P (.invoke closure args frame)) :
    (runMethod settings frame method receiver).Only P := by
  have hbody : (runMethodBody frame method receiver).Only P :=
    (only_runBody hstatements).bind fun _ => only_const _
  refine .ite _ ?_ hbody
  refine (only_const _).bind fun m => (only_const _).bind fun choice => ?_
  cases choice with
  | ok action => exact only_perform hinvoke
  | error reason => exact (only_const _).bind fun _ => hbody

end Planned

/-! ### Steps -/

theorem Staged.mayAsk_of_path {settings : Settings} {m : Memory} {task : Task}
    {rec : Task → Eval Value} {c : Task × Memory}
    (hc : c ∈ ((Staged.step settings task).plan m).path rec) : task.MayAsk m c.1 := by
  cases task with
  | evaluate node frame =>
      refine (Planned.only_evaluateNode (P := Task.MayAsk m (.evaluate node frame)) ?_ ?_ m).of_path
        hc
      · exact fun n hn => .inl ⟨n, hn, rfl⟩
      · exact fun method v vs callers => .inr ⟨method, v, vs, callers, rfl⟩
  | activate method receiver args callers =>
      obtain ⟨f, m₁, -, henters, hc⟩ := enter_of_mem_path hc
      obtain rfl := (declared_of_enter henters).1
      refine (Planned.only_runMethod (P := Task.MayAsk m (.activate method receiver args
        callers)) ?_ ?_ m₁).of_path hc
      · exact fun n hn => .inl ⟨n, hn, rfl⟩
      · exact fun c args => .inr ⟨c, args, rfl⟩
  | invoke closure args caller =>
      have honly : ((Planned.invoke closure args caller).plan m).Only
          (Task.MayAsk m (.invoke closure args caller)) := by
        show Plan.Only _ ((Planned.ite _ _ _).plan m)
        unfold Planned.ite
        split
        · trivial
        · -- the frame that is made has the next number
          exact (Planned.only_const (Eval.declareAll m.heap.frames.size _ args)).bind
            (fun _ => Planned.only_runBody fun n hn => ⟨n, hn, rfl⟩) _
      exact honly.of_path hc

/-- The calls that a call makes are those that its task may ask for. -/
theorem Call.mayAsk_of_mem_calls {settings : Settings} {c c' : Call}
    (hc : c' ∈ c.calls settings) : c.task.MayAsk c.memory c'.task :=
  Staged.mayAsk_of_path (Call.of_mem_calls hc).2

/-- The frames that calls are for are there. -/
theorem Call.within_of_mem_calls {settings : Settings} {c c' : Call}
    (hwithin : c.task.Within c.memory) (hc : c' ∈ c.calls settings) :
    c'.task.Within c'.memory := by
  have hentered := Call.effects_of_mem_calls hwithin hc
  have hasks := Call.mayAsk_of_mem_calls hc
  cases htask : c.task with
  | evaluate node frame =>
      rw [htask] at hwithin hentered hasks
      rcases hasks with ⟨part, -, heq⟩ | ⟨method, receiver, args, callers, heq⟩ <;> rw [heq]
      · exact Memory.Effects.lt hentered hwithin
      · trivial
  | activate method receiver args callers =>
      rw [htask] at hentered hasks
      have hlt := Memory.Effects.lt hentered (Heap.lt_newFrame ..)
      rcases hasks with ⟨statement, -, heq⟩ | ⟨closure, args, heq⟩ <;> rw [heq] <;> exact hlt
  | invoke closure args caller =>
      rw [htask] at hentered hasks
      obtain ⟨statement, -, heq⟩ := hasks
      rw [heq]
      exact Memory.Effects.lt hentered (Heap.lt_newFrame ..)

end Smalltalk
