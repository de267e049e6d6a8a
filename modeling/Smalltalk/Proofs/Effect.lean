import Smalltalk.Proofs.Edit
import Smalltalk.Proofs.InProgress

/-!
# `Smalltalk.Proofs.Effect`: what an evaluation can do

Whatever is evaluated comes down to a few effects on a memory
(`Memory.Effect`). Two of them make a frame: an activation makes one with
nothing around it, and a closure that is invoked makes one that continues the
frame of the closure (`Heap.blockFrame`). Nothing else does.

`Eval.Does act m` says that all that `act` does to `m` is effects. There is a
lemma for each function of the evaluator, and `Does.run` is the induction on the
depth. Nothing is assumed of the code or of the values: all that a task needs is
that the frame it is for exists (`Task.Within`).

`Call.effects_of_mem_calls` is the result for the calls that come up on the way.
-/

set_option autoImplicit false

namespace Smalltalk

open Relation (ReflTransGen)

/-- The frame in which the code of a closure runs, before it has any variables. -/
def Heap.blockFrame (h : Heap) (c : ClosureId) (callers : List FrameId) : Frame where
  receiver := (h.frame (h.closure c).frame).receiver
  method := (h.frame (h.closure c).frame).method
  outer := h.chain (h.closure c).frame
  callers := callers
  isBlock := true

theorem Heap.lt_newFrame (h : Heap) (x : Frame) :
    h.frames.size < (h.newFrame x).1.frames.size := by
  rw [Heap.size_newFrame]
  exact Nat.lt_succ_self _

namespace Memory

/-- One effect of an evaluation on the memory. -/
inductive Effect (m : Memory) : Memory → Prop where
  | newArray (xs : Array Value) : Effect m { m with heap := (m.heap.newArray xs).1 }
  | newObject (x : Instance) : Effect m { m with heap := (m.heap.newObject x).1 }
  | newClosure (x : Closure) (inFrame : x.frame < m.heap.frames.size) :
    Effect m { m with heap := (m.heap.newClosure x).1 }
  | newHome (x : Frame) (alone : x.outer = []) :
    Effect m { m with heap := (m.heap.newFrame x).1 }
  | newBlock (c : ClosureId) (callers : List FrameId) (called : 0 < m.heap.frames.size) :
    Effect m { m with heap := (m.heap.newFrame (m.heap.blockFrame c callers)).1 }
  | setElement (a : ArrayId) (i : Nat) (v : Value) :
    Effect m { m with heap := m.heap.setElement a i v }
  | setIndexed (o : ObjectId) (i : Nat) (v : Value) :
    Effect m { m with heap := m.heap.setIndexed o i v }
  | setSlot (o : ObjectId) (i : Nat) (v : Value) :
    Effect m { m with heap := m.heap.setSlot o i v }
  | declare (f : FrameId) (key : Key) (name : Json) (v : Value) :
    Effect m { m with heap := m.heap.declare f key name v }
  | retire (f : FrameId) : Effect m { m with heap := m.heap.retire f }
  | newText (s : String) : Effect m (m.newText s).1
  | bind (key : Key) (name : Json) (v : Value) :
    Effect m { m with globals := m.globals.put key name v }
  | note (line : String) : Effect m (m.note line)

/-- Any number of effects. -/
abbrev Effects : Memory → Memory → Prop := ReflTransGen Effect

variable {m m' : Memory}

theorem later_note (m : Memory) (line : String) : m.Later (m.note line) where
  heap := (m.heap_note line).symm ▸ .refl _
  registry := m.registry_note line
  globals key hkey := by rwa [globals_note]
  recording := m.recording_note line

/-- After an effect all is there that was there before. -/
theorem Effect.later (h : m.Effect m') : m.Later m' := by
  cases h with
  | newArray xs => exact .of_heap (.newArray _ xs)
  | newObject x => exact .of_heap (.newObject _ x)
  | newClosure x _ => exact .of_heap (.newClosure _ x)
  | newHome x _ => exact .of_heap (.newFrame _ x)
  | newBlock c callers _ => exact .of_heap (.newFrame _ _)
  | setElement a i v => exact .of_heap (.setElement _ a i v)
  | setIndexed o i v => exact .of_heap (.setIndexed _ o i v)
  | setSlot o i v => exact .of_heap (.setSlot _ o i v)
  | declare f key name v => exact .of_heap (.declare _ f key name v)
  | retire f => exact .of_heap (.retire _ f)
  | newText s => exact .of_heap (.texts _ _)
  | bind key name v => exact .bind _ key name v
  | note line => exact later_note _ line

theorem Effects.later (h : m.Effects m') : m.Later m' := by
  induction h with
  | refl => exact .refl m
  | tail _ hlast ih => exact ih.trans hlast.later

/-- A frame that was there is still there. -/
theorem Effects.lt (h : m.Effects m') {f : FrameId} (hf : f < m.heap.frames.size) :
    f < m'.heap.frames.size :=
  Nat.lt_of_lt_of_le hf h.later.heap.frames

end Memory

/-- The frame that a task is for is there. -/
def Task.Within (m : Memory) : Task → Prop
  | .evaluate _ frame => frame < m.heap.frames.size
  | .activate .. => True
  | .invoke _ _ caller => caller < m.heap.frames.size

namespace Eval

open Memory (Effects)

/-- All that an evaluation does is effects. -/
abbrev Does {α : Type} (act : Eval α) (m : Memory) : Prop := Moves Memory.Effect act m

namespace Does

variable {α β : Type} {m : Memory}

theorem fail (f : Fault) : Does (Eval.fail f : Eval α) m := .throw _

theorem ofExcept (e : Except Fault α) : Does (Eval.ofExcept e) m := by
  cases e with
  | ok a => exact .pure a
  | error f => exact fail f

theorem ask (f : Memory → α) : Does (Eval.ask f) m := .refl

/-- What follows a question starts from the same memory. -/
theorem asking {f : Memory → α} {k : α → Eval β} (h : Does (k (f m)) m) :
    Does (Eval.ask f >>= k) m :=
  h

theorem note (line : Memory → Except Fault String) : Does (Eval.note line) m := by
  unfold Eval.note
  refine .get ?_
  split
  · refine .bind (ofExcept _) ?_
    intro text m₁ htext _
    -- making the line has changed nothing
    obtain rfl : m₁ = m := by
      cases hline : line m with
      | ok s =>
          rw [hline] at htext
          cases htext
          rfl
      | error f =>
          rw [hline] at htext
          cases htext
    exact .single (.note text)
  · exact .pure _

theorem classOf (v : Value) : Does (Eval.classOf v) m := by
  unfold Eval.classOf
  refine .get ?_
  split
  · exact .pure _
  · exact fail _

/-! ### Variables -/

theorem declare (f : FrameId) (name : Json) (v : Value) : Does (Eval.declare f name v) m :=
  .bind (ofExcept _) fun key _ _ _ => .single (.declare f key name v)

theorem declareAll (f : FrameId) (names : List Json) (vs : List Value) :
    Does (Eval.declareAll f names vs) m :=
  .forM fun p _ _ _ => declare f p.1 p.2

theorem lookup (f : FrameId) (name : Json) : Does (Eval.lookup f name) m := by
  refine .bind (ofExcept _) fun key m₁ _ _ => .bind (ask _) fun found m₂ _ _ => ?_
  split
  · exact .pure _
  · exact fail _

theorem assign (f : FrameId) (name : Json) (v : Value) : Does (Eval.assign f name v) m := by
  refine .bind (ofExcept _) fun key m₁ _ _ => .bind (ask _) fun owner m₂ _ _ => ?_
  split
  · exact .single (.declare _ key name v)
  · exact fail _

theorem lookupGlobal (name : Json) : Does (Eval.lookupGlobal name) m := by
  refine .bind (ofExcept _) fun key m₁ _ _ => .bind (ask _) fun found m₂ _ _ => ?_
  split
  · exact .pure _
  · exact fail _

theorem assignGlobal (name : Json) (v : Value) : Does (Eval.assignGlobal name v) m :=
  .bind (ofExcept _) fun key _ _ _ => .single (.bind key name v)

theorem slotOf (f : FrameId) (index : Json) : Does (Eval.slotOf f index) m := by
  unfold Eval.slotOf
  refine .get ?_
  simp only
  split
  · exact .bind (ofExcept _) fun _ _ _ _ => .pure _
  · exact fail _

theorem readVariable (f : FrameId) (name : Json) (kind : VariableKind) (index : Json) :
    Does (Eval.readVariable f name kind index) m := by
  cases kind with
  | instvar => exact .bind (slotOf f index) fun _ _ _ _ => ask _
  | global => exact lookupGlobal name
  | temp => exact lookup f name
  | arg => exact lookup f name

theorem writeVariable (f : FrameId) (name : Json) (kind : VariableKind) (index : Json)
    (v : Value) : Does (Eval.writeVariable f name kind index v) m := by
  cases kind with
  | instvar => exact .bind (slotOf f index) fun p _ _ _ => .single (.setSlot p.1 p.2 v)
  | global => exact assignGlobal name v
  | temp => exact assign f name v
  | arg => exact assign f name v

/-! ### Sends and returns -/

theorem returnFrom (f : FrameId) (v : Value) : Does (Eval.returnFrom f v) m := by
  unfold Eval.returnFrom
  refine .bind (ask _) fun home m₁ _ _ => .bind (ask _) fun active m₂ _ _ => ?_
  split
  · exact .bind (note _) fun _ _ _ _ => .throw _
  · exact .bind (ask _) fun _ _ _ _ => fail _

theorem startOf (f : FrameId) (toSuper : Bool) (v : Value) :
    Does (Eval.startOf f toSuper v) m := by
  unfold Eval.startOf
  split
  · refine .bind (ask _) fun method m₁ _ _ => ?_
    split
    · exact ask _
    · exact fail _
  · exact .bind (classOf v) fun _ _ _ _ => .pure _

theorem methodFrom (selector : Json) (start : Option Behavior) :
    Does (Eval.methodFrom selector start) m := by
  cases start with
  | none => exact .pure none
  | some b => exact .bind (ofExcept _) fun _ _ _ _ => ask _

theorem notUnderstood (v : Value) (selector : Json) :
    Does (Eval.notUnderstood v selector : Eval α) m :=
  .bind (classOf v) fun _ _ _ _ => .bind (ask _) fun _ _ _ _ => fail _

theorem printed (v : Value) : Does (Eval.printed v) m := by
  refine .bind (ask _) fun s m₁ _ _ => ?_
  split
  · exact .pure _
  · exact .throw _

/-- The frame of an activation has nothing around it. -/
theorem enter (method : Method) (receiver : Value) (args : List Value) (callers : List FrameId) :
    Does (Eval.enter method receiver args callers) m := by
  refine .bind (.single (.newHome { receiver, method := some method, callers } rfl)) ?_
  intro f m₁ _ _
  exact .bind (declareAll f _ _) fun _ _ _ _ => .pure f

/-- Closing a frame only retires it. -/
theorem closing {f : FrameId} {act : Eval Value} (hact : Does act m) :
    Does (Eval.closing f act) m := by
  unfold Does Moves at *
  unfold Eval.closing
  cases hr : act m with
  | ok v m₁ =>
      rw [hr] at hact
      exact hact.tail (.retire f)
  | error stop m₁ =>
      rw [hr] at hact
      cases stop with
      | unwind v home =>
          show m.Effects (left (if home = f then _ else _))
          split <;> exact hact.tail (.retire f)
      | _ => exact hact.tail (.retire f)

/-! ### Tasks -/

/-- A way to do tasks that only has effects. -/
def Tasks (rec : Task → Eval Value) : Prop := ∀ task m, task.Within m → Does (rec task) m

variable {rec : Task → Eval Value} (hrec : Tasks rec)
include hrec

theorem runBody {f : FrameId} (hf : f < m.heap.frames.size) (temps : List Json)
    (statements : List Node) : Does (Eval.runBody rec f temps statements) m := by
  refine .bind (.forM fun name _ _ _ => declare f name .nil) ?_
  intro _ m₁ _ l₁
  refine .foldlM fun n _ _ m₂ l₂ => hrec _ m₂ ?_
  exact Effects.lt (l₁.trans l₂) hf

/-- Trees one by one in a frame. -/
theorem evaluateAll {f : FrameId} (hf : f < m.heap.frames.size) (nodes : List Node) :
    Does (nodes.mapM fun n => rec (.evaluate n f)) m :=
  .mapM fun _ _ m₁ l₁ => hrec _ m₁ (Effects.lt l₁ hf)

theorem sendMessage {f : FrameId} (hf : f < m.heap.frames.size) (receiver : Node)
    (selector : Json) (args : List Node) :
    Does (Eval.sendMessage rec f receiver selector args) m := by
  refine .bind (hrec _ m hf) ?_
  intro v m₁ _ l₁
  refine .bind (evaluateAll hrec (Effects.lt l₁ hf) args) ?_
  intro vs m₂ _ _
  refine .bind (startOf f _ v) fun start m₃ _ _ => .bind (methodFrom _ start) ?_
  intro found m₄ _ _
  split
  · exact notUnderstood _ _
  · exact .bind (note _) fun _ _ _ _ => .bind (ask _) fun _ m₅ _ _ => hrec _ m₅ trivial

/-- One case for each sort of tree. -/
theorem evaluateNode {f : FrameId} (hf : f < m.heap.frames.size) (node : Node) :
    Does (Eval.evaluateNode rec f node) m := by
  cases node with
  | self => exact ask _
  | super => exact ask _
  | reference name kind index => exact readVariable f name kind index
  | literal value => exact .pure _
  | symbol name => exact .pure _
  | literalArray elements =>
      refine .bind (evaluateAll hrec hf elements) fun vs m₁ _ _ => ?_
      exact .bind (.single (.newArray vs.toArray)) fun _ _ _ _ => .pure _
  | sequence temps statements => exact runBody hrec hf temps statements
  | block params temps statements =>
      exact .bind (.single (.newClosure _ hf)) fun _ _ _ _ => .pure _
  | send receiver selector args => exact sendMessage hrec hf receiver selector args
  | assign name kind index value =>
      refine .bind (hrec _ m hf) fun v m₁ _ _ => ?_
      exact .bind (writeVariable f name kind index v) fun _ _ _ _ => .pure _
  | answer value => exact .bind (hrec _ m hf) fun v m₁ _ _ => returnFrom f v
  | method selector params temps statements primitive => exact fail _

/-- The loop is an induction on the rounds it may take. -/
theorem alternate {f : FrameId} (hf : f < m.heap.frames.size) (condition body : ClosureId)
    (goOn : Bool) (rounds : Nat) :
    Does (Eval.alternate (rec (.invoke condition [] f)) (rec (.invoke body [] f)) goOn rounds)
      m := by
  induction rounds generalizing m with
  | zero => exact .throw _
  | succ rounds ih =>
      refine .bind (hrec _ m hf) ?_
      intro v m₁ _ l₁
      have hf₁ := Effects.lt l₁ hf
      cases v with
      | bool b =>
          show Does (if b = goOn then _ else _) m₁
          split
          · exact .bind (hrec _ m₁ hf₁) fun _ m₂ _ l₂ => ih (Effects.lt l₂ hf₁)
          · exact .pure _
      | _ => exact .bind (ask _) fun _ _ _ _ => fail _

/-- One case for each action. -/
theorem perform (settings : Settings) {f : FrameId} (hf : f < m.heap.frames.size)
    (action : Action) : Does (Eval.perform settings rec f action) m := by
  cases action with
  | answer v => exact .pure v
  | tally n =>
      show Does (if n ≤ settings.room then _ else _) m
      split
      · exact .pure _
      · exact .throw _
  | newText s => exact .single (.newText s)
  | newArray xs => exact .bind (.single (.newArray xs)) fun _ _ _ _ => .pure _
  | newObject cls size => exact .get (.bind (.single (.newObject _)) fun _ _ _ _ => .pure _)
  | setElement a i v => exact .bind (.single (.setElement a i v)) fun _ _ _ _ => .pure _
  | setIndexed o i v => exact .bind (.single (.setIndexed o i v)) fun _ _ _ _ => .pure _
  | setSlot o i v => exact .bind (.single (.setSlot o i v)) fun _ _ _ _ => .pure _
  | call c args => exact hrec _ m hf
  | loop condition body goOn => exact alternate hrec hf condition body goOn _
  | print v =>
      refine .bind (printed v) fun s m₁ _ _ => .bind (ask _) fun origin m₂ _ _ => ?_
      split
      · exact .single (.newText s)
      · exact .pure _
  | signal v =>
      simp only [Eval.perform]
      split
      · exact fail _
      · exact .bind (printed v) fun _ _ _ _ => fail _
  | refuse reason => exact fail reason

theorem runMethodBody {f : FrameId} (hf : f < m.heap.frames.size) (method : Method)
    (receiver : Value) : Does (Eval.runMethodBody rec f method receiver) m :=
  .bind (runBody hrec hf _ _) fun _ _ _ _ => .pure _

theorem runMethod (settings : Settings) {f : FrameId} (hf : f < m.heap.frames.size)
    (method : Method) (receiver : Value) :
    Does (Eval.runMethod settings rec f method receiver) m := by
  unfold Eval.runMethod
  split
  · refine .get (.bind (ofExcept _) fun choice m₁ _ l₁ => ?_)
    have hf₁ := Effects.lt l₁ hf
    split
    · exact perform hrec settings hf₁ _
    · refine .bind (note _) fun _ m₂ _ l₂ => ?_
      exact runMethodBody hrec (Effects.lt l₂ hf₁) method receiver
  · exact runMethodBody hrec hf method receiver

end Does

/-- What an activation does before anything else: it makes its frame, and only
declares its parameters then. -/
theorem effects_of_enter {method : Method} {receiver : Value} {args : List Value}
    {callers : List FrameId} {f : FrameId} {m m' : Memory}
    (h : Eval.enter method receiver args callers m = .ok f m') :
    f = m.heap.frames.size ∧ Memory.Effects
      { m with heap := (m.heap.newFrame { receiver, method := some method, callers }).1 } m' := by
  obtain ⟨hframe, hdeclare⟩ := Staged.declared_of_enter h
  exact ⟨hframe, (Does.declareAll m.heap.frames.size method.params args).of_ok hdeclare⟩

namespace Does

variable {m : Memory} {rec : Task → Eval Value}

theorem activate (hrec : Tasks rec) (settings : Settings) (method : Method) (receiver : Value)
    (args : List Value) (callers : List FrameId) :
    Does (Eval.activate settings rec method receiver args callers) m := by
  unfold Eval.activate
  split
  · exact .get (.bind (ofExcept _) fun _ _ _ _ => fail _)
  · refine .bind (enter method receiver args callers) ?_
    intro f m₁ henter _
    refine closing (runMethod hrec settings ?_ method receiver)
    obtain ⟨rfl, hdone⟩ := effects_of_enter henter
    exact Effects.lt hdone (Heap.lt_newFrame ..)

/-- An invocation needs a frame that it is called from, and some frame is so there. -/
theorem invoke (hrec : Tasks rec) (c : ClosureId) (args : List Value) {caller : FrameId}
    (hcaller : caller < m.heap.frames.size) : Does (Eval.invoke rec c args caller) m := by
  have hcalled : 0 < m.heap.frames.size := Nat.lt_of_le_of_lt (Nat.zero_le _) hcaller
  unfold Eval.invoke
  refine asking ?_
  split
  · exact fail _
  · refine asking (asking ?_)
    refine .bind (.single (.newBlock c (caller :: (m.heap.frame caller).callers) hcalled)) ?_
    intro f m₁ hmake _
    cases hmake
    refine .bind (declareAll _ _ _) fun _ m₂ _ l₂ => runBody hrec (Effects.lt l₂ ?_) _ _
    exact Heap.lt_newFrame ..

/-- One case for each task. -/
theorem step (hrec : Tasks rec) (settings : Settings) : Tasks (Eval.step settings rec) := by
  intro task m hwithin
  cases task with
  | evaluate node frame => exact evaluateNode hrec hwithin node
  | activate method receiver args callers =>
      exact activate hrec settings method receiver args callers
  | invoke closure args caller => exact invoke hrec closure args hwithin

/-- Whatever depth tasks may nest to, they only have effects. -/
theorem run (settings : Settings) (depth : Nat) : Tasks (Eval.run settings depth) := by
  induction depth with
  | zero => exact fun _ _ _ => .throw _
  | succ depth ih => exact step ih settings

/-! ### Requests -/

theorem naming {activity : Memory → Except Fault String} {act : Eval Value} (hact : Does act m) :
    Does (Eval.naming activity act) m := by
  unfold Does Moves at *
  rcases naming_cases activity act m with ⟨-, hsame⟩ | ⟨m₁, f, hdeep, hnamed, -⟩
  · rw [hsame]
    exact hact
  · rw [hdeep] at hact
    rw [hnamed]
    exact hact

theorem execute (settings : Settings) (method : Method) (receiver : Value) (args : List Value) :
    Does (Eval.execute settings method receiver args) m :=
  naming (run settings _ _ m trivial)

/-- One case for each query. -/
theorem query (settings : Settings) (q : Query) : Does (q.perform settings) m := by
  cases q with
  | send receiver selector args =>
      refine .bind (classOf receiver) fun b m₁ _ _ => .bind (methodFrom _ _) ?_
      intro found m₂ _ _
      split
      · exact notUnderstood _ _
      · exact execute settings _ receiver args
  | execute method receiver args => exact execute settings method receiver args
  | executeNode node receiver args =>
      cases node with
      | method selector params temps statements primitive =>
          exact .bind (classOf receiver) fun _ _ _ _ => execute settings _ receiver args
      | _ => exact fail _
  | doit code receiver =>
      refine .bind (classOf receiver) fun owner m₁ _ _ => ?_
      refine .bind (.single (.newHome { receiver, method := some (workspaceMethod owner) } rfl)) ?_
      intro f m₂ hmake _
      cases hmake
      refine naming (closing (run settings _ _ _ ?_))
      exact Heap.lt_newFrame ..

theorem evaluateIn (settings : Settings) (code : Node) (receiver : Value)
    (slots : List (Json × Value)) (active : Bool) :
    Does (Eval.evaluateIn settings code receiver slots active) m := by
  refine .bind (.single (.newHome { receiver, method := none, active } rfl)) ?_
  intro f m₁ hmake _
  cases hmake
  refine .bind (.forM fun slot _ _ _ => declare _ slot.1 slot.2) fun _ m₂ _ l₂ => ?_
  refine run settings _ _ m₂ (Effects.lt l₂ ?_)
  exact Heap.lt_newFrame ..

theorem tryPrimitive (settings : Settings) (number : Json) (receiver : Value)
    (args : List Value) : Does (Eval.tryPrimitive settings number receiver args) m := by
  refine .get (.bind (ofExcept _) fun choice m₁ _ _ => ?_)
  split
  · refine .bind (.single (.newHome { receiver, method := none } rfl)) ?_
    intro f m₂ hmake _
    cases hmake
    refine .bind (perform (run settings _) settings ?_ _) fun _ _ _ _ => .pure _
    exact Heap.lt_newFrame ..
  · exact .pure _

end Does

end Eval

/-! ### Calls on the way -/

open Eval

/-- A call on the path of a plan starts from a memory that the effects so far have led
to: answered with a stop there, it would leave that very memory. -/
theorem Planned.effects_of_path {α : Type} {m : Memory} {act : (Task → Eval Value) → Eval α}
    (p : Planned act) (hact : ∀ rec, Does.Tasks rec → Does (act rec) m)
    {rec : Task → Eval Value} (hrec : Does.Tasks rec) {c : Task × Memory}
    (hc : c ∈ (p.plan m).path rec) : m.Effects c.2 := by
  have hrec' : Does.Tasks (answering rec c (.error .unfinished c.2)) := by
    intro task m' hwithin
    unfold Does Moves
    by_cases hself : (task, m') = c
    · subst hself
      rw [answering_self rec (task, m')]
      exact .refl
    · rw [answering_of_ne rec _ hself]
      exact hrec task m' hwithin
  refine (hact _ hrec').of_error (e := .unfinished) ?_
  rw [p.follows, Plan.follow_answering _ hc]

/-- The memory in which the code of a task begins to run: that of an activation or an
invocation has the frame already. -/
def Task.entered (m : Memory) : Task → Memory
  | .evaluate _ _ => m
  | .activate method receiver _ callers =>
    { m with heap := (m.heap.newFrame { receiver, method := some method, callers }).1 }
  | .invoke closure _ caller =>
    { m with heap := (m.heap.newFrame
        (m.heap.blockFrame closure (caller :: (m.heap.frame caller).callers))).1 }

theorem Task.effects_entered {m : Memory} {task : Task} (hwithin : task.Within m) :
    m.Effects (task.entered m) := by
  cases task with
  | evaluate node frame => exact .refl
  | activate method receiver args callers => exact .single (.newHome _ rfl)
  | invoke closure args caller =>
      exact .single (.newBlock closure _ (Nat.lt_of_le_of_lt (Nat.zero_le _) hwithin))

theorem Staged.effects_of_path {settings : Settings} {m : Memory} {task : Task}
    (hwithin : task.Within m) {rec : Task → Eval Value} (hrec : Does.Tasks rec)
    {c : Task × Memory} (hc : c ∈ ((Staged.step settings task).plan m).path rec) :
    (task.entered m).Effects c.2 := by
  cases task with
  | evaluate node frame =>
      exact (Planned.evaluateNode frame node).effects_of_path
        (fun _ hrec' => Does.evaluateNode hrec' hwithin node) hrec hc
  | invoke closure args caller =>
      change c ∈ ((Planned.ite _ _ _).plan m).path rec at hc
      unfold Planned.ite at hc
      split at hc
      · exact absurd hc List.not_mem_nil
      · -- once the frame is made, the body is a planned evaluation of its own
        let f := m.heap.frames.size
        let x := m.heap.closure closure
        let body := (Planned.const (Eval.declareAll f x.params args)).bind fun _ =>
          Planned.runBody f x.temps x.statements
        refine body.effects_of_path (fun rec' hrec' => ?_) hrec hc
        refine .bind (Does.declareAll ..) fun _ m₂ _ l₂ => ?_
        exact Does.runBody hrec' (Memory.Effects.lt l₂ (Heap.lt_newFrame ..)) _ _
  | activate method receiver args callers =>
      -- what the method does comes after what entering it has done
      obtain ⟨f, m₁, -, henters, hc⟩ := enter_of_mem_path hc
      obtain ⟨rfl, hentered⟩ := effects_of_enter henters
      have hframe := Memory.Effects.lt hentered (Heap.lt_newFrame ..)
      exact hentered.trans ((Planned.runMethod settings _ method receiver).effects_of_path
        (fun _ hrec' => Does.runMethod hrec' settings hframe method receiver) hrec hc)

/-- The calls that a call makes start from memories that effects have led to. -/
theorem Call.effects_of_mem_calls {settings : Settings} {c c' : Call}
    (hwithin : c.task.Within c.memory) (hc : c' ∈ c.calls settings) :
    (c.task.entered c.memory).Effects c'.memory :=
  Staged.effects_of_path hwithin (Does.run settings _) (Call.of_mem_calls hc).2

end Smalltalk
