import Smalltalk.Proofs.Call
import Smalltalk.Proofs.Likeness

/-!
# `Smalltalk.Proofs.Unnoticed`: nothing that runs tells alike memories apart

`L.Unnoticed act` says that an evaluation that starts from alike memories ends alike: with
the same value or the same stop, in alike memories again. The rules follow the monad, and
`Unnoticed.step` puts the evaluator together: nothing is noticed by it if nothing is by the
way in which the inner tasks are done. `Unnoticed.run` adds the induction on the depth, and
`Unnoticed.query` has a case for each query.

A frame is closed by the activation that has made it, so all frames that are closed on the
way are new.
-/

set_option autoImplicit false

namespace Smalltalk.Likeness

variable {α β : Type} {L : Likeness}

/-- Two outcomes with one value or one stop, in alike memories. -/
inductive Outcomes (L : Likeness) : Outcome α → Outcome α → Prop
  | ok (a : α) {m m' : Memory} (h : L.Memories m m') : Outcomes L (.ok a m) (.ok a m')
  | error (stop : Stop) {m m' : Memory} (h : L.Memories m m') :
    Outcomes L (.error stop m) (.error stop m')

theorem Outcomes.of_ok {a : α} {m : Memory} {r : Outcome α} (h : L.Outcomes (.ok a m) r) :
    ∃ m', r = .ok a m' ∧ L.Memories m m' := by
  cases h with
  | ok _ h => exact ⟨_, rfl, h⟩

theorem Outcomes.of_error {stop : Stop} {m : Memory} {r : Outcome α}
    (h : L.Outcomes (.error stop m) r) : ∃ m', r = .error stop m' ∧ L.Memories m m' := by
  cases h with
  | error _ h => exact ⟨_, rfl, h⟩

/-- From alike memories, two evaluations end alike. -/
def Alike (L : Likeness) (act act' : Eval α) : Prop :=
  ∀ m m', L.Memories m m' → L.Outcomes (act m) (act' m')

/-- An evaluation that does not tell alike memories apart. -/
abbrev Unnoticed (L : Likeness) (act : Eval α) : Prop := L.Alike act act

/-- A way to do tasks that does not tell alike memories apart. -/
def AllUnnoticed (L : Likeness) (rec : Task → Eval Value) : Prop := ∀ task, L.Unnoticed (rec task)

/-- A frame is closed after both. -/
theorem Outcomes.close {frame : FrameId} (hframe : L.base ≤ frame) {r r' : Outcome Value}
    (h : L.Outcomes r r') : L.Outcomes (Eval.close frame r) (Eval.close frame r') := by
  cases h with
  | ok v h => exact .ok v (h.retire hframe)
  | error s h =>
      cases s with
      | unwind v home =>
          show L.Outcomes (if home = frame then _ else _) (if home = frame then _ else _)
          split
          · exact .ok v (h.retire hframe)
          · exact .error _ (h.retire hframe)
      | fault f => exact .error _ (h.retire hframe)
      | tooDeep => exact .error _ (h.retire hframe)
      | unfinished => exact .error _ (h.retire hframe)

namespace Unnoticed

/-! ### The rules of the monad -/

theorem pure (a : α) : L.Unnoticed (Pure.pure a) := fun _ _ h => .ok a h

theorem stop (s : Stop) : L.Unnoticed (throw s : Eval α) := fun _ _ h => .error s h

theorem fail (f : Fault) : L.Unnoticed (Eval.fail f : Eval α) := stop (.fault f)

theorem ofExcept (e : Except Fault α) : L.Unnoticed (Eval.ofExcept e) := by
  cases e with
  | ok a => exact pure a
  | error f => exact fail f

theorem bind {x x' : Eval α} {f f' : α → Eval β} (hx : L.Alike x x')
    (hf : ∀ a, L.Alike (f a) (f' a)) : L.Alike (x >>= f) (x' >>= f') := by
  intro m m' h
  show L.Outcomes (EStateM.bind x f m) (EStateM.bind x' f' m')
  unfold EStateM.bind
  have hsame := hx m m' h
  generalize x m = r, x' m' = r' at hsame
  cases hsame with
  | ok a h₁ => exact hf a _ _ h₁
  | error s h₁ => exact .error s h₁

theorem get {k k' : Memory → Eval α} (hk : ∀ m m', L.Memories m m' → L.Alike (k m) (k' m')) :
    L.Alike (MonadState.get >>= k) (MonadState.get >>= k') :=
  fun m m' h => hk m m' h m m' h

/-- Reading what alike memories have in common. -/
theorem ask {read : Memory → α} (hread : ∀ m m', L.Memories m m' → read m = read m') :
    L.Unnoticed (Eval.ask read) :=
  get fun m m' h => hread m m' h ▸ pure _

theorem modify {change : Memory → Memory}
    (hchange : ∀ m m', L.Memories m m' → L.Memories (change m) (change m')) :
    L.Unnoticed (modifyGet fun m => ((), change m) : Eval Unit) :=
  fun m m' h => .ok () (hchange m m' h)

/-- Changing anything but the frames. -/
theorem changeHeap {change : Heap → Heap} (hframes : ∀ h, (change h).frames = h.frames)
    (hrest : ∀ h, { change h with frames := #[] } = change { h with frames := #[] }) :
    L.Unnoticed (Eval.changeHeap change) := by
  refine modify fun m m' h => h.change (hframes _) (hframes _) ?_
  show { m.frameless with heap := { change m.heap with frames := #[] } }
    = { m'.frameless with heap := { change m'.heap with frames := #[] } }
  rw [hrest, hrest, h.rest]
  exact congrArg (fun n => { m'.frameless with heap := change n.heap }) h.rest

/-- Making anything but a frame. -/
theorem make {f : Heap → Heap × α} (hframes : ∀ h, (f h).1.frames = h.frames)
    (hrest : ∀ h, f { h with frames := #[] } = ({ (f h).1 with frames := #[] }, (f h).2)) :
    L.Unnoticed (Eval.make f) := by
  intro m m' h
  have hmade : f m.frameless.heap = f m'.frameless.heap := congrArg (fun n => f n.heap) h.rest
  obtain ⟨hheap, hvalue⟩ :=
    Prod.mk.inj ((hrest m.heap).symm.trans (hmade.trans (hrest m'.heap)))
  show L.Outcomes (.ok (f m.heap).2 { m with heap := (f m.heap).1 })
    (.ok (f m'.heap).2 { m' with heap := (f m'.heap).1 })
  rw [hvalue]
  refine .ok _ (h.change (hframes _) (hframes _) ?_)
  show { m.frameless with heap := { (f m.heap).1 with frames := #[] } }
    = { m'.frameless with heap := { (f m'.heap).1 with frames := #[] } }
  rw [hheap, h.rest]

theorem makeText (s : String) : L.Unnoticed (Eval.makeText s) := by
  intro m m' h
  have hvalue : (m.newText s).2 = (m'.newText s).2 :=
    h.read (fun m => (m.newText s).2) fun _ => rfl
  show L.Outcomes (.ok (m.newText s).2 (m.newText s).1) (.ok (m'.newText s).2 (m'.newText s).1)
  rw [hvalue]
  refine .ok _ (h.change rfl rfl ?_)
  exact congrArg (fun n => (n.newText s).1) h.rest

/-- The lines of the journal may differ, but it is a fault if one cannot be made. -/
theorem note {line : Memory → Except Fault String}
    (hline : ∀ m m', L.Memories m m' → line m = line m') : L.Unnoticed (Eval.note line) := by
  refine get fun m m' h => ?_
  rw [h.recording, hline m m' h]
  split
  · exact bind (ofExcept _) fun text m₁ m₁' _ => .ok () (h.note text text)
  · exact pure ()

theorem mapM {xs : List α} {f : α → Eval β} (hf : ∀ a, L.Unnoticed (f a)) :
    L.Unnoticed (xs.mapM f) := by
  induction xs with
  | nil =>
      rw [List.mapM_nil]
      exact pure []
  | cons x xs ih =>
      rw [List.mapM_cons]
      exact bind (hf x) fun b => bind ih fun bs => pure (b :: bs)

theorem forM {xs : List α} {f : α → Eval Unit} (hf : ∀ a, L.Unnoticed (f a)) :
    L.Unnoticed (xs.forM f) := by
  induction xs with
  | nil => exact pure ()
  | cons x xs ih => exact bind (hf x) fun _ => ih

theorem foldlM {xs : List α} {f : β → α → Eval β} (hf : ∀ b a, L.Unnoticed (f b a)) (b : β) :
    L.Unnoticed (xs.foldlM f b) := by
  induction xs generalizing b with
  | nil => exact pure b
  | cons x xs ih =>
      rw [List.foldlM_cons]
      exact bind (hf b x) fun b' => ih b'

/-! ### Frames -/

/-- A new frame has a number from which frames may be closed. -/
theorem makeFrame {x x' : Frame} (hx : ∀ f, L.base ≤ f → L.Frames f x x')
    {k k' : FrameId → Eval α} (hk : ∀ f, L.base ≤ f → L.Alike (k f) (k' f)) :
    L.Alike (Eval.make (fun h => h.newFrame x) >>= k)
      (Eval.make (fun h => h.newFrame x') >>= k') := by
  intro m m' h
  show L.Outcomes (k m.heap.frames.size { m with heap := (m.heap.newFrame x).1 })
    (k' m'.heap.frames.size { m' with heap := (m'.heap.newFrame x').1 })
  rw [← h.size]
  exact hk _ h.room _ _ (h.newFrame (hx _ h.room))

theorem declare (frame : FrameId) (name : Json) (v : Value) :
    L.Unnoticed (Eval.declare frame name v) :=
  bind (ofExcept _) fun key => modify fun _ _ h => h.declare frame key name v

theorem declareAll (frame : FrameId) (names : List Json) (vs : List Value) :
    L.Unnoticed (Eval.declareAll frame names vs) :=
  forM fun p => declare frame p.1 p.2

/-- A frame is closed alike, however the evaluation in it has ended. -/
theorem closing {frame : FrameId} (hframe : L.base ≤ frame) {act act' : Eval Value}
    (hact : L.Alike act act') : L.Alike (Eval.closing frame act) (Eval.closing frame act') := by
  intro m m' h
  rw [Eval.closing_eq_close, Eval.closing_eq_close]
  exact (hact m m' h).close hframe

/-! ### Elementary actions -/

theorem classOf (v : Value) : L.Unnoticed (Eval.classOf v) := by
  refine get fun m m' h => ?_
  rw [h.classOf?, h.inspect]
  split
  · exact pure _
  · exact fail _

theorem lookup (frame : FrameId) (name : Json) : L.Unnoticed (Eval.lookup frame name) := by
  refine bind (ofExcept _) fun key => bind (ask fun _ _ h => h.lookup? frame key) fun found => ?_
  cases found with
  | some v => exact pure v
  | none => exact fail _

theorem assign (frame : FrameId) (name : Json) (v : Value) :
    L.Unnoticed (Eval.assign frame name v) := by
  refine bind (ofExcept _) fun key => bind (ask fun _ _ h => h.owner? frame key) fun owner => ?_
  cases owner with
  | some owner => exact modify fun _ _ h => h.declare owner key name v
  | none => exact fail _

theorem lookupGlobal (name : Json) : L.Unnoticed (Eval.lookupGlobal name) := by
  refine bind (ofExcept _) fun key => bind (ask fun _ _ h => ?_) fun found => ?_
  · exact h.read (fun m => m.globals.find? key) fun _ => rfl
  · cases found with
    | some v => exact pure v
    | none => exact fail _

theorem assignGlobal (name : Json) (v : Value) : L.Unnoticed (Eval.assignGlobal name v) := by
  refine bind (ofExcept _) fun key => modify fun m m' h => h.change rfl rfl ?_
  exact congrArg (fun n => { n with globals := n.globals.put key name v }) h.rest

theorem slotOf (frame : FrameId) (index : Json) : L.Unnoticed (Eval.slotOf frame index) := by
  refine get fun m m' h => ?_
  simp only [(h.like frame).receiver, h.inspect, h.object]
  split
  · exact bind (ofExcept _) fun _ => pure _
  · exact fail _

theorem readVariable (frame : FrameId) (name : Json) (kind : VariableKind) (index : Json) :
    L.Unnoticed (Eval.readVariable frame name kind index) := by
  cases kind with
  | instvar =>
      refine bind (slotOf frame index) fun p => ask fun m m' h => ?_
      rw [h.object]
  | global => exact lookupGlobal name
  | temp => exact lookup frame name
  | arg => exact lookup frame name

theorem writeVariable (frame : FrameId) (name : Json) (kind : VariableKind) (index : Json)
    (v : Value) : L.Unnoticed (Eval.writeVariable frame name kind index v) := by
  cases kind with
  | instvar => exact bind (slotOf frame index) fun p => changeHeap (fun _ => rfl) fun _ => rfl
  | global => exact assignGlobal name v
  | temp => exact assign frame name v
  | arg => exact assign frame name v

/-- A return looks at the home and at nothing that its method says but the selector. -/
theorem returnFrom (frame : FrameId) (v : Value) : L.Unnoticed (Eval.returnFrom frame v) := by
  refine bind (ask fun _ _ h => h.home frame) fun home => ?_
  refine bind (ask fun _ _ h => (h.like home).active) fun active => ?_
  cases active with
  | true =>
      refine bind (note fun m m' h => ?_) fun _ => stop _
      rw [h.frameWord, h.inspect]
  | false => exact bind (ask fun _ _ h => congrFun h.inspect v) fun _ => fail _

/-- A send to super looks at the owner of the method. -/
theorem startOf (frame : FrameId) (toSuper : Bool) (receiver : Value) :
    L.Unnoticed (Eval.startOf frame toSuper receiver) := by
  cases toSuper with
  | false => exact bind (classOf receiver) fun _ => pure _
  | true =>
      refine get fun m m' h => ?_
      have howner := (h.like frame).owner
      simp only
      cases hmethod : (m.heap.frame frame).method with
      | none =>
          rw [hmethod] at howner
          rw [Option.map_eq_none_iff.mp howner.symm]
          exact fail _
      | some method =>
          rw [hmethod] at howner
          obtain ⟨method', hmethod', hsame⟩ := Option.map_eq_some_iff.mp howner.symm
          rw [hmethod']
          simp only [hsame]
          exact ask fun _ _ h => by rw [h.registry]

theorem methodFrom (selector : Json) (start : Option Behavior) :
    L.Unnoticed (Eval.methodFrom selector start) := by
  cases start with
  | none => exact pure none
  | some b => exact bind (ofExcept _) fun key => ask fun _ _ h => by rw [h.registry]

theorem notUnderstood (receiver : Value) (selector : Json) :
    L.Unnoticed (Eval.notUnderstood receiver selector : Eval α) :=
  bind (classOf receiver) fun _ => bind (ask fun _ _ h => by rw [h.registry]) fun _ => fail _

theorem callersFrom (frame : FrameId) : L.Unnoticed (Eval.callersFrom frame) :=
  ask fun _ _ h => by rw [(h.like frame).callers]

theorem printed (v : Value) : L.Unnoticed (Eval.printed v) := by
  refine bind (ask fun _ _ h => congrFun h.print? v) fun found => ?_
  cases found with
  | some s => exact pure s
  | none => exact stop _

/-! ### The evaluator -/

variable {rec : Task → Eval Value}

theorem runBody (hrec : L.AllUnnoticed rec) (frame : FrameId) (temps : List Json)
    (statements : List Node) : L.Unnoticed (Eval.runBody rec frame temps statements) :=
  bind (forM fun name => declare frame name .nil) fun _ =>
    foldlM (fun _ statement => hrec (.evaluate statement frame)) .nil

theorem sendMessage (hrec : L.AllUnnoticed rec) (frame : FrameId) (receiver : Node)
    (selector : Json) (args : List Node) :
    L.Unnoticed (Eval.sendMessage rec frame receiver selector args) := by
  refine bind (hrec _) fun v => bind (mapM fun arg => hrec _) fun vs => ?_
  refine bind (startOf frame _ v) fun start => bind (methodFrom selector start) fun found => ?_
  cases found with
  | none => exact notUnderstood v selector
  | some method =>
      refine bind (note fun m m' h => ?_) fun _ => bind (callersFrom frame) fun callers => hrec _
      rw [h.inspect, Memory.methodWord_congr h.registry]

theorem evaluateNode (hrec : L.AllUnnoticed rec) (frame : FrameId) (node : Node) :
    L.Unnoticed (Eval.evaluateNode rec frame node) := by
  cases node with
  | self => exact ask fun _ _ h => (h.like frame).receiver
  | super => exact ask fun _ _ h => (h.like frame).receiver
  | reference name kind index => exact readVariable frame name kind index
  | literal value => exact pure _
  | symbol name => exact pure _
  | literalArray elements =>
      exact bind (mapM fun e => hrec _) fun values =>
        bind (make (fun _ => rfl) fun _ => rfl) fun a => pure _
  | sequence temps statements => exact runBody hrec frame temps statements
  | block params temps statements =>
      exact bind (make (fun _ => rfl) fun _ => rfl) fun c => pure _
  | send receiver selector args => exact sendMessage hrec frame receiver selector args
  | assign name kind index value =>
      exact bind (hrec _) fun v => bind (writeVariable frame name kind index v) fun _ => pure v
  | answer value => exact bind (hrec _) fun v => returnFrom frame v
  | method selector params temps statements primitive => exact fail _

theorem alternate {condition body : Eval Value} (hcondition : L.Unnoticed condition)
    (hbody : L.Unnoticed body) (goOn : Bool) (rounds : Nat) :
    L.Unnoticed (Eval.alternate condition body goOn rounds) := by
  induction rounds with
  | zero => exact stop _
  | succ rounds ih =>
      refine bind hcondition fun v => ?_
      cases v with
      | bool b =>
          show L.Unnoticed (if b = goOn then _ else _)
          split
          · exact bind hbody fun _ => ih
          · exact pure _
      | _ => exact bind (ask fun _ _ h => congrFun h.inspect _) fun shown => fail _

theorem perform (settings : Settings) (hrec : L.AllUnnoticed rec) (frame : FrameId)
    (action : Action) : L.Unnoticed (Eval.perform settings rec frame action) := by
  cases action with
  | answer v => exact pure v
  | tally n =>
      show L.Unnoticed (if n ≤ settings.room then _ else _)
      split
      · exact pure _
      · exact stop _
  | newText s => exact makeText s
  | newArray elements => exact bind (make (fun _ => rfl) fun _ => rfl) fun a => pure _
  | newObject cls size =>
      refine get fun m m' h => ?_
      rw [h.registry]
      exact bind (make (fun _ => rfl) fun _ => rfl) fun o => pure _
  | setElement a i v => exact bind (changeHeap (fun _ => rfl) fun _ => rfl) fun _ => pure v
  | setIndexed o i v => exact bind (changeHeap (fun _ => rfl) fun _ => rfl) fun _ => pure v
  | setSlot o i v => exact bind (changeHeap (fun _ => rfl) fun _ => rfl) fun _ => pure v
  | call c args => exact hrec _
  | loop condition body goOn => exact alternate (hrec _) (hrec _) goOn _
  | print v =>
      refine bind (printed v) fun s => bind (ask fun _ _ h => ?_) fun origin => ?_
      · exact h.read (fun m => m.printOrigin v) fun _ => rfl
      · cases origin with
        | made n => exact makeText s
        | word => exact pure _
        | nameOf b => exact pure _
  | signal v =>
      simp only [Eval.perform]
      cases v.chars? with
      | some s => exact fail _
      | none => exact bind (printed v) fun s => fail _
  | refuse f => exact fail f

theorem runMethodBody (hrec : L.AllUnnoticed rec) (frame : FrameId) (method : Method)
    (receiver : Value) : L.Unnoticed (Eval.runMethodBody rec frame method receiver) :=
  bind (runBody hrec frame method.temps method.statements) fun _ => pure receiver

theorem runMethod (settings : Settings) (hrec : L.AllUnnoticed rec) (frame : FrameId)
    (method : Method) (receiver : Value) :
    L.Unnoticed (Eval.runMethod settings rec frame method receiver) := by
  unfold Eval.runMethod
  split
  · refine get fun m m' h => ?_
    have hdecide : Eval.decide settings m receiver (Eval.argumentsOf m frame method)
        method.primitive = Eval.decide settings m' receiver (Eval.argumentsOf m' frame method)
          method.primitive := by
      rw [h.argumentsOf]
      exact h.read (fun m => Eval.decide settings m receiver _ method.primitive)
        fun m => m.decide_frameless settings receiver _ _
    rw [hdecide]
    refine bind (ofExcept _) fun choice => ?_
    cases choice with
    | ok action => exact perform settings hrec frame action
    | error reason =>
        refine bind (note fun m m' h => ?_) fun _ => runMethodBody hrec frame method receiver
        exact h.read (Eval.failureLine method reason) fun _ => rfl
  · exact runMethodBody hrec frame method receiver

theorem activate (settings : Settings) (hrec : L.AllUnnoticed rec) (method : Method)
    (receiver : Value) (args : List Value) (callers : List FrameId) :
    L.Unnoticed (Eval.activate settings rec method receiver args callers) := by
  unfold Eval.activate
  split
  · refine get fun m m' h => ?_
    rw [Memory.methodWord_congr h.registry]
    exact bind (ofExcept _) fun word => fail _
  · unfold Eval.enter
    rw [bind_assoc]
    refine makeFrame (fun f hf => L.home hf rfl) fun f hf => ?_
    rw [bind_assoc]
    refine bind (declareAll f method.params args) fun _ => ?_
    rw [pure_bind]
    exact closing hf (runMethod settings hrec f method receiver)

/-- A block runs in a frame that continues the frame that it was made in. -/
theorem invoke (hrec : L.AllUnnoticed rec) (closure : ClosureId) (args : List Value)
    (caller : FrameId) : L.Unnoticed (Eval.invoke rec closure args caller) := by
  refine bind (ask fun m m' h => h.read (fun m => m.heap.closure closure) fun _ => rfl) ?_
  intro c
  split
  · exact fail _
  · refine bind (callersFrom caller) fun callers => get fun m m' h => ?_
    refine makeFrame (fun f hf => ?_) fun f _ =>
      bind (declareAll f c.params args) fun _ => runBody hrec f c.temps c.statements
    exact L.block callers hf (h.frame c.frame)

theorem step (settings : Settings) (hrec : L.AllUnnoticed rec) :
    L.AllUnnoticed (Eval.step settings rec) := by
  intro task
  cases task with
  | evaluate node frame => exact evaluateNode hrec frame node
  | activate method receiver args callers =>
      exact activate settings hrec method receiver args callers
  | invoke closure args caller => exact invoke hrec closure args caller

theorem run (settings : Settings) (depth : Nat) : L.AllUnnoticed (Eval.run settings depth) := by
  induction depth with
  | zero => exact fun task => stop _
  | succ depth ih => exact step settings ih

/-! ### Queries -/

theorem naming {activity : Memory → Except Fault String}
    (hactivity : ∀ m m', L.Memories m m' → activity m = activity m') {act act' : Eval Value}
    (hact : L.Alike act act') : L.Alike (Eval.naming activity act) (Eval.naming activity act') := by
  intro m m' h
  have hsame := hact m m' h
  unfold Eval.naming
  generalize act m = r, act' m' = r' at hsame
  cases hsame with
  | ok v h₁ => exact .ok v h₁
  | error s h₁ =>
      cases s with
      | tooDeep =>
          simp only [hactivity _ _ h₁]
          split
          · exact .error _ h₁
          · exact .error _ h₁
      | unwind v home => exact .error _ h₁
      | fault f => exact .error _ h₁
      | unfinished => exact .error _ h₁

theorem execute (settings : Settings) (method : Method) (receiver : Value) (args : List Value) :
    L.Unnoticed (Eval.execute settings method receiver args) := by
  refine naming (fun m m' h => ?_) (run settings _ _)
  rw [Memory.methodWord_congr h.registry]

theorem query (settings : Settings) (q : Query) : L.Unnoticed (q.perform settings) := by
  cases q with
  | send receiver selector args =>
      refine bind (classOf receiver) fun b => bind (methodFrom selector _) fun found => ?_
      cases found with
      | none => exact notUnderstood receiver selector
      | some method => exact execute settings method receiver args
  | execute method receiver args => exact execute settings method receiver args
  | executeNode node receiver args =>
      cases node with
      | method selector params temps statements primitive =>
          exact bind (classOf receiver) fun _ => execute settings _ receiver args
      | _ => exact fail _
  | doit code receiver =>
      refine bind (classOf receiver) fun owner => ?_
      refine makeFrame (fun f hf => L.home hf rfl) fun f hf => ?_
      exact naming (fun _ _ _ => rfl) (closing hf (run settings _ _))

end Unnoticed

end Smalltalk.Likeness
