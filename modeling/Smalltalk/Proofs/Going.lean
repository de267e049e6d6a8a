import Smalltalk.Proofs.Aside
import Smalltalk.Proofs.Invocations

/-!
# `Smalltalk.Proofs.Going`: how sends, returns and activations go

The rules of `Call.Goes` for the functions of the evaluator, one for each thing that the
code of the kernel does: to read a variable, to make a block, to send a message, to return,
to run statements one after another, and to run a method by its primitive or by its body.

A send and a return write a line into the journal where one is kept. Nothing but the
journal is different then (`Memory.Noted`), so the rules for them go on in a memory that is
known up to its journal.
-/

set_option autoImplicit false

namespace Smalltalk

variable {settings : Settings} {b : ClosureId} {depth : Nat} {m m' m'' : Memory}
  {seen seen' : List Call}

/-- A line that can be made is noted, or no journal is kept. -/
theorem Eval.note_noted {line : Memory → Except Fault String} {text : String}
    (hline : line m = .ok text) : ∃ m', note line m = .ok () m' ∧ m.Noted m' := by
  cases hrecording : m.journal.recording with
  | false => exact ⟨m, note_of_quiet hrecording, rfl, rfl, rfl, rfl⟩
  | true =>
      exact ⟨m.note text, note_of_made hrecording hline, m.heap_note text, m.registry_note text,
        m.globals_note text, m.recording_note text⟩

/-- A return from a frame whose home is active unwinds to the home. -/
theorem Eval.returnFrom_unwinds {f home : FrameId} {method : Method} {name : String}
    (hhome : m.heap.home f = home) (hactive : (m.heap.frame home).active = true)
    (hmethod : (m.heap.frame home).method = some method) (hselector : method.selector = .str name)
    (v : Value) : ∃ m', m.Noted m' ∧ returnFrom f v m = .error (.unwind v home) m' := by
  let line : Memory → Except Fault String := fun m =>
    (m.frameWord home).map fun frame => "treetalk.interpreter: ^" ++ m.inspect v ++ " to " ++ frame
  obtain ⟨text, htext⟩ : ∃ text, line m = .ok text := by
    show ∃ text, (m.frameWord home).map _ = .ok text
    unfold Memory.frameWord
    simp only [hmethod, hselector]
    exact ⟨_, rfl⟩
  obtain ⟨m', hnote, hnoted⟩ := note_noted htext
  refine ⟨m', hnoted, ?_⟩
  have hasks : ∀ {α : Type} (g : Memory → α), ask g m = .ok (g m) m := fun _ => rfl
  unfold returnFrom
  rw [bind_of_ok (hasks _), hhome, bind_of_ok (hasks _), if_pos hactive, bind_of_ok hnote]
  rfl

/-- What a method decides that is tagged with a primitive that the system has. -/
theorem Eval.decide_of_find? {number : Int} {p : Primitive}
    (hprimitive : settings.primitives.find? (.number number) = some p) (m : Memory)
    (receiver : Value) (args : List Value) :
    decide settings m receiver args (.int number) = .ok (p.attempt m receiver args) := by
  have hkey : Fault.keyOf (.int number) = .ok (.number number) := rfl
  unfold decide
  rw [hkey]
  simp only [bind, Except.bind, hprimitive]
  rfl

/-! ### Look-up -/

namespace Eval

/-- The class of a value that has one. -/
theorem classOf_of_classOf? {v : Value} {b : Behavior} (h : m.classOf? v = some b) :
    classOf v m = .ok b m := by
  have hget : (get : Eval Memory) m = .ok m m := rfl
  unfold classOf
  rw [bind_of_ok hget, h]
  rfl

/-- A send to anything but super starts at the class of the receiver. -/
theorem startOf_class {f : FrameId} {v : Value} {cls : Behavior} (h : m.classOf? v = some cls) :
    startOf f false v m = .ok (some cls) m := by
  unfold startOf
  rw [if_neg Bool.false_ne_true, bind_of_ok (classOf_of_classOf? h)]
  rfl

theorem methodFrom_text (selector : String) (start : Option Behavior) :
    methodFrom (.str selector) start m
      = .ok (start.bind (m.registry.lookup? (.text selector))) m := by
  cases start <;> rfl

end Eval

/-! ### Lists -/

namespace Planned.Goes

variable {α β : Type} {rec : Task → Eval Value} {see : Task → Memory → List Call}

theorem mapM_nil {f : α → (Task → Eval Value) → Eval β} {pf : ∀ a, Planned (f a)} :
    (Planned.mapM pf []).Goes rec see m (.ok [] m) [] :=
  ⟨rfl, rfl⟩

theorem mapM_cons {f : α → (Task → Eval Value) → Eval β} {pf : ∀ a, Planned (f a)} {x : α}
    {xs : List α} {y : β} {ys : List β} (hx : (pf x).Goes rec see m (.ok y m') seen)
    (hxs : (Planned.mapM pf xs).Goes rec see m' (.ok ys m'') seen') :
    (Planned.mapM pf (x :: xs)).Goes rec see m (.ok (y :: ys) m'') (seen ++ seen') := by
  unfold Planned.mapM
  exact congr (hx.bind (hxs.bind_last (const (pure (y :: ys)))))

section
variable {f : β → α → (Task → Eval Value) → Eval β} {pf : ∀ b a, Planned (f b a)} {x : α}
  {xs : List α} {y : β}

theorem foldlM_nil : (Planned.foldlM pf y []).Goes rec see m (.ok y m) [] := ⟨rfl, rfl⟩

theorem foldlM_cons {y' : β} {out : Outcome β} (hx : (pf y x).Goes rec see m (.ok y' m') seen)
    (hxs : (Planned.foldlM pf y' xs).Goes rec see m' out seen') :
    (Planned.foldlM pf y (x :: xs)).Goes rec see m out (seen ++ seen') := by
  unfold Planned.foldlM
  exact congr (hx.bind hxs)

theorem foldlM_stop {stop : Stop} (hx : (pf y x).Goes rec see m (.error stop m') seen) :
    (Planned.foldlM pf y (x :: xs)).Goes rec see m (.error stop m') seen := by
  unfold Planned.foldlM
  exact congr hx.bind_stop

/-- The last statement settles the outcome. -/
theorem foldlM_singleton {out : Outcome β} (hx : (pf y x).Goes rec see m out seen) :
    (Planned.foldlM pf y [x]).Goes rec see m out seen := by
  cases out with
  | ok y' m' =>
      have hrest : (Planned.foldlM pf y' []).Goes rec see m' (.ok y' m') [] := foldlM_nil
      have h := foldlM_cons hx hrest
      rwa [List.append_nil] at h
  | error stop m' => exact foldlM_stop hx

end

section
variable (f : FrameId) {node : Node} (args : List Node) (vs : List Value) {v : Value}
  {selector : String} {m₂ : Memory} {start : Option Behavior}
  (hstart : Eval.startOf f node.isSuper v m₂ = .ok start m₂)

include hstart

/-- A send evaluates the receiver and the arguments, notes what it has found from the start of
the look-up, and activates it. -/
theorem sendMessage_found {method : Method} {name : String}
    (hmethod : start.bind (m₂.registry.lookup? (.text selector)) = some method)
    (hselector : method.selector = .str name) :
    ∃ m₃, m₂.Noted m₃ ∧ ∀ rec see m m₁ s₁ s₂ s₃ out,
      (Planned.call (.evaluate node f)).Goes rec see m (.ok v m₁) s₁ →
      (Planned.mapM (fun arg => Planned.call (.evaluate arg f)) args).Goes rec see m₁
        (.ok vs m₂) s₂ →
      (Planned.call (.activate method v vs (f :: (m₃.heap.frame f).callers))).Goes rec see m₃
        out s₃ →
      (Planned.sendMessage f node (.str selector) args).Goes rec see m out
        (s₁ ++ (s₂ ++ s₃)) := by
  let line : Memory → Except Fault String := fun m =>
    (m.methodWord method).map fun found => "treetalk.interpreter: " ++ m.inspect v ++
      " #" ++ (Json.str selector).plain ++ " -> " ++ found
  -- the selector of the method is a word, so the line can be made
  obtain ⟨text, htext⟩ : ∃ text, line m₂ = .ok text := by
    show ∃ text, (m₂.methodWord method).map _ = .ok text
    unfold Memory.methodWord
    rw [hselector]
    exact ⟨_, rfl⟩
  obtain ⟨m₃, hnote, hnoted⟩ := Eval.note_noted htext
  refine ⟨m₃, hnoted, fun rec see m m₁ s₁ s₂ s₃ out hreceiver hargs hactivate => ?_⟩
  have hfound : Eval.methodFrom (.str selector) start m₂ = .ok (some method) m₂ := by
    rw [Eval.methodFrom_text, hmethod]
  exact hreceiver.bind (hargs.bind
    (bind_nil (a := start) ⟨hstart, rfl⟩
      (bind_nil (a := some method) ⟨hfound, rfl⟩
        (bind_nil (a := ()) ⟨hnote, rfl⟩ (bind_nil (const _) hactivate)))))

/-- Where nothing is found, the receiver does not understand the message. -/
theorem sendMessage_notFound {cls : Behavior} (hclass : m₂.classOf? v = some cls)
    (hnone : start.bind (m₂.registry.lookup? (.text selector)) = none)
    {rec : Task → Eval Value} {see : Task → Memory → List Call} {m m₁ : Memory}
    {s₁ s₂ : List Call} (hreceiver : (Planned.call (.evaluate node f)).Goes rec see m (.ok v m₁) s₁)
    (hargs : (Planned.mapM (fun arg => Planned.call (.evaluate arg f)) args).Goes rec see m₁
      (.ok vs m₂) s₂) :
    (Planned.sendMessage f node (.str selector) args).Goes rec see m
      (.error (.fault (.doesNotUnderstand (m₂.registry.nameOf cls) selector)) m₂)
      (s₁ ++ s₂) := by
  have hfound : Eval.methodFrom (.str selector) start m₂ = .ok none m₂ := by
    rw [Eval.methodFrom_text, hnone]
  have hfault : Eval.notUnderstood (α := Value) v (.str selector) m₂
      = .error (.fault (.doesNotUnderstand (m₂.registry.nameOf cls) selector)) m₂ := by
    unfold Eval.notUnderstood
    rw [bind_of_ok (Eval.classOf_of_classOf? hclass)]
    rfl
  exact hreceiver.bind (hargs.bind_last (bind_nil (a := start) ⟨hstart, rfl⟩
    (bind_nil (a := none) ⟨hfound, rfl⟩ ⟨hfault, rfl⟩)))

end

/-- A send to anything but super looks the method up in the class of the receiver. -/
theorem sendMessage (f : FrameId) {node : Node} (args : List Node) (vs : List Value) {v : Value}
    {selector : String} {cls : Behavior} {method : Method} {name : String} {m₂ : Memory}
    (hsuper : node.isSuper = false) (hclass : m₂.classOf? v = some cls)
    (hmethod : m₂.registry.lookup? (.text selector) cls = some method)
    (hselector : method.selector = .str name) :
    ∃ m₃, m₂.Noted m₃ ∧ ∀ rec see m m₁ s₁ s₂ s₃ out,
      (Planned.call (.evaluate node f)).Goes rec see m (.ok v m₁) s₁ →
      (Planned.mapM (fun arg => Planned.call (.evaluate arg f)) args).Goes rec see m₁
        (.ok vs m₂) s₂ →
      (Planned.call (.activate method v vs (f :: (m₃.heap.frame f).callers))).Goes rec see m₃
        out s₃ →
      (Planned.sendMessage f node (.str selector) args).Goes rec see m out
        (s₁ ++ (s₂ ++ s₃)) := by
  have hstart : Eval.startOf f node.isSuper v m₂ = .ok (some cls) m₂ := by
    rw [hsuper]
    exact Eval.startOf_class hclass
  exact sendMessage_found f args vs hstart hmethod hselector

end Planned.Goes

/-! ### Trees -/

namespace Call.Goes

variable {f : FrameId} {out : Outcome Value}

theorem self : (Call.mk (.evaluate .self f) m (depth + 1)).Goes settings b
    (.ok (m.heap.frame f).receiver m) [] :=
  evaluate (.still fun _ _ => rfl)

theorem literal (value : Literal) : (Call.mk (.evaluate (.literal value) f) m (depth + 1)).Goes
    settings b (.ok (Eval.literalValue value) m) [] :=
  evaluate (.still fun _ _ => rfl)

theorem block (params temps : List Json) (statements : List Node) :
    (Call.mk (.evaluate (.block params temps statements) f) m (depth + 1)).Goes settings b
      (.ok (.closure m.heap.closures.size)
        { m with heap := (m.heap.newClosure ⟨params, temps, statements, f⟩).1 }) [] :=
  evaluate (.still fun _ _ => rfl)

/-- A temp or a parameter. -/
theorem lookup {name : String} {kind : VariableKind} (hkind : kind = .temp ∨ kind = .arg)
    {v : Value} (hv : m.heap.lookup? f (.text name) = some v) :
    (Call.mk (.evaluate (.reference (.str name) kind .null) f) m (depth + 1)).Goes settings b
      (.ok v m) [] := by
  have hread : ∀ rec, Eval.evaluateNode rec f (.reference (.str name) kind .null) m = .ok v m := by
    intro rec
    have hkey : (Json.str name).key? = some (.text name) := rfl
    have hlookup := Eval.lookup_of_some hkey hv
    rcases hkind with rfl | rfl <;> exact hlookup
  have h : (Planned.evaluateNode f (.reference (.str name) kind .null)).Goes
      (Eval.run settings depth) (Call.seen settings b depth) m
      (Eval.evaluateNode (Eval.run settings depth) f (.reference (.str name) kind .null) m) [] :=
    .still fun _ _ => rfl
  rw [hread] at h
  exact evaluate h

/-- An assignment to a temp or a parameter that a frame declares. -/
theorem assign {name : String} {value : Node} {v : Value} {owner : FrameId}
    (hvalue : (Call.mk (.evaluate value f) m depth).Goes settings b (.ok v m') seen)
    (howner : m'.heap.owner? f (.text name) = some owner) :
    (Call.mk (.evaluate (.assign (.str name) .temp .null value) f) m (depth + 1)).Goes settings b
      (.ok v { m' with heap := m'.heap.declare owner (.text name) (.str name) v }) seen := by
  have hwrite : Eval.writeVariable f (.str name) .temp .null v m'
      = .ok () { m' with heap := m'.heap.declare owner (.text name) (.str name) v } := by
    have hkey : (Json.str name).key? = some (.text name) := rfl
    exact Eval.assign_of_owner hkey howner v
  have hwrite' : (Planned.const (Eval.writeVariable f (.str name) .temp .null v)).Goes
      (Eval.run settings depth) (Call.seen settings b depth) m' (.ok () _) [] :=
    ⟨hwrite, rfl⟩
  exact evaluate ((Planned.Goes.inner hvalue rfl).bind_last (hwrite'.bind_nil (.const (pure v))))

/-! ### Sends -/

/-- The arguments of a send, one after another. -/
abbrev Arguments (settings : Settings) (b : ClosureId) (depth : Nat) (f : FrameId)
    (args : List Node) (m : Memory) (vs : List Value) (m' : Memory) (seen : List Call) : Prop :=
  (Planned.mapM (fun arg => Planned.call (.evaluate arg f)) args).Goes (Eval.run settings depth)
    (Call.seen settings b depth) m (.ok vs m') seen

theorem arguments_nil : Arguments settings b depth f [] m [] m [] := .mapM_nil

theorem arguments_cons {arg : Node} {args : List Node} {v : Value} {vs : List Value}
    (harg : (Call.mk (.evaluate arg f) m depth).Goes settings b (.ok v m') seen)
    (hrest : Arguments settings b depth f args m' vs m'' seen') :
    Arguments settings b depth f (arg :: args) m (v :: vs) m'' (seen ++ seen') := by
  refine Planned.Goes.mapM_cons ?_ hrest
  exact .inner harg rfl

/-- A send evaluates the receiver and the arguments, and then activates the method that the
class of the receiver has for the selector. -/
theorem send (settings : Settings) (depth : Nat) (f : FrameId) (m m₁ : Memory) {node : Node}
    (args : List Node) (vs : List Value) {v : Value} {selector : String} {cls : Behavior}
    {method : Method} {name : String} {m₂ : Memory} (hsuper : node.isSuper = false)
    (hclass : m₂.classOf? v = some cls)
    (hmethod : m₂.registry.lookup? (.text selector) cls = some method)
    (hselector : method.selector = .str name) :
    ∃ m₃, m₂.Noted m₃ ∧ ∀ b s₁ s₂ s₃ out,
      (Call.mk (.evaluate node f) m depth).Goes settings b (.ok v m₁) s₁ →
      Arguments settings b depth f args m₁ vs m₂ s₂ →
      (Call.mk (.activate method v vs (f :: (m₃.heap.frame f).callers)) m₃ depth).Goes settings b
        out s₃ →
      (Call.mk (.evaluate (.send node (.str selector) args) f) m (depth + 1)).Goes settings b out
        (s₁ ++ (s₂ ++ s₃)) := by
  obtain ⟨m₃, hnoted, hsend⟩ :=
    Planned.Goes.sendMessage f args vs hsuper hclass hmethod hselector
  refine ⟨m₃, hnoted, fun b s₁ s₂ s₃ out hreceiver hargs hactivate => evaluate ?_⟩
  exact hsend _ _ m m₁ s₁ s₂ s₃ out (.inner hreceiver rfl) hargs (.inner hactivate rfl)

/-! ### Returns -/

/-- A return unwinds to the home of the frame, which is active. -/
theorem answer {value : Node} {v : Value} {home : FrameId} {method : Method} {name : String}
    (hhome : m'.heap.home f = home) (hactive : (m'.heap.frame home).active = true)
    (hmethod : (m'.heap.frame home).method = some method)
    (hselector : method.selector = .str name) :
    ∃ m'', m'.Noted m'' ∧ ∀ b seen,
      (Call.mk (.evaluate value f) m depth).Goes settings b (.ok v m') seen →
      (Call.mk (.evaluate (.answer value) f) m (depth + 1)).Goes settings b
        (.error (.unwind v home) m'') seen := by
  obtain ⟨m'', hnoted, hreturn⟩ := Eval.returnFrom_unwinds hhome hactive hmethod hselector v
  refine ⟨m'', hnoted, fun b seen hvalue => evaluate ?_⟩
  exact (Planned.Goes.inner hvalue rfl).bind_last ⟨hreturn, rfl⟩

/-- Where the value of a return stops, the return does. -/
theorem answer_stop {value : Node} {stop : Stop}
    (hvalue : (Call.mk (.evaluate value f) m depth).Goes settings b (.error stop m') seen) :
    (Call.mk (.evaluate (.answer value) f) m (depth + 1)).Goes settings b (.error stop m') seen :=
  evaluate (Planned.Goes.inner hvalue rfl).bind_stop

end Call.Goes

/-! ### Bodies -/

namespace Planned.Goes

variable {f : FrameId} {out : Outcome Value} {method : Method} {receiver : Value}

/-- Code without temps does its statements. -/
theorem runBody {statements : List Node}
    (h : (Planned.foldlM (fun _ s => Planned.call (.evaluate s f)) .nil statements).Goes
      (Eval.run settings depth) (Call.seen settings b depth) m out seen) :
    (Planned.runBody f [] statements).Goes (Eval.run settings depth)
      (Call.seen settings b depth) m out seen :=
  bind_nil (a := ()) ⟨rfl, rfl⟩ h

/-- Code with one temp declares it first. -/
theorem runBody_temp {name : String} {statements : List Node}
    (h : (Planned.foldlM (fun _ s => Planned.call (.evaluate s f)) .nil statements).Goes
      (Eval.run settings depth) (Call.seen settings b depth)
      { m with heap := m.heap.declare f (.text name) (.str name) .nil } out seen) :
    (Planned.runBody f [.str name] statements).Goes (Eval.run settings depth)
      (Call.seen settings b depth) m out seen :=
  bind_nil (a := ()) ⟨rfl, rfl⟩ h

/-- A method that answers nothing else answers its receiver. -/
theorem runMethodBody {v : Value}
    (h : (Planned.runBody f method.temps method.statements).Goes (Eval.run settings depth)
      (Call.seen settings b depth) m (.ok v m') seen) :
    (Planned.runMethodBody f method receiver).Goes (Eval.run settings depth)
      (Call.seen settings b depth) m (.ok receiver m') seen :=
  h.bind_last (const (pure receiver))

theorem runMethodBody_stop {stop : Stop}
    (h : (Planned.runBody f method.temps method.statements).Goes (Eval.run settings depth)
      (Call.seen settings b depth) m (.error stop m') seen) :
    (Planned.runMethodBody f method receiver).Goes (Eval.run settings depth)
      (Call.seen settings b depth) m (.error stop m') seen :=
  h.bind_stop

/-! ### Methods -/

/-- A method without a primitive runs its body. -/
theorem runMethod_plain (hplain : method.primitive = .null)
    (h : (Planned.runMethodBody f method receiver).Goes (Eval.run settings depth)
      (Call.seen settings b depth) m out seen) :
    (Planned.runMethod settings f method receiver).Goes (Eval.run settings depth)
      (Call.seen settings b depth) m out seen := by
  refine ite_neg ?_ h
  unfold Method.isPrimitive
  rw [hplain]
  exact Bool.false_ne_true

section
variable {number : Int} {p : Primitive} {args : List Value}
  (htag : method.primitive = .int number)
  (hprimitive : settings.primitives.find? (.number number) = some p)
  (hargs : Eval.argumentsOf m f method = args)

include htag hprimitive hargs

/-- A method runs its primitive. -/
theorem runMethod_primitive {rec : Task → Eval Value} {see : Task → Memory → List Call}
    {action : Action} (haction : p.attempt m receiver args = .ok action)
    (h : (Planned.perform settings f action).Goes rec see m out seen) :
    (Planned.runMethod settings f method receiver).Goes rec see m out seen := by
  have htagged : method.isPrimitive = true := by
    unfold Method.isPrimitive
    rw [htag]
  have hdecide : Eval.ofExcept (Eval.decide settings m receiver (Eval.argumentsOf m f method)
      method.primitive) m = .ok (.ok action) m := by
    rw [htag, hargs, Eval.decide_of_find? hprimitive, haction]
    rfl
  exact ite_pos htagged (bind_nil (a := m) ⟨rfl, rfl⟩
    (bind_nil (a := .ok action) ⟨hdecide, rfl⟩ h))

/-- A method whose primitive fails runs its body. -/
theorem runMethod_failing {reason : Reason} (hreason : p.attempt m receiver args = .error reason)
    {name : String} (hselector : method.selector = .str name) :
    ∃ m', m.Noted m' ∧ ∀ b seen out,
      (Planned.runMethodBody f method receiver).Goes (Eval.run settings depth)
        (Call.seen settings b depth) m' out seen →
      (Planned.runMethod settings f method receiver).Goes (Eval.run settings depth)
        (Call.seen settings b depth) m out seen := by
  obtain ⟨text, htext⟩ : ∃ text, Eval.failureLine method reason m = .ok text := by
    unfold Eval.failureLine Memory.methodWord
    rw [htag, hselector]
    exact ⟨_, rfl⟩
  obtain ⟨m', hnote, hnoted⟩ := Eval.note_noted htext
  refine ⟨m', hnoted, fun b seen out h => ?_⟩
  have htagged : method.isPrimitive = true := by
    unfold Method.isPrimitive
    rw [htag]
  have hdecide : Eval.ofExcept (Eval.decide settings m receiver (Eval.argumentsOf m f method)
      method.primitive) m = .ok (.error reason) m := by
    rw [htag, hargs, Eval.decide_of_find? hprimitive, hreason]
    rfl
  exact ite_pos htagged (bind_nil (a := m) ⟨rfl, rfl⟩
    (bind_nil (a := .error reason) ⟨hdecide, rfl⟩ (bind_nil (a := ()) ⟨hnote, rfl⟩ h)))

end

end Planned.Goes

/-! ### Blocks -/

/-- A block runs its code in a frame that continues the one it was made in. -/
theorem Call.Goes.invoke_block {c : ClosureId} {names : List String} {args : List Value}
    {temps : List Json} {statements : List Node} {f caller : FrameId} {out : Outcome Value}
    (hclosure : m.heap.closure c = ⟨names.map .str, temps, statements, f⟩)
    (hargs : args.length = names.length)
    (h : (Planned.runBody m.heap.frames.size temps statements).Goes (Eval.run settings depth)
      (Call.seen settings b depth)
      { m with heap := (m.heap.newFrame {
          receiver := (m.heap.frame f).receiver, method := (m.heap.frame f).method,
          outer := f :: (m.heap.frame f).outer,
          callers := caller :: (m.heap.frame caller).callers, isBlock := true,
          slots := Dictionary.putAll names args {} }).1 } out seen) :
    (Call.mk (.invoke c args caller) m (depth + 1)).Goes settings b out seen := by
  refine .invoke ?_
  have harity : ¬ args.length ≠ (Closure.mk (names.map .str) temps statements f).arity := by
    unfold Closure.arity
    rw [List.length_map]
    exact not_not_intro hargs
  have hdeclare := Eval.declareAll_newFrame names args {
    receiver := (m.heap.frame f).receiver, method := (m.heap.frame f).method,
    outer := f :: (m.heap.frame f).outer,
    callers := caller :: (m.heap.frame caller).callers, isBlock := true } m
  exact Planned.Goes.bind_nil (a := ⟨names.map .str, temps, statements, f⟩)
    ⟨Eval.ask_of_eq hclosure, rfl⟩
    (.ite_neg harity (.bind_nil (.const _) (.bind_nil (.const _)
      (.bind_nil (a := m.heap.frames.size) ⟨rfl, rfl⟩ (.bind_nil (a := ()) ⟨hdeclare, rfl⟩ h)))))

end Smalltalk
