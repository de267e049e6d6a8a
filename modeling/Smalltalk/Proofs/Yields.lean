import Mathlib.Data.List.Forall2
import Smalltalk.Proofs.Equipped
import Smalltalk.Proofs.Going

/-!
# `Smalltalk.Proofs.Yields`: tasks with a known result

`Memory.Yields` says that a task has a result, a value or a fault, and that this stays so
for as long as things are only added to the memory. The task itself only adds something
(`Memory.Aside []`) and invokes no closure at all. So a task that yields can be put into
any place of a longer evaluation, and what is known of the memory is known after it.

There is a rule for each kind of tree, and two for activations: a method answers what its
primitive does (`Yields.primitive`), or, if it has none or the primitive fails, what the
expression yields that its body returns (`Yields.returning`). `Memory.EndsIn` is the weaker
notion for code that may invoke blocks of its own.
-/

set_option autoImplicit false

namespace Smalltalk

variable {settings : Settings} {depth : Nat} {m m' : Memory}

/-- The outcome with a result. -/
def Eval.ended : Except Fault Value → Memory → Outcome Value
  | .ok v, m => .ok v m
  | .error f, m => .error (.fault f) m

/-- In this memory, and in any that has only been added to, a task ends with a result. It
only adds something itself, and invokes no closure. -/
def Memory.Yields (settings : Settings) (m : Memory) (depth : Nat) (task : Task)
    (r : Except Fault Value) : Prop :=
  ∀ m', m.Aside [] m' → ∃ m'', m'.Aside [] m'' ∧
    ∀ b, (Call.mk task m' depth).Goes settings b (Eval.ended r m'') []

/-- The same of a task that may invoke closures, such as blocks in its own code: it ends with
a result and only adds something. -/
def Memory.EndsIn (settings : Settings) (m : Memory) (depth : Nat) (task : Task)
    (r : Except Fault Value) : Prop :=
  ∀ m', m.Aside [] m' → ∃ m'', m'.Aside [] m'' ∧
    (Call.mk task m' depth).outcome settings = Eval.ended r m''

theorem Memory.Yields.endsIn {task : Task} {r : Except Fault Value}
    (h : m.Yields settings depth task r) : m.EndsIn settings depth task r := by
  intro m' a
  obtain ⟨m'', a', hgoes⟩ := h m' a
  exact ⟨m'', a', (hgoes 0).outcome⟩

/-- A frame that has been made in a memory, and nothing but additions. -/
structure Memory.Makes (m : Memory) (x : Frame) (f : FrameId) (m' : Memory) : Prop where
  aside : m.Aside [] m'
  fresh : m.heap.frames.size ≤ f
  there : f < m'.heap.frames.size
  frame : m'.heap.frame f = x

/-! ### Arguments -/

namespace Dictionary

theorem find?_putAll_of_not_mem {name : String} {names : List String} (h : name ∉ names)
    (vs : List Value) (d : Dictionary Value) :
    (putAll names vs d).find? (.text name) = d.find? (.text name) := by
  induction names generalizing vs d with
  | nil => rfl
  | cons n names ih =>
      obtain ⟨hne, hnot⟩ := not_or.mp (mt List.mem_cons.mpr h)
      cases vs with
      | nil => rfl
      | cons v vs =>
          refine (ih hnot vs _).trans (find?_put_of_ne _ _ _ ?_)
          exact fun heq => hne (Key.text.inj heq)

/-- Each name has its own value, if they are all different. -/
theorem map_find?_putAll {names : List String} (hnodup : names.Nodup) {vs : List Value}
    (hlength : vs.length = names.length) (d : Dictionary Value) :
    names.map (fun name => ((putAll names vs d).find? (.text name)).getD .nil) = vs := by
  induction names generalizing vs d with
  | nil => exact (List.length_eq_zero_iff.mp hlength).symm
  | cons name names ih =>
      cases vs with
      | nil => cases hlength
      | cons v vs =>
          obtain ⟨hnot, hnodup⟩ := List.nodup_cons.mp hnodup
          have hhead : (putAll (name :: names) (v :: vs) d).find? (.text name) = some v :=
            (find?_putAll_of_not_mem hnot vs _).trans (find?_put_self ..)
          rw [List.map_cons, hhead]
          exact congrArg (List.cons v) (ih hnodup (Nat.succ.inj hlength) _)

end Dictionary

/-- The arguments that a frame was made with. -/
theorem Eval.argumentsOf_of_frame {method : Method} {names : List String}
    (hparams : method.params = names.map .str) (hnodup : names.Nodup) {args : List Value}
    (hlength : args.length = names.length) {f : FrameId}
    (hslots : (m.heap.frame f).slots = Dictionary.putAll names args {}) :
    argumentsOf m f method = args := by
  unfold argumentsOf
  rw [hparams, List.map_map, hslots]
  exact Dictionary.map_find?_putAll hnodup hlength {}

namespace Memory

theorem Makes.home {x : Frame} {f : FrameId} (o : m.Makes x f m') (houter : x.outer = []) :
    m'.heap.home f = f := by
  unfold Heap.home
  rw [o.frame, houter, List.getLastD_nil]

/-- A variable that the frame declares itself. -/
theorem Makes.lookup? {x : Frame} {f : FrameId} (o : m.Makes x f m') {key : Key} {v : Value}
    (hv : x.slots.find? key = some v) : m'.heap.lookup? f key = some v := by
  rw [← o.frame] at hv
  have hcontains : (m'.heap.frame f).slots.contains key = true :=
    Option.isSome_iff_exists.mpr ⟨v, hv⟩
  exact Heap.lookup?_eq_some_iff.mpr ⟨f, Heap.owner?_self hcontains, hv⟩

/-! ### Trees -/

namespace Yields

variable {f : FrameId} {task : Task} {r : Except Fault Value}

theorem here (h : m.Yields settings depth task r) : ∃ m', m.Aside [] m' ∧
    ∀ b, (Call.mk task m depth).Goes settings b (Eval.ended r m') [] :=
  h m (.refl [] m)

theorem self (hf : f < m.heap.frames.size) :
    m.Yields settings (depth + 1) (.evaluate .self f) (.ok (m.heap.frame f).receiver) := by
  intro m' a
  refine ⟨m', .refl [] m', fun b => ?_⟩
  rw [← a.frame f hf List.not_mem_nil]
  exact .self

theorem literal (value : Literal) : m.Yields settings (depth + 1) (.evaluate (.literal value) f)
    (.ok (Eval.literalValue value)) :=
  fun m' _ => ⟨m', .refl [] m', fun _ => .literal value⟩

/-- A temp or a parameter of a frame or of those around it. -/
theorem read {name : String} {kind : VariableKind} (hkind : kind = .temp ∨ kind = .arg)
    (hchain : ∀ g ∈ m.heap.chain f, g < m.heap.frames.size) {v : Value}
    (hv : m.heap.lookup? f (.text name) = some v) :
    m.Yields settings (depth + 1) (.evaluate (.reference (.str name) kind .null) f) (.ok v) :=
  fun m' a => ⟨m', .refl [] m', fun _ =>
    .lookup hkind ((a.lookup? hchain (.text name)).trans hv)⟩

theorem arguments {args : List Node} {vs : List Value}
    (h : List.Forall₂ (fun arg v => m.Yields settings depth (.evaluate arg f) (.ok v)) args vs)
    (a : m.Aside [] m') : ∃ m'', m'.Aside [] m'' ∧
      ∀ b, Call.Goes.Arguments settings b depth f args m' vs m'' [] := by
  induction h generalizing m' with
  | nil => exact ⟨m', .refl [] m', fun _ => Call.Goes.arguments_nil⟩
  | cons harg _ ih =>
      obtain ⟨m₁, a₁, hfirst⟩ := harg m' a
      obtain ⟨m₂, a₂, hrest⟩ := ih (a.append a₁)
      exact ⟨m₂, a₁.append a₂, fun b => (hfirst b).arguments_cons (hrest b)⟩

/-- A send yields what the activation does of the method that is found. -/
theorem send {node : Node} {selector : String} {args : List Node} {v : Value}
    {vs : List Value} {cls : Behavior} {method : Method} (hsuper : node.isSuper = false)
    (hclass : m.classOf? v = some cls)
    (hmethod : m.registry.lookup? (.text selector) cls = some method) {name : String}
    (hselector : method.selector = .str name)
    (hreceiver : m.Yields settings depth (.evaluate node f) (.ok v))
    (hargs : List.Forall₂ (fun arg v => m.Yields settings depth (.evaluate arg f) (.ok v)) args vs)
    (hactivate : ∀ callers, m.Yields settings depth (.activate method v vs callers) r) :
    m.Yields settings (depth + 1) (.evaluate (.send node (.str selector) args) f) r := by
  intro m' a
  obtain ⟨m₁, a₁, hfirst⟩ := hreceiver m' a
  obtain ⟨m₂, a₂, hrest⟩ := arguments hargs (a.append a₁)
  have a₀₂ := (a.append a₁).append a₂
  have hclass₂ := (a₀₂.classOf? v).trans hclass
  have hmethod₂ : m₂.registry.lookup? (.text selector) cls = some method := by
    rw [a₀₂.registry]
    exact hmethod
  obtain ⟨m₃, hnoted, hsend⟩ :=
    Call.Goes.send settings depth f m' m₁ args vs hsuper hclass₂ hmethod₂ hselector
  have a₃ : m₂.Aside [] m₃ := .of_noted hnoted
  obtain ⟨m₄, a₄, hlast⟩ := hactivate (f :: (m₃.heap.frame f).callers) m₃ (a₀₂.append a₃)
  refine ⟨m₄, ((a₁.append a₂).append a₃).append a₄, fun b => ?_⟩
  exact hsend b [] [] [] _ (hfirst b) (hrest b) (hlast b)

end Yields

end Memory

/-! ### Activations -/

/-- A method with different texts for parameters, and as many arguments. -/
structure Method.Takes (method : Method) (names : List String) (args : List Value) : Prop where
  params : method.params = names.map .str
  nodup : names.Nodup
  length : args.length = names.length

namespace Method.Takes

variable {method : Method} {names : List String} {args : List Value}

theorem arity (h : method.Takes names args) : args.length = method.arity := by
  unfold Method.arity
  rw [h.params, List.length_map]
  exact h.length

/-- The frame of the activation. -/
theorem enters (h : method.Takes names args) (receiver : Value) (callers : List FrameId)
    (m : Memory) : ∃ f m', Eval.enter method receiver args callers m = .ok f m' ∧
      m.Makes { receiver, method := some method, callers,
                slots := Dictionary.putAll names args {} } f m' ∧
      Eval.argumentsOf m' f method = args := by
  have henter := Eval.enter_of_texts h.params receiver args callers m
  refine ⟨_, _, henter, ⟨.newFrame m _, Nat.le_refl _, ?_, ?_⟩, ?_⟩
  · rw [Heap.size_newFrame]
    exact Nat.lt_succ_self _
  · rw [Heap.frame_newFrame, if_pos rfl]
  · refine Eval.argumentsOf_of_frame h.params h.nodup h.length ?_
    rw [Heap.frame_newFrame, if_pos rfl]

end Method.Takes

/-- An activation with a primitive makes a frame, and does in it what the primitive decides. -/
theorem Call.Goes.activatePrimitive {method : Method} {names : List String} {args : List Value}
    (htakes : method.Takes names args) {number : Int} {p : Primitive}
    (htag : method.primitive = .int number)
    (hprimitive : settings.primitives.find? (.number number) = some p) (receiver : Value)
    (callers : List FrameId) (m : Memory) (depth : Nat) :
    ∃ f m', m.Makes { receiver, method := some method, callers,
                      slots := Dictionary.putAll names args {} } f m' ∧
      ∀ b out seen action, p.attempt m' receiver args = .ok action →
        (Planned.perform settings f action).Goes (Eval.run settings depth)
          (Call.seen settings b depth) m' out seen →
        (Call.mk (.activate method receiver args callers) m (depth + 1)).Goes settings b
          (Eval.close f out) seen := by
  obtain ⟨f, m', henter, o, hargs⟩ := htakes.enters receiver callers m
  refine ⟨f, m', o, fun b out seen action hattempt hperform => ?_⟩
  exact .activate htakes.arity henter
    (.runMethod_primitive htag hprimitive hargs hattempt hperform)

/-- The result of an action that only says something. -/
def Action.result? (settings : Settings) : Action → Option (Except Fault Value)
  | .answer v => some (.ok v)
  | .tally n => if n ≤ settings.room then some (.ok (.int n)) else none
  | .signal v => v.chars?.map fun s => .error (.signalled s)
  | .refuse f => some (.error f)
  | _ => none

theorem Planned.Goes.perform_of_result {action : Action} {r : Except Fault Value}
    (h : action.result? settings = some r) (f : FrameId) (m : Memory) (b : ClosureId) :
    (Planned.perform settings f action).Goes (Eval.run settings depth)
      (Call.seen settings b depth) m (Eval.ended r m) [] := by
  cases action with
  | answer v =>
      obtain rfl := Option.some.inj h
      exact .still fun _ _ => rfl
  | tally n =>
      change (if n ≤ settings.room then some (.ok (.int n)) else none) = some r at h
      split at h
      · rename_i hn
        obtain rfl := Option.some.inj h
        have hperform : Eval.perform settings (Eval.run settings depth) f (.tally n) m
            = .ok (.int n) m := by
          show (if n ≤ settings.room then pure (Value.int n) else throw .unfinished : Eval Value) m
            = _
          rw [if_pos hn]
          rfl
        exact ⟨hperform, rfl⟩
      · cases h
  | signal v =>
      obtain ⟨s, hs, rfl⟩ := Option.map_eq_some_iff.mp h
      have hperform : Eval.perform settings (Eval.run settings depth) f (.signal v) m
          = .error (.fault (.signalled s)) m := by
        simp only [Eval.perform, hs]
        rfl
      exact ⟨hperform, rfl⟩
  | refuse e =>
      obtain rfl := Option.some.inj h
      exact .still fun _ _ => rfl
  -- no other action has a result without a change
  | _ => cases h

/-- A result stays the same when the frame of an activation is closed. -/
theorem Eval.close_ended (f : FrameId) (r : Except Fault Value) (m : Memory) :
    close f (ended r m) = ended r (m.retire f) := by
  cases r <;> rfl

/-- A method runs its body: it has no primitive, or one that fails. -/
def Method.RunsBody (settings : Settings) (m : Memory) (receiver : Value) (args : List Value)
    (method : Method) : Prop :=
  method.primitive = .null ∨
    ∃ number p, method.primitive = .int number ∧
      settings.primitives.find? (.number number) = some p ∧
      ∀ m', m.Aside [] m' → ∃ reason, p.attempt m' receiver args = .error reason

theorem Method.RunsBody.goes {method : Method} {receiver : Value} {args : List Value}
    (h : method.RunsBody settings m receiver args) (a : m.Aside [] m') {name : String}
    (hselector : method.selector = .str name) {f : FrameId}
    (hargs : Eval.argumentsOf m' f method = args) (depth : Nat) :
    ∃ m'', m'.Noted m'' ∧ ∀ b seen out,
      (Planned.runMethodBody f method receiver).Goes (Eval.run settings depth)
        (Call.seen settings b depth) m'' out seen →
      (Planned.runMethod settings f method receiver).Goes (Eval.run settings depth)
        (Call.seen settings b depth) m' out seen := by
  rcases h with hplain | ⟨number, p, htag, hprimitive, hattempt⟩
  · exact ⟨m', ⟨rfl, rfl, rfl, rfl⟩, fun b seen out => .runMethod_plain hplain⟩
  · obtain ⟨reason, hreason⟩ := hattempt m' a
    exact Planned.Goes.runMethod_failing htag hprimitive hargs hreason hselector

namespace Memory

variable {method : Method} {names : List String} {args : List Value} {receiver : Value}
  {r : Except Fault Value} {x : Frame} {f : FrameId} {m'' : Memory}

theorem Makes.append (o : m.Makes x f m') (a : m'.Aside [] m'') : m.Makes x f m'' where
  aside := o.aside.append a
  fresh := o.fresh
  there := Nat.lt_of_lt_of_le o.there a.heap.frames
  frame := (a.frame f o.there List.not_mem_nil).trans o.frame

theorem Makes.prepend (a : m.Aside [] m') (o : m'.Makes x f m'') : m.Makes x f m'' where
  aside := a.append o.aside
  fresh := Nat.le_trans a.heap.frames o.fresh
  there := o.there
  frame := o.frame

theorem Makes.yields_self (o : m.Makes x f m') :
    m'.Yields settings (depth + 1) (.evaluate .self f) (.ok x.receiver) := by
  have h := @Yields.self settings depth m' f o.there
  rwa [o.frame] at h

/-- Reading a parameter in the frame of an activation. -/
theorem Makes.yields_arg (o : m.Makes x f m') (houter : x.outer = []) {name : String} {v : Value}
    (hv : x.slots.find? (.text name) = some v) :
    m'.Yields settings (depth + 1) (.evaluate (.arg (.str name)) f) (.ok v) := by
  refine .read (.inr rfl) (fun g hg => ?_) (o.lookup? hv)
  unfold Heap.chain at hg
  rw [o.frame, houter] at hg
  obtain rfl := List.mem_singleton.mp hg
  exact o.there

/-- The frame of an activation that has ended was made on the way. -/
theorem Makes.closed (o : m.Makes x f m') : m.Aside [] (m'.retire f) := by
  refine o.aside.trans (.retire m' f) fun g hg => .inr ?_
  obtain rfl := List.mem_singleton.mp hg
  exact o.fresh

/-- Invoking a closure runs its code in a frame that is made for it. -/
theorem Makes.of_invoke {c : ClosureId} {names : List String} {args : List Value}
    {temps : List Json} {statements : List Node} {f : FrameId}
    (hclosure : m.heap.closure c = ⟨names.map .str, temps, statements, f⟩)
    (hargs : args.length = names.length) (settings : Settings) (caller : FrameId)
    (depth : Nat) : ∃ g m', m.Makes {
        receiver := (m.heap.frame f).receiver, method := (m.heap.frame f).method,
        outer := f :: (m.heap.frame f).outer,
        callers := caller :: (m.heap.frame caller).callers, isBlock := true,
        slots := Dictionary.putAll names args {} } g m' ∧
      ∀ b out seen, (Planned.runBody g temps statements).Goes (Eval.run settings depth)
          (Call.seen settings b depth) m' out seen →
        (Call.mk (.invoke c args caller) m (depth + 1)).Goes settings b out seen := by
  refine ⟨m.heap.frames.size, _, ⟨.newFrame m _, Nat.le_refl _, ?_, ?_⟩,
    fun b out seen h => .invoke_block hclosure hargs h⟩
  · rw [Heap.size_newFrame]
    exact Nat.lt_succ_self _
  · rw [Heap.frame_newFrame, if_pos rfl]

namespace Yields

/-- An activation yields what its primitive says. -/
theorem primitive (htakes : method.Takes names args) {number : Int} {p : Primitive}
    (htag : method.primitive = .int number)
    (hprimitive : settings.primitives.find? (.number number) = some p) {action : Action}
    (hattempt : ∀ m', m.Aside [] m' → p.attempt m' receiver args = .ok action)
    (hresult : action.result? settings = some r) (callers : List FrameId) :
    m.Yields settings (depth + 1) (.activate method receiver args callers) r := by
  intro m' a
  obtain ⟨f, m₁, o, hends⟩ :=
    Call.Goes.activatePrimitive htakes htag hprimitive receiver callers m' depth
  refine ⟨m₁.retire f, o.closed, fun b => ?_⟩
  rw [← Eval.close_ended]
  exact hends b _ _ _ (hattempt m₁ (a.append o.aside)) (.perform_of_result hresult f m₁ b)

end Yields

end Memory

section
variable {method : Method} {names : List String} {args : List Value} {receiver : Value}
  {r : Except Fault Value} (htakes : method.Takes names args) {name : String}
  (hselector : method.selector = .str name) (hruns : method.RunsBody settings m receiver args)
  {e : Node} (htemps : method.temps = []) (hstatements : method.statements = [.answer e])

include htakes hselector hruns htemps hstatements

/-- An activation that runs its body makes a frame and ends with the result of the expression
that the body returns. -/
theorem Call.Goes.returning (a : m.Aside [] m') (callers : List FrameId) (depth : Nat) :
    ∃ f m₂, m'.Makes { receiver, method := some method, callers,
                       slots := Dictionary.putAll names args {} } f m₂ ∧
      ∀ r m₃, m₂.Aside [] m₃ → ∃ m₄, m'.Aside [] m₄ ∧ ∀ b seen,
        (Call.mk (.evaluate e f) m₂ depth).Goes settings b (Eval.ended r m₃) seen →
        (Call.mk (.activate method receiver args callers) m' (depth + 2)).Goes settings b
          (Eval.ended r m₄) seen := by
  obtain ⟨f, m₁, henter, o₁, hargs⟩ := htakes.enters receiver callers m'
  obtain ⟨m₂, hnoted, hbody⟩ := hruns.goes (a.append o₁.aside) hselector hargs (depth + 1)
  have o₂ := o₁.append (.of_noted hnoted)
  refine ⟨f, m₂, o₂, fun r m₃ a₃ => ?_⟩
  have o₃ := o₂.append a₃
  -- the body is the one return, so the activation goes as the return does
  have hgoes : ∀ b seen stop m'', (Call.mk (.evaluate (.answer e) f) m₂ (depth + 1)).Goes settings b
      (.error stop m'') seen → (Call.mk (.activate method receiver args callers) m'
        (depth + 2)).Goes settings b (Eval.close f (.error stop m'')) seen := by
    intro b seen stop m'' hanswer
    refine .activate htakes.arity henter (hbody b seen _ (.runMethodBody_stop ?_))
    rw [htemps, hstatements]
    exact .runBody (.foldlM_stop (.inner hanswer rfl))
  cases r with
  | error e =>
      refine ⟨m₃.retire f, o₃.closed, fun b seen hevaluate => ?_⟩
      exact hgoes b seen (.fault e) m₃ (.answer_stop hevaluate)
  | ok v =>
      -- the return unwinds to this very frame, and closing it answers the value
      have hframe := o₃.frame
      obtain ⟨m₄, hnoted₄, hanswer⟩ := Call.Goes.answer (o₃.home rfl)
        (by rw [hframe]) (by rw [hframe]) hselector
      refine ⟨m₄.retire f, (o₃.append (.of_noted hnoted₄)).closed, fun b seen hevaluate => ?_⟩
      have h := hgoes b seen (.unwind v f) m₄ (hanswer b seen hevaluate)
      have hclose : Eval.close f (.error (.unwind v f) m₄) = .ok v (m₄.retire f) := if_pos rfl
      rw [hclose] at h
      exact h

/-- An activation that runs its body yields what the expression does that the body
returns. -/
theorem Memory.Yields.returning (callers : List FrameId)
    (hvalue : ∀ f m', m.Makes { receiver, method := some method, callers,
                                slots := Dictionary.putAll names args {} } f m' →
      m'.Yields settings depth (.evaluate e f) r) :
    m.Yields settings (depth + 2) (.activate method receiver args callers) r := by
  intro m' a
  obtain ⟨f, m₂, o₂, hends⟩ :=
    Call.Goes.returning htakes hselector hruns htemps hstatements a callers depth
  obtain ⟨m₃, a₃, hevaluate⟩ := (hvalue f m₂ (.prepend a o₂)).here
  obtain ⟨m₄, a₄, hgoes⟩ := hends r m₃ a₃
  exact ⟨m₄, a₄, fun b => hgoes b [] (hevaluate b)⟩

/-- The same where the expression may invoke closures. -/
theorem Memory.EndsIn.returning (callers : List FrameId)
    (hvalue : ∀ f m', m.Makes { receiver, method := some method, callers,
                                slots := Dictionary.putAll names args {} } f m' →
      m'.EndsIn settings depth (.evaluate e f) r) :
    m.EndsIn settings (depth + 2) (.activate method receiver args callers) r := by
  intro m' a
  obtain ⟨f, m₂, o₂, hends⟩ :=
    Call.Goes.returning htakes hselector hruns htemps hstatements a callers depth
  obtain ⟨m₃, a₃, hevaluate⟩ := hvalue f m₂ (.prepend a o₂) m₂ (.refl [] m₂)
  obtain ⟨m₄, a₄, hgoes⟩ := hends r m₃ a₃
  exact ⟨m₄, a₄, (hgoes 0 _ ⟨hevaluate, rfl⟩).outcome⟩

end

end Smalltalk
