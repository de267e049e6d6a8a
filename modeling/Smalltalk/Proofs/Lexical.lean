import Smalltalk.Proofs.Asks

/-!
# `Smalltalk.Proofs.Lexical`: who a block speaks for

A block that is invoked gets a frame that continues the frame it was made in, and
a frame keeps its receiver, its method and what is around it for good. So a block
speaks for the activation at the end of its chain, its home, wherever it is
invoked and from wherever.

`Heap.Rooted` says it of one frame, `Memory.Serves` of everything that can run
for one home: `self` and `super` are the receiver of the home, and a send to
super looks the method up above the class that owns the method of the home.
`super_starts_above_owner` is the result. It is about every memory that a system
can come to, between requests and in the middle of them (`Memory.LeadsTo`), and
nothing is assumed of the code.
-/

set_option autoImplicit false

namespace Smalltalk

open Relation (ReflTransGen)

/-! ### Chains -/

namespace Heap

variable {h h' : Heap}

/-- Every closure belongs to a frame. -/
def Attached (h : Heap) : Prop := ∀ c < h.closures.size, (h.closure c).frame < h.frames.size

/-- After a change only new closures have to be looked at. -/
theorem Attached.later (a : h.Attached) (l : h.Later h')
    (new : ∀ c < h'.closures.size, h.closures.size ≤ c →
      (h'.closure c).frame < h'.frames.size) : h'.Attached := by
  intro c hc
  rcases Nat.lt_or_ge c h.closures.size with hlt | hge
  · rw [l.closure c hlt]
    exact Nat.lt_of_lt_of_le (a c hlt) l.frames
  · exact new c hc hge

/-- The closure that an invocation is about belongs to a frame, even one that is not
there: it counts as empty code in the oldest frame. -/
theorem Attached.frame_lt (a : h.Attached) (c : ClosureId) (hsome : 0 < h.frames.size) :
    (h.closure c).frame < h.frames.size := by
  rcases Nat.lt_or_ge c h.closures.size with hlt | hge
  · exact a c hlt
  · rw [h.closure_of_le hge]
    exact hsome

/-- The only new closure is the one that is made. -/
theorem frame_lt_of_newClosure {x : Closure} (hx : x.frame < h.frames.size) (c : ClosureId)
    (hc : c < (h.newClosure x).1.closures.size) (hge : h.closures.size ≤ c) :
    ((h.newClosure x).1.closure c).frame < h.frames.size := by
  rw [size_newClosure] at hc
  rw [closure_newClosure, if_pos (Nat.le_antisymm (Nat.le_of_lt_succ hc) hge)]
  exact hx

/-- Every frame continues an older one or none, and every closure belongs to a frame. -/
structure Framed (h : Heap) : Prop where
  nested : ∀ f < h.frames.size, h.Nested f
  closure : ∀ c < h.closures.size, (h.closure c).frame < h.frames.size

/-- After a change only what is new has to be looked at. -/
theorem Framed.later (w : h.Framed) (l : h.Later h')
    (nested : ∀ f < h'.frames.size, h.frames.size ≤ f → h'.Nested f)
    (closure : ∀ c < h'.closures.size, h.closures.size ≤ c →
      (h'.closure c).frame < h'.frames.size) : h'.Framed where
  nested f hf := by
    rcases Nat.lt_or_ge f h.frames.size with hlt | hge
    · exact (w.nested f hlt).later l hlt
    · exact nested f hf hge
  closure := Attached.later w.closure l closure

/-- A change that makes no frame and no closure. -/
theorem Framed.change (w : h.Framed) (l : h.Later h') (frames : h'.frames.size = h.frames.size)
    (closures : h'.closures.size = h.closures.size) : h'.Framed :=
  w.later l (fun _ hf hge => absurd hf (by omega)) fun _ hc hge => absurd hc (by omega)

theorem Framed.newFrame (w : h.Framed) {x : Frame}
    (hnested : (h.newFrame x).1.Nested h.frames.size) : (h.newFrame x).1.Framed := by
  refine w.later (.newFrame h x) (fun f hf hge => ?_) fun c hc hge => absurd hc (Nat.not_lt.mpr hge)
  rw [size_newFrame] at hf
  obtain rfl : f = h.frames.size := Nat.le_antisymm (Nat.le_of_lt_succ hf) hge
  exact hnested

/-- The frame of a block continues the frame of the closure. -/
theorem nested_newBlock (w : h.Framed) (c : ClosureId) (callers : List FrameId)
    (hsome : 0 < h.frames.size) :
    (h.newFrame (h.blockFrame c callers)).1.Nested h.frames.size := by
  have hlt := Attached.frame_lt w.closure c hsome
  refine .inr ⟨(h.closure c).frame, hlt, ?_⟩
  rw [frame_newFrame, if_pos rfl, frame_newFrame, if_neg (Nat.ne_of_lt hlt)]
  exact ⟨rfl, rfl, rfl⟩

/-- A frame whose chain ends in a frame with nothing around it, and is of one receiver
and one method all along. -/
structure Rooted (h : Heap) (f : FrameId) : Prop where
  nested : h.Nested f
  ends : h.home f ∈ h.chain f ∧ (h.frame (h.home f)).outer = []
  one : ∀ g ∈ h.chain f, g ≤ f ∧ h.Nested g ∧
    (h.frame g).receiver = (h.frame f).receiver ∧ (h.frame g).method = (h.frame f).method

theorem Framed.rooted (w : h.Framed) (f : FrameId) (hf : f < h.frames.size) : h.Rooted f := by
  induction f, hf using nested_induction w.nested with
  | outermost f hf halone =>
      refine ⟨w.nested f hf, ?_, ?_⟩
      · rw [home_of_outer_nil halone]
        exact ⟨List.mem_cons_self, halone⟩
      · rw [chain_of_outer_nil halone]
        intro g hg
        obtain rfl := List.mem_singleton.mp hg
        exact ⟨Nat.le_refl _, w.nested g hf, rfl, rfl⟩
  | inner f hf d hd houter hreceiver hmethod ih =>
      obtain ⟨-, ⟨hmem, hends⟩, hone⟩ := ih
      refine ⟨w.nested f hf, ?_, ?_⟩
      · rw [home_of_outer houter, chain_of_outer houter]
        exact ⟨List.mem_cons_of_mem _ hmem, hends⟩
      · rw [chain_of_outer houter]
        intro g hg
        rcases List.mem_cons.mp hg with rfl | hg
        · exact ⟨Nat.le_refl _, w.nested g hf, rfl, rfl⟩
        · obtain ⟨hle, hnested, hr, hm⟩ := hone g hg
          exact ⟨Nat.le_of_lt (Nat.lt_of_le_of_lt hle hd), hnested, hr.trans hreceiver.symm,
            hm.trans hmethod.symm⟩

end Heap

/-- The frames that effects make are the frame of an activation and that of a block. -/
theorem Memory.Effect.framed {m m' : Memory} (e : m.Effect m') (w : m.heap.Framed) :
    m'.heap.Framed := by
  have l := e.later.heap
  cases e with
  | newClosure x inFrame =>
      exact w.later l (fun f hf hge => absurd hf (Nat.not_lt.mpr hge))
        (Heap.frame_lt_of_newClosure inFrame)
  | newHome x alone =>
      refine w.newFrame (.inl ?_)
      rw [Heap.frame_newFrame, if_pos rfl]
      exact alone
  | newBlock c callers called => exact w.newFrame (Heap.nested_newBlock w c callers called)
  | note line => exact (m.heap_note line).symm ▸ w
  | declare f key name v => exact w.change l (Heap.size_declare ..) rfl
  | retire f => exact w.change l (Heap.size_retire ..) rfl
  | _ => exact w.change l rfl rfl

theorem Memory.Effects.framed {m m' : Memory} (e : m.Effects m') (w : m.heap.Framed) :
    m'.heap.Framed :=
  Moves.preserve (P := fun m => m.heap.Framed) e (fun _ _ e => e.framed) w

/-! ### Homes -/

/-- A frame is the activation of a method on a receiver. -/
structure Heap.Activation (h : Heap) (home : FrameId) (method : Method) (receiver : Value) :
    Prop where
  made : home < h.frames.size
  alone : (h.frame home).outer = []
  method : (h.frame home).method = some method
  receiver : (h.frame home).receiver = receiver

namespace Heap

variable {h h' : Heap} {home f : FrameId} {method : Method} {receiver : Value}

/-- An activation stays one of the same method on the same receiver. -/
theorem Activation.later (a : h.Activation home method receiver) (l : h.Later h') :
    h'.Activation home method receiver := by
  have lhome := l.frame home a.made
  exact ⟨Nat.lt_of_lt_of_le a.made l.frames, lhome.outer.trans a.alone,
    lhome.method.trans a.method, lhome.receiver.trans a.receiver⟩

/-- A frame is of the receiver and the method of its home. -/
theorem Activation.frame (a : h.Activation home method receiver) (w : h.Framed)
    (hf : f < h.frames.size) (hhome : h.home f = home) :
    (h.frame f).receiver = receiver ∧ (h.frame f).method = some method := by
  subst hhome
  obtain ⟨-, ⟨hmem, -⟩, hone⟩ := w.rooted f hf
  obtain ⟨-, -, hreceiver, hmethod⟩ := hone _ hmem
  exact ⟨hreceiver.symm.trans a.receiver, hmethod.symm.trans a.method⟩

theorem activation_newFrame (h : Heap) {x : Frame} (alone : x.outer = [])
    (hmethod : x.method = some method) :
    (h.newFrame x).1.Activation h.frames.size method x.receiver := by
  refine ⟨h.lt_newFrame x, ?_, ?_, ?_⟩ <;> rw [frame_newFrame, if_pos rfl]
  · exact alone
  · exact hmethod

end Heap

/-! ### Sends to super -/

namespace Eval

/-- Sends a message to a receiver, with the look-up starting from a given class or
metaclass: arguments from left to right, look-up, activation. -/
def sendFrom (rec : Task → Eval Value) (frame : FrameId) (start : Option Behavior)
    (receiver : Value) (selector : Json) (args : List Node) : Eval Value := do
  let args ← args.mapM fun arg => rec (.evaluate arg frame)
  match ← methodFrom selector start with
  | none => notUnderstood receiver selector
  | some method =>
    note fun m => (m.methodWord method).map fun found =>
      "treetalk.interpreter: " ++ m.inspect receiver ++ " #" ++ selector.plain ++ " -> " ++ found
    rec (.activate method receiver args (← callersFrom frame))

variable {m : Memory} {rec : Task → Eval Value} {f : FrameId}

theorem startOf_super {method : Method} (h : (m.heap.frame f).method = some method) (v : Value) :
    startOf f true v m = .ok (m.registry.superclass? method.owner) m := by
  unfold startOf
  rw [if_pos rfl, bind_of_ok (ask_of_eq h)]
  rfl

/-- Only the owner of the method of the frame decides where a send to super starts. The
arguments are evaluated before it is asked for, but change neither. -/
theorem sendMessage_super (hrec : Does.Tasks rec) (hf : f < m.heap.frames.size)
    {method : Method} {receiver : Value} (hmethod : (m.heap.frame f).method = some method)
    (hsuper : rec (.evaluate .super f) m = .ok receiver m) (selector : Json) (args : List Node) :
    sendMessage rec f .super selector args m
      = sendFrom rec f (m.registry.superclass? method.owner) receiver selector args m := by
  unfold sendMessage sendFrom
  rw [bind_of_ok hsuper]
  cases hargs : (args.mapM fun arg => rec (.evaluate arg f)) m with
  | error stop m₁ => rw [bind_of_error hargs, bind_of_error hargs]
  | ok vs m₁ =>
      have l := Memory.Effects.later ((Does.evaluateAll hrec hf args).of_ok hargs)
      have hmethod₁ : (m₁.heap.frame f).method = some method :=
        (l.heap.frame f hf).method.trans hmethod
      have hstart : startOf f Node.super.isSuper receiver m₁
          = .ok (m.registry.superclass? method.owner) m₁ :=
        l.registry ▸ startOf_super hmethod₁ receiver
      rw [bind_of_ok hargs, bind_of_ok hargs]
      exact bind_of_ok hstart

end Eval

/-! ### What is evaluated for a home -/

/-- What runs on behalf of a home: in its own frame and in those of its blocks, at
whatever depth they are nested and whoever invokes them. -/
structure Memory.Serves (settings : Settings) (m : Memory) (home : FrameId) (method : Method)
    (receiver : Value) : Prop where
  /-- `self` is the receiver of the home. -/
  self : ∀ f < m.heap.frames.size, m.heap.home f = home → ∀ depth,
    Eval.run settings (depth + 1) (.evaluate .self f) m = .ok receiver m
  /-- So is `super`. -/
  super : ∀ f < m.heap.frames.size, m.heap.home f = home → ∀ depth,
    Eval.run settings (depth + 1) (.evaluate .super f) m = .ok receiver m
  /-- A send to super looks the method up above the owner of the method. -/
  superSend : ∀ f < m.heap.frames.size, m.heap.home f = home → ∀ depth selector args,
    Eval.run settings (depth + 2) (.evaluate (.send .super selector args) f) m
      = Eval.sendFrom (Eval.run settings (depth + 1)) f (m.registry.superclass? method.owner)
          receiver selector args m
  /-- A block in the code makes a closure that is of the same home. -/
  block : ∀ f < m.heap.frames.size, m.heap.home f = home →
    ∀ depth params temps statements, ∃ c m',
      Eval.run settings (depth + 1) (.evaluate (.block params temps statements) f) m
          = .ok (.closure c) m' ∧
        c < m'.heap.closures.size ∧ m'.heap.home (m'.heap.closure c).frame = home
  /-- A closure of the home runs in a frame of the same home, in which the variables are
  those around the closure and not around the caller. -/
  invoke : ∀ c < m.heap.closures.size, m.heap.home (m.heap.closure c).frame = home →
    ∀ caller < m.heap.frames.size, ∀ args depth,
      ∀ c' ∈ (Call.mk (.invoke c args caller) m depth).calls settings,
        (∃ statement ∈ (m.heap.closure c).statements,
          c'.task = .evaluate statement m.heap.frames.size) ∧
        c'.memory.heap.home m.heap.frames.size = home ∧
        c'.memory.heap.chain m.heap.frames.size
          = m.heap.frames.size :: m.heap.chain (m.heap.closure c).frame

theorem Heap.Activation.serves {settings : Settings} {m : Memory} {home : FrameId}
    {method : Method} {receiver : Value} (a : m.heap.Activation home method receiver)
    (w : m.heap.Framed) : m.Serves settings home method receiver := by
  have hreceiver : ∀ f < m.heap.frames.size, m.heap.home f = home →
      (m.heap.frame f).receiver = receiver := fun f hf hhome => (a.frame w hf hhome).1
  refine ⟨fun f hf hhome depth => ?_, fun f hf hhome depth => ?_,
    fun f hf hhome depth selector args => ?_, fun f hf hhome depth params temps statements => ?_,
    fun c hc hhome caller hcaller args depth c' hc' => ?_⟩
  · rw [← hreceiver f hf hhome]
    rfl
  · rw [← hreceiver f hf hhome]
    rfl
  · refine Eval.sendMessage_super (Eval.Does.run settings _) hf (a.frame w hf hhome).2 ?_ _ _
    rw [← hreceiver f hf hhome]
    rfl
  · refine ⟨m.heap.closures.size, _, rfl, ?_, ?_⟩
    · show m.heap.closures.size < (m.heap.newClosure _).1.closures.size
      rw [Heap.size_newClosure]
      exact Nat.lt_succ_self _
    · show m.heap.home ((m.heap.newClosure _).1.closure m.heap.closures.size).frame = home
      rw [Heap.closure_newClosure, if_pos rfl]
      exact hhome
  · have hwithin : Task.Within m (.invoke c args caller) := hcaller
    have hentered := Call.effects_of_mem_calls hwithin hc'
    -- what entering has done after making the frame leaves the frames around it alone
    have hframe : (c'.memory.heap.frame m.heap.frames.size).outer
        = m.heap.chain (m.heap.closure c).frame := by
      have l := (Memory.Effects.later hentered).heap.frame m.heap.frames.size (Heap.lt_newFrame ..)
      refine l.outer.trans ?_
      show ((m.heap.newFrame _).1.frame m.heap.frames.size).outer = _
      rw [Heap.frame_newFrame, if_pos rfl]
      rfl
    refine ⟨Call.mayAsk_of_mem_calls hc', ?_, ?_⟩
    · unfold Heap.home
      rw [hframe]
      unfold Heap.chain
      rw [List.getLastD_cons]
      exact hhome
    · unfold Heap.chain at hframe ⊢
      rw [hframe]

/-! ### Runs -/

/-- The calls that come up while a call is made, the call itself included. -/
abbrev Call.Involves (settings : Settings) : Call → Call → Prop :=
  ReflTransGen fun c c' => c' ∈ c.calls settings

theorem Call.Involves.effects {settings : Settings} {c c' : Call} (h : c.Involves settings c')
    (hwithin : c.task.Within c.memory) :
    c.memory.Effects c'.memory ∧ c'.task.Within c'.memory := by
  induction h with
  | refl => exact ⟨.refl, hwithin⟩
  | tail _ hc ih =>
      obtain ⟨heffects, hwithin⟩ := ih
      have hentered := Call.effects_of_mem_calls hwithin hc
      exact ⟨heffects.trans ((Task.effects_entered hwithin).trans hentered),
        Call.within_of_mem_calls hwithin hc⟩

/-- What is in progress while a query is evaluated, the call of the query involves. -/
theorem InProgress.involves {settings : Settings} {m : Memory} {q : Query} {stack : List Call}
    (h : InProgress settings m q stack) : ∀ c outer, stack = c :: outer →
      ∃ c₀, q.call? settings m = some c₀ ∧ c₀.Involves settings c := by
  induction h with
  | first h =>
      intro c outer hstack
      cases hstack
      exact ⟨_, h, .refl⟩
  | inner _ hc ih =>
      intro c outer hstack
      cases hstack
      obtain ⟨c₀, hcall, hinvolves⟩ := ih _ _ rfl
      exact ⟨c₀, hcall, hinvolves.tail hc⟩

/-- What a system can come to: by commands, by requests of every kind, by single tasks
in frames that are there, and in the middle of these. The journal may be turned on and
off. A frame that is made from outside has nothing around it. -/
inductive Memory.LeadsTo (m₀ : Memory) : Memory → Prop where
  | refl : LeadsTo m₀ m₀
  | command {m : Memory} (h : LeadsTo m₀ m) (command : Command) : LeadsTo m₀ (command.run m)
  | evaluateIn {m : Memory} (h : LeadsTo m₀ m) (settings : Settings) (code : Node)
      (receiver : Value) (slots : List (Json × Value)) (active : Bool) :
    LeadsTo m₀ (left (Eval.evaluateIn settings code receiver slots active m))
  | tryPrimitive {m : Memory} (h : LeadsTo m₀ m) (settings : Settings) (number : Json)
      (receiver : Value) (args : List Value) :
    LeadsTo m₀ (left (Eval.tryPrimitive settings number receiver args m))
  | frame {m : Memory} (h : LeadsTo m₀ m) (x : Frame) (alone : x.outer = []) :
    LeadsTo m₀ { m with heap := (m.heap.newFrame x).1 }
  | journal {m : Memory} (h : LeadsTo m₀ m) (recording : Bool) :
    LeadsTo m₀ { m with journal := { m.journal with recording } }
  | during {m : Memory} (h : LeadsTo m₀ m) {settings : Settings} {task : Task} {depth : Nat}
      (hwithin : task.Within m) {c : Call} (hc : (Call.mk task m depth).Involves settings c) :
    LeadsTo m₀ c.memory
  | after {m : Memory} (h : LeadsTo m₀ m) {settings : Settings} {task : Task} {depth : Nat}
      (hwithin : task.Within m) {c : Call} (hc : (Call.mk task m depth).Involves settings c) :
    LeadsTo m₀ (left (c.outcome settings))

/-- One move of a system: a revision of the classes, an effect, or the journal is turned
on or off. -/
inductive Memory.Move (m : Memory) : Memory → Prop where
  | revision {m' : Memory} (r : m.Revision (fun _ => True) m') : Move m m'
  | effect {m' : Memory} (e : m.Effect m') : Move m m'
  | journal (recording : Bool) : Move m { m with journal := { m.journal with recording } }

/-- Any number of moves. -/
abbrev Memory.Movements : Memory → Memory → Prop := ReflTransGen Memory.Move

namespace Memory

variable {m m' : Memory}

theorem Revisions.movements (h : m.Revisions (fun _ => True) m') : m.Movements m' :=
  ReflTransGen.mono (fun _ _ r => .revision r) _ _ h

theorem Effects.movements (h : m.Effects m') : m.Movements m' :=
  ReflTransGen.mono (fun _ _ e => .effect e) _ _ h

end Memory

/-- One case for each command. -/
theorem Command.movements (m : Memory) (command : Command) : m.Movements (command.run m) := by
  cases command with
  | define name superclass instanceVariables indexable =>
      exact Memory.Revisions.movements (Change.Revises.define name superclass instanceVariables
        indexable)
  | compile owner code protocol =>
      exact Memory.Revisions.movements (Change.Revises.compile owner (fun _ _ => trivial) protocol)
  | load image =>
      exact Memory.Revisions.movements (Change.Revises.load fun _ _ _ _ _ _ => trivial)
  | setGlobal name value => exact Memory.Effects.movements (Eval.Does.assignGlobal name value)
  | place code => exact Memory.Revisions.movements (Change.Revises.place code)
  | makeText s => exact Memory.Effects.movements (.single (.newText s))
  | makeArray elements => exact Memory.Effects.movements (.single (.newArray elements))
  | evaluate settings query => exact Memory.Effects.movements (Eval.Does.query settings query)

/-- One case for each way to go on. -/
theorem Memory.LeadsTo.movements {m m' : Memory} (h : m.LeadsTo m') : m.Movements m' := by
  induction h with
  | refl => exact .refl
  | command _ command ih => exact ih.trans (command.movements _)
  | evaluateIn _ settings code receiver slots active ih =>
      exact ih.trans (Effects.movements (Eval.Does.evaluateIn settings code receiver slots active))
  | tryPrimitive _ settings number receiver args ih =>
      exact ih.trans (Effects.movements (Eval.Does.tryPrimitive settings number receiver args))
  | frame _ x alone ih => exact ih.tail (.effect (.newHome x alone))
  | journal _ recording ih => exact ih.tail (.journal recording)
  | during _ hwithin hc ih => exact ih.trans (Effects.movements (hc.effects hwithin).1)
  | after _ hwithin hc ih =>
      obtain ⟨heffects, hwithin'⟩ := hc.effects hwithin
      exact ih.trans (Effects.movements (heffects.trans (Eval.Does.run _ _ _ _ hwithin')))

/-- What holds between any two memories of a run: everything is still there, and what is
sound of the frames and of the classes has stayed so. -/
structure Memory.Carries (m m' : Memory) : Prop where
  later : m.heap.Later m'.heap
  framed : m.heap.Framed → m'.heap.Framed
  owned : m.registry.Owned → m'.registry.Owned
  ordered : m.registry.Ordered → m'.registry.Ordered

namespace Memory

variable {m m' m'' : Memory}

theorem Carries.trans (h : m.Carries m') (h' : m'.Carries m'') : m.Carries m'' :=
  ⟨h.later.trans h'.later, fun w => h'.framed (h.framed w), fun o => h'.owned (h.owned o),
    fun o => h'.ordered (h.ordered o)⟩

theorem Carries.refl (m : Memory) : m.Carries m := ⟨.refl _, id, id, id⟩

theorem Carries.of_edit (h : m.Edit m') : m.Carries m' := by
  have l : m.heap.Later m'.heap := h.heap ▸ .texts _ _
  refine ⟨l, fun w => w.change l ?_ ?_, h.owned, h.ordered⟩ <;> rw [h.heap]

theorem Carries.of_edits (h : m.Edits m') : m.Carries m' :=
  Moves.preserve (P := fun m' => m.Carries m') h (fun _ _ e hm => hm.trans (.of_edit e))
    (.refl m)

/-- One case for each move. -/
theorem Carries.of_move (h : m.Move m') : m.Carries m' := by
  cases h with
  | revision r => exact .of_edit r.edit
  | effect e =>
      have l := e.later
      exact ⟨l.heap, Effects.framed (.single e), fun o => l.registry ▸ o, fun o => l.registry ▸ o⟩
  | journal recording => exact ⟨.refl _, id, id, id⟩

theorem LeadsTo.carries (h : m.LeadsTo m') : m.Carries m' :=
  Moves.preserve (P := fun m' => m.Carries m') h.movements
    (fun _ _ e hm => hm.trans (.of_move e)) (.refl m)

/-- What holds of every memory that the kernel leads to. -/
theorem LeadsTo.sound (h : Kernel.memory.LeadsTo m) :
    m.heap.Framed ∧ m.registry.Owned ∧ m.registry.Ordered := by
  have hempty : Heap.Framed ({} : Memory).heap :=
    ⟨fun _ hf => absurd hf (Nat.not_lt_zero _), fun _ hc => absurd hc (Nat.not_lt_zero _)⟩
  exact ⟨h.carries.framed ((Carries.of_edits Kernel.memory_edits).framed hempty),
    h.carries.owned (Edits.owned Kernel.memory_edits),
    h.carries.ordered (Edits.ordered Kernel.memory_edits)⟩

end Memory

/-! ### The result -/

/-- A method that is found belongs to the class or metaclass that it is found in. -/
theorem Registry.Owned.of_lookup {r : Registry} (o : r.Owned) {key : Key} {b : Behavior}
    {method : Method} (h : r.lookup? key b = some method) :
    method.owner ∈ r.line b ∧ (r.table method.owner).methods.find? key = some method := by
  obtain ⟨c, hc, hfind⟩ := List.exists_of_findSome?_eq_some h
  obtain rfl := o c key method hfind
  exact ⟨hc, hfind⟩

/-- The calls of an activation are made from its frame, which is the activation of the
method on the receiver. -/
theorem Call.of_mem_calls_activate {settings : Settings} {m : Memory} {method : Method}
    {receiver : Value} {args : List Value} {callers : List FrameId} {depth : Nat} {c : Call}
    (hc : c ∈ (Call.mk (.activate method receiver args callers) m depth).calls settings) :
    c.frame? = some m.heap.frames.size ∧
      c.memory.heap.Activation m.heap.frames.size method receiver := by
  constructor
  · unfold Call.frame?
    rcases Call.mayAsk_of_mem_calls hc with ⟨statement, -, heq⟩ | ⟨closure, args, heq⟩ <;>
      rw [heq]
  · have hwithin : Task.Within m (.activate method receiver args callers) := trivial
    have hentered := Call.effects_of_mem_calls hwithin hc
    exact (Heap.activation_newFrame m.heap rfl rfl).later (Memory.Effects.later hentered).heap

namespace Query

variable {settings : Settings} {m : Memory} {q : Query} {receiver : Value} {c : Call}

theorem of_classOf {b : Behavior} {m' : Memory} (h : Eval.classOf receiver m = .ok b m') :
    m.classOf? receiver = some b ∧ m' = m := by
  have hget : (get : Eval Memory) m = .ok m m := rfl
  unfold Eval.classOf at h
  rw [bind_of_ok hget] at h
  cases hclass : m.classOf? receiver with
  | some b' =>
      rw [hclass] at h
      cases h
      exact ⟨rfl, rfl⟩
  | none =>
      rw [hclass] at h
      cases h

/-- A method tree that is executed is owned by the class of the receiver. -/
theorem owner_of_executeNode {node : Node} {args : List Value}
    (hc : (executeNode node receiver args).call? settings m = some c) :
    ∃ method : Method, c.task = .activate method receiver args [] ∧ method.toNode = node ∧
      m.classOf? receiver = some method.owner := by
  have hprepare := prepare_of_call? hc
  cases node with
  | method selector params temps statements primitive =>
      obtain ⟨owner, m₁, hclass, hpure⟩ := of_bind_ok hprepare
      obtain ⟨hclass, rfl⟩ := of_classOf hclass
      injection hpure with htask
      exact ⟨_, htask.symm, rfl, hclass⟩
  | _ => cases hprepare

/-- Workspace code runs in an activation that is owned by the class of the receiver. -/
theorem owner_of_doit {code : Node} (hc : (doit code receiver).call? settings m = some c) :
    ∃ owner, c.task = .evaluate code m.heap.frames.size ∧ m.classOf? receiver = some owner ∧
      c.memory.heap.Activation m.heap.frames.size (Eval.workspaceMethod owner) receiver := by
  obtain ⟨f, m₁, henter, hpure⟩ := of_bind_ok (prepare_of_call? hc)
  obtain ⟨owner, m₂, hclass, hmake⟩ := of_bind_ok henter
  obtain ⟨hclass, rfl⟩ := of_classOf hclass
  cases hmake
  injection hpure with htask hmemory
  refine ⟨owner, htask.symm, hclass, ?_⟩
  rw [← hmemory]
  exact Heap.activation_newFrame _ rfl rfl

end Query

/-- The superclass of a metaclass is the metaclass of the superclass, and for a root the
class that is registered as `Class`. -/
theorem Registry.superclass?_metaclass (r : Registry) (id : ClassId) :
    r.superclass? ⟨id, true⟩ = match r.superclass? ⟨id, false⟩ with
      | some s => some s.metaclass
      | none => (r.find? "Class").map fun c => ⟨c, false⟩ := by
  unfold superclass?
  cases (r.entry id).ancestors <;> rfl

/-- How chains of frames decide what `self`, `super` and a send to super mean. -/
structure Memory.Lexical (settings : Settings) (m : Memory) : Prop where
  /-- Every chain is finite, ends in a frame with nothing around it, and is of one receiver
  and one method. -/
  rooted : ∀ f < m.heap.frames.size, m.heap.Rooted f
  /-- A method is installed only in the class or metaclass that owns it, -/
  owned : ∀ b key method, (m.registry.table b).methods.find? key = some method →
    method.owner = b
  /-- and is found there from everything below it. -/
  found : ∀ key b method, m.registry.lookup? key b = some method →
    method.owner ∈ m.registry.line b ∧
      (m.registry.table method.owner).methods.find? key = some method
  /-- Above the owner comes its superclass, with the rest of the line; -/
  above : ∀ b, m.registry.line b = b :: ((m.registry.superclass? b).map m.registry.line).getD []
  /-- on the class side that is the metaclass of the superclass, or `Class`. -/
  classSide : ∀ id, m.registry.superclass? ⟨id, true⟩ = match m.registry.superclass? ⟨id, false⟩ with
    | some s => some s.metaclass
    | none => (m.registry.find? "Class").map fun c => ⟨c, false⟩
  /-- An activation makes its frame and all its calls from there. -/
  activate : ∀ method receiver args callers depth,
    ∀ c ∈ (Call.mk (.activate method receiver args callers) m depth).calls settings,
      m.LeadsTo c.memory ∧ c.frame? = some m.heap.frames.size ∧
        c.memory.heap.Activation m.heap.frames.size method receiver
  /-- A method tree that is executed is owned by the class of the receiver, -/
  executeNode : ∀ node receiver args c,
    (Query.executeNode node receiver args).call? settings m = some c →
      ∃ method : Method, c.task = .activate method receiver args [] ∧ method.toNode = node ∧
        m.classOf? receiver = some method.owner
  /-- and so is the activation of workspace code. -/
  doit : ∀ code receiver c, (Query.doit code receiver).call? settings m = some c →
    ∃ owner, c.task = .evaluate code m.heap.frames.size ∧ m.classOf? receiver = some owner ∧
      c.memory.heap.Activation m.heap.frames.size (Eval.workspaceMethod owner) receiver
  /-- Whatever comes later, the code of an activation and of all blocks in it is
  evaluated for its receiver and from its method. -/
  serves : ∀ home method receiver, m.heap.Activation home method receiver →
    ∀ m', m.LeadsTo m' → m'.Serves settings home method receiver

/-- In every memory that a system can come to, a block means by `self` and `super` the
receiver of the activation that it was written in, and a send to super starts above the
owner of its method: neither the class of the receiver nor the invoker matters. -/
theorem super_starts_above_owner {settings : Settings} {m : Memory}
    (h : Kernel.memory.LeadsTo m) : m.Lexical settings := by
  obtain ⟨framed, owned, ordered⟩ := h.sound
  exact {
    rooted := framed.rooted
    owned := owned
    found := fun _ _ _ => owned.of_lookup
    above := ordered.line_eq
    classSide := m.registry.superclass?_metaclass
    activate := fun method receiver args callers depth c hc => by
      have hwithin : Task.Within m (.activate method receiver args callers) := trivial
      exact ⟨.during .refl hwithin (.single hc), Call.of_mem_calls_activate hc⟩
    executeNode := fun _ _ _ _ => Query.owner_of_executeNode
    doit := fun _ _ _ => Query.owner_of_doit
    serves := fun _ _ _ a m' h' =>
      (a.later h'.carries.later).serves (h'.carries.framed framed) }

/-- A method that runs a block in a block. -/
def nestingBlocks : Method where
  selector := .str "nested"
  params := []
  temps := []
  statements := [.send (.block [] [] [.send (.block [] [] [.self]) (.str "value") []])
    (.str "value") []]
  primitive := .null
  owner := ⟨0, false⟩

/-- Of the five frames that it takes, the last is that of the inner block, and its chain
leaves out the activations of `value` that are in between. -/
theorem chain_of_nested_block : ∃ m : Memory, m.Lexical {} ∧ m.heap.frames.size = 5 ∧
    m.heap.chain 4 = [4, 2, 0] := by
  have h : Kernel.memory.LeadsTo
      (Command.run Kernel.memory (.evaluate {} (.execute nestingBlocks .nil []))) :=
    .command .refl _
  exact ⟨_, super_starts_above_owner h, by decide +kernel, by decide +kernel⟩

end Smalltalk
