import Smalltalk.Proofs.Depth
import Smalltalk.Proofs.Direct
import Smalltalk.Proofs.Failure

/-!
# `Smalltalk.Proofs.Workspace`: workspace code is the body of a method

Workspace code answers the value of its last statement, and a method that returns nothing
answers its receiver. So workspace code should come to the same as a method without
parameters that returns the value of the last statement. There are two ways to evaluate
these. They differ in the frame: that of workspace code remembers no code
(`Eval.workspaceMethod`). They differ in the end: workspace code has its value when the
last statement is done, and the method unwinds to its own activation, which has to be in
progress still. And the return is one more task around the last statement, for which the
method needs one more level.

Memories are compared by `Likeness.bodies`: all is the same but for the code that the frame
of one activation, and those of the blocks made in it, remember. `Likeness.awaiting` says of
one memory that the activation stays in progress.

## Main results

* `Likeness.Outcomes.close_returnFrom`: it is the same to end a frame with a value, and with
  a return of the value to the frame
* `Workspace.outcomes_of_start`: the two calls end alike where the depth does for the
  statements before the last
* `workspace_is_method`: the two queries do, and what runs later does
-/

set_option autoImplicit false

namespace Smalltalk

/-! ### Frames without code -/

/-- A method without its code. -/
def Method.heading (method : Method) : Method := { method with temps := [], statements := [] }

/-- A frame that has forgotten the code of its method, if that runs in the frame `n`. -/
def Frame.bodiless (n f : FrameId) (x : Frame) : Frame :=
  { x with method := if x.outer.getLastD f = n then x.method.map Method.heading else x.method }

namespace Frame

variable {n f : FrameId} {x x' : Frame}

/-- A block has the home of the frame that it was made in. -/
theorem block_bodiless (n f g : FrameId) (x : Frame) (callers : List FrameId) :
    (x.block g callers).bodiless n f = (x.bodiless n g).block g callers := by
  unfold bodiless block
  simp only [List.getLastD_cons]

theorem bodiless_of_home (h : x.outer = []) :
    x.bodiless n n = { x with method := x.method.map Method.heading } := by
  have hhome : x.outer.getLastD n = n := by
    rw [h]
    rfl
  unfold bodiless
  rw [if_pos hhome]

/-- Nothing is forgotten that is not code. -/
theorem method_bodiless {α : Type} (read : Method → α)
    (hread : ∀ method, read method.heading = read method) (n f : FrameId) (x : Frame) :
    (x.bodiless n f).method.map read = x.method.map read := by
  unfold bodiless
  split
  · rw [Option.map_map]
    exact congrArg (fun g => x.method.map g) (funext hread)
  · rfl

/-- What is read of the frames without code is the same in both. -/
theorem read_bodiless {α : Type} (read : Frame → α) (hread : ∀ x, read (bodiless n f x) = read x)
    (h : x.bodiless n f = x'.bodiless n f) : read x = read x' := by
  rw [← hread x, h, hread x']

theorem like_of_bodiless (h : x.bodiless n f = x'.bodiless n f) : x.Like x' where
  receiver := read_bodiless Frame.receiver (fun _ => rfl) h
  outer := read_bodiless Frame.outer (fun _ => rfl) h
  callers := read_bodiless Frame.callers (fun _ => rfl) h
  isBlock := read_bodiless Frame.isBlock (fun _ => rfl) h
  slots := read_bodiless Frame.slots (fun _ => rfl) h
  active := read_bodiless Frame.active (fun _ => rfl) h
  selector := read_bodiless (fun x => x.method.map Method.selector)
    (method_bodiless Method.selector (fun _ => rfl) n f) h
  owner := read_bodiless (fun x => x.method.map Method.owner)
    (method_bodiless Method.owner (fun _ => rfl) n f) h

end Frame

/-- The activation of a method in progress: a return can unwind to it. -/
structure Frame.Awaits (x : Frame) (method : Method) : Prop where
  active : x.active = true
  outer : x.outer = []
  method : x.method = some method

namespace Likeness

/-- Frames that are the same but for the code of a method that runs in the frame `n`. -/
def bodies (n : FrameId) : Likeness where
  base := 0
  Frames f x x' := x.bodiless n f = x'.bodiless n f
  like := Frame.like_of_bodiless
  declare key name v h := congrArg (fun y => { y with slots := y.slots.put key name v }) h
  retire _ h := congrArg (fun y => { y with active := false }) h
  home _ _ := rfl
  block callers _ h := by
    rw [Frame.block_bodiless, h, Frame.block_bodiless]

/-- Frames that are the same but for the code of the method whose frame comes next. -/
abbrev after (m : Memory) : Likeness := bodies m.heap.frames.size

/-- The same frames, of which `n` goes on waiting for a return: those made after it are the
only ones that are closed. -/
def awaiting (n : FrameId) (method : Method) : Likeness where
  base := n + 1
  Frames f x x' := x = x' ∧ (f = n → x.Awaits method)
  like h := h.1 ▸ ⟨rfl, rfl, rfl, rfl, rfl, rfl, rfl, rfl⟩
  declare key name v h :=
    ⟨congrArg (fun y => { y with slots := y.slots.put key name v }) h.1,
      fun hf => ⟨(h.2 hf).active, (h.2 hf).outer, (h.2 hf).method⟩⟩
  retire hle h :=
    ⟨congrArg (fun y => { y with active := false }) h.1, fun hf => absurd hf (Nat.ne_of_gt hle)⟩
  home hle _ := ⟨rfl, fun hf => absurd hf (Nat.ne_of_gt hle)⟩
  block {_ g _ _} callers hle h :=
    ⟨congrArg (fun y => Frame.block y g callers) h.1, fun hf => absurd hf (Nat.ne_of_gt hle)⟩

variable {L : Likeness} {m m' m'' : Memory}

/-- A line of the journal does not matter. -/
theorem Memories.noted (h : L.Memories m m') (n : m'.Noted m'') : L.Memories m m'' := by
  refine h.change rfl (congrArg Heap.frames n.heap) ?_
  rw [h.rest]
  unfold Memory.frameless
  simp only [n.heap, n.registry, n.globals, n.recording]

/-- An activation that is about to start waits for a return. -/
theorem awaiting_withFrame {x : Frame} {method : Method} (hx : x.Awaits method) :
    (awaiting m.heap.frames.size method).Memories (m.withFrame x) (m.withFrame x) where
  rest := rfl
  size := rfl
  room := Nat.le_of_eq (Heap.size_newFrame m.heap x).symm
  frame f := by
    refine ⟨rfl, fun hf => ?_⟩
    show ((m.heap.newFrame x).1.frame f).Awaits method
    rw [Heap.frame_newFrame, if_pos hf]
    exact hx

end Likeness

/-! ### Depth -/

section
variable {α β : Type} {m m' : Memory}

theorem bind_of_eq {x x' : Eval α} {f : α → Eval β} (h : x m = x' m) :
    (x >>= f) m = (x' >>= f) m := by
  show EStateM.bind x f m = EStateM.bind x' f m
  unfold EStateM.bind
  rw [h]

theorem Eval.TooDeep.bind {x : Eval α} (h : TooDeep (x m)) (f : α → Eval β) :
    TooDeep ((x >>= f) m) := by
  obtain ⟨m₁, hx⟩ := h
  exact ⟨m₁, bind_of_error hx⟩

/-- Closing a frame neither makes a task too deep nor keeps it from being that. -/
theorem Eval.tooDeep_close_iff {f : FrameId} {r : Outcome Value} :
    TooDeep (close f r) ↔ TooDeep r := by
  constructor
  · rintro ⟨m₁, h⟩
    cases r with
    | ok v m₂ => cases h
    | error stop m₂ =>
        cases stop with
        | tooDeep => exact ⟨m₂, rfl⟩
        | unwind v home =>
            simp only [close] at h
            split at h <;> cases h
        | fault => cases h
        | unfinished => cases h
  · rintro ⟨m₁, rfl⟩
    exact ⟨_, rfl⟩

theorem Likeness.Outcomes.tooDeep_iff {L : Likeness} {r r' : Outcome α} (h : L.Outcomes r r') :
    Eval.TooDeep r ↔ Eval.TooDeep r' := by
  cases h with
  | ok a h => constructor <;> exact fun ⟨_, hdeep⟩ => nomatch hdeep
  | error stop h =>
      constructor <;>
        · rintro ⟨_, hdeep⟩
          cases hdeep
          exact ⟨_, rfl⟩

/-- A body does its last statement last, and has the value of that. -/
theorem Eval.runBody_concat (rec : Task → Eval Value) (f : FrameId) (temps : List Json)
    (statements : List Node) (last : Node) : runBody rec f temps (statements ++ [last])
      = runBody rec f temps statements >>= fun _ => rec (.evaluate last f) := by
  unfold runBody
  rw [bind_assoc]
  refine congrArg (_ >>= ·) (funext fun _ => ?_)
  rw [List.foldlM_append]
  simp only [List.foldlM_cons, List.foldlM_nil, bind_pure]

/-- One more level changes nothing for a body that has had enough of them. -/
theorem Eval.runBody_succ_congr {settings : Settings} {depth : Nat} {f : FrameId}
    {temps : List Json} {statements : List Node}
    (h : ¬ TooDeep (runBody (run settings depth) f temps statements m)) :
    runBody (run settings (depth + 1)) f temps statements m
      = runBody (run settings depth) f temps statements m := by
  have hfollows := (Planned.runBody f temps statements).follows
  rw [hfollows] at h ⊢
  rw [hfollows (run settings depth)]
  exact Plan.follow_congr _ (fun task m => run_succ_congr settings depth task m) h

/-- The depth in the settings does not matter to a call, which has its own. -/
theorem Call.outcome_setDepth {settings : Settings} (depth : Nat) (c : Call) :
    c.outcome { settings with depth } = c.outcome settings := by
  unfold outcome
  rw [Eval.run_setDepth]

end

/-! ### The last statement -/

namespace Likeness

variable {n : FrameId} {m m' : Memory}

/-- It is the same to end a frame with a value, and with a return of the value to the
frame. -/
theorem Outcomes.close_returnFrom {act : Eval Value} {method : Method} {name : String}
    (hbodies : (bodies n).Unnoticed act) (hawaiting : (awaiting n method).Unnoticed act)
    (hselector : method.selector = .str name) (h : (bodies n).Memories m m')
    (h' : (awaiting n method).Memories m' m') (receiver : Value) :
    (bodies n).Outcomes (Eval.close n (act m))
      (Eval.close n (((act >>= Eval.returnFrom n) >>= fun _ => pure receiver) m')) := by
  have hsame := hbodies m m' h
  have hawake := hawaiting m' m' h'
  cases hact : act m with
  | error stop m₁ =>
      -- a stop of the statement is one of the method
      rw [hact] at hsame
      obtain ⟨m₁', hact', -⟩ := hsame.of_error
      rw [bind_of_error (bind_of_error hact'), ← hact']
      exact hsame.close (Nat.zero_le n)
  | ok v m₁ =>
      rw [hact] at hsame
      obtain ⟨m₁', hact', hsame⟩ := hsame.of_ok
      rw [hact'] at hawake
      cases hawake with
      | ok _ hawake =>
          -- the value is returned to an activation that is still in progress
          obtain ⟨hactive, houter, hmethod⟩ := (hawake.frame n).2 rfl
          have hhome : m₁'.heap.home n = n := by
            unfold Heap.home
            rw [houter]
            rfl
          obtain ⟨m₂', hnoted, hreturn⟩ :=
            Eval.returnFrom_unwinds hhome hactive hmethod hselector v
          rw [bind_of_error ((bind_of_ok hact').trans hreturn)]
          show (bodies n).Outcomes _ (if n = n then _ else _)
          rw [if_pos rfl]
          exact .ok v ((hsame.noted hnoted).retire (Nat.zero_le n))

end Likeness

/-! ### Workspace code and the method -/

/-- Workspace code with a last statement, and what it is evaluated on. -/
structure Workspace where
  temps : List Json
  statements : List Node
  last : Node
  receiver : Value

namespace Workspace

variable (w : Workspace)

/-- The code as it stands. -/
def code : Node := .sequence w.temps (w.statements ++ [w.last])

/-- The code as a method without parameters, which returns the value of the last
statement. -/
def methodCode : Node :=
  .method (.str "DoIt") [] w.temps (w.statements ++ [.answer w.last]) .null

/-- That method in a class. -/
def method (owner : Behavior) : Method :=
  ⟨.str "DoIt", [], w.temps, w.statements ++ [.answer w.last], .null, owner⟩

/-- The code is evaluated as it stands. -/
def query : Query := .doit w.code w.receiver

/-- The method is executed. -/
def methodQuery : Query := .executeNode w.methodCode w.receiver []

/-- The frame of the code. -/
def frame (owner : Behavior) : Frame :=
  { receiver := w.receiver, method := some (Eval.workspaceMethod owner) }

/-- The frame of the method. -/
def methodFrame (owner : Behavior) : Frame :=
  { receiver := w.receiver, method := some (w.method owner) }

/-- The call of the first query: the frame is there when it begins. -/
def call (owner : Behavior) (m : Memory) (depth : Nat) : Call :=
  ⟨.evaluate w.code m.heap.frames.size, m.withFrame (w.frame owner), depth⟩

/-- The call of the second query. -/
def methodCall (owner : Behavior) (m : Memory) (depth : Nat) : Call :=
  ⟨.activate (w.method owner) w.receiver [] [], m, depth⟩

/-- The statements before the last, in the new frame. -/
def start (settings : Settings) (m : Memory) (depth : Nat) : Eval Value :=
  Eval.runBody (Eval.run settings depth) m.heap.frames.size w.temps w.statements

variable {settings : Settings} {m : Memory} {owner : Behavior} {depth : Nat}

/-- The two frames are alike. -/
theorem frames_alike (owner : Behavior) (m : Memory) :
    (Likeness.after m).Memories (m.withFrame (w.frame owner))
      (m.withFrame (w.methodFrame owner)) := by
  have hrefl : (Likeness.after m).Memories m m :=
    ⟨rfl, rfl, Nat.zero_le _, fun _ => rfl⟩
  refine hrefl.newFrame (?_ : Frame.bodiless _ _ _ = Frame.bodiless _ _ _)
  rw [Frame.bodiless_of_home rfl, Frame.bodiless_of_home rfl]
  rfl

/-- The code does its last statement last, and has the value of that. -/
theorem outcome_call (settings : Settings) (owner : Behavior) (m : Memory) (depth : Nat) :
    (w.call owner m (depth + 1)).outcome settings
      = (w.start settings m depth >>= fun _ =>
          Eval.run settings depth (.evaluate w.last m.heap.frames.size))
            (m.withFrame (w.frame owner)) :=
  congrFun (Eval.runBody_concat ..) _

/-- The method returns last, and its frame is closed. -/
theorem outcome_methodCall (settings : Settings) (owner : Behavior) (m : Memory) (depth : Nat) :
    (w.methodCall owner m (depth + 1)).outcome settings
      = Eval.close m.heap.frames.size
          (((w.start settings m depth >>= fun _ =>
              Eval.run settings depth (.evaluate (.answer w.last) m.heap.frames.size)) >>=
            fun _ => pure w.receiver) (m.withFrame (w.methodFrame owner))) := by
  have henters : Eval.enter (w.method owner) w.receiver [] [] m
      = .ok m.heap.frames.size (m.withFrame (w.methodFrame owner)) := rfl
  unfold start
  rw [← Eval.runBody_concat]
  exact (Eval.activate_of_enter rfl henters _).trans (Eval.closing_eq_close ..)

variable {w}

/-- Where the depth does for the statements before the last, the two calls end alike. The
method has one more level for its return. -/
theorem outcomes_of_start
    (h : ¬ Eval.TooDeep (w.start settings m depth (m.withFrame (w.methodFrame owner)))) :
    (Likeness.after m).Outcomes
      (Eval.close m.heap.frames.size ((w.call owner m (depth + 1)).outcome settings))
      ((w.methodCall owner m (depth + 2)).outcome settings) := by
  let n := m.heap.frames.size
  let value : Eval Value := Eval.run settings depth (.evaluate w.last n)
  have hreturn : Eval.run settings (depth + 1) (.evaluate (.answer w.last) n)
      = value >>= Eval.returnFrom n := rfl
  -- one more level makes no difference to the statements before
  have hmethod : ((w.start settings m (depth + 1) >>= fun _ => value >>= Eval.returnFrom n) >>=
        fun _ => (pure w.receiver : Eval Value)) (m.withFrame (w.methodFrame owner))
      = (((w.start settings m depth >>= fun _ => value) >>= Eval.returnFrom n) >>=
        fun _ => pure w.receiver) (m.withFrame (w.methodFrame owner)) := by
    simp only [bind_assoc]
    exact bind_of_eq (Eval.runBody_succ_congr h)
  have hact : ∀ L : Likeness, L.Unnoticed (w.start settings m depth >>= fun _ => value) := by
    intro L
    have hrec : L.AllUnnoticed (Eval.run settings depth) := Likeness.Unnoticed.run settings depth
    exact .bind (Likeness.Unnoticed.runBody hrec n w.temps w.statements) fun _ => hrec _
  rw [outcome_call, outcome_methodCall, hreturn, hmethod]
  exact .close_returnFrom (hact _) (hact _) rfl (w.frames_alike owner m)
    (Likeness.awaiting_withFrame ⟨rfl, rfl, rfl⟩) w.receiver

/-- A depth that is enough for the method is enough for the code. -/
theorem outcomes_of_methodCall (h : ¬ (w.methodCall owner m depth).Exhausts settings) :
    (Likeness.after m).Outcomes
      (Eval.close m.heap.frames.size ((w.call owner m depth).outcome settings))
      ((w.methodCall owner m depth).outcome settings) := by
  cases depth with
  | zero => exact absurd ⟨m, rfl⟩ h
  | succ depth =>
      -- the statements before the last are part of what the method does
      have hstart : ¬ Eval.TooDeep
          (w.start settings m depth (m.withFrame (w.methodFrame owner))) := by
        refine fun hdeep => h ?_
        unfold Call.Exhausts
        rw [outcome_methodCall]
        exact Eval.tooDeep_close_iff.mpr ((hdeep.bind _).bind _)
      have hmore : (w.methodCall owner m (depth + 2)).outcome settings
          = (w.methodCall owner m (depth + 1)).outcome settings :=
        Eval.run_succ_congr settings (depth + 1) _ m h
      exact hmore ▸ outcomes_of_start hstart

/-- With one more level, a depth that is enough for the code is enough for the method. -/
theorem outcomes_of_call (h : ¬ (w.call owner m depth).Exhausts settings) :
    (Likeness.after m).Outcomes
      (Eval.close m.heap.frames.size ((w.call owner m depth).outcome settings))
      ((w.methodCall owner m (depth + 1)).outcome settings) := by
  cases depth with
  | zero => exact absurd ⟨_, rfl⟩ h
  | succ depth =>
      refine outcomes_of_start fun hdeep => h ?_
      -- the statements before the last are too deep in both frames or in none
      have hstart : (Likeness.after m).Outcomes
          (w.start settings m depth (m.withFrame (w.frame owner)))
          (w.start settings m depth (m.withFrame (w.methodFrame owner))) :=
        Likeness.Unnoticed.runBody (Likeness.Unnoticed.run settings depth) _ _ _ _ _
          (w.frames_alike owner m)
      unfold Call.Exhausts
      rw [outcome_call]
      exact (hstart.tooDeep_iff.mpr hdeep).bind _

/-! ### The two queries -/

theorem call?_query (settings : Settings) (h : m.classOf? w.receiver = some owner) :
    w.query.call? settings m = some (w.call owner m settings.depth) := by
  have henter : Query.enter w.receiver m
      = .ok m.heap.frames.size (m.withFrame (w.frame owner)) :=
    bind_of_ok (Eval.classOf_of_classOf? h)
  exact Query.call?_of_ok (bind_of_ok henter)

theorem call?_methodQuery (settings : Settings) (h : m.classOf? w.receiver = some owner) :
    w.methodQuery.call? settings m = some (w.methodCall owner m settings.depth) :=
  Query.call?_of_ok (bind_of_ok (Eval.classOf_of_classOf? h))

/-- The query closes the frame of the code. -/
theorem perform_query (hclass : m.classOf? w.receiver = some owner)
    (h : ¬ (w.call owner m settings.depth).Exhausts settings) : w.query.perform settings m
      = Eval.close m.heap.frames.size ((w.call owner m settings.depth).outcome settings) := by
  have hclosing : Eval.closing m.heap.frames.size
      (Eval.run settings settings.depth (w.call owner m settings.depth).task)
      (w.call owner m settings.depth).memory
        = Eval.close m.heap.frames.size ((w.call owner m settings.depth).outcome settings) :=
    Eval.closing_eq_close ..
  have hdeep : ¬ Eval.TooDeep (Eval.closing m.heap.frames.size
      (Eval.run settings settings.depth (w.call owner m settings.depth).task)
      (w.call owner m settings.depth).memory) := by
    rw [hclosing, Eval.tooDeep_close_iff]
    exact h
  rw [Query.perform_of_call? (call?_query settings hclass), ← hclosing]
  exact Eval.naming_of_not_tooDeep hdeep

/-- The activation has closed the frame of the method. -/
theorem perform_methodQuery (hclass : m.classOf? w.receiver = some owner)
    (h : ¬ (w.methodCall owner m settings.depth).Exhausts settings) :
    w.methodQuery.perform settings m = (w.methodCall owner m settings.depth).outcome settings := by
  rw [Query.perform_of_call? (call?_methodQuery settings hclass)]
  exact Eval.naming_of_not_tooDeep h

/-- Where the calls end alike and the first is not too deep, the queries end alike. -/
theorem outcomes_of_calls {settings' : Settings} (hclass : m.classOf? w.receiver = some owner)
    (hdeep : ¬ (w.call owner m settings.depth).Exhausts settings)
    (h : (Likeness.after m).Outcomes
      (Eval.close m.heap.frames.size ((w.call owner m settings.depth).outcome settings))
      ((w.methodCall owner m settings'.depth).outcome settings')) :
    (Likeness.after m).Outcomes (w.query.perform settings m)
      (w.methodQuery.perform settings' m) := by
  have hmethod : ¬ (w.methodCall owner m settings'.depth).Exhausts settings' := fun hdeep' =>
    hdeep (Eval.tooDeep_close_iff.mp (h.tooDeep_iff.mpr hdeep'))
  rw [perform_query hclass hdeep, perform_methodQuery hclass hmethod]
  exact h

/-- A receiver without a class has neither workspace code nor methods. -/
theorem outcomes_of_classless {settings' : Settings} (hclass : m.classOf? w.receiver = none) :
    (Likeness.after m).Outcomes (w.query.perform settings m)
      (w.methodQuery.perform settings' m) := by
  have hfault : Eval.classOf w.receiver m
      = .error (.fault (.noClass (m.inspect w.receiver))) m := by
    have hget : (get : Eval Memory) m = .ok m m := rfl
    unfold Eval.classOf
    rw [bind_of_ok hget, hclass]
    rfl
  have hquery : w.query.perform settings m = .error _ m := bind_of_error hfault
  have hmethod : w.methodQuery.perform settings' m = .error _ m := bind_of_error hfault
  rw [hquery, hmethod]
  exact .error _ ⟨rfl, rfl, Nat.zero_le _, fun _ => rfl⟩

end Workspace

/-! ### Result -/

/-- Workspace code with a last statement comes to the same as a method without parameters
that returns the value of that statement: whatever the code is, it ends with the same value
or the same stop, and in the same memory but for the code that is remembered. It does so
where the depth is enough for the method; and where the depth is enough for the code, the
method does so with one more level. Nothing that runs later can tell the two memories
apart, not even a block that was made there and returns from an activation that is over. -/
theorem workspace_is_method (settings : Settings) (m : Memory) (w : Workspace) :
    (¬ w.methodQuery.Exhausts settings m →
      (Likeness.after m).Outcomes (w.query.perform settings m)
        (w.methodQuery.perform settings m)) ∧
    (¬ w.query.Exhausts settings m →
      (Likeness.after m).Outcomes (w.query.perform settings m)
        (w.methodQuery.perform { settings with depth := settings.depth + 1 } m)) ∧
    ∀ m₁ m₁', (Likeness.after m).Memories m₁ m₁' → ∀ later : Settings,
      (∀ depth task, (Likeness.after m).Outcomes
        (Eval.run later depth task m₁) (Eval.run later depth task m₁')) ∧
      ∀ q : Query, (Likeness.after m).Outcomes (q.perform later m₁)
        (q.perform later m₁') := by
  refine ⟨fun hnot => ?_, fun hnot => ?_, fun m₁ m₁' h later => ⟨fun depth task => ?_, fun q => ?_⟩⟩
  -- a depth that is enough for the method
  · cases hclass : m.classOf? w.receiver with
    | none => exact Workspace.outcomes_of_classless hclass
    | some owner =>
        have hmethod : ¬ (w.methodCall owner m settings.depth).Exhausts settings := fun hdeep =>
          hnot ⟨_, [], .first (Workspace.call?_methodQuery settings hclass), hdeep⟩
        have halike := Workspace.outcomes_of_methodCall hmethod
        refine Workspace.outcomes_of_calls hclass (fun hdeep => hmethod ?_) halike
        exact halike.tooDeep_iff.mp (Eval.tooDeep_close_iff.mpr hdeep)
  -- a depth that is enough for the code, and one more level for the method
  · cases hclass : m.classOf? w.receiver with
    | none => exact Workspace.outcomes_of_classless hclass
    | some owner =>
        have hcode : ¬ (w.call owner m settings.depth).Exhausts settings := fun hdeep =>
          hnot ⟨_, [], .first (Workspace.call?_query settings hclass), hdeep⟩
        refine Workspace.outcomes_of_calls hclass hcode ?_
        show (Likeness.after _).Outcomes _ ((w.methodCall owner m (settings.depth + 1)).outcome _)
        rw [Call.outcome_setDepth (settings.depth + 1)]
        exact Workspace.outcomes_of_call hcode
  · exact Likeness.Unnoticed.run later depth task m₁ m₁' h
  · exact Likeness.Unnoticed.query later q m₁ m₁' h

/-- A query with a value has not exhausted the depth. -/
theorem Query.not_exhausts_of_ok {settings : Settings} {m m' : Memory} {q : Query} {v : Value}
    (h : q.perform settings m = .ok v m') : ¬ q.Exhausts settings m := by
  rintro ⟨c, outer, hc, m₁, hout⟩
  obtain ⟨first, m₂, -, -, hperform, -⟩ := (hc.collapses hout).fault
  rw [hperform] at h
  cases h

/-- The block that a query has as its value. -/
def Query.closure? (settings : Settings) (m : Memory) (q : Query) : Option ClosureId :=
  match q.perform settings m with
  | .ok (.closure c) _ => some c
  | _ => none

theorem Query.perform_of_closure? {settings : Settings} {m : Memory} {q : Query} {c : ClosureId}
    (h : q.closure? settings m = some c) : ∃ m', q.perform settings m = .ok (.closure c) m' := by
  unfold closure? at h
  split at h
  · rename_i m' hperform
    cases h
    exact ⟨m', hperform⟩
  · cases h

/-- The number that a query returns to an activation that is over. -/
def Query.stranded? (settings : Settings) (m : Memory) (q : Query) : Option (Int × String) :=
  match q.perform settings m with
  | .error (.fault (.deadReturn (.int i) shown)) _ => some (i, shown)
  | _ => none

theorem Query.perform_of_stranded? {settings : Settings} {m : Memory} {q : Query} {i : Int}
    {shown : String} (h : q.stranded? settings m = some (i, shown)) :
    ∃ m', q.perform settings m = .error (.fault (.deadReturn (.int i) shown)) m' := by
  unfold stranded? at h
  split at h
  · rename_i m' hperform
    cases h
    exact ⟨m', hperform⟩
  · cases h

/-- Code that answers a block with a return. -/
def escape : Workspace := ⟨[], [], .block [] [] [.answer (.literal (.int 3))], .nil⟩

/-- The block escapes from the code, and from the method at both depths. In both memories
the return has nowhere to go then. -/
theorem dead_return_of_escape : ∃ m₁ m₁' m₁'' m₂',
    escape.query.perform { depth := 20 } Kernel.memory = .ok (.closure 0) m₁ ∧
    escape.methodQuery.perform { depth := 20 } Kernel.memory = .ok (.closure 0) m₁' ∧
    escape.methodQuery.perform { depth := 21 } Kernel.memory = .ok (.closure 0) m₁'' ∧
    (Query.send (.closure 0) (.str "value") []).perform {} m₁'
      = .error (.fault (.deadReturn (.int 3) "3")) m₂' := by
  have hcode : escape.query.closure? { depth := 20 } Kernel.memory = some 0 := by decide +kernel
  have hmethod : escape.methodQuery.closure? { depth := 20 } Kernel.memory = some 0 := by
    decide +kernel
  have hdead : (Query.send (.closure 0) (.str "value") []).stranded? {}
      (left (escape.query.perform { depth := 20 } Kernel.memory)) = some (3, "3") := by
    decide +kernel
  obtain ⟨m₁, hcode⟩ := Query.perform_of_closure? hcode
  obtain ⟨_, hmethod⟩ := Query.perform_of_closure? hmethod
  rw [hcode] at hdead
  change (Query.send (.closure 0) (.str "value") []).stranded? {} m₁ = _ at hdead
  obtain ⟨m₂, hdead⟩ := Query.perform_of_stranded? hdead
  obtain ⟨hsame, hdeeper, hlater⟩ := workspace_is_method { depth := 20 } Kernel.memory escape
  -- queries that have values have had enough depth
  have halike := hsame (Query.not_exhausts_of_ok hmethod)
  have halike' := hdeeper (Query.not_exhausts_of_ok hcode)
  rw [hcode] at halike halike'
  obtain ⟨m₁', hmethod, hmemories⟩ := halike.of_ok
  obtain ⟨m₁'', hdeeper, -⟩ := halike'.of_ok
  have hafter := (hlater m₁ m₁' hmemories {}).2 (.send (.closure 0) (.str "value") [])
  rw [hdead] at hafter
  obtain ⟨m₂', hdead', -⟩ := hafter.of_error
  exact ⟨m₁, m₁', m₁'', m₂', hcode, hmethod, hdeeper, hdead'⟩

end Smalltalk
