import Smalltalk.Proofs.Course
import Smalltalk.Proofs.InProgress

/-!
# `Smalltalk.Proofs.Reached`: systems that stick to a charter

`Charter.Reached K m` says that a system that is given only what the charter allows can
have come to `m`: the moments of `Memory.LeadsTo`, with what each way to go on needs. A
command that changes classes needs nothing but that the classes are still as the charter
says; the code it installs is looked at when something runs, and nothing runs while some
installed code is not allowed (`Charter.Serves`).

* `Charter.Reached.abides`: the charter is kept at every moment.
* `Query.upholds`, `InProgress.runs` and `Call.upheld`: it is kept while a query is
  evaluated, every call that comes up has what it needs, and all answers are allowed.

For the calls in progress the argument is the one about answers: the step keeps the
charter however the inner tasks are done, so it does if one of them ends with a stop. The
stop comes out at the end, in the memory that the call started in. And a call that lacked
something might even be answered by an unwinding with an array that is not there, which
the step excludes.
-/

set_option autoImplicit false

namespace Smalltalk

variable {K : Charter} {settings : Settings} {m m' : Memory}

/-! ### Queries -/

/-- What a query needs of the memory it starts in. What is executed has to be allowed for the
class of its receiver. -/
def Charter.Asks (K : Charter) (m : Memory) : Query → Prop
  | .send receiver _ args => K.Holds m receiver ∧ ∀ v ∈ args, K.Holds m v
  | .execute method receiver args =>
    K.Holds m receiver ∧ (∀ v ∈ args, K.Holds m v) ∧ K.Enters m receiver method
  | .executeNode node receiver args =>
    K.Holds m receiver ∧ (∀ v ∈ args, K.Holds m v) ∧
      ∀ owner method, m.classOf? receiver = some owner →
        Method.ofNode? owner node = some method → K.Enters m receiver method
  | .doit code receiver =>
    K.Holds m receiver ∧ ∀ owner, m.classOf? receiver = some owner →
      K.seat m receiver (some (Eval.workspaceMethod owner)) ∧
        K.code m.registry (some (Eval.workspaceMethod owner)) code

namespace Eval

/-- A depth that is exhausted becomes a fault, which is about no instance variable. -/
theorem Upholds.naming {activity : Memory → Except Fault String} {act : Eval Value}
    {post : Value → Memory → Prop} (h : Upholds K settings act m post)
    (hactivity : ∀ m' f, activity m' = .error f → K.Fails f) :
    Upholds K settings (Eval.naming activity act) m post := by
  unfold Upholds at h ⊢
  rcases naming_cases activity act m with ⟨-, hsame⟩ | ⟨m₁, f, hact, hnamed, hf⟩
  · rw [hsame]
    exact h
  · rw [hact] at h
    rw [hnamed]
    refine ⟨h.1, h.2.1, ?_⟩
    rcases hf with ⟨words, rfl⟩ | hwords
    · exact Charter.fails rfl
    · exact hactivity m₁ f hwords

end Eval

namespace Query

open Eval

/-- All but workspace code is prepared without a change. The task gets what it needs. -/
theorem prepare_upholds (g : m.Runs K settings) {q : Query} (hq : K.Asks m q) :
    Upholds K settings q.prepare m fun task m' => K.Requires m' task := by
  cases q with
  | send receiver selector args =>
      obtain ⟨hreceiver, hargs⟩ := hq
      refine Upholds.bind (Upholds.classOf g receiver) ?_
      rintro b m₁ _ g₁ ⟨rfl, hclass⟩
      -- whatever the receiver understands may run on it
      have hfound : ∀ start key method, some b = some start →
          m₁.registry.lookup? key start = some method → K.seat m₁ receiver (some method) := by
        rintro _ key method ⟨⟩ hlookup
        exact g₁.lawful.found m₁ receiver b key method g₁.toAbides hreceiver hclass hlookup
      refine Upholds.bind (Upholds.methodFrom g₁ hfound) ?_
      rintro found m₂ _ g₂ ⟨rfl, henters⟩
      cases found with
      | none => exact Upholds.notUnderstood g₂
      | some method => exact Upholds.pure g₂ ⟨hreceiver, hargs, henters method rfl⟩
  | execute method receiver args => exact Upholds.pure g hq
  | executeNode node receiver args =>
      obtain ⟨hreceiver, hargs, henters⟩ := hq
      cases node with
      | method selector params temps statements primitive =>
          refine Upholds.bind (Upholds.classOf g receiver) ?_
          rintro owner m₁ _ g₁ ⟨rfl, hclass⟩
          exact Upholds.pure g₁ ⟨hreceiver, hargs, henters owner _ hclass rfl⟩
      | _ => exact Upholds.fail g (Charter.fails rfl)
  | doit code receiver =>
      obtain ⟨hreceiver, hcode⟩ := hq
      have hbind : prepare (.doit code receiver) = (classOf receiver >>= fun owner =>
          (Eval.make fun h => h.newFrame
            { receiver, method := some (Eval.workspaceMethod owner) }) >>= fun frame =>
              pure (.evaluate code frame)) := bind_assoc ..
      rw [hbind]
      refine Upholds.bind (Upholds.classOf g receiver) ?_
      rintro owner m₁ _ g₁ ⟨rfl, hclass⟩
      obtain ⟨hseat, hcode⟩ := hcode owner hclass
      refine Upholds.bind (Upholds.makeFrame g₁ hreceiver rfl hseat) ?_
      rintro f m₂ l₂ g₂ ⟨-, hf, hmethod⟩
      refine Upholds.pure g₂ ⟨hf, ?_⟩
      rw [hmethod, l₂.registry]
      exact hcode

/-- A query keeps to the charter, given that tasks do, and has an allowed answer. -/
theorem upholds {rec : Task → Eval Value} (hrec : K.Honours settings rec)
    (g : m.Runs K settings) {q : Query} (hq : K.Asks m q) :
    Upholds K settings (q.performBy rec) m fun v m' => K.Holds m' v := by
  refine Upholds.bind (prepare_upholds g hq) ?_
  intro task m₁ _ g₁ htask
  have hact := Upholds.task hrec g₁ htask
  cases task with
  | activate method receiver args callers =>
      refine Upholds.naming hact fun m' f hf => Charter.fails_of_isMisuse ?_
      exact Fault.isMisuse_of_map (fun _ => Fault.isMisuse_of_methodWord) hf
  | evaluate code frame => exact Upholds.naming (Upholds.closing hact) fun _ _ h => nomatch h
  | invoke closure args caller => exact Upholds.naming hact fun _ _ h => nomatch h

end Query

namespace Eval

/-- Code in a frame that runs no method. -/
theorem Upholds.evaluateIn (g : m.Runs K settings) {code : Node} {receiver : Value}
    {slots : List (Json × Value)} {active : Bool} (hreceiver : K.Holds m receiver)
    (hslots : ∀ slot ∈ slots, K.Holds m slot.2) (hseat : K.seat m receiver none)
    (hcode : K.code m.registry none code) :
    Upholds K settings (Eval.evaluateIn settings code receiver slots active) m
      fun v m' => K.Holds m' v := by
  refine bind (makeFrame g hreceiver rfl hseat) ?_
  rintro f m₁ l₁ g₁ ⟨-, hf, hmethod⟩
  refine bind (forM g₁ fun slot hslot m' l' g' => ?_) ?_
  · exact declare g' ((hslots slot hslot).later (l₁.trans l'))
  · intro _ m₂ l₂ g₂ _
    refine task (Charter.Honours.run K settings _) (t := .evaluate code f) g₂ ?_
    refine Charter.Fits.later ⟨hf, ?_⟩ l₂
    rw [hmethod, l₁.registry]
    exact hcode

/-- A primitive in a frame that runs no method. -/
theorem Upholds.tryPrimitive (g : m.Runs K settings) {number : Json} {receiver : Value}
    {args : List Value} (hreceiver : K.Holds m receiver) (hargs : ∀ v ∈ args, K.Holds m v)
    (hseat : K.seat m receiver none) :
    Upholds K settings (Eval.tryPrimitive settings number receiver args) m
      fun tried m' => ∀ v, tried = .ok v → K.Holds m' v := by
  refine get (decide g hreceiver hargs (fun action haction => ?_) fun _ => ?_)
  · refine bind (makeFrame g hreceiver rfl hseat) ?_
    rintro f m₁ l₁ g₁ -
    refine bind (perform (Charter.Honours.run K settings _) g₁ (haction.later l₁)) ?_
    rintro v m₂ _ g₂ hv
    refine pure g₂ ?_
    rintro _ ⟨⟩
    exact hv
  · exact pure g fun _ h => nomatch h

/-- The memory that an outcome leaves keeps to the charter. -/
theorem Upheld.left {α : Type} {post : α → Memory → Prop} {out : Outcome α}
    (h : Upheld K settings m post out) : (left out).Runs K settings := by
  cases out with
  | ok a m' => exact h.2.1
  | error s m' => exact h.2.1

end Eval

/-! ### Calls -/

namespace Plan

variable {α : Type} {rec : Task → Eval Value} {p : Plan α} {post : α → Memory → Prop}

/-- Where a plan keeps to the charter whenever its calls do, so does the memory that a call on
its path starts in, and the call has what it needs. -/
theorem path_upheld
    (hp : ∀ rec, K.Honours settings rec → Eval.Upheld K settings m post (p.follow rec))
    (hrec : K.Honours settings rec) {c : Task × Memory} (hc : c ∈ p.path rec) :
    c.2.Runs K settings ∧ K.Requires c.2 c.1 := by
  constructor
  · -- the call may be left unfinished
    have hrec' : K.Honours settings (answering rec c (.error .unfinished c.2)) := by
      intro task m' g hrequires
      unfold Eval.Upholds
      by_cases hself : (task, m') = c
      · subst hself
        rw [answering_self rec (task, m')]
        exact ⟨.refl m', g, trivial⟩
      · rw [answering_of_ne rec _ hself]
        exact hrec task m' g hrequires
    have hupheld := hp _ hrec'
    rw [p.follow_answering hc .unfinished] at hupheld
    exact hupheld.2.1
  · refine Classical.byContradiction fun hnot => ?_
    -- a call that lacks something may be answered in any way at all
    have hrec' : K.Honours settings
        (answering rec c (.error (.unwind (.array c.2.heap.arrays.size) 0) c.2)) := by
      intro task m' g hrequires
      unfold Eval.Upholds
      have hself : (task, m') ≠ c := fun h => hnot (h ▸ hrequires)
      rw [answering_of_ne rec _ hself]
      exact hrec task m' g hrequires
    have hupheld := hp _ hrec'
    rw [p.follow_answering hc] at hupheld
    obtain ⟨-, -, hknows, -⟩ := hupheld
    exact Nat.lt_irrefl _ hknows

end Plan

theorem Planned.upheld_of_path {α : Type} {act : (Task → Eval Value) → Eval α} (p : Planned act)
    {post : α → Memory → Prop}
    (hact : ∀ rec, K.Honours settings rec → Eval.Upholds K settings (act rec) m post)
    {rec : Task → Eval Value} (hrec : K.Honours settings rec) {c : Task × Memory}
    (hc : c ∈ (p.plan m).path rec) : c.2.Runs K settings ∧ K.Requires c.2 c.1 := by
  have hp : ∀ rec, K.Honours settings rec →
      Eval.Upheld K settings m post ((p.plan m).follow rec) := by
    intro rec' hrec'
    rw [← p.follows]
    exact hact rec' hrec'
  exact Plan.path_upheld hp hrec hc

open Eval in
/-- One case for each task. -/
theorem Staged.upheld_of_path (g : m.Runs K settings) {task : Task} (hrequires : K.Requires m task)
    {rec : Task → Eval Value} (hrec : K.Honours settings rec) {c : Task × Memory}
    (hc : c ∈ ((Staged.step settings task).plan m).path rec) :
    c.2.Runs K settings ∧ K.Requires c.2 c.1 := by
  cases task with
  | evaluate node frame =>
      exact (Planned.evaluateNode frame node).upheld_of_path
        (fun _ hrec' => Upholds.evaluateNode hrec' g hrequires) hrec hc
  | invoke closure args caller =>
      exact (Planned.invoke closure args caller).upheld_of_path
        (fun _ hrec' => Upholds.invoke hrec' g hrequires.1 hrequires.2) hrec hc
  | activate method receiver args callers =>
      obtain ⟨hreceiver, hargs, henters⟩ := hrequires
      have hupholds : Upholds K settings (Eval.enter method receiver args callers) m
          fun f m' => ∀ s ∈ method.statements, K.Fits m' f s :=
        Upholds.enter g hreceiver hargs henters
      obtain ⟨frame, m₁, -, henter, hc⟩ := enter_of_mem_path hc
      unfold Upholds at hupholds
      rw [henter] at hupholds
      obtain ⟨l₁, g₁, hstatements⟩ := hupholds
      exact (Planned.runMethod settings frame method receiver).upheld_of_path
        (fun _ hrec' => Upholds.runMethod hrec' g₁ hstatements (hreceiver.later l₁)) hrec hc

/-- A call that has what it needs involves only such calls. -/
theorem Call.Involves.upheld {c c' : Call} (h : c.Involves settings c')
    (g : c.memory.Runs K settings) (hrequires : K.Requires c.memory c.task) :
    c'.memory.Runs K settings ∧ K.Requires c'.memory c'.task := by
  induction h with
  | refl => exact ⟨g, hrequires⟩
  | tail _ hc ih =>
      obtain ⟨g', hrequires'⟩ := ih
      exact Staged.upheld_of_path g' hrequires' (Charter.Honours.run K settings _)
        (of_mem_calls hc).2

/-- Whatever comes up while a query is evaluated has what it needs. -/
theorem InProgress.upheld (g : m.Runs K settings) {q : Query} (hq : K.Asks m q) {c : Call}
    {outer : List Call} (h : InProgress settings m q (c :: outer)) :
    c.memory.Runs K settings ∧ K.Requires c.memory c.task := by
  -- the query prepares the first call, and this one involves all others
  obtain ⟨c₀, hcall, hinvolves⟩ := h.involves c outer rfl
  have hprepare := Query.prepare_upholds g hq
  unfold Eval.Upholds at hprepare
  rw [Query.prepare_of_call? hcall] at hprepare
  exact hinvolves.upheld hprepare.2.1 hprepare.2.2

/-- A call that has what it needs keeps to the charter, and its answer is allowed. -/
theorem Call.upheld {c : Call} (g : c.memory.Runs K settings)
    (hrequires : K.Requires c.memory c.task) :
    Eval.Upheld K settings c.memory (fun v m' => K.Holds m' v) (c.outcome settings) :=
  Eval.Upholds.task (Charter.Honours.run K settings c.depth) g hrequires

/-! ### Systems -/

/-- What a command may contain, and what it has to leave. -/
def Charter.Allows (K : Charter) (m : Memory) : Command → Prop
  | .setGlobal _ value => K.Holds m value
  | .makeArray elements => ∀ v ∈ elements, K.Holds m v
  | .evaluate settings query => K.Serves settings m.registry ∧ K.Asks m query
  | command => K.classes (command.run m).registry

/-- What a system can come to that is given only what the charter allows. -/
inductive Charter.Reached (K : Charter) : Memory → Prop where
  | start : Reached K Kernel.memory
  | command {m : Memory} (h : Reached K m) {command : Command} (allowed : K.Allows m command) :
    Reached K (command.run m)
  | evaluateIn {m : Memory} (h : Reached K m) {settings : Settings}
      (serves : K.Serves settings m.registry) {code : Node} {receiver : Value}
      {slots : List (Json × Value)} (active : Bool) (receiver_holds : K.Holds m receiver)
      (slots_hold : ∀ slot ∈ slots, K.Holds m slot.2) (seat : K.seat m receiver none)
      (allowed : K.code m.registry none code) :
    Reached K (left (Eval.evaluateIn settings code receiver slots active m))
  | tryPrimitive {m : Memory} (h : Reached K m) {settings : Settings}
      (serves : K.Serves settings m.registry) (number : Json) {receiver : Value}
      {args : List Value} (receiver_holds : K.Holds m receiver)
      (args_hold : ∀ v ∈ args, K.Holds m v) (seat : K.seat m receiver none) :
    Reached K (left (Eval.tryPrimitive settings number receiver args m))
  | frame {m : Memory} (h : Reached K m) {x : Frame} (alone : x.outer = [])
      (values_hold : ∀ v, x.Has v → K.Holds m v) (seat : K.seat m x.receiver x.method) :
    Reached K { m with heap := (m.heap.newFrame x).1 }
  | journal {m : Memory} (h : Reached K m) (recording : Bool) :
    Reached K { m with journal := { m.journal with recording } }
  | during {m : Memory} (h : Reached K m) {settings : Settings}
      (serves : K.Serves settings m.registry) {task : Task} {depth : Nat}
      (within : task.Within m) (requires : K.Requires m task) {c : Call}
      (hc : (Call.mk task m depth).Involves settings c) : Reached K c.memory
  | after {m : Memory} (h : Reached K m) {settings : Settings}
      (serves : K.Serves settings m.registry) {task : Task} {depth : Nat}
      (within : task.Within m) (requires : K.Requires m task) {c : Call}
      (hc : (Call.mk task m depth).Involves settings c) : Reached K (left (c.outcome settings))

/-- What a system can come to that keeps to a charter is something that a system can come to. -/
theorem Charter.Reached.leadsTo (h : K.Reached m) : Kernel.memory.LeadsTo m := by
  induction h with
  | start => exact .refl
  | command _ _ ih => exact .command ih _
  | evaluateIn _ _ active _ _ _ _ ih => exact .evaluateIn ih _ _ _ _ active
  | tryPrimitive _ _ number _ _ _ ih => exact .tryPrimitive ih _ number _ _
  | frame _ alone _ _ ih => exact .frame ih _ alone
  | journal _ recording ih => exact .journal ih recording
  | during _ _ within _ hc ih => exact .during ih within hc
  | after _ _ within _ hc ih => exact .after ih within hc

/-- The kernel keeps to every charter. -/
theorem Kernel.memory_abides (lawful : K.Lawful) : Kernel.memory.Abides K where
  stored v hv := Charter.regime_holds.mp <|
    (Kernel.memory_good fun i hi => Charter.regime_int.mpr (lawful.small i hi)).stored v hv
  bound key v hv := Charter.regime_holds.mp <|
    (Kernel.memory_good fun i hi => Charter.regime_int.mpr (lawful.small i hi)).bound key v hv
  object o ho := absurd ho (by rw [Kernel.memory_fresh.objects]; exact Nat.not_lt_zero o)
  closure c hc := absurd hc (by rw [Kernel.memory_fresh.closures]; exact Nat.not_lt_zero c)
  seated f hf := absurd hf (by rw [Kernel.memory_fresh.frames]; exact Nat.not_lt_zero f)
  owned := Memory.Edits.owned Kernel.memory_edits
  ordered := Memory.Edits.ordered Kernel.memory_edits
  grown := .refl _
  classes := lawful.start

/-- A command that changes the classes, however it ends. -/
theorem Memory.Abides.reforms {α : Type} {act : Change α} (a : m.Abides K) (lawful : K.Lawful)
    (h : Change.Reforms (fun _ => True) act m) (classes : K.classes (left (act m)).registry) :
    (left (act m)).Abides K :=
  a.reformed lawful (Memory.reformed_of_reforms h) classes

/-- One case for each command. -/
theorem Command.abides (a : m.Abides K) (lawful : K.Lawful) {command : Command}
    (allowed : K.Allows m command) : (command.run m).Abides K := by
  cases command with
  | define name superclass instanceVariables indexable =>
      exact a.reforms lawful (.define name superclass instanceVariables indexable) allowed
  | compile owner code protocol =>
      exact a.reforms lawful (.compile owner (fun _ _ => trivial) protocol) allowed
  | load image => exact a.reforms lawful (.load fun _ _ _ _ _ _ => trivial) allowed
  | place code => exact a.reforms lawful (.place code) allowed
  | setGlobal name value =>
      -- a name that names nothing binds nothing, whatever the fault is
      show (left (EStateM.bind (Eval.ofExcept (Fault.keyOf name)) _ m)).Abides K
      unfold EStateM.bind
      cases hkey : Fault.keyOf name with
      | ok key => exact a.bind lawful key name allowed
      | error f => exact a
  | makeText s => exact a.texts lawful _
  | makeArray elements => exact a.newArray lawful allowed
  | evaluate settings query =>
      obtain ⟨serves, hq⟩ := allowed
      show (left (query.perform settings m)).Abides K
      rw [Query.perform_eq_performBy]
      have hupheld := Query.upholds (Charter.Honours.run K settings settings.depth)
        ⟨a, lawful, serves⟩ hq
      exact hupheld.left.toAbides

/-- A system that is given only what the charter allows keeps to it, at every moment. -/
theorem Charter.Reached.abides (lawful : K.Lawful) (h : K.Reached m) : m.Abides K := by
  induction h with
  | start => exact Kernel.memory_abides lawful
  | command _ allowed ih => exact Command.abides ih lawful allowed
  | evaluateIn _ serves active hreceiver hslots hseat hcode ih =>
      exact (Eval.Upholds.evaluateIn ⟨ih, lawful, serves⟩ hreceiver hslots hseat
        hcode).left.toAbides
  | tryPrimitive _ serves number hreceiver hargs hseat ih =>
      exact (Eval.Upholds.tryPrimitive ⟨ih, lawful, serves⟩ hreceiver hargs hseat).left.toAbides
  | frame _ alone hvalues hseat ih => exact ih.newFrame lawful hvalues hseat
  | journal _ recording ih => exact ih.journal lawful _
  | during _ serves within hrequires hc ih =>
      exact (hc.upheld ⟨ih, lawful, serves⟩ hrequires).1.toAbides
  | after _ serves within hrequires hc ih =>
      obtain ⟨g, hrequires'⟩ := hc.upheld ⟨ih, lawful, serves⟩ hrequires
      exact (Call.upheld g hrequires').left.toAbides

end Smalltalk
