import Smalltalk.Proofs.Change
import Smalltalk.Proofs.Kernel
import Smalltalk.Proofs.Step
import Smalltalk.Request

/-!
# `Smalltalk.Proofs.Session`: every memory that a session can reach

A session starts with the kernel and goes on with commands from outside:
classes are defined and extended, globals set, values made, queries evaluated.
`Session R m` says that a session inside the regime can have reached `m`. A
command that ends with a fault leaves the memory that it has got to, and the
session goes on from there.

`Session.good` is the result: between two commands the invariant holds, with no
activation in progress. `Query.keeps` says it of one query, given how tasks are
done. The queries differ in the frame they open: sending and executing leave
that to the activation, workspace code has a frame of its own (`Query.opens`).
-/

set_option autoImplicit false

namespace Smalltalk

/-! ### Queries -/

/-- A request that evaluates. -/
inductive Query where
  | send (receiver : Value) (selector : Json) (args : List Value)
  | execute (method : Method) (receiver : Value) (args : List Value)
  | executeNode (node : Node) (receiver : Value) (args : List Value)
  | doit (code : Node) (receiver : Value)

namespace Query

/-- Evaluates. -/
def perform (settings : Settings) : Query → Eval Value
  | send receiver selector args => Eval.send settings receiver selector args
  | execute method receiver args => Eval.execute settings method receiver args
  | executeNode node receiver args => Eval.executeNode settings node receiver args
  | doit code receiver => Eval.doit settings code receiver

/-- Makes the frame of workspace code. -/
def enter (receiver : Value) : Eval FrameId := do
  let owner ← Eval.classOf receiver
  Eval.make fun h => h.newFrame { receiver, method := some (Eval.workspaceMethod owner) }

/-- Does all that comes before the one task of a query, and answers the task. -/
def prepare : Query → Eval Task
  | send receiver selector args => do
    let b ← Eval.classOf receiver
    match ← Eval.methodFrom selector (some b) with
    | none => Eval.notUnderstood receiver selector
    | some method => pure (.activate method receiver args [])
  | execute method receiver args => pure (.activate method receiver args [])
  | executeNode node receiver args =>
    match node with
    | .method selector params temps statements primitive => do
      let owner ← Eval.classOf receiver
      pure (.activate ⟨selector, params, temps, statements, primitive, owner⟩ receiver args [])
    | _ => Eval.fail .notAMethod
  | doit code receiver => do
    let frame ← enter receiver
    pure (.evaluate code frame)

/-- What a query is doing, as the fault of a depth that is exhausted says it. -/
def activity (task : Task) (m : Memory) : Except Fault String :=
  match task with
  | .activate method _ _ _ => (m.methodWord method).map ("while running " ++ ·)
  | _ => .ok "in DoIt"

/-- What a query makes of its task: an exhausted depth gets a name, and the frame of
workspace code is closed. -/
def conclude (task : Task) (act : Eval Value) : Eval Value :=
  Eval.naming (activity task) <|
    match task with
    | .evaluate _ frame => Eval.closing frame act
    | _ => act

/-- Evaluates, given how tasks are done. -/
def performBy (rec : Task → Eval Value) (q : Query) : Eval Value := do
  let task ← q.prepare
  conclude task (rec task)

/-- The frames that a query closes after its task: that of workspace code. -/
def closes : Task → List FrameId
  | .evaluate _ frame => [frame]
  | _ => []

/-- The frames that a query opens itself: workspace code gets the next one. -/
def opens (m : Memory) : Query → List FrameId
  | doit _ _ => [m.heap.frames.size]
  | _ => []

theorem notUnderstood_bind {α β : Type} (receiver : Value) (selector : Json) (k : α → Eval β) :
    (Eval.notUnderstood receiver selector >>= k) = Eval.notUnderstood receiver selector := by
  unfold Eval.notUnderstood
  rw [bind_assoc]
  refine congrArg (Eval.classOf receiver >>= ·) (funext fun b => ?_)
  rw [bind_assoc]
  rfl

theorem perform_eq_performBy (settings : Settings) (q : Query) :
    q.perform settings = q.performBy (Eval.run settings settings.depth) := by
  cases q with
  | send receiver selector args =>
      unfold performBy prepare
      rw [bind_assoc]
      refine congrArg (Eval.classOf receiver >>= ·) (funext fun b => ?_)
      rw [bind_assoc]
      refine congrArg (Eval.methodFrom selector (some b) >>= ·) (funext fun found => ?_)
      cases found with
      | none => exact (notUnderstood_bind _ _ _).symm
      | some method => rfl
  | execute method receiver args => rfl
  | executeNode node receiver args =>
      cases node with
      | method selector params temps statements primitive =>
          unfold performBy prepare
          rw [bind_assoc]
          rfl
      | _ => rfl
  | doit code receiver =>
      unfold performBy prepare enter
      rw [bind_assoc, bind_assoc]
      rfl

end Query

variable {R : Regime} {m : Memory} {opened : List FrameId}

/-- What a query needs of the memory it starts in. Only a method tree can be
executed. -/
def Regime.Asks (R : Regime) (m : Memory) : Query → Prop
  | .send receiver selector args =>
    R.Holds m receiver ∧ R.name selector = true ∧ ∀ v ∈ args, R.Holds m v
  | .execute method receiver args =>
    R.method method = true ∧ R.Holds m receiver ∧ ∀ v ∈ args, R.Holds m v
  | .executeNode node receiver args =>
    R.node node = true ∧ (R.named = true → ∃ method : Method, method.toNode = node) ∧
      R.Holds m receiver ∧ ∀ v ∈ args, R.Holds m v
  | .doit code receiver => R.node code = true ∧ R.Holds m receiver

namespace Eval

/-- What has not exhausted the depth is left alone. An exhausted depth becomes a fault, which
names the activity if this has a name. -/
theorem naming_cases (activity : Memory → Except Fault String) (act : Eval Value) (m : Memory) :
    ((∀ m₁, act m ≠ .error .tooDeep m₁) ∧ Eval.naming activity act m = act m) ∨
      ∃ m₁ f, act m = .error .tooDeep m₁ ∧ Eval.naming activity act m = .error (.fault f) m₁ ∧
        ((∃ words, f = .tooDeep words) ∨ activity m₁ = .error f) := by
  unfold Eval.naming
  cases hact : act m with
  | ok v m₁ => exact .inl ⟨fun _ => nofun, rfl⟩
  | error stop m₁ =>
      cases stop with
      | tooDeep =>
          simp only
          cases hwords : activity m₁ with
          | ok words => exact .inr ⟨m₁, _, rfl, rfl, .inl ⟨words, rfl⟩⟩
          | error f => exact .inr ⟨m₁, f, rfl, rfl, .inr hwords⟩
      | unwind | fault | unfinished => exact .inl ⟨fun _ => nofun, rfl⟩

theorem Keeps.naming {activity : Memory → Except Fault String} {act : Eval Value}
    {post : Value → Memory → Prop} (h : Keeps R opened act m post)
    (hactivity : ∀ m' f, activity m' = .error f → R.Fails f) :
    Keeps R opened (Eval.naming activity act) m post := by
  unfold Keeps at h ⊢
  rcases naming_cases activity act m with ⟨-, hsame⟩ | ⟨m₁, f, hact, hnamed, hf⟩
  · rw [hsame]
    exact h
  · rw [hact] at h
    rw [hnamed]
    refine ⟨h.1, h.2.1, ?_⟩
    rcases hf with ⟨words, rfl⟩ | hwords
    · exact Regime.fails_of rfl
    · exact hactivity m₁ f hwords

end Eval

namespace Query

open Eval

variable {rec : Task → Eval Value}

/-- The frame of workspace code has the next number and is in progress. -/
theorem enter_keeps (g : m.Good R opened) {receiver : Value} (hreceiver : R.Holds m receiver) :
    Keeps R opened (enter receiver) m fun f m' =>
      f = m.heap.frames.size ∧ m'.Good R (f :: opened) ∧
        Heap.Settled (f :: opened) m'.heap f := by
  refine Keeps.bind (Keeps.classOf g hreceiver) ?_
  intro owner m₁ _ g₁ hsame
  subst hsame
  have hcode : R.method (Eval.workspaceMethod owner) = true := by
    cases hnamed : R.named <;> rfl
  refine (Keeps.makeHome g₁ hreceiver rfl ⟨_, rfl, hcode⟩ rfl).weaken ?_
  intro f m₂ _ g₂ hf
  obtain ⟨hnext, hlt, hframe⟩ := hf
  refine ⟨hnext, settled_begin g₂ hlt ?_ ?_⟩
  · rw [hframe]
  · rw [hframe]

/-- The task of a query gets what it needs, with the frame of workspace code open. -/
theorem prepare_keeps (g : m.Good R []) {q : Query} (hq : R.Asks m q) :
    Keeps R [] q.prepare m fun task m' =>
      closes task = q.opens m ∧ m'.Good R (q.opens m) ∧ R.Requires (q.opens m) m' task := by
  -- the task of all queries but workspace code is an activation
  have hactivation : ∀ (method : Method) (receiver : Value) (args : List Value) (m' : Memory),
      m'.Good R [] → R.method method = true → R.Holds m' receiver → (∀ v ∈ args, R.Holds m' v) →
      Keeps R [] (pure (.activate method receiver args [])) m' fun task m' =>
        closes task = [] ∧ m'.Good R [] ∧ R.Requires [] m' task := by
    intro method receiver args m' g' hmethod hreceiver hargs
    exact Keeps.pure g' ⟨rfl, g', hmethod, hreceiver, hargs, fun _ h => nomatch h⟩
  cases q with
  | send receiver selector args =>
      obtain ⟨hreceiver, hselector, hargs⟩ := hq
      refine Keeps.bind (Keeps.classOf g hreceiver) ?_
      intro b m₁ l₁ g₁ _
      refine Keeps.bind (Keeps.methodFrom g₁ hselector (some b)) ?_
      intro found m₂ l₂ g₂ hfound
      have hreceiver₂ := hreceiver.later (l₁.trans l₂)
      have hargs₂ : ∀ v ∈ args, R.Holds m₂ v := fun v hv => (hargs v hv).later (l₁.trans l₂)
      cases found with
      | none => exact Keeps.notUnderstood g₂ hreceiver₂ hselector
      | some method => exact hactivation _ _ _ m₂ g₂ (hfound method rfl) hreceiver₂ hargs₂
  | execute method receiver args =>
      obtain ⟨hmethod, hreceiver, hargs⟩ := hq
      exact hactivation _ _ _ m g hmethod hreceiver hargs
  | executeNode node receiver args =>
      obtain ⟨hnode, hsort, hreceiver, hargs⟩ := hq
      have hmisuse : (∀ method : Method, method.toNode ≠ node) → R.Fails .notAMethod := fun hne =>
        ⟨fun hnamed => (hsort hnamed).elim fun method h => absurd h (hne method),
          fun _ h => nomatch h⟩
      cases node with
      | method selector params temps statements primitive =>
          refine Keeps.bind (Keeps.classOf g hreceiver) ?_
          intro owner m₁ l₁ g₁ _
          have hmethod : R.method ⟨selector, params, temps, statements, primitive, owner⟩ = true :=
            hnode
          exact hactivation _ _ _ m₁ g₁ hmethod (hreceiver.later l₁)
            fun v hv => (hargs v hv).later l₁
      | _ => exact Keeps.fail g (hmisuse fun _ h => nomatch h)
  | doit code receiver =>
      obtain ⟨hcode, hreceiver⟩ := hq
      refine Keeps.bind (enter_keeps g hreceiver) ?_
      intro f m₁ l₁ g₁ hf
      obtain ⟨rfl, hbegun, hsettled⟩ := hf
      exact Keeps.pure g₁ ⟨rfl, hbegun, hcode, hsettled⟩

theorem conclude_keeps {task : Task} {act : Eval Value} {m₀ : Memory}
    (hact : Keeps R (closes task) act m fun v m' => R.Holds m' v)
    (hrequires : R.Requires opened m₀ task) :
    Keeps R [] (conclude task act) m fun v m' => R.Holds m' v := by
  cases task with
  | activate method receiver args callers =>
      obtain ⟨hselector, -⟩ := R.method_eq_true_iff.mp hrequires.1
      refine Keeps.naming hact ?_
      intro m' f hf
      -- the activity names the method
      simp only [activity] at hf
      cases hword : m'.methodWord method with
      | ok word =>
          rw [hword] at hf
          cases hf
      | error f' =>
          rw [hword] at hf
          exact Except.error.inj hf ▸ Regime.fails_of_methodWord hselector hword
  | evaluate code frame =>
      exact Keeps.naming (Kept.closing List.not_mem_nil hact) fun _ _ h => nomatch h
  | invoke closure args caller => exact Keeps.naming hact fun _ _ h => nomatch h

/-- A query keeps the invariant, given that tasks do so while its frame is open. -/
theorem keeps (hrec : ∀ opened, R.Honours opened rec) (g : m.Good R []) {q : Query}
    (hq : R.Asks m q) : Keeps R [] (q.performBy rec) m fun v m' => R.Holds m' v := by
  refine Keeps.bind (prepare_keeps g hq) ?_
  intro task m₁ _ _ htask
  obtain ⟨hcloses, g₁, hrequires⟩ := htask
  refine conclude_keeps ?_ hrequires
  rw [hcloses]
  exact hrec _ task m₁ g₁ hrequires

end Query

/-! ### Depth -/

/-- An evaluation that never ends by nesting too deeply. -/
def Eval.Shallow {α : Type} (act : Eval α) : Prop := ∀ m m', act m ≠ .error .tooDeep m'

namespace Eval.Shallow

variable {α β : Type}

theorem pure (a : α) : Shallow (Pure.pure a) := fun _ _ h => nomatch h

theorem fail (f : Fault) : Shallow (Eval.fail f : Eval α) := fun _ _ h => nomatch h

theorem bind {x : Eval α} {f : α → Eval β} (hx : Shallow x) (hf : ∀ a, Shallow (f a)) :
    Shallow (x >>= f) := by
  intro m m' h
  cases hr : x m with
  | ok a m₁ =>
      rw [bind_of_ok hr] at h
      exact hf a m₁ m' h
  | error s m₁ =>
      rw [bind_of_error hr] at h
      obtain rfl : s = .tooDeep := congrArg (fun | .error s _ => s | .ok _ _ => .tooDeep) h
      exact hx m m₁ hr

theorem ofExcept (e : Except Fault α) : Shallow (Eval.ofExcept e) := by
  cases e with
  | ok a => exact pure a
  | error f => exact fail f

theorem ask (f : Memory → α) : Shallow (Eval.ask f) := fun _ _ h => nomatch h

theorem classOf (v : Value) : Shallow (Eval.classOf v) := by
  refine bind (x := MonadState.get) (fun _ _ h => nomatch h) ?_
  intro m
  cases m.classOf? v with
  | some b => exact pure b
  | none => exact fail _

theorem methodFrom (selector : Json) (start : Option Behavior) :
    Shallow (Eval.methodFrom selector start) := by
  cases start with
  | none => exact pure none
  | some b => exact bind (ofExcept _) fun key => ask _

theorem notUnderstood (receiver : Value) (selector : Json) :
    Shallow (Eval.notUnderstood receiver selector : Eval α) :=
  bind (classOf receiver) fun _ => bind (ask _) fun _ => fail _

/-- Whatever nests too deeply gets a name. -/
theorem naming (activity : Memory → Except Fault String) (act : Eval Value) :
    Shallow (Eval.naming activity act) := by
  intro m m' h
  rcases naming_cases activity act m with ⟨hnot, hsame⟩ | ⟨m₁, f, -, hnamed, -⟩
  · exact hnot m' (hsame.symm.trans h)
  · cases hnamed.symm.trans h

end Eval.Shallow

open Eval in
/-- Every query names what nests too deeply. -/
theorem Query.shallow (rec : Task → Eval Value) (q : Query) : Shallow (q.performBy rec) := by
  refine Shallow.bind ?_ fun task => Shallow.naming _ _
  cases q with
  | send receiver selector args =>
      refine Shallow.bind (Shallow.classOf receiver) ?_
      intro b
      refine Shallow.bind (Shallow.methodFrom selector (some b)) ?_
      intro found
      cases found with
      | none => exact Shallow.notUnderstood receiver selector
      | some method => exact Shallow.pure _
  | execute method receiver args => exact Shallow.pure _
  | executeNode node receiver args =>
      cases node with
      | method selector params temps statements primitive =>
          exact Shallow.bind (Shallow.classOf receiver) fun owner => Shallow.pure _
      | _ => exact Shallow.fail _
  | doit code receiver =>
      refine Shallow.bind (Shallow.bind (Shallow.classOf receiver) fun owner => ?_)
        fun frame => Shallow.pure _
      exact fun _ _ h => nomatch h

/-- How a query may end: with an admitted value, with a fault that may arise, or
unfinished. -/
def Regime.Ends (R : Regime) : Outcome Value → Prop
  | .ok v m => R.Holds m v
  | .error (.fault f) _ => R.Fails f
  | .error .unfinished _ => True
  | .error (.unwind _ _) _ | .error .tooDeep _ => False

/-- A query ends as the regime has it. -/
theorem Query.ends {settings : Settings} (suits : R.Suits settings) (g : m.Good R [])
    {q : Query} (hq : R.Asks m q) : R.Ends (q.perform settings m) := by
  rw [perform_eq_performBy]
  have hkeeps := q.keeps (Regime.Honours.run suits settings.depth) g hq
  have hshallow := q.shallow (Eval.run settings settings.depth) m
  unfold Eval.Keeps at hkeeps
  cases hout : q.performBy (Eval.run settings settings.depth) m with
  | ok v m' =>
      rw [hout] at hkeeps
      exact hkeeps.2.2
  | error stop m' =>
      rw [hout] at hkeeps
      cases stop with
      | unwind v home =>
          -- nothing is in progress that it could unwind to
          exact absurd hkeeps.2.2.1 List.not_mem_nil
      | fault f => exact hkeeps.2.2
      | tooDeep => exact absurd hout (hshallow m')
      | unfinished => trivial

/-! ### Commands -/

/-- The memory that is left, however an action ended. -/
def left {ε α : Type} : EStateM.Result ε Memory α → Memory
  | .ok _ m => m
  | .error _ m => m

/-- What is asked for from outside. Numbering the texts of a tree, texts and arrays
come from outside as well. -/
inductive Command where
  | define (name superclass instanceVariables indexable : Json)
  | compile (owner : Behavior) (code : Node) (protocol : Json)
  | load (image : Json)
  | setGlobal (name : Json) (value : Value)
  | place (code : Node)
  | makeText (s : String)
  | makeArray (elements : Array Value)
  | evaluate (settings : Settings) (query : Query)

/-- The memory that a command leaves. -/
def Command.run (m : Memory) : Command → Memory
  | define name superclass instanceVariables indexable =>
    left (Change.define name superclass instanceVariables indexable m)
  | compile owner code protocol => left (Change.compile owner code protocol m)
  | load image => left (Image.load image m)
  | setGlobal name value => left (Eval.assignGlobal name value m)
  | place code => left (Change.place code m)
  | makeText s => left (Eval.makeText s m)
  | makeArray elements => left (Eval.make (fun h => h.newArray elements) m)
  | evaluate settings query => left (query.perform settings m)

/-- What a command may contain. -/
def Regime.Allows (R : Regime) (m : Memory) : Command → Prop
  | .define .. | .place _ | .makeText _ => True
  | .compile _ code _ => R.node code = true
  | .load image => R.image image = true
  | .setGlobal _ value => R.Holds m value
  | .makeArray elements => ∀ v ∈ elements, R.Holds m v
  | .evaluate settings query => R.Suits settings ∧ R.Asks m query

/-- The memories that a session inside the regime can reach. -/
inductive Session (R : Regime) : Memory → Prop where
  | start : Session R Kernel.memory
  | next {m : Memory} {command : Command} (session : Session R m)
      (allowed : R.Allows m command) : Session R (command.run m)

theorem Change.Keeps.left_good {α : Type} {act : Change α} {post : α → Memory → Prop}
    (h : Change.Keeps R act m post) : (left (act m)).Good R [] := by
  unfold Change.Keeps at h
  cases hact : act m with
  | ok a m' =>
      rw [hact] at h
      exact h.1
  | error f m' =>
      rw [hact] at h
      exact h

theorem Eval.Keeps.left_good {α : Type} {act : Eval α} {post : α → Memory → Prop}
    (h : Eval.Keeps R opened act m post) : (left (act m)).Good R opened := by
  unfold Eval.Keeps at h
  cases hact : act m with
  | ok a m' =>
      rw [hact] at h
      exact h.2.1
  | error s m' =>
      rw [hact] at h
      exact h.2.1

/-- One case for each command. -/
theorem Command.run_good (g : m.Good R []) {command : Command} (allowed : R.Allows m command) :
    (command.run m).Good R [] := by
  cases command with
  | define name superclass instanceVariables indexable =>
      exact (Change.Keeps.define g name superclass instanceVariables indexable).left_good
  | compile owner code protocol => exact (Change.Keeps.compile g owner allowed protocol).left_good
  | load image => exact (Image.load_keeps allowed g).left_good
  | setGlobal name value =>
      -- a name that names nothing binds nothing, whatever the fault is
      show (left (EStateM.bind (Eval.ofExcept (Fault.keyOf name)) _ m)).Good R []
      unfold EStateM.bind
      cases hkey : Fault.keyOf name with
      | ok key => exact g.bind key name allowed
      | error f => exact g
  | place code => exact (Change.Keeps.place g code).left_good
  | makeText s => exact g.newText s
  | makeArray elements => exact g.newArray allowed
  | evaluate settings query =>
      obtain ⟨suits, hq⟩ := allowed
      show (left (query.perform settings m)).Good R []
      rw [Query.perform_eq_performBy]
      exact (query.keeps (Regime.Honours.run suits settings.depth) g hq).left_good

/-- Between two commands of a session nothing is in progress and the invariant
holds. -/
theorem Session.good (hsmall : ∀ i, SmallInteger.holds i = true → R.int i = true)
    (session : Session R m) : m.Good R [] := by
  induction session with
  | start => exact Kernel.memory_good hsmall
  | next _ allowed ih => exact Command.run_good ih allowed

end Smalltalk
