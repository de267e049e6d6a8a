import Smalltalk.Proofs.Resolve

/-!
# `Smalltalk.Proofs.Declared`: sessions of well-scoped code

A command is well-scoped (`Command.isScoped`) when all code that it brings in is: the
methods that it compiles, loads or executes, and the workspace code that it evaluates.
`ScopedSession L m` are the memories that such commands lead to from the kernel, each
with the layout of its frames.

Commands that change the classes come down to revisions that install well-scoped
methods, so the laid memory stays laid (`Memory.Laid.revisions`). A query enters the
evaluator with a ready task, but for workspace code that is a sequence: there the first
call makes the declarations, in a frame that is there already
(`Call.resolves_of_workspace`).

`variables_resolve_lexically` is the result. No query of such a session ends with a
variable that nobody declares, and every call that comes up reads and assigns where the
text says.
-/

set_option autoImplicit false

namespace Smalltalk

open Memory (Reached Keeps)

variable {L L₀ : Layout} {m m₀ m' : Memory}

/-! ### Trees that are placed -/

theorem Nest.knows_congr {nest nest' : Nest} (h : nest.map Body.names = nest'.map Body.names)
    (name : Json) (kind : VariableKind) : nest.knows name kind = nest'.knows name kind := by
  have hany : ∀ key, (nest.any fun b => b.declares key) = nest'.any fun b => b.declares key := by
    intro key
    have hmap := congrArg (fun ns => ns.any fun names : List Json =>
      names.any fun name => name.key? = some key) h
    simp only [List.any_map] at hmap
    exact hmap
  unfold knows
  simp only [hany]

mutual
/-- Where a tree is placed does not matter for the names in it. -/
theorem Node.isScoped_withSites (next : Nat) {nest nest' : Nest}
    (h : nest.map Body.names = nest'.map Body.names) :
    (n : Node) → (n.withSites next).1.isScoped nest = n.isScoped nest'
  | .self | .super | .symbol _ | .method .. | .sequence .. => rfl
  | .literal value => by cases value <;> rfl
  | .reference name kind index => Nest.knows_congr h name kind
  | .literalArray elements => allScoped_withSites next h elements
  | .block params temps statements => by
      simp only [Node.withSites, Node.isScoped]
      exact allScoped_withSites next (by simp only [List.map_cons, h]) statements
  | .send receiver selector args => by
      simp only [Node.withSites, Node.isScoped]
      rw [receiver.isScoped_withSites next h, allScoped_withSites _ h args]
  | .assign name kind index value => by
      simp only [Node.withSites, Node.isScoped]
      rw [Nest.knows_congr h, value.isScoped_withSites next h]
  | .answer value => value.isScoped_withSites next h

/-- The same of every tree of a list. -/
theorem allScoped_withSites (next : Nat) {nest nest' : Nest}
    (h : nest.map Body.names = nest'.map Body.names) :
    (ns : List Node) → allScoped nest (Node.listWithSites next ns).1 = allScoped nest' ns
  | [] => rfl
  | n :: rest => by
      simp only [Node.listWithSites, allScoped]
      rw [n.isScoped_withSites next h, allScoped_withSites _ h rest]
end

/-- A method whose code is well-scoped. -/
def Method.IsScoped (method : Method) : Prop := method.body.isScoped [] = true

/-- A tree that describes a well-scoped method files only well-scoped ones. -/
theorem Node.files_of_isScopedMethod {node : Node} (h : node.isScopedMethod = true) :
    node.Files Method.IsScoped := by
  intro owner next method hmethod
  cases node with
  | method selector params temps statements primitive =>
      cases hmethod
      let nest : Nest := [⟨params ++ temps, (listWithSites next statements).1⟩]
      let nest' : Nest := [⟨params ++ temps, statements⟩]
      have hnest : nest.map Body.names = nest'.map Body.names := rfl
      exact (allScoped_withSites next hnest statements).trans h
  | literal value => cases value <;> cases hmethod
  | _ => cases hmethod

/-! ### Commands -/

/-- Whether the code that a query brings in is well-scoped. -/
def Query.isScoped : Query → Bool
  | send .. => true
  | execute method _ _ => method.body.isScoped []
  | executeNode node _ _ => node.isScopedMethod
  | doit code _ => code.workspace.isScoped []

/-- Whether the code that a command brings in is well-scoped. -/
def Command.isScoped : Command → Bool
  | compile _ code _ => code.isScopedMethod
  | load image => (Image.trees image).all Node.isScopedMethod
  | evaluate _ query => query.isScoped
  | _ => true

/-- Adds what a command makes frames for. -/
def Command.layout (m : Memory) (L : Layout) : Command → Layout
  | evaluate settings query => (query.layout settings m L).after (query.trace settings m)
  | _ => L

/-- The memories that a session of well-scoped code can reach, and what the frames in them
are made for. The journal may be turned on and off. -/
inductive ScopedSession : Layout → Memory → Prop where
  | start : ScopedSession [] Kernel.memory
  | next {L : Layout} {m : Memory} (session : ScopedSession L m) {command : Command}
      (wellScoped : command.isScoped = true) : ScopedSession (command.layout m L) (command.run m)
  | journal {L : Layout} {m : Memory} (session : ScopedSession L m) (recording : Bool) :
    ScopedSession L { m with journal := { m.journal with recording } }

/-! ### Changes of the classes -/

namespace Memory

/-- What is installed well-scoped is found well-scoped. -/
theorem Revision.scoped (r : m.Revision Method.IsScoped m') (h : m.registry.Scoped) :
    m'.registry.Scoped := fun b key method hfind =>
  (r.installed b key method hfind).elim (h b key method) And.left

/-- Code stays where it stands while the classes change. -/
theorem Laid.revision (h : m.Laid L) (r : m.Revision Method.IsScoped m') : m'.Laid L := by
  have hheap := r.edit.heap
  have hframe : ∀ f, m'.heap.frame f = m.heap.frame f := fun f => by rw [hheap]; rfl
  have hclosure : ∀ c, m'.heap.closure c = m.heap.closure c := fun c => by rw [hheap]; rfl
  have hkeeps : Keeps L m m' :=
    ⟨fun f _ => congrArg Frame.outer (hframe f), fun f _ key => by rw [hframe f]⟩
  refine ⟨?_, fun c hc => ?_, r.scoped h.installed⟩
  · rw [hheap]
    exact h.bound
  · rw [hheap] at hc
    rw [hclosure]
    exact (h.closure c hc).later hkeeps (List.prefix_refl L)

/-- A memory in which all code is laid, in a layout of all frames. -/
structure Laidout (m : Memory) (L : Layout) : Prop where
  laid : m.Laid L
  size : L.length = m.heap.frames.size

theorem Laidout.revisions (h : m.Laidout L) (r : m.Revisions Method.IsScoped m') :
    m'.Laidout L := by
  refine Moves.preserve (P := fun m' => m'.Laidout L) r (fun m₁ m₂ r h => ?_) h
  refine ⟨h.laid.revision r, h.size.trans ?_⟩
  rw [r.edit.heap]

theorem Laidout.calm (h : m.Laidout L) (hcalm : m.Calm [] m') : m'.Laidout L :=
  ⟨hcalm.laid (fun _ hf => nomatch hf) h.laid, h.size.trans hcalm.frames.symm⟩

theorem Reached.laidout (h : m₀.Reached L₀ L m) : m.Laidout L := ⟨h.laid, h.size⟩

/-- The kernel has made no frame and no closure yet. -/
theorem laidout_kernel : Kernel.memory.Laidout [] := by
  have hempty : Kernel.memory.heap.frames.size = 0 ∧ Kernel.memory.heap.closures.size = 0 := by
    refine Moves.preserve (P := fun m => m.heap.frames.size = 0 ∧ m.heap.closures.size = 0)
      Kernel.memory_edits (fun m m' e h => ?_) ⟨rfl, rfl⟩
    rw [e.heap]
    exact h
  refine ⟨⟨Nat.zero_le _, fun c hc => ?_, Kernel.registry_scoped⟩, hempty.1.symm⟩
  rw [hempty.2] at hc
  exact absurd hc (Nat.not_lt_zero c)

end Memory

/-! ### Queries -/

namespace Eval

variable {α : Type} {outcome : Outcome α}

/-- What ends in a later layout of a later memory, seen from the start. -/
theorem Ends.of_reached {L₁ : Layout} {m₁ : Memory} (h : m₀.Reached L₀ L₁ m₁)
    (hends : Ends L₁ m₁ L outcome) : Ends L₀ m₀ L outcome := by
  cases outcome with
  | ok a m => exact h.trans hends
  | error s m => exact ⟨h.trans hends.1, hends.2⟩

/-- The memory that is left. -/
theorem Ends.left (h : Ends L₀ m₀ L outcome) : m₀.Reached L₀ L (left outcome) := by
  cases outcome with
  | ok a m => exact h
  | error s m => exact h.1

/-- An exhausted depth that gets a name. -/
theorem Ends.naming {activity : Memory → Except Fault String} {act : Eval Value}
    (hactivity : ∀ m f, activity m = .error f → f.isResolved = true)
    (h : Ends L₀ m₀ L (act m)) : Ends L₀ m₀ L (Eval.naming activity act m) := by
  rcases naming_cases activity act m with ⟨-, hsame⟩ | ⟨m₁, f, hact, hnamed, hf⟩
  · rw [hsame]
    exact h
  · rw [hact] at h
    rw [hnamed]
    refine ⟨h.1, ?_⟩
    rcases hf with ⟨words, rfl⟩ | hwords
    · rfl
    · exact hactivity m₁ f hwords

/-- What a query does after its task has nothing to do with scopes. -/
theorem Ends.conclude {task : Task} {act : Eval Value} (h : Ends L₀ m₀ L (act m)) :
    Ends L₀ m₀ L (Query.conclude task act m) := by
  cases task with
  | activate method receiver args callers =>
      exact Ends.naming (fun m f hf => Fault.isResolved_of_isMisuse
        (Fault.isMisuse_of_map (fun _ => Fault.isMisuse_of_methodWord) hf)) h
  | evaluate code f =>
      refine Ends.naming (fun _ _ hf => nomatch hf) ?_
      show Ends L₀ m₀ L (Eval.closing f act m)
      rw [closing_eq_close]
      exact h.closeAll [f]
  | invoke c args caller => exact Ends.naming (fun _ _ hf => nomatch hf) h

end Eval

/-- Workspace code in the frame that is made for it. A sequence declares its temps in that
very frame, and any other tree stands there as the only statement. -/
theorem Call.resolves_of_workspace (settings : Settings) (depth : Nat) {code : Node}
    (hopens : m.Opens L) (hkeeps : Keeps L m₀ m) (hframe : (m.heap.frame L.length).outer = [])
    (hnames : m.Declares L.length []) (hcode : code.workspace.isScoped [] = true) :
    (L ++ [[code.workspace]]).Along (Call.Resolves settings)
        (traceOf settings depth (.evaluate code L.length) m) ∧
      Eval.Ends L m₀
        ((L ++ [[code.workspace]]).after (traceOf settings depth (.evaluate code L.length) m))
        (Eval.run settings depth (.evaluate code L.length) m) := by
  have hlies : m.heap.Lies L (m.heap.frame L.length).outer [] := by
    rw [hframe]
    exact .nil
  have hwritten : Nest.Written [code.workspace] := .outermost hcode
  have hreached := hopens.reached hkeeps [code.workspace]
  by_cases hsequence : ∃ temps statements, code = .sequence temps statements
  · obtain ⟨temps, statements, rfl⟩ := hsequence
    -- the sequence itself reads and assigns nothing
    have hself : ∀ d L', Eval.Ends L m₀ L' (Eval.run settings d
        (.evaluate (.sequence temps statements) L.length) m) →
        Call.Resolves settings (L ++ [[⟨temps, statements⟩]])
          ⟨.evaluate (.sequence temps statements) L.length, m, d⟩ := fun d L' hends =>
      ⟨hreached.size, hends.declared, (fun _ _ _ _ _ h => nomatch h),
        fun _ _ _ _ _ _ h => nomatch h⟩
    cases depth with
    | zero =>
        have hends : Eval.Ends L m₀ (L ++ [[⟨temps, statements⟩]]) (Eval.run settings 0
            (.evaluate (.sequence temps statements) L.length) m) := ⟨hreached, rfl⟩
        exact ⟨⟨hself 0 _ hends, trivial⟩, hends⟩
    | succ d =>
        have hbody : (Planned.runBody L.length temps statements).Sound L m₀
            (L ++ [[⟨temps, statements⟩]]) m :=
          Planned.sound_runBody hopens hkeeps hnames fun _ => ⟨hlies, hwritten⟩
        obtain ⟨halong, hends⟩ := hbody.follow fun task m L =>
          Call.resolves_of_trace settings d task
        have hrun : Eval.run settings (d + 1) (.evaluate (.sequence temps statements) L.length) m
            = ((Planned.runBody L.length temps statements).plan m).follow
                (Eval.run settings d) :=
          (Planned.runBody L.length temps statements).follows (Eval.run settings d) m
        rw [← hrun] at hends
        rw [traceOf_succ]
        exact ⟨⟨hself (d + 1) _ hends, halong⟩, hends⟩
  · have hbody : code.workspace = ⟨[], [code]⟩ := by
      cases code with
      | sequence temps statements => exact absurd ⟨temps, statements, rfl⟩ hsequence
      | _ => rfl
    have hstands : m.Stands (L ++ [[code.workspace]]) L.length [code.workspace] := by
      refine Memory.Opens.stands ?_ hlies hwritten
      rw [hbody]
      exact hnames
    have hwrites : code.workspace.Writes code := by
      rw [hbody]
      exact Body.writes_statement List.mem_cons_self
    obtain ⟨halong, hends⟩ := Call.resolves_of_trace settings depth (.evaluate code L.length)
      hreached.laid hreached.size ⟨code.workspace, [], hstands, hwrites⟩
    exact ⟨halong, hends.of_reached hreached⟩

namespace Query

open Eval

/-- The task of a query that makes no frame itself is the activation of a well-scoped method. -/
theorem prepare_calm {q : Query} (hinstalled : m.registry.Scoped) (hq : q.isScoped = true)
    (hframe : ∀ code receiver, q ≠ .doit code receiver) :
    Calm [] q.prepare m fun task m' => task.Ready m' L := by
  cases q with
  | send receiver selector args =>
      refine Calm.bind (Calm.classOf receiver) ?_
      rintro b m₁ - rfl
      refine Calm.bind (Calm.methodFrom hinstalled selector (some b)) ?_
      intro found m₂ _ hfound
      cases found with
      | none => exact Calm.notUnderstood receiver selector
      | some method => exact Calm.pure (hfound method rfl)
  | execute method receiver args => exact Calm.pure hq
  | executeNode node receiver args =>
      cases node with
      | method selector params temps statements primitive =>
          exact Calm.bind (Calm.classOf receiver) fun owner m₁ _ _ => Calm.pure hq
      | _ => exact Calm.fail rfl
  | doit code receiver => exact absurd rfl (hframe code receiver)

/-- The calls of a query resolve, and the query ends in a layout of all frames. -/
def Resolves (settings : Settings) (m : Memory) (L : Layout) (q : Query) : Prop :=
  (q.layout settings m L).Along (Call.Resolves settings) (q.trace settings m) ∧
    Ends L m ((q.layout settings m L).after (q.trace settings m)) (q.perform settings m)

/-- A query resolves when its task does. -/
theorem resolves_of_ok {settings : Settings} {q : Query} {task : Task} {L' : Layout}
    (h : q.prepare m = .ok task m') (hlayout : q.layout settings m L = L')
    (halong : L'.Along (Call.Resolves settings) (Call.traceOf settings settings.depth task m'))
    (hends : Ends L m (L'.after (Call.traceOf settings settings.depth task m'))
      (run settings settings.depth task m')) : q.Resolves settings m L := by
  have htrace : q.trace settings m = Call.traceOf settings settings.depth task m' := by
    unfold Query.trace
    rw [call?_of_ok h]
    rfl
  unfold Resolves
  rw [hlayout, htrace, perform_eq_performBy]
  refine ⟨halong, ?_⟩
  unfold performBy
  rw [bind_of_ok h]
  exact hends.conclude

/-- A query that does not get to a task makes no frame. -/
theorem resolves_of_error {settings : Settings} {q : Query} {s : Stop}
    (h : q.prepare m = .error s m') (hlayout : q.layout settings m L = L)
    (hreached : m.Reached L L m') (hresolved : s.isResolved = true) :
    q.Resolves settings m L := by
  have htrace : q.trace settings m = [] := by
    unfold Query.trace
    rw [call?_of_error h]
  unfold Resolves
  rw [hlayout, htrace, perform_eq_performBy]
  refine ⟨trivial, ?_⟩
  unfold performBy
  rw [bind_of_error h]
  exact ⟨hreached, hresolved⟩

/-- Workspace code runs in a frame that is made for it, if the receiver has a class. -/
theorem resolves_doit (settings : Settings) (h : m.Laidout L) {code : Node} (receiver : Value)
    (hcode : code.workspace.isScoped [] = true) :
    (doit code receiver).Resolves settings m L := by
  obtain ⟨hlaid, hsize⟩ := h
  have hlayout : layout settings m L (doit code receiver)
      = if (call? settings m (doit code receiver)).isSome then L ++ [[code.workspace]] else L :=
    rfl
  have hprepare : (doit code receiver).prepare m
      = (Eval.classOf receiver >>= fun owner => Eval.make (fun h => h.newFrame
          { receiver, method := some (Eval.workspaceMethod owner) }) >>= fun frame =>
            pure (.evaluate code frame)) m :=
    congrFun (bind_assoc ..) m
  have hclass : Calm [] (Eval.classOf receiver) m _ := Calm.classOf receiver
  unfold Calm at hclass
  cases hr : Eval.classOf receiver m with
  | error s m₁ =>
      rw [hr] at hclass
      rw [bind_of_error hr] at hprepare
      rw [call?_of_error hprepare] at hlayout
      exact resolves_of_error hprepare hlayout ((Reached.refl hlaid hsize).calm hclass.1) hclass.2
  | ok owner m₁ =>
      rw [hr] at hclass
      obtain ⟨-, rfl⟩ := hclass
      rw [bind_of_ok hr] at hprepare
      rw [call?_of_ok hprepare] at hlayout
      let x : Frame := { receiver, method := some (Eval.workspaceMethod owner) }
      -- no frame is around the new one, and nothing is declared in it yet
      have hx : (m₁.heap.newFrame x).1.frame L.length = x := by
        rw [Heap.frame_newFrame, if_pos hsize]
      obtain ⟨halong, hends⟩ := Call.resolves_of_workspace settings settings.depth
        (Memory.opens_newFrame hlaid hsize x) (Memory.keeps_newFrame (Nat.le_of_eq hsize) x)
        (congrArg Frame.outer hx)
        (fun key => congrArg (fun x : Frame => x.slots.contains key) hx) hcode
      rw [hsize] at halong hends
      exact resolves_of_ok hprepare hlayout halong hends

theorem resolves (settings : Settings) (h : m.Laidout L) {q : Query} (hq : q.isScoped = true) :
    q.Resolves settings m L := by
  by_cases hdoit : ∃ code receiver, q = .doit code receiver
  · obtain ⟨code, receiver, rfl⟩ := hdoit
    exact resolves_doit settings h receiver hq
  · obtain ⟨hlaid, hsize⟩ := h
    have hlayout : q.layout settings m L = L := by
      cases q with
      | doit code receiver => exact absurd ⟨code, receiver, rfl⟩ hdoit
      | _ => rfl
    have hprepare := prepare_calm (L := L) hlaid.installed hq
      fun code receiver heq => hdoit ⟨code, receiver, heq⟩
    unfold Calm at hprepare
    cases hr : q.prepare m with
    | error s m₁ =>
        rw [hr] at hprepare
        exact resolves_of_error hr hlayout ((Reached.refl hlaid hsize).calm hprepare.1)
          hprepare.2
    | ok task m₁ =>
        rw [hr] at hprepare
        obtain ⟨hcalm, hready⟩ := hprepare
        have hreached := (Reached.refl hlaid hsize).calm hcalm
        obtain ⟨halong, hends⟩ := Call.resolves_of_trace settings settings.depth task
          hreached.laid hreached.size hready
        exact resolves_of_ok hr hlayout halong (hends.of_reached hreached)

end Query

/-! ### Sessions -/

theorem Eval.Calm.left {α : Type} {act : Eval α} {post : α → Memory → Prop}
    (h : Eval.Calm [] act m post) : m.Calm [] (left (act m)) := by
  unfold Calm at h
  cases hact : act m with
  | ok a m₁ =>
      rw [hact] at h
      exact h.1
  | error s m₁ =>
      rw [hact] at h
      exact h.1

/-- One case for each command. -/
theorem Command.laidout (h : m.Laidout L) {command : Command}
    (wellScoped : command.isScoped = true) : (command.run m).Laidout (command.layout m L) := by
  cases command with
  | define name superclass instanceVariables indexable =>
      exact h.revisions (Change.Revises.define name superclass instanceVariables indexable)
  | compile owner code protocol =>
      refine h.revisions (Change.Revises.compile owner (fun method hmethod => ?_) protocol)
      cases code with
      | method selector params temps statements primitive =>
          cases hmethod
          exact wellScoped
      | _ => cases hmethod
  | load image =>
      refine h.revisions (Change.Revises.load fun node hnode => ?_)
      exact Node.files_of_isScopedMethod (List.all_eq_true.mp wellScoped node hnode)
  | setGlobal name value => exact h.calm (Eval.Calm.assignGlobal name value).left
  | place code => exact h.revisions (Change.Revises.place code)
  | makeText s => exact h.calm (.of_eq rfl rfl rfl)
  | makeArray elements => exact h.calm (.of_eq rfl rfl rfl)
  | evaluate settings query => exact (query.resolves settings h wellScoped).2.left.laidout

theorem ScopedSession.laidout (session : ScopedSession L m) : m.Laidout L := by
  induction session with
  | start => exact Memory.laidout_kernel
  | next _ wellScoped ih => exact Command.laidout ih wellScoped
  | journal _ recording ih => exact ih.calm (.of_eq rfl rfl rfl)

/-- In a session of well-scoped code no query ends with a variable that nobody declares.
Every call on its stack is in its trace; and no call of the trace ends so either, and each
reads and assigns variables in the frames that the layout of that moment says. -/
theorem variables_resolve_lexically {settings : Settings} {q : Query}
    (session : ScopedSession L m) (hq : q.isScoped = true) :
    (∀ name m', q.perform settings m ≠ .error (.fault (.unresolvedVariable name)) m') ∧
      (∀ c outer, InProgress settings m q (c :: outer) → c ∈ q.trace settings m) ∧
      ∀ past c later, q.trace settings m = past ++ c :: later →
        c.Resolves settings ((q.layout settings m L).after past) := by
  obtain ⟨halong, hends⟩ := q.resolves settings session.laidout hq
  refine ⟨hends.declared, fun c outer h => h.mem_trace, fun past c later htrace => ?_⟩
  rw [htrace] at halong
  exact halong.split

/-- Workspace code that leaves a block behind in a global: it assigns to a variable around it
and has a parameter of the name of another. -/
def leavingBlock : Query :=
  .doit (.sequence [.str "x", .str "y"]
    [.assign (.str "Left") .global .null (.block [.str "y"] []
      [.assign (.str "x") .temp .null (.reference (.str "y") .arg .null)])]) .nil

/-- Workspace code that runs the block, and has a variable `x` of its own. -/
def runningLeft : Query :=
  .doit (.sequence [.str "x"]
    [.send (.reference (.str "Left") .global .null) (.str "value:") [.literal (.int 7)]]) .nil

/-- Whether a call assigns to `x` from a frame with the chain of the block. -/
def Call.assignsFromBlock (c : Call) : Bool :=
  match c.task with
  | .evaluate (.assign (.str "x") .temp _ _) f =>
    c.memory.heap.chain f == [3, 0] && c.memory.heap.owner? f (.text "x") == some 0
  | _ => false

/-- The block is run after its home is over. Of the four frames, which are those of the home,
of the other code, of `value:` and of the block, the assignment goes to that of the home. -/
theorem resolved_after_home : ∃ L m past c later,
    ScopedSession L m ∧ runningLeft.trace {} m = past ++ c :: later ∧
      c.assignsFromBlock = true ∧ c.Resolves {} ((runningLeft.layout {} m L).after past) := by
  have session : ScopedSession _ (Command.run Kernel.memory (.evaluate {} leavingBlock)) :=
    .next .start rfl
  let calls := runningLeft.trace {} (Command.run Kernel.memory (.evaluate {} leavingBlock))
  have hcheck : calls.any Call.assignsFromBlock = true := by decide +kernel
  obtain ⟨c, hc, hassigns⟩ := List.any_eq_true.mp hcheck
  obtain ⟨past, later, hcalls⟩ := List.append_of_mem hc
  exact ⟨_, _, past, c, later, session, hcalls, hassigns,
    (variables_resolve_lexically session rfl).2.2 past c later hcalls⟩

end Smalltalk
