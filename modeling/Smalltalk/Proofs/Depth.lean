import Smalltalk.Proofs.Return

/-!
# `Smalltalk.Proofs.Depth`: running out of depth

Tasks nest to the depth that the settings give. A task that needs more is
`tooDeep`, and so is the printing of what contains itself. Two things hold in
every memory, of any query and any code.

* A query that never gets too deep is the same at every greater depth: no task
  looks at the depth that it has left. `Plan.follow_congr` is the step. It
  compares two ways to do tasks that may differ only where the first is too
  deep, and a plan that does not end there has met none of these tasks.
* Once a call is too deep, every call around it is, and each had made the call
  inside it last (`Collapses`). So no body runs in place of a primitive and no
  statement comes after. Frames are closed, nothing else changes, and the query
  ends with a fault (`InProgress.collapses`).

The fault names what was running. It cannot where an executed method has a
selector that is no text: then that is the fault
(`nameless_method_too_deep`).
-/

set_option autoImplicit false

namespace Smalltalk

variable {settings : Settings} {m : Memory} {q : Query}

/-! ### Greater depths -/

/-- The outcome of a task that needs more depth than there is. -/
def Eval.TooDeep {α : Type} (r : Outcome α) : Prop := ∃ m, r = .error .tooDeep m

namespace Plan

variable {α : Type} {rec rec' : Task → Eval Value}

/-- A plan that does not get too deep is the same for another way to do tasks, if that
differs only on tasks that are too deep. -/
theorem follow_congr (p : Plan α)
    (hsame : ∀ task m, ¬ Eval.TooDeep (rec task m) → rec' task m = rec task m)
    (hp : ¬ Eval.TooDeep (p.follow rec)) : p.follow rec' = p.follow rec := by
  induction p with
  | done outcome => rfl
  | ask task m next ih =>
      unfold follow at hp ⊢
      cases hanswer : rec task m with
      | ok v m' =>
          have hequal : rec' task m = .ok v m' := by
            rw [hsame task m (by rw [hanswer]; rintro ⟨_, h⟩; cases h), hanswer]
          rw [hanswer] at hp
          rw [hequal]
          exact ih v m' hp
      | error stop m' =>
          -- the stop comes out at the end, so it is not that of the depth
          have hdeep : ¬ Eval.TooDeep (rec task m) := by
            rintro ⟨m'', h⟩
            rw [h] at hp
            exact hp ⟨m'', rfl⟩
          rw [hsame task m hdeep, hanswer]

end Plan

namespace Eval

/-- Closing frames does not keep a task from being too deep. -/
theorem closeAll_tooDeep (frames : List FrameId) (m : Memory) :
    closeAll frames (.error .tooDeep m) = .error .tooDeep (m.retireAll frames) := by
  induction frames generalizing m with
  | nil => rfl
  | cons f rest ih => exact ih (m.retire f)

theorem step_congr (settings : Settings) {rec rec' : Task → Eval Value}
    (hsame : ∀ task m, ¬ TooDeep (rec task m) → rec' task m = rec task m)
    (task : Task) (m : Memory) (h : ¬ TooDeep (step settings rec task m)) :
    step settings rec' task m = step settings rec task m := by
  have hfollows := (Staged.step settings task).follows
  rw [hfollows] at h ⊢
  rw [hfollows rec, ((Staged.step settings task).plan m).follow_congr hsame]
  rintro ⟨m', hdeep⟩
  rw [hdeep, closeAll_tooDeep] at h
  exact h ⟨_, rfl⟩

/-- One more level changes nothing for a task that has had enough of them. -/
theorem run_succ_congr (settings : Settings) (depth : Nat) (task : Task) (m : Memory)
    (h : ¬ TooDeep (run settings depth task m)) :
    run settings (depth + 1) task m = run settings depth task m := by
  induction depth generalizing task m with
  | zero => exact absurd ⟨m, rfl⟩ h
  | succ depth ih => exact step_congr settings ih task m h

theorem run_congr (settings : Settings) {depth deeper : Nat} (hle : depth ≤ deeper)
    (task : Task) (m : Memory) (h : ¬ TooDeep (run settings depth task m)) :
    run settings deeper task m = run settings depth task m := by
  induction hle with
  | refl => rfl
  | @step deeper _ ih =>
      rw [← ih]
      refine run_succ_congr settings deeper task m ?_
      rwa [ih]

/-- The depth in the settings is only where a query starts. -/
theorem run_setDepth (settings : Settings) (other depth : Nat) :
    run { settings with depth := other } depth = run settings depth := by
  induction depth with
  | zero => rfl
  | succ depth ih =>
      funext task
      show step _ (run _ depth) task = step settings (run settings depth) task
      rw [ih]
      rfl

end Eval

/-- A call that needs more depth than there is. -/
def Call.Exhausts (settings : Settings) (c : Call) : Prop := Eval.TooDeep (c.outcome settings)

/-- Some call of a query needs more depth than there is. -/
def Query.Exhausts (settings : Settings) (m : Memory) (q : Query) : Prop :=
  ∃ c outer, InProgress settings m q (c :: outer) ∧ c.Exhausts settings

/-- A call with no depth left is too deep at once, whatever it is to do. -/
theorem Call.exhausts_of_depth {c : Call} (h : c.depth = 0) :
    c.outcome settings = .error .tooDeep c.memory := by
  unfold Call.outcome
  rw [h]
  rfl

/-- A query comes to the same at a greater depth if its call does. -/
theorem Query.perform_setDepth {depth : Nat} (hle : settings.depth ≤ depth)
    (h : ∀ c ∈ q.call? settings m, ¬ c.Exhausts settings) :
    q.perform { settings with depth } m = q.perform settings m := by
  rw [perform_eq_performBy, perform_eq_performBy, Eval.run_setDepth]
  show EStateM.bind q.prepare _ m = EStateM.bind q.prepare _ m
  unfold EStateM.bind
  cases hprepare : q.prepare m with
  | error stop m' => rfl
  | ok task m' =>
      have hdeep : ¬ Eval.TooDeep (Eval.run settings settings.depth task m') := by
        exact h ⟨task, m', settings.depth⟩ (call?_of_ok hprepare)
      have hrun := Eval.run_congr settings hle task m' hdeep
      -- what a query makes of its task depends on the outcome of the task alone
      unfold conclude Eval.naming
      cases task <;> simp only [Eval.closing_eq_close, hrun]

/-! ### The end of a call that is too deep -/

/-- The calls on a stack end one after another because the call `c` was too deep and left
the memory `m`. Each had made the call before it last, and closes its own frame. -/
def Collapses (settings : Settings) : Call → Memory → List Call → Prop
  | _, _, [] => True
  | c, m, d :: outer =>
    (d.calls settings).getLast? = some c ∧
      d.outcome settings = .error .tooDeep (m.retireAll d.opens) ∧
        Collapses settings d (m.retireAll d.opens) outer

/-- The fault of a query whose task was too deep. -/
def Task.depthFault (m : Memory) (task : Task) : Fault :=
  match Query.activity task m with
  | .ok words => .tooDeep words
  | .error f => f

/-- The task is no activation, or that of a method whose selector is a text. -/
def Task.Named : Task → Prop
  | .activate method _ _ _ => ∃ s, method.selector = .str s
  | _ => True

/-- What runs has a name if it is no method or its selector is a text. -/
theorem Task.Named.activity {task : Task} (h : task.Named) (m : Memory) :
    ∃ words, Query.activity task m = .ok words := by
  cases task with
  | activate method receiver args callers =>
      obtain ⟨s, hs⟩ := h
      simp only [Query.activity, Memory.methodWord, hs, Fault.wordOf]
      exact ⟨_, rfl⟩
  | _ => exact ⟨_, rfl⟩

/-- What is not too deep needs no name. -/
theorem Eval.naming_of_not_tooDeep {activity : Memory → Except Fault String} {act : Eval Value}
    (h : ¬ TooDeep (act m)) : naming activity act m = act m := by
  rcases naming_cases activity act m with ⟨-, hsame⟩ | ⟨m₁, f, hact, -, -⟩
  · exact hsame
  · exact absurd ⟨m₁, hact⟩ h

/-- What is too deep gets the name of the activity, or the fault that it has none. -/
theorem Eval.naming_of_tooDeep {task : Task} {act : Eval Value} {m₁ : Memory}
    (h : act m = .error .tooDeep m₁) :
    Eval.naming (Query.activity task) act m = .error (.fault (task.depthFault m₁)) m₁ := by
  unfold Eval.naming Task.depthFault
  cases hwords : Query.activity task m₁ <;> simp only [h, hwords]

/-- A query whose task is too deep ends with the fault of that, and the frame of
workspace code is closed. -/
theorem Query.perform_of_tooDeep {c : Call} {m₁ : Memory} (hc : q.call? settings m = some c)
    (hout : c.outcome settings = .error .tooDeep m₁) :
    q.perform settings m =
      .error (.fault (c.task.depthFault (m₁.retireAll (closes c.task))))
        (m₁.retireAll (closes c.task)) := by
  rw [perform_of_call? hc]
  obtain ⟨task, m', depth⟩ := c
  change Eval.run settings depth task m' = _ at hout
  cases task with
  | evaluate code frame =>
      have hclosing : Eval.closing frame (Eval.run settings depth _) m' = _ :=
        (Eval.closing_eq_close frame _ m').trans (congrArg (Eval.close frame) hout)
      exact Eval.naming_of_tooDeep hclosing
  | activate method receiver args callers => exact Eval.naming_of_tooDeep hout
  | invoke closure args caller => exact Eval.naming_of_tooDeep hout

/-- What becomes of a query once its call `c`, made on the stack `outer`, was too deep and
left the memory `m₁`. -/
structure Overrun (settings : Settings) (m : Memory) (q : Query) (c : Call) (m₁ : Memory)
    (outer : List Call) : Prop where
  /-- No call on the stack does anything more, -/
  collapses : Collapses settings c m₁ outer
  /-- and all that is different when the query ends is that the frames of these calls, and
  that of workspace code, are over. It ends with the fault of a depth that is exhausted, if
  what runs can be named. -/
  fault : ∃ first m₂, q.call? settings m = some first ∧
    m₁.Ended (outer.flatMap Call.opens ++ Query.closes first.task) m₂ ∧
    q.perform settings m = .error (.fault (first.task.depthFault m₂)) m₂ ∧
    (first.task.Named → ∃ words, Query.activity first.task m₂ = .ok words ∧
      q.perform settings m = .error (.fault (.tooDeep words)) m₂)

/-- A call that is too deep takes the whole stack down. The induction is along the
stack. -/
theorem InProgress.collapses {c : Call} {outer : List Call}
    (h : InProgress settings m q (c :: outer)) {m₁ : Memory}
    (hout : c.outcome settings = .error .tooDeep m₁) : Overrun settings m q c m₁ outer := by
  induction outer generalizing c m₁ with
  | nil =>
      cases h with
      | first hc =>
          have hperform := Query.perform_of_tooDeep hc hout
          refine ⟨trivial, c, _, hc, m₁.ended_retireAll _, hperform, fun hnamed => ?_⟩
          obtain ⟨words, hwords⟩ := hnamed.activity (m₁.retireAll (Query.closes c.task))
          refine ⟨words, hwords, ?_⟩
          unfold Task.depthFault at hperform
          rw [hwords] at hperform
          exact hperform
  | cons d outer ih =>
      cases h with
      | inner h hc =>
          obtain ⟨hlast, hd⟩ := Call.of_stop hc hout
          rw [Eval.closeAll_tooDeep] at hd
          obtain ⟨hcollapses, first, m₂, hfirst, hended, hperform⟩ := ih h hd
          refine ⟨⟨hlast, hd, hcollapses⟩, first, m₂, hfirst, ?_, hperform⟩
          rw [List.flatMap_cons, List.append_assoc]
          exact (m₁.ended_retireAll d.opens).trans hended

/-! ### Results -/

/-- A query of which no call gets too deep comes to the same at every greater depth, in
the same memory. And where some call is too deep, no body runs in its place and nothing
is done after it: the calls around it end with it, one after another, and the query ends
with the fault that the depth is exhausted, whatever code runs. Only where the selector of
the method that the query runs is no text is the fault another one, for the method cannot
be named then. -/
theorem same_at_greater_depth (settings : Settings) (m : Memory) (q : Query) :
    (¬ q.Exhausts settings m → ∀ depth, settings.depth ≤ depth →
      q.perform { settings with depth } m = q.perform settings m) ∧
    (∀ c outer, InProgress settings m q (c :: outer) → c.depth = 0 →
      c.Exhausts settings) ∧
    ∀ c outer m₁, InProgress settings m q (c :: outer) →
      c.outcome settings = .error .tooDeep m₁ → Overrun settings m q c m₁ outer := by
  refine ⟨fun hnot depth hle => ?_, fun c outer _ hdepth => ?_, fun c outer m₁ h hout => ?_⟩
  · refine Query.perform_setDepth hle ?_
    intro c hc hdeep
    exact hnot ⟨c, [], .first hc, hdeep⟩
  · exact ⟨c.memory, Call.exhausts_of_depth hdepth⟩
  · exact h.collapses hout

/-- Whether the first call of a query is too deep. -/
def Query.runsOut (settings : Settings) (m : Memory) (q : Query) : Bool :=
  match q.call? settings m with
  | some c =>
    match c.outcome settings with
    | .error .tooDeep _ => true
    | _ => false
  | none => false

theorem Query.exists_of_runsOut (h : q.runsOut settings m = true) :
    ∃ c m₁, InProgress settings m q [c] ∧ c.outcome settings = .error .tooDeep m₁ := by
  unfold runsOut at h
  split at h
  · rename_i c hc
    split at h
    · rename_i m₁ hout
      exact ⟨c, m₁, .first hc, hout⟩
    · cases h
  · cases h

/-- A block that runs its argument on the argument. -/
def selfApplication : Node :=
  .block [.str "x"] [] [.send (.reference (.str "x") .arg .null) (.str "value:")
    [.reference (.str "x") .arg .null]]

/-- A method of nil that never comes to an end. -/
def runaway (selector : Json) : Query :=
  .executeNode (.method selector [] []
    [.send selfApplication (.str "value:") [selfApplication]] .null) .nil []

/-- The words of the fault that a query ends with because the depth is exhausted. -/
def Query.overrunWords? (settings : Settings) (m : Memory) (q : Query) : Option String :=
  match q.perform settings m with
  | .error (.fault (.tooDeep words)) _ => some words
  | _ => none

/-- Adding up goes well at a depth of 20 and at all greater ones; the method that never
comes to an end has used them up, and the fault says what it is. -/
theorem overrun_of_runaway :
    (∀ depth, 20 ≤ depth →
      (Query.send (.int 3) (.str "+") [.int 4]).perform { depth } Kernel.memory =
        (Query.send (.int 3) (.str "+") [.int 4]).perform { depth := 20 } Kernel.memory) ∧
    ∃ c m₁, Overrun { depth := 20 } Kernel.memory (runaway (.str "again")) c m₁ [] ∧
      (runaway (.str "again")).overrunWords? { depth := 20 } Kernel.memory =
        some "while running UndefinedObject>>again" := by
  constructor
  · refine (same_at_greater_depth { depth := 20 } Kernel.memory _).1 ?_
    rintro ⟨c, outer, h, m₁, hout⟩
    -- a query with a call that is too deep ends with a fault, and this one has a value
    have hover := (same_at_greater_depth { depth := 20 } Kernel.memory _).2.2 c outer m₁ h hout
    obtain ⟨first, m₂, -, -, hperform, -⟩ := hover.fault
    have hvalue : (EStateM.run' ((Query.send (.int 3) (.str "+") [.int 4]).perform
        { depth := 20 }) Kernel.memory).isSome = true := by decide +kernel
    unfold EStateM.run' EStateM.run at hvalue
    rw [hperform] at hvalue
    cases hvalue
  · have hout : (runaway (.str "again")).runsOut { depth := 20 } Kernel.memory = true := by
      decide +kernel
    obtain ⟨c, m₁, h, hout⟩ := Query.exists_of_runsOut hout
    exact ⟨c, m₁, (same_at_greater_depth { depth := 20 } Kernel.memory _).2.2 c [] m₁ h hout,
      by decide +kernel⟩

/-- A method whose selector is a number cannot be named, so the fault that ends it is not
that the depth is exhausted. -/
theorem no_overrun_words_of_number : ∃ c m₁,
    InProgress { depth := 20 } Kernel.memory (runaway (.int 5)) [c] ∧
      c.outcome { depth := 20 } = .error .tooDeep m₁ ∧
        ∀ words m', (runaway (.int 5)).perform { depth := 20 } Kernel.memory ≠
          .error (.fault (.tooDeep words)) m' := by
  have hout : (runaway (.int 5)).runsOut { depth := 20 } Kernel.memory = true := by
    decide +kernel
  have hwords : (runaway (.int 5)).overrunWords? { depth := 20 } Kernel.memory = none := by
    decide +kernel
  obtain ⟨c, m₁, h, hout⟩ := Query.exists_of_runsOut hout
  refine ⟨c, m₁, h, hout, ?_⟩
  intro words m' hperform
  unfold Query.overrunWords? at hwords
  rw [hperform] at hwords
  cases hwords

end Smalltalk
