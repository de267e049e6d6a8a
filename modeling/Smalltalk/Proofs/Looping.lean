import Smalltalk.Proofs.Direct

/-!
# `Smalltalk.Proofs.Looping`: `whileTrue:` and `whileFalse:`

A loop calls its two closures in turns. `Eval.Alternates` says which calls it makes, each in
the memory that the one before has left, and how it ends: with nil, with a fault because the
condition has not answered a boolean, or with the first stop. There is one constructor for
each way a round can go (`Planned.Goes.alternates` is the induction on the rounds).

`Kernel.sends_while` is the result for a send. The calls of the loop are all the calls that
the activation makes itself, so the code of the method behind the primitive is not run. The
frame of the activation is hidden from the two closures, so no unwinding ends there and the
send ends as the loop does.
-/

set_option autoImplicit false

namespace Smalltalk

variable {settings : Settings} {goOn : Bool} {condition body : Task} {depth rounds : Nat}
  {m m' : Memory} {calls : List Call} {out : Outcome Value}

/-! ### Rounds -/

/-- A loop that goes on while its condition answers `goOn`, with so many rounds left: from this
memory on it makes these calls and ends so. -/
inductive Eval.Alternates (settings : Settings) (goOn : Bool) (condition body : Task)
    (depth : Nat) : (rounds : Nat) → Memory → List Call → Outcome Value → Prop where
  /-- The other boolean ends the loop, with nil. -/
  | done {rounds : Nat} {m m₁ : Memory}
      (hcondition : run settings depth condition m = .ok (.bool !goOn) m₁) :
    Alternates settings goOn condition body depth (rounds + 1) m [⟨condition, m, depth⟩]
      (.ok .nil m₁)
  /-- Anything but a boolean is a fault. -/
  | nonBoolean {rounds : Nat} {m m₁ : Memory} {v : Value}
      (hcondition : run settings depth condition m = .ok v m₁) (hv : ∀ b, v ≠ .bool b) :
    Alternates settings goOn condition body depth (rounds + 1) m [⟨condition, m, depth⟩]
      (.error (.fault (.nonBoolean v (m₁.inspect v))) m₁)
  | conditionStops {rounds : Nat} {m m₁ : Memory} {stop : Stop}
      (hcondition : run settings depth condition m = .error stop m₁) :
    Alternates settings goOn condition body depth (rounds + 1) m [⟨condition, m, depth⟩]
      (.error stop m₁)
  | bodyStops {rounds : Nat} {m m₁ m₂ : Memory} {stop : Stop}
      (hcondition : run settings depth condition m = .ok (.bool goOn) m₁)
      (hbody : run settings depth body m₁ = .error stop m₂) :
    Alternates settings goOn condition body depth (rounds + 1) m
      [⟨condition, m, depth⟩, ⟨body, m₁, depth⟩] (.error stop m₂)
  /-- What the body answers does not matter. -/
  | next {rounds : Nat} {m m₁ m₂ : Memory} {v : Value} {calls : List Call} {out : Outcome Value}
      (hcondition : run settings depth condition m = .ok (.bool goOn) m₁)
      (hbody : run settings depth body m₁ = .ok v m₂)
      (rest : Alternates settings goOn condition body depth rounds m₂ calls out) :
    Alternates settings goOn condition body depth (rounds + 1) m
      (⟨condition, m, depth⟩ :: ⟨body, m₁, depth⟩ :: calls) out
  /-- No loop takes more rounds than there are. -/
  | exhausted (m : Memory) :
    Alternates settings goOn condition body depth 0 m [] (.error .unfinished m)

/-- Every loop goes so, whatever its two parts do. -/
theorem Planned.Goes.alternates (settings : Settings) (goOn : Bool) (condition body : Task)
    (depth rounds : Nat) (m : Memory) :
    ∃ calls out, (Planned.alternate condition body goOn rounds).Goes (Eval.run settings depth)
        (Call.direct depth) m out calls ∧
      Eval.Alternates settings goOn condition body depth rounds m calls out := by
  induction rounds generalizing m with
  | zero => exact ⟨[], _, .still fun _ _ => rfl, .exhausted m⟩
  | succ rounds ih =>
      have hcall : ∀ task m, (Planned.call task).Goes (Eval.run settings depth)
          (Call.direct depth) m (Eval.run settings depth task m) [⟨task, m, depth⟩] :=
        fun task m => .call task
      have hfirst := hcall condition m
      cases hcondition : Eval.run settings depth condition m with
      | error stop m₁ =>
          rw [hcondition] at hfirst
          exact ⟨_, _, hfirst.bind_stop, .conditionStops hcondition⟩
      | ok v m₁ =>
          rw [hcondition] at hfirst
          cases v with
          | bool answer =>
              by_cases hgoOn : answer = goOn
              · subst hgoOn
                have hsecond := hcall body m₁
                cases hbody : Eval.run settings depth body m₁ with
                | error stop m₂ =>
                    rw [hbody] at hsecond
                    exact ⟨_, _, hfirst.bind (ite_pos rfl hsecond.bind_stop),
                      .bodyStops hcondition hbody⟩
                | ok v m₂ =>
                    rw [hbody] at hsecond
                    obtain ⟨calls, out, hrest, halternates⟩ := ih m₂
                    exact ⟨_, out, hfirst.bind (ite_pos rfl (hsecond.bind hrest)),
                      .next hcondition hbody halternates⟩
              · obtain rfl : answer = !goOn := Bool.eq_not.mpr hgoOn
                exact ⟨_, _, hfirst.bind_last (ite_neg hgoOn (const (pure Value.nil))),
                  .done hcondition⟩
          | _ => exact ⟨_, _, hfirst.bind_last (.still fun _ _ => rfl),
              .nonBoolean hcondition nofun⟩

/-- Every other call of a list, from the first one on. -/
def Call.firsts : List Call → List Call
  | c :: _ :: rest => c :: firsts rest
  | calls => calls

/-- Every other call of a list, from the second one on. -/
def Call.seconds : List Call → List Call
  | _ :: c :: rest => c :: seconds rest
  | _ => []

/-- Whether a call answers this boolean. -/
def Call.answers (settings : Settings) (b : Bool) (c : Call) : Bool :=
  match c.outcome settings with
  | .ok (.bool a) _ => a == b
  | _ => false

/-- The condition and the body take turns, and the body runs as often as the condition has
answered `goOn` in a row from the start. -/
structure Call.TakeTurns (settings : Settings) (goOn : Bool) (condition body : Task)
    (calls : List Call) : Prop where
  conditions : ∀ c ∈ firsts calls, c.task = condition
  bodies : ∀ c ∈ seconds calls, c.task = body
  count : (seconds calls).length
    = ((firsts calls).takeWhile fun c => c.answers settings goOn).length

namespace Call.TakeTurns

theorem nil : TakeTurns settings goOn condition body [] := ⟨nofun, nofun, rfl⟩

/-- The condition has not answered `goOn`, so there is no body. -/
theorem refused {c : Call} (hcondition : c.task = condition)
    (hanswer : c.answers settings goOn = false) :
    TakeTurns settings goOn condition body [c] where
  conditions c' hc' := List.mem_singleton.mp hc' ▸ hcondition
  bodies := nofun
  count := by simp [firsts, seconds, hanswer]

theorem round {c b : Call} (hcondition : c.task = condition)
    (hanswer : c.answers settings goOn = true) (hbody : b.task = body)
    (rest : TakeTurns settings goOn condition body calls) :
    TakeTurns settings goOn condition body (c :: b :: calls) where
  conditions := List.forall_mem_cons.mpr ⟨hcondition, rest.conditions⟩
  bodies := List.forall_mem_cons.mpr ⟨hbody, rest.bodies⟩
  count := by simp only [firsts, seconds, List.takeWhile_cons, hanswer, if_true, List.length_cons,
    rest.count]

end Call.TakeTurns

namespace Eval.Alternates

/-- The induction is on the rounds: each adds a call of either, and the last one a call of the
condition at most. -/
theorem takeTurns (t : Alternates settings goOn condition body depth rounds m calls out) :
    Call.TakeTurns settings goOn condition body calls := by
  have hanswers : ∀ {out : Outcome Value} {m : Memory} (b : Bool),
      run settings depth condition m = out → (Call.mk condition m depth).answers settings b
        = match out with
          | .ok (.bool a) _ => a == b
          | _ => false := by
    rintro _ m b rfl
    rfl
  induction t with
  | exhausted => exact .nil
  | done hcondition => exact .refused rfl ((hanswers goOn hcondition).trans (by cases goOn <;> rfl))
  | nonBoolean hcondition hv =>
      refine .refused rfl ((hanswers goOn hcondition).trans ?_)
      split
      · rename_i heq
        cases heq
        exact absurd rfl (hv _)
      · rfl
  | conditionStops hcondition => exact .refused rfl (hanswers goOn hcondition)
  | bodyStops hcondition _ =>
      exact .round rfl ((hanswers goOn hcondition).trans (beq_self_eq_true goOn)) rfl .nil
  | next hcondition _ _ ih =>
      exact .round rfl ((hanswers goOn hcondition).trans (beq_self_eq_true goOn)) rfl ih

/-- A loop over two closures that a frame is hidden from does not unwind to it. Each round keeps
the frame hidden. -/
theorem not_unwind {c b : ClosureId} {g : FrameId} {vs : List Value}
    (t : Alternates settings goOn (.invoke c [] g) (.invoke b [] g) depth rounds m calls out)
    (s : m.Secludes vs [g]) (hc : .closure c ∈ vs) (hb : .closure b ∈ vs) :
    ∀ v m', out ≠ .error (.unwind v g) m' := by
  have hinvoke : ∀ {m : Memory} {d : ClosureId} {out : Outcome Value}, m.Secludes vs [g] →
      .closure d ∈ vs → run settings depth (.invoke d [] g) m = out →
      (left out).Secludes vs [g] ∧ ∀ v m', out ≠ .error (.unwind v g) m' := by
    rintro m d _ s hd rfl
    have hnone : ∀ v ∈ ([] : List Value), ∀ cell, v.cell? = some cell → m.Reach vs cell := nofun
    obtain ⟨-, hkept, hhome⟩ := s.invoke settings depth (.root (.inl ⟨_, hd, rfl⟩)) hnone
      (s.there g List.mem_cons_self)
    exact ⟨hkept, fun v m' h => hhome v g m' h List.mem_cons_self⟩
  induction t with
  | done | nonBoolean | exhausted => exact nofun
  | conditionStops hcondition => exact (hinvoke s hc hcondition).2
  | bodyStops hcondition hbody => exact (hinvoke (hinvoke s hc hcondition).1 hb hbody).2
  | next hcondition hbody _ ih => exact ih (hinvoke (hinvoke s hc hcondition).1 hb hbody).1

end Eval.Alternates

/-! ### Sends -/

namespace Kernel

/-- The message for a loop. -/
def loopSelector (goOn : Bool) : String := if goOn then "whileTrue:" else "whileFalse:"

/-- A loop that is sent makes one activation, and this does nothing but call the two closures in
turns. The send ends as the loop does. -/
theorem sends_while {c b : ClosureId} (he : m.Equipped settings) (hclosed : m.Closed)
    (hc : c < m.heap.closures.size) (hb : b < m.heap.closures.size)
    (h : Memory.Sends settings (.closure c) (loopSelector goOn) [.closure b] m (depth + 1) calls
      out) :
    ∃ activation m₁ loop, calls = [activation] ∧ m.Aside [] m₁ ∧
      Eval.Alternates settings goOn (.invoke c [] m.heap.frames.size)
        (.invoke b [] m.heap.frames.size) depth settings.rounds m₁ (activation.calls settings)
        loop ∧
      Call.TakeTurns settings goOn (.invoke c [] m.heap.frames.size)
        (.invoke b [] m.heap.frames.size) (activation.calls settings) ∧
      (out = Eval.retired m.heap.frames.size loop ∨
        Eval.OutOfDepth out ∧ Eval.TooDeep loop) := by
  -- both loops are one primitive, but for the boolean that they go on with
  obtain ⟨number, p, hnode, hp, hattempt⟩ : ∃ number p,
      tree? "BlockClosure" (loopSelector goOn)
        = some (byPrimitive (loopSelector goOn) number ["aBlock"]) ∧
      (number, p) ∈ Primitive.numbered ∧
      ∀ m, p.attempt m (.closure c) [.closure b] = .ok (.loop c b goOn) := by
    cases goOn with
    | true => exact ⟨510, .whileTrue, rfl, by decide, fun _ => rfl⟩
    | false => exact ⟨511, .whileFalse, rfl, by decide, fun _ => rfl⟩
  obtain ⟨activation, m₀, x, rfl, hnoted, -, hunfolds, hout⟩ :=
    sendToClosure he hnode (List.nodup_singleton _) rfl hp (fun m' _ => hattempt m') h
  have o := hnoted.makes_withFrame x
  obtain ⟨calls, loop, hgoes, halternates⟩ := Planned.Goes.alternates settings goOn
    (.invoke c [] m.heap.frames.size) (.invoke b [] m.heap.frames.size) depth settings.rounds
    (m₀.withFrame x)
  have hactivation := hunfolds loop calls hgoes
  -- the frame of the activation is newer than anything that the two closures lead to
  let vs : List Value := [.closure c, .closure b]
  have s : m.Secludes vs [] := hclosed.secludes fun d hd => by
    rcases List.mem_cons.mp hd with heq | hd
    · cases heq
      exact hc
    · cases List.mem_singleton.mp hd
      exact hb
  have hclose := Eval.close_eq_retired (halternates.not_unwind
    (s.cons o.aside o.fresh o.there) (by simp [vs]) (by simp [vs]))
  rw [hactivation.outcome, hclose] at hout
  refine ⟨activation, _, loop, rfl, o.aside, ?_, ?_, ?_⟩
  · rw [hactivation.calls_eq]
    exact halternates
  · rw [hactivation.calls_eq]
    exact halternates.takeTurns
  · exact hout.imp_right fun ⟨hout, hdeep⟩ => ⟨hout, Eval.tooDeep_retired.mp hdeep⟩

/-- A memory with two blocks without parameters, made by workspace code: one that asks whether
the global `Float` is there, and one that sets it to nil. -/
def withLoop (m : Memory) : Memory :=
  { m.inWorkspace with heap := ((m.inWorkspace.heap.newClosure ⟨[], [],
      [.send (.reference (.str "Float") .global .null) (.str "notNil") []],
        m.heap.frames.size⟩).1.newClosure ⟨[], [],
      [.assign (.str "Float") .global .null (.literal .nil)], m.heap.frames.size⟩).1 }

theorem withLoop_equipped (he : m.Equipped settings) : (withLoop m).Equipped settings :=
  he.of_registry rfl

theorem withLoop_closed (g : m.Good Regime.any []) : (withLoop m).Closed := by
  have hthere : m.heap.frames.size < m.inWorkspace.heap.frames.size := by
    show _ < (m.heap.newFrame _).1.frames.size
    rw [Heap.size_newFrame]
    exact Nat.lt_succ_self _
  exact (g.inWorkspace.toWellFormed.closed.newClosure hthere).newClosure hthere

/-- The loop takes one round, and then the condition is asked once more. -/
theorem sends_while_of_float :
    ((Query.send (.closure 0) (.str "whileTrue:") [.closure 1]).call? {} (withLoop memory)).map
        (fun activation => (activation.calls {}).map (·.answers {} true))
      = some [true, false, false] ∧
    ∃ activation m₁ loop,
      ((Query.send (.closure 0) (.str "whileTrue:") [.closure 1]).call? {}
        (withLoop memory)).toList = [activation] ∧ (withLoop memory).Aside [] m₁ ∧
      Eval.Alternates {} true (.invoke 0 [] (withLoop memory).heap.frames.size)
        (.invoke 1 [] (withLoop memory).heap.frames.size) 4999 ({} : Settings).rounds m₁
        (activation.calls {}) loop ∧
      Call.TakeTurns {} true (.invoke 0 [] (withLoop memory).heap.frames.size)
        (.invoke 1 [] (withLoop memory).heap.frames.size) (activation.calls {}) ∧
      ((Query.send (.closure 0) (.str "whileTrue:") [.closure 1]).perform {} (withLoop memory)
        = Eval.retired (withLoop memory).heap.frames.size loop ∨
        Eval.OutOfDepth ((Query.send (.closure 0) (.str "whileTrue:") [.closure 1]).perform {}
          (withLoop memory)) ∧ Eval.TooDeep loop) :=
  ⟨by decide +kernel, sends_while (withLoop_equipped memory_equipped)
    (withLoop_closed (memory_good fun _ _ => rfl)) (by decide +kernel) (by decide +kernel)
    (.query (withLoop memory))⟩

end Kernel

end Smalltalk
