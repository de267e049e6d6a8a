import Smalltalk.Proofs.Call

/-!
# `Smalltalk.Proofs.InProgress`: the invariant holds for every call

`InProgress.safe` is the result: whatever call comes up while a query of a
session is evaluated, the memory it starts in is good for the frames of the
activations in progress, and the call has what it needs.

It follows from what the step keeps, by an argument about answers. The step
keeps the invariant for every way of doing the inner tasks that honours it. So
let one call on the path be answered in a way that cannot be overlooked, by a
stop, and everything else as it is (`answering`). The stop comes out at the end,
in the memory that the call started in, so that memory is good
(`Plan.path_good`). And if the call did not have what it needs, the answer might
even be an unwinding to a frame that nobody has opened, which the step excludes
(`Plan.path_requires`).
-/

set_option autoImplicit false

namespace Smalltalk

variable {R : Regime} {opened : List FrameId} {m : Memory}

/-! ### Answering one call differently -/

open Classical in
/-- Answers one call as given and all others as before. -/
noncomputable def answering (rec : Task → Eval Value) (c : Task × Memory) (r : Outcome Value) :
    Task → Eval Value :=
  fun task m => if (task, m) = c then r else rec task m

theorem answering_self (rec : Task → Eval Value) (c : Task × Memory) (r : Outcome Value) :
    answering rec c r c.1 c.2 = r :=
  if_pos rfl

theorem answering_of_ne (rec : Task → Eval Value) {c : Task × Memory} (r : Outcome Value)
    {task : Task} {m : Memory} (h : (task, m) ≠ c) : answering rec c r task m = rec task m :=
  if_neg h

namespace Plan

variable {α : Type} {rec : Task → Eval Value}

/-- A stop that answers a call on the path comes out at the end. -/
theorem follow_answering (p : Plan α) {c : Task × Memory} (hc : c ∈ p.path rec) (stop : Stop) :
    p.follow (answering rec c (.error stop c.2)) = .error stop c.2 := by
  induction p with
  | done outcome => exact absurd hc List.not_mem_nil
  | ask task m next ih =>
      unfold follow
      by_cases hfirst : (task, m) = c
      · subst hfirst
        rw [answering_self rec (task, m)]
      · rw [answering_of_ne rec _ hfirst]
        unfold path at hc
        have htail := (List.mem_cons.mp hc).resolve_left (Ne.symm hfirst)
        cases hanswer : rec task m with
        | ok v m' =>
            rw [hanswer] at htail
            exact ih v m' htail
        | error stop' m' =>
            rw [hanswer] at htail
            exact absurd htail List.not_mem_nil

/-- A plan that keeps the invariant whenever its calls do. -/
def Keeps (R : Regime) (opened : List FrameId) (m : Memory) (p : Plan α)
    (post : α → Memory → Prop) : Prop :=
  ∀ rec, R.Honours opened rec → Eval.Kept R opened m post (p.follow rec)

variable {p : Plan α} {post : α → Memory → Prop}

/-- Every call on the path starts in a good memory. -/
theorem path_good (hp : p.Keeps R opened m post) (hrec : R.Honours opened rec)
    {c : Task × Memory} (hc : c ∈ p.path rec) : c.2.Good R opened := by
  -- a call may be left unfinished at any moment
  have hrec' : R.Honours opened (answering rec c (.error .unfinished c.2)) := by
    intro task m' g hrequires
    by_cases hself : (task, m') = c
    · subst hself
      show Eval.Kept R opened m' _ _
      rw [answering_self rec (task, m')]
      exact ⟨.refl m', g, trivial⟩
    · show Eval.Kept R opened m' _ _
      rw [answering_of_ne rec _ hself]
      exact hrec task m' g hrequires
  have hkept := hp _ hrec'
  rw [p.follow_answering hc .unfinished] at hkept
  exact hkept.2.1

/-- Every call on the path has what it needs. -/
theorem path_requires (hp : p.Keeps R opened m post) (hrec : R.Honours opened rec)
    {c : Task × Memory} (hc : c ∈ p.path rec) : R.Requires opened c.2 c.1 := by
  refine Classical.byContradiction ?_
  intro hnot
  -- a call that lacks something may be answered in any way at all
  have hrec' : R.Honours opened
      (answering rec c (.error (.unwind .nil c.2.heap.frames.size) c.2)) := by
    intro task m' g hrequires
    have hself : (task, m') ≠ c := fun h => hnot (h ▸ hrequires)
    show Eval.Kept R opened m' _ _
    rw [answering_of_ne rec _ hself]
    exact hrec task m' g hrequires
  have hkept := hp _ hrec'
  rw [p.follow_answering hc] at hkept
  obtain ⟨-, g, hhome, -⟩ := hkept
  exact Nat.lt_irrefl _ (g.active _ hhome).1

end Plan

/-! ### Calls -/

open Eval

/-- The plan of a step keeps the invariant with the frame of the task in front. -/
theorem Staged.step_keeps {settings : Settings} (suits : R.Suits settings) (g : m.Good R opened)
    {task : Task} (hrequires : R.Requires opened m task) {rec : Task → Eval Value}
    (hrec : ∀ opened, R.Honours opened rec) {c : Task × Memory}
    (hc : c ∈ ((Staged.step settings task).plan m).path rec) :
    c.2.Good R ((Call.mk task m 0).opens ++ opened) ∧
      R.Requires ((Call.mk task m 0).opens ++ opened) c.2 c.1 := by
  -- it is enough that the plan keeps the invariant from some memory on
  suffices h : ∃ m', ((Staged.step settings task).plan m).Keeps R
      ((Call.mk task m 0).opens ++ opened) m' fun v m'' => R.Holds m'' v by
    obtain ⟨m', hp⟩ := h
    exact ⟨Plan.path_good hp (hrec _) hc, Plan.path_requires hp (hrec _) hc⟩
  cases task with
  | evaluate node frame =>
      refine ⟨m, fun rec' hrec' => ?_⟩
      have hkeeps := Keeps.evaluateNode hrec' g hrequires.2 hrequires.1
      unfold Keeps at hkeeps
      rw [(Planned.evaluateNode frame node).follows] at hkeeps
      exact hkeeps
  | invoke closure args caller =>
      obtain ⟨hclosure, hargs, -⟩ := hrequires
      refine ⟨m, fun rec' hrec' => ?_⟩
      have hkeeps : Keeps R _ (Eval.invoke rec' closure args caller) m fun v m' => R.Holds m' v :=
        Keeps.invoke hrec' g hclosure hargs
      unfold Keeps at hkeeps
      rw [(Planned.invoke closure args caller).follows] at hkeeps
      exact hkeeps
  | activate method receiver args callers =>
      obtain ⟨hmethod, hreceiver, hargs, -⟩ := hrequires
      have henter : Keeps R opened (Eval.enter method receiver args callers) m _ :=
        Keeps.enter g hmethod hreceiver hargs
      obtain ⟨f, m₁, harity, henters, -⟩ := enter_of_mem_path hc
      unfold Keeps at henter
      rw [henters] at henter
      obtain ⟨l₁, -, rfl, hbegun, hsettled⟩ := henter
      rw [(activate_of_enter settings harity henters).2]
      refine ⟨m₁, fun rec' hrec' => ?_⟩
      have hkeeps := Keeps.runMethod hrec' suits hbegun hsettled hmethod (hreceiver.later l₁)
      unfold Keeps at hkeeps
      rw [(Planned.runMethod settings _ method receiver).follows] at hkeeps
      exact hkeeps

/-- Whatever call comes up, its memory is good and it has what it needs. -/
theorem InProgress.safe {settings : Settings} (suits : R.Suits settings) (g : m.Good R [])
    {q : Query} (hq : R.Asks m q) {stack : List Call} (h : InProgress settings m q stack) :
    ∀ c outer, stack = c :: outer →
      c.memory.Good R (openFrames m q outer) ∧
        R.Requires (openFrames m q outer) c.memory c.task := by
  induction h with
  | first h =>
      intro c outer hstack
      obtain ⟨rfl, rfl⟩ := List.cons.inj hstack
      have hprepare := Query.prepare_keeps g hq
      unfold Keeps at hprepare
      rw [Query.prepare_of_call? h] at hprepare
      obtain ⟨-, -, -, g₁, hrequires⟩ := hprepare
      exact ⟨g₁, hrequires⟩
  | @inner c c' outer h hc ih =>
      intro c₁ outer₁ hstack
      obtain ⟨rfl, rfl⟩ := List.cons.inj hstack
      obtain ⟨g', hrequires⟩ := ih c outer rfl
      have hsafe := Staged.step_keeps suits g' hrequires
        (fun opened => Regime.Honours.run suits _ opened) (Call.of_mem_calls hc).2
      have hopens : openFrames m q (c :: outer) = c.opens ++ openFrames m q outer := by
        unfold openFrames
        rw [List.flatMap_cons, List.append_assoc]
      rw [hopens]
      exact hsafe

end Smalltalk
