import Smalltalk.Proofs.Confines
import Smalltalk.Proofs.Lexical

/-!
# `Smalltalk.Proofs.Isolation`: an activation keeps to what it reaches

The realm of an activation is what its receiver, its arguments and the globals lead to
(`Memory.Reach`), and what is made while it runs. `activation_keeps_to_reach` says that it
never leaves the realm, however it ends and whatever the memory is that it starts in: what
was there and is not of the realm stays as it is at every moment, and might as well be
anything else, for the outcome is the same. What the realm, the globals and the answer lead
to in the end is of the realm, and so is every frame that a variable is looked up in on the
way. The frames that have asked for the activation are of the realm only if a closure or a
frame that was handed over leads to them.

The calls on the way are dealt with by an argument about answers, as for the invariant of
well-formed memories: if a call were about a cell outside the realm, it might be answered
by an unwinding that carries the cell, and that would come out at the end. Such an answer
is given in one memory only, so nothing is said of memories that coincide there
(`Confines False`).
-/

set_option autoImplicit false

namespace Smalltalk

open Eval (Confines)

variable {r : Realm} {m : Memory}

/-! ### Calls on the way -/

/-- Some stop carries what does not belong to the realm. -/
theorem Realm.exists_stop {h : Heap} {c : Cell} (hc : ¬ r.Has h c) : ∃ s, ¬ r.Stops h s := by
  cases c with
  | array a => exact ⟨.unwind (.array a) 0, fun hs => hc (hs.1 _ rfl)⟩
  | object o => exact ⟨.unwind (.object o) 0, fun hs => hc (hs.1 _ rfl)⟩
  | closure k => exact ⟨.unwind (.closure k) 0, fun hs => hc (hs.1 _ rfl)⟩
  | frame f => exact ⟨.unwind .nil f, fun hs => hc hs.2⟩

/-- A task that the realm does not allow is about a cell outside of it. -/
theorem Realm.exists_cell {h : Heap} {task : Task} (hnot : ¬ r.Allows h task) :
    ∃ c, ¬ r.Has h c := by
  refine Classical.byContradiction fun hall => hnot ?_
  have hhas : ∀ c, r.Has h c := fun c => Classical.byContradiction fun hc => hall ⟨c, hc⟩
  cases task with
  | evaluate node frame => exact hhas _
  | activate method receiver args callers => exact ⟨fun c _ => hhas c, fun _ _ c _ => hhas c⟩
  | invoke closure args caller => exact ⟨hhas _, fun _ _ c _ => hhas c, hhas _⟩

/-- A call on the path of a plan starts in a confined memory, and the realm allows it. -/
theorem Planned.allowed_of_path {α : Type} {act : (Task → Eval Value) → Eval α} (p : Planned act)
    {post : α → Memory → Prop}
    (hact : ∀ rec, Confines.Tasks False r rec → Confines False r (act rec) m post)
    {rec : Task → Eval Value} (hrec : Confines.Tasks False r rec) (w : m.Confined r)
    {c : Task × Memory} (hc : c ∈ (p.plan m).path rec) :
    c.2.Confined r ∧ r.Allows c.2.heap c.1 := by
  -- a call that may not be there may be answered in any way at all
  have hanswer : ∀ s, (c.2.Confined r → r.Allows c.2.heap c.1 → r.Stops c.2.heap s) →
      c.2.Confined r ∧ r.Stops c.2.heap s := by
    intro s hs
    have hrec' : Confines.Tasks False r (answering rec c (.error s c.2)) := by
      intro task m' hallows
      by_cases hself : (task, m') = c
      · subst hself
        intro w'
        rw [answering_self rec (task, m')]
        exact ⟨⟨w', fun _ => id, hs w' hallows⟩, False.elim⟩
      · refine fun w' => ⟨?_, False.elim⟩
        rw [answering_of_ne rec _ hself]
        exact (hrec task m' hallows w').1
    have hstays := (hact _ hrec' w).1
    rw [p.follows, Plan.follow_answering _ hc s] at hstays
    exact ⟨hstays.1, hstays.2.2⟩
  refine ⟨(hanswer .unfinished fun _ _ => trivial).1, Classical.byContradiction fun hnot => ?_⟩
  obtain ⟨cell, hcell⟩ := Realm.exists_cell hnot
  obtain ⟨s, hs⟩ := Realm.exists_stop hcell
  exact hs (hanswer s fun _ hallows => absurd hallows hnot).2

/-- One case for each task. -/
theorem Staged.allowed_of_path {settings : Settings} {task : Task}
    (hallows : r.Allows m.heap task) (w : m.Confined r) {rec : Task → Eval Value}
    (hrec : Confines.Tasks False r rec) {c : Task × Memory}
    (hc : c ∈ ((Staged.step settings task).plan m).path rec) :
    c.2.Confined r ∧ r.Allows c.2.heap c.1 := by
  cases task with
  | evaluate node frame =>
      exact (Planned.evaluateNode frame node).allowed_of_path
        (fun _ hrec' => Confines.evaluateNode hrec' hallows node) hrec w hc
  | invoke closure args caller =>
      exact (Planned.invoke closure args caller).allowed_of_path
        (fun _ hrec' => Confines.invoke hrec' hallows.1 hallows.2.1 fun _ => hallows.2.2) hrec w hc
  | activate method receiver args callers =>
      obtain ⟨frame, m₁, -, henters, hc⟩ := enter_of_mem_path hc
      have hconfined :=
        (Confines.enter method hallows.1 hallows.2 callers : Confines False r _ m _) w
      rw [henters] at hconfined
      obtain ⟨⟨w₁, g, hf⟩, -⟩ := hconfined
      exact (Planned.runMethod settings frame method receiver).allowed_of_path
        (fun _ hrec' => Confines.runMethod hrec' settings hf method (hallows.1.mono g)) hrec w₁ hc

/-- A call that is about the realm involves only calls that are. -/
theorem Call.Involves.allowed {settings : Settings} {c c' : Call} (h : c.Involves settings c')
    (w : c.memory.Confined r) (hallows : r.Allows c.memory.heap c.task) :
    c'.memory.Confined r ∧ r.Allows c'.memory.heap c'.task := by
  induction h with
  | refl => exact ⟨w, hallows⟩
  | tail _ hc ih =>
      obtain ⟨w, hallows⟩ := ih
      exact Staged.allowed_of_path hallows w (Confines.run settings _) (of_mem_calls hc).2

/-! ### Activations -/

/-- The value that a stop carries. -/
def Stop.carried? : Stop → Option Value
  | .unwind v _ => some v
  | .fault f => f.carried?
  | .tooDeep | .unfinished => none

/-- The value that an outcome has: the answer, or what the stop carries. -/
def Eval.carried : Outcome Value → List Value
  | .ok v _ => [v]
  | .error s _ => s.carried?.toList

/-- The memory that an outcome leaves is confined. -/
theorem Eval.Stays.confined {α : Type} {post : α → Memory → Prop} {out : Outcome α}
    (h : Eval.Stays r m post out) : (left out).Confined r := by
  cases out with
  | ok a m' => exact h.1
  | error s m' => exact h.1

/-- The value of an outcome belongs to the realm. -/
theorem Eval.Stays.carried {out : Outcome Value} (h : Eval.Stays r m r.Answers out) {v : Value}
    (hv : v ∈ Eval.carried out) : r.Admits (left out).heap v := by
  cases out with
  | ok u m' =>
      obtain rfl := List.mem_singleton.mp hv
      exact h.2.2
  | error s m' =>
      have hv := Option.mem_toList.mp hv
      cases s with
      | unwind u home =>
          cases hv
          exact h.2.2.1
      | fault f => exact h.2.2 v hv
      | tooDeep => cases hv
      | unfinished => cases hv

/-- A call keeps to a realm, while it is made and when it has ended. -/
structure Call.KeepsTo (settings : Settings) (r : Realm) (c : Call) : Prop where
  /-- What is not given is as it was at the end, -/
  untouched : ∀ cell, r.start.Contains cell → ¬ r.given cell →
    r.start.Agrees (left (c.outcome settings)).heap cell
  /-- and at the start of each call on the way. -/
  meanwhile : ∀ c', c.Involves settings c' → ∀ cell, r.start.Contains cell → ¬ r.given cell →
    r.start.Agrees c'.memory.heap cell
  /-- Whatever the cells have that are not of the realm, the outcome is the same, and so is all
  that the realm has in the end. -/
  unread : ∀ n, c.memory.Coincides r n →
    Eval.Matches r (c.outcome settings) ({ c with memory := n }.outcome settings)
  /-- The cells given, the globals and the answer lead to the realm alone. -/
  reached : ∀ cell, (left (c.outcome settings)).heap.Reach (fun root => r.given root ∨
      (left (c.outcome settings)).Roots (Eval.carried (c.outcome settings)) root) cell →
    r.Has (left (c.outcome settings)).heap cell
  /-- An unwinding goes to a frame of the realm. -/
  unwound : ∀ v home m', c.outcome settings = .error (.unwind v home) m' →
    r.Has m'.heap (.frame home)
  /-- A tree is only evaluated in frames of the realm, with frames of the realm around them. -/
  frames : ∀ c', c.Involves settings c' → ∀ node f, c'.task = .evaluate node f →
    ∀ g ∈ c'.memory.heap.chain f, r.Has c'.memory.heap (.frame g)

/-- What belongs to the realm at the start of a call is all that it keeps to. -/
theorem Call.keepsTo (settings : Settings) {c : Call} (w : c.memory.Confined r)
    (hallows : r.Allows c.memory.heap c.task) : c.KeepsTo settings r := by
  have hrun : Confines True r (Eval.run settings c.depth c.task) c.memory r.Answers :=
    Confines.run settings c.depth c.task c.memory hallows
  obtain ⟨hstays, hsame⟩ := hrun w
  change Eval.Stays r c.memory r.Answers (c.outcome settings) at hstays
  have hleft := hstays.confined
  refine ⟨hleft.untouched, fun c' h => (h.allowed w hallows).1.untouched,
    fun n => hsame trivial n, ?_, ?_, ?_⟩
  · intro cell hreach
    refine hreach.closed (P := fun cell => r.Has _ cell) ?_ hleft.closed
    rintro root (hgiven | ⟨v, hv, hroot⟩ | ⟨key, v, hfind, hroot⟩)
    · exact .inl hgiven
    · exact hstays.carried hv root hroot
    · exact hleft.bound key v hfind root hroot
  · intro v home m' hout
    rw [hout] at hstays
    exact hstays.2.2.2
  · intro c' h node f htask g hg
    obtain ⟨w', hallows'⟩ := h.allowed w hallows
    rw [htask] at hallows'
    exact w'.chain hallows' hg

/-- An activation keeps to what its receiver, its arguments and the globals lead to, and to
what is made while it runs. -/
theorem activation_keeps_to_reach (settings : Settings) (depth : Nat) (m : Memory)
    (method : Method) (receiver : Value) (args : List Value) (callers : List FrameId) :
    Call.KeepsTo settings ⟨m.heap, m.Reach (receiver :: args)⟩
      ⟨.activate method receiver args callers, m, depth⟩ := by
  have hroots : ∀ v ∈ receiver :: args, ∀ c, v.cell? = some c →
      m.Reach (receiver :: args) c := fun v hv c hc => .root (.inl ⟨v, hv, hc⟩)
  refine Call.keepsTo settings (.start m _) ⟨fun c hc => ?_, fun v hv c hc => ?_⟩
  · exact .inl (hroots receiver List.mem_cons_self c hc)
  · exact .inl (hroots v (List.mem_cons_of_mem _ hv) c hc)

end Smalltalk
