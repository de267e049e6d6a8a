import Smalltalk.Proofs.Keeps

/-!
# `Smalltalk.Proofs.Plan`: the calls that an evaluation makes

Every piece of the evaluator is given a way `rec` to do the tasks inside it. A
`Plan` shows what it does with `rec`: it is done, or it asks for a task and goes
on with the answer. A task that ends with a stop ends the plan, for no piece of
the evaluator looks at a stop. `Planned act` is a plan of `act` for every memory,
with the proof that `act` follows it whatever `rec` is.

The tasks that are asked for on the way are the `path` of a plan. A task on the
path that ends with a stop is the last one, and the plan ends with that very
stop (`follow_of_stop`).
-/

set_option autoImplicit false

namespace Smalltalk

/-- What an evaluation does, up to its calls. -/
inductive Plan (α : Type) where
  | done (outcome : Outcome α)
  | ask (task : Task) (m : Memory) (next : Value → Memory → Plan α)

namespace Plan

variable {α β : Type}

/-- What comes of a plan. -/
def follow (rec : Task → Eval Value) : Plan α → Outcome α
  | done outcome => outcome
  | ask task m next =>
    match rec task m with
    | .ok v m' => (next v m').follow rec
    | .error stop m' => .error stop m'

/-- The tasks that are asked for on the way, and the memories they start in. -/
def path (rec : Task → Eval Value) : Plan α → List (Task × Memory)
  | done _ => []
  | ask task m next =>
    (task, m) ::
      match rec task m with
      | .ok v m' => (next v m').path rec
      | .error _ _ => []

/-- A plan and what follows from its value. -/
def bind : Plan α → (α → Memory → Plan β) → Plan β
  | done (.ok a m), k => k a m
  | done (.error stop m), _ => done (.error stop m)
  | ask task m next, k => ask task m fun v m' => (next v m').bind k

theorem follow_bind (rec : Task → Eval Value) (p : Plan α) (k : α → Memory → Plan β) :
    (p.bind k).follow rec =
      match p.follow rec with
      | .ok a m => (k a m).follow rec
      | .error stop m => .error stop m := by
  induction p with
  | done outcome => cases outcome <;> rfl
  | ask task m next ih =>
      simp only [bind, follow]
      cases rec task m with
      | ok v m' => exact ih v m'
      | error stop m' => rfl

end Plan

/-- An evaluation that follows a plan, whatever does the tasks inside it. -/
structure Planned {α : Type} (act : (Task → Eval Value) → Eval α) where
  plan : Memory → Plan α
  follows : ∀ rec m, act rec m = (plan m).follow rec

namespace Planned

variable {α β : Type}

/-- What asks for nothing. -/
def const (act : Eval α) : Planned fun _ => act where
  plan m := .done (act m)
  follows _ _ := rfl

/-- One task. -/
def call (task : Task) : Planned fun rec => rec task where
  plan m := .ask task m fun v m' => .done (.ok v m')
  follows rec m := by
    unfold Plan.follow
    cases rec task m <;> rfl

/-- One evaluation after another. -/
def bind {x : (Task → Eval Value) → Eval α} {f : α → (Task → Eval Value) → Eval β}
    (px : Planned x) (pf : ∀ a, Planned (f a)) :
    Planned fun rec => x rec >>= fun a => f a rec where
  plan m := (px.plan m).bind fun a m' => (pf a).plan m'
  follows rec m := by
    show EStateM.bind (x rec) _ m = _
    rw [Plan.follow_bind, ← px.follows]
    unfold EStateM.bind
    cases x rec m with
    | ok a m' => exact (pf a).follows rec m'
    | error stop m' => rfl

/-- An evaluation that is another way to write one that has a plan. -/
def congr {act act' : (Task → Eval Value) → Eval α} (p : Planned act)
    (h : ∀ rec, act' rec = act rec) : Planned act' where
  plan := p.plan
  follows rec m := by rw [h, p.follows]

/-- A choice that does not depend on the tasks. -/
def ite {x y : (Task → Eval Value) → Eval α} (c : Prop) [Decidable c] (px : Planned x)
    (py : Planned y) : Planned fun rec => if c then x rec else y rec :=
  if h : c then px.congr fun _ => if_pos h else py.congr fun _ => if_neg h

/-- The elements of a list one by one. -/
def mapM {f : α → (Task → Eval Value) → Eval β} (pf : ∀ a, Planned (f a)) :
    (xs : List α) → Planned fun rec => xs.mapM fun a => f a rec
  | [] => (const (pure [])).congr fun _ => List.mapM_nil
  | x :: xs =>
    ((pf x).bind fun b => (mapM pf xs).bind fun bs => const (pure (b :: bs))).congr
      fun _ => List.mapM_cons

/-- The elements of a list one by one, each with the value of the one before. -/
def foldlM {f : β → α → (Task → Eval Value) → Eval β} (pf : ∀ b a, Planned (f b a)) :
    (b : β) → (xs : List α) → Planned fun rec => xs.foldlM (fun b a => f b a rec) b
  | b, [] => (const (pure b)).congr fun _ => List.foldlM_nil
  | b, x :: xs =>
    ((pf b x).bind fun b' => foldlM pf b' xs).congr fun _ => List.foldlM_cons

end Planned

/-! ### Paths -/

namespace Plan

variable {α : Type} {rec : Task → Eval Value}

/-- A task that ends with a stop is the last one, and the plan ends with the stop. -/
theorem follow_of_stop (p : Plan α) {task : Task} {m m' : Memory} {stop : Stop}
    (hmem : (task, m) ∈ p.path rec) (hstop : rec task m = .error stop m') :
    (p.path rec).getLast? = some (task, m) ∧ p.follow rec = .error stop m' := by
  induction p with
  | done outcome => exact absurd hmem List.not_mem_nil
  | ask task' m₁ next ih =>
      unfold path at hmem ⊢
      unfold follow
      cases hanswer : rec task' m₁ with
      | ok v m₂ =>
          rw [hanswer] at hmem
          rcases List.mem_cons.mp hmem with heq | hmem
          · -- the first task has a value, so it is another one
            obtain ⟨rfl, rfl⟩ := Prod.mk.inj heq
            rw [hanswer] at hstop
            cases hstop
          · obtain ⟨hlast, hfollow⟩ := ih v m₂ hmem
            refine ⟨?_, hfollow⟩
            rw [List.getLast?_cons, hlast]
            rfl
      | error stop' m₂ =>
          rw [hanswer] at hmem
          obtain heq := List.mem_singleton.mp hmem
          obtain ⟨rfl, rfl⟩ := Prod.mk.inj heq
          rw [hanswer] at hstop
          cases hstop
          exact ⟨rfl, rfl⟩

end Plan

end Smalltalk
