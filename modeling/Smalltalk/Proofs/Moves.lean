import Mathlib.Logic.Relation
import Smalltalk.Proofs.Session

/-!
# `Smalltalk.Proofs.Moves`: actions that go step by step

Evaluations and changes are both actions on a memory that may end early.
`Moves step act m` says that all that `act` does to `m` is a sequence of steps of
one relation, however it ends. The rules follow the monad and are the same for
every relation, so an action of many parts needs one fact for each part.

What each step preserves is preserved by the action (`Moves.preserve`).
-/

set_option autoImplicit false

namespace Smalltalk

open Relation (ReflTransGen)

/-! ### Variables -/

namespace Eval

variable {m : Memory} {f : FrameId} {name : Json} {key : Key}

theorem ask_of_eq {α : Type} {read : Memory → α} {a : α} (h : read m = a) :
    ask read m = .ok a m :=
  congrArg (EStateM.Result.ok · m) h

theorem ofExcept_keyOf (hkey : name.key? = some key) (m : Memory) :
    ofExcept (Fault.keyOf name) m = .ok key m := by
  rw [Fault.keyOf_eq_ok.mpr hkey]
  rfl

theorem lookup_of_some (hkey : name.key? = some key) {v : Value}
    (h : m.heap.lookup? f key = some v) : lookup f name m = .ok v m := by
  unfold lookup
  rw [bind_of_ok (ofExcept_keyOf hkey m), bind_of_ok (ask_of_eq h)]
  rfl

theorem lookup_of_none (hkey : name.key? = some key) (h : m.heap.lookup? f key = none) :
    lookup f name m = .error (.fault (Fault.about name .unresolvedVariable)) m := by
  unfold lookup
  rw [bind_of_ok (ofExcept_keyOf hkey m), bind_of_ok (ask_of_eq h)]
  rfl

theorem assign_of_owner (hkey : name.key? = some key) {owner : FrameId}
    (h : m.heap.owner? f key = some owner) (v : Value) :
    assign f name v m = .ok () { m with heap := m.heap.declare owner key name v } := by
  unfold assign
  rw [bind_of_ok (ofExcept_keyOf hkey m), bind_of_ok (ask_of_eq h)]
  rfl

theorem assign_of_unowned (hkey : name.key? = some key) (h : m.heap.owner? f key = none)
    (v : Value) :
    assign f name v m = .error (.fault (Fault.about name .unresolvedVariable)) m := by
  unfold assign
  rw [bind_of_ok (ofExcept_keyOf hkey m), bind_of_ok (ask_of_eq h)]
  rfl

end Eval

/-! ### Steps -/

/-- Whatever an action does to a memory, it does in steps. -/
def Moves {ε α : Type} (step : Memory → Memory → Prop) (act : EStateM ε Memory α) (m : Memory) :
    Prop :=
  ReflTransGen step m (left (act m))

namespace Moves

variable {ε α β : Type} {step : Memory → Memory → Prop} {m : Memory}

/-- What every step preserves is preserved by any number of them. -/
theorem preserve {P : Memory → Prop} {m m' : Memory} (h : ReflTransGen step m m')
    (hstep : ∀ m m', step m m' → P m → P m') (hm : P m) : P m' := by
  induction h with
  | refl => exact hm
  | tail _ hlast ih => exact hstep _ _ hlast ih

/-- The memory that an action leaves with a value. -/
theorem of_ok {act : EStateM ε Memory α} (h : Moves step act m) {a : α} {m' : Memory}
    (hact : act m = .ok a m') : ReflTransGen step m m' := by
  unfold Moves at h
  rw [hact] at h
  exact h

/-- The memory that an action leaves without a value. -/
theorem of_error {act : EStateM ε Memory α} (h : Moves step act m) {e : ε} {m' : Memory}
    (hact : act m = .error e m') : ReflTransGen step m m' := by
  unfold Moves at h
  rw [hact] at h
  exact h

theorem pure (a : α) : Moves step (Pure.pure a : EStateM ε Memory α) m := .refl

theorem throw (e : ε) : Moves step (MonadExcept.throw e : EStateM ε Memory α) m := .refl

theorem bind {x : EStateM ε Memory α} {f : α → EStateM ε Memory β} (hx : Moves step x m)
    (hf : ∀ a m₁, x m = .ok a m₁ → ReflTransGen step m m₁ → Moves step (f a) m₁) :
    Moves step (x >>= f) m := by
  unfold Moves
  cases hr : x m with
  | ok a m₁ =>
      rw [bind_of_ok hr]
      exact (hx.of_ok hr).trans (hf a m₁ hr (hx.of_ok hr))
  | error e m₁ =>
      rw [bind_of_error hr]
      exact hx.of_error hr

theorem get {k : Memory → EStateM ε Memory β} (h : Moves step (k m) m) :
    Moves step (MonadState.get >>= k) m :=
  h

theorem mapM {xs : List α} {f : α → EStateM ε Memory β}
    (hf : ∀ x ∈ xs, ∀ m₁, ReflTransGen step m m₁ → Moves step (f x) m₁) :
    Moves step (xs.mapM f) m := by
  induction xs generalizing m with
  | nil =>
      rw [List.mapM_nil]
      exact pure []
  | cons x xs ih =>
      rw [List.mapM_cons]
      refine bind (hf x List.mem_cons_self m .refl) ?_
      intro b m₁ _ l₁
      refine bind (ih fun y hy m₂ l₂ => hf y (List.mem_cons_of_mem _ hy) m₂ (l₁.trans l₂)) ?_
      exact fun bs m₂ _ _ => pure _

theorem forM {xs : List α} {f : α → EStateM ε Memory PUnit}
    (hf : ∀ x ∈ xs, ∀ m₁, ReflTransGen step m m₁ → Moves step (f x) m₁) :
    Moves step (xs.forM f) m := by
  induction xs generalizing m with
  | nil => exact pure PUnit.unit
  | cons x xs ih =>
      refine bind (hf x List.mem_cons_self m .refl) ?_
      intro _ m₁ _ l₁
      exact ih fun y hy m₂ l₂ => hf y (List.mem_cons_of_mem _ hy) m₂ (l₁.trans l₂)

theorem foldlM {xs : List α} {f : β → α → EStateM ε Memory β} {b : β}
    (hf : ∀ x ∈ xs, ∀ b m₁, ReflTransGen step m m₁ → Moves step (f b x) m₁) :
    Moves step (xs.foldlM f b) m := by
  induction xs generalizing m b with
  | nil => exact pure b
  | cons x xs ih =>
      rw [List.foldlM_cons]
      refine bind (hf x List.mem_cons_self b m .refl) ?_
      intro b' m₁ _ l₁
      exact ih fun y hy c m₂ l₂ => hf y (List.mem_cons_of_mem _ hy) c m₂ (l₁.trans l₂)

theorem forIn {xs : List α} {f : α → β → EStateM ε Memory (ForInStep β)} {b : β}
    (hf : ∀ x ∈ xs, ∀ b m₁, ReflTransGen step m m₁ → Moves step (f x b) m₁) :
    Moves step (ForIn.forIn xs b f) m := by
  induction xs generalizing m b with
  | nil =>
      rw [List.forIn_nil]
      exact pure b
  | cons x xs ih =>
      rw [List.forIn_cons]
      refine bind (hf x List.mem_cons_self b m .refl) ?_
      intro next m₁ _ l₁
      cases next with
      | done b' => exact pure b'
      | yield b' =>
          exact ih fun y hy c m₂ l₂ => hf y (List.mem_cons_of_mem _ hy) c m₂ (l₁.trans l₂)

end Moves

end Smalltalk
