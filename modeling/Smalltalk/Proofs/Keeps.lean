import Smalltalk.Proofs.Primitive

/-!
# `Smalltalk.Proofs.Keeps`: evaluations that keep the invariant

`Keeps R opened act m post` says that `act`, started from `m`, ends in a later
memory that is good again, and either with a value as `post` says or with a
stop that is allowed there. An unwinding is allowed only to the home of an
activation in progress. A misuse is a fault only where the code may be badly
named, and a value without a class only where foreign values may come up.

The rules follow the monad: `Keeps.bind` for sequences, and one rule for each
of the actions that evaluations are made of.
-/

set_option autoImplicit false

namespace Smalltalk

/-! ### Sequences -/

section
variable {ε α β : Type} {x : EStateM ε Memory α} {f : α → EStateM ε Memory β} {m m' : Memory}

theorem bind_of_ok {a : α} (h : x m = .ok a m') : (x >>= f) m = f a m' := by
  show EStateM.bind x f m = _
  unfold EStateM.bind
  rw [h]

theorem bind_of_error {e : ε} (h : x m = .error e m') : (x >>= f) m = .error e m' := by
  show EStateM.bind x f m = _
  unfold EStateM.bind
  rw [h]

/-- An action of two parts that ends with a value has ended with one in both. -/
theorem of_bind_ok {b : β} (h : (x >>= f) m = .ok b m') :
    ∃ a m₁, x m = .ok a m₁ ∧ f a m₁ = .ok b m' := by
  cases hx : x m with
  | ok a m₁ =>
      rw [bind_of_ok hx] at h
      exact ⟨a, m₁, rfl, h⟩
  | error e m₁ =>
      rw [bind_of_error hx] at h
      cases h

end

/-! ### Outcomes -/

/-- How an evaluation ends, and the memory that it leaves. -/
abbrev Outcome (α : Type) := EStateM.Result Stop Memory α

/-- The stops that may end an evaluation while some activations are in progress. -/
def Regime.Stops (R : Regime) (opened : List FrameId) (m : Memory) : Stop → Prop
  | .unwind v home => home ∈ opened ∧ R.Holds m v
  | .fault f => R.Fails f
  | .tooDeep | .unfinished => True

namespace Eval

variable {α β : Type} {R : Regime} {opened : List FrameId} {m : Memory}

/-- An outcome that keeps the invariant and is as `post` says. -/
def Kept (R : Regime) (opened : List FrameId) (m : Memory) (post : α → Memory → Prop) :
    Outcome α → Prop
  | .ok a m' => m.Later m' ∧ m'.Good R opened ∧ post a m'
  | .error s m' => m.Later m' ∧ m'.Good R opened ∧ R.Stops opened m' s

/-- An evaluation that keeps the invariant and ends as `post` says. -/
def Keeps (R : Regime) (opened : List FrameId) (act : Eval α) (m : Memory)
    (post : α → Memory → Prop) : Prop :=
  Kept R opened m post (act m)

/-- A journal that is not kept gets no line. -/
theorem note_of_quiet {line : Memory → Except Fault String}
    (hquiet : m.journal.recording = false) : Eval.note line m = .ok () m := by
  show (if m.journal.recording then _ else _ : Eval Unit) m = _
  rw [if_neg (by rw [hquiet]; exact Bool.false_ne_true)]
  rfl

/-- A journal that is kept gets the line, -/
theorem note_of_made {line : Memory → Except Fault String} {text : String}
    (hrecording : m.journal.recording = true) (hline : line m = .ok text) :
    Eval.note line m = .ok () (m.note text) := by
  show (if m.journal.recording then _ else _ : Eval Unit) m = _
  rw [if_pos hrecording, hline]
  rfl

/-- and it is a fault that the line cannot be made. -/
theorem note_of_unmade {line : Memory → Except Fault String} {f : Fault}
    (hrecording : m.journal.recording = true) (hline : line m = .error f) :
    Eval.note line m = .error (.fault f) m := by
  show (if m.journal.recording then _ else _ : Eval Unit) m = _
  rw [if_pos hrecording, hline]
  rfl

namespace Keeps

theorem pure {a : α} {post : α → Memory → Prop} (g : m.Good R opened) (h : post a m) :
    Keeps R opened (Pure.pure a) m post :=
  ⟨.refl m, g, h⟩

theorem stop {s : Stop} {post : α → Memory → Prop} (g : m.Good R opened)
    (h : R.Stops opened m s) : Keeps R opened (throw s) m post :=
  ⟨.refl m, g, h⟩

theorem fail {f : Fault} {post : α → Memory → Prop} (g : m.Good R opened) (h : R.Fails f) :
    Keeps R opened (Eval.fail f) m post :=
  stop g h

/-- What follows starts from a memory that is later and good again. -/
theorem bind {x : Eval α} {f : α → Eval β} {Q : α → Memory → Prop} {post : β → Memory → Prop}
    (hx : Keeps R opened x m Q)
    (hf : ∀ a m', m.Later m' → m'.Good R opened → Q a m' → Keeps R opened (f a) m' post) :
    Keeps R opened (x >>= f) m post := by
  unfold Keeps at hx ⊢
  cases hr : x m with
  | ok a m' =>
      rw [hr] at hx
      rw [bind_of_ok hr]
      obtain ⟨l, g, h⟩ := hx
      -- the second part is later than the first, and so than the start
      have hk := hf a m' l g h
      unfold Keeps at hk
      cases hr' : f a m' with
      | ok b m'' =>
          rw [hr'] at hk
          exact ⟨l.trans hk.1, hk.2⟩
      | error s m'' =>
          rw [hr'] at hk
          exact ⟨l.trans hk.1, hk.2⟩
  | error s m' =>
      rw [hr] at hx
      rw [bind_of_error hr]
      exact hx

/-- What holds of the answer may be weakened, in a memory that is good. -/
theorem weaken {act : Eval α} {Q post : α → Memory → Prop} (hact : Keeps R opened act m Q)
    (h : ∀ a m', m.Later m' → m'.Good R opened → Q a m' → post a m') :
    Keeps R opened act m post := by
  unfold Keeps at hact ⊢
  cases hr : act m with
  | ok a m' =>
      rw [hr] at hact
      exact ⟨hact.1, hact.2.1, h a m' hact.1 hact.2.1 hact.2.2⟩
  | error s m' =>
      rw [hr] at hact
      exact hact

/-- Looking something up changes nothing. -/
theorem ask {f : Memory → α} {k : α → Eval β} {post : β → Memory → Prop}
    (h : Keeps R opened (k (f m)) m post) : Keeps R opened (Eval.ask f >>= k) m post :=
  h

theorem get {k : Memory → Eval β} {post : β → Memory → Prop}
    (h : Keeps R opened (k m) m post) : Keeps R opened (MonadState.get >>= k) m post :=
  h

theorem ofExcept {e : Except Fault α} {post : α → Memory → Prop} (g : m.Good R opened)
    (hok : ∀ a, e = .ok a → post a m) (herror : ∀ f, e = .error f → R.Fails f) :
    Keeps R opened (Eval.ofExcept e) m post := by
  cases he : e with
  | ok a => exact pure g (hok a he)
  | error f => exact fail g (herror f he)

theorem note {line : Memory → Except Fault String} {k : Unit → Eval β}
    {post : β → Memory → Prop} (g : m.Good R opened) (h : Keeps R opened (k ()) m post) :
    Keeps R opened (Eval.note line >>= k) m post := by
  unfold Keeps
  rw [bind_of_ok (note_of_quiet g.quiet)]
  exact h

/-- A change of the heap. -/
theorem changeHeap {f : Heap → Heap} {post : Unit → Memory → Prop}
    (l : m.heap.Later (f m.heap)) (g : Memory.Good R opened { m with heap := f m.heap })
    (h : post () { m with heap := f m.heap }) : Keeps R opened (Eval.changeHeap f) m post :=
  ⟨.of_heap l, g, h⟩

/-- Something new in the heap. -/
theorem make {f : Heap → Heap × α} {post : α → Memory → Prop}
    (l : m.heap.Later (f m.heap).1)
    (g : Memory.Good R opened { m with heap := (f m.heap).1 })
    (h : post (f m.heap).2 { m with heap := (f m.heap).1 }) :
    Keeps R opened (Eval.make f) m post :=
  ⟨.of_heap l, g, h⟩

/-- The elements of a list one by one. -/
theorem mapM {xs : List α} {f : α → Eval β} {P : β → Memory → Prop}
    (hP : ∀ b m m', m.Later m' → P b m → P b m') (g : m.Good R opened)
    (hf : ∀ x ∈ xs, ∀ m', m.Later m' → m'.Good R opened → Keeps R opened (f x) m' P) :
    Keeps R opened (xs.mapM f) m fun bs m' => ∀ b ∈ bs, P b m' := by
  induction xs generalizing m with
  | nil =>
      rw [List.mapM_nil]
      exact pure g (fun _ h => absurd h List.not_mem_nil)
  | cons x xs ih =>
      rw [List.mapM_cons]
      refine bind (hf x List.mem_cons_self m (.refl m) g) ?_
      intro b m₁ l₁ g₁ hb
      have htail := ih g₁ fun y hy m' l' g' =>
        hf y (List.mem_cons_of_mem _ hy) m' (l₁.trans l') g'
      refine bind htail ?_
      intro bs m₂ l₂ g₂ hbs
      refine pure g₂ ?_
      intro c hc
      rcases List.mem_cons.mp hc with rfl | hc
      · exact hP c m₁ m₂ l₂ hb
      · exact hbs c hc

/-- The elements of a list one by one, for nothing but the change. -/
theorem forM {xs : List α} {f : α → Eval Unit} {P : Memory → Prop} (g : m.Good R opened)
    (h : P m)
    (hf : ∀ x ∈ xs, ∀ m', m.Later m' → m'.Good R opened → P m' →
      Keeps R opened (f x) m' fun _ m'' => P m'') :
    Keeps R opened (xs.forM f) m fun _ m' => P m' := by
  induction xs generalizing m with
  | nil => exact pure g h
  | cons x xs ih =>
      refine bind (hf x List.mem_cons_self m (.refl m) g h) ?_
      intro _ m₁ l₁ g₁ h₁
      exact ih g₁ h₁ fun y hy m' l' g' h' =>
        hf y (List.mem_cons_of_mem _ hy) m' (l₁.trans l') g' h'

/-- The elements of a list one by one, each with the value of the one before. -/
theorem foldlM {xs : List α} {f : β → α → Eval β} {b : β} {P : β → Memory → Prop}
    (g : m.Good R opened) (hb : P b m)
    (hf : ∀ x ∈ xs, ∀ b m', m.Later m' → m'.Good R opened → P b m' →
      Keeps R opened (f b x) m' P) :
    Keeps R opened (xs.foldlM f b) m P := by
  induction xs generalizing m b with
  | nil => exact pure g hb
  | cons x xs ih =>
      rw [List.foldlM_cons]
      refine bind (hf x List.mem_cons_self b m (.refl m) g hb) ?_
      intro b' m₁ l₁ g₁ hb'
      exact ih g₁ hb' fun y hy c m' l' g' hc =>
        hf y (List.mem_cons_of_mem _ hy) c m' (l₁.trans l') g' hc

end Keeps

end Eval

end Smalltalk
