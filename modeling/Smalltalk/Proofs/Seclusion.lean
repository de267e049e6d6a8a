import Smalltalk.Proofs.Aside
import Smalltalk.Proofs.Confines
import Smalltalk.Proofs.Transparent

/-!
# `Smalltalk.Proofs.Seclusion`: frames that a closure cannot get at

While the code of the kernel runs a closure that it was given, the frames of that code are
hidden from the closure: neither the closure nor an argument nor a global leads to them
(`Memory.Secludes`). What the kernel does itself keeps them so (`Secludes.aside`), and so
does the closure, whatever it does: the hidden frames are as they were, and it does not
unwind to one of them (`Secludes.invoke`). The second is an instance of what is known of
evaluations that are confined to a realm. The frame that asks for the closure is hidden as
well, so the realm is the one of the closure and its arguments alone.
-/

set_option autoImplicit false

namespace Smalltalk

variable {m m' : Memory} {vs : List Value} {own hidden hidden' : List FrameId}

/-- What some values lead to is there, and is none of some frames that are there. -/
structure Memory.Secludes (m : Memory) (vs : List Value) (hidden : List FrameId) : Prop where
  closure : ∀ c, m.Reach vs (.closure c) → c < m.heap.closures.size
  frame : ∀ f, m.Reach vs (.frame f) → f < m.heap.frames.size ∧ f ∉ hidden
  there : ∀ f ∈ hidden, f < m.heap.frames.size

/-- A later memory in which some frames are as they were. -/
structure Memory.Spares (m : Memory) (frames : List FrameId) (m' : Memory) : Prop
    extends m.Later m' where
  same : ∀ f ∈ frames, m'.heap.frame f = m.heap.frame f

/-- A closure or a frame that is there. Of arrays and objects nothing is asked. -/
def Heap.Present (h : Heap) : Cell → Prop
  | .closure c => c < h.closures.size
  | .frame f => f < h.frames.size
  | _ => True

/-- Of values only closures lead to a cell that has to be there. -/
theorem Heap.present_of_cell? {h : Heap} {v : Value}
    (hv : ∀ k, v = .closure k → k < h.closures.size) {c : Cell} (hc : v.cell? = some c) :
    h.Present c := by
  cases v with
  | closure k =>
      cases hc
      exact hv k rfl
  | array | object =>
      cases hc
      trivial
  | _ => cases hc

namespace Memory

theorem Spares.trans {m'' : Memory} (h : m.Spares hidden m') (h' : m'.Spares hidden m'') :
    m.Spares hidden m'' :=
  ⟨h.toLater.trans h'.toLater, fun f hf => (h'.same f hf).trans (h.same f hf)⟩

theorem Spares.mono (h : m.Spares hidden m') (hsub : ∀ f ∈ hidden', f ∈ hidden) :
    m.Spares hidden' m' :=
  ⟨h.toLater, fun f hf => h.same f (hsub f hf)⟩

theorem Aside.spares (a : m.Aside own m') (hthere : ∀ f ∈ hidden, f < m.heap.frames.size)
    (hown : ∀ f ∈ hidden, f ∉ own) : m.Spares hidden m' :=
  ⟨a.toLater, fun f hf => a.frame f (hthere f hf) (hown f hf)⟩

/-! ### What is reached -/

/-- In a memory without loose ends what is reached is there. -/
theorem Closed.secludes (h : m.Closed)
    (hvs : ∀ c, .closure c ∈ vs → c < m.heap.closures.size) : m.Secludes vs [] := by
  have hstored : ∀ v c, m.heap.Stores v → v.cell? = some c → m.heap.Present c :=
    fun v c hv => Heap.present_of_cell? fun k hk => h.stored k (hk ▸ hv)
  -- to be there is closed under references
  have hreach : ∀ c, m.Reach vs c → m.heap.Present c := by
    intro c hc
    refine hc.closed (P := m.heap.Present) ?_ ?_
    · rintro root (⟨v, hv, hcell⟩ | ⟨key, v, hv, hcell⟩)
      · exact Heap.present_of_cell? (fun k hk => hvs k (hk ▸ hv)) hcell
      · exact Heap.present_of_cell? (fun k hk => h.bound key k (hk ▸ hv)) hcell
    · intro c c' hc hrefers
      cases c with
      | array a =>
          obtain ⟨v, hv, hcell⟩ := hrefers
          exact hstored v c' (.inl ⟨a, hv⟩) hcell
      | object o =>
          obtain ⟨v, hv, hcell⟩ := hrefers
          exact hstored v c' (.inr (.inl ⟨o, hv⟩)) hcell
      | closure k =>
          obtain rfl := hrefers
          exact h.closure k hc
      | frame f =>
          rcases hrefers with ⟨v, hv, hcell⟩ | ⟨g, hg, rfl⟩
          · exact hstored v c' (.inr (.inr ⟨f, hv⟩)) hcell
          · exact h.outer f g hg
  exact ⟨fun c hc => hreach _ hc, fun f hf => ⟨hreach _ hf, List.not_mem_nil⟩, nofun⟩

/-- What agrees on all that is reached leads to nothing else. -/
theorem Reach.of_agrees (hglobals : m'.globals = m.globals)
    (hagrees : ∀ c, m.Reach vs c → m.heap.Agrees m'.heap c) {c : Cell} (hc : m'.Reach vs c) :
    m.Reach vs c := by
  refine hc.closed (P := m.Reach vs) (fun root hroot => .root ?_) fun c c' hc hrefers => ?_
  · unfold Roots at hroot ⊢
    rwa [hglobals] at hroot
  · exact hc.refers ((hagrees c hc).refers hrefers)

namespace Secludes

/-- What the kernel does itself only changes frames that are hidden or that it has made, and
what it makes can be hidden. -/
theorem aside (s : m.Secludes vs hidden) (a : m.Aside own m')
    (hown : ∀ f ∈ own, f ∈ hidden ∨ m.heap.frames.size ≤ f)
    (hhidden : ∀ f ∈ hidden', f ∈ hidden ∨ m.heap.frames.size ≤ f ∧ f < m'.heap.frames.size) :
    m'.Secludes vs hidden' := by
  -- what is reached is the same as before, so nothing else is reached now
  have hagrees : ∀ c, m.Reach vs c → m.heap.Agrees m'.heap c := by
    intro c hc
    cases c with
    | array i => exact a.array i
    | object o => exact a.object o
    | closure k => exact a.heap.closure k (s.closure k hc)
    | frame f =>
        obtain ⟨hlt, hnot⟩ := s.frame f hc
        refine a.frame f hlt fun hmem => ?_
        exact (hown f hmem).elim hnot fun hle => Nat.lt_irrefl _ (Nat.lt_of_lt_of_le hlt hle)
  refine ⟨fun c hc => ?_, fun f hf => ?_, fun f hf => ?_⟩
  · exact Nat.lt_of_lt_of_le (s.closure c (hc.of_agrees a.bound hagrees)) a.heap.closures
  · obtain ⟨hlt, hnot⟩ := s.frame f (hf.of_agrees a.bound hagrees)
    refine ⟨Nat.lt_of_lt_of_le hlt a.heap.frames, fun hmem => ?_⟩
    exact (hhidden f hmem).elim hnot fun hmade =>
      Nat.lt_irrefl _ (Nat.lt_of_lt_of_le hlt hmade.1)
  · rcases hhidden f hf with hmem | hmade
    · exact Nat.lt_of_lt_of_le (s.there f hmem) a.heap.frames
    · exact hmade.2

theorem mono (s : m.Secludes vs hidden) (hsub : ∀ f ∈ hidden', f ∈ hidden) :
    m.Secludes vs hidden' :=
  ⟨s.closure, fun f hf => ⟨(s.frame f hf).1, fun hmem => (s.frame f hf).2 (hsub f hmem)⟩,
    fun f hf => s.there f (hsub f hf)⟩

/-- A frame that has just been made can be hidden as well. -/
theorem cons (s : m.Secludes vs hidden) (a : m.Aside [] m') {f : FrameId}
    (hnew : m.heap.frames.size ≤ f) (hthere : f < m'.heap.frames.size) :
    m'.Secludes vs (f :: hidden) := by
  refine s.aside a nofun fun g hg => ?_
  rcases List.mem_cons.mp hg with rfl | hg
  · exact .inr ⟨hnew, hthere⟩
  · exact .inl hg

/-- What is only added leaves hidden frames alone. -/
theorem spares (s : m.Secludes vs hidden) (a : m.Aside [] m') : m.Spares hidden m' :=
  a.spares s.there fun _ _ => List.not_mem_nil

/-- A closure that hidden frames are hidden from leaves them alone, keeps them hidden and does
not unwind to them. -/
theorem invoke (s : m.Secludes vs hidden) (settings : Settings) (depth : Nat) {b : ClosureId}
    (hb : m.Reach vs (.closure b)) {args : List Value}
    (hargs : ∀ v ∈ args, ∀ c, v.cell? = some c → m.Reach vs c) {caller : FrameId}
    (hcaller : caller < m.heap.frames.size) :
    m.Spares hidden (left (Eval.run settings depth (.invoke b args caller) m)) ∧
      (left (Eval.run settings depth (.invoke b args caller) m)).Secludes vs hidden ∧
      ∀ v home m', Eval.run settings depth (.invoke b args caller) m
        = .error (.unwind v home) m' → home ∉ hidden := by
  let r : Realm := ⟨m.heap, m.Reach vs⟩
  have w : m.Confined r := .start m vs
  have hlater := Effects.later (Eval.Does.run settings depth (.invoke b args caller) m hcaller)
  have hstays := Eval.stays_invoke w (.inl hb) (fun v hv c hc => .inl (hargs v hv c hc)) settings
    depth caller
  generalize Eval.run settings depth (.invoke b args caller) m = out at *
  have hleft : (left out).Confined r := by
    cases out with
    | ok v m' => exact hstays.1
    | error stop m' => exact hstays.1
  -- what is reached afterwards is of the realm
  have hreach : ∀ c, (left out).Reach vs c → r.Has (left out).heap c := by
    intro c hc
    refine hc.closed (P := fun c => r.Has (left out).heap c) ?_ hleft.closed
    rintro root (hroot | ⟨key, v, hv, hcell⟩)
    · exact .inl (.root (.inl hroot))
    · exact hleft.bound key v hv root hcell
  -- the hidden frames are older than what the closure makes, and none that it was given
  have hhas : ∀ f, r.Has (left out).heap (.frame f) →
      f < (left out).heap.frames.size ∧ f ∉ hidden := by
    rintro f (hgiven | ⟨hnew, hthere⟩)
    · obtain ⟨hlt, hnot⟩ := s.frame f hgiven
      exact ⟨Nat.lt_of_lt_of_le hlt hlater.heap.frames, hnot⟩
    · exact ⟨hthere, fun hmem => hnew (s.there f hmem)⟩
  refine ⟨⟨hlater, fun f hf => ?_⟩,
    ⟨fun c hc => ?_, fun f hf => hhas f (hreach _ hf), fun f hf => ?_⟩, ?_⟩
  · exact hleft.untouched (.frame f) (s.there f hf) fun hgiven => (s.frame f hgiven).2 hf
  · rcases hreach _ hc with hgiven | ⟨-, hthere⟩
    · exact Nat.lt_of_lt_of_le (s.closure c hgiven) hlater.heap.closures
    · exact hthere
  · exact Nat.lt_of_lt_of_le (s.there f hf) hlater.heap.frames
  · rintro v home m' rfl
    exact (hhas home hstays.2.2.2).2

end Secludes

end Memory

end Smalltalk
