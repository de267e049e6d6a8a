import Smalltalk.Proofs.InProgress
import Smalltalk.Proofs.Suits

/-!
# `Smalltalk.Proofs.Return`: where a return goes

A return from a block goes to the home of the block: the activation of the
method that the block is written in. Blocks outlive activations, so the home may
be over by then. Two results say what holds in every session.

`home_active_iff_in_progress`: at every moment, the home of a block or of the
current frame is active if and only if the activation that made it is in
progress. So a return either finds its home over, which is a fault on the spot,
or there is somebody to take the value, and no unwinding leaves a query.

`return_ends_home`: a return to an active home ends exactly the activation whose
frame that is, with exactly the value of the return. Between the two nothing is
evaluated, and nothing changes but that this activation and those inside it are
over.

Both come from `InProgress.unwinds`, an induction along the stack: the call that
unwinds is the last one its caller makes, and the caller ends with the same
unwinding unless it is the activation that the return is to.
-/

set_option autoImplicit false

namespace Smalltalk

variable {R : Regime} {settings : Settings} {m : Memory} {q : Query}

/-! ### Homes -/

namespace Heap

/-- The last frame of a chain is the only one without outer frames. -/
theorem eq_home_of_mem_chain {h : Heap} (hn : ∀ f < h.frames.size, h.Nested f) {f g : FrameId}
    (hf : f < h.frames.size) (hg : g ∈ h.chain f) (houter : (h.frame g).outer = []) :
    g = h.home f := by
  induction f, hf using nested_induction hn with
  | outermost f _ hnil =>
      rw [chain_of_outer_nil hnil] at hg
      obtain rfl := List.mem_singleton.mp hg
      exact (home_of_outer_nil houter).symm
  | inner f _ f' _ hcons _ _ ih =>
      rw [chain_of_outer hcons] at hg
      rcases List.mem_cons.mp hg with rfl | hg
      · exact (home_of_outer_nil houter).symm
      · rw [home_of_outer hcons]
        exact ih hg

/-- Of the frames that a frame reaches, those without outer frames are active exactly
where they are in a list. -/
def Tells (h : Heap) (opened : List FrameId) (f : FrameId) : Prop :=
  ∀ g ∈ h.chain f, (h.frame g).outer = [] → ((h.frame g).active = true ↔ g ∈ opened)

end Heap

/-- The current frame and the frames of all closures tell which activations are in
progress. -/
structure Memory.Tied (m : Memory) (opened : List FrameId) (current : Option FrameId) :
    Prop where
  current : ∀ f ∈ current, m.heap.Tells opened f
  closure : ∀ c < m.heap.closures.size, m.heap.Tells opened (m.heap.closure c).frame

namespace Memory.Good

variable {opened : List FrameId}

theorem tells (g : m.Good R opened) {f : FrameId} (hf : Heap.Settled opened m.heap f) :
    m.heap.Tells opened f := by
  intro g' hg' houter
  obtain rfl := Heap.eq_home_of_mem_chain g.nested hf.1 hg' houter
  constructor
  · intro hactive
    rcases hf.2 with hmem | hover
    · exact hmem
    · rw [hactive] at hover
      cases hover
  · exact fun hmem => (g.active _ hmem).2.1

theorem tied (g : m.Good R opened) {current : Option FrameId}
    (hcurrent : ∀ f ∈ current, Heap.Settled opened m.heap f) : m.Tied opened current where
  current f hf := g.tells (hcurrent f hf)
  closure c hc := g.tells (g.settled c hc)

end Memory.Good

/-- The frame that a call is made from is settled. -/
theorem Call.settled {c : Call} {opened : List FrameId}
    (h : R.Requires opened c.memory c.task) :
    ∀ f ∈ c.frame?, Heap.Settled opened c.memory.heap f := by
  intro f hf
  unfold Call.frame? at hf
  cases htask : c.task with
  | evaluate node frame =>
      rw [htask] at h hf
      obtain rfl := Option.some.inj hf
      exact h.2
  | activate method receiver args callers =>
      rw [htask] at h hf
      exact h.2.2.2 f hf
  | invoke closure args caller =>
      rw [htask] at h hf
      obtain rfl := Option.some.inj hf
      exact h.2.2

/-! ### Ended activations -/

/-- Ends the activations of some frames. -/
def Memory.retireAll (m : Memory) (frames : List FrameId) : Memory := frames.foldl Memory.retire m

/-- Another memory in which some activations are over, and nothing else is different. -/
structure Memory.Ended (m : Memory) (frames : List FrameId) (m' : Memory) : Prop where
  arrays : m'.heap.arrays = m.heap.arrays
  objects : m'.heap.objects = m.heap.objects
  closures : m'.heap.closures = m.heap.closures
  texts : m'.heap.texts = m.heap.texts
  size : m'.heap.frames.size = m.heap.frames.size
  frame : ∀ f < m.heap.frames.size, m'.heap.frame f =
    { m.heap.frame f with active := (m.heap.frame f).active && !frames.contains f }
  registry : m'.registry = m.registry
  globals : m'.globals = m.globals
  journal : m'.journal = m.journal

namespace Memory

theorem Ended.refl (m : Memory) : m.Ended [] m := by
  refine ⟨rfl, rfl, rfl, rfl, rfl, fun f _ => ?_, rfl, rfl, rfl⟩
  rw [List.contains_nil, Bool.not_false, Bool.and_true]

theorem Ended.trans {m m' m'' : Memory} {fs gs : List FrameId} (h : m.Ended fs m')
    (h' : m'.Ended gs m'') : m.Ended (fs ++ gs) m'' where
  arrays := h'.arrays.trans h.arrays
  objects := h'.objects.trans h.objects
  closures := h'.closures.trans h.closures
  texts := h'.texts.trans h.texts
  size := h'.size.trans h.size
  frame f hf := by
    rw [h'.frame f (Nat.lt_of_lt_of_eq hf h.size.symm), h.frame f hf]
    simp only [List.contains_append, Bool.not_or, Bool.and_assoc]
  registry := h'.registry.trans h.registry
  globals := h'.globals.trans h.globals
  journal := h'.journal.trans h.journal

theorem ended_retire (m : Memory) (f : FrameId) : m.Ended [f] (m.retire f) := by
  refine ⟨rfl, rfl, rfl, rfl, Heap.size_retire .., fun g hg => ?_, rfl, rfl, rfl⟩
  refine (Heap.frame_retire m.heap f g).trans ?_
  rw [List.contains_cons, List.contains_nil, Bool.or_false]
  by_cases hgf : g = f
  · subst hgf
    rw [if_pos ⟨rfl, hg⟩, beq_self_eq_true, Bool.not_true, Bool.and_false]
  · rw [if_neg fun h => hgf h.1, beq_eq_false_iff_ne.mpr hgf, Bool.not_false, Bool.and_true]

theorem ended_retireAll (m : Memory) (frames : List FrameId) :
    m.Ended frames (m.retireAll frames) := by
  induction frames generalizing m with
  | nil => exact .refl m
  | cons f rest ih => exact (m.ended_retire f).trans (ih (m.retire f))

end Memory

/-! ### Calls that end with an unwinding -/

/-- A step that makes a call has opened the frame of its task, if it is an activation. -/
theorem Staged.opens_eq {task : Task} {rec : Task → Eval Value} {p : Task × Memory}
    (depth : Nat) (hp : p ∈ ((Staged.step settings task).plan m).path rec) :
    (Staged.step settings task).opens m = (Call.mk task m depth).opens := by
  cases task with
  | evaluate node frame => rfl
  | invoke closure args caller => rfl
  | activate method receiver args callers =>
      obtain ⟨f, m₁, harity, henters, -⟩ := Staged.enter_of_mem_path hp
      rw [(Staged.activate_of_enter settings harity henters).1, (declared_of_enter henters).1]
      rfl

/-- A call that ends with a stop is the last one its caller makes, and the caller ends
with that stop, up to the closing of its frame. -/
theorem Call.of_stop {c c' : Call} {stop : Stop} {m₁ : Memory} (hc : c' ∈ c.calls settings)
    (hout : c'.outcome settings = .error stop m₁) :
    (c.calls settings).getLast? = some c' ∧
      c.outcome settings = Eval.closeAll c.opens (.error stop m₁) := by
  obtain ⟨task, memory, depth⟩ := c
  cases depth with
  | zero => exact absurd hc List.not_mem_nil
  | succ depth =>
      obtain ⟨p, hp, rfl⟩ := List.mem_map.mp hc
      obtain ⟨hlast, hfollow⟩ := Plan.follow_of_stop _ hp hout
      constructor
      · show List.getLast? (List.map _ _) = _
        rw [List.getLast?_map, hlast]
        rfl
      · show Eval.step settings (Eval.run settings depth) task memory = _
        rw [(Staged.step settings task).follows, hfollow, Staged.opens_eq (depth + 1) hp]

/-- The calls on a stack end one after another with an unwinding that began in the call
`c` and left the memory `m`. Each had made the call before it last, and each retires
its own frame. -/
def Unwinds (settings : Settings) (v : Value) (home : FrameId) : Call → Memory → List Call → Prop
  | _, _, [] => True
  | c, m, d :: outer =>
    (d.calls settings).getLast? = some c ∧
      d.outcome settings = .error (.unwind v home) (m.retireAll d.opens) ∧
        Unwinds settings v home d (m.retireAll d.opens) outer

/-- An unwinding has ended the activation that it was for, or workspace code: the stack
`outer` of the call `c`, in which the unwinding began in the memory `m₁`, has an
activation `d` of the home; the calls `inner` before it have unwound; it has made the
last of them last, and it ends with the value, in a memory in which it is over and so
are the activations among `inner`. -/
inductive Consumed (settings : Settings) (m : Memory) (q : Query) (v : Value) (home : FrameId)
    (c : Call) (m₁ : Memory) (outer : List Call) : Prop where
  | activation (inner rest : List Call) (d : Call) (m₂ : Memory)
      (split : outer = inner ++ d :: rest) (opens : d.opens = [home])
      (between : Unwinds settings v home c m₁ inner)
      (last : (d.calls settings).getLast? = some (inner.getLastD c))
      (value : d.outcome settings = .ok v m₂)
      (ended : m₁.Ended (inner.flatMap Call.opens ++ [home]) m₂)
  | workspace {m₂ : Memory} (opens : q.opens m = [home])
      (between : Unwinds settings v home c m₁ outer)
      (value : q.perform settings m = .ok v m₂)
      (ended : m₁.Ended (outer.flatMap Call.opens ++ [home]) m₂)

/-- The frames of a call that unwinds do not include the one it unwinds to. -/
theorem Call.opens_cases (c : Call) (home : FrameId) :
    c.opens = [home] ∨ ∀ v m₁, Eval.closeAll c.opens (.error (.unwind v home) m₁)
      = .error (.unwind v home) (m₁.retireAll c.opens) := by
  unfold Call.opens
  cases c.task with
  | evaluate node frame => exact .inr fun _ _ => rfl
  | invoke closure args caller => exact .inr fun _ _ => rfl
  | activate method receiver args callers =>
      by_cases h : home = c.memory.heap.frames.size
      · exact .inl (congrArg (fun f => [f]) h.symm)
      · exact .inr fun v m₁ => if_neg h

/-- The call of a query closes the frame that the query has opened. -/
theorem Query.closes_of_call? (g : m.Good R []) (hq : R.Asks m q) {c : Call}
    (hc : q.call? settings m = some c) : Query.closes c.task = q.opens m := by
  have hprepare := Query.prepare_keeps g hq
  unfold Eval.Keeps at hprepare
  rw [Query.prepare_of_call? hc] at hprepare
  exact hprepare.2.2.1

/-- A query whose task unwinds to the frame of workspace code ends with the value. -/
theorem Query.perform_of_unwind {c : Call} {v : Value} {home : FrameId} {m₁ : Memory}
    (hc : q.call? settings m = some c) (hcloses : Query.closes c.task = [home])
    (hout : c.outcome settings = .error (.unwind v home) m₁) :
    q.perform settings m = .ok v (m₁.retire home) := by
  rw [Query.perform_of_call? hc]
  obtain ⟨task, m', depth⟩ := c
  change Eval.run settings depth task m' = _ at hout
  cases task with
  | evaluate code frame =>
      obtain rfl := List.singleton_inj.mp hcloses
      unfold Query.conclude Eval.naming
      simp only [Eval.closing_eq_close, hout, Eval.close, if_pos]
  | _ => cases hcloses

/-- A call that unwinds does so to the home of an activation in progress. -/
theorem InProgress.mem_openFrames (suits : R.Suits settings) (g : m.Good R [])
    (hq : R.Asks m q) {c : Call} {outer : List Call} (h : InProgress settings m q (c :: outer))
    {v : Value} {home : FrameId} {m₁ : Memory}
    (hout : c.outcome settings = .error (.unwind v home) m₁) :
    home ∈ openFrames m q outer := by
  obtain ⟨g', hrequires⟩ := h.safe suits g hq c outer rfl
  have hkept := Regime.Honours.run suits c.depth _ c.task c.memory g' hrequires
  unfold Eval.Keeps at hkept
  unfold Call.outcome at hout
  rw [hout] at hkept
  exact hkept.2.2.1

/-- An unwinding goes up the stack to its home. The induction is along the stack. -/
theorem InProgress.unwinds (suits : R.Suits settings) (g : m.Good R []) (hq : R.Asks m q)
    {c : Call} {outer : List Call} (h : InProgress settings m q (c :: outer)) {v : Value}
    {home : FrameId} {m₁ : Memory} (hout : c.outcome settings = .error (.unwind v home) m₁) :
    Consumed settings m q v home c m₁ outer := by
  induction outer generalizing c m₁ with
  | nil =>
      -- the first call of the query: only workspace code has opened a frame below it
      have hmem : home ∈ q.opens m := h.mem_openFrames suits g hq hout
      have hopens : q.opens m = [home] := by
        unfold Query.opens at hmem ⊢
        split at hmem
        · rw [List.mem_singleton.mp hmem]
        · exact absurd hmem List.not_mem_nil
      cases h with
      | first hc =>
          have hcloses := (Query.closes_of_call? g hq hc).trans hopens
          exact .workspace hopens trivial (Query.perform_of_unwind hc hcloses hout)
            (m₁.ended_retire home)
  | cons d outer ih =>
      cases h with
      | inner h hc =>
          obtain ⟨hlast, hd⟩ := Call.of_stop hc hout
          rcases d.opens_cases home with hhome | hpass
          · -- the activation takes the value
            have hvalue : d.outcome settings = .ok v (m₁.retire home) := by
              rw [hd, hhome]
              exact if_pos rfl
            exact .activation [] outer d _ rfl hhome trivial hlast hvalue (m₁.ended_retire home)
          · rw [hpass] at hd
            have hended := m₁.ended_retireAll d.opens
            cases ih h hd with
            | activation inner rest d' m₂ split opens between last value ended =>
                refine .activation (d :: inner) rest d' m₂ (congrArg (d :: ·) split) opens
                  ⟨hlast, hd, between⟩ ?_ value ?_
                · rw [List.getLastD_cons]
                  exact last
                · rw [List.flatMap_cons, List.append_assoc]
                  exact hended.trans ended
            | workspace opens between value ended =>
                refine .workspace opens ⟨hlast, hd, between⟩ value ?_
                rw [List.flatMap_cons, List.append_assoc]
                exact hended.trans ended

/-! ### Returns -/

/-- The call evaluates a `^` in a frame, and the expression of it has answered. -/
def Call.Returns (settings : Settings) (c : Call) (f : FrameId) (v : Value) (m₁ : Memory) :
    Prop :=
  ∃ e depth, c.task = .evaluate (.answer e) f ∧ c.depth = depth + 1 ∧
    Eval.run settings depth (.evaluate e f) c.memory = .ok v m₁

theorem Call.Returns.outcome {c : Call} {f : FrameId} {v : Value} {m₁ : Memory}
    (h : c.Returns settings f v m₁) : c.outcome settings = Eval.returnFrom f v m₁ := by
  obtain ⟨e, depth, htask, hdepth, hrun⟩ := h
  unfold Call.outcome
  rw [htask, hdepth]
  exact bind_of_ok hrun

/-- The expression is all that a `^` evaluates. -/
theorem Call.Returns.calls {c : Call} {f : FrameId} {v : Value} {m₁ : Memory}
    (h : c.Returns settings f v m₁) : ∃ c', c.calls settings = [c'] ∧
      c'.outcome settings = .ok v m₁ := by
  obtain ⟨task, memory, depth'⟩ := c
  obtain ⟨e, depth, htask, hdepth, hrun⟩ := h
  obtain rfl : task = _ := htask
  obtain rfl : depth' = _ := hdepth
  refine ⟨⟨.evaluate e f, memory, depth⟩, ?_, hrun⟩
  change Eval.run settings depth (.evaluate e f) memory = _ at hrun
  show List.map _ (Plan.path _ (.ask _ _ _)) = _
  unfold Plan.path
  rw [hrun]
  rfl

/-- Whatever comes up while a query is evaluated keeps the invariant to its end. -/
theorem InProgress.outcome_good (suits : R.Suits settings) (g : m.Good R []) (hq : R.Asks m q)
    {c : Call} {outer : List Call} (h : InProgress settings m q (c :: outer)) :
    c.memory.Later (left (c.outcome settings)) ∧
      (left (c.outcome settings)).Good R (openFrames m q outer) := by
  obtain ⟨g', hrequires⟩ := h.safe suits g hq c outer rfl
  have hkept := Regime.Honours.run suits c.depth _ c.task c.memory g' hrequires
  unfold Eval.Keeps at hkept
  unfold Call.outcome
  cases hout : Eval.run settings c.depth c.task c.memory with
  | ok v m₁ =>
      rw [hout] at hkept
      exact ⟨hkept.1, hkept.2.1⟩
  | error stop m₁ =>
      rw [hout] at hkept
      exact ⟨hkept.1, hkept.2.1⟩

/-- Where no journal is kept, a return looks at nothing but its home. -/
theorem Eval.returnFrom_of_quiet (hquiet : m.journal.recording = false) (f : FrameId)
    (v : Value) : Eval.returnFrom f v m =
      if (m.heap.frame (m.heap.home f)).active then .error (.unwind v (m.heap.home f)) m
      else .error (.fault (.deadReturn v (m.inspect v))) m := by
  show (if (m.heap.frame (m.heap.home f)).active = true then
      Eval.note _ >>= fun _ => throw (.unwind v (m.heap.home f)) else _ : Eval Value) m = _
  split
  · exact bind_of_ok (note_of_quiet hquiet)
  · rfl

/-- A `^` is a fault where the home is over, and else it unwinds to the home. -/
theorem InProgress.returns (suits : R.Suits settings) (g : m.Good R []) (hq : R.Asks m q)
    {c : Call} {outer : List Call} (h : InProgress settings m q (c :: outer)) {f : FrameId}
    {v : Value} {m₁ : Memory} (hreturns : c.Returns settings f v m₁) :
    c.outcome settings =
      if (m₁.heap.frame (m₁.heap.home f)).active then .error (.unwind v (m₁.heap.home f)) m₁
      else .error (.fault (.deadReturn v (m₁.inspect v))) m₁ := by
  -- the call that the `^` makes is in progress itself, so no journal is kept in its memory
  obtain ⟨c', hcalls, hout⟩ := hreturns.calls
  have h' : InProgress settings m q (c' :: c :: outer) := .inner h (by
    rw [hcalls]
    exact List.mem_singleton_self c')
  have g' := (h'.outcome_good suits g hq).2
  rw [hout] at g'
  rw [hreturns.outcome]
  exact Eval.returnFrom_of_quiet g'.quiet f v

/-! ### Results -/

/-- At every moment of every session, the home of a closure or of the current frame is
active if and only if the activation that made it is in progress: before and after a
query none is, and where a call begins or ends it is those on the stack. So no query
ends with an unwinding: a `^` whose home is over is a fault, and any other is taken by
the activation, or the workspace code, whose frame is the home. -/
theorem home_active_iff_in_progress {settings : Settings} {m : Memory} {q : Query}
    (session : Session .any m) (hq : Regime.any.Asks m q) :
    (m.Tied [] none ∧ (left (q.perform settings m)).Tied [] none) ∧
    (∀ v home m', q.perform settings m ≠ .error (.unwind v home) m') ∧
    ∀ c outer, InProgress settings m q (c :: outer) →
      (c.memory.Tied (openFrames m q outer) c.frame? ∧
        (left (c.outcome settings)).Tied (openFrames m q outer) c.frame?) ∧
      ∀ f v m₁, c.Returns settings f v m₁ →
        ((m₁.heap.frame (m₁.heap.home f)).active = false ∧
          c.outcome settings = .error (.fault (.deadReturn v (m₁.inspect v))) m₁) ∨
        ((m₁.heap.frame (m₁.heap.home f)).active = true ∧
          c.outcome settings = .error (.unwind v (m₁.heap.home f)) m₁ ∧
          ((∃ d ∈ outer, d.opens = [m₁.heap.home f] ∧ ∃ m₂, d.outcome settings = .ok v m₂) ∨
            (q.opens m = [m₁.heap.home f] ∧ ∃ m₂, q.perform settings m = .ok v m₂))) := by
  have suits := Regime.any_suits settings
  have g : m.Good .any [] := session.good fun _ _ => rfl
  refine ⟨⟨g.tied (fun _ h => nomatch h), ?_⟩, fun v home m' hout => ?_, fun c outer h => ⟨?_, ?_⟩⟩
  · have g' : (Command.run m (.evaluate settings q)).Good .any [] :=
      Command.run_good g ⟨suits, hq⟩
    exact g'.tied fun _ h => nomatch h
  · have hends := Query.ends suits g hq
    rw [hout] at hends
    exact hends
  · obtain ⟨g₁, hrequires⟩ := h.safe suits g hq c outer rfl
    obtain ⟨l, g₂⟩ := h.outcome_good suits g hq
    have hcurrent := Call.settled hrequires
    exact ⟨g₁.tied hcurrent, g₂.tied fun f hf => (hcurrent f hf).later l.heap g₁.nested⟩
  · intro f v m₁ hreturns
    have hout := h.returns suits g hq hreturns
    cases hactive : (m₁.heap.frame (m₁.heap.home f)).active with
    | false =>
        rw [hactive, if_neg Bool.false_ne_true] at hout
        exact .inl ⟨rfl, hout⟩
    | true =>
        rw [hactive, if_pos rfl] at hout
        refine .inr ⟨rfl, hout, ?_⟩
        cases h.unwinds suits g hq hout with
        | activation inner rest d m₂ split opens between last value ended =>
            refine .inl ⟨d, ?_, opens, m₂, value⟩
            rw [split]
            exact List.mem_append_right _ List.mem_cons_self
        | workspace opens between value ended => exact .inr ⟨opens, _, value⟩

/-- Workspace code that leaves a block with a return behind in a global. -/
def escaping : Query :=
  .doit (.assign (.str "Escaped") .global .null (.block [] [] [.answer (.literal (.int 1))])) .nil

/-- Workspace code that runs the block. -/
def callingEscaped : Query :=
  .doit (.send (.reference (.str "Escaped") .global .null) (.str "value") []) .nil

/-- After its workspace code is over, so is the home of the block, and running it is a
fault. -/
theorem home_over_of_escaping : ∃ m, Session .any m ∧ m.Tied [] none ∧
    m.heap.closures.size = 1 ∧
    (match callingEscaped.perform {} m with
      | .error (.fault (.deadReturn (.int 1) _)) _ => true
      | _ => false) = true := by
  have session : Session .any (Command.run Kernel.memory (.evaluate {} escaping)) :=
    .next .start ⟨Regime.any_suits {}, Regime.any_node _, Regime.holds_nil⟩
  have hq : Regime.any.Asks (Command.run Kernel.memory (.evaluate {} escaping)) callingEscaped :=
    ⟨Regime.any_node _, Regime.holds_nil⟩
  exact ⟨_, session, (@home_active_iff_in_progress {} _ _ session hq).1.1,
    by decide +kernel, by decide +kernel⟩

/-- A return to an active home ends the activation whose frame the home is, with the
value of the return, however many calls are in between. The `^` itself evaluates only
its expression, every call in between has made the one before it last, and at the end
the home and the activations in between are over and all else is as it was. -/
theorem return_ends_home {settings : Settings} {m : Memory} {q : Query}
    (session : Session .any m) (hq : Regime.any.Asks m q) {c : Call} {outer : List Call}
    (h : InProgress settings m q (c :: outer)) {f : FrameId} {v : Value} {m₁ : Memory}
    (hreturns : c.Returns settings f v m₁)
    (hactive : (m₁.heap.frame (m₁.heap.home f)).active = true) :
    (∃ c', c.calls settings = [c'] ∧ c'.outcome settings = .ok v m₁) ∧
      c.outcome settings = .error (.unwind v (m₁.heap.home f)) m₁ ∧
      Consumed settings m q v (m₁.heap.home f) c m₁ outer := by
  have suits := Regime.any_suits settings
  have g : m.Good .any [] := session.good fun _ _ => rfl
  have hout := h.returns suits g hq hreturns
  rw [hactive, if_pos rfl] at hout
  exact ⟨hreturns.calls, hout, h.unwinds suits g hq hout⟩

/-- The stack that is reached by following the last call of each call. -/
def Call.deepen (settings : Settings) : Nat → Call → List Call → List Call
  | 0, c, outer => c :: outer
  | n + 1, c, outer =>
    match (c.calls settings).getLast? with
    | some c' => deepen settings n c' (c :: outer)
    | none => c :: outer

theorem InProgress.deepen {c : Call} {outer : List Call} (n : Nat)
    (h : InProgress settings m q (c :: outer)) :
    InProgress settings m q (c.deepen settings n outer) := by
  induction n generalizing c outer with
  | zero => exact h
  | succ n ih =>
      unfold Call.deepen
      split
      · rename_i c' hlast
        exact ih (.inner h (List.mem_of_getLast? hlast))
      · exact h

/-- Whether a call evaluates a `^` to an active home. -/
def Call.isReturning (settings : Settings) (c : Call) : Bool :=
  match c.task, c.depth with
  | .evaluate (.answer e) f, depth + 1 =>
    match Eval.run settings depth (.evaluate e f) c.memory with
    | .ok _ m₁ => (m₁.heap.frame (m₁.heap.home f)).active
    | .error _ _ => false
  | _, _ => false

theorem Call.returns_of_isReturning {c : Call} (h : c.isReturning settings = true) :
    ∃ f v m₁, c.Returns settings f v m₁ ∧ (m₁.heap.frame (m₁.heap.home f)).active = true := by
  unfold Call.isReturning at h
  split at h
  · rename_i e f depth htask hdepth
    split at h
    · rename_i v m₁ hrun
      exact ⟨f, v, m₁, ⟨e, depth, htask, hdepth, hrun⟩, h⟩
    · cases h
  · cases h

/-- A method with a return in a block, and a statement behind it. -/
def returningFromBlock : Method where
  selector := .str "three"
  params := []
  temps := []
  statements := [.send (.block [] [] [.answer (.literal (.int 3))]) (.str "value") [],
    .literal (.int 4)]
  primitive := .null
  owner := ⟨0, false⟩

/-- The return in the block ends the method, through the block and the activation of
`value` that runs it. -/
theorem return_ends_home_of_block : ∃ c outer f v m₁,
    InProgress {} Kernel.memory (.execute returningFromBlock .nil []) (c :: outer) ∧
      outer.length = 4 ∧ Consumed {} Kernel.memory (.execute returningFromBlock .nil []) v
        (m₁.heap.home f) c m₁ outer := by
  have hq : Regime.any.Asks Kernel.memory (.execute returningFromBlock .nil []) :=
    ⟨Regime.any_node _, Regime.holds_nil, fun _ h => absurd h List.not_mem_nil⟩
  let first : Call := ⟨.activate returningFromBlock .nil [] [], Kernel.memory, 5000⟩
  have hstack : InProgress {} Kernel.memory (.execute returningFromBlock .nil [])
      (first.deepen {} 4 []) := .deepen 4 (.first rfl)
  have hcheck : (match first.deepen {} 4 [] with
      | c :: outer => c.isReturning {} && outer.length == 4
      | [] => false) = true := by decide +kernel
  cases hcases : first.deepen {} 4 [] with
  | nil =>
      rw [hcases] at hcheck
      cases hcheck
  | cons c outer =>
      rw [hcases] at hcheck hstack
      obtain ⟨hreturning, hlength⟩ := Bool.and_eq_true_iff.mp hcheck
      obtain ⟨f, v, m₁, hreturns, hactive⟩ := Call.returns_of_isReturning hreturning
      exact ⟨c, outer, f, v, m₁, hstack, eq_of_beq hlength,
        (return_ends_home .start hq hstack hreturns hactive).2.2⟩

end Smalltalk
