import Smalltalk.Proofs.Numbers
import Smalltalk.Proofs.Seclusion

/-!
# `Smalltalk.Proofs.Counting`: how `to:do:` counts

The kernel counts with interpreted code: a variable in the frame of `to:do:`, a closure that
compares it, a closure that calls the block that was given and adds one to it, and the loop
over the two. `Kernel.Counting` is what holds of the memory before each round. What the block
does is left open. It goes as `Turns` says: there is one call to look at in every round, the
round stops where the call does, and the frames of the kernel are as before.

A round preserves `Counting` for the next number (`Counting.round`), and the induction on the
rounds that the loop may take is `Counting.alternate`. `Kernel.counts` is the result for an
activation of `to:do:`. The calls make a tour (`Tours`): one for each number, in order, until
one stops.

The number after the last one is compared as well. It has to be a SmallInteger, so the last
one must not be the greatest (`Kernel.toDo_passes_greatest` is what happens then).
-/

set_option autoImplicit false

namespace Smalltalk

variable {settings : Settings} {b : ClosureId} {depth : Nat} {m m' : Memory}

/-! ### Tours -/

/-- The stop that an outcome ends with, if any. -/
def Eval.stop? : Outcome Value → Option Stop
  | .ok _ _ => none
  | .error stop _ => some stop

/-- Calls for the numbers from `i` to `n`, each as `A` says, until one ends with a stop. -/
inductive Tours (settings : Settings) (A : Int → Call → Prop) (n : Int) :
    Int → List Call → Option Stop → Prop where
  | done {i : Int} (h : n < i) : Tours settings A n i [] none
  | next {i : Int} {c : Call} {calls : List Call} {stop : Option Stop} (h : i ≤ n) (hc : A i c)
      (hout : Eval.stop? (c.outcome settings) = none)
      (rest : Tours settings A n (i + 1) calls stop) : Tours settings A n i (c :: calls) stop
  | stopped {i : Int} {c : Call} {stop : Stop} (h : i ≤ n) (hc : A i c)
      (hout : Eval.stop? (c.outcome settings) = some stop) :
      Tours settings A n i [c] (some stop)

namespace Tours

variable {A : Int → Call → Prop} {n i : Int} {calls : List Call} {stop : Option Stop}

theorem get (t : Tours settings A n i calls stop) (j : Nat) (hj : j < calls.length) :
    A (i + j) calls[j] := by
  induction t generalizing j with
  | done => cases hj
  | @next i c calls stop _ hc _ _ ih =>
      cases j with
      | zero => rwa [Int.natCast_zero, Int.add_zero]
      | succ j =>
          have h := ih j (Nat.lt_of_succ_lt_succ hj)
          rwa [Int.add_assoc, Int.add_comm 1] at h
  | stopped _ hc _ =>
      obtain rfl : j = 0 := by simpa using hj
      rwa [Int.natCast_zero, Int.add_zero]

/-- There are no more calls than numbers. -/
theorem length_le (t : Tours settings A n i calls stop) : calls.length ≤ (n + 1 - i).toNat := by
  induction t with
  | done => exact Nat.zero_le _
  | next h _ _ _ ih =>
      rw [List.length_cons]
      omega
  | stopped h _ _ =>
      rw [List.length_singleton]
      omega

/-- If no call stops, there is one for every number. -/
theorem complete (t : Tours settings A n i calls stop)
    (h : ∀ c ∈ calls, Eval.stop? (c.outcome settings) = none) :
    calls.length = (n + 1 - i).toNat ∧ stop = none := by
  induction t with
  | done hlt =>
      refine ⟨?_, rfl⟩
      rw [List.length_nil]
      omega
  | next hle _ _ _ ih =>
      obtain ⟨hlength, hstop⟩ := ih fun c hc => h c (List.mem_cons_of_mem _ hc)
      refine ⟨?_, hstop⟩
      rw [List.length_cons, hlength]
      omega
  | stopped _ _ hout =>
      rw [h _ (List.mem_singleton_self _)] at hout
      cases hout

/-- A call that stops is the last one, and the tour stops as it does. -/
theorem last (t : Tours settings A n i calls stop) (j : Nat) (hj : j < calls.length) {s : Stop}
    (hs : Eval.stop? (calls[j].outcome settings) = some s) :
    j + 1 = calls.length ∧ stop = some s := by
  induction t generalizing j with
  | done => cases hj
  | next _ _ hout _ ih =>
      cases j with
      | zero => cases hout.symm.trans hs
      | succ j =>
          obtain ⟨hlast, hstop⟩ := ih j (Nat.lt_of_succ_lt_succ hj) hs
          exact ⟨congrArg Nat.succ hlast, hstop⟩
  | stopped _ _ hout =>
      obtain rfl : j = 0 := by simpa using hj
      exact ⟨rfl, hout.symm.trans hs⟩

end Tours

/-! ### Frames around frames -/

/-- A frame that an unwinding does not go to passes it on. -/
theorem Eval.close_error {f : FrameId} {stop : Stop} (h : ∀ v, stop ≠ .unwind v f) (m : Memory) :
    close f (.error stop m) = .error stop (m.retire f) := by
  cases stop with
  | unwind v home =>
      refine if_neg ?_
      rintro rfl
      exact h v rfl
  | _ => rfl

theorem Eval.stop?_close {f : FrameId} {out : Outcome Value}
    (h : ∀ v m, out ≠ .error (.unwind v f) m) : stop? (close f out) = stop? out := by
  cases out with
  | ok v m => rfl
  | error stop m =>
      rw [close_error fun v heq => h v m (heq ▸ rfl)]
      rfl

theorem Eval.stop?_eq_some {out : Outcome Value} {stop : Stop} :
    stop? out = some stop ↔ ∃ m, out = .error stop m := by
  cases out <;> simp [stop?]

/-- A method without a primitive answers its receiver where its statements end, and stops where
they stop, unless this unwinds to its own frame. -/
theorem Call.Goes.activate_plain {method : Method} {receiver : Value} {args : List Value}
    {callers : List FrameId} {f : FrameId} {out : Outcome Value} {seen : List Call}
    (harity : args.length = method.arity)
    (henters : Eval.enter method receiver args callers m = .ok f m')
    (hplain : method.primitive = .null)
    (hstatements : (Planned.runBody f method.temps method.statements).Goes
      (Eval.run settings depth) (Call.seen settings b depth) m' out seen)
    (hhome : ∀ v m'', out ≠ .error (.unwind v f) m'') :
    ∃ out', Eval.stop? out' = Eval.stop? out ∧
      (Call.mk (.activate method receiver args callers) m (depth + 1)).Goes settings b out' seen ∧
      ∀ v m'', out' = .ok v m'' → v = receiver := by
  cases out with
  | ok v m₁ =>
      refine ⟨.ok receiver (m₁.retire f), rfl,
        .activate harity henters (.runMethod_plain hplain (.runMethodBody hstatements)), ?_⟩
      intro v' m'' heq
      cases heq
      rfl
  | error stop m₁ =>
      -- any other stop goes through the end of the frame as it is
      refine ⟨Eval.close f (.error stop m₁), Eval.stop?_close hhome,
        .activate harity henters (.runMethod_plain hplain (.runMethodBody_stop hstatements)), ?_⟩
      intro v m'' heq
      rw [Eval.close_error fun w h => hhome w m₁ (h ▸ rfl)] at heq
      cases heq

/-- A variable of the frame around a frame that does not declare it. -/
theorem Heap.owner?_outer {h : Heap} {f g : FrameId} {key : Key} (houter : (h.frame f).outer = [g])
    (hown : (h.frame f).slots.contains key = false)
    (hthere : (h.frame g).slots.contains key = true) : h.owner? f key = some g := by
  unfold owner? chain
  rw [houter, List.find?_cons, hown]
  exact List.find?_cons_of_pos hthere

/-- Reading it. -/
theorem Memory.Yields.readOuter {f g : FrameId} {name : String} {kind : VariableKind}
    (hkind : kind = .temp ∨ kind = .arg) (hf : f < m.heap.frames.size)
    (hg : g < m.heap.frames.size) (houter : (m.heap.frame f).outer = [g])
    (hown : (m.heap.frame f).slots.contains (.text name) = false) {v : Value}
    (hv : (m.heap.frame g).slots.find? (.text name) = some v) :
    m.Yields settings (depth + 1) (.evaluate (.reference (.str name) kind .null) f) (.ok v) := by
  refine .read hkind (fun k hk => ?_) ?_
  · unfold Heap.chain at hk
    rw [houter] at hk
    rcases List.mem_cons.mp hk with rfl | hk
    · exact hf
    · obtain rfl := List.mem_singleton.mp hk
      exact hg
  · have hcontains : (m.heap.frame g).slots.contains (.text name) = true :=
      Option.isSome_iff_exists.mpr ⟨v, hv⟩
    exact Heap.lookup?_eq_some_iff.mpr ⟨g, Heap.owner?_outer houter hown hcontains, hv⟩

/-! ### Calling a closure -/

/-- A task has some value, whatever has been added to the memory, and only adds something
itself. -/
def Memory.Supplies (settings : Settings) (m : Memory) (depth : Nat) (task : Task)
    (P : Memory → Value → Prop) : Prop :=
  ∀ m', m.Aside [] m' → ∃ v m'', m'.Aside [] m'' ∧ P m'' v ∧
    ∀ b, (Call.mk task m' depth).Goes settings b (.ok v m'') []

theorem Memory.Yields.supplies {task : Task} {v : Value}
    (h : m.Yields settings depth task (.ok v)) :
    m.Supplies settings depth task fun _ w => w = v := by
  intro m' a
  obtain ⟨m'', a', hgoes⟩ := h m' a
  exact ⟨v, m'', a', rfl, hgoes⟩

/-- A send whose method has a primitive: what the primitive decides on is done in a frame of
its own. -/
theorem Call.Goes.sendPrimitive {m₂ : Memory} (he : m₂.Equipped settings) {v : Value}
    {cls : Behavior} (hclass : m₂.classOf? v = some cls) {selector : String} {number : Int}
    {names : List String} (hunderstands : m₂.registry.Understands cls selector
      (Kernel.byPrimitive selector number names)) (hnodup : names.Nodup) {vs : List Value}
    (hlength : vs.length = names.length) {p : Primitive} (hp : (number, p) ∈ Primitive.numbered)
    {node : Node} (hsuper : node.isSuper = false) (args : List Node) (f : FrameId)
    (m m₁ : Memory) (depth : Nat) :
    ∃ g m₃, m₂.Aside [] m₃ ∧ m₂.heap.frames.size ≤ g ∧ g < m₃.heap.frames.size ∧
      ∀ b s₁ s₂ s₃ out action, p.attempt m₃ v vs = .ok action →
        (Call.mk (.evaluate node f) m (depth + 1)).Goes settings b (.ok v m₁) s₁ →
        Arguments settings b (depth + 1) f args m₁ vs m₂ s₂ →
        (Planned.perform settings g action).Goes (Eval.run settings depth)
          (Call.seen settings b depth) m₃ out s₃ →
        (Call.mk (.evaluate (.call node selector args) f) m (depth + 2)).Goes settings b
          (Eval.close g out) (s₁ ++ (s₂ ++ s₃)) := by
  obtain ⟨owner, next, hmethod⟩ := hunderstands.method
  obtain ⟨m₃, hnoted, hsend⟩ :=
    Call.Goes.send settings (depth + 1) f m m₁ args vs hsuper hclass hmethod rfl
  have htakes : Method.Takes ⟨.str selector, names.map .str, [], (Node.listWithSites next
      [.answer (.call .self "primitiveFailed" [])]).1, .int number, owner⟩ names vs :=
    ⟨rfl, hnodup, hlength⟩
  obtain ⟨g, m₄, o, hends⟩ := Call.Goes.activatePrimitive htakes rfl
    (he.primitive (number, p) hp) v (f :: (m₃.heap.frame f).callers) m₃ depth
  -- the send is noted in the journal before the frame of the primitive is made
  have a₃ : m₂.Aside [] m₃ := .of_noted hnoted
  refine ⟨g, m₄, a₃.append o.aside, Nat.le_trans a₃.heap.frames o.fresh, o.there,
    fun b s₁ s₂ s₃ out action hattempt hreceiver hvalues hperform => ?_⟩
  exact hsend b s₁ s₂ s₃ _ hreceiver hvalues (hends b out s₃ action hattempt hperform)

/-- Sending `value:` to a closure invokes it, from a frame of its own. -/
theorem Call.Goes.sendValue (he : m.Equipped settings) {node arg : Node} {f : FrameId}
    {c : ClosureId} {P : Memory → Value → Prop} (hsuper : node.isSuper = false)
    (hnode : m.Yields settings (depth + 1) (.evaluate node f) (.ok (.closure c)))
    (harg : m.Supplies settings (depth + 1) (.evaluate arg f) P)
    (hP : ∀ {m m' v}, m.Aside [] m' → P m v → P m' v) :
    ∃ v g m', m.Aside [] m' ∧ m.heap.frames.size ≤ g ∧ g < m'.heap.frames.size ∧ P m' v ∧
      ∀ b out seen, (Planned.call (.invoke c [v] g)).Goes (Eval.run settings depth)
        (Call.seen settings b depth) m' out seen →
      (Call.mk (.evaluate (.call node "value:" [arg]) f) m (depth + 2)).Goes settings b
        (Eval.close g out) seen := by
  obtain ⟨m₁, a₁, hreceiver⟩ := hnode.here
  obtain ⟨v, m₂, a₂, hv, hvalue⟩ := harg m₁ a₁
  -- the argument is evaluated in the memory that the receiver has left
  have a₀₂ := a₁.append a₂
  have he₂ := he.of_registry a₀₂.registry
  have hnode : Kernel.tree? "BlockClosure" "value:"
    = some (Kernel.byPrimitive "value:" 202 ["arg1"]) := rfl
  have hp : (202, Primitive.call 1) ∈ Primitive.numbered := by decide
  obtain ⟨cls, hclass, hunderstands⟩ := he₂.understands (v := .closure c) rfl hnode
  have hlength : [v].length = ["arg1"].length := rfl
  obtain ⟨g, m₃, a₃, hnew, hthere, hsend⟩ := sendPrimitive he₂ hclass hunderstands
    (List.nodup_singleton _) hlength hp hsuper [arg] f m m₁ depth
  refine ⟨v, g, m₃, a₀₂.append a₃, Nat.le_trans a₀₂.heap.frames hnew, hthere, hP a₃ hv,
    fun b out seen hinvoke => ?_⟩
  exact hsend b [] [] seen out (.call c [v]) rfl (hreceiver b)
    ((hvalue b).arguments_cons arguments_nil) hinvoke

/-! ### Loops -/

namespace Planned.Goes

variable {rec : Task → Eval Value} {see : Task → Memory → List Call} {condition body : Task}
  {m₁ m₂ : Memory} {seen : List Call} {out : Outcome Value} {rounds : Nat}

theorem alternate_end
    (hcondition : (Planned.call condition).Goes rec see m (.ok (.bool false) m₁) []) :
    (Planned.alternate condition body true (rounds + 1)).Goes rec see m (.ok .nil m₁) [] :=
  hcondition.bind_nil (ite_neg Bool.false_ne_true (const (pure Value.nil)))

section
variable (hcondition : (Planned.call condition).Goes rec see m (.ok (.bool true) m₁) [])

include hcondition

theorem alternate_next {v : Value} {seen' : List Call}
    (hbody : (Planned.call body).Goes rec see m₁ (.ok v m₂) seen)
    (hrest : (Planned.alternate condition body true rounds).Goes rec see m₂ out seen') :
    (Planned.alternate condition body true (rounds + 1)).Goes rec see m out (seen ++ seen') :=
  hcondition.bind_nil (ite_pos rfl (hbody.bind hrest))

theorem alternate_stop {stop : Stop}
    (hbody : (Planned.call body).Goes rec see m₁ (.error stop m₂) seen) :
    (Planned.alternate condition body true (rounds + 1)).Goes rec see m (.error stop m₂) seen :=
  hcondition.bind_nil (ite_pos rfl hbody.bind_stop)

end

end Planned.Goes

/-- A closure that has been made in a memory, and nothing but additions. -/
structure Memory.MakesClosure (m : Memory) (x : Closure) (c : ClosureId) (m' : Memory) : Prop where
  aside : m.Aside [] m'
  fresh : m.heap.closures.size ≤ c
  there : c < m'.heap.closures.size
  closure : m'.heap.closure c = x

theorem Memory.MakesClosure.append {x : Closure} {c : ClosureId} {m'' : Memory}
    (h : m.MakesClosure x c m') (a : m'.Aside [] m'') : m.MakesClosure x c m'' where
  aside := h.aside.append a
  fresh := h.fresh
  there := Nat.lt_of_lt_of_le h.there a.heap.closures
  closure := (a.heap.closure c h.there).trans h.closure

theorem Memory.MakesClosure.prepend {x : Closure} {c : ClosureId} {m'' : Memory}
    (a : m.Aside [] m') (h : m'.MakesClosure x c m'') : m.MakesClosure x c m'' where
  aside := a.append h.aside
  fresh := Nat.le_trans a.heap.closures h.fresh
  there := h.there
  closure := h.closure

/-- A block makes a closure. -/
theorem Call.Goes.makes (m : Memory) (params : List String) (statements : List Node)
    (f : FrameId) : ∃ c m', m.MakesClosure ⟨params.map .str, [], statements, f⟩ c m' ∧
      ∀ settings b depth, (Call.mk (.evaluate (Node.blockOf params statements) f) m
        (depth + 1)).Goes settings b (.ok (.closure c) m') [] := by
  refine ⟨_, _, ⟨.newClosure m _, Nat.le_refl _, ?_, ?_⟩, fun settings b depth => .block ..⟩
  · rw [Heap.size_newClosure]
    exact Nat.lt_succ_self _
  · rw [Heap.closure_newClosure, if_pos rfl]

/-- A loop that is written in code makes its two closures and a frame, and then alternates. -/
theorem Call.Goes.sendWhileTrue (he : m.Equipped settings) (conditions statements : List Node)
    (f : FrameId) (depth : Nat) :
    ∃ condition body g m', m.MakesClosure ⟨[], [], conditions, f⟩ condition m' ∧
      m.MakesClosure ⟨[], [], statements, f⟩ body m' ∧ m.heap.frames.size ≤ g ∧
      g < m'.heap.frames.size ∧ ∀ b out seen,
        (Planned.alternate (.invoke condition [] g) (.invoke body [] g) true settings.rounds).Goes
          (Eval.run settings depth) (Call.seen settings b depth) m' out seen →
        (Call.mk (.evaluate (.call (Node.blockOf [] conditions) "whileTrue:"
          [Node.blockOf [] statements]) f) m (depth + 2)).Goes settings b
            (Eval.close g out) seen := by
  obtain ⟨condition, m₁, hcondition, hreceiver⟩ := makes m [] conditions f
  obtain ⟨body, m₂, hbody, harg⟩ := makes m₁ [] statements f
  have a₀₂ := hcondition.aside.append hbody.aside
  have he₂ := he.of_registry a₀₂.registry
  have hnode : Kernel.tree? "BlockClosure" "whileTrue:"
    = some (Kernel.byPrimitive "whileTrue:" 510 ["aBlock"]) := rfl
  have hp : (510, Primitive.whileTrue) ∈ Primitive.numbered := by decide
  obtain ⟨cls, hclass, hunderstands⟩ := he₂.understands (v := .closure condition) rfl hnode
  have hlength : [Value.closure body].length = ["aBlock"].length := rfl
  have hsuper : (Node.blockOf [] conditions).isSuper = false := rfl
  obtain ⟨g, m₃, a₃, hnew, hthere, hsend⟩ := sendPrimitive he₂ hclass hunderstands
    (List.nodup_singleton _) hlength hp hsuper [Node.blockOf [] statements] f m m₁ depth
  refine ⟨condition, body, g, m₃, hcondition.append (hbody.aside.append a₃),
    .prepend hcondition.aside (hbody.append a₃), Nat.le_trans a₀₂.heap.frames hnew, hthere,
    fun b out seen hloop => ?_⟩
  exact hsend b [] [] seen out (.loop condition body true) rfl (hreceiver ..)
    ((harg ..).arguments_cons arguments_nil) hloop

/-! ### Turns -/

/-- A task is done with one call to look at, and stops where this does. If it does not stop,
some frames are as they were and stay hidden; it does not unwind to one of them. -/
structure Call.Turn (settings : Settings) (b : ClosureId) (depth : Nat) (vs : List Value)
    (hidden : List FrameId) (m : Memory) (task : Task) (c : Call) (out : Outcome Value) :
    Prop where
  goes : (Planned.call task).Goes (Eval.run settings depth) (Call.seen settings b depth) m out [c]
  stops : Eval.stop? out = Eval.stop? (c.outcome settings)
  spares : ∀ v m', out = .ok v m' → m.Spares hidden m' ∧ m'.Secludes vs hidden
  home : ∀ v home m', out = .error (.unwind v home) m' → home ∉ hidden

/-- A closure that hidden frames are hidden from may be called in a round. -/
theorem Memory.Secludes.turn {vs : List Value} {hidden : List FrameId}
    (s : m.Secludes vs hidden) (settings : Settings) (hb : .closure b ∈ vs) {args : List Value}
    (hargs : ∀ v ∈ args, ∀ c, v.cell? = some c → m.Reach vs c) {g : FrameId} (hg : g ∈ hidden)
    (depth : Nat) : Call.Turn settings b depth vs hidden m (.invoke b args g)
      ⟨.invoke b args g, m, depth⟩ (Eval.run settings depth (.invoke b args g) m) := by
  have hreach : m.Reach vs (.closure b) := .root (.inl ⟨_, hb, rfl⟩)
  obtain ⟨hspares, hsecludes, hhome⟩ :=
    s.invoke settings depth hreach hargs (s.there g hg)
  refine ⟨.invocation args g, rfl, fun v m' hout => ?_, hhome⟩
  rw [hout] at hspares hsecludes
  exact ⟨hspares, hsecludes⟩

/-- Sending `value:` to a closure is a turn where invoking the closure is. The frame of the
method is hidden meanwhile. -/
theorem Call.Turn.value (he : m.Equipped settings) {node arg : Node} {f : FrameId}
    {c : ClosureId} {P : Memory → Value → Prop} (hsuper : node.isSuper = false)
    (hnode : m.Yields settings (depth + 1) (.evaluate node f) (.ok (.closure c)))
    (harg : m.Supplies settings (depth + 1) (.evaluate arg f) P)
    (hP : ∀ {m m' v}, m.Aside [] m' → P m v → P m' v) {vs : List Value}
    {hidden : List FrameId} (s : m.Secludes vs hidden) {A : Call → Prop}
    (hturn : ∀ v g m', P m' v → m.Aside [] m' → m'.Secludes vs (g :: hidden) →
      ∃ call out, A call ∧
        Call.Turn settings b depth vs (g :: hidden) m' (.invoke c [v] g) call out) :
    ∃ call out, A call ∧ Call.Turn settings b (depth + 2) vs hidden m
      (.evaluate (.call node "value:" [arg]) f) call out := by
  obtain ⟨v, g, m₁, a₁, hnew, hthere, hv, hsend⟩ := Goes.sendValue he hsuper hnode harg hP
  obtain ⟨call, out, hA, turn⟩ := hturn v g m₁ hv a₁ (s.cons a₁ hnew hthere)
  -- a turn unwinds to no hidden frame, and the frame of the method is hidden
  have hhome : ∀ v m', out ≠ .error (.unwind v g) m' := fun v m' heq =>
    turn.home v g m' heq List.mem_cons_self
  have hsub : ∀ j ∈ hidden, j ∈ g :: hidden := fun j => List.mem_cons_of_mem g
  refine ⟨call, Eval.close g out, hA, .inner (hsend b out [call] turn.goes) rfl,
    (Eval.stop?_close hhome).trans turn.stops, ?_, ?_⟩
  · intro w m' heq
    cases out with
    | error stop m₂ =>
        rw [Eval.close_error fun v h => hhome v m₂ (h ▸ rfl)] at heq
        cases heq
    | ok w' m₂ =>
        cases heq
        obtain ⟨hspares, s₂⟩ := turn.spares w m₂ rfl
        -- ending the frame of the method changes no other, and it is newer than the hidden ones
        have a₂ : m₂.Aside [g] (m₂.retire g) := .retire m₂ g
        have hother : ∀ j ∈ hidden, j ∉ [g] := by
          intro j hj hmem
          obtain rfl := List.mem_singleton.mp hmem
          exact Nat.lt_irrefl _ (Nat.lt_of_lt_of_le (s.there j hj) hnew)
        refine ⟨((s.spares a₁).trans (hspares.mono hsub)).trans (a₂.spares ?_ hother),
          s₂.aside a₂ (by simp) fun j hj => .inl (hsub j hj)⟩
        exact fun j hj => s₂.there j (hsub j hj)
  · intro w home m' heq hmem
    cases out with
    | ok w' m₂ => cases heq
    | error stop m₂ =>
        rw [Eval.close_error fun v h => hhome v m₂ (h ▸ rfl)] at heq
        cases heq
        exact turn.home w home m₂ rfl (hsub home hmem)

/-- Whenever the closure `c` is invoked with a number from `lo` to `n`, and the frames `outer`
have been left alone since `m₀`, there is one call to look at, of which `A` holds. -/
def Turns (settings : Settings) (b : ClosureId) (depth : Nat) (vs : List Value)
    (outer : List FrameId) (m₀ : Memory) (c : ClosureId) (A : Int → Call → Prop) (lo n : Int) :
    Prop :=
  ∀ i m hidden g, lo ≤ i → i ≤ n → m₀.Spares outer m → m.Secludes vs hidden →
    (∀ k ∈ outer, k ∈ hidden) → g ∈ hidden →
    ∃ call out, A i call ∧
      Call.Turn settings b depth vs hidden m (.invoke c [.int i] g) call out

/-! ### Rounds -/

/-- A frame of a block without variables, in the frame of a method. -/
structure Memory.InBlock (m : Memory) (g f : FrameId) : Prop where
  there : g < m.heap.frames.size
  outer : (m.heap.frame g).outer = [f]
  slots : (m.heap.frame g).slots = {}

theorem Memory.InBlock.spared {g f : FrameId} (h : m.InBlock g f) (k : m.Spares [g] m') :
    m'.InBlock g f := by
  have hsame := k.same g (List.mem_singleton_self g)
  refine ⟨Nat.lt_of_lt_of_le h.there k.heap.frames, ?_, ?_⟩
  · rw [hsame, h.outer]
  · rw [hsame, h.slots]

theorem Memory.InBlock.aside {g f : FrameId} (h : m.InBlock g f) {own : List FrameId}
    (a : m.Aside own m') (hown : g ∉ own) : m'.InBlock g f := by
  refine h.spared (a.spares ?_ ?_)
  · intro j hj
    obtain rfl := List.mem_singleton.mp hj
    exact h.there
  · intro j hj
    obtain rfl := List.mem_singleton.mp hj
    exact hown

namespace Kernel

open Node

/-- The comparison before each round of `to:do:`. -/
def goesOn : Node := .call (temp (.str "i")) "<=" [argument "stop"]

/-- A round of `to:do:`: the block is called, and the number goes up by one. -/
def round : List Node := [
  .call (argument "aBlock") "value:" [temp (.str "i")],
  setTemp (.str "i") (.call (temp (.str "i")) "+" [int 1])]

/-- The variables of `to:do:`. -/
def countingSlots (n : Int) (c : ClosureId) (i : Value) : Dictionary Value :=
  ⟨[⟨.text "stop", .str "stop", .int n⟩, ⟨.text "aBlock", .str "aBlock", .closure c⟩,
    ⟨.text "i", .str "i", i⟩]⟩

/-- What holds while `to:do:` counts to `n` in the frame `f`, before the round for `i`. -/
structure Counting (settings : Settings) (x : Frame) (f : FrameId) (condition body c : ClosureId)
    (n : Int) (m : Memory) (i : Int) : Prop where
  equipped : m.Equipped settings
  there : f < m.heap.frames.size
  frame : m.heap.frame f = { x with slots := countingSlots n c (.int i) }
  outermost : x.outer = []
  condition_lt : condition < m.heap.closures.size
  condition_eq : m.heap.closure condition = ⟨[], [], [goesOn], f⟩
  body_lt : body < m.heap.closures.size
  body_eq : m.heap.closure body = ⟨[], [], round, f⟩

namespace Counting

variable {x : Frame} {f : FrameId} {condition body c : ClosureId} {n i lo : Int}
  {A : Int → Call → Prop} {vs : List Value} {outer hidden : List FrameId} {m₀ : Memory}

/-- Only the frame of `to:do:` matters. -/
theorem spared (k : Counting settings x f condition body c n m i) (h : m.Spares [f] m') :
    Counting settings x f condition body c n m' i where
  equipped := k.equipped.of_registry h.registry
  there := Nat.lt_of_lt_of_le k.there h.heap.frames
  frame := (h.same f (List.mem_singleton_self f)).trans k.frame
  outermost := k.outermost
  condition_lt := Nat.lt_of_lt_of_le k.condition_lt h.heap.closures
  condition_eq := (h.heap.closure condition k.condition_lt).trans k.condition_eq
  body_lt := Nat.lt_of_lt_of_le k.body_lt h.heap.closures
  body_eq := (h.heap.closure body k.body_lt).trans k.body_eq

theorem aside (k : Counting settings x f condition body c n m i) {own : List FrameId}
    (a : m.Aside own m') (hown : f ∉ own) : Counting settings x f condition body c n m' i := by
  refine k.spared (a.spares ?_ ?_)
  · intro g hg
    obtain rfl := List.mem_singleton.mp hg
    exact k.there
  · intro g hg
    obtain rfl := List.mem_singleton.mp hg
    exact hown

/-- The variables of `to:do:` as its blocks see them. -/
theorem reads (k : Counting settings x f condition body c n m i) {g : FrameId}
    (hg : m.InBlock g f) {name : String} {kind : VariableKind}
    (hkind : kind = .temp ∨ kind = .arg) {v : Value}
    (hv : (countingSlots n c (.int i)).find? (.text name) = some v) :
    m.Yields settings (depth + 1) (.evaluate (.reference (.str name) kind .null) g) (.ok v) := by
  refine .readOuter hkind hg.there k.there hg.outer ?_ ?_
  · rw [hg.slots]
    rfl
  · rw [k.frame]
    exact hv

/-- Invoking one of the two blocks does its statements in a new frame. -/
theorem invokes (k : Counting settings x f condition body c n m i) {block : ClosureId}
    {statements : List Node} (hblock : m.heap.closure block = ⟨[], [], statements, f⟩)
    (caller : FrameId) (depth : Nat) :
    ∃ g m', m.Aside [] m' ∧ m.heap.frames.size ≤ g ∧ m'.InBlock g f ∧
      ∀ b out seen, block ≠ b →
        (Planned.foldlM (fun _ s => Planned.call (.evaluate s g)) .nil statements).Goes
          (Eval.run settings depth) (Call.seen settings b depth) m' out seen →
        (Planned.call (.invoke block [] caller)).Goes (Eval.run settings (depth + 1))
          (Call.seen settings b (depth + 1)) m out seen := by
  have hnames : m.heap.closure block = ⟨[].map .str, [], statements, f⟩ := hblock
  have hargs : ([] : List Value).length = ([] : List String).length := rfl
  obtain ⟨g, m', o, hinvoke⟩ := Memory.Makes.of_invoke hnames hargs settings caller depth
  refine ⟨g, m', o.aside, o.fresh, ⟨o.there, ?_, ?_⟩, fun b out seen hb h => ?_⟩
  · rw [o.frame, k.frame, k.outermost]
  · rw [o.frame]
    rfl
  · exact .inner (hinvoke b out seen (.runBody h)) (beq_false_of_ne hb)

/-- The comparison. -/
theorem compares (k : Counting settings x f condition body c n m i)
    (hi : SmallInteger.holds i = true) (hn : SmallInteger.holds n = true) (caller : FrameId)
    (depth : Nat) :
    ∃ m', m.Aside [] m' ∧ ∀ b, condition ≠ b →
      (Planned.call (.invoke condition [] caller)).Goes (Eval.run settings (depth + 3))
        (Call.seen settings b (depth + 3)) m (.ok (.bool (i ≤ n)) m') [] := by
  obtain ⟨g, m₁, a₁, -, hg, hinvoke⟩ := k.invokes k.condition_eq caller (depth + 2)
  have k₁ := k.aside a₁ List.not_mem_nil
  have hyields : m₁.Yields settings (depth + 2) (.evaluate goesOn g) (.ok (.bool (i ≤ n))) :=
    Operator.lessOrEqual.yields_call k₁.equipped hi (fun j hj => Value.int.inj hj ▸ hn) rfl rfl
      (k₁.reads hg (.inl rfl) rfl) (k₁.reads hg (.inr rfl) rfl)
  obtain ⟨m₂, a₂, hgoes⟩ := hyields.here
  refine ⟨m₂, a₁.append a₂, fun b hb => hinvoke b _ [] hb ?_⟩
  exact .foldlM_singleton (.inner (hgoes b) rfl)

/-- The end of a round. -/
theorem increments (k : Counting settings x f condition body c n m i)
    (hi : SmallInteger.holds i = true) (hnext : SmallInteger.holds (i + 1) = true) {g : FrameId}
    (hg : m.InBlock g f) (depth : Nat) :
    ∃ m', m.Aside [f] m' ∧ Counting settings x f condition body c n m' (i + 1) ∧
      ∀ b, (Call.mk (.evaluate (setTemp (.str "i") (.call (temp (.str "i")) "+" [int 1])) g) m
        (depth + 3)).Goes settings b (.ok (.int (i + 1)) m') [] := by
  have hone : ∀ j, Value.int 1 = .int j → SmallInteger.holds j = true :=
    fun j hj => Value.int.inj hj ▸ by decide
  have hplus : m.Yields settings (depth + 2)
      (.evaluate (.call (temp (.str "i")) "+" [int 1]) g) (.ok (.int (i + 1))) :=
    Operator.add.yields_call k.equipped hi hone (if_pos hnext) rfl (k.reads hg (.inl rfl) rfl)
      (.literal _)
  obtain ⟨m₁, a₁, hvalue⟩ := hplus.here
  have k₁ := k.aside a₁ List.not_mem_nil
  have hg₁ := hg.aside a₁ List.not_mem_nil
  -- the variable is declared in the frame of the method, not in that of the block
  have howner : m₁.heap.owner? g (.text "i") = some f := by
    refine Heap.owner?_outer hg₁.outer ?_ ?_
    · rw [hg₁.slots]
      rfl
    · rw [k₁.frame]
      rfl
  have a₂ := Memory.Aside.declare m₁ f (.text "i") (.str "i") (.int (i + 1))
  refine ⟨_, (a₁.mono fun _ h => absurd h List.not_mem_nil).trans a₂ fun _ => .inl, ?_,
    fun b => (hvalue b).assign howner⟩
  refine { k₁ with
    equipped := k₁.equipped.of_registry a₂.registry
    there := Nat.lt_of_lt_of_le k₁.there a₂.heap.frames
    frame := ?_ }
  rw [Heap.frame_declare, if_pos ⟨rfl, k₁.there⟩, k₁.frame]
  rfl

end Counting

/-- `Counting`, where the frames of the kernel are hidden from the block and those around have
been left alone. -/
structure CountingOn (settings : Settings) (x : Frame) (f : FrameId)
    (condition body c : ClosureId) (n : Int) (vs : List Value) (outer hidden : List FrameId)
    (m₀ m : Memory) (i : Int) : Prop
    extends Counting settings x f condition body c n m i where
  secludes : m.Secludes vs hidden
  spares : m₀.Spares outer m

namespace CountingOn

variable {x : Frame} {f : FrameId} {condition body c : ClosureId} {n i lo : Int}
  {A : Int → Call → Prop} {vs : List Value} {outer hidden : List FrameId} {m₀ : Memory}

section
variable (turns : Turns settings b (depth + 1) vs outer m₀ c A lo n)
  (houter : ∀ k ∈ outer, k ∈ hidden) (hf : f ∈ hidden) (hf' : f ∉ outer) (hbody : body ≠ b)

include turns houter hf hf' hbody

/-- A round makes one call to look at, and stops where this does. Otherwise it leads to the
next number. -/
theorem round (k : CountingOn settings x f condition body c n vs outer hidden m₀ m i)
    (hlo : lo ≤ i) (hle : i ≤ n) (hi : SmallInteger.holds i = true)
    (hnext : SmallInteger.holds (i + 1) = true) (caller : FrameId) :
    ∃ call out, A i call ∧ Eval.stop? out = Eval.stop? (call.outcome settings) ∧
      (Planned.call (.invoke body [] caller)).Goes (Eval.run settings (depth + 4))
        (Call.seen settings b (depth + 4)) m out [call] ∧
      (∀ v m', out = .ok v m' →
        CountingOn settings x f condition body c n vs outer hidden m₀ m' (i + 1)) ∧
      ∀ v home m', out = .error (.unwind v home) m' → home ∉ hidden := by
  obtain ⟨g, m₁, a₁, hnew, hg, hinvoke⟩ := k.invokes k.body_eq caller (depth + 3)
  have k₁ := k.aside a₁ List.not_mem_nil
  have s₁ : m₁.Secludes vs (g :: hidden) := k.secludes.cons a₁ hnew hg.there
  have hsub : ∀ j ∈ hidden, j ∈ g :: hidden := fun j => List.mem_cons_of_mem g
  have houter₁ : ∀ j ∈ outer, j ∈ g :: hidden := fun j hj => hsub j (houter j hj)
  have hspares₁ : m₀.Spares outer m₁ := k.spares.trans ((k.secludes.spares a₁).mono houter)
  -- the call of the block
  have hreads : m₁.Yields settings (depth + 2) (.evaluate (temp (.str "i")) g) (.ok (.int i)) :=
    k₁.reads hg (.inl rfl) rfl
  have hblock : m₁.Yields settings (depth + 2) (.evaluate (argument "aBlock") g)
      (.ok (.closure c)) := k₁.reads hg (.inr rfl) rfl
  obtain ⟨call, out, hA, turn⟩ :=
    Call.Turn.value k₁.equipped rfl hblock hreads.supplies (fun _ h => h) s₁ (A := A i)
      fun v V m₂ hv a₂ s₂ => by
        subst hv
        exact turns i m₂ (V :: g :: hidden) V hlo hle
          (hspares₁.trans ((s₁.spares a₂).mono houter₁)) s₂
          (fun j hj => List.mem_cons_of_mem V (houter₁ j hj)) List.mem_cons_self
  cases out with
  | error stop m₂ =>
      -- the variable keeps its value
      refine ⟨call, .error stop m₂, hA, turn.stops,
        hinvoke b _ _ hbody (.foldlM_stop turn.goes), nofun, ?_⟩
      exact fun v home m' heq hmem => turn.home v home m' heq (hsub home hmem)
  | ok w m₂ =>
      -- the frames of `to:do:` and of the round are hidden, so they are as the call found them
      obtain ⟨hspares, s₂⟩ := turn.spares w m₂ rfl
      have k₂ := k₁.spared (hspares.mono fun j hj => hsub j (List.mem_singleton.mp hj ▸ hf))
      have hg₂ := hg.spared (hspares.mono fun j hj => by rw [List.mem_singleton.mp hj]; simp)
      obtain ⟨m₃, a₃, k₃, hassign⟩ := k₂.increments hi hnext hg₂ depth
      have hstatements : (Planned.foldlM (fun _ s => Planned.call (.evaluate s g)) .nil
          Kernel.round).Goes (Eval.run settings (depth + 3)) (Call.seen settings b (depth + 3)) m₁
          (.ok (.int (i + 1)) m₃) ([call] ++ []) :=
        .foldlM_cons turn.goes (.foldlM_singleton (.inner (hassign b) rfl))
      refine ⟨call, .ok (.int (i + 1)) m₃, hA, turn.stops,
        hinvoke b _ _ hbody hstatements, ?_, nofun⟩
      intro w' m' heq
      cases heq
      refine ⟨k₃, s₂.aside a₃ (by simp [hf]) fun j hj => .inl (hsub j hj), ?_⟩
      refine (hspares₁.trans (hspares.mono houter₁)).trans (a₃.spares ?_ ?_)
      · exact fun j hj => s₂.there j (houter₁ j hj)
      · exact fun j hj hmem => hf' (List.mem_singleton.mp hmem ▸ hj)

/-- Every number up to the last one gets its round, until a call stops. -/
theorem alternate (k : CountingOn settings x f condition body c n vs outer hidden m₀ m i)
    (hcondition : condition ≠ b) (hlo : lo ≤ i) (hi : SmallInteger.holds i = true)
    (hn : SmallInteger.holds n = true) (hlast : n < SmallInteger.greatest) (caller : FrameId)
    (rounds : Nat) (hrounds : (n + 1 - i).toNat < rounds) :
    ∃ calls stop out, Tours settings A n i calls stop ∧ Eval.stop? out = stop ∧
      (Planned.alternate (.invoke condition [] caller) (.invoke body [] caller) true rounds).Goes
        (Eval.run settings (depth + 4)) (Call.seen settings b (depth + 4)) m out calls ∧
      ∀ v home m', out = .error (.unwind v home) m' → home ∉ hidden := by
  induction rounds generalizing m i with
  | zero => cases hrounds
  | succ rounds ih =>
      obtain ⟨m₁, a₁, hcompares⟩ := k.compares hi hn caller (depth + 1)
      have hcompares := hcompares b hcondition
      have k₁ : CountingOn settings x f condition body c n vs outer hidden m₀ m₁ i := by
        refine ⟨k.aside a₁ List.not_mem_nil, k.secludes.aside a₁ nofun fun j => .inl, ?_⟩
        exact k.spares.trans ((k.secludes.spares a₁).mono houter)
      by_cases hle : i ≤ n
      · rw [decide_eq_true hle] at hcompares
        -- this is where the last number must not be the greatest
        have hnext : SmallInteger.holds (i + 1) = true := by
          rw [SmallInteger.holds_iff] at hi ⊢
          unfold SmallInteger.greatest at hlast
          omega
        obtain ⟨call, out, hA, hstops, hround, hthen, hhome⟩ :=
          k₁.round turns houter hf hf' hbody hlo hle hi hnext caller
        cases out with
        | error stop m₂ =>
            exact ⟨[call], some stop, _, .stopped hle hA hstops.symm, rfl,
              .alternate_stop hcompares hround, hhome⟩
        | ok v m₂ =>
            obtain ⟨calls, stop, out, htours, hstop, hgoes, hhome⟩ :=
              ih (hthen v m₂ rfl) (by omega) hnext (by omega)
            exact ⟨call :: calls, stop, out, .next hle hA hstops.symm htours, hstop,
              .alternate_next hcompares hround hgoes, hhome⟩
      · rw [decide_eq_false hle] at hcompares
        exact ⟨[], none, _, .done (Int.not_le.mp hle), rfl, .alternate_end hcompares, nofun⟩

end

end CountingOn

/-! ### The method -/

/-- The statements of `to:do:`. -/
def countingStatements : List Node := [
  setTemp (.str "i") .self,
  .call (blockOf [] [goesOn]) "whileTrue:" [blockOf [] round]]

theorem tree?_toDo : tree? "SmallInteger" "to:do:"
    = some (.method (.str "to:do:") [.str "stop", .str "aBlock"] [.str "i"] countingStatements
        .null) :=
  rfl

/-- The method `to:do:` in its class. -/
def toDo (owner : Behavior) : Method :=
  ⟨.str "to:do:", [.str "stop", .str "aBlock"], [.str "i"], countingStatements, .null, owner⟩

theorem toDo_found (he : m.Equipped settings) (i : Int) : ∃ cls owner,
    m.classOf? (.int i) = some cls ∧
      m.registry.lookup? (.text "to:do:") cls = some (toDo owner) := by
  obtain ⟨cls, hclass, hunderstands⟩ := he.understands (v := .int i) rfl tree?_toDo
  obtain ⟨owner, next, hmethod⟩ := hunderstands.method
  exact ⟨cls, owner, hclass, hmethod⟩

/-- The frame of `to:do:` when it is entered. -/
def enteredBy (lo n : Int) (c : ClosureId) (owner : Behavior) (callers : List FrameId) : Frame where
  receiver := .int lo
  method := some (toDo owner)
  callers := callers
  slots := Dictionary.putAll ["stop", "aBlock"] [.int n, .closure c] {}

/-- The first statement of `to:do:`, once the variable is declared. -/
theorem starts {lo n : Int} {c : ClosureId} {owner : Behavior} {callers : List FrameId}
    {f : FrameId} (o : m.Makes (enteredBy lo n c owner callers) f m') (settings : Settings)
    (depth : Nat) :
    ∃ m'', m.Aside [] m'' ∧ f < m''.heap.frames.size ∧
      m''.heap.frame f
        = { enteredBy lo n c owner callers with slots := countingSlots n c (.int lo) } ∧
      ∀ b, (Call.mk (.evaluate (setTemp (.str "i") .self) f)
        { m' with heap := m'.heap.declare f (.text "i") (.str "i") .nil } (depth + 2)).Goes
        settings b (.ok (.int lo) m'') [] := by
  have a₁ := Memory.Aside.declare m' f (.text "i") (.str "i") .nil
  -- the receiver can be read after that: declaring a variable keeps the rest of the frame
  have hframe₁ := Heap.frame_declare m'.heap f f (.text "i") (.str "i") .nil
  rw [if_pos ⟨rfl, o.there⟩, o.frame] at hframe₁
  have hthere₁ := Nat.lt_of_lt_of_le o.there a₁.heap.frames
  have howner : (m'.heap.declare f (.text "i") (.str "i") .nil).owner? f (.text "i") = some f := by
    refine Heap.owner?_self ?_
    rw [hframe₁]
    rfl
  have a₂ := Memory.Aside.declare { m' with heap := m'.heap.declare f (.text "i") (.str "i") .nil }
    f (.text "i") (.str "i") (.int lo)
  have hframe₂ := Heap.frame_declare (m'.heap.declare f (.text "i") (.str "i") .nil) f f
    (.text "i") (.str "i") (.int lo)
  rw [if_pos ⟨rfl, hthere₁⟩, hframe₁] at hframe₂
  refine ⟨_, o.aside.trans (a₁.trans a₂ fun _ => .inl) ?_,
    Nat.lt_of_lt_of_le hthere₁ a₂.heap.frames, hframe₂, fun b => ?_⟩
  · intro g hg
    rw [List.mem_singleton.mp hg]
    exact .inr o.fresh
  · refine .assign ?_ howner
    have hself := @Call.Goes.self settings b depth
      { m' with heap := m'.heap.declare f (.text "i") (.str "i") .nil } f
    rw [hframe₁] at hself
    exact hself

/-- Every activation of `to:do:` makes a tour of the numbers. -/
theorem counts {lo n : Int} {A : Int → Call → Prop} {vs : List Value} {outer : List FrameId}
    {c : ClosureId} (he : m.Equipped settings) (hlo : SmallInteger.holds lo = true)
    (hn : SmallInteger.holds n = true) (hlast : n < SmallInteger.greatest)
    (hb : b < m.heap.closures.size) (hrounds : (n + 1 - lo).toNat < settings.rounds)
    (s : m.Secludes vs outer) (turns : Turns settings b (depth + 1) vs outer m c A lo n)
    (owner : Behavior) (callers : List FrameId) :
    ∃ calls stop out, Tours settings A n lo calls stop ∧ Eval.stop? out = stop ∧
      (Call.mk (.activate (toDo owner) (.int lo) [.int n, .closure c] callers) m
        (depth + 7)).Goes settings b out calls ∧
      (∀ v m', out = .ok v m' → v = .int lo) ∧
      ∀ v home m', out = .error (.unwind v home) m' → home ∉ outer := by
  have htakes : Method.Takes (toDo owner) ["stop", "aBlock"] [.int n, .closure c] :=
    ⟨rfl, by decide, rfl⟩
  obtain ⟨F, m₁, henter, o₁, -⟩ := htakes.enters (.int lo) callers m
  obtain ⟨m₂, a₂, hthere, hframe, hstart⟩ := starts o₁ settings (depth + 4)
  obtain ⟨condition, body, W, m₃, hcondition, hbody, hnew, hthereW, hloop⟩ :=
    Call.Goes.sendWhileTrue (he.of_registry a₂.registry) [goesOn] round F (depth + 4)
  have a₃ := hcondition.aside
  have a₀₃ := a₂.append a₃
  have hclosures := Nat.lt_of_lt_of_le hb a₂.heap.closures
  have hother : ∀ j ∈ outer, j ≠ F := fun j hj heq => by
    have hlt := s.there j hj
    rw [heq] at hlt
    exact Nat.lt_irrefl _ (Nat.lt_of_lt_of_le hlt o₁.fresh)
  -- before the first round, the frames of `to:do:` and of its loop are new and hidden
  have k : CountingOn settings (enteredBy lo n c owner callers) F condition body c n vs outer
      (W :: F :: outer) m m₃ lo := by
    refine ⟨⟨he.of_registry a₀₃.registry, Nat.lt_of_lt_of_le hthere a₃.heap.frames, ?_, rfl,
      hcondition.there, hcondition.closure, hbody.there, hbody.closure⟩,
      (s.cons a₂ o₁.fresh hthere).cons a₃ hnew hthereW, s.spares a₀₃⟩
    exact (a₃.frame F hthere List.not_mem_nil).trans hframe
  -- the two closures are newer than `b`, so invoking them is not a call of it
  obtain ⟨calls, stop, out, htours, hstop, hgoes, hhome⟩ :=
    k.alternate turns (fun j hj => by simp [hj]) (by simp) (fun hmem => hother F hmem rfl)
      (Nat.ne_of_gt (Nat.lt_of_lt_of_le hclosures hbody.fresh))
      (Nat.ne_of_gt (Nat.lt_of_lt_of_le hclosures hcondition.fresh)) (Int.le_refl lo) hlo hn hlast
      W settings.rounds hrounds
  have hstatements : (Planned.runBody F [.str "i"] countingStatements).Goes
      (Eval.run settings (depth + 6)) (Call.seen settings b (depth + 6)) m₁ (Eval.close W out)
        ([] ++ calls) :=
    .runBody_temp (.foldlM_cons (.inner (hstart b) rfl)
      (.foldlM_singleton (.inner (hloop b out calls hgoes) rfl)))
  -- the frames are closed, from the inside, and no stop unwinds to one of them
  have hclosed : Eval.stop? (Eval.close W out) = Eval.stop? out :=
    Eval.stop?_close fun v m' heq => hhome v W m' heq (by simp)
  have hpast : ∀ v home, Eval.stop? out = some (.unwind v home) → home ∉ W :: F :: outer := by
    intro v home heq
    obtain ⟨m', rfl⟩ := Eval.stop?_eq_some.mp heq
    exact hhome v home m' rfl
  obtain ⟨out', hstops, hactivate, hanswer⟩ :=
    Call.Goes.activate_plain htakes.arity henter rfl hstatements fun v m' heq =>
      hpast v F (hclosed ▸ Eval.stop?_eq_some.mpr ⟨m', heq⟩) (by simp)
  refine ⟨calls, stop, out', htours, (hstops.trans hclosed).trans hstop, hactivate, hanswer, ?_⟩
  intro v home m' heq hmem
  have hunwinds := Eval.stop?_eq_some.mpr ⟨m', heq⟩
  rw [hstops, hclosed] at hunwinds
  exact hpast v home hunwinds (by simp [hmem])

end Kernel

/-- A closure that is made in a frame that is there leaves no loose ends. -/
theorem Memory.Closed.newClosure (h : m.Closed) {x : Closure}
    (hx : x.frame < m.heap.frames.size) :
    ({ m with heap := (m.heap.newClosure x).1 } : Memory).Closed := by
  have hsize : (m.heap.newClosure x).1.closures.size = m.heap.closures.size + 1 :=
    Heap.size_newClosure ..
  refine ⟨fun c hc => ?_, fun key c hc => ?_, fun c hc => ?_, h.outer⟩
  · exact hsize ▸ Nat.lt_succ_of_lt (h.stored c hc)
  · exact hsize ▸ Nat.lt_succ_of_lt (h.bound key c hc)
  · show ((m.heap.newClosure x).1.closure c).frame < m.heap.frames.size
    rw [Heap.closure_newClosure]
    split
    · exact hx
    · rename_i hne
      have hlt : c < m.heap.closures.size + 1 := hsize ▸ hc
      exact h.closure c (Nat.lt_of_le_of_ne (Nat.le_of_lt_succ hlt) hne)

/-! ### What a loop does -/

/-- An outcome is this stop, or the fault for an exhausted depth where the stop is that. -/
def Eval.StopsWith (stop : Stop) (out : Outcome Value) : Prop :=
  (∃ m, out = .error stop m) ∨ stop = .tooDeep ∧ OutOfDepth out

/-- A loop makes these calls, at most so many. If they all complete, there are so many and the
loop answers. Otherwise it stops where the first does that stops. -/
structure Eval.Visits (settings : Settings) (count : Nat) (answer : Value) (calls : List Call)
    (out : Outcome Value) : Prop where
  length_le : calls.length ≤ count
  complete : (∀ c ∈ calls, ∃ v m, c.outcome settings = .ok v m) →
    calls.length = count ∧ ∃ m, out = .ok answer m
  last : ∀ j (hj : j < calls.length) stop m, calls[j].outcome settings = .error stop m →
    j + 1 = calls.length ∧ StopsWith stop out

/-- What a tour comes to, when the send ends as the activation has done. -/
theorem Tours.visits {A : Int → Call → Prop} {n i : Int} {calls : List Call} {stop : Option Stop}
    {answer : Value} {out out' : Outcome Value} (t : Tours settings A n i calls stop)
    (hstop : Eval.stop? out = stop) (hok : ∀ v m, out = .ok v m → v = answer)
    (hout : out' = out ∨ Eval.OutOfDepth out' ∧ Eval.TooDeep out) :
    Eval.Visits settings (n + 1 - i).toNat answer calls out' where
  length_le := t.length_le
  complete h := by
    -- every turn has ended with a value, so none of them has stopped the tour
    have hnone : ∀ c ∈ calls, Eval.stop? (c.outcome settings) = none := by
      intro c hc
      obtain ⟨v, m, hv⟩ := h c hc
      rw [hv]
      rfl
    obtain ⟨hlength, rfl⟩ := t.complete hnone
    refine ⟨hlength, ?_⟩
    cases out with
    | error s m => cases hstop
    | ok v m =>
        obtain rfl := hok v m rfl
        rcases hout with rfl | ⟨-, m', hdeep⟩
        · exact ⟨m, rfl⟩
        · cases hdeep
  last j hj s m hs := by
    -- a turn that stops is the last one, and the tour stops as it does
    have hsome : Eval.stop? (calls[j].outcome settings) = some s := by
      rw [hs]
      rfl
    obtain ⟨hlast, rfl⟩ := t.last j hj hsome
    refine ⟨hlast, ?_⟩
    cases out with
    | ok v m => cases hstop
    | error s' m =>
        obtain rfl := Option.some.inj hstop
        rcases hout with rfl | ⟨hout, m', hdeep⟩
        · exact .inl ⟨m, rfl⟩
        · cases hdeep
          exact .inr ⟨rfl, hout⟩

/-- What a closure is called with. -/
def Task.arguments : Task → List Value
  | .invoke _ args _ => args
  | _ => []

namespace Kernel

/-- The arguments of the calls for the numbers from `lo` to `n`. -/
def numbers (lo n : Int) : List (List Value) :=
  (List.range (n + 1 - lo).toNat).map fun (j : Nat) => [.int (lo + j)]

theorem length_numbers (lo n : Int) : (numbers lo n).length = (n + 1 - lo).toNat := by
  rw [numbers, List.length_map, List.length_range]

/-- A send of `to:do:` calls the block with the numbers from the receiver to the argument, in
order. If the calls all complete, there is one for each number, and the send answers the
receiver. Otherwise it stops where the first call does that stops.

The rounds that a loop may take have to be enough for the numbers, and the depth for the code
of `to:do:` itself. The block may exhaust both, and stops then like any call. -/
theorem sends_toDo {lo n : Int} {calls : List Call} {out : Outcome Value}
    (he : m.Equipped settings) (hclosed : m.Closed) (hlo : SmallInteger.holds lo = true)
    (hn : SmallInteger.holds n = true) (hlast : n < SmallInteger.greatest)
    (hb : b < m.heap.closures.size) (hrounds : (n + 1 - lo).toNat < settings.rounds)
    (hdepth : 7 ≤ depth)
    (h : Memory.Sends settings (.int lo) "to:do:" [.int n, .closure b] m depth calls out) :
    ∃ c, calls = [c] ∧
      (c.invocations settings b).map (·.task.arguments) <+: numbers lo n ∧
      ((∀ call ∈ c.invocations settings b, ∃ v m', call.outcome settings = .ok v m') →
        (c.invocations settings b).map (·.task.arguments) = numbers lo n) ∧
      Eval.Visits settings (n + 1 - lo).toNat (.int lo) (c.invocations settings b) out := by
  obtain ⟨cls, owner, hclass, hmethod⟩ := toDo_found he lo
  obtain ⟨callers, m₁, hnoted, rfl, hout⟩ := h.activates hclass hmethod rfl
  obtain ⟨d, rfl⟩ : ∃ d, depth = d + 7 := ⟨depth - 7, by omega⟩
  have a₁ : m.Aside [] m₁ := .of_noted hnoted
  have s : m₁.Secludes [.closure b] [] := by
    refine (hclosed.secludes fun c hc => ?_).aside a₁ nofun nofun
    exact Value.closure.inj (List.mem_singleton.mp hc) ▸ hb
  -- each round calls the block itself
  let A : Int → Call → Prop := fun i call => call.task.arguments = [.int i]
  have turns : Turns settings b (d + 1) [.closure b] [] m₁ b A lo n := by
    intro i m' hidden g _ _ _ s' _ hg
    refine ⟨_, _, rfl, s'.turn settings (List.mem_singleton_self _) (fun v hv c hc => ?_) hg _⟩
    rw [List.mem_singleton.mp hv] at hc
    cases hc
  obtain ⟨visits, stop, out', htours, hstop, hgoes, hok, -⟩ :=
    counts (he.of_registry a₁.registry) hlo hn hlast (Nat.lt_of_lt_of_le hb a₁.heap.closures)
      hrounds s turns owner callers
  rw [← hgoes.outcome] at hstop hok
  have hvisits := htours.visits hstop hok hout
  have hinitial : visits.map (·.task.arguments) <+: numbers lo n := by
    rw [List.prefix_iff_getElem]
    refine ⟨?_, fun j hj => ?_⟩
    · rw [List.length_map, length_numbers]
      exact hvisits.length_le
    · rw [List.length_map] at hj
      simp only [numbers, List.getElem_map, List.getElem_range]
      exact htours.get j hj
  refine ⟨_, rfl, ?_⟩
  rw [hgoes.invocations]
  refine ⟨hinitial, fun hcomplete => hinitial.eq_of_length ?_, hvisits⟩
  rw [List.length_map, length_numbers, (hvisits.complete hcomplete).1]

/-- A memory with a block of one parameter, made by workspace code. -/
def withBlock (m : Memory) (statements : List Node) : Memory :=
  { m.inWorkspace with heap :=
      (m.inWorkspace.heap.newClosure ⟨[.str "i"], [], statements, m.heap.frames.size⟩).1 }

theorem withBlock_equipped (he : m.Equipped settings) (statements : List Node) :
    (withBlock m statements).Equipped settings :=
  he.of_registry rfl

theorem withBlock_closed (g : m.Good Regime.any []) (statements : List Node) :
    (withBlock m statements).Closed := by
  refine g.inWorkspace.toWellFormed.closed.newClosure ?_
  show _ < (m.heap.newFrame _).1.frames.size
  rw [Heap.size_newFrame]
  exact Nat.lt_succ_self _

/-- The last number that `to:do:` counts to is the one before the greatest SmallInteger. -/
theorem sends_toDo_below_greatest : ∃ c,
    ((Query.send (.int (SmallInteger.greatest - 2)) (.str "to:do:")
      [.int (SmallInteger.greatest - 1), .closure 0]).call? {} (withBlock memory [])).toList = [c] ∧
      (c.invocations {} 0).map (·.task.arguments)
        <+: numbers (SmallInteger.greatest - 2) (SmallInteger.greatest - 1) ∧
      ((∀ call ∈ c.invocations {} 0, ∃ v m', call.outcome {} = .ok v m') →
        (c.invocations {} 0).map (·.task.arguments)
          = numbers (SmallInteger.greatest - 2) (SmallInteger.greatest - 1)) ∧
      Eval.Visits {} 2 (.int (SmallInteger.greatest - 2)) (c.invocations {} 0)
        ((Query.send (.int (SmallInteger.greatest - 2)) (.str "to:do:")
          [.int (SmallInteger.greatest - 1), .closure 0]).perform {} (withBlock memory [])) :=
  sends_toDo (withBlock_equipped memory_equipped [])
    (withBlock_closed (memory_good fun _ _ => rfl) []) (by decide) (by decide) (by decide)
    (by decide +kernel) (by decide) (by decide) (.query _)

/-- The greatest SmallInteger cannot be the last one. The number after it is a float, which
compares as equal to it and stays the same when one is added, so the block is called again for
as long as rounds are left. -/
theorem toDo_passes_greatest :
    ((Query.send (.int SmallInteger.greatest) (.str "to:do:")
      [.int SmallInteger.greatest, .closure 0]).call? { rounds := 4 } (withBlock memory [])).map
        (fun c => (c.invocations { rounds := 4 } 0).map
          fun call => call.task.arguments.map Value.kernelClass?)
      = some [[some "SmallInteger"], [some "Float"], [some "Float"], [some "Float"]] := by
  decide +kernel

end Kernel

end Smalltalk
