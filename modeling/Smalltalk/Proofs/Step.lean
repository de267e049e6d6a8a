import Smalltalk.Proofs.Action

/-!
# `Smalltalk.Proofs.Step`: every task keeps the invariant

`Regime.Requires` says what a task needs of the memory it starts in: its code
and its values are admitted, its closure is there, and the frame that it runs
in or is asked from is settled. `Regime.Honours opened rec` says that `rec`
does every such task so that the invariant is kept and the answer is admitted.

`Regime.Honours.step` is the step: if the inner tasks are done so, then so is
the task itself. The list `opened` is the same for all inner tasks but those of
an activation, which run with its own frame in front. When the activation ends,
the frame is retired and leaves the list, and an unwinding to it becomes a
value (`Kept.closing`). `Regime.Honours.run` adds the induction on the depth.
-/

set_option autoImplicit false

namespace Smalltalk

variable {R : Regime} {opened : List FrameId} {m : Memory}

/-- What a task needs of the memory it starts in. -/
def Regime.Requires (R : Regime) (opened : List FrameId) (m : Memory) : Task → Prop
  | .evaluate node frame => R.node node = true ∧ Heap.Settled opened m.heap frame
  | .activate method receiver args callers =>
    R.method method = true ∧ R.Holds m receiver ∧ (∀ v ∈ args, R.Holds m v) ∧
      ∀ f ∈ callers.head?, Heap.Settled opened m.heap f
  | .invoke closure args caller =>
    closure < m.heap.closures.size ∧ (∀ v ∈ args, R.Holds m v) ∧
      Heap.Settled opened m.heap caller

/-- Every task that gets what it needs keeps the invariant and has an admitted
answer. -/
def Regime.Honours (R : Regime) (opened : List FrameId) (rec : Task → Eval Value) : Prop :=
  ∀ task m, m.Good R opened → R.Requires opened m task →
    Eval.Keeps R opened (rec task) m fun v m' => R.Holds m' v

/-! ### Decisions -/

/-- What a method has to be. -/
theorem Regime.method_eq_true_iff {method : Method} : R.method method = true ↔
    R.name method.selector = true ∧ method.params.all R.name = true ∧
      method.temps.all R.name = true ∧ R.nodes method.statements = true ∧
        R.number method.primitive = true := by
  unfold Regime.method Method.toNode Regime.node
  simp only [Bool.and_eq_true, and_assoc]

namespace Eval

/-- The arguments of a frame are stored in it. -/
theorem holds_argumentsOf (g : m.Good R opened) (f : FrameId) (method : Method) :
    ∀ v ∈ argumentsOf m f method, R.Holds m v := by
  intro v hv
  obtain ⟨name, -, rfl⟩ := List.mem_map.mp hv
  split
  · rename_i key _
    cases hfound : (m.heap.frame f).slots.find? key with
    | none => exact Regime.holds_nil
    | some w => exact g.stored w (.of_frame (.inr ⟨key, hfound⟩))
  · exact Regime.holds_nil

/-- Only the tag may keep a primitive from deciding. -/
theorem fails_of_decide {settings : Settings} {receiver : Value} {args : List Value}
    {number : Json} {f : Fault} (hnumber : R.number number = true)
    (h : Eval.decide settings m receiver args number = .error f) : R.Fails f := by
  unfold Eval.decide at h
  cases hkey : Fault.keyOf number with
  | error f' =>
      rw [hkey] at h
      exact Except.error.inj h ▸ Regime.fails_of_keyOf_number hnumber hkey
  | ok key =>
      rw [hkey] at h
      simp only [bind, Except.bind] at h
      split at h <;> cases h

theorem admits_of_decide {settings : Settings} (g : m.Good R opened) (suits : R.Suits settings)
    {receiver : Value} {args : List Value} {number : Json} {action : Action}
    (hreceiver : R.Holds m receiver) (hargs : ∀ v ∈ args, R.Holds m v)
    (h : Eval.decide settings m receiver args number = .ok (.ok action)) :
    R.Admits m action := by
  unfold Eval.decide at h
  obtain ⟨key, -, h⟩ := Primitive.of_bind h
  split at h
  · exact Primitive.attempt_admits g.toWellFormed.stocked suits hreceiver hargs (Except.ok.inj h)
  · cases h

/-! ### Making and changing -/

theorem Keeps.makeArray (g : m.Good R opened) {xs : Array Value}
    (hxs : ∀ v ∈ xs, R.Holds m v) :
    Keeps R opened (Eval.make fun h => h.newArray xs) m fun a m' => R.Holds m' (.array a) := by
  refine Keeps.make (.newArray m.heap xs) (g.newArray hxs) ⟨rfl, ?_⟩
  show m.heap.arrays.size < (m.heap.newArray xs).1.arrays.size
  rw [Heap.size_newArray]
  exact Nat.lt_succ_self _

theorem Keeps.makeObject (g : m.Good R opened) {x : Instance}
    (hx : ∀ v, x.Has v → R.Holds m v) (hcls : x.cls < m.registry.classes.size) :
    Keeps R opened (Eval.make fun h => h.newObject x) m fun o m' => R.Holds m' (.object o) := by
  refine Keeps.make (.newObject m.heap x) (g.newObject hx hcls) ⟨rfl, ?_⟩
  show m.heap.objects.size < (m.heap.newObject x).1.objects.size
  rw [Heap.size_newObject]
  exact Nat.lt_succ_self _

theorem Keeps.makeClosure (g : m.Good R opened) {x : Closure} (hx : R.closure x = true)
    (hframe : Heap.Settled opened m.heap x.frame) :
    Keeps R opened (Eval.make fun h => h.newClosure x) m
      fun c m' => R.Holds m' (.closure c) := by
  refine Keeps.make (.newClosure m.heap x) (g.newClosure hx hframe) ⟨rfl, ?_⟩
  show m.heap.closures.size < (m.heap.newClosure x).1.closures.size
  rw [Heap.size_newClosure]
  exact Nat.lt_succ_self _

/-- A frame that continues a settled one is settled: the two have one home. -/
theorem Keeps.makeContinuing (g : m.Good R opened) {d : FrameId}
    (hd : Heap.Settled opened m.heap d) {x : Frame}
    (hreceiver : x.receiver = (m.heap.frame d).receiver)
    (hmethod : x.method = (m.heap.frame d).method)
    (houter : x.outer = d :: (m.heap.frame d).outer) (hslots : x.slots = {}) :
    Keeps R opened (Eval.make fun h => h.newFrame x) m
      fun f m' => Heap.Settled opened m'.heap f := by
  have hnew : (m.heap.newFrame x).1.frame m.heap.frames.size = x := by
    rw [Heap.frame_newFrame, if_pos rfl]
  have hold : ∀ f < m.heap.frames.size, (m.heap.newFrame x).1.frame f = m.heap.frame f := by
    intro f hf
    rw [Heap.frame_newFrame, if_neg (Nat.ne_of_lt hf)]
  -- an unwinding from the new frame goes where one from `d` does
  have hhome : (m.heap.newFrame x).1.home m.heap.frames.size = m.heap.home d := by
    unfold Heap.home
    rw [hnew, houter, List.getLastD_cons]
  have hlt : m.heap.home d < m.heap.frames.size :=
    Nat.lt_of_le_of_lt (Heap.home_le g.nested _ hd.1) hd.1
  have hstored : ∀ v, x.Has v → R.Holds m v := by
    rintro v (rfl | ⟨key, hkey⟩)
    · rw [hreceiver]
      exact g.receiver d
    · rw [hslots] at hkey
      cases hkey
  have hnested : (m.heap.newFrame x).1.Nested m.heap.frames.size := by
    refine .inr ⟨d, hd.1, ?_⟩
    rw [hnew, hold d hd.1]
    exact ⟨houter, hreceiver, hmethod⟩
  have hsettled : Heap.Settled opened (m.heap.newFrame x).1 m.heap.frames.size := by
    unfold Heap.Settled
    rw [hhome, hold _ hlt, Heap.size_newFrame]
    exact ⟨Nat.lt_succ_self _, hd.2⟩
  exact Keeps.make (.newFrame m.heap x) (g.newFrame hstored (hmethod ▸ g.running d hd.1) hnested)
    hsettled

/-- A change that is followed by the answer of a value that was there before. -/
theorem Keeps.answering {act : Eval Unit} {post : Unit → Memory → Prop} {v : Value}
    (hact : Keeps R opened act m post) (hv : R.Holds m v) :
    Keeps R opened (act >>= fun _ => Pure.pure v) m fun v m' => R.Holds m' v :=
  hact.bind fun _ _ l₁ g₁ _ => Keeps.pure g₁ (hv.later l₁)

/-! ### Trees -/

section
variable {rec : Task → Eval Value} (hrec : R.Honours opened rec)
include hrec

theorem Keeps.runBody (g : m.Good R opened) {f : FrameId} {temps : List Json}
    {statements : List Node} (hf : Heap.Settled opened m.heap f)
    (htemps : temps.all R.name = true) (hstatements : R.nodes statements = true) :
    Keeps R opened (Eval.runBody rec f temps statements) m fun v m' => R.Holds m' v := by
  have hdeclare : Keeps R opened (temps.forM fun name => Eval.declare f name .nil) m
      fun _ _ => True :=
    Keeps.forM (P := fun _ => True) g trivial fun name hname m' l g' _ =>
      (Keeps.declare g' (List.all_eq_true.mp htemps name hname) Regime.holds_nil).weaken
        fun _ _ _ _ _ => trivial
  refine hdeclare.bind ?_
  intro _ m₁ l₁ g₁ _
  refine Keeps.foldlM (P := fun v m' => R.Holds m' v) g₁ Regime.holds_nil ?_
  intro n hn _ m' l' g' _
  refine hrec _ m' g' ⟨?_, hf.later (l₁.trans l').heap g.nested⟩
  exact (R.nodes_eq_true_iff statements).mp hstatements n hn

/-- Trees one by one; what the first ones answered stays admitted. -/
theorem Keeps.evaluateAll (g : m.Good R opened) {f : FrameId} {nodes : List Node}
    (hf : Heap.Settled opened m.heap f) (hnodes : R.nodes nodes = true) :
    Keeps R opened (nodes.mapM fun n => rec (.evaluate n f)) m
      fun vs m' => ∀ v ∈ vs, R.Holds m' v := by
  refine Keeps.mapM (P := fun v m' => R.Holds m' v) (fun v _ _ l hv => hv.later l) g ?_
  intro n hn m' l' g'
  exact hrec _ m' g' ⟨(R.nodes_eq_true_iff nodes).mp hnodes n hn, hf.later l'.heap g.nested⟩

theorem Keeps.sendMessage (g : m.Good R opened) {f : FrameId} {receiver : Node}
    {selector : Json} {args : List Node} (hf : Heap.Settled opened m.heap f)
    (hreceiver : R.node receiver = true) (hselector : R.name selector = true)
    (hargs : R.nodes args = true) :
    Keeps R opened (Eval.sendMessage rec f receiver selector args) m fun v m' => R.Holds m' v := by
  refine Keeps.bind (hrec (.evaluate receiver f) m g ⟨hreceiver, hf⟩) ?_
  intro v m₁ l₁ g₁ hv
  have hf₁ := hf.later l₁.heap g.nested
  refine Keeps.bind (Keeps.evaluateAll hrec g₁ hf₁ hargs) ?_
  intro vs m₂ l₂ g₂ hvs
  have hf₂ := hf₁.later l₂.heap g₁.nested
  -- looking the method up changes nothing, but the answers so far have to be carried on
  refine Keeps.bind (Keeps.startOf g₂ hf₂.1 (hv.later l₂) _) ?_
  intro start m₃ l₃ g₃ _
  refine Keeps.bind (Keeps.methodFrom g₃ hselector start) ?_
  intro found m₄ l₄ g₄ hfound
  have l₂₄ := l₃.trans l₄
  have hv₄ := hv.later (l₂.trans l₂₄)
  cases found with
  | none => exact Keeps.notUnderstood g₄ hv₄ hselector
  | some method =>
      refine Keeps.note g₄ (Keeps.ask (hrec _ m₄ g₄ ⟨hfound method rfl, hv₄, ?_, ?_⟩))
      · exact fun w hw => (hvs w hw).later l₂₄
      · intro f' hf'
        obtain rfl := Option.some.inj hf'
        exact hf₂.later l₂₄.heap g₂.nested

/-- One case for each sort of tree. -/
theorem Keeps.evaluateNode (g : m.Good R opened) {f : FrameId}
    (hf : Heap.Settled opened m.heap f) {node : Node} (hnode : R.node node = true) :
    Keeps R opened (Eval.evaluateNode rec f node) m fun v m' => R.Holds m' v := by
  cases node with
  | self => exact Keeps.ask (Keeps.pure g (g.receiver f))
  | super => exact Keeps.ask (Keeps.pure g (g.receiver f))
  | reference name kind index =>
      obtain ⟨hname, hindex⟩ := Bool.and_eq_true_iff.mp hnode
      exact Keeps.readVariable g hname hindex
  | literal value =>
      refine Keeps.pure g ?_
      cases value with
      | int i => exact Regime.holds_int hnode
      | _ => exact ⟨rfl, trivial⟩
  | symbol name => exact Keeps.pure g (Regime.holds_symbol name)
  | literalArray elements =>
      refine Keeps.bind (Keeps.evaluateAll hrec g hf hnode) ?_
      intro vs m₁ l₁ g₁ hvs
      have hvs' : ∀ v ∈ vs.toArray, R.Holds m₁ v := fun v hv => hvs v (List.mem_toArray.mp hv)
      exact Keeps.bind (Keeps.makeArray g₁ hvs') fun _ _ _ g₂ ha => Keeps.pure g₂ ha
  | sequence temps statements =>
      obtain ⟨htemps, hstatements⟩ := Bool.and_eq_true_iff.mp hnode
      exact Keeps.runBody hrec g hf htemps hstatements
  | block params temps statements =>
      exact Keeps.bind (Keeps.makeClosure g hnode hf) fun _ _ _ g₁ hc => Keeps.pure g₁ hc
  | send receiver selector args =>
      obtain ⟨hfront, hargs⟩ := Bool.and_eq_true_iff.mp hnode
      obtain ⟨hreceiver, hselector⟩ := Bool.and_eq_true_iff.mp hfront
      exact Keeps.sendMessage hrec g hf hreceiver hselector hargs
  | assign name kind index value =>
      obtain ⟨hfront, hvalue⟩ := Bool.and_eq_true_iff.mp hnode
      obtain ⟨hname, hindex⟩ := Bool.and_eq_true_iff.mp hfront
      refine Keeps.bind (hrec (.evaluate value f) m g ⟨hvalue, hf⟩) ?_
      intro v m₁ _ g₁ hv
      exact Keeps.answering (Keeps.writeVariable g₁ hname hindex hv) hv
  | answer value =>
      refine Keeps.bind (hrec (.evaluate value f) m g ⟨hnode, hf⟩) ?_
      intro v m₁ l₁ g₁ hv
      exact Keeps.returnFrom g₁ (hf.later l₁.heap g.nested) hv
  | method selector params temps statements primitive =>
      exact Keeps.fail g (Regime.fails_of rfl)

/-! ### Primitives -/

/-- The loop is an induction on the rounds it may take. -/
theorem Keeps.alternate (g : m.Good R opened) {f : FrameId} {condition body : ClosureId}
    (hf : Heap.Settled opened m.heap f) (hcondition : condition < m.heap.closures.size)
    (hbody : body < m.heap.closures.size) (goOn : Bool) (rounds : Nat) :
    Keeps R opened
      (Eval.alternate (rec (.invoke condition [] f)) (rec (.invoke body [] f)) goOn rounds) m
      fun v m' => R.Holds m' v := by
  have hnone : ∀ m' : Memory, ∀ v ∈ ([] : List Value), R.Holds m' v :=
    fun _ _ h => absurd h List.not_mem_nil
  induction rounds generalizing m with
  | zero => exact Keeps.stop g trivial
  | succ rounds ih =>
      refine Keeps.bind (hrec (.invoke condition [] f) m g ⟨hcondition, hnone m, hf⟩) ?_
      intro v m₁ l₁ g₁ _
      have hf₁ := hf.later l₁.heap g.nested
      have hcondition₁ := Nat.lt_of_lt_of_le hcondition l₁.heap.closures
      have hbody₁ := Nat.lt_of_lt_of_le hbody l₁.heap.closures
      cases v with
      | bool b =>
          -- another round starts from the memory that the body has left
          show Keeps R opened (if b = goOn then _ else _) m₁ _
          split
          · refine Keeps.bind (hrec (.invoke body [] f) m₁ g₁ ⟨hbody₁, hnone m₁, hf₁⟩) ?_
            intro _ m₂ l₂ g₂ _
            exact ih g₂ (hf₁.later l₂.heap g₁.nested)
              (Nat.lt_of_lt_of_le hcondition₁ l₂.heap.closures)
              (Nat.lt_of_lt_of_le hbody₁ l₂.heap.closures)
          · exact Keeps.pure g₁ Regime.holds_nil
      | _ => exact Keeps.ask (Keeps.fail g₁ (Regime.fails_of rfl))

/-- One case for each action. -/
theorem Keeps.perform {settings : Settings} (suits : R.Suits settings) (g : m.Good R opened)
    {f : FrameId} (hf : Heap.Settled opened m.heap f) {action : Action}
    (haction : R.Admits m action) :
    Keeps R opened (Eval.perform settings rec f action) m fun v m' => R.Holds m' v := by
  cases action with
  | answer v => exact Keeps.pure g haction
  | tally n =>
      show Keeps R opened (if n ≤ settings.room then _ else _) m _
      split
      · rename_i hn
        exact Keeps.pure g (Regime.holds_int (suits.count n hn))
      · exact Keeps.stop g trivial
  | newText s => exact Keeps.makeText g s
  | newArray xs =>
      exact Keeps.bind (Keeps.makeArray g haction) fun _ _ _ g₁ ha => Keeps.pure g₁ ha
  | newObject cls size =>
      refine Keeps.get (Keeps.bind (Keeps.makeObject g ?_ haction)
        fun _ _ _ g₁ ho => Keeps.pure g₁ ho)
      -- a new object has nil everywhere
      rintro v (hv | ⟨xs, hxs, hv⟩)
      · rw [(Array.mem_replicate.mp hv).2]
        exact Regime.holds_nil
      · dsimp only at hxs
        split at hxs
        · obtain rfl := Option.some.inj hxs
          rw [(Array.mem_replicate.mp hv).2]
          exact Regime.holds_nil
        · cases hxs
  | setElement a i v =>
      have hchange : Keeps R opened (Eval.changeHeap fun h => h.setElement a i v) m
          fun _ _ => True :=
        Keeps.changeHeap (.setElement m.heap a i v) (g.setElement a i haction) trivial
      exact Keeps.answering hchange haction
  | setIndexed o i v =>
      have hchange : Keeps R opened (Eval.changeHeap fun h => h.setIndexed o i v) m
          fun _ _ => True :=
        Keeps.changeHeap (.setIndexed m.heap o i v) (g.setIndexed o i haction) trivial
      exact Keeps.answering hchange haction
  | setSlot o i v =>
      have hchange : Keeps R opened (Eval.changeHeap fun h => h.setSlot o i v) m
          fun _ _ => True :=
        Keeps.changeHeap (.setSlot m.heap o i v) (g.setSlot o i haction) trivial
      exact Keeps.answering hchange haction
  | call c args => exact hrec _ m g ⟨haction.1, haction.2, hf⟩
  | loop condition body goOn => exact Keeps.alternate hrec g hf haction.1 haction.2 goOn _
  | print v =>
      refine Keeps.bind (Keeps.printed g v) fun s m₁ _ g₁ _ => Keeps.ask ?_
      cases m₁.printOrigin v with
      | made n => exact Keeps.makeText g₁ s
      | word => exact Keeps.pure g₁ (Regime.holds_text _ _)
      | nameOf b => exact Keeps.pure g₁ (Regime.holds_text _ _)
  | signal v =>
      have hsignalled : ∀ s, R.Fails (.signalled s) := fun s =>
        Regime.fails_of rfl
      simp only [Eval.perform]
      split
      · exact Keeps.fail g (hsignalled _)
      · exact Keeps.bind (Keeps.printed g v) fun s m₁ _ g₁ _ => Keeps.fail g₁ (hsignalled s)
  | refuse fault => exact Keeps.fail g haction

theorem Keeps.runMethodBody (g : m.Good R opened) {f : FrameId} {method : Method}
    {receiver : Value} (hf : Heap.Settled opened m.heap f) (hmethod : R.method method = true)
    (hreceiver : R.Holds m receiver) :
    Keeps R opened (Eval.runMethodBody rec f method receiver) m fun v m' => R.Holds m' v := by
  obtain ⟨-, -, htemps, hstatements, -⟩ := R.method_eq_true_iff.mp hmethod
  exact Keeps.bind (Keeps.runBody hrec g hf htemps hstatements) fun _ m₁ l₁ g₁ _ =>
    Keeps.pure g₁ (hreceiver.later l₁)

/-- A primitive that fails leaves the memory as it is, so the body can run. -/
theorem Keeps.runMethod {settings : Settings} (suits : R.Suits settings) (g : m.Good R opened)
    {f : FrameId} {method : Method} {receiver : Value} (hf : Heap.Settled opened m.heap f)
    (hmethod : R.method method = true) (hreceiver : R.Holds m receiver) :
    Keeps R opened (Eval.runMethod settings rec f method receiver) m
      fun v m' => R.Holds m' v := by
  have hbody := Keeps.runMethodBody hrec g hf hmethod hreceiver
  obtain ⟨-, -, -, -, hnumber⟩ := R.method_eq_true_iff.mp hmethod
  unfold Eval.runMethod
  split
  · refine Keeps.get ?_
    cases hdecide : Eval.decide settings m receiver (argumentsOf m f method) method.primitive with
    | error fault => exact Keeps.fail g (fails_of_decide hnumber hdecide)
    | ok choice =>
        cases choice with
        | ok action =>
            refine Keeps.perform hrec suits g hf ?_
            exact admits_of_decide g suits hreceiver (holds_argumentsOf g f method) hdecide
        | error reason => exact Keeps.note g hbody
  · exact hbody

/-- A block runs in a frame that continues the one the closure was made in. -/
theorem Keeps.invoke (g : m.Good R opened) {c : ClosureId} {args : List Value}
    {caller : FrameId} (hc : c < m.heap.closures.size) (hargs : ∀ v ∈ args, R.Holds m v) :
    Keeps R opened (Eval.invoke rec c args caller) m fun v m' => R.Holds m' v := by
  obtain ⟨-, hcode⟩ := g.closure c hc
  have hsettled := g.settled c hc
  obtain ⟨hfront, hstatements⟩ := Bool.and_eq_true_iff.mp hcode
  obtain ⟨hparams, htemps⟩ := Bool.and_eq_true_iff.mp hfront
  refine Keeps.ask ?_
  show Keeps R opened (if args.length ≠ (m.heap.closure c).arity then _ else _) m _
  split
  · exact Keeps.fail g (Regime.fails_of rfl)
  refine Keeps.ask (Keeps.ask (Keeps.bind (Keeps.makeContinuing g hsettled rfl rfl rfl rfl) ?_))
  intro f m₁ l₁ g₁ hf
  have hargs₁ : ∀ v ∈ args, R.Holds m₁ v := fun v hv => (hargs v hv).later l₁
  refine Keeps.bind (Keeps.declareAll g₁ hparams hargs₁) ?_
  intro _ m₂ l₂ g₂ _
  exact Keeps.runBody hrec g₂ (hf.later l₂.heap g₁.nested) htemps hstatements

end

/-! ### Activations -/

/-- When an activation ends, its frame leaves the list, and an unwinding to it has
become a value. -/
theorem Kept.closing {f : FrameId} {act : Eval Value} (hf : f ∉ opened)
    (h : Keeps R (f :: opened) act m fun v m' => R.Holds m' v) :
    Keeps R opened (Eval.closing f act) m fun v m' => R.Holds m' v := by
  unfold Keeps at h ⊢
  unfold Eval.closing
  cases hact : act m with
  | ok v m₁ =>
      rw [hact] at h
      obtain ⟨l₁, g₁, hv⟩ := h
      have l₂ := Memory.Later.of_heap (Heap.Later.retire m₁.heap f)
      exact ⟨l₁.trans l₂, g₁.retire hf, hv.later l₂⟩
  | error stop m₁ =>
      rw [hact] at h
      obtain ⟨l₁, g₁, hstop⟩ := h
      have l₂ := Memory.Later.of_heap (Heap.Later.retire m₁.heap f)
      cases stop with
      | unwind v home =>
          obtain ⟨hhome, hv⟩ := hstop
          show Kept R opened m _ (if home = f then _ else _)
          split
          · exact ⟨l₁.trans l₂, g₁.retire hf, hv.later l₂⟩
          · -- an unwinding that goes on is to one of the other frames
            rename_i hne
            refine ⟨l₁.trans l₂, g₁.retire hf, ?_, hv.later l₂⟩
            exact (List.mem_cons.mp hhome).resolve_left hne
      | fault fault => exact ⟨l₁.trans l₂, g₁.retire hf, hstop⟩
      | tooDeep => exact ⟨l₁.trans l₂, g₁.retire hf, trivial⟩
      | unfinished => exact ⟨l₁.trans l₂, g₁.retire hf, trivial⟩

/-- A frame without outer frames has the next number. -/
theorem Keeps.makeHome (g : m.Good R opened) {x : Frame} (hreceiver : R.Holds m x.receiver)
    (hslots : x.slots = {}) (hmethod : ∃ method, x.method = some method ∧ R.method method = true)
    (houter : x.outer = []) :
    Keeps R opened (Eval.make fun h => h.newFrame x) m fun f m' =>
      f = m.heap.frames.size ∧ f < m'.heap.frames.size ∧ m'.heap.frame f = x := by
  refine Keeps.make (.newFrame m.heap x) (g.newFrame ?_ hmethod (.inl ?_)) ?_
  · rintro v (rfl | ⟨key, hkey⟩)
    · exact hreceiver
    · rw [hslots] at hkey
      cases hkey
  · rw [Heap.frame_newFrame, if_pos rfl, houter]
  · rw [Heap.id_newFrame, Heap.frame_newFrame, if_pos rfl, Heap.size_newFrame]
    exact ⟨rfl, Nat.lt_succ_self _, rfl⟩

/-- An active frame without outer frames joins those in progress. -/
theorem settled_begin (g : m.Good R opened) {f : FrameId} (hf : f < m.heap.frames.size)
    (hactive : (m.heap.frame f).active = true) (houter : (m.heap.frame f).outer = []) :
    m.Good R (f :: opened) ∧ Heap.Settled (f :: opened) m.heap f := by
  refine ⟨g.begin hf hactive houter, hf, .inl ?_⟩
  rw [Heap.home_of_outer_nil houter]
  exact List.mem_cons_self

/-- The frame of an activation has the next number and joins those in progress. -/
theorem Keeps.enter (g : m.Good R opened) {method : Method} {receiver : Value}
    {args : List Value} {callers : List FrameId} (hmethod : R.method method = true)
    (hreceiver : R.Holds m receiver) (hargs : ∀ v ∈ args, R.Holds m v) :
    Keeps R opened (Eval.enter method receiver args callers) m fun f m' =>
      f = m.heap.frames.size ∧ m'.Good R (f :: opened) ∧
        Heap.Settled (f :: opened) m'.heap f := by
  obtain ⟨-, hparams, -⟩ := R.method_eq_true_iff.mp hmethod
  refine Keeps.bind (Keeps.makeHome g hreceiver rfl ⟨method, rfl, hmethod⟩ rfl) ?_
  intro f m₁ l₁ g₁ hf
  obtain ⟨hnext, hlt, hframe⟩ := hf
  have hargs₁ : ∀ v ∈ args, R.Holds m₁ v := fun v hv => (hargs v hv).later l₁
  refine Keeps.bind (Keeps.declareAll g₁ hparams hargs₁) ?_
  intro _ m₂ l₂ g₂ hsame
  refine Keeps.pure g₂ ⟨hnext, settled_begin g₂ (Nat.lt_of_lt_of_le hlt l₂.heap.frames) ?_ ?_⟩
  · rw [hsame, hframe]
  · rw [(l₂.heap.frame f hlt).outer, hframe]

/-- The inner tasks of an activation run with its frame in front. -/
theorem Keeps.activate {settings : Settings} {rec : Task → Eval Value}
    (suits : R.Suits settings) (hrec : R.Honours (m.heap.frames.size :: opened) rec)
    (g : m.Good R opened) {method : Method} {receiver : Value} {args : List Value}
    {callers : List FrameId} (hmethod : R.method method = true) (hreceiver : R.Holds m receiver)
    (hargs : ∀ v ∈ args, R.Holds m v) :
    Keeps R opened (Eval.activate settings rec method receiver args callers) m
      fun v m' => R.Holds m' v := by
  obtain ⟨hselector, -⟩ := R.method_eq_true_iff.mp hmethod
  unfold Eval.activate
  split
  · refine Keeps.get (Keeps.bind (Q := fun _ _ => True) ?_ fun word m₁ _ g₁ _ => ?_)
    · exact Keeps.ofExcept g (fun _ _ => trivial) fun _ => Regime.fails_of_methodWord hselector
    · exact Keeps.fail g₁ (Regime.fails_of rfl)
  refine Keeps.bind (Keeps.enter g hmethod hreceiver hargs) ?_
  intro f m₁ l₁ g₁ hf
  obtain ⟨rfl, hbegun, hsettled⟩ := hf
  -- the frames in progress are all older, so retiring this one leaves them active
  have hfresh : m.heap.frames.size ∉ opened := fun h => Nat.lt_irrefl _ (g.active _ h).1
  exact Kept.closing hfresh
    (Keeps.runMethod hrec suits hbegun hsettled hmethod (hreceiver.later l₁))

/-! ### The step and the run -/

end Eval

open Eval in
/-- If the inner tasks are done as required, so is the task. -/
theorem Regime.Honours.step {settings : Settings} {rec : Task → Eval Value}
    (suits : R.Suits settings) (hrec : ∀ opened, R.Honours opened rec)
    (opened : List FrameId) : R.Honours opened (Eval.step settings rec) := by
  intro task m g hrequires
  cases task with
  | evaluate node frame =>
      exact Keeps.evaluateNode (hrec opened) g hrequires.2 hrequires.1
  | activate method receiver args callers =>
      obtain ⟨hmethod, hreceiver, hargs, -⟩ := hrequires
      exact Keeps.activate suits (hrec _) g hmethod hreceiver hargs
  | invoke closure args caller =>
      obtain ⟨hclosure, hargs, -⟩ := hrequires
      exact Keeps.invoke (hrec opened) g hclosure hargs

/-- Every task that gets what it needs keeps the invariant, however deep tasks may
nest. -/
theorem Regime.Honours.run {settings : Settings} (suits : R.Suits settings) (depth : Nat)
    (opened : List FrameId) : R.Honours opened (Eval.run settings depth) := by
  induction depth generalizing opened with
  | zero => exact fun task m g _ => Eval.Keeps.stop g trivial
  | succ depth ih => exact Regime.Honours.step suits ih opened

end Smalltalk
