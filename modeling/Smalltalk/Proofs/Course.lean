import Smalltalk.Proofs.Upholds

/-!
# `Smalltalk.Proofs.Course`: every task keeps to the charter

`Charter.Requires` says what a task needs of the memory it starts in: the code is allowed
for the frame it runs in, the method may be activated on its receiver, the closure is
there, and all values are allowed. `Charter.Honours rec` says that `rec` does every such
task so that the charter is kept and the answer is allowed. A send to super looks a method
up for the receiver of its frame, so what `super` answers counts, too
(`Charter.Answers`).

`Honours.step` is the step, with one lemma for each function of the evaluator before it,
and `Honours.run` the induction on the depth.
-/

set_option autoImplicit false

namespace Smalltalk

variable {K : Charter} {settings : Settings} {m m' : Memory}

/-! ### Tasks -/

/-- A tree may be evaluated in a frame. -/
def Charter.Fits (K : Charter) (m : Memory) (f : FrameId) (node : Node) : Prop :=
  f < m.heap.frames.size ∧ K.code m.registry (m.heap.frame f).method node

/-- What a task needs of the memory it starts in. -/
def Charter.Requires (K : Charter) (m : Memory) : Task → Prop
  | .evaluate node frame => K.Fits m frame node
  | .activate method receiver args _ =>
    K.Holds m receiver ∧ (∀ v ∈ args, K.Holds m v) ∧ K.Enters m receiver method
  | .invoke closure args _ => closure < m.heap.closures.size ∧ ∀ v ∈ args, K.Holds m v

/-- How a task may answer: `super` is the receiver of the frame. -/
def Charter.Answers (K : Charter) (m : Memory) (task : Task) (v : Value) (m' : Memory) : Prop :=
  K.Holds m' v ∧ ∀ f, task = .evaluate .super f → v = (m.heap.frame f).receiver

/-- Every task that gets what it needs keeps to the charter. -/
def Charter.Honours (K : Charter) (settings : Settings) (rec : Task → Eval Value) : Prop :=
  ∀ task m, m.Runs K settings → K.Requires m task →
    Eval.Upholds K settings (rec task) m (K.Answers m task)

namespace Charter

/-- A frame keeps its method, and the classes are the same. -/
theorem Fits.later {f : FrameId} {node : Node} (h : K.Fits m f node) (l : m.Later m') :
    K.Fits m' f node := by
  obtain ⟨hf, hcode⟩ := h
  refine ⟨Nat.lt_of_lt_of_le hf l.heap.frames, ?_⟩
  rw [l.registry, (l.heap.frame f hf).method]
  exact hcode

theorem Fits.part (g : m.Runs K settings) {f : FrameId} {node part : Node} (h : K.Fits m f node)
    (hpart : part ∈ node.parts) : K.Fits m f part :=
  ⟨h.1, g.lawful.part _ _ node h.2 part hpart⟩

theorem Enters.later (g : m.Runs K settings) {v : Value} {method : Method}
    (h : K.Enters m v method) (hv : m.Knows v) (l : m.Later m') : K.Enters m' v method :=
  h.continues g.lawful g.toAbides hv l.continues (l.registry ▸ g.classes)

/-! ### What primitives decide on -/

open Classical in
/-- The integers of a charter, and any code and values. -/
noncomputable def regime (K : Charter) : Regime := ⟨fun i => decide (K.int i), true, false⟩

theorem regime_int {i : Int} : K.regime.int i = true ↔ K.int i := by
  classical
  exact decide_eq_true_iff

theorem regime_holds {v : Value} : K.regime.Holds m v ↔ K.Holds m v := by
  cases v with
  | int i =>
      constructor
      · rintro ⟨hint, hknows⟩
        refine ⟨hknows, ?_⟩
        rintro _ ⟨⟩
        exact regime_int.mp hint
      · exact fun h => ⟨regime_int.mpr (h.2 i rfl), h.1⟩
  | _ => exact ⟨fun h => ⟨h.2, fun _ h' => nomatch h'⟩, fun h => ⟨rfl, h.1⟩⟩

end Charter

theorem Memory.Runs.suits (g : m.Runs K settings) : K.regime.Suits settings where
  small i hi := Charter.regime_int.mpr (g.lawful.small i hi)
  count n hn := Charter.regime_int.mpr (g.serves.count n hn)
  double h := nomatch h

theorem Memory.Abides.stocked (a : m.Abides K) : m.Stocked K.regime where
  stored v hv := Charter.regime_holds.mpr (a.stored v hv)
  registered := a.ordered.registered
  object o ho := (a.object o ho).cls
  classless _ _ _ := rfl

/-- An action that a primitive may decide on. -/
structure Charter.Admits (K : Charter) (m : Memory) (action : Action) : Prop where
  regime : K.regime.Admits m action
  refuse : ∀ f, action = .refuse f → K.Fails f

theorem Regime.admits_later {R : Regime} {action : Action} (h : R.Admits m action)
    (l : m.Later m') : R.Admits m' action := by
  cases action with
  | answer v => exact Regime.Holds.later h l
  | setElement a i v => exact Regime.Holds.later h l
  | setIndexed o i v => exact Regime.Holds.later h l
  | setSlot o i v => exact Regime.Holds.later h l
  | newArray xs => exact fun v hv => (h v hv).later l
  | newObject cls size =>
      show cls < m'.registry.classes.size
      rw [l.registry]
      exact h
  | call c args => exact ⟨Nat.lt_of_lt_of_le h.1 l.heap.closures, fun v hv => (h.2 v hv).later l⟩
  | loop condition body goOn =>
      exact ⟨Nat.lt_of_lt_of_le h.1 l.heap.closures, Nat.lt_of_lt_of_le h.2 l.heap.closures⟩
  | refuse f => exact h
  | _ => trivial

theorem Charter.Admits.later {action : Action} (h : K.Admits m action) (l : m.Later m') :
    K.Admits m' action :=
  ⟨Regime.admits_later h.regime l, h.refuse⟩

namespace Eval

theorem admits_of_attempt (g : m.Runs K settings) {receiver : Value} {args : List Value}
    (hreceiver : K.Holds m receiver) (hargs : ∀ v ∈ args, K.Holds m v) {p : Primitive}
    {action : Action} (h : p.attempt m receiver args = .ok action) : K.Admits m action := by
  constructor
  · exact Primitive.attempt_admits g.toAbides.stocked g.suits (Charter.regime_holds.mpr hreceiver)
      (fun v hv => Charter.regime_holds.mpr (hargs v hv)) h
  · rintro f rfl
    rcases Primitive.of_attempt_refuse h with ⟨shown, rfl⟩ | ⟨i, rfl⟩ <;>
      exact Charter.fails rfl

theorem Upholds.decide {β : Type} (g : m.Runs K settings) {receiver : Value} {args : List Value}
    {number : Json} {k : Except Reason Action → Eval β} {post : β → Memory → Prop}
    (hreceiver : K.Holds m receiver) (hargs : ∀ v ∈ args, K.Holds m v)
    (hok : ∀ action, K.Admits m action → Upholds K settings (k (.ok action)) m post)
    (herror : ∀ reason, Upholds K settings (k (.error reason)) m post) :
    Upholds K settings (Eval.ofExcept (Eval.decide settings m receiver args number) >>= k) m
      post := by
  refine Upholds.ofExcept g
    (fun f hf => Charter.fails_of_isMisuse (Fault.isMisuse_of_decide hf)) ?_
  intro choice hchoice
  cases choice with
  | ok action =>
      obtain ⟨p, hp⟩ := Primitive.of_decide hchoice
      exact hok action (admits_of_attempt g hreceiver hargs hp)
  | error reason => exact herror reason

/-! ### Making -/

namespace Upholds

theorem makeArray (g : m.Runs K settings) {xs : Array Value} (hxs : ∀ v ∈ xs, K.Holds m v) :
    Upholds K settings (Eval.make fun h => h.newArray xs) m
      fun a m' => K.Holds m' (.array a) := by
  refine make g (.newArray m.heap xs) (g.toAbides.newArray g.lawful hxs) (Charter.holds_array ?_)
  show m.heap.arrays.size < (m.heap.newArray xs).1.arrays.size
  rw [Heap.size_newArray]
  exact Nat.lt_succ_self _

theorem makeObject (g : m.Runs K settings) {x : Instance} (hx : ∀ v, x.Has v → K.Holds m v)
    (hshape : m.Shaped x) :
    Upholds K settings (Eval.make fun h => h.newObject x) m
      fun o m' => K.Holds m' (.object o) := by
  refine make g (.newObject m.heap x) (g.toAbides.newObject g.lawful hx hshape)
    (Charter.holds_object ?_)
  show m.heap.objects.size < (m.heap.newObject x).1.objects.size
  rw [Heap.size_newObject]
  exact Nat.lt_succ_self _

theorem makeClosure (g : m.Runs K settings) {x : Closure}
    (hcode : ∀ s ∈ x.statements, K.Fits m x.frame s) (hframe : x.frame < m.heap.frames.size) :
    Upholds K settings (Eval.make fun h => h.newClosure x) m
      fun c m' => K.Holds m' (.closure c) := by
  refine make g (.newClosure m.heap x)
    (g.toAbides.newClosure g.lawful hframe fun s hs => (hcode s hs).2) (Charter.holds_closure ?_)
  show m.heap.closures.size < (m.heap.newClosure x).1.closures.size
  rw [Heap.size_newClosure]
  exact Nat.lt_succ_self _

/-- A new frame has the next number. -/
theorem makeFrame (g : m.Runs K settings) {x : Frame} (hreceiver : K.Holds m x.receiver)
    (hslots : x.slots = {}) (hseat : K.seat m x.receiver x.method) :
    Upholds K settings (Eval.make fun h => h.newFrame x) m fun f m' =>
      f = m.heap.frames.size ∧ f < m'.heap.frames.size ∧ (m'.heap.frame f).method = x.method := by
  refine make g (.newFrame m.heap x) (g.toAbides.newFrame g.lawful ?_ hseat) ⟨rfl, ?_⟩
  · rintro v (rfl | ⟨key, hkey⟩)
    · exact hreceiver
    · rw [hslots] at hkey
      cases hkey
  · rw [Heap.id_newFrame, Heap.frame_newFrame, if_pos rfl, Heap.size_newFrame]
    exact ⟨Nat.lt_succ_self _, rfl⟩

/-- A change that is followed by the answer of a value that was there before. -/
theorem answering {act : Eval Unit} {Q : Unit → Memory → Prop} {v : Value}
    (hact : Upholds K settings act m Q) (hv : K.Holds m v) :
    Upholds K settings (act >>= fun _ => Pure.pure v) m fun v m' => K.Holds m' v :=
  hact.bind fun _ _ l₁ g₁ _ => pure g₁ (hv.later l₁)

/-- A change of the heap that is answered with what it has stored. -/
theorem storing {f : Heap → Heap} {v : Value} (g : m.Runs K settings)
    (l : m.heap.Later (f m.heap)) (a : Memory.Abides K { m with heap := f m.heap })
    (hv : K.Holds m v) :
    Upholds K settings (Eval.changeHeap f >>= fun _ => Pure.pure v) m
      fun v m' => K.Holds m' v := by
  have hchange : Upholds K settings (Eval.changeHeap f) m fun _ _ => True :=
    changeHeap g l a trivial
  exact answering hchange hv

/-! ### Trees -/

section
variable {rec : Task → Eval Value} (hrec : K.Honours settings rec)
include hrec

/-- A task that gets what it needs has an allowed answer. -/
theorem task (g : m.Runs K settings) {t : Task} (h : K.Requires m t) :
    Upholds K settings (rec t) m fun v m' => K.Holds m' v :=
  (hrec t m g h).weaken fun _ _ _ _ h => h.1

theorem runBody (g : m.Runs K settings) {f : FrameId} {temps : List Json}
    {statements : List Node} (hstatements : ∀ s ∈ statements, K.Fits m f s) :
    Upholds K settings (Eval.runBody rec f temps statements) m fun v m' => K.Holds m' v := by
  refine bind (forM g fun name _ m' _ g' => declare g' Charter.holds_nil) ?_
  intro _ m₁ l₁ g₁ _
  refine foldlM (P := fun v m' => K.Holds m' v) g₁ Charter.holds_nil ?_
  intro n hn _ m' l' g'
  exact task hrec g' ((hstatements n hn).later (l₁.trans l'))

theorem evaluateAll (g : m.Runs K settings) {f : FrameId} {nodes : List Node}
    (hnodes : ∀ n ∈ nodes, K.Fits m f n) :
    Upholds K settings (nodes.mapM fun n => rec (.evaluate n f)) m
      fun vs m' => ∀ v ∈ vs, K.Holds m' v := by
  refine mapM (P := fun v m' => K.Holds m' v) (fun v _ _ l hv => hv.later l) g ?_
  intro n hn m' l' g'
  exact task hrec g' ((hnodes n hn).later l')

theorem sendMessage (g : m.Runs K settings) {f : FrameId} {receiver : Node} {selector : Json}
    {args : List Node} (hnode : K.Fits m f (.send receiver selector args)) :
    Upholds K settings (Eval.sendMessage rec f receiver selector args) m
      fun v m' => K.Holds m' v := by
  have hparts : ∀ n ∈ receiver :: args, K.Fits m f n := fun n hn => hnode.part g hn
  refine bind (hrec (.evaluate receiver f) m g (hparts receiver List.mem_cons_self)) ?_
  rintro v m₁ l₁ g₁ ⟨hv, hanswer⟩
  refine bind (evaluateAll hrec g₁ fun n hn => (hparts n (List.mem_cons_of_mem _ hn)).later l₁) ?_
  intro vs m₂ l₂ g₂ hvs
  have l₀₂ := l₁.trans l₂
  -- what `super` has answered is still the receiver of the frame
  have hsuper : receiver.isSuper = true → v = (m₂.heap.frame f).receiver := by
    intro h
    rw [(l₀₂.heap.frame f hnode.1).receiver]
    cases receiver with
    | super => exact hanswer f rfl
    | _ => cases h
  have hv₂ := hv.later l₂
  refine bind (startOf g₂ (Nat.lt_of_lt_of_le hnode.1 l₀₂.heap.frames) hv₂ hsuper) ?_
  rintro start m₃ _ g₃ ⟨rfl, hstart⟩
  refine bind (methodFrom g₃ hstart) ?_
  rintro found m₄ _ g₄ ⟨rfl, hfound⟩
  cases found with
  | none => exact notUnderstood g₄
  | some method =>
      refine bind (note g₄ fun f' hf' => ?_) ?_
      · exact Fault.isMisuse_of_map (fun _ => Fault.isMisuse_of_methodWord) hf'
      · intro _ m₅ l₅ g₅ _
        refine ask (task hrec g₅ ⟨hv₂.later l₅, fun w hw => (hvs w hw).later l₅, ?_⟩)
        exact (hfound method rfl).later g₄ hv₂.1 l₅

/-- One case for each sort of tree. -/
theorem evaluateNode (g : m.Runs K settings) {f : FrameId} {node : Node}
    (hnode : K.Fits m f node) :
    Upholds K settings (Eval.evaluateNode rec f node) m (K.Answers m (.evaluate node f)) := by
  -- only `super` has to answer something in particular
  have hother : ∀ {act : Eval Value}, node ≠ .super →
      Upholds K settings act m (fun v m' => K.Holds m' v) →
        Upholds K settings act m (K.Answers m (.evaluate node f)) := by
    intro act hne hact
    refine hact.weaken fun v m' _ _ hv => ⟨hv, fun f' htask => absurd ?_ hne⟩
    exact (Task.evaluate.inj htask).1
  cases node with
  | super =>
      refine ask (pure g ⟨g.receiver f, ?_⟩)
      intro f' htask
      rw [(Task.evaluate.inj htask).2]
  | self => exact hother (fun h => nomatch h) (ask (pure g (g.receiver f)))
  | reference name kind index =>
      exact hother (fun h => nomatch h) (readVariable g hnode.1 hnode.2)
  | literal value =>
      refine hother (fun h => nomatch h) (pure g ?_)
      cases value with
      | int i => exact Charter.holds_int (g.lawful.literal _ _ i hnode.2)
      | _ => exact ⟨trivial, fun _ h => nomatch h⟩
  | symbol name => exact hother (fun h => nomatch h) (pure g (Charter.holds_symbol name))
  | literalArray elements =>
      refine hother (fun h => nomatch h) ?_
      refine bind (evaluateAll hrec g fun n hn => hnode.part g hn) ?_
      intro vs m₁ l₁ g₁ hvs
      have hvs' : ∀ v ∈ vs.toArray, K.Holds m₁ v := fun v hv => hvs v (List.mem_toArray.mp hv)
      exact bind (makeArray g₁ hvs') fun _ _ _ g₂ ha => pure g₂ ha
  | sequence temps statements =>
      exact hother (fun h => nomatch h) (runBody hrec g fun n hn => hnode.part g hn)
  | block params temps statements =>
      refine hother (fun h => nomatch h) (bind (makeClosure g ?_ hnode.1) ?_)
      · exact fun s hs => ⟨hnode.1, g.lawful.block _ _ params temps statements hnode.2 s hs⟩
      · exact fun _ _ _ g₁ hc => pure g₁ hc
  | send receiver selector args => exact hother (fun h => nomatch h) (sendMessage hrec g hnode)
  | assign name kind index value =>
      refine hother (fun h => nomatch h) ?_
      refine bind (task hrec g (hnode.part g (List.mem_singleton_self value))) ?_
      intro v m₁ l₁ g₁ hv
      have hnode₁ := hnode.later l₁
      exact answering (writeVariable g₁ hnode₁.1 hnode₁.2 hv) hv
  | answer value =>
      refine hother (fun h => nomatch h) ?_
      refine bind (task hrec g (hnode.part g (List.mem_singleton_self value))) ?_
      exact fun v m₁ _ g₁ hv => returnFrom g₁ hv
  | method selector params temps statements primitive =>
      exact hother (fun h => nomatch h) (fail g (Charter.fails rfl))

/-! ### Primitives -/

/-- The loop is an induction on the rounds it may take. -/
theorem alternate (g : m.Runs K settings) {f : FrameId} {condition body : ClosureId}
    (hcondition : condition < m.heap.closures.size) (hbody : body < m.heap.closures.size)
    (goOn : Bool) (rounds : Nat) :
    Upholds K settings
      (Eval.alternate (rec (.invoke condition [] f)) (rec (.invoke body [] f)) goOn rounds) m
      fun v m' => K.Holds m' v := by
  have hnone : ∀ m' : Memory, ∀ v ∈ ([] : List Value), K.Holds m' v :=
    fun _ _ h => absurd h List.not_mem_nil
  induction rounds generalizing m with
  | zero => exact stop g trivial
  | succ rounds ih =>
      refine bind (task hrec (t := .invoke condition [] f) g ⟨hcondition, hnone m⟩) ?_
      intro v m₁ l₁ g₁ _
      have hcondition₁ := Nat.lt_of_lt_of_le hcondition l₁.heap.closures
      have hbody₁ := Nat.lt_of_lt_of_le hbody l₁.heap.closures
      cases v with
      | bool b =>
          show Upholds K settings (if b = goOn then _ else _) m₁ _
          split
          · refine bind (task hrec (t := .invoke body [] f) g₁ ⟨hbody₁, hnone m₁⟩) ?_
            intro _ m₂ l₂ g₂ _
            exact ih g₂ (Nat.lt_of_lt_of_le hcondition₁ l₂.heap.closures)
              (Nat.lt_of_lt_of_le hbody₁ l₂.heap.closures)
          · exact pure g₁ Charter.holds_nil
      | _ => exact ask (fail g₁ (Charter.fails rfl))

/-- One case for each action. -/
theorem perform (g : m.Runs K settings) {f : FrameId} {action : Action}
    (haction : K.Admits m action) :
    Upholds K settings (Eval.perform settings rec f action) m fun v m' => K.Holds m' v := by
  obtain ⟨hregime, hrefuse⟩ := haction
  cases action with
  | answer v => exact pure g (Charter.regime_holds.mp hregime)
  | tally n =>
      show Upholds K settings (if n ≤ settings.room then _ else _) m _
      split
      · rename_i hn
        exact pure g (Charter.holds_int (g.serves.count n hn))
      · exact stop g trivial
  | newText s => exact makeText g s
  | newArray xs =>
      refine bind (makeArray g fun v hv => Charter.regime_holds.mp (hregime v hv)) ?_
      exact fun _ _ _ g₁ ha => pure g₁ ha
  | newObject cls size =>
      refine get (bind (makeObject g ?_ ⟨hregime, Array.size_replicate, ?_⟩) ?_)
      · -- a new object has nil everywhere
        rintro v (hv | ⟨xs, hxs, hv⟩)
        · rw [(Array.mem_replicate.mp hv).2]
          exact Charter.holds_nil
        · dsimp only at hxs
          split at hxs
          · obtain rfl := Option.some.inj hxs
            rw [(Array.mem_replicate.mp hv).2]
            exact Charter.holds_nil
          · cases hxs
      · cases hindexable : m.registry.isIndexable ⟨cls, false⟩ <;> rfl
      · exact fun _ _ _ g₁ ho => pure g₁ ho
  | setElement a i v =>
      have hv := Charter.regime_holds.mp hregime
      exact storing g (.setElement m.heap a i v) (g.toAbides.setElement g.lawful a i hv) hv
  | setIndexed o i v =>
      have hv := Charter.regime_holds.mp hregime
      exact storing g (.setIndexed m.heap o i v) (g.toAbides.setIndexed g.lawful o i hv) hv
  | setSlot o i v =>
      have hv := Charter.regime_holds.mp hregime
      exact storing g (.setSlot m.heap o i v) (g.toAbides.setSlot g.lawful o i hv) hv
  | call c args =>
      exact task hrec g ⟨hregime.1, fun v hv => Charter.regime_holds.mp (hregime.2 v hv)⟩
  | loop condition body goOn => exact alternate hrec g hregime.1 hregime.2 goOn _
  | print v =>
      refine bind (printed g v) fun s m₁ _ g₁ _ => ask ?_
      cases m₁.printOrigin v with
      | made n => exact makeText g₁ s
      | word => exact pure g₁ (Charter.holds_text _ _)
      | nameOf b => exact pure g₁ (Charter.holds_text _ _)
  | signal v =>
      simp only [Eval.perform]
      split
      · exact fail g (Charter.fails rfl)
      · exact bind (printed g v) fun s m₁ _ g₁ _ => fail g₁ (Charter.fails rfl)
  | refuse fault => exact fail g (hrefuse fault rfl)

theorem runMethodBody (g : m.Runs K settings) {f : FrameId} {method : Method} {receiver : Value}
    (hstatements : ∀ s ∈ method.statements, K.Fits m f s) (hreceiver : K.Holds m receiver) :
    Upholds K settings (Eval.runMethodBody rec f method receiver) m
      fun v m' => K.Holds m' v :=
  bind (runBody hrec g hstatements) fun _ _ l₁ g₁ _ => pure g₁ (hreceiver.later l₁)

theorem runMethod (g : m.Runs K settings) {f : FrameId} {method : Method} {receiver : Value}
    (hstatements : ∀ s ∈ method.statements, K.Fits m f s) (hreceiver : K.Holds m receiver) :
    Upholds K settings (Eval.runMethod settings rec f method receiver) m
      fun v m' => K.Holds m' v := by
  have hargs : ∀ v ∈ argumentsOf m f method, K.Holds m v := by
    intro v hv
    obtain ⟨name, -, rfl⟩ := List.mem_map.mp hv
    split
    · rename_i key _
      cases hfound : (m.heap.frame f).slots.find? key with
      | none => exact Charter.holds_nil
      | some w => exact g.stored w (.of_frame (.inr ⟨key, hfound⟩))
    · exact Charter.holds_nil
  unfold Eval.runMethod
  split
  · refine get (decide g hreceiver hargs (fun action haction => perform hrec g haction) ?_)
    intro reason
    refine bind (note g fun _ => Fault.isMisuse_of_failureLine) ?_
    intro _ m₁ l₁ g₁ _
    exact runMethodBody hrec g₁ (fun s hs => (hstatements s hs).later l₁) (hreceiver.later l₁)
  · exact runMethodBody hrec g hstatements hreceiver

/-- A block runs for the method and the receiver of the frame it was made in. -/
theorem invoke (g : m.Runs K settings) {c : ClosureId} {args : List Value} {caller : FrameId}
    (hc : c < m.heap.closures.size) (hargs : ∀ v ∈ args, K.Holds m v) :
    Upholds K settings (Eval.invoke rec c args caller) m fun v m' => K.Holds m' v := by
  obtain ⟨hframe, hcode⟩ := g.closure c hc
  refine ask ?_
  show Upholds K settings (if args.length ≠ (m.heap.closure c).arity then _ else _) m _
  split
  · exact fail g (Charter.fails rfl)
  · refine ask (ask (bind (makeFrame g (g.receiver _) rfl (g.seated _ hframe)) ?_))
    rintro f m₁ l₁ g₁ ⟨-, hf, hmethod⟩
    refine bind (declareAll g₁ fun v hv => (hargs v hv).later l₁) ?_
    intro _ m₂ l₂ g₂ _
    refine runBody hrec g₂ fun s hs => Charter.Fits.later ⟨hf, ?_⟩ l₂
    rw [hmethod, l₁.registry]
    exact hcode s hs

end

/-! ### Activations -/

/-- Closing a frame ends it, and an unwinding to it becomes a value. -/
theorem closing {f : FrameId} {act : Eval Value}
    (h : Upholds K settings act m fun v m' => K.Holds m' v) :
    Upholds K settings (Eval.closing f act) m fun v m' => K.Holds m' v := by
  unfold Upholds at h ⊢
  rw [closing_eq_close]
  -- the frame that ends is all that changes
  have hretire : ∀ {m₁ : Memory}, m.Later m₁ → m₁.Runs K settings →
      m₁.Later (m₁.retire f) ∧ m.Later (m₁.retire f) ∧ (m₁.retire f).Runs K settings := by
    intro m₁ l₁ g₁
    have l₂ := Memory.Later.of_heap (Heap.Later.retire m₁.heap f)
    exact ⟨l₂, l₁.trans l₂, g₁.later l₂ (g₁.toAbides.retire g₁.lawful f)⟩
  cases hact : act m with
  | ok v m₁ =>
      rw [hact] at h
      obtain ⟨l₂, l, g⟩ := hretire h.1 h.2.1
      exact ⟨l, g, h.2.2.later l₂⟩
  | error stop m₁ =>
      rw [hact] at h
      obtain ⟨l₂, l, g⟩ := hretire h.1 h.2.1
      cases stop with
      | unwind v home =>
          have hv : K.Holds m₁ v := h.2.2
          show Upheld K settings m _ (if home = f then _ else _)
          split <;> exact ⟨l, g, hv.later l₂⟩
      | fault fault => exact ⟨l, g, h.2.2⟩
      | tooDeep => exact ⟨l, g, trivial⟩
      | unfinished => exact ⟨l, g, trivial⟩

/-- The frame of an activation has the next number and is for its method. -/
theorem enter (g : m.Runs K settings) {method : Method} {receiver : Value} {args : List Value}
    {callers : List FrameId} (hreceiver : K.Holds m receiver) (hargs : ∀ v ∈ args, K.Holds m v)
    (henters : K.Enters m receiver method) :
    Upholds K settings (Eval.enter method receiver args callers) m fun f m' =>
      ∀ s ∈ method.statements, K.Fits m' f s := by
  refine bind (makeFrame g hreceiver rfl henters.1) ?_
  rintro f m₁ l₁ g₁ ⟨-, hf, hmethod⟩
  refine bind (declareAll g₁ fun v hv => (hargs v hv).later l₁) ?_
  intro _ m₂ l₂ g₂ _
  refine pure g₂ fun s hs => Charter.Fits.later ⟨hf, ?_⟩ l₂
  rw [hmethod, l₁.registry]
  exact henters.2 s hs

theorem activate {rec : Task → Eval Value} (hrec : K.Honours settings rec)
    (g : m.Runs K settings) {method : Method} {receiver : Value} {args : List Value}
    {callers : List FrameId} (hreceiver : K.Holds m receiver) (hargs : ∀ v ∈ args, K.Holds m v)
    (henters : K.Enters m receiver method) :
    Upholds K settings (Eval.activate settings rec method receiver args callers) m
      fun v m' => K.Holds m' v := by
  unfold Eval.activate
  split
  · refine get (ofExcept g (fun f hf => ?_) fun word _ => fail g (Charter.fails rfl))
    exact Charter.fails_of_isMisuse (Fault.isMisuse_of_methodWord hf)
  · refine bind (enter g hreceiver hargs henters) ?_
    intro f m₁ l₁ g₁ hstatements
    exact closing (runMethod hrec g₁ hstatements (hreceiver.later l₁))

end Upholds

end Eval

/-! ### The step and the run -/

namespace Charter.Honours

open Eval

/-- If the inner tasks are done as required, so is the task. -/
theorem step {rec : Task → Eval Value} (hrec : K.Honours settings rec) :
    K.Honours settings (Eval.step settings rec) := by
  intro task m g hrequires
  cases task with
  | evaluate node frame => exact Upholds.evaluateNode hrec g hrequires
  | activate method receiver args callers =>
      obtain ⟨hreceiver, hargs, henters⟩ := hrequires
      exact (Upholds.activate hrec g hreceiver hargs henters).weaken
        fun _ _ _ _ hv => ⟨hv, fun _ h => nomatch h⟩
  | invoke closure args caller =>
      obtain ⟨hclosure, hargs⟩ := hrequires
      exact (Upholds.invoke hrec g hclosure hargs).weaken
        fun _ _ _ _ hv => ⟨hv, fun _ h => nomatch h⟩

/-- Every task that gets what it needs keeps to the charter, however deep tasks nest. -/
theorem run (K : Charter) (settings : Settings) (depth : Nat) :
    K.Honours settings (Eval.run settings depth) := by
  induction depth with
  | zero => exact fun task m g _ => Upholds.stop g trivial
  | succ depth ih => exact step ih

end Charter.Honours

end Smalltalk
