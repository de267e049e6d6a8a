import Smalltalk.Proofs.Choice
import Smalltalk.Proofs.Keeps
import Smalltalk.Proofs.Misuse

/-!
# `Smalltalk.Proofs.Abreast`: two runs that stay twins

`Wrap.Runs P act act'` says that two evaluations that start from twin memories end
with answers that `P` relates, or with the same stop, in twin memories again. The
rules follow the monad, then there is one lemma for each function of the evaluator,
and `Wrap.run_abreast` adds the induction on the depth.

Two tasks are run side by side when they are about the same thing (`Wrap.Pairs`). The
one case that is not symmetric is a tree that is evaluated in the frame of the block in
one memory, and in the frame that the block was evaluated in in the other. What is
declared there would make a difference, so such a tree has no sequence of its own
(`Node.inPlace`).
-/

set_option autoImplicit false

namespace Smalltalk

namespace Node

mutual
/-- Whether a tree has no sequence outside its blocks. -/
def inPlace : Node → Bool
  | sequence _ _ => false
  | literalArray elements => allInPlace elements
  | send receiver _ args => receiver.inPlace && allInPlace args
  | assign _ _ _ value => value.inPlace
  | answer value => value.inPlace
  | _ => true

/-- The same of every tree of a list. -/
def allInPlace : List Node → Bool
  | [] => true
  | n :: rest => n.inPlace && allInPlace rest
end

theorem inPlace_of_mem {ns : List Node} (h : allInPlace ns = true) {n : Node} (hn : n ∈ ns) :
    n.inPlace = true := by
  induction ns with
  | nil => cases hn
  | cons m rest ih =>
      obtain ⟨hm, hrest⟩ := Bool.and_eq_true_iff.mp h
      rcases List.mem_cons.mp hn with rfl | hn
      · exact hm
      · exact ih hrest hn

end Node

namespace Wrap

variable {w : Wrap}

/-! ### Outcomes -/

/-- Two outcomes that `P` or `fails` relates, in twin memories. -/
inductive Matches (w : Wrap) {ε α β : Type} (fails : ε → ε → Prop) (P : α → β → Prop) :
    EStateM.Result ε Memory α → EStateM.Result ε Memory β → Prop where
  | ok {a : α} {b : β} {m m' : Memory} (h : P a b) (t : w.Twins m m') :
    Matches w fails P (.ok a m) (.ok b m')
  | error {e e' : ε} {m m' : Memory} (h : fails e e') (t : w.Twins m m') :
    Matches w fails P (.error e m) (.error e' m')

/-- From twin memories, two actions end in such outcomes. -/
def Abreast (w : Wrap) {ε α β : Type} (fails : ε → ε → Prop) (P : α → β → Prop)
    (act : EStateM ε Memory α) (act' : EStateM ε Memory β) : Prop :=
  ∀ m m', w.Twins m m' → w.Matches fails P (act m) (act' m')

namespace Abreast

variable {ε α β γ δ : Type} {fails : ε → ε → Prop} {P : α → β → Prop} {Q : γ → δ → Prop}

theorem pure {a : α} {b : β} (h : P a b) :
    w.Abreast fails P (Pure.pure a) (Pure.pure b) :=
  fun _ _ t => .ok h t

theorem throw {e e' : ε} (h : fails e e') :
    w.Abreast fails P (MonadExcept.throw e) (MonadExcept.throw e') :=
  fun _ _ t => .error h t

theorem bind {x : EStateM ε Memory α} {x' : EStateM ε Memory β} {f : α → EStateM ε Memory γ}
    {f' : β → EStateM ε Memory δ} (hx : w.Abreast fails P x x')
    (hf : ∀ a b, P a b → w.Abreast fails Q (f a) (f' b)) :
    w.Abreast fails Q (x >>= f) (x' >>= f') := by
  intro m m' t
  show w.Matches fails Q (EStateM.bind x f m) (EStateM.bind x' f' m')
  unfold EStateM.bind
  have hsame := hx m m' t
  generalize x m = r, x' m' = r' at hsame
  cases hsame with
  | ok h t₁ => exact hf _ _ h _ _ t₁
  | error h t₁ => exact .error h t₁

theorem get {k : Memory → EStateM ε Memory α} {k' : Memory → EStateM ε Memory β}
    (hk : ∀ m m', w.Twins m m' → w.Abreast fails P (k m) (k' m')) :
    w.Abreast fails P (MonadState.get >>= k) (MonadState.get >>= k') :=
  fun m m' t => hk m m' t m m' t

theorem mapM {xs : List α} {g : γ → δ} {f : α → EStateM ε Memory γ}
    {f' : α → EStateM ε Memory δ}
    (hf : ∀ x ∈ xs, w.Abreast fails (fun c d => d = g c) (f x) (f' x)) :
    w.Abreast fails (fun cs ds => ds = cs.map g) (xs.mapM f) (xs.mapM f') := by
  induction xs with
  | nil =>
      rw [List.mapM_nil, List.mapM_nil]
      exact pure rfl
  | cons x xs ih =>
      rw [List.mapM_cons, List.mapM_cons]
      refine bind (hf x List.mem_cons_self) ?_
      rintro c _ rfl
      refine bind (ih fun y hy => hf y (List.mem_cons_of_mem _ hy)) ?_
      rintro cs _ rfl
      exact pure rfl

theorem forM {xs : List α} {g : α → β} {f : α → EStateM ε Memory Unit}
    {f' : β → EStateM ε Memory Unit}
    (hf : ∀ x ∈ xs, w.Abreast fails (fun _ _ => True) (f x) (f' (g x))) :
    w.Abreast fails (fun _ _ => True) (xs.forM f) ((xs.map g).forM f') := by
  induction xs with
  | nil => exact pure trivial
  | cons x xs ih =>
      exact bind (hf x List.mem_cons_self) fun _ _ _ =>
        ih fun y hy => hf y (List.mem_cons_of_mem _ hy)

theorem foldlM {xs : List γ} {f : α → γ → EStateM ε Memory α} {f' : β → γ → EStateM ε Memory β}
    (hf : ∀ x ∈ xs, ∀ a b, P a b → w.Abreast fails P (f a x) (f' b x)) {a : α} {b : β}
    (h : P a b) : w.Abreast fails P (xs.foldlM f a) (xs.foldlM f' b) := by
  induction xs generalizing a b with
  | nil => exact pure h
  | cons x xs ih =>
      rw [List.foldlM_cons, List.foldlM_cons]
      exact bind (hf x List.mem_cons_self a b h) fun a' b' h' =>
        ih (fun y hy => hf y (List.mem_cons_of_mem _ hy)) h'

end Abreast

/-! ### Evaluations -/

/-- From twin memories, two evaluations end with answers that `P` relates or with the same
stop, in twin memories. -/
abbrev Runs (w : Wrap) {α β : Type} (P : α → β → Prop) (act : Eval α) (act' : Eval β) : Prop :=
  w.Abreast (fun s s' => s' = w.stop s) P act act'

/-- The same value, up to the renumbering. -/
abbrev Answers (w : Wrap) (v v' : Value) : Prop := v' = w.value v

namespace Runs

variable {α β : Type} {P : α → β → Prop}

theorem stop {s s' : Stop} (h : s' = w.stop s) :
    w.Runs P (throw s : Eval α) (throw s' : Eval β) :=
  .throw h

theorem fail {f f' : Fault} (h : f' = w.fault f) :
    w.Runs P (Eval.fail f : Eval α) (Eval.fail f' : Eval β) :=
  stop (congrArg Stop.fault h)

/-- What does not depend on the memory, and fails with faults that hold no closures. -/
theorem ofExcept {e : Except Fault α} (h : ∀ f, e = .error f → w.fault f = f) :
    w.Runs Eq (Eval.ofExcept e) (Eval.ofExcept e) := by
  cases e with
  | ok a => exact .pure rfl
  | error f => exact fail (h f rfl).symm

theorem ofExceptMap {e : Except Fault α} {g : α → β} (h : ∀ f, e = .error f → w.fault f = f) :
    w.Runs (fun a b => b = g a) (Eval.ofExcept e) (Eval.ofExcept (e.map g)) := by
  cases e with
  | ok a => exact .pure rfl
  | error f => exact fail (h f rfl).symm

theorem ask {read : Memory → α} {read' : Memory → β}
    (h : ∀ m m', w.Twins m m' → P (read m) (read' m')) :
    w.Runs P (Eval.ask read) (Eval.ask read') :=
  fun m m' t => .ok (h m m' t) t

theorem askSame {read read' : Memory → α} (h : ∀ m m', w.Twins m m' → read' m' = read m) :
    w.Runs Eq (Eval.ask read) (Eval.ask read') :=
  ask fun m m' t => (h m m' t).symm

theorem askMap {read : Memory → α} {read' : Memory → β} {g : α → β}
    (h : ∀ m m', w.Twins m m' → read' m' = g (read m)) :
    w.Runs (fun a b => b = g a) (Eval.ask read) (Eval.ask read') :=
  ask h

theorem changeHeap {change change' : Heap → Heap}
    (h : ∀ k k', w.Heaps k k' → w.Heaps (change k) (change' k')) :
    w.Runs (fun _ _ => True) (Eval.changeHeap change) (Eval.changeHeap change') :=
  fun _ _ t => .ok trivial { t with heap := h _ _ t.heap }

theorem make {f : Heap → Heap × α} {f' : Heap → Heap × β}
    (h : ∀ k k', w.Heaps k k' → w.Heaps (f k).1 (f' k').1 ∧ P (f k).2 (f' k').2) :
    w.Runs P (Eval.make f) (Eval.make f') :=
  fun _ _ t => .ok (h _ _ t.heap).2 { t with heap := (h _ _ t.heap).1 }

theorem makeText (s : String) : w.Runs w.Answers (Eval.makeText s) (Eval.makeText s) := by
  intro m m' t
  have htexts := t.heap.texts
  have heap : w.Heaps (m.newText s).1.heap (m'.newText s).1.heap :=
    { t.heap with texts := congrArg (· + 1) htexts }
  exact .ok (congrArg (fun n => Value.text s (.made n)) htexts) { t with heap }

/-- What is written into the journal does not matter, but that it can be written does. -/
theorem note {line line' : Memory → Except Fault String}
    (h : ∀ m m', w.Twins m m' → (line' m').map (fun _ => ()) = (line m).map fun _ => ())
    (hfault : ∀ m f, line m = .error f → w.fault f = f) :
    w.Runs (fun _ _ => True) (Eval.note line) (Eval.note line') := by
  refine .get fun m m' t => ?_
  rw [t.recording]
  split
  · have hsame := h m m' t
    have hwrite : ∀ text text' : String, w.Runs (fun _ _ => True)
        (set (m.note text) : Eval PUnit) (set (m'.note text') : Eval PUnit) :=
      fun text text' _ _ _ => .ok trivial (t.note text text')
    cases hline : line m with
    | ok text =>
        cases hline' : line' m' with
        | ok text' => exact hwrite text text'
        | error f' => simp [hline, hline', Except.map] at hsame
    | error f =>
        cases hline' : line' m' with
        | ok text' => simp [hline, hline', Except.map] at hsame
        | error f' =>
            have heq : f' = f := by simpa [hline, hline', Except.map] using hsame
            exact fail (heq.trans (hfault m f hline).symm)
  · exact .pure trivial

/-- A misuse is about no value. -/
theorem fault_of_isMisuse {f : Fault} (h : f.isMisuse = true) : w.fault f = f := by
  cases f with
  | deadReturn v shown => cases h
  | nonBoolean v shown => cases h
  | _ => rfl

theorem fault_about (name : Json) {g : String → Fault} (h : ∀ s, w.fault (g s) = g s) :
    w.fault (Fault.about name g) = Fault.about name g :=
  Fault.of_about (P := fun f => w.fault f = f) h fun _ => fault_of_isMisuse

theorem keyOf (name : Json) :
    w.Runs Eq (Eval.ofExcept (Fault.keyOf name)) (Eval.ofExcept (Fault.keyOf name)) :=
  ofExcept fun _ h => fault_of_isMisuse (Fault.isMisuse_of_keyOf h)

/-! ### Elementary actions -/

theorem classOf (v : Value) : w.Runs Eq (Eval.classOf v) (Eval.classOf (w.value v)) := by
  refine .get fun m m' t => ?_
  rw [t.classOf?, t.inspect]
  split
  · exact .pure rfl
  · exact fail rfl

theorem declare (f : FrameId) (name : Json) (v : Value) :
    w.Runs (fun _ _ => True) (Eval.declare f name v)
      (Eval.declare (w.toFrame f) name (w.value v)) := by
  refine .bind (keyOf name) ?_
  rintro key _ rfl
  exact changeHeap fun _ _ t => t.declare f key name v

theorem declareAll (f : FrameId) (names : List Json) (vs : List Value) :
    w.Runs (fun _ _ => True) (Eval.declareAll f names vs)
      (Eval.declareAll (w.toFrame f) names (vs.map w.value)) := by
  unfold Eval.declareAll
  have hzip : names.zip (vs.map w.value) = (names.zip vs).map fun p => (p.1, w.value p.2) := by
    rw [List.zip_map_right]
    rfl
  rw [hzip]
  exact .forM fun p _ => declare f p.1 p.2

variable {f f' : FrameId}

theorem lookup (hf : w.Stands f f') (name : Json) :
    w.Runs w.Answers (Eval.lookup f name) (Eval.lookup f' name) := by
  refine .bind (keyOf name) ?_
  rintro key _ rfl
  refine .bind (askMap fun m m' t => t.heap.lookup? hf key) ?_
  rintro found _ rfl
  cases found with
  | some v => exact .pure rfl
  | none => exact fail (fault_about name fun _ => rfl).symm

theorem assign (hf : w.Stands f f') (name : Json) (v : Value) :
    w.Runs (fun _ _ => True) (Eval.assign f name v) (Eval.assign f' name (w.value v)) := by
  refine .bind (keyOf name) ?_
  rintro key _ rfl
  refine .bind (askMap fun m m' t => t.heap.owner? hf key) ?_
  rintro owner _ rfl
  cases owner with
  | some owner => exact changeHeap fun _ _ t => t.declare owner key name v
  | none => exact fail (fault_about name fun _ => rfl).symm

theorem lookupGlobal (name : Json) :
    w.Runs w.Answers (Eval.lookupGlobal name) (Eval.lookupGlobal name) := by
  refine .bind (keyOf name) ?_
  rintro key _ rfl
  refine .bind (askMap fun m m' t => t.globals.find? key) ?_
  rintro found _ rfl
  cases found with
  | some v => exact .pure rfl
  | none => exact fail (fault_about name fun _ => rfl).symm

theorem assignGlobal (name : Json) (v : Value) :
    w.Runs (fun _ _ => True) (Eval.assignGlobal name v)
      (Eval.assignGlobal name (w.value v)) := by
  refine .bind (keyOf name) ?_
  rintro key _ rfl
  exact fun _ _ t => .ok trivial { t with globals := t.globals.put key name v }

theorem slotOf (hf : w.Stands f f') (index : Json) :
    w.Runs Eq (Eval.slotOf f index) (Eval.slotOf f' index) := by
  refine .get fun m m' t => ?_
  simp only [t.heap.receiver_eq hf, t.inspect]
  cases hreceiver : (m.heap.frame f).receiver with
  | object o =>
      show w.Runs Eq (Eval.ofExcept (Eval.slotNumber index (m.heap.object o).slots.size _) >>= _)
        (Eval.ofExcept (Eval.slotNumber index (m'.heap.object o).slots.size _) >>= _)
      rw [t.heap.object]
      simp only [Wrap.object, Array.size_map]
      refine .bind (ofExcept fun g hg => ?_) ?_
      · rcases Fault.of_slotNumber hg with rfl | hmisuse
        · rfl
        · exact fault_of_isMisuse hmisuse
      · rintro i _ rfl
        exact .pure rfl
  | _ => exact fail (congrArg Fault.noInstanceVariables (t.inspect _))

theorem readVariable (hf : w.Stands f f') (name : Json) (kind : VariableKind) (index : Json) :
    w.Runs w.Answers (Eval.readVariable f name kind index)
      (Eval.readVariable f' name kind index) := by
  cases kind with
  | instvar =>
      refine .bind (slotOf hf index) ?_
      rintro p _ rfl
      refine ask fun m m' t => ?_
      show (m'.heap.object p.1).slots.getD p.2 .nil = _
      rw [t.heap.object]
      exact getD_map _ _
  | global => exact lookupGlobal name
  | temp => exact lookup hf name
  | arg => exact lookup hf name

theorem writeVariable (hf : w.Stands f f') (name : Json) (kind : VariableKind) (index : Json)
    (v : Value) : w.Runs (fun _ _ => True) (Eval.writeVariable f name kind index v)
      (Eval.writeVariable f' name kind index (w.value v)) := by
  cases kind with
  | instvar =>
      refine .bind (slotOf hf index) ?_
      rintro p _ rfl
      exact changeHeap fun _ _ t => t.setSlot p.1 p.2 v
  | global => exact assignGlobal name v
  | temp => exact assign hf name v
  | arg => exact assign hf name v

/-- A return unwinds to the same home, or meets it ended in both memories. -/
theorem returnFrom (hf : w.Stands f f') (v : Value) :
    w.Runs w.Answers (Eval.returnFrom f v) (Eval.returnFrom f' (w.value v)) := by
  refine .bind (askMap fun m m' t => t.heap.home hf) ?_
  rintro home _ rfl
  refine .bind (askSame fun m m' t => t.heap.active home) ?_
  rintro active _ rfl
  cases active with
  | true =>
      refine .bind (note (fun m m' t => ?_) fun m g hg => ?_) fun _ _ _ => stop rfl
      · rw [map_const, map_const]
        exact t.frameWord home
      · exact fault_of_isMisuse (Fault.isMisuse_of_map (fun _ => Fault.isMisuse_of_frameWord) hg)
  | false =>
      refine .bind (askSame fun m m' t => t.inspect v) ?_
      rintro shown _ rfl
      exact fail rfl

theorem startOf (hf : w.Stands f f') (toSuper : Bool) (receiver : Value) :
    w.Runs Eq (Eval.startOf f toSuper receiver)
      (Eval.startOf f' toSuper (w.value receiver)) := by
  cases toSuper with
  | false =>
      refine .bind (classOf receiver) ?_
      rintro b _ rfl
      exact .pure rfl
  | true =>
      refine .bind (askSame fun m m' t => t.heap.method_eq hf) ?_
      rintro method _ rfl
      cases method with
      | none => exact fail rfl
      | some method => exact askSame fun m m' t => by rw [t.registry]

theorem methodFrom (selector : Json) (start : Option Behavior) :
    w.Runs Eq (Eval.methodFrom selector start) (Eval.methodFrom selector start) := by
  cases start with
  | none => exact .pure rfl
  | some b =>
      refine .bind (keyOf selector) ?_
      rintro key _ rfl
      exact askSame fun m m' t => by rw [t.registry]

theorem notUnderstood (receiver : Value) (selector : Json) :
    w.Runs P (Eval.notUnderstood receiver selector : Eval α)
      (Eval.notUnderstood (w.value receiver) selector : Eval β) := by
  refine .bind (classOf receiver) ?_
  rintro b _ rfl
  refine .bind (askSame fun m m' t => by rw [t.registry]) ?_
  rintro name _ rfl
  exact fail (fault_about selector fun _ => rfl).symm

theorem printed (v : Value) : w.Runs Eq (Eval.printed v) (Eval.printed (w.value v)) := by
  refine .bind (askSame fun m m' t => t.print? v) ?_
  rintro found _ rfl
  cases found with
  | some s => exact .pure rfl
  | none => exact stop rfl

end Runs

/-! ### Tasks -/

/-- Tasks that are about the same thing. Who asks for them does not matter. -/
inductive Pairs (w : Wrap) : Task → Task → Prop where
  | evaluate (node : Node) (f : FrameId) : Pairs w (.evaluate node f) (.evaluate node (w.toFrame f))
  | evaluateExtra (node : Node) (inPlace : node.inPlace = true) :
    Pairs w (.evaluate node w.frame) (.evaluate node w.extra)
  | activate (method : Method) (receiver : Value) (args : List Value)
      (callers callers' : List FrameId) :
    Pairs w (.activate method receiver args callers)
      (.activate method (w.value receiver) (args.map w.value) callers')
  | invoke (c : ClosureId) (args : List Value) (caller caller' : FrameId) :
    Pairs w (.invoke c args caller) (.invoke (w.toClosure c) (args.map w.value) caller')

/-- Two ways to do tasks that are run side by side on all tasks that are paired. -/
def AllRun (w : Wrap) (rec rec' : Task → Eval Value) : Prop :=
  ∀ task task', w.Pairs task task' → w.Runs w.Answers (rec task) (rec' task')

/-- A tree can be evaluated in the frame of the block in place of another frame. -/
def Suits (w : Wrap) (node : Node) (f f' : FrameId) : Prop :=
  f' = w.toFrame f ∨ node.inPlace = true ∧ f = w.frame ∧ f' = w.extra

theorem Suits.stands {node : Node} {f f' : FrameId} (h : w.Suits node f f') :
    w.Stands f f' :=
  h.imp_right And.right

/-- A part of a tree can be evaluated where the tree can be. -/
theorem Suits.part {node part : Node} {f f' : FrameId} (h : w.Suits node f f')
    (hpart : node.inPlace = true → part.inPlace = true) : w.Suits part f f' :=
  h.imp_right fun ⟨hplace, hframes⟩ => ⟨hpart hplace, hframes⟩

theorem Suits.pairs {node : Node} {f f' : FrameId} (h : w.Suits node f f') :
    w.Pairs (.evaluate node f) (.evaluate node f') := by
  rcases h with rfl | ⟨hplace, rfl, rfl⟩
  · exact .evaluate node f
  · exact .evaluateExtra node hplace

namespace Runs

variable {rec rec' : Task → Eval Value} {f f' : FrameId}

theorem runBody (hrec : w.AllRun rec rec') (f : FrameId) (temps : List Json)
    (statements : List Node) : w.Runs w.Answers (Eval.runBody rec f temps statements)
      (Eval.runBody rec' (w.toFrame f) temps statements) := by
  refine .bind (P := fun _ _ => True) ?_ fun _ _ _ => ?_
  · have htemps : w.Runs (fun _ _ => True) (temps.forM fun name => Eval.declare f name .nil)
        ((temps.map id).forM fun name => Eval.declare (w.toFrame f) name .nil) :=
      .forM fun name _ => declare f name .nil
    rw [List.map_id] at htemps
    exact htemps
  · exact .foldlM (fun statement _ _ _ _ => hrec _ _ (.evaluate statement f)) rfl

theorem evaluateAll (hrec : w.AllRun rec rec') {ns : List Node}
    (hns : ∀ n ∈ ns, w.Suits n f f') :
    w.Runs (fun vs vs' => vs' = vs.map w.value) (ns.mapM fun n => rec (.evaluate n f))
      (ns.mapM fun n => rec' (.evaluate n f')) :=
  .mapM fun n hn => hrec _ _ (hns n hn).pairs

theorem sendMessage (hrec : w.AllRun rec rec') {receiver : Node} {args : List Node}
    (hreceiver : w.Suits receiver f f') (hargs : ∀ arg ∈ args, w.Suits arg f f')
    (selector : Json) : w.Runs w.Answers (Eval.sendMessage rec f receiver selector args)
      (Eval.sendMessage rec' f' receiver selector args) := by
  refine .bind (hrec _ _ hreceiver.pairs) ?_
  rintro v _ rfl
  refine .bind (evaluateAll hrec hargs) ?_
  rintro vs _ rfl
  refine .bind (startOf hreceiver.stands receiver.isSuper v) ?_
  rintro start _ rfl
  refine .bind (methodFrom selector start) ?_
  rintro found _ rfl
  cases found with
  | none => exact notUnderstood v selector
  | some method =>
      refine .bind (note (fun m m' t => ?_) fun m g hg => ?_) fun _ _ _ => ?_
      · rw [map_const, map_const]
        unfold Memory.methodWord
        rw [map_const, map_const]
      · exact fault_of_isMisuse (Fault.isMisuse_of_map (fun _ => Fault.isMisuse_of_methodWord) hg)
      · refine .bind (P := fun _ _ => True) (ask fun _ _ _ => trivial) ?_
        intro callers callers' _
        exact hrec _ _ (.activate method v vs callers callers')

/-- A tree is evaluated alike in two frames that stand for each other. -/
theorem evaluateNode (hrec : w.AllRun rec rec') {node : Node} (h : w.Suits node f f') :
    w.Runs w.Answers (Eval.evaluateNode rec f node) (Eval.evaluateNode rec' f' node) := by
  cases node with
  | self => exact askMap fun m m' t => t.heap.receiver_eq h.stands
  | super => exact askMap fun m m' t => t.heap.receiver_eq h.stands
  | reference name kind index => exact readVariable h.stands name kind index
  | literal value => exact .pure (by cases value <;> rfl)
  | symbol name => exact .pure rfl
  | literalArray elements =>
      refine .bind (evaluateAll hrec fun n hn => h.part fun hplace =>
        Node.inPlace_of_mem hplace hn) ?_
      rintro vs _ rfl
      refine .bind (P := Eq) (make fun k k' t => ?_) ?_
      · rw [← List.map_toArray]
        exact ⟨t.newArray _, t.arrays.symm⟩
      · rintro a _ rfl
        exact .pure rfl
  | sequence temps statements =>
      -- the one tree that declares something in the frame itself
      rcases h with rfl | ⟨hplace, -⟩
      · exact runBody hrec f temps statements
      · cases hplace
  | block params temps statements =>
      refine .bind (P := fun c c' => c' = w.toClosure c) (make fun k k' t => ?_) ?_
      · exact ⟨t.newClosure ⟨rfl, rfl, rfl, h.stands⟩, t.toClosure_size.symm⟩
      · rintro c _ rfl
        exact .pure rfl
  | send receiver selector args =>
      refine sendMessage hrec (h.part fun hplace => ?_) (fun arg harg => h.part fun hplace => ?_)
        selector
      · exact (Bool.and_eq_true_iff.mp hplace).1
      · exact Node.inPlace_of_mem (Bool.and_eq_true_iff.mp hplace).2 harg
  | assign name kind index value =>
      have hvalue : w.Suits value f f' := h.part id
      refine .bind (hrec _ _ hvalue.pairs) ?_
      rintro v _ rfl
      exact .bind (writeVariable h.stands name kind index v) fun _ _ _ => .pure rfl
  | answer value =>
      have hvalue : w.Suits value f f' := h.part id
      refine .bind (hrec _ _ hvalue.pairs) ?_
      rintro v _ rfl
      exact returnFrom h.stands v
  | method selector params temps statements primitive => exact fail rfl

/-! ### Activations -/

theorem alternate {condition condition' body body' : Eval Value}
    (hcondition : w.Runs w.Answers condition condition') (hbody : w.Runs w.Answers body body')
    (goOn : Bool) (rounds : Nat) : w.Runs w.Answers (Eval.alternate condition body goOn rounds)
      (Eval.alternate condition' body' goOn rounds) := by
  induction rounds with
  | zero => exact stop rfl
  | succ rounds ih =>
      refine .bind hcondition ?_
      rintro v _ rfl
      cases v with
      | bool b =>
          show w.Runs w.Answers (if b = goOn then _ else _) (if b = goOn then _ else _)
          split
          · exact .bind hbody fun _ _ _ => ih
          · exact .pure rfl
      | _ =>
          refine .bind (askSame fun m m' t => t.inspect _) ?_
          rintro shown _ rfl
          exact fail rfl

/-- What a primitive has decided on is done alike. -/
theorem perform (settings : Settings) (hrec : w.AllRun rec rec') (f f' : FrameId)
    (action : Action) : w.Runs w.Answers (Eval.perform settings rec f action)
      (Eval.perform settings rec' f' (w.action action)) := by
  cases action with
  | answer v => exact .pure rfl
  | tally n =>
      show w.Runs w.Answers (if n ≤ settings.room then _ else _)
        (if n ≤ settings.room then _ else _)
      split
      · exact .pure rfl
      · exact stop rfl
  | newText s => exact makeText s
  | newArray elements =>
      refine .bind (P := Eq) (make fun k k' t => ⟨t.newArray elements, t.arrays.symm⟩) ?_
      rintro a _ rfl
      exact .pure rfl
  | newObject cls size =>
      refine .get fun m m' t => ?_
      rw [t.registry]
      refine .bind (P := Eq) (make fun k k' t => ⟨?_, t.objects.symm⟩) ?_
      · -- a new object stores nothing but nil, and nil is what it was before
        have hnils : ∀ n, (Array.replicate n Value.nil).map w.value = Array.replicate n .nil :=
          fun n => Array.map_replicate
        have hnew := t.newObject ⟨cls, Array.replicate (m.registry.layout ⟨cls, false⟩).length .nil,
          if m.registry.isIndexable ⟨cls, false⟩ then some (Array.replicate size .nil) else none⟩
        unfold Wrap.object at hnew
        rw [hnils] at hnew
        cases hindexable : m.registry.isIndexable ⟨cls, false⟩ with
        | false =>
            rw [hindexable] at hnew
            exact hnew
        | true =>
            rw [hindexable] at hnew
            simp only [if_true, Option.map_some, hnils] at hnew
            exact hnew
      · rintro o _ rfl
        exact .pure rfl
  | setElement a i v =>
      exact .bind (changeHeap fun _ _ t => t.setElement a i v) fun _ _ _ => .pure rfl
  | setIndexed o i v =>
      exact .bind (changeHeap fun _ _ t => t.setIndexed o i v) fun _ _ _ => .pure rfl
  | setSlot o i v =>
      exact .bind (changeHeap fun _ _ t => t.setSlot o i v) fun _ _ _ => .pure rfl
  | call c args => exact hrec _ _ (.invoke c args f f')
  | loop condition body goOn =>
      exact alternate (hrec _ _ (.invoke condition [] f f')) (hrec _ _ (.invoke body [] f f'))
        goOn _
  | print v =>
      refine .bind (printed v) ?_
      rintro s _ rfl
      refine .bind (askSame fun m m' t => t.printOrigin v) ?_
      rintro origin _ rfl
      -- the two print alike; only a text that was made is a new one
      cases origin with
      | made n => exact makeText s
      | word => exact .pure rfl
      | nameOf b => exact .pure rfl
  | signal v =>
      simp only [Eval.perform, Wrap.action, chars?_value]
      cases v.chars? with
      | some s => exact fail rfl
      | none =>
          refine .bind (printed v) ?_
          rintro s _ rfl
          exact fail rfl
  | refuse g => exact fail rfl

theorem runMethodBody (hrec : w.AllRun rec rec') (f : FrameId) (method : Method)
    (receiver : Value) : w.Runs w.Answers (Eval.runMethodBody rec f method receiver)
      (Eval.runMethodBody rec' (w.toFrame f) method (w.value receiver)) :=
  .bind (runBody hrec f method.temps method.statements) fun _ _ _ => .pure rfl

/-- A frame was activated with the same arguments. -/
theorem argumentsOf {m m' : Memory} (t : w.Twins m m') (f : FrameId) (method : Method) :
    Eval.argumentsOf m' (w.toFrame f) method = (Eval.argumentsOf m f method).map w.value := by
  unfold Eval.argumentsOf
  rw [List.map_map]
  refine List.map_congr_left fun name _ => ?_
  cases hkey : name.key? with
  | none => simp only [Function.comp_apply, hkey, value_nil]
  | some key =>
      simp only [Function.comp_apply, hkey, (t.heap.frame f).slots.find?]
      cases (m.heap.frame f).slots.find? key <;> rfl

theorem decide {m m' : Memory} (t : w.Twins m m') (settings : Settings) (receiver : Value)
    (args : List Value) (number : Json) :
    Eval.decide settings m' (w.value receiver) (args.map w.value) number
      = (Eval.decide settings m receiver args number).map (Except.map w.action) := by
  unfold Eval.decide
  refine bind_map fun key => ?_
  cases settings.primitives.find? key with
  | none => rfl
  | some p => exact congrArg Except.ok (t.attempt p receiver args)

theorem runMethod (settings : Settings) (hrec : w.AllRun rec rec') (f : FrameId)
    (method : Method) (receiver : Value) :
    w.Runs w.Answers (Eval.runMethod settings rec f method receiver)
      (Eval.runMethod settings rec' (w.toFrame f) method (w.value receiver)) := by
  unfold Eval.runMethod
  split
  · refine .get fun m m' t => ?_
    rw [argumentsOf t, decide t]
    refine .bind (ofExceptMap fun _ hg => fault_of_isMisuse (Fault.isMisuse_of_decide hg)) ?_
    rintro choice _ rfl
    cases choice with
    | ok action => exact perform settings hrec f (w.toFrame f) action
    | error reason =>
        refine .bind (note (fun k k' u => ?_) fun k g hg => ?_) fun _ _ _ =>
          runMethodBody hrec f method receiver
        · unfold Eval.failureLine
          rw [Memory.methodWord_congr u.registry]
        · exact fault_of_isMisuse (Fault.isMisuse_of_failureLine hg)
  · exact runMethodBody hrec f method receiver

/-- An unwinding ends at the same activation. -/
theorem closing (f : FrameId) {act act' : Eval Value} (hact : w.Runs w.Answers act act') :
    w.Runs w.Answers (Eval.closing f act) (Eval.closing (w.toFrame f) act') := by
  intro m m' t
  have hsame := hact m m' t
  have hretire : ∀ {k k' : Memory}, w.Twins k k' → w.Twins { k with heap := k.heap.retire f }
      { k' with heap := k'.heap.retire (w.toFrame f) } :=
    fun t => { t with heap := t.heap.retire f }
  unfold Eval.closing
  generalize act m = r, act' m' = r' at hsame
  cases hsame with
  | ok h t₁ => exact .ok h (hretire t₁)
  | @error s _ _ _ h t₁ =>
      subst h
      cases s with
      | unwind v home =>
          show w.Matches _ _ (if home = f then _ else _)
            (if w.toFrame home = w.toFrame f then _ else _)
          by_cases hhome : home = f
          · rw [if_pos hhome, if_pos (congrArg w.toFrame hhome)]
            exact .ok rfl (hretire t₁)
          · rw [if_neg hhome, if_neg fun heq => hhome (w.toFrame_inj heq)]
            exact .error rfl (hretire t₁)
      | _ => exact .error rfl (hretire t₁)

theorem activate (settings : Settings) (hrec : w.AllRun rec rec') (method : Method)
    (receiver : Value) (args : List Value) (callers callers' : List FrameId) :
    w.Runs w.Answers (Eval.activate settings rec method receiver args callers)
      (Eval.activate settings rec' method (w.value receiver) (args.map w.value) callers') := by
  unfold Eval.activate
  rw [List.length_map]
  split
  · refine .get fun m m' t => ?_
    rw [Memory.methodWord_congr t.registry]
    refine .bind (ofExcept fun _ hg => fault_of_isMisuse (Fault.isMisuse_of_methodWord hg)) ?_
    rintro word _ rfl
    exact fail rfl
  · refine .bind (P := fun f f' => f' = w.toFrame f) ?_ ?_
    · refine .bind (P := fun f f' => f' = w.toFrame f) (make fun k k' t => ?_) ?_
      · exact ⟨t.newFrame ⟨rfl, rfl, .nil, rfl, .empty, rfl⟩, t.toFrame_size.symm⟩
      · rintro f _ rfl
        exact .bind (declareAll f method.params args) fun _ _ _ => .pure rfl
    · rintro f _ rfl
      exact closing f (runMethod settings hrec f method receiver)

/-- The frames of closures that share their code continue each its own chain. -/
theorem invoke (hrec : w.AllRun rec rec') (c : ClosureId) (args : List Value)
    (caller caller' : FrameId) : w.Runs w.Answers (Eval.invoke rec c args caller)
      (Eval.invoke rec' (w.toClosure c) (args.map w.value) caller') := by
  refine .bind (P := w.Shares) (ask fun m m' t => t.heap.closure c) ?_
  intro x x' hx
  unfold Closure.arity
  rw [List.length_map, hx.params, hx.temps, hx.statements]
  split
  · exact fail rfl
  · refine .bind (P := fun _ _ => True) (ask fun _ _ _ => trivial) ?_
    intro callers callers' _
    refine .bind (P := fun d d' => d'.receiver = w.value d.receiver ∧ d'.method = d.method ∧
      w.Threads (x.frame :: d.outer) (x'.frame :: d'.outer)) (ask fun m m' t => ?_) ?_
    · exact ⟨t.heap.receiver_eq hx.frame, t.heap.method_eq hx.frame, t.heap.chain hx.frame⟩
    · rintro d d' ⟨hreceiver, hmethod, houter⟩
      refine .bind (P := fun f f' => f' = w.toFrame f) (make fun k k' t => ?_) ?_
      · exact ⟨t.newFrame ⟨hreceiver, hmethod, houter, rfl, .empty, rfl⟩, t.toFrame_size.symm⟩
      · rintro f _ rfl
        exact .bind (declareAll f x.params args) fun _ _ _ => runBody hrec f x.temps x.statements

end Runs

/-- What is paired is run side by side, given that the tasks inside are. -/
theorem AllRun.step (settings : Settings) {rec rec' : Task → Eval Value}
    (hrec : w.AllRun rec rec') : w.AllRun (Eval.step settings rec) (Eval.step settings rec') := by
  intro task task' h
  cases h with
  | evaluate node f => exact Runs.evaluateNode hrec (.inl rfl)
  | evaluateExtra node hplace => exact Runs.evaluateNode hrec (.inr ⟨hplace, rfl, rfl⟩)
  | activate method receiver args callers callers' =>
      exact Runs.activate settings hrec method receiver args callers callers'
  | invoke c args caller caller' => exact Runs.invoke hrec c args caller caller'

/-- So it is to any depth. -/
theorem AllRun.run (settings : Settings) (depth : Nat) :
    w.AllRun (Eval.run settings depth) (Eval.run settings depth) := by
  induction depth with
  | zero => exact fun _ _ _ => Runs.stop rfl
  | succ depth ih => exact ih.step settings

end Wrap

end Smalltalk
