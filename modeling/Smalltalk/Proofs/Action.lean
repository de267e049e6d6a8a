import Smalltalk.Proofs.Keeps

/-!
# `Smalltalk.Proofs.Action`: the elementary actions keep the invariant

One lemma for each action that runs nothing: declaring, looking up and
assigning variables, finding a class or a method, returning. Each says what
has to be admitted before and what is admitted afterwards.

Whether a fault may arise is decided by the names: a text can be looked up and
can be put into a message, and where code is well named every name is a text
(`Regime.fails_of_keyOf`, `Regime.fails_about`).

A return is the only action that unwinds. Its frame is settled, so an active
home belongs to an activation in progress (`Keeps.returnFrom`).
-/

set_option autoImplicit false

namespace Smalltalk

variable {R : Regime} {opened : List FrameId} {m : Memory}

/-! ### Faults -/

/-- Whether the fault may arise in any program: it is no misuse, and it is not that a
value has no class. -/
def Fault.isOrdinary : Fault → Bool
  | .noClass _ => false
  | f => !f.isMisuse

namespace Regime

/-- A name is a text, unless code may be badly named. -/
theorem text_of_name {name : Json} (h : R.name name = true) :
    (∃ s, name = .str s) ∨ R.named = false := by
  cases name with
  | str s => exact .inl ⟨s, rfl⟩
  | _ => exact .inr ((Bool.not_eq_true' _).mp h)

/-- An index or tag is null or an integer, unless code may be badly named. -/
theorem integer_of_number {number : Json} (h : R.number number = true) :
    number = .null ∨ (∃ i, number = .int i) ∨ R.named = false := by
  cases number with
  | null => exact .inl rfl
  | int i => exact .inr (.inl ⟨i, rfl⟩)
  | _ => exact .inr (.inr ((Bool.not_eq_true' _).mp h))

/-- A fault of programs may arise anywhere. -/
theorem fails_of {f : Fault} (h : f.isOrdinary = true) : R.Fails f := by
  cases f with
  | noClass shown => cases h
  | _ => exact ⟨fun _ => (Bool.not_eq_true' _).mp h, fun _ h => nomatch h⟩

/-- Where code may be badly named, a misuse may arise, too. -/
theorem fails_of_unnamed {f : Fault} (hnot : R.named = false)
    (hclass : ∀ shown, f ≠ .noClass shown) : R.Fails f := by
  refine ⟨fun hnamed => ?_, fun shown h => absurd h (hclass shown)⟩
  rw [hnot] at hnamed
  cases hnamed

/-- A name that cannot be looked up is no text. -/
theorem fails_of_keyOf {name : Json} {f : Fault} (hname : R.name name = true)
    (h : Fault.keyOf name = .error f) : R.Fails f := by
  rcases text_of_name hname with ⟨s, rfl⟩ | hnot
  · cases h
  · rw [(Fault.keyOf_eq_error.mp h).2]
    exact fails_of_unnamed hnot fun _ h => nomatch h

/-- A tag that cannot be looked up is no integer. -/
theorem fails_of_keyOf_number {number : Json} {f : Fault} (hnumber : R.number number = true)
    (h : Fault.keyOf number = .error f) : R.Fails f := by
  rcases integer_of_number hnumber with rfl | ⟨i, rfl⟩ | hnot
  · cases h
  · cases h
  · rw [(Fault.keyOf_eq_error.mp h).2]
    exact fails_of_unnamed hnot fun _ h => nomatch h

/-- A name that cannot be put into a message is no text. -/
theorem fails_of_wordOf {name : Json} {f : Fault} (hname : R.name name = true)
    (h : Fault.wordOf name = .error f) : R.Fails f := by
  rcases text_of_name hname with ⟨s, rfl⟩ | hnot
  · cases h
  · unfold Fault.wordOf at h
    split at h
    · cases h
    · cases h
      refine fails_of_unnamed hnot fun shown heq => ?_
      cases heq

/-- A method whose selector cannot be put into a message has a selector that is no
text. -/
theorem fails_of_methodWord {method : Method} {f : Fault}
    (hselector : R.name method.selector = true) (h : m.methodWord method = .error f) :
    R.Fails f := by
  unfold Memory.methodWord at h
  cases hword : Fault.wordOf method.selector with
  | ok word =>
      rw [hword] at h
      cases h
  | error f' =>
      rw [hword] at h
      exact Except.error.inj h ▸ fails_of_wordOf hselector hword

/-- A fault about a name is that fault, or the name is no text. -/
theorem fails_about {name : Json} {fault : String → Fault} (hname : R.name name = true)
    (h : ∀ word, R.Fails (fault word)) : R.Fails (Fault.about name fault) := by
  unfold Fault.about
  split
  · exact h _
  · rename_i f hf
    exact fails_of_wordOf hname hf

/-- An index that names no slot is out of range, or no integer. -/
theorem fails_of_slotNumber {index : Json} {size : Nat} {bad : Unit → Fault} {f : Fault}
    (hindex : R.number index = true) (hbad : R.Fails (bad ()))
    (h : Eval.slotNumber index size bad = .error f) : R.Fails f := by
  have hrange : ∀ i : Int, (if 0 ≤ i ∧ i < size then Except.ok i.toNat else .error (bad ()))
      = .error f → R.Fails f := by
    intro i hi
    split at hi
    · cases hi
    · exact Except.error.inj hi ▸ hbad
  rcases integer_of_number hindex with rfl | ⟨i, rfl⟩ | hnot
  · exact Except.error.inj h ▸ hbad
  · exact hrange i h
  · have hnumber : R.Fails (.notAnIndex index) := fails_of_unnamed hnot fun _ h => nomatch h
    unfold Eval.slotNumber at h
    split at h
    · exact Except.error.inj h ▸ hbad
    · exact hrange _ h
    · exact hrange _ h
    · -- a float is a fault either way
      split at h
      · exact Except.error.inj h ▸ hnumber
      · exact Except.error.inj h ▸ hbad
    · exact Except.error.inj h ▸ hnumber

end Regime

namespace Memory

/-- What the memory of a variable holds is stored. -/
theorem Good.lookup? (g : m.Good R opened) {f : FrameId} {key : Key} {v : Value}
    (h : m.heap.lookup? f key = some v) : R.Holds m v :=
  g.stored v (.of_lookup? h)

/-- The receiver of a frame is stored. -/
theorem Good.receiver (g : m.Good R opened) (f : FrameId) :
    R.Holds m (m.heap.frame f).receiver :=
  g.stored _ (.of_frame (.inl rfl))

/-- A method that is found is installed somewhere. -/
theorem Good.method (g : m.Good R opened) {key : Key} {b : Behavior} {method : Method}
    (h : m.registry.lookup? key b = some method) : R.method method = true := by
  obtain ⟨c, -, hc⟩ := List.exists_of_findSome?_eq_some h
  exact g.classes.method c key method hc

/-- A count of texts is nothing that the invariant speaks about. -/
theorem Good.newText (g : m.Good R opened) (s : String) : Good R opened (m.newText s).1 :=
  g.change (.of_heap (.texts m.heap _)) (fun v hv => g.stored v hv) g.bound rfl rfl rfl
    fun _ _ => rfl

end Memory

namespace Eval.Keeps

/-! ### Texts and classes -/

/-- A fault about a name, where the fault may arise in any program. -/
theorem failAbout {α : Type} {name : Json} {fault : String → Fault} {post : α → Memory → Prop}
    (g : m.Good R opened) (hname : R.name name = true)
    (hfault : ∀ word, (fault word).isOrdinary = true) :
    Keeps R opened (Eval.fail (Fault.about name fault)) m post :=
  fail g (Regime.fails_about hname fun word => Regime.fails_of (hfault word))

/-- A name that is looked up. -/
theorem keyOf {β : Type} {name : Json} {k : Key → Eval β} {post : β → Memory → Prop}
    (g : m.Good R opened) (hname : R.name name = true)
    (h : ∀ key, Keeps R opened (k key) m post) :
    Keeps R opened (Eval.ofExcept (Fault.keyOf name) >>= k) m post := by
  cases hkey : Fault.keyOf name with
  | ok key => exact h key
  | error f => exact fail g (Regime.fails_of_keyOf hname hkey)

theorem makeText (g : m.Good R opened) (s : String) :
    Keeps R opened (Eval.makeText s) m fun v m' => R.Holds m' v :=
  ⟨.of_heap (.texts m.heap _), g.newText s, Regime.holds_text _ _⟩

theorem classOf (g : m.Good R opened) {v : Value} (hv : R.Holds m v) :
    Keeps R opened (Eval.classOf v) m fun _ m' => m' = m := by
  refine get ?_
  cases hclass : m.classOf? v with
  | some b => exact pure g rfl
  | none => exact fail g ⟨fun _ => rfl, fun _ _ => g.classOf?_isSome hv hclass⟩

theorem printed (g : m.Good R opened) (v : Value) :
    Keeps R opened (Eval.printed v) m fun _ _ => True := by
  refine ask ?_
  cases m.print? v with
  | some s => exact pure g trivial
  | none => exact stop g trivial

/-! ### Variables -/

/-- Declaring a variable leaves all activations as active as they were. -/
theorem declare (g : m.Good R opened) {f : FrameId} {name : Json} {v : Value}
    (hname : R.name name = true) (hv : R.Holds m v) :
    Keeps R opened (Eval.declare f name v) m fun _ m' =>
      ∀ f', (m'.heap.frame f').active = (m.heap.frame f').active := by
  refine keyOf g hname ?_
  intro key
  refine changeHeap (.declare m.heap f key name v) (g.declare f key name hv) ?_
  intro f'
  rw [Heap.frame_declare]
  split
  · rename_i h
    rw [h.1]
  · rfl

theorem declareAll (g : m.Good R opened) {f : FrameId} {names : List Json} {vs : List Value}
    (hnames : names.all R.name = true) (hvs : ∀ v ∈ vs, R.Holds m v) :
    Keeps R opened (Eval.declareAll f names vs) m fun _ m' =>
      ∀ f', (m'.heap.frame f').active = (m.heap.frame f').active := by
  refine forM (P := fun m' => ∀ f', (m'.heap.frame f').active = (m.heap.frame f').active)
    g (fun _ => rfl) ?_
  intro p hp m' l g' hactive
  have hname : R.name p.1 = true := List.all_eq_true.mp hnames p.1 (List.of_mem_zip hp).1
  have hv : R.Holds m' p.2 := (hvs p.2 (List.of_mem_zip hp).2).later l
  exact (declare g' hname hv).weaken fun _ _ _ _ h f' => (h f').trans (hactive f')

theorem lookup (g : m.Good R opened) {f : FrameId} {name : Json} (hname : R.name name = true) :
    Keeps R opened (Eval.lookup f name) m fun v m' => R.Holds m' v := by
  refine keyOf g hname fun key => ask ?_
  cases hv : m.heap.lookup? f key with
  | some v => exact pure g (g.lookup? hv)
  | none => exact failAbout g hname fun _ => rfl

theorem assign (g : m.Good R opened) {f : FrameId} {name : Json} {v : Value}
    (hname : R.name name = true) (hv : R.Holds m v) :
    Keeps R opened (Eval.assign f name v) m fun _ _ => True := by
  refine keyOf g hname fun key => ask ?_
  cases m.heap.owner? f key with
  | some owner =>
      exact changeHeap (.declare m.heap owner key name v) (g.declare owner key name hv) trivial
  | none => exact failAbout g hname fun _ => rfl

theorem lookupGlobal (g : m.Good R opened) {name : Json} (hname : R.name name = true) :
    Keeps R opened (Eval.lookupGlobal name) m fun v m' => R.Holds m' v := by
  refine keyOf g hname fun key => ask ?_
  cases hv : m.globals.find? key with
  | some v => exact pure g (g.bound key v hv)
  | none => exact failAbout g hname fun _ => rfl

theorem assignGlobal (g : m.Good R opened) {name : Json} {v : Value}
    (hname : R.name name = true) (hv : R.Holds m v) :
    Keeps R opened (Eval.assignGlobal name v) m fun _ _ => True := by
  refine keyOf g hname ?_
  intro key
  exact ⟨.bind m key name v, g.bind key name hv, trivial⟩

theorem slotOf (g : m.Good R opened) {f : FrameId} {index : Json}
    (hindex : R.number index = true) :
    Keeps R opened (Eval.slotOf f index) m fun _ _ => True := by
  refine get ?_
  cases hreceiver : (m.heap.frame f).receiver with
  | object o =>
      refine bind (Q := fun _ _ => True) ?_ fun i m' _ g' _ => pure g' trivial
      refine ofExcept g (fun _ _ => trivial) ?_
      intro fault hfault
      exact Regime.fails_of_slotNumber hindex (Regime.fails_of rfl) hfault
  | _ => exact fail g (Regime.fails_of rfl)

theorem readVariable (g : m.Good R opened) {f : FrameId} {name index : Json}
    {kind : VariableKind} (hname : R.name name = true) (hindex : R.index kind index = true) :
    Keeps R opened (Eval.readVariable f name kind index) m fun v m' => R.Holds m' v := by
  cases kind with
  | instvar =>
      refine bind (slotOf g hindex) ?_
      intro p m' _ g' _
      exact pure g'
        (forall_getD Regime.holds_nil (fun x hx => g'.stored x (.of_object (.inl hx))) p.2)
  | global => exact lookupGlobal g hname
  | temp => exact lookup g hname
  | arg => exact lookup g hname

theorem writeVariable (g : m.Good R opened) {f : FrameId} {name index : Json}
    {kind : VariableKind} {v : Value} (hname : R.name name = true)
    (hindex : R.index kind index = true) (hv : R.Holds m v) :
    Keeps R opened (Eval.writeVariable f name kind index v) m fun _ _ => True := by
  cases kind with
  | instvar =>
      refine bind (slotOf g hindex) ?_
      intro p m' l g' _
      exact changeHeap (.setSlot m'.heap p.1 p.2 v) (g'.setSlot p.1 p.2 (hv.later l)) trivial
  | global => exact assignGlobal g hname hv
  | temp => exact assign g hname hv
  | arg => exact assign g hname hv

/-! ### Returns and sends -/

/-- A return to an active home unwinds to an activation in progress. -/
theorem returnFrom (g : m.Good R opened) {f : FrameId} {v : Value}
    (hf : Heap.Settled opened m.heap f) (hv : R.Holds m v) {post : Value → Memory → Prop} :
    Keeps R opened (Eval.returnFrom f v) m post := by
  refine ask (ask ?_)
  cases hactive : (m.heap.frame (m.heap.home f)).active with
  | true =>
      refine note g (stop g ⟨?_, hv⟩)
      -- a home that is not in the list would be over
      rcases hf.2 with hmem | hover
      · exact hmem
      · rw [hactive] at hover
        cases hover
  | false => exact ask (fail g (Regime.fails_of rfl))

theorem startOf (g : m.Good R opened) {f : FrameId} (hf : f < m.heap.frames.size)
    {receiver : Value} (hreceiver : R.Holds m receiver) (toSuper : Bool) :
    Keeps R opened (Eval.startOf f toSuper receiver) m fun _ _ => True := by
  cases toSuper with
  | true =>
      refine ask ?_
      obtain ⟨method, hmethod, -⟩ := g.running f hf
      rw [hmethod]
      exact pure g trivial
  | false => exact bind (classOf g hreceiver) fun b m' _ g' _ => pure g' trivial

theorem methodFrom (g : m.Good R opened) {selector : Json} (hselector : R.name selector = true)
    (start : Option Behavior) :
    Keeps R opened (Eval.methodFrom selector start) m fun found _ =>
      ∀ method, found = some method → R.method method = true := by
  cases start with
  | none => exact pure g fun method h => nomatch h
  | some b => exact keyOf g hselector fun key => pure g fun method h => g.method h

theorem notUnderstood {α : Type} (g : m.Good R opened) {receiver : Value} {selector : Json}
    (hreceiver : R.Holds m receiver) (hselector : R.name selector = true)
    {post : α → Memory → Prop} :
    Keeps R opened (Eval.notUnderstood receiver selector) m post := by
  refine bind (classOf g hreceiver) fun b m' _ g' _ => ask ?_
  exact failAbout g' hselector fun _ => rfl

end Eval.Keeps

end Smalltalk
