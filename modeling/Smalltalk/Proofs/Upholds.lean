import Smalltalk.Proofs.Charter

/-!
# `Smalltalk.Proofs.Upholds`: evaluations that keep to a charter

`Upholds K settings act m post` says that `act`, started from `m`, ends in a later memory
that keeps to the charter, and either with a value as `post` says or with a stop that is
allowed: a value that is returned is allowed wherever it unwinds to, and where instance
variables have to be there, no fault says that one is not.

It starts from a memory in which the charter can be kept (`Memory.Runs`): all code that
is installed is allowed, and so is every count. The rules come first, then one lemma for
each action that runs nothing. Nothing is asked of the frames that are in progress.
-/

set_option autoImplicit false

namespace Smalltalk

/-- All that is installed is allowed, and the counts there is room for. -/
structure Charter.Serves (K : Charter) (settings : Settings) (r : Registry) : Prop where
  installed : ∀ b key method, (r.table b).methods.find? key = some method →
    ∀ s ∈ method.statements, K.code r (some method) s
  count : ∀ n, n ≤ settings.room → K.int n

/-- A memory in which evaluations keep to a charter. -/
structure Memory.Runs (K : Charter) (settings : Settings) (m : Memory) : Prop
    extends m.Abides K where
  lawful : K.Lawful
  serves : K.Serves settings m.registry

variable {K : Charter} {settings : Settings} {m m' : Memory}

namespace Memory.Runs

/-- An evaluation leaves the classes alone, so only what is stored has to be looked at. -/
theorem later (g : m.Runs K settings) (l : m.Later m') (a : m'.Abides K) :
    m'.Runs K settings :=
  ⟨a, g.lawful, l.registry ▸ g.serves⟩

theorem lookup? (g : m.Runs K settings) {f : FrameId} {key : Key} {v : Value}
    (h : m.heap.lookup? f key = some v) : K.Holds m v :=
  g.stored v (.of_lookup? h)

theorem receiver (g : m.Runs K settings) (f : FrameId) : K.Holds m (m.heap.frame f).receiver :=
  g.stored _ (.of_frame (.inl rfl))

/-- A method that is found is installed. -/
theorem code_of_lookup (g : m.Runs K settings) {key : Key} {b : Behavior} {method : Method}
    (h : m.registry.lookup? key b = some method) :
    ∀ s ∈ method.statements, K.code m.registry (some method) s := by
  obtain ⟨c, -, hc⟩ := List.exists_of_findSome?_eq_some h
  exact g.serves.installed c key method hc

end Memory.Runs

/-- The stops that may end an evaluation. -/
def Charter.Stops (K : Charter) (m : Memory) : Stop → Prop
  | .unwind v _ => K.Holds m v
  | .fault f => K.Fails f
  | .tooDeep | .unfinished => True

namespace Eval

variable {α β : Type}

/-- An outcome that keeps to the charter and is as `post` says. -/
def Upheld (K : Charter) (settings : Settings) (m : Memory) (post : α → Memory → Prop) :
    Outcome α → Prop
  | .ok a m' => m.Later m' ∧ m'.Runs K settings ∧ post a m'
  | .error s m' => m.Later m' ∧ m'.Runs K settings ∧ K.Stops m' s

/-- An evaluation that keeps to the charter and ends as `post` says. -/
def Upholds (K : Charter) (settings : Settings) (act : Eval α) (m : Memory)
    (post : α → Memory → Prop) : Prop :=
  Upheld K settings m post (act m)

namespace Upholds

variable {post : α → Memory → Prop}

/-! ### Rules -/

theorem pure {a : α} (g : m.Runs K settings) (h : post a m) :
    Upholds K settings (Pure.pure a) m post :=
  ⟨.refl m, g, h⟩

theorem stop {s : Stop} (g : m.Runs K settings) (h : K.Stops m s) :
    Upholds K settings (throw s) m post :=
  ⟨.refl m, g, h⟩

theorem fail {f : Fault} (g : m.Runs K settings) (h : K.Fails f) :
    Upholds K settings (Eval.fail f) m post :=
  stop g h

/-- What follows starts from a later memory. -/
theorem bind {x : Eval α} {f : α → Eval β} {Q : α → Memory → Prop} {post : β → Memory → Prop}
    (hx : Upholds K settings x m Q)
    (hf : ∀ a m', m.Later m' → m'.Runs K settings → Q a m' → Upholds K settings (f a) m' post) :
    Upholds K settings (x >>= f) m post := by
  unfold Upholds at hx ⊢
  cases hr : x m with
  | ok a m₁ =>
      rw [bind_of_ok hr]
      rw [hr] at hx
      obtain ⟨l, g, h⟩ := hx
      -- the second part is later than the first, and so than the start
      have hk := hf a m₁ l g h
      unfold Upholds at hk
      cases hr' : f a m₁ with
      | ok b m₂ =>
          rw [hr'] at hk
          exact ⟨l.trans hk.1, hk.2⟩
      | error s m₂ =>
          rw [hr'] at hk
          exact ⟨l.trans hk.1, hk.2⟩
  | error s m₁ =>
      rw [bind_of_error hr]
      rw [hr] at hx
      exact hx

theorem weaken {act : Eval α} {Q post : α → Memory → Prop} (hact : Upholds K settings act m Q)
    (h : ∀ a m', m.Later m' → m'.Runs K settings → Q a m' → post a m') :
    Upholds K settings act m post := by
  unfold Upholds at hact ⊢
  cases hr : act m with
  | ok a m₁ =>
      rw [hr] at hact
      exact ⟨hact.1, hact.2.1, h a m₁ hact.1 hact.2.1 hact.2.2⟩
  | error s m₁ =>
      rw [hr] at hact
      exact hact

/-- Looking something up changes nothing. -/
theorem ask {f : Memory → α} {k : α → Eval β} {post : β → Memory → Prop}
    (h : Upholds K settings (k (f m)) m post) : Upholds K settings (Eval.ask f >>= k) m post :=
  h

theorem get {k : Memory → Eval β} {post : β → Memory → Prop}
    (h : Upholds K settings (k m) m post) :
    Upholds K settings (MonadState.get >>= k) m post :=
  h

/-- A value that there may be a fault instead of. -/
theorem ofExcept {e : Except Fault α} {k : α → Eval β} {post : β → Memory → Prop}
    (g : m.Runs K settings) (herror : ∀ f, e = .error f → K.Fails f)
    (hok : ∀ a, e = .ok a → Upholds K settings (k a) m post) :
    Upholds K settings (Eval.ofExcept e >>= k) m post := by
  cases e with
  | ok a => exact hok a rfl
  | error f => exact fail g (herror f rfl)

/-- A change of the heap. -/
theorem changeHeap {f : Heap → Heap} {post : Unit → Memory → Prop} (g : m.Runs K settings)
    (l : m.heap.Later (f m.heap)) (a : Memory.Abides K { m with heap := f m.heap })
    (h : post () { m with heap := f m.heap }) :
    Upholds K settings (Eval.changeHeap f) m post :=
  ⟨.of_heap l, g.later (.of_heap l) a, h⟩

/-- Something new in the heap. -/
theorem make {f : Heap → Heap × α} (g : m.Runs K settings) (l : m.heap.Later (f m.heap).1)
    (a : Memory.Abides K { m with heap := (f m.heap).1 })
    (h : post (f m.heap).2 { m with heap := (f m.heap).1 }) :
    Upholds K settings (Eval.make f) m post :=
  ⟨.of_heap l, g.later (.of_heap l) a, h⟩

/-- The elements of a list one by one. -/
theorem mapM {xs : List α} {f : α → Eval β} {P : β → Memory → Prop}
    (hP : ∀ b m m', m.Later m' → P b m → P b m') (g : m.Runs K settings)
    (hf : ∀ x ∈ xs, ∀ m', m.Later m' → m'.Runs K settings → Upholds K settings (f x) m' P) :
    Upholds K settings (xs.mapM f) m fun bs m' => ∀ b ∈ bs, P b m' := by
  induction xs generalizing m with
  | nil =>
      rw [List.mapM_nil]
      exact pure g fun _ h => absurd h List.not_mem_nil
  | cons x xs ih =>
      rw [List.mapM_cons]
      refine bind (hf x List.mem_cons_self m (.refl m) g) ?_
      intro b m₁ l₁ g₁ hb
      have htail := ih g₁ fun y hy m' l' g' =>
        hf y (List.mem_cons_of_mem _ hy) m' (l₁.trans l') g'
      refine bind htail ?_
      intro bs m₂ l₂ g₂ hbs
      refine pure g₂ ?_
      intro c hc
      rcases List.mem_cons.mp hc with rfl | hc
      · exact hP c m₁ m₂ l₂ hb
      · exact hbs c hc

theorem forM {xs : List α} {f : α → Eval Unit} (g : m.Runs K settings)
    (hf : ∀ x ∈ xs, ∀ m', m.Later m' → m'.Runs K settings →
      Upholds K settings (f x) m' fun _ _ => True) :
    Upholds K settings (xs.forM f) m fun _ _ => True := by
  induction xs generalizing m with
  | nil => exact pure g trivial
  | cons x xs ih =>
      refine bind (hf x List.mem_cons_self m (.refl m) g) ?_
      intro _ m₁ l₁ g₁ _
      exact ih g₁ fun y hy m' l' g' => hf y (List.mem_cons_of_mem _ hy) m' (l₁.trans l') g'

theorem foldlM {xs : List α} {f : β → α → Eval β} {b : β} {P : β → Memory → Prop}
    (g : m.Runs K settings) (hb : P b m)
    (hf : ∀ x ∈ xs, ∀ b m', m.Later m' → m'.Runs K settings → Upholds K settings (f b x) m' P) :
    Upholds K settings (xs.foldlM f b) m P := by
  induction xs generalizing m b with
  | nil => exact pure g hb
  | cons x xs ih =>
      rw [List.foldlM_cons]
      refine bind (hf x List.mem_cons_self b m (.refl m) g) ?_
      intro b' m₁ l₁ g₁ hb'
      exact ih g₁ hb' fun y hy c m' l' g' =>
        hf y (List.mem_cons_of_mem _ hy) c m' (l₁.trans l') g'

/-! ### Texts and classes -/

/-- A line of the journal is a fault only where a name is no text. -/
theorem note {line : Memory → Except Fault String} (g : m.Runs K settings)
    (hline : ∀ f, line m = .error f → f.isMisuse = true) :
    Upholds K settings (Eval.note line) m fun _ _ => True := by
  refine get ?_
  cases hrecording : m.journal.recording with
  | false => exact pure g trivial
  | true =>
      refine ofExcept g (fun f hf => Charter.fails_of_isMisuse (hline f hf)) fun text _ => ?_
      have l := Memory.later_note m text
      exact ⟨l, g.later l (g.toAbides.note g.lawful text), trivial⟩

/-- A fault about a name. -/
theorem failAbout {name : Json} {fault : String → Fault} (g : m.Runs K settings)
    (h : ∀ word, (fault word).isSlotFault = false) :
    Upholds K settings (Eval.fail (Fault.about name fault)) m post :=
  fail g (Charter.fails_about h)

/-- A name that is looked up. -/
theorem keyOf {name : Json} {k : Key → Eval β} {post : β → Memory → Prop}
    (g : m.Runs K settings) (h : ∀ key, Upholds K settings (k key) m post) :
    Upholds K settings (Eval.ofExcept (Fault.keyOf name) >>= k) m post :=
  ofExcept g (fun _ hf => Charter.fails_of_isMisuse (Fault.isMisuse_of_keyOf hf))
    fun key _ => h key

theorem makeText (g : m.Runs K settings) (s : String) :
    Upholds K settings (Eval.makeText s) m fun v m' => K.Holds m' v := by
  have l := Memory.Later.of_heap (Heap.Later.texts m.heap (m.heap.texts + 1))
  exact ⟨l, g.later l (g.toAbides.texts g.lawful _), Charter.holds_text _ _⟩

theorem classOf (g : m.Runs K settings) (v : Value) :
    Upholds K settings (Eval.classOf v) m fun b m' => m' = m ∧ m.classOf? v = some b := by
  refine get ?_
  cases hclass : m.classOf? v with
  | some b => exact pure g ⟨rfl, rfl⟩
  | none => exact fail g (Charter.fails rfl)

theorem printed (g : m.Runs K settings) (v : Value) :
    Upholds K settings (Eval.printed v) m fun _ _ => True := by
  refine ask ?_
  cases m.print? v with
  | some s => exact pure g trivial
  | none => exact stop g trivial

/-! ### Variables -/

theorem declare (g : m.Runs K settings) {f : FrameId} {name : Json} {v : Value}
    (hv : K.Holds m v) : Upholds K settings (Eval.declare f name v) m fun _ _ => True := by
  refine keyOf g fun key => ?_
  exact changeHeap g (.declare m.heap f key name v) (g.toAbides.declare g.lawful f key name hv)
    trivial

theorem declareAll (g : m.Runs K settings) {f : FrameId} {names : List Json} {vs : List Value}
    (hvs : ∀ v ∈ vs, K.Holds m v) :
    Upholds K settings (Eval.declareAll f names vs) m fun _ _ => True := by
  refine forM g ?_
  intro p hp m' l g'
  exact declare g' ((hvs p.2 (List.of_mem_zip hp).2).later l)

theorem lookup (g : m.Runs K settings) {f : FrameId} {name : Json} :
    Upholds K settings (Eval.lookup f name) m fun v m' => K.Holds m' v := by
  refine keyOf g fun key => ask ?_
  cases hv : m.heap.lookup? f key with
  | some v => exact pure g (g.lookup? hv)
  | none => exact failAbout g fun _ => rfl

theorem assign (g : m.Runs K settings) {f : FrameId} {name : Json} {v : Value}
    (hv : K.Holds m v) : Upholds K settings (Eval.assign f name v) m fun _ _ => True := by
  refine keyOf g fun key => ask ?_
  cases m.heap.owner? f key with
  | some owner =>
      exact changeHeap g (.declare m.heap owner key name v)
        (g.toAbides.declare g.lawful owner key name hv) trivial
  | none => exact failAbout g fun _ => rfl

theorem lookupGlobal (g : m.Runs K settings) {name : Json} :
    Upholds K settings (Eval.lookupGlobal name) m fun v m' => K.Holds m' v := by
  refine keyOf g fun key => ask ?_
  cases hv : m.globals.find? key with
  | some v => exact pure g (g.bound key v hv)
  | none => exact failAbout g fun _ => rfl

theorem assignGlobal (g : m.Runs K settings) {name : Json} {v : Value} (hv : K.Holds m v) :
    Upholds K settings (Eval.assignGlobal name v) m fun _ _ => True := by
  refine keyOf g fun key => ?_
  have l := Memory.Later.bind m key name v
  exact ⟨l, g.later l (g.toAbides.bind g.lawful key name hv), trivial⟩

/-- Where instance variables have to be there, the index names one. -/
theorem slotOf (g : m.Runs K settings) {f : FrameId} (hf : f < m.heap.frames.size) {index : Json}
    (huses : K.Uses m.registry (m.heap.frame f).method index) :
    Upholds K settings (Eval.slotOf f index) m fun _ m' => m' = m := by
  have hslot := fun hstrict => g.lawful.slot hstrict m _ _ index g.toAbides (g.receiver f)
    (g.seated f hf) huses
  refine get ?_
  cases hreceiver : (m.heap.frame f).receiver with
  | object o =>
      refine ofExcept g ?_ fun i _ => pure g rfl
      -- the only fault is that the index is no slot, and the charter excludes it
      intro fault hfault hstrict
      obtain ⟨o', i, hobject, hi⟩ := hslot hstrict
      rw [hreceiver] at hobject
      cases hobject
      rw [hi] at hfault
      cases hfault
  | _ =>
      refine fail g fun hstrict => ?_
      obtain ⟨o', i, hobject, -⟩ := hslot hstrict
      rw [hreceiver] at hobject
      cases hobject

theorem readVariable (g : m.Runs K settings) {f : FrameId} (hf : f < m.heap.frames.size)
    {name index : Json} {kind : VariableKind}
    (hcode : K.code m.registry (m.heap.frame f).method (.reference name kind index)) :
    Upholds K settings (Eval.readVariable f name kind index) m fun v m' => K.Holds m' v := by
  cases kind with
  | instvar =>
      refine bind (slotOf g hf (.inl ⟨name, hcode⟩)) ?_
      intro p m' _ g' _
      exact pure g'
        (forall_getD Charter.holds_nil (fun x hx => g'.stored x (.of_object (.inl hx))) p.2)
  | global => exact lookupGlobal g
  | temp => exact lookup g
  | arg => exact lookup g

theorem writeVariable (g : m.Runs K settings) {f : FrameId} (hf : f < m.heap.frames.size)
    {name index : Json} {kind : VariableKind} {value : Node} {v : Value}
    (hcode : K.code m.registry (m.heap.frame f).method (.assign name kind index value))
    (hv : K.Holds m v) :
    Upholds K settings (Eval.writeVariable f name kind index v) m fun _ _ => True := by
  cases kind with
  | instvar =>
      refine bind (slotOf g hf (.inr ⟨name, value, hcode⟩)) ?_
      intro p m' l g' _
      exact changeHeap g' (.setSlot m'.heap p.1 p.2 v)
        (g'.toAbides.setSlot g'.lawful p.1 p.2 (hv.later l)) trivial
  | global => exact assignGlobal g hv
  | temp => exact assign g hv
  | arg => exact assign g hv

/-! ### Returns and sends -/

theorem returnFrom (g : m.Runs K settings) {f : FrameId} {v : Value} (hv : K.Holds m v)
    {post : Value → Memory → Prop} :
    Upholds K settings (Eval.returnFrom f v) m post := by
  refine ask (ask ?_)
  split
  · refine bind (note g fun f' hf' => ?_) fun _ _ l₁ g₁ _ => stop g₁ (hv.later l₁)
    exact Fault.isMisuse_of_map (fun _ => Fault.isMisuse_of_frameWord) hf'
  · exact ask (fail g (Charter.fails rfl))

/-- Whatever is found from the start may run on the receiver. A send to super has the
receiver of the frame. -/
theorem startOf (g : m.Runs K settings) {f : FrameId} (hf : f < m.heap.frames.size) {v : Value}
    (hv : K.Holds m v) {toSuper : Bool}
    (hsuper : toSuper = true → v = (m.heap.frame f).receiver) :
    Upholds K settings (Eval.startOf f toSuper v) m fun start m' => m' = m ∧
      ∀ b key method, start = some b → m.registry.lookup? key b = some method →
        K.seat m v (some method) := by
  cases toSuper with
  | true =>
      refine ask ?_
      -- the look-up starts above the owner of a method that runs on this receiver
      have hseat := g.seated f hf
      rw [← hsuper rfl] at hseat
      cases hmethod : (m.heap.frame f).method with
      | none => exact fail g (Charter.fails rfl)
      | some running =>
          rw [hmethod] at hseat
          refine pure g ⟨rfl, fun b key method hstart hfound => ?_⟩
          exact g.lawful.above m v running b key method g.toAbides hv hseat hstart hfound
  | false =>
      refine bind (classOf g v) ?_
      rintro b m' _ g' ⟨rfl, hclass⟩
      refine pure g' ⟨rfl, ?_⟩
      rintro _ key method ⟨⟩ hfound
      exact g'.lawful.found m' v b key method g'.toAbides hv hclass hfound

/-- The method that is found, may run on the receiver and is allowed itself. -/
theorem methodFrom (g : m.Runs K settings) {selector : Json} {start : Option Behavior}
    {v : Value} (hstart : ∀ b key method, start = some b →
      m.registry.lookup? key b = some method → K.seat m v (some method)) :
    Upholds K settings (Eval.methodFrom selector start) m fun found m' => m' = m ∧
      ∀ method, found = some method → K.Enters m v method := by
  cases start with
  | none => exact pure g ⟨rfl, fun _ h => nomatch h⟩
  | some b =>
      refine keyOf g fun key => pure g ⟨rfl, fun method hfound => ?_⟩
      exact ⟨hstart b key method rfl hfound, g.code_of_lookup hfound⟩

theorem notUnderstood (g : m.Runs K settings) {v : Value} {selector : Json} :
    Upholds K settings (Eval.notUnderstood v selector) m post := by
  refine bind (classOf g v) ?_
  rintro b m' _ g' -
  exact ask (failAbout g' fun _ => rfl)

end Upholds

end Eval

end Smalltalk
