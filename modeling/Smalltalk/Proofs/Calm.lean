import Smalltalk.Proofs.Layout
import Smalltalk.Proofs.Misuse

/-!
# `Smalltalk.Proofs.Calm`: evaluations that leave scopes alone

Most of what an evaluation does has nothing to do with scopes. Between two memories it is
calm (`Memory.Calm`) when there are the same frames with the same names declared, the same
closures and the same classes, but that frames of a given list may have got names.

`Eval.Calm new act m post` says that `act` is calm, does not end with a variable that
nobody declares, and answers what `post` says. There is a rule for each way to combine
evaluations and one for each function that asks for no task. Reading and assigning a
variable is calm where some frame of the chain declares it.
-/

set_option autoImplicit false

namespace Smalltalk

/-- Whether a fault is another than a variable that nobody declares. -/
def Fault.isResolved : Fault → Bool
  | .unresolvedVariable _ => false
  | _ => true

/-- Whether a stop is another than that fault. -/
def Stop.isResolved : Stop → Bool
  | .fault f => f.isResolved
  | _ => true

/-- Nothing has happened to scopes, but that some frames may have got names. -/
structure Memory.Calm (new : List FrameId) (m m' : Memory) : Prop where
  frames : m'.heap.frames.size = m.heap.frames.size
  outer : ∀ f, (m'.heap.frame f).outer = (m.heap.frame f).outer
  slots : ∀ f ∉ new, ∀ key,
    (m'.heap.frame f).slots.contains key = (m.heap.frame f).slots.contains key
  closures : m'.heap.closures = m.heap.closures
  registry : m'.registry = m.registry

namespace Memory.Calm

variable {new : List FrameId} {m m' m'' : Memory}

theorem refl (m : Memory) : m.Calm new m :=
  ⟨rfl, fun _ => rfl, fun _ _ _ => rfl, rfl, rfl⟩

theorem trans (h : m.Calm new m') (h' : m'.Calm new m'') : m.Calm new m'' where
  frames := h'.frames.trans h.frames
  outer f := (h'.outer f).trans (h.outer f)
  slots f hf key := (h'.slots f hf key).trans (h.slots f hf key)
  closures := h'.closures.trans h.closures
  registry := h'.registry.trans h.registry

theorem widen (h : m.Calm [] m') : m.Calm new m' :=
  ⟨h.frames, h.outer, fun f _ => h.slots f List.not_mem_nil, h.closures, h.registry⟩

/-- Frames and closures that are the very same are undisturbed. -/
theorem of_eq (frames : m'.heap.frames = m.heap.frames)
    (closures : m'.heap.closures = m.heap.closures) (registry : m'.registry = m.registry) :
    m.Calm new m' := by
  have hframe : ∀ f, m'.heap.frame f = m.heap.frame f := by
    intro f
    unfold Heap.frame
    rw [frames]
  exact ⟨congrArg Array.size frames, fun f => congrArg Frame.outer (hframe f),
    fun f _ key => by rw [hframe f], closures, registry⟩

/-- A frame that is closed declares what it has declared. -/
theorem retire (m : Memory) (f : FrameId) : m.Calm new (m.retire f) := by
  refine ⟨Heap.size_retire .., fun g => Heap.outer_retire .., fun g _ key => ?_, rfl, rfl⟩
  show ((m.heap.retire f).frame g).slots.contains key = _
  rw [Heap.frame_retire]
  split
  · rename_i h
    rw [h.1]
  · rfl

theorem keeps {L : Layout} (h : m.Calm new m') (hnew : ∀ f ∈ new, L.length ≤ f) :
    Keeps L m m' where
  outer f _ := h.outer f
  slots f hf key := h.slots f (fun hmem => Nat.not_lt.mpr (hnew f hmem) hf) key

theorem laid {L : Layout} (h : m.Calm new m') (hnew : ∀ f ∈ new, L.length ≤ f)
    (hl : m.Laid L) : m'.Laid L :=
  hl.later (h.keeps hnew) (List.prefix_refl L) (h.frames ▸ hl.bound) h.closures h.registry

end Memory.Calm

theorem Memory.Reached.calm {L₀ L : Layout} {m₀ m m' : Memory} (h : m₀.Reached L₀ L m)
    (hcalm : m.Calm [] m') : m₀.Reached L₀ L m' := by
  have hnew : ∀ f ∈ ([] : List FrameId), L.length ≤ f := fun f hf => nomatch hf
  have hkeeps := hcalm.keeps hnew
  exact ⟨hcalm.laid hnew h.laid, h.size.trans hcalm.frames.symm, h.layout,
    h.keeps.trans hkeeps h.layout.length_le⟩

/-! ### Faults -/

namespace Fault

/-- A misuse is not about a variable. -/
theorem isResolved_of_isMisuse {f : Fault} (h : f.isMisuse = true) : f.isResolved = true := by
  cases f with
  | unresolvedVariable name => cases h
  | _ => rfl

theorem isResolved_about {name : Json} {fault : String → Fault}
    (h : ∀ word, (fault word).isResolved = true) : (about name fault).isResolved = true :=
  of_about (P := fun f => f.isResolved = true) h fun _ => isResolved_of_isMisuse

end Fault

/-! ### What primitives refuse -/

theorem Primitive.isResolved_of_attempt {p : Primitive} {m : Memory} {receiver : Value}
    {args : List Value} {f : Fault} (h : p.attempt m receiver args = .ok (.refuse f)) :
    f.isResolved = true := by
  rcases of_attempt_refuse h with ⟨shown, rfl⟩ | ⟨i, rfl⟩ <;> rfl

/-! ### Evaluations -/

namespace Eval

/-- An evaluation that leaves scopes alone, but that some frames may get names; that does
not end with a variable that nobody declares; and that answers what `post` says. -/
def Calm {α : Type} (new : List FrameId) (act : Eval α) (m : Memory)
    (post : α → Memory → Prop) : Prop :=
  match act m with
  | .ok a m' => m.Calm new m' ∧ post a m'
  | .error s m' => m.Calm new m' ∧ s.isResolved = true

namespace Calm

variable {α β : Type} {new : List FrameId} {m : Memory}

theorem pure {a : α} {post : α → Memory → Prop} (h : post a m) :
    Calm new (Pure.pure a) m post :=
  ⟨.refl m, h⟩

theorem stop {s : Stop} {post : α → Memory → Prop} (h : s.isResolved = true) :
    Calm new (throw s) m post :=
  ⟨.refl m, h⟩

theorem fail {f : Fault} {post : α → Memory → Prop} (h : f.isResolved = true) :
    Calm new (Eval.fail f) m post :=
  stop h

theorem bind {x : Eval α} {k : α → Eval β} {Q : α → Memory → Prop} {post : β → Memory → Prop}
    (hx : Calm new x m Q)
    (hk : ∀ a m', m.Calm new m' → Q a m' → Calm new (k a) m' post) :
    Calm new (x >>= k) m post := by
  unfold Calm at hx ⊢
  cases hr : x m with
  | error s m' =>
      rw [hr] at hx
      rw [bind_of_error hr]
      exact hx
  | ok a m' =>
      rw [hr] at hx
      obtain ⟨hcalm, ha⟩ := hx
      have hrest := hk a m' hcalm ha
      unfold Calm at hrest
      rw [bind_of_ok hr]
      cases hr' : k a m' with
      | ok b m'' =>
          rw [hr'] at hrest
          exact ⟨hcalm.trans hrest.1, hrest.2⟩
      | error s m'' =>
          rw [hr'] at hrest
          exact ⟨hcalm.trans hrest.1, hrest.2⟩

theorem weaken {act : Eval α} {Q post : α → Memory → Prop} (h : Calm new act m Q)
    (hpost : ∀ a m', m.Calm new m' → Q a m' → post a m') : Calm new act m post := by
  unfold Calm at h ⊢
  cases hr : act m with
  | ok a m' =>
      rw [hr] at h
      exact ⟨h.1, hpost a m' h.1 h.2⟩
  | error s m' =>
      rw [hr] at h
      exact h

/-- What follows a question starts from the same memory. -/
theorem asking {f : Memory → α} {k : α → Eval β} {post : β → Memory → Prop}
    (h : Calm new (k (f m)) m post) : Calm new (Eval.ask f >>= k) m post :=
  h

theorem ask {f : Memory → α} {post : α → Memory → Prop} (h : post (f m) m) :
    Calm new (Eval.ask f) m post :=
  ⟨.refl m, h⟩

theorem get {k : Memory → Eval β} {post : β → Memory → Prop} (h : Calm new (k m) m post) :
    Calm new (MonadState.get >>= k) m post :=
  h

theorem ofExcept {e : Except Fault α} {post : α → Memory → Prop}
    (hok : ∀ a, e = .ok a → post a m) (herror : ∀ f, e = .error f → f.isResolved = true) :
    Calm new (Eval.ofExcept e) m post := by
  cases e with
  | ok a => exact pure (hok a rfl)
  | error f => exact fail (herror f rfl)

theorem ofMisuse {e : Except Fault α} {post : α → Memory → Prop}
    (hok : ∀ a, e = .ok a → post a m) (herror : ∀ f, e = .error f → f.isMisuse = true) :
    Calm new (Eval.ofExcept e) m post :=
  ofExcept hok fun f hf => Fault.isResolved_of_isMisuse (herror f hf)

theorem note {line : Memory → Except Fault String} {post : Unit → Memory → Prop}
    (hline : ∀ f, line m = .error f → f.isMisuse = true)
    (h : ∀ m', m'.registry = m.registry → post () m') : Calm new (Eval.note line) m post := by
  unfold Eval.note
  refine get ?_
  split
  · refine bind (Q := fun _ m' => m' = m) (ofMisuse (fun _ _ => rfl) hline) ?_
    rintro text m₁ - rfl
    have hnote : m₁.Calm new (m₁.note text) :=
      .of_eq (congrArg Heap.frames (m₁.heap_note text)) (congrArg Heap.closures (m₁.heap_note text))
        (m₁.registry_note text)
    exact ⟨hnote, h _ hnote.registry⟩
  · exact pure (h _ rfl)

variable {post : α → Memory → Prop}

theorem classOf (v : Value) : Calm new (Eval.classOf v) m fun _ m' => m' = m := by
  unfold Eval.classOf
  refine get ?_
  split
  · exact pure rfl
  · exact fail rfl

theorem keyOf (name : Json) : Calm new (Eval.ofExcept (Fault.keyOf name)) m
    fun key m' => name.key? = some key ∧ m' = m := by
  exact ofMisuse (fun key h => ⟨Fault.keyOf_eq_ok.mp h, rfl⟩) fun f => Fault.isMisuse_of_keyOf

/-! ### Variables -/

/-- Declaring a name in a frame. -/
theorem declare {f : FrameId} (hf : f < m.heap.frames.size) (name : Json) (v : Value) :
    Calm [f] (Eval.declare f name v) m fun _ m' => ∀ key,
      (m'.heap.frame f).slots.contains key
        = (Decidable.decide (name.key? = some key) || (m.heap.frame f).slots.contains key) := by
  refine bind (keyOf name) ?_
  rintro key _ - ⟨hkey, rfl⟩
  refine ⟨⟨Heap.size_declare .., fun g => Heap.outer_declare .., fun g hg k => ?_, rfl, rfl⟩,
    fun k => ?_⟩
  · show ((Heap.declare _ _ _ _ _).frame g).slots.contains k = _
    rw [Heap.frame_declare, if_neg (fun h => hg (List.mem_singleton.mpr h.1))]
  · show ((Heap.declare _ _ _ _ _).frame f).slots.contains k = _
    rw [Heap.frame_declare, if_pos ⟨rfl, hf⟩, Dictionary.contains_put, hkey]
    simp only [Option.some.injEq, eq_comm]

/-- Declaring names in a frame, one by one. -/
theorem declareEach {f : FrameId} (hf : f < m.heap.frames.size) (xs : List α) (name : α → Json)
    (value : α → Value) :
    Calm [f] (xs.forM fun x => Eval.declare f (name x) (value x)) m fun _ m' => ∀ key,
      (m'.heap.frame f).slots.contains key
        = (xs.any (fun x => (name x).key? = some key) || (m.heap.frame f).slots.contains key) := by
  induction xs generalizing m with
  | nil => exact pure fun key => (Bool.false_or _).symm
  | cons x xs ih =>
      refine bind (declare hf (name x) (value x)) ?_
      intro _ m₁ hcalm hslots
      refine (ih (hcalm.frames ▸ hf)).weaken fun _ m₂ _ hrest key => ?_
      rw [hrest key, hslots key, List.any_cons, Bool.or_left_comm, Bool.or_assoc]

/-- Declaring parameters with as many arguments. -/
theorem declareAll {f : FrameId} (hf : f < m.heap.frames.size) {names : List Json}
    {vs : List Value} (hlength : vs.length = names.length) :
    Calm [f] (Eval.declareAll f names vs) m fun _ m' => ∀ key,
      (m'.heap.frame f).slots.contains key
        = (names.any (fun name => name.key? = some key)
            || (m.heap.frame f).slots.contains key) := by
  refine (declareEach hf (names.zip vs) Prod.fst Prod.snd).weaken fun _ m' _ h key => ?_
  have hany := congrArg (fun l => l.any fun name => Decidable.decide (name.key? = some key))
    (List.map_fst_zip (Nat.le_of_eq hlength.symm))
  rw [List.any_map] at hany
  rw [h key, ← hany]
  rfl

/-- A name that a frame of the chain declares has a value. -/
theorem lookup {f : FrameId} {name : Json}
    (h : ∀ key, name.key? = some key → ∃ v, m.heap.lookup? f key = some v) :
    Calm new (Eval.lookup f name) m fun _ _ => True := by
  refine bind (keyOf name) ?_
  rintro key _ - ⟨hkey, rfl⟩
  obtain ⟨v, hv⟩ := h key hkey
  refine asking ?_
  rw [hv]
  exact pure trivial

/-- Assigning to a name changes the frame that declares it already. -/
theorem assign {f : FrameId} {name : Json}
    (h : ∀ key, name.key? = some key → ∃ g, m.heap.owner? f key = some g) (v : Value) :
    Calm new (Eval.assign f name v) m fun _ _ => True := by
  refine bind (keyOf name) ?_
  rintro key m₁ - ⟨hkey, rfl⟩
  obtain ⟨g, hg⟩ := h key hkey
  have hdeclares : (m₁.heap.frame g).slots.contains key = true :=
    List.find?_some (p := fun g => (m₁.heap.frame g).slots.contains key) hg
  refine asking ?_
  rw [hg]
  refine ⟨⟨Heap.size_declare .., fun f' => Heap.outer_declare .., fun f' _ k => ?_, rfl, rfl⟩,
    trivial⟩
  show ((Heap.declare _ _ _ _ _).frame f').slots.contains k = _
  rw [Heap.frame_declare]
  split
  · rename_i hself
    rw [Dictionary.contains_put, hself.1]
    by_cases hk : k = key
    · rw [hk, hdeclares, Bool.or_true]
    · rw [decide_eq_false hk, Bool.false_or]
  · rfl

theorem lookupGlobal (name : Json) : Calm new (Eval.lookupGlobal name) m fun _ _ => True := by
  refine bind (keyOf name) fun key m₁ _ _ => asking ?_
  split
  · exact pure trivial
  · exact fail (Fault.isResolved_about fun _ => rfl)

theorem assignGlobal (name : Json) (v : Value) :
    Calm new (Eval.assignGlobal name v) m fun _ _ => True :=
  bind (keyOf name) fun _ _ _ _ => ⟨.of_eq rfl rfl rfl, trivial⟩

theorem slotOf (f : FrameId) (index : Json) :
    Calm new (Eval.slotOf f index) m fun _ _ => True := by
  unfold Eval.slotOf
  refine get ?_
  simp only
  split
  · refine bind (Q := fun _ _ => True) (ofExcept (fun _ _ => trivial) fun f hf => ?_) ?_
    · rcases Fault.of_slotNumber hf with rfl | hmisuse
      · rfl
      · exact Fault.isResolved_of_isMisuse hmisuse
    · exact fun _ _ _ _ => pure trivial
  · exact fail rfl

theorem readVariable {f : FrameId} {name : Json} {kind : VariableKind}
    (h : kind.isLocal = true → ∀ key, name.key? = some key → ∃ v, m.heap.lookup? f key = some v)
    (index : Json) : Calm new (Eval.readVariable f name kind index) m fun _ _ => True := by
  cases kind with
  | instvar => exact bind (slotOf f index) fun _ _ _ _ => ask trivial
  | global => exact lookupGlobal name
  | temp => exact lookup (h rfl)
  | arg => exact lookup (h rfl)

theorem writeVariable {f : FrameId} {name : Json} {kind : VariableKind}
    (h : kind.isLocal = true → ∀ key, name.key? = some key → ∃ g, m.heap.owner? f key = some g)
    (index : Json) (v : Value) :
    Calm new (Eval.writeVariable f name kind index v) m fun _ _ => True := by
  cases kind with
  | instvar => exact bind (slotOf f index) fun _ _ _ _ => ⟨.of_eq rfl rfl rfl, trivial⟩
  | global => exact assignGlobal name v
  | temp => exact assign (h rfl) v
  | arg => exact assign (h rfl) v

/-! ### Sends and returns -/

theorem returnFrom (f : FrameId) (v : Value) :
    Calm new (Eval.returnFrom f v) m fun _ _ => True := by
  unfold Eval.returnFrom
  refine asking (asking ?_)
  split
  · refine bind (Q := fun _ _ => True) (note (fun f hf => ?_) fun _ _ => trivial) ?_
    · exact Fault.isMisuse_of_map (fun _ => Fault.isMisuse_of_frameWord) hf
    · exact fun _ _ _ _ => stop rfl
  · exact asking (fail rfl)

theorem startOf (f : FrameId) (toSuper : Bool) (v : Value) :
    Calm new (Eval.startOf f toSuper v) m fun _ _ => True := by
  unfold Eval.startOf
  split
  · refine asking ?_
    split
    · exact ask trivial
    · exact fail rfl
  · exact bind (classOf v) fun _ _ _ _ => pure trivial

/-- A method that is found is installed. -/
theorem methodFrom (hinstalled : m.registry.Scoped) (selector : Json)
    (start : Option Behavior) : Calm new (Eval.methodFrom selector start) m
      fun found _ => ∀ method, found = some method → method.body.isScoped [] = true := by
  cases start with
  | none => exact pure fun _ h => nomatch h
  | some b =>
      refine bind (keyOf selector) ?_
      rintro key _ - ⟨-, rfl⟩
      refine ask fun method hmethod => ?_
      obtain ⟨c, -, hfind⟩ := List.exists_of_findSome?_eq_some hmethod
      exact hinstalled c key method hfind

theorem notUnderstood (v : Value) (selector : Json) :
    Calm new (Eval.notUnderstood v selector : Eval α) m post :=
  bind (classOf v) fun _ _ _ _ => asking (fail (Fault.isResolved_about fun _ => rfl))

theorem printed (v : Value) : Calm new (Eval.printed v) m fun _ _ => True := by
  refine asking ?_
  split
  · exact pure trivial
  · exact stop rfl

/-! ### Primitives -/

theorem decide (settings : Settings) (m₀ : Memory) (receiver : Value) (args : List Value)
    (number : Json) : Calm new (Eval.ofExcept (Eval.decide settings m₀ receiver args number)) m
      fun choice _ => ∀ f, choice = .ok (.refuse f) → f.isResolved = true := by
  refine ofMisuse (fun choice hchoice f hf => ?_) fun f hf => Fault.isMisuse_of_decide hf
  subst hf
  obtain ⟨p, hp⟩ := Primitive.of_decide hchoice
  exact Primitive.isResolved_of_attempt hp

/-- An action that asks for no task. -/
theorem perform {settings : Settings} {rec : Task → Eval Value} {f : FrameId} {action : Action}
    (hcall : ∀ c args, action ≠ .call c args)
    (hloop : ∀ condition body goOn, action ≠ .loop condition body goOn)
    (hrefuse : ∀ fault, action = .refuse fault → fault.isResolved = true) :
    Calm new (Eval.perform settings rec f action) m fun _ _ => True := by
  cases action with
  | answer v => exact pure trivial
  | tally n =>
      show Calm new (if n ≤ settings.room then _ else _) m _
      split
      · exact pure trivial
      · exact stop rfl
  | newText s => exact ⟨.of_eq rfl rfl rfl, trivial⟩
  | newArray xs => exact ⟨.of_eq rfl rfl rfl, trivial⟩
  | newObject cls size => exact ⟨.of_eq rfl rfl rfl, trivial⟩
  | setElement a i v => exact ⟨.of_eq rfl rfl rfl, trivial⟩
  | setIndexed o i v => exact ⟨.of_eq rfl rfl rfl, trivial⟩
  | setSlot o i v => exact ⟨.of_eq rfl rfl rfl, trivial⟩
  -- tasks may make frames of their own, so these two are left to the caller
  | call c args => exact absurd rfl (hcall c args)
  | loop condition body goOn => exact absurd rfl (hloop condition body goOn)
  | print v =>
      refine bind (printed v) fun s m₁ _ _ => asking ?_
      split
      · exact ⟨.of_eq rfl rfl rfl, trivial⟩
      · exact pure trivial
  | signal v =>
      simp only [Eval.perform]
      split
      · exact fail rfl
      · exact bind (printed v) fun _ _ _ _ => fail rfl
  | refuse fault => exact fail (hrefuse fault rfl)

/-- An activation with a wrong number of arguments. -/
theorem activate {settings : Settings} {rec : Task → Eval Value} {method : Method}
    {receiver : Value} {args : List Value} {callers : List FrameId}
    (harity : args.length ≠ method.arity) :
    Calm new (Eval.activate settings rec method receiver args callers) m fun _ _ => True := by
  unfold Eval.activate
  rw [if_pos harity]
  refine get (bind (Q := fun _ _ => True) (ofMisuse (fun _ _ => trivial) fun f hf => ?_) ?_)
  · exact Fault.isMisuse_of_methodWord hf
  · exact fun _ _ _ _ => fail rfl

end Calm

end Eval

end Smalltalk
