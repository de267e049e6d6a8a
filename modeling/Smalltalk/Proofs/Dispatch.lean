import Smalltalk.Proofs.Growth
import Smalltalk.Proofs.Sends

/-!
# `Smalltalk.Proofs.Dispatch`: which method a send activates

Look-up goes up from superclass to superclass. `Registry.Ascends` is the chain that this
meets: it is there for every class and metaclass, registered or not, and there is just one
(`Registry.Ordered.ascends`, `Registry.Ascends.unique`). The induction is on the line, which
is ordered: each class is older than the one before, and a metaclass comes before any class.
What is found is the method of the first on the chain that has one
(`Registry.Ordered.hasFirst`). The chain of a metaclass crosses over to the class that is
registered as `Class`, whichever this is by now (`Registry.Ascends.metaclass`).

A send evaluates its receiver and its arguments, and where one of these stops, the send
does. Then the look-up starts (`Memory.Starts`). `Memory.Dispatches` collects what comes of
that, and `lookup_decides_sends` proves it of every memory that a system can come to.
-/

set_option autoImplicit false

namespace Smalltalk

variable {settings : Settings} {m : Memory} {depth : Nat}

/-! ### Chains -/

namespace Registry

/-- Going up as look-up does meets these classes and metaclasses, and ends. -/
inductive Ascends (r : Registry) : Behavior → List Behavior → Prop where
  | top {b : Behavior} (none : r.superclass? b = none) : Ascends r b [b]
  | up {b s : Behavior} {rest : List Behavior} (next : r.superclass? b = some s)
      (above : Ascends r s rest) : Ascends r b (b :: rest)

/-- What the first on a chain has for a selector that has anything. -/
def HasFirst (r : Registry) (key : Key) (chain : List Behavior) : Option Method → Prop
  | some method => ∃ below c above, chain = below ++ c :: above ∧
      (r.table c).methods.find? key = some method ∧
      ∀ c' ∈ below, (r.table c').methods.find? key = none
  | none => ∀ c ∈ chain, (r.table c).methods.find? key = none

variable {r : Registry} {b : Behavior} {chain : List Behavior}

theorem Ascends.unique (h : r.Ascends b chain) {chain' : List Behavior}
    (h' : r.Ascends b chain') : chain' = chain := by
  induction h generalizing chain' with
  | top hnone =>
      cases h' with
      | top => rfl
      | up hnext => exact nomatch hnone.symm.trans hnext
  | up hnext _ ih =>
      cases h' with
      | top hnone => exact nomatch hnone.symm.trans hnext
      | up hnext' habove =>
          cases hnext.symm.trans hnext'
          rw [ih habove]

/-- The line of a class or metaclass is the chain that look-up meets. -/
theorem Ordered.ascends (o : r.Ordered) (b : Behavior) : r.Ascends b (r.line b) := by
  rw [o.line_eq b]
  cases hnext : r.superclass? b with
  | none => exact .top hnext
  | some s =>
      have hdecreases := o.of_superclass? hnext
      exact .up hnext (o.ascends s)
termination_by (b.isMeta.toNat, b.id)
decreasing_by
  rcases hdecreases with ⟨hside, hlt⟩ | ⟨hside, id, -, rfl⟩
  · rw [hside]
    exact .right _ hlt
  · rw [hside]
    exact .left _ _ Nat.one_pos

/-- Look-up answers what the first on the chain has. -/
theorem Ordered.hasFirst (o : r.Ordered) (h : r.Ascends b chain) (key : Key) :
    r.HasFirst key chain (r.lookup? key b) := by
  obtain rfl := h.unique (o.ascends b)
  cases hfound : r.lookup? key b with
  | none => exact fun c hc => List.findSome?_eq_none_iff.mp hfound c hc
  | some method =>
      obtain ⟨below, c, above, hline, hc, hbelow⟩ := List.findSome?_eq_some_iff.mp hfound
      exact ⟨below, c, above, hline, hc, hbelow⟩

/-- Above the metaclasses of a chain comes what is registered as `Class`. -/
theorem Ascends.metaclass {id c : ClassId} {classChain : List Behavior}
    (h : r.Ascends ⟨id, false⟩ chain) (hclass : r.find? "Class" = some c)
    (hchain : r.Ascends ⟨c, false⟩ classChain) :
    r.Ascends ⟨id, true⟩ (chain.map Behavior.metaclass ++ classChain) := by
  generalize hb : (⟨id, false⟩ : Behavior) = b at h
  induction h generalizing id with
  | top hnone =>
      subst hb
      refine .up ?_ hchain
      rw [superclass?_metaclass, hnone, hclass]
      rfl
  | @up b s rest hnext _ ih =>
      subst hb
      -- a class has a class above it, and no metaclass
      have hside : s = ⟨s.id, false⟩ := by
        rw [superclass?_eq] at hnext
        cases hown : r.ownSuperclass? ⟨id, false⟩ with
        | none =>
            rw [hown] at hnext
            cases hnext
        | some s' =>
            rw [hown] at hnext
            obtain ⟨p, -, rfl⟩ := Option.map_eq_some_iff.mp hown
            cases hnext
            rfl
      refine .up ?_ (ih hside.symm)
      rw [superclass?_metaclass, hnext, hside]
      rfl

end Registry

/-! ### Sends -/

/-- Only a text counts as a text where keys are compared. -/
theorem Json.eq_str_of_key? {name : Json} {s : String} (h : name.key? = some (.text s)) :
    name = .str s := by
  cases name with
  | str t =>
      cases h
      rfl
  | float x =>
      simp only [key?] at h
      split at h <;> cases h
  | _ => cases h

/-- Metaclasses have a class as well. -/
theorem Memory.exists_find?_class (h : ∀ c ∈ Kernel.classes, (m.registry.find? c.name).isSome) :
    ∃ id, m.registry.find? "Class" = some id := by
  have hthere : ∃ c ∈ Kernel.classes, c.name = "Class" := by decide
  obtain ⟨c, hc, hname⟩ := hthere
  exact Option.isSome_iff_exists.mp (hname ▸ h c hc)

/-- Every value has a class but for those that come from outside. -/
theorem Memory.exists_classOf? (h : ∀ c ∈ Kernel.classes, (m.registry.find? c.name).isSome)
    {v : Value} (hv : ∀ json mark, v ≠ .foreign json mark) : ∃ cls, m.classOf? v = some cls := by
  have hnamed : ∀ name, v.kernelClass? = some name → ∃ cls, m.classOf? v = some cls := by
    intro name hname
    obtain ⟨c, hc, rfl⟩ := Kernel.mem_classes_of_kernelClass? hname
    obtain ⟨id, hid⟩ := Option.isSome_iff_exists.mp (h c hc)
    rw [classOf?_of_kernelClass? hname, hid]
    exact ⟨_, rfl⟩
  cases v with
  | object o => exact ⟨_, rfl⟩
  | behavior b =>
      obtain ⟨id, hid⟩ := exists_find?_class h
      obtain ⟨c, side⟩ := b
      cases side with
      | false => exact ⟨_, rfl⟩
      | true => exact ⟨⟨id, false⟩, congrArg (Option.map _) hid⟩
  | foreign json mark => exact absurd rfl (hv json mark)
  | bool b => cases b <;> exact hnamed _ rfl
  | _ => exact hnamed _ rfl

/-- Where the look-up for a send from a frame starts, when the receiver has this value: at the
class of the receiver, or for a send to super above the owner of the method that runs. Above
a root class there is no start. -/
inductive Memory.Starts (m : Memory) (f : FrameId) (v : Value) : Node → Option Behavior → Prop
    where
  | ordinary {node : Node} {cls : Behavior} (hsuper : node.isSuper = false)
      (hclass : m.classOf? v = some cls) : Starts m f v node (some cls)
  | above {node : Node} {running : Method} (hsuper : node.isSuper = true)
      (hrunning : (m.heap.frame f).method = some running) :
    Starts m f v node (m.registry.superclass? running.owner)

theorem Memory.Starts.startOf {f : FrameId} {v : Value} {node : Node} {start : Option Behavior}
    (h : m.Starts f v node start) : Eval.startOf f node.isSuper v m = .ok start m := by
  cases h with
  | ordinary hsuper hclass =>
      rw [hsuper]
      exact Eval.startOf_class hclass
  | above hsuper hrunning =>
      rw [hsuper]
      exact Eval.startOf_super hrunning v

/-- The activations that a call makes itself, in order. -/
def Call.activations (settings : Settings) (c : Call) : List Call :=
  (c.calls settings).filter (·.task.isActivation)

/-- What a call comes to: it makes these activations, and ends so. -/
def Call.ComesTo (settings : Settings) (c : Call) (activations : List Call)
    (out : Outcome Value) : Prop :=
  c.activations settings = activations ∧ c.outcome settings = out

/-- What becomes of a message, once the look-up has answered: the method that it has found is
activated, and the send ends as the activation does. Where it has found none, nothing is
activated, and the receiver does not understand the message. -/
def Call.Settles (settings : Settings) (send : Call) (depth : Nat) (receiver : Value)
    (cls : Behavior) (selector : String) (args : List Value) (m : Memory) :
    Option Method → Prop
  | some method => ∃ callers m', m.Noted m' ∧
      send.ComesTo settings [⟨.activate method receiver args callers, m', depth⟩]
        (Eval.run settings depth (.activate method receiver args callers) m')
  | none => send.ComesTo settings []
      (.error (.fault (.doesNotUnderstand (m.registry.nameOf cls) selector)) m)

/-- A send from a frame. -/
abbrev Call.sending (f : FrameId) (m : Memory) (depth : Nat) (receiver : Node)
    (selector : String) (args : List Node) : Call :=
  ⟨.evaluate (.send receiver (.str selector) args) f, m, depth + 1⟩

section
variable {f : FrameId} {node : Node} {args : List Node} {selector : String} {m₁ m₂ : Memory}
  {stop : Stop} {v : Value} {vs : List Value}

/-- Where the receiver stops, the send does. -/
theorem Call.ComesTo.of_receiver
    (h : Eval.run settings depth (.evaluate node f) m = .error stop m₁) :
    (Call.sending f m depth node selector args).ComesTo settings [] (.error stop m₁) :=
  Planned.Goes.activations ((Planned.Goes.call_evaluate h).bind_stop :
    (Planned.sendMessage f node (.str selector) args).Goes _ _ m _ [])

section
variable (hreceiver : Eval.run settings depth (.evaluate node f) m = .ok v m₁)

include hreceiver

/-- Where an argument stops, the send does. -/
theorem Call.ComesTo.of_arguments (hargs : (args.mapM fun arg =>
      Eval.run settings depth (.evaluate arg f)) m₁ = .error stop m₂) :
    (Call.sending f m depth node selector args).ComesTo settings [] (.error stop m₂) :=
  Planned.Goes.activations ((Planned.Goes.call_evaluate hreceiver).bind_nil
    (Planned.Goes.mapM_evaluate hargs).bind_stop :
      (Planned.sendMessage f node (.str selector) args).Goes _ _ m _ [])

/-- Otherwise the look-up decides. -/
theorem Call.Settles.of_evaluated {cls : Behavior} {start : Option Behavior}
    (hkept : m₂.registry.Kept) (hargs : (args.mapM fun arg =>
      Eval.run settings depth (.evaluate arg f)) m₁ = .ok vs m₂)
    (hclass : m₂.classOf? v = some cls) (hstart : m₂.Starts f v node start) :
    (Call.sending f m depth node selector args).Settles settings depth v cls selector vs m₂
      (start.bind (m₂.registry.lookup? (.text selector))) := by
  have hfirst : (Planned.call (.evaluate node f)).Goes _ (Call.activation depth) m _ [] :=
    .call_evaluate hreceiver
  have hrest : (Planned.mapM (fun arg => Planned.call (.evaluate arg f)) args).Goes _
      (Call.activation depth) m₁ _ [] := .mapM_evaluate hargs
  cases hfound : start.bind (m₂.registry.lookup? (.text selector)) with
  | none =>
      exact Planned.Goes.activations (Planned.Goes.sendMessage_notFound f args vs hstart.startOf
        hclass hfound hfirst hrest :
          (Planned.sendMessage f node (.str selector) args).Goes _ _ m _ [])
  | some method =>
      -- a method is filed under its own selector, so the journal has a word for it
      have hselector : method.selector = .str selector := by
        obtain ⟨b, -, hlookup⟩ := Option.bind_eq_some_iff.mp hfound
        obtain ⟨c, -, hfiled⟩ := List.exists_of_findSome?_eq_some hlookup
        exact Json.eq_str_of_key? (hkept.keyed c _ method hfiled)
      obtain ⟨m₃, hnoted, hsend⟩ :=
        Planned.Goes.sendMessage_found f args vs hstart.startOf hfound hselector
      refine ⟨f :: (m₃.heap.frame f).callers, m₃, hnoted, ?_⟩
      exact Planned.Goes.activations (hsend _ _ m m₁ [] [] _ _ hfirst hrest (.call _) :
        (Planned.sendMessage f node (.str selector) args).Goes _ _ m _ _)

end

end

/-! ### The result -/

/-- How look-up decides what becomes of a message. -/
structure Memory.Dispatches (settings : Settings) (m : Memory) : Prop where
  /-- From every class and metaclass, registered or not, there is one chain upwards. It ends,
  and look-up answers what the first on it has that has anything. -/
  lookUp : ∀ b, ∃ chain, m.registry.Ascends b chain ∧
    (∀ chain', m.registry.Ascends b chain' → chain' = chain) ∧
    ∀ key, m.registry.HasFirst key chain (m.registry.lookup? key b)
  /-- Above a metaclass there are the metaclasses of what is above the class, and then the
  class registered as `Class` with what is above it. -/
  classSide : ∃ c classChain, m.registry.find? "Class" = some c ∧
    m.registry.Ascends ⟨c, false⟩ classChain ∧
    ∀ id chain, m.registry.Ascends ⟨id, false⟩ chain →
      m.registry.Ascends ⟨id, true⟩ (chain.map Behavior.metaclass ++ classChain)
  /-- Every value has a class but for those that come from outside, -/
  classed : ∀ v, (∀ json mark, v ≠ .foreign json mark) → ∃ cls, m.classOf? v = some cls
  /-- so there is a start, or at the top none, for every send from a frame with a method. -/
  started : ∀ f v node cls running, m.classOf? v = some cls →
    (m.heap.frame f).method = some running → ∃ start, m.Starts f v node start
  /-- A send comes to nothing else where the receiver stops, -/
  receiver : ∀ depth f node selector args stop m₁,
    Eval.run settings depth (.evaluate node f) m = .error stop m₁ →
      (Call.sending f m depth node selector args).ComesTo settings [] (.error stop m₁)
  /-- and where an argument does. -/
  arguments : ∀ depth f node selector args v m₁ stop m₂,
    Eval.run settings depth (.evaluate node f) m = .ok v m₁ →
    (args.mapM fun arg => Eval.run settings depth (.evaluate arg f)) m₁ = .error stop m₂ →
      (Call.sending f m depth node selector args).ComesTo settings [] (.error stop m₂)
  /-- When all of them have been evaluated, the look-up decides. It activates what it has found
  from the start, and where there is no start or nothing is found from it, the receiver does
  not understand the message. -/
  send : ∀ depth (f : FrameId) node selector args v m₁ vs m₂ cls start,
    f < m.heap.frames.size →
    Eval.run settings depth (.evaluate node f) m = .ok v m₁ →
    (args.mapM fun arg => Eval.run settings depth (.evaluate arg f)) m₁ = .ok vs m₂ →
    m₂.classOf? v = some cls → m₂.Starts f v node start →
      (Call.sending f m depth node selector args).Settles settings depth v cls selector vs m₂
        (start.bind (m₂.registry.lookup? (.text selector)))

/-- Whatever is defined again, `Class` and `Object` as well, look-up ends with the first method
on the chain of superclasses, and a send activates just this method or is not understood. -/
theorem lookup_decides_sends {settings : Settings} {m : Memory} (h : Kernel.memory.LeadsTo m) :
    m.Dispatches settings := by
  obtain ⟨k, hkernel⟩ := h.kept
  obtain ⟨c, hclass⟩ := Memory.exists_find?_class hkernel
  refine {
    lookUp := fun b => ?_
    classSide := ⟨c, _, hclass, k.ordered.ascends _, fun id chain hchain =>
      hchain.metaclass hclass (k.ordered.ascends _)⟩
    classed := fun v => Memory.exists_classOf? hkernel
    started := fun f v node cls running hv hrunning => ?_
    receiver := fun _ _ _ _ _ _ _ => .of_receiver
    arguments := fun _ _ _ _ _ _ _ _ _ => .of_arguments
    send := fun depth f node selector args v m₁ vs m₂ cls start hf hreceiver hargs hv hstart => ?_ }
  · have hchain := k.ordered.ascends b
    exact ⟨_, hchain, fun _ => hchain.unique, k.ordered.hasFirst hchain⟩
  · cases hside : node.isSuper with
    | false => exact ⟨_, .ordinary hside hv⟩
    | true => exact ⟨_, .above hside hrunning⟩
  · -- evaluating the parts of the send leaves the classes alone
    have hfirst := (Eval.Does.run settings depth (.evaluate node f) m hf).of_ok hreceiver
    have hrest := (Eval.Does.evaluateAll (Eval.Does.run settings depth)
      (Nat.lt_of_lt_of_le hf (Memory.Effects.later hfirst).heap.frames) args).of_ok hargs
    have hregistry := (Memory.Effects.later (hfirst.trans hrest)).registry
    exact .of_evaluated hreceiver (hregistry ▸ k) hargs hv hstart

/-- `Class` is defined again below `Object`. The chain of every metaclass goes on to the new
class, and the metaclass of the old one is still looked up along its own. -/
theorem dispatch_of_redefined_class : ∃ m : Memory, m.Dispatches {} ∧
    m.registry.Ascends ⟨0, true⟩ [⟨0, true⟩, ⟨15, false⟩, ⟨0, false⟩] ∧
    m.registry.Ascends ⟨1, true⟩ [⟨1, true⟩, ⟨0, true⟩, ⟨15, false⟩, ⟨0, false⟩] ∧
    (m.registry.find? "Class", (m.registry.entry 1).name) = (some 15, "Class") := by
  have h : Kernel.memory.LeadsTo (Command.run Kernel.memory
      (.define (.str "Class") (.str "Object") .null .null)) :=
    .command .refl _
  refine ⟨_, lookup_decides_sends h, ?_, ?_, by decide +kernel⟩
  · exact .up (by decide +kernel) (.up (by decide +kernel) (.top (by decide +kernel)))
  · exact .up (by decide +kernel) (.up (by decide +kernel) (.up (by decide +kernel)
      (.top (by decide +kernel))))

end Smalltalk
