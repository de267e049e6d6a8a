import Mathlib.Tactic.FinCases
import Smalltalk.Proofs.Depth
import Smalltalk.Proofs.Yields

/-!
# `Smalltalk.Proofs.Sends`: what comes of a send

A message is sent by a query from outside, or by code, once the receiver and the arguments
are evaluated. `Memory.Sends` is both. It names the memory that the method is looked up in,
the depth there is for the method, the activations that the send makes, and how the send
ends.

A send makes one activation, of the method that is found (`Memory.Sends.activates`), and ends
as this does, but that a query words an exhausted depth as a fault. So what is known to
yield a result at some depth settles every send that has this depth, and every other one that
does not run out of depth (`Memory.SendYields`).

For the kernel methods `Memory.SendYields.of_kernel` asks for what the method yields, with
whatever objects for its text literals, and `Memory.Yields.sendKernel` is the rule for a send
inside other code.
-/

set_option autoImplicit false

namespace Smalltalk

variable {settings : Settings} {m m' : Memory} {depth : Nat} {out : Outcome Value}

/-! ### Sends -/

/-- Whether a task activates a method. -/
def Task.isActivation : Task → Bool
  | .activate .. => true
  | _ => false

/-- There was not enough depth: a task was too deep, or a query has ended with the fault of
that. -/
def Eval.OutOfDepth (out : Outcome Value) : Prop :=
  TooDeep out ∨ ∃ words m, out = .error (.fault (.tooDeep words)) m

/-- A message is sent in a memory: with so much depth for what it activates, with these
activations and this outcome. -/
inductive Memory.Sends (settings : Settings) (receiver : Value) (selector : String)
    (args : List Value) : Memory → Nat → List Call → Outcome Value → Prop where
  | query (m : Memory) : Sends settings receiver selector args m settings.depth
      ((Query.send receiver (.str selector) args).call? settings m).toList
      ((Query.send receiver (.str selector) args).perform settings m)
  | code {node : Node} {argNodes : List Node} {f : FrameId} {m₀ m₁ m : Memory} {depth : Nat}
      (hsuper : node.isSuper = false)
      (hreceiver : Eval.run settings depth (.evaluate node f) m₀ = .ok receiver m₁)
      (hargs : (argNodes.mapM fun arg => Eval.run settings depth (.evaluate arg f)) m₁
        = .ok args m) :
      Sends settings receiver selector args m depth
        (((Call.mk (.evaluate (.send node (.str selector) argNodes) f) m₀ (depth + 1)).calls
          settings).filter (·.task.isActivation))
        (Eval.run settings (depth + 1) (.evaluate (.send node (.str selector) argNodes) f) m₀)

/-- What an inner call counts for where activations are counted. -/
def Call.activation (depth : Nat) (task : Task) (m : Memory) : List Call :=
  if task.isActivation then [⟨task, m, depth⟩] else []

section
variable {rec : Task → Eval Value}

/-- To evaluate a tree is no activation. -/
theorem Planned.Goes.call_evaluate {node : Node} {f : FrameId} {out : Outcome Value}
    (h : rec (.evaluate node f) m = out) :
    (Planned.call (.evaluate node f)).Goes rec (Call.activation depth) m out [] :=
  h ▸ .call _

/-- Neither is it to evaluate trees one after another. -/
theorem Planned.Goes.mapM_evaluate {f : FrameId} {args : List Node} {out : Outcome (List Value)}
    (h : (args.mapM fun arg => rec (.evaluate arg f)) m = out) :
    (Planned.mapM (fun arg => Planned.call (.evaluate arg f)) args).Goes rec (Call.activation depth)
      m out [] := by
  induction args generalizing m out with
  | nil =>
      cases h
      exact mapM_nil
  | cons arg args ih =>
      rw [List.mapM_cons] at h
      cases hv : rec (.evaluate arg f) m with
      | error stop m₁ =>
          rw [bind_of_error hv] at h
          cases h
          exact congr (call_evaluate hv).bind_stop
      | ok v m₁ =>
          rw [bind_of_ok hv] at h
          cases hvs : (args.mapM fun arg => rec (.evaluate arg f)) m₁ with
          | error stop m₂ =>
              rw [bind_of_error hvs] at h
              cases h
              exact congr ((call_evaluate hv).bind_nil (ih hvs).bind_stop)
          | ok vs m₂ =>
              rw [bind_of_ok hvs] at h
              cases h
              have hall : (Planned.mapM (fun arg => Planned.call (.evaluate arg f))
                  (arg :: args)).Goes rec (Call.activation depth) m (.ok (v :: vs) m₂) ([] ++ []) :=
                mapM_cons (call_evaluate hv) (ih hvs)
              exact hall

end

/-- The activations that a tree makes are those that are seen in its plan. -/
theorem Planned.Goes.activations {node : Node} {f : FrameId} {seen : List Call}
    (h : (Planned.evaluateNode f node).Goes (Eval.run settings depth) (Call.activation depth) m out
      seen) :
    ((Call.mk (.evaluate node f) m (depth + 1)).calls settings).filter (·.task.isActivation)
        = seen ∧
      Eval.run settings (depth + 1) (.evaluate node f) m = out := by
  refine ⟨Eq.trans ?_ h.sees, h.ends⟩
  show List.filter _ (List.map _ _) = _
  rw [← List.flatMap_pure_eq_map, List.filter_flatMap]
  refine congrArg (List.flatMap · _) (funext fun p => ?_)
  show List.filter _ [_] = if _ then _ else _
  rw [List.filter_singleton, cond_eq_ite]

/-- A send activates the method that is found, and nothing else. It ends as the activation
does, or both are out of depth. -/
theorem Memory.Sends.activates {receiver : Value} {selector name : String} {args : List Value}
    {calls : List Call} {cls : Behavior} {method : Method}
    (h : Sends settings receiver selector args m depth calls out)
    (hclass : m.classOf? receiver = some cls)
    (hmethod : m.registry.lookup? (.text selector) cls = some method)
    (hselector : method.selector = .str name) :
    ∃ callers m₁, m.Noted m₁ ∧ calls = [⟨.activate method receiver args callers, m₁, depth⟩] ∧
      (out = Eval.run settings depth (.activate method receiver args callers) m₁ ∨
        Eval.OutOfDepth out ∧
          Eval.TooDeep (Eval.run settings depth (.activate method receiver args callers) m₁)) := by
  cases h with
  | query =>
      let q : Query := .send receiver (.str selector) args
      have hfound : Eval.methodFrom (.str selector) (some cls) m = .ok (some method) m :=
        congrArg (fun found => EStateM.Result.ok found m) hmethod
      have hprepare : q.prepare m = .ok (.activate method receiver args []) m := by
        show (Eval.classOf receiver >>= _) m = _
        rw [bind_of_ok (Eval.classOf_of_classOf? hclass), bind_of_ok hfound]
        rfl
      have hcall : q.call? settings m
          = some ⟨.activate method receiver args [], m, settings.depth⟩ :=
        Query.call?_of_ok hprepare
      refine ⟨[], m, ⟨rfl, rfl, rfl, rfl⟩, ?_, ?_⟩
      · show (q.call? settings m).toList = _
        rw [hcall]
        rfl
      have hperform : q.perform settings m = Eval.naming
          (Query.activity (.activate method receiver args []))
          (Eval.run settings settings.depth (.activate method receiver args [])) m := by
        rw [Query.perform_eq_performBy]
        exact bind_of_ok hprepare
      -- the query names a depth fault itself, so the two ends differ only there
      by_cases hdeep : Eval.TooDeep
          (Eval.run settings settings.depth (.activate method receiver args []) m)
      · refine .inr ⟨.inr ?_, hdeep⟩
        obtain ⟨m₁, hrun⟩ := hdeep
        have hnamed : (Task.activate method receiver args []).Named := ⟨name, hselector⟩
        obtain ⟨words, hwords⟩ := hnamed.activity m₁
        refine ⟨words, m₁, hperform.trans ?_⟩
        rw [Eval.naming_of_tooDeep hrun]
        unfold Task.depthFault
        rw [hwords]
      · exact .inl (hperform.trans (Eval.naming_of_not_tooDeep hdeep))
  | @code node argNodes f m₀ m₁ _ _ hsuper hreceiver hargs =>
      obtain ⟨m₃, hnoted, hsend⟩ :=
        Planned.Goes.sendMessage f argNodes args hsuper hclass hmethod hselector
      have hfirst : (Planned.call (.evaluate node f)).Goes _ (Call.activation depth) m₀ _ [] :=
        .call_evaluate hreceiver
      have hgoes : (Planned.evaluateNode f (.send node (.str selector) argNodes)).Goes _ _ m₀ _ _ :=
        hsend _ _ m₀ m₁ [] [] _ _ hfirst (.mapM_evaluate hargs) (.call _)
      obtain ⟨hcalls, hout⟩ := Planned.Goes.activations hgoes
      exact ⟨_, m₃, hnoted, hcalls, .inl hout⟩

/-- Every send of a message in a memory ends with a result and only adds something, unless it
runs out of depth, for which so many levels are enough. -/
def Memory.SendYields (settings : Settings) (m : Memory) (enough : Nat) (receiver : Value)
    (selector : String) (args : List Value) (r : Except Fault Value) : Prop :=
  ∀ ⦃depth : Nat⦄ ⦃calls : List Call⦄ ⦃out : Outcome Value⦄,
    Memory.Sends settings receiver selector args m depth calls out →
    (enough ≤ depth ∨ ¬ Eval.OutOfDepth out) → ∃ m', m.Aside [] m' ∧ out = Eval.ended r m'

section
variable {receiver : Value} {selector name : String} {args : List Value} {cls : Behavior}
  {method : Method} {enough : Nat} {r : Except Fault Value}
  (hclass : m.classOf? receiver = some cls)
  (hmethod : m.registry.lookup? (.text selector) cls = some method)
  (hselector : method.selector = .str name)

include hclass hmethod hselector

/-- A send ends as the activation does that so many levels are enough for, in a memory that
has been added to whatever the activation has made of the memory. -/
theorem Memory.Sends.ends {calls : List Call} {m₁ : Memory}
    (h : m.Sends settings receiver selector args depth calls out)
    (hdepth : enough ≤ depth ∨ ¬ Eval.OutOfDepth out)
    (hends : ∀ callers m', m.Aside [] m' → ∃ m'', m₁.Aside [] m'' ∧
      Eval.run settings enough (.activate method receiver args callers) m' = Eval.ended r m'') :
    ∃ m', m₁.Aside [] m' ∧ out = Eval.ended r m' := by
  obtain ⟨callers, m', hnoted, -, hout⟩ := h.activates hclass hmethod hselector
  let task : Task := .activate method receiver args callers
  obtain ⟨m₂, a₂, hrun⟩ := hends callers m' (.of_noted hnoted)
  have hshallow : ¬ Eval.TooDeep (Eval.run settings enough task m') := by
    rw [hrun]
    rintro ⟨m', h⟩
    cases r <;> cases h
  refine ⟨m₂, a₂, ?_⟩
  rw [← hrun]
  rcases hdepth with hle | hnot
  · have hsame := Eval.run_congr settings hle task m' hshallow
    rcases hout with hout | ⟨-, hdeep⟩
    · exact hout.trans hsame
    · rw [hsame] at hdeep
      exact absurd hdeep hshallow
  · rcases hout with hout | ⟨hdeep, -⟩
    · have hnot' : ¬ Eval.TooDeep (Eval.run settings depth task m') :=
        fun hdeep => hnot (.inl (hout ▸ hdeep))
      -- of two depths that are both enough, the outcome is the same
      rcases Nat.le_total enough depth with hle | hle
      · exact hout.trans (Eval.run_congr settings hle task m' hshallow)
      · exact hout.trans (Eval.run_congr settings hle task m' hnot').symm
    · exact absurd hdeep hnot

/-- A send ends with the result that the activation ends in. -/
theorem Memory.SendYields.of_endsIn
    (hends : ∀ callers, m.EndsIn settings enough (.activate method receiver args callers) r) :
    m.SendYields settings enough receiver selector args r := by
  intro depth calls out h hdepth
  refine h.ends hclass hmethod hselector hdepth fun callers m' a => ?_
  obtain ⟨m'', a', hrun⟩ := hends callers m' a
  exact ⟨m'', a.append a', hrun⟩

/-- What the activation yields, a send does. -/
theorem Memory.SendYields.of_yields
    (hyields : ∀ callers, m.Yields settings enough (.activate method receiver args callers) r) :
    m.SendYields settings enough receiver selector args r :=
  of_endsIn hclass hmethod hselector fun callers => (hyields callers).endsIn

end

/-! ### Kernel methods -/

/-- Code that sends a message comes to what the method yields that is understood. -/
theorem Memory.Yields.sendUnderstood {v : Value} {cls : Behavior} {selector name : String}
    {params temps : List Json} {statements : List Node} {primitive : Json}
    {r : Except Fault Value} (hclass : m.classOf? v = some cls)
    (hunderstands : m.registry.Understands cls selector
      (.method (.str name) params temps statements primitive))
    {node : Node} {args : List Node} {vs : List Value} {f : FrameId}
    (hsuper : node.isSuper = false) (hreceiver : m.Yields settings depth (.evaluate node f) (.ok v))
    (hargs : List.Forall₂ (fun arg v => m.Yields settings depth (.evaluate arg f) (.ok v)) args vs)
    (hactivate : ∀ owner next callers, m.Yields settings depth (.activate ⟨.str name, params,
      temps, (Node.listWithSites next statements).1, primitive, owner⟩ v vs callers) r) :
    m.Yields settings (depth + 1) (.evaluate (.call node selector args) f) r := by
  obtain ⟨owner, next, hmethod⟩ := hunderstands.method
  exact .send hsuper hclass hmethod rfl hreceiver hargs (hactivate owner next)

section
variable {v : Value} {className selector name : String} {params temps : List Json}
  {statements : List Node} {primitive : Json} {r : Except Fault Value}
  (he : m.Equipped settings) (hv : v.kernelClass? = some className)
  (hnode : Kernel.tree? className selector
    = some (.method (.str name) params temps statements primitive))

include he hv hnode

/-- A send to a value of a kernel class comes to what the kernel method yields. -/
theorem Memory.SendYields.of_kernel {args : List Value} {enough : Nat}
    (hyields : ∀ owner next callers, m.Yields settings enough (.activate ⟨.str name, params, temps,
      (Node.listWithSites next statements).1, primitive, owner⟩ v args callers) r) :
    m.SendYields settings enough v selector args r := by
  obtain ⟨cls, hclass, hunderstands⟩ := he.understands hv hnode
  obtain ⟨owner, next, hmethod⟩ := hunderstands.method
  exact SendYields.of_yields hclass hmethod rfl (hyields owner next)

/-- The same inside other code. -/
theorem Memory.Yields.sendKernel {node : Node} {args : List Node} {vs : List Value} {f : FrameId}
    (hsuper : node.isSuper = false) (hreceiver : m.Yields settings depth (.evaluate node f) (.ok v))
    (hargs : List.Forall₂ (fun arg v => m.Yields settings depth (.evaluate arg f) (.ok v)) args vs)
    (hactivate : ∀ owner next callers, m.Yields settings depth (.activate ⟨.str name, params,
      temps, (Node.listWithSites next statements).1, primitive, owner⟩ v vs callers) r) :
    m.Yields settings (depth + 1) (.evaluate (.call node selector args) f) r := by
  obtain ⟨cls, hclass, hunderstands⟩ := he.understands hv hnode
  exact .sendUnderstood hclass hunderstands hsuper hreceiver hargs hactivate

end

/-! ### Failing primitives -/

/-- The fault of a primitive that must not fail. -/
def Kernel.failed : Fault := .signalled "a primitive has failed"

/-- What a method comes to that gives up where its primitive has no answer. -/
def Kernel.orFailed : Option Value → Except Fault Value
  | some v => .ok v
  | none => .error failed

/-- A primitive answers this value, or fails where there is none. -/
def Primitive.Answers (p : Primitive) (m : Memory) (receiver : Value) (args : List Value) :
    Option Value → Prop
  | some v => p.attempt m receiver args = .ok (.answer v)
  | none => ∃ reason, p.attempt m receiver args = .error reason

/-- The system knows all primitives under their numbers. -/
def Settings.KnowsPrimitives (settings : Settings) : Prop :=
  ∀ p ∈ Primitive.numbered, settings.primitives.find? (.number p.1) = some p.2

/-- A value has the two methods by which the methods of the kernel give up. -/
def Memory.GivesUp (m : Memory) (v : Value) : Prop :=
  ∃ cls, m.classOf? v = some cls ∧
    m.registry.Understands cls "primitiveFailed" (Kernel.answering "primitiveFailed" []
      (.call .self "error:" [.literal (.text "a primitive has failed" 0)])) ∧
    m.registry.Understands cls "error:" (Kernel.byPrimitive "error:" 502 ["aString"])

theorem Memory.GivesUp.aside {v : Value} {own : List FrameId} (h : m.GivesUp v)
    (a : m.Aside own m') : m'.GivesUp v := by
  unfold GivesUp
  rw [a.classOf?, a.registry]
  exact h

/-- Every kernel class has the two methods. -/
theorem Kernel.tree?_failing {c : Kernel.ClassSpec} (hc : c ∈ classes) :
    tree? c.name "primitiveFailed" = some (answering "primitiveFailed" []
        (.call .self "error:" [.literal (.text "a primitive has failed" 0)])) ∧
      tree? c.name "error:" = some (byPrimitive "error:" 502 ["aString"]) := by
  unfold classes at hc
  fin_cases hc <;> exact ⟨rfl, rfl⟩

theorem Memory.Equipped.givesUp {v : Value} {className : String} (he : m.Equipped settings)
    (hv : v.kernelClass? = some className) : m.GivesUp v := by
  obtain ⟨c, hc, hname⟩ := Kernel.mem_classes_of_kernelClass? hv
  obtain ⟨hfailing, hsignal⟩ := Kernel.tree?_failing hc
  rw [hname] at hfailing hsignal
  obtain ⟨cls, hclass, hunderstands⟩ := he.understands hv hfailing
  obtain ⟨cls', hclass', hunderstands'⟩ := he.understands hv hsignal
  cases hclass.symm.trans hclass'
  exact ⟨cls, hclass, hunderstands, hunderstands'⟩

namespace Memory.Yields

variable {v : Value} (hs : settings.KnowsPrimitives)

include hs

/-- Running the primitive of a kernel method, when it does not fail. -/
theorem byPrimitive {selector : String} {names : List String}
    {body : List Node} {owner : Behavior} {number : Int} {p : Primitive}
    (hp : (number, p) ∈ Primitive.numbered) {args : List Value} (hnodup : names.Nodup)
    (hlength : args.length = names.length) {action : Action}
    (hattempt : ∀ m', m.Aside [] m' → p.attempt m' v args = .ok action)
    {r : Except Fault Value} (hresult : action.result? settings = some r)
    (callers : List FrameId) :
    m.Yields settings (depth + 1)
      (.activate ⟨.str selector, names.map .str, [], body, .int number, owner⟩ v args callers) r :=
  primitive ⟨rfl, hnodup, hlength⟩ rfl (hs _ hp) hattempt hresult callers

/-- Running the body of a kernel method, when its primitive fails. -/
theorem byBody {selector : String} {names : List String}
    {e : Node} {owner : Behavior} {number : Int} {p : Primitive}
    (hp : (number, p) ∈ Primitive.numbered) {args : List Value} (hnodup : names.Nodup)
    (hlength : args.length = names.length)
    (hattempt : ∀ m', m.Aside [] m' → ∃ reason, p.attempt m' v args = .error reason)
    {r : Except Fault Value} (callers : List FrameId)
    (hvalue : ∀ f m' method, m.Makes { receiver := v, method := some method, callers,
                                       slots := Dictionary.putAll names args {} } f m' →
      m'.Yields settings depth (.evaluate e f) r) :
    m.Yields settings (depth + 2) (.activate
      ⟨.str selector, names.map .str, [], [.answer e], .int number, owner⟩ v args callers) r :=
  returning ⟨rfl, hnodup, hlength⟩ rfl (.inr ⟨number, p, rfl, hs _ hp, hattempt⟩) rfl
    rfl callers fun f m' => hvalue f m' _

/-- What `self primitiveFailed` comes to. -/
theorem primitiveFailed (hv : m.GivesUp v)
    {f : FrameId} (hf : f < m.heap.frames.size) (hreceiver : (m.heap.frame f).receiver = v) :
    m.Yields settings (depth + 5) (.evaluate (.call .self "primitiveFailed" []) f)
      (.error Kernel.failed) := by
  obtain ⟨cls, hclass, hfailing, -⟩ := id hv
  refine sendUnderstood hclass hfailing rfl (hreceiver ▸ self hf) .nil fun owner next callers => ?_
  refine returning (r := .error Kernel.failed) ⟨rfl, List.nodup_nil, rfl⟩ rfl (.inl rfl) rfl rfl
    callers fun f m' o => ?_
  -- the text is that of the method, whichever object it is
  obtain ⟨cls', hclass', -, hsignal⟩ := hv.aside o.aside
  refine sendUnderstood hclass' hsignal rfl o.yields_self (.cons (.literal _) .nil)
    fun owner' next' callers' => ?_
  have hp : (502, Primitive.signal) ∈ Primitive.numbered := by decide
  exact @byPrimitive _ _ _ _ hs "error:" ["aString"] _ _ _ _ hp _ (List.nodup_singleton _) rfl _
    (fun _ _ => rfl) _ rfl callers'

/-- A kernel method with a primitive that must not fail. -/
theorem orFailed (hv : m.GivesUp v) {selector : String} {names : List String} {owner : Behavior}
    {number : Int} {p : Primitive} (hp : (number, p) ∈ Primitive.numbered) {args : List Value}
    (hnodup : names.Nodup) (hlength : args.length = names.length) {answer : Option Value}
    (hanswers : ∀ m', m.Aside [] m' → p.Answers m' v args answer) (callers : List FrameId) :
    m.Yields settings (depth + 7) (.activate ⟨.str selector, names.map .str, [],
      [.answer (.call .self "primitiveFailed" [])], .int number, owner⟩ v args callers)
      (Kernel.orFailed answer) := by
  cases answer with
  | some v => exact byPrimitive hs hp hnodup hlength hanswers rfl callers
  | none =>
      refine byBody hs hp hnodup hlength hanswers callers fun f m' method o => ?_
      refine primitiveFailed hs (hv.aside o.aside) o.there ?_
      rw [o.frame]

end Memory.Yields

end Smalltalk
