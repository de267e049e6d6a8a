import Smalltalk.Proofs.Counting

/-!
# `Smalltalk.Proofs.Replies`: what values reply that follow the kernel

A value follows a kernel class (`Memory.Follows`) when it has the methods that the kernel
gives to this class, for some selectors. The values of kernel classes do in an equipped
system, and so do the instances of a class that extends a kernel class and has no methods of
its own for these selectors (`Registry.Extends`). Which class it is, under which name it is
registered and what else it understands does not matter.

What a value replies (`Memory.Replies`) is the result that the activation of its method ends
in, from any memory that has only been added to. A reply settles sends from outside
(`Replies.sendYields`) and sends in code (`Replies.call`). The kernel has one method in
whose body a block of its own is run, by `and:`. `Memory.EndsIn.and` is the rule for it.
-/

set_option autoImplicit false

namespace Smalltalk

variable {settings : Settings} {m m' : Memory} {depth : Nat}

/-! ### Following -/

/-- A value has the methods that the kernel gives a class for these selectors. -/
def Memory.Follows (m : Memory) (v : Value) (className : String) (selectors : List String) :
    Prop :=
  ∃ cls, m.classOf? v = some cls ∧ ∀ selector ∈ selectors, ∀ node,
    Kernel.tree? className selector = some node → m.registry.Understands cls selector node

/-- A class or metaclass has a kernel class on its line, and nothing before it has a method of
its own for these selectors. -/
def Registry.Extends (r : Registry) (b : Behavior) (className : String)
    (selectors : List String) : Prop :=
  ∃ id below, r.find? className = some id ∧ r.line b = below ++ r.line ⟨id, false⟩ ∧
    ∀ c ∈ below, ∀ selector ∈ selectors, (r.table c).methods.contains (.text selector) = false

/-- Look-up passes by what has no method of its own. -/
theorem Registry.lookup?_of_line {r : Registry} {b s : Behavior} {below : List Behavior}
    (hline : r.line b = below ++ r.line s) {key : Key}
    (hbelow : ∀ c ∈ below, (r.table c).methods.contains key = false) :
    r.lookup? key b = r.lookup? key s := by
  have hnone : below.findSome? (fun c => (r.table c).methods.find? key) = none :=
    List.findSome?_eq_none_iff.mpr fun c hc => Option.isSome_eq_false_iff.mp (hbelow c hc) |>
      Option.isNone_iff_eq_none.mp
  unfold lookup?
  rw [hline, List.findSome?_append, hnone, Option.none_or]

namespace Memory

variable {v : Value} {className : String} {selectors : List String}

theorem Equipped.follows (he : m.Equipped settings) (hv : v.kernelClass? = some className)
    (selectors : List String) : m.Follows v className selectors := by
  obtain ⟨c, hc, rfl⟩ := Kernel.mem_classes_of_kernelClass? hv
  obtain ⟨id, hid, hmethods⟩ := he.method c hc
  refine ⟨⟨id, false⟩, ?_, fun selector _ node => hmethods selector node⟩
  rw [classOf?_of_kernelClass? hv, hid]
  rfl

/-- What extends a kernel class has its methods. -/
theorem Equipped.follows_of_extends (he : m.Equipped settings) {b : Behavior}
    (hclass : m.classOf? v = some b) (hthere : ∃ c ∈ Kernel.classes, c.name = className)
    (h : m.registry.Extends b className selectors) : m.Follows v className selectors := by
  obtain ⟨c, hc, rfl⟩ := hthere
  obtain ⟨id, hid, hmethods⟩ := he.method c hc
  obtain ⟨id', below, hid', hline, hbelow⟩ := h
  obtain rfl := Option.some.inj (hid.symm.trans hid')
  refine ⟨b, hclass, fun selector hselector node hnode => ?_⟩
  obtain ⟨method, next, hmethod, htree⟩ := hmethods selector node hnode
  refine ⟨method, next, ?_, htree⟩
  rw [Registry.lookup?_of_line hline fun c hc => hbelow c hc selector hselector]
  exact hmethod

namespace Follows

/-- Of two kernel classes with the same methods for the selectors, one stands for the other. -/
theorem like (h : m.Follows v className selectors) {className' : String}
    {selectors' : List String} (hsame : ∀ s ∈ selectors', s ∈ selectors ∧
      Kernel.tree? className' s = Kernel.tree? className s) :
    m.Follows v className' selectors' := by
  obtain ⟨cls, hclass, hmethods⟩ := h
  refine ⟨cls, hclass, fun selector hselector node hnode => ?_⟩
  obtain ⟨hmem, htree⟩ := hsame selector hselector
  exact hmethods selector hmem node (htree ▸ hnode)

theorem givesUp (h : m.Follows v className selectors)
    (hthere : ∃ c ∈ Kernel.classes, c.name = className) (hfailed : "primitiveFailed" ∈ selectors)
    (herror : "error:" ∈ selectors) : m.GivesUp v := by
  obtain ⟨c, hc, rfl⟩ := hthere
  obtain ⟨hfailing, hsignal⟩ := Kernel.tree?_failing hc
  obtain ⟨cls, hclass, hmethods⟩ := h
  exact ⟨cls, hclass, hmethods _ hfailed _ hfailing, hmethods _ herror _ hsignal⟩

end Follows

/-! ### Replies -/

/-- A task that ends so with some depth does with more. -/
theorem EndsIn.deeper {task : Task} {r : Except Fault Value} {depth' : Nat}
    (h : m.EndsIn settings depth task r) (hle : depth ≤ depth') :
    m.EndsIn settings depth' task r := by
  intro m' a
  obtain ⟨m'', a', hout⟩ := h m' a
  refine ⟨m'', a', (Eval.run_congr settings hle task m' ?_).trans hout⟩
  show ¬ Eval.TooDeep ((Call.mk task m' depth).outcome settings)
  rw [hout]
  rintro ⟨_, hdeep⟩
  cases r <;> cases hdeep

/-- A value has a method for a selector, and activating it ends in a result. -/
def Replies (settings : Settings) (m : Memory) (depth : Nat) (v : Value) (selector : String)
    (args : List Value) (r : Except Fault Value) : Prop :=
  ∃ cls method name, m.classOf? v = some cls ∧
    m.registry.lookup? (.text selector) cls = some method ∧ method.selector = .str name ∧
    ∀ callers, m.EndsIn settings depth (.activate method v args callers) r

/-- What the method of the kernel ends in is the reply of a value that follows it. -/
theorem Follows.replies (h : m.Follows v className selectors) {selector name : String}
    (hmem : selector ∈ selectors) {params temps : List Json} {statements : List Node}
    {primitive : Json} (hnode : Kernel.tree? className selector
      = some (.method (.str name) params temps statements primitive)) {args : List Value}
    {r : Except Fault Value} (hends : ∀ owner next callers, m.EndsIn settings depth
      (.activate ⟨.str name, params, temps, (Node.listWithSites next statements).1, primitive,
        owner⟩ v args callers) r) : m.Replies settings depth v selector args r := by
  obtain ⟨cls, hclass, hmethods⟩ := h
  obtain ⟨owner, next, hmethod⟩ := (hmethods selector hmem _ hnode).method
  exact ⟨cls, _, name, hclass, hmethod, rfl, hends owner next⟩

namespace Replies

variable {selector : String} {args : List Value} {r : Except Fault Value}

theorem aside (h : m.Replies settings depth v selector args r) (a : m.Aside [] m') :
    m'.Replies settings depth v selector args r := by
  obtain ⟨cls, method, name, hclass, hmethod, hselector, hends⟩ := h
  refine ⟨cls, method, name, (a.classOf? v).trans hclass, ?_, hselector,
    fun callers m'' a' => hends callers m'' (a.append a')⟩
  rw [a.registry]
  exact hmethod

theorem deeper (h : m.Replies settings depth v selector args r) {depth' : Nat}
    (hle : depth ≤ depth') : m.Replies settings depth' v selector args r := by
  obtain ⟨cls, method, name, hclass, hmethod, hselector, hends⟩ := h
  exact ⟨cls, method, name, hclass, hmethod, hselector, fun callers => (hends callers).deeper hle⟩

/-- Every send ends with the reply. -/
theorem sendYields (h : m.Replies settings depth v selector args r) :
    m.SendYields settings depth v selector args r := by
  obtain ⟨cls, method, name, hclass, hmethod, hselector, hends⟩ := h
  exact .of_endsIn hclass hmethod hselector hends

/-- So does a send in code, once the receiver and the arguments are evaluated. -/
theorem sends (h : m.Replies settings depth v selector args r) {f : FrameId} {node : Node}
    {argNodes : List Node} {m₀ m₁ : Memory} {seen : List Call} (hsuper : node.isSuper = false)
    (hreceiver : (Call.mk (.evaluate node f) m₀ depth).outcome settings = .ok v m₁)
    (hargs : Call.Goes.Arguments settings 0 depth f argNodes m₁ args m seen) :
    ∃ m', m.Aside [] m' ∧
      (Call.mk (.evaluate (.call node selector argNodes) f) m₀ (depth + 1)).outcome settings
        = Eval.ended r m' := by
  obtain ⟨cls, method, name, hclass, hmethod, hselector, hends⟩ := h
  obtain ⟨m₂, hnoted, hsend⟩ :=
    Call.Goes.send settings depth f m₀ m₁ argNodes args hsuper hclass hmethod hselector
  have a₂ : m.Aside [] m₂ := .of_noted hnoted
  obtain ⟨m₃, a₃, hlast⟩ := hends (f :: (m₂.heap.frame f).callers) m₂ a₂
  exact ⟨m₃, a₂.append a₃, (hsend 0 _ _ _ _ ⟨hreceiver, rfl⟩ hargs ⟨hlast, rfl⟩).outcome⟩

theorem call (h : m.Replies settings depth v selector args r) {f : FrameId} {node : Node}
    {argNodes : List Node} (hsuper : node.isSuper = false)
    (hreceiver : m.EndsIn settings depth (.evaluate node f) (.ok v))
    (hargs : List.Forall₂ (fun arg v => m.Yields settings depth (.evaluate arg f) (.ok v))
      argNodes args) :
    m.EndsIn settings (depth + 1) (.evaluate (.call node selector argNodes) f) r := by
  intro m' a
  obtain ⟨m₁, a₁, hfirst⟩ := hreceiver m' a
  obtain ⟨m₂, a₂, hrest⟩ := Yields.arguments hargs (a.append a₁)
  obtain ⟨m₃, a₃, hout⟩ := (h.aside ((a.append a₁).append a₂)).sends hsuper hfirst (hrest 0)
  exact ⟨m₃, (a₁.append a₂).append a₃, hout⟩

end Replies

end Memory

/-! ### Methods of the kernel -/

/-- A call whose outcome is known, with whatever is seen of it. -/
theorem Planned.Goes.call_of_outcome {task : Task} {out : Outcome Value}
    (h : (Call.mk task m depth).outcome settings = out) (b : ClosureId) :
    (Planned.call task).Goes (Eval.run settings depth) (Call.seen settings b depth) m out
      (Call.seen settings b depth task m) := by
  rw [← h]
  exact .call task

/-- The frame of an activation. -/
abbrev Frame.ofActivation (method : Method) (receiver : Value) (names : List String)
    (args : List Value) (callers : List FrameId) : Frame :=
  { receiver, method := some method, callers, slots := Dictionary.putAll names args {} }

namespace Memory

variable {v : Value} {className : String} {selectors : List String} {selector : String}
  {names : List String} {args : List Value} {e : Node} {r : Except Fault Value}

section
variable (h : m.Follows v className selectors) (hmem : selector ∈ selectors) (hnodup : names.Nodup)
  (hlength : args.length = names.length)

include h hmem hnodup hlength

/-- A method without a primitive replies what the expression ends in that it returns. With no
text literal in it, the expression is the same wherever it is installed. -/
theorem Follows.replies_answering
    (htree : Kernel.tree? className selector = some (Kernel.answering selector names e))
    (hsites : ∀ next, (Node.listWithSites next [.answer e]).1 = [.answer e])
    (hvalue : ∀ f m' method callers, m.Makes (.ofActivation method v names args callers) f m' →
      m'.EndsIn settings depth (.evaluate e f) r) :
    m.Replies settings (depth + 2) v selector args r := by
  refine h.replies hmem htree fun owner next callers => ?_
  rw [hsites]
  exact .returning ⟨rfl, hnodup, hlength⟩ rfl (.inl rfl) rfl rfl callers
    fun f m' => hvalue f m' _ callers

section
variable (hs : settings.KnowsPrimitives) {number : Int} {p : Primitive}
  (hp : (number, p) ∈ Primitive.numbered)
  (htree : Kernel.tree? className selector = some (Kernel.byPrimitiveOr selector number names e))

include hs hp htree

/-- A method whose primitive does not fail. -/
theorem Follows.replies_primitive {action : Action}
    (hattempt : ∀ m', m.Aside [] m' → p.attempt m' v args = .ok action)
    (hresult : action.result? settings = some r) : m.Replies settings 1 v selector args r :=
  h.replies hmem htree fun _ _ callers =>
    (Yields.byPrimitive hs hp hnodup hlength hattempt hresult callers).endsIn

/-- A method whose primitive fails replies what the expression ends in behind it. -/
theorem Follows.replies_fallback
    (hsites : ∀ next, (Node.listWithSites next [.answer e]).1 = [.answer e])
    (hattempt : ∀ m', m.Aside [] m' → ∃ reason, p.attempt m' v args = .error reason)
    (hvalue : ∀ f m' method callers, m.Makes (.ofActivation method v names args callers) f m' →
      m'.EndsIn settings depth (.evaluate e f) r) :
    m.Replies settings (depth + 2) v selector args r := by
  refine h.replies hmem htree fun owner next callers => ?_
  rw [hsites]
  exact .returning ⟨rfl, hnodup, hlength⟩ rfl (.inr ⟨number, p, rfl, hs _ hp, hattempt⟩) rfl rfl
    callers fun f m' => hvalue f m' _ callers

end

/-- A method that gives up where its primitive has no answer. -/
theorem Follows.replies_orFailed (hgives : m.GivesUp v) (hs : settings.KnowsPrimitives)
    {number : Int} {p : Primitive} (hp : (number, p) ∈ Primitive.numbered)
    (htree : Kernel.tree? className selector = some (Kernel.byPrimitive selector number names))
    {answer : Option Value} (hanswers : ∀ m', m.Aside [] m' → p.Answers m' v args answer) :
    m.Replies settings 7 v selector args (Kernel.orFailed answer) :=
  h.replies hmem htree fun _ _ callers =>
    (Yields.orFailed hs hgives hp hnodup hlength hanswers callers).endsIn

end

/-- A method passes its argument on to its receiver. -/
theorem Makes.call_self {method : Method} {w : Value} {name : String} {callers : List FrameId}
    {f : FrameId} (o : m.Makes (.ofActivation method v [name] [w] callers) f m')
    (hreply : m.Replies settings (depth + 1) v selector [w] r) :
    m'.EndsIn settings (depth + 2) (.evaluate (.call .self selector [Kernel.argument name]) f) r :=
  (hreply.aside o.aside).call rfl o.yields_self.endsIn
    (.cons (o.yields_arg rfl (Dictionary.find?_put_self ..)) .nil)

/-- Where the receiver of a send ends in a fault, the send does. -/
theorem EndsIn.call_of_fault {node : Node} {argNodes : List Node} {f : FrameId} {fault : Fault}
    (h : m.EndsIn settings depth (.evaluate node f) (.error fault)) :
    m.EndsIn settings (depth + 1) (.evaluate (.call node selector argNodes) f) (.error fault) := by
  intro m' a
  obtain ⟨m'', a', hout⟩ := h m' a
  have hgoes : (Planned.evaluateNode f (.call node selector argNodes)).Goes
      (Eval.run settings depth) (Call.seen settings 0 depth) m' (.error (.fault fault) m'') _ :=
    Planned.Goes.bind_stop (.call_of_outcome hout 0)
  exact ⟨m'', a', (Call.Goes.evaluate hgoes).outcome⟩

/-- The other boolean. -/
theorem Equipped.replies_not (he : m.Equipped settings) (q : Bool) :
    m.Replies settings 3 (.bool q) "not" [] (.ok (.bool !q)) := by
  have hvalue : ∀ (q : Bool) (f : FrameId) (m' : Memory),
      m'.EndsIn settings 1 (.evaluate (.bool q) f) (.ok (.bool q)) :=
    fun q f m' => (Yields.literal (.bool q)).endsIn
  cases q with
  | false =>
      exact (he.follows rfl ["not"]).replies_answering (List.mem_singleton_self _) List.nodup_nil
        rfl rfl (fun _ => rfl) fun f m' _ _ _ => hvalue true f m'
  | true =>
      exact (he.follows rfl ["not"]).replies_answering (List.mem_singleton_self _) List.nodup_nil
        rfl rfl (fun _ => rfl) fun f m' _ _ _ => hvalue false f m'

/-- Code that asks for the other boolean. -/
theorem EndsIn.not (he : m.Equipped settings) {node : Node} {f : FrameId} {q : Bool}
    (hsuper : node.isSuper = false)
    (hnode : m.EndsIn settings (depth + 3) (.evaluate node f) (.ok (.bool q))) :
    m.EndsIn settings (depth + 4) (.evaluate (.call node "not" []) f) (.ok (.bool !q)) :=
  ((he.replies_not q).deeper (by omega)).call hsuper hnode .nil

end Memory

/-! ### Blocks in code -/

namespace Memory

variable {e node : Node} {f : FrameId} {r : Except Fault Value}

/-- The frame in which a block runs that was made in a frame. -/
def blockFrame (m : Memory) (f : FrameId) (callers : List FrameId) : Frame where
  receiver := (m.heap.frame f).receiver
  method := (m.heap.frame f).method
  outer := f :: (m.heap.frame f).outer
  callers := callers
  isBlock := true

/-- Running a closure whose code is one expression. -/
theorem EndsIn.value (he : m.Equipped settings) {c : ClosureId} {g : FrameId}
    (hc : c < m.heap.closures.size) (hclosure : m.heap.closure c = ⟨[], [], [e], g⟩)
    (hg : g < m.heap.frames.size) (hsuper : node.isSuper = false)
    (hnode : m.Yields settings (depth + 2) (.evaluate node f) (.ok (.closure c)))
    (hblock : ∀ h m' callers, m.Makes (m.blockFrame g callers) h m' →
      m'.EndsIn settings depth (.evaluate e h) r) :
    m.EndsIn settings (depth + 3) (.evaluate (.call node "value" []) f) r := by
  intro m' a
  obtain ⟨m₁, a₁, hfirst⟩ := hnode m' a
  have a₀₁ := a.append a₁
  have htree : Kernel.tree? "BlockClosure" "value" = some (Kernel.byPrimitive "value" 201 []) := rfl
  have hp : (201, Primitive.call 0) ∈ Primitive.numbered := by decide
  have he₁ := he.of_registry a₀₁.registry
  obtain ⟨cls, hclass, hunderstands⟩ := he₁.understands (v := .closure c) rfl htree
  have hlength : ([] : List Value).length = ([] : List String).length := rfl
  obtain ⟨k, m₂, a₂, hnew, -, hsend⟩ := Call.Goes.sendPrimitive he₁ hclass hunderstands
    List.nodup_nil hlength hp hsuper [] f m' m₁ (depth + 1)
  have a₀₂ := a₀₁.append a₂
  -- the closure and the frame around it are what they were
  have hclosure₂ : m₂.heap.closure c = ⟨([] : List String).map .str, [], [e], g⟩ :=
    (a₀₂.heap.closure c hc).trans hclosure
  obtain ⟨h, m₃, o₃, hinvoke⟩ := Makes.of_invoke hclosure₂ hlength settings k depth
  rw [a₀₂.frame g hg List.not_mem_nil] at o₃
  obtain ⟨m₄, a₄, hlast⟩ := hblock h m₃ _ (.prepend a₀₂ o₃) m₃ (.refl [] m₃)
  have hrun := (hinvoke 0 _ _ (.runBody (.foldlM_singleton (.call_of_outcome hlast 0)))).outcome
  have hout := (hsend 0 _ _ _ _ (.call c []) rfl (hfirst 0) Call.Goes.arguments_nil
    (.call_of_outcome hrun 0)).outcome
  rw [Eval.close_ended] at hout
  refine ⟨m₄.retire k, (a₁.append ((a₂.append o₃.aside).append a₄)).trans (.retire m₄ k) ?_, hout⟩
  intro x hx
  obtain rfl := List.mem_singleton.mp hx
  exact .inr (Nat.le_trans a₁.heap.frames hnew)

theorem Aside.blockFrame (a : m.Aside [] m') (hf : f < m.heap.frames.size)
    (callers : List FrameId) : m'.blockFrame f callers = m.blockFrame f callers := by
  unfold Memory.blockFrame
  rw [a.frame f hf List.not_mem_nil]

section
variable (he : m.Equipped settings) {p : Bool} {c : ClosureId} (hf : f < m.heap.frames.size)
  (hblock : p = true → ∀ h m' callers, m.Makes (m.blockFrame f callers) h m' →
    m'.EndsIn settings depth (.evaluate e h) r)

include he hf hblock

/-- What a boolean replies to `and:` with a closure: the result of the closure if it is true. -/
theorem Replies.and (hc : c < m.heap.closures.size)
    (hclosure : m.heap.closure c = ⟨[], [], [e], f⟩) :
    m.Replies settings (depth + 5) (.bool p) "and:" [.closure c]
      (bif p then r else .ok (.bool false)) := by
  cases p with
  | false =>
      have htree : Kernel.tree? "False" "and:"
        = some (Kernel.answering "and:" ["aBlock"] (.bool false)) := rfl
      refine (he.follows rfl ["and:"]).replies (List.mem_singleton_self _) htree
        fun owner next callers => ?_
      refine .returning (?_ : Method.Takes _ ["aBlock"] _) rfl (.inl rfl) rfl rfl callers
        fun g m' o => (Yields.literal (.bool false)).endsIn
      exact ⟨rfl, List.nodup_singleton _, rfl⟩
  | true =>
      have htree : Kernel.tree? "True" "and:"
        = some (Kernel.answering "and:" ["aBlock"] (Kernel.runs "aBlock")) := rfl
      refine (he.follows rfl ["and:"]).replies (List.mem_singleton_self _) htree
        fun owner next callers => ?_
      refine .returning (?_ : Method.Takes _ ["aBlock"] _) rfl (.inl rfl) rfl rfl callers
        fun g m' o => ?_
      · exact ⟨rfl, List.nodup_singleton _, rfl⟩
      refine .value (he.of_registry o.aside.registry)
        (Nat.lt_of_lt_of_le hc o.aside.heap.closures)
        ((o.aside.heap.closure c hc).trans hclosure) (Nat.lt_of_lt_of_le hf o.aside.heap.frames) rfl
        (o.yields_arg rfl rfl) fun h m'' callers' ob => ?_
      rw [o.aside.blockFrame hf] at ob
      exact hblock rfl h m'' callers' (.prepend o.aside ob)

/-- Code that sends `and:` with a block. -/
theorem EndsIn.and (hsuper : node.isSuper = false)
    (hnode : m.EndsIn settings (depth + 5) (.evaluate node f) (.ok (.bool p))) :
    m.EndsIn settings (depth + 6) (.evaluate (.call node "and:" [Node.blockOf [] [e]]) f)
      (bif p then r else .ok (.bool false)) := by
  intro m' a
  obtain ⟨m₁, a₁, hfirst⟩ := hnode m' a
  -- the argument makes the closure, in a memory that the receiver has only added to
  obtain ⟨c, m₂, hmakes, hmake⟩ := Call.Goes.makes m₁ [] [e] f
  have a₀₂ := (a.append a₁).append hmakes.aside
  have hreply : m₂.Replies settings (depth + 5) (.bool p) "and:" [.closure c]
      (bif p then r else .ok (.bool false)) := by
    refine .and (he.of_registry a₀₂.registry) (Nat.lt_of_lt_of_le hf a₀₂.heap.frames)
      (fun hp h m' callers o => ?_) hmakes.there hmakes.closure
    rw [a₀₂.blockFrame hf] at o
    exact hblock hp h m' callers (.prepend a₀₂ o)
  have hargs := (hmake settings 0 (depth + 4)).arguments_cons Call.Goes.arguments_nil
  obtain ⟨m₃, a₃, hout⟩ := hreply.sends hsuper hfirst hargs
  exact ⟨m₃, (a₁.append hmakes.aside).append a₃, hout⟩

end

end Memory

end Smalltalk
