import Smalltalk.Proofs.Counting

/-!
# `Smalltalk.Proofs.Visiting`: how `do:` visits a collection

The collections are the arrays, the texts and symbols, and the objects with elements of a
class that has the kernel methods for them (`Memory.Collection`). However long a collection
is, its size stays (`Collection.later`), but its elements may be others by the time that it is
their turn. So what is visited is said of the memory at the moment of the visit
(`Memory.HasElement`). The element of a text is a text of one character, made for the visit.

`do:` counts to the size with `to:do:`, and the block that it counts with asks for the element
and calls the block that was given (`Visiting.turn`). That is a turn for `Kernel.counts`, so
`Kernel.sends_do` follows: one call for each element, in order, until one stops.
-/

set_option autoImplicit false

namespace Smalltalk

variable {settings : Settings} {b : ClosureId} {depth : Nat} {m m' : Memory}

/-! ### Collections -/

namespace Memory

/-- The collections with their sizes: arrays, texts, symbols, and objects with elements that
understand the kernel methods of collections. -/
inductive Collection (m : Memory) : Value → Nat → Prop where
  | array {a : ArrayId} (h : a < m.heap.arrays.size) : Collection m (.array a) (m.heap.array a).size
  | text (s : String) (origin : TextOrigin) : Collection m (.text s origin) s.length
  | symbol (s : String) : Collection m (.symbol s) s.length
  | object {o : ObjectId} {xs : Array Value} (h : o < m.heap.objects.size)
      (helements : (m.heap.object o).elements = some xs)
      (hmethods : ∀ selector ∈ ["do:", "size", "at:"], ∀ node,
        Kernel.tree? "Collection" selector = some node →
          m.registry.Understands ⟨(m.heap.object o).cls, false⟩ selector node) :
      Collection m (.object o) xs.size

/-- The element of a collection at a place from zero. -/
inductive HasElement (m : Memory) : Value → Nat → Value → Prop where
  | array {a : ArrayId} {j : Nat} {v : Value} (h : (m.heap.array a)[j]? = some v) :
      HasElement m (.array a) j v
  | object {o : ObjectId} {xs : Array Value} {j : Nat} {v : Value}
      (helements : (m.heap.object o).elements = some xs) (h : xs[j]? = some v) :
      HasElement m (.object o) j v
  | text {v : Value} {s : String} {j : Nat} {c : Char} (hs : v.chars? = some s)
      (h : s.toList[j]? = some c) (n : Nat) :
      HasElement m v j (.text (String.singleton c) (.made n))

variable {v : Value} {k : Nat}

theorem HasElement.aside {w : Value} {j : Nat} (h : m.HasElement v j w) {own : List FrameId}
    (a : m.Aside own m') : m'.HasElement v j w := by
  cases h with
  | array h => exact .array (by rwa [a.array])
  | object helements h => exact .object (by rwa [a.object]) h
  | text hs h n => exact .text hs h n

namespace Collection

/-- The size stays. -/
theorem later (h : m.Collection v k) (l : m.Later m') : m'.Collection v k := by
  cases h with
  | array h =>
      rw [← l.heap.array _ h]
      exact .array (Nat.lt_of_lt_of_le h l.heap.arrays)
  | text s origin => exact .text s origin
  | symbol s => exact .symbol s
  | @object o xs h helements hmethods =>
      have hshape := l.heap.object o h
      have hcls : (m'.heap.object o).cls = (m.heap.object o).cls := congrArg (·.1) hshape
      have hsizes : (m'.heap.object o).elements.map Array.size
          = (m.heap.object o).elements.map Array.size := congrArg (·.2.2) hshape
      rw [helements] at hsizes
      obtain ⟨xs', helements', hsize⟩ := Option.map_eq_some_iff.mp hsizes
      rw [← hsize]
      refine .object (Nat.lt_of_lt_of_le h l.heap.objects) helements' ?_
      rw [hcls, l.registry]
      exact hmethods

/-- A collection has the kernel methods of collections. -/
theorem understands (he : m.Equipped settings) (h : m.Collection v k) {selector : String}
    (hselector : selector ∈ ["do:", "size", "at:"]) {node : Node}
    (hnode : Kernel.tree? "Collection" selector = some node) :
    ∃ cls, m.classOf? v = some cls ∧ m.registry.Understands cls selector node := by
  have hinherited : ∀ className ∈ ["Array", "String", "Symbol"],
      Kernel.tree? className selector = some node := by
    intro className hclass
    rw [← hnode]
    fin_cases hclass <;> fin_cases hselector <;> rfl
  cases h with
  | array => exact he.understands rfl (hinherited "Array" (by decide))
  | text => exact he.understands rfl (hinherited "String" (by decide))
  | symbol => exact he.understands rfl (hinherited "Symbol" (by decide))
  | object h helements hmethods => exact ⟨_, rfl, hmethods selector hselector node hnode⟩

theorem attempt_count (h : m.Collection v k) :
    Primitive.count.attempt m v [] = .ok (.tally k) := by
  cases h with
  | array | text | symbol => rfl
  | @object o xs h helements hmethods =>
      show (Primitive.elementCount m (.object o)).map Action.tally = _
      simp only [Primitive.elementCount, helements]
      rfl

/-- The primitive answers the element, or makes a text of it. -/
theorem attempt_fetch (h : m.Collection v k) {j : Nat} (hj : j < k)
    (hholds : SmallInteger.holds (j + 1) = true) :
    (∃ w, Primitive.fetch.attempt m v [.int (j + 1)] = .ok (.answer w) ∧ m.HasElement v j w) ∨
      ∃ s, Primitive.fetch.attempt m v [.int (j + 1)] = .ok (.newText s) ∧
        ∀ n, m.HasElement v j (.text s (.made n)) := by
  have hplace : ∀ size, j < size → Primitive.place (.int (j + 1)) size = .ok j :=
    fun size hsize => Primitive.place_of_lt hsize hholds
  have hattempt : Primitive.fetch.attempt m v [.int (j + 1)]
      = Primitive.elementAt m v (.int (j + 1)) := if_pos rfl
  rw [hattempt]
  have hget : ∀ xs : Array Value, j < xs.size → xs[j]? = some (xs.getD j .nil) := by
    intro xs hxs
    rw [Array.getElem?_eq_getElem hxs, Array.getD_eq_getD_getElem?, Array.getElem?_eq_getElem hxs]
    rfl
  -- of a text, the character is taken out
  have hchar : ∀ s : String, v.chars? = some s → j < s.length → ∀ n,
      m.HasElement v j (.text (String.ofList ((s.toList.drop j).take 1)) (.made n)) := by
    intro s hs hlt n
    have hlt' : j < s.toList.length := by rwa [String.length_toList]
    have htaken : String.ofList ((s.toList.drop j).take 1) = String.singleton s.toList[j] := by
      rw [List.drop_eq_getElem_cons hlt']
      rfl
    rw [htaken]
    exact .text hs (List.getElem?_eq_getElem hlt') n
  cases h with
  | array h =>
      refine .inl ⟨_, ?_, .array (hget _ hj)⟩
      simp only [Primitive.elementAt, hplace _ hj]
      rfl
  | @object o xs h helements hmethods =>
      refine .inl ⟨_, ?_, .object helements (hget _ hj)⟩
      simp only [Primitive.elementAt, helements, hplace _ hj]
      rfl
  | text s origin =>
      refine .inr ⟨_, ?_, hchar s rfl hj⟩
      simp only [Primitive.elementAt, Value.chars?, hplace _ hj]
      rfl
  | symbol s =>
      refine .inr ⟨_, ?_, hchar s rfl hj⟩
      simp only [Primitive.elementAt, Value.chars?, hplace _ hj]
      rfl

/-- Sending `size` to a collection. -/
theorem yields_size (he : m.Equipped settings) (h : m.Collection v k)
    (hroom : k ≤ settings.room) {f : FrameId}
    (hself : m.Yields settings (depth + 1) (.evaluate .self f) (.ok v)) :
    m.Yields settings (depth + 2) (.evaluate (.call .self "size" []) f) (.ok (.int k)) := by
  have hnode : Kernel.tree? "Collection" "size"
    = some (Kernel.byPrimitiveOr "size" 62 [] (.int 0)) := rfl
  have hp : (62, Primitive.count) ∈ Primitive.numbered := by decide
  obtain ⟨cls, hclass, hunderstands⟩ := h.understands he (by decide) hnode
  refine .sendUnderstood hclass hunderstands rfl hself .nil fun owner next callers => ?_
  exact .byPrimitive he.primitive hp List.nodup_nil rfl
    (fun m' a => (h.later a.toLater).attempt_count)
    (if_pos hroom) callers

/-- Sending `at:` to a collection. -/
theorem supplies_element (he : m.Equipped settings) (h : m.Collection v k) {j : Nat} (hj : j < k)
    (hholds : SmallInteger.holds (j + 1) = true) {arg : Node} {f : FrameId}
    (hself : m.Yields settings (depth + 1) (.evaluate .self f) (.ok v))
    (harg : m.Yields settings (depth + 1) (.evaluate arg f) (.ok (.int (j + 1)))) :
    m.Supplies settings (depth + 2) (.evaluate (.call .self "at:" [arg]) f)
      fun m' w => m'.HasElement v j w := by
  intro m' a
  obtain ⟨m₁, a₁, hreceiver⟩ := hself m' a
  obtain ⟨m₂, a₂, hvalue⟩ := harg m₁ (a.append a₁)
  have a₀₂ := (a.append a₁).append a₂
  have he₂ := he.of_registry a₀₂.registry
  have h₂ := h.later a₀₂.toLater
  have hnode : Kernel.tree? "Collection" "at:"
    = some (Kernel.byPrimitive "at:" 60 ["index"]) := rfl
  have hp : (60, Primitive.fetch) ∈ Primitive.numbered := by decide
  obtain ⟨cls, hclass, hunderstands⟩ := h₂.understands he₂ (by decide) hnode
  have hlength : [Value.int (j + 1)].length = ["index"].length := rfl
  have hsuper : Node.self.isSuper = false := rfl
  obtain ⟨g, m₃, a₃, hnew, -, hsend⟩ := Call.Goes.sendPrimitive he₂ hclass hunderstands
    (List.nodup_singleton _) hlength hp hsuper [arg] f m' m₁ depth
  have a₁₃ := (a₁.append a₂).append a₃
  have hfresh : m'.heap.frames.size ≤ g := Nat.le_trans (a₁.append a₂).heap.frames hnew
  -- whether the element is answered or made, the frame of the method is closed then
  have hanswers : ∀ w m₄ action, m₃.Aside [] m₄ → m₄.HasElement v j w →
      Primitive.fetch.attempt m₃ v [.int (j + 1)] = .ok action →
      (∀ b, (Planned.perform settings g action).Goes (Eval.run settings depth)
        (Call.seen settings b depth) m₃ (.ok w m₄) []) →
      ∃ w m'', m'.Aside [] m'' ∧ m''.HasElement v j w ∧
        ∀ b, (Call.mk (.evaluate (.call .self "at:" [arg]) f) m' (depth + 2)).Goes settings b
          (.ok w m'') [] := by
    intro w m₄ action a₄ hw hattempt hperform
    refine ⟨w, m₄.retire g, ?_, hw.aside (.retire m₄ g), fun b => ?_⟩
    · refine (a₁₃.append a₄).trans (.retire m₄ g) fun g' hg' => .inr ?_
      exact List.mem_singleton.mp hg' ▸ hfresh
    · exact hsend b [] [] [] (.ok w m₄) action hattempt (hreceiver b)
        ((hvalue b).arguments_cons Call.Goes.arguments_nil) (hperform b)
  rcases (h₂.later a₃.toLater).attempt_fetch hj hholds with ⟨w, hattempt, hw⟩ | ⟨s, hattempt, hw⟩
  · exact hanswers w m₃ (.answer w) (.refl [] m₃) hw hattempt fun b => .still fun _ _ => rfl
  · exact hanswers (.text s (.made m₃.heap.texts)) (m₃.newText s).1 (.newText s)
      (.newText m₃ s) ((hw _).aside (.newText m₃ s)) hattempt fun b => .still fun _ _ => rfl

theorem not_closure (h : m.Collection v k) (c : ClosureId) : v ≠ .closure c := by
  cases h <;> nofun

end Collection

/-- What an element leads to, the collection does. -/
theorem HasElement.reach {vs : List Value} {w : Value} {j : Nat} (h : m.HasElement v j w)
    (hv : v ∈ vs) {c : Cell} (hc : w.cell? = some c) : m.Reach vs c := by
  cases h with
  | @array a _ _ h =>
      have hroot : m.Reach vs (.array a) := .root (.inl ⟨_, hv, rfl⟩)
      exact hroot.refers ⟨w, Array.mem_of_getElem? h, hc⟩
  | @object o xs _ _ helements h =>
      have hroot : m.Reach vs (.object o) := .root (.inl ⟨_, hv, rfl⟩)
      exact hroot.refers ⟨w, .inr ⟨xs, helements, Array.mem_of_getElem? h⟩, hc⟩
  | text => cases hc

end Memory

/-! ### The method -/

namespace Kernel

open Node

/-- What the block of `do:` does with a number. -/
def visit : List Node :=
  [.call (argument "aBlock") "value:" [.call .self "at:" [argument "i"]]]

/-- The statement of `do:`. -/
def visitingStatements : List Node :=
  [.call (int 1) "to:do:" [.call .self "size" [], blockOf ["i"] visit]]

theorem tree?_do : tree? "Collection" "do:"
    = some (.method (.str "do:") [.str "aBlock"] [] visitingStatements .null) :=
  rfl

/-- The method `do:` in its class. -/
def doMethod (owner : Behavior) : Method :=
  ⟨.str "do:", [.str "aBlock"], [], visitingStatements, .null, owner⟩

theorem do_found {v : Value} {k : Nat} (he : m.Equipped settings) (h : m.Collection v k) :
    ∃ cls owner, m.classOf? v = some cls ∧
      m.registry.lookup? (.text "do:") cls = some (doMethod owner) := by
  obtain ⟨cls, hclass, hunderstands⟩ := h.understands he (by decide) tree?_do
  obtain ⟨owner, next, hmethod⟩ := hunderstands.method
  exact ⟨cls, owner, hclass, hmethod⟩

/-- A call with the element at the place with the number `i`, as it is at that moment. -/
def PassesElement (v : Value) (i : Int) (call : Call) : Prop :=
  ∃ w, call.task.arguments = [w] ∧ call.memory.HasElement v (i - 1).toNat w

/-- What holds while `do:` runs in the frame `f`: it counts with the closure `c`. -/
structure Visiting (settings : Settings) (v : Value) (k : Nat) (b : ClosureId) (f : FrameId)
    (c : ClosureId) (m : Memory) : Prop where
  equipped : m.Equipped settings
  collection : m.Collection v k
  there : f < m.heap.frames.size
  receiver : (m.heap.frame f).receiver = v
  outermost : (m.heap.frame f).outer = []
  block : (m.heap.frame f).slots.find? (.text "aBlock") = some (.closure b)
  closure_lt : c < m.heap.closures.size
  closure_eq : m.heap.closure c = ⟨[.str "i"], [], visit, f⟩

namespace Visiting

variable {v : Value} {k : Nat} {f : FrameId} {c : ClosureId}

theorem spared (h : Visiting settings v k b f c m) (l : m.Spares [f] m') :
    Visiting settings v k b f c m' := by
  have hsame := l.same f (List.mem_singleton_self f)
  refine ⟨h.equipped.of_registry l.registry, h.collection.later l.toLater,
    Nat.lt_of_lt_of_le h.there l.heap.frames, ?_, ?_, ?_,
    Nat.lt_of_lt_of_le h.closure_lt l.heap.closures,
    (l.heap.closure c h.closure_lt).trans h.closure_eq⟩
  · rw [hsame, h.receiver]
  · rw [hsame, h.outermost]
  · rw [hsame, h.block]

/-- Counting a number is a turn: one call, with the element that there is then. -/
theorem turn (h : Visiting settings v k b f c m) {i : Int} (hfirst : 1 ≤ i) (hlast : i ≤ k)
    (hholds : SmallInteger.holds i = true) {hidden : List FrameId}
    (s : m.Secludes [.closure b, v] hidden) (hf : f ∈ hidden) (hc : c ≠ b) (caller : FrameId)
    (depth : Nat) : ∃ call out, PassesElement v i call ∧
      Call.Turn settings b (depth + 4) [.closure b, v] hidden m (.invoke c [.int i] caller) call
        out := by
  obtain ⟨j, rfl⟩ : ∃ j : Nat, i = j + 1 := ⟨(i - 1).toNat, by omega⟩
  have hj : j < k := by omega
  have hclosure : m.heap.closure c = ⟨["i"].map .str, [], visit, f⟩ := h.closure_eq
  have hlength : [Value.int (j + 1)].length = ["i"].length := rfl
  obtain ⟨g, m₁, o, hinvoke⟩ :=
    Memory.Makes.of_invoke hclosure hlength settings caller (depth + 3)
  have hspares₁ : m.Spares [f] m₁ := (s.spares o.aside).mono fun g hg => by
    rw [List.mem_singleton.mp hg]
    exact hf
  have h₁ := h.spared hspares₁
  have s₁ : m₁.Secludes [.closure b, v] (g :: hidden) := s.cons o.aside o.fresh o.there
  have houter : (m₁.heap.frame g).outer = [f] := by
    rw [o.frame, h.outermost]
  -- the collection, the number and the block, as they are read in the new frame
  have hself : ∀ {d : Nat}, m₁.Yields settings (d + 1) (.evaluate .self g) (.ok v) := by
    intro d
    rw [← h.receiver]
    exact o.yields_self
  have hnumber : m₁.Yields settings (depth + 1) (.evaluate (argument "i") g)
      (.ok (.int (j + 1))) := by
    refine .read (.inr rfl) (fun g' hg' => ?_) (o.lookup? rfl)
    unfold Heap.chain at hg'
    rw [houter] at hg'
    rcases List.mem_cons.mp hg' with rfl | hg'
    · exact o.there
    · obtain rfl := List.mem_singleton.mp hg'
      exact h₁.there
  have hblock : m₁.Yields settings (depth + 2) (.evaluate (argument "aBlock") g)
      (.ok (.closure b)) := by
    refine .readOuter (.inr rfl) o.there h₁.there houter ?_ h₁.block
    rw [o.frame]
    rfl
  obtain ⟨call, out, hvisits, t⟩ := Call.Turn.value (A := PassesElement v (j + 1)) h₁.equipped rfl
    hblock (h₁.collection.supplies_element h₁.equipped hj hholds hself hnumber)
    (fun a hw => hw.aside a) s₁ fun w V m₂ hw _ s₂ => by
      have hw' : m₂.HasElement v ((j : Int) + 1 - 1).toNat w := by
        rwa [Int.add_sub_cancel, Int.toNat_natCast]
      have hreach : ∀ w' ∈ [w], ∀ cell, w'.cell? = some cell →
          m₂.Reach [.closure b, v] cell := fun w' hmem cell hcell =>
        hw.reach (by simp) (List.mem_singleton.mp hmem ▸ hcell)
      exact ⟨_, _, ⟨w, rfl, hw'⟩, s₂.turn settings List.mem_cons_self hreach List.mem_cons_self _⟩
  have hsub : ∀ g' ∈ hidden, g' ∈ g :: hidden := fun g' => List.mem_cons_of_mem g
  refine ⟨call, out, hvisits, .inner (hinvoke b out [call] (.runBody (.foldlM_singleton t.goes)))
    (beq_false_of_ne hc), t.stops, fun w m' hout => ?_, fun w home m' hout hmem => ?_⟩
  · obtain ⟨hspares, s₂⟩ := t.spares w m' hout
    exact ⟨(s.spares o.aside).trans (hspares.mono hsub), s₂.mono hsub⟩
  · exact t.home w home m' hout (hsub home hmem)

end Visiting

/-- Every activation of `do:` makes a tour of the places. -/
theorem visits {v : Value} {k : Nat} (he : m.Equipped settings) (h : m.Collection v k)
    (hlast : (k : Int) < SmallInteger.greatest) (hroom : k ≤ settings.room)
    (hrounds : k < settings.rounds) (hb : b < m.heap.closures.size)
    (s : m.Secludes [.closure b, v] []) (owner : Behavior) (callers : List FrameId) :
    ∃ calls stop out, Tours settings (PassesElement v) k 1 calls stop ∧ Eval.stop? out = stop ∧
      (Call.mk (.activate (doMethod owner) v [.closure b] callers) m (depth + 12)).Goes settings b
        out calls ∧
      ∀ w m', out = .ok w m' → w = v := by
  have htakes : Method.Takes (doMethod owner) ["aBlock"] [.closure b] :=
    ⟨rfl, List.nodup_singleton _, rfl⟩
  obtain ⟨D, m₁, henter, o, -⟩ := htakes.enters v callers m
  -- the receiver and the arguments of `to:do:`
  have h₁ := h.later o.aside.toLater
  have hsize : m₁.Yields settings (depth + 10) (.evaluate (.call .self "size" []) D)
      (.ok (.int k)) :=
    h₁.yields_size (he.of_registry o.aside.registry) hroom o.yields_self
  obtain ⟨m₂, a₂, hsizeGoes⟩ := hsize.here
  obtain ⟨c, m₃, hmakes, hblock⟩ := Call.Goes.makes m₂ ["i"] visit D
  have o₃ := (o.append a₂).append hmakes.aside
  obtain ⟨cls, owner', hclass, hmethod⟩ := toDo_found (he.of_registry o₃.aside.registry) 1
  have hsuper : (int 1).isSuper = false := rfl
  obtain ⟨m₄, hnoted, hsend⟩ := Call.Goes.send settings (depth + 10) D m₁ m₁
    [.call .self "size" [], blockOf ["i"] visit] [.int k, .closure c] hsuper hclass hmethod rfl
  have o₄ := o₃.append (.of_noted hnoted)
  have hmakes₄ := hmakes.append (.of_noted hnoted)
  have hfresh : c ≠ b := Nat.ne_of_gt (Nat.lt_of_lt_of_le hb
    (Nat.le_trans (o.aside.append a₂).heap.closures hmakes.fresh))
  have hvisiting : Visiting settings v k b D c m₄ := by
    refine ⟨he.of_registry o₄.aside.registry, h.later o₄.aside.toLater, o₄.there, ?_, ?_, ?_,
      hmakes₄.there, hmakes₄.closure⟩
    · rw [o₄.frame]
    · rw [o₄.frame]
    · rw [o₄.frame]
      rfl
  have hholds : ∀ i : Int, 0 ≤ i → i ≤ k → SmallInteger.holds i = true := by
    intro i hfirst hle
    rw [SmallInteger.holds_iff]
    unfold SmallInteger.greatest at hlast
    omega
  -- the frame of `do:` is left alone in every round, so each finds it as it was
  have turns : Turns settings b (depth + 4) [.closure b, v] [D] m₄ c (PassesElement v) 1 k := by
    intro i m' hidden g hfirst hle hspares s' hD _
    exact (hvisiting.spared hspares).turn hfirst hle (hholds i (by omega) hle) s'
      (hD D (List.mem_singleton_self D)) hfresh g depth
  have hcount : ((k : Int) + 1 - 1).toNat < settings.rounds := by omega
  obtain ⟨calls, stop, out, htours, hstop, hgoes, -, hhome⟩ :=
    counts hvisiting.equipped (by decide) (hholds k (by omega) (Int.le_refl _)) hlast
      (Nat.lt_of_lt_of_le hb o₄.aside.heap.closures) hcount
      (s.cons o₄.aside o₄.fresh o₄.there) turns owner' (D :: (m₄.heap.frame D).callers)
  have hcall := hsend b [] [] calls out (.literal _)
    ((hsizeGoes b).arguments_cons ((hblock ..).arguments_cons Call.Goes.arguments_nil)) hgoes
  have hstatements : (Planned.runBody D [] visitingStatements).Goes (Eval.run settings (depth + 11))
      (Call.seen settings b (depth + 11)) m₁ out calls :=
    .runBody (.foldlM_singleton (.inner hcall rfl))
  -- the block does not unwind to the frame of `do:`, which it cannot get at
  obtain ⟨out', hstops, hactivate, hanswer⟩ :=
    Call.Goes.activate_plain htakes.arity henter rfl hstatements fun w m' heq =>
      hhome w D m' heq (List.mem_singleton_self D)
  exact ⟨calls, stop, out', htours, hstops.trans hstop, hactivate, hanswer⟩

/-- A send of `do:` to a collection calls the block with the elements, in order, each as it is
at the moment of the call. If the calls all complete, there is one for each place, and the send
answers the collection. Otherwise it stops where the first call does that stops.

As with `to:do:`, only the code of `do:` itself has to have enough depth and rounds. A size of
more than `settings.room` cannot be told. -/
theorem sends_do {v : Value} {k : Nat} {calls : List Call} {out : Outcome Value}
    (he : m.Equipped settings) (hclosed : m.Closed) (hcollection : m.Collection v k)
    (hlast : (k : Int) < SmallInteger.greatest) (hroom : k ≤ settings.room)
    (hb : b < m.heap.closures.size) (hrounds : k < settings.rounds) (hdepth : 12 ≤ depth)
    (h : Memory.Sends settings v "do:" [.closure b] m depth calls out) :
    ∃ c, calls = [c] ∧
      (∀ j (hj : j < (c.invocations settings b).length), ∃ w,
        (c.invocations settings b)[j].task.arguments = [w] ∧
          (c.invocations settings b)[j].memory.HasElement v j w) ∧
      Eval.Visits settings k v (c.invocations settings b) out := by
  obtain ⟨cls, owner, hclass, hmethod⟩ := do_found he hcollection
  obtain ⟨callers, m₁, hnoted, rfl, hout⟩ := h.activates hclass hmethod rfl
  obtain ⟨d, rfl⟩ : ∃ d, depth = d + 12 := ⟨depth - 12, by omega⟩
  have a₁ : m.Aside [] m₁ := .of_noted hnoted
  have s : m₁.Secludes [.closure b, v] [] := by
    refine (hclosed.secludes fun c hc => ?_).aside a₁ nofun nofun
    rcases List.mem_cons.mp hc with heq | hc
    · exact Value.closure.inj heq ▸ hb
    · exact absurd (List.mem_singleton.mp hc).symm (hcollection.not_closure c)
  obtain ⟨visited, stop, out', htours, hstop, hgoes, hok⟩ :=
    visits (he.of_registry a₁.registry) (hcollection.later a₁.toLater) hlast hroom hrounds
      (Nat.lt_of_lt_of_le hb a₁.heap.closures) s owner callers
  rw [← hgoes.outcome] at hstop hok
  have hvisits := htours.visits hstop hok hout
  rw [Int.add_sub_cancel, Int.toNat_natCast] at hvisits
  refine ⟨_, rfl, ?_⟩
  rw [hgoes.invocations]
  refine ⟨fun j hj => ?_, hvisits⟩
  obtain ⟨w, harguments, helement⟩ := htours.get j hj
  have hplace : ((1 : Int) + j - 1).toNat = j := by omega
  rw [hplace] at helement
  exact ⟨w, harguments, helement⟩

/-- A memory with an array of two numbers and a block that returns its argument. -/
def withArray (m : Memory) : Memory :=
  withBlock { m with heap := (m.heap.newArray #[.int 7, .int 8]).1 } [.answer (argument "i")]

theorem withArray_equipped (he : m.Equipped settings) : (withArray m).Equipped settings :=
  he.of_registry rfl

theorem withArray_closed (g : m.Good Regime.any []) : (withArray m).Closed := by
  refine withBlock_closed (g.newArray fun v hv => ?_) _
  simp only [List.mem_toArray, List.mem_cons, List.not_mem_nil, or_false] at hv
  rcases hv with rfl | rfl <;> exact ⟨rfl, trivial⟩

/-- A block that returns its argument is called with the first element, and no more. -/
theorem sends_do_until_return : (∃ c,
    ((Query.send (.array 0) (.str "do:") [.closure 0]).call? {} (withArray memory)).toList = [c] ∧
      (∀ j (hj : j < (c.invocations {} 0).length), ∃ w,
        (c.invocations {} 0)[j].task.arguments = [w] ∧
          (c.invocations {} 0)[j].memory.HasElement (.array 0) j w) ∧
      Eval.Visits {} 2 (.array 0) (c.invocations {} 0)
        ((Query.send (.array 0) (.str "do:") [.closure 0]).perform {} (withArray memory))) ∧
    (match (Query.send (.array 0) (.str "do:") [.closure 0]).perform {} (withArray memory) with
      | .error (.unwind (.int 7) 0) _ => true
      | _ => false) = true := by
  have hclosed : (withArray memory).Closed := withArray_closed (memory_good fun _ _ => rfl)
  have hcollection : (withArray memory).Collection (.array 0) 2 := by
    have hsize : ((withArray memory).heap.array 0).size = 2 := by decide +kernel
    rw [← hsize]
    exact .array (by decide +kernel)
  exact ⟨sends_do (withArray_equipped memory_equipped) hclosed hcollection (by decide) (by decide)
    (by decide +kernel) (by decide) (by decide) (.query _), by decide +kernel⟩

end Kernel

end Smalltalk
