import Smalltalk.Proofs.Classes
import Smalltalk.Proofs.Invariant

/-!
# `Smalltalk.Proofs.Change`: defining and compiling keep the invariant

Between evaluations a system is changed from outside: classes are defined,
methods compiled, images loaded. None of this touches the heap, so the
invariant comes down to the classes (`Memory.Good.withRegistry`). A new class
has no methods, a name that is bound again still stands for a class, and an
installed method is admitted because its tree is
(`Registry.Sound.define`, `Registry.Sound.updateTable`).

`Change.Keeps` says that a change ends in a good memory, with or without a
fault: what it has done before a fault stays done. `Image.load_keeps` is the
result for images.
-/

set_option autoImplicit false

namespace Smalltalk

variable {R : Regime} {m : Memory}

/-! ### Sites -/

mutual
/-- Where its text literals come from does not matter for a tree. -/
theorem Regime.node_withSites (R : Regime) (next : Nat) :
    (n : Node) → R.node (n.withSites next).1 = R.node n
  | .self | .super | .reference .. | .symbol _ => rfl
  | .literal value => by cases value <;> rfl
  | .literalArray elements => by
      simp only [Node.withSites, node]
      exact R.nodes_withSites next elements
  | .sequence temps statements => by
      simp only [Node.withSites, node]
      rw [R.nodes_withSites next statements]
  | .block params temps statements => by
      simp only [Node.withSites, node]
      rw [R.nodes_withSites next statements]
  | .send receiver selector args => by
      simp only [Node.withSites, node]
      rw [R.node_withSites next receiver, R.nodes_withSites _ args]
  | .assign name kind index value => by
      simp only [Node.withSites, node]
      rw [R.node_withSites next value]
  | .answer value => by
      simp only [Node.withSites, node]
      exact R.node_withSites next value
  | .method selector params temps statements primitive => by
      simp only [Node.withSites, node]
      rw [R.nodes_withSites next statements]

/-- The same of every tree of a list. -/
theorem Regime.nodes_withSites (R : Regime) (next : Nat) :
    (ns : List Node) → R.nodes (Node.listWithSites next ns).1 = R.nodes ns
  | [] => rfl
  | n :: rest => by
      simp only [Node.listWithSites, nodes]
      rw [R.node_withSites next n, R.nodes_withSites _ rest]
end

/-! ### Classes -/

namespace Registry

/-- A class that is defined has no methods yet. -/
theorem Sound.define {r : Registry} (s : r.Sound R) (name : String)
    (superclass : Option ClassId) (instanceVariables : List Json) (indexable : Json) :
    (r.define name superclass instanceVariables indexable).1.Sound R where
  registered := registered_define s.registered name superclass instanceVariables indexable
  method b key method h := by
    -- the tables of the new class are empty
    rw [table_define] at h
    split at h
    · cases h
    · exact s.method b key method h
  kernel c hc := isSome_find?_define name superclass instanceVariables indexable (s.kernel c hc)

/-- A change of one table that adds at most one admitted method. -/
theorem Sound.updateTable {r : Registry} (s : r.Sound R) (b : Behavior)
    {change : MethodTable → MethodTable}
    (h : ∀ t key method, (change t).methods.find? key = some method →
      t.methods.find? key = some method ∨ R.method method = true) :
    (r.updateTable b change).Sound R where
  registered name id hid := by
    rw [size_updateTable]
    exact s.registered name id hid
  method c key method hc := by
    rw [table_updateTable] at hc
    split at hc
    · rcases h _ key method hc with hold | hadmitted
      · exact s.method b key method hold
      · exact hadmitted
    · exact s.method c key method hc
  kernel := s.kernel

end Registry

/-! ### Memories -/

namespace Memory

/-- More classes leave the values where they are. -/
theorem Knows.withRegistry {r : Registry} {v : Value} (h : m.Knows v)
    (hsize : m.registry.classes.size ≤ r.classes.size) : Knows { m with registry := r } v := by
  cases v with
  | behavior b => exact Nat.lt_of_lt_of_le h hsize
  | _ => exact h

/-- Only the classes have to be looked at when nothing else is changed. -/
theorem Good.withRegistry {opened : List FrameId} (g : m.Good R opened) {r : Registry}
    (sound : r.Sound R) (hsize : m.registry.classes.size ≤ r.classes.size) :
    Good R opened { m with registry := r } := by
  have hholds : ∀ v, R.Holds m v → R.Holds { m with registry := r } v :=
    fun v hv => ⟨hv.1, hv.2.withRegistry hsize⟩
  have w : WellFormed R { m with registry := r } := {
    stored := fun v hv => hholds v (g.stored v hv)
    bound := fun key v hv => hholds v (g.bound key v hv)
    object := fun o ho => Nat.lt_of_lt_of_le (g.object o ho) hsize
    closure := g.closure
    running := g.running
    nested := g.nested
    classes := sound
    quiet := g.quiet }
  exact { toWellFormed := w, active := g.active, settled := g.settled }

/-- A class that is defined is bound as a global. -/
theorem Good.define {opened : List FrameId} (g : m.Good R opened) (name : String)
    (superclass : Option ClassId) (instanceVariables : List Json) (indexable : Json) :
    Good R opened { m with
      registry := (m.registry.define name superclass instanceVariables indexable).1
      globals := m.globals.put (.text name) (.str name)
        (.behavior ⟨m.registry.classes.size, false⟩) } := by
  have hsize : m.registry.classes.size
      < (m.registry.define name superclass instanceVariables indexable).1.classes.size :=
    Nat.lt_of_lt_of_eq (Nat.lt_succ_self _) (m.registry.size_define ..).symm
  have g' := g.withRegistry (g.classes.define name superclass instanceVariables indexable)
    (Nat.le_of_lt hsize)
  exact g'.bind (.text name) (.str name) ⟨rfl, hsize⟩

end Memory

namespace Change

/-- A change that ends in a good memory, and without a fault as `post` says. -/
def Keeps {α : Type} (R : Regime) (act : Change α) (m : Memory) (post : α → Memory → Prop) :
    Prop :=
  match act m with
  | .ok a m' => m'.Good R [] ∧ post a m'
  | .error _ m' => m'.Good R []

variable {α β : Type}

namespace Keeps

theorem pure {a : α} {post : α → Memory → Prop} (g : m.Good R []) (h : post a m) :
    Keeps R (Pure.pure a) m post :=
  ⟨g, h⟩

theorem fail {f : Fault} {post : α → Memory → Prop} (g : m.Good R []) :
    Keeps R (throw f) m post :=
  g

theorem bind {x : Change α} {f : α → Change β} {Q : α → Memory → Prop}
    {post : β → Memory → Prop} (hx : Keeps R x m Q)
    (hf : ∀ a m', m'.Good R [] → Q a m' → Keeps R (f a) m' post) :
    Keeps R (x >>= f) m post := by
  show match EStateM.bind x f m with
    | .ok a m' => m'.Good R [] ∧ post a m'
    | .error _ m' => m'.Good R []
  unfold Keeps at hx
  unfold EStateM.bind
  cases hr : x m with
  | ok a m' =>
      rw [hr] at hx
      exact hf a m' hx.1 hx.2
  | error f m' =>
      rw [hr] at hx
      exact hx

theorem get {k : Memory → Change β} {post : β → Memory → Prop} (h : Keeps R (k m) m post) :
    Keeps R (MonadState.get >>= k) m post :=
  h

theorem ofExcept {e : Except Fault α} {post : α → Memory → Prop} (g : m.Good R [])
    (h : ∀ a, e = .ok a → post a m) : Keeps R (Change.ofExcept e) m post := by
  cases he : e with
  | ok a => exact pure g (h a he)
  | error f => exact fail g

/-- A journal that is not kept gets no line. -/
theorem note (g : m.Good R []) (line : String) :
    Keeps R (Change.note line) m fun _ m' => m' = m := by
  have hnote : m.note line = m := Memory.note_of_quiet g.quiet line
  refine ⟨?_, hnote⟩
  show (m.note line).Good R []
  rw [hnote]
  exact g

theorem mapM {xs : List α} {f : α → Change β} (g : m.Good R [])
    (hf : ∀ x ∈ xs, ∀ m', m'.Good R [] → Keeps R (f x) m' fun _ _ => True) :
    Keeps R (xs.mapM f) m fun _ _ => True := by
  induction xs generalizing m with
  | nil =>
      rw [List.mapM_nil]
      exact pure g trivial
  | cons x xs ih =>
      rw [List.mapM_cons]
      refine bind (hf x List.mem_cons_self m g) ?_
      intro b m₁ g₁ _
      have htail := ih g₁ fun y hy => hf y (List.mem_cons_of_mem _ hy)
      exact bind htail fun bs m₂ g₂ _ => pure g₂ trivial

/-- Numbering text literals only counts them. -/
theorem place (g : m.Good R []) (node : Node) :
    Keeps R (Change.place node) m fun placed _ => R.node placed = R.node node := by
  refine ⟨?_, R.node_withSites _ node⟩
  exact g.change (.of_heap (.texts m.heap _)) (fun v hv => g.stored v hv) g.bound rfl rfl rfl
    fun _ _ => rfl

theorem install (g : m.Good R []) {method : Method} (hmethod : R.method method = true)
    (protocol : Json) : Keeps R (Change.install method protocol) m fun _ _ => True := by
  refine bind (Q := fun _ _ => True) (ofExcept g fun _ _ => trivial) ?_
  intro protocolKey m₁ g₁ _
  -- a protocol that is made known adds no method
  have hprotocol : ∀ (t : MethodTable) (key : Key) (found : Method),
      (t.addProtocol protocolKey protocol).methods.find? key = some found →
        t.methods.find? key = some found ∨ R.method found = true := by
    intro t key found h
    unfold MethodTable.addProtocol at h
    split at h <;> exact .inl h
  refine bind (Q := fun _ _ => True) ⟨?_, trivial⟩ fun _ m₂ g₂ _ => ?_
  · exact g₁.withRegistry (g₁.classes.updateTable _ hprotocol)
      (Nat.le_of_eq (Registry.size_updateTable ..).symm)
  refine bind (Q := fun _ _ => True) (ofExcept g₂ fun _ _ => trivial) ?_
  intro selector m₃ g₃ _
  have hinstall : ∀ (t : MethodTable) (key : Key) (found : Method),
      (t.install protocolKey selector method).methods.find? key = some found →
        t.methods.find? key = some found ∨ R.method found = true := by
    intro t key found h
    simp only [MethodTable.install, Dictionary.find?_put] at h
    split at h
    · exact .inr (Option.some.inj h ▸ hmethod)
    · exact .inl h
  refine ⟨?_, trivial⟩
  exact g₃.withRegistry (g₃.classes.updateTable _ hinstall)
    (Nat.le_of_eq (Registry.size_updateTable ..).symm)

theorem compile (g : m.Good R []) (owner : Behavior) {node : Node} (hnode : R.node node = true)
    (protocol : Json) : Keeps R (Change.compile owner node protocol) m fun _ _ => True := by
  unfold Change.compile
  cases node with
  | method selector params temps statements primitive =>
      have hmethod : R.method ⟨selector, params, temps, statements, primitive, owner⟩ = true :=
        hnode
      exact bind (install g hmethod protocol) fun _ m₁ g₁ _ => pure g₁ trivial
  | _ => exact fail g

theorem define (g : m.Good R []) (name superclass instanceVariables indexable : Json) :
    Keeps R (Change.define name superclass instanceVariables indexable) m
      fun _ _ => True := by
  unfold Change.define
  refine get (bind (Q := fun _ _ => True) (ofExcept g fun _ _ => trivial)
    fun parent m₁ g₁ _ => ?_)
  refine bind (Q := fun _ _ => True) (ofExcept g₁ fun _ _ => trivial) ?_
  intro declared m₂ g₂ _
  split
  · exact ⟨g₂.define _ parent declared _, trivial⟩
  · exact fail g₂

end Keeps

end Change

/-! ### Images -/

namespace Image

open Change

theorem loadMethods_keeps (className : String) (owner : Behavior) {fields : List (String × Json)}
    (hfields : (fields.all fun field => R.part field.2) = true) (g : m.Good R []) :
    Change.Keeps R (loadMethods className owner fields) m fun _ _ => True := by
  induction fields generalizing m with
  | nil => exact Keeps.pure g trivial
  | cons field rest ih =>
      obtain ⟨selector, json⟩ := field
      obtain ⟨hpart, hrest⟩ := Bool.and_eq_true_iff.mp hfields
      simp only [Regime.part] at hpart
      unfold loadMethods
      cases hread : Node.ofJson? json with
      | error e => exact Keeps.fail g
      | ok node =>
          rw [hread] at hpart
          -- the methods before a fault stay, so the induction starts from what this one leaves
          have hcompile : Change.Keeps R (do
              let _ ← Change.compile owner (← Change.place node) (.str "image")
              loadMethods className owner rest) m fun _ _ => True := by
            refine Keeps.bind (Keeps.place g node) ?_
            intro placed m₁ g₁ hplaced
            refine Keeps.bind (Keeps.compile g₁ owner (hplaced.trans hpart) _) ?_
            exact fun _ m₂ g₂ _ => ih hrest g₂
          simp only
          split
          · exact Keeps.fail g
          -- the tree is filed only under its own selector
          split
          · split
            · exact hcompile
            · exact Keeps.fail g
          · exact Keeps.fail g

theorem loadSide_keeps (className : String) (owner : Behavior) {methods : Option Json}
    (hmethods : R.side methods = true) (g : m.Good R []) :
    Change.Keeps R (loadSide className owner methods) m fun _ _ => True := by
  unfold loadSide
  split
  · exact Keeps.pure g trivial
  · exact loadMethods_keeps className owner hmethods g
  · exact Keeps.fail g

theorem classFor_keeps (name : String) (fields : List (String × Json)) (g : m.Good R []) :
    Change.Keeps R (classFor name fields) m fun _ _ => True := by
  unfold classFor
  refine Keeps.get ?_
  split
  · split
    · exact Keeps.fail g
    · exact Keeps.bind (Keeps.note g _) fun _ m₁ g₁ _ => Keeps.pure g₁ trivial
  · refine Keeps.bind (Q := fun _ _ => True) (Keeps.ofExcept g fun _ _ => trivial) ?_
    intro _ m₁ g₁ _
    refine Keeps.bind (Keeps.define g₁ _ _ _ _) ?_
    intro id m₂ g₂ _
    exact Keeps.bind (Keeps.note g₂ _) fun _ m₃ g₃ _ => Keeps.pure g₃ trivial

theorem loadDefinition_keeps {definition : Json} (hdefinition : R.definition definition = true)
    (g : m.Good R []) : Change.Keeps R (loadDefinition definition) m fun _ _ => True := by
  unfold loadDefinition
  split
  · rename_i fields
    obtain ⟨hmethods, hclassMethods⟩ := Bool.and_eq_true_iff.mp hdefinition
    split
    · rename_i name _
      refine Keeps.bind (classFor_keeps name fields g) ?_
      intro id m₁ g₁ _
      refine Keeps.bind (loadSide_keeps name _ hmethods g₁) ?_
      intro _ m₂ g₂ _
      refine Keeps.bind (loadSide_keeps name _ hclassMethods g₂) ?_
      intro _ m₃ g₃ _
      exact Keeps.pure g₃ trivial
    · exact Keeps.fail g
  · exact Keeps.fail g

/-- Loading an image keeps the invariant, wherever it stops. -/
theorem load_keeps {image : Json} (himage : R.image image = true) (g : m.Good R []) :
    Change.Keeps R (load image) m fun _ _ => True := by
  unfold load
  split
  · exact Keeps.mapM g fun d hd m' g' => loadDefinition_keeps (List.all_eq_true.mp himage d hd) g'
  · exact Keeps.fail g

end Image

end Smalltalk
