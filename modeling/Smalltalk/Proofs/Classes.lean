import Smalltalk.Registry
import Smalltalk.Proofs.Heap

/-!
# `Smalltalk.Proofs.Classes`: reading the classes after a change

Two things happen to the classes of a system: one is defined, or the methods of one are
changed. The lemmas say what every reader answers afterwards, so a proof about the classes
never opens the array that they are kept in.

A class that is defined comes last, and its name alone is bound anew: the classes that were
there stay what they are, even the one that had the name. A change of a table leaves all of a
class but its methods (`Registry.head`).
-/

set_option autoImplicit false

namespace Smalltalk

namespace Registry

variable {r : Registry}

/-- What is read where there is no class. -/
theorem entry_of_le {id : ClassId} (h : r.classes.size ≤ id) : r.entry id = default :=
  getD_of_le _ _ h

/-! ### Defining a class -/

theorem lookup_bind (name other : String) (id : ClassId) (names : List (String × ClassId)) :
    (bind name id names).lookup other
      = if other = name then some id else names.lookup other := by
  -- a comparison of names as the two sides make it
  have hbeq : ∀ a b : String, (a == b) = decide (a = b) := fun _ _ => rfl
  induction names with
  | nil =>
      by_cases h : other = name <;> simp [bind, List.lookup_cons, hbeq, h]
  | cons p rest ih =>
      obtain ⟨n, i⟩ := p
      by_cases hn : n = name
      · subst hn
        by_cases h : other = n <;> simp [bind, List.lookup_cons, hbeq, h]
      · by_cases h : other = n
        · subst h
          simp [bind, hn]
        · simp [bind, List.lookup_cons, hbeq, hn, h, ih]

@[simp] theorem size_define (r : Registry) (name : String) (parent : Option ClassId)
    (declared : List Json) (indexable : Json) :
    (r.define name parent declared indexable).1.classes.size = r.classes.size + 1 :=
  Array.size_push _

theorem entry_define (r : Registry) (name : String) (parent : Option ClassId)
    (declared : List Json) (indexable : Json) (id : ClassId) :
    (r.define name parent declared indexable).1.entry id
      = if id = r.classes.size then
          ⟨name,
            match parent with
            | some s => r.lineage s
            | none => [], declared, indexable, {}, {}⟩
        else r.entry id :=
  getD_push ..

/-- The classes that were there stay what they are. -/
theorem entry_define_of_lt (name : String) (parent : Option ClassId) (declared : List Json)
    (indexable : Json) {id : ClassId} (h : id < r.classes.size) :
    (r.define name parent declared indexable).1.entry id = r.entry id := by
  rw [entry_define, if_neg (Nat.ne_of_lt h)]

theorem find?_define (r : Registry) (name : String) (parent : Option ClassId)
    (declared : List Json) (indexable : Json) (other : String) :
    (r.define name parent declared indexable).1.find? other
      = if other = name then some r.classes.size else r.find? other :=
  lookup_bind name other _ _

/-- What had a name still has it. -/
theorem isSome_find?_define (name : String) (parent : Option ClassId) (declared : List Json)
    (indexable : Json) {other : String} (h : (r.find? other).isSome) :
    ((r.define name parent declared indexable).1.find? other).isSome := by
  rw [find?_define]
  split
  · rfl
  · exact h

/-- Names stand for classes that are there, the new one included. -/
theorem registered_define (h : ∀ name id, r.find? name = some id → id < r.classes.size)
    (name : String) (parent : Option ClassId) (declared : List Json) (indexable : Json)
    (other : String) (id : ClassId)
    (hfind : (r.define name parent declared indexable).1.find? other = some id) :
    id < (r.define name parent declared indexable).1.classes.size := by
  rw [find?_define] at hfind
  rw [size_define]
  split at hfind
  · obtain rfl := Option.some.inj hfind
    exact Nat.lt_succ_self _
  · exact Nat.lt_succ_of_lt (h other id hfind)

/-- The tables of a class that is defined are empty; the others stay as they are. -/
theorem table_define (r : Registry) (name : String) (superclass : Option ClassId)
    (instanceVariables : List Json) (indexable : Json) (b : Behavior) :
    (r.define name superclass instanceVariables indexable).1.table b
      = if b.id = r.classes.size then {} else r.table b := by
  unfold table
  rw [entry_define]
  by_cases h : b.id = r.classes.size
  · rw [if_pos h, if_pos h]
    cases b.isMeta <;> rfl
  · rw [if_neg h, if_neg h]

/-! ### Changing a table -/

@[simp] theorem size_updateTable (r : Registry) (b : Behavior)
    (change : MethodTable → MethodTable) :
    (r.updateTable b change).classes.size = r.classes.size := Array.size_modify

/-- Reading a table where one table was changed. -/
theorem table_updateTable (r : Registry) (b : Behavior) (change : MethodTable → MethodTable)
    (c : Behavior) :
    (r.updateTable b change).table c
      = if c = b ∧ b.id < r.classes.size then change (r.table b) else r.table c := by
  obtain ⟨i, side⟩ := b
  obtain ⟨j, side'⟩ := c
  unfold table entry
  simp only [Registry.updateTable, getD_modify]
  by_cases h : j = i ∧ i < r.classes.size
  · obtain ⟨rfl, hlt⟩ := h
    cases side <;> cases side' <;> simp [hlt]
  · have hne : ¬ ((⟨j, side'⟩ : Behavior) = ⟨i, side⟩ ∧ i < r.classes.size) := fun h' =>
      h ⟨congrArg Behavior.id h'.1, h'.2⟩
    rw [if_neg h, if_neg hne]

theorem updateTable_updateTable (r : Registry) (b : Behavior) (f g : MethodTable → MethodTable) :
    (r.updateTable b f).updateTable b g = r.updateTable b (g ∘ f) := by
  obtain ⟨id, side⟩ := b
  unfold updateTable
  simp only [mk.injEq, and_true]
  apply Array.ext
  · simp only [Array.size_modify]
  · intro i _ _
    simp only [Array.getElem_modify]
    cases side <;> by_cases h : id = i <;> simp [h]

/-- All of a class but its methods. -/
def head (r : Registry) (id : ClassId) : String × List ClassId × List Json × Json :=
  ((r.entry id).name, (r.entry id).ancestors, (r.entry id).instanceVariables,
    (r.entry id).indexable)

theorem head_updateTable (r : Registry) (b : Behavior) (change : MethodTable → MethodTable)
    (id : ClassId) : (r.updateTable b change).head id = r.head id := by
  unfold head entry
  simp only [updateTable, getD_modify]
  by_cases h : id = b.id ∧ b.id < r.classes.size
  · rw [if_pos h, h.1]
    split <;> rfl
  · rw [if_neg h]

theorem name_updateTable (r : Registry) (b : Behavior) (change : MethodTable → MethodTable)
    (id : ClassId) : ((r.updateTable b change).entry id).name = (r.entry id).name :=
  congrArg (·.1) (r.head_updateTable b change id)

theorem ancestors_updateTable (r : Registry) (b : Behavior) (change : MethodTable → MethodTable)
    (id : ClassId) : ((r.updateTable b change).entry id).ancestors = (r.entry id).ancestors :=
  congrArg (·.2.1) (r.head_updateTable b change id)

theorem instanceVariables_updateTable (r : Registry) (b : Behavior)
    (change : MethodTable → MethodTable) (id : ClassId) :
    ((r.updateTable b change).entry id).instanceVariables = (r.entry id).instanceVariables :=
  congrArg (·.2.2.1) (r.head_updateTable b change id)

theorem indexable_updateTable (r : Registry) (b : Behavior) (change : MethodTable → MethodTable)
    (id : ClassId) : ((r.updateTable b change).entry id).indexable = (r.entry id).indexable :=
  congrArg (·.2.2.2) (r.head_updateTable b change id)

end Registry

end Smalltalk
