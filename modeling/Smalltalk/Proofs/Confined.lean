import Smalltalk.Proofs.Misuse
import Smalltalk.Proofs.Moves
import Smalltalk.Proofs.Primitive
import Smalltalk.Proofs.Reach

/-!
# `Smalltalk.Proofs.Confined`: memories that keep to what is given

A `Realm` is a heap to start from and some cells of it that are given. What is made later
belongs to the realm as well (`Realm.Has`). A memory is confined to a realm when nothing
that was there at the start has changed but what was given, and when the cells of the realm
and the globals lead to cells of the realm alone (`Memory.Confined`).

`Confined.touch` is the step: to make a cell, or to change one of the realm, keeps a memory
confined, if the cell leads to cells of the realm then. What is read of a cell of the realm
belongs to it, and so does what a primitive decides on for a receiver and arguments that do
(`Primitive.permits_of_attempt`).
-/

set_option autoImplicit false

namespace Smalltalk

/-! ### Realms -/

/-- A heap to start from, and the cells of it that are given. -/
structure Realm where
  start : Heap
  given : Cell → Prop

/-- Whatever was there is there. -/
def Heap.Grows (h h' : Heap) : Prop := ∀ c, h.Contains c → h'.Contains c

/-- The value that a fault carries. -/
def Fault.carried? : Fault → Option Value
  | .deadReturn v _ => some v
  | .nonBoolean v _ => some v
  | _ => none

theorem Fault.carried?_of_isMisuse {f : Fault} (h : f.isMisuse = true) : f.carried? = none := by
  cases f with
  | deadReturn v shown => cases h
  | nonBoolean v shown => cases h
  | _ => rfl

theorem Fault.carried?_about {name : Json} {fault : String → Fault}
    (h : ∀ word, (fault word).carried? = none) : (about name fault).carried? = none :=
  of_about (P := fun f => f.carried? = none) h fun _ => carried?_of_isMisuse

namespace Realm

variable {r : Realm} {h h' : Heap} {c : Cell} {v : Value}

/-- A cell is given, or has been made since the start. -/
def Has (r : Realm) (h : Heap) (c : Cell) : Prop :=
  r.given c ∨ ¬ r.start.Contains c ∧ h.Contains c

/-- A value refers to a cell of the realm, if it refers to any. -/
def Admits (r : Realm) (h : Heap) (v : Value) : Prop := ∀ c, v.cell? = some c → r.Has h c

/-- What a stop carries belongs to the realm, and so does the home of an unwinding. -/
def Stops (r : Realm) (h : Heap) : Stop → Prop
  | .unwind v home => r.Admits h v ∧ r.Has h (.frame home)
  | .fault f => ∀ v, f.carried? = some v → r.Admits h v
  | .tooDeep | .unfinished => True

/-- What a task is about belongs to the realm: the frame that a tree is evaluated in, the
closure that is invoked and the frame that asks for it, a receiver and arguments. The frames
that ask for an activation need not. -/
def Allows (r : Realm) (h : Heap) : Task → Prop
  | .evaluate _ frame => r.Has h (.frame frame)
  | .activate _ receiver args _ => r.Admits h receiver ∧ ∀ v ∈ args, r.Admits h v
  | .invoke closure args caller =>
    r.Has h (.closure closure) ∧ (∀ v ∈ args, r.Admits h v) ∧ r.Has h (.frame caller)

/-- What an action is about belongs to the realm. -/
def Permits (r : Realm) (h : Heap) : Action → Prop
  | .answer v => r.Admits h v
  | .newArray xs => ∀ v ∈ xs, r.Admits h v
  | .setElement a _ v => r.Has h (.array a) ∧ r.Admits h v
  | .setIndexed o _ v => r.Has h (.object o) ∧ r.Admits h v
  | .setSlot o _ v => r.Has h (.object o) ∧ r.Admits h v
  | .call c args => r.Has h (.closure c) ∧ ∀ v ∈ args, r.Admits h v
  | .loop condition body _ => r.Has h (.closure condition) ∧ r.Has h (.closure body)
  | .refuse f => f.carried? = none
  | .print v | .signal v => r.Admits h v
  | .tally _ | .newText _ | .newObject _ _ => True

theorem Has.mono (hc : r.Has h c) (g : h.Grows h') : r.Has h' c := hc.imp_right (.imp_right (g c))

theorem Admits.mono (hv : r.Admits h v) (g : h.Grows h') : r.Admits h' v :=
  fun c hc => (hv c hc).mono g

/-- Most values refer to nothing. -/
theorem admits_of_none (hv : v.cell? = none) : r.Admits h v := by
  intro c hc
  rw [hv] at hc
  cases hc

theorem admits_nil : r.Admits h .nil := admits_of_none rfl

/-- An argument by its place, or nil where there is none. -/
theorem admits_argument {vs : List Value} (hvs : ∀ v ∈ vs, r.Admits h v) (i : Nat) :
    r.Admits h (vs.getD i .nil) := by
  rw [List.getD_eq_getElem?_getD]
  cases hv : vs[i]? with
  | none => exact admits_nil
  | some v => exact hvs v (List.mem_of_getElem? hv)

theorem admits_closure {k : ClosureId} (hk : r.Has h (.closure k)) :
    r.Admits h (.closure k) := by
  rintro _ ⟨⟩
  exact hk

end Realm

/-! ### Confined memories -/

/-- Only what was given has changed, and the realm leads nowhere else. -/
structure Memory.Confined (r : Realm) (m : Memory) : Prop where
  grown : r.start.Grows m.heap
  closed : ∀ c c', r.Has m.heap c → m.heap.Refers c c' → r.Has m.heap c'
  bound : ∀ key v, m.globals.find? key = some v → r.Admits m.heap v
  untouched : ∀ c, r.start.Contains c → ¬ r.given c → r.start.Agrees m.heap c

namespace Memory.Confined

variable {r : Realm} {m : Memory} {h : Heap} {cell : Cell} {new : Cell → Prop}

/-- The start is confined to what the globals and some values lead to. -/
theorem start (m : Memory) (vs : List Value) : Confined ⟨m.heap, m.Reach vs⟩ m where
  grown _ := id
  closed c c' hc hrefers := by
    have hreach : m.Reach vs c := hc.resolve_right fun ⟨hnot, hthere⟩ => hnot hthere
    exact .inl (hreach.refers hrefers)
  bound key v hfind c hc := .inl (.root (.inr ⟨key, v, hfind, hc⟩))
  untouched c _ _ := .refl _ c

/-- One cell of the realm is made or changed. -/
theorem touch (w : m.Confined r) (t : m.heap.Touch h cell new) (hcell : r.Has h cell)
    (hnew : ∀ c, new c → r.Has h c) : Confined r { m with heap := h } where
  grown c hc := t.grows c (w.grown c hc)
  closed c c' hc hrefers := by
    by_cases hself : c = cell
    · subst hself
      rcases t.refers c' hrefers with ⟨hback, hold⟩ | hc'
      · have hbefore : r.Has m.heap c := hc.imp_right (.imp_right hback)
        exact (w.closed c c' hbefore hold).mono t.grows
      · exact hnew c' hc'
    · have hbefore : r.Has m.heap c :=
        hc.imp_right (.imp_right fun hmade => (t.made c hmade).resolve_right hself)
      exact (w.closed c c' hbefore ((t.agrees c hself).refers hrefers)).mono t.grows
  bound key v hfind := Realm.Admits.mono (w.bound key v hfind) t.grows
  untouched c hthere hgiven := by
    -- the cell is given or was not there at the start, so this is another one
    have hother : c ≠ cell := by
      rintro rfl
      exact hcell.elim hgiven fun hmade => hmade.1 hthere
    exact (w.untouched c hthere hgiven).trans (t.agrees c hother)

/-- What is made now was not there at the start. -/
theorem has_new (w : m.Confined r) (hnot : ¬ m.heap.Contains cell) (hthere : h.Contains cell) :
    r.Has h cell :=
  .inr ⟨fun hstart => hnot (w.grown cell hstart), hthere⟩

/-- The journal does not matter. -/
theorem note (w : m.Confined r) (line : String) : (m.note line).Confined r := by
  unfold Memory.note
  split
  · exact ⟨w.grown, w.closed, w.bound, w.untouched⟩
  · exact w

/-- The count of texts does not matter. -/
theorem texts (w : m.Confined r) (n : Nat) :
    Confined r { m with heap := { m.heap with texts := n } } where
  grown c hc := (Heap.contains_texts n c).mpr (w.grown c hc)
  closed c := by cases c <;> exact w.closed _
  bound := w.bound
  untouched c hthere hgiven := (w.untouched c hthere hgiven).trans (Heap.agrees_texts n c)

theorem bind (w : m.Confined r) (key : Key) (name : Json) {v : Value} (hv : r.Admits m.heap v) :
    Confined r { m with globals := m.globals.put key name v } where
  grown := w.grown
  closed := w.closed
  bound k u hfind := by
    rw [Dictionary.find?_put] at hfind
    split at hfind
    · exact Option.some.inj hfind ▸ hv
    · exact w.bound k u hfind
  untouched := w.untouched

/-! #### What can be read -/

theorem ofArray (w : m.Confined r) {a : ArrayId} (ha : r.Has m.heap (.array a)) {v : Value}
    (hv : v ∈ m.heap.array a) : r.Admits m.heap v :=
  fun _ hc => w.closed _ _ ha ⟨v, hv, hc⟩

theorem ofObject (w : m.Confined r) {o : ObjectId} (ho : r.Has m.heap (.object o)) {v : Value}
    (hv : (m.heap.object o).Has v) : r.Admits m.heap v :=
  fun _ hc => w.closed _ _ ho ⟨v, hv, hc⟩

theorem ofFrame (w : m.Confined r) {f : FrameId} (hf : r.Has m.heap (.frame f)) {v : Value}
    (hv : (m.heap.frame f).Has v) : r.Admits m.heap v :=
  fun _ hc => w.closed _ _ hf (.inl ⟨v, hv, hc⟩)

theorem receiver (w : m.Confined r) {f : FrameId} (hf : r.Has m.heap (.frame f)) :
    r.Admits m.heap (m.heap.frame f).receiver :=
  w.ofFrame hf (.inl rfl)

/-- The frames around a frame of the realm belong to it. -/
theorem chain (w : m.Confined r) {f g : FrameId} (hf : r.Has m.heap (.frame f))
    (hg : g ∈ m.heap.chain f) : r.Has m.heap (.frame g) := by
  rcases List.mem_cons.mp hg with rfl | hg
  · exact hf
  · exact w.closed _ _ hf (.inr ⟨g, hg, rfl⟩)

theorem owner (w : m.Confined r) {f g : FrameId} (hf : r.Has m.heap (.frame f)) {key : Key}
    (h : m.heap.owner? f key = some g) : r.Has m.heap (.frame g) :=
  w.chain hf (List.mem_of_find?_eq_some h)

theorem lookup (w : m.Confined r) {f : FrameId} (hf : r.Has m.heap (.frame f)) {key : Key}
    {v : Value} (h : m.heap.lookup? f key = some v) : r.Admits m.heap v := by
  obtain ⟨g, howner, hv⟩ := Heap.lookup?_eq_some_iff.mp h
  exact w.ofFrame (w.owner hf howner) (.inr ⟨key, hv⟩)

theorem home (w : m.Confined r) {f : FrameId} (hf : r.Has m.heap (.frame f)) :
    r.Has m.heap (.frame (m.heap.home f)) := by
  unfold Heap.home
  rw [List.getLastD_eq_getLast?]
  cases hlast : (m.heap.frame f).outer.getLast? with
  | none => exact hf
  | some g => exact w.chain hf (List.mem_cons_of_mem f (List.mem_of_getLast? hlast))

end Memory.Confined

/-! ### Primitives -/

namespace Primitive

variable {r : Realm} {m : Memory} {receiver argument v : Value} {action : Action}

section
variable {arg : Nat → Value} (w : m.Confined r) (hreceiver : r.Admits m.heap receiver)
  (harg : ∀ i, r.Admits m.heap (arg i))

include w hreceiver harg

/-- What is stored in what belongs to the realm belongs to it, too. -/
theorem admits_of_mayUse (h : MayUse m receiver arg v) : r.Admits m.heap v := by
  cases h with
  | nil | bool | int | float | cls => exact Realm.admits_of_none rfl
  | self => exact hreceiver
  | argument i => exact harg i
  | @element a _ given stored =>
      have harray : r.Has m.heap (.array a) := by
        rcases given with given | given
        · exact hreceiver _ (given ▸ rfl)
        · exact harg 0 _ (given ▸ rfl)
      exact w.ofArray harray stored
  | part given stored => exact w.ofObject (hreceiver _ (given ▸ rfl)) stored

/-- What a primitive decides on is about its receiver, its arguments and what they store. -/
theorem permits_of_choose {p : Primitive} (h : p.choose m receiver arg = .ok action) :
    r.Permits m.heap action := by
  have hused : ∀ {v}, MayUse m receiver arg v → r.Admits m.heap v :=
    admits_of_mayUse w hreceiver harg
  cases mayChoose_of_choose h with
  | answer used => exact hused used
  | tally | newText | newObject => trivial
  | newArray blank =>
      intro v hv
      rw [blank v hv]
      exact Realm.admits_nil
  | setElement given | setIndexed given | setSlot given =>
      exact ⟨hreceiver _ (given ▸ rfl), harg 1⟩
  | call given used => exact ⟨hreceiver _ (given ▸ rfl), fun v hv => hused (used v hv)⟩
  | loop given handed => exact ⟨hreceiver _ (given ▸ rfl), harg 0 _ (handed ▸ rfl)⟩
  | print => exact hreceiver
  | signal => exact harg 0
  | noClass | beyondFloat => rfl

end

theorem permits_of_attempt (w : m.Confined r) {args : List Value}
    (hreceiver : r.Admits m.heap receiver) (hargs : ∀ v ∈ args, r.Admits m.heap v)
    {p : Primitive} (h : p.attempt m receiver args = .ok action) : r.Permits m.heap action := by
  unfold attempt at h
  split at h
  · exact permits_of_choose w hreceiver (Realm.admits_argument hargs) h
  · cases h

end Primitive

end Smalltalk
