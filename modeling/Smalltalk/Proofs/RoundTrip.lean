import Smalltalk.Proofs.Edit
import Smalltalk.Proofs.Filing
import Smalltalk.Proofs.Written

/-!
# `Smalltalk.Proofs.RoundTrip`: saving what was loaded, and loading it again

`load_save` is the result: classes that were loaded into a fresh system can be
saved and loaded into another one, which gives the same classes and globals, up to
the sites of text literals. It holds for every image that defines each of its
classes once and no class of the kernel again; later definitions may extend a
class.

The proof has two halves. Whatever such an image does leaves every new class in a
form that can be written (`Image.Made`): its superclass is older, its methods are
filed under texts and under the protocol of images only. And loading the definition
of a class as it stands, on top of the classes before it, gives the class
(`Image.Rebuilt.loadDefinition`).
-/

set_option autoImplicit false

namespace Smalltalk

/-! ### Classes without sites -/

/-- The entry without the sites of text literals. -/
def ClassEntry.unplaced (e : ClassEntry) : ClassEntry :=
  { e with instanceSide := e.instanceSide.unplaced, classSide := e.classSide.unplaced }

namespace Registry

/-- The classes without the sites of text literals. -/
def unplaced (r : Registry) : Registry := { r with classes := r.classes.map ClassEntry.unplaced }

end Registry

/-! ### Names -/

/-- Classes listed by name in the order of their numbers. -/
def Registry.index (name : ClassId → String) (n : Nat) : List (String × ClassId) :=
  (List.range n).map fun id => (name id, id)

namespace Registry

variable {name : ClassId → String} {n : Nat}

theorem index_succ (name : ClassId → String) (n : Nat) :
    index name (n + 1) = index name n ++ [(name n, n)] := by
  simp [index, List.range_succ]

theorem index_congr {name' : ClassId → String} (h : ∀ id < n, name id = name' id) :
    index name n = index name' n :=
  List.map_congr_left fun id hid => by rw [h id (List.mem_range.mp hid)]

theorem of_lookup_index {s : String} {id : ClassId} (h : (index name n).lookup s = some id) :
    id < n ∧ name id = s := by
  obtain ⟨front, back, heq, -⟩ := List.lookup_eq_some_iff.mp h
  have hmem : (s, id) ∈ index name n := by simp [heq]
  obtain ⟨i, hi, hpair⟩ := List.mem_map.mp hmem
  obtain ⟨rfl, rfl⟩ := Prod.mk.inj hpair
  exact ⟨List.mem_range.mp hi, rfl⟩

theorem lookup_index (hdistinct : ∀ i < n, ∀ j < n, name i = name j → i = j) {id : ClassId}
    (hid : id < n) : (index name n).lookup (name id) = some id := by
  cases h : (index name n).lookup (name id) with
  | some j =>
      obtain ⟨hj, hname⟩ := of_lookup_index h
      rw [hdistinct j hj id hid hname]
  | none =>
      have hmem : (name id, id) ∈ index name n :=
        List.mem_map.mpr ⟨id, List.mem_range.mpr hid, rfl⟩
      have hnot := List.lookup_eq_none_iff.mp h _ hmem
      simp at hnot

/-- Names are still distinct when one comes last that no other has. -/
theorem distinct_succ (hdistinct : ∀ i < n, ∀ j < n, name i = name j → i = j)
    (hlast : ∀ i < n, name i ≠ name n) : ∀ i < n + 1, ∀ j < n + 1, name i = name j → i = j := by
  intro i hi j hj heq
  rcases Nat.lt_succ_iff_lt_or_eq.mp hi with hi | rfl <;>
    rcases Nat.lt_succ_iff_lt_or_eq.mp hj with hj | rfl
  · exact hdistinct i hi j hj heq
  · exact absurd heq (hlast i hi)
  · exact absurd heq.symm (hlast j hj)
  · rfl

/-- A name that is new goes to the end. -/
theorem bind_of_lookup {names : List (String × ClassId)} {s : String} {id : ClassId}
    (h : names.lookup s = none) : bind s id names = names ++ [(s, id)] := by
  induction names with
  | nil => rfl
  | cons p rest ih =>
      obtain ⟨other, i⟩ := p
      have hne : ¬ other = s := by
        rintro rfl
        simp at h
      have hrest : rest.lookup s = none := by
        have hbeq : (s == other) = false := by simp [Ne.symm hne]
        simpa [List.lookup_cons, hbeq] using h
      simp [bind, hne, ih hrest]

end Registry

/-! ### Definitions -/

/-- How indexable a class is: like its superclass, where nothing is said. -/
def Registry.indexableFor (r : Registry) (indexable : Json) (parent : Option ClassId) : Json :=
  match indexable, parent with
  | .null, none => .bool false
  | .null, some id => (r.entry id).indexable
  | indexable, _ => indexable

namespace Memory

/-- A memory after a class was defined and bound as a global. -/
def defined (m : Memory) (name : String) (parent : Option ClassId) (declared : List Json)
    (indexable : Json) : Memory :=
  { m with
    registry := (m.registry.define name parent declared indexable).1
    globals := m.globals.put (.text name) (.str name)
      (.behavior ⟨m.registry.classes.size, false⟩) }

theorem entry_defined (m : Memory) (name : String) (parent : Option ClassId)
    (declared : List Json) (indexable : Json) (id : ClassId) :
    (m.defined name parent declared indexable).registry.entry id
      = if id = m.registry.classes.size then
          ⟨name,
            match parent with
            | some s => m.registry.lineage s
            | none => [], declared, indexable, {}, {}⟩
        else m.registry.entry id :=
  m.registry.entry_define ..

theorem entry_filed (m : Memory) (owner : Behavior) (ms : List Method) (texts : Nat)
    (id : ClassId) :
    (m.filed owner ms texts).registry.entry id
      = if id = owner.id ∧ owner.id < m.registry.classes.size then
          (if owner.isMeta then
            { m.registry.entry owner.id with
              classSide := (m.registry.entry owner.id).classSide.fileAll ms }
          else
            { m.registry.entry owner.id with
              instanceSide := (m.registry.entry owner.id).instanceSide.fileAll ms })
        else m.registry.entry id :=
  getD_modify ..

/-- A class that was defined, once methods were filed in both its sides. -/
theorem entry_filed_defined (m : Memory) (name : String) (parent : Option ClassId)
    (declared : List Json) (indexable : Json) (ms ms' : List Method) (texts texts' : Nat) :
    let new := m.registry.classes.size
    let built := ((m.defined name parent declared indexable).filed ⟨new, false⟩ ms texts).filed
      ⟨new, true⟩ ms' texts'
    built.registry.classes.size = new + 1 ∧
      ∀ id, built.registry.entry id
        = if id = new then
            ⟨name,
              match parent with
              | some s => m.registry.lineage s
              | none => [], declared, indexable, ({} : MethodTable).fileAll ms,
              ({} : MethodTable).fileAll ms'⟩
          else m.registry.entry id := by
  intro new built
  let m₁ := m.defined name parent declared indexable
  let m₂ := m₁.filed ⟨new, false⟩ ms texts
  have hsize₁ : m₁.registry.classes.size = new + 1 := m.registry.size_define ..
  have hsize₂ : m₂.registry.classes.size = new + 1 :=
    (m₁.registry.size_updateTable ..).trans hsize₁
  refine ⟨(m₂.registry.size_updateTable ..).trans hsize₂, fun id => ?_⟩
  show (m₂.filed ⟨new, true⟩ ms' texts').registry.entry id = _
  by_cases hid : id = new
  · -- both sides of the new class are there to file methods in, one after the other
    rw [if_pos hid]
    subst hid
    have hlt₁ : new < m₁.registry.classes.size := hsize₁ ▸ Nat.lt_succ_self new
    have hlt₂ : new < m₂.registry.classes.size := hsize₂ ▸ Nat.lt_succ_self new
    have hentry₂ : m₂.registry.entry new = _ :=
      (m₁.entry_filed ⟨new, false⟩ ms texts new).trans (if_pos ⟨rfl, hlt₁⟩)
    have hentry₁ : m₁.registry.entry new = _ :=
      (m.entry_defined name parent declared indexable new).trans (if_pos rfl)
    rw [entry_filed, if_pos ⟨rfl, hlt₂⟩, hentry₂, hentry₁]
    rfl
  · -- no method is filed in any other class
    rw [entry_filed, if_neg fun h => hid h.1, if_neg hid, entry_filed, if_neg fun h => hid h.1,
      entry_defined, if_neg hid]

end Memory

namespace Change

variable {m : Memory} {superclass instanceVariables : Json}

/-- A journal that is not kept gets no line. -/
theorem note_of_quiet (hquiet : m.journal.recording = false) (line : String) :
    note line m = .ok () m :=
  congrArg (EStateM.Result.ok ()) (Memory.note_of_quiet hquiet line)

theorem define_eq {parent : Option ClassId} {declared : List Json}
    (hparent : m.registry.parent superclass = .ok parent)
    (hdeclared : namesOf instanceVariables = .ok declared) (name : String) (indexable : Json) :
    define (.str name) superclass instanceVariables indexable m
      = .ok m.registry.classes.size
          (m.defined name parent declared (m.registry.indexableFor indexable parent)) := by
  have hparent' : Change.ofExcept (m.registry.parent superclass) m = .ok parent m := by
    rw [hparent]
    rfl
  have hdeclared' : Change.ofExcept (namesOf instanceVariables) m = .ok declared m := by
    rw [hdeclared]
    rfl
  have hget : (MonadState.get : Change Memory) m = .ok m m := rfl
  unfold define
  rw [bind_of_ok hget, bind_of_ok hparent', bind_of_ok hdeclared']
  rfl

/-- A class that is defined without a fault has a superclass that was found. -/
theorem of_define {name : String} {indexable : Json} {id : ClassId} {m' : Memory}
    (h : define (.str name) superclass instanceVariables indexable m = .ok id m') :
    ∃ parent declared, m.registry.parent superclass = .ok parent ∧ id = m.registry.classes.size ∧
      m' = m.defined name parent declared (m.registry.indexableFor indexable parent) := by
  have hdefine := h
  unfold define at h
  obtain ⟨_, _, hget, h⟩ := of_bind_ok h
  cases hget
  obtain ⟨parent, m₁, hfound, h⟩ := of_bind_ok h
  obtain ⟨hparent, rfl⟩ := of_ofExcept hfound
  obtain ⟨declared, m₂, hlisted, h⟩ := of_bind_ok h
  obtain ⟨hdeclared, rfl⟩ := of_ofExcept hlisted
  rw [define_eq hparent hdeclared] at hdefine
  injection hdefine with hid hm
  exact ⟨parent, declared, hparent, hid.symm, hm.symm⟩

end Change

/-! ### What images make -/

namespace Image

/-- Binds classes as globals, in order. -/
def bindAll (globals : Dictionary Value) (names : List (String × ClassId)) : Dictionary Value :=
  names.foldl (fun globals p => globals.put (.text p.1) (.str p.1) (.behavior ⟨p.2, false⟩))
    globals

/-- A system that images have added classes to, each under a name of its own. -/
structure Made (base m : Memory) : Prop where
  size : base.registry.classes.size ≤ m.registry.classes.size
  same : ∀ id < base.registry.classes.size, m.registry.entry id = base.registry.entry id
  names : m.registry.names =
    Registry.index (fun id => (m.registry.entry id).name) m.registry.classes.size
  distinct : ∀ i < m.registry.classes.size, ∀ j < m.registry.classes.size,
    (m.registry.entry i).name = (m.registry.entry j).name → i = j
  globals : m.globals =
    bindAll base.globals (m.registry.names.drop base.registry.classes.size)
  indexable : ∀ id < m.registry.classes.size, (m.registry.entry id).indexable ≠ .null
  filed : ∀ b : Behavior, base.registry.classes.size ≤ b.id →
    b.id < m.registry.classes.size → (m.registry.table b).Filed b
  quiet : m.journal.recording = false

variable {base m : Memory}

namespace Made

/-- Methods are filed in a new class. -/
theorem file (h : Made base m) {owner : Behavior} (hnew : base.registry.classes.size ≤ owner.id)
    {ms : List Method} (hms : ∀ method ∈ ms, method.owner = owner ∧ ∃ s, method.selector = .str s)
    (n : Nat) : Made base (m.filed owner ms n) := by
  have hname : ∀ id, ((m.filed owner ms n).registry.entry id).name = (m.registry.entry id).name :=
    m.registry.name_updateTable owner _
  have hsize : (m.filed owner ms n).registry.classes.size = m.registry.classes.size :=
    m.registry.size_updateTable owner _
  constructor
  case size =>
    rw [hsize]
    exact h.size
  case same =>
    -- the owner is new, so it is none of the classes that were there
    intro id hid
    rw [← h.same id hid, Memory.entry_filed,
      if_neg fun heq : id = owner.id ∧ _ => Nat.not_le_of_lt hid (heq.1 ▸ hnew)]
  case names =>
    rw [hsize]
    simp only [hname]
    exact h.names
  case distinct =>
    simp only [hsize, hname]
    exact h.distinct
  case globals => exact h.globals
  case indexable =>
    intro id hid
    rw [hsize] at hid
    exact (m.registry.indexable_updateTable owner _ id).symm ▸ h.indexable id hid
  case filed =>
    -- the table that was filed in is filed again, and no other is touched
    intro b hb hlt
    rw [hsize] at hlt
    show ((m.registry.updateTable owner _).table b).Filed b
    rw [Registry.table_updateTable]
    split
    · rename_i hb'
      rw [hb'.1]
      exact (h.filed owner hnew hb'.2).fileAll hms
    · exact h.filed b hb hlt
  case quiet => exact h.quiet

/-- A class is defined under a name that is new. -/
theorem define (h : Made base m) {name : String} (hnew : m.registry.find? name = none)
    (parent : Option ClassId) (declared : List Json) {indexable : Json}
    (hindexable : indexable ≠ .null) :
    Made base (m.defined name parent declared indexable) := by
  let r := (m.registry.define name parent declared indexable).1
  let n := m.registry.classes.size
  have hsize : r.classes.size = n + 1 := m.registry.size_define ..
  have hold : ∀ id < n, r.entry id = m.registry.entry id := fun id hid =>
    Registry.entry_define_of_lt _ _ _ _ hid
  have hlast : (r.entry n).name = name ∧ (r.entry n).indexable = indexable := by
    rw [Registry.entry_define, if_pos rfl]
    exact ⟨rfl, rfl⟩
  have hnames : r.names = m.registry.names ++ [(name, n)] := Registry.bind_of_lookup hnew
  -- a class that was there has another name than the new one
  have hother : ∀ id < n, (m.registry.entry id).name ≠ name := by
    rintro id hid rfl
    unfold Registry.find? at hnew
    rw [h.names, Registry.lookup_index h.distinct hid] at hnew
    cases hnew
  -- every class was there or is the new one
  have hcases : ∀ id < r.classes.size, id < n ∨ id = n := fun id hid =>
    Nat.lt_succ_iff_lt_or_eq.mp (Nat.lt_of_lt_of_eq hid hsize)
  constructor
  case size => exact Nat.le_trans h.size (hsize ▸ Nat.le_succ n)
  case same => exact fun id hid => (hold id (Nat.lt_of_lt_of_le hid h.size)).trans (h.same id hid)
  case names =>
    show r.names = Registry.index (fun id => (r.entry id).name) r.classes.size
    rw [hsize, Registry.index_succ, hlast.1, hnames, h.names]
    exact congrArg (· ++ _) (Registry.index_congr fun id hid => by rw [hold id hid])
  case distinct =>
    have hdistinct : ∀ i < n, ∀ j < n, (r.entry i).name = (r.entry j).name → i = j := by
      intro i hi j hj
      rw [hold i hi, hold j hj]
      exact h.distinct i hi j hj
    have hapart : ∀ i < n, (r.entry i).name ≠ (r.entry n).name := by
      intro i hi
      rw [hold i hi, hlast.1]
      exact hother i hi
    show ∀ i < r.classes.size, ∀ j < r.classes.size, _
    rw [hsize]
    exact Registry.distinct_succ hdistinct hapart
  case globals =>
    have hlength : m.registry.names.length = n := by
      rw [h.names]
      simp [Registry.index, n]
    show m.globals.put _ _ _ = bindAll base.globals (r.names.drop _)
    rw [hnames, List.drop_append_of_le_length (by rw [hlength]; exact h.size), h.globals]
    unfold bindAll
    rw [List.foldl_append]
    rfl
  case indexable =>
    intro id hid
    show (r.entry id).indexable ≠ .null
    rcases hcases id hid with hid | rfl
    · rw [hold id hid]
      exact h.indexable id hid
    · rw [hlast.2]
      exact hindexable
  case filed =>
    intro b hb hlt
    show (r.table b).Filed b
    rw [Registry.table_define]
    split
    · exact .empty b
    · rename_i hne
      exact h.filed b hb ((hcases b.id hlt).resolve_right hne)
  case quiet => exact h.quiet

/-! ### Images -/

/-- Whatever is loaded for one side of a new class files methods in it. -/
theorem loadSide (h : Made base m) {className : String} {owner : Behavior}
    (hnew : base.registry.classes.size ≤ owner.id) {methods : Option Json} {m' : Memory}
    (hload : Image.loadSide className owner methods m = .ok () m') :
    Made base m' ∧ m'.registry.classes.size = m.registry.classes.size ∧
      m'.registry.names = m.registry.names := by
  unfold Image.loadSide at hload
  split at hload
  · cases hload
    exact ⟨h, rfl, rfl⟩
  · obtain ⟨ms, n, hms, rfl⟩ := of_loadMethods hload
    exact ⟨h.file hnew hms n, Registry.size_updateTable .., rfl⟩
  · cases hload

theorem find?_some (h : Made base m) {name : String} {id : ClassId}
    (hfind : m.registry.find? name = some id) :
    id < m.registry.classes.size ∧ (m.registry.entry id).name = name := by
  unfold Registry.find? at hfind
  rw [h.names] at hfind
  exact Registry.of_lookup_index hfind

theorem find?_name (h : Made base m) {id : ClassId} (hid : id < m.registry.classes.size) :
    m.registry.find? (m.registry.entry id).name = some id := by
  unfold Registry.find?
  rw [h.names]
  exact Registry.lookup_index h.distinct hid

/-- A class whose name is not one of the base is new. -/
theorem new_of_find? (hbase : Made base base) (h : Made base m) {name : String} {id : ClassId}
    (hname : base.registry.find? name = none) (hfind : m.registry.find? name = some id) :
    base.registry.classes.size ≤ id := by
  refine Nat.le_of_not_lt fun hlt => ?_
  obtain ⟨-, hentry⟩ := h.find?_some hfind
  rw [h.same id hlt] at hentry
  rw [← hentry, hbase.find?_name hlt] at hname
  cases hname

/-- How indexable a class is that is defined is settled. -/
theorem indexableFor_ne (h : Made base m) {superclass : Json} {parent : Option ClassId}
    (hparent : m.registry.parent superclass = .ok parent) (indexable : Json) :
    m.registry.indexableFor indexable parent ≠ .null := by
  cases indexable with
  | null =>
      cases parent with
      | none => exact Json.noConfusion
      | some s =>
          obtain ⟨name, hfind⟩ := Registry.find?_of_parent hparent
          exact h.indexable s (h.find?_some hfind).1
  | _ => exact Json.noConfusion

/-- A class that a definition is about is a new one: it is extended and was new before, or
it is defined now. -/
theorem classFor (hbase : Made base base) (h : Made base m) {name : String}
    {fields : List (String × Json)} (hname : base.registry.find? name = none)
    (honce : ∀ id, m.registry.find? name = some id → fields.lookup "superclass" = none)
    {id : ClassId} {m' : Memory} (hload : Image.classFor name fields m = .ok id m') :
    Made base m' ∧ base.registry.classes.size ≤ id ∧ m'.registry.find? name = some id ∧
      ∀ other, other ≠ name → m'.registry.find? other = m.registry.find? other := by
  unfold Image.classFor at hload
  obtain ⟨_, _, hget, hload⟩ := of_bind_ok hload
  cases hget
  cases hfind : m.registry.find? name with
  | some found =>
      -- the name is known, so the definition has no superclass and extends the class
      rw [hfind, honce found hfind] at hload
      simp only at hload
      split at hload
      · cases hload
      · obtain ⟨_, m₁, hnote, hpure⟩ := of_bind_ok hload
        rw [Change.note_of_quiet h.quiet] at hnote
        cases hnote
        cases hpure
        exact ⟨h, new_of_find? hbase h hname hfind, hfind, fun _ _ => rfl⟩
  | none =>
      rw [hfind] at hload
      simp only at hload
      obtain ⟨_, m₁, hcheck, hrest⟩ := of_bind_ok hload
      obtain ⟨id', m₂, hdefine, hend⟩ := of_bind_ok hrest
      obtain ⟨_, m₃, hnote, hpure⟩ := of_bind_ok hend
      obtain ⟨-, rfl⟩ := Change.of_ofExcept hcheck
      obtain ⟨parent, declared, hparent, rfl, rfl⟩ := Change.of_define hdefine
      have hmade := h.define hfind parent declared (h.indexableFor_ne hparent
        ((fields.lookup "indexable").getD .null))
      rw [Change.note_of_quiet hmade.quiet] at hnote
      cases hnote
      cases hpure
      refine ⟨hmade, h.size, ?_, fun other hother => ?_⟩
      · exact (Registry.find?_define ..).trans (if_pos rfl)
      · exact (Registry.find?_define ..).trans (if_neg hother)

end Made

/-- The name of the class that a definition is about. -/
def nameOf? : Json → Option String
  | .obj fields =>
    match fields.lookup "name" with
    | some (.str name) => some name
    | _ => none
  | _ => none

/-- Whether a definition names a superclass, or none: it defines a class then. -/
def defines : Json → Bool
  | .obj fields => (fields.lookup "superclass").isSome
  | _ => false

/-- An image that defines no class of a system again and each of its own once: whatever
comes later under the same name only extends the class. -/
structure Once (base : Memory) (definitions : List Json) : Prop where
  new : ∀ d ∈ definitions, ∀ name, nameOf? d = some name → base.registry.find? name = none
  once : definitions.Pairwise fun d d' =>
    ∀ name, nameOf? d = some name → nameOf? d' = some name → defines d' = false

/-- The names of new classes are among those of some definitions. -/
def Named (base m : Memory) (definitions : List Json) : Prop :=
  ∀ name id, m.registry.find? name = some id → base.registry.find? name = none →
    ∃ d ∈ definitions, nameOf? d = some name

/-- A definition that is loaded without a fault is one of a class with a name. -/
theorem of_loadDefinition {definition : Json} {id : ClassId} {m' : Memory}
    (h : loadDefinition definition m = .ok id m') :
    ∃ fields name, definition = .obj fields ∧ nameOf? definition = some name ∧
      (classFor name fields >>= fun id =>
        loadSide name ⟨id, false⟩ (fields.lookup "methods") >>= fun _ =>
        loadSide name ⟨id, true⟩ (fields.lookup "classMethods") >>= fun _ =>
        pure id) m = .ok id m' := by
  cases definition with
  | obj fields =>
      unfold loadDefinition at h
      cases hname : fields.lookup "name" with
      | none =>
          simp only [hname] at h
          cases h
      | some value =>
          cases value with
          | str name =>
              simp only [hname] at h
              exact ⟨fields, name, rfl, by simp only [nameOf?, hname], h⟩
          | _ =>
              simp only [hname] at h
              cases h
  | _ => cases h

/-- A definition that follows the rules makes a class or extends one that images made. -/
theorem Made.loadDefinition (hbase : Made base base) (h : Made base m) {definition : Json}
    (hnew : ∀ name, nameOf? definition = some name → base.registry.find? name = none)
    (honce : ∀ name id, nameOf? definition = some name → m.registry.find? name = some id →
      defines definition = false)
    {id : ClassId} {m' : Memory} (hload : Image.loadDefinition definition m = .ok id m') :
    Made base m' ∧ ∀ name id, m'.registry.find? name = some id →
      nameOf? definition = some name ∨ m.registry.find? name = some id := by
  obtain ⟨fields, name, rfl, hname, hparts⟩ := of_loadDefinition hload
  obtain ⟨id', m₁, hclass, hsides⟩ := of_bind_ok hparts
  obtain ⟨_, m₂, hinstance, hrest⟩ := of_bind_ok hsides
  obtain ⟨_, m₃, hmeta, hpure⟩ := of_bind_ok hrest
  cases hpure
  -- a name that stands for a class already is only extended, which says no superclass
  have hextends : ∀ id, m.registry.find? name = some id → fields.lookup "superclass" = none := by
    intro id hfind
    have hdefines := honce name id hname hfind
    simpa [defines] using hdefines
  obtain ⟨h₁, hid, -, hothers⟩ := Made.classFor hbase h (hnew name hname) hextends hclass
  obtain ⟨h₂, -, hnames₂⟩ := h₁.loadSide hid hinstance
  obtain ⟨h₃, -, hnames₃⟩ := h₂.loadSide hid hmeta
  refine ⟨h₃, fun other i hfind => ?_⟩
  -- filing methods binds no name
  unfold Registry.find? at hfind
  rw [hnames₃, hnames₂] at hfind
  by_cases hother : other = name
  · exact .inl (hother ▸ hname)
  · exact .inr ((hothers other hother).symm.trans hfind)

/-- The same of a whole image, whose first definitions have been loaded. -/
theorem Made.loadAll (hbase : Made base base) (h : Made base m) {done rest : List Json}
    (hnamed : Named base m done) (honce : Once base (done ++ rest)) {ids : List ClassId}
    {m' : Memory} (hload : rest.mapM Image.loadDefinition m = .ok ids m') : Made base m' := by
  induction rest generalizing m done ids with
  | nil =>
      cases hload
      exact h
  | cons d rest ih =>
      rw [List.mapM_cons] at hload
      obtain ⟨id, m₁, hfirst, hothers⟩ := of_bind_ok hload
      obtain ⟨ids', m₂, hrest, hpure⟩ := of_bind_ok hothers
      cases hpure
      have hnew := honce.new d (by simp)
      obtain ⟨h₁, hnames⟩ := Made.loadDefinition hbase h hnew (fun name id hname hfind => by
        -- the class was made by an earlier definition, so this one extends it
        obtain ⟨d', hd', hname'⟩ := hnamed name id hfind (hnew name hname)
        exact (List.pairwise_append.mp honce.once).2.2 d' hd' d List.mem_cons_self name
          hname' hname) hfirst
      have hnamed' : Named base m₁ (done ++ [d]) := by
        intro name id hfind hname
        rcases hnames name id hfind with hd | hold
        · exact ⟨d, by simp, hd⟩
        · obtain ⟨d', hd', hname'⟩ := hnamed name id hold hname
          exact ⟨d', List.mem_append_left _ hd', hname'⟩
      exact ih h₁ hnamed' (by simpa using honce) hrest

/-! ### The kernel -/

/-- Whether a class says of itself that it is indexable, or that it is not. -/
def isSettled (e : ClassEntry) : Bool :=
  match e.indexable with
  | .bool _ => true
  | _ => false

/-- The kernel is a system that images have added nothing to. -/
theorem made_kernel : Made Kernel.memory Kernel.memory where
  size := Nat.le_refl _
  same _ _ := rfl
  names := by decide +kernel
  distinct := by decide +kernel
  globals := by
    have hlength : Kernel.memory.registry.names.length ≤ Kernel.memory.registry.classes.size := by
      decide +kernel
    rw [List.drop_eq_nil_of_le hlength]
    rfl
  indexable := by
    have hsettled : ∀ id < Kernel.memory.registry.classes.size,
        isSettled (Kernel.memory.registry.entry id) = true := by decide +kernel
    intro id hid hnull
    have htrue := hsettled id hid
    unfold isSettled at htrue
    rw [hnull] at htrue
    cases htrue
  filed b hb hlt := absurd hlt (Nat.not_lt.mpr hb)
  quiet := by decide +kernel

/-! ### Loading what was saved -/

/-- What a class writes for its superclass. -/
def superclassField (r : Registry) (id : ClassId) : Json :=
  match (r.entry id).ancestors with
  | s :: _ => .str (r.entry s).name
  | [] => .null

/-- The fields of the definition of a class. -/
def fieldsOf (r : Registry) (id : ClassId) : List (String × Json) :=
  [("name", .str (r.entry id).name), ("superclass", superclassField r id),
    ("instanceVariables", .arr (r.entry id).instanceVariables),
    ("indexable", (r.entry id).indexable), ("methods", ofMethods (r.entry id).instanceSide),
    ("classMethods", ofMethods (r.entry id).classSide)]

theorem ofClass_eq (r : Registry) (id : ClassId) : ofClass r id = .obj (fieldsOf r id) := rfl

/-- A system into which the first classes of another one have been loaded. -/
structure Rebuilt (base M : Memory) (n : Nat) (m : Memory) : Prop extends Made base m where
  count : m.registry.classes.size = n
  entries : ∀ id < n, (m.registry.entry id).unplaced = (M.registry.entry id).unplaced

namespace Rebuilt

variable {base M m : Memory} {n : Nat}

theorem name_eq (h : Rebuilt base M n m) {id : ClassId} (hid : id < n) :
    (m.registry.entry id).name = (M.registry.entry id).name := by
  have hentry := h.entries id hid
  unfold ClassEntry.unplaced at hentry
  injection hentry

theorem lineage_eq (h : Rebuilt base M n m) {id : ClassId} (hid : id < n) :
    m.registry.lineage id = M.registry.lineage id := by
  have hentry := h.entries id hid
  unfold ClassEntry.unplaced at hentry
  injection hentry with _ hancestors
  unfold Registry.lineage
  rw [hancestors]

/-- The name of the next class is free. -/
theorem next_is_new (h : Rebuilt base M n m) (hM : Made base M)
    (hn : n < M.registry.classes.size) :
    m.registry.find? (M.registry.entry n).name = none := by
  cases hfind : m.registry.find? (M.registry.entry n).name with
  | none => rfl
  | some id =>
      obtain ⟨hid, hname⟩ := h.find?_some hfind
      rw [h.count] at hid
      rw [h.name_eq hid] at hname
      exact absurd (hM.distinct id (Nat.lt_trans hid hn) n hn hname) (Nat.ne_of_lt hid)

/-- The superclass of the next class is found. -/
theorem parent_of_next (h : Rebuilt base M n m) (o : M.registry.Ordered) :
    ∃ parent,
      checkSuperclass m.registry (M.registry.entry n).name (superclassField M.registry n)
        = .ok () ∧
      m.registry.parent (superclassField M.registry n) = .ok parent ∧
      (match parent with
        | some s => m.registry.lineage s
        | none => []) = (M.registry.entry n).ancestors := by
  unfold superclassField
  rcases o.inherits n with hroot | ⟨s, hs, hline⟩
  · rw [hroot]
    exact ⟨none, rfl, rfl, rfl⟩
  · -- the superclass is older, so it has been loaded and is found under its name
    have hfind : m.registry.find? (M.registry.entry s).name = some s := by
      rw [← h.name_eq hs]
      exact h.find?_name (h.count.symm ▸ hs)
    have hnamed : m.registry.named (.str (M.registry.entry s).name) = .ok s := by
      unfold Registry.named
      simp only [hfind]
    rw [hline]
    refine ⟨some s, ?_, ?_, h.lineage_eq hs⟩
    · unfold checkSuperclass
      simp only [Registry.lineage, hnamed]
    · unfold Registry.parent
      simp only [Registry.lineage, hnamed]
      rfl

end Rebuilt

theorem namesOf_arr (names : List Json) : Change.namesOf (.arr names) = .ok names := by
  cases names <;> rfl

/-- The class that the definition of a class is about, where its name is free. -/
theorem classFor_of_none {name : String} {fields : List (String × Json)} {superclass : Json}
    {declared : List Json} {indexable : Json} {parent : Option ClassId}
    (hquiet : m.journal.recording = false) (hfree : m.registry.find? name = none)
    (hsuperclass : fields.lookup "superclass" = some superclass)
    (hdeclared : fields.lookup "instanceVariables" = some (.arr declared))
    (hindexable : fields.lookup "indexable" = some indexable)
    (hcheck : checkSuperclass m.registry name superclass = .ok ())
    (hparent : m.registry.parent superclass = .ok parent) :
    classFor name fields m = .ok m.registry.classes.size
      (m.defined name parent declared (m.registry.indexableFor indexable parent)) := by
  have hget : (MonadState.get : Change Memory) m = .ok m m := rfl
  have hcheck' : Change.ofExcept (checkSuperclass m.registry name superclass) m = .ok () m := by
    rw [hcheck]
    rfl
  unfold classFor
  rw [bind_of_ok hget, hfree, hsuperclass, hdeclared, hindexable]
  simp only [Option.getD_some]
  rw [bind_of_ok hcheck',
    bind_of_ok (Change.define_eq hparent (namesOf_arr declared) name indexable)]
  -- defining a class does not start the journal
  have hstill : (m.defined name parent declared
      (m.registry.indexableFor indexable parent)).journal.recording = false := hquiet
  exact bind_of_ok (Change.note_of_quiet hstill _)

/-- What is written for the methods of a class is loaded as the same methods. -/
theorem loadSide_ofMethods (className : String) {owner : Behavior} {t : MethodTable}
    (h : t.Filed owner) :
    ∃ placed k, (({} : MethodTable).fileAll placed).unplaced = t.unplaced ∧
      (∀ method ∈ placed, method.owner = owner ∧ ∃ s, method.selector = .str s) ∧
      loadSide className owner (some (ofMethods t)) m = .ok () (m.filed owner placed k) := by
  have hlisted : ∀ method ∈ t.listed, method.owner = owner ∧ ∃ s, method.selector = .str s := by
    intro method hmem
    obtain ⟨e, he, rfl⟩ := List.mem_map.mp hmem
    obtain ⟨howner, s, -, -, hs⟩ := h.entry e he
    exact ⟨howner, s, hs⟩
  -- each field is named for the selector of its method
  have hfields : t.methods.entries.map (fun e => (fieldName e.name, e.value.toNode.toJson))
      = t.listed.map fun method => (fieldName method.selector, method.toNode.toJson) := by
    unfold MethodTable.listed
    rw [List.map_map]
    refine List.map_congr_left fun e he => ?_
    obtain ⟨-, s, -, hname, hs⟩ := h.entry e he
    simp only [Function.comp_apply, hname, hs]
  obtain ⟨placed, k, hplaced, hload⟩ := loadMethods_of_fields className (m := m) t.listed hlisted
  refine ⟨placed, k, ?_, ?_, ?_⟩
  · calc (({} : MethodTable).fileAll placed).unplaced
        = ({} : MethodTable).unplaced.fileAll (placed.map Method.unplaced) :=
          MethodTable.unplaced_fileAll _ _
      _ = (({} : MethodTable).fileAll t.listed).unplaced := by
          rw [hplaced, MethodTable.unplaced_fileAll]
      _ = t.unplaced := by rw [h.fileAll_listed]
  · -- placing changes neither owner nor selector, so those of the listed method will do
    intro method hmem
    have hkept : method.unplaced ∈ t.listed.map Method.unplaced :=
      hplaced ▸ List.mem_map_of_mem hmem
    obtain ⟨original, horiginal, heq⟩ := List.mem_map.mp hkept
    obtain ⟨howner, s, hs⟩ := hlisted original horiginal
    exact ⟨(congrArg Method.owner heq).symm.trans howner, s,
      (congrArg Method.selector heq).symm.trans hs⟩
  · unfold ofMethods
    rw [hfields]
    exact hload

/-- Loading the definition of the next class of a system gives that class. -/
theorem Rebuilt.loadDefinition {M : Memory} {n : Nat} (h : Rebuilt base M n m) (hM : Made base M)
    (o : M.registry.Ordered) (hbase : base.registry.classes.size ≤ n)
    (hn : n < M.registry.classes.size) :
    ∃ m', Image.loadDefinition (ofClass M.registry n) m = .ok n m' ∧
      Rebuilt base M (n + 1) m' := by
  let e := M.registry.entry n
  let fields := fieldsOf M.registry n
  obtain ⟨parent, hcheck, hparent, hline⟩ := h.parent_of_next o
  have hne : e.indexable ≠ .null := hM.indexable n hn
  have hindexable : m.registry.indexableFor e.indexable parent = e.indexable := by
    unfold Registry.indexableFor
    split
    · rename_i hnull
      exact absurd hnull hne
    · rename_i hnull
      exact absurd hnull hne
    · rfl
  -- the class itself, and then its two sides
  let m₁ := m.defined e.name parent e.instanceVariables e.indexable
  have hclass : classFor e.name fields m = .ok n m₁ := by
    have hfor : classFor e.name fields m = .ok m.registry.classes.size
        (m.defined e.name parent e.instanceVariables
          (m.registry.indexableFor e.indexable parent)) :=
      classFor_of_none h.quiet (h.next_is_new hM hn) rfl rfl rfl hcheck hparent
    rw [hindexable, h.count] at hfor
    exact hfor
  obtain ⟨placed, k, hinstance, hown, hload⟩ :=
    @loadSide_ofMethods m₁ e.name ⟨n, false⟩ e.instanceSide (hM.filed ⟨n, false⟩ hbase hn)
  let m₂ := m₁.filed ⟨n, false⟩ placed k
  obtain ⟨placed', k', hmeta, hown', hload'⟩ :=
    @loadSide_ofMethods m₂ e.name ⟨n, true⟩ e.classSide (hM.filed ⟨n, true⟩ hbase hn)
  have hbuilt := m.entry_filed_defined e.name parent e.instanceVariables e.indexable placed placed'
    k k'
  simp only [h.count] at hbuilt
  refine ⟨m₂.filed ⟨n, true⟩ placed' k', ?_, ⟨?_, hbuilt.1, ?_⟩⟩
  · show (classFor e.name fields >>= fun id =>
      loadSide e.name ⟨id, false⟩ (some (ofMethods e.instanceSide)) >>= fun _ =>
      loadSide e.name ⟨id, true⟩ (some (ofMethods e.classSide)) >>= fun _ =>
      pure id) m = _
    rw [bind_of_ok hclass, bind_of_ok hload, bind_of_ok hload']
    rfl
  · have hmade₁ := h.toMade.define (h.next_is_new hM hn) parent e.instanceVariables hne
    exact (hmade₁.file hbase hown k).file hbase hown' k'
  · intro id hid
    rw [hbuilt.2 id]
    split
    · rename_i hlast
      unfold ClassEntry.unplaced
      simp only [hlast, hline, hinstance, hmeta, e]
    · rename_i hold
      exact h.entries id (Nat.lt_of_le_of_ne (Nat.le_of_lt_succ hid) hold)

/-- The definitions of all further classes of a system, one after the other. -/
theorem Rebuilt.loadAll {M : Memory} {n : Nat} (h : Rebuilt base M n m) (hM : Made base M)
    (o : M.registry.Ordered) (hbase : base.registry.classes.size ≤ n) (count : Nat)
    (hcount : n + count ≤ M.registry.classes.size) :
    ∃ m', ((List.range' n count).map (ofClass M.registry)).mapM Image.loadDefinition m
        = .ok (List.range' n count) m' ∧ Rebuilt base M (n + count) m' := by
  induction count generalizing n m with
  | zero => exact ⟨m, rfl, h⟩
  | succ count ih =>
      obtain ⟨m₁, hfirst, h₁⟩ := h.loadDefinition hM o hbase (by omega)
      obtain ⟨m₂, hrest, h₂⟩ := ih h₁ (by omega) (by omega)
      refine ⟨m₂, ?_, by rwa [Nat.add_assoc, Nat.add_comm 1] at h₂⟩
      rw [List.range'_succ, List.map_cons, List.mapM_cons, bind_of_ok hfirst, bind_of_ok hrest]
      rfl

/-- The classes that a system has beyond those of another one, in the order in which they
were defined. -/
def newClasses (base m : Memory) : List ClassId :=
  List.range' base.registry.classes.size
    (m.registry.classes.size - base.registry.classes.size)

/-- A class is written the same way whatever the sites of its text literals are. -/
theorem ofClass_unplaced (r : Registry) (id : ClassId) :
    ofClass r.unplaced id = ofClass r id := by
  have hentry : ∀ id, r.unplaced.entry id = (r.entry id).unplaced := by
    intro id
    unfold Registry.entry Registry.unplaced
    simp only [Array.getD_eq_getD_getElem?, Array.getElem?_map]
    cases r.classes[id]? <;> rfl
  have hside : ∀ t : MethodTable, ofMethods t.unplaced = ofMethods t := by
    intro t
    have hmethod : ∀ method : Method, method.unplaced.toNode.toJson = method.toNode.toJson :=
      fun method => Node.toJson_unplaced method.toNode
    simp only [ofMethods, MethodTable.unplaced, Dictionary.map, List.map_map]
    exact congrArg Json.obj (List.map_congr_left fun e _ => congrArg _ (hmethod e.value))
  have hsuperclass : superclassField r.unplaced id = superclassField r id := by
    simp only [superclassField, hentry]
    rfl
  simp only [ofClass_eq, fieldsOf, hsuperclass, hentry]
  simp only [ClassEntry.unplaced, hside]

/-- A system that was rebuilt to the last class has the same classes and globals. -/
theorem Rebuilt.registry_eq {M : Memory} (h : Rebuilt base M M.registry.classes.size m)
    (hM : Made base M) : m.registry.unplaced = M.registry.unplaced := by
  have hnames : m.registry.names = M.registry.names := by
    rw [h.names, hM.names, h.count]
    exact Registry.index_congr fun id hid => h.name_eq hid
  have hclasses : m.registry.classes.map ClassEntry.unplaced
      = M.registry.classes.map ClassEntry.unplaced := by
    refine Array.ext (by simpa using h.count) fun id hid hid' => ?_
    have hentry := h.entries id (by simpa using hid')
    rw [Array.size_map] at hid hid'
    simpa [Registry.entry, Array.getD_eq_getD_getElem?, hid, hid'] using hentry
  unfold Registry.unplaced
  rw [hnames, hclasses]

/-- What images have made in a system can be saved and loaded into the same system again. -/
theorem Made.reload (hbase : Made base base) (hm : Made base m) (o : m.registry.Ordered)
    (hread : Json.read (unixLines (save m.registry (newClasses base m)).toList)
      = .ok (.arr ((newClasses base m).map (ofClass m.registry))))
    (file : String) :
    ∃ m', loadText file (save m.registry (newClasses base m)) base
        = .ok (newClasses base m) m' ∧
      m'.registry.unplaced = m.registry.unplaced ∧ m'.globals = m.globals ∧
      save m'.registry (newClasses base m') = save m.registry (newClasses base m) := by
  have hstart : Rebuilt base m base.registry.classes.size base :=
    ⟨hbase, rfl, fun id hid => by rw [hm.same id hid]⟩
  have hsize := Nat.add_sub_cancel' hm.size
  obtain ⟨m', hagain, h⟩ := hstart.loadAll hm o (Nat.le_refl _) _ (Nat.le_of_eq hsize)
  rw [hsize] at h
  have hregistry := h.registry_eq hm
  -- as many classes have been loaded as were saved, so they have the same numbers
  have hnew : newClasses base m' = newClasses base m := by
    unfold newClasses
    rw [h.count]
  refine ⟨m', ?_, hregistry, ?_, ?_⟩
  · unfold loadText
    simp only [hread]
    exact hagain
  · have hnames : m'.registry.names = m.registry.names :=
      (congrArg Registry.names hregistry : m'.registry.unplaced.names = m.registry.unplaced.names)
    rw [h.globals, hm.globals, hnames]
  · -- what is written does not depend on the sites of text literals
    have hclass : ofClass m'.registry = ofClass m.registry := by
      funext id
      rw [← ofClass_unplaced, hregistry, ofClass_unplaced]
    unfold save
    rw [hnew, hclass]

/-- Classes that were loaded into a fresh system can be saved and loaded into another one:
that succeeds, and gives the same classes and globals again. So does saving once more give the
same text. The image defines no class of the kernel again, and each of its own once. What is
assumed of the text is that the reader undoes the writer on it. -/
theorem load_save {definitions : List Json} {ids : List ClassId} {m : Memory}
    (honce : Once Kernel.memory definitions)
    (hload : load (.arr definitions) Kernel.memory = .ok ids m)
    (hread : Json.read (unixLines (save m.registry (newClasses Kernel.memory m)).toList)
      = .ok (.arr ((newClasses Kernel.memory m).map (ofClass m.registry))))
    (file : String) :
    ∃ m', loadText file (save m.registry (newClasses Kernel.memory m)) Kernel.memory
        = .ok (newClasses Kernel.memory m) m' ∧
      m'.registry.unplaced = m.registry.unplaced ∧ m'.globals = m.globals ∧
      save m'.registry (newClasses Kernel.memory m')
        = save m.registry (newClasses Kernel.memory m) := by
  have hnamed : Named Kernel.memory Kernel.memory [] := by
    intro name id hfind hnone
    rw [hnone] at hfind
    cases hfind
  have hedits : ({} : Memory).Edits m :=
    Kernel.memory_edits.trans ((Change.Makes.load _).of_ok hload)
  have hm : Made Kernel.memory m := made_kernel.loadAll made_kernel hnamed honce hload
  exact made_kernel.reload hm (Memory.Edits.ordered hedits) hread file

/-! ### A class with methods on both sides -/

/-- A class of one variable, which is extended by a method of its metaclass. -/
def tallyImage : List Json :=
  [.obj [("name", .str "Tally"), ("superclass", .str "Object"),
    ("instanceVariables", .arr [.str "count"]),
    ("methods", .obj [("count", (Node.method (.str "count") [] []
      [.answer (.reference (.str "count") .instvar (.int 0))] .null).toJson)])],
   .obj [("name", .str "Tally"),
    ("classMethods", .obj [("word", (Node.method (.str "word") [] []
      [.answer (.literal (.text "tally" 0))] .null).toJson)])]]

theorem tally_once : Once Kernel.memory tallyImage where
  new d hd name hname := by
    have htally : name = "Tally" := by
      simp only [tallyImage, List.mem_cons, List.not_mem_nil, or_false] at hd
      rcases hd with rfl | rfl <;> simpa [nameOf?] using hname.symm
    subst htally
    decide +kernel
  once := by
    refine List.Pairwise.cons ?_ (List.pairwise_singleton _ _)
    -- the second definition names no superclass
    intro d' hd' _ _ _
    obtain rfl := List.mem_singleton.mp hd'
    rfl

/-- Whether both definitions are about the one class that they make, and what is written of
it can be read. -/
def talliesOnce : EStateM.Result Fault Memory (List ClassId) → Bool
  | .ok ids m => decide (ids = [15, 15] ∧ newClasses Kernel.memory m = [15]) &&
      (Json.arr ([15].map (ofClass m.registry))).comesBack
  | .error _ _ => false

/-- The class that the first definition makes, and the second one extends, comes back. -/
theorem tally_comes_back : ∃ m m' : Memory,
    load (.arr tallyImage) Kernel.memory = .ok [15, 15] m ∧
      loadText "tally.json" (save m.registry [15]) Kernel.memory = .ok [15] m' ∧
      m'.registry.unplaced = m.registry.unplaced := by
  have hids : talliesOnce (load (.arr tallyImage) Kernel.memory) = true := by decide +kernel
  cases hload : load (.arr tallyImage) Kernel.memory with
  | error f m =>
      rw [hload] at hids
      cases hids
  | ok ids m =>
      rw [hload] at hids
      obtain ⟨hmade, hback⟩ := Bool.and_eq_true_iff.mp hids
      obtain ⟨rfl, hnew⟩ := of_decide_eq_true hmade
      have hread := Json.read_indented hback
      obtain ⟨m', htext, hregistry, -, -⟩ := load_save tally_once hload
        (by rw [hnew]; exact hread) "tally.json"
      rw [hnew] at htext
      exact ⟨m, m', rfl, htext, hregistry⟩

end Image

end Smalltalk
