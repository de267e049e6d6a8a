import Mathlib.Data.List.Forall2
import Smalltalk.Proofs.RoundTrip

/-!
# `Smalltalk.Proofs.Loading`: what an image leaves where it stops

Loading stops at the first definition that cannot be loaded to its end.
`Image.load_error_iff` says what is there then: what the definitions before it have
made, and whatever the one that failed had done (`Image.Halts`). That is nothing
where the definition has no name, or where its class is refused (`Image.Refused`).
Otherwise its class is there (`Image.Opens`), and in it the methods before the first
bad one, the instance side before the class side.

The methods of a side are filed one after another and each is checked only when its
turn comes, so a list of fields splits in two: fields that can be read, and from the
first that cannot be a rest that is never looked at (`Image.reads_or_splits`).
-/

set_option autoImplicit false

namespace Smalltalk

section
variable {ε α β : Type} {x : EStateM ε Memory α} {f : α → EStateM ε Memory β} {m m' : Memory}

/-- An action of two parts fails in the first part or in the second. -/
theorem bind_error_iff {e : ε} : (x >>= f) m = .error e m' ↔
    x m = .error e m' ∨ ∃ a m₁, x m = .ok a m₁ ∧ f a m₁ = .error e m' := by
  cases hx : x m with
  | ok a m₁ =>
      rw [bind_of_ok hx]
      constructor
      · exact fun h => .inr ⟨a, m₁, rfl, h⟩
      · rintro (h | ⟨a', m₁', heq, h⟩)
        · cases h
        · cases heq
          exact h
  | error e₁ m₁ =>
      rw [bind_of_error hx]
      constructor
      · intro h
        cases h
        exact .inl rfl
      · rintro (h | ⟨a', m₁', heq, -⟩)
        · cases h
          rfl
        · cases heq

/-- Doing something for each of a list fails at the first for which it does. -/
theorem mapM_error_iff {act : α → EStateM ε Memory β} {xs : List α} {e : ε} :
    xs.mapM act m = .error e m' ↔
      ∃ done a rest bs m₁, xs = done ++ a :: rest ∧ done.mapM act m = .ok bs m₁ ∧
        act a m₁ = .error e m' := by
  induction xs generalizing m with
  | nil =>
      constructor
      · intro h
        cases h
      · rintro ⟨done, a, rest, -, -, hsplit, -⟩
        -- nothing is done for the empty list, so nothing fails
        exact absurd hsplit.symm (List.append_ne_nil_of_right_ne_nil done (List.cons_ne_nil a rest))
  | cons a xs ih =>
      rw [List.mapM_cons, bind_error_iff]
      constructor
      · rintro (h | ⟨b, m₁, hfirst, hrest⟩)
        · exact ⟨[], a, xs, [], m, rfl, rfl, h⟩
        · rcases bind_error_iff.mp hrest with h | ⟨bs, m₂, -, h⟩
          · obtain ⟨done, a', rest, bs, m₂, rfl, hdone, hlast⟩ := ih.mp h
            refine ⟨a :: done, a', rest, b :: bs, m₂, rfl, ?_, hlast⟩
            rw [List.mapM_cons, bind_of_ok hfirst, bind_of_ok hdone]
            rfl
          · -- the result is put together without failing
            cases h
      · rintro ⟨done, a', rest, bs, m₂, hsplit, hdone, hlast⟩
        cases done with
        | nil =>
            -- what fails is done for the first of the list
            cases hsplit
            cases hdone
            exact .inl hlast
        | cons _ done =>
            cases hsplit
            rw [List.mapM_cons] at hdone
            obtain ⟨b, m₁, hfirst, hothers⟩ := of_bind_ok hdone
            obtain ⟨bs', m₂', hdone', hpure⟩ := of_bind_ok hothers
            cases hpure
            have hrest := ih.mpr ⟨done, a', rest, bs', m₂, rfl, hdone', hlast⟩
            exact .inr ⟨b, m₁, hfirst, bind_of_error hrest⟩

end

/-! ### Filing methods as they are read -/

/-- Methods whose text literals have the sites from a number on, and the first number that is
not used. -/
def Method.listWithSites (next : Nat) : List Method → List Method × Nat
  | [] => ([], next)
  | method :: rest =>
    let (statements, next) := Node.listWithSites next method.statements
    let (rest, next) := listWithSites next rest
    ({ method with statements } :: rest, next)

namespace Memory

/-- A memory after methods were read for an owner and filed, in order. -/
def file (m : Memory) (owner : Behavior) (methods : List Method) : Memory :=
  let (placed, texts) := Method.listWithSites m.heap.texts methods
  m.filed owner placed texts

theorem file_nil (m : Memory) (owner : Behavior) : m.file owner [] = m :=
  m.filed_nil owner

/-- Filing the first method and then the others. -/
theorem file_cons (m : Memory) (owner : Behavior) (method : Method) (rest : List Method) :
    m.file owner (method :: rest) = (m.file owner [method]).file owner rest := by
  let placed := Node.listWithSites m.heap.texts method.statements
  let others := Method.listWithSites placed.2 rest
  exact (m.filed_filed owner [{ method with statements := placed.1 }] others.1 placed.2
    others.2).symm

end Memory

/-! ### The methods of one side -/

namespace Image

/-- A field that holds a method of its own name. -/
structure Reads (owner : Behavior) (field : String × Json) (method : Method) : Prop where
  tree : Node.ofJson? field.2 = .ok method.toNode
  owner_eq : method.owner = owner
  selector_eq : method.selector = .str field.1

/-- Why a field holds no method of its own name. -/
inductive Unfit (className : String) (field : String × Json) : Fault → Prop where
  | malformed (e : FormError) (hread : Node.ofJson? field.2 = .error e) :
    Unfit className field (.malformed e)
  | noMethod (node : Node) (hread : Node.ofJson? field.2 = .ok node)
      (hnode : ∀ method : Method, node ≠ method.toNode) :
    Unfit className field (.image (className ++ ">>" ++ field.1 ++ " is not a method node"))
  | otherName (method : Method) (hread : Node.ofJson? field.2 = .ok method.toNode)
      (hselector : method.selector ≠ .str field.1) :
    Unfit className field (.image
      (className ++ ">>" ++ field.1 ++ " holds a method for #" ++ method.selector.plain))

variable {m m' : Memory} {className : String} {owner : Behavior} {f : Fault}

theorem reads_or_unfit (className : String) (owner : Behavior) (field : String × Json) :
    (∃ method, Reads owner field method) ∨ ∃ f, Unfit className field f := by
  cases hread : Node.ofJson? field.2 with
  | error e => exact .inr ⟨_, .malformed e hread⟩
  | ok node =>
      by_cases hnode : ∃ method : Method, node = method.toNode
      · obtain ⟨method, rfl⟩ := hnode
        by_cases hs : method.selector = .str field.1
        · exact .inl ⟨{ method with owner }, hread, rfl, hs⟩
        · exact .inr ⟨_, .otherName method hread hs⟩
      · exact .inr ⟨_, .noMethod node hread fun method heq => hnode ⟨method, heq⟩⟩

/-- A field that holds a method of its name is loaded by filing that method. -/
theorem loadMethods_of_reads {field : String × Json} {method : Method}
    (h : Reads owner field method) (rest : List (String × Json)) :
    loadMethods className owner (field :: rest) m
      = loadMethods className owner rest (m.file owner [method]) := by
  obtain ⟨selector, json⟩ := field
  obtain ⟨hread, rfl, hs⟩ := h
  let placed := Node.listWithSites m.heap.texts method.statements
  let filed : Method := { method with statements := placed.1 }
  have hplace : Change.place method.toNode m
      = .ok filed.toNode { m with heap := { m.heap with texts := placed.2 } } := rfl
  have hselector : filed.selector = .str selector := hs
  have hfile := Change.compile_image (m := { m with heap := { m.heap with texts := placed.2 } })
    hselector
  rw [loadMethods_of_toNode hread hs, bind_of_ok hplace, bind_of_ok hfile]
  rfl

/-- A field that holds none stops the loading, and nothing is done for it. -/
theorem loadMethods_of_unfit {field : String × Json} (h : Unfit className field f)
    (rest : List (String × Json)) :
    loadMethods className owner (field :: rest) m = .error f m := by
  obtain ⟨selector, json⟩ := field
  cases h with
  | malformed e hread =>
      simp only at hread
      rw [loadMethods, hread]
      rfl
  | noMethod node hread hnode =>
      simp only at hread
      rw [loadMethods, hread]
      cases node with
      | method selector' params temps statements primitive =>
          exact absurd rfl (hnode ⟨selector', params, temps, statements, primitive, owner⟩)
      | _ => rfl
  | otherName method hread hs =>
      simp only at hread hs
      rw [loadMethods, hread]
      simp only [Method.ofNode?, Method.toNode]
      cases hselector : method.selector with
      | str s =>
          have hne : (s == selector) = false := by
            simpa using fun heq : s = selector => hs (hselector.trans (heq ▸ rfl))
          simp only [hne]
          rfl
      | _ => rfl

/-- Fields that hold methods of their names are loaded before whatever comes after them. -/
theorem loadMethods_append {good : List (String × Json)} {methods : List Method}
    (h : List.Forall₂ (Reads owner) good methods) (rest : List (String × Json)) :
    loadMethods className owner (good ++ rest) m
      = loadMethods className owner rest (m.file owner methods) := by
  induction h generalizing m with
  | nil => rw [Memory.file_nil, List.nil_append]
  | cons hfirst _ ih =>
      rw [List.cons_append, loadMethods_of_reads hfirst, ih, ← Memory.file_cons]

/-- Either all fields hold methods of their names, or there is a first that does not. -/
theorem reads_or_splits (className : String) (owner : Behavior) (fields : List (String × Json)) :
    (∃ methods, List.Forall₂ (Reads owner) fields methods) ∨
      ∃ good bad rest methods f, fields = good ++ bad :: rest ∧
        List.Forall₂ (Reads owner) good methods ∧ Unfit className bad f := by
  induction fields with
  | nil => exact .inl ⟨[], .nil⟩
  | cons field rest ih =>
      rcases reads_or_unfit className owner field with ⟨method, hread⟩ | ⟨f, hunfit⟩
      · rcases ih with ⟨methods, hall⟩ | ⟨good, bad, rest', methods, f, rfl, hgood, hbad⟩
        · exact .inl ⟨method :: methods, .cons hread hall⟩
        · exact .inr ⟨field :: good, bad, rest', method :: methods, f, rfl, .cons hread hgood,
            hbad⟩
      · exact .inr ⟨[], field, rest, [], f, rfl, .nil, hunfit⟩

/-- A side that is loaded to its end: the methods of all its fields are filed. -/
inductive Fills (m : Memory) (owner : Behavior) : Option Json → Memory → Prop where
  | absent : Fills m owner none m
  | filled (fields : List (String × Json)) (methods : List Method)
      (hall : List.Forall₂ (Reads owner) fields methods) :
    Fills m owner (some (.obj fields)) (m.file owner methods)

/-- A side that is not: it is no dictionary, or it has a bad field, and then the methods
before that one are filed. -/
inductive Breaks (m : Memory) (className : String) (owner : Behavior) :
    Option Json → Fault → Memory → Prop where
  | noDictionary (value : Json) (hvalue : ∀ fields, value ≠ .obj fields) :
    Breaks m className owner (some value)
      (.image ("Methods of " ++ className ++ " must be a dictionary")) m
  | badField (good : List (String × Json)) (bad : String × Json) (rest : List (String × Json))
      (methods : List Method) (f : Fault) (hgood : List.Forall₂ (Reads owner) good methods)
      (hbad : Unfit className bad f) :
    Breaks m className owner (some (.obj (good ++ bad :: rest))) f (m.file owner methods)

variable {methods : Option Json}

theorem loadSide_of_fills (h : Fills m owner methods m') (className : String) :
    loadSide className owner methods m = .ok () m' := by
  cases h with
  | absent => rfl
  | filled fields methods hall =>
      have hload : loadMethods className owner (fields ++ []) m
          = loadMethods className owner [] (m.file owner methods) := loadMethods_append hall []
      rw [List.append_nil] at hload
      exact hload

theorem loadSide_of_breaks (h : Breaks m className owner methods f m') :
    loadSide className owner methods m = .error f m' := by
  cases h with
  | noDictionary value hvalue =>
      cases value with
      | obj fields => exact absurd rfl (hvalue fields)
      | _ => rfl
  | badField good bad rest methods f hgood hbad =>
      exact (loadMethods_append hgood _).trans (loadMethods_of_unfit hbad rest)

theorem fills_or_breaks (m : Memory) (className : String) (owner : Behavior)
    (methods : Option Json) :
    (∃ m', Fills m owner methods m') ∨ ∃ f m', Breaks m className owner methods f m' := by
  cases methods with
  | none => exact .inl ⟨m, .absent⟩
  | some value =>
      by_cases hvalue : ∃ fields, value = .obj fields
      · obtain ⟨fields, rfl⟩ := hvalue
        rcases reads_or_splits className owner fields with
          ⟨methods, hall⟩ | ⟨good, bad, rest, methods, f, rfl, hgood, hbad⟩
        · exact .inl ⟨_, .filled fields methods hall⟩
        · exact .inr ⟨f, _, .badField good bad rest methods f hgood hbad⟩
      · exact .inr ⟨_, m, .noDictionary value fun fields heq => hvalue ⟨fields, heq⟩⟩

theorem loadSide_ok_iff :
    loadSide className owner methods m = .ok () m' ↔ Fills m owner methods m' := by
  refine ⟨fun h => ?_, fun h => loadSide_of_fills h className⟩
  rcases fills_or_breaks m className owner methods with ⟨m₁, hfills⟩ | ⟨f, m₁, hbreaks⟩
  · cases (loadSide_of_fills hfills className).symm.trans h
    exact hfills
  · cases (loadSide_of_breaks hbreaks).symm.trans h

theorem loadSide_error_iff :
    loadSide className owner methods m = .error f m' ↔ Breaks m className owner methods f m' := by
  refine ⟨fun h => ?_, loadSide_of_breaks⟩
  rcases fills_or_breaks m className owner methods with ⟨m₁, hfills⟩ | ⟨f₁, m₁, hbreaks⟩
  · cases (loadSide_of_fills hfills className).symm.trans h
  · cases (loadSide_of_breaks hbreaks).symm.trans h
    exact hbreaks

end Image

/-! ### The class of a definition -/

namespace Change

theorem namesOf_error_iff {value : Json} {f : Fault} : namesOf value = .error f ↔
    value.truthy = true ∧ value.elements? = none ∧ f = .notAList value := by
  unfold namesOf
  split
  · rename_i hgiven
    cases value.elements? with
    | some names => simp
    | none => simp [hgiven, eq_comm]
  · simp_all

theorem define_of_noList {m : Memory} {superclass instanceVariables : Json}
    {parent : Option ClassId} {f : Fault} (hparent : m.registry.parent superclass = .ok parent)
    (hnames : namesOf instanceVariables = .error f) (name indexable : Json) :
    define name superclass instanceVariables indexable m = .error f m := by
  have hget : (MonadState.get : Change Memory) m = .ok m m := rfl
  have hparent' : ofExcept (m.registry.parent superclass) m = .ok parent m := by
    rw [hparent]
    rfl
  have hnames' : ofExcept (namesOf instanceVariables) m = .error f m := by
    rw [hnames]
    rfl
  unfold define
  rw [bind_of_ok hget, bind_of_ok hparent', bind_of_error hnames']

end Change

namespace Image

/-- A definition makes a class: its name is free, or it says what the superclass is. -/
def Defines (m : Memory) (name : String) (fields : List (String × Json)) : Prop :=
  m.registry.find? name = none ∨ fields.lookup "superclass" ≠ none

/-- A definition extends the class that has its name: it says nothing of a superclass. -/
def Extends (m : Memory) (name : String) (fields : List (String × Json)) (id : ClassId) : Prop :=
  m.registry.find? name = some id ∧ fields.lookup "superclass" = none

/-- Why there can be no class for a definition. -/
inductive Refused (m : Memory) (name : String) (fields : List (String × Json)) : Fault → Prop where
  | instanceVariables (id : ClassId) (hextends : Extends m name fields id)
      (hgiven : ((fields.lookup "instanceVariables").getD .null).truthy = true) :
    Refused m name fields
      (.image ("Cannot add instance variables to existing class " ++ name))
  | noName (superclass : Json) (hdefines : Defines m name fields)
      (hsuperclass : fields.lookup "superclass" = some superclass)
      (hname : superclass.key? = none) :
    Refused m name fields (.notAName superclass)
  | unknown (superclass : Json) (hdefines : Defines m name fields)
      (hsuperclass : fields.lookup "superclass" = some superclass) (hne : superclass ≠ .null)
      (hname : superclass.key? ≠ none)
      (hunknown : ∀ s, superclass = .str s → m.registry.find? s = none) :
    Refused m name fields
      (.image ("Unknown superclass '" ++ superclass.plain ++ "' for " ++ name))
  | noList (parent : Option ClassId) (declared : Json) (hdefines : Defines m name fields)
      (hparent : m.registry.parent ((fields.lookup "superclass").getD .null) = .ok parent)
      (hdeclared : fields.lookup "instanceVariables" = some declared)
      (hgiven : declared.truthy = true) (hlist : declared.elements? = none) :
    Refused m name fields (.notAList declared)

/-- The class for a definition, and the memory in which it is there: the one that has the
name is kept, or a new one takes the name. -/
inductive Opens (m : Memory) (name : String) (fields : List (String × Json)) :
    ClassId → Memory → Prop where
  | kept (id : ClassId) (hextends : Extends m name fields id)
      (hnone : ((fields.lookup "instanceVariables").getD .null).truthy = false) :
    Opens m name fields id (m.note ("treetalk.image: extending " ++ name))
  | made (parent : Option ClassId) (declared : List Json) (hdefines : Defines m name fields)
      (hparent : m.registry.parent ((fields.lookup "superclass").getD .null) = .ok parent)
      (hdeclared : Change.namesOf ((fields.lookup "instanceVariables").getD (.arr []))
        = .ok declared) :
    Opens m name fields m.registry.classes.size
      ((m.defined name parent declared
        (m.registry.indexableFor ((fields.lookup "indexable").getD .null) parent)).note
          ("treetalk.image: defined " ++ name))

variable {m m' : Memory} {f : Fault} {name : String} {fields : List (String × Json)} {id : ClassId}

theorem extends_or_defines (m : Memory) (name : String) (fields : List (String × Json)) :
    (∃ id, Extends m name fields id) ∨ Defines m name fields := by
  by_cases hsuperclass : fields.lookup "superclass" = none
  · cases hfind : m.registry.find? name with
    | some id => exact .inl ⟨id, hfind, hsuperclass⟩
    | none => exact .inr (.inl hfind)
  · exact .inr (.inr hsuperclass)

theorem classFor_of_extends (h : Extends m name fields id) :
    classFor name fields m
      = if ((fields.lookup "instanceVariables").getD .null).truthy then
          .error (.image ("Cannot add instance variables to existing class " ++ name)) m
        else .ok id (m.note ("treetalk.image: extending " ++ name)) := by
  have hget : (MonadState.get : Change Memory) m = .ok m m := rfl
  unfold classFor
  rw [bind_of_ok hget, h.1, h.2]
  simp only
  split <;> rfl

theorem classFor_of_defines (h : Defines m name fields) :
    classFor name fields m
      = (Change.ofExcept
          (checkSuperclass m.registry name ((fields.lookup "superclass").getD .null)) >>= fun _ =>
        Change.define (.str name) ((fields.lookup "superclass").getD .null)
          ((fields.lookup "instanceVariables").getD (.arr []))
          ((fields.lookup "indexable").getD .null) >>= fun id =>
        Change.note ("treetalk.image: defined " ++ name) >>= fun _ => pure id) m := by
  have hget : (MonadState.get : Change Memory) m = .ok m m := rfl
  unfold classFor
  rw [bind_of_ok hget]
  rcases h with hfree | hsuperclass
  · rw [hfree]
  · cases hlookup : fields.lookup "superclass" with
    | none => exact absurd hlookup hsuperclass
    | some superclass => cases m.registry.find? name <;> rfl

/-! #### Superclasses -/

variable {r : Registry} {superclass : Json}

theorem checkSuperclass_of_parent {parent : Option ClassId}
    (h : r.parent superclass = .ok parent) (name : String) :
    checkSuperclass r name superclass = .ok () := by
  unfold checkSuperclass
  split
  · rfl
  · rename_i hne
    cases hnamed : r.named superclass with
    | ok id => rfl
    | error f =>
        have hparent : r.parent superclass = .error f := by
          unfold Registry.parent
          split
          · exact absurd rfl hne
          · rw [hnamed]
            rfl
        rw [h] at hparent
        cases hparent

/-- Only a text can be the name of a class. -/
theorem named_of_noText (h : ∀ s, superclass ≠ .str s) :
    r.named superclass = .error
      (if superclass.key? = none then .notAName superclass else .nameNotText superclass) := by
  unfold Registry.named
  split
  · exact absurd rfl (h _)
  · unfold Fault.keyOf
    cases superclass.key? <;> rfl

theorem checkSuperclass_of_noName (h : superclass.key? = none) (name : String) :
    checkSuperclass r name superclass = .error (.notAName superclass) := by
  have hnamed : r.named superclass = .error (.notAName superclass) := by
    rw [named_of_noText, if_pos h]
    rintro s rfl
    cases h
  unfold checkSuperclass
  split
  · cases h
  · rw [hnamed]

theorem checkSuperclass_of_unknown (hne : superclass ≠ .null) (hname : superclass.key? ≠ none)
    (hunknown : ∀ s, superclass = .str s → r.find? s = none) (name : String) :
    checkSuperclass r name superclass = .error
      (.image ("Unknown superclass '" ++ superclass.plain ++ "' for " ++ name)) := by
  unfold checkSuperclass
  split
  · exact absurd rfl hne
  · by_cases htext : ∃ s, superclass = .str s
    · obtain ⟨s, rfl⟩ := htext
      unfold Registry.named
      simp only [hunknown s rfl]
    · rw [named_of_noText fun s heq => htext ⟨s, heq⟩, if_neg hname]

/-- A superclass is found, or it is no name, or it is the name of no class. -/
theorem parent_or_unknown (r : Registry) (superclass : Json) :
    (∃ parent, r.parent superclass = .ok parent) ∨ superclass.key? = none ∨
      superclass ≠ .null ∧ superclass.key? ≠ none ∧
        ∀ s, superclass = .str s → r.find? s = none := by
  by_cases hnull : superclass = .null
  · subst hnull
    exact .inl ⟨none, rfl⟩
  · by_cases hname : superclass.key? = none
    · exact .inr (.inl hname)
    · by_cases hfound : ∃ s id, superclass = .str s ∧ r.find? s = some id
      · obtain ⟨s, id, rfl, hfind⟩ := hfound
        refine .inl ⟨some id, ?_⟩
        unfold Registry.parent Registry.named
        simp only [hfind]
        rfl
      · refine .inr (.inr ⟨hnull, hname, fun s heq => ?_⟩)
        cases hfind : r.find? s with
        | none => rfl
        | some id => exact absurd ⟨s, id, heq, hfind⟩ hfound

/-! #### Refused or opened -/

theorem classFor_of_refused (h : Refused m name fields f) :
    classFor name fields m = .error f m := by
  cases h with
  | instanceVariables id hextends hgiven => rw [classFor_of_extends hextends, if_pos hgiven]
  | noName superclass hdefines hsuperclass hname =>
      rw [classFor_of_defines hdefines, hsuperclass]
      refine bind_of_error ?_
      rw [Option.getD_some, checkSuperclass_of_noName hname]
      rfl
  | unknown superclass hdefines hsuperclass hne hname hunknown =>
      rw [classFor_of_defines hdefines, hsuperclass]
      refine bind_of_error ?_
      rw [Option.getD_some, checkSuperclass_of_unknown hne hname hunknown]
      rfl
  | noList parent declared hdefines hparent hdeclared hgiven hlist =>
      have hnames : Change.namesOf declared = .error (.notAList declared) :=
        Change.namesOf_error_iff.mpr ⟨hgiven, hlist, rfl⟩
      rw [classFor_of_defines hdefines, hdeclared, checkSuperclass_of_parent hparent]
      refine (bind_of_ok rfl).trans (bind_of_error ?_)
      exact Change.define_of_noList hparent hnames _ _

theorem classFor_of_opens (h : Opens m name fields id m') :
    classFor name fields m = .ok id m' := by
  cases h with
  | kept id hextends hnone =>
      rw [classFor_of_extends hextends, hnone]
      rfl
  | made parent declared hdefines hparent hdeclared =>
      rw [classFor_of_defines hdefines, checkSuperclass_of_parent hparent]
      refine (bind_of_ok rfl).trans ?_
      rw [bind_of_ok (Change.define_eq hparent hdeclared name _)]
      rfl

theorem refused_or_opens (m : Memory) (name : String) (fields : List (String × Json)) :
    (∃ f, Refused m name fields f) ∨ ∃ id m', Opens m name fields id m' := by
  rcases extends_or_defines m name fields with ⟨id, hextends⟩ | hdefines
  · cases hgiven : ((fields.lookup "instanceVariables").getD .null).truthy with
    | true => exact .inl ⟨_, .instanceVariables id hextends hgiven⟩
    | false => exact .inr ⟨id, _, .kept id hextends hgiven⟩
  · rcases parent_or_unknown m.registry ((fields.lookup "superclass").getD .null) with
      ⟨parent, hparent⟩ | hname | ⟨hne, hname, hunknown⟩
    · cases hdeclared : Change.namesOf ((fields.lookup "instanceVariables").getD (.arr [])) with
      | ok declared => exact .inr ⟨_, _, .made parent declared hdefines hparent hdeclared⟩
      | error e =>
          obtain ⟨hgiven, hlist, -⟩ := Change.namesOf_error_iff.mp hdeclared
          cases hvalue : fields.lookup "instanceVariables" with
          | none =>
              rw [hvalue] at hgiven
              cases hgiven
          | some declared =>
              rw [hvalue] at hgiven hlist
              exact .inl ⟨_, .noList parent declared hdefines hparent hvalue hgiven hlist⟩
    · cases hsuperclass : fields.lookup "superclass" with
      | none =>
          rw [hsuperclass] at hname
          cases hname
      | some superclass =>
          rw [hsuperclass, Option.getD_some] at hname
          exact .inl ⟨_, .noName superclass hdefines hsuperclass hname⟩
    · cases hsuperclass : fields.lookup "superclass" with
      | none =>
          rw [hsuperclass] at hne
          exact absurd rfl hne
      | some superclass =>
          rw [hsuperclass, Option.getD_some] at hne hname hunknown
          exact .inl ⟨_, .unknown superclass hdefines hsuperclass hne hname hunknown⟩

theorem classFor_ok_iff : classFor name fields m = .ok id m' ↔ Opens m name fields id m' := by
  refine ⟨fun h => ?_, classFor_of_opens⟩
  rcases refused_or_opens m name fields with ⟨f, hrefused⟩ | ⟨id', m₁, hopens⟩
  · cases (classFor_of_refused hrefused).symm.trans h
  · cases (classFor_of_opens hopens).symm.trans h
    exact hopens

theorem classFor_error_iff :
    classFor name fields m = .error f m' ↔ Refused m name fields f ∧ m' = m := by
  constructor
  · intro h
    rcases refused_or_opens m name fields with ⟨f', hrefused⟩ | ⟨id', m₁, hopens⟩
    · cases (classFor_of_refused hrefused).symm.trans h
      exact ⟨hrefused, rfl⟩
    · cases (classFor_of_opens hopens).symm.trans h
  · rintro ⟨hrefused, rfl⟩
    exact classFor_of_refused hrefused

/-! ### Definitions -/

/-- A definition that is loaded to its end: its class is there with the methods of both
sides. -/
inductive Loads (m : Memory) : Json → ClassId → Memory → Prop where
  | loaded (name : String) (fields : List (String × Json)) (id : ClassId) (m₁ m₂ m₃ : Memory)
      (hname : nameOf? (.obj fields) = some name) (hopens : Opens m name fields id m₁)
      (hinstance : Fills m₁ ⟨id, false⟩ (fields.lookup "methods") m₂)
      (hclass : Fills m₂ ⟨id, true⟩ (fields.lookup "classMethods") m₃) :
    Loads m (.obj fields) id m₃

/-- A definition that is not, why, and what it leaves. -/
inductive Halts (m : Memory) : Json → Fault → Memory → Prop where
  | nameless (definition : Json) (hname : nameOf? definition = none) :
    Halts m definition (.image ("Class definition without a name: " ++ definition.inspect)) m
  | refused (name : String) (fields : List (String × Json)) (f : Fault)
      (hname : nameOf? (.obj fields) = some name) (hrefused : Refused m name fields f) :
    Halts m (.obj fields) f m
  | instanceSide (name : String) (fields : List (String × Json)) (id : ClassId)
      (m₁ m₂ : Memory) (f : Fault) (hname : nameOf? (.obj fields) = some name)
      (hopens : Opens m name fields id m₁)
      (hinstance : Breaks m₁ name ⟨id, false⟩ (fields.lookup "methods") f m₂) :
    Halts m (.obj fields) f m₂
  | classSide (name : String) (fields : List (String × Json)) (id : ClassId)
      (m₁ m₂ m₃ : Memory) (f : Fault) (hname : nameOf? (.obj fields) = some name)
      (hopens : Opens m name fields id m₁)
      (hinstance : Fills m₁ ⟨id, false⟩ (fields.lookup "methods") m₂)
      (hclass : Breaks m₂ name ⟨id, true⟩ (fields.lookup "classMethods") f m₃) :
    Halts m (.obj fields) f m₃

variable {definition : Json}

theorem loadDefinition_of_nameless (h : nameOf? definition = none) :
    loadDefinition definition m
      = .error (.image ("Class definition without a name: " ++ definition.inspect)) m := by
  cases definition with
  | obj fields =>
      unfold nameOf? at h
      unfold loadDefinition
      cases hvalue : fields.lookup "name" with
      | none =>
          simp only [hvalue]
          rfl
      | some value =>
          cases value with
          | str name => simp only [hvalue, reduceCtorEq] at h
          | _ =>
              simp only [hvalue]
              rfl
  | _ => rfl

theorem loadDefinition_of_name (h : nameOf? (.obj fields) = some name) :
    loadDefinition (.obj fields)
      = (classFor name fields >>= fun id =>
          loadSide name ⟨id, false⟩ (fields.lookup "methods") >>= fun _ =>
          loadSide name ⟨id, true⟩ (fields.lookup "classMethods") >>= fun _ =>
          pure id) := by
  unfold nameOf? at h
  unfold loadDefinition
  cases hvalue : fields.lookup "name" with
  | none => simp only [hvalue, reduceCtorEq] at h
  | some value =>
      cases value with
      | str name' =>
          simp only [hvalue, Option.some.injEq] at h
          simp only [hvalue, h]
      | _ => simp only [hvalue, reduceCtorEq] at h

theorem loadDefinition_ok_iff :
    loadDefinition definition m = .ok id m' ↔ Loads m definition id m' := by
  constructor
  · intro h
    obtain ⟨fields, name, rfl, hname, hparts⟩ := of_loadDefinition h
    obtain ⟨id', m₁, hclass, hsides⟩ := of_bind_ok hparts
    obtain ⟨_, m₂, hinstance, hrest⟩ := of_bind_ok hsides
    obtain ⟨_, m₃, hmeta, hpure⟩ := of_bind_ok hrest
    cases hpure
    exact .loaded name fields id m₁ m₂ m' hname (classFor_ok_iff.mp hclass)
      (loadSide_ok_iff.mp hinstance) (loadSide_ok_iff.mp hmeta)
  · rintro ⟨name, fields, id, m₁, m₂, m₃, hname, hopens, hinstance, hclass⟩
    rw [loadDefinition_of_name hname, bind_of_ok (classFor_of_opens hopens),
      bind_of_ok (loadSide_of_fills hinstance name), bind_of_ok (loadSide_of_fills hclass name)]
    rfl

theorem loadDefinition_error_iff :
    loadDefinition definition m = .error f m' ↔ Halts m definition f m' := by
  constructor
  · intro h
    cases hname : nameOf? definition with
    | none =>
        cases (loadDefinition_of_nameless hname).symm.trans h
        exact .nameless definition hname
    | some name =>
        cases definition with
        | obj fields =>
            rw [loadDefinition_of_name hname] at h
            rcases bind_error_iff.mp h with h | ⟨id, m₁, hopens, h⟩
            · obtain ⟨hrefused, rfl⟩ := classFor_error_iff.mp h
              exact .refused name fields f hname hrefused
            · rw [classFor_ok_iff] at hopens
              rcases bind_error_iff.mp h with h | ⟨_, m₂, hinstance, h⟩
              · exact .instanceSide name fields id m₁ m' f hname hopens (loadSide_error_iff.mp h)
              · rw [loadSide_ok_iff] at hinstance
                rcases bind_error_iff.mp h with h | ⟨_, m₃, -, h⟩
                · exact .classSide name fields id m₁ m₂ m' f hname hopens hinstance
                    (loadSide_error_iff.mp h)
                · -- nothing fails after both sides have been loaded
                  cases h
        | _ => cases hname
  · intro h
    cases h with
    | nameless definition hname => exact loadDefinition_of_nameless hname
    | refused name fields f hname hrefused =>
        rw [loadDefinition_of_name hname]
        exact bind_of_error (classFor_of_refused hrefused)
    | instanceSide name fields id m₁ m₂ f hname hopens hinstance =>
        rw [loadDefinition_of_name hname, bind_of_ok (classFor_of_opens hopens)]
        exact bind_of_error (loadSide_of_breaks hinstance)
    | classSide name fields id m₁ m₂ m₃ f hname hopens hinstance hclass =>
        rw [loadDefinition_of_name hname, bind_of_ok (classFor_of_opens hopens),
          bind_of_ok (loadSide_of_fills hinstance name)]
        exact bind_of_error (loadSide_of_breaks hclass)

/-! ### Images -/

/-- Loading goes definition by definition, so an image can be cut in two. It fails where one
of its definitions fails, and what is there then is what the definitions before that one have
made, with whatever it had done itself; the definitions behind it do not matter. -/
theorem loading_stops_where_it_fails (m : Memory) :
    (∀ front back, load (.arr (front ++ back)) m
      = (load (.arr front) >>= fun ids => load (.arr back) >>= fun ids' => pure (ids ++ ids')) m) ∧
    ∀ definitions f m', load (.arr definitions) m = .error f m' ↔
      ∃ done definition rest ids m₁, definitions = done ++ definition :: rest ∧
        load (.arr done) m = .ok ids m₁ ∧ Halts m₁ definition f m' := by
  refine ⟨fun front back => congrFun List.mapM_append m, fun definitions f m' => ?_⟩
  unfold load
  rw [mapM_error_iff]
  simp only [loadDefinition_error_iff]

/-- The class side is bad here, and the instance side is filed. -/
example :
    let m := left (load (.arr [.obj [("name", .str "Pair"),
      ("methods", .obj [("me", (Node.method (.str "me") [] [] [.self] .null).toJson)]),
      ("classMethods", .arr [])]]) {})
    m.registry.find? "Pair" = some 0 ∧
      ((m.registry.table ⟨0, false⟩).methods.find? (.text "me")).isSome := by
  decide +kernel

end Image

end Smalltalk
