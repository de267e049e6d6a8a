import Smalltalk.Proofs.Dispatch
import Smalltalk.Proofs.Loading

/-!
# `Smalltalk.Proofs.Extension`: what other classes notice of a definition

A definition that extends a class changes methods only: those that it lists, in the
class that it names. Look-up from another class notices that where its chain comes to
this class first (`Registry.exists_of_lookup?_ne`), and nowhere else.

A definition that makes a class, even under a name that is known, changes nothing for the
classes that are there. Their lines hold older classes only, with one exception: the line
of a metaclass goes on to what is registered as `Class`. So the name must be another one
(`Registry.Ordered.lookup?_define`).

`extending_and_redefining` collects both for every memory that a system can come to, also
where the definition fails midway.
-/

set_option autoImplicit false

namespace Smalltalk

variable {m m' m'' : Memory}

/-! ### Filing -/

/-- Filing methods leaves alone what is there under other selectors. -/
theorem MethodTable.find?_fileAll {t : MethodTable} {methods : List Method} {key : Key}
    (h : ∀ method ∈ methods, method.selector.key? ≠ some key) :
    (t.fileAll methods).methods.find? key = t.methods.find? key := by
  induction methods generalizing t with
  | nil => rfl
  | cons method rest ih =>
      show ((t.file method).fileAll rest).methods.find? key = _
      rw [ih fun other hother => h other (List.mem_cons_of_mem _ hother)]
      have hmethod := h method List.mem_cons_self
      unfold file
      split
      · rename_i s hs
        rw [hs] at hmethod
        simp only [install, Dictionary.find?_put]
        rw [if_neg fun heq => hmethod (congrArg some heq.symm)]
        unfold addProtocol
        split <;> rfl
      · rfl

/-- Methods that are given sites are otherwise the same. -/
theorem Method.exists_of_mem_listWithSites {next : Nat} {methods : List Method} {placed : Method}
    (h : placed ∈ (Method.listWithSites next methods).1) :
    ∃ method ∈ methods, placed.selector = method.selector := by
  induction methods generalizing next with
  | nil => exact absurd h List.not_mem_nil
  | cons method rest ih =>
      rcases List.mem_cons.mp h with rfl | h
      · exact ⟨method, List.mem_cons_self, rfl⟩
      · obtain ⟨other, hmem, hselector⟩ := ih h
        exact ⟨other, List.mem_cons_of_mem _ hmem, hselector⟩

/-! ### Look-up in two registries -/

/-- Two searches that end differently part at some entry, and none before it has anything. -/
theorem exists_of_findSome?_ne {α β : Type} {f f' : α → Option β} {xs : List α}
    (h : xs.findSome? f' ≠ xs.findSome? f) :
    ∃ below x above, xs = below ++ x :: above ∧ f' x ≠ f x ∧
      ∀ y ∈ below, f y = none ∧ f' y = none := by
  induction xs with
  | nil => exact absurd rfl h
  | cons x xs ih =>
      by_cases hx : f' x = f x
      · cases hf : f x with
        | some b =>
            rw [List.findSome?_cons, List.findSome?_cons, hx, hf] at h
            exact absurd rfl h
        | none =>
            rw [List.findSome?_cons, List.findSome?_cons, hx, hf] at h
            obtain ⟨below, x', above, rfl, hne, hbelow⟩ := ih h
            refine ⟨x :: below, x', above, rfl, hne, fun y hy => ?_⟩
            rcases List.mem_cons.mp hy with rfl | hy
            · exact ⟨hf, hx.trans hf⟩
            · exact hbelow y hy
      · exact ⟨[], x, xs, rfl, hx, fun y hy => absurd hy List.not_mem_nil⟩

namespace Registry

variable {r r' r'' : Registry}

/-- A registry in which one class has other methods under some selectors of either side, and
nothing else is different. -/
structure Extended (r r' : Registry) (id : ClassId) (listed : Bool → List String) : Prop where
  size : r'.classes.size = r.classes.size
  names : r'.names = r.names
  head : ∀ i, r'.head i = r.head i
  unlisted : ∀ b key, ¬ (b.id = id ∧ ∃ s ∈ listed b.isMeta, key = .text s) →
    (r'.table b).methods.find? key = (r.table b).methods.find? key

namespace Extended

variable {id : ClassId} {listed : Bool → List String}

theorem refl (r : Registry) (id : ClassId) (listed : Bool → List String) :
    r.Extended r id listed :=
  ⟨rfl, rfl, fun _ => rfl, fun _ _ _ => rfl⟩

theorem trans (h : r.Extended r' id listed) (h' : r'.Extended r'' id listed) :
    r.Extended r'' id listed where
  size := h'.size.trans h.size
  names := h'.names.trans h.names
  head i := (h'.head i).trans (h.head i)
  unlisted b key hkey := (h'.unlisted b key hkey).trans (h.unlisted b key hkey)

theorem lineage (h : r.Extended r' id listed) (i : ClassId) : r'.lineage i = r.lineage i :=
  congrArg (i :: ·) (congrArg (·.2.1) (h.head i))

/-- Look-up goes the same way. -/
theorem line (h : r.Extended r' id listed) (b : Behavior) : r'.line b = r.line b := by
  unfold Registry.line Registry.classLine Registry.find?
  rw [h.lineage, h.names]
  cases r.names.lookup "Class" with
  | none => rfl
  | some c => simp only [h.lineage]

/-- A look-up with another answer is one for a listed selector, and comes to the class before
any that has this selector. -/
theorem exists_of_lookup?_ne (h : r.Extended r' id listed) {key : Key} {b : Behavior}
    (hne : r'.lookup? key b ≠ r.lookup? key b) :
    ∃ side s below above, key = .text s ∧ s ∈ listed side ∧
      r.line b = below ++ ⟨id, side⟩ :: above ∧
      ∀ c ∈ below, (r.table c).methods.find? key = none ∧
        (r'.table c).methods.find? key = none := by
  unfold lookup? at hne
  rw [h.line] at hne
  obtain ⟨below, c, above, hline, hc, hbelow⟩ := exists_of_findSome?_ne hne
  -- only the extended class has anything else under a selector
  obtain ⟨rfl, s, hs, rfl⟩ : c.id = id ∧ ∃ s ∈ listed c.isMeta, key = .text s := by
    by_contra hnot
    exact hc (h.unlisted c key hnot)
  exact ⟨c.isMeta, s, below, above, rfl, hs, hline, hbelow⟩

end Extended

/-! ### A new class -/

/-- Look-up meets only classes that are there. -/
theorem Ordered.lt_of_mem_line (o : r.Ordered) {b c : Behavior} (hb : b.id < r.classes.size)
    (hc : c ∈ r.line b) : c.id < r.classes.size := by
  have hlineage : ∀ id < r.classes.size, ∀ side, ∀ c ∈ (r.lineage id).map (Behavior.mk · side),
      c.id < r.classes.size := by
    intro id hid side c hc
    obtain ⟨i, hi, rfl⟩ := List.mem_map.mp hc
    exact Nat.lt_of_le_of_lt (o.le_of_mem_lineage hi) hid
  unfold line classLine at hc
  split at hc
  · rcases List.mem_append.mp hc with hc | hc
    · exact hlineage b.id hb true c hc
    · split at hc
      · rename_i id hclass
        exact hlineage id (o.registered _ id hclass) false c hc
      · exact absurd hc List.not_mem_nil
  · exact hlineage b.id hb false c hc

/-- What is looked up from a class that is there is found as before, when a class is defined
under any name but `Class`. -/
theorem Ordered.lookup?_define (o : r.Ordered) {name : String} (hname : name ≠ "Class")
    (parent : Option ClassId) (declared : List Json) (indexable : Json) (key : Key)
    {b : Behavior} (hb : b.id < r.classes.size) :
    (r.define name parent declared indexable).1.lookup? key b = r.lookup? key b := by
  have hgrows := Grows.define r name parent declared indexable
  have hclass : (r.define name parent declared indexable).1.find? "Class" = r.find? "Class" := by
    rw [find?_define, if_neg hname.symm]
  have hline : (r.define name parent declared indexable).1.line b = r.line b := by
    unfold line classLine
    rw [hgrows.lineage hb, hclass]
    cases hfound : r.find? "Class" with
    | none => rfl
    | some c => simp only [hgrows.lineage (o.registered _ c hfound)]
  unfold lookup?
  rw [hline]
  by_contra hne
  obtain ⟨below, c, above, hsplit, hc, -⟩ := exists_of_findSome?_ne hne
  -- only the new class has another table, and it is on no line of those before it
  have hmem : c ∈ r.line b := hsplit ▸ List.mem_append_right below List.mem_cons_self
  rw [table_define, if_neg (Nat.ne_of_lt (o.lt_of_mem_line hb hmem))] at hc
  exact hc rfl

end Registry

/-! ### Definitions that extend a class -/

/-- The selectors that a definition lists for one side. -/
def Image.listed (fields : List (String × Json)) (side : Bool) : List String :=
  match fields.lookup (if side then "classMethods" else "methods") with
  | some (.obj methods) => methods.map Prod.fst
  | _ => []

namespace Memory

variable {id : ClassId} {listed : Bool → List String}

/-- A memory whose classes have been extended, and whose globals are the same. -/
structure Extended (m m' : Memory) (id : ClassId) (listed : Bool → List String) : Prop where
  registry : m.registry.Extended m'.registry id listed
  globals : m'.globals = m.globals

theorem Extended.refl (m : Memory) (id : ClassId) (listed : Bool → List String) :
    m.Extended m id listed :=
  ⟨.refl _ _ _, rfl⟩

theorem Extended.trans (h : m.Extended m' id listed) (h' : m'.Extended m'' id listed) :
    m.Extended m'' id listed :=
  ⟨h.registry.trans h'.registry, h'.globals.trans h.globals⟩

theorem extended_note (m : Memory) (line : String) (id : ClassId)
    (listed : Bool → List String) : m.Extended (m.note line) id listed := by
  unfold note
  split
  · exact ⟨.refl _ _ _, rfl⟩
  · exact .refl _ _ _

/-- Filing methods extends a class by their selectors. -/
theorem extended_filed (m : Memory) {owner : Behavior} {methods : List Method} (texts : Nat)
    (h : ∀ method ∈ methods, ∃ s ∈ listed owner.isMeta, method.selector = .str s) :
    m.Extended (m.filed owner methods texts) owner.id listed := by
  refine ⟨⟨Registry.size_updateTable .., rfl, Registry.head_updateTable _ _ _, ?_⟩, rfl⟩
  intro b key hkey
  show ((m.registry.updateTable owner _).table b).methods.find? key = _
  rw [Registry.table_updateTable]
  split
  · rename_i hb
    obtain ⟨rfl, -⟩ := hb
    refine MethodTable.find?_fileAll fun method hmem heq => hkey ⟨rfl, ?_⟩
    obtain ⟨s, hs, hselector⟩ := h method hmem
    rw [hselector] at heq
    exact ⟨s, hs, (Option.some.inj heq).symm⟩
  · rfl

theorem extended_file (m : Memory) {owner : Behavior} {methods : List Method}
    (h : ∀ method ∈ methods, ∃ s ∈ listed owner.isMeta, method.selector = .str s) :
    m.Extended (m.file owner methods) owner.id listed := by
  refine m.extended_filed _ fun placed hplaced => ?_
  obtain ⟨method, hmem, hselector⟩ := Method.exists_of_mem_listWithSites hplaced
  rw [hselector]
  exact h method hmem

end Memory

namespace Image

variable {name : String} {fields : List (String × Json)} {id : ClassId} {owner : Behavior}
  {className : String} {f : Fault}

/-- What can be read of some fields are methods of their names. -/
theorem selector_of_reads {good : List (String × Json)} {methods : List Method}
    (h : List.Forall₂ (Reads owner) good methods) :
    ∀ method ∈ methods, ∃ s ∈ good.map Prod.fst, method.selector = .str s := by
  induction h with
  | nil => exact fun _ hmem => absurd hmem List.not_mem_nil
  | @cons field first _ _ hread _ ih =>
      intro method hmem
      rcases List.mem_cons.mp hmem with rfl | hmem
      · exact ⟨field.1, List.mem_cons_self, hread.selector_eq⟩
      · obtain ⟨s, hs, hselector⟩ := ih method hmem
        exact ⟨s, List.mem_cons_of_mem _ hs, hselector⟩

theorem Fills.extended
    (h : Fills m owner (fields.lookup (if owner.isMeta then "classMethods" else "methods")) m') :
    m.Extended m' owner.id (listed fields) := by
  generalize hside : fields.lookup _ = side at h
  cases h with
  | absent => exact .refl _ _ _
  | filled good methods hall =>
      refine m.extended_file fun method hmem => ?_
      unfold listed
      rw [hside]
      exact selector_of_reads hall method hmem

theorem Breaks.extended
    (h : Breaks m className owner
      (fields.lookup (if owner.isMeta then "classMethods" else "methods")) f m') :
    m.Extended m' owner.id (listed fields) := by
  generalize hside : fields.lookup _ = side at h
  cases h with
  | noDictionary => exact .refl _ _ _
  | badField good bad rest methods f hgood hbad =>
      refine m.extended_file fun method hmem => ?_
      obtain ⟨s, hs, hselector⟩ := selector_of_reads hgood method hmem
      unfold listed
      rw [hside]
      refine ⟨s, ?_, hselector⟩
      show s ∈ (good ++ bad :: rest).map Prod.fst
      rw [List.map_append]
      exact List.mem_append_left _ hs

/-- A definition that extends a class keeps it. -/
theorem Opens.of_extends {id' : ClassId} (h : Opens m name fields id' m')
    (hextends : Extends m name fields id) :
    id' = id ∧ m' = m.note ("treetalk.image: extending " ++ name) := by
  cases h with
  | kept _ hextends' _ => exact ⟨Option.some.inj (hextends'.1.symm.trans hextends.1), rfl⟩
  | made parent declared hdefines _ _ =>
      rcases hdefines with hfree | hsuperclass
      · cases hfree.symm.trans hextends.1
      · exact absurd hextends.2 hsuperclass

/-- However it ends, a definition that extends a class changes no more than the methods that
it lists. -/
theorem loadDefinition_extended (hname : nameOf? (.obj fields) = some name)
    (hextends : Extends m name fields id) :
    m.Extended (left (loadDefinition (.obj fields) m)) id (listed fields) := by
  have hopened : ∀ id' m₁, Opens m name fields id' m₁ →
      id' = id ∧ m.Extended m₁ id (listed fields) := by
    intro id' m₁ hopens
    obtain ⟨rfl, rfl⟩ := hopens.of_extends hextends
    exact ⟨rfl, m.extended_note _ _ _⟩
  cases hload : loadDefinition (.obj fields) m with
  | ok id' m' =>
      cases loadDefinition_ok_iff.mp hload with
      | loaded name' _ _ m₁ m₂ _ hname' hopens hinstance hclass =>
          cases hname'.symm.trans hname
          obtain ⟨rfl, hkept⟩ := hopened id' m₁ hopens
          exact (hkept.trans hinstance.extended).trans hclass.extended
  | error f m' =>
      cases loadDefinition_error_iff.mp hload with
      | nameless _ hnone => cases hnone.symm.trans hname
      | refused => exact .refl _ _ _
      | instanceSide name' _ id' m₁ _ _ hname' hopens hinstance =>
          cases hname'.symm.trans hname
          obtain ⟨rfl, hkept⟩ := hopened id' m₁ hopens
          exact hkept.trans hinstance.extended
      | classSide name' _ id' m₁ m₂ _ _ hname' hopens hinstance hclass =>
          cases hname'.symm.trans hname
          obtain ⟨rfl, hkept⟩ := hopened id' m₁ hopens
          exact (hkept.trans hinstance.extended).trans hclass.extended

end Image

/-! ### Definitions that make a class -/

/-- What a definition under a name leaves alone: all that is looked up from the classes that
are there, what their instances hold, and to which class a value belongs. -/
structure Memory.Undisturbed (m m' : Memory) (name : Json) : Prop where
  lookUp : ∀ b key, b.id < m.registry.classes.size →
    m'.registry.lookup? key b = m.registry.lookup? key b
  layout : ∀ b, b.id < m.registry.classes.size → m'.registry.layout b = m.registry.layout b
  /-- Only of values from outside does the name of a class say where they belong. -/
  classOf : ∀ v, (∀ s, v.kernelClass? = some s → name ≠ .str s) → m'.classOf? v = m.classOf? v

namespace Memory

theorem Undisturbed.refl (m : Memory) (name : Json) : m.Undisturbed m name :=
  ⟨fun _ _ _ => rfl, fun _ _ => rfl, fun _ _ => rfl⟩

theorem undisturbed_defined (o : m.registry.Ordered) {name : String} (hname : name ≠ "Class")
    (parent : Option ClassId) (declared : List Json) (indexable : Json) :
    m.Undisturbed (m.defined name parent declared indexable) (.str name) := by
  have hfind : ∀ other, other ≠ name →
      (m.defined name parent declared indexable).registry.find? other
        = m.registry.find? other := by
    intro other hne
    exact (Registry.find?_define ..).trans (if_neg hne)
  refine ⟨fun b key hb => o.lookup?_define hname parent declared indexable key hb,
    fun b hb => (Registry.Grows.define ..).layout o hb b.isMeta, fun v hv => ?_⟩
  have hkernel : ∀ s, v.kernelClass? = some s → s ≠ name :=
    fun s hs heq => hv s hs (heq ▸ rfl)
  have hnamed : ∀ kernelClass : Option String, (∀ s, kernelClass = some s → s ≠ name) →
      (kernelClass.bind fun s => ((m.defined name parent declared indexable).registry.find? s).map
          fun id => (⟨id, false⟩ : Behavior))
        = kernelClass.bind fun s => (m.registry.find? s).map fun id => ⟨id, false⟩ := by
    rintro (_ | s) hs
    · rfl
    · rw [Option.bind_some, Option.bind_some, hfind s (hs s rfl)]
  cases v with
  | object o => rfl
  | behavior b =>
      unfold classOf?
      rw [hfind "Class" hname.symm]
  | _ => exact hnamed _ hkernel

end Memory

namespace Change

variable {name superclass instanceVariables indexable : Json}

/-- A definition that fails has done nothing. -/
theorem eq_of_define_error {f : Fault}
    (h : define name superclass instanceVariables indexable m = .error f m') : m' = m := by
  have hchecked : ∀ {α : Type} {e : Except Fault α} {m₁ m₂ : Memory},
      ofExcept e m₁ = .error f m₂ → m₂ = m₁ := by
    intro α e m₁ m₂ he
    cases e with
    | ok a => cases he
    | error f' =>
        cases he
        rfl
  unfold define at h
  rcases bind_error_iff.mp h with h | ⟨_, _, hget, h⟩
  · cases h
  · cases hget
    rcases bind_error_iff.mp h with h | ⟨parent, m₁, hparent, h⟩
    · exact hchecked h
    · obtain ⟨-, rfl⟩ := of_ofExcept hparent
      rcases bind_error_iff.mp h with h | ⟨declared, m₂, hdeclared, h⟩
      · exact hchecked h
      · obtain ⟨-, rfl⟩ := of_ofExcept hdeclared
        split at h
        · cases h
        · cases h
          rfl

/-- Only a text can be the name of a class that is defined. -/
theorem text_of_define {id : ClassId}
    (h : define name superclass instanceVariables indexable m = .ok id m') :
    ∃ s, name = .str s := by
  unfold define at h
  obtain ⟨_, _, -, h⟩ := of_bind_ok h
  obtain ⟨_, _, -, h⟩ := of_bind_ok h
  obtain ⟨_, _, -, h⟩ := of_bind_ok h
  split at h
  · exact ⟨_, rfl⟩
  · cases h

/-- However it ends, a definition under another name than `Class` disturbs no class that is
there. -/
theorem undisturbed_define (o : m.registry.Ordered) (hname : name ≠ .str "Class")
    (superclass instanceVariables indexable : Json) :
    m.Undisturbed (left (define name superclass instanceVariables indexable m)) name := by
  cases hdefine : define name superclass instanceVariables indexable m with
  | ok id m' =>
      obtain ⟨s, rfl⟩ := text_of_define hdefine
      obtain ⟨parent, declared, -, -, rfl⟩ := of_define hdefine
      exact Memory.undisturbed_defined o (fun heq => hname (heq ▸ rfl)) parent declared _
  | error f m' =>
      obtain rfl := eq_of_define_error hdefine
      exact .refl _ _

end Change

/-! ### The result -/

/-- What a definition that extends a class leaves alone: every class as it was defined, the
names, the globals, and every method that it does not list. A look-up that it changes is one
for a selector that it lists, from a class whose chain comes to the extended one, on the side
that lists the selector, before any other class that has it. -/
structure Memory.OnlyExtends (m m' : Memory) (id : ClassId) (listed : Bool → List String) :
    Prop where
  classes : m'.registry.classes.size = m.registry.classes.size
  names : m'.registry.names = m.registry.names
  /-- Its name, its superclasses, its instance variables and whether it is indexable. -/
  head : ∀ i, m'.registry.head i = m.registry.head i
  globals : m'.globals = m.globals
  unlisted : ∀ b key, ¬ (b.id = id ∧ ∃ s ∈ listed b.isMeta, key = .text s) →
    (m'.registry.table b).methods.find? key = (m.registry.table b).methods.find? key
  lookUp : ∀ b key, m'.registry.lookup? key b ≠ m.registry.lookup? key b →
    ∃ side s below above, key = .text s ∧ s ∈ listed side ∧
      m.registry.Ascends b (below ++ ⟨id, side⟩ :: above) ∧
      ∀ c ∈ below, (m.registry.table c).methods.find? key = none ∧
        (m'.registry.table c).methods.find? key = none

/-- Whatever a system has come to, a definition that extends a class only extends it, and one
that makes a class, even in the place of another, disturbs none that is there. -/
theorem extending_and_redefining (h : Kernel.memory.LeadsTo m) :
    (∀ fields name id, Image.nameOf? (.obj fields) = some name → Image.Extends m name fields id →
      m.OnlyExtends (left (Image.loadDefinition (.obj fields) m)) id (Image.listed fields)) ∧
    ∀ name superclass instanceVariables indexable, name ≠ .str "Class" →
      m.Undisturbed (left (Change.define name superclass instanceVariables indexable m)) name := by
  obtain ⟨k, -⟩ := h.kept
  refine ⟨fun fields name id hname hextends => ?_, fun name superclass declared indexable hname =>
    Change.undisturbed_define k.ordered hname superclass declared indexable⟩
  obtain ⟨hregistry, hglobals⟩ := Image.loadDefinition_extended hname hextends
  refine ⟨hregistry.size, hregistry.names, hregistry.head, hglobals, hregistry.unlisted,
    fun b key hne => ?_⟩
  obtain ⟨side, s, below, above, hkey, hs, hline, hbelow⟩ := hregistry.exists_of_lookup?_ne hne
  exact ⟨side, s, below, above, hkey, hs, hline ▸ k.ordered.ascends b, hbelow⟩

/-- A method for `Object` that answers a word. -/
def wordForObject : List (String × Json) :=
  [("name", .str "Object"), ("methods", .obj [("word", (Node.method (.str "word") [] []
    [.answer (.literal (.text "object" 0))] .null).toJson)])]

/-- `Object` is extended, and every class understands the message. Then it is defined again,
and `Array` has stayed below the one that was extended. -/
theorem extended_and_replaced_object :
    Kernel.memory.OnlyExtends (left (Image.loadDefinition (.obj wordForObject) Kernel.memory)) 0
      (Image.listed wordForObject) ∧
    ∃ m : Memory, m.Undisturbed (left (Change.define (.str "Object") .null .null .null m))
        (.str "Object") ∧
      (left (Change.define (.str "Object") .null .null .null m)).registry.find? "Object" = some 15 ∧
      ((left (Change.define (.str "Object") .null .null .null m)).registry.lookup?
        (.text "word") ⟨11, false⟩).isSome := by
  have h : Kernel.memory.LeadsTo (Command.run Kernel.memory (.load (.arr [.obj wordForObject]))) :=
    .command .refl _
  exact ⟨(extending_and_redefining .refl).1 wordForObject "Object" 0 rfl ⟨by decide +kernel, rfl⟩,
    _, (extending_and_redefining h).2 (.str "Object") .null .null .null (by simp),
    by decide +kernel, by decide +kernel⟩

end Smalltalk
