import Smalltalk.Evaluation
import Smalltalk.Kernel
import Smalltalk.Proofs.Primitive

/-!
# `Smalltalk.Proofs.Equipped`: the kernel methods in place

A system is equipped (`Memory.Equipped`) when it knows all primitives under their numbers,
and when an instance of a kernel class understands whatever the kernel gives it by the
kernel's method. `Kernel.tree?` is that method: the first along the line of the class. Where
in the classes of the system the method is found does not matter, nor what else there is.
The text literals of a method are objects of the system, so their identity is left open
(`Registry.Understands`).

`Memory.Equipped.understands` finds the class of a value, and `Registry.Understands.method`
the method with all its parts.

`Kernel.memory_equipped` is computed: the trees that are installed are compared with the
trees of the kernel.
-/

set_option autoImplicit false

namespace Smalltalk

/-! ### What the kernel gives -/

namespace Kernel

/-- Every kernel class with its line: its own name and those of its ancestors, nearest
first. -/
def lines : List (String × List String) :=
  classes.foldl (fun known c =>
    let above :=
      match c.superclass with
      | some name => (known.lookup name).getD []
      | none => []
    known ++ [(c.name, c.name :: above)]) []

/-- The selector of a method of the kernel. -/
def selector? : Node → Option String
  | .method (.str s) _ _ _ _ => some s
  | _ => none

/-- What the kernel gives to the instances of a class: its own methods and, behind them,
those of its ancestors. -/
def trees (className : String) : List Node :=
  ((lines.lookup className).getD []).flatMap fun name => (methods.lookup name).getD []

/-- The method that an instance of a kernel class has for a selector. -/
def tree? (className selector : String) : Option Node :=
  (trees className).find? fun node => selector? node == some selector

end Kernel

/-- A class has this method for a selector, whatever objects its text literals are. -/
def Registry.Understands (r : Registry) (b : Behavior) (selector : String) (node : Node) :
    Prop :=
  ∃ method next, r.lookup? (.text selector) b = some method ∧
    method.toNode = (node.withSites next).1

/-- The system knows all primitives, and instances of kernel classes have the methods of the
kernel. -/
structure Memory.Equipped (settings : Settings) (m : Memory) : Prop where
  primitive : ∀ p ∈ Primitive.numbered, settings.primitives.find? (.number p.1) = some p.2
  method : ∀ c ∈ Kernel.classes, ∃ id, m.registry.find? c.name = some id ∧
    ∀ selector node, Kernel.tree? c.name selector = some node →
      m.registry.Understands ⟨id, false⟩ selector node

/-- Only the classes matter. -/
theorem Memory.Equipped.of_registry {settings : Settings} {m m' : Memory}
    (h : m.Equipped settings) (hregistry : m'.registry = m.registry) : m'.Equipped settings where
  primitive := h.primitive
  method := by
    rw [hregistry]
    exact h.method

theorem Kernel.mem_classes_of_kernelClass? {v : Value} {className : String}
    (hv : v.kernelClass? = some className) : ∃ c ∈ classes, c.name = className := by
  cases v with
  | object | behavior | foreign => cases hv
  | bool b =>
      cases b <;>
      · obtain rfl := Option.some.inj hv
        decide
  | _ =>
      obtain rfl := Option.some.inj hv
      decide

/-- A value of a kernel class understands what the kernel gives to the class. -/
theorem Memory.Equipped.understands {settings : Settings} {m : Memory} (h : m.Equipped settings)
    {v : Value} {className selector : String} (hv : v.kernelClass? = some className) {node : Node}
    (hnode : Kernel.tree? className selector = some node) :
    ∃ cls, m.classOf? v = some cls ∧ m.registry.Understands cls selector node := by
  obtain ⟨c, hc, rfl⟩ := Kernel.mem_classes_of_kernelClass? hv
  obtain ⟨id, hid, hmethods⟩ := h.method c hc
  refine ⟨⟨id, false⟩, ?_, hmethods selector node hnode⟩
  rw [classOf?_of_kernelClass? hv, hid]
  rfl

/-- The method with all its parts. -/
theorem Registry.Understands.method {r : Registry} {cls : Behavior} {selector : String}
    {name : Json} {params temps : List Json} {statements : List Node} {primitive : Json}
    (h : r.Understands cls selector (.method name params temps statements primitive)) :
    ∃ owner next, r.lookup? (.text selector) cls
      = some ⟨name, params, temps, (Node.listWithSites next statements).1, primitive, owner⟩ := by
  obtain ⟨method, next, hmethod, htree⟩ := h
  refine ⟨method.owner, next, ?_⟩
  rw [hmethod]
  injection htree with hname hparams htemps hstatements hprimitive
  rw [← hname, ← hparams, ← htemps, ← hstatements, ← hprimitive]

/-! ### Comparing trees -/

/-- Whether two names are the same text, or both are absent. -/
def Json.sameWord : Json → Json → Bool
  | .str s, .str t => s == t
  | .int i, .int j => i == j
  | .null, .null => true
  | _, _ => false

/-- Whether two lists of names are the same texts. -/
def Json.sameWords : List Json → List Json → Bool
  | [], [] => true
  | j :: js, k :: ks => j.sameWord k && sameWords js ks
  | _, _ => false

/-- Whether two literals are the same, floats left out. -/
def Literal.same : Literal → Literal → Bool
  | .nil, .nil => true
  | .bool b, .bool c => b == c
  | .int i, .int j => i == j
  | .text s n, .text t k => s == t && n == k
  | _, _ => false

mutual
/-- Whether two trees are the same, for the sorts of trees that the kernel is made of. -/
def Node.same : Node → Node → Bool
  | .self, .self => true
  | .reference name kind index, .reference name' kind' index' =>
    name.sameWord name' && decide (kind = kind') && index.sameWord index'
  | .literal value, .literal value' => value.same value'
  | .block params temps statements, .block params' temps' statements' =>
    Json.sameWords params params' && Json.sameWords temps temps' &&
      listSame statements statements'
  | .send receiver selector args, .send receiver' selector' args' =>
    receiver.same receiver' && selector.sameWord selector' && listSame args args'
  | .assign name kind index value, .assign name' kind' index' value' =>
    name.sameWord name' && decide (kind = kind') && index.sameWord index' && value.same value'
  | .answer value, .answer value' => value.same value'
  | .method selector params temps statements primitive,
    .method selector' params' temps' statements' primitive' =>
    selector.sameWord selector' && Json.sameWords params params' &&
      Json.sameWords temps temps' && listSame statements statements' &&
      primitive.sameWord primitive'
  | _, _ => false

/-- `Node.same`, tree by tree. -/
def Node.listSame : List Node → List Node → Bool
  | [], [] => true
  | n :: ns, k :: ks => n.same k && listSame ns ks
  | _, _ => false
end

theorem Json.eq_of_sameWord {j k : Json} (h : j.sameWord k = true) : j = k := by
  unfold sameWord at h
  split at h
  · rw [eq_of_beq h]
  · rw [eq_of_beq h]
  · rfl
  · cases h

theorem Json.eq_of_sameWords : (js ks : List Json) → sameWords js ks = true → js = ks
  | [], [], _ => rfl
  | j :: js, k :: ks, h => by
      obtain ⟨hj, hjs⟩ := Bool.and_eq_true_iff.mp h
      rw [eq_of_sameWord hj, eq_of_sameWords js ks hjs]
  | [], _ :: _, h => nomatch h
  | _ :: _, [], h => nomatch h

theorem Literal.eq_of_same {a b : Literal} (h : a.same b = true) : a = b := by
  unfold same at h
  split at h
  · rfl
  · rw [eq_of_beq h]
  · rw [eq_of_beq h]
  · obtain ⟨hs, hn⟩ := Bool.and_eq_true_iff.mp h
    rw [eq_of_beq hs, eq_of_beq hn]
  · cases h

mutual
/-- Trees that compare as the same are the same. -/
theorem Node.eq_of_same (a b : Node) (h : a.same b = true) : a = b := by
  unfold Node.same at h
  split at h
  · rfl
  · simp only [Bool.and_eq_true, decide_eq_true_eq] at h
    obtain ⟨⟨hname, hkind⟩, hindex⟩ := h
    rw [Json.eq_of_sameWord hname, hkind, Json.eq_of_sameWord hindex]
  · rw [Literal.eq_of_same h]
  · simp only [Bool.and_eq_true] at h
    obtain ⟨⟨hparams, htemps⟩, hstatements⟩ := h
    rw [Json.eq_of_sameWords _ _ hparams, Json.eq_of_sameWords _ _ htemps,
      Node.eq_of_listSame _ _ hstatements]
  · simp only [Bool.and_eq_true] at h
    obtain ⟨⟨hreceiver, hselector⟩, hargs⟩ := h
    rw [Node.eq_of_same _ _ hreceiver, Json.eq_of_sameWord hselector,
      Node.eq_of_listSame _ _ hargs]
  · simp only [Bool.and_eq_true, decide_eq_true_eq] at h
    obtain ⟨⟨⟨hname, hkind⟩, hindex⟩, hvalue⟩ := h
    rw [Json.eq_of_sameWord hname, hkind, Json.eq_of_sameWord hindex,
      Node.eq_of_same _ _ hvalue]
  · rw [Node.eq_of_same _ _ h]
  · simp only [Bool.and_eq_true] at h
    obtain ⟨⟨⟨⟨hselector, hparams⟩, htemps⟩, hstatements⟩, hprimitive⟩ := h
    rw [Json.eq_of_sameWord hselector, Json.eq_of_sameWords _ _ hparams,
      Json.eq_of_sameWords _ _ htemps, Node.eq_of_listSame _ _ hstatements,
      Json.eq_of_sameWord hprimitive]
  · cases h
termination_by sizeOf a

/-- Tree by tree. -/
theorem Node.eq_of_listSame (ns ks : List Node) (h : listSame ns ks = true) : ns = ks := by
  unfold Node.listSame at h
  split at h
  · rfl
  · obtain ⟨hn, hns⟩ := Bool.and_eq_true_iff.mp h
    rw [Node.eq_of_same _ _ hn, Node.eq_of_listSame _ _ hns]
  · cases h
termination_by sizeOf ns
end

/-! ### The kernel memory -/

namespace Kernel

/-- Whether a class has the methods of the kernel in place. -/
def isInPlace (m : Memory) (c : ClassSpec) : Bool :=
  match m.registry.find? c.name with
  | none => false
  | some id => (trees c.name).all fun node =>
    match selector? node with
    | none => true
    | some selector =>
      match m.registry.lookup? (.text selector) ⟨id, false⟩, tree? c.name selector with
      | some method, some tree => method.toNode.same (tree.withSites 0).1
      | _, _ => false

theorem understands_of_isInPlace {m : Memory} {c : ClassSpec} (h : isInPlace m c = true) :
    ∃ id, m.registry.find? c.name = some id ∧
      ∀ selector node, tree? c.name selector = some node →
        m.registry.Understands ⟨id, false⟩ selector node := by
  unfold isInPlace at h
  split at h
  · cases h
  rename_i id hid
  refine ⟨id, hid, fun selector node hnode => ?_⟩
  -- the method is among those that have been looked at
  have hfound : (trees c.name).find? (fun node => selector? node == some selector) = some node :=
    hnode
  have hmem : node ∈ trees c.name := List.mem_of_find?_eq_some hfound
  have hmatches := List.find?_some hfound
  have hselector : selector? node = some selector := eq_of_beq hmatches
  have hchecked := List.all_eq_true.mp h node hmem
  simp only [hselector, hnode] at hchecked
  split at hchecked
  · rename_i method tree hmethod htree
    obtain rfl := Option.some.inj htree
    exact ⟨method, 0, hmethod, Node.eq_of_same _ _ hchecked⟩
  · cases hchecked

/-- It is enough to look at the methods of every kernel class. -/
theorem equipped_of_isInPlace {m : Memory} (h : (classes.all fun c => isInPlace m c) = true) :
    m.Equipped {} where
  primitive := by
    have hknown : ∀ p ∈ Primitive.numbered,
        PrimitiveTable.standard.find? (.number p.1) = some p.2 := by
      decide +kernel
    exact hknown
  method c hc := understands_of_isInPlace (List.all_eq_true.mp h c hc)

/-- At the start of every session the kernel methods are in place. -/
theorem memory_equipped : memory.Equipped {} :=
  equipped_of_isInPlace (by decide +kernel)

end Kernel

end Smalltalk
