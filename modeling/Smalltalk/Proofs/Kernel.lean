import Smalltalk.Proofs.Invariant

/-!
# `Smalltalk.Proofs.Kernel`: the invariant holds at the start

The kernel memory is one closed value, so what has to be known about it can be
computed (`Kernel.memory_checked`). The kernel code is admitted by the least
regime that can suit a system, and a tree that is admitted there is admitted
wherever SmallIntegers are (`Regime.node_of_least`). With this
`Kernel.memory_good` holds for every such regime at once.
-/

set_option autoImplicit false

namespace Smalltalk

namespace Regime

/-- Well-named code over SmallIntegers, and no foreign values. -/
def least : Regime := ⟨SmallInteger.holds, false, true⟩

variable {R : Regime}

theorem name_of_least {j : Json} (h : least.name j = true) : R.name j = true := by
  cases j with
  | str s => rfl
  | _ => cases h

theorem names_of_least {js : List Json} (h : js.all least.name = true) :
    js.all R.name = true :=
  List.all_eq_true.mpr fun j hj => name_of_least (List.all_eq_true.mp h j hj)

theorem number_of_least {j : Json} (h : least.number j = true) : R.number j = true := by
  cases j with
  | null => rfl
  | int i => rfl
  | _ => cases h

theorem index_of_least {kind : VariableKind} {j : Json} (h : least.index kind j = true) :
    R.index kind j = true := by
  cases kind with
  | instvar => exact number_of_least h
  | _ => rfl

mutual
/-- A tree of the least regime is admitted wherever SmallIntegers are. -/
theorem node_of_least (hsmall : ∀ i, SmallInteger.holds i = true → R.int i = true) :
    (n : Node) → least.node n = true → R.node n = true
  | .self, _ | .super, _ | .symbol _, _ => rfl
  | .reference name kind index, h => by
      obtain ⟨hname, hindex⟩ := Bool.and_eq_true_iff.mp h
      exact Bool.and_eq_true_iff.mpr ⟨name_of_least hname, index_of_least hindex⟩
  | .literal (.int i), h => hsmall i h
  | .literal .nil, _ | .literal (.bool _), _ | .literal (.float _), _
  | .literal (.text _ _), _ => rfl
  | .literalArray elements, h => nodes_of_least hsmall elements h
  | .sequence temps statements, h => by
      obtain ⟨htemps, hstatements⟩ := Bool.and_eq_true_iff.mp h
      exact Bool.and_eq_true_iff.mpr
        ⟨names_of_least htemps, nodes_of_least hsmall statements hstatements⟩
  | .block params temps statements, h => by
      obtain ⟨hfront, hstatements⟩ := Bool.and_eq_true_iff.mp h
      obtain ⟨hparams, htemps⟩ := Bool.and_eq_true_iff.mp hfront
      exact Bool.and_eq_true_iff.mpr
        ⟨Bool.and_eq_true_iff.mpr ⟨names_of_least hparams, names_of_least htemps⟩,
          nodes_of_least hsmall statements hstatements⟩
  | .send receiver selector args, h => by
      obtain ⟨hfront, hargs⟩ := Bool.and_eq_true_iff.mp h
      obtain ⟨hreceiver, hselector⟩ := Bool.and_eq_true_iff.mp hfront
      exact Bool.and_eq_true_iff.mpr
        ⟨Bool.and_eq_true_iff.mpr
          ⟨node_of_least hsmall receiver hreceiver, name_of_least hselector⟩,
          nodes_of_least hsmall args hargs⟩
  | .assign name kind index value, h => by
      obtain ⟨hfront, hvalue⟩ := Bool.and_eq_true_iff.mp h
      obtain ⟨hname, hindex⟩ := Bool.and_eq_true_iff.mp hfront
      exact Bool.and_eq_true_iff.mpr
        ⟨Bool.and_eq_true_iff.mpr ⟨name_of_least hname, index_of_least hindex⟩,
          node_of_least hsmall value hvalue⟩
  | .answer value, h => node_of_least hsmall value h
  | .method selector params temps statements primitive, h => by
      simp only [node, Bool.and_eq_true] at h ⊢
      obtain ⟨⟨⟨⟨hselector, hparams⟩, htemps⟩, hstatements⟩, hprimitive⟩ := h
      exact ⟨⟨⟨⟨name_of_least hselector, names_of_least hparams⟩, names_of_least htemps⟩,
        nodes_of_least hsmall statements hstatements⟩, number_of_least hprimitive⟩

/-- The same of every tree of a list. -/
theorem nodes_of_least (hsmall : ∀ i, SmallInteger.holds i = true → R.int i = true) :
    (ns : List Node) → least.nodes ns = true → R.nodes ns = true
  | [], _ => rfl
  | n :: rest, h => by
      obtain ⟨hn, hrest⟩ := Bool.and_eq_true_iff.mp h
      exact Bool.and_eq_true_iff.mpr
        ⟨node_of_least hsmall n hn, nodes_of_least hsmall rest hrest⟩
end

end Regime

namespace Kernel

/-- A value that is known where there is nothing but `n` classes. -/
def isBasic (n : Nat) : Value → Bool
  | .nil | .bool _ => true
  | .behavior b => decide (b.id < n)
  | _ => false

/-- Every method of a table is admitted by the least regime. -/
def isLeast (t : MethodTable) : Bool := t.methods.entries.all fun e => Regime.least.method e.value

/-- What has to be known about a memory that nothing has run in. -/
structure Fresh (m : Memory) : Prop where
  arrays : m.heap.arrays.size = 0
  objects : m.heap.objects.size = 0
  closures : m.heap.closures.size = 0
  frames : m.heap.frames.size = 0
  quiet : m.journal.recording = false
  names : (m.registry.names.all fun p => decide (p.2 < m.registry.classes.size)) = true
  methods : (m.registry.classes.all fun e => isLeast e.instanceSide && isLeast e.classSide) = true
  kernel : (classes.all fun c => (m.registry.find? c.name).isSome) = true
  globals : (m.globals.entries.all fun e => isBasic m.registry.classes.size e.value) = true

/-- All of this is computed. -/
instance (m : Memory) : Decidable (Fresh m) :=
  decidable_of_iff
    (m.heap.arrays.size = 0 ∧ m.heap.objects.size = 0 ∧ m.heap.closures.size = 0 ∧
      m.heap.frames.size = 0 ∧ m.journal.recording = false ∧
      (m.registry.names.all fun p => decide (p.2 < m.registry.classes.size)) = true ∧
      (m.registry.classes.all fun e => isLeast e.instanceSide && isLeast e.classSide) = true ∧
      (classes.all fun c => (m.registry.find? c.name).isSome) = true ∧
      (m.globals.entries.all fun e => isBasic m.registry.classes.size e.value) = true)
    ⟨fun ⟨a, b, c, d, e, f, g, h, i⟩ => ⟨a, b, c, d, e, f, g, h, i⟩,
      fun ⟨a, b, c, d, e, f, g, h, i⟩ => ⟨a, b, c, d, e, f, g, h, i⟩⟩

theorem memory_fresh : Fresh memory := by decide +kernel

variable {R : Regime} {m : Memory}

/-- What a dictionary holds is the value of one of its entries. -/
theorem mem_entries_of_find? {α : Type} {d : Dictionary α} {key : Key} {a : α}
    (h : d.find? key = some a) : ∃ e ∈ d.entries, e.value = a := by
  obtain ⟨e, he, rfl⟩ := Option.map_eq_some_iff.mp h
  exact ⟨e, List.mem_of_find?_eq_some he, rfl⟩

theorem method_of_isLeast (hsmall : ∀ i, SmallInteger.holds i = true → R.int i = true)
    {t : MethodTable} (ht : isLeast t = true) {key : Key} {method : Method}
    (h : t.methods.find? key = some method) : R.method method = true := by
  obtain ⟨e, he, rfl⟩ := mem_entries_of_find? h
  exact Regime.node_of_least hsmall _ (List.all_eq_true.mp ht e he)

/-- The classes of a fresh memory. -/
theorem Fresh.sound (fresh : Fresh m)
    (hsmall : ∀ i, SmallInteger.holds i = true → R.int i = true) :
    m.registry.Sound R where
  registered name id h := by
    obtain ⟨front, back, hnames, -⟩ := List.lookup_eq_some_iff.mp h
    have hmem : (name, id) ∈ m.registry.names := by
      rw [hnames]
      exact List.mem_append_right _ List.mem_cons_self
    exact of_decide_eq_true (List.all_eq_true.mp fresh.names _ hmem)
  method b key method h := by
    unfold Registry.table Registry.entry at h
    rw [Array.getD_eq_getD_getElem?] at h
    cases hentry : m.registry.classes[b.id]? with
    | none =>
        -- a class that is not there has empty tables
        rw [hentry] at h
        cases hmeta : b.isMeta <;> rw [hmeta] at h <;> cases h
    | some e =>
        rw [hentry] at h
        have hall := Array.all_eq_true_iff_forall_mem.mp fresh.methods e
          (Array.mem_of_getElem? hentry)
        obtain ⟨hinstance, hclass⟩ := Bool.and_eq_true_iff.mp hall
        cases hmeta : b.isMeta <;> rw [hmeta] at h
        · exact method_of_isLeast hsmall hinstance h
        · exact method_of_isLeast hsmall hclass h
  kernel c hc := List.all_eq_true.mp fresh.kernel c hc

/-- Nothing is stored where nothing is, but nil in a frame that is not there. -/
theorem Fresh.stored (fresh : Fresh m) {v : Value} (h : m.heap.Stores v) : v = .nil := by
  -- whatever is read is the default
  have hnone : ∀ {α : Type} {xs : Array α} (i : Nat) (d : α), xs.size = 0 → xs.getD i d = d := by
    intro α xs i d hxs
    rw [Array.getD_eq_getD_getElem?, Array.getElem?_eq_none (by omega), Option.getD_none]
  rcases h with ⟨a, h⟩ | ⟨o, h⟩ | ⟨f, h⟩
  · unfold Heap.array at h
    rw [hnone a _ fresh.arrays] at h
    exact absurd h (Array.not_mem_empty v)
  · unfold Heap.object at h
    rw [hnone o _ fresh.objects] at h
    rcases h with h | ⟨xs, hxs, -⟩
    · exact absurd h (Array.not_mem_empty v)
    · cases hxs
  · unfold Heap.frame at h
    rw [hnone f _ fresh.frames] at h
    rcases h with h | ⟨key, hkey⟩
    · exact h
    · cases hkey

theorem Fresh.good (fresh : Fresh m)
    (hsmall : ∀ i, SmallInteger.holds i = true → R.int i = true) :
    m.Good R [] where
  stored v h := fresh.stored h ▸ Regime.holds_nil
  bound key v h := by
    obtain ⟨e, he, rfl⟩ := mem_entries_of_find? h
    have hbasic := List.all_eq_true.mp fresh.globals e he
    cases hv : e.value with
    | nil => exact Regime.holds_nil
    | bool b => exact ⟨rfl, trivial⟩
    | behavior b =>
        rw [hv] at hbasic
        have hlt : b.id < m.registry.classes.size := of_decide_eq_true hbasic
        exact ⟨rfl, hlt⟩
    | _ =>
        rw [hv] at hbasic
        cases hbasic
  object o ho := absurd ho (by rw [fresh.objects]; exact Nat.not_lt_zero o)
  closure c hc := absurd hc (by rw [fresh.closures]; exact Nat.not_lt_zero c)
  running f hf := absurd hf (by rw [fresh.frames]; exact Nat.not_lt_zero f)
  nested f hf := absurd hf (by rw [fresh.frames]; exact Nat.not_lt_zero f)
  classes := fresh.sound hsmall
  quiet := fresh.quiet
  active f hf := absurd hf List.not_mem_nil
  settled c hc := absurd hc (by rw [fresh.closures]; exact Nat.not_lt_zero c)

/-- The invariant holds at the start of every session. -/
theorem memory_good (hsmall : ∀ i, SmallInteger.holds i = true → R.int i = true) :
    memory.Good R [] :=
  memory_fresh.good hsmall

end Kernel

end Smalltalk
