import Mathlib.Algebra.Group.Int.Defs
import Smalltalk.Proofs.Reached
import Smalltalk.Proofs.Scope
import Smalltalk.Proofs.Suits

/-!
# `Smalltalk.Proofs.Range`: integers stay SmallIntegers

A primitive whose result would be beyond the SmallIntegers fails, or it has made a float of
it. Some primitives do not look at their result: what is left of a division is smaller than
the divisor, and a count is no greater than what there is room for. So where the integers
that come from outside are SmallIntegers, and those that are written in the code, there are
no others.

The charter for this asks for nothing but that (`Charter.small`). `integers_stay_small`
is about whatever is stored, at any moment, and about all answers.
-/

set_option autoImplicit false

namespace Smalltalk

/-- Whether a tree, if it is an integer literal, is a SmallInteger. -/
def Node.isSmall : Node → Bool
  | .literal (.int i) => SmallInteger.holds i
  | _ => true

/-- SmallIntegers only. -/
def Charter.small : Charter where
  int i := SmallInteger.holds i = true
  code _ _ node := ∀ n ∈ node.inner, n.isSmall = true
  seat _ _ _ := True
  classes _ := True
  strict := False

theorem Charter.small_lawful : Charter.small.Lawful where
  start := trivial
  small _ := id
  literal _ _ i h := h (.literal (.int i)) (Node.self_mem_inner _)
  part _ _ _ h _ hpart n hn := h n (Node.inner_of_mem_parts hpart hn)
  block _ _ _ _ _ h _ hs n hn := h n (Node.inner_of_block hs hn)
  codeStays _ _ _ _ _ _ := id
  seatStays _ _ _ _ _ _ _ _ _ := trivial
  found _ _ _ _ _ _ _ _ _ := trivial
  above _ _ _ _ _ _ _ _ _ _ _ := trivial
  slot strict := strict.elim

/-- A value that is no integer beyond `-2 ^ 60` and `2 ^ 60 - 1`. -/
def Value.InRange (v : Value) : Prop := ∀ i, v = .int i → -2 ^ 60 ≤ i ∧ i < 2 ^ 60

/-- No integer that is stored anywhere is out of range. -/
structure Memory.InRange (m : Memory) : Prop where
  array : ∀ a, ∀ v ∈ m.heap.array a, v.InRange
  slot : ∀ o, ∀ v ∈ (m.heap.object o).slots, v.InRange
  element : ∀ o xs, (m.heap.object o).elements = some xs → ∀ v ∈ xs, v.InRange
  receiver : ∀ f, (m.heap.frame f).receiver.InRange
  declared : ∀ f key v, (m.heap.frame f).slots.find? key = some v → v.InRange
  global : ∀ key v, m.globals.find? key = some v → v.InRange

/-- Nor is one that an evaluation answers, or returns to the home of a block. -/
structure Eval.InRange (out : Outcome Value) : Prop where
  memory : (left out).InRange
  answered : ∀ v m, out = .ok v m → v.InRange
  returned : ∀ v home m, out = .error (.unwind v home) m → v.InRange

variable {settings : Settings} {m : Memory}

theorem Charter.small_inRange {v : Value} (h : Charter.small.Holds m v) : v.InRange :=
  fun i hi => SmallInteger.holds_iff.mp (h.2 i hi)

theorem Memory.Abides.inRange (a : m.Abides Charter.small) : m.InRange where
  array _ v h := Charter.small_inRange (a.stored v (.of_array h))
  slot _ v h := Charter.small_inRange (a.stored v (.of_object (.inl h)))
  element _ xs hxs v h := Charter.small_inRange (a.stored v (.of_object (.inr ⟨xs, hxs, h⟩)))
  receiver _ := Charter.small_inRange (a.stored _ (.of_frame (.inl rfl)))
  declared _ key v h := Charter.small_inRange (a.stored v (.of_frame (.inr ⟨key, h⟩)))
  global key v h := Charter.small_inRange (a.bound key v h)

theorem Eval.Upheld.inRange {out : Outcome Value}
    (h : Upheld Charter.small settings m (fun v m' => Charter.small.Holds m' v) out) :
    InRange out where
  memory := h.left.toAbides.inRange
  answered v m' hout := by
    rw [hout] at h
    exact Charter.small_inRange h.2.2
  returned v home m' hout := by
    rw [hout] at h
    exact Charter.small_inRange h.2.2

/-- In a system that is given SmallIntegers only, there are no other integers at any moment.
While all installed code writes only these, and nothing has so many parts that there
is no SmallInteger for the count, a query answers no other integer, and no call does that
comes up on the way, whatever primitive it runs. -/
theorem integers_stay_small (h : Charter.small.Reached m) : m.InRange ∧
    ∀ settings q, settings.room < 2 ^ 60 → m.registry.Everywhere (fun _ => Node.isSmall) →
      Charter.small.Asks m q →
        Eval.InRange (q.perform settings m) ∧
        ∀ c outer, InProgress settings m q (c :: outer) →
          c.memory.InRange ∧ Eval.InRange (c.outcome settings) := by
  have a := h.abides Charter.small_lawful
  refine ⟨a.inRange, fun settings q hroom hinstalled hq => ?_⟩
  have hcount : ∀ n, n ≤ settings.room → SmallInteger.holds n = true := by
    intro n hn
    rw [SmallInteger.holds_iff]
    omega
  have g : m.Runs Charter.small settings := ⟨a, Charter.small_lawful, hinstalled, hcount⟩
  constructor
  · rw [Query.perform_eq_performBy]
    exact (Query.upholds (Charter.Honours.run _ _ _) g hq).inRange
  · intro c outer hc
    obtain ⟨g', hrequires⟩ := hc.upheld g hq
    exact ⟨g'.toAbides.inRange, (Call.upheld g' hrequires).inRange⟩

/-- The greatest SmallInteger becomes a global. -/
def setGreatest : Command := .setGlobal (.str "greatest") (.int (2 ^ 60 - 1))

/-- Code that adds one to this global. -/
def oneMore : Node :=
  .send (.reference (.str "greatest") .global .null) (.str "+") [.literal (.int 1)]

/-- The answer is a float. -/
def Eval.isFloat : Outcome Value → Bool
  | .ok (.float _) _ => true
  | _ => false

theorem one_more_is_float : ∃ m : Memory, m.InRange ∧
    m.globals.find? (.text "greatest") = some (.int (2 ^ 60 - 1)) ∧
    Eval.InRange ((Query.doit oneMore .nil).perform { room := 2 ^ 32 } m) ∧
    Eval.isFloat ((Query.doit oneMore .nil).perform { room := 2 ^ 32 } m) = true := by
  have hsmall : Charter.small.int (2 ^ 60 - 1) :=
    SmallInteger.holds_iff.mpr ⟨by decide, by decide⟩
  have hreached : Charter.small.Reached (setGreatest.run Kernel.memory) :=
    .command .start (Charter.holds_int hsmall)
  obtain ⟨hrange, hquery⟩ := integers_stay_small hreached
  -- setting a global leaves the classes of any memory alone
  have hregistry : ∀ m, (setGreatest.run m).registry = m.registry := fun _ => rfl
  have hinstalled : (setGreatest.run Kernel.memory).registry.Everywhere fun _ => Node.isSmall := by
    rw [hregistry]
    exact Registry.everywhere_of_all (by decide +kernel)
  have hcode : ∀ n ∈ oneMore.inner, n.isSmall = true := by decide
  have hasks : Charter.small.Asks (setGreatest.run Kernel.memory) (.doit oneMore .nil) :=
    ⟨Charter.holds_nil, fun _ _ => ⟨trivial, hcode⟩⟩
  have hroom : ({ room := 2 ^ 32 } : Settings).room < 2 ^ 60 := by decide
  have hanswer := (hquery { room := 2 ^ 32 } (.doit oneMore .nil) hroom hinstalled hasks).1
  exact ⟨_, hrange, Dictionary.find?_put_self .., hanswer, by decide +kernel⟩

end Smalltalk
