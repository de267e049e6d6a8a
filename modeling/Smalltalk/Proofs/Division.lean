import Smalltalk.Proofs.Numbers

/-!
# `Smalltalk.Proofs.Division`: the three divisions of SmallIntegers

A SmallInteger can be divided by another to a quotient, to a floored quotient and to a
remainder. `Kernel.Divides` says how the three fit together. The remainder takes no look at
the range of SmallIntegers, and it need not: it is smaller than the divisor and has its sign.
The floored quotient does, and it must: the least SmallInteger divided by -1 is the one
quotient out of range (`holds_fdiv_iff`). Where the quotient is an integer, the floored
quotient is the same.

`Kernel.sends_divide` says that every send of the three ends so.
-/

set_option autoImplicit false

namespace Smalltalk

/-! ### Flooring -/

section
variable {a b : Int}

/-- The remainder is smaller than the divisor, and zero or of its sign. -/
theorem fmod_spec (hb : b ≠ 0) : (Int.fmod a b).natAbs < b.natAbs ∧
    (Int.fmod a b = 0 ∨ (Int.fmod a b).sign = b.sign) := by
  have hnonneg : 0 ≤ a % b := Int.emod_nonneg a hb
  have hlt : a % b < b.natAbs := Int.emod_lt a hb
  rw [Int.fmod_eq_emod]
  rcases Int.lt_or_gt_of_ne hb with hneg | hpos
  · rw [Int.sign_eq_neg_one_of_neg hneg]
    split
    · rename_i hdvd
      have hzero : a % b = 0 := Int.emod_eq_zero_of_dvd (hdvd.resolve_left (by omega))
      omega
    · exact ⟨by omega, .inr (Int.sign_eq_neg_one_of_neg (by omega))⟩
  · rw [if_pos (.inl (Int.le_of_lt hpos)), Int.sign_eq_one_of_pos hpos]
    refine ⟨by omega, ?_⟩
    rcases Int.lt_or_eq_of_le hnonneg with h | h
    · exact .inr (Int.sign_eq_one_of_pos (by omega))
    · exact .inl (by omega)

/-- The floored quotient is a SmallInteger, with one exception. -/
theorem holds_fdiv_iff (ha : SmallInteger.holds a = true) (hzero : b ≠ 0) :
    SmallInteger.holds (Int.fdiv a b) = true ↔ ¬ (a = SmallInteger.least ∧ b = -1) := by
  constructor
  · rintro h ⟨rfl, rfl⟩
    exact absurd h (by decide)
  · intro hnot
    have hle : (Int.fdiv a b).natAbs ≤ a.natAbs := Int.natAbs_fdiv_le_natAbs a b
    have hleast : SmallInteger.least = -2 ^ 60 := rfl
    obtain ⟨hless, hsign⟩ := fmod_spec (a := a) hzero
    have hsum : Int.fdiv a b * b + Int.fmod a b = a := Int.fdiv_mul_add_fmod a b
    rw [SmallInteger.holds_iff] at ha ⊢
    by_contra hout
    -- the quotient is no greater than the dividend, so both are as great as can be
    have hquotient : Int.fdiv a b = 2 ^ 60 := by omega
    rw [hquotient] at hsum
    omega

end

/-! ### The sends -/

namespace Kernel

/-- A method of SmallIntegers with a primitive that must not fail. -/
theorem send_yields_orFailed {settings : Settings} {m : Memory} (he : m.Equipped settings)
    {selector : String} {number : Int} {p : Primitive} (hp : (number, p) ∈ Primitive.numbered)
    (hnode : tree? "SmallInteger" selector = some (byPrimitive selector number ["aNumber"]))
    {a : Int} {b : Value} {answer : Option Value}
    (hanswers : ∀ m, p.Answers m (.int a) [b] answer) :
    m.SendYields settings 10 (.int a) selector [b] (orFailed answer) :=
  Memory.SendYields.of_kernel he rfl hnode fun _ _ callers =>
    .orFailed he.primitive (he.givesUp rfl) hp (List.nodup_singleton _) rfl
      (fun m' _ => hanswers m') callers

/-- The floored quotient, if it is a SmallInteger. -/
def floored? (a b : Int) : Option Value :=
  if b = 0 then none else SmallInteger.value? (Int.fdiv a b)

/-- The remainder. -/
def remainder? (a b : Int) : Option Value :=
  if b = 0 then none else some (.int (Int.fmod a b))

section
variable {a b : Int} (ha : SmallInteger.holds a = true) (hb : SmallInteger.holds b = true)

include ha hb

theorem answers_floorDivide (m : Memory) :
    Primitive.floorDivide.Answers m (.int a) [.int b] (floored? a b) := by
  have hattempt : Primitive.floorDivide.attempt m (.int a) [.int b]
      = if b = 0 then .error .divisionByZero else Primitive.inRange (Int.fdiv a b) := by
    simp only [Primitive.attempt, Primitive.argumentCount, Primitive.choose,
      Primitive.integerValue, List.getD_cons_zero, ha, hb]
    rfl
  unfold floored? SmallInteger.value?
  by_cases hzero : b = 0
  · rw [if_pos hzero]
    exact ⟨_, hattempt.trans (if_pos hzero)⟩
  · rw [if_neg hzero]
    rw [if_neg hzero] at hattempt
    cases hholds : SmallInteger.holds (Int.fdiv a b) with
    | true => exact hattempt.trans (if_pos hholds)
    | false => exact ⟨_, hattempt.trans (if_neg (Bool.eq_false_iff.mp hholds))⟩

theorem answers_modulo (m : Memory) :
    Primitive.modulo.Answers m (.int a) [.int b] (remainder? a b) := by
  have hattempt : Primitive.modulo.attempt m (.int a) [.int b]
      = if b = 0 then .error .divisionByZero else .ok (.answer (.int (Int.fmod a b))) := by
    simp only [Primitive.attempt, Primitive.argumentCount, Primitive.choose,
      Primitive.integerValue, List.getD_cons_zero, ha, hb]
    rfl
  unfold remainder?
  by_cases hzero : b = 0
  · rw [if_pos hzero]
    exact ⟨_, hattempt.trans (if_pos hzero)⟩
  · rw [if_neg hzero]
    exact hattempt.trans (if_neg hzero)

end

/-- How the three divisions by another number than zero fit together: the remainder is a
SmallInteger, smaller than the divisor, and zero or of its sign, the floored quotient belongs
to it, and a quotient that is an integer is the floored one. -/
structure Divides (a b : Int) (quotient floored remainder : Except Fault Value) (r : Int) :
    Prop where
  remainder_eq : remainder = .ok (.int r)
  holds : SmallInteger.holds r = true
  less : r.natAbs < b.natAbs
  sign : r = 0 ∨ r.sign = b.sign
  least : a = SmallInteger.least ∧ b = -1 → floored = .error failed
  floor : ¬ (a = SmallInteger.least ∧ b = -1) →
    ∃ q, floored = .ok (.int q) ∧ SmallInteger.holds q = true ∧ a = q * b + r
  exact : ∀ q, quotient = .ok (.int q) → floored = .ok (.int q) ∧ r = 0

/-- A quotient is an integer only where the divisor divides. -/
theorem of_divide_eq_int {a b q : Int} (h : Operator.divide.result a (.int b) = .ok (.int q)) :
    b ≠ 0 ∧ b ∣ a ∧ SmallInteger.value? (a / b) = some (.int q) := by
  have hanswer : Operator.divide.answer? a (.int b) = some (.int q) := by
    unfold Operator.result at h
    cases hanswer : Operator.divide.answer? a (.int b) with
    | some v =>
        rw [hanswer] at h
        exact congrArg some (Except.ok.inj h)
    | none =>
        rw [hanswer] at h
        cases h
  -- the quotient of doubles is never an integer, so the exact one has been taken
  have hdouble : ∀ x, Operator.divide.withDouble? x (.int b) ≠ some (.int q) := by
    intro x
    unfold Operator.withDouble?
    split
    · exact nofun
    · cases Value.double? (.int b) <;> exact nofun
  have hexact : Operator.divide.exactly? a (.int b) = some (.int q) := by
    unfold Operator.answer? at hanswer
    cases hexact : Operator.divide.exactly? a (.int b) with
    | some v =>
        rw [hexact] at hanswer
        exact hanswer
    | none =>
        rw [hexact] at hanswer
        change ((Binary64.ofInt? a).bind fun x => _) = _ at hanswer
        obtain ⟨x, -, hx⟩ := Option.bind_eq_some_iff.mp hanswer
        exact absurd hx (hdouble x)
  change (if b ≠ 0 ∧ b ∣ a then SmallInteger.value? (a / b) else none) = _ at hexact
  by_cases hdvd : b ≠ 0 ∧ b ∣ a
  · exact ⟨hdvd.1, hdvd.2, (if_pos hdvd).symm.trans hexact⟩
  · cases (if_neg hdvd).symm.trans hexact

theorem divides {a b : Int} (ha : SmallInteger.holds a = true)
    (hb : SmallInteger.holds b = true) (hzero : b ≠ 0) :
    Divides a b (Operator.divide.result a (.int b)) (orFailed (floored? a b))
      (orFailed (remainder? a b)) (Int.fmod a b) where
  remainder_eq := by
    unfold remainder?
    rw [if_neg hzero]
    rfl
  holds := Primitive.holds_fmod hb hzero
  less := (fmod_spec hzero).1
  sign := (fmod_spec hzero).2
  least hleast := by
    -- only the least integer by minus one leaves the range
    have hout : ¬ SmallInteger.holds (Int.fdiv a b) = true :=
      fun h => (holds_fdiv_iff ha hzero).mp h hleast
    unfold floored? SmallInteger.value?
    rw [if_neg hzero, if_neg hout]
    rfl
  floor hnot := by
    have hholds := (holds_fdiv_iff ha hzero).mpr hnot
    refine ⟨Int.fdiv a b, ?_, hholds, (Int.fdiv_mul_add_fmod a b).symm⟩
    unfold floored? SmallInteger.value?
    rw [if_neg hzero, if_pos hholds]
    rfl
  exact q h := by
    obtain ⟨-, hdvd, hvalue⟩ := of_divide_eq_int h
    refine ⟨?_, Int.fmod_eq_zero_of_dvd hdvd⟩
    unfold floored?
    rw [if_neg hzero, Int.fdiv_eq_ediv_of_dvd hdvd, hvalue]
    rfl

/-- The sends of the three divisions to a SmallInteger with another all come to results that
fit together, and by zero both the floored quotient and the remainder fail. -/
theorem sends_divide {a b : Int} (ha : SmallInteger.holds a = true)
    (hb : SmallInteger.holds b = true) :
    ∃ quotient floored remainder : Except Fault Value,
      (∀ (settings : Settings) (m : Memory), m.Equipped settings →
        m.SendYields settings 10 (.int a) "/" [.int b] quotient ∧
        m.SendYields settings 10 (.int a) "//" [.int b] floored ∧
        m.SendYields settings 10 (.int a) "\\\\" [.int b] remainder) ∧
      (b ≠ 0 → ∃ r, Divides a b quotient floored remainder r) ∧
      (b = 0 → floored = .error failed ∧ remainder = .error failed) := by
  refine ⟨Operator.divide.result a (.int b), orFailed (floored? a b), orFailed (remainder? a b),
    fun settings m he => ⟨?_, ?_, ?_⟩, fun hzero => ⟨_, divides ha hb hzero⟩, ?_⟩
  · refine Memory.SendYields.of_kernel he rfl Operator.divide.tree?_integer
      fun owner _ callers => ?_
    exact Operator.divide.yields he ha (fun i h => Value.int.inj h ▸ hb) owner callers
  · have hp : (12, Primitive.floorDivide) ∈ Primitive.numbered := by decide
    have hnode : tree? "SmallInteger" "//" = some (byPrimitive "//" 12 ["aNumber"]) := rfl
    exact send_yields_orFailed he hp hnode (answers_floorDivide ha hb)
  · have hp : (11, Primitive.modulo) ∈ Primitive.numbered := by decide
    have hnode : tree? "SmallInteger" "\\\\" = some (byPrimitive "\\\\" 11 ["aNumber"]) := rfl
    exact send_yields_orFailed he hp hnode (answers_modulo ha hb)
  · rintro rfl
    exact ⟨rfl, rfl⟩

/-- The least SmallInteger divided by -1. -/
theorem sends_divide_of_least : SmallInteger.holds SmallInteger.least = true ∧
    ∃ quotient floored remainder : Except Fault Value,
      (∃ m', Kernel.memory.Aside [] m' ∧
        (Query.send (.int SmallInteger.least) (.str "//") [.int (-1)]).perform {} Kernel.memory
          = Eval.ended floored m') ∧
      ∃ r, Divides SmallInteger.least (-1) quotient floored remainder r := by
  have ha : SmallInteger.holds SmallInteger.least = true := by decide
  have hb : SmallInteger.holds (-1) = true := by decide
  obtain ⟨quotient, floored, remainder, hsends, hdivides, -⟩ := sends_divide ha hb
  obtain ⟨-, hfloored, -⟩ := hsends {} Kernel.memory Kernel.memory_equipped
  refine ⟨ha, quotient, floored, remainder, ?_, hdivides (by decide)⟩
  exact hfloored (.query Kernel.memory) (.inl (by decide))

end Kernel

end Smalltalk
