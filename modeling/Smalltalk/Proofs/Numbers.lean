import Smalltalk.Proofs.Double
import Smalltalk.Proofs.Sends

/-!
# `Smalltalk.Proofs.Numbers`: the operators of numbers

An operator (`Kernel.Operator`) sent to a SmallInteger is answered exactly where this is
possible. Everything else is tried again on doubles, and what is no number, or a quotient by
zero, ends with the fault of a primitive that must not fail. `Operator.result` says it in
one definition, which knows nothing of primitives and sends. `Operator.send_yields` is the
theorem that every send of an operator ends so, unless it runs out of depth, and only adds
something to the memory.

The proof follows the dispatches. The primitive of the receiver either answers what is exact
or fails (`Operator.answers_integer`), its body asks for the double of the receiver and sends
the operator to it, the primitive on doubles answers or fails (`Operator.answers_float`), and
the body of that gives up.
-/

set_option autoImplicit false

namespace Smalltalk

/-! ### What operators answer -/

/-- An integer, if it is a SmallInteger. -/
def SmallInteger.value? (i : Int) : Option Value :=
  if SmallInteger.holds i then some (.int i) else none

/-- The double of a number. -/
def Value.double? : Value → Option Float
  | .int i => Binary64.ofInt? i
  | .float x => some x
  | _ => none

/-- An integer that is not too great has a double, and then a number is never refused. -/
theorem Primitive.withNumber_eq {b : Value} (hb : ∀ i, b = .int i → i.natAbs < 2 ^ 1023)
    (go : Float → Except Reason Action) :
    withNumber b go = b.double?.elim (.error .typeMismatch) go := by
  cases b with
  | int i =>
      have hsome := Binary64.isSome_ofInt? (hb i rfl)
      obtain ⟨y, hy⟩ := Option.isSome_iff_exists.mp hsome
      simp only [withNumber, Value.double?, hy]
      rfl
  | _ => rfl

theorem Primitive.attempt_asFloat {i : Int} (hi : SmallInteger.holds i = true) {x : Float}
    (hx : Binary64.ofInt? i = some x) (m : Memory) :
    asFloat.attempt m (.int i) [] = .ok (.answer (.float x)) := by
  show (integerValue (.int i) >>= fun a => withNumber (.int a) _) = _
  rw [integerValue_of_holds hi]
  simp only [bind, Except.bind, withNumber, hx]
  rfl

/-- Whether a value is a number that is zero. -/
def Value.isZero : Value → Bool
  | .int i => i == 0
  | .float x => x == 0.0
  | _ => false

/-- The double of an integer is zero only if the integer is. -/
theorem Value.isZero_of_double? {v : Value} {x : Float} (h : v.double? = some x) :
    v.isZero = (x == 0.0) := by
  cases v with
  | int i =>
      by_cases hi : i = 0
      · subst hi
        obtain rfl := Option.some.inj (h.symm.trans (show _ = some _ from rfl))
        decide +kernel
      · exact (beq_false_of_ne hi).trans (Binary64.beq_zero_eq_false_of_ofInt? hi h).symm
  | float y =>
      obtain rfl := Option.some.inj h
      rfl
  | _ => cases h

namespace Kernel

/-- An operator that SmallIntegers and floats both have. -/
inductive Operator where
  | add
  | subtract
  | multiply
  | divide
  | less
  | greater
  | lessOrEqual
  | greaterOrEqual
deriving DecidableEq, Repr

namespace Operator

/-- The selector. -/
def selector : Operator → String
  | add => "+"
  | subtract => "-"
  | multiply => "*"
  | divide => "/"
  | less => "<"
  | greater => ">"
  | lessOrEqual => "<="
  | greaterOrEqual => ">="

/-- What is exact: a result that is a SmallInteger, and every comparison. -/
def exactly? (op : Operator) (a : Int) : Value → Option Value
  | .int b =>
    match op with
    | add => SmallInteger.value? (a + b)
    | subtract => SmallInteger.value? (a - b)
    | multiply => SmallInteger.value? (a * b)
    | divide => if b ≠ 0 ∧ b ∣ a then SmallInteger.value? (a / b) else none
    | less => some (.bool (a < b))
    | greater => some (.bool (a > b))
    | lessOrEqual => some (.bool (a ≤ b))
    | greaterOrEqual => some (.bool (a ≥ b))
  | _ => none

/-- The operation on doubles. -/
def onDoubles (op : Operator) (x y : Float) : Value :=
  match op with
  | add => .float (x + y)
  | subtract => .float (x - y)
  | multiply => .float (x * y)
  | divide => .float (x / y)
  | less => .bool (x < y)
  | greater => .bool (x > y)
  | lessOrEqual => .bool (x ≤ y)
  | greaterOrEqual => .bool (x ≥ y)

/-- The operation on a double and the double of a number, but for a quotient by zero. -/
def withDouble? (op : Operator) (x : Float) (b : Value) : Option Value :=
  if op = divide ∧ b.isZero then none else b.double?.map (op.onDoubles x)

/-- What an operator sent to a SmallInteger answers: what is exact, else the result on
doubles. -/
def answer? (op : Operator) (a : Int) (b : Value) : Option Value :=
  op.exactly? a b <|> (Binary64.ofInt? a).bind fun x => op.withDouble? x b

/-- What an operator sent to a SmallInteger comes to. -/
def result (op : Operator) (a : Int) (b : Value) : Except Fault Value := orFailed (op.answer? a b)

/-! ### The primitives -/

/-- The number of the primitive on SmallIntegers, and the primitive. -/
def onIntegers : Operator → Int × Primitive
  | add => (1, .integer .add)
  | subtract => (2, .integer .subtract)
  | multiply => (9, .integer .multiply)
  | divide => (10, .divide)
  | less => (3, .compareIntegers .less)
  | greater => (4, .compareIntegers .greater)
  | lessOrEqual => (5, .compareIntegers .lessOrEqual)
  | greaterOrEqual => (6, .compareIntegers .greaterOrEqual)

/-- The number of the primitive on floats, and the primitive. -/
def onFloats : Operator → Int × Primitive
  | add => (41, .float .add)
  | subtract => (42, .float .subtract)
  | multiply => (49, .float .multiply)
  | divide => (50, .divideFloats)
  | less => (43, .compareFloats .less)
  | greater => (44, .compareFloats .greater)
  | lessOrEqual => (45, .compareFloats .lessOrEqual)
  | greaterOrEqual => (46, .compareFloats .greaterOrEqual)

theorem tree?_integer (op : Operator) : tree? "SmallInteger" op.selector
    = some (retriedOnFloats op.selector op.onIntegers.1) := by
  cases op <;> rfl

theorem tree?_float (op : Operator) : tree? "Float" op.selector
    = some (byPrimitive op.selector op.onFloats.1 ["aNumber"]) := by
  cases op <;> rfl

theorem onIntegers_mem (op : Operator) : op.onIntegers ∈ Primitive.numbered := by
  cases op <;> decide

theorem onFloats_mem (op : Operator) : op.onFloats ∈ Primitive.numbered := by
  cases op <;> decide

/-- The primitive answers what is exact, and fails where nothing is. -/
theorem answers_integer (op : Operator) {a : Int} {b : Value} (ha : SmallInteger.holds a = true)
    (hb : ∀ i, b = .int i → SmallInteger.holds i = true) (m : Memory) :
    op.onIntegers.2.Answers m (.int a) [b] (op.exactly? a b) := by
  have hvalue := Primitive.integerValue_of_holds ha
  -- a result that is no SmallInteger is an overflow
  have hrange : ∀ (p : Primitive) (j : Int), p.attempt m (.int a) [b] = Primitive.inRange j →
      p.Answers m (.int a) [b] (SmallInteger.value? j) := by
    intro p j hattempt
    unfold SmallInteger.value?
    unfold Primitive.inRange at hattempt
    cases hj : SmallInteger.holds j with
    | true => exact hattempt.trans (if_pos hj)
    | false => exact ⟨_, hattempt.trans (if_neg (Bool.eq_false_iff.mp hj))⟩
  have hattempt : ∀ p : Primitive, p.argumentCount = 1 → p.attempt m (.int a) [b]
      = p.choose m (.int a) fun k => [b].getD k .nil := fun p hp => if_pos hp.symm
  cases b with
  | int i =>
      have hvalue' := Primitive.integerValue_of_holds (hb i rfl)
      cases op with
      | add | subtract | multiply =>
          refine hrange _ _ ((hattempt _ rfl).trans ?_)
          simp only [Primitive.choose, List.getD_cons_zero, hvalue, hvalue']
          rfl
      | less | greater | lessOrEqual | greaterOrEqual =>
          refine (hattempt _ rfl).trans ?_
          simp only [Primitive.choose, List.getD_cons_zero, hvalue, hvalue']
          rfl
      | divide =>
          have hdivide : Primitive.divide.attempt m (.int a) [.int i]
              = if i = 0 then .error .divisionByZero
                else if Int.fmod a i ≠ 0 then .error .inexactResult
                else Primitive.inRange (Int.fdiv a i) := by
            refine (hattempt _ rfl).trans ?_
            simp only [Primitive.choose, List.getD_cons_zero, hvalue, hvalue']
            rfl
          simp only [exactly?, onIntegers]
          by_cases hzero : i = 0
          · rw [if_neg fun h => h.1 hzero]
            exact ⟨_, hdivide.trans (if_pos hzero)⟩
          rw [if_neg hzero] at hdivide
          by_cases hdvd : i ∣ a
          · rw [if_pos ⟨hzero, hdvd⟩]
            rw [if_neg (not_not_intro (Int.fmod_eq_zero_of_dvd hdvd)),
              Int.fdiv_eq_ediv_of_dvd hdvd] at hdivide
            exact hrange _ _ hdivide
          · rw [if_neg fun h => hdvd h.2]
            exact ⟨_, hdivide.trans (if_pos fun h => hdvd (Int.dvd_of_fmod_eq_zero h))⟩
  | _ =>
      refine ⟨.typeMismatch, (hattempt op.onIntegers.2 (by cases op <;> rfl)).trans ?_⟩
      cases op <;>
      · simp only [Primitive.choose, onIntegers, hvalue]
        rfl

/-- The primitive on floats answers where the other is a number, but for a quotient by
zero. -/
theorem answers_float (op : Operator) (x : Float) {b : Value}
    (hb : ∀ i, b = .int i → SmallInteger.holds i = true) (m : Memory) :
    op.onFloats.2.Answers m (.float x) [b] (op.withDouble? x b) := by
  have hdouble := Primitive.withNumber_eq fun i h => Regime.natAbs_lt_of_holds (hb i h)
  unfold withDouble?
  -- a quotient alone can fail for another reason than what it is given
  by_cases hop : op = divide
  · subst hop
    have hattempt : Primitive.divideFloats.attempt m (.float x) [b]
        = Primitive.withNumber b fun y =>
          if y == 0.0 then .error .divisionByZero else .ok (.answer (.float (x / y))) := rfl
    rw [hdouble] at hattempt
    cases hy : b.double? with
    | none =>
        rw [hy] at hattempt
        rw [Option.map_none, ite_self]
        exact ⟨_, hattempt⟩
    | some y =>
        simp only [hy] at hattempt
        simp only [true_and, Value.isZero_of_double? hy]
        cases hbeq : y == 0.0 with
        | true => exact ⟨_, hattempt.trans (if_pos hbeq)⟩
        | false => exact hattempt.trans (if_neg (Bool.eq_false_iff.mp hbeq))
  · have hattempt : op.onFloats.2.attempt m (.float x) [b]
        = Primitive.withNumber b fun y => .ok (.answer (op.onDoubles x y)) := by
      cases op with
      | divide => exact absurd rfl hop
      | _ => rfl
    rw [hdouble] at hattempt
    rw [if_neg fun h => hop h.1]
    cases hy : b.double? with
    | none =>
        rw [hy] at hattempt
        exact ⟨_, hattempt⟩
    | some y =>
        rw [hy] at hattempt
        exact hattempt

/-! ### The dispatches -/

variable {settings : Settings} {m : Memory} {depth : Nat}

/-- What is exact is answered by the primitive. -/
theorem yields_exact (op : Operator) (he : m.Equipped settings) {a : Int} {b v : Value}
    (ha : SmallInteger.holds a = true) (hb : ∀ i, b = .int i → SmallInteger.holds i = true)
    (hexact : op.exactly? a b = some v) (body : List Node) (owner : Behavior)
    (callers : List FrameId) :
    m.Yields settings (depth + 1) (.activate ⟨.str op.selector, [.str "aNumber"], [], body,
      .int op.onIntegers.1, owner⟩ (.int a) [b] callers) (.ok v) := by
  have hanswers := op.answers_integer ha hb
  rw [hexact] at hanswers
  exact .byPrimitive he.primitive op.onIntegers_mem (List.nodup_singleton _) rfl
    (fun m' _ => hanswers m')
    rfl callers

/-- Code that sends an operator to a SmallInteger, where the result is exact. -/
theorem yields_call (op : Operator) (he : m.Equipped settings) {a : Int} {b v : Value}
    (ha : SmallInteger.holds a = true) (hb : ∀ i, b = .int i → SmallInteger.holds i = true)
    (hexact : op.exactly? a b = some v) {node arg : Node} {f : FrameId}
    (hsuper : node.isSuper = false)
    (hnode : m.Yields settings (depth + 1) (.evaluate node f) (.ok (.int a)))
    (harg : m.Yields settings (depth + 1) (.evaluate arg f) (.ok b)) :
    m.Yields settings (depth + 2) (.evaluate (.call node op.selector [arg]) f) (.ok v) :=
  .sendKernel he rfl op.tree?_integer hsuper hnode (.cons harg .nil) fun owner _ callers =>
    op.yields_exact he ha hb hexact _ owner callers

/-- The operator sent to a SmallInteger: its primitive answers what is exact, and else the
body sends the operator to the double. -/
theorem yields (op : Operator) (he : m.Equipped settings) {a : Int}
    (ha : SmallInteger.holds a = true) {b : Value}
    (hb : ∀ i, b = .int i → SmallInteger.holds i = true) (owner : Behavior)
    (callers : List FrameId) :
    m.Yields settings 10 (.activate ⟨.str op.selector, [.str "aNumber"], [],
      [.answer (.call (.call .self "asFloat" []) op.selector [argument "aNumber"])],
      .int op.onIntegers.1, owner⟩ (.int a) [b] callers) (op.result a b) := by
  have hanswers := op.answers_integer ha hb
  obtain ⟨x, hx⟩ := Option.isSome_iff_exists.mp
    (Binary64.isSome_ofInt? (Regime.natAbs_lt_of_holds ha))
  have hanswer : op.answer? a b = (op.exactly? a b <|> op.withDouble? x b) := by
    unfold answer?
    rw [hx, Option.bind_some]
  unfold result
  rw [hanswer]
  cases hexact : op.exactly? a b with
  | some v => exact op.yields_exact he ha hb hexact _ owner callers
  | none =>
      rw [hexact] at hanswers
      refine .byBody he.primitive op.onIntegers_mem (List.nodup_singleton _) rfl
        (fun m' _ => hanswers m')
        callers fun f m' method o => ?_
      -- the body sends the operator on, to the double and with the argument as it is
      have he' : m'.Equipped settings := he.of_registry o.aside.registry
      have hreads : m'.Yields settings 7 (.evaluate (argument "aNumber") f) (.ok b) :=
        o.yields_arg rfl rfl
      have hdouble : m'.Yields settings 7 (.evaluate (.call .self "asFloat" []) f)
          (.ok (.float x)) := by
        have hnode : tree? "SmallInteger" "asFloat" = some (byPrimitive "asFloat" 40 []) := rfl
        have hp : (40, Primitive.asFloat) ∈ Primitive.numbered := by decide
        refine .sendKernel he' rfl hnode rfl o.yields_self .nil fun owner next callers => ?_
        exact .byPrimitive he'.primitive hp List.nodup_nil rfl (fun m' _ =>
          Primitive.attempt_asFloat ha hx m') rfl callers
      exact .sendKernel he' rfl op.tree?_float rfl hdouble (.cons hreads .nil)
        fun owner next callers => .orFailed he'.primitive (he'.givesUp rfl) op.onFloats_mem
          (List.nodup_singleton _) rfl (fun m' _ => op.answers_float x hb m') callers

/-- Every send of an operator to a SmallInteger, with a SmallInteger, a float or what is no
number, ends with the result of the operator. -/
theorem send_yields (op : Operator) (he : m.Equipped settings) {a : Int}
    (ha : SmallInteger.holds a = true) {b : Value}
    (hb : ∀ i, b = .int i → SmallInteger.holds i = true) :
    m.SendYields settings 10 (.int a) op.selector [b] (op.result a b) :=
  Memory.SendYields.of_kernel he rfl op.tree?_integer fun owner _ callers =>
    op.yields he ha hb owner callers

/-- A quotient by zero goes through all the dispatches. -/
theorem send_yields_of_seven_by_zero : ∃ m', Kernel.memory.Aside [] m' ∧
    (Query.send (.int 7) (.str "/") [.int 0]).perform {} Kernel.memory
      = .error (.fault (.signalled "a primitive has failed")) m' :=
  divide.send_yields Kernel.memory_equipped (by decide) (fun _ h => Value.int.inj h ▸ by decide)
    (.query Kernel.memory) (.inl (by decide))

/-- What is too great for a SmallInteger is a double. -/
example : add.result SmallInteger.greatest (.int 1)
    = .ok (.float (Binary64.ofRatio false 1152921504606846975 1 + Binary64.ofRatio false 1 1)) :=
  rfl

end Operator

end Kernel

end Smalltalk
