import Smalltalk.Proofs.Division
import Smalltalk.Proofs.Equality
import Smalltalk.Proofs.Instances
import Smalltalk.Proofs.Places

/-!
# `Smalltalk.Proofs.Verdict`: when primitives fail, and what they answer

A primitive that is about values alone asks for a receiver and arguments of certain kinds
(`Primitive.signature?`). Given something else it fails, first for the number of the
arguments and then for the kinds. Given what it asks for, it may still have a reason to fail
(`Primitive.trouble?`), and if it has none it answers (`Primitive.Answered`). These three
tables know nothing of the order in which a primitive looks at what it is given.
`primitives_have_verdicts` says that each primitive goes by them.

`Primitive.Decides` is what all checks have in common: they reject what does not fit, fail
for the trouble there is, and else pass something on. A primitive is put together from checks
as its signature is put together from kinds (`Decides.bind`).
-/

set_option autoImplicit false

namespace Smalltalk

variable {settings : Settings} {m : Memory} {receiver v : Value} {args : List Value}

/-! ### What primitives ask for -/

/-- How many elements or characters a value has. -/
def Memory.extent? (m : Memory) (v : Value) : Option Nat :=
  (m.part? .elements v).map Array.size <|> v.chars?.map String.length

/-- What may be asked of a receiver or an argument. -/
inductive Kind where
  | anything
  | smallInteger
  | number
  | float
  | text
  | closure
  | object
  /-- With elements or characters. -/
  | readable
  /-- With elements. -/
  | writable
  /-- A class that makes instances. -/
  | maker
  /-- A class that makes instances with elements. -/
  | sizedMaker
deriving DecidableEq, Repr

/-- What is of a kind. Booleans are not integers, and integers out of range are numbers but
not SmallIntegers. -/
def Kind.Holds (m : Memory) : Kind → Value → Prop
  | anything, _ => True
  | smallInteger, v => ∃ i, v = .int i ∧ SmallInteger.holds i = true
  | number, v => v.isNumber = true
  | float, v => ∃ x, v = .float x
  | text, v => ∃ s, v.chars? = some s
  | closure, v => ∃ c, v = .closure c
  | object, v => ∃ o, v = .object o
  | readable, v => ∃ n, m.extent? v = some n
  | writable, v => ∃ xs, m.part? .elements v = some xs
  | maker, v => ∃ c, v = .behavior ⟨c, false⟩ ∧ (m.registry.entry c).name ∉ uninstantiable
  | sizedMaker, v => ∃ c, v = .behavior ⟨c, false⟩ ∧
      (m.registry.entry c).name ∉ uninstantiable ∧ m.registry.isIndexable ⟨c, false⟩ = true

/-- The kinds of the receiver and of the arguments. -/
structure Signature where
  receiver : Kind
  args : List Kind
deriving DecidableEq, Repr

/-- Receiver and arguments are what is asked for. -/
def Signature.Fits (σ : Signature) (m : Memory) (receiver : Value) (args : List Value) : Prop :=
  σ.receiver.Holds m receiver ∧ List.Forall₂ (Kind.Holds m) σ.args args

namespace Primitive

/-- What a primitive asks for. Those that run closures, print, signal or ask for the class
are not among them. -/
def signature? : Primitive → Option Signature
  | integer _ | compareIntegers _ | divide | modulo | floorDivide =>
    some ⟨.smallInteger, [.smallInteger]⟩
  | asFloat => some ⟨.smallInteger, []⟩
  | float _ | compareFloats _ | divideFloats => some ⟨.float, [.number]⟩
  | fetch => some ⟨.readable, [.smallInteger]⟩
  | store => some ⟨.writable, [.smallInteger, .anything]⟩
  | count => some ⟨.readable, []⟩
  | new => some ⟨.maker, []⟩
  | newSized => some ⟨.sizedMaker, [.smallInteger]⟩
  | fetchSlot => some ⟨.object, [.smallInteger]⟩
  | storeSlot => some ⟨.object, [.smallInteger, .anything]⟩
  | identical | notIdentical => some ⟨.anything, [.anything]⟩
  | arity => some ⟨.closure, []⟩
  | join | equalTexts => some ⟨.text, [.text]⟩
  | classOf | call _ | callWithArray | print | signal | whileTrue | whileFalse => none

/-! ### Failing and answering -/

/-- An index has to be one of the numbers from one up to a size. -/
def outside? (size : Option Nat) : Value → Option Reason
  | .int i => size.bind fun n => if 1 ≤ i ∧ i ≤ n then none else some .indexOutOfBounds
  | _ => none

/-- Why a primitive fails that is given what it asks for. -/
def trouble? (m : Memory) : Primitive → Value → List Value → Option Reason
  | integer op, .int a, [.int b] =>
    if SmallInteger.holds (onIntegers op a b) then none else some .overflow
  | divide, .int a, [.int b] =>
    if b = 0 then some .divisionByZero
    else if ¬ b ∣ a then some .inexactResult
    else if a = SmallInteger.least ∧ b = -1 then some .overflow
    else none
  | floorDivide, .int a, [.int b] =>
    if b = 0 then some .divisionByZero
    else if a = SmallInteger.least ∧ b = -1 then some .overflow
    else none
  | modulo, _, [b] | divideFloats, _, [b] => if b.isZero then some .divisionByZero else none
  | fetch, x, [i] => outside? (m.extent? x) i
  | store, x, [i, _] => outside? ((m.part? .elements x).map Array.size) i
  | fetchSlot, x, [i] | storeSlot, x, [i, _] => outside? ((m.part? .slots x).map Array.size) i
  | newSized, _, [.int n] => if n < 0 then some .indexOutOfBounds else none
  | _, _, _ => none

/-- When a primitive fails, and why. -/
inductive Fails (p : Primitive) (σ : Signature) (m : Memory) (receiver : Value)
    (args : List Value) : Reason → Prop where
  | count (count : args.length ≠ σ.args.length) : Fails p σ m receiver args .argumentCount
  | kinds (count : args.length = σ.args.length) (misfit : ¬ σ.Fits m receiver args) :
    Fails p σ m receiver args .typeMismatch
  | trouble {reason : Reason} (fits : σ.Fits m receiver args)
    (trouble : p.trouble? m receiver args = some reason) : Fails p σ m receiver args reason

/-- What a primitive answers, and the memory it leaves. -/
inductive Answered (m : Memory) : Primitive → Value → List Value → Value → Memory → Prop where
  | integer (op : Arithmetic) (a b : Int) :
    Answered m (.integer op) (.int a) [.int b] (.int (onIntegers op a b)) m
  | compareIntegers (op : Comparison) (a b : Int) :
    Answered m (.compareIntegers op) (.int a) [.int b] (.bool (integersCompare op a b)) m
  | divide {a b q : Int} (exact : q * b = a) : Answered m .divide (.int a) [.int b] (.int q) m
  /-- The remainder that goes with a floored quotient has the sign of the divisor. -/
  | floorDivide {a b q r : Int} (divides : q * b + r = a) (less : r.natAbs < b.natAbs)
    (sign : r = 0 ∨ r.sign = b.sign) : Answered m .floorDivide (.int a) [.int b] (.int q) m
  | modulo {a b q r : Int} (divides : q * b + r = a) (less : r.natAbs < b.natAbs)
    (sign : r = 0 ∨ r.sign = b.sign) : Answered m .modulo (.int a) [.int b] (.int r) m
  | asFloat {a : Int} {x : Float} (double : Binary64.ofInt? a = some x) :
    Answered m .asFloat (.int a) [] (.float x) m
  | float (op : Arithmetic) (x : Float) {b : Value} {y : Float} (double : b.double? = some y) :
    Answered m (.float op) (.float x) [b] (.float (onFloats op x y)) m
  | compareFloats (op : Comparison) (x : Float) {b : Value} {y : Float}
    (double : b.double? = some y) :
    Answered m (.compareFloats op) (.float x) [b] (.bool (floatsCompare op x y)) m
  | divideFloats (x : Float) {b : Value} {y : Float} (double : b.double? = some y) :
    Answered m .divideFloats (.float x) [b] (.float (x / y)) m
  | fetch {x : Value} {xs : Array Value} {k : Nat} (elements : m.part? .elements x = some xs)
    (inside : k < xs.size) : Answered m .fetch x [.int (k + 1)] xs[k] m
  | fetchCharacter {x : Value} {s : String} {k : Nat} {c : Char} (chars : x.chars? = some s)
    (inside : s.toList[k]? = some c) :
    Answered m .fetch x [.int (k + 1)] (m.newText (String.singleton c)).2
      (m.newText (String.singleton c)).1
  | store {x : Value} {xs : Array Value} {k : Nat} (v : Value)
    (elements : m.part? .elements x = some xs) (inside : k < xs.size) :
    Answered m .store x [.int (k + 1), v] v (m.put .elements x k v)
  | count {x : Value} {n : Nat} (extent : m.extent? x = some n) : Answered m .count x [] (.int n) m
  | new {c : ClassId} {v : Value} {m' : Memory} (made : m.Instantiates c 0 v m') :
    Answered m .new (.behavior ⟨c, false⟩) [] v m'
  | newSized {c : ClassId} {k : Nat} {v : Value} {m' : Memory} (made : m.Instantiates c k v m') :
    Answered m .newSized (.behavior ⟨c, false⟩) [.int k] v m'
  | fetchSlot {x : Value} {xs : Array Value} {k : Nat} (slots : m.part? .slots x = some xs)
    (inside : k < xs.size) : Answered m .fetchSlot x [.int (k + 1)] xs[k] m
  | storeSlot {x : Value} {xs : Array Value} {k : Nat} (v : Value)
    (slots : m.part? .slots x = some xs) (inside : k < xs.size) :
    Answered m .storeSlot x [.int (k + 1), v] v (m.put .slots x k v)
  | identical (a b : Value) : Answered m .identical a [b] (.bool (a.identical b)) m
  | notIdentical (a b : Value) : Answered m .notIdentical a [b] (.bool (!a.identical b)) m
  | arity (c : ClosureId) : Answered m .arity (.closure c) [] (.int (m.heap.closure c).arity) m
  /-- The text may be one of the two, where the other is empty. -/
  | join {a b : Value} {s t : String} {origin : TextOrigin} {m' : Memory}
    (first : a.chars? = some s) (second : b.chars? = some t)
    (unchanged : m' = m ∨ m' = (m.newText (s ++ t)).1) :
    Answered m .join a [b] (.text (s ++ t) origin) m'
  | equalTexts (a b : Value) : Answered m .equalTexts a [b] (.bool (a.equal b)) m

/-- What a primitive counts, if it does. -/
def counted (m : Memory) : Primitive → Value → Nat
  | count, x => (m.extent? x).getD 0
  | arity, .closure c => (m.heap.closure c).arity
  | _, _ => 0

/-! ### Checks -/

/-- A check rejects what does not fit, fails for the trouble there is, and else passes
something on. -/
structure Decides {α : Type} (x : Except Reason α) (fits : Prop) (trouble : Option Reason)
    (passed : α → Prop) : Prop where
  rejects : ¬ fits → x = .error .typeMismatch
  fails : fits → ∀ reason, trouble = some reason → x = .error reason
  passes : fits → trouble = none → ∃ a, x = .ok a ∧ passed a

namespace Decides

variable {α β : Type} {x : Except Reason α} {go : α → Except Reason β} {fits fits' : Prop}
  {trouble : Option Reason} {passed : α → Prop} {passed' : β → Prop}

/-- A check that has no more to ask. -/
theorem of_fits (hfails : ∀ reason, trouble = some reason → x = .error reason)
    (hpasses : trouble = none → ∃ a, x = .ok a ∧ passed a) : Decides x True trouble passed where
  rejects h := absurd trivial h
  fails _ := hfails
  passes _ := hpasses

theorem of_misfit (h : ¬ fits) (hx : x = .error .typeMismatch) :
    Decides x fits trouble passed where
  rejects _ := hx
  fails hfits := absurd hfits h
  passes hfits := absurd hfits h

theorem congr (h : Decides x fits trouble passed) (hiff : fits ↔ fits') :
    Decides x fits' trouble passed where
  rejects hfits := h.rejects (hiff.not.mpr hfits)
  fails hfits := h.fails (hiff.mpr hfits)
  passes hfits := h.passes (hiff.mpr hfits)

/-- There are no other ways to fail. -/
theorem eq_error_iff (h : Decides x fits trouble passed) {reason : Reason} :
    x = .error reason ↔ ¬ fits ∧ reason = .typeMismatch ∨ fits ∧ trouble = some reason := by
  by_cases hfits : fits
  · cases htrouble : trouble with
    | some r =>
        rw [h.fails hfits r htrouble]
        exact ⟨fun heq => .inr ⟨hfits, congrArg some (Except.error.inj heq)⟩, fun hor =>
          congrArg _ (Option.some.inj (hor.resolve_left fun hmisfit => hmisfit.1 hfits).2)⟩
    | none =>
        obtain ⟨a, ha, -⟩ := h.passes hfits htrouble
        rw [ha]
        exact iff_of_false nofun (fun hor => hor.elim (fun hmisfit => hmisfit.1 hfits)
          fun hsome => nomatch hsome.2)
  · rw [h.rejects hfits]
    exact ⟨fun heq => .inl ⟨hfits, (Except.error.inj heq).symm⟩, fun hor =>
      congrArg _ (hor.resolve_right fun hsome => hfits hsome.1).2.symm⟩

theorem weaken {passed' : α → Prop} (h : Decides x fits trouble passed)
    (himp : ∀ a, passed a → passed' a) : Decides x fits trouble passed' where
  rejects := h.rejects
  fails := h.fails
  passes hfits hnone := by
    obtain ⟨a, ha, hpassed⟩ := h.passes hfits hnone
    exact ⟨a, ha, himp a hpassed⟩

/-- One check after another. Only the last may have more to say than that something does not
fit. -/
theorem bind (h : Decides x fits none passed)
    (hgo : ∀ a, passed a → Decides (go a) fits' trouble passed') :
    Decides (x >>= go) (fits ∧ fits') trouble passed' where
  rejects hfits := by
    by_cases hx : fits
    · obtain ⟨a, ha, hpassed⟩ := h.passes hx rfl
      rw [ha]
      exact (hgo a hpassed).rejects fun h' => hfits ⟨hx, h'⟩
    · rw [h.rejects hx]
      rfl
  fails hfits := by
    obtain ⟨a, ha, hpassed⟩ := h.passes hfits.1 rfl
    rw [ha]
    exact (hgo a hpassed).fails hfits.2
  passes hfits := by
    obtain ⟨a, ha, hpassed⟩ := h.passes hfits.1 rfl
    rw [ha]
    exact (hgo a hpassed).passes hfits.2

/-- What is passed on is put to use. -/
theorem map (h : Decides x fits trouble passed)
    (hgo : ∀ a, passed a → ∃ b, go a = .ok b ∧ passed' b) :
    Decides (x >>= go) fits trouble passed' where
  rejects hfits := by
    rw [h.rejects hfits]
    rfl
  fails hfits reason hreason := by
    rw [h.fails hfits reason hreason]
    rfl
  passes hfits hnone := by
    obtain ⟨a, ha, hpassed⟩ := h.passes hfits hnone
    rw [ha]
    exact hgo a hpassed

/-- A check that fails in some case. -/
theorem ite {c c' : Prop} [Decidable c] [Decidable c'] {reason : Reason} (hc : c ↔ c')
    (h : ¬ c' → Decides x True trouble passed) :
    Decides (if c then .error reason else x) True (if c' then some reason else trouble)
      passed := by
  by_cases hcase : c'
  · rw [if_pos (hc.mpr hcase), if_pos hcase]
    exact of_fits (fun _ h => congrArg _ (Option.some.inj h)) nofun
  · rw [if_neg (hc.not.mpr hcase), if_neg hcase]
    exact h hcase

end Decides

theorem decides_integerValue (m : Memory) (v : Value) :
    Decides (integerValue v) (Kind.smallInteger.Holds m v) none
      fun i => v = .int i ∧ SmallInteger.holds i = true where
  rejects h := by
    cases v with
    | int i => exact if_neg fun hi => h ⟨i, rfl, hi⟩
    | _ => rfl
  fails _ _ := nofun
  passes h _ := by
    obtain ⟨i, rfl, hi⟩ := h
    exact ⟨i, integerValue_of_holds hi, rfl, hi⟩

theorem decides_floatValue (m : Memory) (v : Value) :
    Decides (floatValue v) (Kind.float.Holds m v) none fun x => v = .float x where
  rejects h := by
    cases v with
    | float x => exact absurd ⟨x, rfl⟩ h
    | _ => rfl
  fails _ _ := nofun
  passes h _ := by
    obtain ⟨x, rfl⟩ := h
    exact ⟨x, rfl, rfl⟩

theorem decides_withNumber (m : Memory) {v : Value} (hv : ∀ i, v = .int i → i.natAbs < 2 ^ 1023)
    {go : Float → Except Reason Action} {trouble : Option Reason} {passed : Action → Prop}
    (hgo : ∀ x, v.double? = some x → Decides (go x) True trouble passed) :
    Decides (withNumber v go) (Kind.number.Holds m v) trouble passed := by
  rw [withNumber_eq hv]
  cases hx : v.double? with
  | some x =>
      refine (hgo x hx).congr (iff_of_true trivial ?_)
      cases v with
      | int | float => rfl
      | _ => cases hx
  | none =>
      -- only what is no number has no double
      have hno : ¬ Kind.number.Holds m v := by
        intro h
        cases v with
        | int i =>
            have hsome := Binary64.isSome_ofInt? (hv i rfl)
            rw [show Binary64.ofInt? i = none from hx] at hsome
            cases hsome
        | float x => cases hx
        | _ => cases h
      exact ⟨fun _ => rfl, fun h => absurd h hno, fun h => absurd h hno⟩

theorem decides_place (m : Memory) (v : Value) (size : Nat) :
    Decides (place v size) (Kind.smallInteger.Holds m v) (outside? (some size) v)
      fun k => v = .int (k + 1) ∧ k < size := by
  refine .congr ((decides_integerValue m v).bind fun i hi => ?_) (and_iff_left trivial)
  obtain ⟨rfl, -⟩ := hi
  refine .of_fits (fun reason hreason => ?_) fun hnone => ?_
  · change (if _ then _ else _) = _ at hreason
    split at hreason
    · cases hreason
    · rename_i hbounds
      obtain rfl := Option.some.inj hreason
      exact if_neg hbounds
  · change (if _ then _ else _) = _ at hnone
    split at hnone
    · rename_i hbounds
      refine ⟨(i - 1).toNat, if_pos hbounds, ?_, ?_⟩
      · congr 1
        omega
      · omega
    · cases hnone

theorem decides_inRange (i : Int) :
    Decides (inRange i) True (if SmallInteger.holds i then none else some .overflow)
      fun action => SmallInteger.holds i = true ∧ action = .answer (.int i) := by
  unfold inRange
  split
  · rename_i hi
    exact .of_fits nofun fun _ => ⟨_, rfl, hi, rfl⟩
  · exact .of_fits (fun _ h => congrArg _ (Option.some.inj h)) nofun

/-! ### The primitives one by one -/

/-- What is done comes to what the primitive answers, if there is room for what it counts. -/
def Comes (settings : Settings) (p : Primitive) (m : Memory) (receiver : Value)
    (args : List Value) (action : Action) : Prop :=
  ∃ v m', Answered m p receiver args v m' ∧ (p.counted m receiver ≤ settings.room →
    ∀ rec f, Eval.perform settings rec f action m = .ok v m')

theorem Comes.answer {p : Primitive} (h : Answered m p receiver args v m) :
    p.Comes settings m receiver args (.answer v) :=
  ⟨v, m, h, fun _ _ _ => rfl⟩

/-- A primitive goes by its signature, by the trouble there is and by what it answers. -/
def GoesBy (settings : Settings) (p : Primitive) (σ : Signature) (m : Memory) (receiver : Value)
    (args : List Value) : Prop :=
  Decides (p.attempt m receiver args) (σ.Fits m receiver args) (p.trouble? m receiver args)
    (p.Comes settings m receiver args)

section
variable (k : Kind) (m : Memory) (x : Value)

theorem fits_nil : Signature.Fits ⟨k, []⟩ m x [] ↔ k.Holds m x :=
  and_iff_left .nil

theorem fits_singleton (l : Kind) (a : Value) :
    Signature.Fits ⟨k, [l]⟩ m x [a] ↔ k.Holds m x ∧ l.Holds m a := by
  unfold Signature.Fits
  rw [List.forall₂_cons, and_iff_left List.Forall₂.nil]

theorem fits_pair (a b : Value) :
    Signature.Fits ⟨k, [.smallInteger, .anything]⟩ m x [a, b]
      ↔ k.Holds m x ∧ Kind.smallInteger.Holds m a := by
  unfold Signature.Fits
  rw [List.forall₂_cons, List.forall₂_cons, and_iff_left List.Forall₂.nil,
    and_iff_left (show Kind.anything.Holds m b from trivial)]

end

/-- A primitive on two SmallIntegers. -/
theorem goesBy_onIntegers {p : Primitive} {go : Int → Int → Except Reason Action}
    {a b : Value} (hgo : p.attempt m a [b]
      = integerValue a >>= fun a => integerValue b >>= fun b => go a b)
    (h : ∀ i j, SmallInteger.holds i = true → SmallInteger.holds j = true →
      Decides (go i j) True (p.trouble? m (.int i) [.int j])
        (p.Comes settings m (.int i) [.int j])) :
    p.GoesBy settings ⟨.smallInteger, [.smallInteger]⟩ m a [b] := by
  unfold GoesBy
  rw [hgo]
  refine .congr ((decides_integerValue m a).bind fun i hi => ?_) (fits_singleton _ m a _ b).symm
  obtain ⟨rfl, hi⟩ := hi
  refine .congr ((decides_integerValue m b).bind fun j hj => ?_) (and_iff_left trivial)
  obtain ⟨rfl, hj⟩ := hj
  exact h i j hi hj

theorem goesBy_integer (op : Arithmetic) (a b : Value) :
    (integer op).GoesBy settings ⟨.smallInteger, [.smallInteger]⟩ m a [b] := by
  refine goesBy_onIntegers rfl fun i j _ _ => ?_
  refine (decides_inRange (onIntegers op i j)).weaken fun action h => ?_
  obtain ⟨-, rfl⟩ := h
  exact .answer (.integer op i j)

theorem goesBy_compareIntegers (op : Comparison) (a b : Value) :
    (compareIntegers op).GoesBy settings ⟨.smallInteger, [.smallInteger]⟩ m a [b] :=
  goesBy_onIntegers rfl fun i j _ _ =>
    .of_fits nofun fun _ => ⟨_, rfl, .answer (.compareIntegers op i j)⟩

/-- The floored quotient of SmallIntegers is out of range in one case. -/
theorem decides_floored {i j : Int} (hi : SmallInteger.holds i = true) (hj : j ≠ 0) :
    Decides (inRange (Int.fdiv i j)) True
      (if i = SmallInteger.least ∧ j = -1 then some .overflow else none)
      fun action => action = .answer (.int (Int.fdiv i j)) := by
  have hrange := holds_fdiv_iff hi hj
  unfold inRange
  by_cases hleast : i = SmallInteger.least ∧ j = -1
  · rw [if_pos hleast, if_neg fun h => hrange.mp h hleast]
    exact .of_fits (fun _ h => congrArg _ (Option.some.inj h)) nofun
  · rw [if_neg hleast, if_pos (hrange.mpr hleast)]
    exact .of_fits nofun fun _ => ⟨_, rfl, rfl⟩

theorem goesBy_divide (a b : Value) :
    divide.GoesBy settings ⟨.smallInteger, [.smallInteger]⟩ m a [b] := by
  refine goesBy_onIntegers rfl fun i j hi hj => ?_
  refine .ite Iff.rfl fun hzero => .ite ?_ fun hdvd => ?_
  · exact ⟨fun h hdvd => h (Int.fmod_eq_zero_of_dvd hdvd),
      fun h hfmod => h (Int.dvd_of_fmod_eq_zero hfmod)⟩
  · refine (decides_floored hi hzero).weaken fun action h => ?_
    subst h
    exact .answer (.divide (Int.fdiv_mul_cancel (not_not.mp hdvd)))

theorem goesBy_floorDivide (a b : Value) :
    floorDivide.GoesBy settings ⟨.smallInteger, [.smallInteger]⟩ m a [b] := by
  refine goesBy_onIntegers rfl fun i j hi hj => .ite Iff.rfl fun hzero => ?_
  refine (decides_floored hi hzero).weaken fun action h => ?_
  subst h
  obtain ⟨hless, hsign⟩ := fmod_spec (a := i) hzero
  exact .answer (.floorDivide (Int.fdiv_mul_add_fmod i j) hless hsign)

theorem goesBy_modulo (a b : Value) :
    modulo.GoesBy settings ⟨.smallInteger, [.smallInteger]⟩ m a [b] := by
  refine goesBy_onIntegers rfl fun i j hi hj => .ite beq_iff_eq.symm fun hzero => ?_
  obtain ⟨hless, hsign⟩ := fmod_spec (a := i) (beq_iff_eq.not.mp hzero)
  exact .of_fits nofun fun _ => ⟨_, rfl, .answer (.modulo (Int.fdiv_mul_add_fmod i j) hless hsign)⟩

theorem goesBy_asFloat (a : Value) : asFloat.GoesBy settings ⟨.smallInteger, []⟩ m a [] := by
  refine .congr ((decides_integerValue m a).map fun i hi => ?_) (fits_nil _ m a).symm
  obtain ⟨rfl, hi⟩ := hi
  obtain ⟨x, hx⟩ := Option.isSome_iff_exists.mp
    (Binary64.isSome_ofInt? (Regime.natAbs_lt_of_holds hi))
  refine ⟨.answer (.float x), ?_, .answer (.asFloat hx)⟩
  simp only [withNumber, hx]
  rfl

/-- A primitive on a float and a number. -/
theorem goesBy_onFloats {p : Primitive} {go : Float → Float → Except Reason Action}
    {a b : Value} (hgo : p.attempt m a [b] = floatValue a >>= fun a => withNumber b (go a))
    (hb : ∀ i, b = .int i → i.natAbs < 2 ^ 1023)
    (h : ∀ x y, b.double? = some y →
      Decides (go x y) True (p.trouble? m (.float x) [b]) (p.Comes settings m (.float x) [b])) :
    p.GoesBy settings ⟨.float, [.number]⟩ m a [b] := by
  unfold GoesBy
  rw [hgo]
  refine .congr ((decides_floatValue m a).bind fun x hx => ?_) (fits_singleton _ m a _ b).symm
  subst hx
  exact decides_withNumber m hb fun y hy => h x y hy

theorem goesBy_float (op : Arithmetic) (a : Value) {b : Value}
    (hb : ∀ i, b = .int i → i.natAbs < 2 ^ 1023) :
    (float op).GoesBy settings ⟨.float, [.number]⟩ m a [b] :=
  goesBy_onFloats rfl hb fun x _ hy =>
    .of_fits nofun fun _ => ⟨_, rfl, .answer (.float op x hy)⟩

theorem goesBy_compareFloats (op : Comparison) (a : Value) {b : Value}
    (hb : ∀ i, b = .int i → i.natAbs < 2 ^ 1023) :
    (compareFloats op).GoesBy settings ⟨.float, [.number]⟩ m a [b] :=
  goesBy_onFloats rfl hb fun x _ hy =>
    .of_fits nofun fun _ => ⟨_, rfl, .answer (.compareFloats op x hy)⟩

theorem goesBy_divideFloats (a : Value) {b : Value}
    (hb : ∀ i, b = .int i → i.natAbs < 2 ^ 1023) :
    divideFloats.GoesBy settings ⟨.float, [.number]⟩ m a [b] :=
  goesBy_onFloats rfl hb fun x y hy =>
    .ite (by rw [Value.isZero_of_double? hy]) fun _ =>
      .of_fits nofun fun _ => ⟨_, rfl, .answer (.divideFloats x hy)⟩

/-- Fetching from a part that is there. -/
theorem decides_fetch (part : Part) {x : Value} {xs : Array Value}
    (hx : m.part? part x = some xs) (i : Value) :
    Decides (part.fetch.2.attempt m x [i]) (Kind.smallInteger.Holds m i)
      (outside? (some xs.size) i) (part.fetch.2.Comes settings m x [i]) := by
  rw [Part.attempt_fetch hx]
  refine (decides_place m i xs.size).map fun k hk => ⟨_, rfl, ?_⟩
  obtain ⟨rfl, hk⟩ := hk
  have hget : xs.getD k .nil = xs[k] := (Array.getElem_eq_getD _).symm
  rw [hget]
  cases part with
  | elements => exact .answer (.fetch hx hk)
  | slots => exact .answer (.fetchSlot hx hk)

/-- Storing into a part that is there. -/
theorem decides_store (part : Part) {x : Value} {xs : Array Value}
    (hx : m.part? part x = some xs) (i v : Value) :
    Decides (part.store.2.attempt m x [i, v]) (Kind.smallInteger.Holds m i)
      (outside? (some xs.size) i) (part.store.2.Comes settings m x [i, v]) := by
  obtain ⟨action, hattempt, hperform, -⟩ := Part.attempt_store settings hx i v
  rw [hattempt]
  refine (decides_place m i xs.size).map fun k hk => ⟨_, rfl, ?_⟩
  obtain ⟨rfl, hk⟩ := hk
  refine ⟨v, m.put part x k v, ?_, fun _ rec f => hperform rec f k⟩
  cases part with
  | elements => exact .store v hx hk
  | slots => exact .storeSlot v hx hk

/-- Elements are counted, or characters, or there is nothing to count. -/
theorem extent?_cases (m : Memory) (x : Value) :
    (∃ xs, m.part? .elements x = some xs ∧ m.extent? x = some xs.size) ∨
      (∃ s, m.part? .elements x = none ∧ x.chars? = some s ∧ m.extent? x = some s.length) ∨
      m.part? .elements x = none ∧ x.chars? = none ∧ m.extent? x = none := by
  unfold Memory.extent?
  cases helements : m.part? .elements x with
  | some xs => exact .inl ⟨xs, rfl, rfl⟩
  | none =>
      cases hchars : x.chars? with
      | some s => exact .inr (.inl ⟨s, rfl, rfl, rfl⟩)
      | none => exact .inr (.inr ⟨rfl, rfl, rfl⟩)

/-- Fetching a character makes a text of it. -/
theorem decides_fetchCharacter {x : Value} {s : String} (hx : x.chars? = some s) (i : Value) :
    Decides (fetch.attempt m x [i]) (Kind.smallInteger.Holds m i) (outside? (some s.length) i)
      (fetch.Comes settings m x [i]) := by
  have hattempt : fetch.attempt m x [i] = place i s.length >>= fun k =>
      pure (.newText (String.ofList ((s.toList.drop k).take 1))) := by
    cases x with
    | text t o | symbol t =>
        obtain rfl := Option.some.inj hx
        rfl
    | _ => cases hx
  rw [hattempt]
  refine (decides_place m i s.length).map fun k hk => ⟨_, rfl, ?_⟩
  obtain ⟨rfl, hk⟩ := hk
  have hlist : k < s.toList.length := by
    rw [String.length_toList]
    exact hk
  have hchar : (s.toList.drop k).take 1 = [s.toList[k]] := by
    rw [List.drop_eq_getElem_cons hlist]
    rfl
  rw [hchar]
  exact ⟨_, _, .fetchCharacter hx (List.getElem?_eq_getElem hlist), fun _ _ _ => rfl⟩

theorem goesBy_fetch (x i : Value) :
    fetch.GoesBy settings ⟨.readable, [.smallInteger]⟩ m x [i] := by
  refine .congr ?_ (fits_singleton _ m x _ i).symm
  show Decides _ ((∃ n, m.extent? x = some n) ∧ _) (outside? (m.extent? x) i) _
  rcases extent?_cases m x with ⟨xs, hx, hextent⟩ | ⟨s, -, hx, hextent⟩ | ⟨helements, hx, hextent⟩
  · rw [hextent]
    exact (decides_fetch .elements hx i).congr (and_iff_right ⟨_, rfl⟩).symm
  · rw [hextent]
    exact (decides_fetchCharacter hx i).congr (and_iff_right ⟨_, rfl⟩).symm
  · rw [hextent]
    exact .of_misfit (fun h => nomatch h.1) (elementAt_of_missing helements hx i)

theorem goesBy_store (x i v : Value) :
    store.GoesBy settings ⟨.writable, [.smallInteger, .anything]⟩ m x [i, v] := by
  refine .congr ?_ (fits_pair _ m x i v).symm
  show Decides _ ((∃ xs, m.part? .elements x = some xs) ∧ _)
    (outside? ((m.part? .elements x).map Array.size) i) _
  cases helements : m.part? .elements x with
  | some xs => exact (decides_store .elements helements i v).congr (and_iff_right ⟨_, rfl⟩).symm
  | none => exact .of_misfit (fun h => nomatch h.1) (putElement_of_missing helements i v)

theorem goesBy_fetchSlot (x i : Value) :
    fetchSlot.GoesBy settings ⟨.object, [.smallInteger]⟩ m x [i] := by
  refine .congr ?_ (fits_singleton _ m x _ i).symm
  cases x with
  | object o => exact (decides_fetch .slots rfl i).congr (and_iff_right ⟨_, rfl⟩).symm
  | _ => exact .of_misfit (fun h => nomatch h.1) rfl

theorem goesBy_storeSlot (x i v : Value) :
    storeSlot.GoesBy settings ⟨.object, [.smallInteger, .anything]⟩ m x [i, v] := by
  refine .congr ?_ (fits_pair _ m x i v).symm
  cases x with
  | object o => exact (decides_store .slots rfl i v).congr (and_iff_right ⟨_, rfl⟩).symm
  | _ => exact .of_misfit (fun h => nomatch h.1) rfl

/-- What is counted is answered where there is room for it. -/
theorem comes_tally {p : Primitive} {n : Nat} (h : Answered m p receiver args (.int n) m)
    (hcounted : p.counted m receiver = n) : p.Comes settings m receiver args (.tally n) := by
  refine ⟨.int n, m, h, fun hroom rec f => ?_⟩
  have hperform : Eval.perform settings rec f (.tally n)
      = if n ≤ settings.room then pure (.int n) else throw .unfinished := rfl
  rw [hperform, if_pos (hcounted ▸ hroom)]
  rfl

theorem elementCount_eq (m : Memory) (x : Value) :
    elementCount m x = (m.extent? x).elim (.error .typeMismatch) .ok := by
  cases x with
  | object o =>
      unfold Memory.extent? Memory.part?
      cases helements : (m.heap.object o).elements <;>
      · simp only [elementCount, helements]
        rfl
  | _ => rfl

theorem goesBy_count (x : Value) : count.GoesBy settings ⟨.readable, []⟩ m x [] := by
  refine .congr ?_ (fits_nil _ m x).symm
  show Decides ((elementCount m x).map Action.tally) (∃ n, m.extent? x = some n) none _
  rw [elementCount_eq]
  cases hextent : m.extent? x with
  | none => exact .of_misfit (fun h => nomatch h) rfl
  | some n =>
      refine .congr (.of_fits nofun fun _ => ⟨_, rfl, ?_⟩) (iff_of_true trivial ⟨n, rfl⟩)
      exact comes_tally (.count hextent) (congrArg (Option.getD · 0) hextent)

theorem goesBy_arity (x : Value) : arity.GoesBy settings ⟨.closure, []⟩ m x [] := by
  refine .congr ?_ (fits_nil _ m x).symm
  cases x with
  | closure c =>
      exact .congr (.of_fits nofun fun _ => ⟨_, rfl, comes_tally (.arity c) rfl⟩)
        (iff_of_true trivial ⟨c, rfl⟩)
  | _ => exact .of_misfit (fun h => nomatch h) rfl

/-- What does not make instances is rejected by both primitives that ask for it. -/
theorem instantiable_eq_error {x : Value} (h : ¬ Kind.maker.Holds m x) :
    instantiable m x = .error .typeMismatch := by
  cases x with
  | behavior b =>
      obtain ⟨c, isMeta⟩ := b
      cases isMeta with
      | true => rfl
      | false =>
          rw [instantiable_class]
          exact if_pos (by_contra fun hmade => h ⟨c, rfl, hmade⟩)
  | _ => rfl

theorem comes_making {p : Primitive} {c : ClassId} {k : Nat}
    (h : ∀ v m', m.Instantiates c k v m' → Answered m p receiver args v m') :
    p.Comes settings m receiver args (making m c k) := by
  obtain ⟨v, m', hmade, hperform⟩ := perform_making settings m c k
  exact ⟨v, m', h v m' hmade, fun _ => hperform⟩

theorem goesBy_new (x : Value) : new.GoesBy settings ⟨.maker, []⟩ m x [] := by
  refine .congr ?_ (fits_nil _ m x).symm
  by_cases hx : Kind.maker.Holds m x
  · obtain ⟨c, rfl, hmade⟩ := hx
    rw [attempt_new, if_neg hmade]
    refine .congr (.of_fits nofun fun _ => ⟨_, rfl, ?_⟩) (iff_of_true trivial ⟨c, rfl, hmade⟩)
    exact comes_making fun v m' h => .new h
  · refine .of_misfit hx ?_
    show makeNew m x = _
    unfold makeNew
    rw [instantiable_eq_error hx]
    rfl

theorem goesBy_newSized (x size : Value) :
    newSized.GoesBy settings ⟨.sizedMaker, [.smallInteger]⟩ m x [size] := by
  refine .congr ?_ (fits_singleton _ m x _ size).symm
  by_cases hx : Kind.sizedMaker.Holds m x
  · obtain ⟨c, rfl, hmade, hindexable⟩ := hx
    rw [attempt_newSized, if_neg hmade, if_neg (ne_true_of_eq_false · hindexable)]
    refine .congr ((decides_integerValue m size).bind fun n hn => ?_)
      ((and_iff_left trivial).trans (and_iff_right ⟨c, rfl, hmade, hindexable⟩).symm)
    obtain ⟨rfl, -⟩ := hn
    refine .ite Iff.rfl fun hpositive => .of_fits nofun fun _ => ⟨_, rfl, ?_⟩
    obtain ⟨k, rfl⟩ := Int.eq_ofNat_of_zero_le (Int.not_lt.mp hpositive)
    exact comes_making fun v m' h => .newSized h
  · refine .of_misfit (fun h => hx h.1) ?_
    show makeSized m x size = _
    unfold makeSized
    by_cases hmaker : Kind.maker.Holds m x
    · obtain ⟨c, rfl, hmade⟩ := hmaker
      have hindexable : m.registry.isIndexable ⟨c, false⟩ = false :=
        Bool.eq_false_iff.mpr fun h => hx ⟨c, rfl, hmade, h⟩
      rw [instantiable_class, if_neg hmade]
      simp only [bind, Except.bind, hindexable, Bool.not_false, if_true]
    · rw [instantiable_eq_error hmaker]
      rfl

theorem goesBy_identical (a b : Value) :
    identical.GoesBy settings ⟨.anything, [.anything]⟩ m a [b] :=
  .congr (.of_fits nofun fun _ => ⟨_, rfl, .answer (.identical a b)⟩)
    (iff_of_true trivial ⟨trivial, .cons trivial .nil⟩)

theorem goesBy_notIdentical (a b : Value) :
    notIdentical.GoesBy settings ⟨.anything, [.anything]⟩ m a [b] :=
  .congr (.of_fits nofun fun _ => ⟨_, rfl, .answer (.notIdentical a b)⟩)
    (iff_of_true trivial ⟨trivial, .cons trivial .nil⟩)

/-- A primitive on two texts. -/
theorem goesBy_onTexts {p : Primitive} (go : Value → Value → Except Reason Action)
    (hgo : ∀ a b, p.attempt m a [b] = go a b) (htrouble : ∀ a b, p.trouble? m a [b] = none)
    (hreject : ∀ a b, a.chars? = none ∨ b.chars? = none → go a b = .error .typeMismatch)
    (h : ∀ a b s t, a.chars? = some s → b.chars? = some t →
      ∃ action, go a b = .ok action ∧ p.Comes settings m a [b] action) (a b : Value) :
    p.GoesBy settings ⟨.text, [.text]⟩ m a [b] := by
  refine .congr ?_ (fits_singleton _ m a _ b).symm
  rw [hgo, htrouble]
  show Decides _ ((∃ s, a.chars? = some s) ∧ ∃ t, b.chars? = some t) _ _
  cases ha : a.chars? with
  | none => exact .of_misfit (fun h => nomatch h.1) (hreject a b (.inl ha))
  | some s =>
      cases hb : b.chars? with
      | none => exact .of_misfit (fun h => nomatch h.2) (hreject a b (.inr hb))
      | some t =>
          exact .congr (.of_fits nofun fun _ => h a b s t ha hb)
            (iff_of_true trivial ⟨⟨s, rfl⟩, t, rfl⟩)

theorem goesBy_join (a b : Value) : join.GoesBy settings ⟨.text, [.text]⟩ m a [b] := by
  refine goesBy_onTexts joinTexts (fun _ _ => rfl) (fun _ _ => rfl) ?_ ?_ a b
  · intro a b h
    unfold joinTexts
    rcases h with h | h
    · rw [h]
    · rw [h]
      cases a.chars? <;> rfl
  · intro a b s t ha hb
    -- a text that was there before, with the other empty
    have hthere : ∀ u origin, s ++ t = u → join.Comes settings m a [b] (.answer (.text u origin)) :=
      fun _ origin h => h ▸ .answer (.join ha hb (.inl rfl))
    have hnew : join.Comes settings m a [b] (.newText (s ++ t)) :=
      ⟨_, _, .join ha hb (.inr rfl), fun _ _ _ => rfl⟩
    -- joining with an empty text changes nothing
    have hsecond : t.isEmpty = true → s ++ t = s := fun h => by
      rw [String.isEmpty_iff.mp h, String.append_empty]
    have hfirst : s.isEmpty = true → s ++ t = t := fun h => by
      rw [String.isEmpty_iff.mp h, String.empty_append]
    unfold joinTexts
    simp only [ha, hb]
    split
    · obtain rfl := Option.some.inj ha
      split
      · rename_i hempty
        exact ⟨_, rfl, hthere _ _ (hsecond hempty)⟩
      · split
        · rename_i hempty
          split
          · obtain rfl := Option.some.inj hb
            exact ⟨_, rfl, hthere _ _ (hfirst hempty)⟩
          · refine ⟨_, rfl, ?_⟩
            rw [hfirst hempty] at hnew
            exact hnew
        · exact ⟨_, rfl, hnew⟩
    · obtain rfl := Option.some.inj hb
      split
      · rename_i hempty
        exact ⟨_, rfl, hthere _ _ (hfirst hempty)⟩
      · exact ⟨_, rfl, hnew⟩
    · exact ⟨_, rfl, hnew⟩

theorem goesBy_equalTexts (a b : Value) : equalTexts.GoesBy settings ⟨.text, [.text]⟩ m a [b] := by
  refine goesBy_onTexts textsEqual (fun _ _ => rfl) (fun _ _ => rfl) ?_ ?_ a b
  · intro a b h
    cases a with
    | text | symbol =>
        cases b with
        | text | symbol => exact h.elim nofun nofun
        | _ => rfl
    | _ => rfl
  · intro a b s t ha hb
    refine ⟨.answer (.bool (a.equal b)), ?_, .answer (.equalTexts a b)⟩
    cases a with
    | text | symbol =>
        cases b with
        | text | symbol => rfl
        | _ => cases hb
    | _ => cases ha

/-! ### The result -/

theorem argumentCount_of_signature? {p : Primitive} {σ : Signature}
    (hp : p.signature? = some σ) : p.argumentCount = σ.args.length := by
  cases p <;> cases hp <;> rfl

/-- Given as many arguments as it takes, a primitive goes by its tables. -/
theorem goesBy_of_signature? {p : Primitive} {σ : Signature} (hp : p.signature? = some σ)
    (hargs : ∀ i, .int i ∈ args → i.natAbs < 2 ^ 1023) (hcount : args.length = σ.args.length) :
    p.GoesBy settings σ m receiver args := by
  cases p with
  | classOf | call | callWithArray | print | signal | whileTrue | whileFalse => cases hp
  -- these have no tables
  | integer op =>
      cases hp
      obtain ⟨b, rfl⟩ := List.length_eq_one_iff.mp hcount
      exact goesBy_integer op receiver b
  | compareIntegers op =>
      cases hp
      obtain ⟨b, rfl⟩ := List.length_eq_one_iff.mp hcount
      exact goesBy_compareIntegers op receiver b
  | divide =>
      cases hp
      obtain ⟨b, rfl⟩ := List.length_eq_one_iff.mp hcount
      exact goesBy_divide receiver b
  | modulo =>
      cases hp
      obtain ⟨b, rfl⟩ := List.length_eq_one_iff.mp hcount
      exact goesBy_modulo receiver b
  | floorDivide =>
      cases hp
      obtain ⟨b, rfl⟩ := List.length_eq_one_iff.mp hcount
      exact goesBy_floorDivide receiver b
  | asFloat =>
      cases hp
      obtain rfl := List.length_eq_zero_iff.mp hcount
      exact goesBy_asFloat receiver
  | float op =>
      cases hp
      obtain ⟨b, rfl⟩ := List.length_eq_one_iff.mp hcount
      exact goesBy_float op receiver fun i h => hargs i (h ▸ .head _)
  | compareFloats op =>
      cases hp
      obtain ⟨b, rfl⟩ := List.length_eq_one_iff.mp hcount
      exact goesBy_compareFloats op receiver fun i h => hargs i (h ▸ .head _)
  | divideFloats =>
      cases hp
      obtain ⟨b, rfl⟩ := List.length_eq_one_iff.mp hcount
      exact goesBy_divideFloats receiver fun i h => hargs i (h ▸ .head _)
  | fetch =>
      cases hp
      obtain ⟨b, rfl⟩ := List.length_eq_one_iff.mp hcount
      exact goesBy_fetch receiver b
  | store =>
      cases hp
      obtain ⟨i, v, rfl⟩ := List.length_eq_two.mp hcount
      exact goesBy_store receiver i v
  | count =>
      cases hp
      obtain rfl := List.length_eq_zero_iff.mp hcount
      exact goesBy_count receiver
  | new =>
      cases hp
      obtain rfl := List.length_eq_zero_iff.mp hcount
      exact goesBy_new receiver
  | newSized =>
      cases hp
      obtain ⟨b, rfl⟩ := List.length_eq_one_iff.mp hcount
      exact goesBy_newSized receiver b
  | fetchSlot =>
      cases hp
      obtain ⟨b, rfl⟩ := List.length_eq_one_iff.mp hcount
      exact goesBy_fetchSlot receiver b
  | storeSlot =>
      cases hp
      obtain ⟨i, v, rfl⟩ := List.length_eq_two.mp hcount
      exact goesBy_storeSlot receiver i v
  | identical =>
      cases hp
      obtain ⟨b, rfl⟩ := List.length_eq_one_iff.mp hcount
      exact goesBy_identical receiver b
  | notIdentical =>
      cases hp
      obtain ⟨b, rfl⟩ := List.length_eq_one_iff.mp hcount
      exact goesBy_notIdentical receiver b
  | arity =>
      cases hp
      obtain rfl := List.length_eq_zero_iff.mp hcount
      exact goesBy_arity receiver
  | join =>
      cases hp
      obtain ⟨b, rfl⟩ := List.length_eq_one_iff.mp hcount
      exact goesBy_join receiver b
  | equalTexts =>
      cases hp
      obtain ⟨b, rfl⟩ := List.length_eq_one_iff.mp hcount
      exact goesBy_equalTexts receiver b

/-- A wrong number of arguments is a failure whatever they are, and all else goes by the
tables. -/
theorem attempt_eq_error_iff {p : Primitive} {σ : Signature} (hp : p.signature? = some σ)
    (hargs : ∀ i, .int i ∈ args → i.natAbs < 2 ^ 1023) {reason : Reason} :
    p.attempt m receiver args = .error reason ↔ p.Fails σ m receiver args reason := by
  by_cases hcount : args.length = σ.args.length
  · have h : p.GoesBy {} σ m receiver args := goesBy_of_signature? hp hargs hcount
    rw [h.eq_error_iff]
    constructor
    · rintro (⟨hmisfit, rfl⟩ | ⟨hfits, htrouble⟩)
      · exact .kinds hcount hmisfit
      · exact .trouble hfits htrouble
    · rintro (hother | ⟨-, hmisfit⟩ | ⟨hfits, htrouble⟩)
      · exact absurd hcount hother
      · exact .inl ⟨hmisfit, rfl⟩
      · exact .inr ⟨hfits, htrouble⟩
  · -- the count is checked before anything else
    have hother : p.attempt m receiver args = .error .argumentCount :=
      if_neg (argumentCount_of_signature? hp ▸ hcount)
    rw [hother]
    constructor
    · intro h
      obtain rfl := Except.error.inj h
      exact .count hcount
    · rintro (- | ⟨hsame, -⟩ | ⟨hfits, -⟩)
      · rfl
      · exact absurd hsame hcount
      · exact absurd hfits.2.length_eq.symm hcount

end Primitive

/-- A primitive of a number fails exactly when it has to, and else it answers, if there is
room for what it counts. -/
structure Memory.Verdict (settings : Settings) (m : Memory) (number : Int) (p : Primitive)
    (σ : Signature) (receiver : Value) (args : List Value) : Prop where
  fails : ∀ reason, m.PrimitiveFails settings number receiver args reason ↔
    p.Fails σ m receiver args reason
  answers : (∀ reason, ¬ p.Fails σ m receiver args reason) →
    p.counted m receiver ≤ settings.room →
    ∃ v m', m.PrimitiveAnswers settings number receiver args v m' ∧
      p.Answered m receiver args v m'

/-- All primitives but those that run closures, print, signal or ask for the class have
something they ask for, and go by it whatever they are given. -/
theorem primitives_have_verdicts (hs : settings.KnowsPrimitives) {number : Int} {p : Primitive}
    (hp : (number, p) ∈ Primitive.numbered)
    (hnumber : number ∉ ([111, 201, 202, 203, 204, 205, 206, 501, 502, 510, 511] : List Int)) :
    ∃ σ, p.signature? = some σ ∧ ∀ (m : Memory) (receiver : Value) (args : List Value),
      (∀ i, .int i ∈ receiver :: args → i.natAbs < 2 ^ 1023) →
      m.Verdict settings number p σ receiver args := by
  have hsignature : ∀ q ∈ Primitive.numbered,
      q.1 ∉ ([111, 201, 202, 203, 204, 205, 206, 501, 502, 510, 511] : List Int) →
      q.2.signature?.isSome = true := by decide
  obtain ⟨σ, hσ⟩ := Option.isSome_iff_exists.mp (hsignature _ hp hnumber)
  refine ⟨σ, hσ, fun m receiver args hsmall => ?_⟩
  have hargs : ∀ i, .int i ∈ args → i.natAbs < 2 ^ 1023 := fun i hi => hsmall i (.tail _ hi)
  have hfails : ∀ reason, m.PrimitiveFails settings number receiver args reason ↔
      p.Fails σ m receiver args reason := fun _ =>
    (hs.fails_iff hp).trans (Primitive.attempt_eq_error_iff hσ hargs)
  refine ⟨hfails, fun hnone hroom => ?_⟩
  have hcount : args.length = σ.args.length := by_contra fun h => hnone _ (.count h)
  have hfits : σ.Fits m receiver args := by_contra fun h => hnone _ (.kinds hcount h)
  have htrouble : p.trouble? m receiver args = none :=
    Option.eq_none_iff_forall_ne_some.mpr fun reason h => hnone reason (.trouble hfits h)
  have hgoes : p.GoesBy settings σ m receiver args :=
    Primitive.goesBy_of_signature? hσ hargs hcount
  obtain ⟨action, hattempt, v, m', hanswered, hperform⟩ := hgoes.passes hfits htrouble
  exact ⟨v, m', hs.answers hp hattempt (hperform hroom), hanswered⟩

/-- Division in the system of the kernel. The number of the arguments comes before their
kinds, kinds before zero, and the least SmallInteger has no quotient by -1. -/
theorem verdicts_of_divide : (10, Primitive.divide) ∈ Primitive.numbered ∧
    Kernel.memory.PrimitiveFails {} 10 (.bool true) [] .argumentCount ∧
    Kernel.memory.PrimitiveFails {} 10 (.bool true) [.int 0] .typeMismatch ∧
    Kernel.memory.PrimitiveFails {} 10 (.int 7) [.int 0] .divisionByZero ∧
    Kernel.memory.PrimitiveFails {} 10 (.int 7) [.int 2] .inexactResult ∧
    Kernel.memory.PrimitiveFails {} 10 (.int SmallInteger.least) [.int (-1)] .overflow ∧
    ∃ m', Kernel.memory.PrimitiveAnswers {} 10 (.int 6) [.int 2] (.int 3) m' := by
  have hp : (10, Primitive.divide) ∈ Primitive.numbered := by decide
  obtain ⟨σ, hσ, hverdict⟩ :=
    primitives_have_verdicts Kernel.memory_equipped.primitive hp (by decide)
  obtain rfl := Option.some.inj hσ
  have hint : ∀ {i : Int}, SmallInteger.holds i = true →
      Kind.smallInteger.Holds Kernel.memory (.int i) := fun h => ⟨_, rfl, h⟩
  have hsmall : ∀ a b : Int, SmallInteger.holds a = true → SmallInteger.holds b = true →
      ∀ i, .int i ∈ [Value.int a, .int b] → i.natAbs < 2 ^ 1023 := by
    intro a b ha hb i hi
    simp only [List.mem_cons, Value.int.injEq, List.not_mem_nil, or_false] at hi
    rcases hi with rfl | rfl
    · exact Regime.natAbs_lt_of_holds ha
    · exact Regime.natAbs_lt_of_holds hb
  -- two SmallIntegers fit, and there may be trouble with them
  have htrouble : ∀ {a b : Int} {reason : Reason}, SmallInteger.holds a = true →
      SmallInteger.holds b = true →
      Primitive.divide.trouble? Kernel.memory (.int a) [.int b] = some reason →
      Kernel.memory.PrimitiveFails {} 10 (.int a) [.int b] reason := fun ha hb h =>
    ((hverdict _ _ _ (hsmall _ _ ha hb)).fails _).mpr
      (.trouble ⟨hint ha, .cons (hint hb) .nil⟩ h)
  have hbool : ∀ i, .int i ∈ [Value.bool true] → i.natAbs < 2 ^ 1023 := fun i hi => by
    cases List.mem_singleton.mp hi
  refine ⟨hp, ((hverdict _ _ _ hbool).fails _).mpr (.count (by decide)), ?_,
    htrouble (by decide) (by decide) (by decide), htrouble (by decide) (by decide) (by decide),
    htrouble (by decide) (by decide) (by decide), ?_⟩
  · refine ((hverdict _ _ _ ?_).fails _).mpr (.kinds rfl fun h => nomatch h.1)
    intro i hi
    rcases List.mem_cons.mp hi with hi | hi
    · cases hi
    · obtain rfl := Value.int.inj (List.mem_singleton.mp hi)
      exact Regime.natAbs_lt_of_holds (by decide)
  · have hnone : ∀ reason,
        ¬ Primitive.divide.Fails ⟨.smallInteger, [.smallInteger]⟩ Kernel.memory (.int 6) [.int 2]
          reason := by
      rintro reason (hcount | ⟨-, hmisfit⟩ | ⟨-, htrouble⟩)
      · exact hcount rfl
      · exact hmisfit ⟨hint (by decide), .cons (hint (by decide)) .nil⟩
      · cases htrouble
    obtain ⟨v, m', hanswers, hanswered⟩ :=
      (hverdict _ _ _ (hsmall 6 2 (by decide) (by decide))).answers hnone (Nat.zero_le _)
    refine ⟨m', ?_⟩
    cases hanswered with
    | divide hexact =>
        rename_i q
        obtain rfl : q = 3 := by omega
        exact hanswers

end Smalltalk
