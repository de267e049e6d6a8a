import Smalltalk.Proofs.Replies

/-!
# `Smalltalk.Proofs.Equality`: what is equal and what is the same

There is a `=` for SmallIntegers, one for floats, one for texts and symbols, and one for
everything else, and each has a `~=`. `Value.equal` is what all of them answer, in one
definition: numbers are compared by value and texts by their characters, and else equal is
what is identical. `equality_coheres` is the result. It says of all values that have the
comparing methods of the kernel (`Memory.Comparable`) what the four comparisons answer, and
that the answers agree with one another.

The proof goes by the class of the receiver. The long way is that of a SmallInteger and
something else: its primitive fails, the argument is asked whether it is a number, and if it
is, a block compares the doubles (`Memory.Follows.replies_integerEqual`).

An instance of a class that extends `SmallInteger`, `Float`, `String` or `Symbol` has the `=`
that was made for these, and is not equal to itself (`instances_compare`).
-/

set_option autoImplicit false

namespace Smalltalk

variable {settings : Settings} {m m' : Memory} {depth : Nat}

/-! ### The relations -/

namespace Value

/-- Whether two values are equal. -/
def equal : Value → Value → Bool
  | .int i, .float y => (Binary64.ofInt? i).any fun x => x == y
  | .float x, .int j => (Binary64.ofInt? j).any fun y => x == y
  | .text s _, .text t _ => s == t
  | a, b => a.identical b

/-- What is the same is one value, but for floats, where two zeros are the same, and for values
from outside, which go by their mark. -/
theorem cases_of_identical {a b : Value} (h : a.identical b = true) :
    a = b ∨ (∃ x y, a = .float x ∧ b = .float y ∧ (x == y) = true) ∨
      ∃ j k n, a = .foreign j n ∧ b = .foreign k n := by
  unfold identical at h
  split at h
  case h_1 => exact .inl rfl
  case h_4 x y => exact .inr (.inl ⟨x, y, rfl, rfl, h⟩)
  case h_5 s o t p =>
    obtain ⟨hs, ho⟩ := Bool.and_eq_true_iff.mp h
    rw [eq_of_beq hs, eq_of_beq ho]
    exact .inl rfl
  case h_11 j n k n' =>
    rw [eq_of_beq h]
    exact .inr (.inr ⟨j, k, n', rfl, rfl⟩)
  case h_12 => cases h
  all_goals
    rw [eq_of_beq h]
    exact .inl rfl

theorem identical_symm {a b : Value} (h : a.identical b = true) : b.identical a = true := by
  rcases cases_of_identical h with rfl | ⟨x, y, rfl, rfl, hxy⟩ | ⟨j, k, n, rfl, rfl⟩
  · exact h
  · exact (Binary64.beq_comm y x).trans hxy
  · exact beq_self_eq_true n

theorem identical_comm (a b : Value) : a.identical b = b.identical a :=
  Bool.eq_iff_iff.mpr ⟨identical_symm, identical_symm⟩

theorem identical_trans {a b c : Value} (hab : a.identical b = true)
    (hbc : b.identical c = true) : a.identical c = true := by
  rcases cases_of_identical hab with rfl | ⟨x, y, rfl, rfl, hxy⟩ | ⟨j, k, n, rfl, rfl⟩
  · exact hbc
  · rcases cases_of_identical hbc with rfl | ⟨_, z, heq, rfl, hyz⟩ | ⟨_, _, _, heq, -⟩
    · exact hab
    · cases heq
      exact Binary64.beq_trans hxy hyz
    · cases heq
  · rcases cases_of_identical hbc with rfl | ⟨_, _, heq, -⟩ | ⟨_, l, _, heq, rfl⟩
    · exact hab
    · cases heq
    · cases heq
      exact beq_self_eq_true n

theorem equal_comm (a b : Value) : a.equal b = b.equal a := by
  -- but for two numbers of different sorts and for two texts, it is a matter of identity
  cases a with
  | int i =>
      cases b with
      | float y => simp only [equal, Binary64.beq_comm]
      | _ =>
          simp only [equal]
          exact identical_comm _ _
  | float x =>
      cases b with
      | int j => simp only [equal, Binary64.beq_comm]
      | _ =>
          simp only [equal]
          exact identical_comm _ _
  | text s o =>
      cases b with
      | text t p => exact Bool.beq_comm
      | _ =>
          simp only [equal]
          exact identical_comm _ _
  | _ =>
      cases b <;> simp only [equal] <;> exact identical_comm _ _

/-- What is the same is equal. -/
theorem equal_of_identical {a b : Value} (h : a.identical b = true) : a.equal b = true := by
  rcases cases_of_identical h with rfl | ⟨x, y, rfl, rfl, -⟩ | ⟨j, k, n, rfl, rfl⟩
  · cases a with
    | text s o => exact beq_self_eq_true s
    | _ => exact h
  · exact h
  · exact h

/-- Whether a value is a number. -/
def isNumber : Value → Bool
  | .int _ | .float _ => true
  | _ => false

/-- The kernel class that has the comparing methods of a value. -/
def comparedAs : Value → String
  | .int _ => "SmallInteger"
  | .float _ => "Float"
  | .text _ _ | .symbol _ => "String"
  | _ => "Object"

end Value

/-! ### The primitives -/

namespace Primitive

/-- Comparing two SmallIntegers. -/
theorem attempt_compareIntegers (op : Comparison) {i j : Int} (hi : SmallInteger.holds i = true)
    (hj : SmallInteger.holds j = true) (m : Memory) :
    (compareIntegers op).attempt m (.int i) [.int j]
      = .ok (.answer (.bool (integersCompare op i j))) := by
  show (integerValue (.int i) >>= fun a => integerValue (.int j) >>= fun b => _) = _
  rw [integerValue_of_holds hi, integerValue_of_holds hj]
  rfl

/-- It fails where one of the two is no integer. -/
theorem attempt_compareIntegers_fails (op : Comparison) {v w : Value}
    (h : (∀ i, v ≠ .int i) ∨ ∀ j, w ≠ .int j) (m : Memory) :
    ∃ reason, (compareIntegers op).attempt m v [w] = .error reason := by
  have hfails : ∀ {v : Value}, (∀ i, v ≠ .int i) → integerValue v = .error .typeMismatch := by
    intro v hv
    cases v with
    | int i => exact absurd rfl (hv i)
    | _ => rfl
  show ∃ reason, (integerValue v >>= fun a => integerValue w >>= fun b => _) = _
  rcases h with hv | hw
  · rw [hfails hv]
    exact ⟨_, rfl⟩
  · rw [hfails hw]
    cases integerValue v <;> exact ⟨_, rfl⟩

theorem answers_compareIntegers (op : Comparison) {i : Int} (hi : SmallInteger.holds i = true)
    {w : Value} (hw : ∀ j, w = .int j → SmallInteger.holds j = true) (m : Memory) :
    (compareIntegers op).Answers m (.int i) [w]
      (match w with
        | .int j => some (.bool (integersCompare op i j))
        | _ => none) := by
  cases w with
  | int j => exact attempt_compareIntegers op hi (hw j rfl) m
  | _ =>
      refine attempt_compareIntegers_fails op (.inr fun j h => ?_) m
      cases h

/-- Comparing a float with a value. -/
theorem answers_compareFloats (op : Comparison) (x : Float) {w : Value}
    (hw : ∀ i, w = .int i → SmallInteger.holds i = true) (m : Memory) :
    (compareFloats op).Answers m (.float x) [w]
      (w.double?.map fun y => .bool (floatsCompare op x y)) := by
  have hattempt : (compareFloats op).attempt m (.float x) [w]
      = withNumber w fun y => .ok (.answer (.bool (floatsCompare op x y))) := rfl
  rw [withNumber_eq fun i h => Regime.natAbs_lt_of_holds (hw i h)] at hattempt
  cases hy : w.double? with
  | none =>
      rw [hy] at hattempt
      exact ⟨_, hattempt⟩
  | some y =>
      rw [hy] at hattempt
      exact hattempt

/-- Comparing texts and symbols. -/
theorem answers_equalTexts (v w : Value) (m : Memory) : equalTexts.Answers m v [w]
    (v.chars?.bind fun _ => w.chars?.map fun _ => .bool (v.equal w)) := by
  cases v <;> cases w <;> first | exact rfl | exact ⟨_, rfl⟩

end Primitive

/-! ### The methods -/

namespace Memory

variable {v w : Value} {className : String} {selectors : List String} {r : Except Fault Value}

/-- In a frame self and the argument of a method can be read. -/
structure Reads (m : Memory) (f : FrameId) (v : Value) (name : String) (w : Value) : Prop where
  self : ∀ settings depth, m.Yields settings (depth + 1) (.evaluate .self f) (.ok v)
  argument : ∀ settings depth,
    m.Yields settings (depth + 1) (.evaluate (Kernel.argument name) f) (.ok w)

/-- They can in the frame of a block of the method. -/
theorem Makes.reads_of_block {method : Method} {name : String} {callers callers' : List FrameId}
    {f h : FrameId} {m'' : Memory}
    (o : m.Makes (.ofActivation method v [name] [w] callers) f m')
    (ob : m'.Makes (m'.blockFrame f callers') h m'') : m''.Reads h v name w where
  self settings depth := by
    have hself := @Makes.yields_self settings depth _ _ _ _ ob
    unfold blockFrame at hself
    rwa [o.frame] at hself
  argument settings depth := by
    have hslots : ((m''.heap.frame f).slots.find? (.text name)) = some w := by
      rw [ob.aside.frame f o.there List.not_mem_nil, o.frame]
      exact Dictionary.find?_put_self ..
    refine .readOuter (.inr rfl) ob.there (Nat.lt_of_lt_of_le o.there ob.aside.heap.frames) ?_ ?_
      hslots
    · rw [ob.frame]
      show f :: (m'.heap.frame f).outer = [f]
      rw [o.frame]
    · rw [ob.frame]
      rfl

namespace Follows

variable (h : m.Follows v className selectors)

include h

/-- Whether two values are the same. -/
theorem replies_identical (hs : settings.KnowsPrimitives) (hmem : "==" ∈ selectors)
    (htree : Kernel.tree? className "==" = some (Kernel.byPrimitive "==" 110 ["anObject"]))
    (w : Value) : m.Replies settings 1 v "==" [w] (.ok (.bool (v.identical w))) := by
  have hp : (110, Primitive.identical) ∈ Primitive.numbered := by decide
  exact h.replies_primitive hmem (List.nodup_singleton _) rfl hs hp htree (fun _ _ => rfl) rfl

theorem replies_notIdentical (hs : settings.KnowsPrimitives) (hmem : "~~" ∈ selectors)
    (htree : Kernel.tree? className "~~" = some (Kernel.byPrimitiveOr "~~" 169 ["anObject"]
      (.call (.call .self "==" [Kernel.argument "anObject"]) "not" []))) (w : Value) :
    m.Replies settings 1 v "~~" [w] (.ok (.bool (!v.identical w))) := by
  have hp : (169, Primitive.notIdentical) ∈ Primitive.numbered := by decide
  exact h.replies_primitive hmem (List.nodup_singleton _) rfl hs hp htree (fun _ _ => rfl) rfl

/-- The `=` of most classes asks whether the values are the same. -/
theorem replies_equalObject (hmem : "=" ∈ selectors)
    (htree : Kernel.tree? className "=" = some (Kernel.answering "=" ["anObject"]
      (.call .self "==" [Kernel.argument "anObject"])))
    (hsame : m.Replies settings 1 v "==" [w] r) : m.Replies settings 4 v "=" [w] r :=
  h.replies_answering hmem (List.nodup_singleton _) rfl htree (fun _ => rfl)
    fun _ _ _ _ o => o.call_self hsame

/-- A `=` whose primitive fails for what is never equal. -/
theorem replies_equalOrFalse (hs : settings.KnowsPrimitives) (hmem : "=" ∈ selectors)
    {number : Int} {p : Primitive} (hp : (number, p) ∈ Primitive.numbered) {name : String}
    (htree : Kernel.tree? className "="
      = some (Kernel.byPrimitiveOr "=" number [name] (.bool false)))
    {answer : Option Value} (hanswers : ∀ m', m.Aside [] m' → p.Answers m' v [w] answer) :
    m.Replies settings 3 v "=" [w] (.ok (answer.getD (.bool false))) := by
  cases answer with
  | some u =>
      exact (h.replies_primitive hmem (List.nodup_singleton _) rfl hs hp htree hanswers
        rfl).deeper (by omega)
  | none =>
      exact h.replies_fallback hmem (List.nodup_singleton _) rfl hs hp htree (fun _ => rfl) hanswers
        fun _ _ _ _ _ => (Yields.literal (.bool false)).endsIn

/-- The `=` of SmallIntegers, when its primitive fails: the argument is asked whether it is a
number, and if it is, the double of the receiver is asked in a block whether it is equal. -/
theorem replies_equalInteger (he : m.Equipped settings) (hmem : "=" ∈ selectors)
    (htree : Kernel.tree? className "=" = some (Kernel.byPrimitiveOr "=" 7 ["aNumber"]
      (.call (.call (Kernel.argument "aNumber") "isNumber" []) "and:" [Node.blockOf []
        [.call (.call .self "asFloat" []) "=" [Kernel.argument "aNumber"]]])))
    (hfails : (∀ i, v ≠ .int i) ∨ ∀ j, w ≠ .int j) {p : Bool}
    (hnumber : m.Replies settings 3 w "isNumber" [] (.ok (.bool p)))
    (hblock : p = true → ∀ g m', m.Aside [] m' → m'.Reads g v "aNumber" w →
      m'.EndsIn settings depth (.evaluate (.call (.call .self "asFloat" []) "="
        [Kernel.argument "aNumber"]) g) r) :
    m.Replies settings (depth + 8) v "=" [w] (bif p then r else .ok (.bool false)) := by
  have hp : (7, Primitive.compareIntegers .equal) ∈ Primitive.numbered := by decide
  refine h.replies_fallback hmem (List.nodup_singleton _) rfl he.primitive hp htree (fun _ => rfl)
    (fun m' _ => Primitive.attempt_compareIntegers_fails .equal hfails m')
    fun f m' method callers o => ?_
  -- the block is made in the frame of the method, where self and the argument are
  refine .and (he.of_registry o.aside.registry) o.there (fun hp g m'' callers' ob => ?_) rfl ?_
  · exact hblock hp g m'' (o.aside.append ob.aside) (o.reads_of_block ob)
  · exact ((hnumber.aside o.aside).deeper (by omega)).call rfl
      (o.yields_arg rfl (Dictionary.find?_put_self ..)).endsIn .nil

end Follows

/-- A `~=` without a primitive, or with one that fails, answers the other boolean than `=`. -/
theorem Makes.ends_different (he : m.Equipped settings) {q : Bool} {name : String}
    (hequal : m.Replies settings (depth + 1) v "=" [w] (.ok (.bool q))) {f : FrameId}
    {method : Method} {callers : List FrameId}
    (o : m.Makes (.ofActivation method v [name] [w] callers) f m') :
    m'.EndsIn settings (depth + 4) (.evaluate (.call (.call .self "=" [Kernel.argument name]) "not"
      []) f) (.ok (.bool !q)) :=
  .not (he.of_registry o.aside.registry) rfl ((o.call_self hequal).deeper (by omega))

/-- The `~=` of numbers: a primitive answers, or else what `=` does not. -/
theorem Follows.replies_differentNumber (he : m.Equipped settings)
    (h : m.Follows v className selectors) (hmem : "~=" ∈ selectors) {number : Int} {p : Primitive}
    (hp : (number, p) ∈ Primitive.numbered)
    (htree : Kernel.tree? className "~=" = some (Kernel.byPrimitiveOr "~=" number ["aNumber"]
      (.call (.call .self "=" [Kernel.argument "aNumber"]) "not" []))) {q : Bool}
    (hequal : m.Replies settings (depth + 1) v "=" [w] (.ok (.bool q))) {answer : Option Value}
    (hanswers : ∀ m', m.Aside [] m' → p.Answers m' v [w] answer)
    (hother : ∀ u, answer = some u → u = .bool !q) :
    m.Replies settings (depth + 6) v "~=" [w] (.ok (.bool !q)) := by
  cases answer with
  | some u =>
      obtain rfl := hother u rfl
      exact (h.replies_primitive hmem (List.nodup_singleton _) rfl he.primitive hp htree hanswers
        rfl).deeper (by omega)
  | none =>
      exact h.replies_fallback hmem (List.nodup_singleton _) rfl he.primitive hp htree
        (fun _ => rfl) hanswers fun _ _ _ _ o => o.ends_different he hequal

end Memory

/-! ### Values that compare -/

/-- The methods by which values are compared. -/
def Kernel.comparing : List String := ["==", "~~", "=", "~=", "isNumber"]

/-- Values that can be compared: nil, booleans, SmallIntegers in range, floats, texts, symbols,
arrays, closures, and the classes and objects that have the comparing methods of `Object`. -/
def Memory.Comparable (m : Memory) (v : Value) : Prop :=
  match v with
  | .int i => SmallInteger.holds i = true
  | .object _ | .behavior _ => m.Follows v "Object" Kernel.comparing
  | .foreign _ _ => False
  | _ => True

namespace Memory.Comparable

variable {a b : Value}

theorem holds (h : m.Comparable a) : ∀ i, a = .int i → SmallInteger.holds i = true := by
  rintro i rfl
  exact h

/-- A value that can be compared has the methods of the class that it is compared as. -/
theorem follows (he : m.Equipped settings) (h : m.Comparable a) :
    m.Follows a a.comparedAs Kernel.comparing := by
  have hlike : ∀ className className', a.kernelClass? = some className →
      (∀ s ∈ Kernel.comparing, Kernel.tree? className' s = Kernel.tree? className s) →
      m.Follows a className' Kernel.comparing := fun className className' hclass hsame =>
    (he.follows hclass Kernel.comparing).like fun s hs => ⟨hs, hsame s hs⟩
  unfold Kernel.comparing at *
  cases a with
  | object _ => exact h
  | behavior _ => exact h
  | foreign _ _ => exact h.elim
  | bool q => cases q <;> exact hlike _ _ rfl fun s hs => by fin_cases hs <;> rfl
  | _ => exact hlike _ _ rfl fun s hs => by fin_cases hs <;> rfl

variable (he : m.Equipped settings)

include he

theorem replies_isNumber (h : m.Comparable a) :
    m.Replies settings 3 a "isNumber" [] (.ok (.bool a.isNumber)) := by
  have htree : Kernel.tree? a.comparedAs "isNumber"
      = some (Kernel.answering "isNumber" [] (.bool a.isNumber)) := by
    cases a <;> rfl
  exact (h.follows he).replies_answering (by decide) List.nodup_nil rfl htree (fun _ => rfl)
    fun f m' _ _ _ => (Yields.literal (.bool a.isNumber)).endsIn

theorem replies_identical (ha : m.Comparable a) (b : Value) :
    m.Replies settings 1 a "==" [b] (.ok (.bool (a.identical b))) :=
  (ha.follows he).replies_identical he.primitive (by decide) (by cases a <;> rfl) b

theorem replies_notIdentical (ha : m.Comparable a) (b : Value) :
    m.Replies settings 1 a "~~" [b] (.ok (.bool (!a.identical b))) :=
  (ha.follows he).replies_notIdentical he.primitive (by decide) (by cases a <;> rfl) b

/-- A float is equal to what has an equal double. -/
theorem replies_equalFloat (x : Float) (hb : m.Comparable b) :
    m.Replies settings 3 (.float x) "=" [b] (.ok (.bool ((Value.float x).equal b))) := by
  have hp : (47, Primitive.compareFloats .equal) ∈ Primitive.numbered := by decide
  have hfloat : m.Comparable (.float x) := trivial
  have hreply := (hfloat.follows he).replies_equalOrFalse he.primitive (by decide) hp rfl
    fun m' _ => Primitive.answers_compareFloats .equal x hb.holds m'
  have hsame : (b.double?.map fun y => Value.bool (Primitive.floatsCompare .equal x y)).getD
      (.bool false) = .bool ((Value.float x).equal b) := by
    cases b with
    | int j => simp only [Value.double?, Value.equal]; cases Binary64.ofInt? j <;> rfl
    | _ => rfl
  rwa [hsame] at hreply

/-- A SmallInteger is equal to a float that its double is equal to. -/
theorem replies_equalInteger {i : Int} (hi : SmallInteger.holds i = true) (hb : m.Comparable b) :
    m.Replies settings 12 (.int i) "=" [b] (.ok (.bool ((Value.int i).equal b))) := by
  have hint : m.Comparable (.int i) := hi
  have hfollows := hint.follows he
  by_cases hj : ∃ j, b = .int j
  -- of two integers the primitive decides
  · obtain ⟨j, rfl⟩ := hj
    have hp : (7, Primitive.compareIntegers .equal) ∈ Primitive.numbered := by decide
    exact (hfollows.replies_primitive (by decide) (List.nodup_singleton _) rfl he.primitive hp rfl
      (fun m' _ => Primitive.attempt_compareIntegers .equal hi hb m') rfl).deeper (by omega)
  -- and else the block, where the double of the receiver takes its place
  · obtain ⟨x, hx⟩ := Option.isSome_iff_exists.mp
      (Binary64.isSome_ofInt? (Regime.natAbs_lt_of_holds hi))
    have hother : ∀ j, b ≠ .int j := fun j h => hj ⟨j, h⟩
    have hdouble : m.Replies settings 1 (.int i) "asFloat" [] (.ok (.float x)) := by
      have hp : (40, Primitive.asFloat) ∈ Primitive.numbered := by decide
      exact (he.follows rfl ["asFloat"]).replies_primitive (List.mem_singleton_self _)
        List.nodup_nil rfl he.primitive hp rfl (fun m' _ => Primitive.attempt_asFloat hi hx m') rfl
    have hreply : m.Replies settings 12 (.int i) "=" [b]
        (bif b.isNumber then .ok (.bool ((Value.float x).equal b)) else .ok (.bool false)) := by
      refine hfollows.replies_equalInteger he (by decide) rfl (.inr hother)
        (hb.replies_isNumber he) fun _ g m' a reads => ?_
      refine ((replies_equalFloat he x hb).aside a).call rfl ?_
        (.cons (reads.argument settings 2) .nil)
      exact ((hdouble.aside a).call rfl (reads.self settings 0).endsIn .nil).deeper (by omega)
    have hsame : (bif b.isNumber then (.ok (.bool ((Value.float x).equal b))) else .ok (.bool false)
        : Except Fault Value) = .ok (.bool ((Value.int i).equal b)) := by
      cases b with
      | int j => exact absurd rfl (hother j)
      | float y => simp only [Value.isNumber, Value.equal, hx]; rfl
      | _ => rfl
    rwa [hsame] at hreply

/-- A text or symbol is equal to one of the same sort with the same characters. -/
theorem replies_equalText (ha : m.Comparable a) {s : String} (htext : a.chars? = some s)
    (b : Value) : m.Replies settings 3 a "=" [b] (.ok (.bool (a.equal b))) := by
  have hp : (503, Primitive.equalTexts) ∈ Primitive.numbered := by decide
  have htree : Kernel.tree? a.comparedAs "="
      = some (Kernel.byPrimitiveOr "=" 503 ["aString"] (.bool false)) := by
    cases a <;> first | rfl | cases htext
  have hreply := (ha.follows he).replies_equalOrFalse he.primitive (by decide) hp htree
    fun m' _ => Primitive.answers_equalTexts a b m'
  have hsame : (a.chars?.bind fun _ => b.chars?.map fun _ => Value.bool (a.equal b)).getD
      (.bool false) = .bool (a.equal b) := by
    rw [htext, Option.bind_some]
    -- to what has no characters neither a text nor a symbol is equal
    cases a <;> cases htext <;> cases b <;> rfl
  rwa [hsame] at hreply

/-- What a value replies that is asked whether it is equal to another. -/
theorem replies_equal (ha : m.Comparable a) (hb : m.Comparable b) :
    m.Replies settings 12 a "=" [b] (.ok (.bool (a.equal b))) := by
  have hobjects : a.comparedAs = "Object" → a.equal b = a.identical b →
      m.Replies settings 12 a "=" [b] (.ok (.bool (a.equal b))) := by
    intro hclass hsame
    have hfollows := ha.follows he
    rw [hclass] at hfollows
    rw [hsame]
    exact (hfollows.replies_equalObject (by decide) rfl
      (ha.replies_identical he b)).deeper (by omega)
  cases a with
  | int i => exact replies_equalInteger he ha hb
  | float x => exact (replies_equalFloat he x hb).deeper (by omega)
  | text s o => exact (replies_equalText he ha rfl b).deeper (by omega)
  | symbol s => exact (replies_equalText he ha rfl b).deeper (by omega)
  | _ => exact hobjects rfl rfl

/-- What a value replies that is asked whether it is different from another. -/
theorem replies_different (ha : m.Comparable a) (hb : m.Comparable b) :
    m.Replies settings 18 a "~=" [b] (.ok (.bool (!a.equal b))) := by
  have hfollows := ha.follows he
  have hequal := (ha.replies_equal he hb).deeper (show 12 ≤ 12 + 1 by omega)
  -- everything but numbers has a method that asks for equality and inverts it
  have hobjects : Kernel.tree? a.comparedAs "~=" = some (Kernel.answering "~=" ["anObject"]
      (.call (.call .self "=" [Kernel.argument "anObject"]) "not" [])) →
      m.Replies settings 18 a "~=" [b] (.ok (.bool (!a.equal b))) := fun htree =>
    hfollows.replies_answering (by decide) (List.nodup_singleton _) rfl htree (fun _ => rfl)
      fun _ _ _ _ o => o.ends_different he hequal
  cases a with
  | int i =>
      have hp : (8, Primitive.compareIntegers .different) ∈ Primitive.numbered := by decide
      refine hfollows.replies_differentNumber he (by decide) hp rfl hequal
        (fun m' _ => Primitive.answers_compareIntegers .different ha hb.holds m') fun u hu => ?_
      cases b with
      | int j => exact (Option.some.inj hu).symm
      | _ => cases hu
  | float x =>
      have hp : (48, Primitive.compareFloats .different) ∈ Primitive.numbered := by decide
      refine hfollows.replies_differentNumber he (by decide) hp rfl hequal
        (fun m' _ => Primitive.answers_compareFloats .different x hb.holds m') fun u hu => ?_
      obtain ⟨y, hy, rfl⟩ := Option.map_eq_some_iff.mp hu
      cases b with
      | int j =>
          have hy' : Binary64.ofInt? j = some y := hy
          simp only [Value.equal, hy']
          rfl
      | float z =>
          cases hy
          rfl
      | _ => cases hy
  | _ => exact hobjects rfl

end Memory.Comparable

/-! ### The results -/

/-- What the four comparisons answer, and how the answers agree with one another. -/
structure Memory.Coheres (settings : Settings) (m : Memory) : Prop where
  /-- `=` answers whether the values are equal, -/
  equal : ∀ a b, m.Comparable a → m.Comparable b →
    m.SendYields settings 18 a "=" [b] (.ok (.bool (a.equal b)))
  /-- `~=` whether they are not, -/
  different : ∀ a b, m.Comparable a → m.Comparable b →
    m.SendYields settings 18 a "~=" [b] (.ok (.bool (!a.equal b)))
  /-- `==` whether they are the same, -/
  identical : ∀ a b, m.Comparable a → m.Comparable b →
    m.SendYields settings 18 a "==" [b] (.ok (.bool (a.identical b)))
  /-- and `~~` whether they are not. -/
  notIdentical : ∀ a b, m.Comparable a → m.Comparable b →
    m.SendYields settings 18 a "~~" [b] (.ok (.bool (!a.identical b)))
  /-- Neither depends on which of the two is asked. -/
  equal_comm : ∀ a b : Value, a.equal b = b.equal a
  identical_comm : ∀ a b : Value, a.identical b = b.identical a
  /-- What is the same as the same is the same, and what is the same is equal. -/
  identical_trans : ∀ a b c : Value, a.identical b = true → b.identical c = true →
    a.identical c = true
  equal_of_identical : ∀ a b : Value, a.identical b = true → a.equal b = true

/-- With the methods of the kernel in place all comparisons are answered, and the answers
agree. -/
theorem equality_coheres (he : m.Equipped settings) : m.Coheres settings where
  equal _ _ ha hb := ((ha.replies_equal he hb).deeper (by omega)).sendYields
  different _ _ ha hb := (ha.replies_different he hb).sendYields
  identical _ b ha _ := ((ha.replies_identical he b).deeper (by omega)).sendYields
  notIdentical _ b ha _ := ((ha.replies_notIdentical he b).deeper (by omega)).sendYields
  equal_comm := Value.equal_comm
  identical_comm := Value.identical_comm
  identical_trans _ _ _ := Value.identical_trans
  equal_of_identical _ _ := Value.equal_of_identical

/-- Defines a class below another one and makes an instance of it. -/
def Kernel.withInstance (m : Memory) (name superclass : String) : Memory :=
  Command.run (Command.run m (.define (.str name) (.str superclass) .null .null))
    (.evaluate {} (.send (.behavior ⟨m.registry.classes.size, false⟩) (.str "basicNew") []))

/-- A system with a class below `Object`, a class below `String`, and an instance of each. -/
def Kernel.withInstances : Memory :=
  withInstance (withInstance memory "Plain" "Object") "Word" "String"

theorem Kernel.withInstances_equipped : withInstances.Equipped {} :=
  equipped_of_isInPlace (by decide +kernel)

/-- An instance of the first class and the class itself can be compared. -/
theorem coheres_of_plain_class : Kernel.withInstances.Coheres {} ∧
    Kernel.withInstances.Comparable (.object 0) ∧
    Kernel.withInstances.Comparable (.behavior ⟨15, false⟩) := by
  have he := Kernel.withInstances_equipped
  have hcomputed : Kernel.withInstances.registry.find? "Object" = some 0 ∧
      Kernel.withInstances.registry.find? "Class" = some 1 ∧
      Kernel.withInstances.classOf? (.object 0) = some ⟨15, false⟩ ∧
      Kernel.withInstances.registry.line ⟨15, false⟩
        = [⟨15, false⟩] ++ Kernel.withInstances.registry.line ⟨0, false⟩ ∧
      Kernel.withInstances.registry.line ⟨15, true⟩
        = [⟨15, true⟩, ⟨0, true⟩] ++ Kernel.withInstances.registry.line ⟨1, false⟩ ∧
      ∀ c ∈ [Behavior.mk 15 false, ⟨15, true⟩, ⟨0, true⟩], ∀ selector ∈ Kernel.comparing,
        (Kernel.withInstances.registry.table c).methods.contains (.text selector) = false := by
    decide +kernel
  obtain ⟨hobject, hclass, hinstance, hline, hmetaline, hown⟩ := hcomputed
  refine ⟨equality_coheres he, ?_, ?_⟩
  · refine he.follows_of_extends hinstance (by decide) ⟨0, _, hobject, hline, fun c hc => ?_⟩
    exact hown c (by simp_all)
  · have hfollows := he.follows_of_extends (v := .behavior ⟨15, false⟩) rfl (by decide)
      ⟨1, _, hclass, hmetaline, fun c hc => hown c (List.mem_cons_of_mem _ hc)⟩
    refine hfollows.like fun s hs => ⟨hs, ?_⟩
    unfold Kernel.comparing at hs
    fin_cases hs <;> rfl

/-- What `=` comes to between two instances of a class that extends a kernel class. -/
def Kernel.instancesEqual (className : String) (o p : ObjectId) : Except Fault Value :=
  if className = "SmallInteger" then .error failed
  else if className ∈ ["Float", "String", "Symbol"] then .ok (.bool false)
  else .ok (.bool (o == p))

/-- The methods that `==` and `=` are answered with, in some class or other. -/
def Kernel.equating : List String := ["==", "=", "isNumber", "asFloat", "primitiveFailed", "error:"]

section
variable {className : String} {o p : ObjectId} (he : m.Equipped settings)
  (ho : m.Follows (.object o) className Kernel.equating)

include he ho

/-- The `=` of SmallIntegers asks the double of its receiver, and no object has one. -/
theorem Memory.Follows.replies_equalNoInteger (hclass : className = "SmallInteger")
    (hp : m.Follows (.object p) className Kernel.equating) :
    m.Replies settings 17 (.object o) "=" [.object p] (.error Kernel.failed) := by
  subst hclass
  have hnumber : m.Replies settings 3 (.object p) "isNumber" [] (.ok (.bool true)) :=
    hp.replies_answering (by decide) List.nodup_nil rfl rfl (fun _ => rfl)
      fun f m' _ _ _ => (Yields.literal (.bool true)).endsIn
  have hdouble : m.Replies settings 7 (.object o) "asFloat" [] (.error Kernel.failed) := by
    have hp : (40, Primitive.asFloat) ∈ Primitive.numbered := by decide
    have hgives := ho.givesUp (by decide) (by decide) (by decide)
    have hfails : ∀ m', m.Aside [] m' → Primitive.asFloat.Answers m' (.object o) [] none :=
      fun _ _ => ⟨_, rfl⟩
    exact ho.replies_orFailed (by decide) List.nodup_nil rfl hgives he.primitive hp rfl hfails
  refine ho.replies_equalInteger he (by decide) rfl (.inl fun _ h => nomatch h) hnumber
    fun _ g m' a reads => ?_
  exact .call_of_fault ((hdouble.aside a).call rfl (reads.self settings 6).endsIn .nil)

/-- What an instance replies to `=`, by the kernel class that its own class extends. -/
theorem Memory.Follows.replies_instancesEqual (hthere : ∃ c ∈ Kernel.classes, c.name = className)
    (hp : m.Follows (.object p) className Kernel.equating) :
    m.Replies settings 17 (.object o) "=" [.object p] (Kernel.instancesEqual className o p) := by
  have hobject : Kernel.tree? className "==" = some (Kernel.byPrimitive "==" 110 ["anObject"]) →
      Kernel.tree? className "=" = some (Kernel.answering "=" ["anObject"]
        (.call .self "==" [Kernel.argument "anObject"])) →
      m.Replies settings 17 (.object o) "=" [.object p] (.ok (.bool (o == p))) :=
    fun hidentical hequal => (ho.replies_equalObject (by decide) hequal
      (ho.replies_identical he.primitive (by decide) hidentical _)).deeper (by omega)
  have hfalse : ∀ {number : Int} {q : Primitive} {name : String}, (number, q) ∈ Primitive.numbered →
      Kernel.tree? className "=" = some (Kernel.byPrimitiveOr "=" number [name] (.bool false)) →
      (∀ m', m.Aside [] m' → q.Answers m' (.object o) [.object p] none) →
      m.Replies settings 17 (.object o) "=" [.object p] (.ok (.bool false)) :=
    fun hq hequal hfails => (ho.replies_equalOrFalse he.primitive (by decide) hq hequal
      hfails).deeper (by omega)
  have htexts : Kernel.tree? className "="
        = some (Kernel.byPrimitiveOr "=" 503 ["aString"] (.bool false)) →
      m.Replies settings 17 (.object o) "=" [.object p] (.ok (.bool false)) :=
    fun hequal => hfalse (q := .equalTexts) (by decide) hequal fun _ _ => ⟨_, rfl⟩
  have hfloats : Kernel.tree? className "="
        = some (Kernel.byPrimitiveOr "=" 47 ["aNumber"] (.bool false)) →
      m.Replies settings 17 (.object o) "=" [.object p] (.ok (.bool false)) :=
    fun hequal => hfalse (q := .compareFloats .equal) (by decide) hequal fun _ _ => ⟨_, rfl⟩
  obtain ⟨c, hc, rfl⟩ := hthere
  unfold Kernel.classes at hc
  -- every kernel class has one of four methods for this
  fin_cases hc <;> first
    | exact hobject rfl rfl
    | exact ho.replies_equalNoInteger he rfl hp
    | exact hfloats rfl
    | exact htexts rfl

end

/-- Instances of a class that extends a kernel class are the same when they are one object. But
they are only equal then where the `=` of the kernel class is that of `Object`. -/
theorem instances_compare (he : m.Equipped settings) {className : String}
    (hthere : ∃ c ∈ Kernel.classes, c.name = className) {cls : ClassId}
    (hcls : m.registry.Extends ⟨cls, false⟩ className Kernel.equating) {o p : ObjectId}
    (ho : (m.heap.object o).cls = cls) (hp : (m.heap.object p).cls = cls) :
    m.SendYields settings 17 (.object o) "==" [.object p] (.ok (.bool (o == p))) ∧
      m.SendYields settings 17 (.object o) "=" [.object p] (Kernel.instancesEqual className o p) := by
  have hfollows : ∀ o, (m.heap.object o).cls = cls →
      m.Follows (.object o) className Kernel.equating := by
    rintro o rfl
    exact he.follows_of_extends rfl hthere hcls
  refine ⟨?_, ((hfollows o ho).replies_instancesEqual he hthere (hfollows p hp)).sendYields⟩
  have htree : Kernel.tree? className "==" = some (Kernel.byPrimitive "==" 110 ["anObject"]) := by
    obtain ⟨c, hc, rfl⟩ := hthere
    unfold Kernel.classes at hc
    fin_cases hc <;> rfl
  exact (((hfollows o ho).replies_identical he.primitive (by decide) htree _).deeper
    (by omega)).sendYields

/-- An instance of a class below `String` is the same as itself, but not equal to itself. -/
theorem not_equal_to_itself : ∃ m m' : Memory,
    (Query.send (.object 1) (.str "==") [.object 1]).perform {} Kernel.withInstances
        = .ok (.bool true) m ∧
      (Query.send (.object 1) (.str "=") [.object 1]).perform {} Kernel.withInstances
        = .ok (.bool false) m' := by
  have hcomputed : Kernel.withInstances.registry.find? "String" = some 12 ∧
      (Kernel.withInstances.heap.object 1).cls = 16 ∧
      Kernel.withInstances.registry.line ⟨16, false⟩
        = [⟨16, false⟩] ++ Kernel.withInstances.registry.line ⟨12, false⟩ ∧
      ∀ c ∈ [Behavior.mk 16 false], ∀ selector ∈ Kernel.equating,
        (Kernel.withInstances.registry.table c).methods.contains (.text selector) = false := by
    decide +kernel
  obtain ⟨hstring, hinstance, hline, hown⟩ := hcomputed
  obtain ⟨hsame, hequal⟩ := instances_compare Kernel.withInstances_equipped (by decide)
    ⟨12, _, hstring, hline, hown⟩ hinstance hinstance
  obtain ⟨m, -, hm⟩ := hsame (.query _) (.inl (by decide))
  obtain ⟨m', -, hm'⟩ := hequal (.query _) (.inl (by decide))
  exact ⟨m, m', hm, hm'⟩

end Smalltalk
