import Smalltalk.Proofs.Wrap

/-!
# `Smalltalk.Proofs.Choice`: primitives decide alike in twin memories

What a primitive decides depends on the receiver, the arguments, and what the memory
has for them. In twin memories it decides on the same up to the renumbering of
closures (`Wrap.Twins.attempt`), and fails for the same reason. No primitive looks at
a frame.
-/

set_option autoImplicit false

namespace Smalltalk

namespace Wrap

/-- What an action is in the memory with the block. -/
def action (w : Wrap) : Action → Action
  | .answer v => .answer (w.value v)
  | .newArray elements => .newArray (elements.map w.value)
  | .setElement a i v => .setElement a i (w.value v)
  | .setIndexed o i v => .setIndexed o i (w.value v)
  | .setSlot o i v => .setSlot o i (w.value v)
  | .call c args => .call (w.toClosure c) (args.map w.value)
  | .loop condition body goOn => .loop (w.toClosure condition) (w.toClosure body) goOn
  | .print v => .print (w.value v)
  | .signal v => .signal (w.value v)
  | .refuse f => .refuse (w.fault f)
  | a => a

variable {w : Wrap} {m m' : Memory}

/-- What comes after a step that is the same is the same. -/
theorem bind_map {ε α β : Type} {x : Except ε α} {f f' : α → Except ε β} {g : β → β}
    (h : ∀ a, f' a = (f a).map g) : (x >>= f') = (x >>= f).map g := by
  cases x with
  | ok a => exact h a
  | error e => rfl

/-! ### Checks -/

theorem integerValue_value (v : Value) :
    Primitive.integerValue (w.value v) = Primitive.integerValue v := by
  cases v <;> rfl

theorem floatValue_value (v : Value) :
    Primitive.floatValue (w.value v) = Primitive.floatValue v := by
  cases v <;> rfl

theorem objectValue_value (v : Value) :
    Primitive.objectValue (w.value v) = Primitive.objectValue v := by
  cases v <;> rfl

theorem closureValue_value (v : Value) :
    Primitive.closureValue (w.value v) = (Primitive.closureValue v).map w.toClosure := by
  cases v <;> rfl

theorem chars?_value (v : Value) : (w.value v).chars? = v.chars? := by
  cases v <;> rfl

theorem place_value (index : Value) (size : Nat) :
    Primitive.place (w.value index) size = Primitive.place index size := by
  unfold Primitive.place
  rw [integerValue_value]

theorem Twins.instantiable (t : w.Twins m m') (v : Value) :
    Primitive.instantiable m' (w.value v) = Primitive.instantiable m v := by
  unfold Primitive.instantiable
  rw [t.registry]
  cases v <;> rfl

theorem inRange_action (i : Int) :
    Primitive.inRange i = (Primitive.inRange i).map w.action := by
  unfold Primitive.inRange
  split <;> rfl

theorem withNumber_value {go : Float → Except Reason Action}
    (hgo : ∀ x, go x = (go x).map w.action) (v : Value) :
    Primitive.withNumber (w.value v) go = (Primitive.withNumber v go).map w.action := by
  unfold Primitive.withNumber
  cases v with
  | float x => exact hgo x
  | int i =>
      simp only [value]
      cases Binary64.ofInt? i with
      | some x => exact hgo x
      | none => rfl
  | _ => rfl

/-! ### Operations -/

theorem getD_map (xs : Array Value) (i : Nat) :
    (xs.map w.value).getD i .nil = w.value (xs.getD i .nil) := by
  rw [Array.getD_eq_getD_getElem?, Array.getD_eq_getD_getElem?, Array.getElem?_map]
  cases xs[i]? <;> rfl

theorem list_getD_map (vs : List Value) (i : Nat) :
    (vs.map w.value).getD i .nil = w.value (vs.getD i .nil) := by
  rw [List.getD_eq_getElem?_getD, List.getD_eq_getElem?_getD, List.getElem?_map]
  cases vs[i]? <;> rfl

theorem Twins.elementAt (t : w.Twins m m') (receiver index : Value) :
    Primitive.elementAt m' (w.value receiver) (w.value index)
      = (Primitive.elementAt m receiver index).map w.action := by
  have hofArray : ∀ xs : Array Value,
      (do let i ← Primitive.place (w.value index) (xs.map w.value).size
          pure (.answer ((xs.map w.value).getD i .nil)) : Except Reason Action)
        = (do let i ← Primitive.place index xs.size
              pure (.answer (xs.getD i .nil)) : Except Reason Action).map w.action := by
    intro xs
    rw [place_value, Array.size_map]
    refine bind_map fun i => ?_
    rw [getD_map]
    rfl
  have htext : ∀ s : String,
      (do let i ← Primitive.place (w.value index) s.length
          pure (.newText (String.ofList ((s.toList.drop i).take 1))) : Except Reason Action)
        = (do let i ← Primitive.place index s.length
              pure (.newText (String.ofList ((s.toList.drop i).take 1))) :
                Except Reason Action).map w.action := by
    intro s
    rw [place_value]
    exact bind_map fun i => rfl
  -- arrays and objects have the same elements up to what they refer to, and texts are the same
  cases receiver with
  | array a =>
      show (do let i ← Primitive.place _ (m'.heap.array a).size; _ : Except Reason Action) = _
      rw [t.heap.array]
      exact hofArray _
  | object o =>
      unfold Primitive.elementAt
      simp only [value, t.heap.object, object]
      cases (m.heap.object o).elements with
      | none => rfl
      | some xs => exact hofArray xs
  | text s origin => exact htext s
  | symbol s => exact htext s
  | _ => rfl

theorem Twins.putElement (t : w.Twins m m') (receiver index v : Value) :
    Primitive.putElement m' (w.value receiver) (w.value index) (w.value v)
      = (Primitive.putElement m receiver index v).map w.action := by
  cases receiver with
  | array a =>
      show (do let i ← Primitive.place _ (m'.heap.array a).size; _ : Except Reason Action) = _
      rw [t.heap.array, place_value, Array.size_map]
      exact bind_map fun i => rfl
  | object o =>
      have hobject : w.value (.object o) = .object o := rfl
      rw [hobject]
      unfold Primitive.putElement
      simp only [t.heap.object, object]
      cases (m.heap.object o).elements with
      | none => rfl
      | some xs =>
          simp only [Option.map_some, place_value, Array.size_map]
          exact bind_map fun i => rfl
  | _ => rfl

theorem Twins.elementCount (t : w.Twins m m') (receiver : Value) :
    Primitive.elementCount m' (w.value receiver) = Primitive.elementCount m receiver := by
  cases receiver with
  | array a =>
      show Except.ok (m'.heap.array a).size = _
      rw [t.heap.array, Array.size_map]
      rfl
  | object o =>
      unfold Primitive.elementCount
      simp only [value, t.heap.object, object]
      cases (m.heap.object o).elements with
      | none => rfl
      | some xs => simp only [Option.map_some, Array.size_map]
  | _ => rfl

theorem Twins.makeNew (t : w.Twins m m') (receiver : Value) :
    Primitive.makeNew m' (w.value receiver) = (Primitive.makeNew m receiver).map w.action := by
  unfold Primitive.makeNew
  rw [t.instantiable, t.registry]
  refine bind_map fun cls => ?_
  simp only
  split
  · simp [pure, Except.pure, Except.map, action]
  · split <;> rfl

theorem Twins.makeSized (t : w.Twins m m') (receiver size : Value) :
    Primitive.makeSized m' (w.value receiver) (w.value size)
      = (Primitive.makeSized m receiver size).map w.action := by
  unfold Primitive.makeSized
  rw [t.instantiable, t.registry, integerValue_value]
  refine bind_map fun cls => ?_
  split
  · rfl
  · refine bind_map fun n => ?_
    split
    · rfl
    · simp only
      split
      · simp [pure, Except.pure, Except.map, action]
      · split <;> rfl

theorem joinTexts_value (receiver argument : Value) :
    Primitive.joinTexts (w.value receiver) (w.value argument)
      = (Primitive.joinTexts receiver argument).map w.action := by
  unfold Primitive.joinTexts
  cases receiver <;> cases argument <;>
    simp only [value, Value.chars?] <;> first | rfl | (repeat' split) <;> rfl

theorem textsEqual_value (receiver argument : Value) :
    Primitive.textsEqual (w.value receiver) (w.value argument)
      = (Primitive.textsEqual receiver argument).map w.action := by
  cases receiver <;> cases argument <;> rfl

theorem loopOf_value (receiver body : Value) (goOn : Bool) :
    Primitive.loopOf (w.value receiver) (w.value body) goOn
      = (Primitive.loopOf receiver body goOn).map w.action := by
  cases receiver <;> cases body <;> rfl

/-! ### Primitives -/

/-- Given as many arguments as it takes, a primitive decides on the same. -/
theorem Twins.choose (t : w.Twins m m') (p : Primitive) (receiver : Value)
    {arg arg' : Nat → Value} (harg : ∀ i, arg' i = w.value (arg i)) :
    p.choose m' (w.value receiver) arg' = (p.choose m receiver arg).map w.action := by
  cases p with
  | integer op =>
      simp only [Primitive.choose, harg, integerValue_value]
      exact bind_map fun a => bind_map fun b => inRange_action _
  | compareIntegers op =>
      simp only [Primitive.choose, harg, integerValue_value]
      exact bind_map fun a => bind_map fun b => rfl
  | divide =>
      simp only [Primitive.choose, harg, integerValue_value]
      refine bind_map fun a => bind_map fun b => ?_
      split
      · rfl
      · split
        · rfl
        · exact inRange_action _
  | modulo =>
      simp only [Primitive.choose, harg, integerValue_value]
      refine bind_map fun a => bind_map fun b => ?_
      split <;> rfl
  | floorDivide =>
      simp only [Primitive.choose, harg, integerValue_value]
      refine bind_map fun a => bind_map fun b => ?_
      split
      · rfl
      · exact inRange_action _
  | asFloat =>
      simp only [Primitive.choose, integerValue_value]
      exact bind_map fun a => withNumber_value (fun x => rfl) (.int a)
  | float op =>
      simp only [Primitive.choose, harg, floatValue_value]
      exact bind_map fun a => withNumber_value (fun x => rfl) _
  | compareFloats op =>
      simp only [Primitive.choose, harg, floatValue_value]
      exact bind_map fun a => withNumber_value (fun x => rfl) _
  | divideFloats =>
      simp only [Primitive.choose, harg, floatValue_value]
      refine bind_map fun a => withNumber_value (fun x => ?_) _
      split <;> rfl
  | fetch =>
      simp only [Primitive.choose, harg]
      exact t.elementAt receiver _
  | store =>
      simp only [Primitive.choose, harg]
      exact t.putElement receiver _ _
  | count =>
      simp only [Primitive.choose, t.elementCount]
      cases Primitive.elementCount m receiver <;> rfl
  | new => exact t.makeNew receiver
  | newSized =>
      simp only [Primitive.choose, harg]
      exact t.makeSized receiver _
  | fetchSlot =>
      simp only [Primitive.choose, harg, objectValue_value, t.heap.object, place_value, object,
        Array.size_map, getD_map]
      exact bind_map fun o => bind_map fun i => rfl
  | storeSlot =>
      simp only [Primitive.choose, harg, objectValue_value, t.heap.object, place_value, object,
        Array.size_map]
      exact bind_map fun o => bind_map fun i => rfl
  | identical =>
      simp only [Primitive.choose, harg, identical_value]
      rfl
  | notIdentical =>
      simp only [Primitive.choose, harg, identical_value]
      rfl
  | classOf =>
      simp only [Primitive.choose, t.classOf?, t.inspect]
      cases m.classOf? receiver <;> rfl
  | call n =>
      have hargs : (List.range n).map arg' = ((List.range n).map arg).map w.value := by
        rw [List.map_map]
        exact List.map_congr_left fun i _ => harg i
      simp only [Primitive.choose, hargs, closureValue_value]
      cases Primitive.closureValue receiver <;> rfl
  | callWithArray =>
      simp only [Primitive.choose, harg, closureValue_value]
      cases Primitive.closureValue receiver with
      | error reason => rfl
      | ok c =>
          cases arg 0 with
          | array a =>
              show Except.ok (Action.call (w.toClosure c) (m'.heap.array a).toList) = _
              rw [t.heap.array, Array.toList_map]
              rfl
          | _ => rfl
  | arity =>
      simp only [Primitive.choose, closureValue_value]
      cases Primitive.closureValue receiver with
      | error reason => rfl
      | ok c =>
          show Except.ok (Action.tally (m'.heap.closure (w.toClosure c)).arity) = _
          unfold Closure.arity
          rw [(t.heap.closure c).params]
          rfl
  | join =>
      simp only [Primitive.choose, harg]
      exact joinTexts_value receiver _
  | equalTexts =>
      simp only [Primitive.choose, harg]
      exact textsEqual_value receiver _
  | print => rfl
  | signal =>
      simp only [Primitive.choose, harg]
      rfl
  | whileTrue =>
      simp only [Primitive.choose, harg]
      exact loopOf_value receiver _ true
  | whileFalse =>
      simp only [Primitive.choose, harg]
      exact loopOf_value receiver _ false

/-- A primitive decides on the same, or fails for the same reason. -/
theorem Twins.attempt (t : w.Twins m m') (p : Primitive) (receiver : Value)
    (args : List Value) :
    p.attempt m' (w.value receiver) (args.map w.value)
      = (p.attempt m receiver args).map w.action := by
  unfold Primitive.attempt
  rw [List.length_map]
  split
  · exact t.choose p receiver fun i => list_getD_map args i
  · rfl

end Wrap

end Smalltalk
