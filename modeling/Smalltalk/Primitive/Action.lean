import Smalltalk.Memory
import Smalltalk.Primitive

/-!
# `Smalltalk.Primitive.Action`: what a primitive decides to do

A primitive looks at the memory, the receiver and the arguments, and either
fails with a `Reason` or settles on an `Action`. Deciding changes nothing and
runs nothing, so a method whose primitive fails goes on as if it had no tag.

The checks come in one order: the number of arguments, the type of the
receiver, the types of the arguments, the range of the result.
-/

set_option autoImplicit false

namespace Smalltalk

/-- What a primitive does once it does not fail. A `tally` answers how many parts
something has. -/
inductive Action where
  | answer (v : Value)
  | tally (n : Nat)
  | newText (s : String)
  | newArray (elements : Array Value)
  | newObject (cls : ClassId) (size : Nat)
  | setElement (a : ArrayId) (i : Nat) (v : Value)
  | setIndexed (o : ObjectId) (i : Nat) (v : Value)
  | setSlot (o : ObjectId) (i : Nat) (v : Value)
  | call (c : ClosureId) (args : List Value)
  | loop (condition body : ClosureId) (goOn : Bool)
  | print (v : Value)
  | signal (v : Value)
  | refuse (f : Fault)

/-- The least SmallInteger: `-2 ^ 60`. -/
def SmallInteger.least : Int := -0x1000000000000000

/-- The greatest SmallInteger: `2 ^ 60 - 1`. -/
def SmallInteger.greatest : Int := 0x0FFFFFFFFFFFFFFF

/-- Whether an integer is a SmallInteger. -/
def SmallInteger.holds (i : Int) : Bool :=
  decide (SmallInteger.least ≤ i) && decide (i ≤ SmallInteger.greatest)

/-- Classes whose instances are not made by asking the class. -/
def uninstantiable : List String :=
  ["UndefinedObject", "True", "False", "SmallInteger", "Float", "Symbol", "BlockClosure"]

namespace Primitive

/-! ### Checks -/

/-- The SmallInteger that a value is. -/
def integerValue : Value → Except Reason Int
  | .int i => if SmallInteger.holds i then .ok i else .error .typeMismatch
  | _ => .error .typeMismatch

/-- An integer result, if it is a SmallInteger. -/
def inRange (i : Int) : Except Reason Action :=
  if SmallInteger.holds i then .ok (.answer (.int i)) else .error .overflow

/-- The float that a value is. -/
def floatValue : Value → Except Reason Float
  | .float x => .ok x
  | _ => .error .typeMismatch

/-- Goes on with a number as a float; an integer beyond all floats is refused. -/
def withNumber (v : Value) (go : Float → Except Reason Action) : Except Reason Action :=
  match v with
  | .float x => go x
  | .int i =>
    match Binary64.ofInt? i with
    | some x => go x
    | none => .ok (.refuse (.beyondFloat i))
  | _ => .error .typeMismatch

/-- The place that an index from one names among `size` places. -/
def place (index : Value) (size : Nat) : Except Reason Nat := do
  let i ← integerValue index
  if 1 ≤ i ∧ i ≤ size then pure (i - 1).toNat else .error .indexOutOfBounds

/-- The closure that a value is. -/
def closureValue : Value → Except Reason ClosureId
  | .closure c => .ok c
  | _ => .error .typeMismatch

/-- The object that a value is. -/
def objectValue : Value → Except Reason ObjectId
  | .object o => .ok o
  | _ => .error .typeMismatch

/-- The class that a value is and that makes instances. -/
def instantiable (m : Memory) : Value → Except Reason ClassId
  | .behavior b =>
    if b.isMeta || uninstantiable.contains (m.registry.entry b.id).name then
      .error .typeMismatch
    else .ok b.id
  | _ => .error .typeMismatch

/-! ### Operations -/

/-- Arithmetic on integers. -/
def onIntegers : Arithmetic → Int → Int → Int
  | .add, a, b => a + b
  | .subtract, a, b => a - b
  | .multiply, a, b => a * b

/-- Arithmetic on floats. -/
def onFloats : Arithmetic → Float → Float → Float
  | .add, a, b => a + b
  | .subtract, a, b => a - b
  | .multiply, a, b => a * b

/-- Comparison of integers. -/
def integersCompare : Comparison → Int → Int → Bool
  | .less, a, b => a < b
  | .greater, a, b => b < a
  | .lessOrEqual, a, b => a ≤ b
  | .greaterOrEqual, a, b => b ≤ a
  | .equal, a, b => a == b
  | .different, a, b => a != b

/-- Comparison of floats. -/
def floatsCompare : Comparison → Float → Float → Bool
  | .less, a, b => a < b
  | .greater, a, b => b < a
  | .lessOrEqual, a, b => a ≤ b
  | .greaterOrEqual, a, b => b ≤ a
  | .equal, a, b => a == b
  | .different, a, b => a != b

/-- The element at an index. -/
def elementAt (m : Memory) (receiver index : Value) : Except Reason Action :=
  let ofArray (xs : Array Value) : Except Reason Action := do
    let i ← place index xs.size
    pure (.answer (xs.getD i .nil))
  match receiver with
  | .array a => ofArray (m.heap.array a)
  | .object o =>
    match (m.heap.object o).elements with
    | some xs => ofArray xs
    | none => .error .typeMismatch
  | v =>
    match v.chars? with
    | some s => do
      let i ← place index s.length
      pure (.newText (String.ofList ((s.toList.drop i).take 1)))
    | none => .error .typeMismatch

/-- Putting an element at an index. Texts are read-only. -/
def putElement (m : Memory) (receiver index v : Value) : Except Reason Action :=
  match receiver with
  | .array a => do
    let i ← place index (m.heap.array a).size
    pure (.setElement a i v)
  | .object o =>
    match (m.heap.object o).elements with
    | some xs => do
      let i ← place index xs.size
      pure (.setIndexed o i v)
    | none => .error .typeMismatch
  | _ => .error .typeMismatch

/-- How many elements a value has. -/
def elementCount (m : Memory) (receiver : Value) : Except Reason Nat :=
  match receiver with
  | .array a => .ok (m.heap.array a).size
  | .object o =>
    match (m.heap.object o).elements with
    | some xs => .ok xs.size
    | none => .error .typeMismatch
  | v =>
    match v.chars? with
    | some s => .ok s.length
    | none => .error .typeMismatch

/-- A new instance without elements. -/
def makeNew (m : Memory) (receiver : Value) : Except Reason Action := do
  let cls ← instantiable m receiver
  -- arrays and texts are values of their own, whatever class has the name
  let name := (m.registry.entry cls).name
  if name = "Array" then pure (.newArray #[])
  else if name = "String" then pure (.newText "")
  else pure (.newObject cls 0)

/-- A new instance with a number of elements. -/
def makeSized (m : Memory) (receiver size : Value) : Except Reason Action := do
  let cls ← instantiable m receiver
  if !m.registry.isIndexable ⟨cls, false⟩ then .error .typeMismatch
  else
    let n ← integerValue size
    if n < 0 then .error .indexOutOfBounds
    else
      let name := (m.registry.entry cls).name
      if name = "Array" then pure (.newArray (Array.replicate n.toNat .nil))
      else if name = "String" then pure (.newText (String.ofList (List.replicate n.toNat ' ')))
      else pure (.newObject cls n.toNat)

/-- Two texts or symbols joined. Joining with an empty text answers the other
text itself. -/
def joinTexts (receiver argument : Value) : Except Reason Action :=
  match receiver.chars?, argument.chars? with
  | some s, some t =>
    match receiver, argument with
    | .text _ _, _ =>
      -- an argument that is a symbol answers a text of its characters
      if t.isEmpty then .ok (.answer receiver)
      else if s.isEmpty then
        match argument with
        | .text _ _ => .ok (.answer argument)
        | _ => .ok (.newText t)
      else .ok (.newText (s ++ t))
    | _, .text _ _ =>
      if s.isEmpty then .ok (.answer argument) else .ok (.newText (s ++ t))
    | _, _ => .ok (.newText (s ++ t))
  | _, _ => .error .typeMismatch

/-- Whether two texts have the same characters. A symbol equals only itself. -/
def textsEqual (receiver argument : Value) : Except Reason Action :=
  match receiver, argument with
  -- symbols with the same characters are one object
  | .text s _, .text t _ => .ok (.answer (.bool (s == t)))
  | .symbol s, .symbol t => .ok (.answer (.bool (s == t)))
  | .text _ _, .symbol _ => .ok (.answer (.bool false))
  | .symbol _, .text _ _ => .ok (.answer (.bool false))
  | _, _ => .error .typeMismatch

/-- The loop over two closures. -/
def loopOf (receiver body : Value) (goOn : Bool) : Except Reason Action := do
  let condition ← closureValue receiver
  let body ← closureValue body
  pure (.loop condition body goOn)

/-- What a primitive decides, given as many arguments as it takes. -/
def choose (p : Primitive) (m : Memory) (receiver : Value) (arg : Nat → Value) :
    Except Reason Action :=
  match p with
  | integer op => do
    let a ← integerValue receiver
    let b ← integerValue (arg 0)
    inRange (onIntegers op a b)
  | compareIntegers op => do
    let a ← integerValue receiver
    let b ← integerValue (arg 0)
    pure (.answer (.bool (integersCompare op a b)))
  | divide => do
    let a ← integerValue receiver
    let b ← integerValue (arg 0)
    if b = 0 then .error .divisionByZero
    else if Int.fmod a b ≠ 0 then .error .inexactResult
    -- only the least SmallInteger divided by -1 is out of range
    else inRange (Int.fdiv a b)
  | modulo => do
    let a ← integerValue receiver
    let b ← integerValue (arg 0)
    if b = 0 then .error .divisionByZero else pure (.answer (.int (Int.fmod a b)))
  | floorDivide => do
    let a ← integerValue receiver
    let b ← integerValue (arg 0)
    if b = 0 then .error .divisionByZero else inRange (Int.fdiv a b)
  | asFloat => do
    let a ← integerValue receiver
    withNumber (.int a) fun x => pure (.answer (.float x))
  | float op => do
    let a ← floatValue receiver
    withNumber (arg 0) fun b => pure (.answer (.float (onFloats op a b)))
  | compareFloats op => do
    let a ← floatValue receiver
    withNumber (arg 0) fun b => pure (.answer (.bool (floatsCompare op a b)))
  | divideFloats => do
    let a ← floatValue receiver
    withNumber (arg 0) fun b =>
      if b == 0.0 then .error .divisionByZero else pure (.answer (.float (a / b)))
  | fetch => elementAt m receiver (arg 0)
  | store => putElement m receiver (arg 0) (arg 1)
  | count => (elementCount m receiver).map .tally
  | new => makeNew m receiver
  | newSized => makeSized m receiver (arg 0)
  | fetchSlot => do
    let slots := (m.heap.object (← objectValue receiver)).slots
    let i ← place (arg 0) slots.size
    pure (.answer (slots.getD i .nil))
  | storeSlot => do
    let o ← objectValue receiver
    let i ← place (arg 0) (m.heap.object o).slots.size
    pure (.setSlot o i (arg 1))
  | identical => .ok (.answer (.bool (Value.identical receiver (arg 0))))
  | notIdentical => .ok (.answer (.bool (!Value.identical receiver (arg 0))))
  | classOf =>
    match m.classOf? receiver with
    | some b => .ok (.answer (.behavior b))
    | none => .ok (.refuse (.noClass (m.inspect receiver)))
  | call n => (closureValue receiver).map fun c => .call c ((List.range n).map arg)
  | callWithArray => do
    let c ← closureValue receiver
    match arg 0 with
    | .array a => pure (.call c (m.heap.array a).toList)
    | _ => .error .typeMismatch
  | arity => (closureValue receiver).map fun c => .tally (m.heap.closure c).arity
  | join => joinTexts receiver (arg 0)
  | equalTexts => textsEqual receiver (arg 0)
  | print => .ok (.print receiver)
  | signal => .ok (.signal (arg 0))
  | whileTrue => loopOf receiver (arg 0) true
  | whileFalse => loopOf receiver (arg 0) false

/-- What a primitive decides. A wrong number of arguments fails before anything
is looked at. -/
def attempt (p : Primitive) (m : Memory) (receiver : Value) (args : List Value) :
    Except Reason Action :=
  if args.length = p.argumentCount then p.choose m receiver fun i => args.getD i .nil
  else .error .argumentCount

end Primitive

end Smalltalk
