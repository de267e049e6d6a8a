import Smalltalk.Registry

/-!
# `Smalltalk.Heap`: what programs share and change

Arrays, objects with named slots and indexed elements, closures, and frames.
A frame is one activation of a method or a block. It holds the frames that
enclose it in the text of the program, innermost first (`Frame.outer`), so a
walk up the lexical chain is a walk along a list; the last frame of the walk
is the home of every block in it. Who called is another list, which nothing
is looked up in.

A closure holds the frame it was made in and not a copy, so an assignment is
seen by all closures that share the frame.
-/

set_option autoImplicit false

namespace Smalltalk

/-- An object: its class, its named slots, and its elements where the class is
indexable. -/
structure Instance where
  cls : ClassId
  slots : Array Value
  elements : Option (Array Value)
deriving Inhabited

/-- A block together with the frame it was evaluated in. -/
structure Closure where
  params : List Json
  temps : List Json
  statements : List Node
  frame : FrameId
deriving Inhabited

/-- How many arguments a block takes. -/
def Closure.arity (c : Closure) : Nat := c.params.length

/-- An activation. -/
structure Frame where
  receiver : Value
  method : Option Method
  outer : List FrameId := []
  callers : List FrameId := []
  isBlock : Bool := false
  slots : Dictionary Value := {}
  active : Bool := true
deriving Inhabited

/-- Everything that references point to, and the count of texts made so far. -/
structure Heap where
  arrays : Array (Array Value) := #[]
  objects : Array Instance := #[]
  closures : Array Closure := #[]
  frames : Array Frame := #[]
  texts : Nat := 0
deriving Inhabited

namespace Heap

/-- The elements of an array. -/
def array (h : Heap) (a : ArrayId) : Array Value := h.arrays.getD a #[]

/-- An object. -/
def object (h : Heap) (o : ObjectId) : Instance := h.objects.getD o default

/-- A closure. -/
def closure (h : Heap) (c : ClosureId) : Closure := h.closures.getD c default

/-- A frame. -/
def frame (h : Heap) (f : FrameId) : Frame := h.frames.getD f default

/-! ### Making -/

/-- A new array. -/
def newArray (h : Heap) (elements : Array Value) : Heap × ArrayId :=
  let id := h.arrays.size
  ({ h with arrays := h.arrays.push elements }, id)

/-- A new object. -/
def newObject (h : Heap) (object : Instance) : Heap × ObjectId :=
  let id := h.objects.size
  ({ h with objects := h.objects.push object }, id)

/-- A new closure. -/
def newClosure (h : Heap) (closure : Closure) : Heap × ClosureId :=
  let id := h.closures.size
  ({ h with closures := h.closures.push closure }, id)

/-- A new frame. -/
def newFrame (h : Heap) (frame : Frame) : Heap × FrameId :=
  let id := h.frames.size
  ({ h with frames := h.frames.push frame }, id)

/-! ### Changing -/

/-- Puts an element into an array; nothing happens outside its bounds. -/
def setElement (h : Heap) (a : ArrayId) (i : Nat) (v : Value) : Heap :=
  { h with arrays := h.arrays.modify a fun xs => xs.setIfInBounds i v }

/-- Puts an indexed element into an object. -/
def setIndexed (h : Heap) (o : ObjectId) (i : Nat) (v : Value) : Heap :=
  { h with objects := h.objects.modify o fun x =>
      { x with elements := x.elements.map fun xs => xs.setIfInBounds i v } }

/-- Puts a value into a named slot of an object. -/
def setSlot (h : Heap) (o : ObjectId) (i : Nat) (v : Value) : Heap :=
  { h with objects := h.objects.modify o fun x => { x with slots := x.slots.setIfInBounds i v } }

/-- Gives a variable of this very frame a value; a new name is declared. -/
def declare (h : Heap) (f : FrameId) (key : Key) (name : Json) (v : Value) : Heap :=
  { h with frames := h.frames.modify f fun x => { x with slots := x.slots.put key name v } }

/-- Ends an activation. -/
def retire (h : Heap) (f : FrameId) : Heap :=
  { h with frames := h.frames.modify f fun x => { x with active := false } }

/-! ### Variables -/

/-- A frame and the frames around it, innermost first. -/
def chain (h : Heap) (f : FrameId) : List FrameId := f :: (h.frame f).outer

/-- The innermost frame of the chain that declares a name. -/
def owner? (h : Heap) (f : FrameId) (key : Key) : Option FrameId :=
  (h.chain f).find? fun g => (h.frame g).slots.contains key

/-- The value of a variable as seen from a frame. -/
def lookup? (h : Heap) (f : FrameId) (key : Key) : Option Value :=
  match h.owner? f key with
  | some g => (h.frame g).slots.find? key
  | none => none

/-- The last frame of the chain: the activation of the method that the code of
the frame belongs to. -/
def home (h : Heap) (f : FrameId) : FrameId := (h.frame f).outer.getLastD f

end Heap

end Smalltalk
