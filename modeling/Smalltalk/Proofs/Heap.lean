import Mathlib.Data.List.Find
import Smalltalk.Heap

/-!
# `Smalltalk.Proofs.Heap`: reading the heap after a change

The heap keeps arrays, objects, closures and frames by number. Making
something gives it the next number; a change touches the contents of one
thing. The lemmas say what every reader answers after every change. They are
rewrite rules, so a proof about a change never opens the arrays that the heap
is made of.

A variable is read in the frame that its name belongs to
(`Heap.lookup?_eq_some_iff`), and it reads the same in two heaps that have the
same frames on the chain (`Heap.lookup?_congr`).

`Heap.Stores` says that a value is somewhere in the heap. Making or changing
something stores nothing but what it was given, beside what was stored before.
-/

set_option autoImplicit false

namespace Smalltalk

/-- Reading an array that one element was pushed to. -/
theorem getD_push {α : Type} (xs : Array α) (x d : α) (i : Nat) :
    (xs.push x).getD i d = if i = xs.size then x else xs.getD i d := by
  rw [Array.getD_eq_getD_getElem?, Array.getD_eq_getD_getElem?, Array.getElem?_push]
  split <;> rfl

/-- Reading an array that one element was changed of. -/
theorem getD_modify {α : Type} (xs : Array α) (i : Nat) (f : α → α) (d : α) (j : Nat) :
    (xs.modify i f).getD j d = if j = i ∧ i < xs.size then f (xs.getD i d) else xs.getD j d := by
  rw [Array.getD_eq_getD_getElem?, Array.getD_eq_getD_getElem?, Array.getD_eq_getD_getElem?,
    Array.getElem?_modify]
  -- what is read is the element that was changed, if there is one, or another
  by_cases hij : i = j
  · subst hij
    by_cases hi : i < xs.size <;> simp [hi]
  · simp [hij, Ne.symm hij]

/-- What holds of all elements and of what is read where there is none. -/
theorem forall_getD {α : Type} {P : α → Prop} {xs : Array α} {d : α} (hd : P d)
    (hxs : ∀ x ∈ xs, P x) (i : Nat) : P (xs.getD i d) := by
  rw [Array.getD_eq_getD_getElem?]
  cases hx : xs[i]? with
  | none => exact hd
  | some x => exact hxs x (Array.mem_of_getElem? hx)

/-- Reading what is not there. -/
theorem getD_of_le {α : Type} (xs : Array α) (d : α) {i : Nat} (h : xs.size ≤ i) :
    xs.getD i d = d := by
  rw [Array.getD_eq_getD_getElem?, Array.getElem?_eq_none h, Option.getD_none]

/-- Reading what was changed, if it was there, and else what is not there. -/
theorem getD_modify_self {α : Type} (xs : Array α) (i : Nat) (f : α → α) {d : α} (hd : f d = d) :
    (xs.modify i f).getD i d = f (xs.getD i d) := by
  rw [getD_modify]
  split
  · rfl
  · rename_i h
    rw [getD_of_le xs d (Nat.le_of_not_lt fun hi => h ⟨rfl, hi⟩), hd]

/-- Reading anything else. -/
theorem getD_modify_of_ne {α : Type} (xs : Array α) {i j : Nat} (f : α → α) (d : α) (h : j ≠ i) :
    (xs.modify i f).getD j d = xs.getD j d := by
  rw [getD_modify, if_neg fun hj => h hj.1]

/-- Reading an array that one element was put into. -/
theorem getD_setIfInBounds {α : Type} (xs : Array α) {i : Nat} (hi : i < xs.size) (x d : α)
    (j : Nat) : (xs.setIfInBounds i x).getD j d = if j = i then x else xs.getD j d := by
  rw [Array.getD_eq_getD_getElem?, Array.getElem?_setIfInBounds, Array.getD_eq_getD_getElem?]
  by_cases hj : j = i
  · rw [if_pos hj.symm, if_pos hi, if_pos hj]
    rfl
  · rw [if_neg (Ne.symm hj), if_neg hj]

namespace Heap

variable (h : Heap)

theorem closure_of_le {c : ClosureId} (hc : h.closures.size ≤ c) : h.closure c = default :=
  getD_of_le _ _ hc

theorem frame_of_le {f : FrameId} (hf : h.frames.size ≤ f) : h.frame f = default :=
  getD_of_le _ _ hf

/-! ### Making -/

@[simp] theorem array_newArray (xs : Array Value) (a : ArrayId) :
    (h.newArray xs).1.array a = if a = h.arrays.size then xs else h.array a :=
  getD_push _ _ _ _

@[simp] theorem object_newObject (x : Instance) (o : ObjectId) :
    (h.newObject x).1.object o = if o = h.objects.size then x else h.object o :=
  getD_push _ _ _ _

@[simp] theorem closure_newClosure (x : Closure) (c : ClosureId) :
    (h.newClosure x).1.closure c = if c = h.closures.size then x else h.closure c :=
  getD_push _ _ _ _

@[simp] theorem frame_newFrame (x : Frame) (f : FrameId) :
    (h.newFrame x).1.frame f = if f = h.frames.size then x else h.frame f :=
  getD_push _ _ _ _

@[simp] theorem size_newArray (xs : Array Value) :
    (h.newArray xs).1.arrays.size = h.arrays.size + 1 := Array.size_push ..

@[simp] theorem size_newObject (x : Instance) :
    (h.newObject x).1.objects.size = h.objects.size + 1 := Array.size_push ..

@[simp] theorem size_newClosure (x : Closure) :
    (h.newClosure x).1.closures.size = h.closures.size + 1 := Array.size_push ..

@[simp] theorem size_newFrame (x : Frame) :
    (h.newFrame x).1.frames.size = h.frames.size + 1 := Array.size_push ..

@[simp] theorem id_newFrame (x : Frame) : (h.newFrame x).2 = h.frames.size := rfl

/-! ### Changing -/

@[simp] theorem array_setElement (a b : ArrayId) (i : Nat) (v : Value) :
    (h.setElement a i v).array b
      = if b = a ∧ a < h.arrays.size then (h.array a).setIfInBounds i v else h.array b :=
  getD_modify ..

@[simp] theorem object_setIndexed (o p : ObjectId) (i : Nat) (v : Value) :
    (h.setIndexed o i v).object p
      = if p = o ∧ o < h.objects.size then
          { h.object o with elements := (h.object o).elements.map fun xs => xs.setIfInBounds i v }
        else h.object p :=
  getD_modify ..

@[simp] theorem object_setSlot (o p : ObjectId) (i : Nat) (v : Value) :
    (h.setSlot o i v).object p
      = if p = o ∧ o < h.objects.size then
          { h.object o with slots := (h.object o).slots.setIfInBounds i v }
        else h.object p :=
  getD_modify ..

@[simp] theorem frame_declare (f g : FrameId) (key : Key) (name : Json) (v : Value) :
    (h.declare f key name v).frame g
      = if g = f ∧ f < h.frames.size then
          { h.frame f with slots := (h.frame f).slots.put key name v }
        else h.frame g :=
  getD_modify ..

@[simp] theorem frame_retire (f g : FrameId) :
    (h.retire f).frame g
      = if g = f ∧ f < h.frames.size then { h.frame f with active := false } else h.frame g :=
  getD_modify ..

@[simp] theorem outer_declare (f g : FrameId) (key : Key) (name : Json) (v : Value) :
    ((h.declare f key name v).frame g).outer = (h.frame g).outer := by
  rw [frame_declare]
  split
  · rename_i hg
    rw [hg.1]
  · rfl

@[simp] theorem outer_retire (f g : FrameId) :
    ((h.retire f).frame g).outer = (h.frame g).outer := by
  rw [frame_retire]
  split
  · rename_i hg
    rw [hg.1]
  · rfl

@[simp] theorem size_setElement (a : ArrayId) (i : Nat) (v : Value) :
    (h.setElement a i v).arrays.size = h.arrays.size := Array.size_modify

@[simp] theorem size_setIndexed (o : ObjectId) (i : Nat) (v : Value) :
    (h.setIndexed o i v).objects.size = h.objects.size := Array.size_modify

@[simp] theorem size_setSlot (o : ObjectId) (i : Nat) (v : Value) :
    (h.setSlot o i v).objects.size = h.objects.size := Array.size_modify

@[simp] theorem size_declare (f : FrameId) (key : Key) (name : Json) (v : Value) :
    (h.declare f key name v).frames.size = h.frames.size := Array.size_modify

@[simp] theorem size_retire (f : FrameId) : (h.retire f).frames.size = h.frames.size :=
  Array.size_modify

/-! ### Variables -/

section
variable {h h' : Heap} {f : FrameId} {key : Key}

/-- A frame owns what it declares itself. -/
theorem owner?_self (hown : (h.frame f).slots.contains key = true) : h.owner? f key = some f :=
  List.find?_cons_of_pos hown

theorem lookup?_eq_some_iff {v : Value} :
    h.lookup? f key = some v ↔
      ∃ g, h.owner? f key = some g ∧ (h.frame g).slots.find? key = some v := by
  unfold lookup?
  cases h.owner? f key <;> simp

/-- A name belongs to the same frame where the frames on the chain are the same. -/
theorem owner?_congr (hsame : ∀ g ∈ h.chain f, h'.frame g = h.frame g) (key : Key) :
    h'.owner? f key = h.owner? f key := by
  have hchain : h'.chain f = h.chain f := by
    unfold chain
    rw [hsame f List.mem_cons_self]
  unfold owner?
  rw [hchain]
  exact List.find?_congr fun g hg => congrArg (fun x => x.slots.contains key) (hsame g hg)

theorem lookup?_congr (hsame : ∀ g ∈ h.chain f, h'.frame g = h.frame g) (key : Key) :
    h'.lookup? f key = h.lookup? f key := by
  unfold lookup?
  rw [owner?_congr hsame]
  cases howner : h.owner? f key with
  | none => rfl
  | some g => exact congrArg (·.slots.find? key) (hsame g (List.mem_of_find?_eq_some howner))

end

end Heap

/-! ### What is stored -/

/-- A value is in a slot of an object or among its elements. -/
def Instance.Has (x : Instance) (v : Value) : Prop :=
  v ∈ x.slots ∨ ∃ xs, x.elements = some xs ∧ v ∈ xs

/-- A value is the receiver of a frame or that of a variable in it. -/
def Frame.Has (x : Frame) (v : Value) : Prop :=
  v = x.receiver ∨ ∃ key, x.slots.find? key = some v

namespace Heap

/-- A value is in the heap: in an array, in an object or in a frame. -/
def Stores (h : Heap) (v : Value) : Prop :=
  (∃ a, v ∈ h.array a) ∨ (∃ o, (h.object o).Has v) ∨ ∃ f, (h.frame f).Has v

variable {h : Heap} {v w : Value}

/-! ### What one thing has after a change -/

/-- An array whose element was changed has the new element. -/
theorem mem_of_setElement {a b : ArrayId} {i : Nat} (hv : v ∈ (h.setElement a i w).array b) :
    v ∈ h.array b ∨ v = w := by
  rw [array_setElement] at hv
  split at hv
  · rename_i hb
    rw [hb.1]
    exact Array.mem_or_eq_of_mem_setIfInBounds hv
  · exact .inl hv

/-- An object whose element was changed has the new element. -/
theorem has_of_setIndexed {o p : ObjectId} {i : Nat}
    (hv : ((h.setIndexed o i w).object p).Has v) : (h.object p).Has v ∨ v = w := by
  rw [object_setIndexed] at hv
  split at hv
  · rename_i hp
    rw [hp.1]
    rcases hv with hv | ⟨ys, hys, hv⟩
    · exact .inl (.inl hv)
    · obtain ⟨xs, hxs, rfl⟩ := Option.map_eq_some_iff.mp hys
      exact (Array.mem_or_eq_of_mem_setIfInBounds hv).imp_left fun hv => .inr ⟨xs, hxs, hv⟩
  · exact .inl hv

/-- An object whose slot was changed has the new value. -/
theorem has_of_setSlot {o p : ObjectId} {i : Nat} (hv : ((h.setSlot o i w).object p).Has v) :
    (h.object p).Has v ∨ v = w := by
  rw [object_setSlot] at hv
  split at hv
  · rename_i hp
    rw [hp.1]
    rcases hv with hv | hv
    · exact (Array.mem_or_eq_of_mem_setIfInBounds hv).imp_left .inl
    · exact .inl (.inr hv)
  · exact .inl hv

/-- A frame where a variable was declared or assigned to has its value. -/
theorem has_of_declare {f g : FrameId} {key : Key} {name : Json}
    (hv : ((h.declare f key name w).frame g).Has v) : (h.frame g).Has v ∨ v = w := by
  rw [frame_declare] at hv
  split at hv
  · rename_i hg
    rw [hg.1]
    rcases hv with hv | ⟨k, hv⟩
    · exact .inl (.inl hv)
    · -- a name that equals the new one has the new value
      simp only [Dictionary.find?_put] at hv
      split at hv
      · exact .inr (Option.some.inj hv).symm
      · exact .inl (.inr ⟨k, hv⟩)
  · exact .inl hv

/-- A frame whose activation ended has nothing new. -/
theorem has_of_retire {f g : FrameId} (hv : ((h.retire f).frame g).Has v) :
    (h.frame g).Has v := by
  rw [frame_retire] at hv
  split at hv
  · rename_i hg
    rw [hg.1]
    exact hv
  · exact hv

/-! ### What the heap stores after a change -/

theorem Stores.of_array {a : ArrayId} (hv : v ∈ h.array a) : h.Stores v := .inl ⟨a, hv⟩

theorem Stores.of_object {o : ObjectId} (hv : (h.object o).Has v) : h.Stores v :=
  .inr (.inl ⟨o, hv⟩)

theorem Stores.of_frame {f : FrameId} (hv : (h.frame f).Has v) : h.Stores v :=
  .inr (.inr ⟨f, hv⟩)

/-- What a variable holds is stored in the frame that the name belongs to. -/
theorem Stores.of_lookup? {f : FrameId} {key : Key} (hv : h.lookup? f key = some v) :
    h.Stores v := by
  obtain ⟨g, -, hg⟩ := lookup?_eq_some_iff.mp hv
  exact .of_frame (.inr ⟨key, hg⟩)

/-- A new array adds its elements. -/
theorem Stores.of_newArray {xs : Array Value} (hv : (h.newArray xs).1.Stores v) :
    h.Stores v ∨ v ∈ xs := by
  rcases hv with ⟨a, hv⟩ | hv
  · rw [array_newArray] at hv
    split at hv
    · exact .inr hv
    · exact .inl (.of_array hv)
  · exact .inl (.inr hv)

/-- A new object adds what it has. -/
theorem Stores.of_newObject {x : Instance} (hv : (h.newObject x).1.Stores v) :
    h.Stores v ∨ x.Has v := by
  rcases hv with hv | ⟨o, hv⟩ | hv
  · exact .inl (.inl hv)
  · rw [object_newObject] at hv
    split at hv
    · exact .inr hv
    · exact .inl (.of_object hv)
  · exact .inl (.inr (.inr hv))

/-- A new closure adds nothing: its code holds no values. -/
theorem Stores.of_newClosure {x : Closure} (hv : (h.newClosure x).1.Stores v) : h.Stores v :=
  hv

/-- A new frame adds what it has. -/
theorem Stores.of_newFrame {x : Frame} (hv : (h.newFrame x).1.Stores v) :
    h.Stores v ∨ x.Has v := by
  rcases hv with hv | hv | ⟨f, hv⟩
  · exact .inl (.inl hv)
  · exact .inl (.inr (.inl hv))
  · rw [frame_newFrame] at hv
    split at hv
    · exact .inr hv
    · exact .inl (.of_frame hv)

/-- An array whose element was changed adds the new element. -/
theorem Stores.of_setElement {a : ArrayId} {i : Nat} (hv : (h.setElement a i w).Stores v) :
    h.Stores v ∨ v = w := by
  rcases hv with ⟨b, hv⟩ | hv
  · exact (mem_of_setElement hv).imp_left .of_array
  · exact .inl (.inr hv)

/-- An object whose element was changed adds the new element. -/
theorem Stores.of_setIndexed {o : ObjectId} {i : Nat} (hv : (h.setIndexed o i w).Stores v) :
    h.Stores v ∨ v = w := by
  rcases hv with hv | ⟨p, hv⟩ | hv
  · exact .inl (.inl hv)
  · exact (has_of_setIndexed hv).imp_left .of_object
  · exact .inl (.inr (.inr hv))

/-- An object whose slot was changed adds the new value. -/
theorem Stores.of_setSlot {o : ObjectId} {i : Nat} (hv : (h.setSlot o i w).Stores v) :
    h.Stores v ∨ v = w := by
  rcases hv with hv | ⟨p, hv⟩ | hv
  · exact .inl (.inl hv)
  · exact (has_of_setSlot hv).imp_left .of_object
  · exact .inl (.inr (.inr hv))

/-- A variable that was declared or assigned to adds its value. -/
theorem Stores.of_declare {f : FrameId} {key : Key} {name : Json}
    (hv : (h.declare f key name w).Stores v) : h.Stores v ∨ v = w := by
  rcases hv with hv | hv | ⟨g, hv⟩
  · exact .inl (.inl hv)
  · exact .inl (.inr (.inl hv))
  · exact (has_of_declare hv).imp_left .of_frame

/-- An activation that ended adds nothing. -/
theorem Stores.of_retire {f : FrameId} (hv : (h.retire f).Stores v) : h.Stores v := by
  rcases hv with hv | hv | ⟨g, hv⟩
  · exact .inl hv
  · exact .inr (.inl hv)
  · exact .of_frame (has_of_retire hv)

end Heap

end Smalltalk
