import Mathlib.Logic.Relation
import Smalltalk.Proofs.Invariant

/-!
# `Smalltalk.Proofs.Reach`: what leads to what in the heap

A `Cell` is something in the heap by its number. `Heap.Refers` says which cells one cell
leads to: an array and an object to what they store, a closure to the frame it was made
in, a frame to its receiver, to the values of its variables and to the frames around it.
A frame does not lead to its callers. `Heap.Reach` is what some cells lead to in any
number of steps, and `Memory.Roots` are the cells that a list of values and the globals
begin with.

The frames around a frame are kept as a list here. In a heap where frames are nested they
are what lexical parents lead to one by one (`Heap.parents_iff_mem_chain`).

`Heap.Makes` and `Heap.Changes` say what an evaluation does to the heap in one go: it makes
one cell or changes one. They say where that cell leads to then, and what it depends on.
There is a lemma for each way to make something and for each way to change it.

A number that nothing has been made for is a cell, too. It reads as an empty thing, and a
closure there as one of the first frame; so nothing below assumes that values refer to
what is there.
-/

set_option autoImplicit false

namespace Smalltalk

open Relation (ReflTransGen)

/-- Something in the heap, by its number. -/
inductive Cell where
  | array (a : ArrayId)
  | object (o : ObjectId)
  | closure (c : ClosureId)
  | frame (f : FrameId)
deriving DecidableEq

/-- The cell that a value refers to. -/
def Value.cell? : Value → Option Cell
  | .array a => some (.array a)
  | .object o => some (.object o)
  | .closure c => some (.closure c)
  | _ => none

namespace Heap

/-- A cell has been made. -/
def Contains (h : Heap) : Cell → Prop
  | .array a => a < h.arrays.size
  | .object o => o < h.objects.size
  | .closure c => c < h.closures.size
  | .frame f => f < h.frames.size

/-- A cell is the very same in two heaps. -/
def Agrees (h h' : Heap) : Cell → Prop
  | .array a => h'.array a = h.array a
  | .object o => h'.object o = h.object o
  | .closure c => h'.closure c = h.closure c
  | .frame f => h'.frame f = h.frame f

/-- One cell leads to another in one step. -/
def Refers (h : Heap) : Cell → Cell → Prop
  | .array a, c => ∃ v ∈ h.array a, v.cell? = some c
  | .object o, c => ∃ v, (h.object o).Has v ∧ v.cell? = some c
  | .closure k, c => c = .frame (h.closure k).frame
  | .frame f, c =>
    (∃ v, (h.frame f).Has v ∧ v.cell? = some c) ∨ ∃ g ∈ (h.frame f).outer, c = .frame g

/-- What some cells lead to, these included. -/
def Reach (h : Heap) (roots : Cell → Prop) (c : Cell) : Prop :=
  ∃ root, roots root ∧ ReflTransGen h.Refers root c

variable {h h' : Heap} {roots P : Cell → Prop} {c c' cell : Cell}

@[simp] theorem contains_array (a : ArrayId) : h.Contains (.array a) ↔ a < h.arrays.size :=
  Iff.rfl

@[simp] theorem contains_object (o : ObjectId) : h.Contains (.object o) ↔ o < h.objects.size :=
  Iff.rfl

@[simp] theorem contains_closure (k : ClosureId) :
    h.Contains (.closure k) ↔ k < h.closures.size :=
  Iff.rfl

@[simp] theorem contains_frame (f : FrameId) : h.Contains (.frame f) ↔ f < h.frames.size :=
  Iff.rfl

/-- The count of texts is no cell. -/
theorem contains_texts (k : Nat) (c : Cell) :
    ({ h with texts := k } : Heap).Contains c ↔ h.Contains c := by
  cases c <;> exact Iff.rfl

theorem refers_frame {f : FrameId} : h.Refers (.frame f) c ↔
    (∃ v, (h.frame f).Has v ∧ v.cell? = some c) ∨ ∃ g ∈ (h.frame f).outer, c = .frame g :=
  Iff.rfl

theorem Agrees.refl (h : Heap) (c : Cell) : h.Agrees h c := by cases c <;> rfl

theorem agrees_texts (k : Nat) (c : Cell) : h.Agrees { h with texts := k } c := by
  cases c <;> rfl

theorem Agrees.symm (a : h.Agrees h' c) : h'.Agrees h c := by cases c <;> exact Eq.symm a

theorem Agrees.trans {h'' : Heap} (a : h.Agrees h' c) (a' : h'.Agrees h'' c) :
    h.Agrees h'' c := by
  cases c <;> exact Eq.trans a' a

theorem Reach.root (hc : roots c) : h.Reach roots c := ⟨c, hc, .refl⟩

theorem Reach.refers (hc : h.Reach roots c) (hrefers : h.Refers c c') : h.Reach roots c' := by
  obtain ⟨root, hroot, hpath⟩ := hc
  exact ⟨root, hroot, hpath.tail hrefers⟩

/-- What holds of the roots, and of all that such a cell leads to, holds of what is reached. -/
theorem Reach.closed (hc : h.Reach roots c) (hroots : ∀ root, roots root → P root)
    (hrefers : ∀ c c', P c → h.Refers c c' → P c') : P c := by
  obtain ⟨root, hroot, hpath⟩ := hc
  induction hpath with
  | refl => exact hroots root hroot
  | tail _ hlast ih => exact hrefers _ _ ih hlast

/-- Where a cell leads to depends on the cell alone. -/
theorem Agrees.refers (a : h.Agrees h' c) (hrefers : h'.Refers c c') : h.Refers c c' := by
  cases c with
  | array a' =>
      obtain ⟨v, hv, hcell⟩ := hrefers
      exact ⟨v, Eq.mp (congrArg (v ∈ ·) a) hv, hcell⟩
  | object o =>
      obtain ⟨v, hv, hcell⟩ := hrefers
      exact ⟨v, Eq.mp (congrArg (Instance.Has · v) a) hv, hcell⟩
  | closure k => exact hrefers.trans (congrArg (fun x => Cell.frame x.frame) a)
  | frame f =>
      have hframe : h'.frame f = h.frame f := a
      rw [refers_frame, hframe] at hrefers
      exact hrefers

/-! ### Lexical parents -/

/-- The frame around a frame that is next to it. -/
def Parent (h : Heap) (f g : FrameId) : Prop := (h.frame f).outer.head? = some g

/-- In nested frames the lexical parents lead to the frames of the chain, and to no others. -/
theorem parents_iff_mem_chain (hn : ∀ f < h.frames.size, h.Nested f) {f g : FrameId}
    (hf : f < h.frames.size) : ReflTransGen h.Parent f g ↔ g ∈ h.chain f := by
  induction f, hf using nested_induction hn with
  | outermost f _ houter =>
      rw [chain_of_outer_nil houter, List.mem_singleton, ReflTransGen.cases_head_iff]
      constructor
      · rintro (rfl | ⟨k, hparent, -⟩)
        · rfl
        · unfold Parent at hparent
          rw [houter] at hparent
          cases hparent
      · exact fun heq => .inl heq.symm
  | inner f _ k _ houter _ _ ih =>
      have hparent : ∀ j, h.Parent f j ↔ j = k := by
        intro j
        unfold Parent
        rw [houter, List.head?_cons, Option.some.injEq, eq_comm]
      rw [chain_of_outer houter, List.mem_cons, ReflTransGen.cases_head_iff, ← ih]
      simp only [hparent, exists_eq_left]
      rw [eq_comm]

/-! ### One cell at a time -/

/-- At most one cell is made or changed. It leads to what it led to before, unless it is
new, and else to cells of `new`. -/
structure Touch (h h' : Heap) (cell : Cell) (new : Cell → Prop) : Prop where
  grows : ∀ c, h.Contains c → h'.Contains c
  made : ∀ c, h'.Contains c → h.Contains c ∨ c = cell
  agrees : ∀ c ≠ cell, h.Agrees h' c
  refers : ∀ c, h'.Refers cell c →
    (h'.Contains cell → h.Contains cell) ∧ h.Refers cell c ∨ new c

/-- A way to make a cell. Its number depends on what there is, and nothing else does. -/
structure Makes {α : Type} (f : Heap → Heap × α) (cell : Heap → Cell) (new : Cell → Prop) :
    Prop where
  contains : ∀ (h : Heap) (c : Cell), (f h).1.Contains c ↔ h.Contains c ∨ c = cell h
  fresh : ∀ h : Heap, ¬ h.Contains (cell h)
  agrees : ∀ h : Heap, ∀ c ≠ cell h, h.Agrees (f h).1 c
  refers : ∀ (h : Heap) (c : Cell), (f h).1.Refers (cell h) c → new c
  same : ∀ h h' : Heap, (∀ c, h'.Contains c ↔ h.Contains c) →
    cell h' = cell h ∧ (f h').2 = (f h).2 ∧ (f h).1.Agrees (f h').1 (cell h)
  texts : ∀ h : Heap, (f h).1.texts = h.texts

/-- A way to change a cell. What it is afterwards depends on what it has been. -/
structure Changes (f : Heap → Heap) (cell : Cell) (new : Cell → Prop) : Prop where
  contains : ∀ (h : Heap) (c : Cell), (f h).Contains c ↔ h.Contains c
  agrees : ∀ h : Heap, ∀ c ≠ cell, h.Agrees (f h) c
  refers : ∀ (h : Heap) (c : Cell), (f h).Refers cell c → h.Refers cell c ∨ new c
  same : ∀ h h' : Heap, (h'.Contains cell ↔ h.Contains cell) → h.Agrees h' cell →
    (f h).Agrees (f h') cell
  texts : ∀ h : Heap, (f h).texts = h.texts

theorem Makes.touch {α : Type} {f : Heap → Heap × α} {cell : Heap → Cell} {new : Cell → Prop}
    (makes : Makes f cell new) (h : Heap) : h.Touch (f h).1 (cell h) new where
  grows c hc := (makes.contains h c).mpr (.inl hc)
  made c := (makes.contains h c).mp
  agrees := makes.agrees h
  refers c hc := .inr (makes.refers h c hc)

theorem Changes.touch {f : Heap → Heap} {new : Cell → Prop} (changes : Changes f cell new)
    (h : Heap) : h.Touch (f h) cell new where
  grows c := (changes.contains h c).mpr
  made c hc := .inl ((changes.contains h c).mp hc)
  agrees := changes.agrees h
  refers c hc := (changes.refers h c hc).imp_left fun hc => ⟨(changes.contains h cell).mp, hc⟩

/-- The same numbers are there where the same cells are. -/
theorem size_eq {n k : Nat} (hsame : ∀ i, i < k ↔ i < n) : k = n := by
  have hn := hsame n
  have hk := hsame k
  omega

namespace Makes

theorem newArray (xs : Array Value) : Makes (fun h => h.newArray xs)
    (fun h => .array h.arrays.size) fun c => ∃ v ∈ xs, v.cell? = some c where
  contains h c := by
    cases c with
    | array a =>
        rw [contains_array, contains_array, size_newArray, Nat.lt_succ_iff_lt_or_eq,
          Cell.array.injEq]
    | _ => exact (or_iff_left fun heq => nomatch heq).symm
  fresh h := Nat.lt_irrefl h.arrays.size
  agrees h c hc := by
    cases c with
    | array a => exact (array_newArray h xs a).trans (if_neg fun heq => hc (congrArg _ heq))
    | _ => rfl
  refers h c hc := by
    obtain ⟨v, hv, hcell⟩ := hc
    rw [array_newArray, if_pos rfl] at hv
    exact ⟨v, hv, hcell⟩
  same h h' hsame := by
    have hsize : h'.arrays.size = h.arrays.size := size_eq fun a => hsame (.array a)
    refine ⟨congrArg Cell.array hsize, hsize, ?_⟩
    show (h'.newArray xs).1.array _ = (h.newArray xs).1.array _
    rw [array_newArray, array_newArray, if_pos rfl, if_pos hsize.symm]
  texts _ := rfl

theorem newObject (x : Instance) : Makes (fun h => h.newObject x)
    (fun h => .object h.objects.size) fun c => ∃ v, x.Has v ∧ v.cell? = some c where
  contains h c := by
    cases c with
    | object o =>
        rw [contains_object, contains_object, size_newObject, Nat.lt_succ_iff_lt_or_eq,
          Cell.object.injEq]
    | _ => exact (or_iff_left fun heq => nomatch heq).symm
  fresh h := Nat.lt_irrefl h.objects.size
  agrees h c hc := by
    cases c with
    | object o => exact (object_newObject h x o).trans (if_neg fun heq => hc (congrArg _ heq))
    | _ => rfl
  refers h c hc := by
    obtain ⟨v, hv, hcell⟩ := hc
    rw [object_newObject, if_pos rfl] at hv
    exact ⟨v, hv, hcell⟩
  same h h' hsame := by
    have hsize : h'.objects.size = h.objects.size := size_eq fun o => hsame (.object o)
    refine ⟨congrArg Cell.object hsize, hsize, ?_⟩
    show (h'.newObject x).1.object _ = (h.newObject x).1.object _
    rw [object_newObject, object_newObject, if_pos rfl, if_pos hsize.symm]
  texts _ := rfl

theorem newClosure (x : Closure) : Makes (fun h => h.newClosure x)
    (fun h => .closure h.closures.size) fun c => c = .frame x.frame where
  contains h c := by
    cases c with
    | closure k =>
        rw [contains_closure, contains_closure, size_newClosure, Nat.lt_succ_iff_lt_or_eq,
          Cell.closure.injEq]
    | _ => exact (or_iff_left fun heq => nomatch heq).symm
  fresh h := Nat.lt_irrefl h.closures.size
  agrees h c hc := by
    cases c with
    | closure k => exact (closure_newClosure h x k).trans (if_neg fun heq => hc (congrArg _ heq))
    | _ => rfl
  refers h c hc := by
    obtain rfl : c = _ := hc
    rw [closure_newClosure, if_pos rfl]
  same h h' hsame := by
    have hsize : h'.closures.size = h.closures.size := size_eq fun k => hsame (.closure k)
    refine ⟨congrArg Cell.closure hsize, hsize, ?_⟩
    show (h'.newClosure x).1.closure _ = (h.newClosure x).1.closure _
    rw [closure_newClosure, closure_newClosure, if_pos rfl, if_pos hsize.symm]
  texts _ := rfl

theorem newFrame (x : Frame) : Makes (fun h => h.newFrame x)
    (fun h => .frame h.frames.size) fun c =>
      (∃ v, x.Has v ∧ v.cell? = some c) ∨ ∃ g ∈ x.outer, c = .frame g where
  contains h c := by
    cases c with
    | frame f =>
        rw [contains_frame, contains_frame, size_newFrame, Nat.lt_succ_iff_lt_or_eq,
          Cell.frame.injEq]
    | _ => exact (or_iff_left fun heq => nomatch heq).symm
  fresh h := Nat.lt_irrefl h.frames.size
  agrees h c hc := by
    cases c with
    | frame f => exact (frame_newFrame h x f).trans (if_neg fun heq => hc (congrArg _ heq))
    | _ => rfl
  refers h c hc := by
    rw [refers_frame, frame_newFrame, if_pos rfl] at hc
    exact hc
  same h h' hsame := by
    have hsize : h'.frames.size = h.frames.size := size_eq fun f => hsame (.frame f)
    refine ⟨congrArg Cell.frame hsize, hsize, ?_⟩
    show (h'.newFrame x).1.frame _ = (h.newFrame x).1.frame _
    rw [frame_newFrame, frame_newFrame, if_pos rfl, if_pos hsize.symm]
  texts _ := rfl

end Makes

namespace Changes

theorem setElement (a : ArrayId) (i : Nat) (v : Value) :
    Changes (fun h => h.setElement a i v) (.array a) fun c => v.cell? = some c where
  contains h c := by
    cases c with
    | array b => rw [contains_array, contains_array, size_setElement]
    | _ => rfl
  agrees h c hc := by
    cases c with
    | array b =>
        exact (array_setElement h a b i v).trans (if_neg fun heq => hc (congrArg _ heq.1))
    | _ => rfl
  refers h c := by
    rintro ⟨w, hw, hcell⟩
    rcases mem_of_setElement hw with hw | rfl
    · exact .inl ⟨w, hw, hcell⟩
    · exact .inr hcell
  same h h' hthere hsame := by
    rw [contains_array, contains_array] at hthere
    have hsame : h'.array a = h.array a := hsame
    show (h'.setElement a i v).array a = (h.setElement a i v).array a
    simp only [array_setElement, hthere, hsame]
  texts _ := rfl

/-- A change of one object that puts nothing into it but one value. -/
theorem modifyObject {o : ObjectId} {change : Instance → Instance} {v : Value}
    (hhas : ∀ (h : Heap) (w : Value),
      (({ h with objects := h.objects.modify o change } : Heap).object o).Has w →
        (h.object o).Has w ∨ w = v) :
    Changes (fun h => { h with objects := h.objects.modify o change }) (.object o)
      fun c => v.cell? = some c where
  contains h c := by
    cases c with
    | object p => rw [contains_object, contains_object, Array.size_modify]
    | _ => rfl
  agrees h c hc := by
    cases c with
    | object p => exact getD_modify_of_ne _ _ _ fun heq => hc (congrArg _ heq)
    | _ => rfl
  refers h c := by
    rintro ⟨w, hw, hcell⟩
    rcases hhas h w hw with hw | rfl
    · exact .inl ⟨w, hw, hcell⟩
    · exact .inr hcell
  same h h' hthere hsame := by
    rw [contains_object, contains_object] at hthere
    have hsame : h'.objects.getD o default = h.objects.getD o default := hsame
    show (h'.objects.modify o change).getD o default = (h.objects.modify o change).getD o default
    simp only [getD_modify, hthere, hsame]
  texts _ := rfl

theorem setIndexed (o : ObjectId) (i : Nat) (v : Value) :
    Changes (fun h => h.setIndexed o i v) (.object o) fun c => v.cell? = some c :=
  modifyObject fun _ _ => has_of_setIndexed

theorem setSlot (o : ObjectId) (i : Nat) (v : Value) :
    Changes (fun h => h.setSlot o i v) (.object o) fun c => v.cell? = some c :=
  modifyObject fun _ _ => has_of_setSlot

/-- A change of one frame that leaves it in the frame around it. What is put into it leads to
`new`. -/
theorem modifyFrame {f : FrameId} {change : Frame → Frame} {new : Cell → Prop}
    (hhas : ∀ (h : Heap) (w : Value),
      (({ h with frames := h.frames.modify f change } : Heap).frame f).Has w →
        (h.frame f).Has w ∨ ∀ c, w.cell? = some c → new c)
    (houter : ∀ h : Heap, (({ h with frames := h.frames.modify f change } : Heap).frame f).outer
      = (h.frame f).outer) :
    Changes (fun h => { h with frames := h.frames.modify f change }) (.frame f) new where
  contains h c := by
    cases c with
    | frame g => rw [contains_frame, contains_frame, Array.size_modify]
    | _ => rfl
  agrees h c hc := by
    cases c with
    | frame g => exact getD_modify_of_ne _ _ _ fun heq => hc (congrArg _ heq)
    | _ => rfl
  refers h c := by
    rintro (⟨w, hw, hcell⟩ | ⟨g, hg, rfl⟩)
    · rcases hhas h w hw with hw | hnew
      · exact .inl (.inl ⟨w, hw, hcell⟩)
      · exact .inr (hnew c hcell)
    · -- a frame leads to the frame around it as well, and that is still the same
      rw [houter] at hg
      exact .inl (.inr ⟨g, hg, rfl⟩)
  same h h' hthere hsame := by
    rw [contains_frame, contains_frame] at hthere
    have hsame : h'.frames.getD f default = h.frames.getD f default := hsame
    show (h'.frames.modify f change).getD f default = (h.frames.modify f change).getD f default
    simp only [getD_modify, hthere, hsame]
  texts _ := rfl

theorem declare (f : FrameId) (key : Key) (name : Json) (v : Value) :
    Changes (fun h => h.declare f key name v) (.frame f) fun c => v.cell? = some c := by
  refine modifyFrame (fun h w hw => ?_) fun h => h.outer_declare f f key name v
  refine (has_of_declare hw).imp_right ?_
  rintro rfl c hcell
  exact hcell

/-- An activation that ends leads nowhere new. -/
theorem retire (f : FrameId) : Changes (fun h => h.retire f) (.frame f) fun _ => False :=
  modifyFrame (fun _ _ hw => .inl (has_of_retire hw)) fun h => h.outer_retire f f

end Changes

end Heap

namespace Memory

/-- The cells that the globals and some values refer to. -/
def Roots (m : Memory) (vs : List Value) (c : Cell) : Prop :=
  (∃ v ∈ vs, v.cell? = some c) ∨ ∃ key v, m.globals.find? key = some v ∧ v.cell? = some c

/-- What the globals and some values lead to. -/
def Reach (m : Memory) (vs : List Value) : Cell → Prop := m.heap.Reach (m.Roots vs)

end Memory

end Smalltalk
