import Smalltalk.Proofs.Structure

/-!
# `Smalltalk.Proofs.Literal`: a literal is made anew whenever it is evaluated

A literal tree is a value, a symbol, or an array of literal trees (`Node.isLiteral`). The
lists in an image are such arrays. Evaluating one has the same outcome in every frame: it
answers a value that looks like the tree (`Heap.Depicts`), and all it does is to make the
arrays of the answer, one for each array in the tree (`Memory.Copies`). So nothing else can
refer to them, and what is put into the arrays of one answer is in no other.

The proof goes along the tree. The arrays are numbered in the order in which they are made,
those inside an array before itself, so one equation on lists of numbers says that they are
new and all different. Only a tree that nests deeper than tasks may is not evaluated.
-/

set_option autoImplicit false

namespace Smalltalk

/-! ### Literal trees -/

namespace Node

mutual
/-- Whether a tree is a literal: a value, a symbol, or an array of literals. -/
def isLiteral : Node → Bool
  | literal _ | symbol _ => true
  | literalArray elements => allLiteral elements
  | _ => false

/-- The same of every tree of a list. -/
def allLiteral : List Node → Bool
  | [] => true
  | n :: rest => n.isLiteral && allLiteral rest
end

mutual
/-- How deeply tasks nest in the evaluation of a literal. -/
def height : Node → Nat
  | literalArray elements => greatestHeight elements + 1
  | _ => 1

/-- The greatest height of some trees. -/
def greatestHeight : List Node → Nat
  | [] => 0
  | n :: rest => max n.height (greatestHeight rest)
end

mutual
/-- What a JSON value stands for as a literal is a literal tree. -/
theorem isLiteral_of_ofLiteral? : (json : Json) → {n : Node} → ofLiteral? json = .ok n →
    n.isLiteral = true
  | .null, _, h | .bool _, _, h | .int _, _, h | .float _, _, h | .str _, _, h => by
      cases h
      rfl
  | .arr items, _, h => by
      unfold ofLiteral? at h
      obtain ⟨ns, hitems, rfl⟩ := Primitive.map_eq_ok.mp h
      exact allLiteral_of_ofLiterals? items hitems
  | .obj _, _, h => nomatch h

theorem allLiteral_of_ofLiterals? : (items : List Json) → {ns : List Node} →
    ofLiterals? items = .ok ns → allLiteral ns = true
  | [], _, h => by
      cases h
      rfl
  | item :: rest, _, h => by
      unfold ofLiterals? at h
      obtain ⟨n, hitem, h⟩ := Primitive.bind_eq_ok.mp h
      obtain ⟨ns, hrest, h⟩ := Primitive.bind_eq_ok.mp h
      cases h
      exact Bool.and_eq_true_iff.mpr
        ⟨isLiteral_of_ofLiteral? item hitem, allLiteral_of_ofLiterals? rest hrest⟩
end

mutual
/-- Where a literal is placed does not matter. -/
theorem isLiteral_withSites (next : Nat) :
    (n : Node) → n.isLiteral = true → (n.withSites next).1.isLiteral = true
  | .literal value, _ => by cases value <;> rfl
  | .symbol _, _ => rfl
  | .literalArray elements, h => allLiteral_withSites next elements h

theorem allLiteral_withSites (next : Nat) :
    (ns : List Node) → allLiteral ns = true → allLiteral (listWithSites next ns).1 = true
  | [], _ => rfl
  | n :: rest, h => by
      obtain ⟨hn, hrest⟩ := Bool.and_eq_true_iff.mp h
      exact Bool.and_eq_true_iff.mpr
        ⟨isLiteral_withSites next n hn, allLiteral_withSites _ rest hrest⟩
end

end Node

/-! ### Values that look like a tree -/

namespace Heap

mutual
/-- A value looks like a literal tree. The arrays that are met in it are listed as often as
they are met, those inside an array before itself. -/
inductive Depicts (h : Heap) : Node → Value → List ArrayId → Prop where
  | nil : Depicts h (.literal .nil) .nil []
  | bool (b : Bool) : Depicts h (.literal (.bool b)) (.bool b) []
  | int (i : Int) : Depicts h (.literal (.int i)) (.int i) []
  | float (x : Float) : Depicts h (.literal (.float x)) (.float x) []
  | text (s : String) (site : Nat) : Depicts h (.literal (.text s site)) (.text s (.made site)) []
  | symbol (s : String) : Depicts h (.symbol s) (.symbol s) []
  | array {elements : List Node} {a : ArrayId} {ids : List ArrayId}
    (parts : DepictsAll h elements (h.array a).toList ids) :
    Depicts h (.literalArray elements) (.array a) (ids ++ [a])

/-- The same of values and trees one by one. -/
inductive DepictsAll (h : Heap) : List Node → List Value → List ArrayId → Prop where
  | nil : DepictsAll h [] [] []
  | cons {n : Node} {v : Value} {ids : List ArrayId} {ns : List Node} {vs : List Value}
    {ids' : List ArrayId} (first : Depicts h n v ids) (rest : DepictsAll h ns vs ids') :
    DepictsAll h (n :: ns) (v :: vs) (ids ++ ids')
end

variable {h h' : Heap}

mutual
/-- What a value looks like depends on the arrays that are met in it and on nothing else. -/
theorem Depicts.congr {n : Node} {v : Value} {ids : List ArrayId} :
    h.Depicts n v ids → (∀ a ∈ ids, h'.array a = h.array a) → h'.Depicts n v ids
  | .nil, _ => .nil
  | .bool b, _ => .bool b
  | .int i, _ => .int i
  | .float x, _ => .float x
  | .text s site, _ => .text s site
  | .symbol s, _ => .symbol s
  | @Depicts.array _ _ a ids parts, hsame => by
      refine .array ?_
      rw [hsame a (List.mem_append_right ids List.mem_cons_self)]
      exact parts.congr fun b hb => hsame b (List.mem_append_left _ hb)

theorem DepictsAll.congr {ns : List Node} {vs : List Value} {ids : List ArrayId} :
    h.DepictsAll ns vs ids → (∀ a ∈ ids, h'.array a = h.array a) → h'.DepictsAll ns vs ids
  | .nil, _ => .nil
  | .cons first rest, hsame =>
      .cons (first.congr fun a ha => hsame a (List.mem_append_left _ ha))
        (rest.congr fun a ha => hsame a (List.mem_append_right _ ha))
end

/-- What is put into another array is not seen. -/
theorem Depicts.setElement {n : Node} {v : Value} {ids : List ArrayId} (d : h.Depicts n v ids)
    {a : ArrayId} (ha : a ∉ ids) (i : Nat) (w : Value) : (h.setElement a i w).Depicts n v ids := by
  refine d.congr fun b hb => ?_
  have hother : b ≠ a := by
    rintro rfl
    exact ha hb
  rw [array_setElement, if_neg fun h => hother h.1]

end Heap

/-! ### Making arrays -/

namespace Memory

/-- The memory with some arrays more, and all else as it was. -/
def withArrays (m : Memory) (made : List (Array Value)) : Memory :=
  { m with heap := { m.heap with arrays := m.heap.arrays ++ made.toArray } }

/-- The numbers of arrays that are made now, in the order of making. -/
def newArrays (m : Memory) (made : List (Array Value)) : List ArrayId :=
  List.range' m.heap.arrays.size made.length

variable (m : Memory) (made more : List (Array Value))

theorem withArrays_nil : m.withArrays [] = m := by
  show { m with heap := { m.heap with arrays := m.heap.arrays ++ #[] } } = m
  rw [Array.append_empty]

theorem withArrays_append : m.withArrays (made ++ more) = (m.withArrays made).withArrays more := by
  unfold withArrays
  simp only [← List.append_toArray, Array.append_assoc]

theorem withArrays_singleton (xs : Array Value) :
    m.withArrays [xs] = { m with heap := (m.heap.newArray xs).1 } := rfl

theorem size_withArrays :
    (m.withArrays made).heap.arrays.size = m.heap.arrays.size + made.length := by
  exact Array.size_append

theorem newArrays_append :
    m.newArrays (made ++ more) = m.newArrays made ++ (m.withArrays made).newArrays more := by
  unfold newArrays
  rw [size_withArrays, List.length_append, List.range'_append_1]

/-- An array that was there is as it was. -/
theorem array_withArrays {a : ArrayId} (ha : a < m.heap.arrays.size) :
    (m.withArrays made).heap.array a = m.heap.array a := by
  show (m.heap.arrays ++ made.toArray).getD a #[] = m.heap.arrays.getD a #[]
  rw [Array.getD_eq_getD_getElem?, Array.getD_eq_getD_getElem?, Array.getElem?_append_left ha]

variable {m made}

theorem mem_newArrays {a : ArrayId} :
    a ∈ m.newArrays made ↔ m.heap.arrays.size ≤ a ∧ a < (m.withArrays made).heap.arrays.size := by
  rw [size_withArrays]
  unfold newArrays
  exact List.mem_range'_1

/-- What looks like a tree still does when more arrays are made. -/
theorem depicts_withArrays {n : Node} {v : Value}
    (d : (m.withArrays made).heap.Depicts n v (m.newArrays made)) (more : List (Array Value)) :
    ((m.withArrays made).withArrays more).heap.Depicts n v (m.newArrays made) :=
  d.congr fun _ ha => array_withArrays _ more (mem_newArrays.mp ha).2

end Memory

/-! ### Evaluating literals -/

open Eval Memory

/-- A literal tree is made anew: whoever evaluates it, with enough depth, is answered a value
that looks like the tree and consists of new arrays, each of which is met in it once. Making
them is all that happens, also where the depth is exhausted on the way. -/
structure Memory.Copies (m : Memory) (n : Node) (v : Value) (made : List (Array Value)) :
    Prop where
  answers : ∀ settings depth f, n.height ≤ depth →
    run settings depth (.evaluate n f) m = .ok v (m.withArrays made)
  tooDeep : ∀ settings depth f, depth < n.height →
    ∃ begun, run settings depth (.evaluate n f) m = .error .tooDeep (m.withArrays begun)
  depicts : (m.withArrays made).heap.Depicts n v (m.newArrays made)

/-- The same of trees one by one. -/
structure Memory.CopiesAll (m : Memory) (ns : List Node) (vs : List Value)
    (made : List (Array Value)) : Prop where
  answers : ∀ settings depth f, Node.greatestHeight ns ≤ depth →
    ns.mapM (fun n => run settings depth (.evaluate n f)) m = .ok vs (m.withArrays made)
  tooDeep : ∀ settings depth f, depth < Node.greatestHeight ns →
    ∃ begun, ns.mapM (fun n => run settings depth (.evaluate n f)) m =
      .error .tooDeep (m.withArrays begun)
  depicts : (m.withArrays made).heap.DepictsAll ns vs (m.newArrays made)

variable {m : Memory} {n : Node} {ns : List Node} {v : Value} {vs : List Value}
  {made more : List (Array Value)}

/-- A tree without arrays. -/
theorem Memory.Copies.leaf (hheight : n.height = 1)
    (hanswers : ∀ rec f, evaluateNode rec f n m = .ok v m) (d : m.heap.Depicts n v []) :
    m.Copies n v [] where
  answers settings depth f hdepth := by
    rw [withArrays_nil]
    cases depth with
    | zero => omega
    | succ depth => exact hanswers _ f
  tooDeep settings depth f hdepth := by
    obtain rfl : depth = 0 := by omega
    refine ⟨[], ?_⟩
    rw [withArrays_nil]
    rfl
  depicts := by
    rw [withArrays_nil]
    exact d

/-- An array is made behind its elements. -/
theorem Memory.CopiesAll.array (h : m.CopiesAll ns vs made) :
    m.Copies (.literalArray ns) (.array (m.withArrays made).heap.arrays.size)
      (made ++ [vs.toArray]) where
  answers settings depth f hdepth := by
    cases depth with
    | zero => exact absurd hdepth (Nat.not_succ_le_zero _)
    | succ depth =>
        have hns := h.answers settings depth f (Nat.le_of_succ_le_succ hdepth)
        rw [withArrays_append]
        exact bind_of_ok hns
  tooDeep settings depth f hdepth := by
    cases depth with
    | zero =>
        refine ⟨[], ?_⟩
        rw [withArrays_nil]
        rfl
    | succ depth =>
        obtain ⟨begun, hns⟩ := h.tooDeep settings depth f (Nat.lt_of_succ_lt_succ hdepth)
        exact ⟨begun, bind_of_error hns⟩
  depicts := by
    -- the arrays of the elements are numbered first
    have hids : m.newArrays (made ++ [vs.toArray])
        = m.newArrays made ++ [(m.withArrays made).heap.arrays.size] := m.newArrays_append made _
    rw [withArrays_append, hids]
    refine .array ?_
    rw [withArrays_singleton, Heap.array_newArray, if_pos rfl]
    refine h.depicts.congr fun a ha => ?_
    rw [Heap.array_newArray, if_neg (Nat.ne_of_lt (mem_newArrays.mp ha).2)]

theorem Memory.CopiesAll.nil : m.CopiesAll [] [] [] where
  answers settings depth f _ := by
    rw [withArrays_nil]
    rfl
  tooDeep _ depth _ hdepth := absurd hdepth (Nat.not_lt_zero depth)
  depicts := .nil

theorem Memory.Copies.cons (h : m.Copies n v made) (hs : (m.withArrays made).CopiesAll ns vs more) :
    m.CopiesAll (n :: ns) (v :: vs) (made ++ more) where
  answers settings depth f hdepth := by
    obtain ⟨hn, hns⟩ := Nat.max_le.mp hdepth
    rw [List.mapM_cons, withArrays_append, bind_of_ok (h.answers settings depth f hn),
      bind_of_ok (hs.answers settings depth f hns)]
    rfl
  tooDeep settings depth f hdepth := by
    rw [List.mapM_cons]
    rcases Nat.lt_or_ge depth n.height with hlt | hn
    · obtain ⟨begun, hfirst⟩ := h.tooDeep settings depth f hlt
      exact ⟨begun, bind_of_error hfirst⟩
    · -- the first tree goes well, so it is one of the others that is too deep
      have hlt : depth < Node.greatestHeight ns := by
        change depth < max _ _ at hdepth
        omega
      obtain ⟨begun, hrest⟩ := hs.tooDeep settings depth f hlt
      refine ⟨made ++ begun, ?_⟩
      rw [bind_of_ok (h.answers settings depth f hn), bind_of_error hrest, withArrays_append]
  depicts := by
    rw [withArrays_append, newArrays_append]
    exact .cons (depicts_withArrays h.depicts more) hs.depicts

mutual
/-- One case for each sort of literal tree. -/
theorem Memory.copies_of_isLiteral (m : Memory) :
    (n : Node) → n.isLiteral = true → ∃ v made, m.Copies n v made
  | .literal .nil, _ => ⟨_, _, .leaf rfl (fun _ _ => rfl) .nil⟩
  | .literal (.bool b), _ => ⟨_, _, .leaf rfl (fun _ _ => rfl) (.bool b)⟩
  | .literal (.int i), _ => ⟨_, _, .leaf rfl (fun _ _ => rfl) (.int i)⟩
  | .literal (.float x), _ => ⟨_, _, .leaf rfl (fun _ _ => rfl) (.float x)⟩
  | .literal (.text s site), _ => ⟨_, _, .leaf rfl (fun _ _ => rfl) (.text s site)⟩
  | .symbol s, _ => ⟨_, _, .leaf rfl (fun _ _ => rfl) (.symbol s)⟩
  | .literalArray elements, h => by
      obtain ⟨vs, made, hall⟩ := m.copiesAll_of_allLiteral elements h
      exact ⟨_, _, hall.array⟩

theorem Memory.copiesAll_of_allLiteral (m : Memory) :
    (ns : List Node) → Node.allLiteral ns = true → ∃ vs made, m.CopiesAll ns vs made
  | [], _ => ⟨_, _, .nil⟩
  | n :: rest, h => by
      obtain ⟨hn, hrest⟩ := Bool.and_eq_true_iff.mp h
      obtain ⟨v, made, hcopies⟩ := m.copies_of_isLiteral n hn
      obtain ⟨vs, more, hall⟩ := (m.withArrays made).copiesAll_of_allLiteral rest hrest
      exact ⟨_, _, hcopies.cons hall⟩
end

/-! ### The result -/

/-- At every moment a literal tree, also one that stands for a list in an image, is answered
by a copy that consists of new arrays: nothing that was there refers to one of them, and none
is met twice. Whatever happens then, the next evaluation answers another copy, which shares
no array with the first, so it looks like the tree whatever is put into the arrays of the
first. -/
theorem literals_answer_anew (h : Charter.free.Reached m) :
    (∀ json n next, Node.ofLiteral? json = .ok n → (n.withSites next).1.isLiteral = true) ∧
    ∀ n : Node, n.isLiteral = true → ∃ v made, m.Copies n v made ∧ (m.newArrays made).Nodup ∧
      (∀ a ∈ m.newArrays made, ¬ m.heap.Stores (.array a) ∧
        ∀ key, m.globals.find? key ≠ some (.array a)) ∧
      ∀ m', (m.withArrays made).Continues m' → ∃ v' made', m'.Copies n v' made' ∧
        ∀ a ∈ m.newArrays made, a ∉ m'.newArrays made' ∧
          ∀ i w, ((m'.withArrays made').heap.setElement a i w).Depicts n v'
            (m'.newArrays made') := by
  refine ⟨fun json n next hread => ?_, fun n hn => ?_⟩
  · exact Node.isLiteral_withSites next n (Node.isLiteral_of_ofLiteral? json hread)
  have abides := h.abides Charter.free_lawful
  obtain ⟨v, made, hcopies⟩ := m.copies_of_isLiteral n hn
  refine ⟨v, made, hcopies, List.nodup_range', fun a ha => ?_, fun m' hlater => ?_⟩
  · have hnew : ¬ m.Knows (.array a) := Nat.not_lt.mpr (mem_newArrays.mp ha).1
    exact ⟨fun hv => hnew (abides.stored _ hv).1, fun key hv => hnew (abides.bound key _ hv).1⟩
  · obtain ⟨v', made', hcopies'⟩ := m'.copies_of_isLiteral n hn
    refine ⟨v', made', hcopies', fun a ha => ?_⟩
    have hold : a ∉ m'.newArrays made' := fun ha' =>
      Nat.not_le.mpr (Nat.lt_of_lt_of_le (mem_newArrays.mp ha).2 hlater.heap.arrays)
        (mem_newArrays.mp ha').1
    exact ⟨hold, hcopies'.depicts.setElement hold⟩

/-- The tree of `#(1 ('a' #b))`. -/
def nestedLiteral : Node :=
  .literalArray [.literal (.int 1), .literalArray [.literal (.text "a" 0), .symbol "b"]]

/-- The first answer is made of two arrays, the inner one with the number 0. When something
is put into it, the next answer is still a copy of the literal, and of other arrays. -/
theorem anew_of_nested : ∃ v made m' v' made', Kernel.memory.Copies nestedLiteral v made ∧
    made.length = 2 ∧
    m' = { Kernel.memory.withArrays made with
      heap := (Kernel.memory.withArrays made).heap.setElement 0 0 .nil } ∧
    m'.Copies nestedLiteral v' made' ∧ 0 ∉ m'.newArrays made' := by
  obtain ⟨v, made, hcopies, -, -, hnext⟩ :=
    (literals_answer_anew (m := Kernel.memory) .start).2 nestedLiteral rfl
  have hmade : made.length = 2 := by
    have hsize : (left (run {} 3 (.evaluate nestedLiteral 0) Kernel.memory)).heap.arrays.size
        = 2 := by decide +kernel
    have hempty : Kernel.memory.heap.arrays.size = 0 := by decide +kernel
    rw [hcopies.answers {} 3 0 (by decide)] at hsize
    change (Kernel.memory.withArrays made).heap.arrays.size = 2 at hsize
    rw [size_withArrays, hempty] at hsize
    omega
  obtain ⟨v', made', hcopies', hapart⟩ :=
    hnext _ (Memory.Later.of_heap (.setElement _ 0 0 .nil)).continues
  have hinner : 0 ∈ Kernel.memory.newArrays made := by
    rw [mem_newArrays, size_withArrays, hmade]
    exact ⟨by decide +kernel, by decide +kernel⟩
  exact ⟨v, made, _, v', made', hcopies, hmade, rfl, hcopies', (hapart 0 hinner).1⟩

end Smalltalk
