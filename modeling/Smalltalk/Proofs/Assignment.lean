import Smalltalk.Proofs.Lexical
import Smalltalk.Proofs.Reach

/-!
# `Smalltalk.Proofs.Assignment`: what an assignment to a variable changes

Frames form a tree: a frame lies in an older one or in none, and many frames lie in one.
A name means the variable of the innermost frame that declares it (`Heap.Innermost`), and
that is the one that an assignment writes to. Frames that look the name up and come to the
same frame see the new value. All others see what they saw before: the frames between which
the name is declared again, those that share only a caller, and every other name.

Frames can be made from outside in any frame that is there, for any receiver, so a chain
need not speak for one activation (`Heap.Linked` asks less than `Heap.Framed`).
`Memory.Built` are the memories that can come about so, with whatever a system does in
between.
-/

set_option autoImplicit false

namespace Smalltalk

/-! ### Chains of frames -/

namespace Heap

variable {h h' : Heap}

/-- Every frame lies in an older one or in none, and every closure belongs to a frame. -/
structure Linked (h : Heap) : Prop where
  enclosed : ∀ f < h.frames.size, (h.frame f).outer = [] ∨ ∃ g < f, (h.frame f).outer = h.chain g
  closure : ∀ c < h.closures.size, (h.closure c).frame < h.frames.size

theorem linked_empty : ({} : Heap).Linked :=
  ⟨fun f hf => absurd hf (Nat.not_lt_zero f), fun c hc => absurd hc (Nat.not_lt_zero c)⟩

theorem Framed.linked (w : h.Framed) : h.Linked where
  enclosed f hf := (w.nested f hf).imp_right fun ⟨g, hg, houter, _⟩ => ⟨g, hg, houter⟩
  closure := w.closure

/-- The chain of a frame that was there is as it was. -/
theorem Later.chain (l : h.Later h') {f : FrameId} (hf : f < h.frames.size) :
    h'.chain f = h.chain f :=
  congrArg (f :: ·) (l.frame f hf).outer

/-- After a change only what is new has to be looked at. -/
theorem Linked.later (w : h.Linked) (l : h.Later h')
    (enclosed : ∀ f < h'.frames.size, h.frames.size ≤ f →
      (h'.frame f).outer = [] ∨ ∃ g < f, (h'.frame f).outer = h'.chain g)
    (closure : ∀ c < h'.closures.size, h.closures.size ≤ c →
      (h'.closure c).frame < h'.frames.size) : h'.Linked where
  enclosed f hf := by
    rcases Nat.lt_or_ge f h.frames.size with hlt | hge
    · rw [(l.frame f hlt).outer]
      refine (w.enclosed f hlt).imp_right ?_
      rintro ⟨g, hg, houter⟩
      exact ⟨g, hg, houter.trans (l.chain (Nat.lt_trans hg hlt)).symm⟩
    · exact enclosed f hf hge
  closure := Attached.later w.closure l closure

/-- A change that makes no frame and no closure. -/
theorem Linked.change (w : h.Linked) (l : h.Later h') (frames : h'.frames.size = h.frames.size)
    (closures : h'.closures.size = h.closures.size) : h'.Linked :=
  w.later l (fun _ hf hge => absurd hf (by omega)) fun _ hc hge => absurd hc (by omega)

/-- A frame that is made in none or in one that is there. -/
theorem Linked.newFrame (w : h.Linked) {x : Frame}
    (hx : x.outer = [] ∨ ∃ g < h.frames.size, x.outer = h.chain g) : (h.newFrame x).1.Linked := by
  have l := Later.newFrame h x
  refine w.later l (fun f hf hge => ?_) fun c hc hge => absurd hc (Nat.not_lt.mpr hge)
  rw [size_newFrame] at hf
  obtain rfl : f = h.frames.size := Nat.le_antisymm (Nat.le_of_lt_succ hf) hge
  rw [frame_newFrame, if_pos rfl]
  refine hx.imp_right ?_
  rintro ⟨g, hg, houter⟩
  exact ⟨g, hg, houter.trans (l.chain hg).symm⟩

/-- Going from a frame to the frame around it meets these frames, and ends. -/
inductive Walks (h : Heap) : FrameId → List FrameId → Prop where
  | last {f : FrameId} (alone : ∀ g, ¬ h.Parent f g) : Walks h f [f]
  | next {f g : FrameId} {gs : List FrameId} (parent : h.Parent f g) (rest : Walks h g gs) :
    Walks h f (f :: gs)

/-- The chain of a frame is what the walk from it meets. The induction is on the number of the
frame: the frame around it is older. -/
theorem Linked.walks (w : h.Linked) (f : FrameId) : h.Walks f (h.chain f) := by
  have hlast : ∀ f, (h.frame f).outer = [] → h.Walks f (h.chain f) := by
    intro f halone
    have hparent : ∀ g, ¬ h.Parent f g := by
      intro g hg
      unfold Parent at hg
      rw [halone] at hg
      cases hg
    rw [chain_of_outer_nil halone]
    exact .last hparent
  induction f using Nat.strongRecOn with
  | ind f ih =>
    rcases Nat.lt_or_ge f h.frames.size with hf | hge
    · rcases w.enclosed f hf with halone | ⟨g, hg, houter⟩
      · exact hlast f halone
      · have hparent : h.Parent f g := by
          unfold Parent
          rw [houter]
          rfl
        rw [chain_of_outer houter]
        exact .next hparent (ih g hg)
    · exact hlast f (congrArg Frame.outer (h.frame_of_le hge))

/-- The home of a frame is where the walk ends. -/
theorem getLast?_chain (h : Heap) (f : FrameId) : (h.chain f).getLast? = some (h.home f) := by
  unfold chain home
  rw [List.getLast?_cons, List.getLastD_eq_getLast?]

/-! ### The frame that a name belongs to -/

/-- A frame is the first on the chain of `f` that declares a name. -/
def Innermost (h : Heap) (f : FrameId) (key : Key) (o : FrameId) : Prop :=
  ∃ inner outer, h.chain f = inner ++ o :: outer ∧ (h.frame o).slots.contains key = true ∧
    ∀ g ∈ inner, (h.frame g).slots.contains key = false

theorem owner?_eq_some_iff {f o : FrameId} {key : Key} :
    h.owner? f key = some o ↔ h.Innermost f key o := by
  unfold owner? Innermost
  rw [List.find?_eq_some_iff_append]
  simp only [Bool.not_eq_eq_eq_not, Bool.not_true]
  constructor
  · rintro ⟨hdeclares, inner, outer, hchain, hinner⟩
    exact ⟨inner, outer, hchain, hdeclares, hinner⟩
  · rintro ⟨inner, outer, hchain, hdeclares, hinner⟩
    exact ⟨hdeclares, inner, outer, hchain, hinner⟩

theorem owner?_eq_none_iff {f : FrameId} {key : Key} :
    h.owner? f key = none ↔ ∀ g ∈ h.chain f, (h.frame g).slots.contains key = false := by
  unfold owner?
  rw [List.find?_eq_none]
  simp only [Bool.not_eq_true]

/-- Only a frame that is there declares anything. -/
theorem lt_of_contains {f : FrameId} {key : Key} (hf : (h.frame f).slots.contains key = true) :
    f < h.frames.size := by
  refine Nat.lt_of_not_le fun hge => ?_
  rw [h.frame_of_le hge] at hf
  cases hf

section
variable {o : FrameId} {key : Key} (ho : (h.frame o).slots.contains key = true) (name : Json)
  (v : Value)
include ho

/-- Giving a declared variable a value declares nothing. -/
theorem contains_declare (f : FrameId) (k : Key) :
    ((h.declare o key name v).frame f).slots.contains k = (h.frame f).slots.contains k := by
  rw [frame_declare]
  split
  · rename_i hf
    obtain ⟨rfl, -⟩ := hf
    rw [Dictionary.contains_put]
    by_cases hk : k = key
    · rw [hk, ho, Bool.or_true]
    · rw [decide_eq_false hk, Bool.false_or]
  · rfl

/-- So every name belongs to the frame that it belonged to. -/
theorem owner?_declare (f : FrameId) (k : Key) :
    (h.declare o key name v).owner? f k = h.owner? f k := by
  unfold owner? chain
  rw [outer_declare]
  simp only [contains_declare ho]

/-- The new value is seen where the name belongs to the frame, and nowhere else. -/
theorem lookup?_declare (f : FrameId) (k : Key) :
    (h.declare o key name v).lookup? f k
      = if k = key ∧ h.owner? f k = some o then some v else h.lookup? f k := by
  unfold lookup?
  rw [owner?_declare ho]
  cases howner : h.owner? f k with
  | none => simp
  | some g =>
      simp only [frame_declare, Option.some.injEq]
      by_cases hg : g = o
      · subst hg
        simp only [lt_of_contains ho, and_self, if_true, and_true, Dictionary.find?_put]
      · simp only [hg, false_and, and_false, if_false]

end

end Heap

/-- Giving a known name a value leaves the names as they were written. -/
theorem Dictionary.names_put {α : Type} {d : Dictionary α} {key : Key}
    (h : d.contains key = true) (name : Json) (value : α) :
    (d.put key name value).names = d.names := by
  obtain ⟨entries⟩ := d
  unfold put names
  induction entries with
  | nil => cases h
  | cons e rest ih =>
      by_cases hkey : e.key = key
      · simp [putEntry, hkey]
      · have hrest : (Dictionary.mk rest).contains key = true := by
          unfold contains find? at h ⊢
          rw [List.find?_cons_of_neg (by simpa using hkey)] at h
          exact h
        simp only [putEntry, hkey, if_false, List.map_cons]
        exact congrArg (e.name :: ·) (ih hrest)

/-! ### What can come about -/

/-- One effect makes a frame alone or in one that is there. -/
theorem Memory.Effect.linked {m m' : Memory} (e : m.Effect m') (w : m.heap.Linked) :
    m'.heap.Linked := by
  have l := e.later.heap
  cases e with
  | newClosure x inFrame =>
      exact w.later l (fun f hf hge => absurd hf (Nat.not_lt.mpr hge))
        (Heap.frame_lt_of_newClosure inFrame)
  | newHome x alone => exact w.newFrame (.inl alone)
  | newBlock c callers called =>
      exact w.newFrame (.inr ⟨_, Heap.Attached.frame_lt w.closure c called, rfl⟩)
  | note line => exact (m.heap_note line).symm ▸ w
  | declare f key name v => exact w.change l (Heap.size_declare ..) rfl
  | retire f => exact w.change l (Heap.size_retire ..) rfl
  | _ => exact w.change l rfl rfl

theorem Memory.Move.linked {m m' : Memory} (h : m.Move m') (w : m.heap.Linked) :
    m'.heap.Linked := by
  cases h with
  | revision r =>
      have l : m.heap.Later m'.heap := r.edit.heap ▸ .texts _ _
      refine w.change l ?_ ?_ <;> rw [r.edit.heap]
  | effect e => exact e.linked w
  | journal recording => exact w

/-- What a system can come to whose frames may also be handled from outside: a frame is made
in none or in any that is there, and variables of any frame are declared and assigned to. -/
inductive Memory.Built : Memory → Prop where
  | empty : Built {}
  | kernel : Built Kernel.memory
  | leadsTo {m m' : Memory} (h : Built m) (h' : m.LeadsTo m') : Built m'
  | frame {m : Memory} (h : Built m) (x : Frame)
      (place : x.outer = [] ∨ ∃ g < m.heap.frames.size, x.outer = m.heap.chain g) :
    Built { m with heap := (m.heap.newFrame x).1 }
  | declare {m : Memory} (h : Built m) (f : FrameId) (name : Json) (v : Value) :
    Built (left (Eval.declare f name v m))
  | assign {m : Memory} (h : Built m) (f : FrameId) (name : Json) (v : Value) :
    Built (left (Eval.assign f name v m))

theorem Memory.Built.linked {m : Memory} (h : m.Built) : m.heap.Linked := by
  have effects : ∀ {m m' : Memory}, m.Effects m' → m.heap.Linked → m'.heap.Linked :=
    fun e w => Moves.preserve (P := fun m => m.heap.Linked) e (fun _ _ e => e.linked) w
  induction h with
  | empty => exact Heap.linked_empty
  | kernel => exact (Memory.LeadsTo.sound .refl).1.linked
  | leadsTo _ h' ih =>
      exact Moves.preserve (P := fun m => m.heap.Linked) h'.movements (fun _ _ h => h.linked) ih
  | frame _ x place ih => exact ih.newFrame place
  | declare _ f name v ih => exact effects (Eval.Does.declare f name v) ih
  | assign _ f name v ih => exact effects (Eval.Does.assign f name v) ih

/-! ### The result -/

/-- What an evaluation ends with, whatever memory it leaves. -/
def Eval.reply {α : Type} : Outcome α → Except Stop α
  | .ok a _ => .ok a
  | .error stop _ => .error stop

/-- One variable of one frame has been given a value, and nothing else is different. -/
structure Memory.Writes (m : Memory) (o : FrameId) (key : Key) (v : Value) (m' : Memory) :
    Prop where
  elsewhere : m' = { m with heap := { m.heap with frames := m'.heap.frames } }
  size : m'.heap.frames.size = m.heap.frames.size
  others : ∀ g ≠ o, m'.heap.frame g = m.heap.frame g
  frame : m'.heap.frame o = { m.heap.frame o with slots := (m'.heap.frame o).slots }
  names : (m'.heap.frame o).slots.names = (m.heap.frame o).slots.names
  slot : ∀ k, (m'.heap.frame o).slots.find? k
    = if k = key then some v else (m.heap.frame o).slots.find? k

namespace Memory

variable {m : Memory}

theorem writes_declare {o : FrameId} {key : Key}
    (ho : (m.heap.frame o).slots.contains key = true) (name : Json) (v : Value) :
    m.Writes o key v { m with heap := m.heap.declare o key name v } := by
  have hframe : (m.heap.declare o key name v).frame o
      = { m.heap.frame o with slots := (m.heap.frame o).slots.put key name v } := by
    rw [Heap.frame_declare, if_pos ⟨rfl, Heap.lt_of_contains ho⟩]
  refine ⟨rfl, Heap.size_declare .., fun g hg => ?_, ?_, ?_, fun k => ?_⟩
  · show (m.heap.declare o key name v).frame g = _
    rw [Heap.frame_declare, if_neg fun h => hg h.1]
  · show (m.heap.declare o key name v).frame o = _
    rw [hframe]
  · show ((m.heap.declare o key name v).frame o).slots.names = _
    rw [hframe]
    exact Dictionary.names_put ho name v
  · show ((m.heap.declare o key name v).frame o).slots.find? k = _
    rw [hframe]
    exact Dictionary.find?_put ..

end Memory

namespace Eval

variable {m : Memory} {f : FrameId} {name : Json} {key : Key}

/-- A look-up depends on the value that the frame sees, and on nothing else. -/
theorem reply_lookup (hkey : name.key? = some key) : reply (Eval.lookup f name m)
    = match m.heap.lookup? f key with
      | some v => .ok v
      | none => .error (.fault (Fault.about name .unresolvedVariable)) := by
  cases hlookup : m.heap.lookup? f key with
  | none => rw [Eval.lookup_of_none hkey hlookup, reply]
  | some v => rw [Eval.lookup_of_some hkey hlookup, reply]

end Eval

/-- At every moment, the chain of a frame is what the frames around it are, one by one, up to
its home. An assignment fails, with the name as an unresolved variable, where none of them
declares it, and then nothing has changed. Else it gives one variable of one frame the value,
that of the innermost frame that declares the name. A look-up answers the value where it is for
this name and comes to this frame, and ends as it did before in every other case. -/
theorem assignment_changes_one_variable {m : Memory} (h : m.Built) (f : FrameId) {name : Json}
    {key : Key} (hkey : name.key? = some key) (v : Value) :
    (∀ g, m.heap.Walks g (m.heap.chain g) ∧
      (m.heap.chain g).getLast? = some (m.heap.home g)) ∧
    (Eval.assign f name v m = .error (.fault (Fault.about name .unresolvedVariable)) m ↔
      ∀ g ∈ m.heap.chain f, (m.heap.frame g).slots.contains key = false) ∧
    ((∃ g ∈ m.heap.chain f, (m.heap.frame g).slots.contains key = true) →
      ∃ o m', m.heap.Innermost f key o ∧ Eval.assign f name v m = .ok () m' ∧
        m.Writes o key v m' ∧ ∀ g other,
          (other.key? = some key → m.heap.Innermost g key o →
            Eval.reply (Eval.lookup g other m') = .ok v) ∧
          (¬ (other.key? = some key ∧ m.heap.Innermost g key o) →
            Eval.reply (Eval.lookup g other m') = Eval.reply (Eval.lookup g other m))) := by
  refine ⟨fun g => ⟨h.linked.walks g, m.heap.getLast?_chain g⟩,
    ⟨fun hfails => ?_, fun hnone => ?_⟩, ?_⟩
  · cases howner : m.heap.owner? f key with
    | none => exact Heap.owner?_eq_none_iff.mp howner
    | some o =>
        rw [Eval.assign_of_owner hkey howner] at hfails
        cases hfails
  · exact Eval.assign_of_unowned hkey (Heap.owner?_eq_none_iff.mpr hnone) v
  · rintro ⟨d, hd, hdeclares⟩
    obtain ⟨o, howner⟩ : ∃ o, m.heap.owner? f key = some o := by
      refine Option.ne_none_iff_exists'.mp fun hnone => ?_
      rw [Heap.owner?_eq_none_iff.mp hnone d hd] at hdeclares
      cases hdeclares
    have ho : (m.heap.frame o).slots.contains key = true := by
      obtain ⟨-, -, -, ho, -⟩ := Heap.owner?_eq_some_iff.mp howner
      exact ho
    refine ⟨o, _, Heap.owner?_eq_some_iff.mp howner, Eval.assign_of_owner hkey howner v,
      Memory.writes_declare ho name v, fun g other => ⟨fun hother hg => ?_, fun hnot => ?_⟩⟩
    · rw [Eval.reply_lookup hother, Heap.lookup?_declare ho,
        if_pos ⟨rfl, Heap.owner?_eq_some_iff.mpr hg⟩]
    · cases hother : other.key? with
      | none =>
          -- what names nothing is not looked up in any frame
          unfold Eval.lookup Fault.keyOf
          rw [hother]
          rfl
      | some k =>
          rw [Eval.reply_lookup hother, Eval.reply_lookup hother, Heap.lookup?_declare ho,
            if_neg]
          rintro ⟨rfl, hg⟩
          exact hnot ⟨hother, Heap.owner?_eq_some_iff.mp hg⟩

/-- A frame with a variable `x` and two frames in it, the first of which has an `x` of its own. -/
def twoInOne : Memory :=
  let inside (m : Memory) : Memory :=
    { m with heap := (m.heap.newFrame { receiver := .nil, method := none, outer := [0] }).1 }
  let declare (f : FrameId) (i : Int) (m : Memory) : Memory :=
    left (Eval.declare f (.str "x") (.int i) m)
  let alone : Memory :=
    { heap := (({} : Heap).newFrame { receiver := .nil, method := none }).1 }
  inside (declare 1 2 (inside (declare 0 1 alone)))

/-- What the second frame assigns to `x`, the outer frame sees, and the first does not. -/
theorem assignment_is_not_seen_where_shadowed : ∃ m',
    Eval.assign 2 (.str "x") (.int 3) twoInOne = .ok () m' ∧
    Eval.reply (Eval.lookup 0 (.str "x") m') = .ok (.int 3) ∧
    Eval.reply (Eval.lookup 1 (.str "x") m') = .ok (.int 2) := by
  have hbuilt : twoInOne.Built := by
    refine .frame (.declare (.frame (.declare (.frame .empty _ (.inl rfl)) 0 (.str "x") (.int 1))
      _ (.inr ⟨0, by decide +kernel, rfl⟩)) 1 (.str "x") (.int 2)) _ ?_
    exact .inr ⟨0, by decide +kernel, rfl⟩
  have hkey : (Json.str "x").key? = some (.text "x") := rfl
  obtain ⟨-, -, hassigns⟩ := assignment_changes_one_variable hbuilt 2 hkey (.int 3)
  obtain ⟨o, m', ho, hassign, -, hseen⟩ := hassigns ⟨0, by decide +kernel, by decide +kernel⟩
  have howner : ∀ f, twoInOne.heap.owner? f (.text "x") = some o ↔
      twoInOne.heap.Innermost f (.text "x") o := fun f => Heap.owner?_eq_some_iff
  obtain rfl : 0 = o := Option.some.inj (((by decide +kernel :
    twoInOne.heap.owner? 2 (.text "x") = some 0)).symm.trans ((howner 2).mpr ho))
  refine ⟨m', hassign, ?_, ?_⟩
  · exact (hseen 0 (.str "x")).1 rfl ((howner 0).mp (by decide +kernel))
  · rw [(hseen 1 (.str "x")).2 fun h => absurd ((howner 1).mpr h.2) (by decide +kernel)]
    rfl

end Smalltalk
