import Smalltalk.Proofs.Direct
import Smalltalk.Proofs.Filing

/-!
# `Smalltalk.Proofs.Passing`: arguments of blocks

A block is called with as many arguments as it has parameters. `valueWithArguments:` takes
them from an array, `value` and its kin take up to four from the message. Both only invoke
the closure (`Kernel.sendToClosure`).

`Memory.Invokes` says what becomes of the invocation. With another number of arguments it is
a fault at once. Else the statements are evaluated in a frame of its own. Its variables are
the parameters and the temps, with the arguments and with nil, whatever frames the closure
has had before. The arguments are part of the call, so the array that they were taken from
does not matter any more.

The activations of two such sends differ in their frames only, and these are out of the
reach of all else. So the invocations are made in memories that coincide but for that frame,
and end alike (`Eval.matches_invoke`). `Kernel.sends_valueWithArguments` puts this together.
-/

set_option autoImplicit false

namespace Smalltalk

variable {settings : Settings} {depth : Nat} {m m' : Memory} {x : Frame} {c : ClosureId}
  {args : List Value} {es : List (Entry Value)}

/-! ### The variables of a block -/

/-- In a list of entries with different keys each value is found under its key. -/
theorem Dictionary.find?_of_mem {α : Type} {es : List (Entry α)}
    (hnodup : (es.map (·.key)).Nodup) {e : Entry α} (he : e ∈ es) :
    (Dictionary.mk es).find? e.key = some e.value := by
  have hfind : es.find? (fun e' => e'.key = e.key) = some e := by
    induction es with
    | nil => cases he
    | cons first rest ih =>
        obtain ⟨hnot, hnodup⟩ := List.nodup_cons.mp hnodup
        rcases List.mem_cons.mp he with rfl | he
        · exact List.find?_cons_of_pos (decide_eq_true rfl)
        · have hne : first.key ≠ e.key := fun heq => hnot (List.mem_map.mpr ⟨e, he, heq.symm⟩)
          exact (List.find?_cons_of_neg (by simpa using hne)).trans (ih hnodup he)
  exact congrArg (Option.map Entry.value) hfind

/-- The names of the parameters and the temps are different. -/
def Closure.HasDistinctNames (c : Closure) : Prop :=
  ∃ keys : List Key, (c.params ++ c.temps).map Json.key? = keys.map some ∧ keys.Nodup

/-- The variables that a block has at the start: the parameters with the arguments, and the
temps with nil. -/
structure Closure.Variables (c : Closure) (args : List Value) (es : List (Entry Value)) :
    Prop where
  pairs : es.map (fun e => (e.name, e.value))
    = (c.params ++ c.temps).zip (args ++ List.replicate c.temps.length .nil)
  keys : ∀ e ∈ es, e.name.key? = some e.key
  nodup : (es.map (·.key)).Nodup

/-- Names with keys and as many values make entries. -/
theorem Dictionary.exists_entries {names : List Json} {keys : List Key}
    (hkeys : names.map Json.key? = keys.map some) {vs : List Value}
    (hlength : vs.length = names.length) :
    ∃ es : List (Entry Value), es.map (fun e => (e.name, e.value)) = names.zip vs ∧
      es.map (·.key) = keys ∧ ∀ e ∈ es, e.name.key? = some e.key := by
  induction names generalizing keys vs with
  | nil =>
      cases keys with
      | nil => exact ⟨[], rfl, rfl, nofun⟩
      | cons => cases hkeys
  | cons name names ih =>
      cases keys with
      | nil => cases hkeys
      | cons key keys =>
          cases vs with
          | nil => cases hlength
          | cons v vs =>
              obtain ⟨hkey, hkeys⟩ := List.cons.inj hkeys
              obtain ⟨es, hpairs, hmap, hes⟩ := ih hkeys (Nat.succ.inj hlength)
              exact ⟨⟨key, name, v⟩ :: es, congrArg _ hpairs, congrArg _ hmap,
                List.forall_mem_cons.mpr ⟨hkey, hes⟩⟩

theorem Closure.HasDistinctNames.variables {c : Closure} (h : c.HasDistinctNames)
    (harity : args.length = c.arity) : ∃ es, c.Variables args es := by
  obtain ⟨keys, hkeys, hnodup⟩ := h
  have hlength : (args ++ List.replicate c.temps.length Value.nil).length
      = (c.params ++ c.temps).length := by
    rw [List.length_append, List.length_append, List.length_replicate, harity]
    rfl
  obtain ⟨es, hpairs, rfl, hes⟩ := Dictionary.exists_entries hkeys hlength
  exact ⟨es, hpairs, hes, hnodup⟩

namespace Closure.Variables

variable {c : Closure} (v : c.Variables args es) (harity : args.length = c.arity)

include v

/-- A variable is found by its place. -/
theorem find? {i : Nat} {name : Json} {key : Key} {u : Value} (hkey : name.key? = some key)
    (hname : (c.params ++ c.temps)[i]? = some name)
    (hu : (args ++ List.replicate c.temps.length .nil)[i]? = some u) :
    (Dictionary.mk es).find? key = some u := by
  have hpair : (es.map fun e => (e.name, e.value))[i]? = some (name, u) := by
    rw [v.pairs]
    exact List.getElem?_zip_eq_some.mpr ⟨hname, hu⟩
  rw [List.getElem?_map, Option.map_eq_some_iff] at hpair
  obtain ⟨e, he, heq⟩ := hpair
  cases heq
  have hmem := List.mem_of_getElem? he
  obtain rfl : e.key = key := Option.some.inj ((v.keys e hmem).symm.trans hkey)
  exact Dictionary.find?_of_mem v.nodup hmem

include harity

theorem names : (Dictionary.mk es).names = c.params ++ c.temps := by
  have hlength : (c.params ++ c.temps).length
      ≤ (args ++ List.replicate c.temps.length Value.nil).length := by
    rw [List.length_append, List.length_append, List.length_replicate, harity]
    exact Nat.le_refl _
  have hnames := congrArg (List.map Prod.fst) v.pairs
  rwa [List.map_map, List.map_fst_zip hlength] at hnames

theorem param (i : Nat) (name : Json) (key : Key) (hname : c.params[i]? = some name)
    (hkey : name.key? = some key) : (Dictionary.mk es).find? key = args[i]? := by
  have hlt := (List.getElem?_eq_some_iff.mp hname).1
  have hi : i < args.length := Nat.lt_of_lt_of_eq hlt harity.symm
  rw [List.getElem?_eq_getElem hi]
  refine v.find? hkey ((List.getElem?_append_left hlt).trans hname) ?_
  rw [List.getElem?_append_left hi, List.getElem?_eq_getElem hi]

theorem temp (name : Json) (hmem : name ∈ c.temps) (key : Key) (hkey : name.key? = some key) :
    (Dictionary.mk es).find? key = some .nil := by
  obtain ⟨i, hi⟩ := List.mem_iff_getElem?.mp hmem
  have hlt := (List.getElem?_eq_some_iff.mp hi).1
  have hparams : args.length = c.params.length := harity
  refine v.find? (i := c.params.length + i) hkey ?_ ?_
  · rwa [List.getElem?_append_right (Nat.le_add_right ..), Nat.add_sub_cancel_left]
  · rw [← hparams, List.getElem?_append_right (Nat.le_add_right ..), Nat.add_sub_cancel_left,
      List.getElem?_replicate, if_pos hlt]

end Closure.Variables

namespace Eval

/-- New variables of a frame that has just been made go behind those that it has. -/
theorem declareAll_withFrame {names : List Json} {vs : List Value}
    (hpairs : es.map (fun e => (e.name, e.value)) = names.zip vs)
    (hkeys : ∀ e ∈ es, e.name.key? = some e.key) (m : Memory) (x : Frame)
    (hnodup : (x.slots.keys ++ es.map (·.key)).Nodup) :
    declareAll m.heap.frames.size names vs (m.withFrame x)
      = .ok () (m.withFrame { x with slots := ⟨x.slots.entries ++ es⟩ }) := by
  unfold declareAll
  rw [← hpairs, List.forM_eq_forM, List.forM_map]
  -- the induction is on the entries, whatever the frame has already
  clear hpairs
  induction es generalizing x with
  | nil =>
      rw [List.append_nil]
      rfl
  | cons e es ih =>
      obtain ⟨hkey, hkeys⟩ := List.forall_mem_cons.mp hkeys
      have hnot : e.key ∉ x.slots.keys := fun hmem =>
        List.disjoint_of_nodup_append hnodup hmem List.mem_cons_self
      have hnodup' : ((x.slots.put e.key e.name e.value).keys ++ es.map (·.key)).Nodup := by
        rw [Dictionary.keys_put, if_neg hnot, List.append_assoc]
        exact hnodup
      have hdeclared : declare m.heap.frames.size e.name e.value (m.withFrame x)
          = .ok () (m.withFrame { x with slots := x.slots.put e.key e.name e.value }) :=
        declare_newFrame hkey e.value m x
      have hrest := ih hkeys { x with slots := x.slots.put e.key e.name e.value } hnodup'
      rw [List.forM_cons, bind_of_ok hdeclared, hrest, Dictionary.put_of_not_mem hnot,
        List.append_assoc]
      rfl

/-- The temps are declared with nil. -/
theorem declareAll_nil (f : FrameId) (temps : List Json) :
    declareAll f temps (List.replicate temps.length .nil)
      = temps.forM fun name => declare f name .nil := by
  induction temps with
  | nil => rfl
  | cons name temps ih => exact congrArg (fun rest => declare f name .nil >>= fun _ => rest) ih

theorem declareAll_append (f : FrameId) {names names' : List Json} {vs vs' : List Value}
    (hlength : names.length = vs.length) : declareAll f (names ++ names') (vs ++ vs')
      = declareAll f names vs >>= fun _ => declareAll f names' vs' := by
  unfold declareAll
  rw [List.zip_append hlength, List.forM_eq_forM, List.forM_append]

/-- The parameters and the temps of a block are declared in its frame. -/
theorem declare_variables {c : Closure} (v : c.Variables args es) (harity : args.length = c.arity)
    (m : Memory) (x : Frame) (hslots : x.slots = {}) :
    (declareAll m.heap.frames.size c.params args >>= fun _ =>
      c.temps.forM fun name => declare m.heap.frames.size name .nil) (m.withFrame x)
      = .ok () (m.withFrame { x with slots := ⟨es⟩ }) := by
  have hall := declareAll_withFrame v.pairs v.keys m x (by
    rw [hslots]
    exact v.nodup)
  rwa [declareAll_append _ harity.symm, declareAll_nil, hslots] at hall

end Eval

/-! ### Invocations -/

/-- The frame in which the code of a closure runs, with these variables. -/
def Memory.openBlock (m : Memory) (c : ClosureId) (callers : List FrameId)
    (es : List (Entry Value)) : Frame :=
  { m.heap.blockFrame c callers with slots := ⟨es⟩ }

namespace Eval

theorem invoke_of_mismatch (h : args.length ≠ (m.heap.closure c).arity)
    (rec : Task → Eval Value) (caller : FrameId) : invoke rec c args caller m
      = .error (.fault (.arityMismatch "a block" (m.heap.closure c).arity args.length)) m := by
  show (if _ then _ else _ : Eval Value) m = _
  rw [if_pos h]
  rfl

/-- The statements of a block are evaluated in a frame of its own. -/
theorem invoke_of_variables (v : (m.heap.closure c).Variables args es)
    (harity : args.length = (m.heap.closure c).arity) (rec : Task → Eval Value)
    (caller : FrameId) : invoke rec c args caller m
      = ((m.heap.closure c).statements.foldlM
          (fun _ s => rec (.evaluate s m.heap.frames.size)) .nil)
        (m.withFrame (m.openBlock c (caller :: (m.heap.frame caller).callers) es)) := by
  have hdeclared := declare_variables v harity m
    (m.heap.blockFrame c (caller :: (m.heap.frame caller).callers)) rfl
  show (if _ then _ else _ : Eval Value) m = _
  rw [if_neg (not_not_intro harity)]
  show (declareAll _ _ _ >>= fun _ => runBody rec _ _ _) (m.withFrame _) = _
  unfold runBody
  rw [← bind_assoc]
  exact bind_of_ok hdeclared

end Eval

/-- A frame for a block: it continues the frame of the closure, its parameters have the
arguments, its temps have nil, and it has no other variables. -/
structure Memory.OpensBlock (m : Memory) (c : ClosureId) (args : List Value)
    (callers : List FrameId) (x : Frame) : Prop where
  continues : x = { m.heap.blockFrame c callers with slots := x.slots }
  names : x.slots.names = (m.heap.closure c).params ++ (m.heap.closure c).temps
  param : ∀ (i : Nat) (name : Json) (key : Key), (m.heap.closure c).params[i]? = some name →
    name.key? = some key → x.slots.find? key = args[i]?
  temp : ∀ name ∈ (m.heap.closure c).temps, ∀ key, name.key? = some key →
    x.slots.find? key = some .nil

theorem Closure.Variables.opensBlock (v : (m.heap.closure c).Variables args es)
    (harity : args.length = (m.heap.closure c).arity) (callers : List FrameId) :
    m.OpensBlock c args callers (m.openBlock c callers es) :=
  ⟨rfl, v.names harity, v.param harity, v.temp harity⟩

/-- How a closure is invoked, with so much depth for its statements. -/
structure Memory.Invokes (settings : Settings) (m : Memory) (c : ClosureId) (args : List Value)
    (caller : FrameId) (depth : Nat) : Prop where
  /-- Another number of arguments is a fault, before any statement is evaluated. -/
  mismatch : args.length ≠ (m.heap.closure c).arity →
    (Call.mk (.invoke c args caller) m (depth + 1)).Unfolds settings
      (.error (.fault (.arityMismatch "a block" (m.heap.closure c).arity args.length)) m) []
  /-- Else the statements are evaluated in a new frame, one after another. -/
  body : args.length = (m.heap.closure c).arity → ∃ x,
    m.OpensBlock c args (caller :: (m.heap.frame caller).callers) x ∧
    (Call.mk (.invoke c args caller) m (depth + 1)).outcome settings
      = ((m.heap.closure c).statements.foldlM (fun _ s =>
          Eval.run settings depth (.evaluate s m.heap.frames.size)) .nil) (m.withFrame x)

theorem Closure.HasDistinctNames.invokes (h : (m.heap.closure c).HasDistinctNames)
    (settings : Settings) (args : List Value) (caller : FrameId) (depth : Nat) :
    m.Invokes settings c args caller depth where
  mismatch harity := by
    have hgoes : (Planned.invoke c args caller).Goes (Eval.run settings depth)
        (Call.direct depth) m _ [] := .bind_nil (.const _) (.ite_pos harity (.const _))
    exact .of_step hgoes.staged
  body harity := by
    obtain ⟨es, v⟩ := h.variables harity
    exact ⟨_, v.opensBlock harity _, Eval.invoke_of_variables v harity _ caller⟩

/-! ### Memories that differ in one frame -/

/-- All of a heap but one frame. -/
def Realm.allBut (h : Heap) (f : FrameId) : Realm := ⟨h, (· ≠ .frame f)⟩

section
variable {h h' : Heap} {f : FrameId} {n m₁ m₂ : Memory} {y : Frame}

theorem Realm.has_allBut_iff (hf : f < h.frames.size) {cell : Cell} :
    (allBut h f).Has h' cell ↔ cell ≠ .frame f := by
  refine ⟨fun hcell => ?_, .inl⟩
  rcases hcell with hne | ⟨hnew, -⟩
  · exact hne
  · rintro rfl
    exact hnew hf

/-- No value refers to a frame. -/
theorem Realm.admits_allBut (v : Value) : (allBut h f).Admits h' v := by
  refine fun cell hcell => .inl ?_
  rintro rfl
  cases v <;> cases hcell

theorem Memory.Confined.of_noted {r : Realm} (w : m.Confined r) (n : m.Noted m') :
    m'.Confined r where
  grown := n.heap ▸ w.grown
  closed := n.heap ▸ w.closed
  bound := n.globals ▸ n.heap ▸ w.bound
  untouched := n.heap ▸ w.untouched

/-- Nothing that was there before leads to a new frame. -/
theorem Memory.Closed.confined_withFrame (hclosed : m.Closed) (hsome : 0 < m.heap.frames.size)
    (x : Frame) :
    (m.withFrame x).Confined (.allBut (m.withFrame x).heap m.heap.frames.size) where
  grown _ := id
  closed cell cell' hcell hrefers := by
    have hne := (Realm.has_allBut_iff (m.makes_withFrame x).there).mp hcell
    have hold : m.heap.Refers cell cell' :=
      ((Heap.Makes.newFrame x).agrees m.heap cell hne).refers hrefers
    refine .inl ?_
    -- only a closure or a frame refers to a frame, and to one that was there when it was made
    rintro rfl
    cases cell with
    | array | object =>
        obtain ⟨v, -, hcell⟩ := hold
        cases v <;> cases hcell
    | closure k =>
        obtain hframe := Cell.frame.inj hold
        rcases Nat.lt_or_ge k m.heap.closures.size with hk | hk
        · exact Nat.ne_of_gt (hclosed.closure k hk) hframe
        · rw [m.heap.closure_of_le hk] at hframe
          exact Nat.ne_of_gt hsome hframe
    | frame g =>
        rcases hold with ⟨v, -, hcell⟩ | ⟨k, hk, hframe⟩
        · cases v <;> cases hcell
        · exact Nat.ne_of_gt (hclosed.outer g k hk) (Cell.frame.inj hframe)
  bound _ v _ := Realm.admits_allBut v
  untouched cell _ _ := .refl _ cell

/-- Whatever frame is made, the rest is the same. -/
theorem Memory.coincides_withFrame (n₁ : (m.withFrame x).Noted m₁)
    (n₂ : (m.withFrame y).Noted m₂) :
    m₁.Coincides (.allBut (m.withFrame x).heap m.heap.frames.size) m₂ where
  contains cell := by
    rw [n₁.heap, n₂.heap]
    exact ((Heap.Makes.newFrame y).contains ..).trans ((Heap.Makes.newFrame x).contains ..).symm
  agrees cell hcell := by
    have hne := (Realm.has_allBut_iff (m.makes_withFrame x).there).mp hcell
    rw [n₁.heap, n₂.heap]
    exact ((Heap.Makes.newFrame x).agrees m.heap cell hne).symm.trans
      ((Heap.Makes.newFrame y).agrees m.heap cell hne)
  texts := by
    rw [n₁.heap, n₂.heap]
    rfl
  registry := n₂.registry.trans n₁.registry.symm
  globals := n₂.globals.trans n₁.globals.symm
  recording := n₂.recording.trans n₁.recording.symm

/-- The frame may be retired in both. -/
theorem Memory.Coincides.retire (k : m.Coincides (.allBut h f) n) (hf : f < h.frames.size) :
    (m.retire f).Coincides (.allBut h f) (n.retire f) where
  contains cell := by
    have changes := Heap.Changes.retire f
    exact (changes.contains _ cell).trans ((k.contains cell).trans (changes.contains _ cell).symm)
  agrees cell hcell := by
    have changes := Heap.Changes.retire f
    have hne := (Realm.has_allBut_iff hf).mp hcell
    exact ((changes.agrees _ cell hne).symm.trans (k.agrees cell (.inl hne))).trans
      (changes.agrees _ cell hne)
  texts := k.texts
  registry := k.registry
  globals := k.globals
  recording := k.recording

namespace Eval

/-- An invocation goes alike in memories that differ in the frame that asks for it, but not in
the frames behind that. -/
theorem matches_invoke (w : m.Confined (.allBut h f)) (same : m.Coincides (.allBut h f) n)
    (hnames : (m.heap.closure c).HasDistinctNames)
    (hcallers : (n.heap.frame f).callers = (m.heap.frame f).callers) (settings : Settings)
    (depth : Nat) (args : List Value) :
    Matches (.allBut h f) (run settings depth (.invoke c args f) m)
      (run settings depth (.invoke c args f) n) := by
  cases depth with
  | zero => exact ⟨rfl, same⟩
  | succ depth =>
      have hc : (Realm.allBut h f).Has m.heap (.closure c) := .inl nofun
      have hclosure := same.closure hc
      have hdefining := same.frame (w.closed _ _ hc rfl)
      show Matches _ (invoke _ c args f m) (invoke _ c args f n)
      by_cases harity : args.length = (m.heap.closure c).arity
      · obtain ⟨es, v⟩ := hnames.variables harity
        let x := m.openBlock c (f :: (m.heap.frame f).callers) es
        have hx : n.openBlock c (f :: (n.heap.frame f).callers) es = x := by
          unfold x Memory.openBlock Heap.blockFrame Heap.chain
          rw [hclosure, hdefining, hcallers]
        -- both make the same frame, and then go on in what coincides
        have hbody : Confines True (.allBut h f) (make (fun h => h.newFrame x) >>= fun g =>
            (m.heap.closure c).statements.foldlM
              (fun _ s => run settings depth (.evaluate s g)) .nil) m
            (Realm.allBut h f).Answers := by
          refine .bind (.make (.newFrame x) ?_) ?_
          · rintro cell (⟨u, -, hu⟩ | ⟨g, hg, rfl⟩)
            · exact Realm.admits_allBut u cell hu
            · exact w.chain (w.closed _ _ hc rfl) hg
          · rintro g m₁ - ⟨rfl, hg⟩
            exact .foldlM Realm.admits_nil fun s _ _ m₂ g₂ => .run settings depth _ m₂ (hg.mono g₂)
        have hm := invoke_of_variables v harity (run settings depth) f
        rw [← hclosure] at v harity
        have hn := invoke_of_variables v harity (run settings depth) f
        rw [hclosure, hx] at hn
        rw [hm, hn]
        exact (hbody w).2 trivial n same
      · have hm := invoke_of_mismatch harity (run settings depth) f
        rw [← hclosure] at harity
        have hn := invoke_of_mismatch harity (run settings depth) f
        rw [hclosure] at hn
        rw [hm, hn]
        exact ⟨rfl, same⟩

end Eval

end

/-! ### Sends -/

theorem Eval.Matches.tooDeep {r : Realm} {out out' : Outcome Value} (h : Matches r out out') :
    TooDeep out ↔ TooDeep out' := by
  cases out with
  | ok v m =>
      cases out' with
      | ok v' n => exact ⟨nofun, nofun⟩
      | error t n => exact h.elim
  | error s m =>
      cases out' with
      | ok v' n => exact h.elim
      | error t n =>
          obtain ⟨rfl, -⟩ := h
          constructor
          · rintro ⟨_, ⟨⟩⟩
            exact ⟨n, rfl⟩
          · rintro ⟨_, ⟨⟩⟩
            exact ⟨m, rfl⟩

/-- Sends end alike if what they come to does, unless there is not enough depth. -/
theorem Eval.Matches.sends {r : Realm} {activated activated' out out' : Outcome Value}
    (h : Matches r activated activated')
    (hout : out = activated ∨ OutOfDepth out ∧ TooDeep activated)
    (hout' : out' = activated' ∨ OutOfDepth out' ∧ TooDeep activated') :
    Matches r out out' ∨ OutOfDepth out ∧ OutOfDepth out' := by
  rcases hout with rfl | ⟨hout, hd⟩
  · rcases hout' with rfl | ⟨hout', hd'⟩
    · exact .inl h
    · exact .inr ⟨.inl (h.tooDeep.mpr hd'), hout'⟩
  · rcases hout' with rfl | ⟨hout', -⟩
    · exact .inr ⟨hout, .inl (h.tooDeep.mp hd)⟩
    · exact .inr ⟨hout, hout'⟩

theorem Eval.Matches.retired {h : Heap} {f : FrameId} {out out' : Outcome Value}
    (k : Matches (.allBut h f) out out') (hf : f < h.frames.size) :
    Matches (.allBut h f) (retired f out) (retired f out') := by
  cases out <;> cases out'
  · exact ⟨k.1, k.2.retire hf⟩
  · exact k.elim
  · exact k.elim
  · exact ⟨k.1, k.2.retire hf⟩

/-- As many arguments as the primitive takes are all handed on. -/
theorem Primitive.attempt_call (m : Memory) (c : ClosureId) (args : List Value) :
    (call args.length).attempt m (.closure c) args = .ok (.call c args) := by
  have hargs : (List.range args.length).map (fun i => args.getD i .nil) = args := by
    refine List.ext_getElem (by simp) fun i _ hi => ?_
    simp [List.getElem?_eq_getElem hi]
  show (if args.length = args.length then
    Except.ok (Action.call c ((List.range args.length).map fun i => args.getD i .nil)) else _) = _
  rw [if_pos rfl, hargs]

namespace Kernel

/-- The message that calls a block with so many arguments, up to four. -/
def valueSelector : Nat → String
  | 0 => "value"
  | 1 => "value:"
  | 2 => "value:value:"
  | 3 => "value:value:value:"
  | _ => "value:value:value:value:"

theorem valueMethod {n : Nat} (hn : n ≤ 4) : ∃ number names,
    tree? "BlockClosure" (valueSelector n) = some (byPrimitive (valueSelector n) number names) ∧
      names.Nodup ∧ names.length = n ∧ (number, Primitive.call n) ∈ Primitive.numbered := by
  match n with
  | 0 => exact ⟨201, [], rfl, by decide, rfl, by decide⟩
  | 1 => exact ⟨202, ["arg1"], rfl, by decide, rfl, by decide⟩
  | 2 => exact ⟨203, ["arg1", "arg2"], rfl, by decide, rfl, by decide⟩
  | 3 => exact ⟨204, ["arg1", "arg2", "arg3"], rfl, by decide, rfl, by decide⟩
  | 4 => exact ⟨205, ["arg1", "arg2", "arg3", "arg4"], rfl, by decide, rfl, by decide⟩
  | n + 5 => exact absurd hn (by omega)

variable {selector : String} {sent : List Value} {calls calls' : List Call}
  {out out' : Outcome Value}

/-- A send to a closure hands values on to it: the method invokes the closure with them, in a
memory that has a frame more, and does nothing else. The send ends as the invocation does. -/
structure HandsOn (settings : Settings) (m : Memory) (c : ClosureId) (args : List Value)
    (depth : Nat) (calls : List Call) (out : Outcome Value) (x : Frame) (m₁ : Memory) :
    Prop where
  noted : (m.withFrame x).Noted m₁
  calls : ∃ activation, calls = [activation] ∧ activation.task.callers = x.callers ∧
    activation.calls settings = [⟨.invoke c args m.heap.frames.size, m₁, depth⟩]
  ends : out = Eval.retired m.heap.frames.size
      (Eval.run settings depth (.invoke c args m.heap.frames.size) m₁) ∨
    Eval.OutOfDepth out ∧
      Eval.TooDeep (Eval.run settings depth (.invoke c args m.heap.frames.size) m₁)

/-- No closure that is there leads to the frame of the activation, so none unwinds to it. -/
theorem handsOn {number : Int} {names : List String} {p : Primitive}
    (he : m.Equipped settings) (hclosed : m.Closed) (hc : c < m.heap.closures.size)
    (hnode : tree? "BlockClosure" selector = some (byPrimitive selector number names))
    (hnodup : names.Nodup) (hlength : sent.length = names.length)
    (hp : (number, p) ∈ Primitive.numbered)
    (hattempt : ∀ m', m.Aside [] m' → p.attempt m' (.closure c) sent = .ok (.call c args))
    (h : Memory.Sends settings (.closure c) selector sent m (depth + 1) calls out) :
    ∃ x m₁, HandsOn settings m c args depth calls out x m₁ := by
  obtain ⟨activation, m₀, x, hcalls, hnoted, hcallers, hunfolds, hout⟩ :=
    sendToClosure he hnode hnodup hlength hp hattempt h
  let task : Task := .invoke c args m.heap.frames.size
  have hactivation := hunfolds _ _ (.call task)
  have n : (m.withFrame x).Noted (m₀.withFrame x) :=
    ⟨congrArg (fun h => (h.newFrame x).1) hnoted.heap, hnoted.registry, hnoted.globals,
      hnoted.recording⟩
  have w := (hclosed.confined_withFrame (Nat.zero_lt_of_lt (hclosed.closure c hc)) x).of_noted n
  have hstays : Eval.Stays _ _ _ (Eval.run settings depth task (m₀.withFrame x)) :=
    Eval.stays_invoke w (.inl nofun) (fun v _ => Realm.admits_allBut v) settings depth _
  -- the value that comes out is no closure of the new frame, so ending it loses nothing
  have hclose : Eval.close m.heap.frames.size (Eval.run settings depth task (m₀.withFrame x))
      = Eval.retired m.heap.frames.size (Eval.run settings depth task (m₀.withFrame x)) := by
    refine Eval.close_eq_retired fun v m' heq => ?_
    rw [heq] at hstays
    exact (Realm.has_allBut_iff (m.makes_withFrame x).there).mp hstays.2.2.2 rfl
  rw [hactivation.outcome, hclose] at hout
  exact ⟨x, _, n, ⟨activation, hcalls, hcallers, hactivation.calls_eq⟩,
    hout.imp_right (.imp_right Eval.tooDeep_retired.mp)⟩

theorem HandsOn.outOfDepth_of_zero {x : Frame} {m₁ : Memory}
    (h : HandsOn settings m c args 0 calls out x m₁) : Eval.OutOfDepth out := by
  rcases h.ends with rfl | ⟨hout, -⟩
  · exact .inl ⟨_, rfl⟩
  · exact hout

/-- An invocation that is a fault at once leaves nothing but the frame of the activation. -/
theorem HandsOn.fails {x : Frame} {m₁ : Memory} {f : Fault}
    (h : HandsOn settings m c args depth calls out x m₁)
    (hfault : Eval.run settings depth (.invoke c args m.heap.frames.size) m₁
      = .error (.fault f) m₁) : ∃ m', m.Aside [] m' ∧ out = Eval.ended (.error f) m' := by
  have a : m.Aside [] m₁ := (m.makes_withFrame x).aside.append (.of_noted h.noted)
  rcases h.ends with rfl | ⟨-, m', hdeep⟩
  · rw [hfault]
    refine ⟨m₁.retire m.heap.frames.size, a.trans (.retire m₁ _) fun g hg => .inr ?_, rfl⟩
    exact Nat.le_of_eq (List.mem_singleton.mp hg).symm
  · rw [hfault] at hdeep
    cases hdeep

/-- Two such sends of the same arguments end alike, but for the frame of the activation. -/
theorem HandsOn.matches {x x' : Frame} {m₁ m₁' : Memory}
    (h : HandsOn settings m c args depth calls out x m₁)
    (h' : HandsOn settings m c args depth calls' out' x' m₁')
    (hclosed : m.Closed) (hc : c < m.heap.closures.size)
    (hnames : (m.heap.closure c).HasDistinctNames)
    (hcallers : calls.map (·.task.callers) = calls'.map (·.task.callers)) :
    Eval.Matches (.allBut (m.withFrame x).heap m.heap.frames.size) out out' ∨
      Eval.OutOfDepth out ∧ Eval.OutOfDepth out' := by
  have w := (hclosed.confined_withFrame (Nat.zero_lt_of_lt (hclosed.closure c hc)) x).of_noted
    h.noted
  have same := Memory.coincides_withFrame h.noted h'.noted
  -- both frames have the sender of the activation as their first caller
  have hframe : (m₁'.heap.frame m.heap.frames.size).callers
      = (m₁.heap.frame m.heap.frames.size).callers := by
    obtain ⟨activation, rfl, hx, -⟩ := h.calls
    obtain ⟨activation', rfl, hx', -⟩ := h'.calls
    rw [h.noted.heap, h'.noted.heap, (m.makes_withFrame x).frame, (m.makes_withFrame x').frame,
      ← hx, ← hx']
    exact (List.cons.inj hcallers).1.symm
  have hnames₁ : (m₁.heap.closure c).HasDistinctNames := by
    rw [h.noted.heap]
    exact hnames
  have hinvoke := Eval.matches_invoke w same hnames₁ hframe settings depth args
  exact (hinvoke.retired (m.makes_withFrame x).there).sends
    (h.ends.imp_right (.imp_right Eval.tooDeep_retired.mpr))
    (h'.ends.imp_right (.imp_right Eval.tooDeep_retired.mpr))

/-- Without any depth no message is sent. -/
theorem outOfDepth_of_zero {number : Int} {names : List String} (he : m.Equipped settings)
    (hnode : tree? "BlockClosure" selector = some (byPrimitive selector number names))
    (h : Memory.Sends settings (.closure c) selector sent m 0 calls out) : Eval.OutOfDepth out := by
  obtain ⟨cls, hclass, hunderstands⟩ := he.understands (v := .closure c) rfl hnode
  obtain ⟨owner, next, hmethod⟩ := hunderstands.method
  obtain ⟨callers, m₁, -, -, hout⟩ := h.activates hclass hmethod rfl
  rcases hout with rfl | ⟨hout, -⟩
  · exact .inl ⟨m₁, rfl⟩
  · exact hout

/-- What comes of a block that is sent `valueWithArguments:`. -/
structure PassesArray (settings : Settings) (m : Memory) (c : ClosureId) (a : ArrayId) :
    Prop where
  /-- The elements are handed on that the array has when the message is sent. -/
  handsOn : ∀ ⦃depth : Nat⦄ ⦃calls : List Call⦄ ⦃out : Outcome Value⦄,
    Memory.Sends settings (.closure c) "valueWithArguments:" [.array a] m (depth + 1) calls out →
    ∃ x m₁, HandsOn settings m c (m.heap.array a).toList depth calls out x m₁ ∧
      ∀ inner, depth = inner + 1 → m₁.Invokes settings c (m.heap.array a).toList
        m.heap.frames.size inner
  /-- Another number of elements is a fault, and nothing is changed. -/
  mismatch : (m.heap.array a).size ≠ (m.heap.closure c).arity →
    m.SendYields settings 2 (.closure c) "valueWithArguments:" [.array a]
      (.error (.arityMismatch "a block" (m.heap.closure c).arity (m.heap.array a).size))
  /-- The number that is asked for is the one that `numArgs` answers. -/
  numArgs : (m.heap.closure c).arity ≤ settings.room →
    m.SendYields settings 1 (.closure c) "numArgs" [] (.ok (.int (m.heap.closure c).arity))
  /-- Up to four elements might as well have been sent with the message, from the same place. All
  is the same then but the frame of the method, unless there is not enough depth. -/
  alike : (m.heap.array a).size ≤ 4 → ∀ ⦃depth : Nat⦄ ⦃calls calls' : List Call⦄
    ⦃out out' : Outcome Value⦄,
    Memory.Sends settings (.closure c) "valueWithArguments:" [.array a] m depth calls out →
    Memory.Sends settings (.closure c) (valueSelector (m.heap.array a).size)
      (m.heap.array a).toList m depth calls' out' →
    calls.map (·.task.callers) = calls'.map (·.task.callers) →
    (∃ x, Eval.Matches (.allBut (m.withFrame x).heap m.heap.frames.size) out out') ∨
      Eval.OutOfDepth out ∧ Eval.OutOfDepth out'

/-- Whatever has happened before, and whichever array it is. -/
theorem sends_valueWithArguments (he : m.Equipped settings) (hclosed : m.Closed)
    (hc : c < m.heap.closures.size) (hnames : (m.heap.closure c).HasDistinctNames)
    (a : ArrayId) : PassesArray settings m c a := by
  have hnode : tree? "BlockClosure" "valueWithArguments:"
    = some (byPrimitive "valueWithArguments:" 206 ["anArray"]) := rfl
  have hsend : ∀ {depth calls out}, Memory.Sends settings (.closure c) "valueWithArguments:"
      [.array a] m (depth + 1) calls out →
      ∃ x m₁, HandsOn settings m c (m.heap.array a).toList depth calls out x m₁ := by
    intro depth calls out h
    refine Kernel.handsOn he hclosed hc hnode (List.nodup_singleton _) rfl
      (p := .callWithArray) (by decide) (fun m' a' => ?_) h
    rw [← a'.array a]
    rfl
  constructor
  · intro depth calls out h
    obtain ⟨x, m₁, hhands⟩ := hsend h
    refine ⟨x, m₁, hhands, fun inner _ => ?_⟩
    refine Closure.HasDistinctNames.invokes ?_ ..
    rw [hhands.noted.heap]
    exact hnames
  · intro harity depth calls out h hdepth
    rcases depth with _ | _ | inner
    · exact absurd (outOfDepth_of_zero he hnode h) (hdepth.resolve_left (by decide))
    · obtain ⟨x, m₁, hhands⟩ := hsend h
      exact absurd hhands.outOfDepth_of_zero (hdepth.resolve_left (by decide))
    · obtain ⟨x, m₁, hhands⟩ := hsend h
      have hclosure : m₁.heap.closure c = m.heap.closure c := by
        rw [hhands.noted.heap]
        rfl
      have harity₁ : (m.heap.array a).toList.length ≠ (m₁.heap.closure c).arity := by
        rw [hclosure]
        exact harity
      have hrun := Eval.invoke_of_mismatch harity₁ (Eval.run settings inner) m.heap.frames.size
      rw [hclosure] at hrun
      exact hhands.fails hrun
  · intro hroom
    refine .of_kernel he rfl (show tree? "BlockClosure" "numArgs"
      = some (byPrimitive "numArgs" 207 []) from rfl) fun owner next callers => ?_
    have hp : (207, Primitive.arity) ∈ Primitive.numbered := by decide
    have hattempt : ∀ m', m.Aside [] m' → Primitive.arity.attempt m' (.closure c) []
        = .ok (.tally (m.heap.closure c).arity) := by
      intro m' a'
      rw [← a'.heap.closure c hc]
      rfl
    exact .byPrimitive he.primitive hp List.nodup_nil rfl hattempt (if_pos hroom) callers
  · intro hfour depth calls calls' out out' h h' hcallers
    obtain ⟨number, names, hnode', hnodup, hlength, hp⟩ := valueMethod hfour
    cases depth with
    | zero => exact .inr ⟨outOfDepth_of_zero he hnode h, outOfDepth_of_zero he hnode' h'⟩
    | succ depth =>
        obtain ⟨x, m₁, hhands⟩ := hsend h
        obtain ⟨x', m₁', hhands'⟩ := Kernel.handsOn he hclosed hc hnode' hnodup hlength.symm hp
          (fun m' _ => Primitive.attempt_call m' c _) h'
        exact (hhands.matches hhands' hclosed hc hnames hcallers).imp_left fun hm => ⟨x, hm⟩

/-- A memory with an array of two numbers, and a block with two parameters and a temp. It keeps the
first in the temp and answers the second. -/
def withPair (m : Memory) : Memory :=
  let m : Memory := { m with heap := (m.heap.newArray #[.int 3, .int 4]).1 }
  { m.inWorkspace with heap := (m.inWorkspace.heap.newClosure ⟨[.str "x", .str "y"], [.str "t"],
      [.assign (.str "t") .temp .null (argument "x"), argument "y"], m.heap.frames.size⟩).1 }

theorem withPair_equipped (he : m.Equipped settings) : (withPair m).Equipped settings :=
  he.of_registry rfl

theorem withPair_closed (g : m.Good Regime.any []) : (withPair m).Closed := by
  have hnumbers : ∀ v ∈ #[Value.int 3, .int 4], Regime.any.Holds m v := by
    intro v hv
    simp only [List.mem_toArray, List.mem_cons, List.not_mem_nil, or_false] at hv
    rcases hv with rfl | rfl <;> exact ⟨rfl, trivial⟩
  refine (g.newArray hnumbers).inWorkspace.toWellFormed.closed.newClosure ?_
  show _ < (m.heap.newFrame _).1.frames.size
  rw [Heap.size_newFrame]
  exact Nat.lt_succ_self _

/-- The block answers the second element. -/
theorem sends_valueWithArguments_of_pair : PassesArray {} (withPair memory) 0 0 ∧
    (match (Query.send (.closure 0) (.str "valueWithArguments:") [.array 0]).perform {}
        (withPair memory) with
      | .ok (.int 4) _ => true
      | _ => false) = true :=
  ⟨sends_valueWithArguments (withPair_equipped memory_equipped)
    (withPair_closed (memory_good fun _ _ => rfl)) (by decide +kernel)
    ⟨[.text "x", .text "y", .text "t"], by decide +kernel, by decide⟩ 0, by decide +kernel⟩

end Kernel

end Smalltalk
