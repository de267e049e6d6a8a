import Smalltalk.Proofs.Coincide
import Smalltalk.Proofs.Effect

/-!
# `Smalltalk.Proofs.Confines`: evaluations that keep to what they are given

`Eval.Confines paired r act m post` says that `act` keeps `m` confined to the realm `r`, that
what a stop carries belongs to the realm, and that the answer is as `post` says. Where `act`
is `paired` with itself in other memories, it also has the same outcome in each memory that
coincides with `m` on the realm, and the two coincide again (`Eval.Matches`). So it has not
looked at anything else. There is a rule for each way to combine evaluations, then a lemma
for each function of the evaluator, and `Confines.run` is the induction on the depth.

Nothing is assumed of the code: a task only needs that what it is about belongs to the
realm (`Realm.Allows`).
-/

set_option autoImplicit false

namespace Smalltalk

variable {r : Realm} {m n : Memory}

/-- An answer that belongs to the realm. -/
def Realm.Answers (r : Realm) (v : Value) (m : Memory) : Prop := r.Admits m.heap v

namespace Eval

/-- An outcome in a confined memory, where what a stop carries belongs to the realm. -/
def Stays {α : Type} (r : Realm) (m : Memory) (post : α → Memory → Prop) : Outcome α → Prop
  | .ok a m' => m'.Confined r ∧ m.heap.Grows m'.heap ∧ post a m'
  | .error s m' => m'.Confined r ∧ m.heap.Grows m'.heap ∧ r.Stops m'.heap s

/-- Two outcomes with one answer or one stop, in memories that coincide. -/
def Matches {α : Type} (r : Realm) : Outcome α → Outcome α → Prop
  | .ok a m, .ok b n => b = a ∧ m.Coincides r n
  | .error s m, .error t n => t = s ∧ m.Coincides r n
  | _, _ => False

/-- An evaluation that keeps a confined memory confined. Where it is paired, it goes alike in
memories that coincide. -/
def Confines {α : Type} (paired : Prop) (r : Realm) (act : Eval α) (m : Memory)
    (post : α → Memory → Prop) : Prop :=
  m.Confined r → Stays r m post (act m) ∧
    (paired → ∀ n, m.Coincides r n → Matches r (act m) (act n))

variable {α β : Type} {x : Eval α} {k : α → Eval β}

theorem Stays.grows {post : α → Memory → Prop} {out : Outcome α} (h : Stays r m post out) :
    m.heap.Grows (left out).heap := by
  cases out with
  | ok a m' => exact h.2.1
  | error s m' => exact h.2.1

/-- A frame of the realm is closed. -/
theorem Stays.close {f : FrameId} {out : Outcome Value} (h : Stays r m r.Answers out)
    (hf : r.Has m.heap (.frame f)) : Stays r m r.Answers (Eval.close f out) := by
  have hretire : ∀ {m' : Memory}, m'.Confined r → m.heap.Grows m'.heap →
      (m'.retire f).Confined r ∧ m.heap.Grows (m'.retire f).heap ∧
        m'.heap.Grows (m'.retire f).heap := by
    intro m' w' g
    have t := (Heap.Changes.retire f).touch m'.heap
    refine ⟨w'.touch t ((hf.mono g).mono t.grows) fun c hc => hc.elim, ?_, t.grows⟩
    exact fun c hc => t.grows c (g c hc)
  cases out with
  | ok v m' =>
      obtain ⟨w', g, hv⟩ := h
      obtain ⟨w'', g'', g'⟩ := hretire w' g
      exact ⟨w'', g'', Realm.Admits.mono hv g'⟩
  | error s m' =>
      obtain ⟨w', g, hs⟩ := h
      obtain ⟨w'', g'', g'⟩ := hretire w' g
      cases s with
      | unwind v home =>
          -- the value stays in the realm whether or not this is the home
          obtain ⟨hv, hhome⟩ := hs
          show Stays r m _ (if home = f then _ else _)
          split
          · exact ⟨w'', g'', hv.mono g'⟩
          · exact ⟨w'', g'', hv.mono g', hhome.mono g'⟩
      | fault e => exact ⟨w'', g'', fun v hv => (hs v hv).mono g'⟩
      | tooDeep => exact ⟨w'', g'', trivial⟩
      | unfinished => exact ⟨w'', g'', trivial⟩

/-- A frame of the realm is closed in both. -/
theorem Matches.close {f : FrameId} {out out' : Outcome Value} (h : Matches r out out')
    (hf : r.Has (left out).heap (.frame f)) :
    Matches r (Eval.close f out) (Eval.close f out') := by
  have hretire : ∀ {m n : Memory}, m.Coincides r n → r.Has m.heap (.frame f) →
      (m.retire f).Coincides r (n.retire f) :=
    fun same hf => same.change (.retire f) hf
  cases out with
  | ok v m' =>
      cases out' with
      | ok v' n' =>
          obtain ⟨rfl, same⟩ := h
          exact ⟨rfl, hretire same hf⟩
      | error t n' => exact h.elim
  | error s m' =>
      cases out' with
      | ok v' n' => exact h.elim
      | error t n' =>
          -- both stop alike, so either both unwindings end here or none does
          obtain ⟨rfl, same⟩ := h
          cases t with
          | unwind v home =>
              show Matches r (if home = f then _ else _) (if home = f then _ else _)
              split
              · exact ⟨rfl, hretire same hf⟩
              · exact ⟨rfl, hretire same hf⟩
          | _ => exact ⟨rfl, hretire same hf⟩

theorem Matches.of_ok {a : α} {m' : Memory} (h : Matches r (x m) (x n))
    (hx : x m = .ok a m') : ∃ n', x n = .ok a n' ∧ m'.Coincides r n' := by
  rw [hx] at h
  cases hn : x n with
  | ok b n' =>
      rw [hn] at h
      exact ⟨n', h.1 ▸ rfl, h.2⟩
  | error t n' =>
      rw [hn] at h
      exact h.elim

theorem Matches.of_error {s : Stop} {m' : Memory} (h : Matches r (x m) (x n))
    (hx : x m = .error s m') : ∃ n', x n = .error s n' ∧ m'.Coincides r n' := by
  rw [hx] at h
  cases hn : x n with
  | ok b n' =>
      rw [hn] at h
      exact h.elim
  | error t n' =>
      rw [hn] at h
      exact ⟨n', h.1 ▸ rfl, h.2⟩

namespace Confines

variable {paired : Prop}

theorem pure {a : α} {post : α → Memory → Prop} (h : post a m) :
    Confines paired r (Pure.pure a) m post :=
  fun w => ⟨⟨w, fun _ => id, h⟩, fun _ _ same => ⟨rfl, same⟩⟩

theorem stop {s : Stop} {post : α → Memory → Prop} (h : r.Stops m.heap s) :
    Confines paired r (throw s) m post :=
  fun w => ⟨⟨w, fun _ => id, h⟩, fun _ _ same => ⟨rfl, same⟩⟩

/-- A fault that carries nothing. -/
theorem fail {f : Fault} {post : α → Memory → Prop} (h : f.carried? = none) :
    Confines paired r (Eval.fail f) m post := by
  refine stop fun v hv => ?_
  rw [h] at hv
  cases hv

/-- The memory may be taken to be confined. -/
theorem reading {act : Eval α} {post : α → Memory → Prop}
    (h : m.Confined r → Confines paired r act m post) : Confines paired r act m post :=
  fun w => h w w

theorem bind {Q : α → Memory → Prop} {post : β → Memory → Prop}
    (hx : Confines paired r x m Q)
    (hk : ∀ a m', m.heap.Grows m'.heap → Q a m' → Confines paired r (k a) m' post) :
    Confines paired r (x >>= k) m post := by
  intro w
  obtain ⟨hstays, hsame⟩ := hx w
  cases hr : x m with
  | error s m' =>
      rw [hr] at hstays
      rw [bind_of_error hr]
      -- the twin ends in the same stop, so its second part is not reached either
      refine ⟨hstays, fun hp n same => ?_⟩
      obtain ⟨n', hn, same'⟩ := (hsame hp n same).of_error hr
      rw [bind_of_error hn]
      exact ⟨rfl, same'⟩
  | ok a m' =>
      rw [hr] at hstays
      obtain ⟨w', g, ha⟩ := hstays
      -- what the second part makes counts from the memory that the first has left
      obtain ⟨hrest, hsame'⟩ := hk a m' g ha w'
      rw [bind_of_ok hr]
      refine ⟨?_, fun hp n same => ?_⟩
      · cases hr' : k a m' with
        | ok b m'' =>
            rw [hr'] at hrest
            exact ⟨hrest.1, fun c hc => hrest.2.1 c (g c hc), hrest.2.2⟩
        | error s m'' =>
            rw [hr'] at hrest
            exact ⟨hrest.1, fun c hc => hrest.2.1 c (g c hc), hrest.2.2⟩
      · obtain ⟨n', hn, same'⟩ := (hsame hp n same).of_ok hr
        rw [bind_of_ok hn]
        exact hsame' hp n' same'

/-- What follows from the memory is the same in memories that coincide. -/
theorem get {k : Memory → Eval β} {post : β → Memory → Prop}
    (hk : ∀ n, m.Coincides r n → k n = k m) (h : Confines paired r (k m) m post) :
    Confines paired r (MonadState.get >>= k) m post := by
  intro w
  refine ⟨(h w).1, fun hp n same => ?_⟩
  show Matches r (k m m) (k n n)
  rw [hk n same]
  exact (h w).2 hp n same

/-- A question whose answer only has to be the same where the evaluation is paired. -/
theorem askingIf {f : Memory → α} {post : β → Memory → Prop}
    (hf : paired → ∀ n, m.Coincides r n → f n = f m) (h : Confines paired r (k (f m)) m post) :
    Confines paired r (Eval.ask f >>= k) m post := by
  intro w
  refine ⟨(h w).1, fun hp n same => ?_⟩
  show Matches r (k (f m) m) (k (f n) n)
  rw [hf hp n same]
  exact (h w).2 hp n same

/-- A question has the same answer in memories that coincide. -/
theorem asking {f : Memory → α} {post : β → Memory → Prop}
    (hf : ∀ n, m.Coincides r n → f n = f m) (h : Confines paired r (k (f m)) m post) :
    Confines paired r (Eval.ask f >>= k) m post :=
  askingIf (fun _ => hf) h

theorem ask {f : Memory → α} {post : α → Memory → Prop}
    (hf : ∀ n, m.Coincides r n → f n = f m) (h : post (f m) m) :
    Confines paired r (Eval.ask f) m post :=
  fun w => ⟨⟨w, fun _ => id, h⟩, fun _ n same => ⟨hf n same, same⟩⟩

theorem ofExcept {e : Except Fault α} {post : α → Memory → Prop}
    (hok : ∀ a, e = .ok a → post a m) (herror : ∀ f, e = .error f → f.carried? = none) :
    Confines paired r (Eval.ofExcept e) m post := by
  cases e with
  | ok a => exact pure (hok a rfl)
  | error f => exact fail (herror f rfl)

theorem ofMisuse {e : Except Fault α} {post : α → Memory → Prop}
    (hok : ∀ a, e = .ok a → post a m) (herror : ∀ f, e = .error f → f.isMisuse = true) :
    Confines paired r (Eval.ofExcept e) m post :=
  ofExcept hok fun f hf => Fault.carried?_of_isMisuse (herror f hf)

/-- A cell of the realm is changed. -/
theorem changeHeap {f : Heap → Heap} {cell : Cell} {new : Cell → Prop}
    (changes : Heap.Changes f cell new) (hcell : r.Has m.heap cell)
    (hnew : ∀ c, new c → r.Has m.heap c) :
    Confines paired r (Eval.changeHeap f) m fun _ _ => True := by
  intro w
  have t := changes.touch m.heap
  refine ⟨⟨?_, t.grows, trivial⟩, fun _ n same => ⟨rfl, same.change changes hcell⟩⟩
  exact w.touch t (hcell.mono t.grows) fun c hc => (hnew c hc).mono t.grows

/-- A cell is made. -/
theorem make {f : Heap → Heap × α} {cell : Heap → Cell} {new : Cell → Prop}
    (makes : Heap.Makes f cell new) (hnew : ∀ c, new c → r.Has m.heap c) :
    Confines paired r (Eval.make f) m fun a m' =>
      a = (f m.heap).2 ∧ r.Has m'.heap (cell m.heap) := by
  intro w
  have t := makes.touch m.heap
  have hcell := w.has_new (makes.fresh m.heap) ((makes.contains m.heap _).mpr (.inr rfl))
  refine ⟨⟨?_, t.grows, rfl, hcell⟩, fun _ n same => same.make makes⟩
  exact w.touch t hcell fun c hc => (hnew c hc).mono t.grows

theorem makeText (s : String) : Confines paired r (Eval.makeText s) m r.Answers := by
  refine fun w => ⟨⟨w.texts _, fun c => ?_, Realm.admits_of_none rfl⟩, fun _ n same => ?_⟩
  · exact (Heap.contains_texts _ c).mpr
  · exact same.newText s

/-- A line is made in both memories or in none; what it says does not matter. -/
theorem note {line : Memory → Except Fault String}
    (hline : ∀ f, line m = .error f → f.isMisuse = true)
    (hsame : ∀ n, m.Coincides r n → ∀ f, line n = .error f ↔ line m = .error f) :
    Confines paired r (Eval.note line) m fun _ _ => True := by
  intro w
  cases hrecording : m.journal.recording with
  | false =>
      rw [note_of_quiet hrecording]
      refine ⟨⟨w, fun _ => id, trivial⟩, fun _ n same => ?_⟩
      rw [note_of_quiet (same.recording.trans hrecording)]
      exact ⟨rfl, same⟩
  | true =>
      cases hm : line m with
      | error f =>
          -- the fault carries no value, so nothing leaves the realm with it
          rw [note_of_unmade hrecording hm]
          refine ⟨⟨w, fun _ => id, fun v hv => ?_⟩, fun _ n same => ?_⟩
          · rw [Fault.carried?_of_isMisuse (hline f hm)] at hv
            cases hv
          · rw [note_of_unmade (same.recording.trans hrecording) ((hsame n same f).mpr hm)]
            exact ⟨rfl, same⟩
      | ok text =>
          rw [note_of_made hrecording hm]
          refine ⟨⟨w.note text, ?_, trivial⟩, fun _ n same => ?_⟩
          · rw [Memory.heap_note]
            exact fun _ => id
          · cases hn : line n with
            | ok text' =>
                rw [note_of_made (same.recording.trans hrecording) hn]
                exact ⟨rfl, same.note text text'⟩
            | error f =>
                -- where no line can be made in the twin, none can be made here
                rw [(hsame n same f).mp hn] at hm
                cases hm

theorem mapM {xs : List α} {f : α → Eval Value}
    (hf : ∀ x ∈ xs, ∀ m', m.heap.Grows m'.heap → Confines paired r (f x) m' r.Answers) :
    Confines paired r (xs.mapM f) m fun vs m' => ∀ v ∈ vs, r.Answers v m' := by
  induction xs generalizing m with
  | nil =>
      rw [List.mapM_nil]
      exact pure fun _ h => absurd h List.not_mem_nil
  | cons x xs ih =>
      rw [List.mapM_cons]
      refine bind (hf x List.mem_cons_self m fun _ => id) ?_
      intro v m₁ g₁ hv
      refine bind (ih fun y hy m' g' => hf y (List.mem_cons_of_mem _ hy) m'
        fun c hc => g' c (g₁ c hc)) ?_
      intro vs m₂ g₂ hvs
      refine pure fun u hu => ?_
      rcases List.mem_cons.mp hu with rfl | hu
      · exact Realm.Admits.mono hv g₂
      · exact hvs u hu

theorem forM {xs : List α} {f : α → Eval Unit}
    (hf : ∀ x ∈ xs, ∀ m', m.heap.Grows m'.heap → Confines paired r (f x) m' fun _ _ => True) :
    Confines paired r (xs.forM f) m fun _ _ => True := by
  induction xs generalizing m with
  | nil => exact pure trivial
  | cons x xs ih =>
      refine bind (hf x List.mem_cons_self m fun _ => id) fun _ m₁ g₁ _ => ?_
      exact ih fun y hy m' g' => hf y (List.mem_cons_of_mem _ hy) m' fun c hc => g' c (g₁ c hc)

theorem foldlM {xs : List α} {f : Value → α → Eval Value} {v : Value} (hv : r.Answers v m)
    (hf : ∀ x ∈ xs, ∀ v m', m.heap.Grows m'.heap → Confines paired r (f v x) m' r.Answers) :
    Confines paired r (xs.foldlM f v) m r.Answers := by
  induction xs generalizing m v with
  | nil => exact pure hv
  | cons x xs ih =>
      rw [List.foldlM_cons]
      refine bind (hf x List.mem_cons_self v m fun _ => id) fun u m₁ g₁ hu => ?_
      exact ih hu fun y hy u m' g' =>
        hf y (List.mem_cons_of_mem _ hy) u m' fun c hc => g' c (g₁ c hc)

/-! ### Variables -/

variable {f : FrameId} {v : Value}

theorem classOf (hv : r.Admits m.heap v) :
    Confines paired r (Eval.classOf v) m fun _ _ => True := by
  unfold Eval.classOf
  refine reading fun w => get (fun n same => ?_) ?_
  · simp only [same.classOf? hv, same.inspect w hv]
  split
  · exact pure trivial
  · exact fail rfl

theorem keyOf (name : Json) :
    Confines paired r (Eval.ofExcept (Fault.keyOf name)) m fun _ m' => m' = m :=
  ofMisuse (fun _ _ => rfl) fun _ => Fault.isMisuse_of_keyOf

theorem declare (hf : r.Has m.heap (.frame f)) (name : Json) (hv : r.Admits m.heap v) :
    Confines paired r (Eval.declare f name v) m fun _ _ => True := by
  refine bind (keyOf name) ?_
  rintro key _ - rfl
  exact changeHeap (.declare f key name v) hf hv

theorem declareAll (hf : r.Has m.heap (.frame f)) (names : List Json) {vs : List Value}
    (hvs : ∀ v ∈ vs, r.Admits m.heap v) :
    Confines paired r (Eval.declareAll f names vs) m fun _ _ => True := by
  refine forM fun p hp m' g => declare (hf.mono g) p.1 ?_
  exact (hvs p.2 (List.of_mem_zip hp).2).mono g

theorem lookup (hf : r.Has m.heap (.frame f)) (name : Json) :
    Confines paired r (Eval.lookup f name) m r.Answers := by
  refine bind (keyOf name) ?_
  rintro key _ - rfl
  refine reading fun w => asking (fun n same => same.lookup? w hf key) ?_
  split
  · rename_i v hv
    exact pure (w.lookup hf hv)
  · exact fail (Fault.carried?_about fun _ => rfl)

theorem assign (hf : r.Has m.heap (.frame f)) (name : Json) (hv : r.Admits m.heap v) :
    Confines paired r (Eval.assign f name v) m fun _ _ => True := by
  refine bind (keyOf name) ?_
  rintro key _ - rfl
  refine reading fun w => asking (fun n same => same.owner? w hf key) ?_
  split
  · rename_i owner howner
    exact changeHeap (.declare owner key name v) (w.owner hf howner) hv
  · exact fail (Fault.carried?_about fun _ => rfl)

theorem lookupGlobal (name : Json) : Confines paired r (Eval.lookupGlobal name) m r.Answers := by
  refine bind (keyOf name) ?_
  rintro key _ - rfl
  refine reading fun w => asking (fun n same => ?_) ?_
  · rw [same.globals]
  split
  · rename_i v hv
    exact pure (w.bound key v hv)
  · exact fail (Fault.carried?_about fun _ => rfl)

theorem assignGlobal (name : Json) (hv : r.Admits m.heap v) :
    Confines paired r (Eval.assignGlobal name v) m fun _ _ => True := by
  refine bind (keyOf name) ?_
  rintro key _ - rfl
  refine fun w => ⟨⟨w.bind key name hv, fun _ => id, trivial⟩, fun _ n same => ?_⟩
  exact ⟨rfl, same.bind key name v⟩

/-- The object whose slots a frame may use is the receiver of the frame. -/
theorem slotOf (hf : r.Has m.heap (.frame f)) (index : Json) :
    Confines paired r (Eval.slotOf f index) m fun p m' => r.Has m'.heap (.object p.1) := by
  unfold Eval.slotOf
  refine reading fun w => ?_
  have hreceiver := w.receiver hf
  -- the receiver is read alike: it is shown alike, and as an object it is the same
  refine get (fun n same => ?_) ?_
  · have hshown := same.inspect w hreceiver
    simp only [same.frame hf, hshown]
    split
    · rename_i o ho
      rw [ho] at hreceiver
      simp only [same.object (hreceiver _ rfl)]
    · rw [hshown]
  simp only
  split
  · rename_i o ho
    rw [ho] at hreceiver
    refine bind (Q := fun _ m' => m' = m) (ofExcept (fun _ _ => rfl) fun g hg => ?_) ?_
    · rcases Fault.of_slotNumber hg with rfl | hmisuse
      · rfl
      · exact Fault.carried?_of_isMisuse hmisuse
    · rintro i _ - rfl
      exact pure (hreceiver _ rfl)
  · exact fail rfl

theorem readVariable (hf : r.Has m.heap (.frame f)) (name : Json) (kind : VariableKind)
    (index : Json) : Confines paired r (Eval.readVariable f name kind index) m r.Answers := by
  cases kind with
  | instvar =>
      refine bind (slotOf hf index) fun p m₁ _ ho => reading fun w => ask (fun n same => ?_) ?_
      · rw [same.object ho]
      · exact forall_getD Realm.admits_nil (fun x hx => w.ofObject ho (.inl hx)) p.2
  | global => exact lookupGlobal name
  | temp => exact lookup hf name
  | arg => exact lookup hf name

theorem writeVariable (hf : r.Has m.heap (.frame f)) (name : Json) (kind : VariableKind)
    (index : Json) (hv : r.Admits m.heap v) :
    Confines paired r (Eval.writeVariable f name kind index v) m fun _ _ => True := by
  cases kind with
  | instvar =>
      refine bind (slotOf hf index) fun p m₁ g ho => ?_
      exact changeHeap (.setSlot p.1 p.2 v) ho (hv.mono g)
  | global => exact assignGlobal name hv
  | temp => exact assign hf name hv
  | arg => exact assign hf name hv

/-! ### Sends and returns -/

/-- An unwinding goes to the home of a frame of the realm. -/
theorem returnFrom {post : Value → Memory → Prop} (hf : r.Has m.heap (.frame f))
    (hv : r.Admits m.heap v) : Confines paired r (Eval.returnFrom f v) m post := by
  unfold Eval.returnFrom
  refine reading fun w => asking (fun n same => same.home hf) (asking (fun n same => ?_) ?_)
  · rw [same.frame (w.home hf)]
  split
  · refine bind (note (fun g hg => ?_) fun n same g => ?_) fun _ m₁ g _ => ?_
    · exact Fault.isMisuse_of_map (fun _ => Fault.isMisuse_of_frameWord) hg
    · exact map_error_iff.trans ((same.frameWord (w.home hf) g).trans map_error_iff.symm)
    · exact stop ⟨hv.mono g, (w.home hf).mono g⟩
  · refine asking (fun n same => same.inspect w hv) (stop ?_)
    rintro _ ⟨⟩
    exact hv

theorem startOf (hf : r.Has m.heap (.frame f)) (toSuper : Bool) (hv : r.Admits m.heap v) :
    Confines paired r (Eval.startOf f toSuper v) m fun _ _ => True := by
  unfold Eval.startOf
  split
  · refine asking (fun n same => ?_) ?_
    · rw [same.frame hf]
    split
    · refine ask (fun n same => ?_) trivial
      rw [same.registry]
    · exact fail rfl
  · exact bind (classOf hv) fun _ _ _ _ => pure trivial

theorem methodFrom (selector : Json) (start : Option Behavior) :
    Confines paired r (Eval.methodFrom selector start) m fun _ _ => True := by
  cases start with
  | none => exact pure trivial
  | some b =>
      refine bind (keyOf selector) fun _ _ _ _ => ask (fun n same => ?_) trivial
      rw [same.registry]

theorem notUnderstood {post : α → Memory → Prop} (hv : r.Admits m.heap v) (selector : Json) :
    Confines paired r (Eval.notUnderstood v selector : Eval α) m post := by
  refine bind (classOf hv) fun _ _ _ _ => asking (fun n same => ?_) ?_
  · rw [same.registry]
  · exact fail (Fault.carried?_about fun _ => rfl)

theorem printed (hv : r.Admits m.heap v) :
    Confines paired r (Eval.printed v) m fun _ _ => True := by
  refine reading fun w => asking (fun n same => same.print? w hv) ?_
  split
  · exact pure trivial
  · exact stop trivial

/-- The frame of an activation has the receiver and the arguments, and nothing around it. -/
theorem enter (method : Method) {receiver : Value} (hreceiver : r.Admits m.heap receiver)
    {args : List Value} (hargs : ∀ v ∈ args, r.Admits m.heap v) (callers : List FrameId) :
    Confines paired r (Eval.enter method receiver args callers) m fun f m' =>
      r.Has m'.heap (.frame f) := by
  refine bind (make (.newFrame _) fun c hc => ?_) ?_
  · rcases hc with ⟨v, rfl | ⟨key, hkey⟩, hc⟩ | ⟨g, hg, -⟩
    · exact hreceiver c hc
    · cases hkey
    · exact absurd hg List.not_mem_nil
  · rintro _ m₁ g ⟨rfl, hframe⟩
    refine bind (declareAll hframe method.params fun v hv => (hargs v hv).mono g) ?_
    exact fun _ m₂ g₂ _ => pure (hframe.mono g₂)

/-- Closing a frame of the realm. An unwinding that ends there answers what it carries. -/
theorem closing {act : Eval Value} (hf : r.Has m.heap (.frame f))
    (hact : Confines paired r act m r.Answers) :
    Confines paired r (Eval.closing f act) m r.Answers := by
  intro w
  obtain ⟨hstays, hsame⟩ := hact w
  refine ⟨?_, fun hp n same => ?_⟩
  · rw [closing_eq_close]
    exact hstays.close hf
  · rw [closing_eq_close, closing_eq_close]
    exact (hsame hp n same).close (hf.mono hstays.grows)

/-! ### Tasks -/

/-- A way to do tasks that keeps to the realm, for every task that the realm allows. -/
def Tasks (paired : Prop) (r : Realm) (rec : Task → Eval Value) : Prop :=
  ∀ task m, r.Allows m.heap task → Confines paired r (rec task) m r.Answers

variable {rec : Task → Eval Value} (hrec : Tasks paired r rec)
include hrec

theorem runBody (hf : r.Has m.heap (.frame f)) (temps : List Json) (statements : List Node) :
    Confines paired r (Eval.runBody rec f temps statements) m r.Answers := by
  refine bind (forM fun name _ m' g => declare (hf.mono g) name Realm.admits_nil) ?_
  intro _ m₁ g₁ _
  refine foldlM Realm.admits_nil fun n _ v m₂ g₂ => hrec _ m₂ ?_
  exact (hf.mono g₁).mono g₂

/-- Trees one by one in a frame. -/
theorem evaluateAll (hf : r.Has m.heap (.frame f)) (nodes : List Node) :
    Confines paired r (nodes.mapM fun n => rec (.evaluate n f)) m fun vs m' =>
      ∀ v ∈ vs, r.Answers v m' :=
  mapM fun _ _ m₁ g₁ => hrec _ m₁ (hf.mono g₁)

theorem sendMessage (hf : r.Has m.heap (.frame f)) (receiver : Node) (selector : Json)
    (args : List Node) :
    Confines paired r (Eval.sendMessage rec f receiver selector args) m r.Answers := by
  refine bind (hrec _ m hf) ?_
  intro v m₁ g₁ hv
  refine bind (evaluateAll hrec (hf.mono g₁) args) ?_
  intro vs m₂ g₂ hvs
  -- the receiver was evaluated before the arguments, and is in the realm after them too
  have hv₂ : r.Admits m₂.heap v := Realm.Admits.mono hv g₂
  have hf₂ : r.Has m₂.heap (.frame f) := (hf.mono g₁).mono g₂
  refine bind (startOf hf₂ _ hv₂) fun start m₃ g₃ _ => bind (methodFrom _ start) ?_
  intro found m₄ g₄ _
  have hv₄ : r.Admits m₄.heap v := (hv₂.mono g₃).mono g₄
  have hf₄ : r.Has m₄.heap (.frame f) := (hf₂.mono g₃).mono g₄
  split
  · exact notUnderstood hv₄ _
  · refine bind (note (fun e he => ?_) fun n same e => ?_) fun _ m₅ g₅ _ => ?_
    · exact Fault.isMisuse_of_map (fun _ => Fault.isMisuse_of_methodWord) he
    · rw [same.methodWord, map_error_iff, map_error_iff]
    · refine asking (fun n same => ?_) (hrec _ m₅ ⟨hv₄.mono g₅, fun u hu => ?_⟩)
      · rw [same.frame (hf₄.mono g₅)]
      · exact ((Realm.Admits.mono (hvs u hu) g₃).mono g₄).mono g₅

/-- One case for each sort of tree. -/
theorem evaluateNode (hf : r.Has m.heap (.frame f)) (node : Node) :
    Confines paired r (Eval.evaluateNode rec f node) m r.Answers := by
  cases node with
  | self =>
      refine reading fun w => ask (fun n same => ?_) (w.receiver hf)
      rw [same.frame hf]
  | super =>
      refine reading fun w => ask (fun n same => ?_) (w.receiver hf)
      rw [same.frame hf]
  | reference name kind index => exact readVariable hf name kind index
  | literal value => exact pure (Realm.admits_of_none (by cases value <;> rfl))
  | symbol name => exact pure (Realm.admits_of_none rfl)
  | literalArray elements =>
      refine bind (evaluateAll hrec hf elements) fun vs m₁ _ hvs => ?_
      refine bind (make (.newArray vs.toArray) fun c hc => ?_) ?_
      · obtain ⟨v, hv, hc⟩ := hc
        exact hvs v (List.mem_toArray.mp hv) c hc
      · rintro _ m₂ _ ⟨rfl, harray⟩
        refine pure ?_
        rintro _ ⟨⟩
        exact harray
  | sequence temps statements => exact runBody hrec hf temps statements
  | block params temps statements =>
      refine bind (make (.newClosure _) fun c hc => ?_) ?_
      · exact hc ▸ hf
      · rintro _ m₁ _ ⟨rfl, hclosure⟩
        exact pure (Realm.admits_closure hclosure)
  | send receiver selector args => exact sendMessage hrec hf receiver selector args
  | assign name kind index value =>
      refine bind (hrec _ m hf) fun v m₁ g₁ hv => ?_
      refine bind (writeVariable (hf.mono g₁) name kind index hv) fun _ m₂ g₂ _ => pure ?_
      exact Realm.Admits.mono hv g₂
  | answer value => exact bind (hrec _ m hf) fun v m₁ g₁ hv => returnFrom (hf.mono g₁) hv
  | method selector params temps statements primitive => exact fail rfl

/-- The loop is an induction on the rounds it may take. -/
theorem alternate {condition body : ClosureId} (hcondition : r.Has m.heap (.closure condition))
    (hbody : r.Has m.heap (.closure body)) (hf : r.Has m.heap (.frame f)) (goOn : Bool)
    (rounds : Nat) :
    Confines paired r (Eval.alternate (rec (.invoke condition [] f)) (rec (.invoke body [] f)) goOn
      rounds) m r.Answers := by
  have hnone : ∀ {h : Heap}, ∀ v ∈ ([] : List Value), r.Admits h v := fun v hv => nomatch hv
  induction rounds generalizing m with
  | zero => exact stop trivial
  | succ rounds ih =>
      -- a round starts where the last has ended, with the same two closures
      refine bind (hrec _ m ⟨hcondition, hnone, hf⟩) ?_
      intro v m₁ g₁ hv
      cases v with
      | bool b =>
          show Confines paired r (if b = goOn then _ else _) m₁ _
          split
          · have hf₁ := hf.mono g₁
            refine bind (hrec _ m₁ ⟨hbody.mono g₁, hnone, hf₁⟩) fun _ m₂ g₂ _ => ?_
            exact ih ((hcondition.mono g₁).mono g₂) ((hbody.mono g₁).mono g₂) (hf₁.mono g₂)
          · exact pure Realm.admits_nil
      | _ =>
          -- any other value is a fault that shows it, and the realm admits it
          refine reading fun w => asking (fun n same => same.inspect w hv) (stop ?_)
          rintro _ ⟨⟩
          exact hv

/-- One case for each action. -/
theorem perform (settings : Settings) (hf : r.Has m.heap (.frame f)) {action : Action}
    (haction : r.Permits m.heap action) :
    Confines paired r (Eval.perform settings rec f action) m r.Answers := by
  cases action with
  | answer v => exact pure haction
  | tally n =>
      show Confines paired r (if n ≤ settings.room then _ else _) m _
      split
      · exact pure (Realm.admits_of_none rfl)
      · exact stop trivial
  | newText s => exact makeText s
  | newArray xs =>
      refine bind (make (.newArray xs) fun c hc => ?_) ?_
      · obtain ⟨v, hv, hc⟩ := hc
        exact haction v hv c hc
      · rintro _ m₁ _ ⟨rfl, harray⟩
        refine pure ?_
        rintro _ ⟨⟩
        exact harray
  | newObject cls size =>
      refine get (fun n same => ?_) (bind (make (.newObject _) fun c hc => ?_) ?_)
      · simp only [same.registry]
      · -- all that a new object has is nil
        obtain ⟨v, hv | ⟨xs, hxs, hv⟩, hc⟩ := hc
        · rw [(Array.mem_replicate.mp hv).2] at hc
          cases hc
        · split at hxs <;> cases hxs
          rw [(Array.mem_replicate.mp hv).2] at hc
          cases hc
      · rintro _ m₁ _ ⟨rfl, hobject⟩
        refine pure ?_
        rintro _ ⟨⟩
        exact hobject
  | setElement a i v =>
      exact bind (changeHeap (.setElement a i v) haction.1 haction.2) fun _ m₁ g _ =>
        pure (haction.2.mono g)
  | setIndexed o i v =>
      exact bind (changeHeap (.setIndexed o i v) haction.1 haction.2) fun _ m₁ g _ =>
        pure (haction.2.mono g)
  | setSlot o i v =>
      exact bind (changeHeap (.setSlot o i v) haction.1 haction.2) fun _ m₁ g _ =>
        pure (haction.2.mono g)
  | call c args => exact hrec _ m ⟨haction.1, haction.2, hf⟩
  | loop condition body goOn => exact alternate hrec haction.1 haction.2 hf goOn _
  | print v =>
      refine bind (printed haction) fun s m₁ _ _ => asking (fun n same => same.printOrigin v) ?_
      split
      · exact makeText s
      · exact pure (Realm.admits_of_none rfl)
  | signal v =>
      simp only [Eval.perform]
      split
      · exact fail rfl
      · exact bind (printed haction) fun _ _ _ _ => fail rfl
  | refuse fault => exact fail haction

theorem runMethodBody (hf : r.Has m.heap (.frame f)) (method : Method) {receiver : Value}
    (hreceiver : r.Admits m.heap receiver) :
    Confines paired r (Eval.runMethodBody rec f method receiver) m r.Answers :=
  bind (runBody hrec hf _ _) fun _ _ g _ => pure (hreceiver.mono g)

theorem runMethod (settings : Settings) (hf : r.Has m.heap (.frame f)) (method : Method)
    {receiver : Value} (hreceiver : r.Admits m.heap receiver) :
    Confines paired r (Eval.runMethod settings rec f method receiver) m r.Answers := by
  unfold Eval.runMethod
  split
  · refine reading fun w => ?_
    -- the arguments are variables of the frame, which is in the realm
    have hargs : ∀ v ∈ argumentsOf m f method, r.Admits m.heap v := by
      intro v hv
      obtain ⟨name, -, rfl⟩ := List.mem_map.mp hv
      split
      · rename_i key _
        cases hfind : (m.heap.frame f).slots.find? key with
        | none => exact Realm.admits_nil
        | some v => exact w.ofFrame hf (.inr ⟨key, hfind⟩)
      · exact Realm.admits_nil
    refine get (fun n same => ?_) ?_
    · simp only [same.argumentsOf hf, same.decide w settings hreceiver hargs]
    refine bind (Q := fun choice m' => m' = m ∧
      ∀ action, choice = .ok action → r.Permits m.heap action) (ofMisuse ?_ ?_) ?_
    · refine fun choice hchoice => ⟨rfl, fun action haction => ?_⟩
      obtain ⟨p, hp⟩ := Primitive.of_decide (haction ▸ hchoice)
      exact Primitive.permits_of_attempt w hreceiver hargs hp
    · exact fun e he => Fault.isMisuse_of_decide he
    · rintro choice _ - ⟨rfl, hpermits⟩
      split
      · exact perform hrec settings hf (hpermits _ rfl)
      · refine bind (note (fun e he => Fault.isMisuse_of_failureLine he) fun n same e => ?_)
          fun _ m₁ g _ => ?_
        · rw [same.failureLine]
        · exact runMethodBody hrec (hf.mono g) method (hreceiver.mono g)
  · exact runMethodBody hrec hf method hreceiver

theorem activate (settings : Settings) (method : Method) {receiver : Value}
    (hreceiver : r.Admits m.heap receiver) {args : List Value}
    (hargs : ∀ v ∈ args, r.Admits m.heap v) (callers : List FrameId) :
    Confines paired r (Eval.activate settings rec method receiver args callers) m r.Answers := by
  unfold Eval.activate
  split
  · refine get (fun n same => ?_) (bind (Q := fun _ _ => True)
      (ofMisuse (fun _ _ => trivial) fun e he => ?_) ?_)
    · simp only [same.methodWord]
    · exact Fault.isMisuse_of_methodWord he
    · exact fun _ _ _ _ => fail rfl
  · refine bind (enter method hreceiver hargs callers) ?_
    intro f m₁ g hf
    exact closing hf (runMethod hrec settings hf method (hreceiver.mono g))

/-- The frame of a block continues the frame of the closure. The frame that asks for it need
not belong to the realm, unless the evaluation is paired. -/
theorem invoke {c : ClosureId} (hclosure : r.Has m.heap (.closure c)) {args : List Value}
    (hargs : ∀ v ∈ args, r.Admits m.heap v) (hf : paired → r.Has m.heap (.frame f)) :
    Confines paired r (Eval.invoke rec c args f) m r.Answers := by
  unfold Eval.invoke
  refine reading fun w => asking (fun n same => same.closure hclosure) ?_
  have hdefining : r.Has m.heap (.frame (m.heap.closure c).frame) := w.closed _ _ hclosure rfl
  split
  · exact fail rfl
  · refine askingIf (fun hp n same => ?_) (asking (fun n same => same.frame hdefining)
      (bind (make (.newFrame _) fun c hc => ?_) ?_))
    · rw [same.frame (hf hp)]
    · rcases hc with ⟨v, rfl | ⟨key, hkey⟩, hc⟩ | ⟨g, hg, rfl⟩
      · exact w.receiver hdefining c hc
      · cases hkey
      · exact w.chain hdefining hg
    · rintro _ m₁ g₁ ⟨rfl, hframe⟩
      refine bind (declareAll hframe _ fun v hv => (hargs v hv).mono g₁) fun _ m₂ g₂ _ => ?_
      exact runBody hrec (hframe.mono g₂) _ _

/-- One case for each task. -/
theorem step (settings : Settings) : Tasks paired r (Eval.step settings rec) := by
  intro task m hallows
  cases task with
  | evaluate node frame => exact evaluateNode hrec hallows node
  | activate method receiver args callers =>
      exact activate hrec settings method hallows.1 hallows.2 callers
  | invoke closure args caller =>
      exact invoke hrec hallows.1 hallows.2.1 fun _ => hallows.2.2

omit hrec in
/-- Whatever depth tasks may nest to, they keep to the realm. -/
theorem run (settings : Settings) (depth : Nat) : Tasks paired r (Eval.run settings depth) := by
  induction depth with
  | zero => exact fun _ _ _ => stop trivial
  | succ depth ih => exact step ih settings

end Confines

/-- An invocation keeps to the realm, whichever frame asks for it. -/
theorem stays_invoke (w : m.Confined r) {c : ClosureId} (hclosure : r.Has m.heap (.closure c))
    {args : List Value} (hargs : ∀ v ∈ args, r.Admits m.heap v) (settings : Settings)
    (depth : Nat) (caller : FrameId) :
    Stays r m r.Answers (run settings depth (.invoke c args caller) m) := by
  cases depth with
  | zero => exact ⟨w, fun _ => id, trivial⟩
  | succ depth =>
      have hconfines : Confines False r (invoke (run settings depth) c args caller) m r.Answers :=
        .invoke (.run settings depth) hclosure hargs False.elim
      exact (hconfines w).1

end Eval

end Smalltalk
