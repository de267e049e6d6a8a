import Smalltalk.Proofs.Abreast
import Smalltalk.Proofs.Going
import Smalltalk.Proofs.Lexical

/-!
# `Smalltalk.Proofs.Transparent`: wrapping an expression changes nothing

`wrapping_is_transparent` is the result: sending `value` to a block around an
expression ends as the expression itself does, with the same value, the same fault or
an unwinding to the same home, in twin memories (`Wrap.Twins`). And twin memories stay
twins, whatever is asked of both from then on: tasks, queries and commands, so also
whatever the closures that the expression has made are used for.

What the wrapping needs of the system is that blocks understand `value` as they do in
the kernel (`Memory.RunsBlocks`), and that nothing in the memory refers to a closure or
frame that is not there (`Memory.Closed`); memories of sessions are such.
-/

set_option autoImplicit false

namespace Smalltalk

/-! ### Memories without loose ends -/

/-- Nothing in the memory refers to a closure or a frame that is not there. -/
structure Memory.Closed (m : Memory) : Prop where
  stored : ∀ c, m.heap.Stores (.closure c) → c < m.heap.closures.size
  bound : ∀ key c, m.globals.find? key = some (.closure c) → c < m.heap.closures.size
  closure : ∀ c < m.heap.closures.size, (m.heap.closure c).frame < m.heap.frames.size
  outer : ∀ f, ∀ g ∈ (m.heap.frame f).outer, g < m.heap.frames.size

/-- The memories of sessions are closed, between queries and in the middle of them. -/
theorem Memory.WellFormed.closed {R : Regime} {m : Memory} (h : m.WellFormed R) : m.Closed where
  stored c hc := (h.stored _ hc).2
  bound key c hc := (h.bound key _ hc).2
  closure c hc := (h.closure c hc).1
  outer f g hg := by
    have hframed : m.heap.Framed := ⟨h.nested, fun c hc => (h.closure c hc).1⟩
    rcases Nat.lt_or_ge f m.heap.frames.size with hf | hf
    · have hle := ((hframed.rooted f hf).one g (List.mem_cons_of_mem _ hg)).1
      exact Nat.lt_of_le_of_lt hle hf
    · -- a frame that is not there has nothing around it
      rw [m.heap.frame_of_le hf] at hg
      cases hg

namespace Wrap

/-- The wrap of an expression that is evaluated in a frame of a memory. -/
def around (m : Memory) (f : FrameId) (hf : f < m.heap.frames.size) : Wrap where
  frames := m.heap.frames.size
  closures := m.heap.closures.size
  frame := f
  inside := hf

section
variable {m : Memory} {f : FrameId} {hf : f < m.heap.frames.size}

theorem toFrame_around {g : FrameId} (hg : g < m.heap.frames.size) :
    (around m f hf).toFrame g = g :=
  if_pos hg

theorem value_around {v : Value} (hv : ∀ c, v = .closure c → c < m.heap.closures.size) :
    (around m f hf).value v = v := by
  cases v with
  | closure c => exact congrArg Value.closure (if_pos (hv c rfl))
  | _ => rfl

theorem map_around {xs : Array Value}
    (hxs : ∀ c, .closure c ∈ xs → c < m.heap.closures.size) :
    xs.map (around m f hf).value = xs := by
  refine (Array.map_congr_left fun v hv => ?_).trans (Array.map_id _)
  exact value_around fun c hc => hxs c (hc ▸ hv)

theorem same_around {d : Dictionary Value}
    (hd : ∀ key c, d.find? key = some (.closure c) → c < m.heap.closures.size) :
    (around m f hf).Same d d := by
  refine ⟨rfl, fun key => ?_⟩
  cases hfind : d.find? key with
  | none => rfl
  | some v => exact congrArg some (value_around fun c hc => hd key c (hc ▸ hfind)).symm

theorem object_around (closed : m.Closed) (o : ObjectId) :
    (around m f hf).object (m.heap.object o) = m.heap.object o := by
  have helements : (m.heap.object o).elements.map
      (fun xs => xs.map (around m f hf).value) = (m.heap.object o).elements := by
    cases helements : (m.heap.object o).elements with
    | none => rfl
    | some xs =>
        exact congrArg some (map_around fun c hc =>
          closed.stored c (.of_object (.inr ⟨xs, helements, hc⟩)))
  unfold Wrap.object
  rw [map_around fun c hc => closed.stored c (.of_object (.inl hc)), helements]

theorem receiver_around (closed : m.Closed) (g : FrameId) :
    (around m f hf).value (m.heap.frame g).receiver = (m.heap.frame g).receiver :=
  value_around fun c hc => closed.stored c (.of_frame (.inl hc.symm))

theorem outer_around (closed : m.Closed) (g : FrameId) :
    (m.heap.frame g).outer.map (around m f hf).toFrame = (m.heap.frame g).outer :=
  (List.map_congr_left fun k hk => toFrame_around (closed.outer g k hk)).trans (List.map_id _)

/-- A closed memory is the twin of itself with a block, the frame of an activation and that
of the block added. -/
theorem around_twins (closed : m.Closed) (x : Closure) (call : Frame) (callers : List FrameId)
    {m' : Memory} (hheap : m'.heap = (((m.heap.newClosure x).1.newFrame call).1.newFrame
      ((m.heap.frame f).block f callers)).1)
    (hregistry : m'.registry = m.registry) (hglobals : m'.globals = m.globals)
    (hrecording : m'.journal.recording = m.journal.recording) :
    (around m f hf).Twins m m' where
  registry := hregistry
  globals := by
    rw [hglobals]
    exact same_around closed.bound
  recording := hrecording
  heap := by
    have hclosure : ∀ c, m'.heap.closure c
        = if c = m.heap.closures.size then x else m.heap.closure c := by
      intro c
      rw [hheap]
      exact Heap.closure_newClosure ..
    have hframe : ∀ g, m'.heap.frame g
        = if g = m.heap.frames.size + 1 then (m.heap.frame f).block f callers
          else if g = m.heap.frames.size then call else m.heap.frame g := by
      intro g
      rw [hheap, Heap.frame_newFrame, Heap.frame_newFrame, Heap.size_newFrame]
      rfl
    have hextra : m'.heap.frame (around m f hf).extra = (m.heap.frame f).block f callers := by
      rw [hframe]
      exact if_pos rfl
    exact {
      texts := by rw [hheap]; rfl
      arrays := by rw [hheap]; rfl
      array := fun a => by
        rw [map_around fun c hc => closed.stored c (.of_array hc), hheap]
        rfl
      objects := by rw [hheap]; rfl
      object := fun o => by
        rw [object_around closed, hheap]
        rfl
      olderClosures := Nat.le_refl _
      closures := by rw [hheap]; exact Heap.size_newClosure ..
      closure := fun c => by
        -- a closure that was there keeps its number, and there is none behind the new one
        rcases Nat.lt_or_ge c m.heap.closures.size with hc | hc
        · have hold : (around m f hf).toClosure c = c := if_pos hc
          rw [hold, hclosure, if_neg (Nat.ne_of_lt hc)]
          exact ⟨rfl, rfl, rfl, .inl (toFrame_around (closed.closure c hc)).symm⟩
        · rw [toClosure_of_le _ hc, hclosure, if_neg (Nat.ne_of_gt (Nat.lt_succ_of_le hc)),
            m.heap.closure_of_le hc, m.heap.closure_of_le (Nat.le_succ_of_le hc)]
          exact ⟨rfl, rfl, rfl, .inl (toFrame_zero _).symm⟩
      olderFrames := Nat.le_refl _
      frames := by rw [hheap, Heap.size_newFrame, Heap.size_newFrame]; rfl
      frame := fun g => by
        rcases Nat.lt_or_ge g m.heap.frames.size with hg | hg
        · have hthreads := Threads.map (w := around m f hf) (m.heap.frame g).outer
          rw [outer_around closed] at hthreads
          rw [toFrame_around hg, hframe, if_neg (Nat.ne_of_lt (Nat.lt_succ_of_lt hg)),
            if_neg (Nat.ne_of_lt hg)]
          exact ⟨(receiver_around closed g).symm, rfl, hthreads, rfl,
            same_around fun key c hc => closed.stored c (.of_frame (.inr ⟨key, hc⟩)), rfl⟩
        · rw [toFrame_of_le _ hg, hframe, if_neg (by exact Nat.ne_of_gt (by omega)),
            if_neg (by exact Nat.ne_of_gt (by omega)), m.heap.frame_of_le hg,
            m.heap.frame_of_le (Nat.le_add_right_of_le hg)]
          exact ⟨rfl, rfl, .nil, rfl, .empty, rfl⟩
      receiver := by rw [hextra]; exact (receiver_around closed f).symm
      method := by rw [hextra]; rfl
      outer := by
        rw [hextra]
        show _ = (around m f hf).toFrame f :: (m.heap.frame f).outer.map (around m f hf).toFrame
        rw [outer_around closed, toFrame_around hf]
        rfl
      empty := by rw [hextra]; rfl }

end

end Wrap

/-! ### What the wrapping runs through -/

/-- The expression in a block that is asked for its value. -/
def Node.wrapped (e : Node) : Node := .send (.block [] [] [e]) (.str "value") []

/-- Blocks understand `value` as they do in the kernel: by a method without parameters that
is tagged with the primitive that calls the block. -/
structure Memory.RunsBlocks (settings : Settings) (m : Memory) : Prop where
  primitive : settings.primitives.find? (.number 201) = some (.call 0)
  method : ∃ id method, m.registry.find? "BlockClosure" = some id ∧
    m.registry.lookup? (.text "value") ⟨id, false⟩ = some method ∧
    method.selector = .str "value" ∧ method.params = [] ∧ method.primitive = .int 201

namespace Eval

variable {m : Memory}

/-- Invoking a block of one expression evaluates the expression in the frame of the block. -/
theorem invoke_single {c : ClosureId} {e : Node} {f : FrameId}
    (hclosure : m.heap.closure c = ⟨[], [], [e], f⟩) (rec : Task → Eval Value)
    (caller : FrameId) : ∃ callers, Eval.invoke rec c [] caller m
      = rec (.evaluate e m.heap.frames.size)
          { m with heap := (m.heap.newFrame ((m.heap.frame f).block f callers)).1 } := by
  refine ⟨caller :: (m.heap.frame caller).callers, ?_⟩
  unfold Eval.invoke
  rw [bind_of_ok (Eval.ask_of_eq hclosure)]
  show (rec (.evaluate e m.heap.frames.size) >>= Pure.pure) _ = _
  rw [bind_pure]
  rfl

/-- An activation of `value` on a block of one expression evaluates the expression. -/
theorem activate_value {settings : Settings} {method : Method} {c : ClosureId} {e : Node}
    {f : FrameId} (hprimitive : settings.primitives.find? (.number 201) = some (.call 0))
    (hparams : method.params = []) (htag : method.primitive = .int 201)
    (hclosure : m.heap.closure c = ⟨[], [], [e], f⟩) (hf : f < m.heap.frames.size)
    (depth : Nat) (callers : List FrameId) :
    ∃ call callers' m₀, m₀.registry = m.registry ∧ m₀.globals = m.globals ∧
      m₀.journal = m.journal ∧ m₀.heap = ((m.heap.newFrame call).1.newFrame
        ((m.heap.frame f).block f callers')).1 ∧
      run settings (depth + 2) (.activate method (.closure c) [] callers) m
        = close m.heap.frames.size
            (run settings depth (.evaluate e (m.heap.frames.size + 1)) m₀) := by
  let call : Frame := { receiver := .closure c, method := some method, callers }
  let m₁ : Memory := { m with heap := (m.heap.newFrame call).1 }
  have hclosure₁ : m₁.heap.closure c = ⟨[], [], [e], f⟩ := hclosure
  obtain ⟨callers', hinvoke⟩ := invoke_single hclosure₁ (run settings depth) m.heap.frames.size
  have hframe : m₁.heap.frame f = m.heap.frame f := by
    rw [Heap.frame_newFrame, if_neg (Nat.ne_of_lt hf)]
  rw [hframe] at hinvoke
  let block : Frame := (m.heap.frame f).block f callers'
  refine ⟨call, callers', { m₁ with heap := (m₁.heap.newFrame block).1 }, rfl, rfl, rfl, rfl, ?_⟩
  have henter : enter method (.closure c) [] callers m = .ok m.heap.frames.size m₁ := by
    unfold enter
    rw [hparams]
    rfl
  have harity : ([] : List Value).length = method.arity := by
    unfold Method.arity
    rw [hparams]
    rfl
  have hargs : argumentsOf m₁ m.heap.frames.size method = [] := by
    unfold argumentsOf
    rw [hparams]
    rfl
  -- the primitive hands on to the closure, and nothing has to be seen on the way
  have hruns : (Planned.runMethod settings m.heap.frames.size method (.closure c)).Goes
      (run settings (depth + 1)) (fun _ _ => []) m₁
      (run settings (depth + 1) (.invoke c [] m.heap.frames.size) m₁) [] :=
    .runMethod_primitive htag hprimitive hargs rfl (.call _)
  refine (Staged.Goes.activate harity henter hruns).ends.trans ?_
  show close _ (invoke (run settings depth) c [] m.heap.frames.size m₁) = _
  rw [hinvoke, Heap.size_newFrame]

/-- Sending `value` to the block makes the block, the frame of the activation and that of
the block, evaluates the expression, and ends the activation. -/
theorem run_wrapped {settings : Settings} {f : FrameId} (hf : f < m.heap.frames.size)
    (hvalue : m.RunsBlocks settings) (e : Node) (depth : Nat) :
    ∃ call callers m₀, m₀.registry = m.registry ∧ m₀.globals = m.globals ∧
      m₀.journal.recording = m.journal.recording ∧
      m₀.heap = (((m.heap.newClosure ⟨[], [], [e], f⟩).1.newFrame call).1.newFrame
        ((m.heap.frame f).block f callers)).1 ∧
      run settings (depth + 3) (.evaluate e.wrapped f) m
        = close m.heap.frames.size
            (run settings depth (.evaluate e (m.heap.frames.size + 1)) m₀) := by
  obtain ⟨hprimitive, id, method, hclass, hlookup, hselector, hparams, htag⟩ := hvalue
  let c := m.heap.closures.size
  let m₁ : Memory := { m with heap := (m.heap.newClosure ⟨[], [], [e], f⟩).1 }
  have hclassOf : m₁.classOf? (.closure c) = some ⟨id, false⟩ := by
    show (m.registry.find? "BlockClosure").map _ = _
    rw [hclass]
    rfl
  have hsuper : (Node.block [] [] [e]).isSuper = false := rfl
  have hblock : (Planned.call (.evaluate (.block [] [] [e]) f)).Goes (run settings (depth + 2))
      (fun _ _ => []) m (.ok (.closure c) m₁) [] := .call _
  obtain ⟨m₂, hnoted, hsend⟩ :=
    Planned.Goes.sendMessage f [] [] hsuper hclassOf hlookup hselector
  have hgoes := hsend _ _ m m₁ [] [] [] _ hblock .mapM_nil (.call _)
  -- the journal apart, the send goes on in the memory with the block
  have hclosure : m₂.heap.closure c = ⟨[], [], [e], f⟩ := by
    rw [hnoted.heap]
    exact (Heap.closure_newClosure ..).trans (if_pos rfl)
  have hframe : m₂.heap.frame f = m.heap.frame f := by
    rw [hnoted.heap]
    rfl
  have hsize : m₂.heap.frames.size = m.heap.frames.size := by
    rw [hnoted.heap]
    rfl
  obtain ⟨call, callers, m₀, hregistry₀, hglobals₀, hjournal₀, hheap₀, hactivate⟩ :=
    activate_value hprimitive hparams htag hclosure (hsize ▸ hf) depth
      (f :: (m₂.heap.frame f).callers)
  rw [hframe, hnoted.heap] at hheap₀
  rw [hsize] at hactivate
  exact ⟨call, callers, m₀, hregistry₀.trans hnoted.registry, hglobals₀.trans hnoted.globals,
    (congrArg Journal.recording hjournal₀).trans hnoted.recording, hheap₀,
    hgoes.ends.trans hactivate⟩

end Eval

/-! ### Queries and commands -/

namespace Wrap

variable {w : Wrap}

/-- What a query is in the memory with the block. -/
def query (w : Wrap) : Query → Query
  | .send receiver selector args => .send (w.value receiver) selector (args.map w.value)
  | .execute method receiver args => .execute method (w.value receiver) (args.map w.value)
  | .executeNode node receiver args => .executeNode node (w.value receiver) (args.map w.value)
  | .doit code receiver => .doit code (w.value receiver)

/-- What a command is in the memory with the block. -/
def command (w : Wrap) : Command → Command
  | .setGlobal name v => .setGlobal name (w.value v)
  | .makeArray elements => .makeArray (elements.map w.value)
  | .evaluate settings q => .evaluate settings (w.query q)
  | c => c

namespace Runs

open Eval

theorem prepare (q : Query) : w.Runs (fun task task' => w.Pairs task task' ∧
    Query.closes task' = (Query.closes task).map w.toFrame) q.prepare (w.query q).prepare := by
  have hactivation : ∀ (method : Method) (receiver : Value) (args : List Value),
      w.Runs (fun task task' => w.Pairs task task' ∧
        Query.closes task' = (Query.closes task).map w.toFrame)
        (pure (.activate method receiver args []))
        (pure (.activate method (w.value receiver) (args.map w.value) [])) :=
    fun method receiver args => .pure ⟨.activate method receiver args [] [], rfl⟩
  cases q with
  | send receiver selector args =>
      refine .bind (classOf receiver) ?_
      rintro b _ rfl
      refine .bind (methodFrom selector (some b)) ?_
      rintro found _ rfl
      cases found with
      | none => exact notUnderstood receiver selector
      | some method => exact hactivation method receiver args
  | execute method receiver args => exact hactivation method receiver args
  | executeNode node receiver args =>
      cases node with
      | method selector params temps statements primitive =>
          refine .bind (classOf receiver) ?_
          rintro owner _ rfl
          exact hactivation _ receiver args
      | _ => exact fail rfl
  | doit code receiver =>
      -- both make a frame for the code, and the new frames correspond
      refine .bind (P := fun f f' => f' = w.toFrame f) ?_ ?_
      · refine .bind (classOf receiver) ?_
        rintro owner _ rfl
        refine make fun k k' t => ?_
        exact ⟨t.newFrame ⟨rfl, rfl, .nil, rfl, .empty, rfl⟩, t.toFrame_size.symm⟩
      · rintro f _ rfl
        exact .pure ⟨.evaluate code f, rfl⟩

theorem naming {activity activity' : Memory → Except Fault String} {act act' : Eval Value}
    (hact : w.Runs w.Answers act act')
    (hactivity : ∀ m m', w.Twins m m' → activity' m' = activity m)
    (hfault : ∀ m f, activity m = .error f → w.fault f = f) :
    w.Runs w.Answers (Eval.naming activity act) (Eval.naming activity' act') := by
  intro m m' t
  have hsame := hact m m' t
  unfold Eval.naming
  generalize act m = r, act' m' = r' at hsame
  cases hsame with
  | ok h t₁ => exact .ok h t₁
  | @error s _ m₁ m₁' h t₁ =>
      subst h
      cases s with
      | tooDeep =>
          simp only [Wrap.stop, hactivity m₁ m₁' t₁]
          cases hwords : activity m₁ with
          | ok words => exact .error rfl t₁
          | error f => exact .error (congrArg Stop.fault (hfault m₁ f hwords).symm) t₁
      | _ => exact .error rfl t₁

/-- A query ends alike in twin memories. -/
theorem query (settings : Settings) (q : Query) :
    w.Runs w.Answers (q.perform settings) ((w.query q).perform settings) := by
  rw [Query.perform_eq_performBy, Query.perform_eq_performBy]
  refine .bind (prepare q) ?_
  rintro task task' ⟨hpairs, hcloses⟩
  have hrun := AllRun.run (w := w) settings settings.depth task task' hpairs
  cases hpairs with
  | evaluate node f => exact naming (closing f hrun) (fun _ _ _ => rfl) fun _ _ h => nomatch h
  | evaluateExtra node _ =>
      -- a query evaluates in a frame of its own
      have hextra : w.extra = w.toFrame w.frame := List.cons.inj hcloses |>.1
      exact absurd hextra.symm (w.toFrame_ne_extra _)
  | activate method receiver args callers callers' =>
      refine naming hrun (fun m m' t => ?_) fun m g hg => ?_
      · show (m'.methodWord method).map _ = (m.methodWord method).map _
        rw [Memory.methodWord_congr t.registry]
      · exact fault_of_isMisuse (Fault.isMisuse_of_map (fun _ => Fault.isMisuse_of_methodWord) hg)
  | invoke c args caller caller' =>
      exact naming hrun (fun _ _ _ => rfl) fun _ _ h => nomatch h

end Runs

/-- From twin memories, a change ends alike: it looks at neither closures nor frames. -/
abbrev Changes (w : Wrap) {α : Type} (act : Change α) : Prop := w.Abreast Eq Eq act act

namespace Changes

variable {α : Type}

theorem ofExcept (e : Except Fault α) : w.Changes (Change.ofExcept e) := by
  cases e with
  | ok a => exact .pure rfl
  | error f => exact .throw rfl

theorem bind {β : Type} {x : Change α} {f : α → Change β} (hx : w.Changes x)
    (hf : ∀ a, w.Changes (f a)) : w.Changes (x >>= f) := by
  refine Abreast.bind hx ?_
  rintro a _ rfl
  exact hf a

/-- What is done depends on the classes at most. -/
theorem get {k : Memory → Change α}
    (hk : ∀ m m', m'.registry = m.registry → k m' = k m) (h : ∀ m, w.Changes (k m)) :
    w.Changes (MonadState.get >>= k) :=
  Abreast.get fun m m' t => hk m m' t.registry ▸ h m

theorem note (line : String) : w.Changes (Change.note line) :=
  fun _ _ t => .ok rfl (t.note line line)

theorem place (node : Node) : w.Changes (Change.place node) := by
  intro m m' t
  have heap : w.Heaps (m.place node).1.heap (m'.place node).1.heap :=
    { t.heap with texts := congrArg (fun n => (node.withSites n).2) t.heap.texts }
  have hnode : (m.place node).2 = (m'.place node).2 :=
    congrArg (fun n => (node.withSites n).1) t.heap.texts.symm
  exact .ok hnode { t with heap }

theorem changeRegistry (f : Registry → Registry) : w.Changes (Change.changeRegistry f) :=
  fun _ _ t => .ok rfl { t with registry := congrArg f t.registry }

theorem define (name superclass instanceVariables indexable : Json) :
    w.Changes (Change.define name superclass instanceVariables indexable) := by
  unfold Change.define
  refine get (fun m m' h => by rw [h]) fun m => ?_
  refine bind (ofExcept _) fun parent => bind (ofExcept _) fun declared => ?_
  cases name with
  | str s =>
      intro m m' t
      have hsize : m'.registry.classes.size = m.registry.classes.size := by rw [t.registry]
      refine .ok hsize.symm { t with registry := ?_, globals := ?_ }
      · rw [t.registry]
      · rw [t.registry]
        exact t.globals.put (.text s) (.str s) (.behavior ⟨m.registry.classes.size, false⟩)
  | _ => exact .throw rfl

theorem install (method : Method) (protocol : Json) : w.Changes (Change.install method protocol) :=
  bind (ofExcept _) fun _ => bind (changeRegistry _) fun _ => bind (ofExcept _) fun _ =>
    changeRegistry _

theorem compile (owner : Behavior) (node : Node) (protocol : Json) :
    w.Changes (Change.compile owner node protocol) := by
  unfold Change.compile
  split
  · exact bind (install _ _) fun _ => .pure rfl
  · exact .throw rfl

theorem loadMethods (className : String) (owner : Behavior) (fields : List (String × Json)) :
    w.Changes (Image.loadMethods className owner fields) := by
  induction fields with
  | nil => exact .pure rfl
  | cons field rest ih =>
      obtain ⟨selector, json⟩ := field
      unfold Image.loadMethods
      split
      · exact .throw rfl
      · simp only
        split
        · exact .throw rfl
        · split
          · split
            · exact bind (place _) fun _ => bind (compile _ _ _) fun _ => ih
            · exact .throw rfl
          · exact .throw rfl

theorem loadSide (className : String) (owner : Behavior) (methods : Option Json) :
    w.Changes (Image.loadSide className owner methods) := by
  unfold Image.loadSide
  split
  · exact .pure rfl
  · exact loadMethods className owner _
  · exact .throw rfl

theorem classFor (name : String) (fields : List (String × Json)) :
    w.Changes (Image.classFor name fields) := by
  unfold Image.classFor
  refine get (fun m m' h => by rw [h]) fun m => ?_
  split
  · split
    · exact .throw rfl
    · exact bind (note _) fun _ => .pure rfl
  · exact bind (ofExcept _) fun _ => bind (define _ _ _ _) fun _ => bind (note _) fun _ => .pure rfl

theorem loadDefinition (definition : Json) : w.Changes (Image.loadDefinition definition) := by
  unfold Image.loadDefinition
  split
  · split
    · exact bind (classFor _ _) fun _ => bind (loadSide _ _ _) fun _ =>
        bind (loadSide _ _ _) fun _ => .pure rfl
    · exact .throw rfl
  · exact .throw rfl

theorem load (image : Json) : w.Changes (Image.load image) := by
  unfold Image.load
  split
  · rename_i definitions
    induction definitions with
    | nil => exact .pure rfl
    | cons d rest ih =>
        rw [List.mapM_cons]
        exact bind (loadDefinition d) fun _ => bind ih fun _ => .pure rfl
  · exact .throw rfl

end Changes

/-- The end of the activation of `value` changes no outcome: nothing unwinds to it. -/
theorem Matches.close_call {r r' : Outcome Value}
    (h : w.Matches (fun s s' => s' = w.stop s) w.Answers r r') :
    w.Matches (fun s s' => s' = w.stop s) w.Answers r (Eval.close w.call r') := by
  have hretire : ∀ {m m' : Memory}, w.Twins m m' → w.Twins m (m'.retire w.call) :=
    fun t => { t with heap := t.heap.retire_call }
  cases h with
  | ok h t => exact .ok h (hretire t)
  | @error s _ _ _ h t =>
      subst h
      cases s with
      | unwind v home =>
          show w.Matches _ _ _ (if w.toFrame home = w.call then _ else _)
          rw [if_neg (w.toFrame_ne_call home)]
          exact .error rfl (hretire t)
      | _ => exact .error rfl (hretire t)

theorem Matches.left {ε α β : Type} {fails : ε → ε → Prop} {P : α → β → Prop}
    {r : EStateM.Result ε Memory α} {r' : EStateM.Result ε Memory β}
    (h : w.Matches fails P r r') : w.Twins (left r) (left r') := by
  cases h with
  | ok _ t => exact t
  | error _ t => exact t

/-- Twin memories stay twins, whatever is asked of both. -/
theorem Twins.command {m m' : Memory} (t : w.Twins m m') (c : Command) :
    w.Twins (c.run m) ((w.command c).run m') := by
  cases c with
  | define name superclass instanceVariables indexable =>
      exact (Changes.define name superclass instanceVariables indexable m m' t).left
  | compile owner code protocol => exact (Changes.compile owner code protocol m m' t).left
  | load image => exact (Changes.load image m m' t).left
  | setGlobal name v => exact (Runs.assignGlobal name v m m' t).left
  | place code => exact (Changes.place code m m' t).left
  | makeText s => exact (Runs.makeText s m m' t).left
  | makeArray elements =>
      have hmake : w.Runs (fun a a' => a' = id a) (Eval.make fun h => h.newArray elements)
          (Eval.make fun h => h.newArray (elements.map w.value)) :=
        Runs.make fun k k' u => ⟨u.newArray elements, u.arrays⟩
      exact (hmake m m' t).left
  | evaluate settings q => exact (Runs.query settings q m m' t).left

end Wrap

/-! ### The result -/

/-- Sending `value` to a block around an expression ends as the expression does: with the
same value, the same fault or an unwinding to the same home, or it too nests too deeply or
is unfinished. The memories are twins then: they have the same classes, texts and globals,
and the same arrays, objects, closures and frames, but that those made from now on have
other numbers, and that the chains of closures that the expression has made lead through
the frame of the block, which has no variables.

And twin memories stay twins, and all that is done in both ends alike: tasks, such as the
rest of the code around the expression or a closure that is called, queries and commands. -/
theorem wrapping_is_transparent {settings : Settings} {m : Memory} (closed : m.Closed)
    (hvalue : m.RunsBlocks settings) {f : FrameId} (hf : f < m.heap.frames.size) {e : Node}
    (hplace : e.inPlace = true) :
    (∀ depth, (Wrap.around m f hf).Matches (fun s s' => s' = (Wrap.around m f hf).stop s)
      (Wrap.around m f hf).Answers
      (Eval.run settings depth (.evaluate e f) m)
      (Eval.run settings (depth + 3) (.evaluate e.wrapped f) m)) ∧
    ∀ m₁ m₁', (Wrap.around m f hf).Twins m₁ m₁' →
      (∀ settings depth task task', (Wrap.around m f hf).Pairs task task' →
        (Wrap.around m f hf).Matches (fun s s' => s' = (Wrap.around m f hf).stop s)
          (Wrap.around m f hf).Answers (Eval.run settings depth task m₁)
          (Eval.run settings depth task' m₁')) ∧
      (∀ settings q, (Wrap.around m f hf).Matches
        (fun s s' => s' = (Wrap.around m f hf).stop s) (Wrap.around m f hf).Answers
        (Query.perform settings q m₁)
        (((Wrap.around m f hf).query q).perform settings m₁')) ∧
      ∀ c : Command, (Wrap.around m f hf).Twins (c.run m₁)
        (((Wrap.around m f hf).command c).run m₁') := by
  let w := Wrap.around m f hf
  refine ⟨fun depth => ?_, fun m₁ m₁' t => ⟨fun settings depth task task' h => ?_,
    fun settings q => ?_, fun c => t.command c⟩⟩
  · obtain ⟨call, callers, m₀, hregistry, hglobals, hrecording, hheap, hrun⟩ :=
      Eval.run_wrapped hf hvalue e depth
    have t : w.Twins m m₀ :=
      Wrap.around_twins closed _ call callers hheap hregistry hglobals hrecording
    have hsame := Wrap.AllRun.run settings depth _ _ (.evaluateExtra e hplace) m m₀ t
    rw [hrun]
    exact hsame.close_call
  · exact Wrap.AllRun.run settings depth task task' h m₁ m₁' t
  · exact Wrap.Runs.query settings q m₁ m₁' t

/-- Whether a class has a method `value` that calls the block it is sent to. -/
def Registry.callsBlocks (r : Registry) (id : ClassId) : Bool :=
  match r.lookup? (.text "value") ⟨id, false⟩ with
  | some ⟨.str "value", [], _, _, .int 201, _⟩ => true
  | _ => false

theorem Registry.method_of_callsBlocks {r : Registry} {id : ClassId}
    (h : r.callsBlocks id = true) : ∃ method, r.lookup? (.text "value") ⟨id, false⟩ = some method ∧
      method.selector = .str "value" ∧ method.params = [] ∧ method.primitive = .int 201 := by
  unfold callsBlocks at h
  split at h
  · exact ⟨_, ‹_›, rfl, rfl, rfl⟩
  · cases h

theorem Kernel.memory_runsBlocks : Kernel.memory.RunsBlocks {} := by
  have hcomputed : ∃ id < 100, Kernel.memory.registry.find? "BlockClosure" = some id ∧
      Kernel.memory.registry.callsBlocks id = true := by
    decide +kernel
  obtain ⟨id, -, hclass, hcalls⟩ := hcomputed
  obtain ⟨method, hmethod⟩ := Registry.method_of_callsBlocks hcalls
  exact ⟨rfl, id, method, hclass, hmethod⟩

/-- A memory in which an activation of workspace code for three is in progress. -/
def Memory.inWorkspace (m : Memory) : Memory :=
  { m with heap := (m.heap.newFrame
      { receiver := .int 3, method := some (Eval.workspaceMethod ⟨0, false⟩) }).1 }

theorem Memory.Good.inWorkspace {m : Memory} (g : m.Good Regime.any []) :
    m.inWorkspace.Good Regime.any [] := by
  refine g.newFrame (fun v hv => ?_) ⟨_, rfl, rfl⟩ (.inl ?_)
  · rcases hv with rfl | ⟨key, hkey⟩
    · exact ⟨rfl, trivial⟩
    · cases hkey
  · rw [Heap.frame_newFrame, if_pos rfl]

theorem Memory.RunsBlocks.inWorkspace {settings : Settings} {m : Memory}
    (h : m.RunsBlocks settings) : m.inWorkspace.RunsBlocks settings :=
  ⟨h.primitive, h.method⟩

/-- An expression that returns the receiver, which a block inside it reads. -/
def Node.returning : Node := .answer (.send (.block [] [] [.self]) (.str "value") [])

/-- In the frame of an activation that is in progress, the expression and the send around
it both unwind to that activation. -/
theorem wrapping_of_returning : ∃ (m : Memory) (hf : 0 < m.heap.frames.size),
    m.Closed ∧ m.RunsBlocks {} ∧ Node.returning.inPlace = true ∧
    (∀ depth, (Wrap.around m 0 hf).Matches (fun s s' => s' = (Wrap.around m 0 hf).stop s)
      (Wrap.around m 0 hf).Answers
      (Eval.run {} depth (.evaluate Node.returning 0) m)
      (Eval.run {} (depth + 3) (.evaluate Node.returning.wrapped 0) m)) ∧
    (match Eval.run {} 10 (.evaluate Node.returning.wrapped 0) m with
      | .error (.unwind (.int 3) 0) _ => true
      | _ => false) = true := by
  have hgood : Kernel.memory.Good Regime.any [] := Kernel.memory_good fun _ _ => rfl
  have hclosed := hgood.inWorkspace.toWellFormed.closed
  have hf : 0 < Kernel.memory.inWorkspace.heap.frames.size := by decide +kernel
  have hvalue := Kernel.memory_runsBlocks.inWorkspace
  exact ⟨_, hf, hclosed, hvalue, rfl,
    (wrapping_is_transparent hclosed hvalue hf (e := Node.returning) rfl).1, by decide +kernel⟩

end Smalltalk
