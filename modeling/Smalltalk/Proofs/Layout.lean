import Smalltalk.Proofs.Lexical
import Smalltalk.Proofs.Scope

/-!
# `Smalltalk.Proofs.Layout`: what the frames are made for

Every frame is made for some code: that of a method, of a block, or of workspace code.
A `Layout` lists it for all frames in the order in which they are made, each with the
code around it in the text. `Call.layout` adds what one call makes a frame for, and
`Call.trace` are the calls that come up, in the order in which they begin, so both
together say what every frame is made for at any moment of a run (`Layout.after`).

`Heap.Lies` ties the text to the heap: the frames of a chain are made for the bodies of
a nest one by one, and each declares just what its body does. `Memory.Laid` says that
every closure stands in such a nest, and `Memory.Reached` how this is carried from one
moment of a run to a later one.
-/

set_option autoImplicit false

namespace Smalltalk

open Relation (ReflTransGen)

/-- What every frame is made for, with the code around it in the text, in the order in
which the frames are made. -/
abbrev Layout := List Nest

namespace Call

/-- Adds what a call makes a frame for: an activation the code of its method, an invocation
the code of its block, inside the code that the frame of the closure was made for. No
frame is made where the number of arguments is wrong or tasks nest too deeply. -/
def layout (c : Call) (L : Layout) : Layout :=
  match c.depth, c.task with
  | _ + 1, .activate method _ args _ =>
    if args.length = method.arity then L ++ [[method.body]] else L
  | _ + 1, .invoke closure args _ =>
    let x := c.memory.heap.closure closure
    if args.length = x.arity then L ++ [x.body :: L.getD x.frame []] else L
  | _, _ => L

/-- The calls that come up while a task is done, in the order in which they begin. -/
def traceOf (settings : Settings) : (depth : Nat) → Task → Memory → List Call
  | 0, task, m => [⟨task, m, 0⟩]
  | depth + 1, task, m =>
    ⟨task, m, depth + 1⟩ :: ((Call.mk task m (depth + 1)).calls settings).flatMap fun c =>
      traceOf settings depth c.task c.memory

theorem traceOf_succ (settings : Settings) (depth : Nat) (task : Task) (m : Memory) :
    traceOf settings (depth + 1) task m = ⟨task, m, depth + 1⟩ ::
      (((Staged.step settings task).plan m).path (Eval.run settings depth)).flatMap
        fun p => traceOf settings depth p.1 p.2 :=
  congrArg (List.cons _) (List.flatMap_map ..)

/-- The calls that come up while a call is made, itself first. -/
def trace (settings : Settings) (c : Call) : List Call :=
  traceOf settings c.depth c.task c.memory

theorem mem_trace_self (settings : Settings) (c : Call) : c ∈ c.trace settings := by
  obtain ⟨task, m, depth⟩ := c
  cases depth <;> exact List.mem_cons_self

/-- No call is left out. -/
theorem Involves.mem_trace {settings : Settings} {c c' : Call} (h : c.Involves settings c') :
    c' ∈ c.trace settings := by
  induction h using ReflTransGen.head_induction_on with
  | refl => exact mem_trace_self settings c'
  | @head c c₁ hc _ ih =>
      have hdepth := (of_mem_calls hc).1
      obtain ⟨task, m, depth⟩ := c
      obtain rfl : depth = c₁.depth + 1 := hdepth
      exact List.mem_cons_of_mem _ (List.mem_flatMap.mpr ⟨c₁, hc, ih⟩)

end Call

/-- The layout after some calls have begun. -/
def Layout.after (L : Layout) (calls : List Call) : Layout :=
  calls.foldl (fun L c => c.layout L) L

namespace Query

variable (settings : Settings) (m : Memory)

/-- Adds what a query makes a frame for itself: workspace code. -/
def layout (L : Layout) : Query → Layout
  | .doit code receiver =>
    if (call? settings m (.doit code receiver)).isSome then L ++ [[code.workspace]] else L
  | _ => L

/-- The calls that come up while a query is evaluated, in the order in which they begin. -/
def trace (q : Query) : List Call :=
  match q.call? settings m with
  | some c => c.trace settings
  | none => []

end Query

/-- Every call on the stack of a query is in its trace. -/
theorem InProgress.mem_trace {settings : Settings} {m : Memory} {q : Query} {c : Call}
    {outer : List Call} (h : InProgress settings m q (c :: outer)) :
    c ∈ q.trace settings m := by
  obtain ⟨c₀, hcall, hinvolves⟩ := h.involves _ _ rfl
  unfold Query.trace
  rw [hcall]
  exact hinvolves.mem_trace

/-! ### Frames and text -/

/-- The frames of a chain are made for the bodies of a nest one by one, and each declares
just what its body does. -/
inductive Heap.Lies (h : Heap) (L : Layout) : List FrameId → Nest → Prop where
  | nil : Lies h L [] []
  | cons {f : FrameId} {fs : List FrameId} {b : Body} {outer : Nest}
      (made : L[f]? = some (b :: outer))
      (declares : ∀ key, (h.frame f).slots.contains key = b.declares key)
      (rest : Lies h L fs outer) : Lies h L (f :: fs) (b :: outer)

namespace Heap.Lies

variable {h : Heap} {L : Layout} {fs : List FrameId} {nest : Nest} {key : Key} {k : Nat}

theorem mem_lt (hl : h.Lies L fs nest) {f : FrameId} (hf : f ∈ fs) : f < L.length := by
  induction hl with
  | nil => cases hf
  | cons made _ _ ih =>
      rcases List.mem_cons.mp hf with rfl | hf
      · exact (List.getElem?_eq_some_iff.mp made).1
      · exact ih hf

/-- The frame that declares a name first is that of the body that does. -/
theorem index (hl : h.Lies L fs nest) (hk : nest.index? key = some k) :
    ∃ g, fs[k]? = some g ∧ L[g]? = some (nest.drop k) ∧
      (fs.find? fun f => (h.frame f).slots.contains key) = some g ∧
      (h.frame g).slots.contains key = true := by
  unfold Nest.index? at hk
  induction hl generalizing k with
  | nil => cases hk
  | @cons f fs b outer made declares rest ih =>
      rw [List.findIdx?_cons, ← declares key] at hk
      rw [List.find?_cons]
      cases hcontains : (h.frame f).slots.contains key with
      | true =>
          rw [hcontains] at hk
          obtain rfl : 0 = k := Option.some.inj hk
          exact ⟨f, rfl, made, rfl, hcontains⟩
      | false =>
          rw [hcontains] at hk
          obtain ⟨j, hj, rfl⟩ := Option.map_eq_some_iff.mp hk
          exact ih hj

end Heap.Lies

namespace Memory

/-- A frame runs the first body of a nest, with the frames around it made for the rest. -/
structure Stands (m : Memory) (L : Layout) (f : FrameId) (nest : Nest) : Prop where
  lies : m.heap.Lies L (m.heap.chain f) nest
  written : nest.Written

/-- The code of a closure is that of a block in the body that its frame runs. -/
def Wrote (m : Memory) (L : Layout) (x : Closure) : Prop :=
  ∃ b outer, m.Stands L x.frame (b :: outer) ∧ b.Writes (.block x.params x.temps x.statements)

/-- All code that may be run later is well-scoped where it stands: that of the closures in
their frames, and the installed methods. -/
structure Laid (m : Memory) (L : Layout) : Prop where
  bound : L.length ≤ m.heap.frames.size
  closure : ∀ c < m.heap.closures.size, m.Wrote L (m.heap.closure c)
  installed : m.registry.Scoped

/-- The frames of a layout stay where they are and declare the same names. -/
structure Keeps (L : Layout) (m m' : Memory) : Prop where
  outer : ∀ f < L.length, (m'.heap.frame f).outer = (m.heap.frame f).outer
  slots : ∀ f < L.length, ∀ key,
    (m'.heap.frame f).slots.contains key = (m.heap.frame f).slots.contains key

variable {m m' m'' : Memory} {L L' L'' : Layout}

theorem Keeps.refl (L : Layout) (m : Memory) : Keeps L m m := ⟨fun _ _ => rfl, fun _ _ _ => rfl⟩

theorem Keeps.trans (h : Keeps L m m') (h' : Keeps L' m' m'') (hL : L.length ≤ L'.length) :
    Keeps L m m'' where
  outer f hf := (h'.outer f (Nat.lt_of_lt_of_le hf hL)).trans (h.outer f hf)
  slots f hf key := (h'.slots f (Nat.lt_of_lt_of_le hf hL) key).trans (h.slots f hf key)

end Memory

variable {m m' m'' : Memory} {L L' L'' : Layout}

theorem Heap.Lies.later {fs : List FrameId} {nest : Nest} (h : m.heap.Lies L fs nest)
    (hkeeps : Memory.Keeps L m m') (hL : L <+: L') : m'.heap.Lies L' fs nest := by
  induction h with
  | nil => exact .nil
  | @cons f fs b outer made declares _ ih =>
      have hf := (List.getElem?_eq_some_iff.mp made).1
      refine .cons ?_ (fun key => (hkeeps.slots f hf key).trans (declares key)) ih
      rw [← made]
      exact (List.prefix_iff_getElem?.mp hL f hf).trans (List.getElem?_eq_getElem hf).symm

namespace Memory

theorem Stands.lt {f : FrameId} {nest : Nest} (h : m.Stands L f nest) : f < L.length :=
  h.lies.mem_lt List.mem_cons_self

theorem Stands.later {f : FrameId} {nest : Nest} (h : m.Stands L f nest)
    (hkeeps : Keeps L m m') (hL : L <+: L') : m'.Stands L' f nest := by
  refine ⟨?_, h.written⟩
  have hchain : m'.heap.chain f = m.heap.chain f := by
    unfold Heap.chain
    rw [hkeeps.outer f h.lt]
  rw [hchain]
  exact h.lies.later hkeeps hL

theorem Wrote.later {x : Closure} (h : m.Wrote L x) (hkeeps : Keeps L m m') (hL : L <+: L') :
    m'.Wrote L' x := by
  obtain ⟨b, outer, hstands, hwrites⟩ := h
  exact ⟨b, outer, hstands.later hkeeps hL, hwrites⟩

/-- A change that makes no closure, changes no class and keeps the frames. -/
theorem Laid.later (h : m.Laid L) (hkeeps : Keeps L m m') (hL : L <+: L')
    (bound : L'.length ≤ m'.heap.frames.size) (closures : m'.heap.closures = m.heap.closures)
    (registry : m'.registry = m.registry) : m'.Laid L' where
  bound := bound
  closure c hc := by
    have hclosure : m'.heap.closure c = m.heap.closure c := by
      unfold Heap.closure
      rw [closures]
    rw [hclosure]
    rw [closures] at hc
    exact (h.closure c hc).later hkeeps hL
  installed := registry ▸ h.installed

/-- From a layout and a memory, a run has come to a later one, with nothing in between. -/
structure Reached (L₀ : Layout) (m₀ : Memory) (L : Layout) (m : Memory) : Prop where
  laid : m.Laid L
  size : L.length = m.heap.frames.size
  layout : L₀ <+: L
  keeps : Keeps L₀ m₀ m

namespace Reached

variable {L₀ : Layout} {m₀ : Memory}

theorem refl (laid : m.Laid L) (size : L.length = m.heap.frames.size) : Reached L m L m :=
  ⟨laid, size, List.prefix_refl L, .refl L m⟩

theorem trans (h : Reached L₀ m₀ L m) (h' : Reached L m L' m') : Reached L₀ m₀ L' m' :=
  ⟨h'.laid, h'.size, h.layout.trans h'.layout, h.keeps.trans h'.keeps h.layout.length_le⟩

theorem stands (h : Reached L m L' m') {f : FrameId} {nest : Nest} (hf : m.Stands L f nest) :
    m'.Stands L' f nest :=
  hf.later h.keeps h.layout

end Reached

end Memory

end Smalltalk
