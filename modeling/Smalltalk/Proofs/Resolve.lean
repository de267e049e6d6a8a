import Smalltalk.Proofs.Calm

/-!
# `Smalltalk.Proofs.Resolve`: variables are found where the text declares them

A task is ready (`Task.Ready`) when the code it is about stands, in the text, where the
frame it is for stands in the heap. `Plan.Sound` says of a plan that it only asks for
ready tasks, whatever the answers, and that it carries layouts on. It is put together as
the plans are, with one lemma for each function of the evaluator; a frame that is new
gets its names first (`Memory.Opens`).

`Call.resolves_of_trace` is the induction on the depth: every call that comes up reads
and assigns variables in the frames that the text says (`Call.Resolves`), and nothing
ends with a variable that nobody declares.
-/

set_option autoImplicit false

namespace Smalltalk

open Memory (Reached Keeps)

/-- The code that a task is about stands where the frame does that it is for; a method is
well-scoped. What a closure is about is laid in any case. -/
def Task.Ready (m : Memory) (L : Layout) : Task → Prop
  | .evaluate node f => ∃ b outer, m.Stands L f (b :: outer) ∧ b.Writes node
  | .activate method _ _ _ => method.body.isScoped [] = true
  | .invoke .. => True

variable {L L' L₀ L₁ : Layout} {m m' m₀ m₁ : Memory}

/-! ### Variables -/

/-- A frame is the one made for the innermost body around a tree that declares a key: it is
as many frames out in the chain of the frame that runs the tree as the body is in the text. -/
structure Memory.Binds (m : Memory) (L : Layout) (f : FrameId) (node : Node) (key : Key)
    (nest : Nest) (k : Nat) (g : FrameId) : Prop where
  /-- The frame that runs the tree is made for a nest of bodies as the text has them, -/
  runs : L[f]? = some nest
  written : nest.Written
  /-- and the tree stands in the first of them. -/
  stands : ∃ b ∈ nest.head?, b.Writes node
  /-- The body is the first in the nest to declare the key, -/
  index : nest.index? key = some k
  /-- the frame is as many frames out, -/
  out : (m.heap.chain f)[k]? = some g
  /-- and it is made for the body, in the bodies around that. -/
  made : L[g]? = some (nest.drop k)

namespace Memory.Stands

variable {f : FrameId} {nest : Nest} {key : Key} {k : Nat}

theorem made (h : m.Stands L f nest) : L[f]? = some nest := by
  obtain ⟨hlies, -⟩ := h
  unfold Heap.chain at hlies
  cases hlies with
  | cons made _ _ => exact made

/-- Looking a name up from a frame finds the frame that the text says. -/
theorem binds (h : m.Stands L f nest) {node : Node} (hnode : ∃ b ∈ nest.head?, b.Writes node)
    (hk : nest.index? key = some k) : ∃ g v, m.Binds L f node key nest k g ∧
      m.heap.owner? f key = some g ∧ (m.heap.frame g).slots.find? key = some v ∧
      m.heap.lookup? f key = some v := by
  obtain ⟨g, hout, hmade, howner, hcontains⟩ := h.lies.index hk
  obtain ⟨v, hv⟩ := Option.isSome_iff_exists.mp hcontains
  exact ⟨g, v, ⟨h.made, h.written, hnode, hk, hout, hmade⟩, howner, hv,
    Heap.lookup?_eq_some_iff.mpr ⟨g, howner, hv⟩⟩

/-- A variable of a tree that stands in a body is declared somewhere in the nest. -/
theorem index (h : m.Stands L f nest) {name : Json} {kind : VariableKind}
    (hknows : nest.knows name kind = true) (hlocal : kind.isLocal = true)
    (hkey : name.key? = some key) : ∃ g v, m.heap.owner? f key = some g ∧
      m.heap.lookup? f key = some v := by
  obtain ⟨k, hk⟩ := Nest.index?_of_knows hknows hlocal hkey
  obtain ⟨g, hout, hmade, howner, hcontains⟩ := h.lies.index hk
  obtain ⟨v, hv⟩ := Option.isSome_iff_exists.mp hcontains
  exact ⟨g, v, howner, Heap.lookup?_eq_some_iff.mpr ⟨g, howner, hv⟩⟩

end Memory.Stands

namespace Eval

variable {f g : FrameId} {name : Json} {kind : VariableKind} {key : Key}

theorem readVariable_of_lookup {v : Value} (hlocal : kind.isLocal = true)
    (hkey : name.key? = some key) (h : m.heap.lookup? f key = some v) (index : Json) :
    readVariable f name kind index m = .ok v m := by
  have hlookup := lookup_of_some hkey h
  cases kind with
  | temp => exact hlookup
  | arg => exact hlookup
  | global => cases hlocal
  | instvar => cases hlocal

theorem writeVariable_of_owner (hlocal : kind.isLocal = true) (hkey : name.key? = some key)
    (h : m.heap.owner? f key = some g) (index : Json) (v : Value) :
    writeVariable f name kind index v m
      = .ok () { m with heap := m.heap.declare g key name v } := by
  have hassign := assign_of_owner hkey h v
  cases kind with
  | temp => exact hassign
  | arg => exact hassign
  | global => cases hlocal
  | instvar => cases hlocal

end Eval

/-! ### New frames -/

/-- The last frame is new: all code is laid in the layout without it. -/
structure Memory.Opens (m : Memory) (L : Layout) : Prop where
  laid : m.Laid L
  size : m.heap.frames.size = L.length + 1

namespace Memory

/-- Whether a frame declares just the names of a list. -/
def Declares (m : Memory) (f : FrameId) (names : List Json) : Prop :=
  ∀ key, (m.heap.frame f).slots.contains key = names.any fun name => name.key? = some key

theorem keeps_newFrame (hsize : L.length ≤ m.heap.frames.size) (x : Frame) :
    Keeps L m { m with heap := (m.heap.newFrame x).1 } := by
  have hframe : ∀ f < L.length, (m.heap.newFrame x).1.frame f = m.heap.frame f := by
    intro f hf
    rw [Heap.frame_newFrame, if_neg (Nat.ne_of_lt (Nat.lt_of_lt_of_le hf hsize))]
  exact ⟨fun f hf => congrArg Frame.outer (hframe f hf), fun f hf key => by rw [hframe f hf]⟩

theorem opens_newFrame (hlaid : m.Laid L) (hsize : L.length = m.heap.frames.size) (x : Frame) :
    Opens { m with heap := (m.heap.newFrame x).1 } L where
  laid := by
    refine hlaid.later (keeps_newFrame (Nat.le_of_eq hsize) x) (List.prefix_refl L) ?_ rfl rfl
    rw [Heap.size_newFrame, hsize]
    exact Nat.le_succ _
  size := by rw [Heap.size_newFrame, hsize]

/-- A closure with any code runs it inside the code that its frame was made for. -/
theorem Laid.lies_of_closure (hlaid : m.Laid L) {c : ClosureId}
    (hne : (m.heap.closure c).statements ≠ []) :
    m.heap.Lies L (m.heap.chain (m.heap.closure c).frame) (L.getD (m.heap.closure c).frame []) ∧
      Nest.Written ((m.heap.closure c).body :: L.getD (m.heap.closure c).frame []) := by
  have hc : c < m.heap.closures.size := by
    rcases Nat.lt_or_ge c m.heap.closures.size with hlt | hge
    · exact hlt
    · -- what is not there has no code
      rw [m.heap.closure_of_le hge] at hne
      exact absurd rfl hne
  obtain ⟨b, outer, hstands, hwrites⟩ := hlaid.closure c hc
  rw [List.getD_eq_getElem?_getD, hstands.made]
  exact ⟨hstands.lies, .block _ _ hstands.written hwrites⟩

/-- A closure that is made stands where its block does. -/
theorem reached_newClosure (hlaid : m.Laid L) (hsize : L.length = m.heap.frames.size)
    {x : Closure} (hx : m.Wrote L x) :
    m.Reached L L { m with heap := (m.heap.newClosure x).1 } := by
  have hkeeps : Keeps L m { m with heap := (m.heap.newClosure x).1 } :=
    ⟨fun _ _ => rfl, fun _ _ _ => rfl⟩
  refine ⟨⟨hlaid.bound, fun c hc => ?_, hlaid.installed⟩, hsize, List.prefix_refl L, hkeeps⟩
  rw [Heap.size_newClosure] at hc
  rw [Heap.closure_newClosure]
  split
  · exact hx.later hkeeps (List.prefix_refl L)
  · rename_i hne
    have hlt : c < m.heap.closures.size := Nat.lt_of_le_of_ne (Nat.le_of_lt_succ hc) hne
    exact (hlaid.closure c hlt).later hkeeps (List.prefix_refl L)

namespace Opens

theorem calm (h : m.Opens L) (hcalm : m.Calm [L.length] m') : m'.Opens L := by
  refine ⟨hcalm.laid (fun f hf => ?_) h.laid, hcalm.frames.trans h.size⟩
  exact Nat.le_of_eq (List.mem_singleton.mp hf).symm

theorem keeps (hcalm : m.Calm [L.length] m') : Keeps L m m' :=
  hcalm.keeps fun _ hf => Nat.le_of_eq (List.mem_singleton.mp hf).symm

/-- With the new frame in it, the layout is one of all frames. -/
theorem reached (h : m.Opens L) (hkeeps : Keeps L m₀ m) (nest : Nest) :
    m₀.Reached L (L ++ [nest]) m := by
  have hprefix : L <+: L ++ [nest] := List.prefix_append L _
  have hsize : (L ++ [nest]).length = m.heap.frames.size := by
    rw [h.size, List.length_append, List.length_singleton]
  have hlaid := h.laid.later (.refl L m) hprefix (Nat.le_of_eq hsize) rfl rfl
  exact ⟨hlaid, hsize, hprefix, hkeeps⟩

/-- A frame that declares the names of its body stands where the body does. -/
theorem stands {b : Body} {outer : Nest} (hnames : m.Declares L.length b.names)
    (hlies : m.heap.Lies L (m.heap.frame L.length).outer outer)
    (hwritten : Nest.Written (b :: outer)) :
    m.Stands (L ++ [b :: outer]) L.length (b :: outer) := by
  refine ⟨.cons ?_ hnames (hlies.later (.refl L m) (List.prefix_append L _)), hwritten⟩
  rw [List.getElem?_append_right (Nat.le_refl _), Nat.sub_self]
  rfl

end Opens

/-- A new frame with its parameters declared. -/
structure Enters (L : Layout) (m : Memory) (x : Frame) (m' : Memory) : Prop where
  opens : m'.Opens L
  keeps : Keeps L m m'
  outer : (m'.heap.frame L.length).outer = x.outer

/-- Making a frame and declaring parameters in it. -/
theorem enters (hlaid : m.Laid L) (hsize : L.length = m.heap.frames.size) {x : Frame}
    (hx : x.slots = {}) {names : List Json} {args : List Value}
    (hlength : args.length = names.length) :
    match Eval.declareAll L.length names args { m with heap := (m.heap.newFrame x).1 } with
    | .ok _ m' => Enters L m x m' ∧ m'.Declares L.length names
    | .error s m' => Enters L m x m' ∧ s.isResolved = true := by
  have hopens := opens_newFrame hlaid hsize x
  have hkeeps := keeps_newFrame (Nat.le_of_eq hsize) x
  have hframe : (m.heap.newFrame x).1.frame L.length = x := by
    rw [Heap.frame_newFrame, if_pos hsize]
  have henters : ∀ m', Calm [L.length] { m with heap := (m.heap.newFrame x).1 } m' →
      Enters L m x m' := fun m' hcalm =>
    ⟨hopens.calm hcalm, hkeeps.trans (Opens.keeps hcalm) (Nat.le_refl _),
      (hcalm.outer _).trans (congrArg Frame.outer hframe)⟩
  have hlt : L.length < (m.heap.newFrame x).1.frames.size := by
    rw [Heap.size_newFrame, hsize]
    exact Nat.lt_succ_self _
  -- declaring touches the new frame only, so what there was before it is kept
  have hdeclare := Eval.Calm.declareAll (m := { m with heap := (m.heap.newFrame x).1 }) hlt hlength
  unfold Eval.Calm at hdeclare
  split
  · rename_i hr
    rw [hr] at hdeclare
    refine ⟨henters _ hdeclare.1, fun key => ?_⟩
    rw [hdeclare.2 key]
    show (_ || ((m.heap.newFrame x).1.frame L.length).slots.contains key) = _
    rw [hframe, hx]
    exact Bool.or_false _
  · rename_i hr
    rw [hr] at hdeclare
    exact ⟨henters _ hdeclare.1, hdeclare.2⟩

end Memory

/-! ### Plans -/

namespace Plan

variable {α β : Type} {post : α → Layout → Memory → Prop}

/-- A plan, in a layout that has been reached, that only asks for ready tasks, reaches
further, and does not end with a variable that nobody declares. -/
def Sound (L₀ : Layout) (m₀ : Memory) (post : α → Layout → Memory → Prop) :
    Plan α → Layout → Prop
  | done (.ok a m), L => m₀.Reached L₀ L m ∧ post a L m
  | done (.error s m), L => m₀.Reached L₀ L m ∧ s.isResolved = true
  | ask task m next, L => m₀.Reached L₀ L m ∧ task.Ready m L ∧
      ∀ v L' m', m.Reached L L' m' → (next v m').Sound L₀ m₀ post L'

theorem Sound.bind {p : Plan α} {k : α → Memory → Plan β}
    {Q : β → Layout → Memory → Prop} (hp : p.Sound L₀ m₀ post L)
    (hk : ∀ a L' m', m₀.Reached L₀ L' m' → post a L' m' → (k a m').Sound L₀ m₀ Q L') :
    (p.bind k).Sound L₀ m₀ Q L := by
  induction p generalizing L with
  | done outcome =>
      cases outcome with
      | ok a m => exact hk a L m hp.1 hp.2
      | error s m => exact hp
  | ask task m next ih =>
      obtain ⟨hreached, hready, hnext⟩ := hp
      exact ⟨hreached, hready, fun v L' m' h => ih v m' (hnext v L' m' h)⟩

/-- What starts later may be looked at from the start. -/
theorem Sound.of_reached {p : Plan α} (h : m₀.Reached L₀ L₁ m₁) (hp : p.Sound L₁ m₁ post L) :
    p.Sound L₀ m₀ post L := by
  induction p generalizing L with
  | done outcome =>
      cases outcome with
      | ok a m => exact ⟨h.trans hp.1, hp.2⟩
      | error s m => exact ⟨h.trans hp.1, hp.2⟩
  | ask task m next ih =>
      obtain ⟨hreached, hready, hnext⟩ := hp
      exact ⟨h.trans hreached, hready, fun v L' m' hlater => ih v m' (hnext v L' m' hlater)⟩

/-- An outcome of something calm. -/
theorem sound_done {outcome : Outcome α} (h : m₀.Reached L₀ L m)
    (hcalm : Eval.Calm [] (fun _ => outcome) m fun _ _ => True) :
    (done outcome).Sound L₀ m₀ (fun _ _ _ => True) L := by
  unfold Eval.Calm at hcalm
  cases outcome with
  | ok a m' => exact ⟨h.calm hcalm.1, trivial⟩
  | error s m' => exact ⟨h.calm hcalm.1, hcalm.2⟩

/-- A frame is made and parameters are declared in it. Where that fails, nothing follows, and
else what follows has to be sound in the new frame. -/
theorem sound_enter (hlaid : m.Laid L) (hsize : L.length = m.heap.frames.size) {x : Frame}
    (hx : x.slots = {}) {names : List Json} {args : List Value}
    (hlength : args.length = names.length) {nest : Nest} {next : Memory → Plan α}
    (hnext : ∀ m', Memory.Enters L m x m' → m'.Declares L.length names →
      (next m').Sound L m post (L ++ [nest])) :
    ((done (Eval.declareAll m.heap.frames.size names args
      { m with heap := (m.heap.newFrame x).1 })).bind fun _ => next).Sound L m post
        (L ++ [nest]) := by
  have henters := Memory.enters hlaid hsize hx hlength
  rw [← hsize]
  cases hr : Eval.declareAll L.length names args { m with heap := (m.heap.newFrame x).1 } with
  | ok u m' =>
      rw [hr] at henters
      exact hnext m' henters.1 henters.2
  | error s m' =>
      rw [hr] at henters
      obtain ⟨hentered, hresolved⟩ := henters
      exact ⟨hentered.opens.reached hentered.keeps _, hresolved⟩

end Plan

namespace Planned

variable {α β : Type}

/-- A planned evaluation that is sound from a memory on. -/
abbrev Sound (L₀ : Layout) (m₀ : Memory) {act : (Task → Eval Value) → Eval α}
    (p : Planned act) (L : Layout) (m : Memory) : Prop :=
  (p.plan m).Sound L₀ m₀ (fun _ _ _ => True) L

theorem sound_const {act : Eval α} (h : m₀.Reached L₀ L m)
    (hact : Eval.Calm [] act m fun _ _ => True) : (const act).Sound L₀ m₀ L m :=
  Plan.sound_done h hact

theorem sound_still {act : (Task → Eval Value) → Eval α}
    (hact : ∀ rec rec', act rec = act rec') (h : m₀.Reached L₀ L m)
    (hcalm : Eval.Calm [] (act idle) m fun _ _ => True) : (still hact).Sound L₀ m₀ L m :=
  Plan.sound_done h hcalm

theorem sound_call {task : Task} (h : m₀.Reached L₀ L m) (hready : task.Ready m L) :
    (call task).Sound L₀ m₀ L m :=
  ⟨h, hready, fun _ _ _ hlater => ⟨h.trans hlater, trivial⟩⟩

/-- After something calm. -/
theorem sound_bind_const {x : Eval α} {f : α → (Task → Eval Value) → Eval β}
    {pf : ∀ a, Planned (f a)} {Q : α → Memory → Prop} (h : m₀.Reached L₀ L m)
    (hx : Eval.Calm [] x m Q)
    (hf : ∀ a m', m.Calm [] m' → Q a m' → m₀.Reached L₀ L m' → (pf a).Sound L₀ m₀ L m') :
    ((const x).bind pf).Sound L₀ m₀ L m := by
  show (Plan.bind (.done (x m)) _).Sound L₀ m₀ _ L
  unfold Eval.Calm at hx
  cases hr : x m with
  | ok a m' =>
      rw [hr] at hx
      exact hf a m' hx.1 hx.2 (h.calm hx.1)
  | error s m' =>
      rw [hr] at hx
      exact ⟨h.calm hx.1, hx.2⟩

theorem sound_bind {x : (Task → Eval Value) → Eval α} {f : α → (Task → Eval Value) → Eval β}
    {px : Planned x} {pf : ∀ a, Planned (f a)} (hx : px.Sound L₀ m₀ L m)
    (hf : ∀ a L' m', m₀.Reached L₀ L' m' → (pf a).Sound L₀ m₀ L' m') :
    (px.bind pf).Sound L₀ m₀ L m :=
  hx.bind fun a L' m' h _ => hf a L' m' h

theorem sound_ite {x y : (Task → Eval Value) → Eval α} {c : Prop} [Decidable c] {px : Planned x}
    {py : Planned y} (hx : px.Sound L₀ m₀ L m) (hy : py.Sound L₀ m₀ L m) :
    (Planned.ite c px py).Sound L₀ m₀ L m := by
  unfold Planned.ite
  split
  · exact hx
  · exact hy

theorem sound_mapM {f : α → (Task → Eval Value) → Eval β} {pf : ∀ a, Planned (f a)}
    {xs : List α} (h : m₀.Reached L₀ L m)
    (hf : ∀ x ∈ xs, ∀ L' m', m₀.Reached L₀ L' m' → (pf x).Sound L₀ m₀ L' m') :
    (mapM pf xs).Sound L₀ m₀ L m := by
  induction xs generalizing L m with
  | nil => exact ⟨h, trivial⟩
  | cons x xs ih =>
      refine sound_bind (hf x List.mem_cons_self L m h) fun b L₁ m₁ h₁ => ?_
      refine sound_bind (ih h₁ fun y hy => hf y (List.mem_cons_of_mem _ hy)) ?_
      exact fun bs L₂ m₂ h₂ => ⟨h₂, trivial⟩

theorem sound_foldlM {f : β → α → (Task → Eval Value) → Eval β} {pf : ∀ b a, Planned (f b a)}
    {xs : List α} {b : β} (h : m₀.Reached L₀ L m)
    (hf : ∀ b, ∀ x ∈ xs, ∀ L' m', m₀.Reached L₀ L' m' → (pf b x).Sound L₀ m₀ L' m') :
    (foldlM pf b xs).Sound L₀ m₀ L m := by
  induction xs generalizing b L m with
  | nil => exact ⟨h, trivial⟩
  | cons x xs ih =>
      refine sound_bind (hf b x List.mem_cons_self L m h) fun b' L₁ m₁ h₁ => ?_
      exact ih h₁ fun c y hy => hf c y (List.mem_cons_of_mem _ hy)

/-! ### The evaluator -/

/-- A body runs in the new frame: once its temps are declared, the frame declares just what
the body does, and every statement stands there. -/
theorem sound_runBody {names temps : List Json} {statements : List Node} {outer : Nest}
    (hopens : m.Opens L) (hkeeps : Keeps L m₀ m) (hnames : m.Declares L.length names)
    (hlies : statements ≠ [] → m.heap.Lies L (m.heap.frame L.length).outer outer ∧
      Nest.Written (⟨names ++ temps, statements⟩ :: outer)) :
    (runBody L.length temps statements).Sound L m₀
      (L ++ [⟨names ++ temps, statements⟩ :: outer]) m := by
  let nest : Nest := ⟨names ++ temps, statements⟩ :: outer
  have hlt : L.length < m.heap.frames.size := by
    rw [hopens.size]
    exact Nat.lt_succ_self _
  have hdeclare := Eval.Calm.declareEach hlt temps id fun _ => Value.nil
  show (Plan.bind (.done ((temps.forM fun name => Eval.declare L.length name .nil) m)) _).Sound
    L m₀ _ _
  unfold Eval.Calm at hdeclare
  simp only [id_eq] at hdeclare
  cases hr : (temps.forM fun name => Eval.declare L.length name .nil) m with
  | error s m₁ =>
      rw [hr] at hdeclare
      obtain ⟨hcalm, hresolved⟩ := hdeclare
      have hkeeps₁ := hkeeps.trans (Memory.Opens.keeps hcalm) (Nat.le_refl _)
      exact ⟨(hopens.calm hcalm).reached hkeeps₁ nest, hresolved⟩
  | ok u m₁ =>
      rw [hr] at hdeclare
      obtain ⟨hcalm, hslots⟩ := hdeclare
      have hkeeps₁ := hkeeps.trans (Memory.Opens.keeps hcalm) (Nat.le_refl _)
      have hopens₁ := hopens.calm hcalm
      have hnames₁ : m₁.Declares L.length (names ++ temps) := by
        intro key
        rw [hslots key, hnames key, List.any_append, Bool.or_comm]
      have hreached := hopens₁.reached hkeeps₁ nest
      refine Plan.Sound.of_reached hreached (sound_foldlM (.refl hreached.laid hreached.size) ?_)
      intro _ n hn L₂ m₂ h₂
      obtain ⟨hlies, hwritten⟩ := hlies (List.ne_nil_of_mem hn)
      -- the statements stand where the body was written: declaring has moved no frame
      have hlies₁ : m₁.heap.Lies L (m₁.heap.frame L.length).outer outer := by
        rw [hcalm.outer]
        exact hlies.later (Memory.Opens.keeps hcalm) (List.prefix_refl L)
      have hstands := Memory.Opens.stands (b := ⟨names ++ temps, statements⟩) hnames₁ hlies₁
        hwritten
      exact sound_call h₂ ⟨_, outer, h₂.stands hstands, Body.writes_statement hn⟩

/-- A tree, where it stands in the first body of the nest that its frame is made for. -/
theorem sound_evaluateNode {f : FrameId} {b : Body} {outer : Nest} {node : Node}
    (hlaid : m.Laid L) (hsize : L.length = m.heap.frames.size)
    (hstands : m.Stands L f (b :: outer)) (hwrites : b.Writes node) :
    (evaluateNode f node).Sound L m L m := by
  have hself : m.Reached L L m := .refl hlaid hsize
  have hscoped : node.isScoped (b :: outer) = true := hwrites.isScoped hstands.written.isScoped
  -- what the tree is made of stands in the same body, and later as well
  have hpart : ∀ part ∈ node.parts, ∀ L' m', m.Reached L L' m' →
      (call (.evaluate part f)).Sound L m L' m' := fun part hpart L' m' h =>
    sound_call h ⟨b, outer, h.stands hstands, hwrites.part hpart⟩
  cases node with
  | self => exact sound_still _ hself (.ask trivial)
  | super => exact sound_still _ hself (.ask trivial)
  | reference name kind index =>
      refine sound_still _ hself (.readVariable (fun hlocal key hkey => ?_) index)
      obtain ⟨g, v, -, hv⟩ := hstands.index hscoped hlocal hkey
      exact ⟨v, hv⟩
  | literal value => exact sound_still _ hself (.pure trivial)
  | symbol name => exact sound_still _ hself (.pure trivial)
  | literalArray elements =>
      refine sound_bind (sound_mapM hself hpart) fun values L₁ m₁ h₁ => ?_
      exact sound_bind_const h₁ (Q := fun _ _ => True) ⟨.of_eq rfl rfl rfl, trivial⟩
        fun a m₂ _ _ h₂ => sound_const h₂ (.pure trivial)
  | sequence temps statements => cases hscoped
  | block params temps statements =>
      exact ⟨Memory.reached_newClosure hlaid hsize ⟨b, outer, hstands, hwrites⟩, trivial⟩
  | send receiver selector args =>
      refine sound_bind (hpart receiver List.mem_cons_self L m hself) fun v L₁ m₁ h₁ => ?_
      have hargs : (mapM (fun arg => call (.evaluate arg f)) args).Sound L m L₁ m₁ :=
        sound_mapM h₁ fun arg harg => hpart arg (List.mem_cons_of_mem _ harg)
      refine sound_bind hargs fun vs L₂ m₂ h₂ => ?_
      refine sound_bind_const h₂ (.startOf f receiver.isSuper v) fun start m₃ _ _ h₃ => ?_
      refine sound_bind_const h₃ (.methodFrom h₃.laid.installed selector start) ?_
      intro found m₄ _ hfound h₄
      cases found with
      | none => exact sound_const h₄ (.notUnderstood v selector)
      | some method =>
          refine sound_bind_const h₄ (Q := fun _ _ => True) (.note (fun _ hfault => ?_) ?_) ?_
          · exact Fault.isMisuse_of_map (fun _ => Fault.isMisuse_of_methodWord) hfault
          · exact fun _ _ => trivial
          intro _ m₅ _ _ h₅
          refine sound_bind_const h₅ (Q := fun _ _ => True) (.ask trivial) ?_
          exact fun callers m₆ _ _ h₆ => sound_call h₆ (hfound method rfl)
  | assign name kind index value =>
      refine sound_bind (hpart value List.mem_cons_self L m hself) fun v L₁ m₁ h₁ => ?_
      simp only [Node.isScoped, Bool.and_eq_true] at hscoped
      refine sound_bind_const h₁ (.writeVariable (fun hlocal key hkey => ?_) index v) ?_
      · obtain ⟨g, -, hg, -⟩ := (h₁.stands hstands).index hscoped.1 hlocal hkey
        exact ⟨g, hg⟩
      · exact fun _ m₂ _ _ h₂ => sound_const h₂ (.pure trivial)
  | answer value =>
      refine sound_bind (hpart value List.mem_cons_self L m hself) fun v L₁ m₁ h₁ => ?_
      exact sound_const h₁ (.returnFrom f v)
  | method selector params temps statements primitive =>
      exact sound_still _ hself (.fail rfl)

/-- The loop is an induction on the rounds it may take. -/
theorem sound_alternate (condition body : ClosureId) (f : FrameId) (goOn : Bool) (rounds : Nat)
    (h : m₀.Reached L₀ L m) :
    (alternate (.invoke condition [] f) (.invoke body [] f) goOn rounds).Sound L₀ m₀ L m := by
  induction rounds generalizing L m with
  | zero => exact sound_still _ h (.stop rfl)
  | succ rounds ih =>
      refine sound_bind (sound_call h trivial) fun v L₁ m₁ h₁ => ?_
      cases v with
      | bool b =>
          refine sound_ite (sound_bind (sound_call h₁ trivial) ?_) ?_
          · exact fun _ L₂ m₂ h₂ => ih h₂
          · exact sound_const h₁ (.pure trivial)
      | _ => exact sound_still _ h₁ (.asking (.fail rfl))

/-- One case for each action. -/
theorem sound_perform {settings : Settings} {f : FrameId} {action : Action}
    (hrefuse : ∀ fault, action = .refuse fault → fault.isResolved = true)
    (h : m₀.Reached L₀ L m) : (perform settings f action).Sound L₀ m₀ L m := by
  have hstill : ∀ {rec : Task → Eval Value}, (∀ c args, action ≠ .call c args) →
      (∀ condition body goOn, action ≠ .loop condition body goOn) →
      Eval.Calm [] (Eval.perform settings rec f action) m fun _ _ => True :=
    fun hcall hloop => .perform hcall hloop hrefuse
  cases action with
  | call c args => exact sound_call h trivial
  | loop condition body goOn =>
      exact sound_alternate condition body f goOn _ h
  | _ => exact sound_still _ h (hstill (fun _ _ h => nomatch h) fun _ _ _ h => nomatch h)

/-- The method of an activation, in the new frame of it. -/
theorem sound_runMethod (settings : Settings) {method : Method} {receiver : Value}
    (hopens : m.Opens L) (hkeeps : Keeps L m₀ m) (hnames : m.Declares L.length method.params)
    (houter : (m.heap.frame L.length).outer = []) (hscoped : method.body.isScoped [] = true) :
    (runMethod settings L.length method receiver).Sound L m₀ (L ++ [[method.body]]) m := by
  have hbody : ∀ m', m.Calm [] m' →
      (runMethodBody L.length method receiver).Sound L m₀ (L ++ [[method.body]]) m' := by
    intro m' hcalm
    have hnames' : m'.Declares L.length method.params := fun key =>
      (hcalm.slots _ List.not_mem_nil key).trans (hnames key)
    have hkeeps' : Keeps L m₀ m' :=
      hkeeps.trans (Memory.Opens.keeps hcalm.widen) (Nat.le_refl _)
    have hlies : m'.heap.Lies L (m'.heap.frame L.length).outer [] := by
      rw [hcalm.outer, houter]
      exact .nil
    refine sound_bind (sound_runBody (hopens.calm hcalm.widen) hkeeps' hnames' fun _ => ?_) ?_
    · exact ⟨hlies, .outermost hscoped⟩
    · exact fun _ L₁ m₁ h₁ => sound_const h₁ (.pure trivial)
  refine sound_ite ?_ (hbody m (.refl m))
  refine sound_bind_const (hopens.reached hkeeps [method.body])
    (Q := fun a _ => a = m) ⟨.refl m, rfl⟩ ?_
  rintro _ m₁ hcalm₁ rfl h₁
  refine sound_bind_const h₁ (.decide settings _ receiver _ method.primitive) ?_
  intro choice m₂ hcalm₂ hrefuse h₂
  cases choice with
  | ok action =>
      exact sound_perform (fun fault hfault => hrefuse fault (congrArg Except.ok hfault)) h₂
  | error reason =>
      -- the body runs in the frame that the primitive was tried in
      refine sound_bind_const h₂ (Q := fun _ _ => True) (.note (fun _ hfault => ?_) ?_) ?_
      · exact Fault.isMisuse_of_failureLine hfault
      · exact fun _ _ => trivial
      · exact fun _ m₃ hcalm₃ _ _ => hbody m₃ ((hcalm₁.trans hcalm₂).trans hcalm₃)

end Planned

/-! ### Steps -/

/-- A method is entered with its parameters declared in a new frame. -/
theorem Staged.plan_activate (settings : Settings) {method : Method} (receiver : Value)
    {args : List Value} (callers : List FrameId) (m : Memory)
    (harity : args.length = method.arity) :
    (Staged.step settings (.activate method receiver args callers)).plan m
      = (Plan.done (Eval.declareAll m.heap.frames.size method.params args { m with
          heap := (m.heap.newFrame { receiver, method := some method, callers }).1 })).bind
            fun _ => (Planned.runMethod settings m.heap.frames.size method receiver).plan := by
  have henter : Eval.enter method receiver args callers m
      = (Eval.declareAll m.heap.frames.size method.params args >>= fun _ =>
          pure m.heap.frames.size) { m with
            heap := (m.heap.newFrame { receiver, method := some method, callers }).1 } := rfl
  show (if args.length ≠ method.arity then _ else _ : Plan Value) = _
  rw [if_neg (not_not_intro harity), henter]
  cases hr : Eval.declareAll m.heap.frames.size method.params args { m with
      heap := (m.heap.newFrame { receiver, method := some method, callers }).1 } with
  | ok u m' =>
      rw [bind_of_ok hr]
      rfl
  | error s m' =>
      rw [bind_of_error hr]
      rfl

/-- The plan of a step, where the layout has what the step makes a frame for. -/
theorem Staged.sound_step (settings : Settings) {task : Task} (hlaid : m.Laid L)
    (hsize : L.length = m.heap.frames.size) (hready : task.Ready m L) (depth : Nat) :
    ((Staged.step settings task).plan m).Sound L m (fun _ _ _ => True)
      ((Call.mk task m (depth + 1)).layout L) := by
  have hself : m.Reached L L m := .refl hlaid hsize
  cases task with
  | evaluate node f =>
      obtain ⟨b, outer, hstands, hwrites⟩ := hready
      exact Planned.sound_evaluateNode hlaid hsize hstands hwrites
  | activate method receiver args callers =>
      show Plan.Sound L m _ _ (if args.length = method.arity then _ else _)
      by_cases harity : args.length = method.arity
      · rw [if_pos harity, Staged.plan_activate settings receiver callers m harity]
        refine Plan.sound_enter hlaid hsize rfl harity fun m₁ h₁ hnames => ?_
        rw [← hsize]
        exact Planned.sound_runMethod settings h₁.opens h₁.keeps hnames h₁.outer hready
      · show (if args.length ≠ method.arity then _ else _ : Plan Value).Sound L m _ _
        rw [if_pos harity, if_neg harity]
        exact Plan.sound_done hself (.activate harity)
  | invoke c args caller =>
      let x := m.heap.closure c
      show ((Planned.ite (args.length ≠ x.arity) _ _).plan m).Sound L m _
        (if args.length = x.arity then L ++ [x.body :: L.getD x.frame []] else L)
      unfold Planned.ite
      by_cases harity : args.length = x.arity
      · rw [dif_neg (not_not_intro harity), if_pos harity]
        refine Plan.sound_enter hlaid hsize
          (x := m.heap.blockFrame c (caller :: (m.heap.frame caller).callers)) rfl harity
          fun m₁ h₁ hnames => ?_
        rw [← hsize]
        refine Planned.sound_runBody h₁.opens h₁.keeps hnames fun hne => ?_
        rw [h₁.outer]
        obtain ⟨hlies, hwritten⟩ := hlaid.lies_of_closure hne
        exact ⟨hlies.later h₁.keeps (List.prefix_refl L), hwritten⟩
      · rw [dif_pos harity, if_neg harity]
        exact Planned.sound_const hself (.fail rfl)

/-! ### Calls -/

/-- What a call does that reads or assigns a parameter or temp, where a layout says what the
frames so far are made for. -/
structure Call.Resolves (settings : Settings) (L : Layout) (c : Call) : Prop where
  size : L.length = c.memory.heap.frames.size
  /-- The call does not end with a variable that nobody declares. -/
  declared : ∀ name m', c.outcome settings ≠ .error (.fault (.unresolvedVariable name)) m'
  /-- A reference answers the value in the frame that is made for the innermost body around
  it that declares the name. -/
  reads : ∀ name kind index f key, c.task = .evaluate (.reference name kind index) f →
    kind.isLocal = true → name.key? = some key →
      ∃ nest k g v, c.memory.Binds L f (.reference name kind index) key nest k g ∧
        (c.memory.heap.frame g).slots.find? key = some v ∧
        ∀ depth, c.depth = depth + 1 → c.outcome settings = .ok v c.memory
  /-- An assignment, once it has a value, gives it to the variable in that frame. -/
  assigns : ∀ name kind index value f key,
    c.task = .evaluate (.assign name kind index value) f →
    kind.isLocal = true → name.key? = some key →
      ∃ nest k g, c.memory.Binds L f (.assign name kind index value) key nest k g ∧
        ∀ depth v m', c.depth = depth + 1 →
          Eval.run settings depth (.evaluate value f) c.memory = .ok v m' →
          (m'.heap.frame g).slots.contains key = true ∧
          c.outcome settings = .ok v { m' with heap := m'.heap.declare g key name v }

/-- How a task may end that starts from a layout and a memory: in a later memory of a later
layout, and not with a variable that nobody declares. -/
def Eval.Ends {α : Type} (L₀ : Layout) (m₀ : Memory) (L : Layout) : Outcome α → Prop
  | .ok _ m => m₀.Reached L₀ L m
  | .error s m => m₀.Reached L₀ L m ∧ s.isResolved = true

/-- What holds of every call in a list in the layout that it begins in. -/
def Layout.Along (P : Layout → Call → Prop) : Layout → List Call → Prop
  | _, [] => True
  | L, c :: rest => P L c ∧ Along P (c.layout L) rest

namespace Layout

variable {P : Layout → Call → Prop} {xs ys : List Call}

theorem after_append : L.after (xs ++ ys) = (L.after xs).after ys := List.foldl_append

theorem along_append (hx : L.Along P xs) (hy : (L.after xs).Along P ys) :
    L.Along P (xs ++ ys) := by
  induction xs generalizing L with
  | nil => exact hy
  | cons x xs ih => exact ⟨hx.1, ih hx.2 hy⟩

theorem Along.split {past rest : List Call} {c : Call} (h : L.Along P (past ++ c :: rest)) :
    P (L.after past) c := by
  induction past generalizing L with
  | nil => exact h.1
  | cons x past ih => exact ih h.2

end Layout

/-- What a plan does when the tasks it asks for are done to some depth. -/
theorem Plan.Sound.follow {α : Type} {settings : Settings} {depth : Nat} {p : Plan α}
    {post : α → Layout → Memory → Prop} (hp : p.Sound L₀ m₀ post L)
    (hrec : ∀ task m L, m.Laid L → L.length = m.heap.frames.size → task.Ready m L →
      L.Along (Call.Resolves settings) (Call.traceOf settings depth task m) ∧
        Eval.Ends L m (L.after (Call.traceOf settings depth task m))
          (Eval.run settings depth task m)) :
    L.Along (Call.Resolves settings) ((p.path (Eval.run settings depth)).flatMap fun q =>
        Call.traceOf settings depth q.1 q.2) ∧
      Eval.Ends L₀ m₀ (L.after ((p.path (Eval.run settings depth)).flatMap fun q =>
        Call.traceOf settings depth q.1 q.2)) (p.follow (Eval.run settings depth)) := by
  induction p generalizing L with
  | done outcome =>
      cases outcome with
      | ok a m => exact ⟨trivial, hp.1⟩
      | error s m => exact ⟨trivial, hp⟩
  | ask task m next ih =>
      obtain ⟨hreached, hready, hnext⟩ := hp
      obtain ⟨halong, hends⟩ := hrec task m L hreached.laid hreached.size hready
      unfold path follow
      rw [List.flatMap_cons, Layout.after_append]
      cases hanswer : Eval.run settings depth task m with
      | ok v m' =>
          rw [hanswer] at hends
          obtain ⟨hrest, hfollow⟩ := ih v m' (hnext v _ m' hends)
          exact ⟨Layout.along_append halong hrest, hfollow⟩
      | error s m' =>
          -- the rest of the plan is not followed, and the trace ends with this call
          rw [hanswer] at hends
          exact ⟨Layout.along_append halong trivial, hreached.trans hends.1, hends.2⟩

theorem Eval.Ends.declared {α : Type} {outcome : Outcome α} (h : Ends L₀ m₀ L outcome)
    (name : String) (m : Memory) : outcome ≠ .error (.fault (.unresolvedVariable name)) m := by
  rintro rfl
  cases h.2

/-- Frames that are closed at the end change nothing about scopes. -/
theorem Eval.Ends.closeAll {outcome : Outcome Value} (h : Ends L₀ m₀ L outcome)
    (frames : List FrameId) : Ends L₀ m₀ L (closeAll frames outcome) := by
  induction frames generalizing outcome with
  | nil => exact h
  | cons f frames ih =>
      refine ih ?_
      cases outcome with
      | ok v m => exact Memory.Reached.calm h (.retire m f)
      | error s m =>
          obtain ⟨hreached, hresolved⟩ := h
          cases s with
          | unwind v home =>
              show Ends L₀ m₀ L (if home = f then _ else _)
              split
              · exact hreached.calm (.retire m f)
              · exact ⟨hreached.calm (.retire m f), rfl⟩
          | _ => exact ⟨hreached.calm (.retire m f), hresolved⟩

/-- A reference or an assignment resolves where its tree stands. The value of an assignment
is evaluated first, which leaves the names of the frames alone. -/
theorem Call.resolves {settings : Settings} {depth : Nat} {task : Task}
    (hsize : L.length = m.heap.frames.size) (hready : task.Ready m L)
    (hends : Eval.Ends L m L' (Eval.run settings depth task m))
    (hvalue : ∀ d task, depth = d + 1 → task.Ready m L →
      ∃ L', Eval.Ends L m L' (Eval.run settings d task m)) :
    Call.Resolves settings L ⟨task, m, depth⟩ where
  size := hsize
  declared := hends.declared
  reads name kind index f key htask hlocal hkey := by
    obtain rfl : task = .evaluate (.reference name kind index) f := htask
    obtain ⟨b, outer, hstands, hwrites⟩ := hready
    have hscoped := hwrites.isScoped hstands.written.isScoped
    obtain ⟨k, hk⟩ := Nest.index?_of_knows hscoped hlocal hkey
    obtain ⟨g, v, hbinds, -, hv, hlookup⟩ := hstands.binds ⟨b, rfl, hwrites⟩ hk
    refine ⟨_, k, g, v, hbinds, hv, fun d hd => ?_⟩
    obtain rfl : depth = d + 1 := hd
    exact Eval.readVariable_of_lookup hlocal hkey hlookup index
  assigns name kind index value f key htask hlocal hkey := by
    obtain rfl : task = .evaluate (.assign name kind index value) f := htask
    obtain ⟨b, outer, hstands, hwrites⟩ := hready
    have hscoped := hwrites.isScoped hstands.written.isScoped
    simp only [Node.isScoped, Bool.and_eq_true] at hscoped
    obtain ⟨k, hk⟩ := Nest.index?_of_knows hscoped.1 hlocal hkey
    obtain ⟨g, -, hbinds, -, -, -⟩ := hstands.binds ⟨b, rfl, hwrites⟩ hk
    refine ⟨_, k, g, hbinds, fun d v m' hd hrun => ?_⟩
    have hpart : Task.Ready m L (.evaluate value f) :=
      ⟨b, outer, hstands, hwrites.part List.mem_cons_self⟩
    obtain ⟨L', hends⟩ := hvalue d _ hd hpart
    rw [hrun] at hends
    have hreached : m.Reached L L' m' := hends
    obtain ⟨g', v', hbinds', howner, hv', -⟩ :=
      (hreached.stands hstands).binds ⟨b, rfl, hwrites⟩ hk
    -- the chain is still the same, and so is the frame
    obtain rfl : g = g' := by
      have hout := hbinds'.out
      unfold Heap.chain at hout
      rw [hreached.keeps.outer f hstands.lt] at hout
      exact Option.some.inj (hbinds.out.symm.trans hout)
    refine ⟨Option.isSome_iff_exists.mpr ⟨v', hv'⟩, ?_⟩
    obtain rfl : depth = d + 1 := hd
    show (Eval.run settings d (.evaluate value f) >>= fun v =>
      Eval.writeVariable f name kind index v >>= fun _ => pure v) m = _
    rw [bind_of_ok hrun, bind_of_ok (Eval.writeVariable_of_owner hlocal hkey howner index v)]
    rfl

/-- The induction on the depth. -/
theorem Call.resolves_of_trace (settings : Settings) (depth : Nat) (task : Task)
    (hlaid : m.Laid L) (hsize : L.length = m.heap.frames.size) (hready : task.Ready m L) :
    L.Along (Call.Resolves settings) (traceOf settings depth task m) ∧
      Eval.Ends L m (L.after (traceOf settings depth task m))
        (Eval.run settings depth task m) := by
  induction depth generalizing L task m with
  | zero =>
      have hends : Eval.Ends L m L (Eval.run settings 0 task m) := ⟨.refl hlaid hsize, rfl⟩
      exact ⟨⟨Call.resolves hsize hready hends (fun d _ hd => nomatch hd), trivial⟩, hends⟩
  | succ depth ih =>
      have hplan := (Staged.sound_step settings hlaid hsize hready depth).follow
        fun task m L hl hs hr => ih task hl hs hr
      have hrun : Eval.run settings (depth + 1) task m = Eval.closeAll
          ((Staged.step settings task).opens m)
          (((Staged.step settings task).plan m).follow (Eval.run settings depth)) :=
        (Staged.step settings task).follows (Eval.run settings depth) m
      -- closing the frames of the step moves no frame either
      have hends := hplan.2.closeAll ((Staged.step settings task).opens m)
      rw [← hrun] at hends
      rw [traceOf_succ]
      refine ⟨⟨Call.resolves hsize hready hends fun d part hd hpart => ?_, hplan.1⟩, hends⟩
      obtain rfl : depth = d := Nat.succ.inj hd
      exact ⟨_, (ih part hlaid hsize hpart).2⟩

end Smalltalk
