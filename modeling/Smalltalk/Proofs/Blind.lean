import Smalltalk.Proofs.Bare
import Smalltalk.Proofs.Unnoticed

/-!
# `Smalltalk.Proofs.Blind`: nothing that runs looks at the tag of a frame's method

The tag of a method matters once, when the method is activated. `Alike act act'`
says that two evaluations that start from memories with one bare form end alike:
with the same value or the same stop, in memories with one bare form again. An
evaluation that is like itself is `Blind`.

Memories with one bare form are alike up to the tags (`Memory.bare_eq_iff`), so all of
this is the case of `Likeness.tags` of what is known of every likeness. Only the frame of a
method without its tag is compared with that of another method (`Alike.enter`).
-/

set_option autoImplicit false

namespace Smalltalk

/-! ### Evaluations that end alike -/

/-- Two outcomes with one value or one stop, in memories with one bare form. -/
inductive SameOutcome {α : Type} : Outcome α → Outcome α → Prop
  | ok (a : α) {m m' : Memory} (h : m.bare = m'.bare) : SameOutcome (.ok a m) (.ok a m')
  | error (stop : Stop) {m m' : Memory} (h : m.bare = m'.bare) :
    SameOutcome (.error stop m) (.error stop m')

theorem SameOutcome.of_tags {α : Type} {r r' : Outcome α} (h : Likeness.tags.Outcomes r r') :
    SameOutcome r r' := by
  cases h with
  | ok a h => exact .ok a (Memory.bare_eq_iff.mpr h)
  | error stop h => exact .error stop (Memory.bare_eq_iff.mpr h)

theorem SameOutcome.tags {α : Type} {r r' : Outcome α} (h : SameOutcome r r') :
    Likeness.tags.Outcomes r r' := by
  cases h with
  | ok a h => exact .ok a (Memory.bare_eq_iff.mp h)
  | error stop h => exact .error stop (Memory.bare_eq_iff.mp h)

namespace Eval

variable {α : Type}

/-- From memories with one bare form, two evaluations end alike. -/
def Alike (act act' : Eval α) : Prop :=
  ∀ m m', m.bare = m'.bare → SameOutcome (act m) (act' m')

/-- An evaluation to which a memory is as good as its bare form. -/
abbrev Blind (act : Eval α) : Prop := Alike act act

/-- A way to do tasks that is blind in all of them. -/
def AllBlind (rec : Task → Eval Value) : Prop := ∀ task, Blind (rec task)

namespace Alike

theorem of_tags {act act' : Eval α} (h : Likeness.tags.Alike act act') : Alike act act' :=
  fun m m' hbare => .of_tags (h m m' (Memory.bare_eq_iff.mp hbare))

theorem tags {act act' : Eval α} (h : Alike act act') : Likeness.tags.Alike act act' :=
  fun m m' halike => (h m m' (Memory.bare_eq_iff.mpr halike)).tags

variable {rec : Task → Eval Value}

/-- The frame of a method is that of the method without its tag, but for the tag. -/
theorem enter (method : Method) (receiver : Value) (args : List Value)
    (callers : List FrameId) : Alike (Eval.enter method receiver args callers)
      (Eval.enter method.bare receiver args callers) :=
  of_tags (Likeness.Unnoticed.makeFrame (fun _ _ => rfl) fun frame _ =>
    Likeness.Unnoticed.bind (Likeness.Unnoticed.declareAll frame method.params args) fun _ =>
      Likeness.Unnoticed.pure frame)

theorem closing (frame : FrameId) {act act' : Eval Value} (hact : Alike act act') :
    Alike (Eval.closing frame act) (Eval.closing frame act') :=
  of_tags (Likeness.Unnoticed.closing (Nat.zero_le frame) hact.tags)

theorem runMethodBody (hrec : AllBlind rec) (frame : FrameId) (method : Method)
    (receiver : Value) : Blind (Eval.runMethodBody rec frame method receiver) :=
  of_tags (Likeness.Unnoticed.runMethodBody (fun task => (hrec task).tags) frame method receiver)

theorem run (settings : Settings) (depth : Nat) : AllBlind (Eval.run settings depth) :=
  fun task => of_tags (Likeness.Unnoticed.run settings depth task)

end Alike

end Eval

end Smalltalk
