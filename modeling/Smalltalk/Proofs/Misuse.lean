import Smalltalk.Evaluation

/-!
# `Smalltalk.Proofs.Misuse`: faults of names and numbers

A name that names nothing, a selector that is no text and a tag that is no number are
misuses. So a fault that comes of looking at one of them, or of making a line of the
journal, is a misuse (`Fault.isMisuse_of_keyOf` and those after it). An index may also be
out of range, and a fault about a name is a misuse where the name is no text.
-/

set_option autoImplicit false

namespace Smalltalk

namespace Fault

variable {m : Memory} {f : Fault}

theorem isMisuse_of_keyOf {name : Json} (h : keyOf name = .error f) : f.isMisuse = true := by
  unfold keyOf at h
  split at h <;> cases h
  rfl

theorem isMisuse_of_wordOf {name : Json} (h : wordOf name = .error f) : f.isMisuse = true := by
  unfold wordOf at h
  split at h <;> cases h
  rfl

theorem isMisuse_of_wholeOf {number : Json} (h : wholeOf number = .error f) :
    f.isMisuse = true := by
  unfold wholeOf at h
  split at h
  · cases h
  · cases h
  · split at h <;> cases h
    rfl
  · cases h
    rfl

theorem isMisuse_of_map {α β : Type} {e : Except Fault α} {g : α → β}
    (he : ∀ f, e = .error f → f.isMisuse = true) (h : e.map g = .error f) :
    f.isMisuse = true := by
  cases e with
  | ok a => cases h
  | error f' =>
      cases h
      exact he f rfl

theorem isMisuse_of_methodWord {method : Method} (h : m.methodWord method = .error f) :
    f.isMisuse = true :=
  isMisuse_of_map (fun _ => isMisuse_of_wordOf) h

theorem isMisuse_of_frameWord {frame : FrameId} (h : m.frameWord frame = .error f) :
    f.isMisuse = true := by
  refine isMisuse_of_map (fun f' hf' => ?_) h
  split at hf'
  · exact isMisuse_of_wordOf hf'
  · cases hf'

theorem isMisuse_of_failureLine {method : Method} {reason : Reason}
    (h : Eval.failureLine method reason m = .error f) : f.isMisuse = true := by
  unfold Eval.failureLine at h
  cases hnumber : wholeOf method.primitive with
  | error f' =>
      rw [hnumber] at h
      cases h
      exact isMisuse_of_wholeOf hnumber
  | ok number =>
      rw [hnumber] at h
      exact isMisuse_of_map (fun _ => isMisuse_of_methodWord) h

theorem isMisuse_of_decide {settings : Settings} {receiver : Value} {args : List Value}
    {number : Json} (h : Eval.decide settings m receiver args number = .error f) :
    f.isMisuse = true := by
  unfold Eval.decide at h
  cases hkey : keyOf number with
  | error f' =>
      rw [hkey] at h
      cases h
      exact isMisuse_of_keyOf hkey
  | ok key =>
      simp only [hkey, bind, Except.bind] at h
      split at h <;> cases h

/-- An index that names no slot is out of range, or a misuse. -/
theorem of_slotNumber {index : Json} {size : Nat} {bad : Unit → Fault}
    (h : Eval.slotNumber index size bad = .error f) : f = bad () ∨ f.isMisuse = true := by
  have hint : ∀ i : Int, (if 0 ≤ i ∧ i < size then .ok i.toNat else .error (bad ()) :
      Except Fault Nat) = .error f → f = bad () := by
    intro i hi
    split at hi <;> cases hi
    rfl
  unfold Eval.slotNumber at h
  split at h
  · exact .inl (Except.error.inj h).symm
  · exact .inl (hint _ h)
  · exact .inl (hint _ h)
  · split at h <;> cases h
    · exact .inr rfl
    · exact .inl rfl
  · cases h
    exact .inr rfl

/-- A fault about a name is one for a word, or a misuse. -/
theorem of_about {P : Fault → Prop} {name : Json} {fault : String → Fault}
    (hword : ∀ word, P (fault word)) (hmisuse : ∀ f, f.isMisuse = true → P f) :
    P (about name fault) := by
  unfold about
  split
  · exact hword _
  · exact hmisuse _ (isMisuse_of_wordOf ‹_›)

end Fault

end Smalltalk
