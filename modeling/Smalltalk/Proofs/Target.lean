import Mathlib.Data.List.Infix
import Mathlib.Data.List.TakeWhile
import Smalltalk.Target

/-!
# `Smalltalk.Proofs.Target`: which texts are targets

A text is divided at its first `>>` (`Target.Divides`). It is no target where it has none,
where all before it is blank, or where nothing stands behind it. In a target the name of the
class is something that has no blanks around it and no `>>` in it (`Target.IsClassName`), and
such a name is read back, with either side of the class and any selector.

The selector has no blanks around it either. But whether it is there is looked at before its
blanks are removed, so a text that has only blanks behind the `>>` is a target without a
selector.
-/

set_option autoImplicit false

namespace Smalltalk

/-! ### Blanks -/

namespace Text

/-- No blank stands at either end. -/
structure IsTrimmed (cs : List Char) : Prop where
  head : ∀ c, cs.head? = some c → isBlank c = false
  last : ∀ c, cs.getLast? = some c → isBlank c = false

variable {cs : List Char}

theorem dropWhile_eq_self {p : Char → Bool} (h : ∀ c, cs.head? = some c → p c = false) :
    cs.dropWhile p = cs := by
  cases cs with
  | nil => rfl
  | cons c rest => exact List.dropWhile_cons_of_neg (by simp [h c rfl])

/-- Nothing is trimmed from a text without blanks around it. -/
theorem IsTrimmed.trim (h : IsTrimmed cs) : trim cs = cs := by
  have hlast : ∀ c, cs.reverse.head? = some c → isBlank c = false := by
    intro c hc
    rw [List.head?_reverse] at hc
    exact h.last c hc
  unfold Text.trim stripWhile dropEndWhile
  rw [dropWhile_eq_self h.head, dropWhile_eq_self hlast, List.reverse_reverse]

theorem not_of_head?_dropWhile {p : Char → Bool} {c : Char}
    (h : (cs.dropWhile p).head? = some c) : p c = false := by
  have hnot := List.head?_dropWhile_not p cs
  rw [h] at hnot
  exact hnot

/-- What is left by trimming is a stretch of the text, from its first character that is no
blank on. -/
theorem trim_starts (cs : List Char) : trim cs <+: cs.dropWhile isBlank := by
  have hsuffix := List.dropWhile_suffix (l := (cs.dropWhile isBlank).reverse) isBlank
  rw [← List.reverse_suffix]
  unfold Text.trim stripWhile dropEndWhile
  rwa [List.reverse_reverse]

theorem trim_within (cs : List Char) : trim cs <:+: cs :=
  (trim_starts cs).isInfix.trans (List.dropWhile_suffix isBlank).isInfix

theorem isTrimmed_trim (cs : List Char) : IsTrimmed (trim cs) where
  head c hc := by
    obtain ⟨behind, hstarts⟩ := trim_starts cs
    have hhead : (cs.dropWhile isBlank).head? = some c := by
      rw [← hstarts]
      cases htrim : trim cs with
      | nil =>
          rw [htrim] at hc
          cases hc
      | cons d rest =>
          rw [htrim] at hc
          exact hc
    exact not_of_head?_dropWhile hhead
  last c hc := by
    unfold trim stripWhile dropEndWhile at hc
    rw [List.getLast?_reverse] at hc
    exact not_of_head?_dropWhile hc

/-- Only blanks are trimmed to nothing. -/
theorem trim_eq_nil_iff : trim cs = [] ↔ ∀ c ∈ cs, isBlank c = true := by
  unfold trim stripWhile dropEndWhile
  rw [List.reverse_eq_nil_iff, List.dropWhile_eq_nil_iff]
  simp only [List.mem_reverse]
  constructor
  · intro h
    rw [← List.dropWhile_eq_nil_iff]
    -- the first character that is left would be both
    cases hrest : cs.dropWhile isBlank with
    | nil => rfl
    | cons c rest =>
        have hhead : (cs.dropWhile isBlank).head? = some c := by rw [hrest]; rfl
        have hblank := h c (hrest ▸ List.mem_cons_self)
        rw [not_of_head?_dropWhile hhead] at hblank
        cases hblank
  · intro h c hc
    exact h c ((List.dropWhile_suffix isBlank).subset hc)

end Text

namespace Target

open Text (IsTrimmed)

/-! ### The first divider -/

/-- What stands between the two halves of a target. -/
def divider : List Char := ['>', '>']

/-- The first divider of a text has these on its two sides. -/
def Divides (text before after : List Char) : Prop :=
  text = before ++ divider ++ after ∧ ¬ divider <:+: before ++ ['>']

theorem divide_eq_some_iff {text before after : List Char} :
    divide text = some (before, after) ↔ Divides text before after := by
  unfold Divides
  fun_induction divide text generalizing before with
  | case1 rest =>
      simp only [Option.some.injEq, Prod.mk.injEq]
      constructor
      · rintro ⟨rfl, rfl⟩
        exact ⟨rfl, by decide⟩
      · rintro ⟨htext, hfirst⟩
        cases before with
        | nil => exact ⟨rfl, by simpa [divider] using htext⟩
        | cons c before =>
            -- the divider that the text begins with would not be the first
            refine absurd ?_ hfirst
            cases before with
            | nil =>
                cases htext
                exact List.infix_refl _
            | cons d before =>
                cases htext
                exact (List.prefix_append divider _).isInfix
  | case2 c rest hnot ih =>
      simp only [Option.map_eq_some_iff, Prod.exists, Prod.mk.injEq]
      constructor
      · rintro ⟨before', after', hrest, rfl, rfl⟩
        obtain ⟨rfl, hfirst⟩ := ih.mp hrest
        refine ⟨rfl, fun hwithin => ?_⟩
        rcases List.infix_cons_iff.mp hwithin with hstarts | hwithin
        · -- a divider at the beginning goes on into the text
          obtain ⟨behind, hstarts⟩ := hstarts
          cases before' with
          | nil =>
              cases hstarts
              exact hnot _ rfl rfl
          | cons d before' =>
              cases hstarts
              exact hnot _ rfl rfl
        · exact hfirst hwithin
      · rintro ⟨htext, hfirst⟩
        cases before with
        | nil =>
            obtain ⟨rfl, hrest⟩ := List.cons.inj htext
            exact absurd hrest (hnot _ rfl)
        | cons d before =>
            obtain ⟨rfl, hrest⟩ := List.cons.inj htext
            refine ⟨before, after, ih.mpr ⟨hrest, fun hwithin => hfirst ?_⟩, rfl, rfl⟩
            exact List.infix_cons hwithin
  | case3 =>
      simp [divider]

/-- A divider does not begin in what is added when that has no `>`. -/
theorem undivided_append {before mark : List Char} (hmark : '>' ∉ mark)
    (h : ¬ divider <:+: before) : ¬ divider <:+: before ++ mark := by
  induction mark generalizing before with
  | nil => rwa [List.append_nil]
  | cons c mark ih =>
      rw [List.mem_cons, not_or] at hmark
      rw [← List.singleton_append, ← List.append_assoc]
      refine ih hmark.2 fun hwithin => ?_
      rcases List.infix_concat_iff.mp hwithin with hsuffix | hwithin
      · obtain ⟨ahead, hahead⟩ := hsuffix
        have hlast := congrArg List.getLast? hahead
        simp [divider] at hlast
        exact hmark.1 hlast
      · exact h hwithin

/-- A text without a divider that does not end in `>` is divided off by the divider behind it. -/
theorem divides_of_undivided {before : List Char} (after : List Char)
    (h : ¬ divider <:+: before) (hlast : before.getLast? ≠ some '>') :
    Divides (before ++ divider ++ after) before after := by
  refine ⟨rfl, fun hwithin => ?_⟩
  rcases List.infix_concat_iff.mp hwithin with hsuffix | hwithin
  · obtain ⟨ahead, hahead⟩ := hsuffix
    have hbefore : ahead ++ ['>'] = before := by
      rw [divider, ← List.singleton_append, ← List.append_assoc] at hahead
      exact List.append_cancel_right hahead
    rw [← hbefore, List.getLast?_concat] at hlast
    exact hlast rfl
  · exact h hwithin

/-! ### The two halves -/

theorem dropMark?_eq_some_iff {mark cs name : List Char} :
    dropMark? mark cs = some name ↔ cs = name ++ mark := by
  unfold dropMark?
  constructor
  · intro h
    split at h
    · next hmark =>
        obtain ⟨ahead, rfl⟩ := List.isSuffixOf_iff_suffix.mp hmark
        simpa using h
    · cases h
  · rintro rfl
    simp

theorem dropMark?_eq_none_iff {mark cs : List Char} :
    dropMark? mark cs = none ↔ ¬ mark <:+ cs := by
  simp [dropMark?]

/-- What the first half of a target names: a class, and on which side of it. -/
def Names (before name : List Char) : Bool → Prop
  | true => ∃ marked, Text.trim before = marked ++ classMark ∧ name = Text.trim marked
  | false => ¬ classMark <:+ Text.trim before ∧ name = Text.trim before

theorem exists_names (before : List Char) : ∃ name classSide, Names before name classSide := by
  by_cases hmark : classMark <:+ Text.trim before
  · obtain ⟨marked, hmarked⟩ := hmark
    exact ⟨_, true, marked, hmarked.symm, rfl⟩
  · exact ⟨_, false, hmark, rfl⟩

/-- The mark alone is no name: it begins with a blank. -/
theorem Names.eq_nil_iff {before name : List Char} {classSide : Bool}
    (h : Names before name classSide) :
    name = [] ↔ ∀ c ∈ before, Text.isBlank c = true := by
  rw [← Text.trim_eq_nil_iff]
  cases classSide with
  | false => rw [h.2]
  | true =>
      obtain ⟨marked, hmarked, rfl⟩ := h
      rw [hmarked]
      refine ⟨fun hblank => ?_, fun hnil => by simp [classMark] at hnil⟩
      have htrimmed := Text.isTrimmed_trim before
      rw [hmarked] at htrimmed
      cases marked with
      | nil => exact absurd (htrimmed.head ' ' rfl) (by decide)
      | cons c marked =>
          have hc := Text.trim_eq_nil_iff.mp hblank c List.mem_cons_self
          rw [htrimmed.head c rfl] at hc
          cases hc

theorem Names.trimmed {before name : List Char} {classSide : Bool}
    (h : Names before name classSide) : IsTrimmed name := by
  cases classSide with
  | false => exact h.2 ▸ Text.isTrimmed_trim before
  | true =>
      obtain ⟨marked, -, rfl⟩ := h
      exact Text.isTrimmed_trim marked

theorem Names.within {before name : List Char} {classSide : Bool}
    (h : Names before name classSide) : name <:+: before := by
  cases classSide with
  | false => exact h.2 ▸ Text.trim_within before
  | true =>
      obtain ⟨marked, hmarked, rfl⟩ := h
      have hmarked' : marked <:+: Text.trim before := hmarked ▸ (List.prefix_append ..).isInfix
      exact ((Text.trim_within marked).trans hmarked').trans (Text.trim_within before)

/-- The target that a divided text names. -/
theorem parse?_of_divides {text before after name : List Char} {classSide : Bool}
    (hdivides : Divides text before after) (hnames : Names before name classSide) :
    parse? text = if name = [] ∨ after = [] then none
      else some ⟨String.ofList name, classSide, String.ofList (Text.trim after)⟩ := by
  unfold parse?
  rw [divide_eq_some_iff.mpr hdivides]
  cases classSide with
  | false =>
      obtain ⟨hmark, rfl⟩ := hnames
      simp [dropMark?_eq_none_iff.mpr hmark]
  | true =>
      obtain ⟨marked, hmarked, rfl⟩ := hnames
      simp [dropMark?_eq_some_iff.mpr hmarked]

theorem parse?_of_undivided {text : List Char}
    (h : ∀ before after, ¬ Divides text before after) : parse? text = none := by
  have hdivide : divide text = none := by
    cases hdivided : divide text with
    | none => rfl
    | some p => exact absurd (divide_eq_some_iff.mp hdivided) (h p.1 p.2)
  unfold parse?
  rw [hdivide]

/-! ### The texts that are targets -/

/-- What a target has as the name of its class. -/
structure IsClassName (name : List Char) : Prop where
  ne_nil : name ≠ []
  trimmed : IsTrimmed name
  undivided : ¬ divider <:+: name

theorem parse?_eq_none_iff (text : List Char) :
    parse? text = none ↔
      ∀ before after, Divides text before after →
        (∀ c ∈ before, Text.isBlank c = true) ∨ after = [] := by
  constructor
  · intro hnone before after hdivides
    obtain ⟨name, classSide, hnames⟩ := exists_names before
    rw [parse?_of_divides hdivides hnames] at hnone
    rw [← hnames.eq_nil_iff]
    by_contra hboth
    rw [if_neg hboth] at hnone
    cases hnone
  · intro h
    by_cases hdivided : ∃ before after, Divides text before after
    · obtain ⟨before, after, hdivides⟩ := hdivided
      obtain ⟨name, classSide, hnames⟩ := exists_names before
      have hempty := h _ _ hdivides
      rw [← hnames.eq_nil_iff] at hempty
      rw [parse?_of_divides hdivides hnames, if_pos hempty]
    · exact parse?_of_undivided fun before after hdivides => hdivided ⟨before, after, hdivides⟩

/-- Where a target comes from. -/
theorem exists_divides_of_parse? {text : List Char} {target : Target}
    (h : parse? text = some target) :
    ∃ before after name, Divides text before after ∧ Names before name target.classSide ∧
      name ≠ [] ∧ after ≠ [] ∧ target.className = String.ofList name ∧
      target.selector = String.ofList (Text.trim after) := by
  by_cases hdivided : ∃ before after, Divides text before after
  · obtain ⟨before, after, hdivides⟩ := hdivided
    obtain ⟨name, classSide, hnames⟩ := exists_names before
    rw [parse?_of_divides hdivides hnames] at h
    split at h
    · cases h
    · next hboth =>
        rw [not_or] at hboth
        cases h
        exact ⟨before, after, name, hdivides, hnames, hboth.1, hboth.2, rfl, rfl⟩
  · rw [parse?_of_undivided fun before after hdivides => hdivided ⟨before, after, hdivides⟩] at h
    cases h

theorem isClassName_of_parse? {text : List Char} {target : Target}
    (h : parse? text = some target) : IsClassName target.className.toList := by
  obtain ⟨before, after, name, hdivides, hnames, hname, -, hclass, -⟩ :=
    exists_divides_of_parse? h
  rw [hclass, String.toList_ofList]
  refine ⟨hname, hnames.trimmed, fun hwithin => hdivides.2 ?_⟩
  exact (hwithin.trans hnames.within).trans (List.prefix_append before ['>']).isInfix

/-- The name of a class is what its half of a target names. -/
theorem IsClassName.names {name : List Char} (h : IsClassName name) :
    (¬ classMark <:+ name → Names name name false) ∧ Names (name ++ classMark) name true := by
  have hmarked : IsTrimmed (name ++ classMark) :=
    { head := fun c hc => h.trimmed.head c (by
        rwa [List.head?_append_of_ne_nil _ h.ne_nil] at hc)
      last := fun c hc => by
        simp [classMark] at hc
        exact hc ▸ by decide }
  exact ⟨fun hmark => by simp [Names, h.trimmed.trim, hmark],
    name, hmarked.trim, h.trimmed.trim.symm⟩

theorem parse?_instanceSide {name selector : List Char} (hname : IsClassName name)
    (hmark : ¬ classMark <:+ name) (hlast : name.getLast? ≠ some '>') (hne : selector ≠ [])
    (hselector : IsTrimmed selector) :
    parse? (name ++ divider ++ selector) =
      some ⟨String.ofList name, false, String.ofList selector⟩ := by
  rw [parse?_of_divides (divides_of_undivided selector hname.undivided hlast)
    (hname.names.1 hmark), hselector.trim]
  simp [hname.ne_nil, hne]

theorem parse?_classSide {name selector : List Char} (hname : IsClassName name)
    (hne : selector ≠ []) (hselector : IsTrimmed selector) :
    parse? (name ++ classMark ++ divider ++ selector) =
      some ⟨String.ofList name, true, String.ofList selector⟩ := by
  have hundivided : ¬ divider <:+: name ++ classMark :=
    undivided_append (by decide) hname.undivided
  rw [parse?_of_divides (divides_of_undivided selector hundivided (by simp [classMark]))
    hname.names.2, hselector.trim]
  simp [hname.ne_nil, hne]

/-- A text is no target where nothing divides it, where all before its first divider is blank
and where it ends there. A target names a class by a text without blanks around it and without
a divider, and a selector without blanks around it: an empty one exactly where only blanks
stand behind the divider. When the text is the name of a class, a divider and a selector that
is not empty, these are read back: for the instance side when the name does not end in the mark
or in half a divider, and for the class side with the mark behind any name. -/
theorem targets_are_read_back (text : List Char) :
    (parse? text = none ↔ ∀ before after, Divides text before after →
      (∀ c ∈ before, Text.isBlank c = true) ∨ after = []) ∧
    (∀ target, parse? text = some target →
      IsClassName target.className.toList ∧ IsTrimmed target.selector.toList ∧
      (target.selector = "" ↔ ∃ before after, Divides text before after ∧ after ≠ [] ∧
        ∀ c ∈ after, Text.isBlank c = true)) ∧
    ∀ name selector, IsClassName name → selector ≠ [] → IsTrimmed selector →
      (text = name ++ divider ++ selector → ¬ classMark <:+ name → name.getLast? ≠ some '>' →
        parse? text = some ⟨String.ofList name, false, String.ofList selector⟩) ∧
      (text = name ++ classMark ++ divider ++ selector →
        parse? text = some ⟨String.ofList name, true, String.ofList selector⟩) := by
  refine ⟨parse?_eq_none_iff text, fun target h => ?_, ?_⟩
  · obtain ⟨before, after, name, hdivides, -, -, hafter, -, hselector⟩ :=
      exists_divides_of_parse? h
    refine ⟨isClassName_of_parse? h, ?_, ?_⟩
    · rw [hselector, String.toList_ofList]
      exact Text.isTrimmed_trim after
    · rw [hselector, ← String.ofList_nil, String.ofList_inj, Text.trim_eq_nil_iff]
      constructor
      · exact fun hblank => ⟨before, after, hdivides, hafter, hblank⟩
      · rintro ⟨before', after', hdivides', -, hblank⟩
        -- a text has one first divider
        have hdivide := divide_eq_some_iff.mpr hdivides
        cases hdivide.symm.trans (divide_eq_some_iff.mpr hdivides')
        exact hblank
  · intro name selector hname hne hselector
    constructor
    · rintro rfl hmark hlast
      exact parse?_instanceSide hname hmark hlast hne hselector
    · rintro rfl
      exact parse?_classSide hname hne hselector

/-- The blank behind this divider passes for a selector, and is then removed. -/
theorem blank_passes_for_selector :
    ∃ target, parse? "A>> ".toList = some target ∧ IsClassName target.className.toList ∧
      target.selector = "" ∧
      parse? "Point class>>x".toList = some ⟨"Point", true, "x"⟩ := by
  have hparse : parse? "A>> ".toList = some ⟨"A", false, ""⟩ := by decide +kernel
  have hdivides : Divides "A>> ".toList ['A'] [' '] := divide_eq_some_iff.mp (by decide +kernel)
  have hblank : ∀ c ∈ [' '], Text.isBlank c = true := List.forall_mem_singleton.mpr rfl
  obtain ⟨-, hread, -⟩ := targets_are_read_back "A>> ".toList
  obtain ⟨hname, -, hempty⟩ := hread _ hparse
  have hselector := hempty.mpr ⟨_, _, hdivides, List.cons_ne_nil _ _, hblank⟩
  have hPoint : IsClassName "Point".toList :=
    isClassName_of_parse? (show parse? "Point>>x".toList = some ⟨"Point", false, "x"⟩ by
      decide +kernel)
  have hx : IsTrimmed ['x'] := (show Text.trim ['x'] = ['x'] by decide) ▸ Text.isTrimmed_trim _
  obtain ⟨-, -, hback⟩ := targets_are_read_back "Point class>>x".toList
  have hclassSide := (hback _ ['x'] hPoint (List.cons_ne_nil _ _) hx).2 (by decide)
  exact ⟨_, hparse, hname, hselector, hclassSide⟩

end Target

end Smalltalk
