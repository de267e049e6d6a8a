import Mathlib.Data.List.Perm.Subperm
import Smalltalk.Proofs.Sends

/-!
# `Smalltalk.Proofs.Printing`: a printed value can be read back

A `Datum` is built from nil, booleans, integers, texts and arrays of such things, and
`Heap.Shows` says which value in a heap shows which datum. A value that shows one has a
print: what arrays it lies in are all of greater data, so it is none of them, and there are
not more of them than arrays (`Heap.Shows.printIn`).

The characters of a print are a code that tells where it ends, although the items of an
array stand next to each other with a blank between them. A text ends at its first quote
that is not written twice, and an integer where no digit follows. `Datum.chars_append_inj`
says so for any two prints that stand in front of something: the end of a row, a blank, or
nothing (`Datum.Ends`). So equal prints are prints of one datum, from whatever heaps.
-/

set_option autoImplicit false

namespace Smalltalk

/-! ### Data -/

/-- What is built from nil, booleans, integers, texts and arrays. -/
inductive Datum where
  | nil
  | bool (b : Bool)
  | int (i : Int)
  | text (s : String)
  | array (items : List Datum)

namespace Datum

mutual
/-- The characters that are printed. -/
def chars : Datum → List Char
  | nil => "nil".toList
  | bool b => (if b then "true" else "false").toList
  | int i => (toString i).toList
  | text s => Text.quote :: (Text.doubled s.toList ++ [Text.quote])
  | array items => '#' :: '(' :: row items

/-- The characters of the items of an array and of its end. -/
def row : List Datum → List Char
  | [] => [')']
  | d :: rest => chars d ++ tail rest

/-- The same behind an item. -/
def tail : List Datum → List Char
  | [] => [')']
  | d :: rest => ' ' :: (chars d ++ tail rest)
end

/-- The print of a datum. -/
def printed (d : Datum) : String := String.ofList d.chars

end Datum

mutual
/-- A value in a heap that shows a datum. -/
inductive Heap.Shows (h : Heap) : Value → Datum → Prop where
  | nil : Heap.Shows h .nil .nil
  | bool (b : Bool) : Heap.Shows h (.bool b) (.bool b)
  | int (i : Int) : Heap.Shows h (.int i) (.int i)
  | text (s : String) (origin : TextOrigin) : Heap.Shows h (.text s origin) (.text s)
  | array (a : ArrayId) (items : List Datum) (made : a < h.arrays.size)
      (each : Heap.ShowsEach h (h.array a).toList items) : Heap.Shows h (.array a) (.array items)

/-- Values that show data, one by one. -/
inductive Heap.ShowsEach (h : Heap) : List Value → List Datum → Prop where
  | nil : Heap.ShowsEach h [] []
  | cons {v : Value} {d : Datum} {vs : List Value} {ds : List Datum} (first : Heap.Shows h v d)
      (rest : Heap.ShowsEach h vs ds) : Heap.ShowsEach h (v :: vs) (d :: ds)
end

/-! ### What is printed -/

namespace Heap

variable {h : Heap}

mutual
/-- A value shows one datum only. -/
theorem Shows.unique {v : Value} {d e : Datum} : h.Shows v d → h.Shows v e → d = e
  | .nil, .nil => rfl
  | .bool _, .bool _ => rfl
  | .int _, .int _ => rfl
  | .text _ _, .text _ _ => rfl
  | .array _ _ _ each, .array _ _ _ each' => congrArg Datum.array (each.unique each')

theorem ShowsEach.unique {vs : List Value} {ds es : List Datum} :
    h.ShowsEach vs ds → h.ShowsEach vs es → ds = es
  | .nil, .nil => rfl
  | .cons first rest, .cons first' rest' =>
      congrArg₂ List.cons (first.unique first') (rest.unique rest')
end

/-- Arrays that a value of some data can lie in: they show greater data. -/
structure Around (h : Heap) (opened : List ArrayId) (data : List Datum) : Prop where
  distinct : opened.Nodup
  made : ∀ a ∈ opened, a < h.arrays.size
  greater : ∀ a ∈ opened, ∃ items, h.Shows (.array a) (.array items) ∧
    ∀ d ∈ data, sizeOf d < sizeOf (Datum.array items)

/-- There are not more of them than arrays. -/
theorem Around.length_le {opened : List ArrayId} {data : List Datum}
    (around : h.Around opened data) : opened.length ≤ h.arrays.size := by
  have hsubset : opened ⊆ List.range h.arrays.size := fun a ha =>
    List.mem_range.mpr (around.made a ha)
  have hlength := (around.distinct.subperm hsubset).length_le
  rwa [List.length_range] at hlength

theorem Around.cons {opened : List ArrayId} {d : Datum} {ds : List Datum}
    (around : h.Around opened (d :: ds)) : h.Around opened [d] ∧ h.Around opened ds := by
  obtain ⟨distinct, made, greater⟩ := around
  refine ⟨⟨distinct, made, fun a ha => ?_⟩, distinct, made, fun a ha => ?_⟩ <;>
    obtain ⟨items, hshows, hgreater⟩ := greater a ha <;>
    refine ⟨items, hshows, fun e he => hgreater e ?_⟩
  · exact List.mem_singleton.mp he ▸ List.mem_cons_self
  · exact List.mem_cons_of_mem _ he

/-- The items of an array lie in it, too. It is none of those that it lies in. -/
theorem Around.enter {opened : List ArrayId} {a : ArrayId} {items : List Datum}
    (around : h.Around opened [.array items]) (ha : h.Shows (.array a) (.array items)) :
    a ∉ opened ∧ h.Around (a :: opened) items := by
  -- each opened array holds something greater than what lies in it, so not itself
  have hnot : a ∉ opened := by
    intro hmem
    obtain ⟨items', ha', hgreater⟩ := around.greater a hmem
    have hlt := hgreater _ List.mem_cons_self
    rw [ha'.unique ha] at hlt
    exact Nat.lt_irrefl _ hlt
  have hitem : ∀ d ∈ items, sizeOf d < sizeOf (Datum.array items) := by
    intro d hd
    have hlt := List.sizeOf_lt_of_mem hd
    rw [Datum.array.sizeOf_spec]
    omega
  refine ⟨hnot, List.nodup_cons.mpr ⟨hnot, around.distinct⟩, ?_, ?_⟩
  · intro b hb
    rcases List.mem_cons.mp hb with rfl | hb
    · cases ha
      assumption
    · exact around.made b hb
  · intro b hb
    rcases List.mem_cons.mp hb with rfl | hb
    · exact ⟨items, ha, hitem⟩
    · obtain ⟨items', hb', hgreater⟩ := around.greater b hb
      have hlt := hgreater _ List.mem_cons_self
      exact ⟨items', hb', fun d hd => Nat.lt_trans (hitem d hd) hlt⟩

end Heap

namespace Datum

/-- A row is its parts with blanks between them, and the end. -/
theorem row_eq (items : List Datum) :
    row items = [' '].intercalate (items.map chars) ++ [')'] := by
  cases items with
  | nil => rfl
  | cons d rest =>
      rw [row]
      induction rest generalizing d with
      | nil => simp [tail]
      | cons e rest ih =>
          rw [tail, ih]
          simp only [List.map_cons, List.intercalate_cons_cons, List.append_assoc,
            List.cons_append, List.nil_append]

theorem printed_array (items : List Datum) :
    (array items).printed = "#(" ++ " ".intercalate (items.map printed) ++ ")" := by
  unfold printed
  rw [← String.toList_inj, String.toList_ofList, chars, row_eq]
  simp [String.toList_intercalate, Function.comp_def]

end Datum

namespace Memory

variable {m : Memory}

mutual
/-- A value that shows a datum is printed as that datum. -/
theorem printIn_of_shows {v : Value} {d : Datum} (fuel : Nat) (opened : List ArrayId) :
    m.heap.Shows v d → m.heap.Around opened [d] →
      fuel + opened.length = m.heap.arrays.size →
      m.printIn fuel opened v = some d.printed
  | .nil, _, _ => by cases fuel <;> rfl
  | .bool b, _, _ => by cases fuel <;> cases b <;> rfl
  | .int i, _, _ => by
      have hprinted : (Datum.int i).printed = toString i := String.ofList_toList
      cases fuel <;> exact congrArg some hprinted.symm
  | .text s origin, _, _ => by cases fuel <;> rfl
  | .array a items made each, around, hfuel => by
      obtain ⟨hnot, hentered⟩ := around.enter (.array a items made each)
      -- the fuel is the number of arrays that are not opened, and this is one of them
      have hle := hentered.length_le
      rw [List.length_cons] at hle
      cases fuel with
      | zero => omega
      | succ fuel =>
          have hparts := printIn_of_showsEach fuel (a :: opened) each hentered
            (by rw [List.length_cons]; omega)
          have hcontains : ¬ opened.contains a = true := by simpa using hnot
          show (if opened.contains a then none else _) = _
          rw [if_neg hcontains, hparts, Datum.printed_array]
          rfl

theorem printIn_of_showsEach {vs : List Value} {ds : List Datum} (fuel : Nat)
    (opened : List ArrayId) :
    m.heap.ShowsEach vs ds → m.heap.Around opened ds →
      fuel + opened.length = m.heap.arrays.size →
      vs.mapM (m.printIn fuel opened) = some (ds.map Datum.printed)
  | .nil, _, _ => rfl
  | .cons first rest, around, hfuel => by
      obtain ⟨haround, harounds⟩ := around.cons
      rw [List.mapM_cons, printIn_of_shows fuel opened first haround hfuel,
        printIn_of_showsEach fuel opened rest harounds hfuel]
      rfl
end

theorem print?_of_shows {v : Value} {d : Datum} (h : m.heap.Shows v d) :
    m.print? v = some d.printed :=
  printIn_of_shows _ [] h ⟨List.nodup_nil, nofun, nofun⟩ rfl

end Memory

/-! ### What is read back -/

namespace Datum

/-- What may stand behind a print: nothing, a blank before the next item, or the end of an
array. -/
def Ends (cs : List Char) : Prop := ∀ c, cs.head? = some c → c = ' ' ∨ c = ')'

theorem ends_nil : Ends [] := fun _ h => nomatch h

theorem ends_blank (cs : List Char) : Ends (' ' :: cs) := fun _ h => .inl (Option.some.inj h).symm

theorem ends_close (cs : List Char) : Ends (')' :: cs) := fun _ h => .inr (Option.some.inj h).symm

theorem not_ends_quote (cs : List Char) : ¬ Ends (Text.quote :: cs) := by
  intro h
  have hquote := h _ rfl
  revert hquote
  decide

variable {r s : List Char}

/-! #### Texts -/

theorem doubled_quote (cs : List Char) :
    Text.doubled (Text.quote :: cs) = Text.quote :: Text.quote :: Text.doubled cs :=
  if_pos rfl

theorem doubled_cons {c : Char} (h : c ≠ Text.quote) (cs : List Char) :
    Text.doubled (c :: cs) = c :: Text.doubled cs :=
  if_neg h

/-- A text that goes on is not at its end. -/
theorem doubled_cons_ne (hr : Ends r) (c : Char) (cs : List Char) :
    Text.doubled (c :: cs) ++ s ≠ Text.quote :: r := by
  intro h
  by_cases hc : c = Text.quote
  · rw [hc, doubled_quote] at h
    obtain ⟨-, rfl⟩ := List.cons.inj h
    exact not_ends_quote _ hr
  · rw [doubled_cons hc] at h
    exact hc (List.cons.inj h).1

/-- A text is known up to the first quote that is not written twice. -/
theorem doubled_append_inj {cs ds : List Char} (hr : Ends r) (hs : Ends s)
    (h : Text.doubled cs ++ Text.quote :: r = Text.doubled ds ++ Text.quote :: s) :
    cs = ds ∧ r = s := by
  induction cs generalizing ds with
  | nil =>
      cases ds with
      | nil => exact ⟨rfl, (List.cons.inj h).2⟩
      | cons d ds => exact absurd h.symm (doubled_cons_ne hr d ds)
  | cons c cs ih =>
      cases ds with
      | nil => exact absurd h (doubled_cons_ne hs c cs)
      | cons d ds =>
          by_cases hc : c = Text.quote <;> by_cases hd : d = Text.quote
          · rw [hc, hd, doubled_quote, doubled_quote] at h
            obtain ⟨rfl, rfl⟩ := ih (List.cons.inj (List.cons.inj h).2).2
            exact ⟨by rw [hc, hd], rfl⟩
          · rw [hc, doubled_quote, doubled_cons hd] at h
            exact absurd (List.cons.inj h).1.symm hd
          · rw [hd, doubled_quote, doubled_cons hc] at h
            exact absurd (List.cons.inj h).1 hc
          · rw [doubled_cons hc, doubled_cons hd] at h
            obtain ⟨rfl, hrest⟩ := List.cons.inj h
            obtain ⟨rfl, rfl⟩ := ih hrest
            exact ⟨rfl, rfl⟩

/-! #### Integers -/

/-- A character of a written integer. -/
def isNumeral (c : Char) : Bool := c.isDigit || c == '-'

theorem toList_toString (i : Int) : (toString i).toList =
    if 0 ≤ i then Nat.toDigits 10 i.toNat else '-' :: Nat.toDigits 10 (-i).toNat := by
  rw [Int.toString_eq_repr, Int.repr_eq_if]
  split <;> simp [Nat.toList_repr]

theorem isDigit_of_mem {n : Nat} {c : Char} (h : c ∈ Nat.toDigits 10 n) : c.isDigit = true :=
  Nat.isDigit_of_mem_toDigits (by decide) (by decide) h

theorem isNumeral_of_mem {i : Int} {c : Char} (h : c ∈ (toString i).toList) :
    isNumeral c = true := by
  unfold isNumeral
  rw [Bool.or_eq_true]
  rw [toList_toString] at h
  split at h
  · exact .inl (isDigit_of_mem h)
  · rcases List.mem_cons.mp h with rfl | h
    · exact .inr rfl
    · exact .inl (isDigit_of_mem h)

/-- A digit string is that of one number. -/
theorem toDigits_inj {m n : Nat} (h : Nat.toDigits 10 m = Nat.toDigits 10 n) : m = n := by
  have hread := congrArg (Nat.ofDigitChars 10 · 0) h
  simpa only [Nat.ofDigitChars_ten_toDigits] using hread

/-- A number does not begin with a sign. -/
theorem toDigits_ne_minus (n m : Nat) : Nat.toDigits 10 n ≠ '-' :: Nat.toDigits 10 m := by
  intro h
  have hdigit := isDigit_of_mem (h ▸ List.mem_cons_self : '-' ∈ Nat.toDigits 10 n)
  cases hdigit

theorem toString_inj {i j : Int} (h : (toString i).toList = (toString j).toList) : i = j := by
  rw [toList_toString, toList_toString] at h
  split at h <;> split at h
  · have heq := toDigits_inj h
    omega
  · exact absurd h (toDigits_ne_minus _ _)
  · exact absurd h.symm (toDigits_ne_minus _ _)
  · have heq := toDigits_inj (List.cons.inj h).2
    omega

theorem toList_toString_ne_nil (i : Int) : (toString i).toList ≠ [] := by
  rw [toList_toString]
  split
  · exact Nat.toDigits_ne_nil
  · exact List.cons_ne_nil _ _

/-- An integer is known up to the first character that is none of its own. -/
theorem toString_append_inj {i j : Int} (hr : Ends r) (hs : Ends s)
    (h : (toString i).toList ++ r = (toString j).toList ++ s) : i = j ∧ r = s := by
  have hend : ∀ {cs : List Char}, Ends cs → cs.takeWhile isNumeral = [] := by
    intro cs hcs
    cases cs with
    | nil => rfl
    | cons c cs => rcases hcs c rfl with rfl | rfl <;> rfl
  -- the numerals in front are the integer, since what stands behind it has none
  have htake := congrArg (List.takeWhile isNumeral) h
  rw [List.takeWhile_append_of_pos fun _ => isNumeral_of_mem,
    List.takeWhile_append_of_pos fun _ => isNumeral_of_mem, hend hr, hend hs, List.append_nil,
    List.append_nil] at htake
  rw [htake] at h
  exact ⟨toString_inj htake, List.append_cancel_left h⟩

/-! #### Data -/

/-- What the first character of a print tells. -/
inductive Kind where
  | nil
  | bool (b : Bool)
  | int
  | text
  | array

/-- The kind that a character begins; a blank and a parenthesis begin none. -/
def Kind.ofChar? (c : Char) : Option Kind :=
  if isNumeral c then some int
  else if c = Text.quote then some text
  else if c = '#' then some array
  else if c = 'n' then some nil
  else if c = 't' then some (bool true)
  else if c = 'f' then some (bool false)
  else none

/-- The kind of a datum. -/
def kind : Datum → Kind
  | nil => .nil
  | bool b => .bool b
  | int _ => .int
  | text _ => .text
  | array _ => .array

theorem kind_of_chars (d : Datum) (r : List Char) :
    (d.chars ++ r).head?.bind Kind.ofChar? = some d.kind := by
  cases d with
  | nil => rfl
  | bool b => cases b <;> rfl
  | int i =>
      have hnumeral : ∀ c ∈ (toString i).toList, isNumeral c = true := fun _ => isNumeral_of_mem
      have hne := toList_toString_ne_nil i
      show ((toString i).toList ++ r).head?.bind Kind.ofChar? = some Kind.int
      cases hchars : (toString i).toList with
      | nil => exact absurd hchars hne
      | cons c cs =>
          rw [hchars] at hnumeral
          exact if_pos (hnumeral c List.mem_cons_self)
  | text s => rfl
  | array items => rfl

/-- Two prints that stand in front of something are of one kind. -/
theorem kind_eq {d e : Datum} (h : d.chars ++ r = e.chars ++ s) : d.kind = e.kind := by
  have hd := kind_of_chars d r
  rw [h, kind_of_chars] at hd
  exact (Option.some.inj hd).symm

theorem ends_tail (rest : List Datum) (cs : List Char) : Ends (tail rest ++ cs) := by
  cases rest with
  | nil => exact ends_close _
  | cons e rest => exact ends_blank _

/-- No item begins where an array ends. -/
theorem row_cons_ne (d : Datum) (rest : List Datum) : row (d :: rest) ++ s ≠ ')' :: r := by
  intro h
  have hkind := kind_of_chars d (tail rest ++ s)
  rw [← List.append_assoc, ← row, h] at hkind
  cases hkind

mutual
/-- Where a print stands in front of something, it is known which datum it is of and where it
ends. -/
theorem chars_append_inj : (d : Datum) → ∀ {e : Datum} {r s : List Char}, Ends r → Ends s →
    d.chars ++ r = e.chars ++ s → d = e ∧ r = s
  -- in each case the first character leaves one constructor for the other datum
  | .nil, e, r, s, _, _, h => by
      cases e with
      | nil => exact ⟨rfl, List.append_cancel_left h⟩
      | _ => cases kind_eq h
  | .bool b, e, r, s, _, _, h => by
      cases e with
      | bool b' =>
          cases kind_eq h
          exact ⟨rfl, List.append_cancel_left h⟩
      | _ => cases kind_eq h
  | .int i, e, r, s, hr, hs, h => by
      cases e with
      | int j =>
          obtain ⟨rfl, rfl⟩ := toString_append_inj hr hs h
          exact ⟨rfl, rfl⟩
      | _ => cases kind_eq h
  | .text t, e, r, s, hr, hs, h => by
      cases e with
      | text t' =>
          simp only [chars, List.cons_append, List.append_assoc, List.nil_append] at h
          obtain ⟨htext, rfl⟩ := doubled_append_inj hr hs (List.cons.inj h).2
          exact ⟨congrArg text (String.toList_inj.mp htext), rfl⟩
      | _ => cases kind_eq h
  | .array items, e, r, s, _, _, h => by
      cases e with
      | array items' =>
          obtain ⟨rfl, rfl⟩ := row_append_inj items (List.cons.inj (List.cons.inj h).2).2
          exact ⟨rfl, rfl⟩
      | _ => cases kind_eq h

/-- The same of the items of an array, whatever stands behind it. -/
theorem row_append_inj : (items : List Datum) → ∀ {items' : List Datum} {r s : List Char},
    row items ++ r = row items' ++ s → items = items' ∧ r = s
  | [], items', r, s, h => by
      cases items' with
      | nil => exact ⟨rfl, List.append_cancel_left h⟩
      | cons e rest' => exact absurd h.symm (row_cons_ne e rest')
  | d :: rest, items', r, s, h => by
      cases items' with
      | nil => exact absurd h (row_cons_ne d rest)
      | cons e rest' =>
          -- an item ends where its tail begins, with a blank or with the end of the array
          rw [row, row, List.append_assoc, List.append_assoc] at h
          obtain ⟨rfl, htail⟩ := chars_append_inj d (ends_tail rest r) (ends_tail rest' s) h
          obtain ⟨rfl, rfl⟩ := tail_append_inj rest htail
          exact ⟨rfl, rfl⟩

theorem tail_append_inj : (rest : List Datum) → ∀ {rest' : List Datum} {r s : List Char},
    tail rest ++ r = tail rest' ++ s → rest = rest' ∧ r = s
  | [], rest', r, s, h => by
      cases rest' with
      | nil => exact ⟨rfl, List.append_cancel_left h⟩
      | cons e rest' => cases (List.cons.inj h).1
  | d :: rest, rest', r, s, h => by
      cases rest' with
      | nil => cases (List.cons.inj h).1
      | cons e rest' =>
          have hrow : d.chars ++ tail rest ++ r = e.chars ++ tail rest' ++ s :=
            (List.cons.inj h).2
          rw [List.append_assoc, List.append_assoc] at hrow
          obtain ⟨rfl, htail⟩ := chars_append_inj d (ends_tail rest r) (ends_tail rest' s) hrow
          obtain ⟨rfl, rfl⟩ := tail_append_inj rest htail
          exact ⟨rfl, rfl⟩
end

/-- Equal prints are prints of one datum. -/
theorem printed_inj {d e : Datum} (h : d.printed = e.printed) : d = e := by
  have hchars : d.chars ++ [] = e.chars ++ [] := congrArg (· ++ []) (String.ofList_inj.mp h)
  exact (chars_append_inj d ends_nil ends_nil hchars).1

end Datum

/-! ### Sends -/

namespace Eval

variable {m : Memory} {v : Value}

/-- The primitive that prints answers the print of the value: a text that is one more in the
memory, or a word that was there. -/
theorem perform_print {s : String} (h : m.print? v = some s) (settings : Settings)
    (rec : Task → Eval Value) (frame : FrameId) :
    ∃ m', m.Aside [] m' ∧ ∃ origin,
      perform settings rec frame (.print v) m = .ok (.text s origin) m' := by
  have hprinted : printed v m = .ok s m := by
    unfold printed
    rw [bind_of_ok (ask_of_eq h)]
    rfl
  show ∃ m', _ ∧ ∃ origin, (printed v >>= _) m = _
  rw [bind_of_ok hprinted]
  cases horigin : m.printOrigin v with
  | made n =>
      refine ⟨_, .newText m s, ?_⟩
      rw [bind_of_ok (ask_of_eq horigin)]
      exact ⟨_, rfl⟩
  | _ =>
      refine ⟨m, .refl [] m, ?_⟩
      rw [bind_of_ok (ask_of_eq horigin)]
      exact ⟨_, rfl⟩

end Eval

mutual
/-- Only the arrays of a heap matter. -/
theorem Heap.Shows.of_arrays {h h' : Heap} (harrays : h'.arrays = h.arrays) {v : Value}
    {d : Datum} : h.Shows v d → h'.Shows v d
  | .nil => .nil
  | .bool b => .bool b
  | .int i => .int i
  | .text s origin => .text s origin
  | .array a items made each => by
      have harray : h'.array a = h.array a := congrArg (·.getD a #[]) harrays
      exact .array a items (harrays ▸ made) (harray ▸ each.of_arrays harrays)

theorem Heap.ShowsEach.of_arrays {h h' : Heap} (harrays : h'.arrays = h.arrays)
    {vs : List Value} {ds : List Datum} : h.ShowsEach vs ds → h'.ShowsEach vs ds
  | .nil => .nil
  | .cons first rest => .cons (first.of_arrays harrays) (rest.of_arrays harrays)
end

/-- What shows a datum is of a kernel class, and prints by the method of `Object`. -/
theorem Heap.Shows.tree? {h : Heap} {v : Value} {d : Datum} (hv : h.Shows v d) :
    ∃ className, v.kernelClass? = some className ∧
      Kernel.tree? className "printString" = some (Kernel.byPrimitive "printString" 501 []) := by
  cases hv with
  | bool b => cases b <;> exact ⟨_, rfl, rfl⟩
  | _ => exact ⟨_, rfl, rfl⟩

/-- In a system with the methods of the kernel, `printString` answers the print. -/
theorem Memory.Equipped.printString {settings : Settings} {m : Memory} (he : m.Equipped settings)
    {v : Value} {d : Datum} (hv : m.heap.Shows v d) {depth : Nat} {calls : List Call}
    {out : Outcome Value} (h : m.Sends settings v "printString" [] (depth + 1) calls out) :
    ∃ origin m', m.Aside [] m' ∧ out = .ok (.text d.printed origin) m' := by
  obtain ⟨className, hclass, htree⟩ := hv.tree?
  obtain ⟨cls, hcls, hunderstands⟩ := he.understands hclass htree
  obtain ⟨owner, next, hmethod⟩ := hunderstands.method
  obtain ⟨callers, m₁, hnoted, -, hout⟩ := h.activates hcls hmethod rfl
  have hp : (501, Primitive.print) ∈ Primitive.numbered := by decide
  let method : Method := ⟨.str "printString", [], [], (Node.listWithSites next
    [.answer (.call .self "primitiveFailed" [])]).1, .int 501, owner⟩
  have htakes : method.Takes [] [] := ⟨rfl, List.nodup_nil, rfl⟩
  obtain ⟨f, m₂, o, hends⟩ :=
    Call.Goes.activatePrimitive htakes rfl (he.primitive _ hp) v callers m₁ depth
  have a := (Aside.of_noted hnoted).append o.aside
  obtain ⟨m₃, a₃, origin, hperform⟩ := Eval.perform_print
    (Memory.print?_of_shows (hv.of_arrays a.arrays)) settings (Eval.run settings depth) f
  have hrun := (hends 0 _ _ _ rfl ⟨hperform, rfl⟩).outcome
  refine ⟨origin, m₃.retire f, (Aside.of_noted hnoted).append (o.append a₃).closed, ?_⟩
  rcases hout with hout | ⟨-, hdeep⟩
  · exact hout.trans hrun
  · obtain ⟨m', hdeep⟩ := hdeep
    cases hdeep.symm.trans hrun

/-- A value of nil, booleans, integers, texts and finitely nested arrays has a print, which
the primitive that prints answers. Two such values, of one memory or of two, have the same
print exactly where they show the same datum, whatever characters their texts have. -/
theorem prints_are_read_back {m m' : Memory} {v w : Value} {d e : Datum}
    (hv : m.heap.Shows v d) (hw : m'.heap.Shows w e) :
    m.print? v = some d.printed ∧
    (∀ settings, m.Equipped settings → ∀ depth calls out,
      m.Sends settings v "printString" [] (depth + 1) calls out →
      ∃ origin after, m.Aside [] after ∧ out = .ok (.text d.printed origin) after) ∧
    (m.print? v = m'.print? w ↔ d = e) := by
  have hprint := Memory.print?_of_shows hv
  refine ⟨hprint, fun settings he depth calls out => he.printString hv, ?_⟩
  rw [hprint, Memory.print?_of_shows hw]
  constructor
  · exact fun h => Datum.printed_inj (Option.some.inj h)
  · rintro rfl
    rfl

/-- A memory with two rows: one text that has in it what stands between two, and these two. -/
def Memory.withRows (m : Memory) : Memory :=
  { m with heap := { m.heap with
      arrays := #[#[.text "a' 'b" .word], #[.text "a" .word, .text "b" .word]] } }

/-- Both rows have a print, and they are not the same: a quote inside is written twice. -/
theorem quotes_tell_rows_apart : ∃ m : Memory, m.Equipped {} ∧
    m.print? (.array 0) = some "#('a'' ''b')" ∧ m.print? (.array 1) = some "#('a' 'b')" ∧
    m.print? (.array 0) ≠ m.print? (.array 1) ∧
    ∀ depth calls out, m.Sends {} (.array 0) "printString" [] (depth + 1) calls out →
      ∃ origin after, m.Aside [] after ∧ out = .ok (.text "#('a'' ''b')" origin) after := by
  have hequipped : ∀ m : Memory, m.Equipped {} → m.withRows.Equipped {} :=
    fun _ he => he.of_registry rfl
  have hone : ∀ m : Memory, m.withRows.heap.Shows (.array 0) (.array [.text "a' 'b"]) :=
    fun _ => .array 0 _ Nat.zero_lt_two (.cons (.text _ _) .nil)
  have htwo : ∀ m : Memory, m.withRows.heap.Shows (.array 1) (.array [.text "a", .text "b"]) :=
    fun _ => .array 1 _ Nat.one_lt_two (.cons (.text _ _) (.cons (.text _ _) .nil))
  obtain ⟨hfirst, hsend, hiff⟩ :=
    prints_are_read_back (hone Kernel.memory) (htwo Kernel.memory)
  obtain ⟨hsecond, -, -⟩ := prints_are_read_back (htwo Kernel.memory) (hone Kernel.memory)
  have hprinted : (Datum.array [.text "a' 'b"]).printed = "#('a'' ''b')" := by decide +kernel
  have hprinted' : (Datum.array [.text "a", .text "b"]).printed = "#('a' 'b')" := by
    decide +kernel
  rw [hprinted] at hfirst hsend
  rw [hprinted'] at hsecond
  have he := hequipped _ Kernel.memory_equipped
  exact ⟨_, he, hfirst, hsecond, fun h => absurd (hiff.mp h) (by simp), hsend {} he⟩

end Smalltalk
