import Smalltalk.Image

/-!
# `Smalltalk.Proofs.Written`: whether a written value comes back

Loading a saved image relies on the JSON reader to undo the writer. For a value
without floats this can be computed: `Json.comesBack` reads the characters that are
written for it and compares, and `Json.read_indented` says that it can be trusted.

The characters are listed by `Json.charsAt`, as the writer would have them, but
without a text in between: a text is an array of bytes, and slow to take apart in a
proof.
-/

set_option autoImplicit false

namespace Smalltalk

namespace Json

/-! ### The characters of a value -/

/-- The characters of a line break and the indentation of a level. -/
def breakChars (level : Nat) : List Char := '\n' :: List.replicate (2 * level) ' '

/-- The characters of parts between brackets. -/
def bracketedChars (first last : String) (level : Nat) (parts : List (List Char)) : List Char :=
  if parts.isEmpty then first.toList ++ last.toList
  else
    first.toList ++ breakChars (level + 1) ++
      (',' :: breakChars (level + 1)).intercalate parts ++ breakChars level ++ last.toList

/-- The characters of a text as image files hold it. -/
def quotedChars (s : String) : List Char := '"' :: s.toList.flatMap Text.jsonChar ++ ['"']

mutual
/-- The characters of a value over several lines. -/
def charsAt (level : Nat) : Json → List Char
  | arr xs => bracketedChars "[" "]" level (itemChars (level + 1) xs)
  | obj fs => bracketedChars "\x7b" "\x7d" level (fieldChars (level + 1) fs)
  | str s => quotedChars s
  | j => (scalarText j).toList

/-- The characters of each item. -/
def itemChars (level : Nat) : List Json → List (List Char)
  | [] => []
  | x :: xs => charsAt level x :: itemChars level xs

/-- The characters of each field. -/
def fieldChars (level : Nat) : List (String × Json) → List (List Char)
  | [] => []
  | (n, v) :: fs => (quotedChars n ++ ": ".toList ++ charsAt level v) :: fieldChars level fs
end

theorem toList_lineBreak (level : Nat) : (lineBreak level).toList = breakChars level := by
  simp [lineBreak, breakChars]

theorem toList_bracketed (first last : String) (level : Nat) (parts : List String) :
    (bracketed first last level parts).toList
      = bracketedChars first last level (parts.map String.toList) := by
  unfold bracketed bracketedChars
  cases parts with
  | nil => simp
  | cons part rest =>
      simp [String.toList_append, String.toList_intercalate, toList_lineBreak]

theorem toList_toJson (s : String) : (Text.toJson s).toList = quotedChars s :=
  String.toList_ofList

mutual
/-- They are those that the writer writes. -/
theorem toList_indentedAt (level : Nat) :
    (j : Json) → (indentedAt level j).toList = charsAt level j
  | .null | .bool _ | .int _ | .float _ => rfl
  | .str s => toList_toJson s
  | .arr xs => by
      rw [indentedAt, charsAt, toList_bracketed, toList_indentedItems (level + 1) xs]
  | .obj fs => by
      rw [indentedAt, charsAt, toList_bracketed, toList_indentedFields (level + 1) fs]

/-- The same of items. -/
theorem toList_indentedItems (level : Nat) : (xs : List Json) →
    (indentedItems level xs).map String.toList = itemChars level xs
  | [] => rfl
  | x :: xs => by
      rw [indentedItems, itemChars, List.map_cons, toList_indentedAt level x,
        toList_indentedItems level xs]

/-- The same of fields. -/
theorem toList_indentedFields (level : Nat) : (fs : List (String × Json)) →
    (indentedFields level fs).map String.toList = fieldChars level fs
  | [] => rfl
  | (n, v) :: fs => by
      rw [indentedFields, fieldChars, List.map_cons, String.toList_append, String.toList_append,
        toList_toJson, toList_indentedAt level v, toList_indentedFields level fs]
end

/-! ### Comparing values -/

mutual
/-- Whether two values without floats are equal. -/
def agrees : Json → Json → Bool
  | .null, .null => true
  | .bool b, .bool b' => b = b'
  | .int i, .int i' => i = i'
  | .str s, .str s' => s = s'
  | .arr items, .arr items' => agreesAll items items'
  | .obj fields, .obj fields' => agreesFields fields fields'
  | _, _ => false

/-- `agrees`, item by item. -/
def agreesAll : List Json → List Json → Bool
  | [], [] => true
  | j :: rest, j' :: rest' => agrees j j' && agreesAll rest rest'
  | _, _ => false

/-- `agrees`, field by field. -/
def agreesFields : List (String × Json) → List (String × Json) → Bool
  | [], [] => true
  | (name, j) :: rest, (name', j') :: rest' =>
    decide (name = name') && agrees j j' && agreesFields rest rest'
  | _, _ => false
end

mutual
theorem eq_of_agrees : (j j' : Json) → agrees j j' = true → j = j'
  | .null, j', h => by cases j' <;> first | rfl | cases h
  | .bool b, j', h => by
      cases j' with
      | bool b' => exact congrArg Json.bool (of_decide_eq_true h)
      | _ => cases h
  | .int i, j', h => by
      cases j' with
      | int i' => exact congrArg Json.int (of_decide_eq_true h)
      | _ => cases h
  | .float x, j', h => by cases j' <;> cases h
  | .str s, j', h => by
      cases j' with
      | str s' => exact congrArg Json.str (of_decide_eq_true h)
      | _ => cases h
  | .arr items, j', h => by
      cases j' with
      | arr items' => exact congrArg Json.arr (eq_of_agreesAll items items' h)
      | _ => cases h
  | .obj fields, j', h => by
      cases j' with
      | obj fields' => exact congrArg Json.obj (eq_of_agreesFields fields fields' h)
      | _ => cases h

/-- The same of lists. -/
theorem eq_of_agreesAll : (js js' : List Json) → agreesAll js js' = true → js = js'
  | [], [], _ => rfl
  | [], _ :: _, h | _ :: _, [], h => nomatch h
  | j :: rest, j' :: rest', h => by
      obtain ⟨hj, hrest⟩ := Bool.and_eq_true_iff.mp h
      rw [eq_of_agrees j j' hj, eq_of_agreesAll rest rest' hrest]

/-- The same of fields. -/
theorem eq_of_agreesFields : (fs fs' : List (String × Json)) → agreesFields fs fs' = true →
    fs = fs'
  | [], [], _ => rfl
  | [], _ :: _, h | _ :: _, [], h => nomatch h
  | (name, j) :: rest, (name', j') :: rest', h => by
      obtain ⟨hfirst, hrest⟩ := Bool.and_eq_true_iff.mp h
      obtain ⟨hname, hj⟩ := Bool.and_eq_true_iff.mp hfirst
      rw [of_decide_eq_true hname, eq_of_agrees j j' hj, eq_of_agreesFields rest rest' hrest]
end

/-! ### Reading what was written -/

/-- Whether what is written for a value is read as the value again. -/
def comesBack (j : Json) : Bool :=
  match read (Image.unixLines (charsAt 0 j)) with
  | .ok j' => j'.agrees j
  | .error _ => false

theorem read_indented {j : Json} (h : j.comesBack = true) :
    read (Image.unixLines j.indented.toList) = .ok j := by
  unfold comesBack at h
  unfold indented
  rw [toList_indentedAt]
  cases hread : read (Image.unixLines (charsAt 0 j)) with
  | ok j' =>
      rw [hread] at h
      rw [eq_of_agrees j' j h]
  | error e =>
      rw [hread] at h
      cases h

end Json

end Smalltalk
