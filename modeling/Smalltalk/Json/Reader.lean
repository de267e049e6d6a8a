import Smalltalk.Json

/-!
# `Smalltalk.Json.Reader`: JSON values from text

`Json.read` reads one value with blanks around it, or answers where and why
the text is not JSON. It accepts `NaN`, `Infinity` and `-Infinity`; a number
without fraction and exponent is an integer of any size, any other is the
nearest double; of fields with the same name the last one counts, in the
place of the first.

The reader walks a `Cursor`, the rest of the text with the count of
characters before it. Every production is a function from a cursor to a
value and the cursor behind it, or to an `Error` that holds the offset to
report. Values nest through `readValue`, `readItems` and `readFields`, whose
`fuel` `read` computes from the length of the text: two steps for each
character are enough.
-/

set_option autoImplicit false

namespace Smalltalk.Json

/-- Why a text is not JSON. -/
inductive Complaint where
  | byteOrderMark
  | value
  | name
  | colon
  | comma
  | extraData
  | openString
  | controlCharacter
  | badEscape
  | badUnit
deriving Repr, DecidableEq

/-- The words of a complaint. -/
def Complaint.message : Complaint → String
  | byteOrderMark => "Unexpected UTF-8 BOM (decode using utf-8-sig)"
  | value => "Expecting value"
  | name => "Expecting property name enclosed in double quotes"
  | colon => "Expecting ':' delimiter"
  | comma => "Expecting ',' delimiter"
  | extraData => "Extra data"
  | openString => "Unterminated string starting at"
  | controlCharacter => "Invalid control character at"
  | badEscape => "Invalid \\escape"
  | badUnit => "Invalid \\uXXXX escape"

/-- A complaint and the offset it is about. -/
structure ReadError where
  complaint : Complaint
  offset : Nat
deriving Repr, DecidableEq

/-- A complaint with its place: line and column count from one, the offset
from zero. -/
def ReadError.message (e : ReadError) (text : List Char) : String :=
  let before := text.take e.offset
  let line := before.count '\n' + 1
  let column := (before.reverse.takeWhile (· ≠ '\n')).length + 1
  e.complaint.message ++ ": line " ++ toString line ++ " column " ++ toString column ++
    " (char " ++ toString e.offset ++ ")"

/-- A place in a text: what is left, and how many characters came before. -/
structure Cursor where
  rest : List Char
  offset : Nat

/-- What a production answers. -/
abbrev Reading (α : Type) := Except ReadError (α × Cursor)

namespace Cursor

/-- The cursor behind `count` characters, with the text that is left there. -/
def move (c : Cursor) (count : Nat) (rest : List Char) : Cursor := ⟨rest, c.offset + count⟩

/-- A complaint about this place. -/
def complain {α : Type} (c : Cursor) (complaint : Complaint) : Except ReadError α :=
  .error ⟨complaint, c.offset⟩

/-- Whether a character may stand between the parts of a JSON text. -/
def isGap (c : Char) : Bool := c = ' ' || c = '\t' || c = '\n' || c = '\r'

/-- The cursor behind the blanks at this place. -/
def skipGap (c : Cursor) : Cursor :=
  c.move (c.rest.takeWhile isGap).length (c.rest.dropWhile isGap)

end Cursor

/-! ### Texts -/

/-- The value of a hexadecimal digit. -/
def hexDigit? (c : Char) : Option Nat :=
  if '0' ≤ c ∧ c ≤ '9' then some (c.toNat - 48)
  else if 'a' ≤ c ∧ c ≤ 'f' then some (c.toNat - 87)
  else if 'A' ≤ c ∧ c ≤ 'F' then some (c.toNat - 55)
  else none

/-- The unit that four hexadecimal digits spell. -/
def unit? (a b c d : Char) : Option Nat := do
  let a ← hexDigit? a
  let b ← hexDigit? b
  let c ← hexDigit? c
  let d ← hexDigit? d
  pure (((a * 16 + b) * 16 + c) * 16 + d)

/-- Whether a unit opens a pair that makes one character. -/
def isHighUnit (n : Nat) : Bool := 0xd800 ≤ n && n < 0xdc00

/-- Whether a unit closes such a pair. -/
def isLowUnit (n : Nat) : Bool := 0xdc00 ≤ n && n < 0xe000

/-- The character of a single unit; half a pair is shown by U+FFFD. -/
def unitChar (n : Nat) : Char :=
  if isHighUnit n || isLowUnit n then Char.ofNat 0xfffd else Char.ofNat n

/-- The character that a one-letter escape stands for. -/
def escape? (c : Char) : Option Char :=
  match c with
  | '"' => some '"'
  | '\\' => some '\\'
  | '/' => some '/'
  | 'b' => some (Char.ofNat 8)
  | 'f' => some (Char.ofNat 12)
  | 'n' => some '\n'
  | 'r' => some '\r'
  | 't' => some '\t'
  | _ => none

/-- The escape behind a backslash at offset `at_`: the character, the text
behind it and how many characters the escape has. `start` is the offset of
the opening quote. -/
def readEscape (start at_ : Nat) : List Char → Except ReadError (Char × List Char × Nat)
  | [] => .error ⟨.openString, start⟩
  -- four digits at the very end of the text are no escape: a text goes on until its quote
  | 'u' :: a :: b :: c :: d :: next :: rest =>
    match unit? a b c d with
    | none => .error ⟨.badUnit, at_ + 1⟩
    | some high =>
      let single := .ok (unitChar high, next :: rest, 6)
      if isHighUnit high && next = '\\' then
        -- a second unit makes a pair, or is left to be read by itself
        match rest with
        | 'u' :: e :: f :: g :: h :: last :: rest =>
          match unit? e f g h with
          | none => .error ⟨.badUnit, at_ + 7⟩
          | some low =>
            if isLowUnit low then
              .ok (Char.ofNat (0x10000 + (high - 0xd800) * 0x400 + (low - 0xdc00)),
                last :: rest, 12)
            else single
        | _ => single
      else single
  | 'u' :: _ => .error ⟨.badUnit, at_ + 1⟩
  | c :: rest =>
    match escape? c with
    | some x => .ok (x, rest, 2)
    | none => .error ⟨.badEscape, at_⟩

/-- The characters up to the closing quote. `start` is the offset of the
opening one; each step of `fuel` takes at least one character. -/
def readChars (start : Nat) : Nat → Cursor → List Char → Reading String
  | 0, _, _ => .error ⟨.openString, start⟩
  | fuel + 1, c, done =>
    match c.rest with
    | [] => .error ⟨.openString, start⟩
    | '"' :: rest => .ok (String.ofList done.reverse, c.move 1 rest)
    | '\\' :: rest =>
      match readEscape start c.offset rest with
      | .error e => .error e
      | .ok (x, rest, count) => readChars start fuel (c.move count rest) (x :: done)
    | x :: rest =>
      if x.toNat < 0x20 then c.complain .controlCharacter
      else readChars start fuel (c.move 1 rest) (x :: done)

/-- The text whose opening quote stands just before this place. -/
def readString (c : Cursor) : Reading String :=
  readChars (c.offset - 1) (c.rest.length + 1) c []

/-! ### Numbers -/

/-- Whether a character is a decimal digit. -/
def isDigit (c : Char) : Bool := '0' ≤ c && c ≤ '9'

/-- The number that decimal digits spell. -/
def digitsValue (ds : List Char) : Nat := ds.foldl (fun n d => n * 10 + (d.toNat - 48)) 0

/-- The digits at the start of a text, and what follows. -/
def spanDigits (cs : List Char) : List Char × List Char :=
  (cs.takeWhile isDigit, cs.dropWhile isDigit)

/-- The digits before a fraction: one zero, or any that start with another
digit. -/
def integerPart : List Char → List Char × List Char
  | '0' :: rest => (['0'], rest)
  | cs => spanDigits cs

/-- The digits behind a point, if the point has any. -/
def fractionPart : List Char → List Char × List Char
  | '.' :: rest =>
    match spanDigits rest with
    | ([], _) => ([], '.' :: rest)
    | split => split
  | cs => ([], cs)

/-- The exponent at the start of a text, if a whole one stands there. -/
def exponentPart (cs : List Char) : Option (Int × List Char) :=
  let signed (negative : Bool) (cs : List Char) : Option (Int × List Char) :=
    match spanDigits cs with
    | ([], _) => none
    | (ds, rest) =>
      let n : Int := digitsValue ds
      some (if negative then -n else n, rest)
  let afterMark : List Char → Option (Int × List Char)
    | '-' :: rest => signed true rest
    | '+' :: rest => signed false rest
    | rest => signed false rest
  match cs with
  | 'e' :: rest => afterMark rest
  | 'E' :: rest => afterMark rest
  | _ => none

/-- The number at the start of a text, without its sign, and what follows. -/
def number? (negative : Bool) (cs : List Char) : Option (Json × List Char) :=
  match integerPart cs with
  | ([], _) => none
  | (whole, rest) =>
    let (fraction, rest) := fractionPart rest
    let value (exponent : Int) : Json :=
      float (Binary64.ofDecimal negative (digitsValue (whole ++ fraction))
        (exponent - fraction.length))
    match exponentPart rest with
    | some (exponent, rest) => some (value exponent, rest)
    -- an `e` without digits behind it is left for the next production to complain about
    | none =>
      if fraction.isEmpty then
        let n : Int := digitsValue whole
        some (int (if negative then -n else n), rest)
      else some (value 0, rest)

/-! ### Values -/

/-- The words that are values, and the values they are. -/
def words : List (List Char × Json) :=
  [("null".toList, null), ("true".toList, bool true), ("false".toList, bool false),
    ("NaN".toList, float (Float.ofBits 0x7FF8000000000000)),
    ("Infinity".toList, float (Float.ofBits 0x7FF0000000000000)),
    ("-Infinity".toList, float (Float.ofBits 0xFFF0000000000000))]

/-- The text behind a word, where the text starts with it. -/
def dropWord : List Char → List Char → Option (List Char)
  | [], cs => some cs
  | w :: ws, c :: cs => if w = c then dropWord ws cs else none
  | _ :: _, [] => none

/-- The word or number at a place. -/
def readAtom (c : Cursor) : Reading Json :=
  -- no word starts a number, so only one of the two can be there
  match words.findSome? fun w => (dropWord w.1 c.rest).map fun rest => (w.2, w.1.length, rest) with
  | some (value, count, rest) => .ok (value, c.move count rest)
  | none =>
    let found :=
      match c.rest with
      | '-' :: rest => number? true rest
      | rest => number? false rest
    match found with
    | some (value, rest) => .ok (value, c.move (c.rest.length - rest.length) rest)
    | none => c.complain .value

mutual
/-- The value at a place. -/
def readValue : Nat → Cursor → Reading Json
  | 0, c => c.complain .value
  | fuel + 1, c =>
    match c.rest with
    | '"' :: rest =>
      match readString (c.move 1 rest) with
      | .error e => .error e
      | .ok (s, c) => .ok (str s, c)
    | '[' :: rest =>
      let c := (c.move 1 rest).skipGap
      match c.rest with
      | ']' :: rest => .ok (arr [], c.move 1 rest)
      | _ => readItems fuel c []
    | '\x7b' :: rest =>
      let c := (c.move 1 rest).skipGap
      match c.rest with
      | '\x7d' :: rest => .ok (obj [], c.move 1 rest)
      | _ => readFields fuel c []
    | _ => readAtom c

/-- The items of a list from this place to the closing bracket, behind those
that are `done`, last first. -/
def readItems : Nat → Cursor → List Json → Reading Json
  | 0, c, _ => c.complain .value
  | fuel + 1, c, done =>
    match readValue fuel c with
    | .error e => .error e
    | .ok (value, c) =>
      let c := c.skipGap
      match c.rest with
      | ']' :: rest => .ok (arr (value :: done).reverse, c.move 1 rest)
      | ',' :: rest => readItems fuel (c.move 1 rest).skipGap (value :: done)
      | _ => c.complain .comma

/-- The fields of an object from this place to the closing brace. -/
def readFields : Nat → Cursor → List (String × Json) → Reading Json
  | 0, c, _ => c.complain .name
  | fuel + 1, c, done =>
    match c.rest with
    | '"' :: rest =>
      match readString (c.move 1 rest) with
      | .error e => .error e
      | .ok (name, c) =>
        let c := c.skipGap
        match c.rest with
        | ':' :: rest =>
          match readValue fuel (c.move 1 rest).skipGap with
          | .error e => .error e
          | .ok (value, c) =>
            let c := c.skipGap
            let done := putField name value done
            match c.rest with
            | '\x7d' :: rest => .ok (obj done, c.move 1 rest)
            | ',' :: rest => readFields fuel (c.move 1 rest).skipGap done
            | _ => c.complain .comma
        | _ => c.complain .colon
    | _ => c.complain .name
end

/-- The value that a text is. -/
def read (text : List Char) : Except ReadError Json :=
  if text.head? = some (Char.ofNat 0xfeff) then .error ⟨.byteOrderMark, 0⟩
  else
    match readValue (2 * text.length + 2) (Cursor.mk text 0).skipGap with
    | .error e => .error e
    | .ok (value, c) =>
      let c := c.skipGap
      if c.rest.isEmpty then .ok value else c.complain .extraData

end Smalltalk.Json
