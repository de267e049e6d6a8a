import Smalltalk.Text.Printable

/-!
# `Smalltalk.Text.Quoted`: three ways to put a text between quotes

* `Text.inspect` is how messages show a text: in single quotes, or in double
  quotes where that saves an escape, with escapes for what is not printable.
* `Text.toJson` is how image files hold it: in double quotes and in ASCII,
  other characters as UTF-16 units.
* `Text.literal` is how a program prints it: in single quotes, each quote
  inside written twice.
-/

set_option autoImplicit false

namespace Smalltalk.Text

/-- The single quote. -/
def quote : Char := Char.ofNat 39

/-- A number in lower-case hexadecimal with at least `width` digits. -/
def hex (width n : Nat) : List Char :=
  let digits := Nat.toDigits 16 n
  List.replicate (width - digits.length) '0' ++ digits

/-- One character of an inspected text, where `mark` closes the quote. -/
def inspectChar (mark c : Char) : List Char :=
  if c = mark ∨ c = '\\' then ['\\', c]
  else if c = '\n' then ['\\', 'n']
  else if c = '\r' then ['\\', 'r']
  else if c = '\t' then ['\\', 't']
  else if isPrintable c then [c]
  else if c.toNat < 0x100 then '\\' :: 'x' :: hex 2 c.toNat
  else if c.toNat < 0x10000 then '\\' :: 'u' :: hex 4 c.toNat
  else '\\' :: 'U' :: hex 8 c.toNat

/-- A text as messages show it. -/
def inspect (s : String) : String :=
  let cs := s.toList
  let mark := if cs.contains quote && !cs.contains '"' then '"' else quote
  String.ofList (mark :: cs.flatMap (inspectChar mark) ++ [mark])

/-- One UTF-16 unit as an escape. -/
def unitEscape (n : Nat) : List Char := '\\' :: 'u' :: hex 4 n

/-- One character of a JSON text. -/
def jsonChar (c : Char) : List Char :=
  if c = '"' ∨ c = '\\' then ['\\', c]
  else if c = '\n' then ['\\', 'n']
  else if c = '\r' then ['\\', 'r']
  else if c = '\t' then ['\\', 't']
  else if c.toNat = 8 then ['\\', 'b']
  else if c.toNat = 12 then ['\\', 'f']
  else if ' ' ≤ c ∧ c ≤ '~' then [c]
  else if c.toNat < 0x10000 then unitEscape c.toNat
  else
    let n := c.toNat - 0x10000
    unitEscape (0xd800 + n / 0x400) ++ unitEscape (0xdc00 + n % 0x400)

/-- A text as image files hold it. -/
def toJson (s : String) : String :=
  String.ofList ('"' :: s.toList.flatMap jsonChar ++ ['"'])

/-- The characters of a text with each quote written twice. -/
def doubled : List Char → List Char
  | [] => []
  | c :: rest => if c = quote then quote :: quote :: doubled rest else c :: doubled rest

/-- A text as a program prints it. -/
def literal (s : String) : String :=
  String.ofList (quote :: doubled s.toList ++ [quote])

end Smalltalk.Text
