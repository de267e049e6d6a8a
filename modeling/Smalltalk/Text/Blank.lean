/-!
# `Smalltalk.Text.Blank`: white space around a text

White space is what Unicode 14.0 calls so (`Text.isWhiteSpace`). The blanks
around a name are white space and the four information separators before the
space (`Text.isBlank`), and `Text.trim` removes them from both ends; around a
number only white space may stand.
-/

set_option autoImplicit false

namespace Smalltalk.Text

/-- Whether a character is white space. -/
def isWhiteSpace (c : Char) : Bool :=
  let n := c.toNat
  (0x09 ≤ n && n ≤ 0x0d) || n == 0x20 || n == 0x85 || n == 0xa0 || n == 0x1680 ||
    (0x2000 ≤ n && n ≤ 0x200a) || n == 0x2028 || n == 0x2029 || n == 0x202f || n == 0x205f ||
    n == 0x3000

/-- Whether a character is an information separator. -/
def isSeparator (c : Char) : Bool := 0x1c ≤ c.toNat && c.toNat ≤ 0x1f

/-- Whether a character is a blank. -/
def isBlank (c : Char) : Bool := isWhiteSpace c || isSeparator c

/-- Without the characters of a class at the end. -/
def dropEndWhile (p : Char → Bool) (cs : List Char) : List Char :=
  (cs.reverse.dropWhile p).reverse

/-- Without the characters of a class at both ends. -/
def stripWhile (p : Char → Bool) (cs : List Char) : List Char :=
  dropEndWhile p (cs.dropWhile p)

/-- Without the blanks at both ends. -/
def trim (cs : List Char) : List Char := stripWhile isBlank cs

end Smalltalk.Text
