import Smalltalk.Json
import Smalltalk.Decimal.Shortest
import Smalltalk.Text.Quoted

/-!
# `Smalltalk.Json.Writer`: JSON values as text

* `Json.compact` writes a value on one line, `Json.indented` writes it over
  several, two blanks deeper at each level. Both are ASCII.
* `Json.inspect` is how messages show a value, and `Json.plain` is the same
  with a text left as it is.
-/

set_option autoImplicit false

namespace Smalltalk.Json

/-- A float in an image file, where the values that are no decimals have names. -/
def floatText (x : Float) : String :=
  match Binary64.parts x with
  | .finite .. => Binary64.text x
  | .infinite negative => if negative then "-Infinity" else "Infinity"
  | .notANumber => "NaN"

/-- The values that have no parts, as an image file holds them. -/
def scalarText : Json → String
  | null => "null"
  | bool b => if b then "true" else "false"
  | int i => toString i
  | float x => floatText x
  | str s => Text.toJson s
  | _ => ""

mutual
/-- A value on one line. -/
def compact : Json → String
  | arr xs => "[" ++ ", ".intercalate (compactItems xs) ++ "]"
  | obj fs => "\x7b" ++ ", ".intercalate (compactFields fs) ++ "\x7d"
  | j => scalarText j

/-- The items of a list, each on one line. -/
def compactItems : List Json → List String
  | [] => []
  | x :: xs => compact x :: compactItems xs

/-- The fields of an object, each on one line. -/
def compactFields : List (String × Json) → List String
  | [] => []
  | (n, v) :: fs => (Text.toJson n ++ ": " ++ compact v) :: compactFields fs
end

/-- A line break and the indentation of a level. -/
def lineBreak (level : Nat) : String :=
  "\n" ++ String.ofList (List.replicate (2 * level) ' ')

/-- Parts between brackets, one part a line, or just the brackets. -/
def bracketed (first last : String) (level : Nat) (parts : List String) : String :=
  if parts.isEmpty then first ++ last
  else
    first ++ lineBreak (level + 1) ++ ("," ++ lineBreak (level + 1)).intercalate parts ++
      lineBreak level ++ last

mutual
/-- A value over several lines, from a level of indentation on. -/
def indentedAt (level : Nat) : Json → String
  | arr xs => bracketed "[" "]" level (indentedItems (level + 1) xs)
  | obj fs => bracketed "\x7b" "\x7d" level (indentedFields (level + 1) fs)
  | j => scalarText j

/-- The items of a list at a level. -/
def indentedItems (level : Nat) : List Json → List String
  | [] => []
  | x :: xs => indentedAt level x :: indentedItems level xs

/-- The fields of an object at a level. -/
def indentedFields (level : Nat) : List (String × Json) → List String
  | [] => []
  | (n, v) :: fs => (Text.toJson n ++ ": " ++ indentedAt level v) :: indentedFields level fs
end

/-- A value over several lines. -/
def indented (j : Json) : String := indentedAt 0 j

/-- How messages show a truth value. -/
def boolWord (b : Bool) : String := if b then "True" else "False"

mutual
/-- How messages show a value. -/
def inspect : Json → String
  | null => "None"
  | bool b => boolWord b
  | int i => toString i
  | float x => Binary64.text x
  | str s => Text.inspect s
  | arr xs => "[" ++ ", ".intercalate (inspectItems xs) ++ "]"
  | obj fs => "\x7b" ++ ", ".intercalate (inspectFields fs) ++ "\x7d"

/-- How messages show the items of a list. -/
def inspectItems : List Json → List String
  | [] => []
  | x :: xs => inspect x :: inspectItems xs

/-- How messages show the fields of an object. -/
def inspectFields : List (String × Json) → List String
  | [] => []
  | (n, v) :: fs => (Text.inspect n ++ ": " ++ inspect v) :: inspectFields fs
end

/-- How messages show a value that may stand for a word. -/
def plain : Json → String
  | str s => s
  | j => j.inspect

end Smalltalk.Json
