import Smalltalk.Decimal.Binary64

/-!
# `Smalltalk.Decimal.Shortest`: the fewest digits that read back

A double is written with the fewest decimal digits that round to it
again, and of the decimals of that length with the nearest one.
`Shortest.find` searches the decimal grids in turn: on the grid of `n`
digits only the two neighbours of the value can be the answer, and both
are tested against the interval of reals that round to the double, whose
ends belong to it when the mantissa is even.

`Binary64.text` lays the digits out: positionally, with at least one
digit behind the point, while the value is below `10 ^ 16` and not below
`10 ^ -4`, otherwise with an exponent of at least two digits.
-/

set_option autoImplicit false

namespace Smalltalk

namespace Shortest

/-- A decimal `0.d₁d₂… · 10 ^ point`, the digits read as one number. -/
structure Digits where
  digits : Nat
  point : Int
deriving Repr, DecidableEq

/-- The reals that round to a double, in units of `2 ^ exponent`: four times
the value, and the ends of the interval around it. -/
structure Interval where
  low : Nat
  mid : Nat
  high : Nat
  exponent : Int
  closed : Bool

/-- The interval of a positive double. Just above a power of two the gap
below is half as wide. -/
def interval (mantissa : Nat) (exponent : Int) : Interval where
  low :=
    if mantissa = Binary64.hiddenBit ∧ -1074 < exponent then 4 * mantissa - 1
    else 4 * mantissa - 2
  mid := 4 * mantissa
  high := 4 * mantissa + 2
  exponent := exponent - 2
  closed := mantissa % 2 == 0

/-- The number `n · 2 ^ e / 10 ^ g` as a quotient. -/
def quotient (n : Nat) (e g : Int) : Nat × Nat :=
  let (up, down) := Binary64.scale e
  if 0 ≤ g then (n * up, down * Nat.pow 10 g.toNat)
  else (n * up * Nat.pow 10 (-g).toNat, down)

/-- Whether `n · 10 ^ g` rounds to the double of the interval. -/
def Interval.holds (i : Interval) (n : Nat) (g : Int) : Bool :=
  let (low, down) := quotient i.low i.exponent g
  let (high, _) := quotient i.high i.exponent g
  if i.closed then decide (low ≤ n * down ∧ n * down ≤ high)
  else decide (low < n * down ∧ n * down < high)

/-- The least `k` with the value below `10 ^ k`. -/
def magnitude (i : Interval) : Int :=
  -- 0.30103 is the logarithm of two, so the guess misses by at most two
  let guess : Int := Int.fdiv (((i.mid.log2 : Int) + i.exponent) * 30103) 100000
  let reaches (k : Int) : Bool :=
    let (num, den) := quotient i.mid i.exponent k
    decide (den ≤ num)
  if reaches guess then if reaches (guess + 1) then guess + 2 else guess + 1
  else guess

/-- The decimal of `n` digits that rounds to the double, if there is one: the
nearer neighbour where both do, and the even one at a tie. -/
def onGrid (i : Interval) (k : Int) (n : Nat) : Option Digits :=
  let g := k - n
  let (num, den) := quotient i.mid i.exponent g
  let below := num / den
  let twice := 2 * (num % den)
  let fits := fun c => i.holds c g
  let upper : Bool := decide (den < twice) || (twice == den && below % 2 == 1)
  -- a neighbour that is the next power of ten has one digit
  let pick := fun c => some (if c = Nat.pow 10 n then ⟨1, k + 1⟩ else ⟨c, k⟩)
  if fits below && fits (below + 1) then pick (if upper then below + 1 else below)
  else if fits below then pick below
  else if fits (below + 1) then pick (below + 1)
  else none

/-- The first grid with an answer, searching `fuel` grids from `n` digits on. -/
def search (i : Interval) (k : Int) : Nat → Nat → Digits
  | 0, n => (onGrid i k n).getD ⟨0, k⟩
  | fuel + 1, n => (onGrid i k n).getD (search i k fuel (n + 1))

/-- The shortest decimal of a positive double: at most 17 digits are needed. -/
def find (mantissa : Nat) (exponent : Int) : Digits :=
  let i := interval mantissa exponent
  search i (magnitude i) 16 1

end Shortest

namespace Binary64

/-- A text of `n` zeros. -/
def zeros (n : Nat) : String := String.ofList (List.replicate n '0')

/-- The layout of a decimal: digits before and behind a point, or one digit
before the point and an exponent with a sign and at least two digits. -/
def layOut (d : Shortest.Digits) : String :=
  let text := (toString d.digits).toList
  let count := text.length
  if -4 < d.point ∧ d.point ≤ 16 then
    if d.point ≤ 0 then "0." ++ zeros (-d.point).toNat ++ String.ofList text
    else
      let whole := d.point.toNat
      if count ≤ whole then String.ofList text ++ zeros (whole - count) ++ ".0"
      else String.ofList (text.take whole) ++ "." ++ String.ofList (text.drop whole)
  else
    let exponent := d.point - 1
    let size := toString exponent.natAbs
    let size := if size.length < 2 then "0" ++ size else size
    let fraction := if count ≤ 1 then "" else "." ++ String.ofList (text.drop 1)
    String.ofList (text.take 1) ++ fraction ++ "e" ++ (if exponent < 0 then "-" else "+") ++ size

/-- The text of a double. -/
def text (x : Float) : String :=
  match parts x with
  | .notANumber => "nan"
  | .infinite negative => if negative then "-inf" else "inf"
  | .finite negative m e =>
    let digits := if m = 0 then "0.0" else layOut (Shortest.find m e)
    if negative then "-" ++ digits else digits

end Binary64

end Smalltalk
