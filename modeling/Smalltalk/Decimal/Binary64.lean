/-!
# `Smalltalk.Decimal.Binary64`: doubles and exact rationals

A finite double is `± mantissa · 2 ^ exponent`. `Binary64.parts` takes
a double apart along that line, and `Binary64.ofRatio` goes the other
way: it rounds a non-negative quotient to the nearest double, a tie to
the even mantissa, and past the largest double to infinity. Integers and
decimal texts become doubles through it, so there is one place where
rounding happens, and it is exact `Nat` arithmetic on bit patterns.
-/

set_option autoImplicit false

namespace Smalltalk.Binary64

/-- What a double stands for. -/
inductive Parts where
  | finite (negative : Bool) (mantissa : Nat) (exponent : Int)
  | infinite (negative : Bool)
  | notANumber
deriving Repr, DecidableEq

/-- What an integer of any size stands for. -/
def Parts.ofInt (i : Int) : Parts := .finite (i < 0) i.natAbs 0

/-- Whether a number is less than another. What is not a number is neither less nor
greater than anything. -/
def Parts.less : Parts → Parts → Bool
  | .finite negative m e, .finite negative' n f =>
    -- at the lower of both exponents the two are integers
    let low := min e f
    let left : Int := m * Nat.pow 2 (e - low).toNat
    let right : Int := n * Nat.pow 2 (f - low).toNat
    (if negative then -left else left) < (if negative' then -right else right)
  | .finite _ _ _, .infinite negative => !negative
  | .infinite negative, .finite _ _ _ => negative
  | .infinite negative, .infinite negative' => negative && !negative'
  | .notANumber, _ => false
  | _, .notANumber => false

/-- The first bit pattern that is no finite double: positive infinity. -/
def infinityBits : Nat := 0x7FF0000000000000

/-- The bit that marks a negative double. -/
def signBit : Nat := 0x8000000000000000

/-- The hidden leading bit of a normal number's mantissa; the fraction lies below. -/
def hiddenBit : Nat := 0x10000000000000

/-- The parts of the double with these bits. Normal numbers carry a hidden
leading bit; subnormal ones share the least exponent, `-1074`. -/
def partsOfBits (bits : Nat) : Parts :=
  let negative := bits / signBit % 2 == 1
  let biased : Nat := bits / hiddenBit % 2048
  let fraction : Nat := bits % hiddenBit
  if biased = 2047 then
    if fraction = 0 then .infinite negative else .notANumber
  else if biased = 0 then .finite negative fraction (-1074)
  else .finite negative (hiddenBit + fraction) ((biased : Int) - 1075)

/-- The parts of a double. -/
def parts (x : Float) : Parts := partsOfBits x.toBits.toNat

/-- The quotient `num / den`, rounded to the nearest integer, a tie to the
even one. -/
def roundDiv (num den : Nat) : Nat :=
  let q := num / den
  let twice := 2 * (num % den)
  if twice < den then q
  else if den < twice then q + 1
  else if q % 2 = 0 then q else q + 1

/-- `base · 2 ^ e` as a pair: the factor for the numerator and the one for
the denominator. -/
def scale (e : Int) : Nat × Nat :=
  if 0 ≤ e then (Nat.pow 2 e.toNat, 1) else (1, Nat.pow 2 (-e).toNat)

/-- The greatest `e` with `2 ^ e ≤ num / den`, for positive arguments. -/
def floorLog2 (num den : Nat) : Int :=
  let e : Int := (num.log2 : Int) - (den.log2 : Int)
  let (up, down) := scale e
  -- the difference of the logarithms is right or one too much
  if den * up ≤ num * down then e else e - 1

/-- The bits of the double nearest to `num / den`, for positive `den`.
The mantissa keeps 53 bits, fewer below the least normal number; a mantissa
that rounds up to `2 ^ 53` carries into the exponent by plain addition. -/
def bitsOfRatio (num den : Nat) : Nat :=
  if num = 0 then 0
  else
    -- below the least normal number the exponent stops and the mantissa shrinks
    let exponent := max (floorLog2 num den - 52) (-1074)
    let (up, down) := scale exponent
    let bits := (exponent + 1074).toNat * hiddenBit + roundDiv (num * down) (den * up)
    min bits infinityBits

/-- The double nearest to `± num / den`. -/
def ofRatio (negative : Bool) (num den : Nat) : Float :=
  let bits := bitsOfRatio num den + if negative then signBit else 0
  Float.ofBits (UInt64.ofNat bits)

/-- The double nearest to an integer, unless the integer is beyond every
finite double. -/
def ofInt? (i : Int) : Option Float :=
  if bitsOfRatio i.natAbs 1 < infinityBits then some (ofRatio (i < 0) i.natAbs 1)
  else none

/-- The double nearest to `± digits · 10 ^ exponent`. Exponents far outside
the range of doubles are settled by counting digits. -/
def ofDecimal (negative : Bool) (digits : Nat) (exponent : Int) : Float :=
  -- at least as many digits as there are, since ten is more than eight
  let size : Int := (digits.log2 : Int) / 3 + 1 + exponent
  if digits = 0 ∨ size < -400 then ofRatio negative 0 1
  else if 800 < exponent then
    Float.ofBits (UInt64.ofNat (infinityBits + if negative then signBit else 0))
  else if 0 ≤ exponent then ofRatio negative (digits * Nat.pow 10 exponent.toNat) 1
  else ofRatio negative digits (Nat.pow 10 (-exponent).toNat)

/-- A finite double without its fraction. -/
def truncate? (x : Float) : Option Int :=
  match parts x with
  | .finite negative m e =>
    let (up, down) := scale e
    let n : Int := m * up / down
    some (if negative then -n else n)
  | _ => none

/-- The integer that a double is, if it is one. -/
def toInt? (x : Float) : Option Int :=
  match parts x with
  | .finite negative m e =>
    let (up, down) := scale e
    if m * up % down = 0 then
      let n : Int := m * up / down
      some (if negative then -n else n)
    else none
  | _ => none

end Smalltalk.Binary64
