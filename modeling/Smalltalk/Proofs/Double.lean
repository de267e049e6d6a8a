import Mathlib.Order.Compare
import Smalltalk.Proofs.Suits

/-!
# `Smalltalk.Proofs.Double`: the doubles of integers, and equal doubles

An integer other than zero has a double other than zero (`Binary64.beq_zero_eq_false_of_ofInt?`),
so an integer divides as a double wherever it divides as an integer.

The bits of a positive integer have an exponent (`Binary64.hiddenBit_le_bitsOfRatio`). Bits
with an exponent are infinite, not a number or have a mantissa with its hidden bit
(`Binary64.unpack_of_exponentField`), and they keep an exponent when they are packed again,
so the double they stand for is not zero.

Equality of doubles is symmetric and transitive (`Binary64.beq_comm`, `Binary64.beq_trans`),
but not reflexive: it compares the `magnitude?`, which there is none of for what is no number.
-/

set_option autoImplicit false

namespace Smalltalk.Binary64

open Float.Model (Format)
open Float.Model.UnpackedFloat

/-- The exponent field of the bits of a double. -/
def exponentField (v : BitVec 64) : BitVec 11 := @unpackExponent Format.binary64 v

theorem toNat_exponentField (v : BitVec 64) :
    (exponentField v).toNat = v.toNat / hiddenBit % 2048 := by
  unfold exponentField unpackExponent
  simp only [BitVec.toNat_cast, BitVec.extractLsb_toNat, Nat.shiftRight_eq_div_pow]
  rfl

/-- What bits with an exponent stand for. -/
theorem unpack_of_exponentField {v : BitVec 64} (h : exponentField v ≠ 0#11) :
    (∃ sign, unpack Format.binary64 v = .infinity sign) ∨
      unpack Format.binary64 v = .notANumber ∨
      ∃ sign m hm, m.log2 = 52 ∧
        unpack Format.binary64 v = .finite sign m ((exponentField v).toNat - 1075) hm := by
  by_cases hmax : exponentField v = -1#11
  · by_cases hm : @unpackMantissa Format.binary64 v = 0#52
    · exact .inl ⟨_, (if_pos hmax).trans (if_pos hm)⟩
    · exact .inr (.inl ((if_pos hmax).trans (if_neg hm)))
  · refine .inr (.inr ⟨_, _, _, ?_, (if_neg hmax).trans (if_neg h)⟩)
    -- the hidden bit leads the mantissa
    have hlt := (@unpackMantissa Format.binary64 v).isLt
    have hmantissa : (1#1 ++ @unpackMantissa Format.binary64 v).toNat
        = 2 ^ 52 + (@unpackMantissa Format.binary64 v).toNat := by
      rw [BitVec.toNat_append, ← Nat.shiftLeft_add_eq_or_of_lt hlt]
      simp [Nat.shiftLeft_eq]
    change _ < 2 ^ 52 at hlt
    rw [hmantissa, Nat.log2_eq_iff (by omega)]
    omega

/-- What is packed with an exponent has it. -/
theorem exponentField_packComponents (sign : Sign) (exponent : BitVec 11) (mantissa : BitVec 52) :
    exponentField (packComponents Format.binary64 sign exponent mantissa) = exponent :=
  unpackExponent_packComponents

theorem pack_infinity (sign : Sign) : pack Format.binary64 (.infinity sign)
    = packComponents Format.binary64 sign (-1#11) 0#52 := rfl

theorem pack_notANumber : pack Format.binary64 .notANumber
    = packComponents Format.binary64 .positive (-1#11) (1#52 <<< 51) := rfl

/-- A mantissa with its hidden bit keeps its exponent, unless it is too great. -/
theorem pack_finite (sign : Sign) (m : Nat) (e : Int) (hm : 0 < m) (hlog : m.log2 = 52) :
    pack Format.binary64 (.finite sign m e hm)
      = if 2048 ≤ (e + (1023 : Nat) + (52 : Nat)).toNat + 1 then
          packComponents Format.binary64 sign (-1#11) 0#52
        else packComponents Format.binary64 sign
          (BitVec.ofNat 11 (e + (1023 : Nat) + (52 : Nat)).toNat) (BitVec.ofNat 52 m) := by
  have hbits : m.log2 + 1 = 53 := congrArg Nat.succ hlog
  exact congrArg (ite _ _) (if_pos hbits)

/-- Packing keeps that there is an exponent. -/
theorem exponentField_pack {v : BitVec 64} (h : exponentField v ≠ 0#11) :
    exponentField (pack Format.binary64 (unpack Format.binary64 v)) ≠ 0#11 := by
  have hall : -1#11 ≠ 0#11 := by decide
  rcases unpack_of_exponentField h with ⟨sign, hv⟩ | hv | ⟨sign, m, hm, hlog, hv⟩
  · rwa [hv, pack_infinity, exponentField_packComponents]
  · rwa [hv, pack_notANumber, exponentField_packComponents]
  · have hbiased : (((exponentField v).toNat - 1075 : Int) + (1023 : Nat) + (52 : Nat)).toNat
        = (exponentField v).toNat := by omega
    rw [hv, pack_finite sign m _ hm hlog, hbiased]
    split
    · rwa [exponentField_packComponents]
    · rwa [exponentField_packComponents, BitVec.ofNat_toNat, BitVec.setWidth_eq]

/-- The double of bits with an exponent is not zero. -/
theorem beq_zero_of_exponentField {bits : UInt64} (h : exponentField bits.toBitVec ≠ 0#11) :
    (Float.ofBits bits == 0.0) = false := by
  have hzero : (0.0 : Float).toModel.unpack = .zero .positive := rfl
  show Float.Model.UnpackedFloat.beq (unpack Format.binary64 (pack Format.binary64
    (unpack Format.binary64 bits.toBitVec))) (0.0 : Float).toModel.unpack = false
  rw [hzero]
  rcases unpack_of_exponentField (exponentField_pack h) with
    ⟨sign, hx⟩ | hx | ⟨sign, m, hm, -, hx⟩
  · rw [hx]
    cases sign <;> rfl
  · rw [hx]
    rfl
  · rw [hx]
    cases sign <;> rfl

/-- The bits of a positive integer reach the exponent. -/
theorem hiddenBit_le_bitsOfRatio {n : Nat} (hn : n ≠ 0) : hiddenBit ≤ bitsOfRatio n 1 := by
  unfold bitsOfRatio
  rw [if_neg hn]
  have hexp : max ((n.log2 : Int) - 52) (-1074) = (n.log2 : Int) - 52 := by omega
  simp only [floorLog2_one hn, hexp]
  refine Nat.le_min.mpr ⟨?_, by decide⟩
  have hexponent : 1 ≤ ((n.log2 : Int) - 52 + 1074).toNat := by omega
  calc hiddenBit = 1 * hiddenBit := (Nat.one_mul _).symm
    _ ≤ ((n.log2 : Int) - 52 + 1074).toNat * hiddenBit := Nat.mul_le_mul_right _ hexponent
    _ ≤ _ := Nat.le_add_right _ _

/-- The double of an integer other than zero is not zero. -/
theorem beq_zero_eq_false_of_ofInt? {i : Int} (hi : i ≠ 0) {x : Float} (h : ofInt? i = some x) :
    (x == 0.0) = false := by
  unfold ofInt? at h
  split at h
  · rename_i hfinite
    obtain rfl := Option.some.inj h
    refine beq_zero_of_exponentField fun hfield => ?_
    have hlow := hiddenBit_le_bitsOfRatio (Int.natAbs_ne_zero.mpr hi)
    have hzero := congrArg BitVec.toNat hfield
    rw [toNat_exponentField] at hzero
    -- the bits lie below those of infinity, and a sign stands above the exponent
    generalize bitsOfRatio i.natAbs 1 = bits at *
    unfold hiddenBit infinityBits signBit at *
    simp at hzero
    split at hzero <;> omega
  · cases h

/-! ### Equal doubles -/

/-- What counts where doubles are compared for equality: whether the double is negative, and
its mantissa and exponent if it is finite. Both zeros have the same, and what is no number has
nothing. -/
def magnitude? : Float.Model.UnpackedFloat → Option (Bool × Option (Nat × Int))
  | .notANumber => none
  | .infinity .negative => some (true, none)
  | .infinity .positive => some (false, none)
  | .zero _ => some (false, some (0, 0))
  | .finite .negative m e _ => some (true, some (m, e))
  | .finite .positive m e _ => some (false, some (m, e))

theorem beq_unpacked_iff (a b : Float.Model.UnpackedFloat) :
    a.beq b = true ↔ ∃ q, magnitude? a = some q ∧ magnitude? b = some q := by
  -- mantissas and exponents are compared together
  have hfinite : ∀ (m n : Nat) (i j : Int),
      (compare i j).then (compare m n) = .eq ↔ i = j ∧ m = n := by
    intro m n i j
    rw [Ordering.then_eq_eq, Std.LawfulEqOrd.compare_eq_iff_eq, Std.LawfulEqOrd.compare_eq_iff_eq]
  have hsame : a.beq b = true ↔ a.compare b = some .eq := beq_iff_eq
  rw [hsame]
  rcases a with (_ | _) | _ | _ | ⟨(_ | _), m, e, hm⟩ <;>
    rcases b with (_ | _) | _ | _ | ⟨(_ | _), n, i, hn⟩ <;>
    dsimp only [Float.Model.UnpackedFloat.compare, magnitude?] <;>
    simp [hfinite] <;>
    first | decide | omega

theorem beq_iff (x y : Float) : (x == y) = true ↔
    ∃ q, magnitude? x.toModel.unpack = some q ∧ magnitude? y.toModel.unpack = some q :=
  beq_unpacked_iff x.toModel.unpack y.toModel.unpack

theorem beq_comm (x y : Float) : (x == y) = (y == x) := by
  rw [Bool.eq_iff_iff, beq_iff, beq_iff]
  exact exists_congr fun q => And.comm

theorem beq_trans {x y z : Float} (hxy : (x == y) = true) (hyz : (y == z) = true) :
    (x == z) = true := by
  obtain ⟨q, hx, hy⟩ := (beq_iff x y).mp hxy
  obtain ⟨q', hy', hz⟩ := (beq_iff y z).mp hyz
  obtain rfl := Option.some.inj (hy.symm.trans hy')
  exact (beq_iff x z).mpr ⟨q, hx, hz⟩

end Smalltalk.Binary64
