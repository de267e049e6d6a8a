import Mathlib.Algebra.Group.Int.Defs
import Smalltalk.Proofs.Regime

/-!
# `Smalltalk.Proofs.Suits`: which settings suit a regime

Every regime that admits all integers suits every system. For the tame regime
the one thing to show is that an integer of a magnitude below `2 ^ 1023` has
a double: its mantissa keeps 53 bits (`Binary64.roundDiv_le`), and rounding up
adds at most one to them, so the bits stay below those of infinity
(`Binary64.bitsOfRatio_lt`).
-/

set_option autoImplicit false

namespace Smalltalk

namespace Binary64

/-- Rounding adds at most one to a quotient. -/
theorem roundDiv_le {num den bound : Nat} (hden : 0 < den) (h : num < bound * den) :
    roundDiv num den ≤ bound := by
  have hq : num / den < bound := (Nat.div_lt_iff_lt_mul hden).mpr h
  unfold roundDiv
  simp only
  split
  · omega
  · split
    · omega
    · split <;> omega

/-- The greatest exponent below a positive integer is its logarithm. -/
theorem floorLog2_one {n : Nat} (hn : n ≠ 0) : floorLog2 n 1 = n.log2 := by
  have hscale : scale (n.log2 : Int) = (2 ^ n.log2, 1) := by
    unfold scale
    rw [if_pos (Int.natCast_nonneg _), Int.toNat_natCast]
    rfl
  have hsub : (n.log2 : Int) - (Nat.log2 1 : Int) = n.log2 := Int.sub_zero _
  unfold floorLog2
  simp only [hsub, hscale, Nat.one_mul, Nat.mul_one]
  rw [if_pos (Nat.log2_self_le hn)]

/-- An integer of no more than 1023 bits has the bits of a finite double. -/
theorem bitsOfRatio_lt {n bits : Nat} (h : n < 2 ^ bits) (hbits : bits ≤ 1023) :
    bitsOfRatio n 1 < infinityBits := by
  unfold bitsOfRatio
  split
  · decide
  rename_i hn
  have hlog : n.log2 < 1023 := Nat.lt_of_lt_of_le ((Nat.log2_lt hn).mpr h) hbits
  have hn' : n < 2 ^ (n.log2 + 1) := Nat.lt_log2_self
  have hexp : max ((n.log2 : Int) - 52) (-1074) = (n.log2 : Int) - 52 := by omega
  simp only [floorLog2_one hn, hexp]
  -- the mantissa has 53 bits, whichever side of the quotient is scaled
  have hround : roundDiv (n * (scale ((n.log2 : Int) - 52)).2) (1 * (scale ((n.log2 : Int) - 52)).1)
      ≤ 2 ^ 53 := by
    unfold scale
    split
    · rename_i hpos
      obtain ⟨k, hk⟩ : ∃ k, n.log2 = k + 52 := ⟨n.log2 - 52, by omega⟩
      have hk' : ((n.log2 : Int) - 52).toNat = k := by omega
      rw [hk']
      refine roundDiv_le (Nat.mul_pos Nat.one_pos (Nat.two_pow_pos k)) ?_
      show n * 1 < 2 ^ 53 * (1 * 2 ^ k)
      calc n * 1 < 2 ^ (n.log2 + 1) := by rw [Nat.mul_one]; exact hn'
        _ = 2 ^ 53 * (1 * 2 ^ k) := by
          rw [Nat.one_mul, ← Nat.pow_add, hk]
          congr 1
          omega
    · rename_i hneg
      obtain ⟨k, hk⟩ : ∃ k, n.log2 + k = 52 := ⟨52 - n.log2, by omega⟩
      have hk' : (-((n.log2 : Int) - 52)).toNat = k := by omega
      rw [hk']
      refine roundDiv_le Nat.one_pos ?_
      show n * 2 ^ k < 2 ^ 53 * 1
      calc n * 2 ^ k < 2 ^ (n.log2 + 1) * 2 ^ k :=
            Nat.mul_lt_mul_of_pos_right hn' (Nat.two_pow_pos k)
        _ = 2 ^ 53 * 1 := by
          rw [Nat.mul_one, ← Nat.pow_add]
          congr 1
          omega
  have hexponent : ((n.log2 : Int) - 52 + 1074).toNat ≤ 2044 := by omega
  refine Nat.lt_of_le_of_lt (Nat.min_le_left _ _) ?_
  have hmul := Nat.mul_le_mul_right hiddenBit hexponent
  refine Nat.lt_of_le_of_lt (Nat.add_le_add hmul hround) ?_
  decide

/-- Every integer below `2 ^ 1023` has a double. -/
theorem isSome_ofInt? {i : Int} (h : i.natAbs < 2 ^ 1023) : (ofInt? i).isSome = true := by
  unfold ofInt?
  rw [if_pos (bitsOfRatio_lt h (Nat.le_refl 1023))]
  rfl

end Binary64

theorem SmallInteger.holds_iff {i : Int} : holds i = true ↔ -2 ^ 60 ≤ i ∧ i < 2 ^ 60 := by
  unfold holds least greatest
  simp only [Bool.and_eq_true, decide_eq_true_eq]
  omega

namespace Regime

/-- Where everything is admitted, every system stays inside. -/
theorem any_suits (settings : Settings) : any.Suits settings where
  small _ _ := rfl
  count _ _ := rfl
  double h := absurd h Bool.false_ne_true

/-- SmallIntegers are far below the greatest double. -/
theorem natAbs_lt_of_holds {i : Int} (h : SmallInteger.holds i = true) :
    i.natAbs < 2 ^ 1023 := by
  have hbounds := SmallInteger.holds_iff.mp h
  have hsmall : i.natAbs ≤ 2 ^ 60 := by omega
  apply Nat.lt_of_le_of_lt hsmall
  apply Nat.pow_lt_pow_of_lt Nat.one_lt_two
  omega

end Regime

end Smalltalk
