import Mathlib.Data.Nat.Bitwise

/-!
# Scanning a machine word by halving

A portable count of leading or trailing zeros tests a block of bits with a mask, shifts the
word when the block is empty, and continues with a block half as wide. This file says what one
such test means for the number the word stands for: the high block is empty exactly when the
number is small.
-/

namespace AliosThings.Lib

/-- The bits from `k` up of `x` are all clear exactly when `x` is below `2 ^ k`. -/
theorem and_highMask_eq_zero_iff {w : Nat} (x : BitVec w) (k : Nat) :
    x &&& (BitVec.allOnes w <<< k) = 0 ↔ x.toNat < 2 ^ k := by
  constructor
  · intro clear
    refine Nat.lt_pow_two_of_testBit _ fun i low => ?_
    have bit := congrArg (fun y => BitVec.getLsbD y i) clear
    by_cases inside : i < w
    · simpa [inside, Nat.not_lt.mpr low, show i - k < w by omega, BitVec.getLsbD] using bit
    · exact BitVec.getLsbD_of_ge x i (by omega)
  · intro small
    refine BitVec.eq_of_getLsbD_eq fun i _ => ?_
    by_cases low : i < k
    · simp [low]
    · have bit : x.getLsbD i = false :=
        Nat.testBit_lt_two_pow (lt_of_lt_of_le small (Nat.pow_le_pow_right (by omega) (by omega)))
      simp [bit]

/-- A shift that keeps every set bit multiplies. -/
theorem toNat_shiftLeft_of_lt {w : Nat} (x : BitVec w) {k : Nat}
    (room : x.toNat * 2 ^ k < 2 ^ w) : (x <<< k).toNat = x.toNat * 2 ^ k := by
  rw [BitVec.toNat_shiftLeft, Nat.shiftLeft_eq, Nat.mod_eq_of_lt room]

end AliosThings.Lib
