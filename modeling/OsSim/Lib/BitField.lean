import Mathlib.Data.Nat.Bitwise

namespace BitField

variable {w : Nat}

/-- The word whose bits `lo` to `hi` are set. -/
def mask (w hi lo : Nat) : BitVec w :=
  (BitVec.allOnes w <<< lo) &&& (BitVec.allOnes w >>> (w - hi - 1))

def setval (v value m : BitVec w) (offst : Nat) : BitVec w :=
  (v &&& ~~~m) ||| ((value <<< offst) &&& m)

def getval (v m : BitVec w) (offst : Nat) : BitVec w :=
  (v &&& m) >>> offst

theorem getLsbD_mask {hi : Nat} (inside : hi < w) (lo i : Nat) :
    (mask w hi lo).getLsbD i = (decide (lo ≤ i) && decide (i ≤ hi)) := by
  simp only [mask, BitVec.getLsbD_and, BitVec.getLsbD_shiftLeft, BitVec.getLsbD_ushiftRight,
    BitVec.getLsbD_allOnes]
  by_cases low : lo ≤ i <;> by_cases high : i ≤ hi <;> simp [low, high] <;> omega

theorem getLsbD_setval {hi : Nat} (inside : hi < w) (v value : BitVec w) (lo i : Nat) :
    (setval v value (mask w hi lo) lo).getLsbD i =
      if lo ≤ i ∧ i ≤ hi then value.getLsbD (i - lo) else v.getLsbD i := by
  by_cases bound : i < w
  · simp only [setval, BitVec.getLsbD_or, BitVec.getLsbD_and, BitVec.getLsbD_not,
      BitVec.getLsbD_shiftLeft, getLsbD_mask inside]
    by_cases low : lo ≤ i <;> by_cases high : i ≤ hi <;> simp [low, high, bound]
  · rw [if_neg (by omega), BitVec.getLsbD_of_ge _ _ (by omega), BitVec.getLsbD_of_ge _ _ (by omega)]

theorem toNat_getval {hi lo : Nat} (inside : hi < w) (order : lo ≤ hi) (v : BitVec w) :
    (getval v (mask w hi lo) lo).toNat = v.toNat / 2 ^ lo % 2 ^ (hi + 1 - lo) := by
  apply Nat.eq_of_testBit_eq
  intro i
  rw [Nat.testBit_mod_two_pow, Nat.testBit_div_two_pow]
  simp only [BitVec.testBit_toNat, getval, BitVec.getLsbD_ushiftRight, BitVec.getLsbD_and,
    getLsbD_mask inside]
  rw [Nat.add_comm lo i]
  by_cases field : i < hi + 1 - lo <;> simp [field] <;> omega

/-- Reading a field gives the value last stored in it, as far as the field holds it. -/
theorem toNat_getval_setval {hi lo : Nat} (inside : hi < w)
    (v value : BitVec w) :
    (getval (setval v value (mask w hi lo) lo) (mask w hi lo) lo).toNat =
      value.toNat % 2 ^ (hi + 1 - lo) := by
  apply Nat.eq_of_testBit_eq
  intro i
  rw [Nat.testBit_mod_two_pow]
  simp only [BitVec.testBit_toNat, getval, BitVec.getLsbD_ushiftRight, BitVec.getLsbD_and,
    getLsbD_mask inside, getLsbD_setval inside]
  by_cases field : i < hi + 1 - lo
  · have position : lo + i ≤ hi := by omega
    simp [field, position]
  · have position : ¬ lo + i ≤ hi := by omega
    simp [field, position]

end BitField
