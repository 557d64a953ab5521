import Mathlib.Order.Defs.LinearOrder

/-!
# Words as ordered keys and as bit fields

Fixed-width words with their unsigned order, and the masks of consecutive
ones that shift-and-add loops build. A mask is described by its bits
(`getLsbD`), so that a field update is a statement about each bit position.
-/

instance BitVec.instLinearOrder {w : Nat} : LinearOrder (BitVec w) where
  le_refl a := BitVec.le_refl a
  le_trans a b c := BitVec.le_trans
  le_antisymm a b h h' := BitVec.le_antisymm h h'
  le_total a b := BitVec.le_total a b
  lt_iff_le_not_ge a b := by
    simp only [BitVec.lt_def, BitVec.le_def]
    omega
  toDecidableLE := inferInstance
  toDecidableEq := inferInstance
  toDecidableLT := inferInstance

namespace Word

variable {w : Nat}

/-- Shift in a one from the right, `n` times. -/
def shiftOnes : Nat → BitVec w → BitVec w
  | 0, m => m
  | n + 1, m => shiftOnes n (m <<< 1 ||| 1#w)

theorem getLsbD_shiftOnes (i : Nat) (hi : i < w) :
    ∀ (n : Nat) (m : BitVec w), (shiftOnes n m).getLsbD i =
      (decide (i < n) || (decide (n ≤ i) && m.getLsbD (i - n)))
  | 0, m => by simp [shiftOnes]
  | n + 1, m => by
      rw [shiftOnes, getLsbD_shiftOnes i hi n]
      by_cases h : i < n
      · simp [h, Nat.lt_succ_of_lt h]
      · by_cases h' : i = n
        · subst h'
          have hw : 0 < w := by omega
          simp [hw]
        · have hlt : n < i := by omega
          have hsub : i - n ≠ 0 := by omega
          have hone : (1#w).getLsbD (i - n) = false := by
            simp [BitVec.getLsbD_one, hsub]
          have hpred : i - n - 1 = i - (n + 1) := by omega
          rw [BitVec.getLsbD_or, BitVec.getLsbD_shiftLeft, hone, hpred]
          have hiw : i - n < w := by omega
          have hle : n + 1 ≤ i := hlt
          have hnot : ¬ i < n + 1 := by omega
          have hge : ¬ i - n < 1 := by omega
          simp only [h, hiw, hnot, hge, hle, Nat.le_of_lt hlt, decide_true, decide_false,
            Bool.not_false, Bool.true_and, Bool.and_true, Bool.or_false, Bool.false_or]

/-- Starting from zero, the loop builds the mask of the `n` low ones. -/
theorem getLsbD_ones (n i : Nat) (hi : i < w) :
    (shiftOnes n (0#w)).getLsbD i = decide (i < n) := by
  simp [getLsbD_shiftOnes i hi]

/-- Adding one to a doubled word sets its low bit. -/
theorem shiftLeft_add_one (m : BitVec w) : m <<< 1 + 1#w = m <<< 1 ||| 1#w := by
  apply BitVec.add_eq_or_of_and_eq_zero
  apply BitVec.eq_of_getLsbD_eq
  intro i hi
  by_cases h : i = 0
  · simp [h]
  · simp [BitVec.getLsbD_one, h]

end Word
