import Mathlib

/-!
# Words by their bits

A bit tested by its mask, the mask of the low bits, words compared on a mask, and
what zero low bits or equal high bits say about the numbers.
-/

namespace Masks

variable {w : Nat}

/-- A bit of a word, tested by its mask. -/
theorem and_bit_ne_zero (x : BitVec w) {b : Nat} (hb : b < w) : x &&& 1#w <<< b ≠ 0 ↔ x.getLsbD b = true := by
  rw [← BitVec.twoPow_eq, BitVec.and_twoPow]
  split
  · next hbit =>
      refine iff_of_true ?_ hbit
      intro hzero
      have hb' := congrArg (·.getLsbD b) hzero
      simp [hb] at hb'
  · next hbit => exact iff_of_false (fun hne => hne rfl) hbit

/-- Two words agree on a mask from bit `n` on. -/
theorem and_ushiftRight_eq_iff (x y mask : BitVec w) (n : Nat) :
    (x &&& mask) >>> n = (y &&& mask) >>> n ↔ ∀ b, n ≤ b → mask.getLsbD b = true → x.getLsbD b = y.getLsbD b := by
  constructor
  · intro h b hb hmask
    have hbit := congrArg (·.getLsbD (b - n)) h
    simpa [Nat.add_sub_cancel' hb, hmask] using hbit
  · intro h
    ext i hi
    simp only [BitVec.getElem_ushiftRight, BitVec.getLsbD_and]
    cases hmask : mask.getLsbD (n + i) with
    | false => rw [Bool.and_false, Bool.and_false]
    | true => rw [h (n + i) (Nat.le_add_right n i) hmask]

/-- The mask of the low `n` bits. -/
theorem getLsbD_low {n : Nat} (hn : n < w) (b : Nat) : (1#w <<< n - 1#w).getLsbD b = decide (b < n) := by
  show (1#w <<< n - 1#w).toNat.testBit b = _
  have hpow : 2 ^ n < 2 ^ w := Nat.pow_lt_pow_right (by decide) hn
  have hone : 0 < 2 ^ n := Nat.two_pow_pos n
  have hw : (1#w).toNat = 1 := by
    rw [BitVec.toNat_ofNat, Nat.mod_eq_of_lt]
    omega
  have hnat : (1#w <<< n - 1#w).toNat = 2 ^ n - 1 := by
    rw [← BitVec.twoPow_eq, BitVec.toNat_sub_of_le, BitVec.toNat_twoPow, Nat.mod_eq_of_lt hpow, hw]
    rw [BitVec.le_def, BitVec.toNat_twoPow, Nat.mod_eq_of_lt hpow, hw]
    exact hone
  rw [hnat, Nat.testBit_two_pow_sub_one]

/-- Low bits that are zero make a multiple. -/
theorem dvd_of_getLsbD {x : BitVec w} {k : Nat} (h : ∀ j < k, x.getLsbD j = false) : 2 ^ k ∣ x.toNat := by
  refine Nat.dvd_of_mod_eq_zero (Nat.eq_of_testBit_eq fun j => ?_)
  rw [Nat.testBit_mod_two_pow, Nat.zero_testBit]
  by_cases hj : j < k
  · rw [show x.toNat.testBit j = false from h j hj, Bool.and_false]
  · simp [hj]

/-- Words that agree from bit `k` on lie in one block. -/
theorem div_eq_of_getLsbD {x y : BitVec w} {k : Nat} (h : ∀ j, k ≤ j → j < w → x.getLsbD j = y.getLsbD j) :
    x.toNat / 2 ^ k = y.toNat / 2 ^ k := by
  rw [← Nat.shiftRight_eq_div_pow, ← Nat.shiftRight_eq_div_pow]
  refine Nat.eq_of_testBit_eq fun j => ?_
  rw [Nat.testBit_shiftRight, Nat.testBit_shiftRight]
  rcases Nat.lt_or_ge (k + j) w with hj | hj
  · exact h (k + j) (Nat.le_add_right k j) hj
  · show x.getLsbD (k + j) = y.getLsbD (k + j)
    rw [BitVec.getLsbD_of_ge x _ hj, BitVec.getLsbD_of_ge y _ hj]

/-- The negative of a multiple of `2 ^ k` is one. -/
theorem pow_le_neg {x : BitVec w} {k : Nat} (hk : k ≤ w) (hne : x.toNat ≠ 0) (hdvd : 2 ^ k ∣ x.toNat) :
    2 ^ k ≤ (-x).toNat := by
  have hlt := x.isLt
  have hdvd' : 2 ^ k ∣ 2 ^ w - x.toNat := Nat.dvd_sub (Nat.pow_dvd_pow 2 hk) hdvd
  rw [BitVec.toNat_neg, Nat.mod_eq_of_lt (by omega)]
  exact Nat.le_of_dvd (by omega) hdvd'

end Masks
