import Mathlib

/-!
# Four byte counters in a word

A 32-bit word used as four 8-bit counters, `lane w i` for `i < 4`. Adding
`inc i` moves counter `i` alone as long as it stays below 256, and taking it
away does as long as the counter is positive; the masks of the counters and the
word of their sign bits are read back as statements about the counters.
-/

namespace Lanes

/-- Counter `i` of the word. -/
def lane (w : BitVec 32) (i : Fin 4) : Nat := w.toNat / 256 ^ i.val % 256

/-- One, in counter `i`. -/
def inc (i : Fin 4) : BitVec 32 := 1#32 <<< (8 * i.val)

/-- The bits of counter `i`. -/
def mask (i : Fin 4) : BitVec 32 := 0xFF#32 <<< (8 * i.val)

/-- The sign bits of the four counters. -/
def signs : BitVec 32 := 0x80808080

theorem lane_lt (w : BitVec 32) (i : Fin 4) : lane w i < 256 :=
  Nat.mod_lt _ (by decide)

theorem toNat_inc (i : Fin 4) : (inc i).toNat = 256 ^ i.val := by
  revert i
  decide

@[simp] theorem lane_zero (i : Fin 4) : lane 0#32 i = 0 := by
  simp [lane]

/-- Counting up does not carry while the counter has room. -/
theorem lane_add {w : BitVec 32} {i : Fin 4} (h : lane w i < 255) (j : Fin 4) :
    lane (w + inc i) j = lane w j + if j = i then 1 else 0 := by
  have hw := w.isLt
  unfold lane at h ⊢
  rw [BitVec.toNat_add, toNat_inc]
  fin_cases i <;> fin_cases j <;> simp at h ⊢ <;> omega

/-- Counting down does not borrow while the counter is positive. -/
theorem lane_sub {w : BitVec 32} {i : Fin 4} (h : 0 < lane w i) (j : Fin 4) :
    lane (w - inc i) j = lane w j - if j = i then 1 else 0 := by
  have hw := w.isLt
  unfold lane at h ⊢
  rw [BitVec.toNat_sub, toNat_inc]
  fin_cases i <;> fin_cases j <;> simp at h ⊢ <;> omega

/-- The counters determine the word. -/
theorem ext {w w' : BitVec 32} (h : ∀ i, lane w i = lane w' i) : w = w' := by
  have h0 := h 0
  have h1 := h 1
  have h2 := h 2
  have h3 := h 3
  apply BitVec.eq_of_toNat_eq
  simp [lane] at h0 h1 h2 h3
  omega

theorem eq_zero_iff (w : BitVec 32) : w = 0 ↔ ∀ i, lane w i = 0 := by
  constructor
  · rintro rfl i
    exact lane_zero i
  · intro h
    apply ext
    intro i
    rw [h i]
    exact (lane_zero i).symm

/-- Bit `k` of counter `i`. -/
theorem getLsbD_eq_testBit (w : BitVec 32) (i : Fin 4) {k : Nat} (hk : k < 8) :
    w.getLsbD (8 * i.val + k) = (lane w i).testBit k := by
  unfold lane
  rw [show (256 : Nat) = 2 ^ 8 from rfl, ← pow_mul, Nat.testBit_mod_two_pow,
    Nat.testBit_div_two_pow, decide_eq_true hk, Bool.true_and, BitVec.getLsbD, Nat.add_comm]

theorem getLsbD_signs (i : Fin 4) : signs.getLsbD (8 * i.val + 7) = true := by
  revert i
  decide

/-- No sign bit is set: every counter is below 128. -/
theorem lt_of_and_signs {w : BitVec 32} (h : w &&& signs = 0) (i : Fin 4) : lane w i < 128 := by
  have hbit := congrArg (fun v => v.getLsbD (8 * i.val + 7)) h
  simp only [BitVec.getLsbD_and, getLsbD_signs, Bool.and_true] at hbit
  rw [getLsbD_eq_testBit w i (by omega)] at hbit
  have hlt := lane_lt w i
  by_contra hge
  have htrue : (lane w i).testBit 7 = true := by
    rw [Nat.testBit_eq_decide_div_mod_eq]
    simp
    omega
  rw [htrue] at hbit
  simp at hbit

end Lanes
