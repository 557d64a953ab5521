import Mathlib

/-!
# Aligned blocks

A block of order `o` has `2 ^ o` elements and starts at a multiple of that. Of two
blocks that meet, the one of lower order is a part of the other. A block of order
`o + 1` has two halves, which are each other's buddies.
-/

namespace Buddy

variable {h h' o o' x y : Nat}

/-- `x` is in the block of order `o` at `h`. -/
def Mem (h o x : Nat) : Prop := h ≤ x ∧ x < h + 2 ^ o

instance : Decidable (Mem h o x) := inferInstanceAs (Decidable (_ ∧ _))

theorem Mem.self : Mem h o h := ⟨le_rfl, Nat.lt_add_of_pos_right (Nat.two_pow_pos o)⟩

/-- The elements of an aligned block agree above their last `o` bits. -/
theorem mem_iff_div (ha : 2 ^ o ∣ h) : Mem h o x ↔ x / 2 ^ o = h / 2 ^ o := by
  rcases ha with ⟨q, rfl⟩
  have hpos := Nat.two_pow_pos o
  rw [Nat.mul_div_cancel_left q hpos, Nat.div_eq_iff hpos]
  unfold Mem
  rw [Nat.mul_comm q]
  omega

/-- Of two blocks that meet, the one of lower order is a part of the other. -/
theorem Mem.nested (ha : 2 ^ o ∣ h) (ha' : 2 ^ o' ∣ h') (ho : o ≤ o') (hx : Mem h o x)
    (hx' : Mem h' o' x) (hy : Mem h o y) : Mem h' o' y := by
  rw [mem_iff_div ha] at hx hy
  rw [mem_iff_div ha'] at hx' ⊢
  have hpow : 2 ^ o' = 2 ^ o * 2 ^ (o' - o) := by rw [← Nat.pow_add, Nat.add_sub_cancel' ho]
  rw [← hx', hpow, ← Nat.div_div_eq_div_mul, ← Nat.div_div_eq_div_mul, hx, hy]

/-- A block that meets another of higher order does not reach over its start. -/
theorem Mem.start_le (ha : 2 ^ o ∣ h) (ha' : 2 ^ o' ∣ h') (ho : o ≤ o') (hx : Mem h o x)
    (hx' : Mem h' o' x) : h' ≤ h :=
  (hx.nested ha ha' ho hx' Mem.self).1

/-! ## Halves -/

theorem mem_succ : Mem h (o + 1) x ↔ Mem h o x ∨ Mem (h + 2 ^ o) o x := by
  unfold Mem
  rw [Nat.pow_succ]
  omega

theorem not_mem_of_upper (hx : Mem (h + 2 ^ o) o x) : ¬Mem h o x := by
  unfold Mem at *
  omega

theorem aligned_lower (ha : 2 ^ (o + 1) ∣ h) : 2 ^ o ∣ h :=
  Nat.dvd_trans (Nat.pow_dvd_pow 2 o.le_succ) ha

theorem aligned_upper (ha : 2 ^ (o + 1) ∣ h) : 2 ^ o ∣ h + 2 ^ o :=
  Nat.dvd_add (aligned_lower ha) (Nat.dvd_refl _)

/-- A block is the lower half of a block, or the upper one, by one bit. -/
theorem aligned_succ (ha : 2 ^ o ∣ h) : 2 ^ (o + 1) ∣ h ↔ h.testBit o = false := by
  rcases ha with ⟨q, rfl⟩
  have hpos := Nat.two_pow_pos o
  rw [Nat.testBit_eq_decide_div_mod_eq, Nat.mul_div_cancel_left q hpos, Nat.pow_succ,
    Nat.mul_dvd_mul_iff_left hpos]
  simp [Nat.dvd_iff_mod_eq_zero]

theorem and_two_pow_ne_zero : h &&& 2 ^ o ≠ 0 ↔ h.testBit o = true := by
  constructor
  · intro hne
    by_contra hbit
    refine hne (Nat.eq_of_testBit_eq fun i => ?_)
    rw [Nat.testBit_and, Nat.testBit_two_pow, Nat.zero_testBit]
    by_cases hi : o = i
    · subst hi
      simpa using hbit
    · simp [hi]
  · intro hbit he
    have hb : (h &&& 2 ^ o).testBit o = true := by
      rw [Nat.testBit_and, Nat.testBit_two_pow_self, hbit]
      rfl
    rw [he, Nat.zero_testBit] at hb
    nomatch hb

theorem aligned_sub (ha : 2 ^ o ∣ h) (hbit : h.testBit o = true) :
    2 ^ o ≤ h ∧ 2 ^ (o + 1) ∣ h - 2 ^ o := by
  have hle := Nat.ge_two_pow_of_testBit hbit
  refine ⟨hle, ?_⟩
  rcases ha with ⟨q, rfl⟩
  have hpos := Nat.two_pow_pos o
  rw [Nat.testBit_eq_decide_div_mod_eq, Nat.mul_div_cancel_left q hpos, decide_eq_true_eq] at hbit
  have hq : q = 2 * (q / 2) + 1 := by omega
  refine ⟨q / 2, ?_⟩
  rw [hq, Nat.pow_succ]
  have : (2 * (q / 2) + 1) / 2 = q / 2 := by omega
  rw [this, Nat.mul_add, Nat.mul_one, Nat.add_sub_cancel, Nat.mul_assoc]

/-! ## Powers of two do not fall inside a block -/

theorem log_eq (ha : 2 ^ o ∣ h) (h0 : h ≠ 0) (hx : Mem h o x) : Nat.log 2 x = Nat.log 2 h := by
  have hpos := Nat.two_pow_pos o
  have hle : 2 ^ o ≤ h := Nat.le_of_dvd (by omega) ha
  rw [mem_iff_div ha] at hx
  have hne : h / 2 ^ o ≠ 0 := (Nat.div_pos hle hpos).ne'
  have hlog {y : Nat} (hy : y / 2 ^ o ≠ 0) : Nat.log 2 y = Nat.log 2 (y / 2 ^ o) + o := by
    rw [Nat.log_div_base_pow]
    have hyo : 2 ^ o ≤ y := by
      by_contra hlt
      exact hy (Nat.div_eq_of_lt (by omega))
    have := Nat.le_log_of_pow_le (by omega) hyo
    omega
  rw [hlog (hx ▸ hne), hlog hne, hx]

end Buddy
