import Mathlib

/-!
# Scaling ticks to nanoseconds

`struct time_scale` of `xen/arch/x86/time.c`: a tick is `mul_frac / 2^32` nanoseconds after a shift of the
ticks. `scaled` is what `scale_delta` computes when 64 bits are enough.
-/

namespace Time

structure TimeScale where
  shift : Int
  mulFrac : Nat
  /-- `mul_frac` is an `u32`. -/
  lt : mulFrac < 2 ^ 32

/-- The first loop of `set_time_scale`; an `u64` is halved at most 64 times. -/
def shiftDown : Nat → Nat → Int → Nat × Int
  | 0, tps64, shift => (tps64, shift)
  | n + 1, tps64, shift =>
    if 2000000000 < tps64 then shiftDown n (tps64 >>> 1) (shift - 1) else (tps64, shift)

/-- The second loop of `set_time_scale`, for an `u32` that is not zero. -/
def shiftUp : Nat → Nat → Int → Nat × Int
  | 0, tps32, shift => (tps32, shift)
  | n + 1, tps32, shift =>
    if tps32 ≤ 1000000000 then shiftUp n (tps32 * 2 % 2 ^ 32) (shift + 1) else (tps32, shift)

/-- `div_frac`. -/
def divFrac (dividend divisor : Nat) : Nat := dividend * 2 ^ 32 / divisor % 2 ^ 32

/-- `set_time_scale`. -/
def setTimeScale (ticksPerSec : Nat) : TimeScale :=
  let (tps64, shift) := shiftDown 64 ticksPerSec 0
  let (tps32, shift) := shiftUp 32 (tps64 % 2 ^ 32) shift
  { shift := shift, mulFrac := divFrac 1000000000 tps32, lt := Nat.mod_lt _ (by decide) }

/-- `scale_delta`, with 64-bit shifts and a product of 96 bits. -/
def scaleDelta (delta : Nat) (scale : TimeScale) : Nat :=
  let delta := if scale.shift < 0 then delta >>> (-scale.shift).toNat
    else delta <<< scale.shift.toNat % 2 ^ 64
  delta * scale.mulFrac / 2 ^ 32

/-! ## The scale for a frequency -/

theorem shiftDown_le (n : Nat) {tps64 : Nat} (shift : Int) (h : tps64 < 2 ^ n) :
    (shiftDown n tps64 shift).1 ≤ 2000000000 ∧ (1 ≤ tps64 → 1 ≤ (shiftDown n tps64 shift).1) := by
  induction n generalizing tps64 shift with
  | zero =>
    unfold shiftDown
    exact ⟨by omega, id⟩
  | succ n ih =>
    unfold shiftDown
    split
    · have hhalf : tps64 >>> 1 = tps64 / 2 := rfl
      rw [Nat.pow_succ] at h
      obtain ⟨hle, hpos⟩ := ih (shift - 1) (show tps64 >>> 1 < 2 ^ n by omega)
      exact ⟨hle, fun _ => hpos (by omega)⟩
    · exact ⟨by omega, id⟩

theorem shiftUp_lt (n : Nat) {tps32 : Nat} (shift : Int) (hle : tps32 ≤ 2000000000)
    (h : 1000000000 < tps32 * 2 ^ n) :
    1000000000 < (shiftUp n tps32 shift).1 ∧ (shiftUp n tps32 shift).1 ≤ 2000000000 := by
  induction n generalizing tps32 shift with
  | zero =>
    unfold shiftUp
    exact ⟨by omega, hle⟩
  | succ n ih =>
    unfold shiftUp
    split
    · next hlow =>
      have hmod : tps32 * 2 % 2 ^ 32 = tps32 * 2 := Nat.mod_eq_of_lt (by omega)
      rw [hmod]
      apply ih (shift + 1) (by omega)
      calc 1000000000 < tps32 * 2 ^ (n + 1) := h
        _ = tps32 * 2 * 2 ^ n := by ring
    · exact ⟨by omega, hle⟩

/-- The loops of `set_time_scale` end, and `div_frac` may be called. -/
theorem setTimeScale_loops {ticksPerSec : Nat} (hpos : 0 < ticksPerSec) (h : ticksPerSec < 2 ^ 64) :
    1000000000 < (shiftUp 32 ((shiftDown 64 ticksPerSec 0).1 % 2 ^ 32) (shiftDown 64 ticksPerSec 0).2).1 := by
  obtain ⟨hle, hone⟩ := shiftDown_le 64 0 h
  have hone := hone hpos
  have hmod : (shiftDown 64 ticksPerSec 0).1 % 2 ^ 32 = (shiftDown 64 ticksPerSec 0).1 :=
    Nat.mod_eq_of_lt (by omega)
  rw [hmod]
  exact (shiftUp_lt 32 _ hle (by omega)).1

theorem shiftUp_shift (n tps32 : Nat) (shift : Int) : shift ≤ (shiftUp n tps32 shift).2 := by
  induction n generalizing tps32 shift with
  | zero => exact le_rfl
  | succ n ih =>
    unfold shiftUp
    split
    · have := ih (tps32 * 2 % 2 ^ 32) (shift + 1)
      omega
    · exact le_rfl

/-- Ticks are only shifted out for frequencies above 2GHz. -/
theorem setTimeScale_shift {ticksPerSec : Nat} (h : ticksPerSec ≤ 2000000000) :
    0 ≤ (setTimeScale ticksPerSec).shift := by
  have hdown : shiftDown 64 ticksPerSec 0 = (ticksPerSec, 0) := by
    unfold shiftDown
    rw [if_neg (by omega)]
  unfold setTimeScale
  rw [hdown]
  exact shiftUp_shift 32 _ 0

/-! ## Scaling without a limit -/

namespace TimeScale

variable (scale : TimeScale)

/-- The ticks after the shift. -/
def shifted (delta : Nat) : Nat :=
  if scale.shift < 0 then delta / 2 ^ (-scale.shift).toNat else delta * 2 ^ scale.shift.toNat

/-- What `scale_delta` is to compute. -/
def scaled (delta : Nat) : Nat := scale.shifted delta * scale.mulFrac / 2 ^ 32

/-- The nanoseconds that may be lost when a stretch of ticks is scaled in two parts. -/
def lost : Nat := if scale.shift < 0 then 2 else 1

/-- 64 bits are enough. -/
def Fits (delta : Nat) : Prop := delta < 2 ^ 64 ∧ (0 ≤ scale.shift → delta * 2 ^ scale.shift.toNat < 2 ^ 64)

instance (delta : Nat) : Decidable (scale.Fits delta) := inferInstanceAs (Decidable (_ ∧ _))

variable {scale}

theorem scaleDelta_eq {delta : Nat} (h : scale.Fits delta) : scaleDelta delta scale = scale.scaled delta := by
  unfold scaleDelta scaled shifted
  dsimp only
  split
  · rw [Nat.shiftRight_eq_div_pow]
  · next hshift =>
    rw [Nat.shiftLeft_eq, Nat.mod_eq_of_lt (h.2 (by omega))]

theorem shifted_mono {a b : Nat} (h : a ≤ b) : scale.shifted a ≤ scale.shifted b := by
  unfold shifted
  split
  · exact Nat.div_le_div_right h
  · exact Nat.mul_le_mul_right _ h

theorem scaled_mono {a b : Nat} (h : a ≤ b) : scale.scaled a ≤ scale.scaled b :=
  Nat.div_le_div_right (Nat.mul_le_mul_right _ (shifted_mono h))

variable (scale)

theorem scaled_zero : scale.scaled 0 = 0 := by
  unfold scaled shifted
  split <;> simp

/-- Two parts, after the shift. -/
theorem shifted_add (a b : Nat) : scale.shifted a + scale.shifted b ≤ scale.shifted (a + b) ∧
    scale.shifted (a + b) + 1 ≤ scale.shifted a + scale.shifted b + scale.lost := by
  unfold shifted lost
  split
  · have hle : a / 2 ^ (-scale.shift).toNat + b / 2 ^ (-scale.shift).toNat ≤
        (a + b) / 2 ^ (-scale.shift).toNat := Nat.div_add_div_le_add_div
    have hpos : 0 < 2 ^ (-scale.shift).toNat := Nat.two_pow_pos _
    refine ⟨hle, ?_⟩
    have ha := Nat.div_add_mod a (2 ^ (-scale.shift).toNat)
    have hb := Nat.div_add_mod b (2 ^ (-scale.shift).toNat)
    have hma := Nat.mod_lt a hpos
    have hmb := Nat.mod_lt b hpos
    have hlt : (a + b) / 2 ^ (-scale.shift).toNat <
        a / 2 ^ (-scale.shift).toNat + b / 2 ^ (-scale.shift).toNat + 2 := by
      rw [Nat.div_lt_iff_lt_mul hpos]
      nlinarith
    omega
  · rw [Nat.add_mul]
    exact ⟨le_rfl, le_rfl⟩

/-- Scaling the parts never gives more. -/
theorem scaled_add_le (a b : Nat) : scale.scaled a + scale.scaled b ≤ scale.scaled (a + b) := by
  have h := Nat.mul_le_mul_right scale.mulFrac (scale.shifted_add a b).1
  rw [Nat.add_mul] at h
  unfold scaled
  omega

/-- It gives less than `lost` less, and at most that in whole nanoseconds. -/
theorem scaled_add_ge (a b : Nat) : scale.scaled (a + b) ≤ scale.scaled a + scale.scaled b + scale.lost := by
  have h := Nat.mul_le_mul_right scale.mulFrac (scale.shifted_add a b).2
  have hlt := scale.lt
  unfold scaled
  unfold lost at h ⊢
  split at h
  · next hneg =>
    rw [if_pos hneg]
    simp only [Nat.add_mul] at h
    omega
  · next hpos =>
    rw [if_neg hpos]
    simp only [Nat.add_mul] at h
    omega

variable {scale}

/-- Without a shift to the right, scaling loses less than a nanosecond. -/
theorem scaled_exact (h : 0 ≤ scale.shift) (delta : Nat) :
    2 ^ 32 * scale.scaled delta ≤ delta * 2 ^ scale.shift.toNat * scale.mulFrac ∧
      delta * 2 ^ scale.shift.toNat * scale.mulFrac ≤ 2 ^ 32 * scale.scaled delta + (2 ^ 32 - 1) := by
  unfold scaled shifted
  rw [if_neg (by omega)]
  omega

end TimeScale

end Time
