import MemoryMonitor.Time.Scale

/-!
# The scale for a frequency, and back

How far `scale_delta` with the scale of a frequency is from the nanoseconds that a
number of ticks takes, and what is left of the ticks when the nanoseconds are scaled
by the reciprocal (`scale_reciprocal`, as in `stime2tsc`). All bounds are on rational
numbers: a shift is a factor `2 ^ shift`, and each division loses less than one.
-/

namespace Time

/-- `divl` of `dividend * 2^32` faults unless the quotient has 32 bits. -/
def DivFaults (dividend divisor : Nat) : Prop := divisor ≤ dividend

instance (dividend divisor : Nat) : Decidable (DivFaults dividend divisor) := inferInstanceAs (Decidable (_ ≤ _))

/-- The loop of `scale_reciprocal`. -/
def shiftDividend (mulFrac : Nat) : Nat → Nat → Int → Nat × Int
  | 0, dividend, shift => (dividend, shift)
  | n + 1, dividend, shift =>
    if mulFrac ≤ dividend then shiftDividend mulFrac n (dividend >>> 1) (shift + 1) else (dividend, shift)

/-- `scale_reciprocal`; an `u32` is halved at most 32 times. -/
def scaleReciprocal (scale : TimeScale) : TimeScale :=
  let (dividend, shift) := shiftDividend scale.mulFrac 32 (2 ^ 31) (1 - scale.shift)
  { shift := shift, mulFrac := divFrac dividend scale.mulFrac, lt := Nat.mod_lt _ (by decide) }

/-- The loops of `set_time_scale` are left by their conditions, and it divides without a fault. -/
structure SetTimeScaleEnds (ticksPerSec : Nat) : Prop where
  down : (shiftDown 64 ticksPerSec 0).1 ≤ 2000000000
  up : 1000000000 < (shiftUp 32 ((shiftDown 64 ticksPerSec 0).1 % 2 ^ 32) (shiftDown 64 ticksPerSec 0).2).1
  noFault : ¬ DivFaults 1000000000
    (shiftUp 32 ((shiftDown 64 ticksPerSec 0).1 % 2 ^ 32) (shiftDown 64 ticksPerSec 0).2).1

/-- So does `scale_reciprocal`. -/
structure ReciprocalEnds (scale : TimeScale) : Prop where
  down : (shiftDividend scale.mulFrac 32 (2 ^ 31) (1 - scale.shift)).1 < scale.mulFrac
  noFault : ¬ DivFaults (shiftDividend scale.mulFrac 32 (2 ^ 31) (1 - scale.shift)).1 scale.mulFrac

/-! ## What the loops compute -/

theorem shiftDown_eq (n tps64 : Nat) (shift : Int) :
    ∃ k : Nat, shiftDown n tps64 shift = (tps64 / 2 ^ k, shift - k) ∧ (k = 0 ∨ 1000000000 ≤ tps64 / 2 ^ k) := by
  induction n generalizing tps64 shift with
  | zero => exact ⟨0, by simp [shiftDown], .inl rfl⟩
  | succ n ih =>
    unfold shiftDown
    split_ifs with hlarge
    · obtain ⟨k, heq, hk⟩ := ih (tps64 >>> 1) (shift - 1)
      have hdiv : tps64 >>> 1 / 2 ^ k = tps64 / 2 ^ (k + 1) := by
        rw [Nat.shiftRight_eq_div_pow, Nat.div_div_eq_div_mul, pow_one, ← pow_succ']
      rw [hdiv] at heq hk
      refine ⟨k + 1, ?_, .inr ?_⟩
      · rw [heq]
        push_cast
        congr 1
        ring
      · rcases hk with rfl | hk
        · omega
        · exact hk
    · exact ⟨0, by simp, .inl rfl⟩

theorem shiftUp_eq (n : Nat) {tps32 : Nat} (shift : Int) (h : tps32 ≤ 2000000000) :
    ∃ j : Nat, shiftUp n tps32 shift = (tps32 * 2 ^ j, shift + j) := by
  induction n generalizing tps32 shift with
  | zero => exact ⟨0, by simp [shiftUp]⟩
  | succ n ih =>
    unfold shiftUp
    split_ifs with hsmall
    · have hmod : tps32 * 2 % 2 ^ 32 = tps32 * 2 := Nat.mod_eq_of_lt (by omega)
      rw [hmod]
      obtain ⟨j, heq⟩ := ih (shift + 1) (show tps32 * 2 ≤ 2000000000 by omega)
      refine ⟨j + 1, ?_⟩
      rw [heq]
      push_cast
      refine Prod.ext ?_ ?_ <;> simp <;> ring
    · exact ⟨0, by simp⟩

/-- The frequency as the scale has it: `divisor` after the shift, `ticks` before. -/
structure Normal (ticksPerSec : Nat) (scale : TimeScale) (divisor ticks : Nat) : Prop where
  gt : 1000000000 < divisor
  le : divisor ≤ 2000000000
  mulFrac : scale.mulFrac = 1000000000 * 2 ^ 32 / divisor
  shift : (divisor : ℚ) = ticks * 2 ^ scale.shift
  ticks_le : ticks ≤ ticksPerSec
  close : ticksPerSec * 1000000000 ≤ ticks * 1000000001

theorem divFrac_eq {dividend divisor : Nat} (h : dividend < divisor) :
    divFrac dividend divisor = dividend * 2 ^ 32 / divisor := by
  unfold divFrac
  refine Nat.mod_eq_of_lt ?_
  rw [Nat.div_lt_iff_lt_mul (by omega), Nat.mul_comm]
  exact Nat.mul_lt_mul_of_pos_left h (by decide)

theorem setTimeScale_ends {ticksPerSec : Nat} (hpos : 0 < ticksPerSec) (h : ticksPerSec < 2 ^ 64) :
    SetTimeScaleEnds ticksPerSec := by
  have hup := setTimeScale_loops hpos h
  exact ⟨(shiftDown_le 64 0 h).1, hup, not_le.mpr hup⟩

theorem setTimeScale_normal {ticksPerSec : Nat} (hpos : 0 < ticksPerSec) (h : ticksPerSec < 2 ^ 64) :
    ∃ divisor ticks, Normal ticksPerSec (setTimeScale ticksPerSec) divisor ticks := by
  obtain ⟨k, hdown, hk⟩ := shiftDown_eq 64 ticksPerSec 0
  have hends := setTimeScale_ends hpos h
  have hle := hends.down
  have hgt := hends.up
  have hone := (shiftDown_le 64 0 h).2 hpos
  rw [hdown] at hle hgt hone
  have hmod : ticksPerSec / 2 ^ k % 2 ^ 32 = ticksPerSec / 2 ^ k := Nat.mod_eq_of_lt (by omega)
  rw [hmod] at hgt
  obtain ⟨j, hup⟩ := shiftUp_eq 32 (0 - (k : Int)) hle
  have hle' := (shiftUp_lt 32 (0 - (k : Int)) hle (by omega)).2
  rw [hup] at hgt hle'
  have hscale : setTimeScale ticksPerSec =
      ⟨0 - k + j, divFrac 1000000000 (ticksPerSec / 2 ^ k * 2 ^ j), Nat.mod_lt _ (by decide)⟩ := by
    unfold setTimeScale
    simp only [hdown, hmod, hup]
  refine ⟨ticksPerSec / 2 ^ k * 2 ^ j, ticksPerSec / 2 ^ k * 2 ^ k, hgt, hle', ?_, ?_, Nat.div_mul_le_self .., ?_⟩
  · rw [hscale]
    exact divFrac_eq hgt
  · rw [hscale]
    push_cast
    rw [show (0 : ℤ) - k + j = j - k by ring, zpow_sub₀ (by norm_num), zpow_natCast, zpow_natCast]
    field_simp
  · have hdm := Nat.div_add_mod ticksPerSec (2 ^ k)
    rw [Nat.mul_comm] at hdm
    have hlt := Nat.mod_lt ticksPerSec (Nat.two_pow_pos k)
    rcases hk with rfl | hk
    · simp
      omega
    · have := Nat.mul_le_mul_right (2 ^ k) hk
      omega

/-! ## What is lost -/

namespace TimeScale

variable (scale : TimeScale)

/-- The fraction that is multiplied with. -/
def factor : ℚ := scale.mulFrac / 2 ^ 32

/-- A shift loses less than one, and one to the left nothing. -/
theorem shifted_bounds (delta : Nat) :
    (scale.shifted delta : ℚ) ≤ delta * 2 ^ scale.shift ∧ delta * 2 ^ scale.shift < (scale.shifted delta : ℚ) + 1 ∧
      (0 ≤ scale.shift → (scale.shifted delta : ℚ) = delta * 2 ^ scale.shift) := by
  unfold shifted
  split_ifs with hneg
  · obtain ⟨n, hn⟩ : ∃ n : ℕ, scale.shift = -n := ⟨(-scale.shift).toNat, by omega⟩
    have hnat : (-scale.shift).toNat = n := by omega
    have hpos : (0 : ℚ) < 2 ^ n := by positivity
    have hdm := Nat.div_add_mod delta (2 ^ n)
    rw [hnat, hn, zpow_neg, zpow_natCast, ← div_eq_mul_inv]
    refine ⟨?_, ?_, fun h => absurd h (by omega)⟩
    · rw [le_div_iff₀ hpos]
      exact_mod_cast Nat.div_mul_le_self delta (2 ^ n)
    · rw [div_lt_iff₀ hpos]
      have : delta < (delta / 2 ^ n + 1) * 2 ^ n := by
        rw [Nat.add_mul, Nat.mul_comm]
        omega
      exact_mod_cast this
  · obtain ⟨n, hn⟩ : ∃ n : ℕ, scale.shift = n := ⟨scale.shift.toNat, by omega⟩
    have hnat : scale.shift.toNat = n := by omega
    rw [hnat, hn, zpow_natCast]
    push_cast
    exact ⟨le_rfl, lt_add_one _, fun _ => rfl⟩

/-- So does the product. -/
theorem scaled_bounds (delta : Nat) :
    (scale.scaled delta : ℚ) ≤ scale.shifted delta * scale.factor ∧
      scale.shifted delta * scale.factor < (scale.scaled delta : ℚ) + 1 := by
  unfold scaled factor
  rw [← mul_div_assoc]
  constructor
  · rw [le_div_iff₀ (by norm_num)]
    exact_mod_cast Nat.div_mul_le_self (scale.shifted delta * scale.mulFrac) (2 ^ 32)
  · rw [div_lt_iff₀ (by norm_num)]
    have : scale.shifted delta * scale.mulFrac <
        (scale.shifted delta * scale.mulFrac / 2 ^ 32 + 1) * 2 ^ 32 := by omega
    exact_mod_cast this

theorem factor_lt : scale.factor < 1 := by
  unfold factor
  rw [div_lt_one (by norm_num)]
  exact_mod_cast scale.lt

theorem factor_nonneg : 0 ≤ scale.factor := by
  unfold factor
  positivity

/-- A shift and a product lose less than two. -/
theorem scaled_close (delta : Nat) :
    (scale.scaled delta : ℚ) ≤ delta * 2 ^ scale.shift * scale.factor ∧
      delta * 2 ^ scale.shift * scale.factor < (scale.scaled delta : ℚ) + 2 ∧
      (0 ≤ scale.shift → delta * 2 ^ scale.shift * scale.factor < (scale.scaled delta : ℚ) + 1) := by
  obtain ⟨hle, hlt, heq⟩ := scale.shifted_bounds delta
  obtain ⟨hle', hlt'⟩ := scale.scaled_bounds delta
  have hlt1 := scale.factor_lt
  have hnonneg := scale.factor_nonneg
  refine ⟨hle'.trans (mul_le_mul_of_nonneg_right hle hnonneg), ?_, fun h => ?_⟩
  · calc delta * 2 ^ scale.shift * scale.factor ≤ ((scale.shifted delta : ℚ) + 1) * scale.factor :=
          mul_le_mul_of_nonneg_right hlt.le hnonneg
      _ = scale.shifted delta * scale.factor + scale.factor := by ring
      _ < (scale.scaled delta : ℚ) + 1 + 1 := by linarith
      _ = (scale.scaled delta : ℚ) + 2 := by ring
  · rw [← heq h]
    exact hlt'

end TimeScale

/-! ## The scale of a frequency -/

namespace Normal

variable {tps divisor ticks : Nat} {scale : TimeScale}

theorem ticks_pos (h : Normal tps scale divisor ticks) : (0 : ℚ) < ticks := by
  have hgt := h.gt
  rcases Nat.eq_zero_or_pos ticks with h0 | hpos
  · have hz : (divisor : ℚ) = 0 := by
      rw [h.shift, h0]
      simp
    have : divisor = 0 := by exact_mod_cast hz
    omega
  · exact_mod_cast hpos

theorem mulFrac_bounds (h : Normal tps scale divisor ticks) : 2 ^ 31 ≤ scale.mulFrac ∧ scale.mulFrac < 2 ^ 32 := by
  have hle := h.le
  refine ⟨?_, scale.lt⟩
  rw [h.mulFrac, Nat.le_div_iff_mul_le (by have := h.gt; omega)]
  omega

/-- The fraction is at most a half of 2^-31 too small. -/
theorem factor_bounds (h : Normal tps scale divisor ticks) :
    scale.factor * divisor ≤ 1000000000 ∧ 1000000000 < (scale.factor + 1 / 2 ^ 32) * divisor := by
  have hpos : 0 < divisor := by have := h.gt; omega
  have hfloor := Nat.div_add_mod (1000000000 * 2 ^ 32) divisor
  have hmod := Nat.mod_lt (1000000000 * 2 ^ 32) hpos
  rw [← h.mulFrac] at hfloor
  have hle : scale.mulFrac * divisor ≤ 1000000000 * 2 ^ 32 := by
    rw [Nat.mul_comm]
    omega
  have hlt : 1000000000 * 2 ^ 32 < (scale.mulFrac + 1) * divisor := by
    rw [Nat.add_mul, Nat.mul_comm scale.mulFrac]
    omega
  have hleQ : (scale.mulFrac : ℚ) * divisor ≤ 1000000000 * 2 ^ 32 := by exact_mod_cast hle
  have hltQ : (1000000000 : ℚ) * 2 ^ 32 < (scale.mulFrac + 1) * divisor := by exact_mod_cast hlt
  unfold TimeScale.factor
  constructor
  · rw [div_mul_eq_mul_div, div_le_iff₀ (by norm_num)]
    exact hleQ
  · rw [← add_div, div_mul_eq_mul_div, lt_div_iff₀ (by norm_num)]
    exact hltQ

/-- Scaled ticks are the nanoseconds they take, but for a part in 2^28 and two. -/
theorem accurate (h : Normal tps scale divisor ticks) (hpos : 0 < tps) (delta : Nat) :
    |(scale.scaled delta : ℚ) - delta * 1000000000 / tps| ≤ delta * 1000000000 / tps / 2 ^ 28 + 2 := by
  have hticks := h.ticks_pos
  have htps : (0 : ℚ) < tps := by exact_mod_cast hpos
  have hle : (divisor : ℚ) ≤ 2000000000 := by exact_mod_cast h.le
  obtain ⟨hup, hlow, -⟩ := scale.scaled_close delta
  obtain ⟨hfup, hflow⟩ := h.factor_bounds
  -- The nanoseconds for the frequency of the scale, which is at most a part in 10^9 too low.
  set a : ℚ := delta * 1000000000 / ticks with ha
  set b : ℚ := delta * 1000000000 / tps with hb
  have hshift : (2 : ℚ) ^ scale.shift = divisor / ticks := by
    rw [h.shift]
    field_simp
  have hba : b ≤ a := by
    refine div_le_div_of_nonneg_left (by positivity) hticks ?_
    exact_mod_cast h.ticks_le
  have hab : a ≤ b * (1000000001 / 1000000000) := by
    have hclose : (tps : ℚ) * 1000000000 ≤ ticks * 1000000001 := by exact_mod_cast h.close
    rw [ha, hb, div_le_iff₀ hticks, div_mul_eq_mul_div, div_mul_eq_mul_div, le_div_iff₀ htps]
    have hd : (0 : ℚ) ≤ delta := by positivity
    nlinarith [mul_le_mul_of_nonneg_left hclose hd]
  have hscaled_le : (scale.scaled delta : ℚ) ≤ a := by
    refine hup.trans ?_
    calc (delta : ℚ) * 2 ^ scale.shift * scale.factor = delta / ticks * (scale.factor * divisor) := by
          rw [hshift]
          ring
      _ ≤ delta / ticks * 1000000000 := mul_le_mul_of_nonneg_left hfup (by positivity)
      _ = a := by rw [ha]; ring
  have hscaled_ge : a - a / 2 ^ 31 < (scale.scaled delta : ℚ) + 2 := by
    refine lt_of_le_of_lt ?_ hlow
    have hlost : a / 2 ^ 31 ≥ delta * 2 ^ scale.shift / 2 ^ 32 := by
      rw [hshift, ha]
      have hq : (delta : ℚ) * (divisor / ticks) ≤ delta * 1000000000 / ticks * 2 := by
        rw [mul_div_assoc', div_mul_eq_mul_div, div_le_div_iff_of_pos_right hticks]
        nlinarith
      linarith
    have hmain : a ≤ delta * 2 ^ scale.shift * (scale.factor + 1 / 2 ^ 32) := by
      calc a = delta / ticks * 1000000000 := by rw [ha]; ring
        _ ≤ delta / ticks * ((scale.factor + 1 / 2 ^ 32) * divisor) :=
          mul_le_mul_of_nonneg_left hflow.le (by positivity)
        _ = delta * 2 ^ scale.shift * (scale.factor + 1 / 2 ^ 32) := by
          rw [hshift]
          ring
    linarith
  rw [abs_le]
  constructor
  · linarith
  · linarith

end Normal

/-! ## The reciprocal -/

/-- The loop turns once at most. -/
theorem shiftDividend_eq {mulFrac : Nat} (h : 2 ^ 31 ≤ mulFrac) (shift : Int) :
    (mulFrac = 2 ^ 31 ∧ shiftDividend mulFrac 32 (2 ^ 31) shift = (2 ^ 30, shift + 1)) ∨
      (2 ^ 31 < mulFrac ∧ shiftDividend mulFrac 32 (2 ^ 31) shift = (2 ^ 31, shift)) := by
  rcases h.eq_or_lt with rfl | hlt
  · left
    refine ⟨rfl, ?_⟩
    rw [shiftDividend, if_pos le_rfl, shiftDividend, if_neg (by decide)]
    rfl
  · right
    refine ⟨hlt, ?_⟩
    rw [shiftDividend, if_neg (by omega)]

theorem scaleReciprocal_ends {scale : TimeScale} (h : 2 ^ 31 ≤ scale.mulFrac) : ReciprocalEnds scale := by
  have hlt : (shiftDividend scale.mulFrac 32 (2 ^ 31) (1 - scale.shift)).1 < scale.mulFrac := by
    rcases shiftDividend_eq h (1 - scale.shift) with ⟨hm, heq⟩ | ⟨hm, heq⟩
    · rw [heq, hm]
      show (2 : ℕ) ^ 30 < 2 ^ 31
      decide
    · rw [heq]
      exact hm
  exact ⟨hlt, not_le.mpr hlt⟩

/-- The reciprocal is at most a part in 2^31 too small. -/
theorem scaleReciprocal_bounds {scale : TimeScale} (h : 2 ^ 31 ≤ scale.mulFrac) :
    (scaleReciprocal scale).factor * 2 ^ (scaleReciprocal scale).shift * (scale.factor * 2 ^ scale.shift) ≤ 1 ∧
      1 - 1 / 2 ^ 31 ≤
        (scaleReciprocal scale).factor * 2 ^ (scaleReciprocal scale).shift * (scale.factor * 2 ^ scale.shift) := by
  have hlt := scale.lt
  have htwo : (2 : ℚ) ≠ 0 := by norm_num
  rcases shiftDividend_eq h (1 - scale.shift) with ⟨hm, heq⟩ | ⟨hm, heq⟩
  · have hdiv : divFrac (2 ^ 30) scale.mulFrac = 2 ^ 31 := by
      rw [hm]
      decide
    have hr : scaleReciprocal scale = ⟨1 - scale.shift + 1, 2 ^ 31, by decide⟩ := by
      unfold scaleReciprocal
      simp only [heq, hdiv]
    have hprod : (scaleReciprocal scale).factor * 2 ^ (scaleReciprocal scale).shift *
        (scale.factor * 2 ^ scale.shift) = 1 := by
      rw [hr]
      unfold TimeScale.factor
      rw [hm]
      push_cast
      rw [show (1 : ℤ) - scale.shift + 1 = 2 - scale.shift by ring, zpow_sub₀ htwo]
      field_simp
      norm_num
    rw [hprod]
    norm_num
  · -- The quotient is rounded down.
    have hr : scaleReciprocal scale =
        ⟨1 - scale.shift, divFrac (2 ^ 31) scale.mulFrac, Nat.mod_lt _ (by decide)⟩ := by
      unfold scaleReciprocal
      simp only [heq]
    set quot : ℕ := 2 ^ 31 * 2 ^ 32 / scale.mulFrac with hquot
    have hdm := Nat.div_add_mod (2 ^ 31 * 2 ^ 32) scale.mulFrac
    have hmod := Nat.mod_lt (2 ^ 31 * 2 ^ 32) (show 0 < scale.mulFrac by omega)
    rw [← hquot] at hdm
    have hprod : (scaleReciprocal scale).factor * 2 ^ (scaleReciprocal scale).shift *
        (scale.factor * 2 ^ scale.shift) = (scale.mulFrac * quot : ℕ) / 2 ^ 63 := by
      rw [hr]
      unfold TimeScale.factor
      dsimp only
      rw [divFrac_eq hm, ← hquot, zpow_sub₀ htwo, zpow_one]
      push_cast
      field_simp
    rw [hprod]
    constructor
    · rw [div_le_one (by norm_num)]
      have : scale.mulFrac * quot ≤ 2 ^ 63 := by omega
      exact_mod_cast this
    · rw [le_div_iff₀ (by norm_num)]
      have : 2 ^ 63 - 2 ^ 32 ≤ scale.mulFrac * quot := by omega
      have hQ : ((2 ^ 63 - 2 ^ 32 : ℕ) : ℚ) ≤ (scale.mulFrac * quot : ℕ) := by exact_mod_cast this
      norm_num at hQ ⊢
      exact hQ

namespace Normal

variable {tps divisor ticks : Nat} {scale : TimeScale}

/-- Scaled there and back, ticks stay what they were, but for a part in 2^28, two nanoseconds' ticks
and two. -/
theorem roundTrip (h : Normal tps scale divisor ticks) (x : Nat) :
    |((scaleReciprocal scale).scaled (scale.scaled x) : ℚ) - x| ≤ x / 2 ^ 28 + 2 * tps / 1000000000 + 2 := by
  have hm := h.mulFrac_bounds.1
  have hticks := h.ticks_pos
  have hgt : (1000000001 : ℚ) ≤ divisor := by exact_mod_cast h.gt
  have hticks_le : (ticks : ℚ) ≤ tps := by exact_mod_cast h.ticks_le
  obtain ⟨-, hflow⟩ := h.factor_bounds
  obtain ⟨hDle, hDlt, -⟩ := scale.shifted_bounds x
  obtain ⟨hyle, hylt⟩ := scale.scaled_bounds x
  obtain ⟨hzle, hzlt, -⟩ := (scaleReciprocal scale).scaled_close (scale.scaled x)
  obtain ⟨hgle, hglow⟩ := scaleReciprocal_bounds hm
  have hf : 1 / 2 ≤ scale.factor := by
    unfold TimeScale.factor
    rw [div_le_div_iff₀ (by norm_num) (by norm_num)]
    have : 2 ^ 32 ≤ scale.mulFrac * 2 := by omega
    have hQ : ((2 ^ 32 : ℕ) : ℚ) ≤ (scale.mulFrac * 2 : ℕ) := by exact_mod_cast this
    push_cast at hQ
    linarith
  have hp : (0 : ℚ) < 2 ^ scale.shift := by positivity
  set f := scale.factor
  set p : ℚ := 2 ^ scale.shift
  set g := (scaleReciprocal scale).factor * 2 ^ (scaleReciprocal scale).shift with hg
  set y : ℚ := (scale.scaled x : ℚ)
  have hf0 : 0 < f := by linarith
  have hfp : 0 < f * p := by positivity
  have hx0 : (0 : ℚ) ≤ x := by positivity
  have hg0 : 0 ≤ g := mul_nonneg (scaleReciprocal scale).factor_nonneg (by positivity)
  have hzy : (scale.scaled x : ℚ) * 2 ^ (scaleReciprocal scale).shift * (scaleReciprocal scale).factor = y * g := by
    rw [hg]
    ring
  rw [hzy] at hzle hzlt
  have hyfp : y ≤ x * (f * p) :=
    calc y ≤ x * p * f := hyle.trans (mul_le_mul_of_nonneg_right hDle hf0.le)
      _ = x * (f * p) := by ring
  -- Going there loses a tick of the shift, and the ticks of a nanosecond.
  have hback : x - 1 / p - 1 / (f * p) < y / (f * p) := by
    rw [lt_div_iff₀ hfp]
    have hy' : (x * p - 1) * f < y + 1 := lt_of_le_of_lt (mul_le_mul_of_nonneg_right (by linarith) hf0.le) hylt
    calc (x - 1 / p - 1 / (f * p)) * (f * p) = (x * p - 1) * f - 1 := by field_simp
      _ < y := by linarith
  -- Both are fewer than those of a nanosecond.
  have hlost : 1 / p + 1 / (f * p) ≤ 2 * tps / 1000000000 := by
    have hshift : (divisor : ℚ) = ticks * p := h.shift
    have hpz : 1 / p = ticks / divisor := by
      rw [hshift]
      field_simp
    have hfpz : 1 / (f * p) = ticks / (f * divisor) := by
      rw [hshift]
      field_simp
    have h1 : (ticks : ℚ) / divisor ≤ ticks * ((1 - 1 / 2 ^ 31) / 1000000000) := by
      rw [div_eq_mul_inv]
      refine mul_le_mul_of_nonneg_left ?_ hticks.le
      rw [inv_eq_one_div, div_le_div_iff₀ (by linarith) (by norm_num)]
      linarith
    have h2 : (ticks : ℚ) / (f * divisor) ≤ ticks * ((1 + 1 / 2 ^ 31) / 1000000000) := by
      rw [div_eq_mul_inv]
      refine mul_le_mul_of_nonneg_left ?_ hticks.le
      rw [inv_eq_one_div, div_le_div_iff₀ (by positivity) (by norm_num)]
      have : divisor * (1 / 2 : ℚ) ≤ divisor * f := mul_le_mul_of_nonneg_left hf (by linarith)
      linarith
    rw [hpz, hfpz]
    linarith
  have hz_le : ((scaleReciprocal scale).scaled (scale.scaled x) : ℚ) ≤ x := by
    refine hzle.trans ?_
    calc y * g ≤ x * (f * p) * g := mul_le_mul_of_nonneg_right hyfp hg0
      _ = x * (g * (f * p)) := by ring
      _ ≤ x * 1 := mul_le_mul_of_nonneg_left hgle hx0
      _ = x := mul_one _
  have hyg : y / (f * p) - x / 2 ^ 31 ≤ y * g := by
    have hmul : y / (f * p) * (1 - 1 / 2 ^ 31) ≤ y / (f * p) * (g * (f * p)) :=
      mul_le_mul_of_nonneg_left hglow (by positivity)
    have hcancel : y / (f * p) * (g * (f * p)) = y * g := by field_simp
    have hyx : y / (f * p) ≤ x := by
      rw [div_le_iff₀ hfp]
      exact hyfp
    linarith
  rw [abs_le]
  constructor
  · linarith
  · have : (0 : ℚ) ≤ tps := by positivity
    linarith

end Normal

/-! ## Both scales -/

/-- The scale of a frequency is computed without a fault and accurate, `scale_delta` is monotone as long as
the shift does not overflow, and the reciprocal leads back. -/
theorem setTimeScale_accurate (ticksPerSec : Nat) (hpos : 0 < ticksPerSec) (h : ticksPerSec < 2 ^ 64) :
    SetTimeScaleEnds ticksPerSec ∧
      2 ^ 31 ≤ (setTimeScale ticksPerSec).mulFrac ∧ (setTimeScale ticksPerSec).mulFrac < 2 ^ 32 ∧
      (∀ delta, (setTimeScale ticksPerSec).Fits delta →
        |(scaleDelta delta (setTimeScale ticksPerSec) : ℚ) - delta * 1000000000 / ticksPerSec| ≤
          delta * 1000000000 / ticksPerSec / 2 ^ 28 + 2) ∧
      (∀ a b, a ≤ b → (setTimeScale ticksPerSec).Fits b →
        scaleDelta a (setTimeScale ticksPerSec) ≤ scaleDelta b (setTimeScale ticksPerSec)) ∧
      ReciprocalEnds (setTimeScale ticksPerSec) ∧
      ∀ x, (setTimeScale ticksPerSec).Fits x →
        (scaleReciprocal (setTimeScale ticksPerSec)).Fits (scaleDelta x (setTimeScale ticksPerSec)) →
        |(scaleDelta (scaleDelta x (setTimeScale ticksPerSec)) (scaleReciprocal (setTimeScale ticksPerSec)) : ℚ) - x| ≤
          x / 2 ^ 28 + 2 * ticksPerSec / 1000000000 + 2 := by
  obtain ⟨divisor, ticks, hn⟩ := setTimeScale_normal hpos h
  obtain ⟨hge, hlt⟩ := hn.mulFrac_bounds
  refine ⟨setTimeScale_ends hpos h, hge, hlt, fun delta hfits => ?_, fun a b hab hb => ?_,
    scaleReciprocal_ends hge, fun x hx hy => ?_⟩
  · rw [TimeScale.scaleDelta_eq hfits]
    exact hn.accurate hpos delta
  · have ha : (setTimeScale ticksPerSec).Fits a :=
      ⟨hab.trans_lt hb.1, fun hs => (Nat.mul_le_mul_right _ hab).trans_lt (hb.2 hs)⟩
    rw [TimeScale.scaleDelta_eq ha, TimeScale.scaleDelta_eq hb]
    exact TimeScale.scaled_mono hab
  · rw [TimeScale.scaleDelta_eq hy, TimeScale.scaleDelta_eq hx]
    exact hn.roundTrip x

/-- A counter of 2.4 GHz, after an hour and a tick. -/
theorem setTimeScale_accurate_ghz :
    let scale := setTimeScale 2400000000
    SetTimeScaleEnds 2400000000 ∧ 2 ^ 31 ≤ scale.mulFrac ∧ scale.mulFrac < 2 ^ 32 ∧
      |(scaleDelta 8640000000001 scale : ℚ) - (8640000000001 : ℕ) * 1000000000 / (2400000000 : ℕ)| ≤
        (8640000000001 : ℕ) * 1000000000 / (2400000000 : ℕ) / 2 ^ 28 + 2 ∧
      scaleDelta 8640000000000 scale ≤ scaleDelta 8640000000001 scale ∧ ReciprocalEnds scale ∧
      |(scaleDelta (scaleDelta 8640000000001 scale) (scaleReciprocal scale) : ℚ) - (8640000000001 : ℕ)| ≤
        (8640000000001 : ℕ) / 2 ^ 28 + 2 * (2400000000 : ℕ) / 1000000000 + 2 := by
  obtain ⟨hends, hge, hlt, haccurate, hmono, hreciprocal, hround⟩ :=
    setTimeScale_accurate 2400000000 (by decide) (by decide)
  have hfits : (setTimeScale 2400000000).Fits 8640000000001 := by decide +kernel
  exact ⟨hends, hge, hlt, haccurate _ hfits, hmono _ _ (by decide) hfits, hreciprocal,
    hround _ hfits (by decide +kernel)⟩

/-- With one tick a second, a shift by 30 loses the high bits of many ticks. -/
theorem scaleDelta_notMono : ¬ ∀ ticksPerSec, 0 < ticksPerSec → ticksPerSec < 2 ^ 64 → ∀ a b, a ≤ b → b < 2 ^ 64 →
    scaleDelta a (setTimeScale ticksPerSec) ≤ scaleDelta b (setTimeScale ticksPerSec) := by
  intro h
  exact absurd (h 1 (by decide) (by decide) (2 ^ 34 - 1) (2 ^ 34) (by decide) (by decide)) (by decide +kernel)

end Time
