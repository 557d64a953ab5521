import MemoryMonitor.Lib.While
import MemoryMonitor.Time.Reciprocal

/-!
# Calibrating the local clock

`local_time_calibration` (`xen/arch/x86/time.c`) without a constant TSC. From the
time and the ticks since the last calibration it computes the scale that is used
until the next one. Its loops shift both until they fit; the last one doubles the
ticks until they exceed the time, and does not end when none are left.

Interrupts, the time of the guest and the timer of the next calibration are left out.
-/

namespace Time

open While

/-- `EPOCH`. -/
def epoch : Nat := 1000000000

/-- `struct cpu_time`. -/
structure CpuTime where
  localTscStamp : Nat
  stimeLocalStamp : Int
  stimeMasterStamp : Int
  tscScale : TimeScale

/-- `struct cpu_calibration`. -/
structure CpuCalibration where
  localTscStamp : Nat
  stimeLocalStamp : Int
  stimeMasterStamp : Int

/-- A difference as an `u64`. -/
def u64 (x : Int) : Nat := (x % 2 ^ 64).toNat

/-- `mul_frac`. -/
def mulFrac (multiplicand multiplier : Nat) : Nat := multiplicand * multiplier / 2 ^ 32

theorem mulFrac_lt {a b : Nat} (ha : a < 2 ^ 32) (hb : b < 2 ^ 32) : mulFrac a b < 2 ^ 32 := by
  unfold mulFrac
  rw [Nat.div_lt_iff_lt_mul (by decide)]
  exact (Nat.mul_le_mul_left a hb.le).trans_lt (Nat.mul_lt_mul_of_pos_right ha (by decide))

theorem divFrac_lt (a b : Nat) : divFrac a b < 2 ^ 32 := Nat.mod_lt _ (by decide)

/-- How a calibration ends: whether its assertions hold, whether a `divl` faults, and the time record
if it is written. -/
structure Calibrated where
  asserts : Bool
  faults : Bool
  time : Option CpuTime

/-- `error_factor`: 0 for a clock that is not ahead. -/
def errorFactor (currLocal currMaster : Int) : Nat :=
  if currLocal ≠ currMaster then
    divFrac epoch (epoch + min (u64 (currLocal - currMaster)) epoch)
  else 0

/-- `calibration_mul_frac`. -/
def calibrationMulFrac (stime32 tsc32 errorFactor : Nat) : Nat :=
  if errorFactor ≠ 0 then mulFrac (divFrac stime32 tsc32) errorFactor else divFrac stime32 tsc32

theorem calibrationMulFrac_lt {e : Nat} (stime32 tsc32 : Nat) (he : e < 2 ^ 32) :
    calibrationMulFrac stime32 tsc32 e < 2 ^ 32 := by
  unfold calibrationMulFrac
  split_ifs
  · exact mulFrac_lt (divFrac_lt ..) he
  · exact divFrac_lt ..

theorem errorFactor_lt (a b : Int) : errorFactor a b < 2 ^ 32 := by
  unfold errorFactor
  split_ifs
  · exact divFrac_lt ..
  · decide

/-- Both are halved until the time has 31 bits. -/
def shiftBoth (n stime64 tsc64 : Nat) : Option (Nat × Nat) :=
  turns (fun s : Nat × Nat => s.1 % 2 ^ 32 ≠ s.1 ∨ 2 ^ 31 ≤ s.1 % 2 ^ 32) (fun s => (s.1 >>> 1, s.2 >>> 1)) n
    (stime64, tsc64)

/-- The ticks are halved until they are at most twice the time. -/
def shiftTsc (n stime32 tsc64 : Nat) : Option (Nat × Int) :=
  turns (fun s : Nat × Int => s.1 > stime32 * 2 % 2 ^ 32) (fun s => (s.1 >>> 1, s.2 - 1)) n (tsc64, 0)

/-- They are doubled until they are more. -/
def doubleTsc (n stime32 tsc32 : Nat) (tscShift : Int) : Option (Nat × Int) :=
  turns (fun s : Nat × Int => s.1 ≤ stime32) (fun s => (s.1 * 2 % 2 ^ 32, s.2 + 1)) n (tsc32, tscShift)

/-- From the error factor on. -/
def calibrate (n : Nat) (c : CpuCalibration) (currLocal : Int) (stime64 tsc64 : Nat) : Option Calibrated :=
  let errorFault := currLocal ≠ c.stimeMasterStamp ∧
    DivFaults epoch (epoch + min (u64 (currLocal - c.stimeMasterStamp)) epoch)
  (shiftBoth n stime64 tsc64).bind fun (stime64, tsc64) =>
    let stime32 := stime64 % 2 ^ 32
    (shiftTsc n stime32 tsc64).bind fun (tsc64, tscShift) =>
      let tsc32 := tsc64 % 2 ^ 32
      (doubleTsc n stime32 tsc32 tscShift).map fun (doubled, tscShift) =>
        { asserts := decide (tsc32 = tsc64 ∧ tsc32 ≠ 0)
          faults := decide (errorFault ∨ DivFaults stime32 doubled)
          time := some
            { localTscStamp := c.localTscStamp
              stimeLocalStamp := currLocal
              stimeMasterStamp := c.stimeMasterStamp
              tscScale := ⟨tscShift, calibrationMulFrac stime32 doubled (errorFactor currLocal c.stimeMasterStamp),
                calibrationMulFrac_lt _ _ (errorFactor_lt ..)⟩ } }

/-- `local_time_calibration`, if every loop is left after at most `n` turns. -/
def localTimeCalibration (n : Nat) (t : CpuTime) (c : CpuCalibration) : Option Calibrated :=
  let currLocal := max c.stimeLocalStamp c.stimeMasterStamp
  let stime64 := u64 (c.stimeMasterStamp - t.stimeMasterStamp)
  let tsc64 := u64 (c.localTscStamp - t.localTscStamp)
  if stime64 < epoch / 2 ∨ 2 ^ 63 ≤ stime64 then some ⟨true, false, none⟩
  else calibrate n c currLocal stime64 tsc64

/-! ## The loops -/

theorem half_div (x k : Nat) : (x / 2 ^ k) >>> 1 = x / 2 ^ (k + 1) := by
  rw [Nat.shiftRight_eq_div_pow, Nat.div_div_eq_div_mul, ← Nat.pow_add]

section ShiftBoth

variable {n stime tsc : Nat}

/-- Both have been shifted by `k` places. -/
def Halved (stime tsc : Nat) (s : Nat × Nat) : Prop :=
  ∃ k, s = (stime / 2 ^ k, tsc / 2 ^ k) ∧ (k = 0 ∨ 2 ^ 30 ≤ stime / 2 ^ k)

theorem Halved.step {s : Nat × Nat} (h : Halved stime tsc s) (hc : s.1 % 2 ^ 32 ≠ s.1 ∨ 2 ^ 31 ≤ s.1 % 2 ^ 32) :
    Halved stime tsc (s.1 >>> 1, s.2 >>> 1) ∧ s.1 >>> 1 < s.1 := by
  obtain ⟨k, rfl, -⟩ := h
  generalize hx : stime / 2 ^ k = x at hc ⊢
  refine ⟨⟨k + 1, by rw [← hx, half_div, half_div], .inr ?_⟩, by omega⟩
  rw [← half_div, hx]
  omega

theorem shiftBoth_ends (hn : stime ≤ n) : ∃ s, shiftBoth n stime tsc = some s := by
  have hzero : Halved stime tsc (stime, tsc) := ⟨0, by simp, .inl rfl⟩
  obtain ⟨s, hrun, -⟩ := turns_ends (I := Halved stime tsc) (fun s => s.1) (fun _ hs hc => hs.step hc) hn hzero
  exact ⟨s, hrun⟩

theorem shiftBoth_spec {s : Nat × Nat} (hrun : shiftBoth n stime tsc = some s) :
    ∃ k, s = (stime / 2 ^ k, tsc / 2 ^ k) ∧ stime / 2 ^ k < 2 ^ 31 ∧ (k = 0 ∨ 2 ^ 30 ≤ stime / 2 ^ k) := by
  have hzero : Halved stime tsc (stime, tsc) := ⟨0, by simp, .inl rfl⟩
  obtain ⟨⟨k, rfl, hk⟩, hc⟩ := turns_some (I := Halved stime tsc) (fun _ hs hc => (hs.step hc).1) hzero hrun
  refine ⟨k, rfl, ?_, hk⟩
  omega

/-- Ticks are left after `k` places, which the time decides, if they have enough bits. -/
theorem halved_ne_zero_iff {k : Nat} (hs : stime ≠ 0) (ht : tsc ≠ 0) (hlt : stime / 2 ^ k < 2 ^ 31)
    (hge : k = 0 ∨ 2 ^ 30 ≤ stime / 2 ^ k) : tsc / 2 ^ k ≠ 0 ↔ stime.log2 ≤ tsc.log2 + 30 := by
  have hk : tsc / 2 ^ k ≠ 0 ↔ k ≤ tsc.log2 := by
    rw [Nat.le_log2 ht, Nat.ne_zero_iff_zero_lt, Nat.div_pos_iff]
    exact and_iff_right (Nat.two_pow_pos k)
  have hup : stime.log2 < k + 31 := by
    rw [Nat.log2_lt hs, Nat.pow_add, Nat.mul_comm]
    exact (Nat.div_lt_iff_lt_mul (Nat.two_pow_pos k)).mp hlt
  rw [hk]
  rcases hge with rfl | hge
  · omega
  · have hlow : k + 30 ≤ stime.log2 := by
      rw [Nat.le_log2 hs, Nat.pow_add, Nat.mul_comm]
      exact (Nat.le_div_iff_mul_le (Nat.two_pow_pos k)).mp hge
    omega

end ShiftBoth

theorem shiftTsc_spec {n stime tsc : Nat} (hs : stime < 2 ^ 31) (hn : tsc ≤ n) :
    ∃ j : Nat, shiftTsc n stime tsc = some (tsc / 2 ^ j, -(j : Int)) ∧ tsc / 2 ^ j ≤ stime * 2 ∧
      (j = 0 ∨ stime ≤ tsc / 2 ^ j) := by
  let I := fun s : Nat × Int => ∃ j : Nat, s = (tsc / 2 ^ j, -(j : Int)) ∧ (j = 0 ∨ stime ≤ tsc / 2 ^ j)
  have hbody : ∀ s, I s → s.1 > stime * 2 % 2 ^ 32 → I (s.1 >>> 1, s.2 - 1) ∧ s.1 >>> 1 < s.1 := by
    rintro s ⟨j, rfl, -⟩ hc
    generalize hx : tsc / 2 ^ j = x at hc ⊢
    refine ⟨⟨j + 1, ?_, .inr ?_⟩, by omega⟩
    · rw [← hx, half_div]
      push_cast
      congr 1
      ring
    · rw [← half_div, hx]
      omega
  obtain ⟨s, hrun, ⟨j, rfl, hj⟩, hc⟩ :=
    turns_ends (fun s : Nat × Int => s.1) hbody (s := (tsc, 0)) hn ⟨0, by simp, .inl rfl⟩
  refine ⟨j, hrun, ?_, hj⟩
  omega

theorem doubleTsc_spec {n stime tsc : Nat} (shift : Int) (hs : stime < 2 ^ 31) (hpos : 0 < tsc)
    (hle : tsc ≤ stime * 2) (hn : stime * 2 ≤ n) :
    ∃ j : Nat, doubleTsc n stime tsc shift = some (tsc * 2 ^ j, shift + j) ∧ stime < tsc * 2 ^ j ∧
      tsc * 2 ^ j ≤ stime * 2 := by
  let I := fun s : Nat × Int => ∃ j : Nat, s = (tsc * 2 ^ j, shift + j) ∧ tsc * 2 ^ j ≤ stime * 2
  have hbody : ∀ s, I s → s.1 ≤ stime →
      I (s.1 * 2 % 2 ^ 32, s.2 + 1) ∧ stime * 2 - s.1 * 2 % 2 ^ 32 < stime * 2 - s.1 := by
    rintro s ⟨j, rfl, -⟩ hc
    have hdouble : tsc * 2 ^ (j + 1) = tsc * 2 ^ j * 2 := by rw [Nat.pow_succ, Nat.mul_assoc]
    have hpos' : 0 < tsc * 2 ^ j := Nat.mul_pos hpos (Nat.two_pow_pos j)
    have hmod : tsc * 2 ^ j * 2 % 2 ^ 32 = tsc * 2 ^ (j + 1) := by
      rw [hdouble]
      exact Nat.mod_eq_of_lt (by omega)
    rw [hmod]
    refine ⟨⟨j + 1, ?_, by omega⟩, by omega⟩
    push_cast
    congr 1
    ring
  obtain ⟨s, hrun, ⟨j, rfl, hj⟩, hc⟩ := turns_ends (fun s : Nat × Int => stime * 2 - s.1) hbody
    (n := n) (s := (tsc, shift)) (by dsimp only; omega) ⟨0, by simp, by omega⟩
  exact ⟨j, hrun, not_le.mp hc, hj⟩

theorem doubleTsc_hangs (n stime : Nat) (shift : Int) : doubleTsc n stime 0 shift = none := by
  refine turns_hangs (I := fun s : Nat × Int => s.1 = 0) ?_ n rfl
  rintro ⟨x, i⟩ hx
  obtain rfl : x = 0 := hx
  exact ⟨Nat.zero_le stime, rfl⟩

/-! ## The new scale -/

/-- How the loops have shifted `stime` nanoseconds and `tsc` ticks: `k` places both, `j₁` places the ticks,
and `j₂` back. -/
structure Shifts (stime tsc k j₁ j₂ : Nat) : Prop where
  stime_lt : stime / 2 ^ k < 2 ^ 31
  stime_ge : k = 0 ∨ 2 ^ 30 ≤ stime / 2 ^ k
  tsc_le : tsc / 2 ^ k / 2 ^ j₁ ≤ stime / 2 ^ k * 2
  tsc_ge : j₁ = 0 ∨ stime / 2 ^ k ≤ tsc / 2 ^ k / 2 ^ j₁
  gt : stime / 2 ^ k < tsc / 2 ^ k / 2 ^ j₁ * 2 ^ j₂
  le : tsc / 2 ^ k / 2 ^ j₁ * 2 ^ j₂ ≤ stime / 2 ^ k * 2

variable {stime tsc k j₁ j₂ : Nat}

/-- The ticks are shifted without a loss. -/
theorem Shifts.fits (h : Shifts stime tsc k j₁ j₂) (hs : stime < 2 ^ 63) (ht : tsc < 2 ^ 64) {scale : TimeScale}
    (hshift : scale.shift = -j₁ + j₂) : scale.Fits tsc := by
  refine ⟨ht, fun h0 => ?_⟩
  have hlt := h.stime_lt
  have hgt := h.gt
  have hle := h.le
  by_cases hj₁ : j₁ = 0
  · subst hj₁
    -- Both have been shifted by `k`, and then only the ticks, to the left.
    have htoNat : scale.shift.toNat = j₂ := by omega
    have hk : k ≤ 32 := by
      by_contra hk
      rcases h.stime_ge with rfl | hge
      · omega
      · have hpow : 2 ^ 33 ≤ 2 ^ k := Nat.pow_le_pow_right (by decide) (by omega)
        have hmul := Nat.mul_le_mul hge hpow
        have := Nat.div_mul_le_self stime (2 ^ k)
        omega
    rw [Nat.pow_zero, Nat.div_one] at hgt hle
    set a := tsc / 2 ^ k with ha
    have hj : a * 2 ^ j₂ < 2 ^ 32 := by omega
    have ha0 : 0 < a := by
      rcases Nat.eq_zero_or_pos a with h0 | h0
      · rw [h0, Nat.zero_mul] at hgt
        exact absurd hgt (Nat.not_lt_zero _)
      · exact h0
    have hj₂ : j₂ ≤ 32 := by
      by_contra hj₂
      have hpow : 2 ^ 33 ≤ 2 ^ j₂ := Nat.pow_le_pow_right (by decide) (by omega)
      have := Nat.mul_le_mul ha0 hpow
      omega
    have hpow : 2 ^ (32 - j₂) * 2 ^ j₂ = 2 ^ 32 := by rw [← Nat.pow_add, Nat.sub_add_cancel hj₂]
    have ha1 : (a + 1) * 2 ^ j₂ ≤ 2 ^ 32 := by
      rw [← hpow] at hj ⊢
      exact Nat.mul_le_mul_right _ (Nat.lt_of_mul_lt_mul_right hj)
    have htsc : tsc < (a + 1) * 2 ^ k := by
      have hdm := Nat.div_add_mod tsc (2 ^ k)
      rw [← ha] at hdm
      rw [Nat.add_mul, Nat.mul_comm]
      omega
    rw [htoNat]
    calc tsc * 2 ^ j₂ < (a + 1) * 2 ^ k * 2 ^ j₂ := Nat.mul_lt_mul_of_pos_right htsc (Nat.two_pow_pos j₂)
      _ = (a + 1) * 2 ^ j₂ * 2 ^ k := Nat.mul_right_comm ..
      _ ≤ 2 ^ 32 * 2 ^ 32 := Nat.mul_le_mul ha1 (Nat.pow_le_pow_right (by decide) hk)
      _ = 2 ^ 64 := by norm_num
  · -- The ticks have been shifted to the right, and at most one place back.
    have hge := h.tsc_ge.resolve_left hj₁
    have hj₂ : j₂ ≤ 1 := by
      by_contra hj₂
      have hpow : 2 ^ 2 ≤ 2 ^ j₂ := Nat.pow_le_pow_right (by decide) (by omega)
      have := Nat.mul_le_mul hge hpow
      omega
    have htoNat : scale.shift.toNat = 0 := by omega
    rw [htoNat]
    simpa using ht

/-- The scale with an error factor of at least a half. -/
theorem calibrationMulFrac_bounds {s z e : Nat} (hsz : s < z) (he : e = 0 ∨ 2 ^ 31 ≤ e) (he' : e < 2 ^ 32) :
    (calibrationMulFrac s z e : ℚ) / 2 ^ 32 ≤ s / z ∧
      (s : ℚ) / z / 2 - 3 / 2 ^ 33 ≤ (calibrationMulFrac s z e : ℚ) / 2 ^ 32 := by
  have hz : (0 : ℚ) < z := by
    have : 0 < z := by omega
    exact_mod_cast this
  set g := divFrac s z with hg
  have hg' : g = s * 2 ^ 32 / z := divFrac_eq hsz
  have hdm := Nat.div_add_mod (s * 2 ^ 32) z
  have hmod := Nat.mod_lt (s * 2 ^ 32) (show 0 < z by omega)
  rw [← hg'] at hdm
  have hgle : (g : ℚ) / 2 ^ 32 ≤ s / z := by
    rw [div_le_div_iff₀ (by norm_num) hz]
    have : g * z ≤ s * 2 ^ 32 := by
      rw [Nat.mul_comm]
      omega
    exact_mod_cast this
  have hglt : (s : ℚ) / z - 1 / 2 ^ 32 ≤ g / 2 ^ 32 := by
    rw [sub_le_iff_le_add, ← add_div, div_le_div_iff₀ hz (by norm_num)]
    have : s * 2 ^ 32 ≤ (g + 1) * z := by
      rw [Nat.add_mul, Nat.mul_comm g]
      omega
    exact_mod_cast this
  unfold calibrationMulFrac
  rw [← hg]
  split_ifs with h0
  · -- slowed down
    have he := he.resolve_left h0
    have hmod := Nat.mod_lt (g * e) (show 0 < 2 ^ 32 by decide)
    have hle : mulFrac g e ≤ g := by
      unfold mulFrac
      rw [Nat.div_le_iff_le_mul_add_pred (by decide)]
      have := Nat.mul_le_mul_left g he'.le
      omega
    have hge : g ≤ (mulFrac g e + 1) * 2 := by
      have hmul := Nat.mul_le_mul_left g he
      unfold mulFrac
      omega
    have hleQ : (mulFrac g e : ℚ) ≤ g := by exact_mod_cast hle
    have hgeQ : (g : ℚ) ≤ (mulFrac g e + 1) * 2 := by exact_mod_cast hge
    constructor
    · refine le_trans ?_ hgle
      exact div_le_div_of_nonneg_right hleQ (by norm_num)
    · linarith
  · have hs : (0 : ℚ) ≤ s / z := by positivity
    exact ⟨hgle, by linarith⟩

/-- What the shifts lose, if there was a tick a microsecond. -/
theorem Shifts.bounds (h : Shifts stime tsc k j₁ j₂) (hs : epoch / 2 ≤ stime) (hfast : stime ≤ 1000 * tsc) :
    stime / 2 ^ k * 2 ^ k ≤ stime ∧ stime < (stime / 2 ^ k + 1) * 2 ^ k ∧
      tsc / 2 ^ k / 2 ^ j₁ * (2 ^ k * 2 ^ j₁) ≤ tsc ∧ tsc < (tsc / 2 ^ k / 2 ^ j₁ + 1) * (2 ^ k * 2 ^ j₁) ∧
      499999 ≤ tsc / 2 ^ k / 2 ^ j₁ := by
  have hlt : ∀ x m : Nat, 0 < m → x < (x / m + 1) * m := by
    intro x m hm
    have hdm := Nat.div_add_mod x m
    have hmod := Nat.mod_lt x hm
    rw [Nat.add_mul, Nat.mul_comm]
    omega
  have hw := Nat.two_pow_pos k
  refine ⟨Nat.div_mul_le_self .., hlt _ _ hw, ?_, ?_, ?_⟩
  · rw [Nat.div_div_eq_div_mul]
    exact Nat.div_mul_le_self ..
  · rw [Nat.div_div_eq_div_mul]
    exact hlt _ _ (Nat.mul_pos hw (Nat.two_pow_pos j₁))
  · unfold epoch at hs
    rcases h.tsc_ge with rfl | hge
    · rw [Nat.pow_zero, Nat.div_one, Nat.le_div_iff_mul_le hw]
      rcases h.stime_ge with rfl | hge
      · omega
      · have := Nat.mul_le_mul_right (2 ^ k) hge
        have := Nat.div_mul_le_self stime (2 ^ k)
        omega
    · refine le_trans ?_ hge
      rcases h.stime_ge with rfl | hge
      · rw [Nat.pow_zero, Nat.div_one]
        omega
      · omega

/-- The scale maps the elapsed ticks to between 49% and 101% of the time. -/
theorem Shifts.rate (h : Shifts stime tsc k j₁ j₂) (hs : epoch / 2 ≤ stime) (hs' : stime < 2 ^ 63)
    (ht : tsc < 2 ^ 64) (hfast : stime ≤ 1000 * tsc) {e : Nat} (he : e = 0 ∨ 2 ^ 31 ≤ e) (he' : e < 2 ^ 32)
    {scale : TimeScale} (hshift : scale.shift = -j₁ + j₂)
    (hmul : scale.mulFrac = calibrationMulFrac (stime / 2 ^ k) (tsc / 2 ^ k / 2 ^ j₁ * 2 ^ j₂) e) :
    49 * stime ≤ 100 * scaleDelta tsc scale ∧ 100 * scaleDelta tsc scale ≤ 101 * stime := by
  rw [TimeScale.scaleDelta_eq (h.fits hs' ht hshift)]
  obtain ⟨hup, hlow, -⟩ := scale.scaled_close tsc
  obtain ⟨hfup, hflow⟩ := calibrationMulFrac_bounds h.gt he he'
  rw [← hmul] at hfup hflow
  change scale.factor ≤ _ at hfup
  change _ ≤ scale.factor at hflow
  have hle := h.le
  obtain ⟨hS, hS', hM, hM', hb⟩ := h.bounds hs hfast
  have hstime := h.stime_ge
  generalize stime / 2 ^ k = s at *
  generalize tsc / 2 ^ k / 2 ^ j₁ = b at *
  have hs0 : (0 : ℚ) < s := by
    have hs0 : 0 < s := by
      rcases hstime with rfl | hge
      · rw [Nat.pow_zero, Nat.mul_one] at hS'
        unfold epoch at hs
        omega
      · omega
    exact_mod_cast hs0
  have hw : (0 : ℚ) < 2 ^ k := by positivity
  have hz : (0 : ℚ) < (b * 2 ^ j₂ : ℕ) := by positivity
  have hP : (2 : ℚ) ^ scale.shift = 2 ^ j₂ / 2 ^ j₁ := by
    rw [hshift, show -(j₁ : ℤ) + j₂ = j₂ - j₁ by ring, zpow_sub₀ (by norm_num), zpow_natCast, zpow_natCast]
  have hE : (500000000 : ℚ) ≤ stime := by exact_mod_cast hs
  have hSQ : (s : ℚ) * 2 ^ k ≤ stime := by exact_mod_cast hS
  have hMQ : (b : ℚ) * (2 ^ k * 2 ^ j₁) ≤ tsc := by exact_mod_cast hM
  have hMQ' : (tsc : ℚ) ≤ (b + 1) * (2 ^ k * 2 ^ j₁) := by exact_mod_cast hM'.le
  have hbQ : (499999 : ℚ) ≤ b := by exact_mod_cast hb
  -- Without an error the scale would give `W`.
  obtain ⟨W, hW⟩ : ∃ W : ℚ, W = tsc * 2 ^ scale.shift * (s / (b * 2 ^ j₂ : ℕ)) := ⟨_, rfl⟩
  have hWM : W * (b * (2 ^ k * 2 ^ j₁)) = tsc * (s * 2 ^ k) := by
    rw [hW, hP]
    push_cast
    field_simp
  have hM0 : (0 : ℚ) < b * (2 ^ k * 2 ^ j₁) := by positivity
  have hWS : (s : ℚ) * 2 ^ k ≤ W := by
    refine le_of_mul_le_mul_right ?_ hM0
    rw [hWM, mul_comm]
    exact mul_le_mul_of_nonneg_right hMQ (by positivity)
  have hWS' : W ≤ s * 2 ^ k * (500000 / 499999) := by
    refine le_of_mul_le_mul_right ?_ hM0
    rw [hWM]
    calc (tsc : ℚ) * (s * 2 ^ k) ≤ (b + 1) * (2 ^ k * 2 ^ j₁) * (s * 2 ^ k) :=
          mul_le_mul_of_nonneg_right hMQ' (by positivity)
      _ ≤ b * (500000 / 499999) * (2 ^ k * 2 ^ j₁) * (s * 2 ^ k) := by
          refine mul_le_mul_of_nonneg_right (mul_le_mul_of_nonneg_right ?_ (by positivity)) (by positivity)
          linarith
      _ = s * 2 ^ k * (500000 / 499999) * (b * (2 ^ k * 2 ^ j₁)) := by ring
  have hSE : (stime : ℚ) * (1 - 1 / 2 ^ 29) ≤ s * 2 ^ k := by
    rcases hstime with rfl | hge
    · have : stime < (s + 1) * 2 ^ 0 := hS'
      have hle : stime ≤ s := by omega
      have hQ : (stime : ℚ) ≤ s := by exact_mod_cast hle
      rw [pow_zero, mul_one]
      linarith
    · have hQ : (stime : ℚ) ≤ (s + 1) * 2 ^ k := by exact_mod_cast hS'.le
      have hge' : ((2 ^ 30 : ℕ) : ℚ) * 2 ^ k ≤ s * 2 ^ k :=
        mul_le_mul_of_nonneg_right (by exact_mod_cast hge) hw.le
      push_cast at hge'
      linarith
  -- The errors of the factor count twice at most.
  have hNP : (tsc : ℚ) * 2 ^ scale.shift ≤ 2 * W := by
    have hleQ : ((b * 2 ^ j₂ : ℕ) : ℚ) ≤ s * 2 := by exact_mod_cast hle
    have h0 : (0 : ℚ) ≤ tsc * 2 ^ scale.shift := by positivity
    rw [hW, mul_div_assoc', mul_div_assoc', le_div_iff₀ hz]
    calc (tsc : ℚ) * 2 ^ scale.shift * (b * 2 ^ j₂ : ℕ) ≤ tsc * 2 ^ scale.shift * (s * 2) :=
          mul_le_mul_of_nonneg_left hleQ h0
      _ = 2 * (tsc * 2 ^ scale.shift * s) := by ring
  have hscaled : (scale.scaled tsc : ℚ) ≤ W := by
    refine hup.trans ?_
    rw [hW]
    exact mul_le_mul_of_nonneg_left hfup (by positivity)
  have hscaled' : W / 2 - 3 * W / 2 ^ 32 - 2 ≤ scale.scaled tsc := by
    have hmul : (tsc : ℚ) * 2 ^ scale.shift * (s / (b * 2 ^ j₂ : ℕ) / 2 - 3 / 2 ^ 33) ≤
        tsc * 2 ^ scale.shift * scale.factor := mul_le_mul_of_nonneg_left hflow (by positivity)
    linarith
  have hlowQ : (49 : ℚ) * stime ≤ 100 * scale.scaled tsc := by linarith
  have hupQ : (100 : ℚ) * scale.scaled tsc ≤ 101 * stime := by linarith
  exact ⟨by exact_mod_cast hlowQ, by exact_mod_cast hupQ⟩

/-! ## Calibrations -/

/-- The system time at `tsc`, as `get_s_time` has it. -/
def systemTime (t : CpuTime) (tsc : Nat) : Int :=
  t.stimeLocalStamp + scaleDelta (u64 (tsc - t.localTscStamp)) t.tscScale

/-- Of stamps of 64 bits, those of the TSC and of the master have advanced. -/
structure Advanced (t : CpuTime) (c : CpuCalibration) : Prop where
  tsc : t.localTscStamp < c.localTscStamp
  tsc_lt : c.localTscStamp < 2 ^ 64
  master : t.stimeMasterStamp < c.stimeMasterStamp
  master_ge : -2 ^ 63 ≤ t.stimeMasterStamp
  master_lt : c.stimeMasterStamp < 2 ^ 63
  local_lt : c.stimeLocalStamp < 2 ^ 63

/-- The system time has not gone back, and runs at about the rate of the master. -/
structure Correct (t : CpuTime) (c : CpuCalibration) (t' : CpuTime) : Prop where
  master : c.stimeMasterStamp ≤ systemTime t' c.localTscStamp
  localStamp : c.stimeLocalStamp ≤ systemTime t' c.localTscStamp
  rate : c.stimeMasterStamp - t.stimeMasterStamp ≤ 1000 * (c.localTscStamp - t.localTscStamp : Nat) →
    49 * (c.stimeMasterStamp - t.stimeMasterStamp) ≤
        100 * scaleDelta (c.localTscStamp - t.localTscStamp) t'.tscScale ∧
      100 * scaleDelta (c.localTscStamp - t.localTscStamp) t'.tscScale ≤
        101 * (c.stimeMasterStamp - t.stimeMasterStamp)

/-- The calibration ends, its assertions hold, nothing faults, and a new record is correct. -/
def Completes (t : CpuTime) (c : CpuCalibration) : Prop :=
  ∃ n out, localTimeCalibration n t c = some out ∧ out.asserts = true ∧ out.faults = false ∧
    ∀ t', out.time = some t' → Correct t c t'

/-- The record is left alone, or the ticks have at most 30 binary digits less than the nanoseconds. -/
def TicksLeft (t : CpuTime) (c : CpuCalibration) : Prop :=
  u64 (c.stimeMasterStamp - t.stimeMasterStamp) < epoch / 2 ∨
    2 ^ 63 ≤ u64 (c.stimeMasterStamp - t.stimeMasterStamp) ∨
    (u64 (c.stimeMasterStamp - t.stimeMasterStamp)).log2 ≤ (c.localTscStamp - t.localTscStamp).log2 + 30

theorem u64_of_lt {x : Int} (h0 : 0 ≤ x) (h : x < 2 ^ 64) : (u64 x : Int) = x := by
  unfold u64
  rw [Int.emod_eq_of_lt h0 h, Int.toNat_of_nonneg h0]

/-- The clock is slowed down to a half at most, and the division does not fault. -/
theorem errorFactor_bounds {currLocal currMaster : Int} (h : currMaster ≤ currLocal)
    (hlt : currLocal - currMaster < 2 ^ 64) :
    (errorFactor currLocal currMaster = 0 ∨ 2 ^ 31 ≤ errorFactor currLocal currMaster) ∧
      ¬ (currLocal ≠ currMaster ∧ DivFaults epoch (epoch + min (u64 (currLocal - currMaster)) epoch)) := by
  by_cases heq : currLocal = currMaster
  · exact ⟨.inl (if_neg (not_not.mpr heq)), fun h => h.1 heq⟩
  · have hdiff := u64_of_lt (show 0 ≤ currLocal - currMaster by omega) hlt
    have hpos : 0 < min (u64 (currLocal - currMaster)) epoch := by
      unfold epoch
      omega
    have hle : min (u64 (currLocal - currMaster)) epoch ≤ epoch := Nat.min_le_right ..
    generalize hd : min (u64 (currLocal - currMaster)) epoch = d at hpos hle
    refine ⟨.inr ?_, fun h => ?_⟩
    · unfold errorFactor
      rw [if_pos heq, hd, divFrac_eq (by omega), Nat.le_div_iff_mul_le (by omega)]
      unfold epoch at hle ⊢
      omega
    · have := h.2
      unfold DivFaults at this
      omega

/-- Without ticks to double, the last loop is not left. -/
theorem localTimeCalibration_hangs {t : CpuTime} {c : CpuCalibration} (h : ¬ TicksLeft t c)
    (hadv : Advanced t c) (n : Nat) : localTimeCalibration n t c = none := by
  unfold TicksLeft at h
  have htsc : (u64 (c.localTscStamp - t.localTscStamp) : Int) = (c.localTscStamp - t.localTscStamp : Nat) := by
    have := hadv.tsc
    have := hadv.tsc_lt
    rw [u64_of_lt (by omega) (by omega)]
    omega
  have htsc : u64 (c.localTscStamp - t.localTscStamp) = c.localTscStamp - t.localTscStamp := by exact_mod_cast htsc
  unfold localTimeCalibration
  rw [if_neg (by omega), htsc]
  unfold calibrate
  cases hboth : shiftBoth n (u64 (c.stimeMasterStamp - t.stimeMasterStamp)) (c.localTscStamp - t.localTscStamp) with
  | none => rfl
  | some s =>
    obtain ⟨k, rfl, hlt, hge⟩ := shiftBoth_spec hboth
    have hzero : (c.localTscStamp - t.localTscStamp) / 2 ^ k = 0 := by
      by_contra hne
      have := (halved_ne_zero_iff (by unfold epoch at h; omega) (by have := hadv.tsc; omega) hlt hge).mp hne
      omega
    rw [hzero]
    have hshift : shiftTsc n (u64 (c.stimeMasterStamp - t.stimeMasterStamp) / 2 ^ k % 2 ^ 32) 0 = some (0, 0) :=
      turns_of_not n (Nat.not_lt_zero _)
    simp only [Option.bind_some, hshift]
    rw [Nat.zero_mod, doubleTsc_hangs]
    rfl

/-- With ticks left, every loop is left and the new record is correct. -/
theorem completes_of_ticksLeft {t : CpuTime} {c : CpuCalibration} (h : TicksLeft t c) (hadv : Advanced t c) :
    Completes t c := by
  obtain ⟨hTsc, hTscLt, hMaster, hMasterGe, hMasterLt, hLocalLt⟩ := hadv
  obtain ⟨currLocal, hcurr⟩ : ∃ x, x = max c.stimeLocalStamp c.stimeMasterStamp := ⟨_, rfl⟩
  obtain ⟨he, hfault⟩ := @errorFactor_bounds currLocal c.stimeMasterStamp
    (by omega) (by omega)
  obtain ⟨N, hN⟩ : ∃ x, x = c.localTscStamp - t.localTscStamp := ⟨_, rfl⟩
  have hNu : u64 (c.localTscStamp - t.localTscStamp) = N := by
    have : (u64 (c.localTscStamp - t.localTscStamp) : Int) = N := by
      rw [u64_of_lt (by omega) (by omega)]
      omega
    exact_mod_cast this
  have hE := u64_of_lt (show 0 ≤ c.stimeMasterStamp - t.stimeMasterStamp by omega) (by omega)
  unfold TicksLeft at h
  unfold Completes localTimeCalibration
  rw [← hcurr, hNu]
  rw [← hN] at h
  obtain ⟨E, hE_def⟩ : ∃ x, x = u64 (c.stimeMasterStamp - t.stimeMasterStamp) := ⟨_, rfl⟩
  rw [← hE_def] at h hE ⊢
  by_cases hout : E < epoch / 2 ∨ 2 ^ 63 ≤ E
  · refine ⟨0, _, if_pos hout, rfl, rfl, fun t' ht' => ?_⟩
    cases ht'
  have hlog : E.log2 ≤ N.log2 + 30 := by omega
  have hEge : epoch / 2 ≤ E := by omega
  have hE0 : E ≠ 0 := by
    unfold epoch at hEge
    omega
  -- The three loops.
  obtain ⟨n, hn⟩ : ∃ n, E + N + 2 ^ 33 ≤ n := ⟨_, le_rfl⟩
  obtain ⟨s, hboth⟩ := @shiftBoth_ends n E N (by omega)
  obtain ⟨k, rfl, hlt, hge⟩ := shiftBoth_spec hboth
  have ha : N / 2 ^ k ≠ 0 := (halved_ne_zero_iff hE0 (by omega) hlt hge).mpr hlog
  have hs0 : E / 2 ^ k ≠ 0 := by
    rcases hge with rfl | hge
    · rw [Nat.pow_zero, Nat.div_one]
      exact hE0
    · omega
  have hale : N / 2 ^ k ≤ N := Nat.div_le_self ..
  obtain ⟨j₁, hshift, htle, htge⟩ := @shiftTsc_spec n _ (N / 2 ^ k) hlt (by omega)
  have hb0 : N / 2 ^ k / 2 ^ j₁ ≠ 0 := by
    rcases htge with rfl | htge
    · rw [Nat.pow_zero, Nat.div_one]
      exact ha
    · omega
  obtain ⟨j₂, hdouble, hgt, hle⟩ := doubleTsc_spec (n := n) (-(j₁ : Int)) hlt
    (Nat.pos_of_ne_zero hb0) htle (by omega)
  have hmodS : E / 2 ^ k % 2 ^ 32 = E / 2 ^ k := Nat.mod_eq_of_lt (by omega)
  have hmodT : N / 2 ^ k / 2 ^ j₁ % 2 ^ 32 = N / 2 ^ k / 2 ^ j₁ := Nat.mod_eq_of_lt (by omega)
  -- The record that they leave.
  obtain ⟨t', ht', hstamps, hshift', hmul⟩ : ∃ t' : CpuTime, calibrate n c currLocal E N =
      some ⟨decide (N / 2 ^ k / 2 ^ j₁ = N / 2 ^ k / 2 ^ j₁ ∧ N / 2 ^ k / 2 ^ j₁ ≠ 0),
        decide ((currLocal ≠ c.stimeMasterStamp ∧
            DivFaults epoch (epoch + min (u64 (currLocal - c.stimeMasterStamp)) epoch)) ∨
          DivFaults (E / 2 ^ k) (N / 2 ^ k / 2 ^ j₁ * 2 ^ j₂)), some t'⟩ ∧
      (t'.localTscStamp = c.localTscStamp ∧ t'.stimeLocalStamp = currLocal) ∧
      t'.tscScale.shift = -(j₁ : Int) + j₂ ∧ t'.tscScale.mulFrac = calibrationMulFrac (E / 2 ^ k)
        (N / 2 ^ k / 2 ^ j₁ * 2 ^ j₂) (errorFactor currLocal c.stimeMasterStamp) := by
    unfold calibrate
    simp only [hboth, Option.bind_some, hmodS, hshift, hmodT, hdouble, Option.map_some]
    exact ⟨_, rfl, ⟨rfl, rfl⟩, rfl, rfl⟩
  refine ⟨n, _, (if_neg hout).trans ht', decide_eq_true ⟨rfl, hb0⟩, decide_eq_false ?_, ?_⟩
  · rintro (hf | hf)
    · exact hfault hf
    · exact absurd hgt (not_lt.mpr hf)
  intro t'' ht''
  obtain rfl := Option.some.inj ht''
  have hnow : u64 ((c.localTscStamp : Int) - c.localTscStamp) = 0 := by
    rw [sub_self]
    rfl
  have hsys : ∀ scale : TimeScale, scaleDelta 0 scale = 0 := by
    intro scale
    unfold scaleDelta
    split_ifs <;> simp
  have hsystem : systemTime t' c.localTscStamp = currLocal := by
    unfold systemTime
    rw [hstamps.1, hstamps.2, hnow, hsys]
    exact add_zero _
  have hshifts : Shifts E N k j₁ j₂ := ⟨hlt, hge, htle, htge, hgt, hle⟩
  refine ⟨by omega, by omega, fun hfast => ?_⟩
  rw [← hE, ← hN] at hfast ⊢
  have hrate := hshifts.rate hEge (by omega) (by omega) (by exact_mod_cast hfast) he (errorFactor_lt ..) hshift' hmul
  exact_mod_cast hrate

/-- A calibration completes if and only if the record is left alone or ticks are left. -/
theorem localTimeCalibration_completes_iff (t : CpuTime) (c : CpuCalibration) (hadv : Advanced t c) :
    Completes t c ↔ TicksLeft t c := by
  constructor
  · rintro ⟨n, out, hrun, -⟩
    by_contra h
    rw [localTimeCalibration_hangs h hadv n] at hrun
    cases hrun
  · exact fun h => completes_of_ticksLeft h hadv

/-- The record of a counter that starts at zero. -/
def started : CpuTime := ⟨0, 0, 0, ⟨0, 0, by decide⟩⟩

/-- A second, and as many ticks. -/
theorem localTimeCalibration_completes_second :
    Completes started ⟨1000000000, 1000000000, 1000000000⟩ := by
  refine (localTimeCalibration_completes_iff _ _ ⟨by decide, by decide, by decide, by decide, by decide, by decide⟩).mpr ?_
  unfold TicksLeft
  decide +kernel

/-- Five seconds without more than a tick: the last loop is not left. -/
theorem localTimeCalibration_stopped : Advanced started ⟨1, 5000000000, 5000000000⟩ ∧
    ¬ Completes started ⟨1, 5000000000, 5000000000⟩ := by
  have hadv : Advanced started ⟨1, 5000000000, 5000000000⟩ :=
    ⟨by decide, by decide, by decide, by decide, by decide, by decide⟩
  have hticks : ¬ TicksLeft started ⟨1, 5000000000, 5000000000⟩ := by
    unfold TicksLeft
    decide +kernel
  refine ⟨hadv, ?_⟩
  rintro ⟨n, out, hrun, -⟩
  rw [localTimeCalibration_hangs hticks hadv n] at hrun
  cases hrun

end Time
