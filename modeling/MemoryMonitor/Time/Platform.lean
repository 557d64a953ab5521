import MemoryMonitor.Lib.Runs
import MemoryMonitor.Lib.Wrap
import MemoryMonitor.Time.Scale

/-!
# The platform timer

The platform time of `xen/arch/x86/time.c`. The hardware counter is extended to 64 bits at each
`plt_overflow`, which comes before the counter has wrapped, and the platform time is reckoned from the
last calibration. Each step is taken under `platform_timer_lock`.

`counter` and what follows it in the state only record what has happened.
-/

namespace Time.Platform

/-- What `read_platform_stime` has returned, after how many ticks and calibrations. -/
structure Read where
  elapsed : Nat
  calibrations : Nat
  stime : Int

structure State where
  pltMask : BitVec 64
  pltScale : TimeScale
  stimePlatformStamp : Int
  platformTimerStamp : BitVec 64
  pltStamp64 : BitVec 64
  pltStamp : BitVec 64
  /-- where the hardware counter would be if it did not wrap -/
  counter : Nat
  /-- where it was at the start, -/
  startedAt : Nat
  /-- at the last `plt_overflow` -/
  overflowAt : Nat
  /-- and at the last calibration -/
  calibratedAt : Nat
  calibrations : Nat
  reads : List Read

/-- The conversion to `s_time_t`. -/
def toStime (x : Int) : Int := (BitVec.ofInt 64 x).toInt

namespace State

variable (s : State)

/-- `__read_platform_stime`. -/
def readStime (platformTime : BitVec 64) : Int :=
  toStime (s.stimePlatformStamp + scaleDelta (platformTime - s.platformTimerStamp).toNat s.pltScale)

/-- The loop of `plt_overflow`, which adds wraps as long as that brings the platform time closer to `now`. -/
def wrapLoop (now : Int) : Nat → BitVec 64 → Int → BitVec 64
  | 0, stamp64, _ => stamp64
  | i + 1, stamp64, pltNow =>
    let pltWrap := s.readStime (stamp64 + s.pltMask + 1)
    if (pltNow - now).natAbs < (pltWrap - now).natAbs then stamp64
    else wrapLoop now i (stamp64 + s.pltMask + 1) pltWrap

/-- The 64-bit counter at a reading. -/
def extend (count : BitVec 64) : BitVec 64 := s.pltStamp64 + ((count - s.pltStamp) &&& s.pltMask)

/-- `plt_overflow`. -/
def pltOverflow (count : BitVec 64) (now : Int) : State :=
  let stamp64 := s.extend count
  { s with
    pltStamp64 := s.wrapLoop now 10 stamp64 (s.readStime stamp64)
    pltStamp := count
    overflowAt := s.counter }

/-- `read_platform_stime`. -/
def readPlatformStime (count : BitVec 64) : Int := s.readStime (s.extend count)

/-- `platform_time_calibration`. -/
def platformTimeCalibration (count : BitVec 64) : State :=
  let stamp := s.readStime (s.extend count)
  { s with
    stimePlatformStamp := stamp
    platformTimerStamp := s.extend count
    calibratedAt := s.counter
    calibrations := s.calibrations + 1 }

end State

/-- `init_platform_timer` with a source of so many bits and Hz. The counter reads `count` at `plt_overflow`,
which compares with the time `now`, and `stime` is the time from which the platform time starts. -/
def initPlatformTimer (counterBits frequency : Nat) (count : BitVec 64) (now stime : Int) : State :=
  let s : State := {
    pltMask := BitVec.allOnes 64 >>> (64 - counterBits)
    pltScale := setTimeScale frequency
    stimePlatformStamp := 0
    platformTimerStamp := 0
    pltStamp64 := 0
    pltStamp := 0
    counter := count.toNat
    startedAt := count.toNat
    overflowAt := count.toNat
    calibratedAt := count.toNat
    calibrations := 0
    reads := [] }
  let s := s.pltOverflow count now
  { s with platformTimerStamp := s.pltStamp64, stimePlatformStamp := stime }

/-- The hardware counter goes on, and is read under the lock. -/
inductive Step where
  | overflow (ticks : Nat) (count : BitVec 64) (now : Int)
  | read (ticks : Nat) (count : BitVec 64)
  | calibrate (ticks : Nat) (count : BitVec 64)

namespace State

variable (s : State)

def advance (ticks : Nat) : State := { s with counter := s.counter + ticks }

/-- The reader of the platform time keeps what it got. -/
def record (stime : Int) : State :=
  { s with reads := ⟨s.counter - s.startedAt, s.calibrations, stime⟩ :: s.reads }

end State

def act (step : Step) (s : State) : State :=
  match step with
  | .overflow ticks count now => (s.advance ticks).pltOverflow count now
  | .read ticks count => (s.advance ticks).record ((s.advance ticks).readPlatformStime count)
  | .calibrate ticks count => (s.advance ticks).platformTimeCalibration count

namespace State

variable (s : State)

/-- The ticks of one wrap. -/
def wrap : Nat := s.pltMask.toNat + 1

/-- The register shows the counter, which has gone on for less than one wrap. -/
def Shows (count : BitVec 64) : Prop :=
  count.toNat % s.wrap = s.counter % s.wrap ∧ s.counter - s.overflowAt < s.wrap

/-- The platform time, without a limit. -/
def platformTime : Int := s.stimePlatformStamp + s.pltScale.scaled (s.counter - s.calibratedAt)

/-- `NOW()` is within half a wrap of the platform time. -/
def Near (now : Int) : Prop := 2 * (now - s.platformTime).natAbs < s.pltScale.scaled s.wrap

/-- The platform time after some more ticks fits into an `s_time_t`, and the ticks since the last
calibration can be scaled with 64 bits. -/
def FitsAfter (ticks : Nat) : Prop :=
  s.pltScale.Fits (s.counter - s.calibratedAt + ticks) ∧ -2 ^ 63 ≤ s.stimePlatformStamp ∧
    s.stimePlatformStamp + s.pltScale.scaled (s.counter - s.calibratedAt + ticks) < 2 ^ 63

instance (count : BitVec 64) : Decidable (s.Shows count) := inferInstanceAs (Decidable (_ ∧ _))
instance (now : Int) : Decidable (s.Near now) := inferInstanceAs (Decidable (_ < _))
instance (ticks : Nat) : Decidable (s.FitsAfter ticks) := inferInstanceAs (Decidable (_ ∧ _ ∧ _))

end State

/-- What the hardware and the other clock do. -/
def Called (step : Step) (s : State) : Prop :=
  match step with
  | .overflow ticks count now => (s.advance ticks).Shows count ∧ (s.advance ticks).Near now
  | .read ticks count => (s.advance ticks).Shows count
  | .calibrate ticks count => (s.advance ticks).Shows count

/-- Nothing overflows. A counter of 64 bits has no wrap that could be added. -/
def Fits (step : Step) (s : State) : Prop :=
  match step with
  | .overflow ticks _ _ => (s.advance ticks).FitsAfter (s.wrap % 2 ^ 64)
  | .read ticks _ => (s.advance ticks).FitsAfter 0
  | .calibrate ticks _ => (s.advance ticks).FitsAfter 0

instance : ∀ (step : Step) (s : State), Decidable (Called step s)
  | .overflow _ _ _, _ => inferInstanceAs (Decidable (_ ∧ _))
  | .read ticks count, s => inferInstanceAs (Decidable ((s.advance ticks).Shows count))
  | .calibrate ticks count, s => inferInstanceAs (Decidable ((s.advance ticks).Shows count))

instance : ∀ (step : Step) (s : State), Decidable (Fits step s)
  | .overflow ticks _ _, s => inferInstanceAs (Decidable ((s.advance ticks).FitsAfter (s.wrap % 2 ^ 64)))
  | .read ticks _, s => inferInstanceAs (Decidable ((s.advance ticks).FitsAfter 0))
  | .calibrate ticks _, s => inferInstanceAs (Decidable ((s.advance ticks).FitsAfter 0))

/-! ## The invariant -/

namespace State

variable {s s₀ : State} {w : Nat}

/-- What a state has in common with the state `s₀` at the start, where the counter has `w` bits. The
platform time only loses what is cut off at calibrations. -/
structure Inv (w : Nat) (s s₀ : State) : Prop where
  mask : s.wrap = 2 ^ w
  scale : s.pltScale = s₀.pltScale
  calibrated : s.startedAt ≤ s.calibratedAt ∧ s.calibratedAt ≤ s.counter
  overflow : s.startedAt ≤ s.overflowAt ∧ s.overflowAt ≤ s.counter
  stamp : s.pltStamp.toNat % 2 ^ w = s.overflowAt % 2 ^ w
  stamp64 : s.pltStamp64 = s₀.pltStamp64 + BitVec.ofNat 64 (s.overflowAt - s.startedAt)
  timer : s.platformTimerStamp = s₀.pltStamp64 + BitVec.ofNat 64 (s.calibratedAt - s.startedAt)
  upper : ∀ ticks, s.stimePlatformStamp - s₀.stimePlatformStamp + s.pltScale.scaled ticks ≤
    s.pltScale.scaled (s.calibratedAt - s.startedAt + ticks)
  lower : ∀ ticks, (s.pltScale.scaled (s.calibratedAt - s.startedAt + ticks) : Int) ≤
    s.stimePlatformStamp - s₀.stimePlatformStamp + s.pltScale.scaled ticks + s.pltScale.lost * s.calibrations
  exact : 0 ≤ s.pltScale.shift →
    2 ^ 32 * (s.stimePlatformStamp - s₀.stimePlatformStamp) ≤
        ((s.calibratedAt - s.startedAt) * 2 ^ s.pltScale.shift.toNat * s.pltScale.mulFrac : Nat) ∧
      ((s.calibratedAt - s.startedAt) * 2 ^ s.pltScale.shift.toNat * s.pltScale.mulFrac : Nat) ≤
        2 ^ 32 * (s.stimePlatformStamp - s₀.stimePlatformStamp) + (2 ^ 32 - 1) * s.calibrations
  sorted : s.reads.Pairwise fun later earlier => earlier.stime ≤ later.stime
  past : ∀ r ∈ s.reads, r.stime ≤ s.platformTime
  near : ∀ r ∈ s.reads, r.stime - s₀.stimePlatformStamp ≤ s.pltScale.scaled r.elapsed ∧
    (s.pltScale.scaled r.elapsed : Int) ≤
      r.stime - s₀.stimePlatformStamp + s.pltScale.lost * r.calibrations

theorem toStime_eq {x : Int} (hlow : -2 ^ 63 ≤ x) (hhigh : x < 2 ^ 63) : toStime x = x := by
  unfold toStime
  rw [BitVec.toInt_ofInt]
  apply Int.bmod_eq_of_le
  · omega
  · omega

/-- The counter goes on. -/
theorem Inv.advance (hs : s.Inv w s₀) (ticks : Nat) : (s.advance ticks).Inv w s₀ := by
  have hcounter : (s.advance ticks).counter = s.counter + ticks := rfl
  refine { hs with
    calibrated := ⟨hs.calibrated.1, ?_⟩
    overflow := ⟨hs.overflow.1, ?_⟩
    past := fun r hr => (hs.past r hr).trans ?_ }
  · have := hs.calibrated.2
    rw [hcounter]
    exact Nat.le_add_right_of_le this
  · have := hs.overflow.2
    rw [hcounter]
    exact Nat.le_add_right_of_le this
  · have hmono : s.pltScale.scaled (s.counter - s.calibratedAt) ≤
        s.pltScale.scaled (s.counter + ticks - s.calibratedAt) := TimeScale.scaled_mono (by omega)
    unfold platformTime
    change _ ≤ s.stimePlatformStamp + (s.pltScale.scaled (s.counter + ticks - s.calibratedAt) : Int)
    omega

/-- A reading extends to the ticks since the start. -/
theorem Inv.extend (hs : s.Inv w s₀) {count : BitVec 64} (h : s.Shows count) :
    s.extend count = s₀.pltStamp64 + BitVec.ofNat 64 (s.counter - s.startedAt) := by
  obtain ⟨hcount, hlt⟩ := h
  have hmask : s.pltMask.toNat + 1 = 2 ^ w := hs.mask
  rw [hs.mask] at hcount hlt
  have hgone := Wrap.toNat_sub_and_mask hmask hcount hs.stamp hs.overflow.2 hlt
  have hvec : (count - s.pltStamp) &&& s.pltMask = BitVec.ofNat 64 (s.counter - s.overflowAt) := by
    rw [← hgone, BitVec.ofNat_toNat, BitVec.setWidth_eq]
  unfold State.extend
  rw [hvec, hs.stamp64, BitVec.add_assoc, ← BitVec.ofNat_add]
  congr 2
  have hstart := hs.overflow
  omega

theorem Inv.readStime (hs : s.Inv w s₀) {ticks : Nat} (h : s.FitsAfter ticks) :
    s.readStime (s₀.pltStamp64 + BitVec.ofNat 64 (s.counter - s.startedAt + ticks)) =
      s.stimePlatformStamp + s.pltScale.scaled (s.counter - s.calibratedAt + ticks) := by
  obtain ⟨hfits, hlow, hhigh⟩ := h
  have hcalibrated := hs.calibrated
  unfold State.readStime
  have hdiff : s.counter - s.startedAt + ticks - (s.calibratedAt - s.startedAt) =
      s.counter - s.calibratedAt + ticks := by omega
  rw [hs.timer, Wrap.ofNat_add_sub _ (by omega), hdiff, BitVec.toNat_ofNat, Nat.mod_eq_of_lt hfits.1,
    TimeScale.scaleDelta_eq hfits]
  apply toStime_eq
  · omega
  · exact hhigh

theorem Inv.readPlatformStime (hs : s.Inv w s₀) {count : BitVec 64} (h : s.Shows count)
    (hfits : s.FitsAfter 0) : s.readPlatformStime count = s.platformTime := by
  have hread := hs.readStime hfits
  rw [Nat.add_zero, Nat.add_zero] at hread
  unfold State.readPlatformStime
  rw [hs.extend h]
  exact hread

theorem wrapLoop_full (hmask : s.pltMask + 1 = 0) (now : Int) (i : Nat) (stamp64 : BitVec 64) (pltNow : Int) :
    s.wrapLoop now i stamp64 pltNow = stamp64 := by
  have hstay : stamp64 + s.pltMask + 1 = stamp64 := by
    rw [BitVec.add_assoc, hmask]
    exact BitVec.add_zero stamp64
  induction i generalizing pltNow with
  | zero => rfl
  | succ i ih =>
    unfold wrapLoop
    dsimp only
    rw [hstay]
    split
    · rfl
    · exact ih _

/-- No wrap is added while `NOW()` is near the platform time. -/
theorem Inv.wrapLoop (hs : s.Inv w s₀) {now : Int} (hnear : s.Near now) (hfits : s.FitsAfter (s.wrap % 2 ^ 64))
    (i : Nat) : s.wrapLoop now i (s₀.pltStamp64 + BitVec.ofNat 64 (s.counter - s.startedAt))
      s.platformTime = s₀.pltStamp64 + BitVec.ofNat 64 (s.counter - s.startedAt) := by
  by_cases hfull : s.wrap = 2 ^ 64
  · -- a counter of 64 bits
    apply wrapLoop_full
    apply BitVec.eq_of_toNat_eq
    unfold wrap at hfull
    rw [BitVec.toNat_add]
    change (s.pltMask.toNat + 1) % 2 ^ 64 = 0
    rw [hfull, Nat.mod_self]
  · have hlt : s.wrap < 2 ^ 64 := by
      have := s.pltMask.isLt
      unfold wrap at hfull ⊢
      omega
    rw [Nat.mod_eq_of_lt hlt] at hfits
    cases i with
    | zero => rfl
    | succ i =>
      have hvec : s.pltMask + 1 = BitVec.ofNat 64 s.wrap := by
        apply BitVec.eq_of_toNat_eq
        rw [BitVec.toNat_ofNat, BitVec.toNat_add]
        rfl
      have hnext : s₀.pltStamp64 + BitVec.ofNat 64 (s.counter - s.startedAt) + s.pltMask + 1 =
          s₀.pltStamp64 + BitVec.ofNat 64 (s.counter - s.startedAt + s.wrap) := by
        rw [BitVec.add_assoc, hvec, BitVec.add_assoc, ← BitVec.ofNat_add]
      have hwrap : (s.platformTime - now).natAbs <
          (s.stimePlatformStamp + s.pltScale.scaled (s.counter - s.calibratedAt + s.wrap) - now).natAbs := by
        have hadd := s.pltScale.scaled_add_le (s.counter - s.calibratedAt) s.wrap
        unfold Near platformTime at hnear
        unfold platformTime
        omega
      unfold State.wrapLoop
      dsimp only
      rw [hnext, hs.readStime hfits, if_pos hwrap]

theorem FitsAfter.mono {a b : Nat} (h : s.FitsAfter b) (hab : a ≤ b) : s.FitsAfter a := by
  obtain ⟨⟨hlt, hshift⟩, hlow, hhigh⟩ := h
  have hle : s.counter - s.calibratedAt + a ≤ s.counter - s.calibratedAt + b := by omega
  have hscaled : s.pltScale.scaled (s.counter - s.calibratedAt + a) ≤ s.pltScale.scaled (s.counter - s.calibratedAt + b) :=
    TimeScale.scaled_mono hle
  refine ⟨⟨by omega, fun hpos => ?_⟩, hlow, by omega⟩
  exact lt_of_le_of_lt (Nat.mul_le_mul_right _ hle) (hshift hpos)

theorem Inv.pltOverflow (hs : s.Inv w s₀) {count : BitVec 64} {now : Int} (h : s.Shows count)
    (hnear : s.Near now) (hfits : s.FitsAfter (s.wrap % 2 ^ 64)) : (s.pltOverflow count now).Inv w s₀ := by
  have hread := hs.readStime (hfits.mono (Nat.zero_le _))
  rw [Nat.add_zero, Nat.add_zero] at hread
  change _ = s.platformTime at hread
  have hcalibrated := hs.calibrated
  unfold State.pltOverflow
  dsimp only
  rw [hs.extend h, hread, hs.wrapLoop hnear hfits]
  refine { hs with overflow := ⟨?_, le_rfl⟩, stamp := ?_, stamp64 := rfl }
  · exact hcalibrated.1.trans hcalibrated.2
  · rw [← hs.mask]
    exact h.1

/-- A reading is the platform time, which is not less than at earlier readings. -/
theorem Inv.record (hs : s.Inv w s₀) : (s.record s.platformTime).Inv w s₀ := by
  have hcalibrated := hs.calibrated
  have helapsed : s.calibratedAt - s.startedAt + (s.counter - s.calibratedAt) = s.counter - s.startedAt := by
    omega
  have hupper := hs.upper (s.counter - s.calibratedAt)
  have hlower := hs.lower (s.counter - s.calibratedAt)
  rw [helapsed] at hupper hlower
  refine { hs with sorted := ?_, past := ?_, near := ?_ }
  · exact List.pairwise_cons.mpr ⟨hs.past, hs.sorted⟩
  · intro r hr
    rcases List.mem_cons.mp hr with rfl | hr
    · exact le_rfl
    · exact hs.past r hr
  · intro r hr
    rcases List.mem_cons.mp hr with rfl | hr
    · change s.platformTime - _ ≤ (s.pltScale.scaled (s.counter - s.startedAt) : Int) ∧
        (s.pltScale.scaled (s.counter - s.startedAt) : Int) ≤ s.platformTime - _ + s.pltScale.lost * s.calibrations
      unfold platformTime
      constructor
      · omega
      · omega
    · exact hs.near r hr

/-- A calibration cuts the platform time off to whole nanoseconds. -/
theorem Inv.platformTimeCalibration (hs : s.Inv w s₀) {count : BitVec 64} (h : s.Shows count)
    (hfits : s.FitsAfter 0) : (s.platformTimeCalibration count).Inv w s₀ := by
  have hcalibrated := hs.calibrated
  have hread : s.readStime (s.extend count) = s.platformTime := hs.readPlatformStime h hfits
  have helapsed : s.counter - s.startedAt = s.calibratedAt - s.startedAt + (s.counter - s.calibratedAt) := by
    omega
  unfold State.platformTimeCalibration
  rw [hread]
  refine { hs with
    calibrated := ⟨hcalibrated.1.trans hcalibrated.2, le_rfl⟩
    timer := hs.extend h
    upper := fun ticks => ?_
    lower := fun ticks => ?_
    exact := fun hshift => ?_
    past := fun r hr => ?_ }
  · dsimp only
    have hadd := s.pltScale.scaled_add_le (s.counter - s.calibratedAt) ticks
    have hupper := hs.upper (s.counter - s.calibratedAt + ticks)
    rw [helapsed, Nat.add_assoc]
    unfold platformTime
    omega
  · dsimp only
    have hadd := s.pltScale.scaled_add_ge (s.counter - s.calibratedAt) ticks
    have hlower := hs.lower (s.counter - s.calibratedAt + ticks)
    rw [helapsed, Nat.add_assoc]
    unfold platformTime
    push_cast
    rw [mul_add]
    omega
  · dsimp only at hshift ⊢
    obtain ⟨hlow, hhigh⟩ := hs.exact hshift
    obtain ⟨hlow', hhigh'⟩ := TimeScale.scaled_exact hshift (s.counter - s.calibratedAt)
    rw [helapsed, Nat.add_mul, Nat.add_mul]
    unfold platformTime
    generalize (s.calibratedAt - s.startedAt) * 2 ^ s.pltScale.shift.toNat * s.pltScale.mulFrac = before
      at hlow hhigh ⊢
    generalize (s.counter - s.calibratedAt) * 2 ^ s.pltScale.shift.toNat * s.pltScale.mulFrac = since
      at hlow' hhigh' ⊢
    omega
  · have hpast := hs.past r hr
    have hzero := s.pltScale.scaled_zero
    unfold platformTime
    dsimp only
    rw [Nat.sub_self, hzero]
    unfold platformTime at hpast
    omega

theorem Inv.act {step : Step} (hcalled : Called step s) (hfits : Fits step s) (hs : s.Inv w s₀) :
    (act step s).Inv w s₀ := by
  cases step with
  | overflow ticks count now => exact (hs.advance ticks).pltOverflow hcalled.1 hcalled.2 hfits
  | read ticks count =>
    have hadvanced := hs.advance ticks
    unfold Platform.act
    dsimp only
    rw [hadvanced.readPlatformStime hcalled hfits]
    exact hadvanced.record
  | calibrate ticks count => exact (hs.advance ticks).platformTimeCalibration hcalled hfits

end State

/-! ## Runs -/

theorem mask_toNat {counterBits : Nat} (h : counterBits ≤ 64) :
    (BitVec.allOnes 64 >>> (64 - counterBits)).toNat + 1 = 2 ^ counterBits := by
  have hsplit : 2 ^ 64 = 2 ^ counterBits * 2 ^ (64 - counterBits) := by
    rw [← Nat.pow_add, Nat.add_sub_cancel' h]
  have hdiv : (2 ^ 64 - 1) / 2 ^ (64 - counterBits) = 2 ^ counterBits - 1 := by
    have hpos : 0 < 2 ^ (64 - counterBits) := Nat.two_pow_pos _
    have hpos' : 0 < 2 ^ counterBits := Nat.two_pow_pos _
    rw [hsplit]
    apply Nat.div_eq_of_lt_le
    · rw [Nat.sub_mul]
      omega
    · rw [Nat.sub_add_cancel hpos']
      have := Nat.mul_pos hpos' hpos
      omega
  have hpos : 0 < 2 ^ counterBits := Nat.two_pow_pos _
  rw [BitVec.toNat_ushiftRight, BitVec.toNat_allOnes, Nat.shiftRight_eq_div_pow, hdiv]
  omega

theorem inv_init {counterBits : Nat} (h : counterBits ≤ 64) (frequency : Nat) (count : BitVec 64)
    (now stime : Int) :
    (initPlatformTimer counterBits frequency count now stime).Inv counterBits
      (initPlatformTimer counterBits frequency count now stime) := by
  constructor
  · exact mask_toNat h
  · rfl
  · exact ⟨le_rfl, le_rfl⟩
  · exact ⟨le_rfl, le_rfl⟩
  · rfl
  · change _ = _ + BitVec.ofNat 64 (count.toNat - count.toNat)
    rw [Nat.sub_self]
    exact (BitVec.add_zero _).symm
  · change _ = _ + BitVec.ofNat 64 (count.toNat - count.toNat)
    rw [Nat.sub_self]
    exact (BitVec.add_zero _).symm
  · intro ticks
    change stime - stime + ((setTimeScale frequency).scaled ticks : Int) ≤
      (setTimeScale frequency).scaled (count.toNat - count.toNat + ticks)
    rw [Nat.sub_self, Nat.zero_add]
    omega
  · intro ticks
    change ((setTimeScale frequency).scaled (count.toNat - count.toNat + ticks) : Int) ≤
      stime - stime + (setTimeScale frequency).scaled ticks + (setTimeScale frequency).lost * (0 : Nat)
    rw [Nat.sub_self, Nat.zero_add]
    omega
  · intro _
    change 2 ^ 32 * (stime - stime) ≤ (((count.toNat - count.toNat) * _ * _ : Nat) : Int) ∧
      (((count.toNat - count.toNat) * _ * _ : Nat) : Int) ≤ 2 ^ 32 * (stime - stime) + (2 ^ 32 - 1) * (0 : Nat)
    rw [Nat.sub_self, Nat.zero_mul, Nat.zero_mul]
    omega
  · exact List.Pairwise.nil
  · exact fun _ hr => absurd hr List.not_mem_nil
  · exact fun _ hr => absurd hr List.not_mem_nil

/-- What a run keeps, compared with the state `s₀` at the start. -/
structure Exact (frequency : Nat) (s₀ s : State) : Prop where
  /-- The readings never decrease; the last one comes first. -/
  sorted : s.reads.Pairwise fun later earlier => earlier.stime ≤ later.stime
  /-- The 64-bit counter has gone on for the ticks until the last `plt_overflow`. -/
  stamp64 : s.pltStamp64 = s₀.pltStamp64 + BitVec.ofNat 64 (s.overflowAt - s.startedAt)
  /-- Up to 2GHz, each calibration takes less than a nanosecond from the platform time; here in units of
  `1 / 2^32` nanoseconds. -/
  calibrated : frequency ≤ 2000000000 →
    2 ^ 32 * (s.stimePlatformStamp - s₀.stimePlatformStamp) ≤
        ((s.calibratedAt - s.startedAt) * 2 ^ s₀.pltScale.shift.toNat * s₀.pltScale.mulFrac : Nat) ∧
      ((s.calibratedAt - s.startedAt) * 2 ^ s₀.pltScale.shift.toNat * s₀.pltScale.mulFrac : Nat) ≤
        2 ^ 32 * (s.stimePlatformStamp - s₀.stimePlatformStamp) + (2 ^ 32 - 1) * s.calibrations
  /-- A reading is at most that behind the scaled ticks, in whole nanoseconds; above 2GHz twice that. -/
  near : ∀ r ∈ s.reads, r.stime - s₀.stimePlatformStamp ≤ s₀.pltScale.scaled r.elapsed ∧
    (s₀.pltScale.scaled r.elapsed : Int) ≤ r.stime - s₀.stimePlatformStamp +
      (if frequency ≤ 2000000000 then 1 else 2) * r.calibrations

/-- The platform time is monotone and exact while nothing overflows. -/
theorem run_exact {counterBits : Nat} (hbits : counterBits ≤ 64) (frequency : Nat) (count : BitVec 64)
    (now stime : Int) (steps : List Step)
    (hcalled : Runs.Each act Called steps (initPlatformTimer counterBits frequency count now stime))
    (hfits : Runs.Each act Fits steps (initPlatformTimer counterBits frequency count now stime)) :
    Exact frequency (initPlatformTimer counterBits frequency count now stime)
      (Runs.run act steps (initPlatformTimer counterBits frequency count now stime)) := by
  have hinv := Runs.Each.inv
    (I := fun s => s.Inv counterBits (initPlatformTimer counterBits frequency count now stime))
    (fun _ _ h hs => hs.act h.1 h.2) (hcalled.and hfits) (inv_init hbits frequency count now stime)
  have hscale : (initPlatformTimer counterBits frequency count now stime).pltScale = setTimeScale frequency := rfl
  generalize initPlatformTimer counterBits frequency count now stime = s₀ at hinv hscale ⊢
  generalize Runs.run act steps s₀ = s at hinv ⊢
  constructor
  · exact hinv.sorted
  · exact hinv.stamp64
  · intro hfrequency
    have hshift := setTimeScale_shift hfrequency
    rw [← hscale, ← hinv.scale] at hshift
    rw [← hinv.scale]
    exact hinv.exact hshift
  · intro r hr
    obtain ⟨hupper, hlower⟩ := hinv.near r hr
    rw [← hinv.scale]
    refine ⟨hupper, hlower.trans ?_⟩
    unfold TimeScale.lost
    by_cases hfrequency : frequency ≤ 2000000000
    · have hshift := setTimeScale_shift hfrequency
      rw [← hscale, ← hinv.scale] at hshift
      rw [if_pos hfrequency, if_neg (by omega)]
      exact le_rfl
    · rw [if_neg hfrequency]
      split
      · exact le_rfl
      · omega

/-- A timer of 24 bits and 3579545Hz: two readings, one after the register has wrapped, around a
calibration and a `plt_overflow`. -/
def wrapsOnce : List Step :=
  [.overflow 8000000 8000000 2234921000, .read 8777000 16777000, .calibrate 100 16777100,
    .overflow 1000 884 4687301000, .read 5 889]

theorem run_exact_wrapsOnce :
    Exact 3579545 (initPlatformTimer 24 3579545 0 0 0) (Runs.run act wrapsOnce (initPlatformTimer 24 3579545 0 0 0)) :=
  run_exact (by decide) _ _ _ _ _ (by decide +kernel) (by decide +kernel)

/-- With 60 bits at 14318180Hz, one wrap scales to nothing in 64 bits, and `plt_overflow` adds ten wraps
though no tick has passed. Above 2GHz, 3 ticks before and 3 ticks after a calibration give no nanosecond,
where 6 ticks are 2. -/
theorem overflow_addsWraps :
    (Runs.Each act Called [.overflow 0 0 0] (initPlatformTimer 60 14318180 0 0 0) ∧
      (Runs.run act [.overflow 0 0 0] (initPlatformTimer 60 14318180 0 0 0)).pltStamp64 ≠
        (initPlatformTimer 60 14318180 0 0 0).pltStamp64) ∧
    (Runs.Each act Called [.calibrate 3 3, .read 3 6] (initPlatformTimer 32 2000000002 0 0 0) ∧
      (Runs.run act [.calibrate 3 3, .read 3 6] (initPlatformTimer 32 2000000002 0 0 0)).reads.map
        (fun r => (r.elapsed, r.calibrations, r.stime)) = [(6, 1, 0)] ∧
      (initPlatformTimer 32 2000000002 0 0 0).pltScale.scaled 6 = 2) := by
  decide +kernel

end Time.Platform
