import MemoryMonitor.Hvm.Vpt

/-!
# The HPET

`xen/arch/x86/hvm/hpet.c`. Three timers compare with a main counter, which is the guest's time with an
offset while the HPET is enabled and a register while it is halted. The comparator of a timer that is
periodic is moved on whenever it is looked at; what the guest sees of it is cut to 32 bits if the timer is
in 32-bit mode. An enabled timer is run as a platform timer (`vpt.c`) of the ISA interrupt that the guest
has written to its configuration, or that legacy replacement gives to it.

The guest's time, `NOW()` and the vCPU that takes the interrupts are arguments. `O` are the other platform
timers of the domain.
-/

namespace Hvm.Hpet

/-! ## Registers -/

def cfgEnable : BitVec 64 := 0x001
def cfgLegacy : BitVec 64 := 0x002
def tnIntTypeLevel : BitVec 64 := 0x002
def tnEnable : BitVec 64 := 0x004
def tnPeriodic : BitVec 64 := 0x008
def tnPeriodicCap : BitVec 64 := 0x010
def tnSizeCap : BitVec 64 := 0x020
def tnSetval : BitVec 64 := 0x040
def tn32bit : BitVec 64 := 0x100
def tnIntRouteMask : BitVec 64 := 0x3e00
def tnIntRouteCap : BitVec 64 := 0x00f00000 <<< 32

def isSet (x bits : BitVec 64) : Bool := x &&& bits ≠ 0

/-- The conversion to `uint32_t`. -/
def low32 (x : BitVec 64) : BitVec 64 := x &&& 0xffffffff

structure Timer where
  config : BitVec 64
  cmp : BitVec 64
  fsb : BitVec 64
  period : BitVec 64
  comparator64 : BitVec 64

namespace Timer

variable (t : Timer)

def enabled : Bool := isSet t.config tnEnable
def isPeriodic : Bool := isSet t.config tnPeriodic
def is32bit : Bool := isSet t.config tn32bit
def level : Bool := isSet t.config tnIntTypeLevel
def intRoute : BitVec 64 := (t.config &&& tnIntRouteMask) >>> 9

end Timer

/-- `hpet_registers`, and `mc_offset`. -/
structure Regs where
  capability : BitVec 64
  config : BitVec 64
  isr : BitVec 64
  mc64 : BitVec 64
  timers : Fin 3 → Timer
  mcOffset : BitVec 64

/-- `guest_time_hpet`. -/
def guestTimeHpet (gtime : BitVec 64) : BitVec 64 := gtime / 16

/-- `hpet_to_ns_scale` and `hpet_to_ns_limit`, for a frequency of 10^9. -/
def hpetToNsScale : BitVec 64 := ((1000000000 * 16) <<< 10) / 1000000000
def hpetToNsLimit : BitVec 64 := -1 / hpetToNsScale

/-- `hpet_tick_to_ns`. -/
def hpetTickToNs (tick : BitVec 64) : BitVec 64 :=
  (if tick > hpetToNsLimit then -1 else tick * hpetToNsScale) >>> 10

/-- `HPET_TINY_TIME_SPAN`. -/
def hpetTinyTimeSpan : BitVec 64 := (1000000000 >>> 10) / 16

namespace Regs

variable (h : Regs) (gtime : BitVec 64)

def enabled : Bool := isSet h.config cfgEnable
def legacy : Bool := isSet h.config cfgLegacy

def setTimer (tn : Fin 3) (t : Timer) : Regs := { h with timers := Function.update h.timers tn t }

/-- `hpet_read_maincounter`. -/
def readMaincounter : BitVec 64 := if h.enabled then guestTimeHpet gtime + h.mcOffset else h.mc64

/-- The comparator of a timer, moved on by the periods that have elapsed. -/
def advanced (tn : Fin 3) : BitVec 64 :=
  let t := h.timers tn
  if t.isPeriodic && t.period ≠ 0 then
    let elapsed := h.readMaincounter gtime + t.period - 1 - t.comparator64
    t.comparator64 + elapsed / t.period * t.period
  else t.comparator64

/-- `hpet_get_comparator`. -/
def getComparator (tn : Fin 3) : BitVec 64 × Regs :=
  let t := { h.timers tn with comparator64 := h.advanced gtime tn }
  let comparator := if t.is32bit then low32 t.comparator64 else t.comparator64
  (comparator, h.setTimer tn { t with cmp := comparator })

/-- Where an address leads. -/
inductive Reg where
  | id | cfg | status | counter
  | tnCfg (tn : Fin 3) | tnCmp (tn : Fin 3) | tnRoute (tn : Fin 3)
  | reserved

/-- The switch over `addr & ~7`. -/
def regOf (addr : BitVec 64) : Reg :=
  match (addr &&& ~~~7).toNat with
  | 0x000 => .id
  | 0x010 => .cfg
  | 0x020 => .status
  | 0x0f0 => .counter
  | 0x100 => .tnCfg 0
  | 0x120 => .tnCfg 1
  | 0x140 => .tnCfg 2
  | 0x108 => .tnCmp 0
  | 0x128 => .tnCmp 1
  | 0x148 => .tnCmp 2
  | 0x110 => .tnRoute 0
  | 0x130 => .tnRoute 1
  | 0x150 => .tnRoute 2
  | _ => .reserved

/-- `hpet_read64`. -/
def read64 : Reg → BitVec 64 × Regs
  | .id => (h.capability, h)
  | .cfg => (h.config, h)
  | .status => (h.isr, h)
  | .counter => (h.readMaincounter gtime, h)
  | .tnCfg tn => ((h.timers tn).config, h)
  | .tnCmp tn => h.getComparator gtime tn
  | .tnRoute tn => ((h.timers tn).fsb, h)
  | .reserved => (0, h)

end Regs

/-- `hpet_fixup_reg`. -/
def hpetFixupReg (new old mask : BitVec 64) : BitVec 64 := (new &&& mask) ||| (old &&& ~~~mask)

/-- `hpet_check_access_length`. -/
def hpetCheckAccessLength (addr len : BitVec 64) : Bool := addr &&& (len - 1) = 0 && len ≤ 8

/-- The mask of an access of less than eight bytes. -/
def lenMask (len : BitVec 64) : BitVec 64 := (1 <<< (len * 8).toNat) - 1

/-- `hpet_read`, for an address behind `HPET_BASE_ADDRESS`. -/
def Regs.read (h : Regs) (gtime addr len : BitVec 64) : BitVec 64 × Regs :=
  let addr := addr &&& 1023
  if !hpetCheckAccessLength addr len then (-1, h)
  else
    let (val, h) := h.read64 gtime (regOf addr)
    (if len = 8 then val else (val >>> ((addr &&& 7) * 8).toNat) &&& lenMask len, h)

/-- What a write to a register changes: the timers to start and to stop, and whether the domain is
crashed. -/
structure Changes where
  regs : Regs
  start : List (Fin 3)
  stop : List (Fin 3)
  crash : Bool

namespace Regs

variable (h : Regs) (gtime old new : BitVec 64)

/-- The timers that are enabled. -/
def enabledTimers : List (Fin 3) := [0, 1, 2].filter fun tn => (h.timers tn).enabled

/-- A write to `HPET_CFG`. -/
def writeCfg : Changes :=
  let h := { h with config := hpetFixupReg new old 0x3 }
  if !isSet old cfgEnable && isSet new cfgEnable then
    let h := { h with
      mcOffset := h.mc64 - guestTimeHpet gtime
      timers := fun tn =>
        let t := h.timers tn
        { t with comparator64 := if t.is32bit then low32 t.cmp else t.cmp } }
    ⟨h, h.enabledTimers, [], false⟩
  else if isSet old cfgEnable && !isSet new cfgEnable then
    let h := { h with mc64 := h.mcOffset + guestTimeHpet gtime }
    ⟨h, [], h.enabledTimers, false⟩
  else ⟨h, [], [], false⟩

/-- A write to `HPET_COUNTER`. -/
def writeCounter : Changes :=
  let h := { h with mc64 := new }
  if h.enabled then ⟨h, h.enabledTimers, h.enabledTimers, false⟩ else ⟨h, [], [], false⟩

/-- A write to the configuration of a timer. -/
def writeTnCfg (tn : Fin 3) : Changes :=
  let t := { h.timers tn with config := hpetFixupReg new old 0x3f4e }
  if t.level then ⟨h.setTimer tn t, [], [], true⟩
  else
    let t := if isSet new tn32bit then { t with cmp := low32 t.cmp, period := low32 t.period } else t
    let h := h.setTimer tn t
    if h.enabled then
      if isSet new tnEnable then
        if isSet (new ^^^ old) tnPeriodic then ⟨h, [tn], [tn], false⟩
        else if isSet new tn32bit && !isSet old tn32bit then ⟨h, [tn], [tn], false⟩
        else if !isSet old tnEnable then ⟨h, [tn], [], false⟩
        else ⟨h, [], [], false⟩
      else if isSet old tnEnable then ⟨h, [], [tn], false⟩
      else ⟨h, [], [], false⟩
    else ⟨h, [], [], false⟩

/-- A period that is kept between 100us and what comparisons of times can bear. -/
def clampPeriod (t : Timer) (new : BitVec 64) : BitVec 64 :=
  let new := if hpetTickToNs new < 100000 then (100000 <<< 10) / hpetToNsScale else new
  new &&& ((if t.is32bit then 0xffffffff else -1) >>> 1)

/-- A write to the comparator of a timer. -/
def writeTnCmp (tn : Fin 3) : Changes :=
  let t := h.timers tn
  let new := if t.is32bit then low32 new else new
  let t := { t with cmp := new }
  let t :=
    if isSet t.config tnSetval then { t with config := t.config &&& ~~~tnSetval, comparator64 := new }
    else if t.isPeriodic then { t with period := clampPeriod t new, comparator64 := clampPeriod t new }
    else { t with comparator64 := new }
  let h := h.setTimer tn t
  if h.enabled && t.enabled then ⟨h, [tn], [tn], false⟩ else ⟨h, [], [], false⟩

/-- The switch of `hpet_write`. -/
def writeReg : Reg → Changes
  | .cfg => h.writeCfg gtime old new
  | .counter => h.writeCounter new
  | .tnCfg tn => h.writeTnCfg old new tn
  | .tnCmp tn => h.writeTnCmp new tn
  | .tnRoute tn => ⟨h.setTimer tn { h.timers tn with fsb := new }, [], [], false⟩
  | .id | .status | .reserved => ⟨h, [], [], false⟩

/-- What `hpet_write` changes before it stops and starts timers. -/
def write (addr len val : BitVec 64) : Changes :=
  let addr := addr &&& 1023
  if !hpetCheckAccessLength addr len then ⟨h, [], [], false⟩
  else
    let (old, h) := h.read64 gtime (regOf addr)
    let shift := ((addr &&& 7) * 8).toNat
    let new := if len = 8 then val else hpetFixupReg (val <<< shift) old (lenMask len <<< shift)
    h.writeReg gtime old new (regOf addr)

end Regs

/-- `hpet_init`. -/
def Regs.init : Regs where
  capability := 0x8086A201 ||| ((1000000000000000 * 16 / 1000000000) <<< 32)
  config := 0
  isr := 0
  mc64 := 0
  timers _ := ⟨tnIntRouteCap ||| tnSizeCap ||| tnPeriodicCap, -1, 0, 0, 0⟩
  mcOffset := 0

/-! ## Platform timers -/

/-- The HPET and the platform timers of a domain. -/
structure State (O V : Type) where
  regs : Regs
  vpt : Vpt.State (Fin 3 ⊕ O) V
  crashed : Bool

/-- The parameters of a domain, the timer of the PIT, and at an access the vCPU for the interrupts and the
times. -/
structure Env (O V : Type) where
  params : Vpt.Params
  pit0 : O
  vcpu : V
  now : BitVec 64
  gtime : BitVec 64

section Timers

variable {O V : Type} [DecidableEq O] [DecidableEq V] (env : Env O V) (s : State O V) (tn : Fin 3)

/-- The ticks until the timer fires. -/
def Regs.diff (h : Regs) (cmp curTick : BitVec 64) (tn : Fin 3) : BitVec 64 :=
  let is32bit := (h.timers tn).is32bit
  let diff := if is32bit then low32 cmp - low32 curTick else cmp - curTick
  if diff.msb then
    if is32bit && -diff > hpetTinyTimeSpan then low32 diff else 0
  else diff

/-- The interrupt of a timer. -/
def Regs.irq (h : Regs) (tn : Fin 3) : BitVec 8 :=
  if tn.val ≤ 1 && h.legacy then if tn = 0 then 0 else 8
  else (h.timers tn).intRoute.setWidth 8

/-- `hpet_stop_timer`. -/
def State.stopTimer : State O V :=
  { s with
    vpt := s.vpt.destroyPeriodicTime (.inl tn)
    regs := (s.regs.getComparator env.gtime tn).2 }

/-- `hpet_set_timer`. -/
def State.setTimer : State O V :=
  let vpt := if tn = 0 && s.regs.legacy then s.vpt.destroyPeriodicTime (.inr env.pit0) else s.vpt
  if !(s.regs.timers tn).enabled then { s with vpt := vpt }
  else
    let (cmp, regs) := s.regs.getComparator env.gtime tn
    let diff := regs.diff cmp (regs.readMaincounter env.gtime) tn
    let t := regs.timers tn
    let period := if t.isPeriodic then hpetTickToNs t.period else 0
    { s with
      regs := regs
      vpt := vpt.createPeriodicTime env.params.vptAlign (.inl tn) ⟨env.vcpu, hpetTickToNs diff, period, regs.irq tn⟩
        env.now env.gtime }

/-- `hpet_write`. -/
def State.write (addr len val : BitVec 64) : State O V :=
  let c := s.regs.write env.gtime addr len val
  let s := { s with regs := c.regs, crashed := s.crashed || c.crash }
  let s := c.stop.foldl (fun s tn => s.stopTimer env tn) s
  c.start.foldl (fun s tn => s.setTimer env tn) s

/-- `hpet_read`. -/
def State.read (addr len : BitVec 64) : State O V :=
  { s with regs := (s.regs.read env.gtime addr len).2 }

end Timers

/-! ## The comparator of a periodic timer -/

/-- The next value of a sequence with period `p`, if it is not more than a period ahead. -/
theorem isLeast_next {m c p : ℕ} (hp : 0 < p) (hc : c < m + p) :
    IsLeast {v | m ≤ v ∧ c ≤ v ∧ v ≡ c [MOD p]} (c + (m + p - 1 - c) / p * p) := by
  have hdiv := Nat.div_add_mod' (m + p - 1 - c) p
  have hmod := Nat.mod_lt (m + p - 1 - c) hp
  refine ⟨⟨by omega, by omega, ?_⟩, ?_⟩
  · unfold Nat.ModEq
    rw [Nat.add_mul_mod_self_right]
  · rintro v ⟨hm, hcv, hv⟩
    obtain ⟨k, hk⟩ := (Nat.modEq_iff_dvd' hcv).mp hv.symm
    have hle : (m + p - 1 - c) / p ≤ k := by
      apply Nat.le_of_lt_succ
      apply Nat.div_lt_of_lt_mul
      rw [Nat.mul_succ]
      omega
    have hmul := Nat.mul_le_mul_right p hle
    rw [Nat.mul_comm] at hk
    omega

theorem isLeast_self {m c p : ℕ} (hc : m ≤ c) : IsLeast {v | m ≤ v ∧ c ≤ v ∧ v ≡ c [MOD p]} c :=
  ⟨⟨hc, Nat.le_refl c, rfl⟩, fun _ hv => hv.2.1⟩

/-- Counting periods with numbers that wrap finds the next value just if nothing wraps. -/
theorem next_wraps_iff {W m c p : ℕ} (hp : 0 < p) (hm : m < W) (hc : c < W) (hpW : p < W) :
    IsLeast {v | m ≤ v ∧ c ≤ v ∧ v ≡ c [MOD p]} ((c + (m + p - 1 + W - c) % W / p * p) % W) ↔
      c < m + p ∧ m + p - 1 - c < W ∧ c + (m + p - 1 - c) / p * p < W := by
  have hdiv := Nat.div_mul_le_self ((m + p - 1 + W - c) % W) p
  rcases Nat.lt_or_ge c (m + p) with hahead | hahead
  · have hnext := isLeast_next hp hahead
    rcases Nat.lt_or_ge (m + p - 1 - c) W with hfits | hwraps
    · have he : (m + p - 1 + W - c) % W = m + p - 1 - c := by
        rw [show m + p - 1 + W - c = m + p - 1 - c + W by omega, Nat.add_mod_right, Nat.mod_eq_of_lt hfits]
      rw [he]
      constructor
      · intro h
        have heq := h.unique hnext
        have hlt := Nat.mod_lt (c + (m + p - 1 - c) / p * p) (Nat.zero_lt_of_lt hm)
        exact ⟨hahead, hfits, by omega⟩
      · rintro ⟨-, -, hlt⟩
        rw [Nat.mod_eq_of_lt hlt]
        exact hnext
    · -- the value found lies before the counter
      have he : (m + p - 1 + W - c) % W = m + p - 1 - c - W := by
        rw [show m + p - 1 + W - c = m + p - 1 - c - W + W + W by omega, Nat.add_mod_right, Nat.add_mod_right,
          Nat.mod_eq_of_lt (by omega)]
      rw [he] at hdiv ⊢
      constructor
      · intro h
        have hge := h.1.1
        rw [Nat.mod_eq_of_lt (by omega)] at hge
        omega
      · rintro ⟨-, hlt, -⟩
        omega
  · have he : (m + p - 1 + W - c) % W = m + p - 1 + W - c := Nat.mod_eq_of_lt (by omega)
    have hpos : p ≤ (m + p - 1 + W - c) / p * p := by
      have hq : 1 ≤ (m + p - 1 + W - c) / p := Nat.div_pos (by omega) hp
      calc p = 1 * p := (Nat.one_mul p).symm
        _ ≤ _ := Nat.mul_le_mul_right p hq
    rw [he] at hdiv ⊢
    constructor
    · intro h
      have heq := h.unique (isLeast_self (show m ≤ c by omega))
      rcases Nat.lt_or_ge (c + (m + p - 1 + W - c) / p * p) W with hlt | hge
      · rw [Nat.mod_eq_of_lt hlt] at heq
        omega
      · rw [Nat.mod_eq_sub_mod hge, Nat.mod_eq_of_lt (by omega)] at heq
        omega
    · rintro ⟨hlt, -⟩
      omega

namespace Regs

variable {h : Regs} {gtime : BitVec 64} {tn : Fin 3}

theorem advanced_toNat (hperiodic : (h.timers tn).isPeriodic = true) (hpos : (h.timers tn).period ≠ 0) :
    (h.advanced gtime tn).toNat =
      ((h.timers tn).comparator64.toNat + ((h.readMaincounter gtime).toNat + (h.timers tn).period.toNat - 1 + 2 ^ 64 -
        (h.timers tn).comparator64.toNat) % 2 ^ 64 / (h.timers tn).period.toNat * (h.timers tn).period.toNat) % 2 ^ 64 := by
  have hp : 0 < (h.timers tn).period.toNat := by
    apply Nat.pos_of_ne_zero
    intro hzero
    exact hpos (BitVec.eq_of_toNat_eq hzero)
  have helapsed : (h.readMaincounter gtime + (h.timers tn).period - 1 - (h.timers tn).comparator64).toNat =
      ((h.readMaincounter gtime).toNat + (h.timers tn).period.toNat - 1 + 2 ^ 64 -
        (h.timers tn).comparator64.toNat) % 2 ^ 64 := by
    have hone : (1 : BitVec 64).toNat = 1 := rfl
    rw [BitVec.toNat_sub, BitVec.toNat_sub, BitVec.toNat_add, hone]
    have hc := (h.timers tn).comparator64.isLt
    omega
  unfold advanced
  dsimp only
  rw [hperiodic, decide_eq_true hpos, Bool.and_self, if_pos rfl, BitVec.toNat_add, BitVec.toNat_mul, BitVec.toNat_udiv,
    helapsed, Nat.add_mod_mod]

theorem sub_add_eq (x c q : BitVec 64) : x - (c + q) = x - c - q := by
  apply BitVec.eq_of_toNat_eq
  rw [BitVec.toNat_sub, BitVec.toNat_sub, BitVec.toNat_sub, BitVec.toNat_add]
  omega

/-- Whole periods fit in what has elapsed. -/
theorem sub_div_mul_div (e p : BitVec 64) : (e - e / p * p) / p = 0#64 := by
  have hle := Nat.div_mul_le_self e.toNat p.toNat
  have hmul : (e / p * p).toNat = e.toNat / p.toNat * p.toNat := by
    rw [BitVec.toNat_mul, BitVec.toNat_udiv, Nat.mod_eq_of_lt (Nat.lt_of_le_of_lt hle e.isLt)]
  have hmod : (e - e / p * p).toNat = e.toNat % p.toNat := by
    rw [BitVec.toNat_sub_of_le (BitVec.le_def.mpr (hmul ▸ hle)), hmul]
    have hdiv := Nat.div_add_mod' e.toNat p.toNat
    omega
  apply BitVec.eq_of_toNat_eq
  rw [BitVec.toNat_udiv, hmod]
  exact Nat.mod_div_self _ _

theorem getComparator_self :
    (h.getComparator gtime tn).2.timers tn =
      { h.timers tn with
        comparator64 := h.advanced gtime tn
        cmp := (h.getComparator gtime tn).1 } := Function.update_self ..

/-- It is looked at again without being moved. -/
theorem advanced_again : (h.getComparator gtime tn).2.advanced gtime tn = h.advanced gtime tn := by
  have hself : (h.getComparator gtime tn).2.timers tn = _ := getComparator_self
  have hcounter : (h.getComparator gtime tn).2.readMaincounter gtime = h.readMaincounter gtime := rfl
  unfold advanced at *
  dsimp only at *
  rw [hself, hcounter]
  unfold Timer.isPeriodic
  dsimp only
  by_cases hperiodic : (isSet (h.timers tn).config tnPeriodic && decide ((h.timers tn).period ≠ 0)) = true
  · -- what has elapsed since is less than a period
    rw [if_pos hperiodic, if_pos hperiodic, sub_add_eq, sub_div_mul_div, BitVec.zero_mul, BitVec.add_zero]
  · rw [if_neg hperiodic, if_neg hperiodic]

/-- The comparator that is found is the next value of its sequence, and it is found again. -/
def NextComparator (h : Regs) (gtime : BitVec 64) (tn : Fin 3) : Prop :=
  let t := h.timers tn
  t.isPeriodic = true → t.period ≠ 0 →
    IsLeast {v | (h.readMaincounter gtime).toNat ≤ v ∧ t.comparator64.toNat ≤ v ∧
      v ≡ t.comparator64.toNat [MOD t.period.toNat]} (h.advanced gtime tn).toNat ∧
    ((h.getComparator gtime tn).2.getComparator gtime tn).1 = (h.getComparator gtime tn).1

/-- The comparator is less than a period ahead of the counter, and the numbers fit. -/
def InReach (h : Regs) (gtime : BitVec 64) (tn : Fin 3) : Prop :=
  let t := h.timers tn
  let m := (h.readMaincounter gtime).toNat
  let c := t.comparator64.toNat
  let p := t.period.toNat
  t.isPeriodic = true → t.period ≠ 0 → c < m + p ∧ m + p - 1 - c < 2 ^ 64 ∧ c + (m + p - 1 - c) / p * p < 2 ^ 64

theorem nextComparator_iff (h : Regs) (gtime : BitVec 64) (tn : Fin 3) :
    h.NextComparator gtime tn ↔ h.InReach gtime tn := by
  unfold NextComparator InReach
  apply forall_congr'
  intro hperiodic
  apply forall_congr'
  intro hpos
  have hp : 0 < (h.timers tn).period.toNat := by
    apply Nat.pos_of_ne_zero
    intro hzero
    exact hpos (BitVec.eq_of_toNat_eq hzero)
  have hagain : ((h.getComparator gtime tn).2.getComparator gtime tn).1 = (h.getComparator gtime tn).1 := by
    have hmode : ((h.getComparator gtime tn).2.timers tn).is32bit = (h.timers tn).is32bit := by
      rw [getComparator_self]
      rfl
    have hadvanced : (h.getComparator gtime tn).2.advanced gtime tn = _ := advanced_again
    unfold getComparator at hmode hadvanced ⊢
    dsimp only at hmode hadvanced ⊢
    rw [hadvanced]
    exact congrArg (if · = true then _ else _) hmode
  rw [and_iff_left hagain, advanced_toNat hperiodic hpos]
  exact next_wraps_iff hp (h.readMaincounter gtime).isLt (h.timers tn).comparator64.isLt (h.timers tn).period.isLt

/-- A periodic timer started at the counter: its comparator is found a period early, cut to what comparisons of
times can bear. -/
theorem getComparator_started :
    let h := ((Regs.init.write 0 0x100 8 8).regs.write 0 0x108 8 100000).regs
    h.readMaincounter 0 = 0 ∧ (h.timers 0).comparator64 = 100000 ∧ (h.read 0 0x108 8).1 = 48384 := by
  decide +kernel

end Regs

end Hvm.Hpet
