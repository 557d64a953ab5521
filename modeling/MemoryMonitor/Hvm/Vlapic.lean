import Mathlib

/-!
# The virtual local APICs

`xen/arch/x86/hvm/vlapic.c`: the registers of a vLAPIC lie in a page, 32 bits of them every 16 bytes, and are read and
written by offset, through memory (`vlapic_read`, `vlapic_write`) or through MSRs in x2APIC mode. Writes to the ICR
send interrupts to the vLAPICs that it addresses.

The offsets at which the page is touched are recorded, which is not in the source. What writes do to timers, to
the I/O APIC and to the target of the i8259 is not here, nor what becomes of a vCPU that gets INIT or SIPI.
-/

namespace Hvm.Vlapic

def apicId : BitVec 32 := 0x20
def apicLvr : BitVec 32 := 0x30
def apicTaskpri : BitVec 32 := 0x80
def apicProcpri : BitVec 32 := 0xa0
def apicEoi : BitVec 32 := 0xb0
def apicLdr : BitVec 32 := 0xd0
def apicDfr : BitVec 32 := 0xe0
def apicSpiv : BitVec 32 := 0xf0
def apicIsr : BitVec 32 := 0x100
def apicTmr : BitVec 32 := 0x180
def apicIrr : BitVec 32 := 0x200
def apicEsr : BitVec 32 := 0x280
def apicIcr : BitVec 32 := 0x300
def apicIcr2 : BitVec 32 := 0x310
def apicLvtt : BitVec 32 := 0x320
def apicLvtthmr : BitVec 32 := 0x330
def apicLvtpc : BitVec 32 := 0x340
def apicLvt0 : BitVec 32 := 0x350
def apicLvt1 : BitVec 32 := 0x360
def apicLvterr : BitVec 32 := 0x370
def apicTmict : BitVec 32 := 0x380
def apicTmcct : BitVec 32 := 0x390
def apicTdcr : BitVec 32 := 0x3e0
def apicSelfIpi : BitVec 32 := 0x3f0

/-- `APIC_DFR_FLAT` and `APIC_DFR_CLUSTER`. -/
def dfrFlat : BitVec 32 := 0xffffffff
def dfrCluster : BitVec 32 := 0x0fffffff

def lvtMasked : BitVec 32 := 1#32 <<< 16
def timerModeMask : BitVec 32 := 3#32 <<< 17

/-- `vlapic_lvt_mask`. -/
def lvtMask (offset : BitVec 32) : BitVec 32 :=
  if offset = apicLvtt then 0x710ff
  else if offset = apicLvtthmr ∨ offset = apicLvtpc then 0x117ff
  else if offset = apicLvt0 ∨ offset = apicLvt1 then 0x1f7ff
  else 0x110ff

structure Lapic where
  /-- The word at an offset of the page. -/
  regs : BitVec 32 → BitVec 32
  apicBaseMsr : BitVec 64
  hwDisabled : Bool
  swDisabled : Bool
  timerDivisor : BitVec 32
  timerLastUpdate : BitVec 64

namespace Lapic

variable (l : Lapic)

/-- `vlapic_enabled`. -/
def enabled : Bool := !l.hwDisabled && !l.swDisabled

/-- `vlapic_x2apic_mode`. -/
def x2apicMode : Bool := l.apicBaseMsr.getLsbD 10

/-- `vlapic_base_address`: the mask is a negative number. -/
def baseAddress : BitVec 64 := l.apicBaseMsr &&& 0xfffffffffffff000

end Lapic

/-- `X86EMUL_OKAY`, `X86EMUL_UNHANDLEABLE` and `X86EMUL_RETRY`. -/
inductive Rc where
  | okay | unhandleable | retry
  deriving DecidableEq

/-- The vLAPICs of the vCPUs of a domain. -/
structure State (V : Type) where
  lapic : V → Lapic
  initialised : V → Bool
  nmiPending : V → Bool
  sipiTarget : V → Option V
  roundRobinPrev : Nat
  crashed : Bool
  touched : List (BitVec 32)

abbrev M (V : Type) := StateM (State V)

variable {V : Type} [DecidableEq V]

/-! ## Registers -/

/-- `vlapic_get_reg`. -/
def getReg (v : V) (reg : BitVec 32) : M V (BitVec 32) :=
  fun s => ((s.lapic v).regs reg, { s with touched := reg :: s.touched })

def setLapic (v : V) (f : Lapic → Lapic) : M V Unit :=
  fun s => ((), { s with lapic := Function.update s.lapic v (f (s.lapic v)) })

/-- `vlapic_set_reg`. -/
def setReg (v : V) (reg val : BitVec 32) : M V Unit :=
  fun s => ((), { s with
    lapic := Function.update s.lapic v { s.lapic v with regs := Function.update (s.lapic v).regs reg val }
    touched := reg :: s.touched })

/-- `domain_crash`. -/
def domainCrash : M V Unit := modify fun s => { s with crashed := true }

/-- The word of a bitmap of vectors. -/
def regPos (bitmap : BitVec 32) (word : Nat) : BitVec 32 := bitmap + BitVec.ofNat 32 (word * 0x10)

/-- `vlapic_test_and_set_vector`. -/
def testAndSetVector (v : V) (vec : BitVec 8) (bitmap : BitVec 32) : M V Bool := do
  let word ← getReg v (regPos bitmap (vec.toNat / 32))
  setReg v (regPos bitmap (vec.toNat / 32)) (word ||| (1#32 <<< (vec.toNat % 32)))
  return word.getLsbD (vec.toNat % 32)

/-- `vlapic_test_and_clear_vector`. -/
def testAndClearVector (v : V) (vec : BitVec 8) (bitmap : BitVec 32) : M V Bool := do
  let word ← getReg v (regPos bitmap (vec.toNat / 32))
  setReg v (regPos bitmap (vec.toNat / 32)) (word &&& ~~~(1#32 <<< (vec.toNat % 32)))
  return word.getLsbD (vec.toNat % 32)

/-- The loop of `vlapic_find_highest_vector`, which has this many words before it; no vector is found if there is
none in the first word. -/
def findHighestVector (v : V) (bitmap : BitVec 32) : Nat → M V (Option Nat)
  | 0 => do
      let word ← getReg v bitmap
      return if word = 0 then none else some word.toNat.log2
  | n + 1 => do
      let word ← getReg v (regPos bitmap n)
      if word ≠ 0 then return some (word.toNat.log2 + n * 32) else findHighestVector v bitmap n

/-- `vlapic_get_ppr`. -/
def getPpr (v : V) : M V (BitVec 32) := do
  let tpr ← getReg v apicTaskpri
  let isr ← findHighestVector v apicIsr 8
  let isrv : BitVec 32 := BitVec.ofNat 32 (isr.getD 0)
  return if tpr &&& 0xf0 ≥ isrv &&& 0xf0 then tpr &&& 0xff else isrv &&& 0xf0

/-! ## Interrupts between processors -/

/-- `VLAPIC_ID`. -/
def vlapicId (v : V) : M V (BitVec 32) := do
  let id ← getReg v apicId
  return (id >>> 24) &&& 0xff

/-- `vlapic_match_logical_addr`. -/
def matchLogicalAddr (v : V) (mda : BitVec 8) : M V Bool := do
  let s ← get
  if (s.lapic v).x2apicMode then
    let logicalId ← getReg v apicLdr
    return logicalId &&& mda.setWidth 32 ≠ 0
  else
    let ldr ← getReg v apicLdr
    let logicalId : BitVec 32 := (ldr >>> 24) &&& 0xff
    let dfr ← getReg v apicDfr
    if dfr = dfrFlat then return logicalId &&& mda.setWidth 32 ≠ 0
    else if dfr = dfrCluster then
      return logicalId >>> 4 = (mda >>> 4).setWidth 32 && logicalId &&& mda.setWidth 32 &&& 0xf ≠ 0
    else return false

/-- `short_hand`, by the two bits of the ICR. -/
inductive Short where
  | noshort | self | allinc | allbut
  deriving DecidableEq

def Short.ofIcr (icrLow : BitVec 32) : Short :=
  match icrLow.getLsbD 19, icrLow.getLsbD 18 with
  | false, false => .noshort
  | false, true => .self
  | true, false => .allinc
  | true, true => .allbut

/-- `vlapic_match_dest`. -/
def matchDest (target source : V) (shortHand : Short) (dest : BitVec 8) (destMode : Bool) : M V Bool :=
  match shortHand with
  | .noshort =>
      if destMode then matchLogicalAddr target dest
      else do
        let id ← vlapicId target
        return dest = 0xff || dest.setWidth 32 = id
  | .self => return target = source
  | .allinc => return true
  | .allbut => return target ≠ source

/-- `vlapic_schedule_init_sipi_tasklet`. -/
def scheduleInitSipi (source target : V) : M V Rc := do
  let s ← get
  if s.sipiTarget source ≠ none then return .unhandleable
  else
    modify fun s => { s with sipiTarget := Function.update s.sipiTarget source (some target) }
    return .retry

/-- `vlapic_accept_irq`, in a call of the vCPU `source`. -/
def acceptIrq (source v : V) (icrLow : BitVec 32) : M V Rc := do
  let s ← get
  match ((icrLow >>> 8) &&& 7).toNat with
  | 0 | 1 =>
      if (s.lapic v).enabled then
        let _ ← testAndSetVector v (icrLow.setWidth 8) apicIrr
        return .okay
      else return .okay
  | 2 | 3 => return .okay
  | 4 =>
      modify fun s => { s with nmiPending := Function.update s.nmiPending v true }
      return .okay
  | 5 =>
      -- an INIT that is not asserted does nothing, nor one for a vCPU that is reset
      if icrLow &&& 0xc000 = 0x8000 then return .okay
      else if !s.initialised v then return .okay
      else scheduleInitSipi source v
  | 6 => if s.initialised v then return .okay else scheduleInitSipi source v
  | _ =>
      domainCrash
      return .okay

/-- The loop of `vlapic_lowest_prio`. -/
def lowestPrioLoop (source : V) (shortHand : Short) (dest : BitVec 8) (destMode : Bool) :
    List V → Option V → BitVec 32 → M V (Option V)
  | [], target, _ => return target
  | v :: rest, target, targetPpr => do
      if ← matchDest v source shortHand dest destMode then
        let s ← get
        if (s.lapic v).enabled then
          let ppr ← getPpr v
          if ppr < targetPpr then lowestPrioLoop source shortHand dest destMode rest (some v) ppr
          else lowestPrioLoop source shortHand dest destMode rest target targetPpr
        else lowestPrioLoop source shortHand dest destMode rest target targetPpr
      else lowestPrioLoop source shortHand dest destMode rest target targetPpr

/-- `vlapic_lowest_prio`; `vcpus` are the vCPUs of the domain in order. -/
def lowestPrio (vcpus : List V) (source : V) (shortHand : Short) (dest : BitVec 8) (destMode : Bool) :
    M V (Option V) := do
  let s ← get
  if vcpus.length ≤ s.roundRobinPrev then return none
  else
    let target ← lowestPrioLoop source shortHand dest destMode (vcpus.rotate (s.roundRobinPrev + 1)) none (-1)
    match target with
    | none => return none
    | some t =>
        modify fun s => { s with roundRobinPrev := vcpus.idxOf t }
        return some t

/-- The loop of `vlapic_ipi`. -/
def ipiLoop (source : V) (shortHand : Short) (dest : BitVec 8) (destMode : Bool) (icrLow : BitVec 32) :
    List V → M V Rc
  | [] => return .okay
  | v :: rest => do
      if ← matchDest v source shortHand dest destMode then
        let rc ← acceptIrq source v icrLow
        if rc = .okay then ipiLoop source shortHand dest destMode icrLow rest else return rc
      else ipiLoop source shortHand dest destMode icrLow rest

/-- `vlapic_ipi`. -/
def vlapicIpi (vcpus : List V) (v : V) (icrLow icrHigh : BitVec 32) : M V Rc := do
  let s ← get
  let shortHand := Short.ofIcr icrLow
  let destMode := icrLow.getLsbD 11
  let dest : BitVec 32 := if (s.lapic v).x2apicMode then icrHigh else (icrHigh >>> 24) &&& 0xff
  -- the callees take the destination as eight bits
  let dest : BitVec 8 := dest.setWidth 8
  if (icrLow >>> 8) &&& 7 = 1 then
    match ← lowestPrio vcpus v shortHand dest destMode with
    | none => return .okay
    | some target => acceptIrq v target icrLow
  else ipiLoop v shortHand dest destMode icrLow vcpus

theorem toNat_clearLow (x : BitVec 32) (k : Nat) :
    (x &&& ~~~BitVec.ofNat 32 (2 ^ k - 1)).toNat = x.toNat / 2 ^ k * 2 ^ k := by
  have hshift : x &&& ~~~BitVec.ofNat 32 (2 ^ k - 1) = (x >>> k) <<< k := by
    apply BitVec.eq_of_getLsbD_eq
    intro i hi
    rw [BitVec.getLsbD_and, BitVec.getLsbD_not, BitVec.getLsbD_ofNat, Nat.testBit_two_pow_sub_one,
      BitVec.getLsbD_shiftLeft, BitVec.getLsbD_ushiftRight]
    rcases Nat.lt_or_ge i k with hlt | hge
    · simp [hlt]
    · simp [hi, Nat.not_lt.mpr hge, Nat.add_sub_cancel' hge]
  rw [hshift, BitVec.toNat_shiftLeft, BitVec.toNat_ushiftRight, Nat.shiftLeft_eq, Nat.shiftRight_eq_div_pow]
  exact Nat.mod_eq_of_lt (Nat.lt_of_le_of_lt (Nat.div_mul_le_self _ _) x.isLt)

end Hvm.Vlapic
