import MemoryMonitor.Hvm.Vlapic

/-!
# Accesses to the page of a vLAPIC

The page has 4096 bytes. Memory accesses come from `vlapic_range`, MSRs from the intercepts in `hvm.c`, which route
`0x800` to `0xbff` here: the offset of an MSR is 16 times its number in that range.
-/

namespace Hvm.Vlapic

variable {V : Type} [DecidableEq V]

/-- `vlapic_lvtt_period` or `vlapic_lvtt_oneshot`. -/
def lvttCounts (v : V) : M V Bool := do
  let lvtt ← getReg v apicLvtt
  return lvtt &&& timerModeMask = 0 || lvtt &&& timerModeMask = 1#32 <<< 17

/-- `vlapic_get_tmcct`. -/
def getTmcct (v : V) (gtime : BitVec 64) : M V (BitVec 32) := do
  let s ← get
  let tmict ← getReg v apicTmict
  let passed := (gtime - (s.lapic v).timerLastUpdate) / ((10 * (s.lapic v).timerDivisor).setWidth 64)
  if tmict = 0 then return 0
  else
    let lvtt ← getReg v apicLvtt
    let passed := if lvtt &&& timerModeMask = 1#32 <<< 17 then passed % tmict.setWidth 64 else passed
    return if passed < tmict.setWidth 64 then tmict - passed.setWidth 32 else 0

/-- `vlapic_read_aligned`. -/
def readAligned (v : V) (gtime : BitVec 64) (offset : BitVec 32) : M V (BitVec 32) :=
  if offset = apicProcpri then getPpr v
  else if offset = apicTmcct then do
    if ← lvttCounts v then getTmcct v gtime else return 0
  else if offset = apicTmict then do
    if ← lvttCounts v then getReg v offset else return 0
  else getReg v offset

/-- `vlapic_read`. -/
def vlapicRead (v : V) (gtime address len : BitVec 64) : M V (BitVec 64) := do
  let s ← get
  let offset : BitVec 32 := (address - (s.lapic v).baseAddress).setWidth 32
  if offset > apicTdcr + 3 then return 0
  else
    let alignment := (offset &&& 3).toNat
    let tmp ← readAligned v gtime (offset &&& ~~~3)
    let result := tmp >>> (8 * alignment)
    if len = 1 then return (result &&& 0xff).setWidth 64
    else if len = 2 ∧ alignment ≠ 3 then return (result &&& 0xffff).setWidth 64
    else if len = 4 ∧ alignment = 0 then return result.setWidth 64
    else
      domainCrash
      return 0

/-- `hvm_x2apic_msr_read`. -/
def x2apicMsrRead (v : V) (gtime : BitVec 64) (msr : BitVec 32) : M V (Option (BitVec 64)) := do
  let s ← get
  let offset := (msr - 0x800) <<< 4
  if !(s.lapic v).x2apicMode then return none
  else
    let low ← readAligned v gtime offset
    let high ← if offset = apicIcr then readAligned v gtime apicIcr2 else pure 0
    return some (high ++ low)

/-- `vlapic_EOI_set`. -/
def eoiSet (v : V) : M V Unit := do
  match ← findHighestVector v apicIsr 8 with
  | none => return
  | some vector =>
      let _ ← testAndClearVector v (BitVec.ofNat 8 vector) apicIsr
      let _ ← testAndClearVector v (BitVec.ofNat 8 vector) apicTmr

/-- `vlapic_set_tdcr`. -/
def setTdcr (v : V) (val : BitVec 32) : M V Unit := do
  let val := val &&& 0xb
  setReg v apicTdcr val
  let val := ((val &&& 3) ||| ((val &&& 8) >>> 1)) + 1
  setLapic v fun l => { l with timerDivisor := 1#32 <<< (val &&& 7).toNat }

/-- Masks the entries of the local vector table. -/
def maskLvts (v : V) : Nat → M V Unit
  | 0 => return
  | n + 1 => do
      maskLvts v n
      let lvtVal ← getReg v (regPos apicLvtt n)
      setReg v (regPos apicLvtt n) (lvtVal ||| lvtMasked)

/-- A write to the ICR. -/
def writeIcr (vcpus : List V) (v : V) (val : BitVec 32) : M V Rc := do
  let val := val &&& ~~~(1#32 <<< 12)
  let icr2 ← getReg v apicIcr2
  let rc ← vlapicIpi vcpus v val icr2
  if rc = .okay then
    setReg v apicIcr val
    return rc
  else return rc

/-- The timer stops when a write changes its mode. -/
def stopTimer (v : V) (val : BitVec 32) : M V Unit := do
  let lvtt ← getReg v apicLvtt
  if lvtt &&& timerModeMask ≠ val &&& timerModeMask then
    setReg v apicTmict 0
    setReg v apicTmcct 0
  else return

/-- A write to an entry of the local vector table. -/
def writeLvt (v : V) (offset val : BitVec 32) : M V Unit := do
  let _ ← if offset = apicLvtt then stopTimer v val else pure ()
  let s ← get
  let val := if (s.lapic v).swDisabled then val ||| lvtMasked else val
  setReg v offset (val &&& lvtMask offset)

/-- `vlapic_reg_write`. -/
def regWrite (vcpus : List V) (v : V) (gtime : BitVec 64) (offset val : BitVec 32) : M V Rc := do
  let s ← get
  let x2apic := (s.lapic v).x2apicMode
  if offset = apicId then
    if x2apic then return .unhandleable
    else
      setReg v apicId val
      return .okay
  else if offset = apicTaskpri then
    setReg v apicTaskpri (val &&& 0xff)
    return .okay
  else if offset = apicEoi then
    eoiSet v
    return .okay
  else if offset = apicLdr then
    if x2apic then return .unhandleable
    else
      setReg v apicLdr (val &&& (0xff#32 <<< 24))
      return .okay
  else if offset = apicDfr then
    if x2apic then return .unhandleable
    else
      setReg v apicDfr (val ||| 0x0fffffff)
      return .okay
  else if offset = apicSpiv then
    setReg v apicSpiv (val &&& 0x3ff)
    setLapic v fun l => { l with swDisabled := !val.getLsbD 8 }
    let _ ← if !val.getLsbD 8 then maskLvts v 6 else pure ()
    return .okay
  else if offset = apicEsr then
    return if x2apic && val ≠ 0 then .unhandleable else .okay
  else if offset = apicSelfIpi then
    if x2apic then
      let _ ← writeIcr vcpus v (0x40000 ||| (val &&& 0xff))
      return .okay
    else return .unhandleable
  else if offset = apicIcr then writeIcr vcpus v val
  else if offset = apicIcr2 then
    setReg v apicIcr2 (if x2apic then val else val &&& 0xff000000)
    return .okay
  else if offset = apicLvtt ∨ offset = apicLvtthmr ∨ offset = apicLvtpc ∨ offset = apicLvt0 ∨ offset = apicLvt1 ∨
      offset = apicLvterr then
    writeLvt v offset val
    return .okay
  else if offset = apicTmict then
    if ← lvttCounts v then
      setReg v apicTmict val
      setLapic v fun l => { l with timerLastUpdate := if val ≠ 0 then gtime else l.timerLastUpdate }
      return .okay
    else return .okay
  else if offset = apicTdcr then
    setTdcr v val
    return .okay
  else return .okay

/-- `vlapic_write`. -/
def vlapicWrite (vcpus : List V) (v : V) (gtime address len val : BitVec 64) : M V Rc := do
  let s ← get
  let offset : BitVec 32 := (address - (s.lapic v).baseAddress).setWidth 32
  let val : BitVec 32 := val.setWidth 32
  let shift := (8 * (offset &&& 3)).toNat
  if len ≠ 4 then
    let tmp ← readAligned v gtime (offset &&& ~~~3)
    if len = 1 then
      let val := (tmp &&& ~~~(0xff#32 <<< shift)) ||| ((val &&& 0xff) <<< shift)
      regWrite vcpus v gtime (offset &&& ~~~3) val
    else if len = 2 ∧ offset.getLsbD 0 = false then
      let val := (tmp &&& ~~~(0xffff#32 <<< shift)) ||| ((val &&& 0xffff) <<< shift)
      regWrite vcpus v gtime (offset &&& ~~~3) val
    else
      domainCrash
      return .okay
  else if offset &&& 3 ≠ 0 then
    domainCrash
    return .okay
  else regWrite vcpus v gtime (offset &&& ~~~3) val

/-- `hvm_x2apic_msr_write`: whether it succeeds. -/
def x2apicMsrWrite (vcpus : List V) (v : V) (gtime : BitVec 64) (msr : BitVec 32) (msrContent : BitVec 64) :
    M V Bool := do
  let s ← get
  let offset := (msr - 0x800) <<< 4
  if !(s.lapic v).x2apicMode then return false
  else
    let first ← if offset = apicIcr then regWrite vcpus v gtime apicIcr2 ((msrContent >>> 32).setWidth 32)
      else pure .okay
    if first ≠ .okay then return false
    else
      let rc ← regWrite vcpus v gtime offset (msrContent.setWidth 32)
      return rc = .okay || rc = .retry

/-- `vlapic_range`. -/
def Lapic.range (l : Lapic) (addr : BitVec 64) : Bool := !l.hwDisabled && addr - l.baseAddress < 4096

/-! ## Offsets inside the page -/

/-- All that has been touched lies in the page. -/
def State.Good (s : State V) : Prop := ∀ off ∈ s.touched, off.toNat + 4 ≤ 4096

/-- The call touches nothing outside the page. -/
def Within {α : Type} (m : M V α) : Prop := ∀ s, s.Good → (m s).2.Good

namespace Within

variable {α β : Type}

omit [DecidableEq V]

theorem pure (a : α) : Within (Pure.pure a : M V α) := fun _ h => h

theorem get : Within (MonadState.get : M V (State V)) := fun _ h => h

theorem bind {m : M V α} {f : α → M V β} (hm : Within m) (hf : ∀ a, Within (f a)) : Within (m >>= f) :=
  fun s h => hf (m s).1 (m s).2 (hm s h)

theorem ite {c : Prop} [Decidable c] {m m' : M V α} (hm : Within m) (hm' : Within m') :
    Within (if c then m else m') := by
  split
  · exact hm
  · exact hm'

theorem modify {f : State V → State V} (hf : ∀ s, (f s).touched = s.touched) :
    Within (modify f : M V PUnit) := by
  intro s h off hoff
  exact h off (hf s ▸ hoff)

end Within

omit [DecidableEq V] in
theorem within_getReg (v : V) {reg : BitVec 32} (h : reg.toNat + 4 ≤ 4096) : Within (getReg v reg) := by
  intro s hs off hoff
  rcases List.mem_cons.mp hoff with rfl | hold
  · exact h
  · exact hs off hold

theorem within_setReg (v : V) {reg : BitVec 32} (val : BitVec 32) (h : reg.toNat + 4 ≤ 4096) :
    Within (setReg v reg val) := by
  intro s hs off hoff
  rcases List.mem_cons.mp hoff with rfl | hold
  · exact h
  · exact hs off hold

theorem within_setLapic (v : V) (f : Lapic → Lapic) : Within (setLapic v f) := fun _ h => h

omit [DecidableEq V] in
theorem within_domainCrash : Within (domainCrash : M V PUnit) := .modify fun _ => rfl

theorem regPos_le {bitmap : BitVec 32} (hbitmap : bitmap.toNat ≤ apicLvtt.toNat) {word : Nat} (hword : word < 8) :
    (regPos bitmap word).toNat + 4 ≤ 4096 := by
  have hlvtt : apicLvtt.toNat = 0x320 := rfl
  unfold regPos
  rw [BitVec.toNat_add, BitVec.toNat_ofNat]
  omega

theorem within_setVector (v : V) (vec : BitVec 8) {bitmap : BitVec 32} (hbitmap : bitmap.toNat ≤ apicLvtt.toNat) :
    Within (testAndSetVector v vec bitmap) := by
  have hpos := regPos_le hbitmap (show vec.toNat / 32 < 8 by omega)
  exact .bind (within_getReg v hpos) fun _ => .bind (within_setReg v _ hpos) fun _ => .pure _

theorem within_clearVector (v : V) (vec : BitVec 8) {bitmap : BitVec 32} (hbitmap : bitmap.toNat ≤ apicLvtt.toNat) :
    Within (testAndClearVector v vec bitmap) := by
  have hpos := regPos_le hbitmap (show vec.toNat / 32 < 8 by omega)
  exact .bind (within_getReg v hpos) fun _ => .bind (within_setReg v _ hpos) fun _ => .pure _

section

omit [DecidableEq V]

theorem within_findHighest (v : V) {bitmap : BitVec 32} (hbitmap : bitmap.toNat ≤ apicLvtt.toNat) {n : Nat}
    (hn : n ≤ 8) : Within (findHighestVector v bitmap n) := by
  induction n with
  | zero =>
    have hlvtt : apicLvtt.toNat = 0x320 := rfl
    exact .bind (within_getReg v (by omega)) fun _ => .pure _
  | succ n ih =>
    exact .bind (within_getReg v (regPos_le hbitmap hn)) fun _ => .ite (.pure _) (ih (Nat.le_of_succ_le hn))

theorem within_getPpr (v : V) : Within (getPpr v) :=
  .bind (within_getReg v (by decide)) fun _ =>
    .bind (within_findHighest v (by decide) (Nat.le_refl 8)) fun _ => .pure _

theorem within_matchLogicalAddr (v : V) (mda : BitVec 8) : Within (matchLogicalAddr v mda) := by
  refine .bind .get fun s => .ite ?_ ?_
  · exact .bind (within_getReg v (by decide)) fun _ => .pure _
  · refine .bind (within_getReg v (by decide)) fun _ => .bind (within_getReg v (by decide)) fun _ => ?_
    exact .ite (.pure _) (.ite (.pure _) (.pure _))

end

theorem within_matchDest (target source : V) (shortHand : Short) (dest : BitVec 8) (destMode : Bool) :
    Within (matchDest target source shortHand dest destMode) := by
  cases shortHand with
  | noshort =>
    refine .ite (within_matchLogicalAddr target dest) ?_
    exact .bind (.bind (within_getReg target (by decide)) fun _ => .pure _) fun _ => .pure _
  | self => exact .pure _
  | allinc => exact .pure _
  | allbut => exact .pure _

theorem within_scheduleInitSipi (source v : V) : Within (scheduleInitSipi source v) := by
  refine .bind .get fun s => ?_
  exact .ite (.pure _) (.bind (.modify fun _ => rfl) fun _ => .pure _)

theorem within_acceptIrq (source v : V) (icrLow : BitVec 32) : Within (acceptIrq source v icrLow) := by
  refine .bind .get fun s => ?_
  split
  · exact .ite (.bind (within_setVector v _ (by decide)) fun _ => .pure _) (.pure _)
  · exact .ite (.bind (within_setVector v _ (by decide)) fun _ => .pure _) (.pure _)
  · exact .pure _
  · exact .pure _
  · exact .bind (.modify fun _ => rfl) fun _ => .pure _
  · exact .ite (.pure _) (.ite (.pure _) (within_scheduleInitSipi source v))
  · exact .ite (.pure _) (within_scheduleInitSipi source v)
  · exact .bind within_domainCrash fun _ => .pure _

theorem within_lowestPrio (vcpus : List V) (source : V) (shortHand : Short) (dest : BitVec 8) (destMode : Bool) :
    Within (lowestPrio vcpus source shortHand dest destMode) := by
  have hloop : ∀ (vs : List V) (target : Option V) (ppr : BitVec 32),
      Within (lowestPrioLoop source shortHand dest destMode vs target ppr) := by
    intro vs
    induction vs with
    | nil => exact fun target _ => .pure target
    | cons v rest ih =>
      intro target ppr
      refine .bind (within_matchDest _ _ _ _ _) fun _ => .ite (.bind .get fun s => ?_) (ih target ppr)
      exact .ite (.bind (within_getPpr v) fun _ => .ite (ih _ _) (ih _ _)) (ih _ _)
  refine .bind .get fun s => .ite (.pure _) (.bind (hloop _ _ _) fun target => ?_)
  cases target with
  | none => exact .pure _
  | some t => exact .bind (.modify fun _ => rfl) fun _ => .pure _

theorem within_vlapicIpi (vcpus : List V) (v : V) (icrLow icrHigh : BitVec 32) :
    Within (vlapicIpi vcpus v icrLow icrHigh) := by
  refine .bind .get fun s => .ite (.bind (within_lowestPrio _ _ _ _ _) fun target => ?_) ?_
  · cases target with
    | none => exact .pure _
    | some t => exact within_acceptIrq v t icrLow
  · induction vcpus with
    | nil => exact .pure _
    | cons w rest ih =>
      refine .bind (within_matchDest _ _ _ _ _) fun _ => .ite (.bind (within_acceptIrq v w icrLow) fun _ => ?_) ih
      exact .ite ih (.pure _)

/-! ## Registers -/

section

omit [DecidableEq V]

theorem within_lvttCounts (v : V) : Within (lvttCounts v) :=
  .bind (within_getReg v (by decide)) fun _ => .pure _

theorem within_getTmcct (v : V) (gtime : BitVec 64) : Within (getTmcct v gtime) := by
  refine .bind .get fun s => .bind (within_getReg v (by decide)) fun _ => .ite (.pure _) ?_
  exact .bind (within_getReg v (by decide)) fun _ => .pure _

theorem within_readAligned (v : V) (gtime : BitVec 64) {offset : BitVec 32} (h : offset.toNat + 4 ≤ 4096) :
    Within (readAligned v gtime offset) := by
  refine .ite (within_getPpr v) (.ite ?_ (.ite ?_ (within_getReg v h)))
  · exact .bind (within_lvttCounts v) fun _ => .ite (within_getTmcct v gtime) (.pure _)
  · exact .bind (within_lvttCounts v) fun _ => .ite (within_getReg v h) (.pure _)

end

theorem within_maskLvts (v : V) {n : Nat} (hn : n < 8) : Within (maskLvts v n) := by
  induction n with
  | zero => exact .pure _
  | succ n ih =>
    have hpos : (regPos apicLvtt n).toNat + 4 ≤ 4096 := regPos_le (Nat.le_refl _) (Nat.lt_of_succ_lt hn)
    refine .bind (ih (Nat.lt_of_succ_lt hn)) fun _ => .bind (within_getReg v hpos) fun _ => within_setReg v _ hpos

theorem within_eoiSet (v : V) : Within (eoiSet v) := by
  refine .bind (within_findHighest v (by decide) (Nat.le_refl 8)) fun found => ?_
  cases found with
  | none => exact .pure _
  | some vector =>
    refine .bind (within_clearVector v _ (by decide)) fun _ => ?_
    exact .bind (within_clearVector v _ (by decide)) fun _ => .pure _

theorem within_writeIcr (vcpus : List V) (v : V) (val : BitVec 32) : Within (writeIcr vcpus v val) := by
  refine .bind (within_getReg v (by decide)) fun _ => .bind (within_vlapicIpi _ _ _ _) fun _ => .ite ?_ (.pure _)
  exact .bind (within_setReg v _ (by decide)) fun _ => .pure _

theorem within_writeLvt (v : V) {offset : BitVec 32} (val : BitVec 32) (h : offset.toNat + 4 ≤ 4096) :
    Within (writeLvt v offset val) := by
  have hstop : Within (stopTimer v val) := by
    refine .bind (within_getReg v (by decide)) fun _ => .ite ?_ (.pure _)
    exact .bind (within_setReg v _ (by decide)) fun _ => within_setReg v _ (by decide)
  have hset : Within (getThe (State V) >>= fun s =>
      setReg v offset ((if (s.lapic v).swDisabled then val ||| lvtMasked else val) &&& lvtMask offset)) :=
    .bind .get fun s => within_setReg v _ h
  exact .ite (.bind hstop fun _ => hset) hset

/-- A write touches nothing outside the page, whatever the offset. -/
theorem within_regWrite (vcpus : List V) (v : V) (gtime : BitVec 64) (offset val : BitVec 32) :
    Within (regWrite vcpus v gtime offset val) := by
  have hset : ∀ (reg val : BitVec 32) (rc : Rc), reg.toNat + 4 ≤ 4096 →
      Within (setReg v reg val >>= fun _ => (pure rc : M V Rc)) :=
    fun reg val rc h => .bind (within_setReg v val h) fun _ => .pure _
  refine .bind .get fun s => ?_
  refine .ite (.ite (.pure _) (hset apicId _ _ (by decide))) ?_
  refine .ite (hset apicTaskpri _ _ (by decide)) ?_
  refine .ite (.bind (within_eoiSet v) fun _ => .pure _) ?_
  refine .ite (.ite (.pure _) (hset apicLdr _ _ (by decide))) ?_
  refine .ite (.ite (.pure _) (hset apicDfr _ _ (by decide))) ?_
  refine .ite (.bind (within_setReg v _ (by decide)) fun _ => .bind (within_setLapic v _) fun _ => ?_) ?_
  · exact .ite (.bind (within_maskLvts v (by decide)) fun _ => .pure _) (.pure _)
  refine .ite (.pure _) ?_
  refine .ite (.ite (.bind (within_writeIcr vcpus v _) fun _ => .pure _) (.pure _)) ?_
  refine .ite (within_writeIcr vcpus v val) ?_
  refine .ite (hset apicIcr2 _ _ (by decide)) ?_
  split
  · rename_i hlvt
    have hoffset : offset.toNat + 4 ≤ 4096 := by
      rcases hlvt with rfl | rfl | rfl | rfl | rfl | rfl <;> decide
    exact .bind (within_writeLvt v val hoffset) fun _ => .pure _
  refine .ite (.bind (within_lvttCounts v) fun _ => .ite ?_ (.pure _)) ?_
  · exact .bind (within_setReg v _ (by decide)) fun _ => .bind (within_setLapic v _) fun _ => .pure _
  refine .ite (.bind (.bind (within_setReg v _ (by decide)) fun _ => within_setLapic v _) fun _ => .pure _) (.pure _)

/-! ## Requests of the guest -/

/-- The accesses of a guest to its vLAPIC. -/
inductive Request where
  | msrRead (msr : BitVec 32)
  | msrWrite (msr : BitVec 32) (val : BitVec 64)
  | read (address len : BitVec 64)
  | write (address len val : BitVec 64)

/-- The request is handed to the vLAPIC, by the intercepts of MSRs or by `vlapic_range`. -/
def Request.routed (l : Lapic) : Request → Bool
  | .msrRead msr | .msrWrite msr _ => 0x800 ≤ msr && msr ≤ 0x800 + 0x3ff
  | .read address _ | .write address _ _ => l.range address

def Request.serve (vcpus : List V) (v : V) (gtime : BitVec 64) : Request → M V Unit
  | .msrRead msr => do
      let _ ← x2apicMsrRead v gtime msr
  | .msrWrite msr val => do
      let _ ← x2apicMsrWrite vcpus v gtime msr val
  | .read address len => do
      let _ ← vlapicRead v gtime address len
  | .write address len val => do
      let _ ← vlapicWrite vcpus v gtime address len val

/-- The offsets that are touched for a request. -/
def touchedBy (s : State V) (vcpus : List V) (v : V) (gtime : BitVec 64) (req : Request) : List (BitVec 32) :=
  if req.routed (s.lapic v) then (req.serve vcpus v gtime { s with touched := [] }).2.touched else []

theorem toNat_aligned (x : BitVec 32) : (x &&& ~~~3#32).toNat = x.toNat / 4 * 4 := toNat_clearLow x 2

/-- An access through memory is one to the page. -/
theorem toNat_offset {l : Lapic} {address : BitVec 64} (h : l.range address = true) :
    ((address - l.baseAddress).setWidth 32 : BitVec 32).toNat < 4096 := by
  have hlt := of_decide_eq_true (Bool.and_eq_true_iff.mp h).2
  rw [BitVec.toNat_setWidth]
  exact Nat.lt_of_le_of_lt (Nat.mod_le _ _) (BitVec.lt_def.mp hlt)

theorem toNat_msrOffset {msr : BitVec 32} (hlow : 0x800 ≤ msr.toNat) (hhigh : msr.toNat ≤ 0xbff) :
    ((msr - 0x800) <<< 4).toNat = (msr.toNat - 0x800) * 16 := by
  have hbase : (0x800 : BitVec 32).toNat = 0x800 := rfl
  rw [BitVec.toNat_shiftLeft, BitVec.toNat_sub, Nat.shiftLeft_eq, hbase]
  omega

omit [DecidableEq V] in
theorem within_vlapicRead {v : V} {gtime address len : BitVec 64} : Within (vlapicRead v gtime address len) := by
  refine .bind .get fun s => ?_
  generalize ((address - (s.lapic v).baseAddress).setWidth 32 : BitVec 32) = offset
  dsimp only
  by_cases hle : offset > apicTdcr + 3
  · rw [if_pos hle]
    exact .pure _
  · rw [if_neg hle]
    have hoffset : (offset &&& ~~~3#32).toNat + 4 ≤ 4096 := by
      have htdcr : (apicTdcr + 3).toNat = 0x3e3 := rfl
      rw [toNat_aligned]
      rw [gt_iff_lt, BitVec.lt_def, htdcr] at hle
      omega
    refine .bind (within_readAligned v gtime hoffset) fun _ => ?_
    exact .ite (.pure _) (.ite (.pure _) (.ite (.pure _) (.bind within_domainCrash fun _ => .pure _)))

/-- A write that is handed on by `vlapic_range`. -/
theorem good_vlapicWrite (vcpus : List V) {v : V} {gtime address len val : BitVec 64} {s : State V} (hs : s.Good)
    (h : (s.lapic v).range address = true) : (vlapicWrite vcpus v gtime address len val s).2.Good := by
  have hoffset : (((address - (s.lapic v).baseAddress).setWidth 32 : BitVec 32) &&& ~~~3#32).toNat + 4 ≤ 4096 := by
    have hlt := toNat_offset h
    rw [toNat_aligned]
    omega
  refine Within.ite ?_ (.ite (.bind within_domainCrash fun _ => .pure _) (within_regWrite _ _ _ _ _)) s hs
  refine .bind (within_readAligned v gtime hoffset) fun _ => ?_
  exact .ite (within_regWrite _ _ _ _ _) (.ite (within_regWrite _ _ _ _ _) (.bind within_domainCrash fun _ => .pure _))

theorem within_x2apicMsrWrite (vcpus : List V) (v : V) (gtime : BitVec 64) (msr : BitVec 32) (val : BitVec 64) :
    Within (x2apicMsrWrite vcpus v gtime msr val) := by
  have hlast : ∀ first : Rc, Within (if first ≠ .okay then (pure false : M V Bool) else do
      let rc ← regWrite vcpus v gtime ((msr - 0x800) <<< 4) (val.setWidth 32)
      return rc = .okay || rc = .retry) :=
    fun _ => .ite (.pure _) (.bind (within_regWrite _ _ _ _ _) fun _ => .pure _)
  refine .bind .get fun s => .ite (.pure _) ?_
  exact .ite (.bind (within_regWrite _ _ _ _ _) hlast) (.bind (.pure _) hlast)

section

omit [DecidableEq V]

/-- A read of an MSR whose register lies in the page. -/
theorem within_x2apicMsrRead (v : V) (gtime : BitVec 64) {msr : BitVec 32}
    (h : ((msr - 0x800) <<< 4).toNat + 4 ≤ 4096) : Within (x2apicMsrRead v gtime msr) := by
  refine .bind .get fun s => .ite (.pure _) (.bind (within_readAligned v gtime h) fun _ => ?_)
  exact .ite (.bind (within_readAligned v gtime (by decide)) fun _ => .pure _) (.pure _)

/-- A read of an MSR whose register would lie behind the page touches it there. -/
theorem mem_touched_msrRead {s : State V} {v : V} {gtime : BitVec 64} {msr : BitVec 32}
    (hmode : (s.lapic v).x2apicMode = true) (hout : 4096 ≤ ((msr - 0x800) <<< 4).toNat) :
    (msr - 0x800) <<< 4 ∈ (x2apicMsrRead v gtime msr s).2.touched := by
  have hne : ∀ reg : BitVec 32, reg.toNat < 4096 → (msr - 0x800) <<< 4 ≠ reg := by
    rintro reg hreg heq
    rw [heq] at hout
    omega
  unfold x2apicMsrRead readAligned
  generalize (msr - 0x800) <<< 4 = offset at hne
  show offset ∈ ((if !(s.lapic v).x2apicMode then _ else _ : M V (Option (BitVec 64))) s).2.touched
  rw [hmode, Bool.not_true, if_neg Bool.false_ne_true, if_neg (hne apicProcpri (by decide)),
    if_neg (hne apicTmcct (by decide)), if_neg (hne apicTmict (by decide))]
  show offset ∈ ((if offset = apicIcr then _ else _ : M V (Option (BitVec 64))) _).2.touched
  rw [if_neg (hne apicIcr (by decide))]
  exact List.mem_cons_self

end

/-- What is touched lies in the page, but for reads of MSRs behind `0x8ff`. -/
theorem touched_inPage_iff (s : State V) (vcpus : List V) (v : V) (gtime : BitVec 64) (req : Request) :
    (∀ off ∈ touchedBy s vcpus v gtime req, off.toNat < 4096 ∧ off.toNat + 4 ≤ 4096) ↔
      ¬ ((s.lapic v).x2apicMode = true ∧ ∃ msr, req = .msrRead msr ∧ 0x900 ≤ msr.toNat ∧ msr.toNat ≤ 0xbff) := by
  have hstart : ({ s with touched := [] } : State V).Good := fun off hoff => absurd hoff List.not_mem_nil
  have hfold : ∀ l : List (BitVec 32), (∀ off ∈ l, off.toNat < 4096 ∧ off.toNat + 4 ≤ 4096) ↔
      ∀ off ∈ l, off.toNat + 4 ≤ 4096 :=
    fun l => forall₂_congr fun off _ => and_iff_right_of_imp fun h => by omega
  rw [hfold]
  unfold touchedBy
  cases req with
  | msrRead msr =>
    have hmsr : (Request.msrRead msr).routed (s.lapic v) = true ↔ 0x800 ≤ msr.toNat ∧ msr.toNat ≤ 0xbff := by
      unfold Request.routed
      rw [Bool.and_eq_true_iff, decide_eq_true_iff, decide_eq_true_iff]
      rfl
    by_cases hrouted : (Request.msrRead msr).routed (s.lapic v) = true
    · rw [if_pos hrouted]
      rcases hmsr.mp hrouted with ⟨hlow, hhigh⟩
      have hoffset := toNat_msrOffset hlow hhigh
      rcases Nat.lt_or_ge msr.toNat 0x900 with hin | hout
      · refine iff_of_true ?_ ?_
        · have hwithin : Within (x2apicMsrRead v gtime msr) := within_x2apicMsrRead v gtime (by omega)
          exact Within.bind hwithin (fun _ => .pure _) _ hstart
        · rintro ⟨-, msr', heq, hge, -⟩
          cases heq
          omega
      · cases hmode : (s.lapic v).x2apicMode with
        | true =>
          refine iff_of_false ?_ fun h => h ⟨rfl, msr, rfl, hout, hhigh⟩
          intro h
          have hle := h _ (mem_touched_msrRead (s := { s with touched := [] }) hmode (by omega))
          omega
        | false =>
          refine iff_of_true ?_ fun h => Bool.false_ne_true h.1
          have hread : x2apicMsrRead v gtime msr { s with touched := [] } = (none, { s with touched := [] }) := by
            show (if !(s.lapic v).x2apicMode then _ else _ : M V (Option (BitVec 64))) _ = _
            rw [hmode]
            rfl
          show State.Good (x2apicMsrRead v gtime msr { s with touched := [] }).2
          rw [hread]
          exact hstart
    · rw [if_neg hrouted]
      refine iff_of_true (fun off hoff => absurd hoff List.not_mem_nil) ?_
      rintro ⟨-, msr', heq, hge, hle⟩
      cases heq
      exact hrouted (hmsr.mpr ⟨by omega, hle⟩)
  | msrWrite msr val =>
    refine iff_of_true ?_ fun h => ?_
    · split
      · exact Within.bind (within_x2apicMsrWrite vcpus v gtime msr val) (fun _ => .pure _) _ hstart
      · exact fun off hoff => absurd hoff List.not_mem_nil
    · rcases h with ⟨-, _, heq, -⟩
      cases heq
  | read address len =>
    refine iff_of_true ?_ fun h => ?_
    · split
      · exact Within.bind within_vlapicRead (fun _ => .pure _) _ hstart
      · exact fun off hoff => absurd hoff List.not_mem_nil
    · rcases h with ⟨-, _, heq, -⟩
      cases heq
  | write address len val =>
    refine iff_of_true ?_ fun h => ?_
    · split
      · rename_i hrouted
        exact good_vlapicWrite vcpus hstart hrouted
      · exact fun off hoff => absurd hoff List.not_mem_nil
    · rcases h with ⟨-, _, heq, -⟩
      cases heq

/-- A vCPU in x2APIC mode. -/
private def x2apicVcpu : State (Fin 1) where
  lapic _ := ⟨fun _ => 0, 0xfee00c00, false, false, 2, 0⟩
  initialised _ := true
  nmiPending _ := false
  sipiTarget _ := none
  roundRobinPrev := 0
  crashed := false
  touched := []

/-- MSR `0x900` reads the first word behind the page. -/
theorem touched_msr900 :
    touchedBy x2apicVcpu [0] 0 0 (.msrRead 0x900) = [4096] ∧
      ¬ ∀ off ∈ touchedBy x2apicVcpu [0] 0 0 (.msrRead 0x900), off.toNat < 4096 ∧ off.toNat + 4 ≤ 4096 := by
  have htouched : touchedBy x2apicVcpu [0] 0 0 (.msrRead 0x900) = [4096] := by decide +kernel
  refine ⟨htouched, fun h => ?_⟩
  have hlt := (h 4096 (by rw [htouched]; exact List.mem_singleton_self _)).1
  exact absurd hlt (by decide)

end Hvm.Vlapic
