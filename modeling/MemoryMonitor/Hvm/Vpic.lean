import Mathlib
import MemoryMonitor.Lib.Runs

/-!
# The virtual interrupt controllers

The pair of 8259 controllers of an HVM domain (`xen/arch/x86/hvm/vpic.c`). The output of the
slave is input 2 of the master. `vpic_update_int_output` brings the output of a chip, and with it
that input, up to date after every change, unless the change is to an input that is masked.
`vpic_intack` relies on the outputs: a chip whose output is high has an interrupt to acknowledge.

`hvm_dpci_eoi`, `pt_may_unmask_irq` and `vcpu_kick`, which are called on the way, do not touch the
chips.
-/

namespace Hvm.Vpic

/-- `is_master`. -/
inductive Chip where
  | master | slave
  deriving DecidableEq

/-- `hvm_hw_vpic`. -/
structure Pic where
  irr : BitVec 8
  imr : BitVec 8
  isr : BitVec 8
  irqBase : BitVec 8
  /-- `init_state`: the next word of the initialisation, and which words it has. -/
  initState : Nat
  priorityAdd : Nat
  readselIsr : Bool
  poll : Bool
  autoEoi : Bool
  rotateOnAutoEoi : Bool
  specialFullyNestedMode : Bool
  specialMaskMode : Bool
  elcr : BitVec 8
  intOutput : Bool

/-- `1 << irq`. -/
def line (irq : Nat) : BitVec 8 := BitVec.twoPow 8 irq

/-! ## The highest priority -/

/-- `VPIC_PRIO_NONE`. -/
def prioNone : Nat := 8

/-- `vpic_get_priority`: `ror`, then `bsf`. -/
def getPriority (priorityAdd : Nat) (mask : BitVec 8) : Nat :=
  if mask = 0 then prioNone
  else ((List.range 8).find? fun k => (mask.rotateRight priorityAdd).getLsbD k).getD prioNone

namespace Pic

/-- The lines that are requested and not masked. -/
def requests (p : Pic) : BitVec 8 := p.irr &&& ~~~p.imr

/-- The lines that are in service, as far as they count for a request of `irq`. -/
def inService (p : Pic) (chip : Chip) (irq : Nat) : BitVec 8 :=
  let mask := p.isr
  let mask := if p.specialFullyNestedMode ∧ chip = .master ∧ irq = 2 then mask &&& ~~~line 2 else mask
  if p.specialMaskMode then mask &&& ~~~p.imr else mask

/-- `vpic_get_highest_priority_irq`. -/
def highestPriorityIrq (p : Pic) (chip : Chip) : Option Nat :=
  let priority := getPriority p.priorityAdd p.requests
  if priority = prioNone then none
  else
    let irq := (priority + p.priorityAdd) % 8
    if priority < getPriority p.priorityAdd (p.inService chip irq) then some irq else none

/-- The change that `__vpic_intack` makes before it updates the output. -/
def acked (p : Pic) (irq : Nat) : Pic :=
  let p := if p.elcr.getLsbD irq then p else { p with irr := p.irr &&& ~~~line irq }
  if !p.autoEoi then { p with isr := p.isr ||| line irq }
  else if p.rotateOnAutoEoi then { p with priorityAdd := (irq + 1) % 8 }
  else p

/-- The interrupt that an EOI without one ends. -/
def eoiIrq (p : Pic) : Option Nat :=
  let mask := if p.specialMaskMode then p.isr &&& ~~~p.imr else p.isr
  let priority := getPriority p.priorityAdd mask
  if priority = prioNone then none else some ((priority + p.priorityAdd) % 8)

/-- ICW1. -/
def icw1 (p : Pic) (val : BitVec 8) : Pic :=
  let p := { p with
    irr := p.irr &&& p.elcr, imr := 0, isr := 0, priorityAdd := 0, rotateOnAutoEoi := false
    specialMaskMode := false, readselIsr := false, poll := false
    initState := val.toNat % 4 * 4 + 1 }
  if val.getLsbD 0 then p else { p with autoEoi := false, specialFullyNestedMode := false }

/-- OCW2. -/
def ocw2 (p : Pic) (val : BitVec 8) : Pic :=
  match val.toNat / 32 with
  | 0 => { p with rotateOnAutoEoi := false }
  | 4 => { p with rotateOnAutoEoi := true }
  | 1 =>
      match p.eoiIrq with
      | none => p
      | some irq => { p with isr := p.isr &&& ~~~line irq }
  | 5 =>
      match p.eoiIrq with
      | none => p
      | some irq => { p with isr := p.isr &&& ~~~line irq, priorityAdd := (irq + 1) % 8 }
  | 3 => { p with isr := p.isr &&& ~~~line (val.toNat % 8) }
  | 7 =>
      { p with isr := p.isr &&& ~~~line (val.toNat % 8), priorityAdd := (val.toNat % 8 + 1) % 8 }
  | 6 => { p with priorityAdd := (val.toNat + 1) % 8 }
  | _ => p

/-- OCW3. -/
def ocw3 (p : Pic) (val : BitVec 8) : Pic :=
  let p := if val.getLsbD 2 then { p with poll := true } else p
  let p := if val.getLsbD 1 then { p with readselIsr := val.getLsbD 0 } else p
  if val.getLsbD 6 then { p with specialMaskMode := val.getLsbD 5 } else p

/-- ICW3, or what takes its place. -/
def icw3 (p : Pic) : Pic :=
  let next := (p.initState + 1) % 16
  { p with initState := if next / 4 % 2 = 0 then 0 else next }

/-- A write to the odd port: OCW1, or the next word of an initialisation. -/
def writeData (p : Pic) (val : BitVec 8) : Pic :=
  match p.initState % 4 with
  | 0 => { p with imr := val }
  | 1 =>
      let p := { p with irqBase := val &&& 0xf8, initState := (p.initState + 1) % 16 }
      if p.initState / 8 % 2 = 0 then p else p.icw3
  | 2 => p.icw3
  | _ =>
      { p with specialFullyNestedMode := val.getLsbD 4, autoEoi := val.getLsbD 1, initState := 0 }

/-- What `vpic_ioport_write` does before it updates the output; `odd` is bit 0 of the port. -/
def write (p : Pic) (odd : Bool) (val : BitVec 8) : Pic :=
  if odd then p.writeData val
  else if val.getLsbD 4 then p.icw1 val
  else if val.getLsbD 3 then p.ocw3 val
  else p.ocw2 val

end Pic

/-! ## The two chips -/

/-- The two chips, and whether a `BUG_ON` has been reached. -/
structure Pair where
  master : Pic
  slave : Pic
  bug : Bool

namespace Pair

def pic (v : Pair) : Chip → Pic
  | .master => v.master
  | .slave => v.slave

def set (v : Pair) (p : Pic) : Chip → Pair
  | .master => { v with master := p }
  | .slave => { v with slave := p }

/-- `vpic_update_int_output` for the master. -/
def updateMaster (v : Pair) : Pair :=
  if v.master.intOutput = (v.master.highestPriorityIrq .master).isSome then v
  else v.set { v.master with intOutput := !v.master.intOutput } .master

/-- `vpic_update_int_output` for the slave. -/
def updateSlave (v : Pair) : Pair :=
  if v.slave.intOutput = (v.slave.highestPriorityIrq .slave).isSome then v
  else
    let v := v.set { v.slave with intOutput := !v.slave.intOutput } .slave
    if v.slave.intOutput then
      (v.set { v.master with irr := v.master.irr ||| line 2 } .master).updateMaster
    else (v.set { v.master with irr := v.master.irr &&& ~~~line 2 } .master).updateMaster

def updateIntOutput (v : Pair) : Chip → Pair
  | .master => v.updateMaster
  | .slave => v.updateSlave

/-- `__vpic_intack`. -/
def intackOne (v : Pair) (chip : Chip) (irq : Nat) : Pair :=
  (v.set ((v.pic chip).acked irq) chip).updateIntOutput chip

/-- `vpic_intack`. -/
def intack (v : Pair) (chip : Chip) : Pair × Option Nat :=
  if !(v.pic chip).intOutput then (v, none)
  else
    match (v.pic chip).highestPriorityIrq chip with
    | none => ({ v with bug := true }, none)
    | some irq =>
        let v := v.intackOne chip irq
        if irq = 2 ∧ chip = .master then
          match v.slave.highestPriorityIrq .slave with
          | none => ({ v with bug := true }, none)
          | some irq => (v.intackOne .slave irq, some (irq + 8))
        else (v, some irq)

/-- `vpic_ioport_write`. -/
def ioportWrite (v : Pair) (chip : Chip) (odd : Bool) (val : BitVec 8) : Pair :=
  (v.set ((v.pic chip).write odd val) chip).updateIntOutput chip

/-- `vpic_ioport_read`, and what is read. -/
def ioportRead (v : Pair) (chip : Chip) (odd : Bool) : Pair × BitVec 8 :=
  let p := v.pic chip
  if p.poll then
    let r := (v.set { p with poll := false } chip).intack chip
    (r.1, match r.2 with | none => 0xff | some irq => BitVec.ofNat 8 irq)
  else if odd then (v, p.imr)
  else (v, if p.readselIsr then p.isr else p.irr)

/-- `vpic_elcr_mask`. -/
def elcrMask : Chip → BitVec 8
  | .master => 0xf8
  | .slave => 0xde

/-- `vpic_intercept_elcr_io` for a write. -/
def elcrWrite (v : Pair) (chip : Chip) (val : BitVec 8) : Pair :=
  let data := val &&& elcrMask chip
  v.set { v.pic chip with elcr := if chip = .master then data ||| line 2 else data } chip

/-- `vpic_intercept_elcr_io` for a read. -/
def elcrRead (v : Pair) (chip : Chip) : BitVec 8 := (v.pic chip).elcr &&& elcrMask chip

/-- The chip that has the input `irq`. -/
def chipOf (irq : Fin 16) : Chip := if irq.val < 8 then .master else .slave

local instance neZero_lines : NeZero 16 := ⟨by decide⟩

/-- `vpic_irq_positive_edge`. -/
def positiveEdge (v : Pair) (irq : Fin 16) : Pair :=
  if irq = 2 then v
  else
    let p := v.pic (chipOf irq)
    let w := v.set { p with irr := p.irr ||| line (irq % 8) } (chipOf irq)
    if p.imr.getLsbD (irq % 8) then w else w.updateIntOutput (chipOf irq)

/-- `vpic_irq_negative_edge`. -/
def negativeEdge (v : Pair) (irq : Fin 16) : Pair :=
  if irq = 2 then v
  else
    let p := v.pic (chipOf irq)
    let w := v.set { p with irr := p.irr &&& ~~~line (irq % 8) } (chipOf irq)
    if p.imr.getLsbD (irq % 8) then w else w.updateIntOutput (chipOf irq)

/-- `vpic_ack_pending_irq`, and the vector; `accepts` is `vlapic_accept_pic_intr`. -/
def ackPendingIrq (v : Pair) (accepts : Bool) : Pair × Option Nat :=
  if !accepts || !v.master.intOutput then (v, none)
  else
    let r := v.intack .master
    (r.1, r.2.map fun irq => (r.1.pic (if irq < 8 then .master else .slave)).irqBase.toNat + irq % 8)

end Pair

/-- The accesses of the guest, the inputs, and the acknowledgements of the processor. -/
inductive Step where
  | ioportWrite (chip : Chip) (odd : Bool) (val : BitVec 8)
  | ioportRead (chip : Chip) (odd : Bool)
  | elcrWrite (chip : Chip) (val : BitVec 8)
  | elcrRead (chip : Chip)
  | positiveEdge (irq : Fin 16)
  | negativeEdge (irq : Fin 16)
  | ackPendingIrq (accepts : Bool)

def act (step : Step) (v : Pair) : Pair :=
  match step with
  | .ioportWrite chip odd val => v.ioportWrite chip odd val
  | .ioportRead chip odd => (v.ioportRead chip odd).1
  | .elcrWrite chip val => v.elcrWrite chip val
  | .elcrRead _ => v
  | .positiveEdge irq => v.positiveEdge irq
  | .negativeEdge irq => v.negativeEdge irq
  | .ackPendingIrq accepts => (v.ackPendingIrq accepts).1

/-- A chip of which everything is zero. -/
def Pic.zero : Pic where
  irr := 0
  imr := 0
  isr := 0
  irqBase := 0
  initState := 0
  priorityAdd := 0
  readselIsr := false
  poll := false
  autoEoi := false
  rotateOnAutoEoi := false
  specialFullyNestedMode := false
  specialMaskMode := false
  elcr := 0
  intOutput := false

/-- `vpic_reset`. -/
def reset : Pair where
  master := { Pic.zero with elcr := line 2 }
  slave := .zero
  bug := false

/-! ## The property -/

/-- The outputs are up to date, and so is the input that connects the chips. -/
structure Synchronised (v : Pair) : Prop where
  output : ∀ chip, (v.pic chip).intOutput = ((v.pic chip).highestPriorityIrq chip).isSome
  cascade : v.master.irr.getLsbD 2 = v.slave.intOutput
  level : v.master.elcr.getLsbD 2 = true
  add : ∀ chip, (v.pic chip).priorityAdd < 8

/-- The place of a line in the order of priorities; 0 is the highest. -/
def Pic.rank (p : Pic) (irq : Nat) : Nat := (irq + 8 - p.priorityAdd) % 8

/-- The line is requested, is not masked, and comes before every line in service. In special
fully nested mode the master does not count the slave's line against itself, and in special
mask mode masked lines do not count. -/
structure Justified (p : Pic) (chip : Chip) (irq : Nat) : Prop where
  lt : irq < 8
  requested : p.irr.getLsbD irq = true
  unmasked : p.imr.getLsbD irq = false
  first : ∀ j < 8, p.isr.getLsbD j = true →
    ¬(p.specialFullyNestedMode = true ∧ chip = .master ∧ irq = 2 ∧ j = 2) →
    ¬(p.specialMaskMode = true ∧ p.imr.getLsbD j = true) → p.rank irq < p.rank j

/-- What `vpic_intack` returns is justified. A line of the slave is acknowledged on both chips,
unless the slave itself is asked. -/
def Acknowledges (v : Pair) (chip : Chip) : Option Nat → Prop
  | none => True
  | some irq =>
      if chip = .master ∧ 8 ≤ irq then
        Justified v.master .master 2 ∧ Justified v.slave .slave (irq - 8)
      else Justified (v.pic chip) chip irq

/-- Every interrupt that the step acknowledges is justified. -/
def AcksJustified (step : Step) (v : Pair) : Prop :=
  match step with
  | .ioportRead chip _ =>
      (v.pic chip).poll = true →
        Acknowledges v chip ((v.set { v.pic chip with poll := false } chip).intack chip).2
  | .ackPendingIrq accepts =>
      accepts = true → v.master.intOutput = true → Acknowledges v .master (v.intack .master).2
  | _ => True

/-! ## Priorities -/

theorem line_bit {i : Nat} (hi : i < 8) (j : Nat) : (line i).getLsbD j = decide (i = j) := by
  unfold line
  rw [BitVec.getLsbD_twoPow, decide_eq_true hi, Bool.true_and]

theorem rotateRight_bit (mask : BitVec 8) {add k : Nat} (hadd : add < 8) (hk : k < 8) :
    (mask.rotateRight add).getLsbD k = mask.getLsbD ((k + add) % 8) := by
  rw [BitVec.getLsbD_rotateRight, Nat.mod_eq_of_lt hadd]
  cases h : decide (k < 8 - add) with
  | true =>
    have hlt := of_decide_eq_true h
    rw [cond_true]
    congr 1
    omega
  | false =>
    have hge := of_decide_eq_false h
    rw [cond_false, decide_eq_true hk, Bool.true_and]
    congr 1
    omega

theorem getPriority_le (add : Nat) (mask : BitVec 8) : getPriority add mask ≤ prioNone := by
  unfold getPriority
  split
  · exact Nat.le_refl _
  · cases h : (List.range 8).find? fun k => (mask.rotateRight add).getLsbD k with
    | none => exact Nat.le_refl _
    | some k =>
      have hk := List.mem_range.1 (List.find?_range_eq_some.1 h).2.1
      exact Nat.le_of_lt hk

theorem getPriority_bit {add : Nat} {mask : BitVec 8} (hadd : add < 8) (h : getPriority add mask ≠ prioNone) :
    mask.getLsbD ((getPriority add mask + add) % 8) = true := by
  unfold getPriority at h ⊢
  split at h
  · exact absurd rfl h
  · rename_i h0
    rw [if_neg h0]
    cases hf : (List.range 8).find? fun k => (mask.rotateRight add).getLsbD k with
    | none =>
      rw [hf] at h
      exact absurd rfl h
    | some k =>
      rcases List.find?_range_eq_some.1 hf with ⟨hbit, hk, -⟩
      rw [rotateRight_bit mask hadd (List.mem_range.1 hk)] at hbit
      exact hbit

/-- No line of the mask has a higher priority than the one that is found. -/
theorem getPriority_le_rank {add j : Nat} {mask : BitVec 8} (hadd : add < 8) (hj : j < 8)
    (hbit : mask.getLsbD j = true) : getPriority add mask ≤ (j + 8 - add) % 8 := by
  have hrot : (mask.rotateRight add).getLsbD ((j + 8 - add) % 8) = true := by
    rw [rotateRight_bit mask hadd (Nat.mod_lt _ (by decide))]
    have hback : ((j + 8 - add) % 8 + add) % 8 = j := by omega
    rw [hback]
    exact hbit
  have hne : mask ≠ 0 := by
    intro h0
    rw [h0] at hbit
    exact absurd hbit (by simp)
  unfold getPriority
  rw [if_neg hne]
  cases hf : (List.range 8).find? fun k => (mask.rotateRight add).getLsbD k with
  | none =>
    have := List.find?_range_eq_none.1 hf ((j + 8 - add) % 8) (Nat.mod_lt _ (by decide))
    rw [hrot] at this
    exact absurd this (by decide)
  | some k =>
    have hmin := (List.find?_range_eq_some.1 hf).2.2
    by_contra hlt
    have := hmin ((j + 8 - add) % 8) (Nat.lt_of_not_le hlt)
    rw [hrot] at this
    exact absurd this (by decide)

/-- The interrupt that is found is justified. -/
theorem Pic.highestPriorityIrq_justified {p : Pic} {chip : Chip} {irq : Nat} (hadd : p.priorityAdd < 8)
    (h : p.highestPriorityIrq chip = some irq) : Justified p chip irq := by
  unfold Pic.highestPriorityIrq at h
  dsimp only at h
  split at h
  · exact absurd h.symm (Option.some_ne_none irq)
  · rename_i hnone
    have hreq := getPriority_bit hadd hnone
    have hle := getPriority_le p.priorityAdd p.requests
    split at h
    · rename_i hlt
      injection h with h
      rw [h] at hlt hreq
      have hirq : irq < 8 := by
        rw [← h]
        exact Nat.mod_lt _ (by decide)
      unfold Pic.requests at hreq
      rw [BitVec.getLsbD_and, BitVec.getLsbD_not, Bool.and_eq_true, Bool.and_eq_true, Bool.not_eq_true'] at hreq
      refine ⟨hirq, hreq.1, hreq.2.2, fun j hj hisr hnested hmasked => ?_⟩
      -- the line `j` counts, so the priority that was compared is at least as high as its own
      have hcounts : (p.inService chip irq).getLsbD j = true := by
        have hline := line_bit (i := 2) (by decide) j
        unfold Pic.inService
        dsimp only
        have hfirst : (if p.specialFullyNestedMode = true ∧ chip = .master ∧ irq = 2 then
            p.isr &&& ~~~line 2 else p.isr).getLsbD j = true := by
          split
          · rename_i hmode
            have hj2 : (2 : Nat) ≠ j := fun h2 => hnested ⟨hmode.1, hmode.2.1, hmode.2.2, h2.symm⟩
            rw [BitVec.getLsbD_and, BitVec.getLsbD_not, hline, decide_eq_false hj2, hisr, decide_eq_true hj]
            rfl
          · exact hisr
        split
        · rename_i hmode
          have himr : p.imr.getLsbD j = false := Bool.eq_false_iff.2 fun hm => hmasked ⟨hmode, hm⟩
          rw [BitVec.getLsbD_and, BitVec.getLsbD_not, hfirst, himr, decide_eq_true hj]
          rfl
        · exact hfirst
      have hrank := getPriority_le_rank hadd hj hcounts
      have hself : p.rank irq = getPriority p.priorityAdd p.requests := by
        unfold Pic.rank
        unfold prioNone at hle hnone
        omega
      rw [hself]
      exact Nat.lt_of_lt_of_le hlt hrank
    · exact absurd h.symm (Option.some_ne_none irq)

/-! ## Bringing the outputs up to date -/

namespace Pair

variable {v : Pair}

/-- The output of a chip is up to date. -/
def UpToDate (v : Pair) (chip : Chip) : Prop :=
  (v.pic chip).intOutput = ((v.pic chip).highestPriorityIrq chip).isSome

/-- What does not depend on the outputs being up to date. -/
structure Wired (v : Pair) : Prop where
  cascade : v.master.irr.getLsbD 2 = v.slave.intOutput
  level : v.master.elcr.getLsbD 2 = true
  add : ∀ chip, (v.pic chip).priorityAdd < 8

theorem Wired.synchronised (h : v.Wired) (hm : v.UpToDate .master) (hs : v.UpToDate .slave) :
    Synchronised v := by
  refine ⟨fun chip => ?_, h.cascade, h.level, h.add⟩
  cases chip with
  | master => exact hm
  | slave => exact hs

theorem updateMaster_spec (h : v.Wired) (hs : v.UpToDate .slave) :
    Synchronised v.updateMaster ∧ (v.updateMaster.slave, v.updateMaster.bug) = (v.slave, v.bug) := by
  unfold updateMaster
  split
  · rename_i hm
    exact ⟨h.synchronised hm hs, rfl⟩
  · rename_i hm
    have hwired : (v.set { v.master with intOutput := !v.master.intOutput } .master).Wired := by
      refine ⟨h.cascade, h.level, fun chip => ?_⟩
      cases chip with
      | master => exact h.add .master
      | slave => exact h.add .slave
    exact ⟨hwired.synchronised (Bool.not_eq.2 hm) hs, rfl⟩

theorem updateSlave_spec (h : v.Wired) (hm : v.UpToDate .master) :
    Synchronised v.updateSlave ∧ v.updateSlave.bug = v.bug := by
  unfold updateSlave
  split
  · rename_i hs
    exact ⟨h.synchronised hm hs, rfl⟩
  · rename_i hs
    have hbit : (line 2).getLsbD 2 = true := by decide
    -- the input of the master follows the output of the slave
    have hwired : ∀ irr : BitVec 8, irr.getLsbD 2 = (!v.slave.intOutput) →
        ((v.set { v.slave with intOutput := !v.slave.intOutput } .slave).set { v.master with irr := irr }
          .master).Wired := by
      intro irr hirr
      refine ⟨hirr, h.level, fun chip => ?_⟩
      cases chip with
      | master => exact h.add .master
      | slave => exact h.add .slave
    have hdate : ∀ irr : BitVec 8,
        ((v.set { v.slave with intOutput := !v.slave.intOutput } .slave).set { v.master with irr := irr }
          .master).UpToDate .slave := fun irr => Bool.not_eq.2 hs
    dsimp only
    split
    · rename_i hout
      have hirr : (v.master.irr ||| line 2).getLsbD 2 = (!v.slave.intOutput) := by
        rw [BitVec.getLsbD_or, hbit, Bool.or_true]
        exact hout.symm
      rcases updateMaster_spec (hwired _ hirr) (hdate _) with ⟨hsync, hsame⟩
      exact ⟨hsync, congrArg Prod.snd hsame⟩
    · rename_i hout
      have hirr : (v.master.irr &&& ~~~line 2).getLsbD 2 = (!v.slave.intOutput) := by
        rw [BitVec.getLsbD_and, BitVec.getLsbD_not, hbit, Bool.not_true, Bool.and_false, Bool.and_false]
        exact (Bool.eq_false_iff.2 hout).symm
      rcases updateMaster_spec (hwired _ hirr) (hdate _) with ⟨hsync, hsame⟩
      exact ⟨hsync, congrArg Prod.snd hsame⟩

end Pair

/-- A change to a chip that leaves alone what connects it to the other. -/
structure Pic.Keeps (p p' : Pic) (chip : Chip) : Prop where
  intOutput : p'.intOutput = p.intOutput
  irr : chip = .master → p'.irr.getLsbD 2 = p.irr.getLsbD 2
  elcr : chip = .master → p'.elcr.getLsbD 2 = true
  add : p'.priorityAdd < 8

namespace Synchronised

variable {v : Pair} {p : Pic} {chip : Chip}

theorem wired (h : Synchronised v) (hp : (v.pic chip).Keeps p chip) : (v.set p chip).Wired := by
  cases chip with
  | master =>
    refine ⟨(hp.irr rfl).trans h.cascade, hp.elcr rfl, fun c => ?_⟩
    cases c with
    | master => exact hp.add
    | slave => exact h.add .slave
  | slave =>
    refine ⟨h.cascade.trans hp.intOutput.symm, h.level, fun c => ?_⟩
    cases c with
    | master => exact h.add .master
    | slave => exact hp.add

/-- After such a change the chips are brought up to date. -/
theorem update (h : Synchronised v) (hp : (v.pic chip).Keeps p chip) :
    Synchronised ((v.set p chip).updateIntOutput chip) ∧ ((v.set p chip).updateIntOutput chip).bug = v.bug := by
  have hw := h.wired hp
  cases chip with
  | master =>
    rcases Pair.updateMaster_spec hw (h.output .slave) with ⟨hsync, hsame⟩
    exact ⟨hsync, congrArg Prod.snd hsame⟩
  | slave => exact Pair.updateSlave_spec hw (h.output .master)

/-- A change that does not change the interrupt to acknowledge needs no update. -/
theorem unchanged (h : Synchronised v) (hp : (v.pic chip).Keeps p chip)
    (hirq : p.highestPriorityIrq chip = (v.pic chip).highestPriorityIrq chip) : Synchronised (v.set p chip) := by
  have hself : p.intOutput = (p.highestPriorityIrq chip).isSome := by
    rw [hp.intOutput, hirq]
    exact h.output chip
  cases chip with
  | master => exact (h.wired hp).synchronised hself (h.output .slave)
  | slave => exact (h.wired hp).synchronised (h.output .master) hself

end Synchronised

/-! ## What the guest writes -/

section Writes

variable {p : Pic} {chip : Chip}

/-- The bit that connects the chips is level triggered, and the priorities start from a line. -/
def Pic.Sane (p : Pic) (chip : Chip) : Prop :=
  (chip = .master → p.elcr.getLsbD 2 = true) ∧ p.priorityAdd < 8

theorem Synchronised.sane {v : Pair} (h : Synchronised v) (chip : Chip) : (v.pic chip).Sane chip := by
  refine ⟨fun hm => ?_, h.add chip⟩
  rw [hm]
  exact h.level

theorem Pic.icw1_keeps (h : p.Sane chip) (val : BitVec 8) : p.Keeps (p.icw1 val) chip := by
  have hirr : chip = .master → (p.irr &&& p.elcr).getLsbD 2 = p.irr.getLsbD 2 := by
    intro hm
    rw [BitVec.getLsbD_and, h.1 hm, Bool.and_true]
  unfold Pic.icw1
  dsimp only
  split
  · exact ⟨rfl, hirr, h.1, Nat.zero_lt_succ 7⟩
  · exact ⟨rfl, hirr, h.1, Nat.zero_lt_succ 7⟩

theorem Pic.ocw2_keeps (h : p.Sane chip) (val : BitVec 8) : p.Keeps (p.ocw2 val) chip := by
  have hmod : ∀ n, n % 8 < 8 := fun n => Nat.mod_lt n (by decide)
  unfold Pic.ocw2
  split
  · exact ⟨rfl, fun _ => rfl, h.1, h.2⟩
  · exact ⟨rfl, fun _ => rfl, h.1, h.2⟩
  · split
    · exact ⟨rfl, fun _ => rfl, h.1, h.2⟩
    · exact ⟨rfl, fun _ => rfl, h.1, h.2⟩
  · split
    · exact ⟨rfl, fun _ => rfl, h.1, h.2⟩
    · exact ⟨rfl, fun _ => rfl, h.1, hmod _⟩
  · exact ⟨rfl, fun _ => rfl, h.1, h.2⟩
  · exact ⟨rfl, fun _ => rfl, h.1, hmod _⟩
  · exact ⟨rfl, fun _ => rfl, h.1, hmod _⟩
  · exact ⟨rfl, fun _ => rfl, h.1, h.2⟩

theorem Pic.ocw3_keeps (h : p.Sane chip) (val : BitVec 8) : p.Keeps (p.ocw3 val) chip := by
  unfold Pic.ocw3
  dsimp only
  split <;> split <;> split <;> exact ⟨rfl, fun _ => rfl, h.1, h.2⟩

theorem Pic.writeData_keeps (h : p.Sane chip) (val : BitVec 8) : p.Keeps (p.writeData val) chip := by
  unfold Pic.writeData
  split
  · exact ⟨rfl, fun _ => rfl, h.1, h.2⟩
  · dsimp only
    split <;> exact ⟨rfl, fun _ => rfl, h.1, h.2⟩
  · exact ⟨rfl, fun _ => rfl, h.1, h.2⟩
  · exact ⟨rfl, fun _ => rfl, h.1, h.2⟩

theorem Pic.write_keeps (h : p.Sane chip) (odd : Bool) (val : BitVec 8) : p.Keeps (p.write odd val) chip := by
  unfold Pic.write
  split
  · exact writeData_keeps h val
  · split
    · exact icw1_keeps h val
    · split
      · exact ocw3_keeps h val
      · exact ocw2_keeps h val

end Writes

theorem Synchronised.elcrWrite {v : Pair} (h : Synchronised v) (chip : Chip) (val : BitVec 8) :
    Synchronised (v.elcrWrite chip val) := by
  have hbit : (line 2).getLsbD 2 = true := by decide
  refine h.unchanged ⟨rfl, fun _ => rfl, fun hm => ?_, h.add chip⟩ rfl
  dsimp only
  rw [if_pos hm, BitVec.getLsbD_or, hbit, Bool.or_true]

/-! ## The inputs -/

/-- A change to a request that is masked changes nothing. -/
theorem Pic.highestPriorityIrq_masked {p : Pic} {irr : BitVec 8} {i : Nat} (himr : p.imr.getLsbD i = true)
    (hirr : ∀ j, j ≠ i → irr.getLsbD j = p.irr.getLsbD j) (chip : Chip) :
    ({ p with irr := irr } : Pic).highestPriorityIrq chip = p.highestPriorityIrq chip := by
  have hreq : irr &&& ~~~p.imr = p.irr &&& ~~~p.imr := by
    refine BitVec.eq_of_getLsbD_eq fun j hj => ?_
    rw [BitVec.getLsbD_and, BitVec.getLsbD_and, BitVec.getLsbD_not]
    by_cases hji : j = i
    · rw [hji, himr, Bool.not_true, Bool.and_false, Bool.and_false, Bool.and_false]
    · rw [hirr j hji]
  have hreq' : ({ p with irr := irr } : Pic).requests = p.requests := hreq
  unfold Pic.highestPriorityIrq
  rw [hreq']
  rfl

theorem Synchronised.setInput {v : Pair} {chip : Chip} {irr : BitVec 8} {i : Nat} (h : Synchronised v)
    (hi : chip = .master → i ≠ 2) (hirr : ∀ j, j ≠ i → irr.getLsbD j = (v.pic chip).irr.getLsbD j) :
    let w := v.set { v.pic chip with irr := irr } chip
    Synchronised (if (v.pic chip).imr.getLsbD i then w else w.updateIntOutput chip) ∧
      (if (v.pic chip).imr.getLsbD i then w else w.updateIntOutput chip).bug = v.bug := by
  have hkeeps : (v.pic chip).Keeps { v.pic chip with irr := irr } chip :=
    ⟨rfl, fun hm => hirr 2 fun h2 => hi hm h2.symm, (h.sane chip).1, h.add chip⟩
  dsimp only
  split
  · rename_i himr
    refine ⟨h.unchanged hkeeps (Pic.highestPriorityIrq_masked himr hirr chip), ?_⟩
    cases chip <;> rfl
  · exact h.update hkeeps

/-- Which line of which chip an input is. -/
theorem chipOf_ne {irq : Fin 16} (h : irq ≠ 2) : Pair.chipOf irq = .master → irq.val % 8 ≠ 2 := by
  intro hm h2
  unfold Pair.chipOf at hm
  split at hm
  · rename_i hlt
    exact h (Fin.ext (by show irq.val = 2; omega))
  · exact Chip.noConfusion hm

theorem Synchronised.positiveEdge {v : Pair} (h : Synchronised v) (irq : Fin 16) :
    Synchronised (v.positiveEdge irq) ∧ (v.positiveEdge irq).bug = v.bug := by
  unfold Pair.positiveEdge
  split
  · exact ⟨h, rfl⟩
  · rename_i h2
    refine h.setInput (chipOf_ne h2) fun j hj => ?_
    rw [BitVec.getLsbD_or, line_bit (Nat.mod_lt _ (by decide)), decide_eq_false hj.symm, Bool.or_false]

theorem Synchronised.negativeEdge {v : Pair} (h : Synchronised v) (irq : Fin 16) :
    Synchronised (v.negativeEdge irq) ∧ (v.negativeEdge irq).bug = v.bug := by
  unfold Pair.negativeEdge
  split
  · exact ⟨h, rfl⟩
  · rename_i h2
    refine h.setInput (chipOf_ne h2) fun j hj => ?_
    rw [BitVec.getLsbD_and, BitVec.getLsbD_not, line_bit (Nat.mod_lt _ (by decide)), decide_eq_false hj.symm]
    by_cases hlt : j < 8
    · rw [decide_eq_true hlt]
      exact Bool.and_true _
    · rw [BitVec.getLsbD_of_ge _ j (Nat.le_of_not_lt hlt), Bool.false_and]

/-! ## Acknowledging -/

theorem Pic.acked_keeps {p : Pic} {chip : Chip} {irq : Nat} (h : p.Sane chip) (hirq : irq < 8) :
    p.Keeps (p.acked irq) chip := by
  -- the request of the other chip stays, as it is level triggered
  have hirr : chip = .master → p.elcr.getLsbD irq = false →
      (p.irr &&& ~~~line irq).getLsbD 2 = p.irr.getLsbD 2 := by
    intro hm hedge
    have hne : irq ≠ 2 := by
      intro h2
      rw [h2, h.1 hm] at hedge
      exact Bool.noConfusion hedge
    rw [BitVec.getLsbD_and, BitVec.getLsbD_not, line_bit hirq, decide_eq_false hne]
    exact Bool.and_true _
  have hmod : (irq + 1) % 8 < 8 := Nat.mod_lt _ (by decide)
  unfold Pic.acked
  dsimp only
  split
  · split
    · exact ⟨rfl, fun _ => rfl, h.1, h.2⟩
    · split
      · exact ⟨rfl, fun _ => rfl, h.1, hmod⟩
      · exact ⟨rfl, fun _ => rfl, h.1, h.2⟩
  · rename_i hedge
    have hedge' := Bool.eq_false_iff.2 hedge
    split
    · exact ⟨rfl, fun hm => hirr hm hedge', h.1, h.2⟩
    · split
      · exact ⟨rfl, fun hm => hirr hm hedge', h.1, hmod⟩
      · exact ⟨rfl, fun hm => hirr hm hedge', h.1, h.2⟩

theorem Synchronised.intackOne {v : Pair} {irq : Nat} (h : Synchronised v) (chip : Chip) (hirq : irq < 8) :
    Synchronised (v.intackOne chip irq) ∧ (v.intackOne chip irq).bug = v.bug :=
  h.update (Pic.acked_keeps (h.sane chip) hirq)

/-- Acknowledging on the master leaves the slave alone. -/
theorem intackOne_slave (v : Pair) (irq : Nat) : (v.intackOne .master irq).slave = v.slave := by
  unfold Pair.intackOne Pair.updateIntOutput Pair.updateMaster
  dsimp only
  split <;> rfl

/-- No `BUG_ON` is reached, and what is acknowledged is justified. -/
theorem Synchronised.intack {v : Pair} (h : Synchronised v) (chip : Chip) :
    Synchronised (v.intack chip).1 ∧ (v.intack chip).1.bug = v.bug ∧ Acknowledges v chip (v.intack chip).2 := by
  unfold Pair.intack
  split
  · exact ⟨h, rfl, trivial⟩
  · rename_i hout
    rw [Bool.not_eq_true', Bool.not_eq_false] at hout
    split
    · rename_i hnone
      rw [h.output chip, hnone] at hout
      exact absurd hout Bool.false_ne_true
    · rename_i irq hirq
      have hjust := Pic.highestPriorityIrq_justified (h.add chip) hirq
      rcases h.intackOne chip hjust.lt with ⟨hsync, hbug⟩
      dsimp only
      split
      · rename_i hslave
        rcases hslave with ⟨h2, hm⟩
        subst h2 hm
        -- the master's line is high, so the slave has something to acknowledge
        have hslave : (v.intackOne .master 2).slave = v.slave := intackOne_slave v 2
        have hhigh : v.slave.intOutput = true := by
          rw [← h.cascade]
          exact hjust.requested
        split
        · rename_i hnone
          rw [hslave] at hnone
          have hout' := h.output .slave
          rw [show (v.pic .slave) = v.slave from rfl, hnone, hhigh] at hout'
          exact absurd hout'.symm Bool.false_ne_true
        · rename_i irq' hirq'
          rw [hslave] at hirq'
          have hjust' := Pic.highestPriorityIrq_justified (h.add .slave) hirq'
          rcases hsync.intackOne .slave hjust'.lt with ⟨hsync', hbug'⟩
          refine ⟨hsync', hbug'.trans hbug, ?_⟩
          unfold Acknowledges
          dsimp only
          rw [if_pos ⟨rfl, Nat.le_add_left 8 irq'⟩, Nat.add_sub_cancel]
          exact ⟨hjust, hjust'⟩
      · refine ⟨hsync, hbug, ?_⟩
        unfold Acknowledges
        dsimp only
        rw [if_neg fun hge => Nat.not_le.2 hjust.lt hge.2]
        exact hjust

/-! ## The runs -/

theorem Synchronised.clearPoll {v : Pair} (h : Synchronised v) (chip : Chip) :
    Synchronised (v.set { v.pic chip with poll := false } chip) :=
  h.unchanged ⟨rfl, fun _ => rfl, (h.sane chip).1, h.add chip⟩ rfl

theorem acknowledges_clearPoll {v : Pair} {chip : Chip} {irq : Option Nat}
    (h : Acknowledges (v.set { v.pic chip with poll := false } chip) chip irq) : Acknowledges v chip irq := by
  have hjust : ∀ {p : Pic} {c : Chip} {i : Nat}, Justified { p with poll := false } c i → Justified p c i :=
    fun hj => ⟨hj.lt, hj.requested, hj.unmasked, hj.first⟩
  unfold Acknowledges at h ⊢
  cases irq with
  | none => trivial
  | some irq =>
    dsimp only at h ⊢
    split at h
    · rename_i hm
      rw [if_pos hm]
      rw [hm.1] at h
      exact ⟨hjust h.1, h.2⟩
    · rename_i hm
      rw [if_neg hm]
      cases chip with
      | master => exact hjust h
      | slave => exact hjust h

theorem Synchronised.act {v : Pair} (h : Synchronised v) (step : Step) :
    Synchronised (act step v) ∧ (act step v).bug = v.bug ∧ AcksJustified step v := by
  cases step with
  | ioportWrite chip odd val =>
    rcases h.update (Pic.write_keeps (h.sane chip) odd val) with ⟨hsync, hbug⟩
    exact ⟨hsync, hbug, trivial⟩
  | ioportRead chip odd =>
    unfold Vpic.act Pair.ioportRead AcksJustified
    dsimp only
    rcases (h.clearPoll chip).intack chip with ⟨hsync, hbug, hack⟩
    refine ⟨?_, ?_, fun _ => acknowledges_clearPoll hack⟩
    · split
      · exact hsync
      · split <;> exact h
    · split
      · refine hbug.trans ?_
        cases chip <;> rfl
      · split <;> rfl
  | elcrWrite chip val =>
    refine ⟨h.elcrWrite chip val, ?_, trivial⟩
    cases chip <;> rfl
  | elcrRead chip => exact ⟨h, rfl, trivial⟩
  | positiveEdge irq => exact ⟨(h.positiveEdge irq).1, (h.positiveEdge irq).2, trivial⟩
  | negativeEdge irq => exact ⟨(h.negativeEdge irq).1, (h.negativeEdge irq).2, trivial⟩
  | ackPendingIrq accepts =>
    rcases h.intack .master with ⟨hsync, hbug, hack⟩
    unfold Vpic.act Pair.ackPendingIrq AcksJustified
    dsimp only
    refine ⟨?_, ?_, fun _ _ => hack⟩
    · split
      · exact h
      · exact hsync
    · split
      · rfl
      · exact hbug

theorem Synchronised.reset : Synchronised reset := by
  refine ⟨fun chip => ?_, by decide, by decide, fun chip => ?_⟩
  · cases chip <;> decide
  · cases chip <;> decide

/-- In every run from `vpic_reset` the outputs are up to date, no `BUG_ON` is reached, and every
interrupt that is acknowledged was requested, not masked and first in the order of priorities. -/
theorem run_synchronised (steps : List Step) :
    Synchronised (Runs.run act steps reset) ∧ (Runs.run act steps reset).bug = false ∧
    Runs.Each act AcksJustified steps reset := by
  have hstep : ∀ step v, Synchronised v ∧ v.bug = false → Synchronised (act step v) ∧ (act step v).bug = false := by
    intro step v hv
    rcases hv.1.act step with ⟨hsync, hbug, -⟩
    exact ⟨hsync, hbug.trans hv.2⟩
  have hreset : Synchronised reset ∧ reset.bug = false := ⟨Synchronised.reset, rfl⟩
  have hrun := Runs.run_inv hstep steps hreset
  exact ⟨hrun.1, hrun.2, Runs.each_of_inv hstep (fun step v hv => (hv.1.act step).2.2) steps hreset⟩

end Hvm.Vpic
