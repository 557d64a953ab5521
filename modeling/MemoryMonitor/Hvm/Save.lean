import Mathlib
import MemoryMonitor.Lib.Tagged

/-!
# Saving the devices of a domain

`hvm_save` and `hvm_save_one` (`xen/common/hvm/save.c`) with the handlers of each type
(`xen/arch/x86/hvm`). A handler writes as many records as it thinks fit: that of the CPU state leaves
out the vCPUs that are down, and that of the PIC writes two. `hvm_save_one` lets the handler write all
its records to a buffer of its own, and takes the one it is asked for from where it would be if each
vCPU had one.

What a record holds is left open; only its length and who writes it count.
-/

namespace Hvm.Save

/-! ## Records -/

/-- Bytes are numbers with the least first. -/
def le : List (BitVec 8) → ℕ
  | [] => 0
  | b :: bs => b.toNat + 256 * le bs

/-- The `n` bytes at an offset. -/
def field (bs : List (BitVec 8)) (offset n : ℕ) : ℕ := le ((bs.drop offset).take n)

/-- `hvm_save_descriptor`: eight bytes in front of each record. -/
structure Descriptor where
  typecode : ℕ
  inst : ℕ
  length : ℕ

def descriptor (bs : List (BitVec 8)) : Descriptor := ⟨field bs 0 2, field bs 2 2, field bs 4 4⟩

/-- `HVM_FILE_MAGIC` and `HVM_FILE_VERSION`. -/
def hvmFileMagic : ℕ := 0x54381286
def hvmFileVersion : ℕ := 1

/-- The types that have a handler. -/
inductive Code where
  | cpu | pic | ioapic | lapic | lapicRegs | pciIrq | isaIrq | pciLink | pit | rtc | hpet | pmtimer | mtrr
  | viridian | cpuXsave
  deriving DecidableEq

namespace Code

/-- `HVM_SAVE_CODE`. -/
def typecode : Code → ℕ
  | cpu => 2
  | pic => 3
  | ioapic => 4
  | lapic => 5
  | lapicRegs => 6
  | pciIrq => 7
  | isaIrq => 8
  | pciLink => 9
  | pit => 10
  | rtc => 11
  | hpet => 12
  | pmtimer => 13
  | mtrr => 14
  | viridian => 15
  | cpuXsave => 16

/-- The type with a typecode. -/
def ofTypecode : ℕ → Option Code
  | 2 => some cpu
  | 3 => some pic
  | 4 => some ioapic
  | 5 => some lapic
  | 6 => some lapicRegs
  | 7 => some pciIrq
  | 8 => some isaIrq
  | 9 => some pciLink
  | 10 => some pit
  | 11 => some rtc
  | 12 => some hpet
  | 13 => some pmtimer
  | 14 => some mtrr
  | 15 => some viridian
  | 16 => some cpuXsave
  | _ => none

end Code

/-- `HVM_SAVE_CODE_MAX`. -/
def hvmSaveCodeMax : ℕ := 16

/-- `HVM_SAVE_LENGTH`, and `HVM_CPU_XSAVE_SIZE`. -/
def length (xsaveCntxtSize : ℕ) : Code → ℕ
  | .cpu => 1024
  | .pic => 8
  | .ioapic => 400
  | .lapic => 24
  | .lapicRegs => 1024
  | .pciIrq => 16
  | .isaIrq => 8
  | .pciLink => 8
  | .pit => 56
  | .rtc => 16
  | .hpet => 1048
  | .pmtimer => 8
  | .mtrr => 240
  | .viridian => 16
  | .cpuXsave => 3 * 8 + xsaveCntxtSize

structure Vcpu where
  id : ℕ
  /-- `_VPF_down`. -/
  down : Bool

/-- A domain and the machine it is on, with what each handler writes for an instance. -/
structure Domain where
  isDying : Bool
  /-- `is_viridian_domain`. -/
  viridian : Bool
  /-- The order of `for_each_vcpu`: that of their ids. -/
  vcpus : List Vcpu
  sorted : (vcpus.map Vcpu.id).Pairwise (· < ·)
  small : ∀ v ∈ vcpus, v.id < 2 ^ 16
  cpuHasXsave : Bool
  /-- `xsave_cntxt_size`, which `cpuid` tells in 32 bits. -/
  xsaveCntxtSize : ℕ
  xsaveSmall : xsaveCntxtSize < 2 ^ 31
  state : Code → ℕ → List (BitVec 8)
  state_length : ∀ c i, (state c i).length = length xsaveCntxtSize c
  /-- The changeset, and what `arch_hvm_save` adds to the header. -/
  changeset : BitVec 64
  cpuid : BitVec 32
  gtscKhz : BitVec 32

/-! ## The buffer -/

/-- The `n` bytes of a number. -/
def leBytes : (n x : ℕ) → List (BitVec 8)
  | 0, _ => []
  | n + 1, x => BitVec.ofNat 8 x :: leBytes n (x / 256)

/-- A `hvm_save_descriptor`. -/
def descriptorBytes (desc : Descriptor) : List (BitVec 8) :=
  leBytes 2 desc.typecode ++ leBytes 2 desc.inst ++ leBytes 4 desc.length

/-- `hvm_domain_context_t`, with what has been written to the buffer up to `cur`. -/
structure Context where
  size : ℕ
  data : List (BitVec 8)

/-- The buffer. What has not been written is what was there before. -/
def Context.buffer (h : Context) : List (Option (BitVec 8)) :=
  h.data.map some ++ List.replicate (h.size - h.data.length) none

/-- `_hvm_init_entry`. -/
def hvmInitEntry (h : Context) (desc : Descriptor) : Option Context :=
  if h.size - h.data.length < desc.length + 8 then none
  else some { h with data := h.data ++ descriptorBytes desc }

/-- `_hvm_write_entry`. -/
def hvmWriteEntry (h : Context) (src : List (BitVec 8)) : Context := { h with data := h.data ++ src }

/-- `hvm_save_entry`. -/
def hvmSaveEntry (typecode inst : ℕ) (h : Context) (src : List (BitVec 8)) : Option Context :=
  (hvmInitEntry h ⟨typecode, inst, src.length⟩).map (hvmWriteEntry · src)

/-! ## The handlers -/

section Handlers

variable (d : Domain)

/-- The loop of a handler: the entries of some instances. -/
def saveEntries (c : Code) : List ℕ → Context → Option Context
  | [], h => some h
  | i :: is, h =>
      match hvmSaveEntry c.typecode i h (d.state c i) with
      | none => none
      | some h => saveEntries c is h

def vcpuIds : List ℕ := d.vcpus.map Vcpu.id

/-- `hvm_save_cpu_ctxt` goes on without a vCPU that is down. -/
def hvmSaveCpuCtxt : Context → Option Context :=
  saveEntries d .cpu ((d.vcpus.filter fun v => !v.down).map Vcpu.id)

def vpicSave : Context → Option Context := saveEntries d .pic [0, 1]
def ioapicSave : Context → Option Context := saveEntries d .ioapic [0]
def lapicSaveHidden : Context → Option Context := saveEntries d .lapic (vcpuIds d)
def lapicSaveRegs : Context → Option Context := saveEntries d .lapicRegs (vcpuIds d)
def irqSavePci : Context → Option Context := saveEntries d .pciIrq [0]
def irqSaveIsa : Context → Option Context := saveEntries d .isaIrq [0]
def irqSaveLink : Context → Option Context := saveEntries d .pciLink [0]
def pitSave : Context → Option Context := saveEntries d .pit [0]
def rtcSave : Context → Option Context := saveEntries d .rtc [0]
def hpetSave : Context → Option Context := saveEntries d .hpet [0]
def pmtimerSave : Context → Option Context := saveEntries d .pmtimer [0]
def hvmSaveMtrrMsr : Context → Option Context := saveEntries d .mtrr (vcpuIds d)

def viridianSaveCpuCtxt (h : Context) : Option Context :=
  if !d.viridian then some h else saveEntries d .viridian [0] h

/-- `xsave_enabled` is `cpu_has_xsave` for any vCPU. -/
def hvmSaveCpuXsaveStates (h : Context) : Option Context :=
  if !d.cpuHasXsave then some h else saveEntries d .cpuXsave (vcpuIds d) h

/-- `HVMSR_PER_DOM` and `HVMSR_PER_VCPU`. -/
inductive Kind where
  | perDom | perVcpu
  deriving DecidableEq

/-- A type with its handler as it is registered. `num` is the greatest number of records for the domain or
a vCPU. -/
structure Registration where
  save : Context → Option Context
  num : ℕ
  kind : Kind

/-- `HVM_REGISTER_SAVE_RESTORE` and `__hvm_register_CPU_XSAVE_save_and_restore`. -/
def registration : Code → Registration
  | .cpu => ⟨hvmSaveCpuCtxt d, 1, .perVcpu⟩
  | .pic => ⟨vpicSave d, 2, .perDom⟩
  | .ioapic => ⟨ioapicSave d, 1, .perDom⟩
  | .lapic => ⟨lapicSaveHidden d, 1, .perVcpu⟩
  | .lapicRegs => ⟨lapicSaveRegs d, 1, .perVcpu⟩
  | .pciIrq => ⟨irqSavePci d, 1, .perDom⟩
  | .isaIrq => ⟨irqSaveIsa d, 1, .perDom⟩
  | .pciLink => ⟨irqSaveLink d, 1, .perDom⟩
  | .pit => ⟨pitSave d, 1, .perDom⟩
  | .rtc => ⟨rtcSave d, 1, .perDom⟩
  | .hpet => ⟨hpetSave d, 1, .perDom⟩
  | .pmtimer => ⟨pmtimerSave d, 1, .perDom⟩
  | .mtrr => ⟨hvmSaveMtrrMsr d, 1, .perVcpu⟩
  | .viridian => ⟨viridianSaveCpuCtxt d, 1, .perDom⟩
  | .cpuXsave => ⟨hvmSaveCpuXsaveStates d, 1, .perVcpu⟩

/-- An element of `hvm_sr_handlers`. -/
structure Handler where
  save : Option (Context → Option Context)
  size : ℕ
  kind : Kind

/-- `hvm_sr_handlers`; nobody has registered for `END` and `HEADER`. -/
def hvmSrHandlers (typecode : ℕ) : Handler :=
  match Code.ofTypecode typecode with
  | some c =>
      { save := some (registration d c).save
        size := (registration d c).num * (length d.xsaveCntxtSize c + 8)
        kind := (registration d c).kind }
  | none => ⟨none, 0, .perDom⟩

/-- The room for all records of a type. -/
def roomFor (typecode : ℕ) : ℕ :=
  match (hvmSrHandlers d typecode).kind with
  | .perVcpu => d.vcpus.length * (hvmSrHandlers d typecode).size
  | .perDom => (hvmSrHandlers d typecode).size

/-- `hvm_save_size`. -/
def hvmSaveSize : ℕ := 2 * 8 + 24 + ((List.range (hvmSaveCodeMax + 1)).map (roomFor d)).sum

inductive Errno where
  | EINVAL | ENOMEM | EFAULT

/-- The `hvm_save_header`. -/
def header : List (BitVec 8) :=
  leBytes 4 hvmFileMagic ++ leBytes 4 hvmFileVersion ++ leBytes 8 d.changeset.toNat ++ leBytes 4 d.cpuid.toNat ++
    leBytes 4 d.gtscKhz.toNat

/-- The loop of `hvm_save` over the types. -/
def saveAll : List ℕ → Context → Option Context
  | [], h => some h
  | i :: is, h =>
      match (hvmSrHandlers d i).save with
      | none => saveAll is h
      | some save =>
          match save h with
          | none => none
          | some h => saveAll is h

/-- `hvm_save`. -/
def hvmSave (h : Context) : Except Errno Context :=
  if d.isDying then .error .EINVAL
  else
    match hvmSaveEntry 1 0 h (header d) with
    | none => .error .EFAULT
    | some h =>
        match saveAll d (List.range (hvmSaveCodeMax + 1)) h with
        | none => .error .EFAULT
        | some h =>
            match hvmSaveEntry 0 0 h [] with
            | none => .error .EFAULT
            | some h => .ok h

/-- `hvm_save_one`: the bytes that are copied to the caller. There may be no memory for the buffer, and the
copy may fail. -/
def hvmSaveOne (typecode inst : ℕ) (memory copies : Bool) : Except Errno (List (Option (BitVec 8))) :=
  let handler := hvmSrHandlers d typecode
  if d.isDying ∨ hvmSaveCodeMax < typecode ∨ handler.size < 8 then .error .EINVAL
  else
    match handler.save with
    | none => .error .EINVAL
    | some save =>
        let sz := roomFor d typecode
        if (inst + 1) * handler.size > sz then .error .EINVAL
        else if !memory then .error .ENOMEM
        else
          match save ⟨sz, []⟩ with
          | none => .error .EFAULT
          | some h =>
              if !copies then .error .EFAULT
              else .ok ((h.buffer.drop (inst * handler.size + 8)).take (handler.size - 8))

end Handlers

end Hvm.Save
