import Mathlib

/-!
# Memory types from the guest's MTRRs (`hvm/mtrr.c`)

The guest programs the memory type range registers by MSR writes; `get_mtrr_type`
looks a physical address up. The state keeps a flag, recomputed by every write
of a variable range, that says whether two variable ranges may overlap
(`isVarMtrrOverlapped`). While it is clear the lookup returns the type of the
first range that matches, else it combines the types of all of them.

`Msrs` are the registers as the architecture has them, and `Msrs.HasType r pa t`
says that `t` is the type they give an address.
-/

namespace Hvm.Mtrr

def mtrrTypeUncachable : BitVec 8 := 0
def mtrrTypeWrthrough : BitVec 8 := 4
def mtrrTypeWrback : BitVec 8 := 6

/-- The check of a type byte, the same in the three setters. -/
def ValidType (t : BitVec 8) : Prop := t = 0 ∨ t = 1 ∨ t = 4 ∨ t = 5 ∨ t = 6

instance (t : BitVec 8) : Decidable (ValidType t) :=
  inferInstanceAs (Decidable (_ ∨ _))

/-- `struct mtrr_state`. `varRanges` holds base and mask of the ranges in turn,
and `fixedRanges` the 88 types in rows of 8, as the setter sees them. -/
structure MtrrState where
  varRanges : Nat → BitVec 64
  fixedRanges : Nat → BitVec 64
  enabled : BitVec 8
  defType : BitVec 8
  mtrrCap : BitVec 64
  overlapped : Bool

/-- `size_or_mask`, and the `eax` that `domain_cpuid` returns to the guest for a
leaf. -/
structure Platform where
  sizeOrMask : BitVec 32
  domainCpuid : BitVec 32 → BitVec 32

/-- `hvm_vcpu_cacheattr_init`. -/
def hvmVcpuCacheattrInit : MtrrState where
  varRanges := fun _ => 0
  fixedRanges := fun _ => 0
  enabled := 0
  defType := 0
  mtrrCap := 1#64 <<< 10 ||| 1#64 <<< 8 ||| 8
  overlapped := false

/-! ## Overlapping ranges -/

/-- `get_mtrr_range`: the first and the last page of a range. -/
def getMtrrRange (sizeOrMask : BitVec 32) (baseMsr maskMsr : BitVec 64) : BitVec 64 × BitVec 64 :=
  let maskLo := maskMsr.setWidth 32
  let maskHi := (maskMsr >>> 32).setWidth 32
  let baseLo := baseMsr.setWidth 32
  let baseHi := (baseMsr >>> 32).setWidth 32
  if maskLo &&& 0x800 = 0 then (0, 0)
  else
    let maskLo := sizeOrMask ||| maskHi <<< 20 ||| maskLo >>> 12
    let size := -maskLo
    let base := (baseHi <<< 20 ||| baseLo >>> 12).setWidth 64
    (base, base + size.setWidth 64 - 1)

/-- `get_mtrr_range` of range `i`. -/
def MtrrState.range (m : MtrrState) (P : Platform) (i : Nat) : BitVec 64 × BitVec 64 :=
  getMtrrRange P.sizeOrMask (m.varRanges (i * 2)) (m.varRanges (i * 2 + 1))

/-- The test that two ranges overlap. -/
def Overlap (pre cur : BitVec 64 × BitVec 64) : Prop :=
  (pre.1 ≠ pre.2 ∧ cur.1 ≠ cur.2) ∨ (cur.1 ≥ pre.1 ∧ cur.1 ≤ pre.2) ∨ (cur.2 ≥ pre.1 ∧ cur.2 ≤ pre.2) ∨
    (pre.1 ≥ cur.1 ∧ pre.1 ≤ cur.2) ∨ (pre.2 ≥ cur.1 ∧ pre.2 ≤ cur.2)

instance (pre cur : BitVec 64 × BitVec 64) : Decidable (Overlap pre cur) :=
  inferInstanceAs (Decidable (_ ∨ _))

/-- `num_var_ranges`. -/
def MtrrState.numVarRanges (m : MtrrState) : Nat := (m.mtrrCap &&& 0xff).toNat

/-- `is_var_mtrr_overlapped`. -/
def isVarMtrrOverlapped (P : Platform) (m : MtrrState) : Bool :=
  (List.range m.numVarRanges).any fun i =>
    (List.range m.numVarRanges).any fun seg => decide (i < seg) && decide (Overlap (m.range P i) (m.range P seg))

/-! ## The lookup -/

/-- Whether variable range `seg` is valid and matches the address. -/
def MtrrState.Matches (m : MtrrState) (pa : BitVec 64) (seg : Nat) : Prop :=
  m.varRanges (seg * 2 + 1) &&& 1#64 <<< 11 ≠ 0 ∧
    (pa &&& m.varRanges (seg * 2 + 1)) >>> 12 = (m.varRanges (seg * 2) &&& m.varRanges (seg * 2 + 1)) >>> 12

instance (m : MtrrState) (pa : BitVec 64) (seg : Nat) : Decidable (m.Matches pa seg) :=
  inferInstanceAs (Decidable (_ ∧ _))

/-- `phys_base & MTRR_PHYSBASE_TYPE_MASK`. -/
def MtrrState.varType (m : MtrrState) (seg : Nat) : BitVec 8 := (m.varRanges (seg * 2)).setWidth 8

/-- The loop over the variable ranges: it returns early, or ends with
`overlap_mtrr` and `overlap_mtrr_pos`. -/
def scanVar (m : MtrrState) (pa : BitVec 64) : List Nat → BitVec 8 → BitVec 8 → Except (BitVec 8) (BitVec 8 × BitVec 8)
  | [], overlapMtrr, overlapMtrrPos => .ok (overlapMtrr, overlapMtrrPos)
  | seg :: segs, overlapMtrr, overlapMtrrPos =>
    if m.Matches pa seg then
      if m.overlapped then scanVar m pa segs (overlapMtrr ||| 1#8 <<< (m.varType seg).toNat) (m.varType seg)
      else .error (m.varType seg)
    else scanVar m pa segs overlapMtrr overlapMtrrPos

/-- What is returned behind the loop. -/
def combine (defType overlapMtrr overlapMtrrPos : BitVec 8) : BitVec 8 :=
  if overlapMtrr = 0 then defType
  else if overlapMtrr &&& ~~~(1#8 <<< overlapMtrrPos.toNat) = 0 then overlapMtrrPos
  else if overlapMtrr &&& 1 ≠ 0 then mtrrTypeUncachable
  else if overlapMtrr &&& 0xaf = 0 then mtrrTypeWrthrough
  else overlapMtrrPos

/-- `m->fixed_ranges[k]`. -/
def MtrrState.fixedRange (m : MtrrState) (k : Nat) : BitVec 8 :=
  (m.fixedRanges (k / 8)).extractLsb' (8 * (k % 8)) 8

/-- The index into `fixed_ranges` of an address below 1MB. -/
def fixedIndex (addr : Nat) : Nat :=
  if addr < 0x80000 then addr >>> 16
  else if addr < 0xc0000 then
    let seg := (addr - 0x80000) >>> 14
    ((seg >>> 3) + 1) * 8 + (seg &&& 7)
  else
    let seg := (addr - 0xc0000) >>> 12
    ((seg >>> 3) + 3) * 8 + (seg &&& 7)

/-- `get_mtrr_type`, from the loop on. -/
def lookupVar (m : MtrrState) (pa : BitVec 64) : BitVec 8 :=
  match scanVar m pa (List.range m.numVarRanges) 0 0 with
  | .error t => t
  | .ok (overlapMtrr, overlapMtrrPos) => combine m.defType overlapMtrr overlapMtrrPos

/-- `get_mtrr_type`. -/
def getMtrrType (m : MtrrState) (pa : BitVec 64) : BitVec 8 :=
  if m.enabled &&& 0x2 = 0 then mtrrTypeUncachable
  else if pa < 0x100000 ∧ m.enabled &&& 1 ≠ 0 then m.fixedRange (fixedIndex pa.toNat)
  else lookupVar m pa

/-! ## The setters -/

/-- `mtrr_def_type_msr_set`. `none` is a write that is refused. -/
def mtrrDefTypeMsrSet (m : MtrrState) (msrContent : BitVec 64) : Option MtrrState :=
  let defType := msrContent.setWidth 8
  let enabled := (msrContent >>> 10).setWidth 8 &&& 0x3
  if ¬ ValidType defType then none
  else if msrContent ≠ 0 ∧ msrContent &&& ~~~0xcff#64 ≠ 0 then none
  else some { m with enabled, defType }

/-- `mtrr_fix_range_msr_set`. -/
def mtrrFixRangeMsrSet (m : MtrrState) (row : Nat) (msrContent : BitVec 64) : Option MtrrState :=
  if m.fixedRanges row ≠ msrContent then
    if ∀ i : Fin 8, ValidType (msrContent.extractLsb' (8 * i.val) 8) then
      some { m with fixedRanges := Function.update m.fixedRanges row msrContent }
    else none
  else some m

/-- The guest's `phys_addr`. -/
def Platform.physAddr (P : Platform) : Nat :=
  if P.domainCpuid 0x80000000 ≥ 0x80000008 then ((P.domainCpuid 0x80000008).setWidth 8).toNat else 36

/-- The bits that have to be zero in a base (even) and in a mask (odd). -/
def Platform.msrMask (P : Platform) (index : Nat) : BitVec 64 :=
  ~~~(1#64 <<< P.physAddr - 1#64) ||| if index % 2 = 1 then 0x7ff else 0xf00

/-- `mtrr_var_range_msr_set`, for the register `MSR_IA32_MTRR_PHYSBASE0 + index`. -/
def mtrrVarRangeMsrSet (P : Platform) (m : MtrrState) (index : Nat) (msrContent : BitVec 64) : Option MtrrState :=
  if m.varRanges index = msrContent then some m
  else if ¬ ValidType (msrContent.setWidth 8) then none
  else if msrContent ≠ 0 ∧ msrContent &&& P.msrMask index ≠ 0 then none
  else
    let m := { m with varRanges := Function.update m.varRanges index msrContent }
    some { m with overlapped := isVarMtrrOverlapped P m }

/-- A write of an MTRR, dispatched to its setter by the MSR's number. -/
inductive Write
  | defType (msrContent : BitVec 64)
  | fix (row : Fin 11) (msrContent : BitVec 64)
  | var (index : Fin 16) (msrContent : BitVec 64)

def MtrrState.write (P : Platform) (m : MtrrState) : Write → Option MtrrState
  | .defType msrContent => mtrrDefTypeMsrSet m msrContent
  | .fix row msrContent => mtrrFixRangeMsrSet m row msrContent
  | .var index msrContent => mtrrVarRangeMsrSet P m index msrContent

/-- The state after writes that are all accepted. -/
def writes (P : Platform) (ws : List Write) : Option MtrrState :=
  ws.foldlM (MtrrState.write P) hvmVcpuCacheattrInit

/-! ## The architecture -/

/-- The MTRRs: each holds what was last written. -/
structure Msrs where
  defType : BitVec 64
  fix : Fin 11 → BitVec 64
  base : Fin 8 → BitVec 64
  mask : Fin 8 → BitVec 64

def Msrs.reset : Msrs := ⟨0, fun _ => 0, fun _ => 0, fun _ => 0⟩

def Msrs.write (r : Msrs) : Write → Msrs
  | .defType msrContent => { r with defType := msrContent }
  | .fix row msrContent => { r with fix := Function.update r.fix row msrContent }
  | .var index msrContent =>
    if index.val % 2 = 0 then { r with base := Function.update r.base ⟨index / 2, by omega⟩ msrContent }
    else { r with mask := Function.update r.mask ⟨index / 2, by omega⟩ msrContent }

def Msrs.writes (ws : List Write) : Msrs := ws.foldl Msrs.write .reset

/-- The addresses of byte `i` of a fixed range register: 64KB, 16KB or 4KB each. -/
def fixedSpan (row i : Nat) : Set Nat :=
  if row = 0 then Set.Ico (i * 0x10000) ((i + 1) * 0x10000)
  else if row < 3 then Set.Ico (0x80000 + ((row - 1) * 8 + i) * 0x4000) (0x80000 + ((row - 1) * 8 + i + 1) * 0x4000)
  else Set.Ico (0xc0000 + ((row - 3) * 8 + i) * 0x1000) (0xc0000 + ((row - 3) * 8 + i + 1) * 0x1000)

namespace Msrs

/-- Variable range `i` is valid and its mask's bits are those of its base in the
address. -/
def Matches (r : Msrs) (pa : BitVec 64) (i : Fin 8) : Prop :=
  (r.mask i).getLsbD 11 = true ∧
    ∀ b, 12 ≤ b → (r.mask i).getLsbD b = true → pa.getLsbD b = (r.base i).getLsbD b

/-- The types of the variable ranges that match. -/
def types (r : Msrs) (pa : BitVec 64) : Set (BitVec 8) :=
  {t | ∃ i, r.Matches pa i ∧ t = (r.base i).setWidth 8}

/-- The type the variable ranges give. Where ranges of other types are combined the
architecture leaves it open. -/
def VarType (r : Msrs) (pa : BitVec 64) (t : BitVec 8) : Prop :=
  (r.types pa = ∅ → t = r.defType.setWidth 8) ∧ (∀ u, r.types pa = {u} → t = u) ∧
    (mtrrTypeUncachable ∈ r.types pa → t = mtrrTypeUncachable) ∧
    (r.types pa = {mtrrTypeWrthrough, mtrrTypeWrback} → t = mtrrTypeWrthrough)

/-- The fixed ranges decide. -/
def ByFixed (r : Msrs) (pa : BitVec 64) : Prop := pa.toNat < 0x100000 ∧ r.defType.getLsbD 10 = true

/-- The type of an address. -/
def HasType (r : Msrs) (pa : BitVec 64) (t : BitVec 8) : Prop :=
  (r.defType.getLsbD 11 = false → t = mtrrTypeUncachable) ∧
    (r.defType.getLsbD 11 = true → r.ByFixed pa →
      ∃ row i, i < 8 ∧ pa.toNat ∈ fixedSpan row.val i ∧ t = (r.fix row).extractLsb' (8 * i) 8) ∧
    (r.defType.getLsbD 11 = true → ¬ r.ByFixed pa → r.VarType pa t)

end Msrs

end Hvm.Mtrr
