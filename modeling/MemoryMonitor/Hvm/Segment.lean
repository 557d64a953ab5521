import Mathlib.Data.BitVec

/-!
# Segment registers

The checks that `hvm_virtual_to_linear_addr` (`xen/arch/x86/hvm/hvm.c`) makes of an access of several bytes:
against the type and the limit of the segment, or in long mode for an address that is canonical.
-/

namespace Hvm.Segment

/-- `enum x86_segment`. -/
inductive Seg where
  | cs | ss | ds | es | fs | gs | tr | ldtr | gdtr | idtr | none
  deriving DecidableEq

/-- `segment_register`. -/
structure Register where
  sel : BitVec 16
  attr : BitVec 16
  limit : BitVec 32
  base : BitVec 64
  deriving DecidableEq

/-- `hvm_access_type`. -/
inductive Access where
  | insnFetch | none | read | write
  deriving DecidableEq

namespace Register

variable (reg : Register)

def type : BitVec 4 := reg.attr.extractLsb' 0 4
def db : Bool := reg.attr.getLsbD 10
def g : Bool := reg.attr.getLsbD 11

end Register

/-- `is_canonical_address`. -/
def isCanonicalAddress (x : BitVec 64) : Bool := x.sshiftRight 47 = x.sshiftRight 63

/-- The check of the access against the type of the segment. -/
def Register.denied (reg : Register) : Access → Bool
  | .read => reg.type &&& 0xa = 0x8
  | .write => reg.type &&& 0xa ≠ 0x2
  | .insnFetch | .none => false

/-- The checks of the first and of the last byte against the limit. -/
def Register.outside (reg : Register) (offset : BitVec 64) (bytes : BitVec 32) : Bool :=
  let lastByte := (offset + bytes.setWidth 64 - 1).setWidth 32
  if reg.type &&& 0xc = 0x4 then
    let lastByte := if !reg.db then (lastByte.setWidth 16).setWidth 32 else lastByte
    offset ≤ reg.limit.setWidth 64 || lastByte.setWidth 64 < offset
  else lastByte > reg.limit || lastByte.setWidth 64 < offset

/-- `hvm_virtual_to_linear_addr`; `pe` is `X86_CR0_PE` of the guest's `CR0`. -/
def hvmVirtualToLinearAddr (pe : Bool) (seg : Seg) (reg : Register) (offset : BitVec 64) (bytes : BitVec 32)
    (access : Access) (addrSize : Nat) : Option (BitVec 64) :=
  if !pe then some (((offset + reg.base).setWidth 32).setWidth 64)
  else if addrSize ≠ 64 then
    if reg.denied access then none
    else if reg.outside offset bytes then none
    else some (((offset + reg.base).setWidth 32).setWidth 64)
  else
    let addr := if seg = .fs ∨ seg = .gs then offset + reg.base else offset
    if !isCanonicalAddress addr then none else some addr

/-! ## What the architecture asks for -/

namespace Register

variable (reg : Register)

def IsCode : Prop := reg.type.getLsbD 3 = true
def ExpandDown : Prop := reg.type.getLsbD 3 = false ∧ reg.type.getLsbD 2 = true

/-- Data segments can be read, and code segments that are readable; data segments can be written that are
writable. Instructions are fetched from whatever is in CS, which has no code segment in it until the first far
jump in protected mode. -/
def Permits : Access → Prop
  | .read => reg.IsCode → reg.type.getLsbD 1 = true
  | .write => ¬ reg.IsCode ∧ reg.type.getLsbD 1 = true
  | .insnFetch | .none => True

/-- The last offset of a segment that expands down. -/
def top : Nat := if reg.db then 0xffffffff else 0xffff

instance : Decidable reg.ExpandDown := inferInstanceAs (Decidable (_ ∧ _))

/-- The byte with this offset lies in the segment. -/
def Within (a : Nat) : Prop :=
  if reg.ExpandDown then reg.limit.toNat < a ∧ a ≤ reg.top else a ≤ reg.limit.toNat

end Register

/-- The linear address of the first byte. -/
def linear (seg : Seg) (reg : Register) (offset : BitVec 64) (addrSize : Nat) : BitVec 64 :=
  if addrSize = 64 then if seg = .fs ∨ seg = .gs then reg.base + offset else offset
  else (((reg.base + offset).setWidth 32).setWidth 64)

/-- The access is allowed in protected mode: by the type and in every byte by the limit, or in long mode if the
address of every byte is canonical, which is sign extended from bit 47. -/
def Allowed (seg : Seg) (reg : Register) (offset : BitVec 64) (bytes : BitVec 32) (access : Access)
    (addrSize : Nat) : Prop :=
  if addrSize = 64 then
    ∀ i < bytes.toNat, ((linear seg reg offset addrSize + BitVec.ofNat 64 i).setWidth 48).signExtend 64 =
      linear seg reg offset addrSize + BitVec.ofNat 64 i
  else reg.Permits access ∧ ∀ i < bytes.toNat, reg.Within (offset.toNat + i)

/-- Just the accesses that are allowed are accepted, with their linear addresses. -/
def Exact (seg : Seg) (reg : Register) (offset : BitVec 64) (bytes : BitVec 32) (access : Access)
    (addrSize : Nat) : Prop :=
  ∀ addr, hvmVirtualToLinearAddr true seg reg offset bytes access addrSize = some addr ↔
    Allowed seg reg offset bytes access addrSize ∧ addr = linear seg reg offset addrSize

/-- In long mode an access that starts in the lower half ends there, and an access to a 16-bit segment that expands
down does not come back to its start. -/
def Contained (seg : Seg) (reg : Register) (offset : BitVec 64) (bytes : BitVec 32) (access : Access)
    (addrSize : Nat) : Prop :=
  if addrSize = 64 then
    (linear seg reg offset addrSize).toNat < 2 ^ 47 → (linear seg reg offset addrSize).toNat + bytes.toNat ≤ 2 ^ 47
  else
    reg.Permits access → reg.ExpandDown → reg.db = false → reg.limit.toNat < offset.toNat →
      offset.toNat + bytes.toNat ≤ 0x10000 ∨ (offset.toNat + bytes.toNat - 1) % 0x10000 < offset.toNat

/-! ## Canonical addresses -/

theorem canonical_iff (x : BitVec 64) :
    (x.setWidth 48).signExtend 64 = x ↔ x.toNat < 2 ^ 47 ∨ 2 ^ 64 - 2 ^ 47 ≤ x.toNat := by
  rw [← BitVec.toInt_inj, BitVec.toInt_signExtend_of_le (by decide), BitVec.toInt_setWidth, BitVec.toInt_eq_toNat_cond]
  rw [Int.bmod_def]
  have hx := x.isLt
  split <;> split <;> omega

theorem isCanonicalAddress_iff (x : BitVec 64) :
    isCanonicalAddress x = true ↔ x.toNat < 2 ^ 47 ∨ 2 ^ 64 - 2 ^ 47 ≤ x.toNat := by
  unfold isCanonicalAddress
  rw [decide_eq_true_iff, ← BitVec.toInt_inj, BitVec.toInt_sshiftRight, BitVec.toInt_sshiftRight,
    Int.shiftRight_eq_div_pow, Int.shiftRight_eq_div_pow, BitVec.toInt_eq_toNat_cond]
  have hx := x.isLt
  split <;> omega

/-- An access that starts at a canonical address and does not leave the lower half stays canonical. -/
theorem canonical_forall_iff {x : BitVec 64} {n : Nat} (hpos : 0 < n) (hn : n < 2 ^ 32) :
    (∀ i < n, ((x + BitVec.ofNat 64 i).setWidth 48).signExtend 64 = x + BitVec.ofNat 64 i) ↔
      isCanonicalAddress x = true ∧ (x.toNat < 2 ^ 47 → x.toNat + n ≤ 2 ^ 47) := by
  have hx := x.isLt
  have hbyte : ∀ i < n, (x + BitVec.ofNat 64 i).toNat = (x.toNat + i) % 2 ^ 64 := by
    intro i hi
    rw [BitVec.toNat_add, BitVec.toNat_ofNat, Nat.add_mod_mod]
  rw [isCanonicalAddress_iff]
  constructor
  · intro h
    have hfirst := (canonical_iff _).mp (h 0 hpos)
    rw [hbyte 0 hpos] at hfirst
    refine ⟨by omega, fun hlow => ?_⟩
    rcases Nat.lt_or_ge (2 ^ 47) (x.toNat + n) with hout | hin
    · -- the first byte behind the lower half
      have hi : 2 ^ 47 - x.toNat < n := by omega
      have hnext := (canonical_iff _).mp (h (2 ^ 47 - x.toNat) hi)
      rw [hbyte _ hi] at hnext
      omega
    · exact hin
  · rintro ⟨hcanonical, hlow⟩ i hi
    rw [canonical_iff, hbyte i hi]
    omega

/-! ## Limits -/

theorem denied_iff (reg : Register) (access : Access) : reg.denied access = false ↔ reg.Permits access := by
  unfold Register.denied Register.Permits Register.IsCode
  generalize reg.type = t
  cases access with
  | read => revert t; decide
  | write => revert t; decide
  | insnFetch => exact iff_of_true rfl trivial
  | none => exact iff_of_true rfl trivial

/-- The checks as numbers. -/
theorem outside_iff (reg : Register) (offset : BitVec 64) {bytes : BitVec 32} (hpos : 0 < bytes.toNat) :
    reg.outside offset bytes = false ↔
      if reg.ExpandDown then
        reg.limit.toNat < offset.toNat ∧
          offset.toNat ≤ (offset.toNat + bytes.toNat - 1) % (if reg.db then 2 ^ 32 else 2 ^ 16)
      else
        (offset.toNat + bytes.toNat - 1) % 2 ^ 32 ≤ reg.limit.toNat ∧
          offset.toNat ≤ (offset.toNat + bytes.toNat - 1) % 2 ^ 32 := by
  have hdown : reg.type &&& 0xc = 0x4 ↔ reg.ExpandDown := by
    unfold Register.ExpandDown
    generalize reg.type = t
    revert t
    decide
  have hlast : ((offset + bytes.setWidth 64 - 1).setWidth 32).toNat = (offset.toNat + bytes.toNat - 1) % 2 ^ 32 := by
    have hone : (1 : BitVec 64).toNat = 1 := rfl
    rw [BitVec.toNat_setWidth, BitVec.toNat_sub, BitVec.toNat_add, BitVec.toNat_setWidth, hone]
    omega
  have hlimit := reg.limit.isLt
  unfold Register.outside
  dsimp only
  generalize (offset + bytes.setWidth 64 - 1).setWidth 32 = lastByte at hlast
  by_cases h : reg.ExpandDown
  · rw [if_pos (hdown.mpr h), if_pos h, Bool.or_eq_false_iff, decide_eq_false_iff_not, decide_eq_false_iff_not,
      BitVec.le_def, BitVec.lt_def, BitVec.toNat_setWidth, BitVec.toNat_setWidth]
    cases reg.db with
    | true =>
      rw [Bool.not_true, if_neg Bool.false_ne_true, if_pos rfl, hlast]
      omega
    | false =>
      rw [Bool.not_false, if_pos rfl, if_neg Bool.false_ne_true, BitVec.toNat_setWidth, BitVec.toNat_setWidth, hlast]
      omega
  · rw [if_neg fun heq => h (hdown.mp heq), if_neg h, Bool.or_eq_false_iff, decide_eq_false_iff_not,
      decide_eq_false_iff_not, gt_iff_lt, BitVec.lt_def, BitVec.lt_def, BitVec.toNat_setWidth, hlast]
    omega

/-- What the checks find out about the bytes. -/
theorem within_forall_iff (reg : Register) (offset : BitVec 64) {bytes : BitVec 32} (hpos : 0 < bytes.toNat) :
    (∀ i < bytes.toNat, reg.Within (offset.toNat + i)) ↔
      reg.outside offset bytes = false ∧ (reg.ExpandDown → reg.db = false → reg.limit.toNat < offset.toNat →
        offset.toNat + bytes.toNat ≤ 0x10000 ∨ (offset.toNat + bytes.toNat - 1) % 0x10000 < offset.toNat) := by
  have hlimit := reg.limit.isLt
  have hoffset := offset.isLt
  rw [outside_iff reg offset hpos]
  unfold Register.Within Register.top
  by_cases h : reg.ExpandDown
  · rw [if_pos h]
    constructor
    · intro hall
      have hfirst := hall 0 hpos
      have hlast := hall (bytes.toNat - 1) (by omega)
      rw [if_pos h] at hfirst hlast
      cases hdb : reg.db with
      | true =>
        rw [hdb, if_pos rfl] at hfirst hlast
        refine ⟨⟨by omega, ?_⟩, fun _ hno => Bool.noConfusion hno⟩
        rw [if_pos rfl]
        omega
      | false =>
        rw [hdb, if_neg Bool.false_ne_true] at hfirst hlast
        refine ⟨⟨by omega, ?_⟩, fun _ _ _ => .inl (by omega)⟩
        rw [if_neg Bool.false_ne_true]
        omega
    · rintro ⟨⟨hbelow, hnowrap⟩, hback⟩ i hi
      rw [if_pos h]
      cases hdb : reg.db with
      | true =>
        rw [hdb, if_pos rfl] at hnowrap
        rw [if_pos rfl]
        omega
      | false =>
        have hend := hback h hdb hbelow
        rw [hdb, if_neg Bool.false_ne_true] at hnowrap
        rw [if_neg Bool.false_ne_true]
        omega
  · rw [if_neg h, and_iff_left fun hdown => absurd hdown h]
    constructor
    · intro hall
      have hlast := hall (bytes.toNat - 1) (by omega)
      rw [if_neg h] at hlast
      omega
    · rintro ⟨hlast, hnowrap⟩ i hi
      rw [if_neg h]
      omega

/-- A check decides just what is asked for. -/
theorem some_iff {α : Type} {fails : Bool} {x : α} {ok : Prop} :
    (∀ a, (if fails then none else some x) = some a ↔ ok ∧ a = x) ↔ (fails = false ↔ ok) := by
  cases fails with
  | true => simp
  | false => simp [eq_comm]

/-- Accesses are accepted just if they are allowed, where an access in long mode does not leave the lower half and
one to a 16-bit segment that expands down does not come back to its start. -/
theorem hvmVirtualToLinearAddr_iff (seg : Seg) (reg : Register) (offset : BitVec 64) (bytes : BitVec 32)
    (access : Access) (addrSize : Nat) (hbytes : 1 ≤ bytes.toNat) :
    Exact seg reg offset bytes access addrSize ↔ Contained seg reg offset bytes access addrSize := by
  have hcall : hvmVirtualToLinearAddr true seg reg offset bytes access addrSize =
      if (if addrSize = 64 then !isCanonicalAddress (linear seg reg offset addrSize)
        else reg.denied access || reg.outside offset bytes)
      then none else some (linear seg reg offset addrSize) := by
    unfold hvmVirtualToLinearAddr linear
    rw [BitVec.add_comm reg.base offset, Bool.not_true, if_neg Bool.false_ne_true]
    by_cases hlong : addrSize = 64
    · rw [if_neg fun hne => hne hlong, if_pos hlong, if_pos hlong]
    · rw [if_pos hlong, if_neg hlong, if_neg hlong]
      cases reg.denied access <;> rfl
  unfold Exact
  rw [hcall, some_iff]
  unfold Allowed Contained
  by_cases hlong : addrSize = 64
  · rw [if_pos hlong, if_pos hlong, if_pos hlong, Bool.not_eq_false', canonical_forall_iff hbytes bytes.isLt]
    constructor
    · intro h hlow
      have hcanonical := (isCanonicalAddress_iff (linear seg reg offset addrSize)).mpr (.inl hlow)
      exact (h.mp hcanonical).2 hlow
    · exact fun h => ⟨fun hcanonical => ⟨hcanonical, h⟩, fun hboth => hboth.1⟩
  · rw [if_neg hlong, if_neg hlong, if_neg hlong, Bool.or_eq_false_iff, denied_iff,
      within_forall_iff reg offset hbytes]
    constructor
    · intro h hpermits hdown hdb hbelow
      rcases Nat.lt_or_ge ((offset.toNat + bytes.toNat - 1) % 0x10000) offset.toNat with hlt | hge
      · exact .inr hlt
      · -- the checks accept it
        have hinside : reg.outside offset bytes = false := by
          rw [outside_iff reg offset hbytes, if_pos hdown, hdb, if_neg Bool.false_ne_true]
          exact ⟨hbelow, hge⟩
        exact (h.mp ⟨hpermits, hinside⟩).2.2 hdown hdb hbelow
    · intro h
      exact ⟨fun hboth => ⟨hboth.1, hboth.2, h hboth.1⟩, fun hall => ⟨hall.1, hall.2.1⟩⟩

/-- Eight bytes of flat data in the middle of the lower half. -/
theorem hvmVirtualToLinearAddr_flat : Exact .ds ⟨16, 0xc93, 0xffffffff, 0⟩ 0x1000 8 .read 64 :=
  (hvmVirtualToLinearAddr_iff _ _ _ _ _ _ (by decide)).mpr fun _ => by decide

/-- Eight bytes of which the last four are behind the lower half are accepted. -/
theorem hvmVirtualToLinearAddr_hole :
    hvmVirtualToLinearAddr true .ds ⟨16, 0xc93, 0xffffffff, 0⟩ 0x7ffffffffffc 8 .read 64 = some 0x7ffffffffffc ∧
      ¬ Allowed .ds ⟨16, 0xc93, 0xffffffff, 0⟩ 0x7ffffffffffc 8 .read 64 := by
  refine ⟨by decide, fun h => ?_⟩
  exact absurd (h 4 (by decide)) (by decide)

end Hvm.Segment
