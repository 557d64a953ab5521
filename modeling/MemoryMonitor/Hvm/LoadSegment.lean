import Mathlib
import MemoryMonitor.Hvm.Segment

/-!
# Loading a segment register

`hvm_load_segment_selector` (`xen/arch/x86/hvm/hvm.c`) in a task switch. The descriptor is read from a table in
the guest's memory and is read again if it changes before its accessed flag is set; what others write there
meanwhile is a list. Whether the page of the descriptor can be mapped is an argument. The guest's table is a
memory of descriptors by their linear addresses.
-/

namespace Hvm.Segment

/-- `desc_struct`. -/
structure Desc where
  a : BitVec 32
  b : BitVec 32
  deriving DecidableEq

inductive Trap where
  | invalidTss | noSegment
  deriving DecidableEq

/-- A vCPU, the memory of its tables, and what has happened to it. -/
structure Machine where
  regs : Seg → Register
  table : BitVec 64 → Desc
  injected : List (Trap × BitVec 16)
  crashed : Bool
  /-- The pages of tables that are mapped. -/
  mapped : Nat

/-- What a call depends on besides the vCPU: virtual 8086 mode, the addresses whose pages can be mapped, and what
others write to the descriptor before each `cmpxchg`. -/
structure Env where
  vm : Bool
  maps : BitVec 64 → Bool
  others : List Desc

namespace Desc

variable (desc : Desc)

def present : Bool := desc.b.getLsbD 15
def dpl : BitVec 32 := (desc.b >>> 13) &&& 3

/-- The register of a descriptor. -/
def toRegister (sel : BitVec 16) : Register :=
  let base : BitVec 32 := (desc.b &&& 0xff000000) ||| ((desc.b <<< 16) &&& 0x00ff0000) ||| ((desc.a >>> 16) &&& 0xffff)
  let attr : BitVec 32 := ((desc.b >>> 8) &&& 0x00ff) ||| ((desc.b >>> 12) &&& 0x0f00)
  let limit := (desc.b &&& 0x000f0000) ||| (desc.a &&& 0x0000ffff)
  let reg : Register := ⟨sel, attr.setWidth 16, limit, base.setWidth 64⟩
  if reg.g then { reg with limit := (limit <<< 12) ||| 0xfff } else reg

end Desc

/-- The checks of the loop of `hvm_load_segment_selector`. -/
def check (seg : Seg) (sel : BitVec 16) (cs : Register) (desc : Desc) : Option Trap :=
  if desc.b &&& (1#32 <<< 15) = 0 then some .noSegment
  else if desc.b &&& (1#32 <<< 12) = (if seg = .ldtr then 1#32 <<< 12 else 0) then some .invalidTss
  else
    let dpl := desc.dpl
    let rpl := sel.setWidth 32 &&& 3
    let cpl := cs.sel.setWidth 32 &&& 3
    match seg with
    | .cs =>
        if desc.b &&& (1#32 <<< 11) = 0 then some .invalidTss
        else if desc.b &&& (6#32 <<< 9) ≠ 6 ∧ dpl ≠ rpl then some .invalidTss
        else none
    | .ss =>
        if desc.b &&& (5#32 <<< 9) ≠ 1#32 <<< 9 then some .invalidTss
        else if dpl ≠ cpl ∨ dpl ≠ rpl then some .invalidTss
        else none
    | .ldtr => if desc.b &&& (15#32 <<< 8) ≠ 2#32 <<< 8 then some .invalidTss else none
    | _ =>
        if desc.b &&& (5#32 <<< 9) = 4#32 <<< 9 then some .invalidTss
        else if desc.b &&& (6#32 <<< 9) ≠ 6 ∧ (dpl < cpl ∨ dpl < rpl) then some .invalidTss
        else none

/-- The descriptor with its accessed flag. -/
def Desc.accessed (desc : Desc) : Desc := { desc with b := desc.b ||| 0x100 }

/-- The loop of `hvm_load_segment_selector`: what it has read or the exception, and the entry of the table. -/
def loop (seg : Seg) (sel : BitVec 16) (cs : Register) : List Desc → Desc → Except Trap Desc × Desc
  | others, desc =>
    match check seg sel cs desc with
    | some trap => (.error trap, desc)
    | none =>
        if seg = .ldtr then (.ok desc, desc)
        else if desc.b &&& 0x100 ≠ 0 then (.ok desc.accessed, desc)
        else
          match others with
          | [] => (.ok desc.accessed, desc.accessed)
          | now :: rest =>
              if now.b = desc.b then (.ok desc.accessed, { now with b := desc.b ||| 0x100 })
              else loop seg sel cs rest now

/-- `hvm_map_entry`. -/
def hvmMapEntry (env : Env) (va : BitVec 64) : Bool := !((va &&& 0xfff) + 8 > 4096) && env.maps va

namespace Machine

variable (s : Machine)

/-- `hvm_set_segment_register`. -/
def setReg (seg : Seg) (reg : Register) : Machine := { s with regs := Function.update s.regs seg reg }

/-- `hvm_inject_exception`. -/
def inject (trap : Trap) (code : BitVec 16) : Machine := { s with injected := s.injected ++ [(trap, code)] }

/-- The table that a selector is for. -/
def desctab (sel : BitVec 16) : Register := s.regs (if sel &&& 4 ≠ 0 then .ldtr else .gdtr)

/-- The address of the descriptor. -/
def entry (sel : BitVec 16) : BitVec 64 := (s.desctab sel).base + (sel &&& 0xfff8).setWidth 64

end Machine

/-- `hvm_load_segment_selector`. -/
def hvmLoadSegmentSelector (env : Env) (seg : Seg) (sel : BitVec 16) (s : Machine) : Bool × Machine :=
  if env.vm then (true, s.setReg seg ⟨sel, 0xf3, 0xffff, (sel.setWidth 64) <<< 4⟩)
  else if sel &&& 0xfffc = 0 then
    if seg = .cs ∨ seg = .ss then (false, s.inject .invalidTss (sel &&& 0xfffc))
    else (true, s.setReg seg ⟨0, 0, 0, 0⟩)
  else if seg = .ldtr ∧ sel &&& 4 ≠ 0 then (false, s.inject .invalidTss (sel &&& 0xfffc))
  else if (sel &&& 0xfff8).toNat + 7 > (s.desctab sel).limit.toNat then
    (false, s.inject .invalidTss (sel &&& 0xfffc))
  else if !hvmMapEntry env (s.entry sel) then (false, { s with crashed := true })
  else
    let s := { s with mapped := s.mapped + 1 }
    let (out, desc) := loop seg sel (s.regs .cs) env.others (s.table (s.entry sel))
    let s := { s with table := Function.update s.table (s.entry sel) desc, mapped := s.mapped - 1 }
    match out with
    | .error trap => (false, s.inject trap (sel &&& 0xfffc))
    | .ok desc => (true, s.setReg seg (desc.toRegister sel))

/-! ## What the architecture asks for -/

namespace Desc

variable (desc : Desc)

def isCode : Bool := desc.b.getLsbD 11
def conforming : Bool := desc.isCode && desc.b.getLsbD 10
def notSystem : Bool := desc.b.getLsbD 12
/-- Writable data, or readable code. -/
def granted : Bool := desc.b.getLsbD 9

/-- The descriptor is of the right kind for the register, and its privilege level is right. -/
def Loadable (seg : Seg) (sel : BitVec 16) (cs : Register) : Prop :=
  let dpl := desc.b.extractLsb' 13 2
  let rpl := sel.extractLsb' 0 2
  let cpl := cs.sel.extractLsb' 0 2
  desc.present = true ∧
    match seg with
    | .cs => desc.notSystem = true ∧ desc.isCode = true ∧ (desc.conforming = true ∨ dpl = rpl)
    | .ss => desc.notSystem = true ∧ desc.isCode = false ∧ desc.granted = true ∧ dpl = cpl ∧ dpl = rpl
    | .ldtr => desc.notSystem = false ∧ desc.b.extractLsb' 8 4 = 2
    | _ => desc.notSystem = true ∧ (desc.isCode = true → desc.granted = true) ∧
        (desc.conforming = true ∨ (cpl ≤ dpl ∧ rpl ≤ dpl))

/-- The base, the limit and the attributes of a descriptor. -/
def base : BitVec 32 := (desc.b.extractLsb' 24 8 ++ desc.b.extractLsb' 0 8 ++ desc.a.extractLsb' 16 16).setWidth 32
def limit : BitVec 32 := (desc.b.extractLsb' 16 4 ++ desc.a.extractLsb' 0 16).setWidth 32
def attr : BitVec 16 := (desc.b.extractLsb' 20 4 ++ desc.b.extractLsb' 8 8).setWidth 16

/-- The limit in bytes. -/
def bytesLimit : Nat := if desc.b.getLsbD 23 then desc.limit.toNat * 4096 + 4095 else desc.limit.toNat

end Desc

/-- The descriptor that is read last, after which nobody interferes or the checks fail. -/
def lastRead (seg : Seg) (sel : BitVec 16) (cs : Register) : List Desc → Desc → Desc
  | [], desc => desc
  | now :: rest, desc =>
      if check seg sel cs desc = none ∧ seg ≠ .ldtr ∧ desc.b &&& 0x100 = 0 ∧ now.b ≠ desc.b then
        lastRead seg sel cs rest now
      else desc

/-- The register has what the descriptor says. -/
structure Describes (reg : Register) (sel : BitVec 16) (desc : Desc) : Prop where
  sel : reg.sel = sel
  base : reg.base.toNat = desc.base.toNat
  limit : reg.limit.toNat = desc.bytesLimit
  attr : reg.attr.toNat = desc.attr.toNat

/-! ## Fields of a descriptor -/

/-- A test of some bits of a word is one of the field that they are in. -/
theorem field_eq_iff {n : Nat} (x : BitVec n) (k w : Nat) (m v : BitVec w) (hk : k + w ≤ n) :
    x &&& (m.setWidth n <<< k) = v.setWidth n <<< k ↔ x.extractLsb' k w &&& m = v := by
  constructor
  · intro h
    apply BitVec.eq_of_getLsbD_eq
    intro i hi
    have hbit := congrArg (fun y => y.getLsbD (k + i)) h
    simpa [show k + i < n by omega, show i < n by omega, hi] using hbit
  · intro h
    rw [← h]
    apply BitVec.eq_of_getLsbD_eq
    intro i hi
    rcases Nat.lt_or_ge i k with hlt | hge
    · simp [hlt]
    · rcases Nat.lt_or_ge (i - k) w with hlt | hout
      · simp [hi, Nat.not_lt.mpr hge, hlt, Nat.add_sub_cancel' hge]
      · simp [hi, BitVec.getLsbD_of_ge m (i - k) hout]

section

variable (desc : Desc)

theorem present_iff : desc.b &&& (1#32 <<< 15) = 0 ↔ desc.present = false := by
  refine (field_eq_iff desc.b 15 1 1 0 (by decide)).trans ?_
  unfold Desc.present
  have hbit : desc.b.getLsbD 15 = (desc.b.extractLsb' 15 1).getLsbD 0 := by simp
  rw [hbit]
  generalize desc.b.extractLsb' 15 1 = t
  revert t
  decide

theorem system_iff (seg : Seg) :
    desc.b &&& (1#32 <<< 12) = (if seg = .ldtr then 1#32 <<< 12 else 0) ↔ desc.notSystem = decide (seg = .ldtr) := by
  have hbit : desc.notSystem = (desc.b.extractLsb' 12 1).getLsbD 0 := by simp [Desc.notSystem]
  rw [hbit]
  split
  · rename_i h
    refine (field_eq_iff desc.b 12 1 1 1 (by decide)).trans ?_
    rw [decide_eq_true h]
    generalize desc.b.extractLsb' 12 1 = t
    revert t
    decide
  · rename_i h
    refine (field_eq_iff desc.b 12 1 1 0 (by decide)).trans ?_
    rw [decide_eq_false h]
    generalize desc.b.extractLsb' 12 1 = t
    revert t
    decide

theorem type_bits : desc.isCode = (desc.b.extractLsb' 9 3).getLsbD 2 ∧
    desc.granted = (desc.b.extractLsb' 9 3).getLsbD 0 := by
  simp [Desc.isCode, Desc.granted]

theorem code_iff : desc.b &&& (1#32 <<< 11) = 0 ↔ desc.isCode = false := by
  refine (field_eq_iff desc.b 9 3 4 0 (by decide)).trans ?_
  rw [(type_bits desc).1]
  generalize desc.b.extractLsb' 9 3 = t
  revert t
  decide

theorem writable_iff : desc.b &&& (5#32 <<< 9) = 1#32 <<< 9 ↔ desc.isCode = false ∧ desc.granted = true := by
  refine (field_eq_iff desc.b 9 3 5 1 (by decide)).trans ?_
  rw [(type_bits desc).1, (type_bits desc).2]
  generalize desc.b.extractLsb' 9 3 = t
  revert t
  decide

theorem unreadable_iff : desc.b &&& (5#32 <<< 9) = 4#32 <<< 9 ↔ desc.isCode = true ∧ desc.granted = false := by
  refine (field_eq_iff desc.b 9 3 5 4 (by decide)).trans ?_
  rw [(type_bits desc).1, (type_bits desc).2]
  generalize desc.b.extractLsb' 9 3 = t
  revert t
  decide

/-- No descriptor passes the test for conforming code: the 6 is not shifted. -/
theorem conforming_never : desc.b &&& (6#32 <<< 9) ≠ 6 := by
  intro h
  have hbit := congrArg (fun y => y.getLsbD 1) h
  simp at hbit

end

theorem low2 (x : BitVec 32) (k : Nat) : (x >>> k &&& 3).toNat = (x.extractLsb' k 2).toNat := by
  rw [BitVec.toNat_and, BitVec.toNat_ushiftRight, BitVec.extractLsb'_toNat]
  exact Nat.and_two_pow_sub_one_eq_mod _ 2

theorem sel2 (sel : BitVec 16) : (sel.setWidth 32 &&& 3).toNat = (sel.extractLsb' 0 2).toNat := by
  rw [BitVec.toNat_and, BitVec.toNat_setWidth, BitVec.extractLsb'_toNat, Nat.mod_eq_of_lt (by omega)]
  exact Nat.and_two_pow_sub_one_eq_mod _ 2

/-- Code that is conforming, of another privilege level than the check wants. -/
def Desc.Mismatch (desc : Desc) (seg : Seg) (sel : BitVec 16) (cs : Register) : Prop :=
  let dpl := desc.b.extractLsb' 13 2
  let rpl := sel.extractLsb' 0 2
  let cpl := cs.sel.extractLsb' 0 2
  desc.conforming = true ∧
    match seg with
    | .cs => dpl ≠ rpl
    | .ss | .ldtr => False
    | _ => dpl < cpl ∨ dpl < rpl

theorem checks_iff {p q : Prop} [Decidable p] [Decidable q] {trap : Trap} :
    (if p then some trap else if q then some trap else none) = none ↔ ¬ p ∧ ¬ q := by
  by_cases hp : p
  · simp [hp]
  · by_cases hq : q <;> simp [hp, hq]

section

variable (desc : Desc) (sel : BitVec 16)

theorem dpl_eq_iff : desc.dpl = sel.setWidth 32 &&& 3 ↔ desc.b.extractLsb' 13 2 = sel.extractLsb' 0 2 := by
  rw [← BitVec.toNat_inj, ← BitVec.toNat_inj, sel2, Desc.dpl, low2]

theorem dpl_lt_iff : desc.dpl < sel.setWidth 32 &&& 3 ↔ desc.b.extractLsb' 13 2 < sel.extractLsb' 0 2 := by
  rw [BitVec.lt_def, BitVec.lt_def, sel2, Desc.dpl, low2]

theorem checks_data (cs : Register) :
    (if desc.b &&& (5#32 <<< 9) = 4#32 <<< 9 then some Trap.invalidTss
      else if desc.b &&& (6#32 <<< 9) ≠ 6 ∧ (desc.dpl < cs.sel.setWidth 32 &&& 3 ∨ desc.dpl < sel.setWidth 32 &&& 3) then
        some Trap.invalidTss
      else none) = none ↔
      ((desc.isCode = true → desc.granted = true) ∧ (desc.conforming = true ∨
        (cs.sel.extractLsb' 0 2 ≤ desc.b.extractLsb' 13 2 ∧ sel.extractLsb' 0 2 ≤ desc.b.extractLsb' 13 2))) ∧
      ¬ (desc.conforming = true ∧ (desc.b.extractLsb' 13 2 < cs.sel.extractLsb' 0 2 ∨
        desc.b.extractLsb' 13 2 < sel.extractLsb' 0 2)) := by
  rw [checks_iff, unreadable_iff, and_iff_right (conforming_never desc), dpl_lt_iff, dpl_lt_iff, not_and,
    Bool.not_eq_false, ← BitVec.not_lt, ← BitVec.not_lt, ← not_or]
  constructor
  · rintro ⟨hread, hlevel⟩
    exact ⟨⟨hread, .inr hlevel⟩, fun hmismatch => hlevel hmismatch.2⟩
  · rintro ⟨⟨hread, hconforming | hlevel⟩, hmatch⟩
    · exact ⟨hread, fun hlevel => hmatch ⟨hconforming, hlevel⟩⟩
    · exact ⟨hread, hlevel⟩

theorem checks_code :
    (if desc.b &&& (1#32 <<< 11) = 0 then some Trap.invalidTss
      else if desc.b &&& (6#32 <<< 9) ≠ 6 ∧ desc.dpl ≠ sel.setWidth 32 &&& 3 then some Trap.invalidTss
      else none) = none ↔
      (desc.isCode = true ∧ (desc.conforming = true ∨ desc.b.extractLsb' 13 2 = sel.extractLsb' 0 2)) ∧
      ¬ (desc.conforming = true ∧ desc.b.extractLsb' 13 2 ≠ sel.extractLsb' 0 2) := by
  rw [checks_iff, code_iff, and_iff_right (conforming_never desc), ne_eq, dpl_eq_iff, Bool.not_eq_false, not_not]
  constructor
  · rintro ⟨hcode, hlevel⟩
    exact ⟨⟨hcode, .inr hlevel⟩, fun hmismatch => hmismatch.2 hlevel⟩
  · rintro ⟨⟨hcode, hconforming | hlevel⟩, hmatch⟩
    · exact ⟨hcode, by_contra fun hlevel => hmatch ⟨hconforming, hlevel⟩⟩
    · exact ⟨hcode, hlevel⟩

end

/-- The checks let through what can be loaded, but for conforming code of another privilege level. -/
theorem check_iff (seg : Seg) (sel : BitVec 16) (cs : Register) (desc : Desc) :
    check seg sel cs desc = none ↔ desc.Loadable seg sel cs ∧ ¬ desc.Mismatch seg sel cs := by
  unfold check Desc.Loadable Desc.Mismatch
  by_cases hpresent : desc.present = false
  · rw [if_pos ((present_iff desc).mpr hpresent)]
    exact iff_of_false nofun fun h => Bool.false_ne_true (hpresent.symm.trans h.1.1)
  · rw [if_neg (mt (present_iff desc).mp hpresent)]
    have hpresent : desc.present = true := Bool.eq_true_of_not_eq_false hpresent
    by_cases hsystem : desc.notSystem = decide (seg = .ldtr)
    · rw [if_pos ((system_iff desc seg).mpr hsystem)]
      refine iff_of_false nofun fun h => ?_
      cases seg <;> simp [hsystem] at h
    · rw [if_neg (mt (system_iff desc seg).mp hsystem), and_iff_right hpresent]
      cases seg with
      | cs =>
        dsimp only
        rw [and_iff_right (Bool.eq_true_of_not_eq_false hsystem)]
        exact checks_code desc sel
      | ss =>
        dsimp only
        rw [and_iff_right (Bool.eq_true_of_not_eq_false hsystem), checks_iff, ne_eq, writable_iff, not_or, ne_eq, ne_eq,
          dpl_eq_iff, dpl_eq_iff, not_not, not_not, not_not, and_assoc, and_iff_left fun h => h.2]
      | ldtr =>
        dsimp only
        have htype : desc.b &&& (15#32 <<< 8) = 2#32 <<< 8 ↔ desc.b.extractLsb' 8 4 = 2 := by
          refine (field_eq_iff desc.b 8 4 15 2 (by decide)).trans ?_
          generalize desc.b.extractLsb' 8 4 = t
          revert t
          decide
        rw [and_iff_right (Bool.eq_false_of_not_eq_true hsystem), ite_not, ← htype, and_iff_left fun h => h.2]
        simp
      | _ =>
        dsimp only
        rw [and_iff_right (Bool.eq_true_of_not_eq_false hsystem)]
        exact checks_data desc sel cs

/-! ## The register -/

section

variable (desc : Desc)

theorem base_eq :
    (desc.b &&& 0xff000000) ||| ((desc.b <<< 16) &&& 0x00ff0000) ||| ((desc.a >>> 16) &&& 0xffff) = desc.base := by
  unfold Desc.base
  apply BitVec.eq_of_getLsbD_eq
  intro i hi
  rw [BitVec.getLsbD_setWidth, BitVec.getLsbD_append, BitVec.getLsbD_append]
  interval_cases i <;> simp

theorem limit_eq : (desc.b &&& 0x000f0000) ||| (desc.a &&& 0x0000ffff) = desc.limit := by
  unfold Desc.limit
  apply BitVec.eq_of_getLsbD_eq
  intro i hi
  rw [BitVec.getLsbD_setWidth, BitVec.getLsbD_append]
  interval_cases i <;> simp

theorem attr_eq :
    (((desc.b >>> 8) &&& 0x00ff) ||| ((desc.b >>> 12) &&& 0x0f00)).setWidth 16 = desc.attr := by
  unfold Desc.attr
  apply BitVec.eq_of_getLsbD_eq
  intro i hi
  rw [BitVec.getLsbD_setWidth, BitVec.getLsbD_setWidth, BitVec.getLsbD_append]
  interval_cases i <;> simp

/-- What is loaded is what the descriptor says. -/
theorem toRegister_describes (sel : BitVec 16) : Describes (desc.toRegister sel) sel desc := by
  have hg : (⟨sel, desc.attr, desc.limit, desc.base.setWidth 64⟩ : Register).g = desc.b.getLsbD 23 := by
    unfold Register.g Desc.attr
    rw [BitVec.getLsbD_setWidth, BitVec.getLsbD_append]
    simp
  have hbase : (desc.base.setWidth 64).toNat = desc.base.toNat := by
    rw [BitVec.toNat_setWidth]
    exact Nat.mod_eq_of_lt (Nat.lt_trans desc.base.isLt (by decide))
  have hlimit : desc.limit.toNat < 2 ^ 20 := by
    unfold Desc.limit
    rw [BitVec.toNat_setWidth]
    exact Nat.lt_of_le_of_lt (Nat.mod_le _ _) (BitVec.isLt _)
  unfold Desc.toRegister
  dsimp only
  rw [base_eq, limit_eq, attr_eq, hg]
  split
  · rename_i hgranular
    refine ⟨rfl, hbase, ?_, rfl⟩
    unfold Desc.bytesLimit
    rw [if_pos hgranular, BitVec.toNat_or, BitVec.toNat_shiftLeft, Nat.shiftLeft_eq, Nat.mod_eq_of_lt (by omega)]
    have hor := Nat.two_pow_add_eq_or_of_lt (i := 12) (b := 0xfff) (by decide) desc.limit.toNat
    show desc.limit.toNat * 2 ^ 12 ||| 0xfff = _
    rw [Nat.mul_comm, ← hor]
  · rename_i hbytes
    refine ⟨rfl, hbase, ?_, rfl⟩
    unfold Desc.bytesLimit
    rw [if_neg hbytes]

end

/-! ## The loop -/

theorem accessed_of_set {b : BitVec 32} (h : b &&& 0x100 ≠ 0) : b = b ||| 0x100 := by
  have hbit : b.getLsbD 8 = true := by
    by_contra hclear
    refine h ((field_eq_iff b 8 1 1 0 (by decide)).mpr ?_)
    have hfield : b.getLsbD 8 = (b.extractLsb' 8 1).getLsbD 0 := by simp
    rw [hfield] at hclear
    revert hclear
    generalize b.extractLsb' 8 1 = t
    revert t
    decide
  apply BitVec.eq_of_getLsbD_eq
  intro i hi
  rw [BitVec.getLsbD_or]
  by_cases h8 : i = 8
  · rw [h8, hbit]
    rfl
  · interval_cases i <;> first | exact absurd rfl h8 | simp

/-- The result of a loop that has read `read` last. -/
def Ends (seg : Seg) (sel : BitVec 16) (cs : Register) (read : Desc) (out : Except Trap Desc × Desc) : Prop :=
  (∀ trap, check seg sel cs read = some trap → out = (.error trap, read)) ∧
    (check seg sel cs read = none → ∃ now,
      out = (.ok (if seg = .ldtr then read else read.accessed), now) ∧ (seg ≠ .ldtr → now.b = read.b ||| 0x100))

section

variable {seg : Seg} {sel : BitVec 16} {cs : Register} {others : List Desc} {desc : Desc}

/-- The loop does not go round when nobody has changed the descriptor. -/
theorem loop_stops (h : ∀ now rest, others = now :: rest → check seg sel cs desc = none → seg ≠ .ldtr →
    desc.b &&& 0x100 = 0 → now.b = desc.b) : Ends seg sel cs desc (loop seg sel cs others desc) := by
  unfold loop
  refine ⟨fun trap htrap => ?_, fun hok => ?_⟩
  · rw [htrap]
  · rw [hok]
    dsimp only
    by_cases hldtr : seg = .ldtr
    · rw [if_pos hldtr, if_pos hldtr]
      exact ⟨desc, rfl, fun hne => absurd hldtr hne⟩
    · rw [if_neg hldtr, if_neg hldtr]
      by_cases hset : desc.b &&& 0x100 ≠ 0
      · rw [if_pos hset]
        exact ⟨desc, rfl, fun _ => accessed_of_set hset⟩
      · rw [if_neg hset]
        cases others with
        | nil => exact ⟨desc.accessed, rfl, fun _ => rfl⟩
        | cons now rest =>
          dsimp only
          rw [if_pos (h now rest rfl hok hldtr (not_not.mp hset))]
          exact ⟨_, rfl, fun _ => rfl⟩

theorem loop_ends : Ends seg sel cs (lastRead seg sel cs others desc) (loop seg sel cs others desc) := by
  induction others generalizing desc with
  | nil => exact loop_stops nofun
  | cons now rest ih =>
    by_cases hretry : check seg sel cs desc = none ∧ seg ≠ .ldtr ∧ desc.b &&& 0x100 = 0 ∧ now.b ≠ desc.b
    · -- the descriptor is read again
      have hread : lastRead seg sel cs (now :: rest) desc = lastRead seg sel cs rest now := if_pos hretry
      have hloop : loop seg sel cs (now :: rest) desc = loop seg sel cs rest now := by
        rcases hretry with ⟨hok, hldtr, hclear, hchanged⟩
        rw [loop, hok]
        dsimp only
        rw [if_neg hldtr, if_neg (not_not.mpr hclear), if_neg hchanged]
      rw [hread, hloop]
      exact ih
    · have hread : lastRead seg sel cs (now :: rest) desc = desc := if_neg hretry
      rw [hread]
      refine loop_stops fun now' rest' heq hok hldtr hclear => ?_
      rw [← (List.cons.inj heq).1]
      by_contra hchanged
      exact hretry ⟨hok, hldtr, hclear, hchanged⟩

end

/-! ## The call -/

section

variable (env : Env) (seg : Seg) (sel : BitVec 16) (s : Machine)

/-- The descriptor of the selector, as it is read last. -/
def Machine.read : Desc := lastRead seg sel (s.regs .cs) env.others (s.table (s.entry sel))

/-- The selector is not null, and its descriptor can be read: it lies in a table which it may lie in. -/
def Machine.Reaches : Prop :=
  sel &&& 0xfffc ≠ 0 ∧ ¬ (seg = .ldtr ∧ sel &&& 4 ≠ 0) ∧
    (sel &&& 0xfff8).toNat + 7 ≤ (s.desctab sel).limit.toNat ∧ hvmMapEntry env (s.entry sel) = true

/-- In virtual 8086 mode the segments are those of real mode. LDTR is not one of them: it is loaded from the GDT. -/
def RealMode : Prop := env.vm = true ∧ seg ≠ .ldtr

instance : Decidable (RealMode env seg) := inferInstanceAs (Decidable (_ ∧ _))

/-- A task switch may load the selector. -/
def Machine.Allows : Prop :=
  RealMode env seg ∨ (sel &&& 0xfffc = 0 ∧ seg ≠ .cs ∧ seg ≠ .ss) ∨
    (s.Reaches env seg sel ∧ (s.read env seg sel).Loadable seg sel (s.regs .cs))

/-- What a selector gives a register: a segment of real mode, a null segment, or what the descriptor says with its
accessed flag. -/
def Machine.Gives (reg : Register) : Prop :=
  if RealMode env seg then reg = ⟨sel, 0xf3, 0xffff, BitVec.ofNat 64 (sel.toNat * 16)⟩
  else if sel &&& 0xfffc = 0 then reg = ⟨0, 0, 0, 0⟩
  else Describes reg sel (if seg = .ldtr then s.read env seg sel else (s.read env seg sel).accessed)

/-- The call loads what may be loaded. Else the registers are as before, and there is one exception, or the domain
is crashed as its table cannot be mapped. -/
structure Correct (out : Bool × Machine) : Prop where
  success : out.1 = true ↔ s.Allows env seg sel
  loaded : out.1 = true → ∃ reg, out.2.regs = Function.update s.regs seg reg ∧ s.Gives env seg sel reg ∧
    out.2.injected = s.injected ∧ out.2.crashed = s.crashed
  flagged : out.1 = true → ¬ RealMode env seg → sel &&& 0xfffc ≠ 0 → seg ≠ .ldtr →
    (out.2.table (s.entry sel)).b = (s.read env seg sel).b ||| 0x100
  refused : out.1 = false → out.2.regs = s.regs ∧
    ((∃ trap, out.2.injected = s.injected ++ [(trap, sel &&& 0xfffc)] ∧ out.2.crashed = s.crashed) ∨
      (out.2.injected = s.injected ∧ out.2.crashed = true ∧ hvmMapEntry env (s.entry sel) = false))
  elsewhere : ∀ va, va ≠ s.entry sel → out.2.table va = s.table va
  unmapped : out.2.mapped = s.mapped

/-- What may be loaded does not go wrong for conforming code of another privilege level, and there is no LDTR to load
in virtual 8086 mode. -/
def Machine.Plain : Prop :=
  (env.vm = true → seg ≠ .ldtr) ∧ (env.vm = false → s.Reaches env seg sel →
    (s.read env seg sel).Loadable seg sel (s.regs .cs) → ¬ (s.read env seg sel).Mismatch seg sel (s.regs .cs))

variable {env seg sel s} in
/-- Out of virtual 8086 mode the descriptor is all there is to go wrong. -/
theorem Machine.plain_iff (hvm : env.vm = false) : s.Plain env seg sel ↔
    (s.Reaches env seg sel → (s.read env seg sel).Loadable seg sel (s.regs .cs) →
      ¬ (s.read env seg sel).Mismatch seg sel (s.regs .cs)) := by
  unfold Machine.Plain
  rw [hvm]
  exact ⟨fun h => h.2 rfl, fun h => ⟨fun hno => absurd hno Bool.false_ne_true, fun _ => h⟩⟩

theorem not_realMode (hvm : env.vm = false) : ¬ RealMode env seg :=
  fun h => Bool.false_ne_true (hvm.symm.trans h.1)

/-- The segment of real mode is never what an LDT's descriptor says. -/
theorem not_correct_ldtr :
    ¬ Correct env .ldtr sel s (true, s.setReg .ldtr ⟨sel, 0xf3, 0xffff, (sel.setWidth 64) <<< 4⟩) := by
  intro h
  have hreal : ¬ RealMode env .ldtr := fun h => h.2 rfl
  rcases h.loaded rfl with ⟨reg, hregs, hgives, -⟩
  have hreg : reg = ⟨sel, 0xf3, 0xffff, (sel.setWidth 64) <<< 4⟩ := by
    have hat := congrFun hregs .ldtr
    rw [Function.update_self] at hat
    rw [← hat]
    exact Function.update_self Seg.ldtr _ s.regs
  unfold Machine.Gives at hgives
  rw [if_neg hreal] at hgives
  rcases h.success.mp rfl with hreal' | ⟨hnull, -⟩ | ⟨hreach, hloadable⟩
  · exact hreal hreal'
  · rw [if_pos hnull, hreg] at hgives
    have hattr : (0xf3 : BitVec 16) = 0 := congrArg Register.attr hgives
    exact absurd hattr (by decide)
  · rw [if_neg hreach.1, if_pos rfl] at hgives
    have hattr : (0xf3 : BitVec 16) = (s.read env .ldtr sel).attr := by
      have hnat := hgives.attr
      rw [hreg] at hnat
      exact BitVec.eq_of_toNat_eq hnat
    -- bit 12 of the descriptor is clear for a system segment
    have hbit := congrArg (fun x => x.getLsbD 4) hattr
    have hsystem : (s.read env .ldtr sel).attr.getLsbD 4 = (s.read env .ldtr sel).notSystem := by
      unfold Desc.attr Desc.notSystem
      rw [BitVec.getLsbD_setWidth, BitVec.getLsbD_append]
      simp
    exact absurd (hbit.trans (hsystem.trans hloadable.2.1)) (by decide)

/-- A selector that is refused before its descriptor is read. -/
theorem correct_refused (hvm : env.vm = false) (hnull : sel &&& 0xfffc = 0 → seg = .cs ∨ seg = .ss)
    (hreach : ¬ s.Reaches env seg sel) : Correct env seg sel s (false, s.inject .invalidTss (sel &&& 0xfffc)) where
  success := by
    refine iff_of_false Bool.false_ne_true ?_
    rintro (hreal | ⟨hzero, hcs, hss⟩ | ⟨hreach', -⟩)
    · exact not_realMode env seg hvm hreal
    · exact (hnull hzero).elim hcs hss
    · exact hreach hreach'
  loaded h := nomatch h
  flagged h := nomatch h
  refused _ := ⟨rfl, .inl ⟨.invalidTss, rfl, rfl⟩⟩
  elsewhere _ _ := rfl
  unmapped := rfl

theorem correct_read_iff (hvm : env.vm = false) (hreach : s.Reaches env seg sel) :
    Correct env seg sel s
      (let s := { s with mapped := s.mapped + 1 }
      let (out, desc) := loop seg sel (s.regs .cs) env.others (s.table (s.entry sel))
      let s := { s with table := Function.update s.table (s.entry sel) desc, mapped := s.mapped - 1 }
      match out with
      | .error trap => (false, s.inject trap (sel &&& 0xfffc))
      | .ok desc => (true, s.setReg seg (desc.toRegister sel))) ↔ s.Plain env seg sel := by
  rw [Machine.plain_iff hvm]
  have hends : Ends seg sel (s.regs .cs) (s.read env seg sel)
    (loop seg sel (s.regs .cs) env.others (s.table (s.entry sel))) := loop_ends
  have hcheck := check_iff seg sel (s.regs .cs) (s.read env seg sel)
  have hallows : s.Allows env seg sel ↔ (s.read env seg sel).Loadable seg sel (s.regs .cs) := by
    constructor
    · rintro (hreal | ⟨hzero, -⟩ | ⟨-, hloadable⟩)
      · exact absurd hreal (not_realMode env seg hvm)
      · exact absurd hzero hreach.1
      · exact hloadable
    · exact fun hloadable => .inr (.inr ⟨hreach, hloadable⟩)
  have hentry : ({ s with mapped := s.mapped + 1 } : Machine).entry sel = s.entry sel := rfl
  dsimp only
  rw [hentry]
  cases hout : check seg sel (s.regs .cs) (s.read env seg sel) with
  | some trap =>
    rw [hends.1 trap hout]
    constructor
    · intro h _ hloadable
      exact absurd (h.success.mpr (hallows.mpr hloadable)) Bool.false_ne_true
    · intro h
      refine ⟨iff_of_false Bool.false_ne_true fun hallow => ?_, nofun, nofun, fun _ => ⟨rfl, .inl ⟨trap, rfl, rfl⟩⟩,
        fun va hva => Function.update_of_ne hva _ _, rfl⟩
      have hloadable := hallows.mp hallow
      have hnone := hcheck.mpr ⟨hloadable, h hreach hloadable⟩
      exact absurd (hout.symm.trans hnone) nofun
  | none =>
    rcases hends.2 hout with ⟨now, hloop, hflag⟩
    rw [hloop]
    rcases hcheck.mp hout with ⟨hloadable, hmatch⟩
    refine iff_of_true ⟨iff_of_true rfl (hallows.mpr hloadable), fun _ => ⟨_, rfl, ?_, rfl, rfl⟩,
      fun _ _ _ hldtr => ?_, nofun, fun va hva => Function.update_of_ne hva _ _, rfl⟩ fun _ _ => hmatch
    · unfold Machine.Gives
      rw [if_neg (not_realMode env seg hvm), if_neg hreach.1]
      exact toRegister_describes _ sel
    · exact (congrArg Desc.b (Function.update_self (s.entry sel) now s.table)).trans (hflag hldtr)

/-- Just what may be loaded is loaded, but for conforming code of another privilege level, and for LDTR in virtual
8086 mode. -/
theorem hvmLoadSegmentSelector_iff :
    Correct env seg sel s (hvmLoadSegmentSelector env seg sel s) ↔ s.Plain env seg sel := by
  unfold hvmLoadSegmentSelector
  by_cases hvm : env.vm = true
  · rw [if_pos hvm]
    by_cases hldtr : seg = .ldtr
    · subst hldtr
      exact iff_of_false (not_correct_ldtr env sel s) fun h => h.1 hvm rfl
    have hreal : RealMode env seg := ⟨hvm, hldtr⟩
    refine iff_of_true ?_ ⟨fun _ => hldtr, fun hno => absurd (hvm.symm.trans hno) Bool.noConfusion⟩
    have hbase : (sel.setWidth 64) <<< 4 = BitVec.ofNat 64 (sel.toNat * 16) := by
      apply BitVec.eq_of_toNat_eq
      rw [BitVec.toNat_shiftLeft, BitVec.toNat_setWidth, Nat.shiftLeft_eq, BitVec.toNat_ofNat]
      omega
    refine ⟨iff_of_true rfl (.inl hreal), fun _ => ⟨_, rfl, ?_, rfl, rfl⟩, fun _ hno => absurd hreal hno, nofun,
      fun _ _ => rfl, rfl⟩
    unfold Machine.Gives
    rw [if_pos hreal, hbase]
  · have hvm : env.vm = false := Bool.eq_false_of_not_eq_true hvm
    rw [hvm, if_neg Bool.false_ne_true]
    by_cases hnull : sel &&& 0xfffc = 0
    · rw [if_pos hnull]
      have hreach : ¬ s.Reaches env seg sel := fun h => h.1 hnull
      refine iff_of_true ?_ ((Machine.plain_iff hvm).mpr fun h => absurd h hreach)
      split
      · rename_i hcode
        exact correct_refused env seg sel s hvm (fun _ => hcode) hreach
      · rename_i hdata
        rw [not_or] at hdata
        refine ⟨iff_of_true rfl (.inr (.inl ⟨hnull, hdata⟩)), fun _ => ⟨_, rfl, ?_, rfl, rfl⟩, fun _ _ hne => ?_, nofun,
          fun _ _ => rfl, rfl⟩
        · unfold Machine.Gives
          rw [if_neg (not_realMode env seg hvm), if_pos hnull]
        · exact absurd hnull hne
    · rw [if_neg hnull]
      by_cases hldt : seg = .ldtr ∧ sel &&& 4 ≠ 0
      · rw [if_pos hldt]
        have hreach : ¬ s.Reaches env seg sel := fun h => h.2.1 hldt
        exact iff_of_true (correct_refused env seg sel s hvm (fun h => absurd h hnull) hreach)
          ((Machine.plain_iff hvm).mpr fun h => absurd h hreach)
      · rw [if_neg hldt]
        by_cases hout : (sel &&& 0xfff8).toNat + 7 > (s.desctab sel).limit.toNat
        · rw [if_pos hout]
          have hreach : ¬ s.Reaches env seg sel := fun h => absurd h.2.2.1 (Nat.not_le.mpr hout)
          exact iff_of_true (correct_refused env seg sel s hvm (fun h => absurd h hnull) hreach)
            ((Machine.plain_iff hvm).mpr fun h => absurd h hreach)
        · rw [if_neg hout]
          by_cases hmap : hvmMapEntry env (s.entry sel) = true
          · rw [hmap, Bool.not_true, if_neg Bool.false_ne_true]
            have hreach : s.Reaches env seg sel := ⟨hnull, hldt, Nat.not_lt.mp hout, hmap⟩
            exact correct_read_iff env seg sel s hvm hreach
          · have hmap : hvmMapEntry env (s.entry sel) = false := Bool.eq_false_of_not_eq_true hmap
            rw [hmap, Bool.not_false, if_pos rfl]
            have hreach : ¬ s.Reaches env seg sel := fun h => Bool.false_ne_true (hmap.symm.trans h.2.2.2)
            refine iff_of_true ⟨iff_of_false Bool.false_ne_true ?_, nofun, nofun, fun _ => ⟨rfl, .inr ⟨rfl, rfl, hmap⟩⟩,
              fun _ _ => rfl, rfl⟩ ((Machine.plain_iff hvm).mpr fun h => absurd h hreach)
            rintro (hreal | ⟨hzero, -⟩ | ⟨hreach', -⟩)
            · exact not_realMode env seg hvm hreal
            · exact hnull hzero
            · exact hreach hreach'

end

/-- A GDT with a descriptor of conforming code of level 0, and a CS of level 3. -/
private def conformingCode : Machine where
  regs seg := if seg = .cs then ⟨0x1b, 0xcfb, 0xffffffff, 0⟩ else ⟨0, 0, 0xffff, 0x1000⟩
  table _ := ⟨0x0000ffff, 0x00cf9f00⟩
  injected := []
  crashed := false
  mapped := 0

/-- Data segments can be loaded with conforming code of any level: it is refused. -/
theorem hvmLoadSegmentSelector_conforming :
    conformingCode.Allows ⟨false, fun _ => true, []⟩ .ds 0x10 ∧
      (hvmLoadSegmentSelector ⟨false, fun _ => true, []⟩ .ds 0x10 conformingCode).1 = false ∧
      ¬ Correct ⟨false, fun _ => true, []⟩ .ds 0x10 conformingCode
        (hvmLoadSegmentSelector ⟨false, fun _ => true, []⟩ .ds 0x10 conformingCode) := by
  have hallows : conformingCode.Allows ⟨false, fun _ => true, []⟩ .ds 0x10 := by
    refine .inr (.inr ⟨⟨by decide, by decide, by decide, by decide⟩, by decide, by decide, by decide, .inl (by decide)⟩)
  have hrefused : (hvmLoadSegmentSelector ⟨false, fun _ => true, []⟩ .ds 0x10 conformingCode).1 = false := by
    decide +kernel
  refine ⟨hallows, hrefused, fun h => ?_⟩
  exact absurd (h.success.mpr hallows) (by rw [hrefused]; exact Bool.false_ne_true)

end Hvm.Segment
