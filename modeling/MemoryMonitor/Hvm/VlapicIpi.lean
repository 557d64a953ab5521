import MemoryMonitor.Hvm.Vlapic

/-!
# Interrupts between processors

Which vLAPICs get an interrupt of fixed delivery mode, and the logical ids that `vlapic_msr_set` gives in x2APIC mode.
The physical id of a vLAPIC is kept in the top byte of its register in both modes.
-/

namespace Hvm.Vlapic

namespace Lapic

def setReg (l : Lapic) (reg val : BitVec 32) : Lapic := { l with regs := Function.update l.regs reg val }

/-- `vlapic_reset`. -/
def reset (vcpuId : Nat) (l : Lapic) : Lapic :=
  let l := (l.setReg apicId (BitVec.ofNat 32 (vcpuId * 2) <<< 24)).setReg apicLvr 0x00050014
  let l := (List.range 8).foldl (fun l i =>
    ((l.setReg (regPos apicIrr i) 0).setReg (regPos apicIsr i) 0).setReg (regPos apicTmr i) 0) l
  let l := ([apicIcr, apicIcr2, apicLdr, apicTaskpri, apicTmict, apicTmcct, apicTdcr]).foldl
    (fun l reg => l.setReg reg 0) l
  let l := { l.setReg apicDfr 0xffffffff with timerDivisor := 2 }
  let l := (List.range 6).foldl (fun l i => l.setReg (regPos apicLvtt i) lvtMasked) l
  { l.setReg apicSpiv 0xff with swDisabled := true }

/-- The logical id that goes with the register of the id. -/
def x2apicLdr (id : BitVec 32) : BitVec 32 := ((id &&& ~~~0xf) <<< 16) ||| (1#32 <<< (id &&& 0xf).toNat)

/-- `vlapic_msr_set`. -/
def msrSet (vcpuId : Nat) (value : BitVec 64) (l : Lapic) : Lapic :=
  let l :=
    if (l.apicBaseMsr ^^^ value).getLsbD 11 then
      if value.getLsbD 11 then { l.reset vcpuId with hwDisabled := false } else { l with hwDisabled := true }
    else l
  let l := { l with apicBaseMsr := value }
  if l.x2apicMode then l.setReg apicLdr (x2apicLdr (l.regs apicId)) else l

/-- The vector waits in the IRR. -/
def pending (l : Lapic) (vec : BitVec 8) : Bool :=
  (l.regs (regPos apicIrr (vec.toNat / 32))).getLsbD (vec.toNat % 32)

/-- The physical id. -/
def id (l : Lapic) : BitVec 32 := (l.regs apicId >>> 24) &&& 0xff

/-- The logical match of eight bits, in the flat or the cluster format. -/
def matches8 (l : Lapic) (mda : BitVec 8) : Bool :=
  let logicalId : BitVec 32 := (l.regs apicLdr >>> 24) &&& 0xff
  if l.regs apicDfr = dfrFlat then logicalId &&& mda.setWidth 32 ≠ 0
  else if l.regs apicDfr = dfrCluster then
    logicalId >>> 4 = (mda >>> 4).setWidth 32 && logicalId &&& mda.setWidth 32 &&& 0xf ≠ 0
  else false

end Lapic

variable {V : Type} [DecidableEq V]

/-- An interrupt as the ICR of a vLAPIC describes it: its destination has 32 bits or eight. -/
structure Icr (V : Type) where
  source : V
  x2apic : Bool
  short : Short
  logical : Bool
  dest : BitVec 32

def Icr.ofRegs (lapic : V → Lapic) (source : V) (icrLow icrHigh : BitVec 32) : Icr V where
  source := source
  x2apic := (lapic source).x2apicMode
  short := .ofIcr icrLow
  logical := icrLow.getLsbD 11
  dest := if (lapic source).x2apicMode then icrHigh else (icrHigh >>> 24) &&& 0xff

/-- The interrupt is addressed to the vLAPIC: by shorthand, by its physical id, or by its logical id in the format
of its mode. -/
def Icr.Addresses (i : Icr V) (target : V) (l : Lapic) : Prop :=
  match i.short with
  | .self => target = i.source
  | .allinc => True
  | .allbut => target ≠ i.source
  | .noshort =>
      if i.logical then
        if l.x2apicMode then
          l.regs apicLdr >>> 16 = i.dest >>> 16 ∧ l.regs apicLdr &&& i.dest &&& 0xffff ≠ 0
        else i.dest.toNat < 256 ∧ l.matches8 (i.dest.setWidth 8) = true
      else i.dest = (if i.x2apic then 0xffffffff else 0xff) ∨ i.dest = l.id

/-- The eight low bits of the destination, which the code goes by, say as much as all of it. -/
def Icr.FitsByte (i : Icr V) (l : Lapic) : Prop :=
  i.short = .noshort →
    if i.logical then
      if l.x2apicMode then
        (l.regs apicLdr &&& i.dest &&& 0xff ≠ 0 ↔
          l.regs apicLdr >>> 16 = i.dest >>> 16 ∧ l.regs apicLdr &&& i.dest &&& 0xffff ≠ 0)
      else l.matches8 (i.dest.setWidth 8) = true → i.dest.toNat < 256
    else
      i.x2apic = true → i.dest.toNat % 256 = 255 ∨ i.dest.toNat % 256 = l.id.toNat →
        i.dest = 0xffffffff ∨ i.dest = l.id

/-! ## What the code goes by -/

/-- What `vlapic_match_dest` finds out. -/
def Icr.matchesByte (i : Icr V) (target : V) (l : Lapic) : Bool :=
  match i.short with
  | .self => target = i.source
  | .allinc => true
  | .allbut => target ≠ i.source
  | .noshort =>
      if i.logical then
        if l.x2apicMode then l.regs apicLdr &&& (i.dest.setWidth 8).setWidth 32 ≠ 0
        else l.matches8 (i.dest.setWidth 8)
      else i.dest.setWidth 8 = 0xff#8 || (i.dest.setWidth 8).setWidth 32 = l.id

theorem id_lt (l : Lapic) : l.id.toNat < 256 := by
  unfold Lapic.id
  rw [BitVec.toNat_and]
  exact Nat.lt_of_le_of_lt Nat.and_le_right (by decide)

theorem byte_mask (x : BitVec 32) : (x.setWidth 8).setWidth 32 = x &&& 0xff := by
  apply BitVec.eq_of_toNat_eq
  rw [BitVec.toNat_setWidth, BitVec.toNat_setWidth, BitVec.toNat_and]
  have hmask : x.toNat &&& (0xff : BitVec 32).toNat = x.toNat % 2 ^ 8 := Nat.and_two_pow_sub_one_eq_mod x.toNat 8
  rw [hmask]
  omega

/-- The vLAPICs that are found are those addressed just if the low byte of the destination is enough. -/
theorem matchesByte_iff (i : Icr V) (hdest : i.x2apic = false → i.dest.toNat < 256) (target : V) (l : Lapic) :
    (i.matchesByte target l = true ↔ i.Addresses target l) ↔ i.FitsByte l := by
  unfold Icr.matchesByte Icr.Addresses Icr.FitsByte
  cases hshort : i.short with
  | self => simp
  | allinc => simp
  | allbut => simp
  | noshort =>
    dsimp only
    rw [forall_prop_of_true rfl]
    cases hlogical : i.logical with
    | true =>
      rw [if_pos rfl, if_pos rfl, if_pos rfl]
      cases hmode : l.x2apicMode with
      | true =>
        rw [if_pos rfl, if_pos rfl, if_pos rfl, byte_mask, decide_eq_true_iff, ← BitVec.and_assoc]
      | false =>
        rw [if_neg Bool.false_ne_true, if_neg Bool.false_ne_true, if_neg Bool.false_ne_true]
        exact ⟨fun h hmatch => (h.mp hmatch).1, fun h => ⟨fun hmatch => ⟨h hmatch, hmatch⟩, fun hboth => hboth.2⟩⟩
    | false =>
      rw [if_neg Bool.false_ne_true, if_neg Bool.false_ne_true, if_neg Bool.false_ne_true, Bool.or_eq_true_iff,
        decide_eq_true_iff, decide_eq_true_iff]
      have hid := id_lt l
      have hall : i.dest.setWidth 8 = 0xff#8 ↔ i.dest.toNat % 256 = 255 := by
        rw [← BitVec.toNat_inj, BitVec.toNat_setWidth]
        rfl
      have hone : (i.dest.setWidth 8).setWidth 32 = l.id ↔ i.dest.toNat % 256 = l.id.toNat := by
        rw [← BitVec.toNat_inj, BitVec.toNat_setWidth, BitVec.toNat_setWidth]
        omega
      have hself : i.dest = l.id ↔ i.dest.toNat = l.id.toNat := BitVec.toNat_inj.symm
      rw [hall, hone]
      cases hmode : i.x2apic with
      | true =>
        rw [if_pos rfl, forall_prop_of_true rfl]
        have hones : i.dest = 0xffffffff ↔ i.dest.toNat = 0xffffffff := BitVec.toNat_inj.symm
        rw [hones, hself]
        constructor
        · exact fun h hbyte => h.mp hbyte
        · intro h
          refine ⟨h, ?_⟩
          omega
      | false =>
        have hbound := hdest hmode
        have hones : i.dest = 0xff ↔ i.dest.toNat = 0xff := BitVec.toNat_inj.symm
        rw [if_neg Bool.false_ne_true, hones, hself]
        refine iff_of_true ?_ fun hno => Bool.noConfusion hno
        omega

/-! ## Runs of the code -/

/-- `vlapic_match_dest` finds out what it should and changes nothing. -/
theorem matchDest_spec (i : Icr V) (target : V) (s : State V) : ∃ t,
    matchDest target i.source i.short (i.dest.setWidth 8) i.logical s =
      (i.matchesByte target (s.lapic target), { s with touched := t }) := by
  unfold matchDest Icr.matchesByte
  cases i.short with
  | self => exact ⟨_, rfl⟩
  | allinc => exact ⟨_, rfl⟩
  | allbut => exact ⟨_, rfl⟩
  | noshort =>
    dsimp only
    cases i.logical with
    | false => exact ⟨_, rfl⟩
    | true =>
      rw [if_pos rfl, if_pos rfl]
      show ∃ t, (if (s.lapic target).x2apicMode then _ else _ : M V Bool) s = _
      cases (s.lapic target).x2apicMode with
      | true => exact ⟨_, rfl⟩
      | false =>
        rw [if_neg Bool.false_ne_true, if_neg Bool.false_ne_true]
        unfold Lapic.matches8
        show ∃ t, (if (s.lapic target).regs apicDfr = dfrFlat then _ else _ : M V Bool) _ = _
        by_cases hflat : (s.lapic target).regs apicDfr = dfrFlat
        · rw [if_pos hflat]
          dsimp only
          rw [if_pos hflat]
          exact ⟨_, rfl⟩
        · rw [if_neg hflat]
          dsimp only
          rw [if_neg hflat]
          by_cases hcluster : (s.lapic target).regs apicDfr = dfrCluster
          · rw [if_pos hcluster, if_pos hcluster]
            exact ⟨_, rfl⟩
          · rw [if_neg hcluster, if_neg hcluster]
            exact ⟨_, rfl⟩

/-- The vector is set in the IRR. -/
def Lapic.setIrr (l : Lapic) (vec : BitVec 8) : Lapic :=
  l.setReg (regPos apicIrr (vec.toNat / 32)) (l.regs (regPos apicIrr (vec.toNat / 32)) ||| (1#32 <<< (vec.toNat % 32)))

/-- A vLAPIC that is enabled takes an interrupt of fixed delivery mode. -/
theorem acceptIrq_spec {icrLow : BitVec 32} (hfixed : (icrLow >>> 8) &&& 7 = 0) (source v : V) (s : State V) : ∃ t,
    acceptIrq source v icrLow s = (.okay, { s with
      lapic := if (s.lapic v).enabled then Function.update s.lapic v ((s.lapic v).setIrr (icrLow.setWidth 8)) else s.lapic
      touched := t }) := by
  unfold acceptIrq
  rw [hfixed]
  show ∃ t, (if (s.lapic v).enabled then _ else _ : M V Rc) s = _
  cases (s.lapic v).enabled with
  | true => exact ⟨_, rfl⟩
  | false => exact ⟨_, rfl⟩

/-- The registers that destinations are compared with are not those of the IRR. -/
theorem setIrr_regs (l : Lapic) (vec : BitVec 8) {reg : BitVec 32} (hreg : reg.toNat < 0x200) :
    (l.setIrr vec).regs reg = l.regs reg := by
  refine Function.update_of_ne (fun heq => ?_) _ _
  have hirr : apicIrr.toNat = 0x200 := rfl
  rw [heq, regPos, BitVec.toNat_add, BitVec.toNat_ofNat, hirr] at hreg
  omega

theorem matches8_setIrr (l : Lapic) (vec : BitVec 8) (mda : BitVec 8) :
    (l.setIrr vec).matches8 mda = l.matches8 mda := by
  unfold Lapic.matches8
  rw [setIrr_regs l vec (show apicLdr.toNat < 0x200 by decide), setIrr_regs l vec (show apicDfr.toNat < 0x200 by decide)]

theorem matchesByte_setIrr (i : Icr V) (target : V) (l : Lapic) (vec : BitVec 8) :
    i.matchesByte target (l.setIrr vec) = i.matchesByte target l := by
  have hmode : (l.setIrr vec).x2apicMode = l.x2apicMode := rfl
  unfold Icr.matchesByte Lapic.id
  rw [matches8_setIrr, hmode, setIrr_regs l vec (show apicLdr.toNat < 0x200 by decide),
    setIrr_regs l vec (show apicId.toNat < 0x200 by decide)]

theorem pending_setIrr (l : Lapic) (vec : BitVec 8) : (l.setIrr vec).pending vec = true := by
  show (Function.update l.regs _ _ _).getLsbD _ = true
  rw [Function.update_self, BitVec.getLsbD_or]
  have hlt := Nat.mod_lt vec.toNat (show 32 > 0 by decide)
  simp [hlt]

/-- The vLAPIC after an interrupt of fixed delivery mode. -/
def Icr.deliver (i : Icr V) (vec : BitVec 8) (v : V) (l : Lapic) : Lapic :=
  if l.enabled && i.matchesByte v l then l.setIrr vec else l

theorem deliver_deliver (i : Icr V) (vec : BitVec 8) (v : V) (l : Lapic) :
    i.deliver vec v (i.deliver vec v l) = i.deliver vec v l := by
  unfold Icr.deliver
  by_cases h : (l.enabled && i.matchesByte v l) = true
  · have henabled : (l.setIrr vec).enabled = l.enabled := rfl
    rw [if_pos h, henabled, matchesByte_setIrr, if_pos h]
    unfold Lapic.setIrr Lapic.setReg
    dsimp only
    rw [Function.update_self, Function.update_idem, BitVec.or_assoc, BitVec.or_self]
  · rw [if_neg h, if_neg h]

theorem ipiLoop_cons {icrLow : BitVec 32} (hfixed : (icrLow >>> 8) &&& 7 = 0) (i : Icr V) (w : V) (rest : List V)
    (s : State V) : ∃ t,
    ipiLoop i.source i.short (i.dest.setWidth 8) i.logical icrLow (w :: rest) s =
      ipiLoop i.source i.short (i.dest.setWidth 8) i.logical icrLow rest { s with
        lapic := Function.update s.lapic w (i.deliver (icrLow.setWidth 8) w (s.lapic w)), touched := t } := by
  rcases matchDest_spec i w s with ⟨t, hmatch⟩
  rw [ipiLoop]
  show ∃ t, (if (matchDest w i.source i.short (i.dest.setWidth 8) i.logical s).1 = true then _ else _ : M V Rc)
    (matchDest w i.source i.short (i.dest.setWidth 8) i.logical s).2 = _
  rw [hmatch]
  unfold Icr.deliver
  cases i.matchesByte w (s.lapic w) with
  | true =>
    rw [if_pos rfl, Bool.and_true]
    rcases acceptIrq_spec hfixed i.source w { s with touched := t } with ⟨t', haccept⟩
    show ∃ t', (if (acceptIrq i.source w icrLow { s with touched := t }).1 = .okay then _ else _ : M V Rc)
      (acceptIrq i.source w icrLow { s with touched := t }).2 = _
    rw [haccept, if_pos rfl]
    refine ⟨t', ?_⟩
    cases (s.lapic w).enabled with
    | true => rfl
    | false =>
      dsimp only
      rw [if_neg Bool.false_ne_true, if_neg Bool.false_ne_true, Function.update_eq_self]
  | false =>
    rw [if_neg Bool.false_ne_true, Bool.and_false, if_neg Bool.false_ne_true, Function.update_eq_self]
    exact ⟨t, rfl⟩

theorem ipiLoop_spec {icrLow : BitVec 32} (hfixed : (icrLow >>> 8) &&& 7 = 0) (i : Icr V) (vcpus : List V)
    (s : State V) : ∃ t,
    ipiLoop i.source i.short (i.dest.setWidth 8) i.logical icrLow vcpus s = (.okay, { s with
      lapic := fun v => if v ∈ vcpus then i.deliver (icrLow.setWidth 8) v (s.lapic v) else s.lapic v
      touched := t }) := by
  induction vcpus generalizing s with
  | nil => exact ⟨_, rfl⟩
  | cons w rest ih =>
    rcases ipiLoop_cons hfixed i w rest s with ⟨t, hone⟩
    rcases ih { s with
      lapic := Function.update s.lapic w (i.deliver (icrLow.setWidth 8) w (s.lapic w)), touched := t } with ⟨t', hrest⟩
    refine ⟨t', hone.trans (hrest.trans ?_)⟩
    have hlapic : (fun v => if v ∈ rest then i.deliver (icrLow.setWidth 8) v
          (Function.update s.lapic w (i.deliver (icrLow.setWidth 8) w (s.lapic w)) v)
        else Function.update s.lapic w (i.deliver (icrLow.setWidth 8) w (s.lapic w)) v) =
        fun v => if v ∈ w :: rest then i.deliver (icrLow.setWidth 8) v (s.lapic v) else s.lapic v := by
      funext v
      by_cases hv : v = w
      · rw [hv, Function.update_self, deliver_deliver, ite_self, if_pos List.mem_cons_self]
      · rw [Function.update_of_ne hv]
        simp only [List.mem_cons, hv, false_or]
    rw [hlapic]

/-- A fixed interrupt is set in the IRRs of the vLAPICs that are enabled and are found. -/
theorem vlapicIpi_spec {icrLow : BitVec 32} (hfixed : (icrLow >>> 8) &&& 7 = 0) (icrHigh : BitVec 32) (vcpus : List V)
    (source : V) (s : State V) (v : V) :
    ((vlapicIpi vcpus source icrLow icrHigh s).2.lapic v) =
      if v ∈ vcpus then (Icr.ofRegs s.lapic source icrLow icrHigh).deliver (icrLow.setWidth 8) v (s.lapic v)
      else s.lapic v := by
  rcases ipiLoop_spec hfixed (Icr.ofRegs s.lapic source icrLow icrHigh) vcpus s with ⟨t, hloop⟩
  have hcall : vlapicIpi vcpus source icrLow icrHigh s = ipiLoop source (.ofIcr icrLow)
      ((Icr.ofRegs s.lapic source icrLow icrHigh).dest.setWidth 8) (icrLow.getLsbD 11) icrLow vcpus s := by
    show (if (icrLow >>> 8) &&& 7 = 1 then _ else _ : M V Rc) s = _
    rw [hfixed, if_neg (by decide)]
    rfl
  exact congrArg (fun out : Rc × State V => out.2.lapic v) (hcall.trans hloop)

/-! ## Logical ids -/

theorem toNat_x2apicLdr (id : BitVec 32) :
    (Lapic.x2apicLdr id).toNat = id.toNat % 2 ^ 16 / 16 * 2 ^ 20 + 2 ^ (id.toNat % 16) := by
  have hhigh : (id &&& ~~~(0xf : BitVec 32)).toNat = id.toNat / 16 * 16 := toNat_clearLow id 4
  have hlow : (id &&& (0xf : BitVec 32)).toNat = id.toNat % 16 := Nat.and_two_pow_sub_one_eq_mod id.toNat 4
  have hpow : 2 ^ (id.toNat % 16) < 2 ^ 20 := Nat.pow_lt_pow_right (by decide) (by omega)
  unfold Lapic.x2apicLdr
  rw [BitVec.toNat_or, BitVec.toNat_shiftLeft, BitVec.toNat_shiftLeft, hhigh, hlow, Nat.shiftLeft_eq, Nat.shiftLeft_eq]
  have hone : (1#32).toNat * 2 ^ (id.toNat % 16) % 2 ^ 32 = 2 ^ (id.toNat % 16) := by
    rw [show (1#32).toNat = 1 from rfl, Nat.one_mul]
    exact Nat.mod_eq_of_lt (Nat.lt_trans hpow (by decide))
  have hcluster : id.toNat / 16 * 16 * 2 ^ 16 % 2 ^ 32 = 2 ^ 20 * (id.toNat % 2 ^ 16 / 16) := by omega
  rw [hone, hcluster, ← Nat.two_pow_add_eq_or_of_lt hpow, Nat.mul_comm]

/-- Two ids have the same logical id just if they agree in their low 16 bits. -/
theorem x2apicLdr_inj (id id' : BitVec 32) :
    Lapic.x2apicLdr id = Lapic.x2apicLdr id' ↔ id.toNat % 2 ^ 16 = id'.toNat % 2 ^ 16 := by
  rw [← BitVec.toNat_inj, toNat_x2apicLdr, toNat_x2apicLdr]
  have hlt : ∀ n : Nat, 2 ^ (n % 16) < 2 ^ 20 := fun n => Nat.pow_lt_pow_right (by decide) (by omega)
  have h := hlt id.toNat
  have h' := hlt id'.toNat
  constructor
  · intro heq
    have hlow : 2 ^ (id.toNat % 16) = 2 ^ (id'.toNat % 16) := by
      generalize 2 ^ (id.toNat % 16) = p at *
      generalize 2 ^ (id'.toNat % 16) = q at *
      omega
    have hexp := Nat.pow_right_injective (Nat.le_refl 2) hlow
    rw [hlow] at heq
    omega
  · intro heq
    have hmod : id.toNat % 16 = id'.toNat % 16 := by omega
    rw [heq, hmod]

theorem msrSet_ldr {vcpuId : Nat} {value : BitVec 64} {l : Lapic} (h : (l.msrSet vcpuId value).x2apicMode = true) :
    (l.msrSet vcpuId value).regs apicLdr = Lapic.x2apicLdr ((l.msrSet vcpuId value).regs apicId) := by
  unfold Lapic.msrSet at *
  dsimp only at *
  generalize (if (l.apicBaseMsr ^^^ value).getLsbD 11 then
    if value.getLsbD 11 then { l.reset vcpuId with hwDisabled := false } else { l with hwDisabled := true } else l) = l'
    at *
  by_cases hmode : ({ l' with apicBaseMsr := value } : Lapic).x2apicMode = true
  · rw [if_pos hmode]
    generalize hldr : Lapic.x2apicLdr (l'.regs apicId) = ldr
    show Function.update l'.regs apicLdr ldr apicLdr = Lapic.x2apicLdr (Function.update l'.regs apicLdr ldr apicId)
    rw [Function.update_self, Function.update_of_ne (by decide), hldr]
  · rw [if_neg hmode] at h
    exact absurd h hmode

/-! ## The property -/

/-- The vLAPICs of a domain have been put into modes, the ones in x2APIC mode have logical ids of their own, and an
interrupt is set in the IRRs of those that are enabled and addressed. -/
structure Addressed (vcpus : List V) (before after : V → Lapic) (i : Icr V) (vec : BitVec 8) : Prop where
  distinct : ∀ v ∈ vcpus, ∀ w ∈ vcpus, v ≠ w → (before v).x2apicMode = true → (before w).x2apicMode = true →
    (before v).regs apicLdr ≠ (before w).regs apicLdr
  exact : ∀ v ∈ vcpus, (after v).pending vec = true ↔
    (before v).pending vec = true ∨ ((before v).enabled = true ∧ i.Addresses v (before v))

/-- Interrupts reach those that are addressed just if ids in x2APIC mode differ in their low 16 bits, and for every
vLAPIC that could take the interrupt the low byte of the destination says enough. -/
theorem vlapicIpi_iff (lapic : V → Lapic) (vcpuId : V → Nat) (value : V → BitVec 64) (s : State V) (vcpus : List V)
    (source : V) (icrLow icrHigh : BitVec 32) (hfixed : (icrLow >>> 8) &&& 7 = 0)
    (hs : s.lapic = fun v => (lapic v).msrSet (vcpuId v) (value v)) :
    Addressed vcpus s.lapic (vlapicIpi vcpus source icrLow icrHigh s).2.lapic
        (.ofRegs s.lapic source icrLow icrHigh) (icrLow.setWidth 8) ↔
      (∀ v ∈ vcpus, ∀ w ∈ vcpus, v ≠ w → (s.lapic v).x2apicMode = true → (s.lapic w).x2apicMode = true →
        ((s.lapic v).regs apicId).toNat % 2 ^ 16 ≠ ((s.lapic w).regs apicId).toNat % 2 ^ 16) ∧
      ∀ v ∈ vcpus, (s.lapic v).enabled = true → (s.lapic v).pending (icrLow.setWidth 8) = false →
        (Icr.ofRegs s.lapic source icrLow icrHigh).FitsByte (s.lapic v) := by
  have hldr : ∀ v, (s.lapic v).x2apicMode = true → (s.lapic v).regs apicLdr = Lapic.x2apicLdr ((s.lapic v).regs apicId) := by
    rw [hs]
    exact fun v hv => msrSet_ldr hv
  have hids : ∀ v w, (s.lapic v).x2apicMode = true → (s.lapic w).x2apicMode = true →
      ((s.lapic v).regs apicLdr ≠ (s.lapic w).regs apicLdr ↔
        ((s.lapic v).regs apicId).toNat % 2 ^ 16 ≠ ((s.lapic w).regs apicId).toNat % 2 ^ 16) := by
    intro v w hv hw
    rw [hldr v hv, hldr w hw]
    exact not_congr (x2apicLdr_inj _ _)
  have hdest : (Icr.ofRegs s.lapic source icrLow icrHigh).x2apic = false →
      (Icr.ofRegs s.lapic source icrLow icrHigh).dest.toNat < 256 := by
    unfold Icr.ofRegs
    intro hmode
    dsimp only at hmode ⊢
    rw [hmode, if_neg Bool.false_ne_true, BitVec.toNat_and]
    exact Nat.lt_of_le_of_lt Nat.and_le_right (by decide)
  generalize hi : Icr.ofRegs s.lapic source icrLow icrHigh = i at hdest
  -- what the interrupt does to one of the vLAPICs
  have hone : ∀ v ∈ vcpus, (((vlapicIpi vcpus source icrLow icrHigh s).2.lapic v).pending (icrLow.setWidth 8) = true ↔
      (s.lapic v).pending (icrLow.setWidth 8) = true ∨ ((s.lapic v).enabled = true ∧ i.matchesByte v (s.lapic v) = true)) := by
    intro v hv
    rw [vlapicIpi_spec hfixed, if_pos hv, hi]
    unfold Icr.deliver
    by_cases htakes : ((s.lapic v).enabled && i.matchesByte v (s.lapic v)) = true
    · rw [if_pos htakes]
      exact iff_of_true (pending_setIrr _ _) (.inr (Bool.and_eq_true_iff.mp htakes))
    · rw [if_neg htakes, or_iff_left]
      rwa [← Bool.and_eq_true_iff]
  constructor
  · rintro ⟨hdistinct, hexact⟩
    refine ⟨fun v hv w hw hne hvx hwx => (hids v w hvx hwx).mp (hdistinct v hv w hw hne hvx hwx),
      fun v hv henabled hclear => ?_⟩
    have hsame := (hone v hv).symm.trans (hexact v hv)
    rw [hclear, henabled] at hsame
    rw [← matchesByte_iff i hdest v (s.lapic v)]
    simpa using hsame
  · rintro ⟨hdistinct, hfits⟩
    refine ⟨fun v hv w hw hne hvx hwx => (hids v w hvx hwx).mpr (hdistinct v hv w hw hne hvx hwx), fun v hv => ?_⟩
    rw [hone v hv]
    cases hpending : (s.lapic v).pending (icrLow.setWidth 8) with
    | true => exact iff_of_true (.inl rfl) (.inl rfl)
    | false =>
      cases henabled : (s.lapic v).enabled with
      | false => simp
      | true =>
        have hbyte := (matchesByte_iff i hdest v (s.lapic v)).mpr (hfits v hv henabled hpending)
        rw [hbyte]

/-- Two vCPUs whose vLAPICs have been reset and enabled by software, and are put into a mode. -/
private def twoVcpus (value : BitVec 64) : State (Fin 2) where
  lapic v := Lapic.msrSet v.val value
    { Lapic.reset v.val ⟨fun _ => 0, 0xfee00800, false, false, 2, 0⟩ with swDisabled := false }
  initialised _ := true
  nmiPending _ := false
  sipiTarget _ := none
  roundRobinPrev := 0
  crashed := false
  touched := []

/-- In xAPIC mode vector 64 goes to the vCPU with the physical id 2. -/
theorem vlapicIpi_physical :
    Addressed [0, 1] (twoVcpus 0xfee00800).lapic
      (vlapicIpi [0, 1] 0 0x4040 0x02000000 (twoVcpus 0xfee00800)).2.lapic
      (.ofRegs (twoVcpus 0xfee00800).lapic 0 0x4040 0x02000000) 0x40 := by
  refine (vlapicIpi_iff _ _ _ (twoVcpus 0xfee00800) [0, 1] 0 0x4040 0x02000000 (by decide) rfl).mpr ⟨?_, ?_⟩
  · intro v _ w _ _ hmode
    have hxapic : ∀ v, ((twoVcpus 0xfee00800).lapic v).x2apicMode = false := by decide +kernel
    exact absurd ((hxapic v).symm.trans hmode) Bool.false_ne_true
  · intro v _ _ _ _
    have hphysical : (Icr.ofRegs (twoVcpus 0xfee00800).lapic 0 0x4040 0x02000000).logical = false := rfl
    have hxapic : (Icr.ofRegs (twoVcpus 0xfee00800).lapic 0 0x4040 0x02000000).x2apic = false := by decide +kernel
    rw [hphysical, if_neg Bool.false_ne_true]
    intro hmode
    exact absurd (hxapic.symm.trans hmode) Bool.false_ne_true

/-- In x2APIC mode both have the logical id 1. -/
theorem msrSet_sameLdr :
    ((twoVcpus 0xfee00c00).lapic 0).regs apicLdr = 1 ∧ ((twoVcpus 0xfee00c00).lapic 1).regs apicLdr = 1 ∧
      ∀ after i, ¬ Addressed [0, 1] (twoVcpus 0xfee00c00).lapic after i 0x40 := by
  have hzero : ((twoVcpus 0xfee00c00).lapic 0).regs apicLdr = 1 := by decide +kernel
  have hone : ((twoVcpus 0xfee00c00).lapic 1).regs apicLdr = 1 := by decide +kernel
  refine ⟨hzero, hone, fun after i h => ?_⟩
  exact h.distinct 0 (by decide) 1 (by decide) (by decide) rfl rfl (hzero.trans hone.symm)

end Hvm.Vlapic
