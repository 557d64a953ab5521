import MemoryMonitor.Mm.GuestWalkRun

/-!
# When a walk agrees with the processor's

On tables in ordinary RAM, and where the path does not end in a page of 1GB, a walk
agrees with the processor's unless the access is permitted and an entry has a reserved
bit (`guestWalkTables_agrees_iff`): then the processor faults, and Xen's walk succeeds.
-/

namespace Mm.GuestWalk

open Masks

variable {E : Env} {mem : Memory} {va : BitVec 64} {pfec : BitVec 32} {topMfn : Nat}

/-- The walk does what the processor does: it succeeds for a permitted access,
names the frame, marks the entries, and leaves memory alone when it fails. -/
structure Agrees (E : Env) (mem : Memory) (va : BitVec 64) (pfec : BitVec 32) (topMfn : Nat) (R : Result) : Prop where
  verdict : R.rc = 0 ↔ E.Accessible mem va pfec topMfn ∧ E.NoReserved mem va topMfn
  frame : R.rc = 0 → getGfn R.gw.l1e = E.pageFrame mem va topMfn
  marked : R.rc = 0 → Marked mem R.mem ((List.range (E.reads mem va topMfn - 1)).map (E.loc mem va topMfn))
    (E.loc mem va topMfn (E.reads mem va topMfn - 1)) (pfec.getLsbD 1)
  failed : R.rc ≠ 0 → R.mem = mem

/-! ## Frames -/

theorem getLsbD_getGfn (e : Pte) (b : Nat) : (getGfn e).getLsbD b = (decide (b < 40) && e.getLsbD (b + 12)) := by
  have h52 : ∀ b, (1#64 <<< 52 - 1#64).getLsbD b = decide (b < 52) := getLsbD_low (by decide)
  have hlow : ∀ b, (0xFFF#64).getLsbD b = decide (b < 12) := getLsbD_low (w := 64) (n := 12) (by decide)
  unfold getGfn
  rw [BitVec.getLsbD_ushiftRight, Nat.add_comm 12 b, BitVec.getLsbD_and, BitVec.getLsbD_and, BitVec.getLsbD_not, h52, hlow]
  rcases Nat.lt_or_ge b 40 with hb | hb
  · simp [hb, show b + 12 < 52 by omega, show b + 12 < 64 by omega]
  · simp [show ¬ b < 40 by omega, show ¬ b + 12 < 52 by omega]

/-- Flags do not reach the frame. -/
theorem getGfn_setAdBits (mem : Memory) (loc : Loc) (e : Pte) (dirty : Bool) :
    getGfn (setAdBits mem loc e dirty).2 = getGfn e := by
  have hflag : ∀ x : BitVec 64, x.toNat < 2 ^ 12 → ∀ b, x.getLsbD (b + 12) = false := by
    intro x hx b
    exact Nat.testBit_lt_two_pow (Nat.lt_of_lt_of_le hx (Nat.pow_le_pow_right (by decide) (by omega)))
  rw [setAdBits_snd]
  ext b hb
  rw [← BitVec.getLsbD_eq_getElem, ← BitVec.getLsbD_eq_getElem, getLsbD_getGfn, getLsbD_getGfn, BitVec.getLsbD_or,
    BitVec.getLsbD_or, hflag 0x20#64 (by decide), hflag (if dirty then 0x40#64 else 0) (by cases dirty <;> decide),
    Bool.or_false, Bool.or_false]

theorem getGfn_eq (e : Pte) : getGfn e = (e.extractLsb' 12 40).setWidth 64 := by
  ext b hb
  rw [← BitVec.getLsbD_eq_getElem, ← BitVec.getLsbD_eq_getElem, getLsbD_getGfn, BitVec.getLsbD_setWidth,
    BitVec.getLsbD_extractLsb', decide_eq_true hb, Nat.add_comm b 12]
  rfl

theorem getLsbD_tableOffset (va : BitVec 64) (b : Nat) :
    (BitVec.ofNat 64 (tableOffset 0 va).val).getLsbD b = (decide (b < 9) && va.getLsbD (b + 12)) := by
  rw [BitVec.getLsbD_ofNat]
  show (decide (b < 64) && ((va >>> 12).toNat % 2 ^ 9).testBit b) = _
  rw [Nat.testBit_mod_two_pow]
  rcases Nat.lt_or_ge b 9 with hb | hb
  · rw [decide_eq_true (by omega : b < 64), decide_eq_true hb, Bool.true_and, Bool.true_and, Bool.true_and]
    show (va >>> 12).getLsbD b = _
    rw [BitVec.getLsbD_ushiftRight, Nat.add_comm]
  · simp [show ¬ b < 9 by omega]

theorem getGfn_l1eFromGfn (gfn : BitVec 64) (flags : BitVec 32) (b : Nat) :
    (getGfn (l1eFromGfn gfn flags)).getLsbD b = (decide (b < 40) && gfn.getLsbD b) := by
  have hlow : ∀ b, (0xFFF#32).getLsbD b = decide (b < 12) := getLsbD_low (w := 32) (n := 12) (by decide)
  rw [getLsbD_getGfn]
  rcases Nat.lt_or_ge b 40 with hb | hb
  · unfold l1eFromGfn putPteFlags
    rw [BitVec.getLsbD_or, BitVec.getLsbD_or, BitVec.getLsbD_shiftLeft, BitVec.getLsbD_shiftLeft,
      BitVec.getLsbD_setWidth, BitVec.getLsbD_setWidth, BitVec.getLsbD_and, BitVec.getLsbD_and, BitVec.getLsbD_not,
      hlow, hlow, Nat.add_sub_cancel]
    simp [show b - 28 < 12 by omega, show b + 12 < 64 by omega, show ¬ b + 12 < 12 by omega]
  · simp [show ¬ b < 40 by omega]

/-- The entry that is made up names the frame inside the 2MB page. -/
theorem getGfn_superpageL1e (e : Pte) (va : BitVec 64) :
    getGfn (superpageL1e e va).1 = (e.extractLsb' 21 31 ++ va.extractLsb' 12 9).setWidth 64 := by
  have hlow : ∀ b, (511#64).getLsbD b = decide (b < 9) := getLsbD_low (w := 64) (n := 9) (by decide)
  have hdisjoint : (getGfn e &&& ~~~511#64) &&& BitVec.ofNat 64 (tableOffset 0 va).val = 0#64 := by
    ext b hb
    rw [← BitVec.getLsbD_eq_getElem, BitVec.getElem_zero, BitVec.getLsbD_and, BitVec.getLsbD_and, BitVec.getLsbD_not,
      hlow, getLsbD_tableOffset]
    cases decide (b < 9) <;> simp
  ext b hb
  rw [← BitVec.getLsbD_eq_getElem, ← BitVec.getLsbD_eq_getElem]
  refine (getGfn_l1eFromGfn _ _ b).trans ?_
  rw [BitVec.add_eq_or_of_and_eq_zero _ _ hdisjoint, BitVec.getLsbD_or, BitVec.getLsbD_and, BitVec.getLsbD_not, hlow,
    getLsbD_tableOffset, getLsbD_getGfn, BitVec.getLsbD_setWidth, BitVec.getLsbD_append, BitVec.getLsbD_extractLsb',
    BitVec.getLsbD_extractLsb', decide_eq_true hb]
  rcases Nat.lt_or_ge b 9 with h9 | h9
  · simp [h9, Nat.add_comm, show b < 40 by omega]
  · have hsum : 21 + (b - 9) = b + 12 := by omega
    rcases Nat.lt_or_ge b 40 with h40 | h40
    · simp [h40, hsum, show ¬ b < 9 by omega, show b - 9 < 31 by omega]
    · simp [show ¬ b < 40 by omega, show ¬ b < 9 by omega, show ¬ b - 9 < 31 by omega]

/-! ## The end of a walk -/

section Finish

variable {gw : Walk} {rc : BitVec 32} {pse : Bool}

theorem finish_rc : (E.finish mem pfec gw pse rc).rc = if E.smep pfec then rc ^^^ pageUser else rc := by
  unfold Env.finish
  generalize (if E.smep pfec then rc ^^^ pageUser else rc) = rc'
  dsimp only
  split <;> rfl

theorem finish_failed (h : (E.finish mem pfec gw pse rc).rc ≠ 0) : (E.finish mem pfec gw pse rc).mem = mem := by
  rw [finish_rc] at h
  unfold Env.finish
  dsimp only
  rw [if_neg h]

theorem finish_success (h : (E.finish mem pfec gw pse rc).rc = 0) :
    (E.finish mem pfec gw pse rc).gw = (gw.setBits mem pse (pfec.getLsbD 1)).1 ∧
      (E.finish mem pfec gw pse rc).mem = (gw.setBits mem pse (pfec.getLsbD 1)).2 := by
  have hwrite : decide (pfec &&& pfecWriteAccess ≠ 0) = pfec.getLsbD 1 := by
    rw [Bool.eq_iff_iff, decide_eq_true_iff]
    exact and_bit_ne_zero pfec (by decide)
  rw [finish_rc] at h
  unfold Env.finish
  dsimp only
  rw [if_pos h, hwrite]
  exact ⟨rfl, rfl⟩

theorem touched_nil (mem : Memory) : Touched mem mem [] := by
  intro loc
  rw [if_neg List.not_mem_nil]

/-- The entries of levels 4 and 3 are accessed first. -/
theorem touched_upper (hva : gw.va = va) (h4 : Read E mem va topMfn 0 gw.l4mfn gw.l4e)
    (h3 : Read E mem va topMfn 1 gw.l3mfn gw.l3e) :
    Touched mem
      (setAdBits (setAdBits mem (gw.l4mfn, tableOffset 3 gw.va) gw.l4e false).1 (gw.l3mfn, tableOffset 2 gw.va) gw.l3e false).1
      [E.loc mem va topMfn 0, E.loc mem va topMfn 1] := by
  have hloc4 : (gw.l4mfn, tableOffset 3 va) = E.loc mem va topMfn 0 := h4.1
  have hloc3 : (gw.l3mfn, tableOffset 2 va) = E.loc mem va topMfn 1 := h3.1
  rw [hva, hloc4, hloc3, h4.2, h3.2]
  exact ((touched_nil mem).next _).next _

/-- A 2MB page: the entry of level 2 is the leaf. -/
theorem setBits_large (hva : gw.va = va) (h4 : Read E mem va topMfn 0 gw.l4mfn gw.l4e)
    (h3 : Read E mem va topMfn 1 gw.l3mfn gw.l3e) (h2 : Read E mem va topMfn 2 gw.l2mfn gw.l2e) (write : Bool) :
    Marked mem (gw.setBits mem true write).2 [E.loc mem va topMfn 0, E.loc mem va topMfn 1] (E.loc mem va topMfn 2) write := by
  have hlast := (touched_upper hva h4 h3).last (E.loc mem va topMfn 2) write
  have hloc : (gw.l2mfn, tableOffset 1 gw.va) = E.loc mem va topMfn 2 := hva ▸ h2.1
  rw [← hloc] at hlast
  have hold : mem (gw.l2mfn, tableOffset 1 gw.va) = gw.l2e := by
    rw [hloc, h2.2]
    rfl
  rw [hold] at hlast
  rw [← hloc]
  exact hlast

theorem setBits_small (hva : gw.va = va) (h4 : Read E mem va topMfn 0 gw.l4mfn gw.l4e)
    (h3 : Read E mem va topMfn 1 gw.l3mfn gw.l3e) (h2 : Read E mem va topMfn 2 gw.l2mfn gw.l2e)
    (h1 : Read E mem va topMfn 3 gw.l1mfn gw.l1e) (write : Bool) :
    Marked mem (gw.setBits mem false write).2
      [E.loc mem va topMfn 0, E.loc mem va topMfn 1, E.loc mem va topMfn 2] (E.loc mem va topMfn 3) write := by
  have hlast := ((touched_upper hva h4 h3).next (E.loc mem va topMfn 2)).last (E.loc mem va topMfn 3) write
  have hloc2 : (gw.l2mfn, tableOffset 1 gw.va) = E.loc mem va topMfn 2 := hva ▸ h2.1
  have hloc1 : (gw.l1mfn, tableOffset 0 gw.va) = E.loc mem va topMfn 3 := hva ▸ h1.1
  have hold2 : mem (gw.l2mfn, tableOffset 1 gw.va) = gw.l2e := by
    rw [hloc2, h2.2]
    rfl
  have hold1 : mem (gw.l1mfn, tableOffset 0 gw.va) = gw.l1e := by
    rw [hloc1, h1.2]
    rfl
  rw [← hloc2, ← hloc1, hold2, hold1] at hlast
  rw [← hloc2, ← hloc1]
  exact hlast

end Finish

/-! ## The whole walk -/

/-- The walk checks everything but the reserved bits. -/
theorem Outcome.rc_iff {R : Result} (h : Outcome E mem va pfec topMfn R) : R.rc = 0 ↔ E.Accessible mem va pfec topMfn := by
  rcases h with ⟨hrc, -, d, hd, he⟩ | ⟨gw, rc, rfl, hc, -⟩
  · refine iff_of_false hrc ?_
    intro hacc
    exact Bool.false_ne_true (he.symm.trans (hacc.1 d hd).1)
  · rw [finish_rc]
    exact hc.eq_zero_iff

theorem Outcome.agrees {R : Result} (h : Outcome E mem va pfec topMfn R) (hhuge : E.huge mem va topMfn = false)
    (hreserved : E.Accessible mem va pfec topMfn → E.NoReserved mem va topMfn) : Agrees E mem va pfec topMfn R where
  verdict := by
    rw [h.rc_iff]
    exact ⟨fun hacc => ⟨hacc, hreserved hacc⟩, fun hall => hall.1⟩
  frame := by
    intro hrc
    rcases h with ⟨hne, -⟩ | ⟨gw, rc, rfl, -, hva, h4, h3, h2, hlast⟩
    · exact (hne hrc).elim
    · rw [(finish_success hrc).1, Env.pageFrame, hhuge, if_neg Bool.false_ne_true]
      split at hlast
      · next hlarge =>
          rw [if_pos hlarge, hlarge, ← getGfn_superpageL1e, ← hlast.2]
          rfl
      · next hlarge =>
          rw [if_neg hlarge, Bool.eq_false_iff.mpr hlarge, ← getGfn_eq, ← hlast.2.2]
          exact getGfn_setAdBits _ _ _ _
  marked := by
    intro hrc
    rcases h with ⟨hne, -⟩ | ⟨gw, rc, rfl, -, hva, h4, h3, h2, hlast⟩
    · exact (hne hrc).elim
    · rw [(finish_success hrc).2]
      split at hlast
      · next hlarge =>
          rw [hlast.1, hlarge]
          exact setBits_large hva h4 h3 h2 _
      · next hlarge =>
          rw [hlast.1, Bool.eq_false_iff.mpr hlarge]
          exact setBits_small hva h4 h3 h2 hlast.2 _
  failed := by
    intro hrc
    rcases h with ⟨-, hmem, -⟩ | ⟨gw, rc, rfl, -⟩
    · exact hmem
    · exact finish_failed hrc

/-- On tables in ordinary RAM, with no page of 1GB at the end, the walk agrees with the
processor's exactly when no entry of a permitted access has a reserved bit. -/
theorem guestWalkTables_agrees_iff (hram : E.TablesOrdinary mem va topMfn) (hhuge : E.huge mem va topMfn = false)
    (pfec : BitVec 32) :
    Agrees E mem va pfec topMfn (E.guestWalkTables mem va pfec topMfn) ↔
      (E.Accessible mem va pfec topMfn → E.NoReserved mem va topMfn) := by
  have houtcome := guestWalkTables_outcome hram hhuge pfec
  constructor
  · intro hagrees hacc
    exact (hagrees.verdict.mp (houtcome.rc_iff.mpr hacc)).2
  · exact houtcome.agrees hhuge

/-! ## Superpages -/

/-- An HVM guest with every feature on; its RAM is where the guest has it. -/
def ramEnv : Env where
  paddrBits := 40
  paddr := by decide
  cpuHasNx := true
  isHvm := true
  wpEnabled := true
  nxEnabled := true
  smepEnabled := true
  allowSuperpage := true
  gigabytePages := true
  gfnToMfn gfn := ⟨gfn.toNat, .ramRw⟩

/-- Tables in frames 1, 2 and 3 that map address 0 by a 2MB page, with bit 13 of
its address set. -/
def misaligned : Memory := fun loc =>
  if loc = (1, 0) then 0x2007 else if loc = (2, 0) then 0x3007 else if loc = (3, 0) then 0x2087 else 0

theorem guestWalkTables_agrees_iff_ram :
    Agrees ramEnv misaligned 0 pfecUserMode 1 (ramEnv.guestWalkTables misaligned 0 pfecUserMode 1) ↔
      (ramEnv.Accessible misaligned 0 pfecUserMode 1 → ramEnv.NoReserved misaligned 0 1) :=
  guestWalkTables_agrees_iff (fun _ _ => List.mem_cons_self) (by decide +kernel) pfecUserMode

/-- The walk succeeds where the processor faults. -/
theorem guestWalkTables_misaligned :
    (ramEnv.guestWalkTables misaligned 0 pfecUserMode 1).rc = 0 ∧
      ¬ Agrees ramEnv misaligned 0 pfecUserMode 1 (ramEnv.guestWalkTables misaligned 0 pfecUserMode 1) := by
  have hrc : (ramEnv.guestWalkTables misaligned 0 pfecUserMode 1).rc = 0 := by decide +kernel
  refine ⟨hrc, ?_⟩
  intro hagrees
  have haligned := (hagrees.verdict.mp hrc).2.2.2 (by decide +kernel) 13 (by decide) (by decide)
  revert haligned
  decide +kernel

/-- Tables in frames 1 and 2 that map address 0 by the 1GB page from frame `0x40000` on, which begins with
what an entry for a 2MB page looks like. -/
def gigabyte : Memory := fun loc =>
  if loc = (1, 0) then 0x2007 else if loc = (2, 0) then 0x40000087 else if loc = (0x40000, 0) then 0x600087 else 0

theorem guestWalkTables_gigabyte :
    ramEnv.pageFrame gigabyte 0 1 = 0x40000 ∧ (ramEnv.guestWalkTables gigabyte 0 pfecUserMode 1).rc = 0 ∧
      getGfn (ramEnv.guestWalkTables gigabyte 0 pfecUserMode 1).gw.l1e = 0x600 := by
  decide +kernel

end Mm.GuestWalk
