import MemoryMonitor.Hvm.MtrrLookup

/-!
# When the overlap flag misses two ranges

`get_mtrr_range` takes the base of a range as it was programmed and its mask as
one run of ones. A base that is not aligned to the size, or a mask with holes,
makes a range match addresses outside the interval, and the overlap test can
miss a range that lies there. The lookup is wrong at exactly the addresses where
a missed range prevails (`getMtrrType_hasType_iff`). Two regular ranges that
match one address are never missed (`isVarMtrrOverlapped_of_regular`).
-/

namespace Hvm.Mtrr

open Masks

variable {P : Platform} {m : MtrrState} {r : Msrs} {pa : BitVec 64}

/-! ## Regular ranges -/

/-- Range `i` has `2 ^ k` pages, from a base that is aligned to its size. -/
structure Msrs.Regular (P : Platform) (r : Msrs) (i : Fin 8) (k : Nat) : Prop where
  mask : ∀ b, 12 ≤ b → ((r.mask i).getLsbD b = true ↔ k + 12 ≤ b ∧ b < P.physAddr)
  base : ∀ b, 12 ≤ b → b < k + 12 → (r.base i).getLsbD b = false

/-- `size_or_mask` of a host with pages numbered by `n` bits. -/
def Platform.HostPages (P : Platform) (n : Nat) : Prop := n < 32 ∧ P.sizeOrMask = ~~~(1#32 <<< n - 1#32)

/-- The page number of a word, as the two halves are put together. -/
def page (x : BitVec 64) : BitVec 32 := (x >>> 32).setWidth 32 <<< 20 ||| x.setWidth 32 >>> 12

theorem getLsbD_page (x : BitVec 64) {j : Nat} (hj : j < 32) : (page x).getLsbD j = x.getLsbD (j + 12) := by
  unfold page
  rw [BitVec.getLsbD_or, BitVec.getLsbD_shiftLeft, BitVec.getLsbD_ushiftRight, BitVec.getLsbD_setWidth,
    BitVec.getLsbD_setWidth, BitVec.getLsbD_ushiftRight, Nat.add_comm 12 j]
  rcases Nat.lt_or_ge j 20 with hlow | hhigh
  · simp [hlow, hj, show j + 12 < 32 by omega]
  · have hsum : 32 + (j - 20) = j + 12 := by omega
    simp [hsum, hj, show ¬ j < 20 by omega, show ¬ j + 12 < 32 by omega, show j - 20 < 32 by omega]

/-- A bit the base of a range cannot have. -/
theorem Corresponds.base_width (h : Corresponds P m r) (i : Fin 8) {b : Nat} (hb : P.physAddr ≤ b) :
    (r.base i).getLsbD b = false := by
  rcases Nat.lt_or_ge b 64 with hlt | hge
  · have hmask : (P.msrMask (i.val * 2)).getLsbD b = true := by
      unfold Platform.msrMask
      rw [BitVec.getLsbD_or, BitVec.getLsbD_not, getLsbD_low (Nat.lt_of_le_of_lt hb hlt),
        decide_eq_false (Nat.not_lt.mpr hb), decide_eq_true hlt]
      rfl
    have hzero : (r.base i &&& P.msrMask (i.val * 2)).getLsbD b = (0#64).getLsbD b := by
      rw [← h.base, h.width]
      rfl
    rw [BitVec.getLsbD_and, hmask, Bool.and_true, BitVec.getLsbD_zero] at hzero
    exact hzero
  · exact BitVec.getLsbD_of_ge _ _ hge

/-- The size taken from a mask without its `k` low pages. -/
theorem pow_le_size {n k : Nat} (hhost : P.HostPages n) (hk : k ≤ n) {mask : BitVec 32}
    (hmask : ∀ j < k, mask.getLsbD j = false) : 2 ^ k ≤ (-(P.sizeOrMask ||| mask)).toNat := by
  rcases hhost with ⟨hn, hsize⟩
  have hbit (j : Nat) : P.sizeOrMask.getLsbD j = (decide (j < 32) && !decide (j < n)) := by
    rw [hsize, BitVec.getLsbD_not, getLsbD_low hn]
  refine pow_le_neg (hk.trans hn.le) ?_ (dvd_of_getLsbD fun j hj => ?_)
  · intro hzero
    have hhigh : (P.sizeOrMask ||| mask).toNat.testBit 31 = true := by
      show (P.sizeOrMask ||| mask).getLsbD 31 = true
      rw [BitVec.getLsbD_or, hbit, decide_eq_false (by omega : ¬ 31 < n)]
      rfl
    rw [hzero] at hhigh
    cases hhigh
  · rw [BitVec.getLsbD_or, hmask j hj, hbit, decide_eq_true (by omega : j < n)]
    simp

/-- The page of an address that a regular range matches lies in the interval of
the range. -/
theorem Corresponds.page_mem_range (h : Corresponds P m r) {n k : Nat} (hhost : P.HostPages n) (hk : k ≤ n)
    {i : Fin 8} (hreg : r.Regular P i k) (hmatch : r.Matches pa i) (hpa : pa.toNat < 2 ^ P.physAddr) :
    (m.range P i.val).1.toNat ≤ (page pa).toNat ∧ (page pa).toNat ≤ (m.range P i.val).2.toNat := by
  have hk32 : k < 32 := Nat.lt_of_le_of_lt hk hhost.1
  let base := page (r.base i)
  let size := -(P.sizeOrMask ||| page (r.mask i))
  have hrange : m.range P i.val = (base.setWidth 64, base.setWidth 64 + size.setWidth 64 - 1#64) := by
    have hvalid : (r.mask i).setWidth 32 &&& 0x800 ≠ 0 := by
      refine (and_bit_ne_zero ((r.mask i).setWidth 32) (b := 11) (by decide)).mpr ?_
      rw [BitVec.getLsbD_setWidth, hmatch.1]
      rfl
    unfold MtrrState.range getMtrrRange
    rw [h.base, h.mask]
    dsimp only
    rw [if_neg hvalid, BitVec.or_assoc]
    rfl
  have hsize : 2 ^ k ≤ size.toNat := by
    refine pow_le_size hhost hk fun j hj => ?_
    rw [getLsbD_page _ (by omega)]
    refine Bool.eq_false_iff.mpr fun htrue => ?_
    have := (hreg.mask (j + 12) (by omega)).mp htrue
    omega
  have hdvd : 2 ^ k ∣ base.toNat := by
    refine dvd_of_getLsbD fun j hj => ?_
    rw [getLsbD_page _ (by omega)]
    exact hreg.base (j + 12) (by omega) (by omega)
  have hdiv : (page pa).toNat / 2 ^ k = base.toNat / 2 ^ k := by
    refine div_eq_of_getLsbD fun j hkj hj => ?_
    rw [getLsbD_page _ hj, getLsbD_page _ hj]
    rcases Nat.lt_or_ge (j + 12) P.physAddr with hin | hout
    · exact hmatch.2 (j + 12) (by omega) ((hreg.mask _ (by omega)).mpr ⟨by omega, hin⟩)
    · rw [h.base_width i hout]
      exact Nat.testBit_lt_two_pow (Nat.lt_of_lt_of_le hpa (Nat.pow_le_pow_right (by decide) hout))
  -- So the page is the base and less than the size more.
  have hblock := Nat.div_add_mod (page pa).toNat (2 ^ k)
  rw [hdiv, Nat.mul_div_cancel' hdvd] at hblock
  have hfirst : (base.setWidth 64).toNat = base.toNat := by
    rw [BitVec.toNat_setWidth]
    omega
  have hsum : (base.setWidth 64 + size.setWidth 64).toNat = base.toNat + size.toNat := by
    rw [BitVec.toNat_add, hfirst, BitVec.toNat_setWidth]
    omega
  have hlast : (base.setWidth 64 + size.setWidth 64 - 1#64).toNat = base.toNat + size.toNat - 1 := by
    have hle : 1#64 ≤ base.setWidth 64 + size.setWidth 64 := by
      rw [BitVec.le_def, hsum]
      show 1 ≤ _
      omega
    rw [BitVec.toNat_sub_of_le hle, hsum]
    rfl
  rw [hrange]
  dsimp only
  rw [hfirst, hlast]
  omega

/-! ## The flag -/

theorem overlap_of_common {pre cur : BitVec 64 × BitVec 64} {x : Nat} (hpre : pre.1.toNat ≤ x ∧ x ≤ pre.2.toNat)
    (hcur : cur.1.toNat ≤ x ∧ x ≤ cur.2.toNat) : Overlap pre cur := by
  rcases Nat.le_total pre.1.toNat cur.1.toNat with hle | hle
  · exact .inr (.inl ⟨BitVec.le_def.mpr hle, BitVec.le_def.mpr (hcur.1.trans hpre.2)⟩)
  · exact .inr (.inr (.inr (.inl ⟨BitVec.le_def.mpr hle, BitVec.le_def.mpr (hpre.1.trans hcur.2)⟩)))

theorem Corresponds.overlapped_of_lt (h : Corresponds P m r) {i seg : Fin 8} (hlt : i < seg)
    (hov : Overlap (m.range P i.val) (m.range P seg.val)) : isVarMtrrOverlapped P m = true := by
  unfold isVarMtrrOverlapped
  rw [h.count]
  refine List.any_eq_true.mpr ⟨i.val, List.mem_range.mpr i.isLt, ?_⟩
  refine List.any_eq_true.mpr ⟨seg.val, List.mem_range.mpr seg.isLt, ?_⟩
  rw [decide_eq_true (Fin.lt_def.mp hlt), decide_eq_true hov]
  rfl

/-- Every valid range is regular, and no larger than the host's memory. -/
def Msrs.AllRegular (P : Platform) (r : Msrs) : Prop :=
  ∃ n, P.HostPages n ∧ ∀ i, (r.mask i).getLsbD 11 = true → ∃ k ≤ n, r.Regular P i k

theorem Corresponds.overlapped_of_regular (h : Corresponds P m r) (hreg : r.AllRegular P)
    (hpa : pa.toNat < 2 ^ P.physAddr) {i j : Fin 8} (hne : i ≠ j) (hi : r.Matches pa i) (hj : r.Matches pa j) :
    isVarMtrrOverlapped P m = true := by
  rcases hreg with ⟨n, hhost, hall⟩
  rcases hall i hi.1 with ⟨ki, hki, hri⟩
  rcases hall j hj.1 with ⟨kj, hkj, hrj⟩
  have hpi := h.page_mem_range hhost hki hri hi hpa
  have hpj := h.page_mem_range hhost hkj hrj hj hpa
  rcases lt_or_gt_of_ne hne with hlt | hlt
  · exact h.overlapped_of_lt hlt (overlap_of_common hpi hpj)
  · exact h.overlapped_of_lt hlt (overlap_of_common hpj hpi)

/-! ## The lookup -/

/-- The address lies in two valid ranges that the test does not find to overlap,
and the later one prevails. -/
def Msrs.Missed (P : Platform) (m : MtrrState) (r : Msrs) (pa : BitVec 64) : Prop :=
  r.defType.getLsbD 11 = true ∧ ¬ r.ByFixed pa ∧ isVarMtrrOverlapped P m = false ∧
    ∃ i, r.First pa i ∧ r.Prevails pa i

theorem Msrs.First.unique {i j : Fin 8} (hi : r.First pa i) (hj : r.First pa j) : i = j := by
  rcases lt_trichotomy i j with hlt | heq | hlt
  · exact (hj.2 i hlt hi.1).elim
  · exact heq
  · exact (hi.2 j hlt hj.1).elim

/-- Only another range can prevail. -/
theorem Msrs.Prevails.exists_ne {i : Fin 8} (h : r.Prevails pa i) : ∃ j ≠ i, r.Matches pa j := by
  rcases h with ⟨⟨j, hj, htype⟩, hne⟩ | ⟨htypes, hwb⟩
  · refine ⟨j, ?_, hj⟩
    rintro rfl
    exact hne htype.symm
  · have hwt : mtrrTypeWrthrough ∈ r.types pa := by
      rw [htypes]
      exact Set.mem_insert _ _
    rcases hwt with ⟨j, hj, htype⟩
    refine ⟨j, ?_, hj⟩
    rintro rfl
    rw [hwb] at htype
    cases htype

theorem Corresponds.flag_of_matches (h : Corresponds P m r) {i : Fin 8} (hi : r.Matches pa i) :
    m.overlapped = isVarMtrrOverlapped P m := by
  refine h.flag.resolve_right ?_
  intro hzero
  have hmask := hi.1
  rw [← h.mask, hzero] at hmask
  cases hmask

theorem Corresponds.hasType_iff_not_missed (h : Corresponds P m r) (pa : BitVec 64) :
    r.HasType pa (getMtrrType m pa) ↔ ¬ r.Missed P m pa := by
  rw [h.hasType_iff]
  cases hflag : m.overlapped with
  | true =>
    refine iff_of_true (fun _ _ => h.varType_of_overlapped hflag) ?_
    rintro ⟨-, -, hclear, i, hi, -⟩
    rw [← h.flag_of_matches hi.1, hflag] at hclear
    cases hclear
  | false =>
    rcases h.lookupVar_first hflag pa with ⟨i, hi, hlookup⟩ | ⟨hnone, hlookup⟩
    · rw [hlookup, hi.varType_iff]
      have hclear : isVarMtrrOverlapped P m = false := (h.flag_of_matches hi.1).symm.trans hflag
      constructor
      · rintro hall ⟨hen, hby, -, j, hj, hprevails⟩
        rw [← hi.unique hj] at hprevails
        exact hall hen hby hprevails
      · intro hno hen hby hprevails
        exact hno ⟨hen, hby, hclear, i, hi, hprevails⟩
    · have hempty : r.types pa = ∅ := by
        refine Set.eq_empty_of_forall_notMem ?_
        rintro t ⟨i, hi, -⟩
        exact hnone i hi
      refine iff_of_true (fun _ _ => ⟨fun _ => hlookup, fun u hu => ?_, fun huc => ?_, fun hboth => ?_⟩) ?_
      · exact absurd (hempty.symm.trans hu) (Set.singleton_ne_empty u).symm
      · rw [hempty] at huc
        exact huc.elim
      · exact absurd (hempty.symm.trans hboth) (Set.insert_nonempty _ _).ne_empty.symm
      · rintro ⟨-, -, -, i, hi, -⟩
        exact hnone i hi.1

/-- After any accepted writes the lookup gives the type the registers give,
except at the addresses of a missed range. With regular ranges there are none. -/
theorem getMtrrType_hasType_iff {ws : List Write} (hrun : writes P ws = some m) (pa : BitVec 64) :
    ((Msrs.writes ws).HasType pa (getMtrrType m pa) ↔ ¬ (Msrs.writes ws).Missed P m pa) ∧
      ((Msrs.writes ws).AllRegular P → pa.toNat < 2 ^ P.physAddr → ¬ (Msrs.writes ws).Missed P m pa) := by
  have h := corresponds_writes hrun
  refine ⟨h.hasType_iff_not_missed pa, ?_⟩
  rintro hreg hpa ⟨-, -, hclear, i, hi, hprevails⟩
  rcases hprevails.exists_ne with ⟨j, hne, hj⟩
  rw [h.overlapped_of_regular hreg hpa hne hj hi.1] at hclear
  cases hclear

/-- A host and a guest with 36 address bits. -/
def bits36 : Platform := ⟨0xff000000, fun _ => 36⟩

/-- Seven valid ranges: of two pages from page `0x101` on, write-back, of page
`0x100`, uncachable, and of one page each. -/
def unalignedRange : List Write :=
  [.var 0 0x101006, .var 1 0xfffffe800, .var 2 0x100000, .var 3 0xffffff800, .var 4 0x200006, .var 5 0xffffff800,
    .var 6 0x201006, .var 7 0xffffff800, .var 8 0x202006, .var 9 0xffffff800, .var 10 0x203006,
    .var 11 0xffffff800, .var 12 0x204006, .var 13 0xffffff800, .defType 0x806]

/-- The first range matches pages `0x100` and `0x101`, its interval starts at
`0x101`: the uncachable page is looked up as write-back. -/
theorem getMtrrType_unaligned :
    ∃ m, writes bits36 unalignedRange = some m ∧ getMtrrType m 0x100000 = mtrrTypeWrback ∧
      ¬ (Msrs.writes unalignedRange).HasType 0x100000 (getMtrrType m 0x100000) := by
  have hlookup : (writes bits36 unalignedRange).map (fun m => getMtrrType m 0x100000) = some mtrrTypeWrback := by
    decide +kernel
  rcases Option.map_eq_some_iff.mp hlookup with ⟨m, hm, htype⟩
  refine ⟨m, hm, htype, ?_⟩
  rw [htype]
  intro hhas
  have huc : mtrrTypeUncachable ∈ (Msrs.writes unalignedRange).types 0x100000 :=
    ⟨1, ⟨rfl, fun _ _ _ => rfl⟩, rfl⟩
  have hvar : (Msrs.writes unalignedRange).VarType 0x100000 mtrrTypeWrback := by
    refine hhas.2.2 rfl ?_
    rintro ⟨-, hfixed⟩
    cases hfixed
  cases hvar.2.2.1 huc

theorem getMtrrType_hasType_iff_aligned :
    ∃ m, writes bits36 [.var 0 0x100006, .var 1 0xffffff800, .defType 0x800] = some m ∧
      ((Msrs.writes [.var 0 0x100006, .var 1 0xffffff800, .defType 0x800]).HasType 0x100000 (getMtrrType m 0x100000) ↔
        ¬ (Msrs.writes [.var 0 0x100006, .var 1 0xffffff800, .defType 0x800]).Missed bits36 m 0x100000) := by
  have hrun : (writes bits36 [.var 0 0x100006, .var 1 0xffffff800, .defType 0x800]).isSome = true := by
    decide +kernel
  rcases Option.isSome_iff_exists.mp hrun with ⟨m, hm⟩
  exact ⟨m, hm, (getMtrrType_hasType_iff hm 0x100000).1⟩

end Hvm.Mtrr
