import MemoryMonitor.Hvm.Mtrr
import MemoryMonitor.Lib.Masks

/-!
# What the lookup returns

The state after any accepted writes corresponds to the registers the guest
programmed (`corresponds_writes`). While the overlap flag is set the lookup gives
the architecture's type (`hasType_of_overlapped`); while it is clear it gives the
type of the first range that matches (`getMtrrType_first`).
-/

namespace Hvm.Mtrr

open Masks

variable {P : Platform} {m m' : MtrrState} {r : Msrs} {w : Write} {pa : BitVec 64}

/-! ## The state holds the registers -/

/-- The state holds the registers `r`. The flag is the overlap test of the
ranges, unless no range was ever written. -/
structure Corresponds (P : Platform) (m : MtrrState) (r : Msrs) : Prop where
  enabled : m.enabled = (r.defType >>> 10).setWidth 8 &&& 0x3
  defType : m.defType = r.defType.setWidth 8
  fix : ∀ row : Fin 11, m.fixedRanges row.val = r.fix row
  base : ∀ i : Fin 8, m.varRanges (i.val * 2) = r.base i
  mask : ∀ i : Fin 8, m.varRanges (i.val * 2 + 1) = r.mask i
  count : m.numVarRanges = 8
  flag : m.overlapped = isVarMtrrOverlapped P m ∨ ∀ index, m.varRanges index = 0
  valid : ∀ index, ValidType ((m.varRanges index).setWidth 8)
  width : ∀ index, m.varRanges index &&& P.msrMask index = 0

theorem corresponds_init (P : Platform) : Corresponds P hvmVcpuCacheattrInit .reset where
  enabled := rfl
  defType := rfl
  fix _ := rfl
  base _ := rfl
  mask _ := rfl
  count := by decide
  flag := .inr fun _ => rfl
  valid _ := .inl rfl
  width _ := BitVec.zero_and

/-- The test reads the ranges and their number alone. -/
theorem isVarMtrrOverlapped_congr (hranges : m'.varRanges = m.varRanges) (hcap : m'.mtrrCap = m.mtrrCap) :
    isVarMtrrOverlapped P m' = isVarMtrrOverlapped P m := by
  unfold isVarMtrrOverlapped MtrrState.range MtrrState.numVarRanges
  rw [hranges, hcap]

/-- A write of the same content changes nothing in the registers either. -/
theorem Msrs.write_var_self {index : Fin 16} {msrContent : BitVec 64}
    (hbase : ∀ i : Fin 8, m.varRanges (i.val * 2) = r.base i)
    (hmask : ∀ i : Fin 8, m.varRanges (i.val * 2 + 1) = r.mask i) (hsame : m.varRanges index.val = msrContent) :
    r.write (.var index msrContent) = r := by
  have hlt := index.isLt
  show (if index.val % 2 = 0 then _ else _) = r
  split
  · next heven =>
      have hindex : m.varRanges index.val = r.base ⟨index / 2, by omega⟩ := by
        rw [← hbase]
        congr 1
        show index.val = index.val / 2 * 2
        omega
      rw [← hsame, hindex, Function.update_eq_self]
  · next hodd =>
      have hindex : m.varRanges index.val = r.mask ⟨index / 2, by omega⟩ := by
        rw [← hmask]
        congr 1
        show index.val = index.val / 2 * 2 + 1
        omega
      rw [← hsame, hindex, Function.update_eq_self]

/-- The base of a range after a write of register `index`. -/
theorem Msrs.base_write_var (r : Msrs) (index : Fin 16) (msrContent : BitVec 64) (i : Fin 8) :
    (r.write (.var index msrContent)).base i = if i.val * 2 = index.val then msrContent else r.base i := by
  have hlt := index.isLt
  show (if index.val % 2 = 0 then _ else _ : Msrs).base i = _
  by_cases heven : index.val % 2 = 0
  · rw [if_pos heven]
    show Function.update r.base ⟨index / 2, by omega⟩ msrContent i = _
    rw [Function.update_apply]
    have hiff : i = ⟨index.val / 2, by omega⟩ ↔ i.val * 2 = index.val := by
      rw [Fin.ext_iff]
      show i.val = index.val / 2 ↔ _
      omega
    exact if_congr hiff rfl rfl
  · rw [if_neg heven, if_neg (by omega)]

theorem Msrs.mask_write_var (r : Msrs) (index : Fin 16) (msrContent : BitVec 64) (i : Fin 8) :
    (r.write (.var index msrContent)).mask i = if i.val * 2 + 1 = index.val then msrContent else r.mask i := by
  have hlt := index.isLt
  show (if index.val % 2 = 0 then _ else _ : Msrs).mask i = _
  by_cases heven : index.val % 2 = 0
  · rw [if_pos heven, if_neg (by omega)]
  · rw [if_neg heven]
    show Function.update r.mask ⟨index / 2, by omega⟩ msrContent i = _
    rw [Function.update_apply]
    have hiff : i = ⟨index.val / 2, by omega⟩ ↔ i.val * 2 + 1 = index.val := by
      rw [Fin.ext_iff]
      show i.val = index.val / 2 ↔ _
      omega
    exact if_congr hiff rfl rfl

theorem Msrs.defType_write_var (r : Msrs) (index : Fin 16) (msrContent : BitVec 64) :
    (r.write (.var index msrContent)).defType = r.defType ∧ (r.write (.var index msrContent)).fix = r.fix := by
  show (if _ then _ else _ : Msrs).defType = _ ∧ (if _ then _ else _ : Msrs).fix = _
  split <;> exact ⟨rfl, rfl⟩

theorem Corresponds.defTypeSet (h : Corresponds P m r) {msrContent : BitVec 64}
    (hw : mtrrDefTypeMsrSet m msrContent = some m') : Corresponds P m' (r.write (.defType msrContent)) := by
  unfold mtrrDefTypeMsrSet at hw
  dsimp only at hw
  split at hw
  · cases hw
  · split at hw
    · cases hw
    · cases hw
      exact { h with enabled := rfl, defType := rfl, flag := h.flag.imp_left fun hm => hm.trans (isVarMtrrOverlapped_congr rfl rfl).symm }

theorem Corresponds.fixSet (h : Corresponds P m r) {row : Fin 11} {msrContent : BitVec 64}
    (hw : mtrrFixRangeMsrSet m row.val msrContent = some m') : Corresponds P m' (r.write (.fix row msrContent)) := by
  have hstored (row' : Fin 11) : Function.update m.fixedRanges row.val msrContent row'.val =
      Function.update r.fix row msrContent row' := by
    by_cases heq : row' = row
    · rw [heq, Function.update_self, Function.update_self]
    · rw [Function.update_of_ne heq, Function.update_of_ne fun hval => heq (Fin.ext hval), h.fix]
  unfold mtrrFixRangeMsrSet at hw
  split at hw
  · split at hw
    · cases hw
      exact { h with fix := hstored, flag := h.flag.imp_left fun hm => hm.trans (isVarMtrrOverlapped_congr rfl rfl).symm }
    · cases hw
  · next hsame =>
      cases hw
      refine { h with fix := fun row' => ?_ }
      -- The row held the content already.
      refine Eq.trans ?_ (hstored row')
      rw [← not_ne_iff.mp hsame, Function.update_eq_self]

theorem Corresponds.varSet (h : Corresponds P m r) {index : Fin 16} {msrContent : BitVec 64}
    (hw : mtrrVarRangeMsrSet P m index.val msrContent = some m') : Corresponds P m' (r.write (.var index msrContent)) := by
  unfold mtrrVarRangeMsrSet at hw
  split at hw
  · next hsame =>
      cases hw
      rw [Msrs.write_var_self h.base h.mask hsame]
      exact h
  · split at hw
    · cases hw
    · next hvalid =>
        split at hw
        · cases hw
        · next hwidth =>
            have hzero : msrContent &&& P.msrMask index.val = 0 := by
              rcases not_and_or.mp hwidth with hcontent | hmask
              · rw [not_ne_iff.mp hcontent]
                exact BitVec.zero_and
              · exact not_ne_iff.mp hmask
            have hregs := Msrs.defType_write_var r index msrContent
            cases hw
            refine ⟨?_, ?_, ?_, ?_, ?_, h.count, .inl ?_, ?_, ?_⟩
            · rw [hregs.1]
              exact h.enabled
            · rw [hregs.1]
              exact h.defType
            · rw [hregs.2]
              exact h.fix
            · intro i
              rw [Msrs.base_write_var, ← h.base]
              exact Function.update_apply ..
            · intro i
              rw [Msrs.mask_write_var, ← h.mask]
              exact Function.update_apply ..
            · exact (isVarMtrrOverlapped_congr rfl rfl).symm
            · intro i
              show ValidType ((Function.update m.varRanges index.val msrContent i).setWidth 8)
              by_cases hi : i = index.val
              · rw [hi, Function.update_self]
                exact not_not.mp hvalid
              · rw [Function.update_of_ne hi]
                exact h.valid i
            · intro i
              show Function.update m.varRanges index.val msrContent i &&& P.msrMask i = 0
              by_cases hi : i = index.val
              · rw [hi, Function.update_self]
                exact hzero
              · rw [Function.update_of_ne hi]
                exact h.width i

/-- An accepted write is stored. -/
theorem Corresponds.write (h : Corresponds P m r) (hw : m.write P w = some m') : Corresponds P m' (r.write w) := by
  cases w with
  | defType msrContent => exact h.defTypeSet hw
  | fix row msrContent => exact h.fixSet hw
  | var index msrContent => exact h.varSet hw

theorem corresponds_writes {ws : List Write} (hrun : writes P ws = some m) : Corresponds P m (Msrs.writes ws) := by
  have hfold : ∀ (ws : List Write) (m₀ : MtrrState) (r₀ : Msrs), Corresponds P m₀ r₀ →
      ws.foldlM (MtrrState.write P) m₀ = some m → Corresponds P m (ws.foldl Msrs.write r₀) := by
    intro ws
    induction ws with
    | nil =>
      intro m₀ r₀ h hrun
      cases hrun
      exact h
    | cons w ws ih =>
      intro m₀ r₀ h hrun
      rw [List.foldlM_cons] at hrun
      rcases Option.bind_eq_some_iff.mp hrun with ⟨m₁, hstep, hrest⟩
      exact ih m₁ (r₀.write w) (h.write hstep) hrest
  exact hfold ws _ _ (corresponds_init P) hrun

/-! ## Reading the registers -/

theorem Corresponds.matches_iff (h : Corresponds P m r) (pa : BitVec 64) (i : Fin 8) :
    m.Matches pa i.val ↔ r.Matches pa i := by
  unfold MtrrState.Matches Msrs.Matches
  rw [h.base, h.mask, and_bit_ne_zero _ (by decide), and_ushiftRight_eq_iff]

theorem Corresponds.mem_types (h : Corresponds P m r) {pa : BitVec 64} {t : BitVec 8} :
    t ∈ r.types pa ↔ ∃ seg < 8, m.Matches pa seg ∧ t = m.varType seg := by
  constructor
  · rintro ⟨i, hmatch, rfl⟩
    refine ⟨i.val, i.isLt, (h.matches_iff pa i).mpr hmatch, ?_⟩
    rw [MtrrState.varType, h.base]
  · rintro ⟨seg, hseg, hmatch, rfl⟩
    refine ⟨⟨seg, hseg⟩, (h.matches_iff pa ⟨seg, hseg⟩).mp hmatch, ?_⟩
    rw [MtrrState.varType, ← h.base ⟨seg, hseg⟩]

theorem Corresponds.enabled_iff (h : Corresponds P m r) : m.enabled &&& 0x2 = 0 ↔ r.defType.getLsbD 11 = false := by
  rw [h.enabled]
  have hbit := and_bit_ne_zero ((r.defType >>> 10).setWidth 8 &&& 0x3) (b := 1) (by decide)
  rw [← not_iff_not, ← ne_eq, Bool.not_eq_false]
  refine hbit.trans ?_
  simp

theorem Corresponds.fixedEnabled_iff (h : Corresponds P m r) : m.enabled &&& 1 ≠ 0 ↔ r.defType.getLsbD 10 = true := by
  rw [h.enabled]
  have hbit := and_bit_ne_zero ((r.defType >>> 10).setWidth 8 &&& 0x3) (b := 0) (by decide)
  refine hbit.trans ?_
  simp

/-! ## The fixed ranges -/

theorem mem_fixedSpan {addr : Nat} (haddr : addr < 0x100000) :
    fixedIndex addr / 8 < 11 ∧ addr ∈ fixedSpan (fixedIndex addr / 8) (fixedIndex addr % 8) := by
  have hlow : ∀ seg, seg &&& 7 = seg % 8 := fun seg => Nat.and_two_pow_sub_one_eq_mod seg 3
  unfold fixedIndex fixedSpan
  simp only [Nat.shiftRight_eq_div_pow, hlow]
  split
  · next h1 =>
      rw [if_pos (by omega)]
      exact ⟨by omega, by omega, by omega⟩
  · next h1 =>
      split
      · next h2 =>
          rw [if_neg (by omega), if_pos (by omega)]
          exact ⟨by omega, by omega, by omega⟩
      · next h2 =>
          rw [if_neg (by omega), if_neg (by omega)]
          exact ⟨by omega, by omega, by omega⟩

theorem Corresponds.fixedRange (h : Corresponds P m r) {addr : Nat} (haddr : addr < 0x100000) :
    ∃ row i, i < 8 ∧ addr ∈ fixedSpan row.val i ∧
      m.fixedRange (fixedIndex addr) = (r.fix row).extractLsb' (8 * i) 8 := by
  rcases mem_fixedSpan haddr with ⟨hrow, hspan⟩
  refine ⟨⟨fixedIndex addr / 8, hrow⟩, fixedIndex addr % 8, Nat.mod_lt _ (by decide), hspan, ?_⟩
  rw [MtrrState.fixedRange, ← h.fix]

/-! ## The variable ranges -/

/-- While the flag is clear the loop stops at the first match. -/
theorem scanVar_first (hflag : m.overlapped = false) (segs : List Nat) (o pos : BitVec 8) :
    scanVar m pa segs o pos =
      match segs.find? (fun seg => decide (m.Matches pa seg)) with
      | some seg => .error (m.varType seg)
      | none => .ok (o, pos) := by
  induction segs with
  | nil => rfl
  | cons seg segs ih =>
    rw [scanVar, hflag]
    by_cases hmatch : m.Matches pa seg
    · rw [if_pos hmatch, List.find?_cons_of_pos (by simpa using hmatch)]
      rfl
    · rw [if_neg hmatch, List.find?_cons_of_neg (by simpa using hmatch)]
      exact ih

/-- While it is set the loop collects the types of all matches: bit `k` of
`overlap_mtrr` is set if it was, or some range of type `k` matches. -/
theorem scanVar_all (hflag : m.overlapped = true) (segs : List Nat) (o pos : BitVec 8) :
    ∃ o' pos', scanVar m pa segs o pos = .ok (o', pos') ∧
      (∀ k < 8, o'.getLsbD k = true ↔ o.getLsbD k = true ∨ ∃ seg ∈ segs, m.Matches pa seg ∧ (m.varType seg).toNat = k) ∧
      ((pos' = pos ∧ ∀ seg ∈ segs, ¬ m.Matches pa seg) ∨ ∃ seg ∈ segs, m.Matches pa seg ∧ pos' = m.varType seg) := by
  induction segs generalizing o pos with
  | nil => exact ⟨o, pos, rfl, by simp, .inl ⟨rfl, by simp⟩⟩
  | cons seg segs ih =>
    by_cases hmatch : m.Matches pa seg
    · rcases ih (o ||| 1#8 <<< (m.varType seg).toNat) (m.varType seg) with ⟨o', pos', hscan, hbits, hpos⟩
      refine ⟨o', pos', ?_, ?_, .inr ?_⟩
      · rw [scanVar, if_pos hmatch, hflag]
        exact hscan
      · intro k hk
        rw [hbits k hk, BitVec.getLsbD_or, Bool.or_eq_true, or_assoc, ← BitVec.twoPow_eq]
        refine or_congr_right ?_
        have hbit : (BitVec.twoPow 8 (m.varType seg).toNat).getLsbD k = true ↔ (m.varType seg).toNat = k := by
          rw [BitVec.getLsbD_twoPow]
          simp only [Bool.and_eq_true, decide_eq_true_eq]
          omega
        rw [hbit]
        simp [hmatch]
      · rcases hpos with ⟨hsame, -⟩ | ⟨seg', hmem, hseg'⟩
        · exact ⟨seg, List.mem_cons_self, hmatch, hsame⟩
        · exact ⟨seg', List.mem_cons_of_mem seg hmem, hseg'⟩
    · rcases ih o pos with ⟨o', pos', hscan, hbits, hpos⟩
      refine ⟨o', pos', ?_, ?_, ?_⟩
      · rw [scanVar, if_neg hmatch]
        exact hscan
      · intro k hk
        rw [hbits k hk]
        simp [hmatch]
      · rcases hpos with ⟨hsame, hnone⟩ | ⟨seg', hmem, hseg'⟩
        · refine .inl ⟨hsame, ?_⟩
          intro seg' hmem
          rcases List.mem_cons.mp hmem with rfl | hrest
          · exact hmatch
          · exact hnone seg' hrest
        · exact .inr ⟨seg', List.mem_cons_of_mem seg hmem, hseg'⟩

/-- How the bits of `overlap_mtrr` decide, with a bit that is set at the
position. -/
theorem combine_spec {o pos : BitVec 8} (hpos : o.getLsbD pos.toNat = true) (defType : BitVec 8) :
    ((∀ k < 8, o.getLsbD k = true → k = pos.toNat) → combine defType o pos = pos) ∧
      (o.getLsbD 0 = true → combine defType o pos = mtrrTypeUncachable) ∧
      ((∀ k < 8, o.getLsbD k = true ↔ k = 4 ∨ k = 6) → combine defType o pos = mtrrTypeWrthrough) := by
  have hlt : pos.toNat < 8 := BitVec.lt_of_getLsbD hpos
  have hne : o ≠ 0 := by
    rintro rfl
    simp at hpos
  have hrest (k : Nat) : (o &&& ~~~(1#8 <<< pos.toNat)).getLsbD k = (o.getLsbD k && decide (k ≠ pos.toNat)) := by
    rw [← BitVec.twoPow_eq, BitVec.getLsbD_and, BitVec.getLsbD_not, BitVec.getLsbD_twoPow]
    rcases Nat.lt_or_ge k 8 with hk | hk
    · simp only [hk, hlt, decide_true, Bool.true_and, eq_comm (a := pos.toNat)]
      simp
    · rw [BitVec.getLsbD_of_ge o k hk, Bool.false_and, Bool.false_and]
  unfold combine
  rw [if_neg hne]
  refine ⟨?_, ?_, ?_⟩
  · intro honly
    refine if_pos ?_
    ext k hk
    rw [← BitVec.getLsbD_eq_getElem, hrest]
    by_cases hbit : o.getLsbD k = true
    · simp [honly k hk hbit]
    · simp [hbit]
  · intro hzero
    split
    · next hsingle =>
        -- Bit 0 is the one that is left, so the position is 0.
        have hbit := hrest 0
        rw [hsingle, hzero, Bool.true_and] at hbit
        have hat : 0 = pos.toNat := not_ne_iff.mp (of_decide_eq_false hbit.symm)
        exact BitVec.eq_of_toNat_eq hat.symm
    · exact if_pos ((and_bit_ne_zero o (by decide)).mpr hzero)
  · intro hbits
    have ho : o = 0x50 := by
      ext k hk
      rw [← BitVec.getLsbD_eq_getElem, Bool.eq_iff_iff, hbits k hk]
      revert k
      decide
    have hat : pos.toNat = 4 ∨ pos.toNat = 6 := (hbits _ hlt).mp hpos
    rw [ho]
    rcases hat with hat | hat
    · rw [BitVec.eq_of_toNat_eq (y := 4#8) hat]
      decide
    · rw [BitVec.eq_of_toNat_eq (y := 6#8) hat]
      decide

theorem Corresponds.varType_lt (h : Corresponds P m r) (seg : Nat) : (m.varType seg).toNat < 8 := by
  have hvalid := h.valid (seg * 2)
  unfold ValidType at hvalid
  unfold MtrrState.varType
  rcases hvalid with h' | h' | h' | h' | h' <;> rw [h'] <;> decide

/-- With the flag set the loop and what follows it give the architecture's type. -/
theorem Corresponds.varType_of_overlapped (h : Corresponds P m r) (hflag : m.overlapped = true) :
    r.VarType pa (lookupVar m pa) := by
  have hall : ∃ o pos, scanVar m pa (List.range m.numVarRanges) 0 0 = .ok (o, pos) ∧ _ :=
    scanVar_all hflag (List.range m.numVarRanges) 0 0
  rcases hall with ⟨o, pos, hscan, hbits, hpos⟩
  have hbit : ∀ k < 8, o.getLsbD k = true ↔ ∃ t ∈ r.types pa, t.toNat = k := by
    intro k hk
    rw [hbits k hk, h.count]
    constructor
    · rintro (hzero | ⟨seg, hseg, hmatch, rfl⟩)
      · simp at hzero
      · exact ⟨m.varType seg, h.mem_types.mpr ⟨seg, List.mem_range.mp hseg, hmatch, rfl⟩, rfl⟩
    · rintro ⟨t, ht, rfl⟩
      rcases h.mem_types.mp ht with ⟨seg, hseg, hmatch, rfl⟩
      exact .inr ⟨seg, List.mem_range.mpr hseg, hmatch, rfl⟩
  rw [lookupVar, hscan]
  show r.VarType pa (combine m.defType o pos)
  rcases hpos with ⟨-, hnone⟩ | ⟨seg, hseg, hmatch, rfl⟩
  · -- No range matches, so no bit is set.
    have hempty : r.types pa = ∅ := by
      refine Set.eq_empty_of_forall_notMem ?_
      intro t ht
      rcases h.mem_types.mp ht with ⟨seg, hseg, hmatch, -⟩
      exact hnone seg (by rw [h.count]; exact List.mem_range.mpr hseg) hmatch
    have ho : o = 0 := by
      ext k hk
      show o[k] = (0#8)[k]
      rw [← BitVec.getLsbD_eq_getElem, BitVec.getElem_zero]
      refine Bool.eq_false_iff.mpr ?_
      intro htrue
      rcases (hbit k hk).mp htrue with ⟨t, ht, -⟩
      rw [hempty] at ht
      exact ht
    refine ⟨fun _ => ?_, fun u hu => ?_, fun huc => ?_, fun hboth => ?_⟩
    · rw [combine, if_pos ho, h.defType]
    · exact absurd (hempty.symm.trans hu) (Set.singleton_ne_empty u).symm
    · rw [hempty] at huc
      exact huc.elim
    · exact absurd (hempty.symm.trans hboth) (Set.insert_nonempty _ _).ne_empty.symm
  · have hmem : m.varType seg ∈ r.types pa := by
      rw [h.count] at hseg
      exact h.mem_types.mpr ⟨seg, List.mem_range.mp hseg, hmatch, rfl⟩
    have hset : o.getLsbD (m.varType seg).toNat = true := (hbit _ (h.varType_lt seg)).mpr ⟨_, hmem, rfl⟩
    have hspec := combine_spec hset m.defType
    refine ⟨fun hempty => ?_, fun u hu => ?_, fun huc => ?_, fun hboth => ?_⟩
    · rw [hempty] at hmem
      exact hmem.elim
    · rw [hu] at hmem
      have hsame : m.varType seg = u := hmem
      refine (hspec.1 ?_).trans hsame
      intro k hk hk_set
      rcases (hbit k hk).mp hk_set with ⟨t, ht, rfl⟩
      rw [hu] at ht
      rw [hsame, show t = u from ht]
    · exact hspec.2.1 ((hbit 0 (by decide)).mpr ⟨_, huc, rfl⟩)
    · refine hspec.2.2 ?_
      intro k hk
      rw [hbit k hk, hboth]
      constructor
      · rintro ⟨t, rfl | rfl, rfl⟩
        · exact .inl rfl
        · exact .inr rfl
      · rintro (rfl | rfl)
        · exact ⟨_, .inl rfl, rfl⟩
        · exact ⟨_, .inr rfl, rfl⟩

/-- Range `i` is the first that matches. -/
def Msrs.First (r : Msrs) (pa : BitVec 64) (i : Fin 8) : Prop := r.Matches pa i ∧ ∀ j < i, ¬ r.Matches pa j

/-- A range that matches later prevails over range `i`. -/
def Msrs.Prevails (r : Msrs) (pa : BitVec 64) (i : Fin 8) : Prop :=
  (mtrrTypeUncachable ∈ r.types pa ∧ (r.base i).setWidth 8 ≠ mtrrTypeUncachable) ∨
    (r.types pa = {mtrrTypeWrthrough, mtrrTypeWrback} ∧ (r.base i).setWidth 8 = mtrrTypeWrback)

/-- With the flag clear it is the first range that gives the type, or none does. -/
theorem Corresponds.lookupVar_first (h : Corresponds P m r) (hflag : m.overlapped = false) (pa : BitVec 64) :
    (∃ i, r.First pa i ∧ lookupVar m pa = (r.base i).setWidth 8) ∨
      ((∀ i, ¬ r.Matches pa i) ∧ lookupVar m pa = r.defType.setWidth 8) := by
  rw [lookupVar, scanVar_first hflag, h.count]
  cases hfind : (List.range 8).find? (fun seg => decide (m.Matches pa seg)) with
  | none =>
    refine .inr ⟨?_, ?_⟩
    · intro i hmatch
      have hno := List.find?_eq_none.mp hfind i.val (List.mem_range.mpr i.isLt)
      exact hno (decide_eq_true ((h.matches_iff pa i).mpr hmatch))
    · show combine m.defType 0 0 = _
      rw [combine, if_pos rfl, h.defType]
  | some seg =>
    have hspec := List.find?_range_eq_some.mp hfind
    have hseg : seg < 8 := List.mem_range.mp hspec.2.1
    refine .inl ⟨⟨seg, hseg⟩, ⟨?_, ?_⟩, ?_⟩
    · exact (h.matches_iff pa ⟨seg, hseg⟩).mp (by simpa using hspec.1)
    · intro j hj hmatch
      have hno := hspec.2.2 j.val hj
      rw [decide_eq_true ((h.matches_iff pa j).mpr hmatch)] at hno
      cases hno
    · show m.varType seg = _
      rw [MtrrState.varType, ← h.base ⟨seg, hseg⟩]

/-- That is the architecture's type unless a later range prevails. -/
theorem Msrs.First.varType_iff {i : Fin 8} (hi : r.First pa i) :
    r.VarType pa ((r.base i).setWidth 8) ↔ ¬ r.Prevails pa i := by
  have hmem : (r.base i).setWidth 8 ∈ r.types pa := ⟨i, hi.1, rfl⟩
  constructor
  · rintro ⟨-, -, huc, hboth⟩ (⟨hmemuc, hne⟩ | ⟨htypes, hwb⟩)
    · exact hne (huc hmemuc)
    · have hwt := hboth htypes
      rw [hwb] at hwt
      cases hwt
  · intro hno
    refine ⟨fun hempty => ?_, fun u hu => ?_, fun huc => ?_, fun hboth => ?_⟩
    · rw [hempty] at hmem
      exact hmem.elim
    · exact Set.mem_singleton_iff.mp (hu ▸ hmem)
    · by_contra hne
      exact hno (.inl ⟨huc, hne⟩)
    · by_contra hne
      have htwo := hboth ▸ hmem
      exact hno (.inr ⟨hboth, htwo.resolve_left hne⟩)

/-- The lookup is right wherever the fixed ranges decide or the MTRRs are off, and
else where the variable ranges are. -/
theorem Corresponds.hasType_iff (h : Corresponds P m r) (pa : BitVec 64) :
    r.HasType pa (getMtrrType m pa) ↔
      (r.defType.getLsbD 11 = true → ¬ r.ByFixed pa → r.VarType pa (lookupVar m pa)) := by
  have hoff := h.enabled_iff
  have hfixed : pa < 0x100000 ∧ m.enabled &&& 1 ≠ 0 ↔ r.ByFixed pa := and_congr Iff.rfl h.fixedEnabled_iff
  unfold Msrs.HasType getMtrrType
  by_cases hen : r.defType.getLsbD 11 = true
  · rw [if_neg fun hzero => by rw [hoff.mp hzero] at hen; cases hen]
    by_cases hby : r.ByFixed pa
    · rw [if_pos (hfixed.mpr hby)]
      refine iff_of_true ⟨fun hno => ?_, fun _ _ => h.fixedRange hby.1, fun _ hno => (hno hby).elim⟩ fun _ hno => (hno hby).elim
      rw [hno] at hen
      cases hen
    · rw [if_neg (hfixed.not.mpr hby)]
      refine ⟨fun hall => hall.2.2, fun hvar => ⟨fun hno => ?_, fun _ hyes => (hby hyes).elim, hvar⟩⟩
      rw [hno] at hen
      cases hen
  · rw [if_pos (hoff.mpr (Bool.not_eq_true _ ▸ hen))]
    exact iff_of_true ⟨fun _ => rfl, fun hyes => (hen hyes).elim, fun hyes => (hen hyes).elim⟩ fun hyes => (hen hyes).elim

end Hvm.Mtrr
