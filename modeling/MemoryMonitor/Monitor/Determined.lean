import MemoryMonitor.Monitor.Expiry

/-!
# What the printed results depend on

Two runs of the main loop over the same CR3 lists and the same guest memory,
which differ in what the uninitialised words happened to hold, are kept in
lockstep. The records of a table are related by `SameRecord`: equal up to the
bits of `paddr` that no observation has written. A record is only accounted
for under bits that were written, so this part of the unspecified contents
never reaches the output.

The unspecified contents of the *tables* can: `check_cr3_list` leaves `check`
and `activity_page` unset, and the accounting of the same round reads them.
`Benign` says when a round does not print an unset field; `results_determined`
is the lockstep theorem for runs of such rounds.
-/

namespace Monitor

variable {D : Type}

/-! ## Records in lockstep -/

/-- The parts of `paddr` that the history of the record has written. -/
structure SameAddress (present : Byte) (p p' : ULong) : Prop where
  huge : p.getLsbD 0 = p'.getLsbD 0
  frame : (present &&& 1#8 = 1#8 ∨ getChangeNumber present ≠ 0) →
    ∀ i, 28 ≤ i → i < 64 → p.getLsbD i = p'.getLsbD i
  swap : present &&& 1#8 = 0#8 → ∀ i, 1 ≤ i → i ≤ 27 → p.getLsbD i = p'.getLsbD i

/-- Equal up to unwritten bits of `paddr`. -/
structure SameRecord (r r' : MapData) : Prop where
  present : r.presentTimes = r'.presentTimes
  weight : r.weight = r'.weight
  address : SameAddress r.presentTimes r.paddr r'.paddr

/-- Tables whose records are in lockstep. -/
abbrev SameRecords (h h' : OrdMap ULong MapData) : Prop :=
  OrdMap.Forall₂ (fun _ => SameRecord) h h'

theorem getLsbD_saveAddress_valid (w f : ULong) (huge : Byte) {i : Nat} (hi : i < 64) :
    (saveAddress w f (validByte true) huge).getLsbD i =
      if i = 0 then (huge.signExtend 64).getLsbD 0
      else if 28 ≤ i then f.getLsbD (i - 28) else w.getLsbD i := by
  rw [saveAddress, if_pos (by rfl), getLsbD_saveHugeBit _ _ hi, getLsbD_savePaddr _ _ hi]

theorem getLsbD_saveAddress_swap (w f : ULong) (huge : Byte) {i : Nat} (hi : i < 64) :
    (saveAddress w f (validByte false) huge).getLsbD i =
      if i = 0 then (huge.signExtend 64).getLsbD 0
      else ((w.getLsbD i && !(decide (1 ≤ i) && decide (i ≤ 27))) ||
        (decide (1 ≤ i) && decide (i ≤ 28) && !decide (i = 25) && f.getLsbD (i - 1))) := by
  rw [saveAddress, if_neg (by decide), getLsbD_saveHugeBit _ _ hi, getLsbD_saveSwapPaddr _ _ hi]

/-- Writing the same observation over two words. -/
theorem sameAddress_save (f : ULong) (v : Bool) (huge : Byte) {present' : Byte}
    {w w' : ULong} (hbit : present' &&& 1#8 = validByte v)
    (hframe : v = false → getChangeNumber present' ≠ 0 →
      ∀ i, 28 ≤ i → i < 64 → w.getLsbD i = w'.getLsbD i) :
    SameAddress present' (saveAddress w f (validByte v) huge)
      (saveAddress w' f (validByte v) huge) := by
  cases v with
  | true =>
      refine ⟨?_, fun _ i hi hi' => ?_, fun h0 => ?_⟩
      · rw [getLsbD_saveAddress_valid _ _ _ (by omega), getLsbD_saveAddress_valid _ _ _ (by omega),
          if_pos rfl, if_pos rfl]
      · have h0 : i ≠ 0 := by omega
        rw [getLsbD_saveAddress_valid _ _ _ hi', getLsbD_saveAddress_valid _ _ _ hi']
        simp only [h0, hi, if_true, if_false]
      · rw [hbit] at h0
        exact absurd h0 (by decide)
  | false =>
      refine ⟨?_, fun hwritten i hi hi' => ?_, fun _ i hi hi' => ?_⟩
      · rw [getLsbD_saveAddress_swap _ _ _ (by omega), getLsbD_saveAddress_swap _ _ _ (by omega),
          if_pos rfl, if_pos rfl]
      · have hnum : getChangeNumber present' ≠ 0 := by
          rcases hwritten with h1 | h1
          · rw [hbit] at h1
            exact absurd h1 (by decide)
          · exact h1
        rw [getLsbD_saveAddress_swap _ _ _ hi', getLsbD_saveAddress_swap _ _ _ hi',
          hframe rfl hnum i hi hi']
      · rw [getLsbD_saveAddress_swap _ _ _ (by omega), getLsbD_saveAddress_swap _ _ _ (by omega),
          if_neg (by omega), if_neg (by omega), decide_eq_true hi, decide_eq_true hi']
        simp

/-- A counter that is not zero after an observation in swap has seen the page valid. -/
theorem written_of_counter : ∀ present : Byte,
    getChangeNumber (updatePresent present (validByte false)) ≠ 0 →
      present &&& 1#8 = 1#8 ∨ getChangeNumber present ≠ 0 := by
  decide +kernel

/-- One observation keeps two tables in lockstep, whatever fresh words hold. -/
theorem compareSwap_same {t t' : HashTable D} (h : SameRecords t.h t'.h)
    (gw : GuestPagetableWalk) (v : Bool) (huge : Byte) (u u' : ULong) :
    SameRecords (compareSwap t gw (validByte v) huge u).2.h
      (compareSwap t' gw (validByte v) huge u').2.h := by
  rcases h.get?_cases gw.va with ⟨hr, hr'⟩ | ⟨r, r', hr, hr', hsame⟩
  · rw [compareSwap_of_none _ _ _ hr, compareSwap_of_none _ _ _ hr',
      OrdMap.insert_of_none _ hr, OrdMap.insert_of_none _ hr']
    refine h.set ⟨rfl, rfl, sameAddress_save _ v huge (records_first v).bit ?_⟩
    rintro rfl hnum
    exact absurd (show getChangeNumber (validByte false) = 0 by decide) hnum
  · rw [compareSwap_of_some _ _ _ hr, compareSwap_of_some _ _ _ hr']
    refine h.set ⟨by rw [hsame.present], rfl,
      sameAddress_save _ v huge (updatePresent_bit _ v) ?_⟩
    rintro rfl hnum
    exact hsame.address.frame (written_of_counter _ hnum)

/-! ## Walks in lockstep -/

/-- The same `gw`, and tables with the same records. -/
structure SameWalk (st st' : WalkState D) : Prop where
  gw : st.gw = st'.gw
  records : SameRecords st.table.h st'.table.h

/-- Both loops end normally, or both at a bus error. -/
inductive SameEnd : Walk D → Walk D → Prop
  | ok {st st' : WalkState D} (h : SameWalk st st') : SameEnd (.ok st) (.ok st')
  | error {st st' : WalkState D} (h : SameWalk st st') : SameEnd (.error st) (.error st')

theorem walkLoop_same {body body' : WalkState D → Nat → Walk D}
    (hbody : ∀ st st' i, SameWalk st st' → SameEnd (body st i) (body' st' i)) (l : List Nat)
    {st st' : WalkState D} (h : SameWalk st st') :
    SameEnd (walkLoop body l st) (walkLoop body' l st') := by
  induction l generalizing st st' with
  | nil => exact .ok h
  | cons i rest ih =>
      have hi := hbody st st' i h
      unfold walkLoop
      cases hb : body st i with
      | ok st₁ =>
          rw [hb] at hi
          cases hb' : body' st' i with
          | ok st₁' =>
              rw [hb'] at hi
              cases hi with
              | ok h₁ => exact ih h₁
          | error st₁' => rw [hb'] at hi; cases hi
      | error st₁ =>
          rw [hb] at hi
          cases hb' : body' st' i with
          | ok st₁' => rw [hb'] at hi; cases hi
          | error st₁' =>
              rw [hb'] at hi
              exact hi

/-- One observation of the walk, with the same `gw` on both sides. -/
theorem observe_same {st st' : WalkState D} (h : SameWalk st st') {valid : Byte} {v : Bool}
    (hv : valid = validByte v) (huge : Byte) (uninit uninit' : ULong → ULong) :
    SameWalk (st.observe valid huge uninit) (st'.observe valid huge uninit') := by
  subst hv
  refine ⟨h.gw, ?_⟩
  unfold WalkState.observe
  dsimp only
  rw [← h.gw]
  exact compareSwap_same h.records _ _ _ _ _

theorem walkL1_same (uninit uninit' : ULong → ULong) (l1p : Nat → Option ULong) (l2 l3 l4 : Nat)
    (st st' : WalkState D) (i : Nat) (h : SameWalk st st') :
    SameEnd (walkL1 uninit l1p l2 l3 l4 st i) (walkL1 uninit' l1p l2 l3 l4 st' i) := by
  unfold walkL1
  cases l1p i with
  | none => exact .error h
  | some e =>
      dsimp only
      rw [← h.gw]
      split
      · exact .ok ⟨rfl, h.records⟩
      · split
        · refine .ok (observe_same ?_ (v := false) rfl _ _ _)
          exact ⟨rfl, h.records⟩
        · refine .ok ⟨rfl, (observe_same ?_ (v := true) rfl _ _ _).records⟩
          exact ⟨rfl, h.records⟩

theorem walkL2_same (mem : GuestMemory) (uninit uninit' : ULong → ULong)
    (l2p : Nat → Option ULong) (l3 l4 : Nat) (st st' : WalkState D) (i : Nat)
    (h : SameWalk st st') :
    SameEnd (walkL2 mem uninit l2p l3 l4 st i) (walkL2 mem uninit' l2p l3 l4 st' i) := by
  unfold walkL2
  cases l2p i with
  | none => exact .error h
  | some e =>
      dsimp only
      rw [← h.gw]
      split
      · exact .ok ⟨rfl, h.records⟩
      · split
        · split
          · split
            · refine .ok (observe_same ?_ (v := false) rfl _ _ _)
              exact ⟨rfl, h.records⟩
            · refine .ok (observe_same ?_ (v := true) rfl _ _ _)
              exact ⟨rfl, h.records⟩
          · exact .ok ⟨rfl, h.records⟩
        · cases mem (mapFrame e) with
          | none => exact .ok ⟨rfl, h.records⟩
          | some l1p =>
              exact walkLoop_same (walkL1_same uninit uninit' l1p i l3 l4) offsets
                ⟨rfl, h.records⟩

theorem walkL3_same (mem : GuestMemory) (uninit uninit' : ULong → ULong)
    (l3p : Nat → Option ULong) (l4 : Nat) (st st' : WalkState D) (i : Nat)
    (h : SameWalk st st') :
    SameEnd (walkL3 mem uninit l3p l4 st i) (walkL3 mem uninit' l3p l4 st' i) := by
  unfold walkL3
  cases l3p i with
  | none => exact .error h
  | some e =>
      dsimp only
      rw [← h.gw]
      split
      · exact .ok ⟨rfl, h.records⟩
      · split
        · exact .ok ⟨rfl, h.records⟩
        · cases mem (mapFrame e) with
          | none => exact .ok ⟨rfl, h.records⟩
          | some l2p =>
              exact walkLoop_same (walkL2_same mem uninit uninit' l2p i l4) offsets
                ⟨rfl, h.records⟩

theorem walkL4_same (mem : GuestMemory) (uninit uninit' : ULong → ULong)
    (l4p : Nat → Option ULong) (st st' : WalkState D) (i : Nat) (h : SameWalk st st') :
    SameEnd (walkL4 mem uninit l4p st i) (walkL4 mem uninit' l4p st' i) := by
  unfold walkL4
  cases l4p i with
  | none => exact .error h
  | some e =>
      dsimp only
      rw [← h.gw]
      split
      · exact .ok ⟨rfl, h.records⟩
      · cases mem (mapFrame e) with
        | none => exact .ok ⟨rfl, h.records⟩
        | some l3p =>
            exact walkLoop_same (walkL3_same mem uninit uninit' l3p i) offsets ⟨rfl, h.records⟩

theorem pageWalk_same [CDouble D] (mem : GuestMemory) (uninit uninit' : ULong → ULong)
    (dtb : ULong) {t t' : HashTable D} (h : SameRecords t.h t'.h) :
    SameRecords (pageWalkIa32e mem uninit dtb t).2.1.h
      (pageWalkIa32e mem uninit' dtb t').2.1.h := by
  unfold pageWalkIa32e
  dsimp only
  cases mem (mapFrame dtb) with
  | none => exact h
  | some l4p =>
      dsimp only
      generalize hst : WalkState.mk _ (resetCounters t) 0 0 0 = st
      generalize hst' : WalkState.mk _ (resetCounters t') 0 0 0 = st'
      have hsame : SameWalk st st' := by
        rw [← hst, ← hst']
        exact ⟨rfl, h⟩
      have hend := walkLoop_same (walkL4_same mem uninit uninit' l4p) offsets hsame
      cases hw : walkLoop (walkL4 mem uninit l4p) offsets st with
      | ok st₁ =>
          rw [hw] at hend
          cases hw' : walkLoop (walkL4 mem uninit' l4p) offsets st' with
          | ok st₁' =>
              rw [hw'] at hend
              cases hend with
              | ok h₁ => exact h₁.records
          | error st₁' => rw [hw'] at hend; cases hend
      | error st₁ =>
          rw [hw] at hend
          cases hw' : walkLoop (walkL4 mem uninit' l4p) offsets st' with
          | ok st₁' => rw [hw'] at hend; cases hend
          | error st₁' => exact OrdMap.Forall₂.empty

/-! ## Accounting in lockstep -/

theorem getHugeBit_same {p p' : ULong} (h : p.getLsbD 0 = p'.getLsbD 0) :
    getHugeBit p = getHugeBit p' := by
  apply BitVec.eq_of_getLsbD_eq
  intro i _
  rw [getLsbD_getHugeBit, getLsbD_getHugeBit, h]

theorem getPaddr_same {p p' : ULong}
    (h : ∀ i, 28 ≤ i → i < 64 → p.getLsbD i = p'.getLsbD i) : getPaddr p = getPaddr p' := by
  apply BitVec.eq_of_getLsbD_eq
  intro i _
  rw [getLsbD_getPaddr, getLsbD_getPaddr]
  by_cases hi : i < 36
  · rw [h (28 + i) (by omega) (by omega)]
  · simp only [hi, decide_false, Bool.false_and]

theorem getSwapId_same {p p' : ULong} (hlow : ∀ i, 1 ≤ i → i ≤ 27 → p.getLsbD i = p'.getLsbD i)
    (hhigh : ∀ i, 28 ≤ i → i < 64 → p.getLsbD i = p'.getLsbD i) :
    getSwapId p = getSwapId p' := by
  apply BitVec.eq_of_getLsbD_eq
  intro i _
  rw [getLsbD_getSwapId, getLsbD_getSwapId]
  by_cases hi : i < 63
  · by_cases hlo : 1 + i ≤ 27
    · rw [hlow (1 + i) (by omega) hlo]
    · rw [hhigh (1 + i) (by omega) (by omega)]
  · simp only [hi, decide_false, Bool.false_and]

theorem counter_of_counted : ∀ present : Byte,
    changeLimit.sle (getChangeNumber present) = true → getChangeNumber present ≠ 0 := by
  decide +kernel

/-- A record that counts is looked up under bits its history has written. -/
theorem visitRecord_same [CDouble D] {r r' : MapData} (h : SameRecord r r')
    (st : SystemMaps × D × D) (vkey : ULong) :
    (visitRecord st vkey r).1 = (visitRecord st vkey r').1 ∧
      SameRecord (visitRecord st vkey r).2 (visitRecord st vkey r').2 := by
  have hhuge := getHugeBit_same h.address.huge
  refine ⟨?_, ⟨h.present, congrArg decay h.weight, h.address⟩⟩
  unfold visitRecord
  dsimp only
  rw [← h.present, ← h.weight, ← hhuge]
  rcases validBit_cases r.presentTimes with hbit | hbit
  · by_cases hc : changeLimit.sle (getChangeNumber r.presentTimes) = true
    · have hswap := getSwapId_same (h.address.swap hbit)
        (h.address.frame (Or.inr (counter_of_counted _ hc)))
      rw [hswap]
      simp [hbit]
    · simp [hbit, hc]
  · have hframe := getPaddr_same (h.address.frame (Or.inl hbit))
    rw [hframe]
    simp [hbit]

/-- The system maps and the two results that are printed. -/
structure SameTotals (st st' : CalcState D) : Prop where
  sys : st.sys = st'.sys
  invalid : st.result.invalid = st'.result.invalid
  valid : st.result.valid = st'.result.valid

theorem visitTable_same [CDouble D] {t t' : HashTable D} (h : SameRecords t.h t'.h)
    (hcheck : t.check = 1 ∨ t'.check = 1 →
      t.check = t'.check ∧ t.activityPage = t'.activityPage)
    {st st' : CalcState D} (hst : SameTotals st st') (cr3 : ULong) :
    SameTotals (visitTable st cr3 t).1 (visitTable st' cr3 t').1 ∧
      SameRecords (visitTable st cr3 t).2.h (visitTable st' cr3 t').2.h := by
  by_cases hc : t.check = 1
  · obtain ⟨hc', hact⟩ := hcheck (Or.inl hc)
    have hrecs : (t.h.mapAccum visitRecord (st.sys, t.activityPage)).1 =
          (t'.h.mapAccum visitRecord (st.sys, t.activityPage)).1 ∧
        SameRecords (t.h.mapAccum visitRecord (st.sys, t.activityPage)).2
          (t'.h.mapAccum visitRecord (st.sys, t.activityPage)).2 := by
      refine h.mapAccum (Q := Eq) ?_ rfl
      rintro s _ k r r' rfl hr
      exact visitRecord_same hr s k
    unfold visitTable
    simp only [hc, ← hc', if_true, ← hact, ← hst.sys]
    refine ⟨⟨?_, ?_, ?_⟩, hrecs.2⟩
    · rw [hrecs.1]
    · rw [hrecs.1, hst.invalid]
    · rw [hrecs.1, hst.valid]
  · have hc' : t'.check ≠ 1 := fun h1 => hc ((hcheck (Or.inr h1)).1.trans h1)
    unfold visitTable
    simp only [hc, hc', if_false]
    exact ⟨⟨hst.sys, hst.invalid, hst.valid⟩, h⟩

theorem visitTable_check [CDouble D] (st : CalcState D) (cr3 : ULong) (t : HashTable D) :
    (visitTable st cr3 t).2.check = 0 ∧ (visitTable st cr3 t).2.round = t.round ∧
      (t.check ≠ 1 → (visitTable st cr3 t).2.activityPage = t.activityPage) := by
  unfold visitTable
  dsimp only
  split
  · next hc => exact ⟨rfl, rfl, fun hne => absurd hc hne⟩
  · exact ⟨rfl, rfl, fun _ => rfl⟩

/-! ## Tables in lockstep, through the phases of a round -/

/-- Between rounds. The activity of the kernel's table is never reset, so it
keeps what it was created with. -/
structure Settled (cr3 : ULong) (t t' : HashTable D) : Prop where
  records : SameRecords t.h t'.h
  round : t.round = t'.round
  check : t.check = 0
  check' : t'.check = 0
  activity : cr3 ≠ kernelCr3 → t.activityPage = t'.activityPage

/-- While `check_cr3_list` goes through `cr3List`, with `rest` still to come. -/
structure Listing (cr3List rest : List ULong) (cr3 : ULong) (t t' : HashTable D) : Prop where
  records : SameRecords t.h t'.h
  settled : cr3 ∉ cr3List → Settled cr3 t t'
  pending : cr3 ∈ rest → t.activityPage = t'.activityPage
  printed : cr3 ∈ cr3List → cr3 ∉ rest → t.check = 1 ∨ t'.check = 1 →
    t.check = t'.check ∧ t.activityPage = t'.activityPage

/-- While the tables of `rest` are still to be walked. -/
structure Walking (rest : List ULong) (cr3 : ULong) (t t' : HashTable D) : Prop where
  records : SameRecords t.h t'.h
  settled : cr3 ∉ rest → Settled cr3 t t'

/-- What a round may find in its uninitialised tables and in the kernel's table
without printing it: a new CR3 listed once is not taken for a checked one, and
an activity that will be accounted for is zero. -/
structure Benign [CDouble D] (list : DataMap D) (cr3List : List ULong)
    (table : Nat → HashTable D) : Prop where
  once : ∀ pre c post, cr3List = pre ++ c :: post → list.get? c = none → c ∉ pre → c ∉ post →
    (table pre.length).check ≠ 1
  again : ∀ pre c post, cr3List = pre ++ c :: post → list.get? c = none → c ∉ pre → c ∈ post →
    (table pre.length).activityPage = (CDouble.ofInt 0, CDouble.ofInt 0)
  kernel : kernelCr3 ∈ cr3List → ∀ h, list.get? kernelCr3 = some h →
    h.activityPage = (CDouble.ofInt 0, CDouble.ofInt 0)

variable [CDouble D]

omit [CDouble D] in
/-- Moving on from `c`: nothing changes for the other tables. -/
theorem Listing.advance {cr3List rest : List ULong} {c cr3 : ULong} {t t' : HashTable D}
    (h : Listing cr3List (c :: rest) cr3 t t') (hne : cr3 ≠ c) : Listing cr3List rest cr3 t t' :=
  ⟨h.records, h.settled, fun hmem => h.pending (List.mem_cons_of_mem _ hmem),
    fun hmem hrest => h.printed hmem fun hc => by
      rcases List.mem_cons.mp hc with rfl | hc
      · exact hne rfl
      · exact hrest hc⟩

/-- `check_cr3_list` in lockstep. `pre` is the part of the list gone through. -/
theorem checkCr3Loop_same {table table' : Nat → HashTable D} {list list' : DataMap D}
    {cr3List : List ULong} (hb : Benign list cr3List table) (hb' : Benign list' cr3List table')
    (rest : List ULong) : ∀ (pre : List ULong) (total total' : ULong) (m m' : DataMap D),
      cr3List = pre ++ rest →
      (∀ k, m.get? k = none → list.get? k = none ∧ list'.get? k = none ∧ k ∉ pre) →
      OrdMap.Forall₂ (Listing cr3List rest) m m' →
      OrdMap.Forall₂ (Listing cr3List []) (checkCr3Loop table pre.length rest (total, m)).2
        (checkCr3Loop table' pre.length rest (total', m')).2 := by
  induction rest with
  | nil => exact fun _ _ _ _ _ _ _ h => h
  | cons c rest ih =>
      intro pre total total' m m' hL hnone h
      have hmem : c ∈ cr3List := by rw [hL]; simp
      have hL' : cr3List = (pre ++ [c]) ++ rest := by rw [hL]; simp
      have hlen : pre.length + 1 = (pre ++ [c]).length := by simp
      have hnone' : ∀ (t : HashTable D) (k : ULong), (m.set c t).get? k = none →
          list.get? k = none ∧ list'.get? k = none ∧ k ∉ pre ++ [c] := by
        intro t k hk
        have hkc : k ≠ c := by
          rintro rfl
          rw [OrdMap.get?_set_self] at hk
          cases hk
        rw [OrdMap.get?_set_of_ne _ _ hkc] at hk
        obtain ⟨h1, h2, h3⟩ := hnone k hk
        exact ⟨h1, h2, by simp [h3, hkc]⟩
      rcases h.get?_cases c with ⟨hm, hm'⟩ | ⟨t, t', hm, hm', hR⟩
      · -- a new CR3: both sides insert a table they have not initialised
        obtain ⟨hl, hl', hpre⟩ := hnone c hm
        simp only [checkCr3Loop, hm, hm', OrdMap.insert_of_none _ hm, OrdMap.insert_of_none _ hm',
          hlen]
        refine ih _ _ _ _ _ hL' (hnone' _) (h.update (fun _ _ _ hne hk => hk.advance hne) ?_)
        refine ⟨OrdMap.Forall₂.empty, fun hn => absurd hmem hn, fun hpost => ?_,
          fun _ hpost hone => ?_⟩
        · exact (hb.again pre c rest hL hl hpre hpost).trans
            (hb'.again pre c rest hL hl' hpre hpost).symm
        · rcases hone with h1 | h1
          · exact absurd h1 (hb.once pre c rest hL hl hpre hpost)
          · exact absurd h1 (hb'.once pre c rest hL hl' hpre hpost)
      · have hact := hR.pending (List.mem_cons_self ..)
        simp only [checkCr3Loop, hm, hm', hlen]
        refine ih _ _ _ _ _ hL' (hnone' _) (h.update (fun _ _ _ hne hk => hk.advance hne) ?_)
        exact ⟨hR.records, fun hn => absurd hmem hn, fun _ => hact, fun _ _ _ => ⟨rfl, hact⟩⟩

/-- `calculate_all_page` in lockstep. -/
theorem calculateAllPage_same {cr3List : List ULong} {m m' : DataMap D}
    (h : OrdMap.Forall₂ (Listing cr3List []) m m') (sys : SystemMaps) (result : Result D) :
    SameTotals (calculateAllPage m sys result).1 (calculateAllPage m' sys result).1 ∧
      OrdMap.Forall₂ (Walking cr3List) (calculateAllPage m sys result).2
        (calculateAllPage m' sys result).2 := by
  refine h.mapAccum (Q := SameTotals) ?_ ⟨rfl, rfl, rfl⟩
  intro st st' cr3 t t' hst hR
  have hskip : cr3 ∉ cr3List → t.check ≠ 1 ∧ t'.check ≠ 1 := by
    intro hn
    have hs := hR.settled hn
    exact ⟨by rw [hs.check]; decide, by rw [hs.check']; decide⟩
  have hcheck : t.check = 1 ∨ t'.check = 1 →
      t.check = t'.check ∧ t.activityPage = t'.activityPage := by
    intro hone
    by_cases hmem : cr3 ∈ cr3List
    · exact hR.printed hmem (List.not_mem_nil) hone
    · rcases hone with h1 | h1
      · exact absurd h1 (hskip hmem).1
      · exact absurd h1 (hskip hmem).2
  obtain ⟨htot, hrec⟩ := visitTable_same hR.records hcheck hst cr3
  obtain ⟨hc, hr, ha⟩ := visitTable_check st cr3 t
  obtain ⟨hc', hr', ha'⟩ := visitTable_check st' cr3 t'
  refine ⟨htot, hrec, fun hn => ⟨hrec, ?_, hc, hc', fun hk => ?_⟩⟩
  · rw [hr, hr', (hR.settled hn).round]
  · rw [ha (hskip hn).1, ha' (hskip hn).2, (hR.settled hn).activity hk]

/-- The table a walk leaves is settled, whatever was there. -/
theorem walkCr3_same {rest : List ULong} {c : ULong} {m m' : DataMap D}
    (h : OrdMap.Forall₂ (Walking (c :: rest)) m m') (mem : GuestMemory)
    (uninit uninit' : ULong → ULong) (round : ULong) (gw gw' : GuestPagetableWalk) :
    OrdMap.Forall₂ (Walking rest) (walkCr3 mem uninit round m gw c).1
      (walkCr3 mem uninit' round m' gw' c).1 := by
  have hadvance : ∀ k (t t' : HashTable D), k ≠ c → Walking (c :: rest) k t t' →
      Walking rest k t t' := by
    intro k t t' hne hk
    refine ⟨hk.records, fun hn => hk.settled ?_⟩
    intro hc
    rcases List.mem_cons.mp hc with rfl | hc
    · exact hne rfl
    · exact hn hc
  have hrec : SameRecords ((m.get? c).getD .zero).h ((m'.get? c).getD .zero).h := by
    rcases h.get?_cases c with ⟨hm, hm'⟩ | ⟨t, t', hm, hm', hR⟩
    · rw [hm, hm']
      exact OrdMap.Forall₂.empty
    · rw [hm, hm']
      exact hR.records
  unfold walkCr3
  dsimp only
  split
  · next hc =>
      refine h.update hadvance ⟨hrec, fun _ => ⟨hrec, rfl, rfl, rfl, fun hk => absurd hc hk⟩⟩
  · generalize ht : HashTable.mk ((m.get? c).getD .zero).h c _ _ _ _ round 0 = t
    generalize ht' : HashTable.mk ((m'.get? c).getD .zero).h c _ _ _ _ round 0 = t'
    have hrec' : SameRecords t.h t'.h := by rw [← ht, ← ht']; exact hrec
    have hwalk := pageWalk_same mem uninit uninit' c hrec'
    obtain ⟨-, ha, hr, hck⟩ := pageWalk_frame mem uninit c t
    obtain ⟨-, ha', hr', hck'⟩ := pageWalk_frame mem uninit' c t'
    refine h.update hadvance ⟨hwalk, fun _ => ⟨hwalk, ?_, ?_, ?_, fun _ => ?_⟩⟩
    · rw [hr, hr', ← ht, ← ht']
      rfl
    · rw [hck, ← ht]
      rfl
    · rw [hck', ← ht']
      rfl
    · rw [ha, ha']
      rfl

theorem walkCr3Loop_same (mem : Nat → GuestMemory) (uninit uninit' : Nat → ULong → ULong)
    (round : ULong) (rest : List ULong) :
    ∀ (i : Nat) {m m' : DataMap D} (gw gw' : GuestPagetableWalk),
      OrdMap.Forall₂ (Walking rest) m m' →
      OrdMap.Forall₂ (Walking []) (walkCr3Loop mem uninit round i rest (m, gw)).1
        (walkCr3Loop mem uninit' round i rest (m', gw')).1 := by
  induction rest with
  | nil => exact fun _ _ _ _ _ h => h
  | cons c rest ih =>
      intro i m m' gw gw' h
      exact ih (i + 1) _ _ (walkCr3_same h (mem i) (uninit i) (uninit' i) round gw gw')

omit [CDouble D] in
/-- Which tables expire depends on the round stamps, which are in lockstep. -/
theorem retrieveList_same {m m' : DataMap D}
    (h : OrdMap.Forall₂ Settled m m') (round : ULong) :
    OrdMap.Forall₂ Settled (retrieveList m round).list (retrieveList m' round).list := by
  refine h.filter (fun t => !decide (Expired round t)) (fun t => !decide (Expired round t)) ?_
    (retrieveList_spec m round).1 (retrieveList_spec m' round).1
  intro k t t' hR
  have hiff : Expired round t ↔ Expired round t' := by
    unfold Expired
    rw [hR.round]
  simp only [hiff]

/-- The round's `Benign`, on the state it starts from. -/
def BenignRound (u : Unspecified D) (inp : RoundInput) (st : LoopState D) : Prop :=
  Benign st.dataMap inp.cr3List u.table

/-- States of two runs between rounds. -/
structure InStep (st st' : LoopState D) : Prop where
  tables : OrdMap.Forall₂ Settled st.dataMap st'.dataMap
  counter : st.globalRound = st'.globalRound

theorem mainRound_same {u u' : Unspecified D} {inp : RoundInput} {st st' : LoopState D}
    (h : InStep st st') (hb : BenignRound u inp st) (hb' : BenignRound u' inp st') :
    InStep (mainRound u inp st).1 (mainRound u' inp st').1 ∧
      (mainRound u inp st).2.result.invalid = (mainRound u' inp st').2.result.invalid ∧
      (mainRound u inp st).2.result.valid = (mainRound u' inp st').2.result.valid := by
  have hstart : OrdMap.Forall₂ (Listing inp.cr3List inp.cr3List) st.dataMap st'.dataMap := by
    refine h.tables.with_get?.imp fun cr3 t t' hR => ?_
    obtain ⟨hR, hget, hget'⟩ := hR
    refine ⟨hR.records, fun _ => hR, fun hmem => ?_, fun hmem hn => absurd hmem hn⟩
    -- the kernel's table is never reset: here the two activities agree by being zero
    by_cases hk : cr3 = kernelCr3
    · subst hk
      exact (hb.kernel hmem t hget).trans (hb'.kernel hmem t' hget').symm
    · exact hR.activity hk
  have hnone : ∀ k, st.dataMap.get? k = none →
      st.dataMap.get? k = none ∧ st'.dataMap.get? k = none ∧ k ∉ ([] : List ULong) := by
    intro k hk
    rcases h.tables.get?_cases k with ⟨h1, h2⟩ | ⟨t, t', h1, -, -⟩
    · exact ⟨h1, h2, List.not_mem_nil⟩
    · rw [h1] at hk
      cases hk
  have hlisted := checkCr3Loop_same hb hb' inp.cr3List [] 0 0 _ _ rfl hnone hstart
  obtain ⟨htotals, hacct⟩ := calculateAllPage_same hlisted .cleared .zero
  have hwalked := walkCr3Loop_same inp.memory u.paddr u'.paddr st.globalRound inp.cr3List 0
    st.gw st'.gw hacct
  have hsettled := hwalked.imp fun cr3 t t' hR => hR.settled List.not_mem_nil
  refine ⟨⟨?_, ?_⟩, htotals.invalid, htotals.valid⟩
  · unfold mainRound
    dsimp only
    rw [← h.counter]
    exact retrieveList_same hsettled _
  · unfold mainRound
    dsimp only
    rw [h.counter]

theorem inStep_run {u u' : Nat → Unspecified D} {inputs : Nat → RoundInput}
    {gw gw' : GuestPagetableWalk} {n : Nat}
    (hb : ∀ m < n, BenignRound (u m) (inputs m) (stateAfter u inputs (.start gw) m))
    (hb' : ∀ m < n, BenignRound (u' m) (inputs m) (stateAfter u' inputs (.start gw') m)) :
    InStep (stateAfter u inputs (.start gw) n) (stateAfter u' inputs (.start gw') n) := by
  induction n with
  | zero => exact ⟨OrdMap.Forall₂.empty, rfl⟩
  | succ n ih =>
      have hn := ih (fun m hm => hb m (by omega)) (fun m hm => hb' m (by omega))
      exact (mainRound_same hn (hb n (by omega)) (hb' n (by omega))).1

/-- In every two runs over the same CR3 lists and the same guest memory whose
rounds are benign, every round prints the same results, whatever the
uninitialised words of either run hold. -/
theorem results_determined (u u' : Nat → Unspecified D) (inputs : Nat → RoundInput)
    (gw gw' : GuestPagetableWalk) (n : Nat)
    (hb : ∀ m ≤ n, BenignRound (u m) (inputs m) (stateAfter u inputs (.start gw) m))
    (hb' : ∀ m ≤ n, BenignRound (u' m) (inputs m) (stateAfter u' inputs (.start gw') m)) :
    (outputOf u inputs (.start gw) n).result.invalid =
        (outputOf u' inputs (.start gw') n).result.invalid ∧
      (outputOf u inputs (.start gw) n).result.valid =
        (outputOf u' inputs (.start gw') n).result.valid := by
  have hn := inStep_run (n := n) (fun m hm => hb m hm.le) (fun m hm => hb' m hm.le)
  exact (mainRound_same hn (hb n (le_refl n)) (hb' n (le_refl n))).2

/-- A table that has not been initialised, with the given junk in `check` and
`activity_page`. -/
def junk (check : Byte) (activity : Int) : HashTable IntDouble :=
  ⟨.empty, 0, 7, 7, 7, (⟨activity⟩, ⟨0⟩), 7, check⟩

/-- A run whose rounds all list the CR3 `0x1000`, with nothing mapped. -/
def oneListed : Nat → RoundInput := fun _ => ⟨[0x1000], fun _ _ => none⟩

/-- Every uninitialised table of the run holds `t`. -/
def supply (t : HashTable IntDouble) : Nat → Unspecified IntDouble :=
  fun _ => ⟨fun _ => t, fun _ _ => 7⟩

def zeroWalk : GuestPagetableWalk := ⟨0, 0, 0, 0, 0, 0, 0, 0, 0⟩

/-- A check byte of 1 in the uninitialised table: the first round prints the
activity that happens to stand there. -/
theorem results_differ :
    ¬ ∀ (u u' : Nat → Unspecified IntDouble) (inputs : Nat → RoundInput)
      (gw : GuestPagetableWalk) (n : Nat), (∀ m, (u m).paddr = (u' m).paddr) →
      (outputOf u inputs (.start gw) n).result.invalid =
          (outputOf u' inputs (.start gw) n).result.invalid ∧
        (outputOf u inputs (.start gw) n).result.valid =
          (outputOf u' inputs (.start gw) n).result.valid := by
  intro hall
  have h := (hall (supply (junk 1 5)) (supply (junk 0 0)) oneListed zeroWalk 0 fun _ => rfl).1
  exact absurd h (by decide +kernel)

/-- The first round over two supplies whose check bytes are not 1. -/
theorem results_determined_first :
    (outputOf (supply (junk 2 5)) oneListed (.start zeroWalk) 0).result.invalid =
        (outputOf (supply (junk 0 9)) oneListed (.start zeroWalk) 0).result.invalid ∧
      (outputOf (supply (junk 2 5)) oneListed (.start zeroWalk) 0).result.valid =
        (outputOf (supply (junk 0 9)) oneListed (.start zeroWalk) 0).result.valid := by
  have hbenign : ∀ (check : Byte) (activity : Int), check ≠ 1 → ∀ m ≤ 0,
      BenignRound (supply (junk check activity) m) (oneListed m)
        (stateAfter (supply (junk check activity)) oneListed (.start zeroWalk) m) := by
    intro check activity hc m hm
    obtain rfl : m = 0 := by omega
    have hpost : ∀ (pre : List ULong) (c : ULong) (post : List ULong),
        (oneListed 0).cr3List = pre ++ c :: post → post = [] := by
      intro pre c post hL
      have hlen := congrArg List.length hL
      simp [oneListed] at hlen
      exact List.eq_nil_of_length_eq_zero (by omega)
    refine ⟨fun _ _ _ _ _ _ _ => hc, fun pre c post hL _ _ hmem => ?_, fun hmem => ?_⟩
    · rw [hpost pre c post hL] at hmem
      exact absurd hmem List.not_mem_nil
    · exact absurd hmem (by decide)
  exact results_determined _ _ oneListed zeroWalk zeroWalk 0 (hbenign 2 5 (by decide))
    (hbenign 0 9 (by decide))

end Monitor
