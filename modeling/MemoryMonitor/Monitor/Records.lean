import MemoryMonitor.Monitor.Account
import MemoryMonitor.Monitor.Leaves

/-!
# The records after a page-table walk

When all tables can be mapped and read, the walk is one `compare_swap` for every leaf of the tree, in
order (`pageWalk_leaves`). A leaf's record is then found in the table as that call has left it, and the
other records are as they were.

The walk goes through every level 4 entry that is present; the page-size bit, which does not exist at
that level, is not looked at.
-/

namespace Monitor

variable {D : Type} {uninit : ULong → ULong} {mem : GuestMemory} {dtb : ULong}

/-! ## The loops see the leaves -/

/-- The leaves `ls` have been seen between the two states. -/
structure Seen (uninit : ULong → ULong) (ls : List Leaf) (st st' : WalkState D) : Prop where
  table : st'.table = ls.foldl (Leaf.see uninit) st.table
  count : st'.count = st.count + BitVec.ofNat 64 (ls.countP Leaf.swapped)

theorem Seen.skip {st st' : WalkState D} (htable : st'.table = st.table) (hcount : st'.count = st.count) :
    Seen uninit [] st st' := by
  refine ⟨htable, ?_⟩
  rw [hcount]
  simp

theorem Seen.append {ls ls' : List Leaf} {st st' st'' : WalkState D} (h : Seen uninit ls st st')
    (h' : Seen uninit ls' st' st'') : Seen uninit (ls ++ ls') st st'' := by
  refine ⟨?_, ?_⟩
  · rw [h'.table, h.table, List.foldl_append]
  · rw [h'.count, h.count, List.countP_append, BitVec.ofNat_add, BitVec.add_assoc]

theorem walkLoop_seen {body : WalkState D → Nat → Walk D} {f : Nat → List Leaf} {l : List Nat}
    (hbody : ∀ i ∈ l, ∀ st, ∃ st', body st i = .ok st' ∧ Seen uninit (f i) st st') (st : WalkState D) :
    ∃ st', walkLoop body l st = .ok st' ∧ Seen uninit (l.flatMap f) st st' := by
  induction l generalizing st with
  | nil => exact ⟨st, rfl, Seen.skip rfl rfl⟩
  | cons i rest ih =>
    obtain ⟨st', hok, hseen⟩ := hbody i List.mem_cons_self st
    obtain ⟨st'', hok', hseen'⟩ := ih (fun j hj => hbody j (List.mem_cons_of_mem i hj)) st'
    refine ⟨st'', ?_, ?_⟩
    · unfold walkLoop
      rw [hok]
      exact hok'
    · rw [List.flatMap_cons]
      exact hseen.append hseen'

/-- `compare_swap` reads the address and one entry of `gw`. -/
theorem compareSwap_congr (t : HashTable D) {gw gw' : GuestPagetableWalk} {huge : Byte}
    (hva : gw.va = gw'.va) (hframe : entryFrame gw huge = entryFrame gw' huge) (valid : Byte) (u : ULong) :
    compareSwap t gw valid huge u = compareSwap t gw' valid huge u := by
  unfold compareSwap
  rw [hva, hframe]

theorem walkL1_seen (uninit : ULong → ULong) {e2 : ULong} {page : Nat → Option ULong} (hpage : mem (mapFrame e2) = some page)
    {l1 : Nat} (hread : ∃ e, page l1 = some e) (l2 l3 l4 : Nat) (st : WalkState D) :
    ∃ st', walkL1 uninit page l2 l3 l4 st l1 = .ok st' ∧
      Seen uninit (match entryAt mem e2 l1 with
        | none => []
        | some e => if slotVaddr l4 l3 l2 l1 = 0 then [] else [⟨slotVaddr l4 l3 l2 l1, e, false⟩]) st st' := by
  obtain ⟨e, he⟩ := hread
  have hentry : entryAt mem e2 l1 = some e := by
    unfold entryAt
    rw [hpage]
    exact he
  rw [hentry]
  unfold walkL1
  rw [he]
  change ∃ st', (if slotVaddr l4 l3 l2 l1 = 0 then _ else _) = _ ∧ _
  dsimp only
  by_cases hva : slotVaddr l4 l3 l2 l1 = 0
  · rw [if_pos hva, if_pos hva]
    exact ⟨_, rfl, Seen.skip rfl rfl⟩
  · rw [if_neg hva, if_neg hva]
    by_cases hp : present e = false
    · have hpte : pteEntryValid e = 0 := (entryPresent_iff e).mpr hp
      rw [if_pos hpte]
      refine ⟨_, rfl, ?_, ?_⟩
      · simp only [List.foldl_cons, List.foldl_nil, Leaf.see, hp]
        exact congrArg Prod.snd (compareSwap_congr _ rfl rfl _ _)
      · simp [WalkState.observe, Leaf.swapped, hp]
    · have hpte : ¬ pteEntryValid e = 0 := fun h => hp ((entryPresent_iff e).mp h)
      have hp' : present e = true := by simpa using hp
      rw [if_neg hpte]
      refine ⟨_, rfl, ?_, ?_⟩
      · simp only [List.foldl_cons, List.foldl_nil, Leaf.see, hp']
        exact congrArg Prod.snd (compareSwap_congr _ rfl rfl _ _)
      · simp [WalkState.observe, Leaf.swapped, hp']

/-- The state after `map_page` of a table. -/
theorem walkL2_seen (uninit : ULong → ULong) (l4 l3 : Nat) {e3 : ULong} {page : Nat → Option ULong}
    (hpage : mem (mapFrame e3) = some page) {l2 : Nat} (hread : ∃ e, page l2 = some e)
    (hnext : ∀ e, entryAt mem e3 l2 = some e → present e = true → large e = false → Whole mem e)
    (st : WalkState D) :
    ∃ st', walkL2 mem uninit page l3 l4 st l2 = .ok st' ∧
      Seen uninit (match entryAt mem e3 l2 with
        | none => []
        | some e =>
          if present e = false then []
          else if large e then (if user e then [⟨slotVaddr l4 l3 l2 0, e, true⟩] else [])
          else leavesOf1 mem l4 l3 l2 e) st st' := by
  obtain ⟨e, he⟩ := hread
  have hentry : entryAt mem e3 l2 = some e := by
    unfold entryAt
    rw [hpage]
    exact he
  rw [hentry]
  unfold walkL2
  rw [he]
  dsimp only
  by_cases hp : present e = false
  · rw [if_pos ((entryValid_iff e).mpr hp), if_pos hp]
    exact ⟨_, rfl, Seen.skip rfl rfl⟩
  · have hp' : present e = true := by simpa using hp
    rw [if_neg (fun h => hp ((entryValid_iff e).mp h)), if_neg hp]
    by_cases hl : large e = false
    · have hl' : ¬ pageSizeFlag e ≠ 0 := fun h => h ((pageSizeFlag_iff e).mpr hl)
      obtain ⟨l1p, hl1p, hwhole⟩ := hnext e hentry hp' hl
      have hlarge : ¬ large e = true := by rw [hl]; decide
      rw [if_neg hl', if_neg hlarge, hl1p]
      obtain ⟨st', hok, hseen⟩ := walkLoop_seen
        (fun l1 hl1 st => walkL1_seen uninit hl1p (hwhole l1 (mem_offsets.mp hl1)) l2 l3 l4 st)
        { st with gw := { st.gw with l2e := e, l1mfn := mapFrame e } }
      exact ⟨st', hok, hseen.table, hseen.count⟩
    · have hl' : pageSizeFlag e ≠ 0 := fun h => hl ((pageSizeFlag_iff e).mp h)
      have hlarge : large e = true := by simpa using hl
      rw [if_pos hl', if_pos hlarge]
      by_cases hu : user e = false
      · have huser : ¬ user e = true := by rw [hu]; decide
        have hbit : ¬ getBit e 1 2 ≠ 0 := fun h => h ((getBit_user_iff e).mpr hu)
        rw [if_neg hbit, if_neg huser]
        exact ⟨_, rfl, Seen.skip rfl rfl⟩
      · have huser : user e = true := by simpa using hu
        have hbit : getBit e 1 2 ≠ 0 := fun h => hu ((getBit_user_iff e).mp h)
        -- a large page that is present is never one in swap
        have hpte : ¬ pteEntryValid e = 0 := fun h => hp ((entryPresent_iff e).mp h)
        rw [if_pos hbit, if_pos huser, if_neg hpte]
        refine ⟨_, rfl, ?_, ?_⟩
        · simp only [List.foldl_cons, List.foldl_nil, Leaf.see, hp']
          exact congrArg Prod.snd (compareSwap_congr _ rfl rfl _ _)
        · simp [WalkState.observe, Leaf.swapped]

theorem walkL3_seen (uninit : ULong → ULong) (l4 : Nat) {e4 : ULong} {page : Nat → Option ULong}
    (hpage : mem (mapFrame e4) = some page) {l3 : Nat} (hread : ∃ e, page l3 = some e)
    (hnext : ∀ e, entryAt mem e4 l3 = some e → present e = true → large e = false → Whole mem e)
    (hdeep : ∀ e, entryAt mem e4 l3 = some e → present e = true → large e = false →
      ∀ l2 < 512, ∀ e', entryAt mem e l2 = some e' → present e' = true → large e' = false → Whole mem e')
    (st : WalkState D) :
    ∃ st', walkL3 mem uninit page l4 st l3 = .ok st' ∧
      Seen uninit (match entryAt mem e4 l3 with
        | none => []
        | some e => if present e = false ∨ large e = true then [] else leavesOf2 mem l4 l3 e) st st' := by
  obtain ⟨e, he⟩ := hread
  have hentry : entryAt mem e4 l3 = some e := by
    unfold entryAt
    rw [hpage]
    exact he
  rw [hentry]
  unfold walkL3
  rw [he]
  dsimp only
  by_cases hp : present e = false
  · rw [if_pos ((entryValid_iff e).mpr hp), if_pos (.inl hp)]
    exact ⟨_, rfl, Seen.skip rfl rfl⟩
  · have hp' : present e = true := by simpa using hp
    rw [if_neg (fun h => hp ((entryValid_iff e).mp h))]
    by_cases hl : large e = false
    · have hl' : ¬ pageSizeFlag e ≠ 0 := fun h => h ((pageSizeFlag_iff e).mpr hl)
      obtain ⟨l2p, hl2p, hwhole⟩ := hnext e hentry hp' hl
      have hstop : ¬ (present e = false ∨ large e = true) := by rw [hp', hl]; decide
      rw [if_neg hl', if_neg hstop, hl2p]
      obtain ⟨st', hok, hseen⟩ := walkLoop_seen
        (fun l2 hl2 st => walkL2_seen uninit l4 l3 hl2p
          (hwhole l2 (mem_offsets.mp hl2)) (hdeep e hentry hp' hl l2 (mem_offsets.mp hl2)) st)
        { st with gw := { st.gw with l3e := e, l2mfn := mapFrame e } }
      exact ⟨st', hok, hseen.table, hseen.count⟩
    · have hl' : pageSizeFlag e ≠ 0 := fun h => hl ((pageSizeFlag_iff e).mp h)
      have hlarge : large e = true := by simpa using hl
      rw [if_pos hl', if_pos (.inr hlarge)]
      exact ⟨_, rfl, Seen.skip rfl rfl⟩

theorem walkL4_seen (uninit : ULong → ULong) (hmap : Mappable mem dtb) {page : Nat → Option ULong}
    (hpage : mem (mapFrame dtb) = some page) {l4 : Nat} (h4 : l4 < 512) (hread : ∃ e, page l4 = some e)
    (st : WalkState D) :
    ∃ st', walkL4 mem uninit page st l4 = .ok st' ∧
      Seen uninit (match entryAt mem dtb l4 with
        | none => []
        | some e => if present e = false then [] else leavesOf3 mem l4 e) st st' := by
  obtain ⟨e, he⟩ := hread
  have hentry : entryAt mem dtb l4 = some e := by
    unfold entryAt
    rw [hpage]
    exact he
  rw [hentry]
  unfold walkL4
  rw [he]
  dsimp only
  by_cases hp : present e = false
  · rw [if_pos ((entryValid_iff e).mpr hp), if_pos hp]
    exact ⟨_, rfl, Seen.skip rfl rfl⟩
  · have hp' : present e = true := by simpa using hp
    have hat4 : At4 (present ·) mem dtb l4 e := ⟨h4, hentry, hp'⟩
    obtain ⟨l3p, hl3p, hwhole⟩ := hmap.table3 l4 e hat4
    rw [if_neg (fun h => hp ((entryValid_iff e).mp h)), if_neg hp, hl3p]
    obtain ⟨st', hok, hseen⟩ := walkLoop_seen
      (fun l3 hl3 st => walkL3_seen uninit l4 hl3p (hwhole l3 (mem_offsets.mp hl3))
        (fun e3 he3 => hmap.table2 l4 l3 e3 ⟨mem_offsets.mp hl3, e, hat4, he3⟩)
        (fun e3 he3 hp3 hl3' l2 hl2 e2 he2 => hmap.table1 l4 l3 l2 e2
          ⟨hl2, e3, ⟨mem_offsets.mp hl3, e, hat4, he3⟩, hp3, hl3', he2⟩) st)
      { st with gw := { st.gw with l4e := e, l3mfn := mapFrame e } }
    exact ⟨st', hok, hseen.table, hseen.count⟩

theorem pageWalk_leaves [CDouble D] (hmap : Mappable mem dtb) (uninit : ULong → ULong) (t : HashTable D) :
    (pageWalkIa32e mem uninit dtb t).2.1.h =
        ((leaves mem dtb).foldl (Leaf.see uninit) (resetCounters t)).h ∧
      (pageWalkIa32e mem uninit dtb t).1 = BitVec.ofNat 64 ((leaves mem dtb).countP Leaf.swapped) := by
  obtain ⟨page, hpage, hread⟩ := hmap.table4
  unfold pageWalkIa32e
  rw [hpage]
  dsimp only
  generalize hst : WalkState.mk _ (resetCounters t) 0 0 0 = st
  obtain ⟨st', hok, hseen⟩ := walkLoop_seen
    (fun l4 hl4 st => walkL4_seen uninit hmap hpage (mem_offsets.mp hl4) (hread l4 (mem_offsets.mp hl4)) st) st
  rw [hok]
  have htable := hseen.table
  have hcount := hseen.count
  rw [← hst] at htable hcount
  have hrecords := congrArg HashTable.h htable
  refine ⟨hrecords, ?_⟩
  change st'.count = _
  rw [hcount]
  exact BitVec.zero_add _

/-! ## The records -/

variable {ls : List Leaf} {leaf : Leaf}

theorem see_other (t : HashTable D) {k : ULong} (hk : k ≠ leaf.va) :
    (leaf.see uninit t).h.get? k = t.h.get? k :=
  compareSwap_other t leaf.gw _ _ _ hk

theorem foldl_see_other (t : HashTable D) {k : ULong} (hk : k ∉ ls.map Leaf.va) :
    (ls.foldl (Leaf.see uninit) t).h.get? k = t.h.get? k := by
  induction ls generalizing t with
  | nil => rfl
  | cons leaf rest ih =>
    rw [List.map_cons, List.mem_cons, not_or] at hk
    rw [List.foldl_cons, ih _ hk.2, see_other t hk.1]

/-- The record of a leaf is the one that its own call leaves. -/
theorem foldl_see_self (uninit : ULong → ULong) (t : HashTable D) (hls : (ls.map Leaf.va).Nodup) (hleaf : leaf ∈ ls) :
    ∃ t' : HashTable D, t'.h.get? leaf.va = t.h.get? leaf.va ∧
      (ls.foldl (Leaf.see uninit) t).h.get? leaf.va = (leaf.see uninit t').h.get? leaf.va := by
  obtain ⟨before, after, rfl⟩ := List.append_of_mem hleaf
  rw [List.map_append, List.map_cons, List.nodup_append] at hls
  obtain ⟨-, hafter, hdisjoint⟩ := hls
  refine ⟨before.foldl (Leaf.see uninit) t, ?_, ?_⟩
  · apply foldl_see_other
    intro hmem
    exact hdisjoint _ hmem _ List.mem_cons_self rfl
  · rw [List.foldl_append, List.foldl_cons]
    exact foldl_see_other _ (List.nodup_cons.mp hafter).1

/-- The address word that a call leaves. -/
theorem see_self (t : HashTable D) (leaf : Leaf) :
    ∃ r w, (leaf.see uninit t).h.get? leaf.va = some r ∧
      r.presentTimes &&& 1 = validByte (present leaf.entry) ∧
      r.paddr = saveAddress w ((leaf.entry &&& addrMask) >>> 12) (validByte (present leaf.entry))
        (if leaf.huge then 1 else 0) := by
  have hframe : entryFrame leaf.gw (if leaf.huge then 1 else 0) = (leaf.entry &&& addrMask) >>> 12 := by
    unfold entryFrame
    split <;> rfl
  unfold Leaf.see
  cases hr : t.h.get? leaf.gw.va with
  | none =>
    rw [compareSwap_of_none _ _ _ hr, hframe]
    refine ⟨⟨validByte (present leaf.entry), 1, _⟩, uninit leaf.va, ?_, (records_first _).bit, rfl⟩
    dsimp only
    rw [OrdMap.get?_insert, hr, if_pos (show leaf.va = leaf.gw.va from rfl)]
    rfl
  | some r =>
    rw [compareSwap_of_some _ _ _ hr, hframe]
    exact ⟨_, r.paddr, OrdMap.get?_set_self _ _ _, updatePresent_bit _ _, rfl⟩

/-! ### The fields of the address word -/

theorem getLsbD_entryFrame (entry : ULong) (i : Nat) :
    ((entry &&& addrMask) >>> 12).getLsbD i = (decide (i < 36) && entry.getLsbD (12 + i)) := by
  have hmask : addrMask.getLsbD (12 + i) = decide (12 + i < 48) := by
    by_cases h : 12 + i < 64
    · have hones : ∀ j < 64, addrMask.getLsbD j = decide (j < 48) := by decide
      exact hones _ h
    · rw [BitVec.getLsbD_of_ge _ _ (by omega), decide_eq_false (by omega)]
  rw [BitVec.getLsbD_ushiftRight, BitVec.getLsbD_and, hmask, Bool.and_comm]
  congr 1
  exact decide_eq_decide.mpr (by omega)

theorem getPaddr_saveAddress (w entry : ULong) (hugeBit : Byte) :
    getPaddr (saveAddress w ((entry &&& addrMask) >>> 12) 1 hugeBit) = (entry &&& addrMask) >>> 12 := by
  apply BitVec.eq_of_getLsbD_eq
  intro i hi
  rw [getLsbD_getPaddr, getLsbD_entryFrame]
  by_cases h36 : i < 36
  · unfold saveAddress
    rw [if_pos rfl, getLsbD_saveHugeBit _ _ (by omega), if_neg (by omega), getLsbD_savePaddr _ _ (by omega),
      if_pos (by omega), Nat.add_sub_cancel_left, getLsbD_entryFrame, decide_eq_true h36]
    simp
  · rw [decide_eq_false h36]
    rfl

theorem getLsbD_saveAddress_entry (w entry : ULong) (hugeBit : Byte) {i : Nat} (h1 : 1 ≤ i) (h27 : i ≤ 27)
    (h25 : i ≠ 25) :
    (saveAddress w ((entry &&& addrMask) >>> 12) 0 hugeBit).getLsbD i = entry.getLsbD (11 + i) := by
  unfold saveAddress
  rw [if_neg (by decide), getLsbD_saveHugeBit _ _ (by omega), if_neg (by omega),
    getLsbD_saveSwapPaddr _ _ (by omega), getLsbD_entryFrame, decide_eq_true h1, decide_eq_true h27,
    decide_eq_true (by omega : i ≤ 28), decide_eq_false h25, decide_eq_true (by omega : i - 1 < 36),
    show 12 + (i - 1) = 11 + i by omega]
  simp

theorem getHugeBit_saveAddress (w frame : ULong) (valid : Byte) :
    getHugeBit (saveAddress w frame valid 1) = 1 := by
  apply BitVec.eq_of_getLsbD_eq
  intro i hi
  unfold saveAddress
  rw [getLsbD_getHugeBit, getLsbD_saveHugeBit _ _ (by omega), if_pos rfl]
  by_cases hi0 : i = 0
  · rw [hi0]
    rfl
  · rw [decide_eq_false hi0, show (1 : BitVec 32) = 1#32 from rfl, BitVec.getLsbD_one, decide_eq_false hi0]
    simp

/-! ### What a walk finds -/

/-- The record of a 4K slot. One bit of a swap id, which `save_swap_paddr` masks out, is left open. -/
structure SlotRecord (entry : ULong) (r : MapData) : Prop where
  valid : r.presentTimes &&& 1 = validByte (present entry)
  frame : present entry = true → getPaddr r.paddr = (entry &&& addrMask) >>> 12
  swap : present entry = false → ∀ i, 1 ≤ i → i ≤ 27 → i ≠ 25 →
    r.paddr.getLsbD i = entry.getLsbD (11 + i)

/-- What the walk is for, on the tree below the level 4 entries that lead on. -/
structure WalkRecords [CDouble D] (through : ULong → Prop) (mem : GuestMemory) (uninit : ULong → ULong)
    (dtb : ULong) (t : HashTable D) : Prop where
  slot : ∀ l4 l3 l2 l1 e, At1 through mem dtb l4 l3 l2 l1 e → slotVaddr l4 l3 l2 l1 ≠ 0 →
    ∃ r, (pageWalkIa32e mem uninit dtb t).2.1.h.get? (slotVaddr l4 l3 l2 l1) = some r ∧ SlotRecord e r
  largePage : ∀ l4 l3 l2 e, LargePage through mem dtb l4 l3 l2 e →
    ∃ r, (pageWalkIa32e mem uninit dtb t).2.1.h.get? (slotVaddr l4 l3 l2 0) = some r ∧
      r.presentTimes &&& 1 = 1 ∧ getHugeBit r.paddr = 1
  other : ∀ k,
    (∀ l4 l3 l2 l1 e, At1 through mem dtb l4 l3 l2 l1 e → slotVaddr l4 l3 l2 l1 ≠ 0 →
      k ≠ slotVaddr l4 l3 l2 l1) →
    (∀ l4 l3 l2 e, LargePage through mem dtb l4 l3 l2 e → k ≠ slotVaddr l4 l3 l2 0) →
    (pageWalkIa32e mem uninit dtb t).2.1.h.get? k = t.h.get? k
  once : ∃ calls : List Leaf, (calls.map Leaf.va).Nodup ∧
    (pageWalkIa32e mem uninit dtb t).2.1.h = (calls.foldl (Leaf.see uninit) (resetCounters t)).h ∧
    ∀ leaf, leaf ∈ calls ↔
      (∃ l4 l3 l2 l1 e, At1 through mem dtb l4 l3 l2 l1 e ∧ slotVaddr l4 l3 l2 l1 ≠ 0 ∧
        leaf = ⟨slotVaddr l4 l3 l2 l1, e, false⟩) ∨
      ∃ l4 l3 l2 e, LargePage through mem dtb l4 l3 l2 e ∧ leaf = ⟨slotVaddr l4 l3 l2 0, e, true⟩
  key : ∀ l4 l3 l2 l1 k4 k3 k2 k1, l4 < 512 → l3 < 512 → l2 < 512 → l1 < 512 → k4 < 512 → k3 < 512 →
    k2 < 512 → k1 < 512 → slotVaddr l4 l3 l2 l1 = slotVaddr k4 k3 k2 k1 →
    l4 = k4 ∧ l3 = k3 ∧ l2 = k2 ∧ l1 = k1
  count : (pageWalkIa32e mem uninit dtb t).1.toNat = Set.ncard {p : Nat × Nat × Nat × Nat |
    ∃ e, At1 through mem dtb p.1 p.2.1 p.2.2.1 p.2.2.2 e ∧ slotVaddr p.1 p.2.1 p.2.2.1 p.2.2.2 ≠ 0 ∧
      present e = false}

variable [CDouble D]

theorem pageWalk_leaf (hmap : Mappable mem dtb) (uninit : ULong → ULong) (t : HashTable D)
    (hleaf : leaf ∈ leaves mem dtb) :
    ∃ r w, (pageWalkIa32e mem uninit dtb t).2.1.h.get? leaf.va = some r ∧
      r.presentTimes &&& 1 = validByte (present leaf.entry) ∧
      r.paddr = saveAddress w ((leaf.entry &&& addrMask) >>> 12) (validByte (present leaf.entry))
        (if leaf.huge then 1 else 0) := by
  obtain ⟨t', -, hself⟩ := foldl_see_self uninit (resetCounters t) (nodup_leaves mem dtb) hleaf
  rw [(pageWalk_leaves hmap uninit t).1, hself]
  exact see_self t' leaf

theorem pageWalk_slot (hmap : Mappable mem dtb) (uninit : ULong → ULong) (t : HashTable D)
    {l4 l3 l2 l1 : Nat} {e : ULong} (hat : At1 (present ·) mem dtb l4 l3 l2 l1 e)
    (hva : slotVaddr l4 l3 l2 l1 ≠ 0) :
    ∃ r, (pageWalkIa32e mem uninit dtb t).2.1.h.get? (slotVaddr l4 l3 l2 l1) = some r ∧ SlotRecord e r := by
  obtain ⟨r, w, hget, hvalid, hpaddr⟩ := pageWalk_leaf hmap uninit t
    (mem_leaves_iff.mpr (.inl ⟨l4, l3, l2, l1, e, hat, hva, rfl⟩))
  refine ⟨r, hget, hvalid, ?_, ?_⟩
  · intro hp
    rw [hpaddr, hp]
    exact getPaddr_saveAddress w e _
  · intro hp i h1 h27 h25
    rw [hpaddr, hp]
    exact getLsbD_saveAddress_entry w e _ h1 h27 h25

theorem pageWalk_largePage (hmap : Mappable mem dtb) (uninit : ULong → ULong) (t : HashTable D)
    {l4 l3 l2 : Nat} {e : ULong} (hat : LargePage (present ·) mem dtb l4 l3 l2 e) :
    ∃ r, (pageWalkIa32e mem uninit dtb t).2.1.h.get? (slotVaddr l4 l3 l2 0) = some r ∧
      r.presentTimes &&& 1 = 1 ∧ getHugeBit r.paddr = 1 := by
  obtain ⟨r, w, hget, hvalid, hpaddr⟩ := pageWalk_leaf hmap uninit t
    (mem_leaves_iff.mpr (.inr ⟨l4, l3, l2, e, hat, rfl⟩))
  have hp : present e = true := hat.2.1
  refine ⟨r, hget, ?_, ?_⟩
  · rw [hvalid, hp]
    rfl
  · rw [hpaddr]
    exact getHugeBit_saveAddress _ _ _

theorem pageWalk_other (hmap : Mappable mem dtb) (uninit : ULong → ULong) (t : HashTable D) {k : ULong}
    (hslot : ∀ l4 l3 l2 l1 e, At1 (present ·) mem dtb l4 l3 l2 l1 e → slotVaddr l4 l3 l2 l1 ≠ 0 →
      k ≠ slotVaddr l4 l3 l2 l1)
    (hlarge : ∀ l4 l3 l2 e, LargePage (present ·) mem dtb l4 l3 l2 e → k ≠ slotVaddr l4 l3 l2 0) :
    (pageWalkIa32e mem uninit dtb t).2.1.h.get? k = t.h.get? k := by
  rw [(pageWalk_leaves hmap uninit t).1, foldl_see_other]
  · rfl
  · intro hmem
    obtain ⟨leaf, hleaf, hva⟩ := List.mem_map.mp hmem
    rcases mem_leaves_iff.mp hleaf with ⟨l4, l3, l2, l1, e, hat, hne, rfl⟩ | ⟨l4, l3, l2, e, hat, rfl⟩
    · exact hslot l4 l3 l2 l1 e hat hne hva.symm
    · exact hlarge l4 l3 l2 e hat hva.symm

theorem slotVaddr_inj {l4 l3 l2 l1 k4 k3 k2 k1 : Nat} (h4 : l4 < 512) (h3 : l3 < 512) (h2 : l2 < 512)
    (h1 : l1 < 512) (g4 : k4 < 512) (g3 : k3 < 512) (g2 : k2 < 512) (g1 : k1 < 512)
    (h : slotVaddr l4 l3 l2 l1 = slotVaddr k4 k3 k2 k1) : l4 = k4 ∧ l3 = k3 ∧ l2 = k2 ∧ l1 = k1 := by
  obtain ⟨o4, o3, o2, o1⟩ := offsets_slotVaddr h4 h3 h2 h1
  obtain ⟨p4, p3, p2, p1⟩ := offsets_slotVaddr g4 g3 g2 g1
  rw [h] at o4 o3 o2 o1
  exact ⟨o4.symm.trans p4, o3.symm.trans p3, o2.symm.trans p2, o1.symm.trans p1⟩

/-! ### The count -/

omit [CDouble D] in
/-- There is room for the count: the addresses of the leaves in swap differ, and none is 0. -/
theorem countP_swapped_lt (mem : GuestMemory) (dtb : ULong) :
    (leaves mem dtb).countP Leaf.swapped < 2 ^ 64 := by
  have hnodup : (((leaves mem dtb).filter Leaf.swapped).map Leaf.va).Nodup :=
    List.Nodup.sublist (List.Sublist.map _ List.filter_sublist) (nodup_leaves mem dtb)
  have hbelow : ∀ v ∈ (((leaves mem dtb).filter Leaf.swapped).map Leaf.va).map BitVec.toNat, v < 2 ^ 64 := by
    intro v hv
    obtain ⟨va, -, rfl⟩ := List.mem_map.mp hv
    exact va.isLt
  have hzero : 0 ∉ (((leaves mem dtb).filter Leaf.swapped).map Leaf.va).map BitVec.toNat := by
    intro hmem
    obtain ⟨va, hva, hzero⟩ := List.mem_map.mp hmem
    obtain ⟨leaf, hleaf, rfl⟩ := List.mem_map.mp hva
    have hne : leaf.va ≠ 0 := by
      rcases mem_leaves_iff.mp (List.mem_of_mem_filter hleaf) with
        ⟨l4, l3, l2, l1, e, -, hne, rfl⟩ | ⟨l4, l3, l2, e, -, rfl⟩
      · exact hne
      · simp [Leaf.swapped] at hleaf
    exact hne (BitVec.eq_of_toNat_eq hzero)
  have hnat : ((((leaves mem dtb).filter Leaf.swapped).map Leaf.va).map BitVec.toNat).Nodup :=
    hnodup.map fun a b h => BitVec.eq_of_toNat_eq h
  have hsub : ((((leaves mem dtb).filter Leaf.swapped).map Leaf.va).map BitVec.toNat).toFinset ⊆
      Finset.Ico 1 (2 ^ 64) := by
    intro v hv
    rw [List.mem_toFinset] at hv
    rw [Finset.mem_Ico]
    refine ⟨?_, hbelow v hv⟩
    by_contra hlt
    exact hzero (by rwa [show v = 0 by omega] at hv)
  have hcard := Finset.card_le_card hsub
  rw [List.toFinset_card_of_nodup hnat, Nat.card_Ico, List.length_map, List.length_map,
    ← List.countP_eq_length_filter] at hcard
  omega

theorem pageWalk_count (hmap : Mappable mem dtb) (uninit : ULong → ULong) (t : HashTable D) :
    (pageWalkIa32e mem uninit dtb t).1.toNat = Set.ncard {p : Nat × Nat × Nat × Nat |
      ∃ e, At1 (present ·) mem dtb p.1 p.2.1 p.2.2.1 p.2.2.2 e ∧
        slotVaddr p.1 p.2.1 p.2.2.1 p.2.2.2 ≠ 0 ∧ present e = false} := by
  have hnodup : (((leaves mem dtb).filter Leaf.swapped).map Leaf.va).Nodup :=
    List.Nodup.sublist (List.Sublist.map _ List.filter_sublist) (nodup_leaves mem dtb)
  rw [(pageWalk_leaves hmap uninit t).2, BitVec.toNat_ofNat,
    Nat.mod_eq_of_lt (countP_swapped_lt mem dtb), List.countP_eq_length_filter, ← List.length_map Leaf.va,
    ← List.toFinset_card_of_nodup hnodup, ← Set.ncard_coe_finset]
  -- a slot goes to its address
  have himage : ((((leaves mem dtb).filter Leaf.swapped).map Leaf.va).toFinset : Set ULong) =
      (fun p : Nat × Nat × Nat × Nat => slotVaddr p.1 p.2.1 p.2.2.1 p.2.2.2) '' {p |
        ∃ e, At1 (present ·) mem dtb p.1 p.2.1 p.2.2.1 p.2.2.2 e ∧
          slotVaddr p.1 p.2.1 p.2.2.1 p.2.2.2 ≠ 0 ∧ present e = false} := by
    ext va
    rw [List.coe_toFinset]
    constructor
    · intro hva
      obtain ⟨leaf, hleaf, rfl⟩ := List.mem_map.mp hva
      have hswapped := List.of_mem_filter hleaf
      rcases mem_leaves_iff.mp (List.mem_of_mem_filter hleaf) with
        ⟨l4, l3, l2, l1, e, hat, hne, rfl⟩ | ⟨l4, l3, l2, e, -, rfl⟩
      · exact ⟨(l4, l3, l2, l1), ⟨e, hat, hne, by simpa [Leaf.swapped] using hswapped⟩, rfl⟩
      · simp [Leaf.swapped] at hswapped
    · rintro ⟨⟨l4, l3, l2, l1⟩, ⟨e, hat, hne, hp⟩, rfl⟩
      refine List.mem_map.mpr ⟨⟨slotVaddr l4 l3 l2 l1, e, false⟩, List.mem_filter.mpr ⟨?_, ?_⟩, rfl⟩
      · exact mem_leaves_iff.mpr (.inl ⟨l4, l3, l2, l1, e, hat, hne, rfl⟩)
      · simp only [Leaf.swapped]
        rw [show present e = false from hp]
        rfl
  rw [himage, Set.InjOn.ncard_image]
  rintro ⟨l4, l3, l2, l1⟩ ⟨e, ⟨h1, e2, ⟨h2, e3, ⟨h3, e4, ⟨h4, -⟩, -⟩, -⟩, -⟩, -⟩ ⟨k4, k3, k2, k1⟩
    ⟨e', ⟨g1, e2', ⟨g2, e3', ⟨g3, e4', ⟨g4, -⟩, -⟩, -⟩, -⟩, -⟩ heq
  obtain ⟨rfl, rfl, rfl, rfl⟩ := slotVaddr_inj h4 h3 h2 h1 g4 g3 g2 g1 heq
  rfl

/-- After a walk of a tree all of whose tables can be read, every slot and every large page has its
record, the other records are as before, no record has been written twice, and the slots in swap have
been counted. -/
theorem pageWalk_records (mem : GuestMemory) (uninit : ULong → ULong) (dtb : ULong) (t : HashTable D)
    (hmap : Mappable mem dtb) : WalkRecords (present ·) mem uninit dtb t where
  slot := fun _ _ _ _ _ hat hva => pageWalk_slot hmap uninit t hat hva
  largePage := fun _ _ _ _ hat => pageWalk_largePage hmap uninit t hat
  other := fun _ hslot hlarge => pageWalk_other hmap uninit t hslot hlarge
  once := ⟨leaves mem dtb, nodup_leaves mem dtb, (pageWalk_leaves hmap uninit t).1, fun _ => mem_leaves_iff⟩
  key := fun _ _ _ _ _ _ _ _ h4 h3 h2 h1 g4 g3 g2 g1 h => slotVaddr_inj h4 h3 h2 h1 g4 g3 g2 g1 h
  count := pageWalk_count hmap uninit t

/-- A table whose entry 0 is `e`, and whose others are not present. -/
def single (e : ULong) : Nat → Option ULong := fun i => some (if i = 0 then e else 0)

/-- One table at each level; bit 7 of the level 4 entry is as given. -/
def oneTree (bit7 : Bool) : GuestMemory := fun frame => some (
  if frame = 0 then single (if bit7 then 0x1081 else 0x1001)
  else if frame = 1 then single 0x2001
  else if frame = 2 then single 0x3001
  else single 0)

def zeroTable : HashTable IntDouble := ⟨.empty, 0, 0, 0, 0, (⟨0⟩, ⟨0⟩), 0, 0⟩

section

omit [CDouble D]

theorem mappable_of_readable (h : ∀ base, Whole mem base) (dtb : ULong) : Mappable mem dtb where
  table4 := h dtb
  table3 := fun _ e _ => h e
  table2 := fun _ _ e _ _ _ => h e
  table1 := fun _ _ _ e _ _ _ => h e

theorem mappable_oneTree (bit7 : Bool) (dtb : ULong) : Mappable (oneTree bit7) dtb := by
  apply mappable_of_readable
  intro base
  refine ⟨_, rfl, fun i _ => ?_⟩
  split_ifs
  all_goals exact ⟨_, rfl⟩

end

/-- A tree of one table at each level, walked into an empty `h`. -/
theorem pageWalk_records_oneTree :
    Mappable (oneTree false) 0 ∧ WalkRecords (present ·) (oneTree false) (fun _ => 0) 0 zeroTable :=
  ⟨mappable_oneTree false 0, pageWalk_records _ _ _ _ (mappable_oneTree false 0)⟩

/-- A level 4 entry with bit 7 set is gone through all the same: its slot 1 is recorded. -/
theorem pageWalk_through_bit7 :
    ¬ ∀ (mem : GuestMemory) (uninit : ULong → ULong) (dtb : ULong) (t : HashTable IntDouble),
      Mappable mem dtb →
        WalkRecords (fun e => present e = true ∧ large e = false) mem uninit dtb t := by
  intro hall
  have hmap := mappable_oneTree true 0
  have h4 : At4 (present ·) (oneTree true) 0 0 0x1081 := ⟨by decide, by decide, by decide⟩
  have h2 : At2 (present ·) (oneTree true) 0 0 0 0 0x3001 :=
    ⟨by decide, 0x2001, ⟨by decide, 0x1081, h4, by decide⟩, by decide, by decide, by decide⟩
  have h1 : At1 (present ·) (oneTree true) 0 0 0 0 1 0 :=
    ⟨by decide, 0x3001, h2, by decide, by decide, by decide⟩
  obtain ⟨r, hget, -⟩ := pageWalk_slot hmap (fun _ => 0) zeroTable h1 (by decide)
  -- no level 4 entry of the tree is present without bit 7
  have hnone : ∀ l4 e, ¬ At4 (fun e => present e = true ∧ large e = false) (oneTree true) 0 l4 e := by
    rintro l4 e ⟨-, he, hp, hl⟩
    have hentry : entryAt (oneTree true) 0 l4 = some (if l4 = 0 then 0x1081 else 0) := rfl
    rw [hentry] at he
    cases he
    by_cases h0 : l4 = 0
    · rw [if_pos h0] at hl
      exact absurd hl (by decide)
    · rw [if_neg h0] at hp
      exact absurd hp (by decide)
  have hsame := (hall (oneTree true) (fun _ => 0) 0 zeroTable hmap).other (slotVaddr 0 0 0 1)
    (fun _ _ _ _ _ ⟨_, _, ⟨_, _, ⟨_, _, h, _⟩, _⟩, _⟩ => (hnone _ _ h).elim)
    (fun _ _ _ _ ⟨⟨_, _, ⟨_, _, h, _⟩, _⟩, _⟩ => (hnone _ _ h).elim)
  rw [hget] at hsame
  cases hsame

end Monitor
