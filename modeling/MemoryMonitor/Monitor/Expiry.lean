import MemoryMonitor.Monitor.Loop

/-!
# Expiry of address spaces

A CR3 stays in `data_map` while it was listed within the last
`MAX_ROUND_INTERVAL` rounds. `retrieve_list` erases while it iterates; one pass
visits every node once and keeps exactly the entries that are not expired
(`retrieveList_spec`).

The round counter is an `unsigned long`. As long as it has not wrapped, the
invariant `Stamped` pins the stamp of every entry to the last round that listed
it. The wrap branch of `retrieve_list` is one short (and computes with a 32-bit
maximum), so in the round in which the counter wraps an entry stays one round
too long.
-/

namespace Monitor

variable {D : Type} [CDouble D]

/-! ## One sweep -/

section

omit [CDouble D]

theorem retrieveLoop_some {round k : ULong} {st : Retrieved D} {h : HashTable D}
    (hk : st.list.get? k = some h) :
    retrieveLoop round (some k) st =
      if Expired round h then
        retrieveLoop round (st.list.next? k) ⟨st.number + 1, st.list.erase k, st.visited ++ [k]⟩
      else retrieveLoop round (st.list.next? k) { st with visited := st.visited ++ [k] } := by
  rw [retrieveLoop]
  split
  · rename_i hnone
    rw [hk] at hnone
    cases hnone
  · rename_i h' hsome
    rw [hk] at hsome
    cases hsome
    rfl

/-- From a node on, the loop visits what follows in order and keeps what is not
expired; what lies before stays. -/
theorem retrieveLoop_spec (round : ULong) (suf : List (ULong × HashTable D)) :
    ∀ (pre : List (ULong × HashTable D)) (st : Retrieved D), st.list.entries = pre ++ suf →
      let out := retrieveLoop round (suf.head?.map Prod.fst) st
      out.list.entries = pre ++ suf.filter (fun e => !decide (Expired round e.2)) ∧
      out.number = st.number + BitVec.ofNat 32 (suf.countP fun e => decide (Expired round e.2)) ∧
      out.visited = st.visited ++ suf.map Prod.fst := by
  induction suf with
  | nil =>
      intro pre st hst
      simp only [List.head?_nil, Option.map_none]
      rw [retrieveLoop]
      simpa using hst
  | cons e rest ih =>
      intro pre st hst
      obtain ⟨k, h⟩ := e
      simp only [List.head?_cons, Option.map_some]
      rw [retrieveLoop_some (OrdMap.get?_of_entries hst), OrdMap.next?_of_entries hst]
      by_cases hexp : Expired round h
      · -- erased: the entries before and after it close up
        rw [if_pos hexp]
        have hrest := ih pre ⟨st.number + 1, st.list.erase k, st.visited ++ [k]⟩
          (OrdMap.erase_entries hst)
        refine ⟨?_, ?_, ?_⟩
        · rw [hrest.1, List.filter_cons_of_neg (by simp [hexp])]
        · rw [hrest.2.1, List.countP_cons_of_pos (by simpa using hexp), BitVec.add_assoc,
            Nat.add_comm, BitVec.ofNat_add]
          rfl
        · rw [hrest.2.2]
          simp
      · -- kept: the entry joins those already passed
        rw [if_neg hexp]
        have hrest := ih (pre ++ [(k, h)]) { st with visited := st.visited ++ [k] } (by
          rw [hst]
          simp)
        refine ⟨?_, ?_, ?_⟩
        · rw [hrest.1, List.filter_cons_of_pos (by simp [hexp])]
          simp
        · rw [hrest.2.1, List.countP_cons_of_neg (by simpa using hexp)]
        · rw [hrest.2.2]
          simp

/-- `retrieve_list` keeps the entries that are not expired, counts the others
and stands on every node once. -/
theorem retrieveList_spec (list : DataMap D) (round : ULong) :
    (retrieveList list round).list.entries =
      list.entries.filter (fun e => !decide (Expired round e.2)) ∧
    (retrieveList list round).number =
      BitVec.ofNat 32 (list.entries.countP fun e => decide (Expired round e.2)) ∧
    (retrieveList list round).visited = list.keys := by
  have h := retrieveLoop_spec round list.entries [] ⟨0, list, []⟩ rfl
  refine ⟨h.1, ?_, h.2.2⟩
  exact h.2.1.trans (BitVec.zero_add _)

theorem retrieveList_get? (list : DataMap D) (round cr3 : ULong) :
    (retrieveList list round).list.get? cr3 =
      (list.get? cr3).filter fun h => !decide (Expired round h) :=
  OrdMap.get?_of_filter (p := fun h => !decide (Expired round h))
    (retrieveList_spec list round).1 cr3

end

/-- A sweep returned the number of entries it erased, kept only entries that
were there, and stood on every entry of the map exactly once. -/
def SweepExact (before : DataMap D) (out : Retrieved D) : Prop :=
  out.number = BitVec.ofNat 32 (before.entries.length - out.list.entries.length) ∧
  (∀ e ∈ out.list.entries, e ∈ before.entries) ∧
  out.visited = before.keys ∧ out.visited.Nodup

omit [CDouble D] in
theorem retrieveList_exact (list : DataMap D) (round : ULong) :
    SweepExact list (retrieveList list round) := by
  obtain ⟨hlist, hnumber, hvisited⟩ := retrieveList_spec list round
  refine ⟨?_, ?_, hvisited, hvisited ▸ list.keys_nodup⟩
  · have hlen := List.length_eq_countP_add_countP (l := list.entries)
      (fun e => decide (Expired round e.2))
    have hkept : (retrieveList list round).list.entries.length =
        list.entries.countP (fun e => ¬ decide (Expired round e.2)) := by
      rw [hlist, ← List.countP_eq_length_filter]
      simp
    rw [hnumber, hkept, hlen, Nat.add_sub_cancel]
  · intro e he
    rw [hlist] at he
    exact (List.mem_filter.mp he).1

/-! ## Round stamps through one round -/

/-- The stamp of an address space, if it has a table. -/
def stamp (list : DataMap D) (cr3 : ULong) : Option ULong :=
  (list.get? cr3).map HashTable.round

omit [CDouble D] in
/-- `check_cr3_list` does not touch an address space it is not given. -/
theorem checkCr3Loop_other (uninit : Nat → HashTable D) {cr3 : ULong} :
    ∀ (l : List ULong) (i : Nat) (st : ULong × DataMap D), cr3 ∉ l →
      (checkCr3Loop uninit i l st).2.get? cr3 = st.2.get? cr3 := by
  intro l
  induction l with
  | nil => intro i st _; rfl
  | cons c rest ih =>
      intro i st hnot
      rw [List.mem_cons, not_or] at hnot
      obtain ⟨hne, hrest⟩ := hnot
      obtain ⟨total, list⟩ := st
      unfold checkCr3Loop
      cases hc : list.get? c with
      | none =>
          refine (ih _ _ hrest).trans ?_
          rw [OrdMap.get?_insert, if_neg hne]
      | some h =>
          refine (ih _ _ hrest).trans ?_
          exact OrdMap.get?_set_of_ne _ _ hne

/-- Accounting does not change stamps. -/
theorem stamp_calculateAllPage (list : DataMap D) (sys : SystemMaps) (result : Result D)
    (cr3 : ULong) : stamp (calculateAllPage list sys result).2 cr3 = stamp list cr3 := by
  apply OrdMap.get?_mapAccum
  intro s k h
  unfold visitTable
  dsimp only
  split
  · rfl
  · rfl

theorem stamp_walkCr3 (mem : GuestMemory) (uninit : ULong → ULong) (round : ULong)
    (list : DataMap D) (gw : GuestPagetableWalk) (c cr3 : ULong) :
    stamp (walkCr3 mem uninit round list gw c).1 cr3 =
      if cr3 = c then some round else stamp list cr3 := by
  unfold walkCr3 stamp
  dsimp only
  by_cases hk : c = kernelCr3
  · rw [if_pos hk, OrdMap.get?_set]
    by_cases hc : cr3 = c
    · simp [hc]
    · simp [hc]
  · rw [if_neg hk, OrdMap.get?_set]
    by_cases hc : cr3 = c
    · have hround := (pageWalk_frame mem uninit c
        { (list.get? c).getD .zero with cr3 := c, check := 0, round }).2.2.1
      simpa [hc, resetCounters] using hround
    · simp [hc]

theorem stamp_walkCr3Loop (mem : Nat → GuestMemory) (uninit : Nat → ULong → ULong)
    (round cr3 : ULong) :
    ∀ (l : List ULong) (i : Nat) (st : DataMap D × GuestPagetableWalk),
      stamp (walkCr3Loop mem uninit round i l st).1 cr3 =
        if cr3 ∈ l then some round else stamp st.1 cr3 := by
  intro l
  induction l with
  | nil => intro i st; rfl
  | cons c rest ih =>
      intro i st
      rw [walkCr3Loop, ih, stamp_walkCr3]
      by_cases hrest : cr3 ∈ rest
      · simp [hrest]
      · by_cases hc : cr3 = c
        · simp [hc]
        · simp [hrest, hc]

/-- The stamps a round leaves: this round's for the listed address spaces, then
the expired ones are gone. -/
theorem stamp_mainRound (u : Unspecified D) (inp : RoundInput) (st : LoopState D)
    (cr3 : ULong) :
    stamp (mainRound u inp st).1.dataMap cr3 =
      (if cr3 ∈ inp.cr3List then some st.globalRound else stamp st.dataMap cr3).filter
        fun q => !maxRoundInterval.sle (interval (st.globalRound + 1) q) := by
  unfold mainRound
  dsimp only
  rw [stamp, retrieveList_get?]
  generalize hw : walkCr3Loop (D := D) inp.memory u.paddr st.globalRound 0 inp.cr3List _ = walked
  have hstamp : stamp _ cr3 = stamp walked.1 cr3 := congrArg (fun w => stamp w.1 cr3) hw
  rw [stamp_walkCr3Loop, stamp_calculateAllPage] at hstamp
  have hbefore : stamp walked.1 cr3 =
      if cr3 ∈ inp.cr3List then some st.globalRound else stamp st.dataMap cr3 := by
    rw [← hstamp]
    by_cases hmem : cr3 ∈ inp.cr3List
    · rw [if_pos hmem, if_pos hmem]
    · rw [if_neg hmem, if_neg hmem]
      unfold stamp checkCr3List
      rw [checkCr3Loop_other _ _ _ _ hmem]
  rw [← hbefore]
  unfold stamp
  cases walked.1.get? cr3 with
  | none => rfl
  | some h =>
      rw [Option.map_some, Option.filter_some, Option.filter_some]
      by_cases hexp : Expired (st.globalRound + 1) h
      · have hsle : maxRoundInterval.sle (interval (st.globalRound + 1) h.round) = true := hexp
        rw [hsle, decide_eq_true hexp]
        rfl
      · have hsle : maxRoundInterval.sle (interval (st.globalRound + 1) h.round) = false :=
          Bool.eq_false_iff.mpr hexp
        rw [hsle, decide_eq_false hexp]
        rfl

/-! ## Runs -/

/-- The last round before `n` that listed `cr3`. -/
def lastListed (inputs : Nat → RoundInput) (cr3 : ULong) : Nat → Option Nat
  | 0 => none
  | n + 1 => if cr3 ∈ (inputs n).cr3List then some n else lastListed inputs cr3 n

theorem lastListed_eq_some {inputs : Nat → RoundInput} {cr3 : ULong} {n q : Nat} :
    lastListed inputs cr3 n = some q ↔
      q < n ∧ cr3 ∈ (inputs q).cr3List ∧ ∀ q', q < q' → q' < n → cr3 ∉ (inputs q').cr3List := by
  induction n with
  | zero => simp [lastListed]
  | succ n ih =>
      unfold lastListed
      by_cases hmem : cr3 ∈ (inputs n).cr3List
      · rw [if_pos hmem, Option.some_inj]
        constructor
        · rintro rfl
          exact ⟨Nat.lt_succ_self _, hmem, fun q' h h' => absurd h' (by omega)⟩
        · rintro ⟨hlt, -, hlast⟩
          by_contra hne
          exact hlast n (by omega) (Nat.lt_succ_self n) hmem
      · rw [if_neg hmem, ih]
        constructor
        · rintro ⟨hlt, hq, hlast⟩
          refine ⟨by omega, hq, fun q' h h' => ?_⟩
          by_cases hn : q' = n
          · rwa [hn]
          · exact hlast q' h (by omega)
        · rintro ⟨hlt, hq, hlast⟩
          have hne : q ≠ n := fun heq => hmem (heq ▸ hq)
          exact ⟨by omega, hq, fun q' h h' => hlast q' h (by omega)⟩

/-- A round that listed `cr3` has a last one at or after it. -/
theorem lastListed_of_listed {inputs : Nat → RoundInput} {cr3 : ULong} {n q : Nat} (hlt : q < n)
    (hq : cr3 ∈ (inputs q).cr3List) : ∃ q', q ≤ q' ∧ lastListed inputs cr3 n = some q' := by
  induction n with
  | zero => omega
  | succ n ih =>
      unfold lastListed
      by_cases hmem : cr3 ∈ (inputs n).cr3List
      · exact ⟨n, by omega, if_pos hmem⟩
      · have hne : q ≠ n := fun heq => hmem (heq ▸ hq)
        obtain ⟨q', hle, h⟩ := ih (by omega)
        exact ⟨q', hle, by rw [if_neg hmem, h]⟩

/-- After `n` rounds, the stamps are the last listings within the interval. -/
structure Stamped (inputs : Nat → RoundInput) (n : Nat) (st : LoopState D) : Prop where
  counter : st.globalRound = BitVec.ofNat 64 n
  stamps : ∀ cr3, stamp st.dataMap cr3 =
    ((lastListed inputs cr3 n).filter fun q => decide (n - q < 20)).map (BitVec.ofNat 64)

/-- Without wrap-around, the interval is the difference of the round numbers. -/
theorem expired_iff {n q : Nat} (hq : q < n) (hn : n < 2 ^ 64) (hle : n - q ≤ 20) :
    maxRoundInterval.sle (interval (BitVec.ofNat 64 n) (BitVec.ofNat 64 q)) =
      decide (20 ≤ n - q) := by
  have hlt : BitVec.ofNat 64 q < BitVec.ofNat 64 n := by
    rw [BitVec.lt_def, BitVec.toNat_ofNat, BitVec.toNat_ofNat]
    omega
  have hsub : BitVec.ofNat 64 n - BitVec.ofNat 64 q = BitVec.ofNat 64 (n - q) := by
    apply BitVec.eq_of_toNat_eq
    rw [BitVec.toNat_sub, BitVec.toNat_ofNat, BitVec.toNat_ofNat, BitVec.toNat_ofNat]
    omega
  rw [interval, if_pos hlt, hsub]
  generalize n - q = d at hle
  interval_cases d <;> decide

theorem stamped_step {inputs : Nat → RoundInput} {n : Nat} {st : LoopState D}
    (u : Unspecified D) (h : Stamped inputs n st) (hn : n + 1 < 2 ^ 64) :
    Stamped inputs (n + 1) (mainRound u (inputs n) st).1 := by
  have hsucc : st.globalRound + 1 = BitVec.ofNat 64 (n + 1) := by
    rw [h.counter, BitVec.ofNat_add]
    rfl
  refine ⟨hsucc, fun cr3 => ?_⟩
  rw [stamp_mainRound, hsucc]
  unfold lastListed
  by_cases hmem : cr3 ∈ (inputs n).cr3List
  · -- listed in this round: one round old when the sweep comes
    rw [if_pos hmem, if_pos hmem, h.counter, Option.filter_some, Option.filter_some,
      expired_iff (by omega) hn (by omega)]
    simp
  · rw [if_neg hmem, if_neg hmem, h.stamps cr3]
    cases hlast : lastListed inputs cr3 n with
    | none => rfl
    | some q =>
        have hq := (lastListed_eq_some.mp hlast).1
        by_cases hold : n - q < 20
        · rw [Option.filter_some, Option.filter_some, if_pos (by simpa using hold),
            Option.map_some, Option.filter_some, expired_iff (by omega) hn (by omega)]
          by_cases hnew : n + 1 - q < 20
          · simp [hnew]
          · simp [hnew, show 20 ≤ n + 1 - q by omega]
        · have hnew : ¬ n + 1 - q < 20 := by omega
          rw [Option.filter_some, Option.filter_some, if_neg (by simpa using hold),
            if_neg (by simpa using hnew)]
          rfl

theorem stamped_run (u : Nat → Unspecified D) (inputs : Nat → RoundInput)
    (gw : GuestPagetableWalk) (n : Nat) (hn : n < 2 ^ 64) :
    Stamped inputs n (stateAfter u inputs (.start gw) n) := by
  induction n with
  | zero => exact ⟨rfl, fun cr3 => rfl⟩
  | succ n ih => exact stamped_step (u n) (ih (by omega)) hn

/-- The expiry contract after `r` rounds: a CR3 is present iff some round within
the interval listed it, and its stamp is the last such round. -/
structure ExpiryAt (inputs : Nat → RoundInput) (r : Nat) (list : DataMap D) : Prop where
  present_iff : ∀ cr3, (∃ h, list.get? cr3 = some h) ↔
    ∃ q, q < r ∧ r - q < 20 ∧ cr3 ∈ (inputs q).cr3List
  round_eq : ∀ cr3 h, list.get? cr3 = some h → ∃ q, h.round = BitVec.ofNat 64 q ∧
    q < r ∧ r - q < 20 ∧ cr3 ∈ (inputs q).cr3List ∧
    ∀ q', q < q' → q' < r → cr3 ∉ (inputs q').cr3List

omit [CDouble D] in
theorem expiryAt_of_stamped {inputs : Nat → RoundInput} {r : Nat} {st : LoopState D}
    (h : Stamped inputs r st) : ExpiryAt inputs r st.dataMap := by
  have hround : ∀ cr3 t, st.dataMap.get? cr3 = some t → ∃ q, t.round = BitVec.ofNat 64 q ∧
      q < r ∧ r - q < 20 ∧ cr3 ∈ (inputs q).cr3List ∧
      ∀ q', q < q' → q' < r → cr3 ∉ (inputs q').cr3List := by
    intro cr3 t ht
    have hs := h.stamps cr3
    rw [stamp, ht, Option.map_some] at hs
    obtain ⟨q, hq, hqt⟩ := Option.map_eq_some_iff.mp hs.symm
    obtain ⟨hlast, hwin⟩ := Option.filter_eq_some_iff.mp hq
    obtain ⟨hlt, hmem, hmax⟩ := lastListed_eq_some.mp hlast
    exact ⟨q, hqt.symm, hlt, by simpa using hwin, hmem, hmax⟩
  refine ⟨fun cr3 => ⟨?_, ?_⟩, hround⟩
  · rintro ⟨t, ht⟩
    obtain ⟨q, -, hlt, hwin, hmem, -⟩ := hround cr3 t ht
    exact ⟨q, hlt, hwin, hmem⟩
  · rintro ⟨q, hlt, hwin, hmem⟩
    obtain ⟨q', hle, hlast⟩ := lastListed_of_listed hlt hmem
    have hs := h.stamps cr3
    rw [hlast, Option.filter_some, if_pos (by simp; omega), Option.map_some] at hs
    obtain ⟨t, ht, -⟩ := Option.map_eq_some_iff.mp hs
    exact ⟨t, ht⟩

/-- In every run, as long as the round counter has not wrapped: after each
round the expiry contract holds and the sweep was exact. -/
theorem expiry_run (u : Nat → Unspecified D) (inputs : Nat → RoundInput)
    (gw : GuestPagetableWalk) (n : Nat) (hn : n + 1 < 2 ^ 64) :
    ExpiryAt inputs (n + 1) (stateAfter u inputs (.start gw) (n + 1)).dataMap ∧
      SweepExact (outputOf u inputs (.start gw) n).before
        (outputOf u inputs (.start gw) n).retrieved :=
  ⟨expiryAt_of_stamped (stamped_run u inputs gw (n + 1) hn), retrieveList_exact _ _⟩

/-- The contract after the first round of a run that lists CR3 `0x2000`. -/
theorem expiry_run_first :
    let inputs : Nat → RoundInput := fun _ => ⟨[0x2000], fun _ _ => none⟩
    let u : Nat → Unspecified IntDouble := fun _ => ⟨fun _ => .zero, fun _ _ => 0⟩
    let gw : GuestPagetableWalk := ⟨0, 0, 0, 0, 0, 0, 0, 0, 0⟩
    ExpiryAt inputs 1 (stateAfter u inputs (.start gw) 1).dataMap ∧
      SweepExact (outputOf u inputs (.start gw) 0).before
        (outputOf u inputs (.start gw) 0).retrieved := by
  intro inputs u gw
  exact expiry_run u inputs gw 0 (by norm_num)

/-! ## The wrap -/

/-- A run that lists CR3 `0x1000` in round `2 ^ 64 - 20` only; nothing is mapped. -/
def lateListing (q : Nat) : RoundInput :=
  ⟨if q + 20 = 2 ^ 64 then [0x1000] else [], fun _ _ => none⟩

/-- In the round that wraps the counter, the stamp 20 rounds back is kept. -/
theorem lateListing_kept (u : Nat → Unspecified D) (gw : GuestPagetableWalk) {n : Nat}
    (hn : n + 1 = 2 ^ 64) :
    ∃ h, (stateAfter u lateListing (.start gw) (n + 1)).dataMap.get? 0x1000 = some h := by
  have hst := stamped_run u lateListing gw n (by omega)
  have hlast : lastListed lateListing 0x1000 n = some (n - 19) := by
    rw [lastListed_eq_some]
    refine ⟨by omega, ?_, fun q' h h' => ?_⟩
    · rw [lateListing, if_pos (by omega)]
      simp
    · rw [lateListing, if_neg (by omega)]
      simp
  have hstamp := hst.stamps 0x1000
  rw [hlast, Option.filter_some, if_pos (by simp; omega), Option.map_some] at hstamp
  have hnot : (0x1000 : ULong) ∉ (lateListing n).cr3List := by
    rw [lateListing, if_neg (by omega)]
    simp
  have hafter := stamp_mainRound (u n) (lateListing n)
    (stateAfter u lateListing (.start gw) n) 0x1000
  rw [if_neg hnot, hstamp, hst.counter] at hafter
  have hn' : n = 2 ^ 64 - 1 := by omega
  have hkeep : (!maxRoundInterval.sle
      (interval (BitVec.ofNat 64 n + 1) (BitVec.ofNat 64 (n - 19)))) = true := by
    rw [hn']
    decide
  rw [Option.filter_some, if_pos hkeep] at hafter
  obtain ⟨h, hget, -⟩ := Option.map_eq_some_iff.mp hafter
  exact ⟨h, hget⟩

/-- After `2 ^ 64` rounds, a CR3 last listed 20 rounds ago is still present. -/
theorem expiry_fails_at_wrap :
    ¬ ∀ (u : Nat → Unspecified IntDouble) (inputs : Nat → RoundInput)
      (gw : GuestPagetableWalk) (n : Nat),
      ExpiryAt inputs (n + 1) (stateAfter u inputs (.start gw) (n + 1)).dataMap := by
  intro hall
  let u : Nat → Unspecified IntDouble := fun _ => ⟨fun _ => .zero, fun _ _ => 0⟩
  let gw : GuestPagetableWalk := ⟨0, 0, 0, 0, 0, 0, 0, 0, 0⟩
  have hn : 2 ^ 64 - 1 + 1 = 2 ^ 64 := by norm_num
  obtain ⟨q, hlt, hwin, hmem⟩ :=
    ((hall u lateListing gw (2 ^ 64 - 1)).present_iff 0x1000).mp (lateListing_kept u gw hn)
  have hq : q + 20 ≠ 2 ^ 64 := by omega
  rw [lateListing, if_neg hq] at hmem
  exact List.not_mem_nil hmem

end Monitor
