import MemoryMonitor.Lib.FirstCome
import MemoryMonitor.Monitor.Table

/-!
# Working-set accounting (`calculate_all_page`)

`calculateAllPage` visits the address spaces in key order and, in each checked
one, the records in address order. A record that counts is looked up in one of
two system-wide maps; only the first record of a frame adds to the activity of
its address space, with *its* weight and page size.

The result is therefore first-come accounting (`FirstCome.tally`) over the
address spaces, and whether the visiting order shows in the result is decided
by `FirstCome.Agree`.
-/

namespace Monitor

/-- `DATAMAP`: one table per CR3, visited in key order. -/
abbrev DataMap (D : Type) := OrdMap ULong (HashTable D)

/-- The two `SYSTEM_MAP` globals. -/
structure SystemMaps where
  wks : OrdMap ULong ULong
  swap : OrdMap ULong ULong

/-- The cells of `result` that the loop accumulates. -/
structure Result (D : Type) where
  invalid : D
  valid : D
  totalValid : D
  deriving DecidableEq

/-- `weight *= DECAY_FACTOR` on a `short`: times 0.9, truncated. -/
def decay (weight : BitVec 16) : BitVec 16 :=
  BitVec.ofInt 16 ((9 * weight.toInt).tdiv 10)

section Model

variable {D : Type} [CDouble D]

/-- The body of the record loop. -/
def visitRecord (st : SystemMaps × D × D) (_vkey : ULong) (r : MapData) :
    (SystemMaps × D × D) × MapData :=
  let validBit := r.presentTimes &&& 1
  let hugeBit : Byte := (getHugeBit r.paddr).setWidth 8
  let weight : D := CDouble.ofInt r.weight.toInt
  let systemMap := if validBit = 0 then st.1.swap else st.1.wks
  let paddr := if validBit = 0 then getSwapId r.paddr else getPaddr r.paddr
  let store (m : OrdMap ULong ULong) : SystemMaps :=
    if validBit = 0 then { st.1 with swap := m } else { st.1 with wks := m }
  let st' :=
    if (changeLimit.sle (getChangeNumber r.presentTimes) ∧ validBit = 0) ∨ validBit = 1 then
      match systemMap.get? paddr with
      | some n => (store (systemMap.set paddr (n + 1)), st.2)
      | none =>
          let pages : D := if hugeBit = 0 then CDouble.ofInt 1 else CDouble.ofInt 512
          let part := CDouble.mul pages weight
          (store (systemMap.insert paddr 1),
            if validBit = 0 then (CDouble.add st.2.1 part, st.2.2)
            else (st.2.1, CDouble.add st.2.2 part))
    else st
  (st', { r with weight := decay r.weight })

/-- The state of the table loop: system maps, `result` and `check_cr3_num`. -/
structure CalcState (D : Type) where
  sys : SystemMaps
  result : Result D
  checkCr3Num : ULong

/-- The body of the table loop. -/
def visitTable (st : CalcState D) (_cr3 : ULong) (h : HashTable D) :
    CalcState D × HashTable D :=
  let st := { st with checkCr3Num := st.checkCr3Num + 1 }
  if h.check = 1 then
    let out := h.h.mapAccum visitRecord (st.sys, h.activityPage)
    let result : Result D :=
      ⟨CDouble.add st.result.invalid out.1.2.1, CDouble.add st.result.valid out.1.2.2,
        CDouble.add st.result.totalValid (CDouble.ofInt h.totalValidPages.toNat)⟩
    ({ st with sys := out.1.1, result },
      { h with h := out.2, activityPage := out.1.2, check := 0 })
  else (st, { h with check := 0 })

/-- `calculate_all_page`. -/
def calculateAllPage (list : DataMap D) (sys : SystemMaps) (result : Result D) :
    CalcState D × DataMap D :=
  list.mapAccum visitTable ⟨sys, result, 0⟩

/-- The cleared system maps each round starts from. -/
def SystemMaps.cleared : SystemMaps := ⟨.empty, .empty⟩

/-- `result[0] = result[1] = result[2] = 0`. -/
def Result.zero : Result D := ⟨CDouble.ofInt 0, CDouble.ofInt 0, CDouble.ofInt 0⟩

end Model

/-! ## Integer-valued doubles

The accumulators hold sums of shorts times 1 or 512. Below `2 ^ 53` such sums
are exact; above, they are rounded to 53 significant bits, ties to even. -/

/-- A `double` that holds an integer. -/
@[ext]
structure IntDouble where
  val : Int
  deriving DecidableEq

/-- Round to the nearest integer with 53 significant bits. -/
def roundInt (n : Int) : Int :=
  if n.natAbs ≤ 2 ^ 53 then n
  else
    let e := n.natAbs.log2 - 52
    let q := n.natAbs / 2 ^ e
    let rem := n.natAbs % 2 ^ e
    let up := 2 ^ e < 2 * rem ∨ (2 * rem = 2 ^ e ∧ q % 2 = 1)
    n.sign * ((if up then q + 1 else q) * 2 ^ e : Nat)

instance : CDouble IntDouble where
  ofInt n := ⟨roundInt n⟩
  add a b := ⟨roundInt (a.val + b.val)⟩
  mul a b := ⟨roundInt (a.val * b.val)⟩

theorem roundInt_of_le {n : Int} (h : n.natAbs ≤ 2 ^ 53) : roundInt n = n := if_pos h

theorem add_val {a b : IntDouble} (h : (a.val + b.val).natAbs ≤ 2 ^ 53) :
    (CDouble.add a b).val = a.val + b.val :=
  roundInt_of_le h

/-- The size of a pair of accumulators. -/
def magnitude (a b : IntDouble) : Nat := a.val.natAbs + b.val.natAbs

theorem magnitude_le {a b x y : IntDouble} {m n : Int} (h0 : x.val = a.val + m)
    (h1 : y.val = b.val + n) : magnitude x y ≤ magnitude a b + (m.natAbs + n.natAbs) := by
  have a0 := Int.natAbs_add_le a.val m
  have a1 := Int.natAbs_add_le b.val n
  rw [magnitude, h0, h1]
  unfold magnitude
  exact (Nat.add_le_add a0 a1).trans (by rw [Nat.add_add_add_comm])

/-- Adding one pair to another is exact within the bound. -/
theorem add_pair {a b x y : IntDouble} (h : magnitude a b + magnitude x y ≤ 2 ^ 53) :
    (CDouble.add a x).val = a.val + x.val ∧ (CDouble.add b y).val = b.val + y.val ∧
      magnitude (CDouble.add a x) (CDouble.add b y) ≤ magnitude a b + magnitude x y := by
  have a0 := Int.natAbs_add_le a.val x.val
  have a1 := Int.natAbs_add_le b.val y.val
  unfold magnitude at h
  have e0 : (CDouble.add a x).val = a.val + x.val := add_val (a0.trans (by omega))
  have e1 : (CDouble.add b y).val = b.val + y.val := add_val (a1.trans (by omega))
  exact ⟨e0, e1, magnitude_le e0 e1⟩

/-! ## Offers -/

/-- Which system map a record falls into, and under which frame. -/
def recordKey (r : MapData) : Bool × ULong :=
  if r.presentTimes &&& 1 = 0 then (false, getSwapId r.paddr) else (true, getPaddr r.paddr)

/-- Valid records count, and swapped ones that changed at least `CHANGE_LIMIT` times. -/
def Counted (r : MapData) : Prop :=
  (changeLimit.sle (getChangeNumber r.presentTimes) ∧ r.presentTimes &&& 1 = 0) ∨
    r.presentTimes &&& 1 = 1

instance (r : MapData) : Decidable (Counted r) := by
  unfold Counted
  infer_instance

/-- Pages times weight. -/
def amount (r : MapData) : Int :=
  (if (getHugeBit r.paddr).setWidth 8 = (0 : Byte) then 1 else 512) * r.weight.toInt

/-- The amount, in the component of the activity it goes to. -/
def part (r : MapData) : Int × Int :=
  if r.presentTimes &&& 1 = 0 then (amount r, 0) else (0, amount r)

/-- What the records of one table offer, in address order. -/
def offers (l : List (ULong × MapData)) : List ((Bool × ULong) × (Int × Int)) :=
  l.filterMap fun e => if Counted e.2 then some (recordKey e.2, part e.2) else none

/-- Bound on what the records can add up to. -/
def offerMass (l : List (ULong × MapData)) : Nat :=
  (l.map fun e => (amount e.2).natAbs).sum

/-- The system maps hold exactly the keys in `seen`. -/
def Holds (sys : SystemMaps) (seen : Finset (Bool × ULong)) : Prop :=
  ∀ b k, (b, k) ∈ seen ↔ ((if b then sys.wks else sys.swap).get? k).isSome

/-- The product of an exact page count and an exact weight is exact. -/
theorem mul_val (r : MapData) :
    (CDouble.mul (D := IntDouble)
      (if (getHugeBit r.paddr).setWidth 8 = (0 : Byte) then CDouble.ofInt 1
        else CDouble.ofInt 512) (CDouble.ofInt r.weight.toInt)).val = amount r := by
  have hlo := BitVec.le_toInt r.weight
  have hhi := BitVec.toInt_lt (x := r.weight)
  have hw : roundInt r.weight.toInt = r.weight.toInt := roundInt_of_le (by omega)
  have h512 : roundInt 512 = 512 := rfl
  have h1 : roundInt 1 = 1 := rfl
  change roundInt (_ * roundInt r.weight.toInt) = _
  rw [hw]
  unfold amount
  split
  · change roundInt (roundInt 1 * _) = _
    rw [h1, roundInt_of_le (by omega)]
  · change roundInt (roundInt 512 * _) = _
    rw [h512, roundInt_of_le (by omega)]

theorem validBit_cases :
    ∀ present : Byte, present &&& 1#8 = 0#8 ∨ present &&& 1#8 = 1#8 := by
  decide +kernel

/-- Raising the count of a frame that is already stored adds no key. -/
theorem Holds.hit {sys : SystemMaps} {seen : Finset (Bool × ULong)} (h : Holds sys seen)
    {b : Bool} {k n : ULong} (hk : ((if b then sys.wks else sys.swap).get? k) = some n) :
    Holds (if b then { sys with wks := sys.wks.set k (n + 1) }
      else { sys with swap := sys.swap.set k (n + 1) }) seen := by
  intro b' k'
  rw [h b' k']
  cases b <;> cases b' <;> simp only [Bool.false_eq_true, if_true, if_false] at hk ⊢
  all_goals
    rw [OrdMap.get?_set]
    by_cases hkk : k' = k
    · subst hkk
      simp [hk]
    · simp [hkk]

/-- Storing a new frame adds its key. -/
theorem Holds.store {sys : SystemMaps} {seen : Finset (Bool × ULong)} (h : Holds sys seen)
    (b : Bool) (k n : ULong) :
    Holds (if b then { sys with wks := sys.wks.insert k n }
      else { sys with swap := sys.swap.insert k n }) (insert (b, k) seen) := by
  intro b' k'
  rw [Finset.mem_insert, h b' k', Prod.mk.injEq]
  cases b <;> cases b' <;>
    simp only [Bool.false_eq_true, if_true, if_false, reduceCtorEq, false_and, false_or, true_and]
  all_goals
    rw [OrdMap.get?_insert]
    by_cases hkk : k' = k
    · simp [hkk]
    · simp [hkk]

theorem visitRecord_books {sys : SystemMaps} {seen : Finset (Bool × ULong)}
    (hs : Holds sys seen) (act : IntDouble × IntDouble) (vkey : ULong) (r : MapData)
    (hb : magnitude act.1 act.2 + (amount r).natAbs ≤ 2 ^ 53) :
    let out := (visitRecord (sys, act) vkey r).1
    let g := FirstCome.gain seen (offers [(vkey, r)])
    Holds out.1 g.2 ∧ out.2.1.val = act.1.val + g.1.1 ∧ out.2.2.val = act.2.val + g.1.2 := by
  intro out g
  unfold magnitude at hb
  by_cases hc : Counted r
  · have hg : g = if recordKey r ∈ seen then (0, seen)
        else (part r, insert (recordKey r) seen) := by
      simp only [g, offers, List.filterMap_cons, hc, if_true, List.filterMap_nil, FirstCome.gain]
      split
      · rfl
      · simp
    rcases validBit_cases r.presentTimes with hbit | hbit
    · -- swapped: the record goes to the swap map
      have hkey : recordKey r = (false, getSwapId r.paddr) := by simp [recordKey, hbit]
      have hpart : part r = (amount r, 0) := by simp [part, hbit]
      have hc' : changeLimit.sle (getChangeNumber r.presentTimes) = true := by
        simpa [Counted, hbit] using hc
      have hmem := hs false (getSwapId r.paddr)
      simp only [Bool.false_eq_true, if_false] at hmem
      rw [hkey, hpart] at hg
      cases hget : sys.swap.get? (getSwapId r.paddr) with
      | some n =>
          have hin : (false, getSwapId r.paddr) ∈ seen := by rw [hmem, hget]; rfl
          have hout : out = (⟨sys.wks, sys.swap.set (getSwapId r.paddr) (n + 1)⟩, act) := by
            simp [out, visitRecord, hbit, hc', hget]
          rw [hg, if_pos hin, hout]
          refine ⟨?_, by simp, by simp⟩
          exact hs.hit (b := false) hget
      | none =>
          have hin : (false, getSwapId r.paddr) ∉ seen := by rw [hmem, hget]; simp
          have hout : out = (⟨sys.wks, sys.swap.insert (getSwapId r.paddr) 1⟩,
              (CDouble.add act.1 (CDouble.mul
                (if (getHugeBit r.paddr).setWidth 8 = (0 : Byte) then CDouble.ofInt 1
                  else CDouble.ofInt 512) (CDouble.ofInt r.weight.toInt)), act.2)) := by
            simp [out, visitRecord, hbit, hc', hget]
          rw [hg, if_neg hin, hout]
          refine ⟨hs.store false _ _, ?_, by simp⟩
          rw [add_val (by rw [mul_val]; omega), mul_val]
    · -- valid: the record goes to the working-set map
      have hkey : recordKey r = (true, getPaddr r.paddr) := by simp [recordKey, hbit]
      have hpart : part r = (0, amount r) := by simp [part, hbit]
      have hmem := hs true (getPaddr r.paddr)
      simp only [if_true] at hmem
      rw [hkey, hpart] at hg
      cases hget : sys.wks.get? (getPaddr r.paddr) with
      | some n =>
          have hin : (true, getPaddr r.paddr) ∈ seen := by rw [hmem, hget]; rfl
          have hout : out = (⟨sys.wks.set (getPaddr r.paddr) (n + 1), sys.swap⟩, act) := by
            simp [out, visitRecord, hbit, hget]
          rw [hg, if_pos hin, hout]
          refine ⟨?_, by simp, by simp⟩
          exact hs.hit (b := true) hget
      | none =>
          have hin : (true, getPaddr r.paddr) ∉ seen := by rw [hmem, hget]; simp
          have hout : out = (⟨sys.wks.insert (getPaddr r.paddr) 1, sys.swap⟩,
              (act.1, CDouble.add act.2 (CDouble.mul
                (if (getHugeBit r.paddr).setWidth 8 = (0 : Byte) then CDouble.ofInt 1
                  else CDouble.ofInt 512) (CDouble.ofInt r.weight.toInt)))) := by
            simp [out, visitRecord, hbit, hget]
          rw [hg, if_neg hin, hout]
          refine ⟨hs.store true _ _, by simp, ?_⟩
          rw [add_val (by rw [mul_val]; omega), mul_val]
  · have hout : out = (sys, act) := by
      have hc' := hc
      unfold Counted at hc'
      simp only [out, visitRecord, if_neg hc']
    have hg : g = (0, seen) := by
      simp [g, offers, hc, FirstCome.gain]
    rw [hout, hg]
    exact ⟨hs, by simp, by simp⟩

theorem gain_single_le (seen : Finset (Bool × ULong)) (vkey : ULong) (r : MapData) :
    (FirstCome.gain seen (offers [(vkey, r)])).1.1.natAbs +
      (FirstCome.gain seen (offers [(vkey, r)])).1.2.natAbs ≤ (amount r).natAbs := by
  by_cases hc : Counted r
  · simp only [offers, List.filterMap_cons, hc, if_true, List.filterMap_nil, FirstCome.gain]
    split
    · simp
    · simp only [part]
      split <;> simp
  · simp [offers, hc, FirstCome.gain]

theorem offers_cons (e : ULong × MapData) (l : List (ULong × MapData)) :
    offers (e :: l) = offers [e] ++ offers l := by
  by_cases hc : Counted e.2
  · simp [offers, hc]
  · simp [offers, hc]

theorem visitRecords_books (l : List (ULong × MapData)) {sys : SystemMaps}
    {seen : Finset (Bool × ULong)} (hs : Holds sys seen) (act : IntDouble × IntDouble)
    (hb : magnitude act.1 act.2 + offerMass l ≤ 2 ^ 53) :
    let out := (OrdMap.accum visitRecord (sys, act) l).1
    let g := FirstCome.gain seen (offers l)
    (Holds out.1 g.2 ∧ out.2.1.val = act.1.val + g.1.1 ∧ out.2.2.val = act.2.val + g.1.2) ∧
      magnitude out.2.1 out.2.2 ≤ magnitude act.1 act.2 + offerMass l := by
  induction l generalizing sys act seen with
  | nil => simpa [OrdMap.accum, offers, FirstCome.gain, offerMass] using hs
  | cons e rest ih =>
      obtain ⟨vkey, r⟩ := e
      have hmass : offerMass ((vkey, r) :: rest) = (amount r).natAbs + offerMass rest := by
        simp [offerMass]
      rw [hmass] at hb ⊢
      obtain ⟨hs', h0, h1⟩ := visitRecord_books hs act vkey r (by omega)
      have hle := (magnitude_le h0 h1).trans
        (Nat.add_le_add_left (gain_single_le seen vkey r) _)
      rw [offers_cons, FirstCome.gain_append]
      obtain ⟨⟨hs'', h0', h1'⟩, hle'⟩ := ih hs' (visitRecord (sys, act) vkey r).1.2 (by omega)
      simp only [Prod.mk.eta] at h0' h1' hle'
      refine ⟨⟨hs'', ?_, ?_⟩, ?_⟩
      · simp only [OrdMap.accum, Prod.fst_add]
        rw [h0', h0]
        omega
      · simp only [OrdMap.accum, Prod.snd_add]
        rw [h1', h1]
        omega
      · simp only [OrdMap.accum]
        omega

/-! ## Address spaces as parties -/

/-- The tables that `calculate_all_page` looks into. -/
def checked (ts : List (HashTable IntDouble)) : List (HashTable IntDouble) :=
  ts.filter fun t => t.check = 1

/-- The offers of the checked address spaces, one list for each. -/
def parties (ts : List (HashTable IntDouble)) :
    List (List ((Bool × ULong) × (Int × Int))) :=
  (checked ts).map fun t => offers t.h.entries

/-- Activity the checked tables bring along. -/
def carried (ts : List (HashTable IntDouble)) : Int × Int :=
  ((checked ts).map fun t => (t.activityPage.1.val, t.activityPage.2.val)).sum

/-- Bound on everything the loops can add up. -/
def mass (ts : List (HashTable IntDouble)) : Nat :=
  ((checked ts).map fun t =>
    magnitude t.activityPage.1 t.activityPage.2 + offerMass t.h.entries).sum

theorem checked_cons (t : HashTable IntDouble) (ts : List (HashTable IntDouble)) :
    checked (t :: ts) = if t.check = 1 then t :: checked ts else checked ts := by
  by_cases hc : t.check = 1
  · rw [if_pos hc, checked, List.filter_cons_of_pos (by simpa using hc), checked]
  · rw [if_neg hc, checked, List.filter_cons_of_neg (by simpa using hc), checked]

theorem visitTable_checked (st : CalcState IntDouble) (cr3 : ULong) {t : HashTable IntDouble}
    (hc : t.check = 1) :
    let out := (OrdMap.accum visitRecord (st.sys, t.activityPage) t.h.entries).1
    (visitTable st cr3 t).1.sys = out.1 ∧
      (visitTable st cr3 t).1.result.invalid = CDouble.add st.result.invalid out.2.1 ∧
      (visitTable st cr3 t).1.result.valid = CDouble.add st.result.valid out.2.2 := by
  simp only [visitTable, hc, if_true, OrdMap.mapAccum, and_self]

theorem visitTables_books (l : List (ULong × HashTable IntDouble)) {st : CalcState IntDouble}
    {seen : Finset (Bool × ULong)} (hs : Holds st.sys seen)
    (hb : magnitude st.result.invalid st.result.valid + mass (l.map Prod.snd) ≤ 2 ^ 53) :
    let out := (OrdMap.accum visitTable st l).1
    let booked := carried (l.map Prod.snd) + FirstCome.tally seen (parties (l.map Prod.snd))
    out.result.invalid.val = st.result.invalid.val + booked.1 ∧
      out.result.valid.val = st.result.valid.val + booked.2 := by
  induction l generalizing st seen with
  | nil => simp [OrdMap.accum, carried, parties, checked, FirstCome.tally]
  | cons e rest ih =>
      obtain ⟨cr3, t⟩ := e
      simp only [List.map_cons, mass, carried, parties, checked_cons] at hb ⊢
      by_cases hc : t.check = 1
      · -- the table books its records, then its activity is added to the result
        simp only [hc, if_true, List.map_cons, List.sum_cons, FirstCome.tally] at hb ⊢
        obtain ⟨⟨hs', h0, h1⟩, hle⟩ :=
          visitRecords_books t.h.entries hs t.activityPage (by omega)
        obtain ⟨hsys, hinv, hval⟩ := visitTable_checked st cr3 hc
        have hsum : magnitude st.result.invalid st.result.valid + _ ≤ 2 ^ 53 :=
          (Nat.add_le_add_left hle _).trans (by omega)
        obtain ⟨e0, e1, hadd⟩ := add_pair hsum
        rw [← hinv] at e0
        rw [← hval] at e1
        rw [← hinv, ← hval] at hadd
        have hrest := ih (hsys ▸ hs') (by
          simp only [mass]
          omega)
        simp only [OrdMap.accum, carried, parties, Prod.fst_add, Prod.snd_add] at hrest ⊢
        omega
      · simp only [hc, if_false] at hb ⊢
        have hst' : (visitTable st cr3 t).1 = { st with checkCr3Num := st.checkCr3Num + 1 } := by
          simp only [visitTable, if_neg hc]
        simp only [OrdMap.accum, hst']
        exact ih hs hb

/-! ## Visiting order -/

/-- `result[0]` and `result[1]` after a run from cleared maps and a zero result. -/
def counts (list : DataMap IntDouble) : IntDouble × IntDouble :=
  let out := (calculateAllPage list .cleared .zero).1.result
  (out.invalid, out.valid)

theorem holds_cleared : Holds .cleared ∅ := by
  intro b k
  cases b <;> simp [SystemMaps.cleared]

theorem counts_eq (list : DataMap IntDouble) (h : mass list.values ≤ 2 ^ 53) :
    ((counts list).1.val, (counts list).2.val) =
      carried list.values + FirstCome.tally ∅ (parties list.values) := by
  have hzero : roundInt 0 = 0 := rfl
  obtain ⟨h0, h1⟩ := visitTables_books list.entries
    (show Holds (⟨.cleared, .zero, 0⟩ : CalcState IntDouble).sys ∅ from holds_cleared) (by
      change (roundInt 0).natAbs + (roundInt 0).natAbs + mass list.values ≤ 2 ^ 53
      rw [hzero]
      simpa using h)
  change _ = roundInt 0 + _ at h0
  change _ = roundInt 0 + _ at h1
  rw [hzero, zero_add] at h0 h1
  exact Prod.ext h0 h1

/-- With sums that stay exact, each frame counts once, with the first offer made
for it. Any renaming of the CR3 keys leaves `result[0]` and `result[1]` alone when
checked address spaces that share a frame make the same first offer for it. -/
theorem counts_rename {list : DataMap IntDouble} {f : ULong → ULong}
    (hf : ∀ k ∈ list.keys, ∀ k' ∈ list.keys, f k = f k' → k = k') (hmass : mass list.values ≤ 2 ^ 53) :
    ((counts list).1.val, (counts list).2.val) =
        carried list.values + FirstCome.tally ∅ (parties list.values) ∧
      (FirstCome.Agree (parties list.values) → counts (list.rename f) = counts list) := by
  refine ⟨counts_eq list hmass, fun hagree => ?_⟩
  have hperm := OrdMap.rename_values_perm hf
  have hchecked : (checked (list.rename f).values).Perm (checked list.values) :=
    hperm.filter _
  have hparties : (parties (list.rename f).values).Perm (parties list.values) :=
    hchecked.map _
  have hcarried : carried (list.rename f).values = carried list.values :=
    (hchecked.map _).sum_eq
  have hmass' : mass (list.rename f).values = mass list.values := (hchecked.map _).sum_eq
  have hagree' : FirstCome.Agree (parties (list.rename f).values) := by
    intro l hl l' hl'
    exact hagree l (hparties.mem_iff.mp hl) l' (hparties.mem_iff.mp hl')
  have h := counts_eq (list.rename f) (by rw [hmass']; exact hmass)
  rw [hcarried, FirstCome.tally_perm hparties hagree', ← counts_eq list hmass] at h
  obtain ⟨h0, h1⟩ := Prod.ext_iff.mp h
  exact Prod.ext (IntDouble.ext h0) (IntDouble.ext h1)

/-- A checked address space whose only page maps frame 5 with the given weight. -/
def mapsFrameFive (weight : BitVec 16) : HashTable IntDouble where
  h := OrdMap.empty.set 0x1000 ⟨1, weight, savePaddr 0 5⟩
  cr3 := 0
  count := 0
  changePage := 0
  totalValidPages := 0
  activityPage := (⟨0⟩, ⟨0⟩)
  round := 0
  check := 1

/-- Two address spaces that share frame 5, with the weights given. -/
def sharing (w w' : BitVec 16) : DataMap IntDouble :=
  (OrdMap.empty.set 1 (mapsFrameFive w)).set 2 (mapsFrameFive w')

/-- Three checked address spaces without pages that carry `2 ^ 53`, 1 and 1. -/
def carrying : DataMap IntDouble :=
  let idle (n : Int) : HashTable IntDouble :=
    { mapsFrameFive 0 with h := .empty, activityPage := (⟨n⟩, ⟨0⟩) }
  ((OrdMap.empty.set 1 (idle (2 ^ 53))).set 2 (idle 1)).set 3 (idle 1)

theorem reverse_keys (n : ULong) (list : DataMap IntDouble) :
    ∀ k ∈ list.keys, ∀ k' ∈ list.keys, n - k = n - k' → k = k' := by
  intro k _ k' _ h
  exact sub_right_injective h

/-- A fresh and a decayed record of one frame: the first visited decides. And
where the sums leave the exact range, the order of the additions decides. -/
theorem counts_depend_on_order :
    (¬ ∀ (list : DataMap IntDouble) (f : ULong → ULong),
      (∀ k ∈ list.keys, ∀ k' ∈ list.keys, f k = f k' → k = k') →
      counts (list.rename f) = counts list) ∧
    counts ((sharing 1 (decay 1)).rename fun k => 3 - k) ≠ counts (sharing 1 (decay 1)) ∧
    counts (carrying.rename fun k => 4 - k) ≠ counts carrying := by
  have hshared : counts ((sharing 1 (decay 1)).rename fun k => 3 - k) ≠
      counts (sharing 1 (decay 1)) := by decide +kernel
  refine ⟨?_, hshared, by decide +kernel⟩
  intro hall
  exact hshared (hall (sharing 1 (decay 1)) (fun k => 3 - k) (reverse_keys 3 _))

theorem counts_rename_sharing :
    counts ((sharing 1 1).rename fun k => 3 - k) = counts (sharing 1 1) := by
  refine (counts_rename (reverse_keys 3 _) (by decide +kernel)).2 ?_
  -- both address spaces make the same list of offers
  have hparties : parties (sharing 1 1).values =
      [[((true, 5), (0, 1))], [((true, 5), (0, 1))]] := by decide +kernel
  rw [hparties]
  intro l hl l' hl' k a a' ha ha'
  simp only [List.mem_cons, List.not_mem_nil, or_false, or_self] at hl hl'
  rw [hl] at ha
  rw [hl'] at ha'
  exact Option.some.inj (ha.symm.trans ha')

end Monitor
