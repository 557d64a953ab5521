import MemoryMonitor.Lib.OrdMap
import MemoryMonitor.Monitor.Codec

/-!
# Page records and `compare_swap` (`Monitor_tools/analyze.h`)

Each address space has a `hash_table` with one record per virtual address. A
record's `present_times` holds the last observed valid bit in bit 0 and a
saturating 7-bit change counter above it; both live in one signed char.

`compareSwap` is one observation. A history of observations, interleaved over
addresses and with counter resets in between, is a list of `TableOp`s run by
`runOps`; `table_history` relates the table it leaves to the history alone.
-/

namespace Monitor

/-- `byte`: a signed char, as its bits. -/
abbrev Byte := BitVec 8

/-- `double`, as far as the analyser computes with it. Rounding is left open:
what is proved for every instance holds for the machine's. -/
class CDouble (D : Type) where
  ofInt : Int → D
  add : D → D → D
  mul : D → D → D

structure MapData where
  presentTimes : Byte
  weight : BitVec 16
  paddr : ULong
  deriving DecidableEq

structure HashTable (D : Type) where
  h : OrdMap ULong MapData
  cr3 : ULong
  count : ULong
  changePage : ULong
  totalValidPages : ULong
  /-- `activity_page[2]`: index 0 is invalid, index 1 is valid. -/
  activityPage : D × D
  round : ULong
  check : Byte

structure GuestPagetableWalk where
  va : ULong
  l4e : ULong
  l3e : ULong
  l2e : ULong
  l1e : ULong
  l4mfn : ULong
  l3mfn : ULong
  l2mfn : ULong
  l1mfn : ULong

/-! ## The change counter -/

/-- `CHANGE_LIMIT`. -/
def changeLimit : Byte := 1

/-- `ADDR_MASK`. -/
def addrMask : ULong := 0x0000ffffffffffff

def getChangeNumber (value : Byte) : Byte := value.sshiftRight 1 &&& 0x7f

def addChangeNumber (value : Byte) : Byte :=
  let number := value.sshiftRight 1 &&& 0x7f
  if number.slt 0x7f then ((number + 1) <<< 1) ||| (value &&& 1) else value

/-- What `compare_swap` leaves in `present_times` of an existing record. -/
def updatePresent (present validBit : Byte) : Byte :=
  let val := present &&& 1
  let counted :=
    if val = 1 ∧ validBit = 0 then addChangeNumber present
    else if val = 0 ∧ validBit = 1 then addChangeNumber present
    else present
  if val ≠ validBit then (counted &&& 0xfe) ||| validBit else counted

/-! ## One observation -/

/-- The address field stored by an observation, over the word `w` found there. -/
def saveAddress (w paddr : ULong) (validBit hugeBit : Byte) : ULong :=
  saveHugeBit (if validBit = 1 then savePaddr w paddr else saveSwapPaddr w paddr)
    (hugeBit.signExtend 64)

/-- The frame (or swap file offset) an entry names, bits 47..12. -/
def entryFrame (gw : GuestPagetableWalk) (hugeBit : Byte) : ULong :=
  if hugeBit = 0 then (gw.l1e &&& addrMask) >>> 12 else (gw.l2e &&& addrMask) >>> 12

/-- `compare_swap`. `uninit` is the word a fresh `mapData` happens to hold in
`paddr`; the source does not initialise it before the field savers run. -/
def compareSwap {D : Type} (table : HashTable D) (gw : GuestPagetableWalk)
    (validBit hugeBit : Byte) (uninit : ULong) : BitVec 32 × HashTable D :=
  let vkey := gw.va
  let paddr := entryFrame gw hugeBit
  match table.h.get? vkey with
  | none =>
      let mapVal : MapData := ⟨validBit, 1, saveAddress uninit paddr validBit hugeBit⟩
      (0, { table with h := table.h.insert vkey mapVal })
  | some r =>
      let val := r.presentTimes &&& 1
      -- non-swap to swap: the counter has just been raised, then compared
      let fell := val = 1 ∧ validBit = 0
      let tmp := getChangeNumber (addChangeNumber r.presentTimes)
      let changePage :=
        if fell ∧ changeLimit.sle tmp then table.changePage + 1 else table.changePage
      let mapVal : MapData :=
        ⟨updatePresent r.presentTimes validBit, 1, saveAddress r.paddr paddr validBit hugeBit⟩
      (if fell then 1 else 0, { table with h := table.h.set vkey mapVal, changePage })

/-- The counter reset at the head of `page_walk_ia32e`. -/
def resetCounters {D : Type} [CDouble D] (table : HashTable D) : HashTable D :=
  { table with
    count := 0, changePage := 0, totalValidPages := 0,
    activityPage := (CDouble.ofInt 0, CDouble.ofInt 0) }

/-! ## The two halves of `present_times` -/

/-- The valid bit argument, which every caller passes as `0` or `1`. -/
def validByte (v : Bool) : Byte := if v then 1 else 0

/-- `present` records the observation `v` as the last of a history with `n` changes. -/
structure Records (present : Byte) (v : Bool) (n : Nat) : Prop where
  bit : present &&& 1 = validByte v
  counter : (getChangeNumber present).toNat = min 127 n

theorem records_first (v : Bool) : Records (validByte v) v 0 := by
  cases v
  · exact ⟨by decide, by decide⟩
  · exact ⟨by decide, by decide⟩

/-- Byte-level facts about one update; the counter saturates and bit 0 follows `v`. -/
theorem updatePresent_bit : ∀ (present : Byte) (v : Bool),
    updatePresent present (validByte v) &&& 1 = validByte v := by
  decide +kernel

theorem updatePresent_counter : ∀ (present : Byte) (v : Bool),
    (getChangeNumber (updatePresent present (validByte v))).toNat =
      if present &&& 1 = validByte v then (getChangeNumber present).toNat
      else min 127 ((getChangeNumber present).toNat + 1) := by
  decide +kernel

/-- The counter has always reached `CHANGE_LIMIT` once it was raised. -/
theorem changeLimit_le_raised : ∀ present : Byte,
    changeLimit.sle (getChangeNumber (addChangeNumber present)) = true := by
  decide +kernel

theorem records_update {present : Byte} {v : Bool} {n : Nat} (h : Records present v n)
    (v' : Bool) :
    Records (updatePresent present (validByte v')) v' (if v = v' then n else n + 1) := by
  refine ⟨updatePresent_bit present v', ?_⟩
  rw [updatePresent_counter, h.bit, h.counter]
  cases v <;> cases v'
  · rfl
  · rw [if_neg (by decide), if_neg (by decide)]
    omega
  · rw [if_neg (by decide), if_neg (by decide)]
    omega
  · rfl

/-! ## Histories -/

/-- One step of a table's history: an observation, or the counter reset that
starts a page walk. -/
inductive TableOp where
  | call (gw : GuestPagetableWalk) (valid : Bool) (hugeBit : Byte) (uninit : ULong)
  | reset

variable {D : Type} [CDouble D]

def TableOp.apply (t : HashTable D) : TableOp → HashTable D
  | .call gw valid hugeBit uninit => (compareSwap t gw (validByte valid) hugeBit uninit).2
  | .reset => resetCounters t

def runOps (t : HashTable D) (ops : List TableOp) : HashTable D :=
  ops.foldl TableOp.apply t

/-- The valid bits observed for `va`, oldest first. -/
def observed (va : ULong) (ops : List TableOp) : List Bool :=
  ops.filterMap fun
    | .call gw valid _ _ => if gw.va = va then some valid else none
    | .reset => none

/-- Positions at which an observation differs from the one before it. -/
def changes : List Bool → Nat
  | v :: v' :: rest => (if v = v' then 0 else 1) + changes (v' :: rest)
  | _ => 0

/-- 1-to-0 transitions of any address since the last reset, newest operation first. -/
def fallsBack : List TableOp → Nat
  | [] => 0
  | .reset :: _ => 0
  | .call gw valid _ _ :: past =>
      (if valid = false ∧ (observed gw.va past.reverse).getLast? = some true then 1 else 0) +
        fallsBack past

def fallsSinceReset (ops : List TableOp) : Nat := fallsBack ops.reverse

/-- The value `change_page` counts from: zero after a reset, else where it started. -/
def changeBase (start : ULong) (ops : List TableOp) : ULong :=
  if ops.any (fun | .reset => true | .call .. => false) then 0 else start

theorem changes_append (v v' : Bool) :
    ∀ vs : List Bool, changes (vs ++ [v, v']) =
      changes (vs ++ [v]) + if v = v' then 0 else 1
  | [] => by simp [changes]
  | [a] => by simp [changes]
  | a :: b :: rest => by
      have ih := changes_append v v' (b :: rest)
      simp only [List.cons_append, changes] at ih ⊢
      omega

/-- Appending an observation to a nonempty history. -/
theorem changes_concat {vs : List Bool} {v : Bool} (h : vs.getLast? = some v) (v' : Bool) :
    changes (vs ++ [v']) = if v = v' then changes vs else changes vs + 1 := by
  obtain ⟨init, rfl⟩ : ∃ init, vs = init ++ [v] := by
    rcases List.eq_nil_or_concat vs with rfl | ⟨init, w, rfl⟩
    · simp at h
    · refine ⟨init, ?_⟩
      simp at h
      simp [h]
  rw [List.append_assoc, List.singleton_append, changes_append]
  split <;> rfl

theorem observed_concat (va : ULong) (ops : List TableOp) (op : TableOp) :
    observed va (ops ++ [op]) = observed va ops ++ observed va [op] := by
  simp [observed, List.filterMap_append]

theorem observed_call (va : ULong) (gw : GuestPagetableWalk) (v : Bool) (huge : Byte)
    (u : ULong) : observed va [.call gw v huge u] = if gw.va = va then [v] else [] := by
  by_cases h : gw.va = va
  · simp [observed, h]
  · simp [observed, h]

/-- The table reflects the history: a record for each observed address, none
for the others. -/
def Reflects (ops : List TableOp) (t : HashTable D) : Prop :=
  ∀ va, match (observed va ops).getLast? with
    | none => t.h.get? va = none
    | some v => ∃ r, t.h.get? va = some r ∧
        Records r.presentTimes v (changes (observed va ops))

/-! ### What one observation does -/

section

omit [CDouble D]

theorem compareSwap_of_none {t : HashTable D} {gw : GuestPagetableWalk} (valid huge : Byte)
    (u : ULong) (hr : t.h.get? gw.va = none) :
    compareSwap t gw valid huge u =
      (0, { t with
        h := t.h.insert gw.va ⟨valid, 1, saveAddress u (entryFrame gw huge) valid huge⟩ }) := by
  simp only [compareSwap, hr]

theorem compareSwap_of_some {t : HashTable D} {gw : GuestPagetableWalk} {r : MapData}
    (valid huge : Byte) (u : ULong) (hr : t.h.get? gw.va = some r) :
    compareSwap t gw valid huge u =
      (if r.presentTimes &&& 1 = 1 ∧ valid = 0 then 1 else 0,
        { t with
          h := t.h.set gw.va ⟨updatePresent r.presentTimes valid, 1,
            saveAddress r.paddr (entryFrame gw huge) valid huge⟩
          changePage := if r.presentTimes &&& 1 = 1 ∧ valid = 0 then t.changePage + 1
            else t.changePage }) := by
  simp only [compareSwap, hr, changeLimit_le_raised, and_true]

/-- The record an observation leaves under its own address. -/
theorem compareSwap_self (t : HashTable D) (gw : GuestPagetableWalk) (v : Bool)
    (huge : Byte) (u : ULong) :
    ∃ r', (compareSwap t gw (validByte v) huge u).2.h.get? gw.va = some r' ∧
      r'.presentTimes = match t.h.get? gw.va with
        | none => validByte v
        | some r => updatePresent r.presentTimes (validByte v) := by
  cases hr : t.h.get? gw.va with
  | none =>
      rw [compareSwap_of_none _ _ _ hr]
      refine ⟨⟨validByte v, 1, saveAddress u (entryFrame gw huge) (validByte v) huge⟩, ?_, rfl⟩
      simp only [OrdMap.get?_insert, hr, if_pos]
      rfl
  | some r =>
      rw [compareSwap_of_some _ _ _ hr]
      exact ⟨_, OrdMap.get?_set_self _ _ _, rfl⟩

/-- Records of other addresses are untouched. -/
theorem compareSwap_other (t : HashTable D) (gw : GuestPagetableWalk) (valid huge : Byte)
    (u : ULong) {va : ULong} (hva : va ≠ gw.va) :
    (compareSwap t gw valid huge u).2.h.get? va = t.h.get? va := by
  cases hr : t.h.get? gw.va with
  | none =>
      rw [compareSwap_of_none _ _ _ hr]
      simp only [OrdMap.get?_insert, if_neg hva]
  | some r =>
      rw [compareSwap_of_some _ _ _ hr]
      exact OrdMap.get?_set_of_ne _ _ hva

/-- `change_page` counts one more exactly when the record's bit falls. -/
theorem compareSwap_changePage (t : HashTable D) (gw : GuestPagetableWalk) (v : Bool)
    (huge : Byte) (u : ULong) :
    (compareSwap t gw (validByte v) huge u).2.changePage =
      match t.h.get? gw.va with
      | none => t.changePage
      | some r => if r.presentTimes &&& 1 = 1 ∧ v = false then t.changePage + 1
          else t.changePage := by
  have hv : validByte v = 0 ↔ v = false := by cases v <;> decide
  cases hr : t.h.get? gw.va with
  | none => rw [compareSwap_of_none _ _ _ hr]
  | some r =>
      rw [compareSwap_of_some _ _ _ hr]
      simp only [hv]

end

/-! ### Whole histories -/

theorem runOps_concat (t : HashTable D) (ops : List TableOp) (op : TableOp) :
    runOps t (ops ++ [op]) = op.apply (runOps t ops) := by
  simp [runOps]

theorem reflects_step {ops : List TableOp} {t : HashTable D} (h : Reflects ops t)
    (op : TableOp) : Reflects (ops ++ [op]) (op.apply t) := by
  intro va
  have hva := h va
  cases op with
  | reset =>
      rw [observed_concat, show observed va [TableOp.reset] = [] from rfl, List.append_nil]
      exact hva
  | call gw v huge u =>
      rw [observed_concat, observed_call]
      by_cases hne : gw.va = va
      · subst hne
        obtain ⟨r', hget, hpres⟩ := compareSwap_self t gw v huge u
        rw [if_pos rfl, List.getLast?_concat]
        refine ⟨r', hget, ?_⟩
        -- a first observation starts the record, a later one updates it
        cases hlast : (observed gw.va ops).getLast? with
        | none =>
            rw [hlast] at hva
            rw [hpres, hva]
            have hnil : observed gw.va ops = [] := List.getLast?_eq_none_iff.mp hlast
            rw [hnil]
            exact records_first v
        | some v₀ =>
            rw [hlast] at hva
            obtain ⟨r, hr, hrec⟩ := hva
            rw [hpres, hr, changes_concat hlast]
            exact records_update hrec v
      · rw [if_neg hne, List.append_nil]
        have hother := compareSwap_other t gw (validByte v) huge u (Ne.symm hne)
        cases hlast : (observed va ops).getLast? with
        | none =>
            rw [hlast] at hva
            exact hother.trans hva
        | some v₀ =>
            rw [hlast] at hva
            obtain ⟨r, hr, hrec⟩ := hva
            exact ⟨r, hother.trans hr, hrec⟩

theorem reflects_runOps (t : HashTable D) (ht : t.h = .empty) (ops : List TableOp) :
    Reflects ops (runOps t ops) := by
  induction ops using List.reverseRecOn with
  | nil =>
      intro va
      change t.h.get? va = none
      rw [ht]
      rfl
  | append_singleton ops op ih =>
      rw [runOps_concat]
      exact reflects_step ih op

theorem changePage_step {ops : List TableOp} {t : HashTable D} {start : ULong}
    (h : Reflects ops t)
    (hc : t.changePage = changeBase start ops + BitVec.ofNat 64 (fallsSinceReset ops))
    (op : TableOp) :
    (op.apply t).changePage =
      changeBase start (ops ++ [op]) + BitVec.ofNat 64 (fallsSinceReset (ops ++ [op])) := by
  cases op with
  | reset => simp [TableOp.apply, resetCounters, changeBase, fallsSinceReset, fallsBack]
  | call gw v huge u =>
      have hbase : changeBase start (ops ++ [.call gw v huge u]) = changeBase start ops := by
        simp [changeBase]
      have hfalls : fallsSinceReset (ops ++ [.call gw v huge u]) =
          (if v = false ∧ (observed gw.va ops).getLast? = some true then 1 else 0) +
            fallsSinceReset ops := by
        simp [fallsSinceReset, fallsBack]
      rw [hbase, hfalls, TableOp.apply, compareSwap_changePage]
      have hva := h gw.va
      cases hlast : (observed gw.va ops).getLast? with
      | none =>
          rw [hlast] at hva
          simp [hva, hc]
      | some v₀ =>
          rw [hlast] at hva
          obtain ⟨r, hr, hrec⟩ := hva
          have hbit : r.presentTimes &&& 1 = 1 ↔ v₀ = true := by
            rw [hrec.bit]
            cases v₀ <;> decide
          simp only [hr, hbit, hc]
          by_cases hf : v₀ = true ∧ v = false
          · rw [if_pos hf, if_pos ⟨hf.2, by rw [hf.1]⟩, Nat.add_comm, BitVec.ofNat_add]
            exact BitVec.add_assoc _ _ _
          · have hf' : ¬ (v = false ∧ some v₀ = some true) := by
              rintro ⟨h1, h2⟩
              exact hf ⟨by simpa using h2, h1⟩
            rw [if_neg hf, if_neg hf', Nat.zero_add]

/-- Every history of observations from an empty table: bit 0 is the last
observation and the counter the saturated number of changes, an observation
leaves the records of other addresses alone, and `change_page` has grown by
the 1-to-0 transitions since the last reset. -/
theorem table_history (t : HashTable D) (ops : List TableOp) :
    let t' := runOps { t with h := .empty } ops
    Reflects ops t' ∧
    (∀ gw v huge u va, va ≠ gw.va →
      ((TableOp.call gw v huge u).apply t').h.get? va = t'.h.get? va) ∧
    t'.changePage =
      changeBase t.changePage ops + BitVec.ofNat 64 (fallsSinceReset ops) := by
  refine ⟨reflects_runOps _ rfl ops, fun gw v huge u va hva =>
    compareSwap_other _ gw _ huge u hva, ?_⟩
  induction ops using List.reverseRecOn with
  | nil => simp [runOps, changeBase, fallsSinceReset, fallsBack]
  | append_singleton ops op ih =>
      rw [runOps_concat]
      exact changePage_step (reflects_runOps _ rfl ops) ih op

end Monitor
