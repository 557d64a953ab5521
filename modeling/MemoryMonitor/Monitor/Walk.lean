import MemoryMonitor.Monitor.Table

/-!
# The guest page-table walk (`page_walk_ia32e`)

The walk maps the guest's page-table frames one level at a time and calls
`compare_swap` for every leaf it reaches: 4K entries, present or not, and
present user-space 2M entries. A frame may be unmappable, which skips the
subtree, and reading a mapped entry may raise a bus error, which abandons the
walk and clears the table's records.

The four loops run over the 512 offsets. An outcome is `ok` with the
state after the loop, or `error` with the state at the bus error.
-/

namespace Monitor

variable {D : Type}

/-! ## Guest memory -/

/-- What the analyser sees of the guest: mapping a frame may fail, and reading
entry `i` of a mapped frame may raise a bus error. -/
abbrev GuestMemory := ULong → Option (Nat → Option ULong)

/-- The frame `map_page` asks for. -/
def mapFrame (paBase : ULong) : ULong := (paBase >>> 12) &&& addrMask

def entryValid (entry : ULong) : BitVec 32 := if entry &&& 1 = 0 then 0 else 1

def pteEntryValid (entry : ULong) : BitVec 32 := entryPresent entry

def getVaddr (l1offset l2offset l3offset l4offset : ULong) : ULong :=
  (l1offset <<< 12) ||| (l2offset <<< 21) ||| (l3offset <<< 30) ||| (l4offset <<< 39)

/-- The offsets of a 512-entry table. -/
@[irreducible] def offsets : List Nat := List.range 512

/-! ## The loops -/

/-- The locals the loops carry, with the table and `gw` they write to. -/
structure WalkState (D : Type) where
  gw : GuestPagetableWalk
  table : HashTable D
  count : ULong
  total : ULong
  hugepageCounter : BitVec 32

/-- A loop ends normally or at a bus error. -/
abbrev Walk (D : Type) := Except (WalkState D) (WalkState D)

/-- `for (offset = 0; offset < 512; offset++) body`, left early by a bus error. -/
def walkLoop (body : WalkState D → Nat → Walk D) : List Nat → WalkState D → Walk D
  | [], st => .ok st
  | offset :: rest, st =>
      match body st offset with
      | .ok st => walkLoop body rest st
      | .error st => .error st

/-- `compare_swap(table, &gw, ..., valid_bit, huge_bit)` on the walk's own table. -/
def WalkState.observe (st : WalkState D) (validBit hugeBit : Byte) (uninit : ULong → ULong) :
    WalkState D :=
  { st with table := (compareSwap st.table st.gw validBit hugeBit (uninit st.gw.va)).2 }

/-- One page-table entry. -/
def walkL1 (uninit : ULong → ULong) (l1p : Nat → Option ULong) (l2offset l3offset l4offset : Nat)
    (st : WalkState D) (l1offset : Nat) : Walk D :=
  match l1p l1offset with
  | none => .error st
  | some l1e =>
      let va := getVaddr (.ofNat 64 l1offset) (.ofNat 64 l2offset) (.ofNat 64 l3offset)
        (.ofNat 64 l4offset)
      let st := { st with gw := { st.gw with l1e, va } }
      if va = 0 then .ok st
      else if pteEntryValid l1e = 0 then
        .ok ({ st with count := st.count + 1 }.observe 0 0 uninit)
      else
        let st := st.observe 1 0 uninit
        .ok { st with total := st.total + 1 }

/-- One page-directory entry: a 2M page, or a table of entries. -/
def walkL2 (mem : GuestMemory) (uninit : ULong → ULong) (l2p : Nat → Option ULong)
    (l3offset l4offset : Nat) (st : WalkState D) (l2offset : Nat) : Walk D :=
  match l2p l2offset with
  | none => .error st
  | some l2e =>
      let st := { st with gw := { st.gw with l2e } }
      if entryValid l2e = 0 then .ok st
      else if pageSizeFlag l2e ≠ 0 then
        -- huge pages count in user space only
        if getBit l2e 1 2 ≠ 0 then
          let va := getVaddr 0 (.ofNat 64 l2offset) (.ofNat 64 l3offset) (.ofNat 64 l4offset)
          let st := { st with
            total := st.total + 512, hugepageCounter := st.hugepageCounter + 1
            gw := { st.gw with va } }
          if pteEntryValid l2e = 0 then .ok (st.observe 0 1 uninit)
          else .ok (st.observe 1 1 uninit)
        else .ok st
      else
        let st := { st with gw := { st.gw with l1mfn := mapFrame l2e } }
        match mem (mapFrame l2e) with
        | none => .ok st
        | some l1p => walkLoop (walkL1 uninit l1p l2offset l3offset l4offset) offsets st

/-- One page-directory-pointer entry; 1G pages are skipped. -/
def walkL3 (mem : GuestMemory) (uninit : ULong → ULong) (l3p : Nat → Option ULong)
    (l4offset : Nat) (st : WalkState D) (l3offset : Nat) : Walk D :=
  match l3p l3offset with
  | none => .error st
  | some l3e =>
      let st := { st with gw := { st.gw with l3e } }
      if entryValid l3e = 0 then .ok st
      else if pageSizeFlag l3e ≠ 0 then .ok st
      else
        let st := { st with gw := { st.gw with l2mfn := mapFrame l3e } }
        match mem (mapFrame l3e) with
        | none => .ok st
        | some l2p => walkLoop (walkL2 mem uninit l2p l3offset l4offset) offsets st

/-- One top-level entry. -/
def walkL4 (mem : GuestMemory) (uninit : ULong → ULong) (l4p : Nat → Option ULong)
    (st : WalkState D) (l4offset : Nat) : Walk D :=
  match l4p l4offset with
  | none => .error st
  | some l4e =>
      let st := { st with gw := { st.gw with l4e } }
      if entryValid l4e = 0 then .ok st
      else
        let st := { st with gw := { st.gw with l3mfn := mapFrame l4e } }
        match mem (mapFrame l4e) with
        | none => .ok st
        | some l3p => walkLoop (walkL3 mem uninit l3p l4offset) offsets st

/-- `page_walk_ia32e`: the count of entries in swap (or `-1`), the table and `gw`. -/
def pageWalkIa32e [CDouble D] (mem : GuestMemory) (uninit : ULong → ULong) (dtb : ULong)
    (table : HashTable D) : ULong × HashTable D × GuestPagetableWalk :=
  let gw : GuestPagetableWalk := { (⟨0, 0, 0, 0, 0, 0, 0, 0, 0⟩ : GuestPagetableWalk) with
    l4mfn := mapFrame dtb }
  let st : WalkState D := ⟨gw, resetCounters table, 0, 0, 0⟩
  match mem (mapFrame dtb) with
  | none => (-1, st.table, st.gw)
  | some l4p =>
      match walkLoop (walkL4 mem uninit l4p) offsets st with
      | .ok st => (st.count, { st.table with count := st.count }, st.gw)
      | .error st => (st.count, { st.table with h := .empty, count := st.count }, st.gw)

/-! ## What a walk leaves alone -/

/-- The state a loop ends in, normally or not. -/
def Walk.state : Walk D → WalkState D
  | .ok st => st
  | .error st => st

/-- The fields of a table that observations never write. -/
def Frame (t t' : HashTable D) : Prop :=
  t'.cr3 = t.cr3 ∧ t'.activityPage = t.activityPage ∧ t'.round = t.round ∧ t'.check = t.check

theorem Frame.refl (t : HashTable D) : Frame t t := ⟨rfl, rfl, rfl, rfl⟩

theorem Frame.trans {t t' t'' : HashTable D} (h : Frame t t') (h' : Frame t' t'') :
    Frame t t'' :=
  ⟨h'.1.trans h.1, h'.2.1.trans h.2.1, h'.2.2.1.trans h.2.2.1, h'.2.2.2.trans h.2.2.2⟩

theorem compareSwap_frame (t : HashTable D) (gw : GuestPagetableWalk) (valid huge : Byte)
    (u : ULong) : Frame t (compareSwap t gw valid huge u).2 := by
  cases hr : t.h.get? gw.va with
  | none => rw [compareSwap_of_none _ _ _ hr]; exact Frame.refl _
  | some r => rw [compareSwap_of_some _ _ _ hr]; exact Frame.refl _

theorem walkLoop_frame {body : WalkState D → Nat → Walk D}
    (hbody : ∀ st i, Frame st.table (body st i).state.table) (l : List Nat) (st : WalkState D) :
    Frame st.table (walkLoop body l st).state.table := by
  induction l generalizing st with
  | nil => exact Frame.refl _
  | cons i rest ih =>
      have h := hbody st i
      unfold walkLoop
      cases hb : body st i with
      | ok st' =>
          rw [hb] at h
          exact h.trans (ih st')
      | error st' =>
          rw [hb] at h
          exact h

theorem walkL1_frame (uninit : ULong → ULong) (l1p : Nat → Option ULong) (l2 l3 l4 : Nat)
    (st : WalkState D) (i : Nat) :
    Frame st.table (walkL1 uninit l1p l2 l3 l4 st i).state.table := by
  unfold walkL1
  cases l1p i with
  | none => exact Frame.refl _
  | some e =>
      dsimp only
      split
      · exact Frame.refl _
      · split
        · exact compareSwap_frame _ _ _ _ _
        · exact compareSwap_frame _ _ _ _ _

theorem walkL2_frame (mem : GuestMemory) (uninit : ULong → ULong) (l2p : Nat → Option ULong)
    (l3 l4 : Nat) (st : WalkState D) (i : Nat) :
    Frame st.table (walkL2 mem uninit l2p l3 l4 st i).state.table := by
  unfold walkL2
  cases l2p i with
  | none => exact Frame.refl _
  | some e =>
      dsimp only
      split
      · exact Frame.refl _
      · split
        · split
          · split
            · exact compareSwap_frame _ _ _ _ _
            · exact compareSwap_frame _ _ _ _ _
          · exact Frame.refl _
        · cases mem (mapFrame e) with
          | none => exact Frame.refl _
          | some l1p => exact walkLoop_frame (walkL1_frame uninit l1p i l3 l4) offsets _

theorem walkL3_frame (mem : GuestMemory) (uninit : ULong → ULong) (l3p : Nat → Option ULong)
    (l4 : Nat) (st : WalkState D) (i : Nat) :
    Frame st.table (walkL3 mem uninit l3p l4 st i).state.table := by
  unfold walkL3
  cases l3p i with
  | none => exact Frame.refl _
  | some e =>
      dsimp only
      split
      · exact Frame.refl _
      · split
        · exact Frame.refl _
        · cases mem (mapFrame e) with
          | none => exact Frame.refl _
          | some l2p => exact walkLoop_frame (walkL2_frame mem uninit l2p i l4) offsets _

theorem walkL4_frame (mem : GuestMemory) (uninit : ULong → ULong) (l4p : Nat → Option ULong)
    (st : WalkState D) (i : Nat) :
    Frame st.table (walkL4 mem uninit l4p st i).state.table := by
  unfold walkL4
  cases l4p i with
  | none => exact Frame.refl _
  | some e =>
      dsimp only
      split
      · exact Frame.refl _
      · cases mem (mapFrame e) with
        | none => exact Frame.refl _
        | some l3p => exact walkLoop_frame (walkL3_frame mem uninit l3p i) offsets _

/-- A walk keeps the round stamp and the check byte, and leaves no activity. -/
theorem pageWalk_frame [CDouble D] (mem : GuestMemory) (uninit : ULong → ULong) (dtb : ULong)
    (t : HashTable D) : Frame (resetCounters t) (pageWalkIa32e mem uninit dtb t).2.1 := by
  unfold pageWalkIa32e
  dsimp only
  cases mem (mapFrame dtb) with
  | none => exact Frame.refl _
  | some l4p =>
      dsimp only
      generalize hst : WalkState.mk _ (resetCounters t) 0 0 0 = st
      have h := walkLoop_frame (walkL4_frame mem uninit l4p) offsets st
      have htable : st.table = resetCounters t := by rw [← hst]
      rw [htable] at h
      cases hw : walkLoop (walkL4 mem uninit l4p) offsets st with
      | ok st' =>
          rw [hw] at h
          exact h
      | error st' =>
          rw [hw] at h
          exact h

end Monitor
