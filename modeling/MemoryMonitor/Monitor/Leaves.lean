import MemoryMonitor.Monitor.Walk

/-!
# What a page-table walk records

`Through l4` is the tree that the walk goes through, level by level, in the words of the architecture:
bit 0 of an entry says that it is present, bit 7 that it maps a large page, bit 2 that user mode may use
it. A leaf is an entry that `compare_swap` is called for. `leaves` lists the leaves in the order of the
loops; the walk is one call after another for that list, and no two leaves of it have the same address.
-/

namespace Monitor

variable {D : Type}

/-! ## The tree -/

def present (entry : ULong) : Bool := entry.getLsbD 0

def large (entry : ULong) : Bool := entry.getLsbD 7

def user (entry : ULong) : Bool := entry.getLsbD 2

/-- Entry `i` of the table that `base` names. -/
def entryAt (mem : GuestMemory) (base : ULong) (i : Nat) : Option ULong :=
  (mem (mapFrame base)).bind fun page => page i

/-- The address of a slot. -/
def slotVaddr (l4 l3 l2 l1 : Nat) : ULong :=
  getVaddr (.ofNat 64 l1) (.ofNat 64 l2) (.ofNat 64 l3) (.ofNat 64 l4)

section Tree

variable (through : ULong → Prop) (mem : GuestMemory) (dtb : ULong)

/-- The level 4 entry `e`, one of those that lead on. -/
def At4 (l4 : Nat) (e : ULong) : Prop := l4 < 512 ∧ entryAt mem dtb l4 = some e ∧ through e

/-- The level 3 entry `e`. -/
def At3 (l4 l3 : Nat) (e : ULong) : Prop :=
  l3 < 512 ∧ ∃ e4, At4 through mem dtb l4 e4 ∧ entryAt mem e4 l3 = some e

/-- The level 2 entry `e`, below an entry that is present and maps no large page. -/
def At2 (l4 l3 l2 : Nat) (e : ULong) : Prop :=
  l2 < 512 ∧ ∃ e3, At3 through mem dtb l4 l3 e3 ∧ present e3 = true ∧ large e3 = false ∧
    entryAt mem e3 l2 = some e

/-- The level 1 entry `e`, that of a 4K slot. -/
def At1 (l4 l3 l2 l1 : Nat) (e : ULong) : Prop :=
  l1 < 512 ∧ ∃ e2, At2 through mem dtb l4 l3 l2 e2 ∧ present e2 = true ∧ large e2 = false ∧
    entryAt mem e2 l1 = some e

/-- A large page that is recorded. -/
def LargePage (l4 l3 l2 : Nat) (e : ULong) : Prop :=
  At2 through mem dtb l4 l3 l2 e ∧ present e = true ∧ large e = true ∧ user e = true

end Tree

/-- A table that can be mapped and read to its end. -/
def Whole (mem : GuestMemory) (base : ULong) : Prop :=
  ∃ page, mem (mapFrame base) = some page ∧ ∀ i < 512, ∃ e, page i = some e

/-- All tables of the tree can be mapped, and no read of them is a bus error. -/
structure Mappable (mem : GuestMemory) (dtb : ULong) : Prop where
  table4 : Whole mem dtb
  table3 : ∀ l4 e, At4 (present ·) mem dtb l4 e → Whole mem e
  table2 : ∀ l4 l3 e, At3 (present ·) mem dtb l4 l3 e → present e = true → large e = false → Whole mem e
  table1 : ∀ l4 l3 l2 e, At2 (present ·) mem dtb l4 l3 l2 e → present e = true → large e = false →
    Whole mem e

/-! ## The leaves -/

structure Leaf where
  va : ULong
  entry : ULong
  huge : Bool

namespace Leaf

/-- A leaf in swap. -/
def swapped (leaf : Leaf) : Bool := !leaf.huge && !present leaf.entry

/-- `gw`, as far as `compare_swap` reads it. -/
def gw (leaf : Leaf) : GuestPagetableWalk := ⟨leaf.va, 0, 0, leaf.entry, leaf.entry, 0, 0, 0, 0⟩

/-- The call of `compare_swap` for the leaf. -/
def see (uninit : ULong → ULong) (t : HashTable D) (leaf : Leaf) : HashTable D :=
  (compareSwap t leaf.gw (validByte (present leaf.entry)) (if leaf.huge then 1 else 0)
    (uninit leaf.va)).2

end Leaf

section Leaves

variable (mem : GuestMemory)

def leavesOf1 (l4 l3 l2 : Nat) (e2 : ULong) : List Leaf :=
  offsets.flatMap fun l1 => match entryAt mem e2 l1 with
    | none => []
    | some e => if slotVaddr l4 l3 l2 l1 = 0 then [] else [⟨slotVaddr l4 l3 l2 l1, e, false⟩]

def leavesOf2 (l4 l3 : Nat) (e3 : ULong) : List Leaf :=
  offsets.flatMap fun l2 => match entryAt mem e3 l2 with
    | none => []
    | some e =>
      if present e = false then []
      else if large e then (if user e then [⟨slotVaddr l4 l3 l2 0, e, true⟩] else [])
      else leavesOf1 mem l4 l3 l2 e

def leavesOf3 (l4 : Nat) (e4 : ULong) : List Leaf :=
  offsets.flatMap fun l3 => match entryAt mem e4 l3 with
    | none => []
    | some e => if present e = false ∨ large e = true then [] else leavesOf2 mem l4 l3 e

/-- The leaves, in the order of the loops. -/
def leaves (dtb : ULong) : List Leaf :=
  offsets.flatMap fun l4 => match entryAt mem dtb l4 with
    | none => []
    | some e => if present e = false then [] else leavesOf3 mem l4 e

end Leaves

/-! ## Flags of an entry -/

theorem flag_iff (entry : ULong) (position : Nat) (h : position < 64) :
    (getBit entry 1 position).setWidth 32 = 0 ↔ entry.getLsbD position = false := by
  have hbit : ∀ i, (getBit entry 1 position).getLsbD i = (decide (i < 1) && entry.getLsbD (position + i)) :=
    fun i => getLsbD_getBit entry 1 position i (by omega)
  constructor
  · intro hzero
    have h0 := congrArg (fun w : BitVec 32 => w.getLsbD 0) hzero
    simp only [BitVec.getLsbD_setWidth, hbit] at h0
    simpa using h0
  · intro hclear
    apply BitVec.eq_of_getLsbD_eq
    intro i hi
    rw [BitVec.getLsbD_setWidth, hbit]
    cases i with
    | zero => simp [hclear]
    | succ i => simp

theorem entryPresent_iff (entry : ULong) : entryPresent entry = 0 ↔ present entry = false :=
  flag_iff entry 0 (by omega)

theorem pageSizeFlag_iff (entry : ULong) : pageSizeFlag entry = 0 ↔ large entry = false :=
  flag_iff entry 7 (by omega)

theorem getBit_user_iff (entry : ULong) : getBit entry 1 2 = 0 ↔ user entry = false := by
  rw [user, ← flag_iff entry 2 (by omega)]
  constructor
  · intro h
    rw [h]
    rfl
  · intro h
    apply BitVec.eq_of_getLsbD_eq
    intro i hi
    have hbit := congrArg (fun w : BitVec 32 => w.getLsbD i) h
    simp only [BitVec.getLsbD_setWidth] at hbit
    rw [getLsbD_getBit entry 1 2 i (by omega)] at hbit ⊢
    cases i with
    | zero => simpa using hbit
    | succ i => simp

theorem entryValid_iff (entry : ULong) : entryValid entry = 0 ↔ present entry = false := by
  have hmask : entry &&& 1 = 0 ↔ entry.getLsbD 0 = false := by
    constructor
    · intro h
      have h0 := congrArg (fun w : ULong => w.getLsbD 0) h
      simpa using h0
    · intro h
      apply BitVec.eq_of_getLsbD_eq
      intro i hi
      rw [BitVec.getLsbD_and, show (1 : ULong) = 1#64 from rfl, BitVec.getLsbD_one]
      by_cases hi0 : i = 0
      · rw [hi0, h]
        rfl
      · simp [hi0]
  unfold entryValid present
  rw [← hmask]
  constructor
  · intro h
    by_contra hne
    rw [if_neg hne] at h
    exact absurd h (by decide)
  · intro h
    rw [if_pos h]

/-! ## Addresses -/

theorem toNat_ofNat_offset {i : Nat} (h : i < 512) : (BitVec.ofNat 64 i).toNat = i := by
  rw [BitVec.toNat_ofNat]
  omega

/-- The four offsets are four digits of the address. -/
theorem slotVaddr_toNat {l4 l3 l2 l1 : Nat} (h4 : l4 < 512) (h3 : l3 < 512) (h2 : l2 < 512)
    (h1 : l1 < 512) :
    (slotVaddr l4 l3 l2 l1).toNat = 2 ^ 39 * l4 + 2 ^ 30 * l3 + 2 ^ 21 * l2 + 2 ^ 12 * l1 := by
  have hshift : ∀ {i k : Nat}, i < 512 → k ≤ 39 → ((BitVec.ofNat 64 i) <<< k).toNat = i <<< k := by
    intro i k hi hk
    rw [BitVec.toNat_shiftLeft, toNat_ofNat_offset hi]
    apply Nat.mod_eq_of_lt
    rw [Nat.shiftLeft_eq]
    calc i * 2 ^ k ≤ 511 * 2 ^ 39 := Nat.mul_le_mul (by omega) (Nat.pow_le_pow_right (by omega) hk)
      _ < 2 ^ 64 := by norm_num
  unfold slotVaddr getVaddr
  rw [BitVec.toNat_or, BitVec.toNat_or, BitVec.toNat_or]
  rw [hshift h1 (by omega), hshift h2 (by omega), hshift h3 (by omega), hshift h4 (by omega)]
  -- a digit with a higher place is put on top of what fills the places below
  have hlay : ∀ (a i b : Nat), b < 2 ^ i → b ||| a <<< i = 2 ^ i * a + b := by
    intro a i b hb
    rw [Nat.or_comm, ← Nat.shiftLeft_add_eq_or_of_lt hb, Nat.shiftLeft_eq, Nat.mul_comm]
  have hlow : l1 <<< 12 = 2 ^ 12 * l1 := by rw [Nat.shiftLeft_eq, Nat.mul_comm]
  rw [hlow, hlay l2 21 _ (by omega), hlay l3 30 _ (by omega), hlay l4 39 _ (by omega)]
  omega

/-- The offsets of an address. -/
def offset4 (va : ULong) : Nat := va.toNat / 2 ^ 39 % 512
def offset3 (va : ULong) : Nat := va.toNat / 2 ^ 30 % 512
def offset2 (va : ULong) : Nat := va.toNat / 2 ^ 21 % 512
def offset1 (va : ULong) : Nat := va.toNat / 2 ^ 12 % 512

/-- The four offsets determine the address, and it them. -/
theorem offsets_slotVaddr {l4 l3 l2 l1 : Nat} (h4 : l4 < 512) (h3 : l3 < 512) (h2 : l2 < 512)
    (h1 : l1 < 512) :
    offset4 (slotVaddr l4 l3 l2 l1) = l4 ∧ offset3 (slotVaddr l4 l3 l2 l1) = l3 ∧
      offset2 (slotVaddr l4 l3 l2 l1) = l2 ∧ offset1 (slotVaddr l4 l3 l2 l1) = l1 := by
  unfold offset4 offset3 offset2 offset1
  rw [slotVaddr_toNat h4 h3 h2 h1]
  omega

/-! ## The list of leaves -/

theorem mem_offsets {i : Nat} : i ∈ offsets ↔ i < 512 := by
  unfold offsets
  exact List.mem_range

theorem nodup_offsets : offsets.Nodup := by
  unfold offsets
  exact List.nodup_range

variable {mem : GuestMemory} {dtb : ULong} {leaf : Leaf} {l4 l3 l2 : Nat}

theorem mem_leavesOf1 {e2 : ULong} : leaf ∈ leavesOf1 mem l4 l3 l2 e2 ↔
    ∃ l1 < 512, ∃ e, entryAt mem e2 l1 = some e ∧ slotVaddr l4 l3 l2 l1 ≠ 0 ∧
      leaf = ⟨slotVaddr l4 l3 l2 l1, e, false⟩ := by
  unfold leavesOf1
  rw [List.mem_flatMap]
  constructor
  · rintro ⟨l1, hl1, hleaf⟩
    cases he : entryAt mem e2 l1 with
    | none => rw [he] at hleaf; cases hleaf
    | some e =>
      rw [he] at hleaf
      dsimp only at hleaf
      split at hleaf
      · cases hleaf
      · next hva => exact ⟨l1, mem_offsets.mp hl1, e, he, hva, List.mem_singleton.mp hleaf⟩
  · rintro ⟨l1, hl1, e, he, hva, rfl⟩
    refine ⟨l1, mem_offsets.mpr hl1, ?_⟩
    rw [he]
    dsimp only
    rw [if_neg hva]
    exact List.mem_singleton_self _

theorem mem_leavesOf2 {e3 : ULong} : leaf ∈ leavesOf2 mem l4 l3 e3 ↔
    ∃ l2 < 512, ∃ e, entryAt mem e3 l2 = some e ∧ present e = true ∧
      ((large e = true ∧ user e = true ∧ leaf = ⟨slotVaddr l4 l3 l2 0, e, true⟩) ∨
        (large e = false ∧ leaf ∈ leavesOf1 mem l4 l3 l2 e)) := by
  unfold leavesOf2
  rw [List.mem_flatMap]
  constructor
  · rintro ⟨l2, hl2, hleaf⟩
    cases he : entryAt mem e3 l2 with
    | none => rw [he] at hleaf; cases hleaf
    | some e =>
      rw [he] at hleaf
      dsimp only at hleaf
      refine ⟨l2, mem_offsets.mp hl2, e, he, ?_⟩
      cases hp : present e <;> cases hl : large e <;> cases hu : user e <;>
        simp_all
  · rintro ⟨l2, hl2, e, he, hp, hcase⟩
    refine ⟨l2, mem_offsets.mpr hl2, ?_⟩
    rw [he]
    rcases hcase with ⟨hl, hu, rfl⟩ | ⟨hl, hleaf⟩
    · simp [hp, hl, hu]
    · simp [hp, hl, hleaf]

theorem mem_leavesOf3 {e4 : ULong} : leaf ∈ leavesOf3 mem l4 e4 ↔
    ∃ l3 < 512, ∃ e, entryAt mem e4 l3 = some e ∧ present e = true ∧ large e = false ∧
      leaf ∈ leavesOf2 mem l4 l3 e := by
  unfold leavesOf3
  rw [List.mem_flatMap]
  constructor
  · rintro ⟨l3, hl3, hleaf⟩
    cases he : entryAt mem e4 l3 with
    | none => rw [he] at hleaf; cases hleaf
    | some e =>
      rw [he] at hleaf
      dsimp only at hleaf
      split at hleaf
      · cases hleaf
      · next hskip =>
        refine ⟨l3, mem_offsets.mp hl3, e, he, ?_, ?_, hleaf⟩
        · cases hp : present e with
          | true => rfl
          | false => exact absurd (.inl hp) hskip
        · cases hl : large e with
          | false => rfl
          | true => exact absurd (.inr hl) hskip
  · rintro ⟨l3, hl3, e, he, hp, hl, hleaf⟩
    refine ⟨l3, mem_offsets.mpr hl3, ?_⟩
    rw [he]
    simpa [hp, hl] using hleaf

theorem mem_leaves : leaf ∈ leaves mem dtb ↔
    ∃ l4 < 512, ∃ e, entryAt mem dtb l4 = some e ∧ present e = true ∧ leaf ∈ leavesOf3 mem l4 e := by
  unfold leaves
  rw [List.mem_flatMap]
  constructor
  · rintro ⟨l4, hl4, hleaf⟩
    cases he : entryAt mem dtb l4 with
    | none => rw [he] at hleaf; cases hleaf
    | some e =>
      rw [he] at hleaf
      dsimp only at hleaf
      split at hleaf
      · cases hleaf
      · next hp => exact ⟨l4, mem_offsets.mp hl4, e, he, by simpa using hp, hleaf⟩
  · rintro ⟨l4, hl4, e, he, hp, hleaf⟩
    refine ⟨l4, mem_offsets.mpr hl4, ?_⟩
    rw [he]
    simpa [hp] using hleaf

theorem mem_leaves_iff : leaf ∈ leaves mem dtb ↔
    (∃ l4 l3 l2 l1 e, At1 (present ·) mem dtb l4 l3 l2 l1 e ∧ slotVaddr l4 l3 l2 l1 ≠ 0 ∧
      leaf = ⟨slotVaddr l4 l3 l2 l1, e, false⟩) ∨
    ∃ l4 l3 l2 e, LargePage (present ·) mem dtb l4 l3 l2 e ∧ leaf = ⟨slotVaddr l4 l3 l2 0, e, true⟩ := by
  rw [mem_leaves]
  simp only [mem_leavesOf3, mem_leavesOf2, mem_leavesOf1]
  constructor
  · rintro ⟨l4, h4, e4, he4, hp4, l3, h3, e3, he3, hp3, hl3, l2, h2, e2, he2, hp2, hcase⟩
    have hat2 : At2 (present ·) mem dtb l4 l3 l2 e2 :=
      ⟨h2, e3, ⟨h3, e4, ⟨h4, he4, hp4⟩, he3⟩, hp3, hl3, he2⟩
    rcases hcase with ⟨hl2, hu, rfl⟩ | ⟨hl2, l1, h1, e, he, hva, rfl⟩
    · exact .inr ⟨l4, l3, l2, e2, ⟨hat2, hp2, hl2, hu⟩, rfl⟩
    · exact .inl ⟨l4, l3, l2, l1, e, ⟨h1, e2, hat2, hp2, hl2, he⟩, hva, rfl⟩
  · rintro (⟨l4, l3, l2, l1, e, ⟨h1, e2, ⟨h2, e3, ⟨h3, e4, ⟨h4, he4, hp4⟩, he3⟩, hp3, hl3, he2⟩, hp2, hl2,
      he⟩, hva, rfl⟩ | ⟨l4, l3, l2, e2, ⟨⟨h2, e3, ⟨h3, e4, ⟨h4, he4, hp4⟩, he3⟩, hp3, hl3, he2⟩, hp2, hl2, hu⟩,
      rfl⟩)
    · exact ⟨l4, h4, e4, he4, hp4, l3, h3, e3, he3, hp3, hl3, l2, h2, e2, he2, hp2,
        .inr ⟨hl2, l1, h1, e, he, hva, rfl⟩⟩
    · exact ⟨l4, h4, e4, he4, hp4, l3, h3, e3, he3, hp3, hl3, l2, h2, e2, he2, hp2, .inl ⟨hl2, hu, rfl⟩⟩

/-! ### No address twice -/

/-- Lists that are told apart by a key have no key twice if none of them has. -/
theorem nodup_map_flatMap {α β κ : Type} {l : List α} {f : α → List β} {key : β → κ} (g : κ → α)
    (hl : l.Nodup) (hf : ∀ a ∈ l, ((f a).map key).Nodup) (hg : ∀ a ∈ l, ∀ b ∈ f a, g (key b) = a) :
    ((l.flatMap f).map key).Nodup := by
  rw [List.map_flatMap, List.nodup_flatMap]
  refine ⟨hf, hl.imp_of_mem ?_⟩
  intro a a' ha ha' hne k hk hk'
  obtain ⟨b, hb, rfl⟩ := List.mem_map.mp hk
  obtain ⟨b', hb', heq⟩ := List.mem_map.mp hk'
  apply hne
  rw [← hg a ha b hb, ← hg a' ha' b' hb', heq]

theorem nodup_map_of_length {β κ : Type} {l : List β} (key : β → κ) (h : l.length ≤ 1) :
    (l.map key).Nodup := by
  match l, h with
  | [], _ => exact List.nodup_nil
  | [b], _ => exact List.nodup_singleton _

theorem offset_leavesOf1 (h4 : l4 < 512) (h3 : l3 < 512) (h2 : l2 < 512) {e2 : ULong}
    (hleaf : leaf ∈ leavesOf1 mem l4 l3 l2 e2) :
    offset4 leaf.va = l4 ∧ offset3 leaf.va = l3 ∧ offset2 leaf.va = l2 := by
  obtain ⟨l1, h1, e, -, -, rfl⟩ := mem_leavesOf1.mp hleaf
  obtain ⟨ho4, ho3, ho2, -⟩ := offsets_slotVaddr h4 h3 h2 h1
  exact ⟨ho4, ho3, ho2⟩

theorem offset_leavesOf2 (h4 : l4 < 512) (h3 : l3 < 512) {e3 : ULong}
    (hleaf : leaf ∈ leavesOf2 mem l4 l3 e3) : offset4 leaf.va = l4 ∧ offset3 leaf.va = l3 := by
  obtain ⟨l2, h2, e, -, -, ⟨-, -, rfl⟩ | ⟨-, hleaf⟩⟩ := mem_leavesOf2.mp hleaf
  · obtain ⟨ho4, ho3, -⟩ := offsets_slotVaddr h4 h3 h2 (show 0 < 512 by omega)
    exact ⟨ho4, ho3⟩
  · obtain ⟨ho4, ho3, -⟩ := offset_leavesOf1 h4 h3 h2 hleaf
    exact ⟨ho4, ho3⟩

theorem nodup_leavesOf1 (h4 : l4 < 512) (h3 : l3 < 512) (h2 : l2 < 512) (e2 : ULong) :
    ((leavesOf1 mem l4 l3 l2 e2).map Leaf.va).Nodup := by
  refine nodup_map_flatMap offset1 nodup_offsets ?_ ?_
  · intro l1 hl1
    apply nodup_map_of_length
    cases entryAt mem e2 l1 with
    | none => exact Nat.zero_le _
    | some e =>
      dsimp only
      split
      · exact Nat.zero_le _
      · exact le_rfl
  · intro l1 hl1 b hb
    obtain ⟨-, -, -, ho1⟩ := offsets_slotVaddr h4 h3 h2 (mem_offsets.mp hl1)
    cases he : entryAt mem e2 l1 with
    | none => rw [he] at hb; cases hb
    | some e =>
      rw [he] at hb
      dsimp only at hb
      split at hb
      · cases hb
      · rw [List.mem_singleton.mp hb]
        exact ho1

theorem nodup_leavesOf2 (h4 : l4 < 512) (h3 : l3 < 512) (e3 : ULong) :
    ((leavesOf2 mem l4 l3 e3).map Leaf.va).Nodup := by
  refine nodup_map_flatMap offset2 nodup_offsets ?_ ?_
  · intro l2 hl2
    cases entryAt mem e3 l2 with
    | none => exact List.nodup_nil
    | some e =>
      dsimp only
      split_ifs
      · exact List.nodup_nil
      · exact List.nodup_singleton _
      · exact List.nodup_nil
      · exact nodup_leavesOf1 h4 h3 (mem_offsets.mp hl2) e
  · intro l2 hl2 b hb
    have h2 := mem_offsets.mp hl2
    cases he : entryAt mem e3 l2 with
    | none => rw [he] at hb; cases hb
    | some e =>
      rw [he] at hb
      dsimp only at hb
      split_ifs at hb
      · cases hb
      · rw [List.mem_singleton.mp hb]
        exact (offsets_slotVaddr h4 h3 h2 (show 0 < 512 by omega)).2.2.1
      · cases hb
      · exact (offset_leavesOf1 h4 h3 h2 hb).2.2

theorem nodup_leavesOf3 (h4 : l4 < 512) (e4 : ULong) : ((leavesOf3 mem l4 e4).map Leaf.va).Nodup := by
  refine nodup_map_flatMap offset3 nodup_offsets ?_ ?_
  · intro l3 hl3
    cases entryAt mem e4 l3 with
    | none => exact List.nodup_nil
    | some e =>
      dsimp only
      split
      · exact List.nodup_nil
      · exact nodup_leavesOf2 h4 (mem_offsets.mp hl3) e
  · intro l3 hl3 b hb
    cases he : entryAt mem e4 l3 with
    | none => rw [he] at hb; cases hb
    | some e =>
      rw [he] at hb
      dsimp only at hb
      split at hb
      · cases hb
      · exact (offset_leavesOf2 h4 (mem_offsets.mp hl3) hb).2

/-- No two leaves have the same address. -/
theorem nodup_leaves (mem : GuestMemory) (dtb : ULong) : ((leaves mem dtb).map Leaf.va).Nodup := by
  refine nodup_map_flatMap offset4 nodup_offsets ?_ ?_
  · intro l4 hl4
    cases entryAt mem dtb l4 with
    | none => exact List.nodup_nil
    | some e =>
      dsimp only
      split
      · exact List.nodup_nil
      · exact nodup_leavesOf3 (mem_offsets.mp hl4) e
  · intro l4 hl4 b hb
    cases he : entryAt mem dtb l4 with
    | none => rw [he] at hb; cases hb
    | some e =>
      rw [he] at hb
      dsimp only at hb
      split at hb
      · cases hb
      · obtain ⟨l3, h3, e3, -, -, -, hleaf⟩ := mem_leavesOf3.mp hb
        exact (offset_leavesOf2 (mem_offsets.mp hl4) h3 hleaf).1

end Monitor
