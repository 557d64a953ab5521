import MemoryMonitor.Lib.RadixEntries
import MemoryMonitor.P2m.Ept

/-!
# Changing a type everywhere

`p2m_change_type_global` (`mm/p2m.c`) and `ept_change_entry_type_global`
(`mm/hap/p2m-ept.c`) walk the whole p2m and give the entries of one type another
one. Both skip entries that are not present: the former above the lowest level,
where that is a matter of the type, the latter at every level, where it is one of
the permissions. `changeTypeGlobal_exact_iff` says what this leaves out.

An entry is looked at as it stands in its table, not through a lookup, which
finds nothing where an entry is not present. A slot that was never written is an
entry of type `p2m_invalid` with frame 0.
-/

namespace P2m.TypeGlobal

open Radix

/-! ## The two walks -/

/-- What `p2m_change_type_global` does to an entry of level `k + 1`. Entries of the
lowest level are not tested for `_PAGE_PRESENT`. -/
def changeEntry (ot nt : P2mType) (k : Nat) (o : Option Table.Leaf) : Option Table.Leaf :=
  let e := o.getD ⟨0, .invalid⟩
  if 0 < k ∧ e.type.present = false then o
  else if e.type ≠ ot then o
  else some { e with type := nt }

/-- `p2m_change_type_global`, on the entries below the root. -/
def p2mChangeTypeGlobal (ot nt : P2mType) (root : Radix.Tree Table.Leaf) : Radix.Tree Table.Leaf :=
  mapEntries (changeEntry ot nt) 4 root

/-- What `ept_change_entry_type_page` does to an entry that is no table; `ro` is
`mmio_ro_ranges`. -/
def changeEpte (ro : Nat → Bool) (ot nt : P2mType) (_ : Nat) (o : Option Ept.Leaf) : Option Ept.Leaf :=
  match o with
  | none => none
  | some e =>
    if e.present ro = false then some e
    else if e.type ≠ ot then some e
    else some { e with type := nt }

/-- `ept_change_entry_type_global`. -/
def eptChangeEntryTypeGlobal (ro : Nat → Bool) (ot nt : P2mType) (root : Radix.Tree Ept.Leaf) : Radix.Tree Ept.Leaf :=
  mapEntries (changeEpte ro ot nt) 4 root

/-! ## The map of a tree -/

/-- A p2m tree: four levels of tables, with entries of at most 1GB. -/
structure P2mTree (α : Type) where
  root : Radix.Tree α
  deep : Deep 4 root
  low : ∀ gfn a, (entryAt 512 4 root gfn).2 = some a → (entryAt 512 4 root gfn).1 ≤ 2

/-- What the p2m has for a gfn. -/
structure Mapped where
  mfn : Nat
  type : P2mType
  deriving DecidableEq

/-- The entry as it stands in a slot of level `k + 1`. -/
def mappedBy {α : Type} (mfn : α → Nat) (type : α → P2mType) (gfn : Nat) : Nat × Option α → Mapped
  | (_, none) => ⟨0, .invalid⟩
  | (k, some e) => ⟨mfn e + gfn % 512 ^ k, type e⟩

def tableMap (root : Radix.Tree Table.Leaf) (gfn : Nat) : Mapped := mappedBy Table.Leaf.mfn Table.Leaf.type gfn (entryAt 512 4 root gfn)

def eptMap (root : Radix.Tree Ept.Leaf) (gfn : Nat) : Mapped := mappedBy Ept.Leaf.mfn Ept.Leaf.type gfn (entryAt 512 4 root gfn)

/-- The change that is meant. -/
def Mapped.change (ot nt : P2mType) (x : Mapped) : Mapped := if x.type = ot then { x with type := nt } else x

/-! ## What is left out -/

variable {ot nt : P2mType} {ro : Nat → Bool}

/-- The entry of a gfn is skipped by `p2m_change_type_global`. -/
def TableSkips (root : Radix.Tree Table.Leaf) (gfn : Nat) : Prop :=
  0 < (entryAt 512 4 root gfn).1 ∧ (tableMap root gfn).type.present = false

/-- It is skipped by `ept_change_entry_type_global`: there is none, or it has no
permission. -/
def EptSkips (ro : Nat → Bool) (root : Radix.Tree Ept.Leaf) (gfn : Nat) : Prop :=
  ∀ e, (entryAt 512 4 root gfn).2 = some e → e.present ro = false

theorem tableMap_change (T : P2mTree Table.Leaf) (gfn : Nat) :
    (¬ TableSkips T.root gfn → tableMap (p2mChangeTypeGlobal ot nt T.root) gfn = (tableMap T.root gfn).change ot nt) ∧
      (TableSkips T.root gfn → tableMap (p2mChangeTypeGlobal ot nt T.root) gfn = tableMap T.root gfn) := by
  unfold TableSkips tableMap p2mChangeTypeGlobal
  rw [entryAt_mapEntries 512 _ gfn 4 T.root T.deep]
  rcases entryAt 512 4 T.root gfn with ⟨k, o⟩
  have htype : (mappedBy Table.Leaf.mfn Table.Leaf.type gfn (k, o)).type = (o.getD ⟨0, .invalid⟩).type := by
    cases o <;> rfl
  unfold changeEntry Mapped.change
  dsimp only
  rw [htype]
  constructor
  · intro hno
    rw [if_neg hno]
    by_cases hot : (o.getD ⟨0, .invalid⟩).type = ot
    · rw [if_neg (not_not.mpr hot), if_pos hot]
      cases o with
      | none =>
        -- An unused slot is visited at the lowest level only.
        have hk : k = 0 := Nat.eq_zero_of_not_pos fun hpos => hno ⟨hpos, rfl⟩
        rw [hk]
        show Mapped.mk (0 + gfn % 1) nt = ⟨0, nt⟩
        rw [Nat.mod_one]
      | some e => rfl
    · rw [if_pos hot, if_neg hot]
  · intro hyes
    rw [if_pos hyes]

theorem eptMap_change (U : P2mTree Ept.Leaf) (gfn : Nat) :
    (¬ EptSkips ro U.root gfn → eptMap (eptChangeEntryTypeGlobal ro ot nt U.root) gfn = (eptMap U.root gfn).change ot nt) ∧
      (EptSkips ro U.root gfn → eptMap (eptChangeEntryTypeGlobal ro ot nt U.root) gfn = eptMap U.root gfn) := by
  unfold EptSkips eptMap eptChangeEntryTypeGlobal
  rw [entryAt_mapEntries 512 _ gfn 4 U.root U.deep]
  rcases entryAt 512 4 U.root gfn with ⟨k, o⟩
  cases o with
  | none =>
    refine ⟨fun hno => ?_, fun _ => rfl⟩
    refine (hno ?_).elim
    intro e he
    cases he
  | some e =>
    have hskips : (∀ e', some e = some e' → e'.present ro = false) ↔ e.present ro = false := by simp
    dsimp only
    rw [hskips]
    unfold changeEpte Mapped.change
    dsimp only
    constructor
    · intro hpresent
      rw [if_neg hpresent]
      by_cases hot : e.type = ot
      · have hmapped : (mappedBy Ept.Leaf.mfn Ept.Leaf.type gfn (k, some e)).type = ot := hot
        rw [if_neg (not_not.mpr hot), if_pos hmapped]
        rfl
      · have hmapped : ¬ (mappedBy Ept.Leaf.mfn Ept.Leaf.type gfn (k, some e)).type = ot := hot
        rw [if_pos hot, if_neg hmapped]
    · intro habsent
      rw [if_pos habsent]

theorem Mapped.change_eq_self_iff (x : Mapped) : x.change ot nt = x ↔ x.type = ot → ot = nt := by
  rcases x with ⟨mfn, type⟩
  unfold Mapped.change
  dsimp only
  by_cases hot : type = ot
  · rw [if_pos hot, hot]
    constructor
    · intro heq _
      injection heq with _ hnt
      exact hnt.symm
    · intro hnt
      rw [← hnt rfl]
  · rw [if_neg hot]
    exact iff_of_true rfl fun heq => (hot heq).elim

/-- A map whose skipped entries stay is the changed one if none of them had to
change. -/
theorem forall_change_iff {skips : Nat → Prop} {old new : Nat → Mapped}
    (h : ∀ gfn, (¬ skips gfn → new gfn = (old gfn).change ot nt) ∧ (skips gfn → new gfn = old gfn)) :
    (∀ gfn, new gfn = (old gfn).change ot nt) ↔ (ot ≠ nt → ∀ gfn, (old gfn).type = ot → ¬ skips gfn) := by
  constructor
  · intro hall hne gfn hot hskips
    have hsame : (old gfn).change ot nt = old gfn := (hall gfn).symm.trans ((h gfn).2 hskips)
    exact hne ((old gfn).change_eq_self_iff.mp hsame hot)
  · intro hnone gfn
    by_cases hskips : skips gfn
    · rw [(h gfn).2 hskips]
      refine ((old gfn).change_eq_self_iff.mpr ?_).symm
      intro hot
      by_contra hne
      exact hnone hne gfn hot hskips
    · exact (h gfn).1 hskips

/-! ## Both walks are exact -/

/-- Both walks change what has type `ot` and nothing else, and equal maps end equal. -/
def Exact (ro : Nat → Bool) (ot nt : P2mType) (T : P2mTree Table.Leaf) (U : P2mTree Ept.Leaf) : Prop :=
  (∀ gfn, tableMap (p2mChangeTypeGlobal ot nt T.root) gfn = (tableMap T.root gfn).change ot nt) ∧
    (∀ gfn, eptMap (eptChangeEntryTypeGlobal ro ot nt U.root) gfn = (eptMap U.root gfn).change ot nt) ∧
    ((∀ gfn, tableMap T.root gfn = eptMap U.root gfn) →
      ∀ gfn, tableMap (p2mChangeTypeGlobal ot nt T.root) gfn = eptMap (eptChangeEntryTypeGlobal ro ot nt U.root) gfn)

/-- They are as long as no entry of the old type is skipped. -/
theorem changeTypeGlobal_exact_iff (ro : Nat → Bool) (ot nt : P2mType) (T : P2mTree Table.Leaf) (U : P2mTree Ept.Leaf) :
    Exact ro ot nt T U ↔
      (ot ≠ nt → ∀ gfn, ((tableMap T.root gfn).type = ot → ¬ TableSkips T.root gfn) ∧
        ((eptMap U.root gfn).type = ot → ¬ EptSkips ro U.root gfn)) := by
  have htable : (∀ gfn, tableMap (p2mChangeTypeGlobal ot nt T.root) gfn = (tableMap T.root gfn).change ot nt) ↔ _ :=
    forall_change_iff (tableMap_change T)
  have hept : (∀ gfn, eptMap (eptChangeEntryTypeGlobal ro ot nt U.root) gfn = (eptMap U.root gfn).change ot nt) ↔ _ :=
    forall_change_iff (eptMap_change U)
  constructor
  · rintro ⟨ht, he, -⟩ hne gfn
    exact ⟨htable.mp ht hne gfn, hept.mp he hne gfn⟩
  · intro hnone
    have ht := htable.mpr fun hne gfn => (hnone hne gfn).1
    have he := hept.mpr fun hne gfn => (hnone hne gfn).2
    refine ⟨ht, he, ?_⟩
    intro hsame gfn
    rw [ht gfn, he gfn, hsame gfn]

/-! ## A paged frame -/

/-- Frame 7 everywhere, paged out. -/
def pagedTable : P2mTree Table.Leaf where
  root := .node 1 fun _ => .node 2 fun _ => .node 3 fun _ => .node 4 fun _ => .leaf ⟨7, .ramPaged⟩
  deep _ _ _ _ := trivial
  low _ _ _ := Nat.zero_le 2

def pagedEpt : P2mTree Ept.Leaf where
  root := .node 1 fun _ => .node 2 fun _ => .node 3 fun _ => .node 4 fun _ => .leaf ⟨7, .ramPaged, .rwx⟩
  deep _ _ _ _ := trivial
  low _ _ _ := Nat.zero_le 2

/-- The tables change it, the EPT does not. -/
theorem not_exact_paged : (∀ gfn, tableMap pagedTable.root gfn = eptMap pagedEpt.root gfn) ∧
    ¬ Exact (fun _ => false) .ramPaged .ramRw pagedTable pagedEpt := by
  refine ⟨fun _ => rfl, ?_⟩
  rintro ⟨-, hept, -⟩
  have hchanged := hept 0
  revert hchanged
  decide

end P2m.TypeGlobal
