import MemoryMonitor.Grant.Table
import MemoryMonitor.Lib.Runs

/-!
# Growing a grant table

The frames of a table: the shared ones, those of the active entries, and in
version 2 the status frames, each an array with a `NULL` where no frame has been
allocated. `gnttab_setup_table` grows the table and `gnttab_set_version` adds or
removes the status frames; each allocation can fail.

A grow that fails on a status frame is not taken back: `nr_grant_frames` has
been advanced by then, and the loops of the error path start from it.
`Step.StatusFit` is what keeps a run clear of that.
-/

namespace Grant.Frames

/-- The address of a page. -/
abbrev Page := Nat

/-- An array of pointers to frames. -/
abbrev FrameArray := Nat → Option Page

/-- The part of `struct grant_table` that holds frames. -/
structure Table where
  gtVersion : GtVersion
  nrGrantFrames : Nat
  nrStatusFrames : Nat
  shared : FrameArray
  active : FrameArray
  status : FrameArray

/-! ## Sizes -/

/-- `SHGNT_PER_PAGE_V1`, `SHGNT_PER_PAGE_V2`, `STGNT_PER_PAGE`, `ACGNT_PER_PAGE`. -/
def shgntPerPageV1 : Nat := 512
def shgntPerPageV2 : Nat := 256
def stgntPerPage : Nat := 2048
def acgntPerPage : Nat := 102

def grantToStatusFrames (grantFrames : Nat) : Nat :=
  (grantFrames * shgntPerPageV2 + stgntPerPage - 1) / stgntPerPage

/-- In `unsigned int`. -/
def numActFramesFromShaFrames (num : Nat) : Nat :=
  ((num * shgntPerPageV1) % 2 ^ 32 + (acgntPerPage - 1)) % 2 ^ 32 / acgntPerPage

def Table.nrActiveGrantFrames (t : Table) : Nat := numActFramesFromShaFrames t.nrGrantFrames

def Table.nrGrantEntries (t : Table) : Nat :=
  if t.gtVersion = .v1 then (t.nrGrantFrames * 4096) % 2 ^ 32 / 8
  else (t.nrGrantFrames * 4096) % 2 ^ 32 / 16

/-! ## Frames -/

/-- The loop that allocates `n` frames from `i` on, up to the first failure. -/
def allocFrames (alloc : FrameArray) : Nat → Nat → FrameArray → Bool × FrameArray
  | _, 0, arr => (true, arr)
  | i, n + 1, arr =>
      let arr := Function.update arr i (alloc i)
      if alloc i = none then (false, arr) else allocFrames alloc (i + 1) n arr

/-- The loop that frees `n` frames from `i` on. -/
def freeFrames : Nat → Nat → FrameArray → FrameArray
  | _, 0, arr => arr
  | i, n + 1, arr => freeFrames (i + 1) n (Function.update arr i none)

/-- What `alloc_xenheap_page` returns for each frame of each array. -/
structure GrowEnv where
  active : FrameArray
  shared : FrameArray
  status : FrameArray

def gnttabPopulateStatusFrames (alloc : FrameArray) (t : Table) : Bool × Table :=
  let req := grantToStatusFrames t.nrGrantFrames
  let out := allocFrames alloc t.nrStatusFrames (req - t.nrStatusFrames) t.status
  if out.1 then (true, { t with status := out.2, nrStatusFrames := req })
  else
    (false, { t with status := freeFrames t.nrStatusFrames (req - t.nrStatusFrames) out.2 })

def gnttabUnpopulateStatusFrames (t : Table) : Table :=
  { t with status := freeFrames 0 t.nrStatusFrames t.status, nrStatusFrames := 0 }

/-- The error path of a grow, from `active_alloc_failed` on. -/
def activeAllocFailed (req : Nat) (t : Table) : Table :=
  let n := numActFramesFromShaFrames req - t.nrActiveGrantFrames
  { t with active := freeFrames t.nrActiveGrantFrames n t.active }

/-- The same from `shared_alloc_failed` on. -/
def sharedAllocFailed (req : Nat) (t : Table) : Table :=
  activeAllocFailed req
    { t with shared := freeFrames t.nrGrantFrames (req - t.nrGrantFrames) t.shared }

def gnttabGrowTable (env : GrowEnv) (req : Nat) (t : Table) : Bool × Table :=
  let act := allocFrames env.active t.nrActiveGrantFrames
    (numActFramesFromShaFrames req - t.nrActiveGrantFrames) t.active
  let t := { t with active := act.2 }
  if act.1 = false then (false, activeAllocFailed req t)
  else
    let sha := allocFrames env.shared t.nrGrantFrames (req - t.nrGrantFrames) t.shared
    let t := { t with shared := sha.2 }
    if sha.1 = false then (false, sharedAllocFailed req t)
    else
      let t := { t with nrGrantFrames := req }
      if t.gtVersion = .v2 then
        let st := gnttabPopulateStatusFrames env.status t
        if st.1 then (true, st.2) else (false, sharedAllocFailed req st.2)
      else (true, t)

/-! ## The operations -/

/-- `grant_table_create`, as far as it concerns the frames; `none` if an
allocation fails. -/
def grantTableCreate (env : GrowEnv) : Option Table :=
  let act := allocFrames env.active 0 (numActFramesFromShaFrames 4) fun _ => none
  let sha := allocFrames env.shared 0 4 fun _ => none
  if act.1 ∧ sha.1 then some ⟨.unset, 4, 0, sha.2, act.2, fun _ => none⟩ else none

/-- `gnttab_setup_table` on a domain; `refused` is the outcome of the lookup of
the domain and of the permission checks. -/
def gnttabSetupTable (maxFrames : Nat) (refused : Option Gntst) (env : GrowEnv) (nrFrames : Nat)
    (t : Table) : Gntst × Table :=
  if maxFrames < nrFrames then (.generalError, t)
  else
    match refused with
    | some status => (status, t)
    | none =>
        let t := if t.gtVersion = .unset then { t with gtVersion := .v1 } else t
        if t.nrGrantFrames < nrFrames ∨
            (t.gtVersion = .v2 ∧ t.nrStatusFrames < grantToStatusFrames nrFrames) then
          let out := gnttabGrowTable env nrFrames t
          (if out.1 then .okay else .generalError, out.2)
        else (.okay, t)

/-- The errors of `gnttab_set_version`. -/
inductive VersionError where
  | einval | ebusy | enomem

/-- `gnttab_set_version`; `inUse` is whether an entry is found pinned. -/
def gnttabSetVersion (inUse : Bool) (alloc : FrameArray) (version : Nat) (t : Table) :
    Except VersionError Unit × Table :=
  match version with
  | 1 =>
      if t.gtVersion = .v1 then (.ok (), t)
      else if t.gtVersion ≠ .unset ∧ inUse then (.error .ebusy, t)
      else
        let t := if t.gtVersion = .v2 then gnttabUnpopulateStatusFrames t else t
        (.ok (), { t with gtVersion := .v1 })
  | 2 =>
      if t.gtVersion = .v2 then (.ok (), t)
      else if t.gtVersion ≠ .unset ∧ inUse then (.error .ebusy, t)
      else
        let out := gnttabPopulateStatusFrames alloc t
        if out.1 then (.ok (), { out.2 with gtVersion := .v2 }) else (.error .enomem, out.2)
  | _ => (.error .einval, t)

/-- One operation on the table, with the outcomes of its calls. -/
inductive Step where
  | setupTable (refused : Option Gntst) (env : GrowEnv) (nrFrames : Nat)
  | setVersion (inUse : Bool) (alloc : FrameArray) (version : Nat)

def Step.run (maxFrames : Nat) : Step → Table → Table
  | .setupTable refused env nrFrames, t => (gnttabSetupTable maxFrames refused env nrFrames t).2
  | .setVersion inUse alloc version, t => (gnttabSetVersion inUse alloc version t).2

/-- The operation reports a failure. -/
def Step.Fails (maxFrames : Nat) : Step → Table → Prop
  | .setupTable refused env nrFrames, t =>
      (gnttabSetupTable maxFrames refused env nrFrames t).1 ≠ .okay
  | .setVersion inUse alloc version, t =>
      ∃ e, (gnttabSetVersion inUse alloc version t).1 = .error e

/-! ## The loops -/

section Loops

variable {alloc arr : FrameArray} {i n j : Nat}

theorem freeFrames_apply (i n : Nat) (arr : FrameArray) (j : Nat) :
    freeFrames i n arr j = if i ≤ j ∧ j < i + n then none else arr j := by
  induction n generalizing i arr with
  | zero =>
      rw [if_neg (by omega)]
      rfl
  | succ n ih =>
      rw [freeFrames, ih]
      by_cases hj : j = i
      · subst hj
        rw [if_neg (by omega), if_pos (by omega), Function.update_self]
      · rw [Function.update_of_ne hj]
        by_cases hin : i ≤ j ∧ j < i + (n + 1)
        · rw [if_pos (by omega), if_pos hin]
        · rw [if_neg (by omega), if_neg hin]

/-- The loop succeeds exactly if every allocation does. -/
theorem allocFrames_fst (alloc : FrameArray) (i n : Nat) (arr : FrameArray) :
    (allocFrames alloc i n arr).1 = true ↔ ∀ j, i ≤ j → j < i + n → alloc j ≠ none := by
  induction n generalizing i arr with
  | zero =>
      constructor
      · intro _ j h1 h2
        omega
      · exact fun _ => rfl
  | succ n ih =>
      rw [allocFrames]
      split
      · next hfail =>
          constructor
          · intro hbad
            cases hbad
          · intro hall
            exact absurd hfail (hall i le_rfl (by omega))
      · next hok =>
          rw [ih]
          constructor
          · intro hall j h1 h2
            by_cases hj : j = i
            · rw [hj]
              exact hok
            · exact hall j (by omega) (by omega)
          · exact fun hall j h1 h2 => hall j (by omega) (by omega)

/-- It leaves the rest of the array alone. -/
theorem allocFrames_outside (alloc : FrameArray) (i n : Nat) (arr : FrameArray)
    (hj : ¬ (i ≤ j ∧ j < i + n)) : (allocFrames alloc i n arr).2 j = arr j := by
  induction n generalizing i arr with
  | zero => rfl
  | succ n ih =>
      have hne : j ≠ i := by omega
      rw [allocFrames]
      split
      · exact Function.update_of_ne hne _ _
      · rw [ih _ _ (by omega)]
        exact Function.update_of_ne hne _ _

/-- What it leaves when it succeeds. -/
theorem allocFrames_inside (h : (allocFrames alloc i n arr).1 = true) (hj : i ≤ j ∧ j < i + n) :
    (allocFrames alloc i n arr).2 j = alloc j := by
  induction n generalizing i arr with
  | zero => omega
  | succ n ih =>
      rw [allocFrames] at h ⊢
      split at h
      · cases h
      · next hok =>
          rw [if_neg hok]
          by_cases hji : j = i
          · subst hji
            rw [allocFrames_outside _ _ _ _ (by omega), Function.update_self]
          · exact ih h (by omega)

theorem freeFrames_allocFrames (alloc : FrameArray) {i n : Nat} {arr : FrameArray}
    (hfree : ∀ j, i ≤ j → j < i + n → arr j = none) :
    freeFrames i n (allocFrames alloc i n arr).2 = arr := by
  funext j
  rw [freeFrames_apply]
  split
  · next hin => exact (hfree j hin.1 hin.2).symm
  · next hout => exact allocFrames_outside alloc i n arr hout

end Loops

/-! ## The frames of a table -/

/-- The frames up to `n` are allocated, and no others. -/
def UpTo (n : Nat) (arr : FrameArray) : Prop := ∀ i, arr i ≠ none ↔ i < n

theorem UpTo.grow {n m : Nat} {arr alloc : FrameArray} (h : UpTo n arr) (hnm : n ≤ m)
    (hok : (allocFrames alloc n (m - n) arr).1 = true) :
    UpTo m (allocFrames alloc n (m - n) arr).2 := by
  intro j
  by_cases hj : n ≤ j ∧ j < n + (m - n)
  · rw [allocFrames_inside hok hj]
    have halloc := (allocFrames_fst alloc n (m - n) arr).mp hok j hj.1 hj.2
    exact ⟨fun _ => by omega, fun _ => halloc⟩
  · rw [allocFrames_outside _ _ _ _ hj, h j]
    omega

theorem UpTo.take_back {n m : Nat} {arr : FrameArray} (h : UpTo n arr) (alloc : FrameArray) :
    freeFrames n (m - n) (allocFrames alloc n (m - n) arr).2 = arr := by
  refine freeFrames_allocFrames alloc fun j hj _ => ?_
  by_contra hne
  have := (h j).mp hne
  omega

theorem UpTo.free {n : Nat} {arr : FrameArray} (h : UpTo n arr) :
    UpTo 0 (freeFrames 0 n arr) := by
  intro j
  rw [freeFrames_apply]
  split
  · simp
  · rw [h j]
    omega

/-- The table is as large as its counters say. -/
structure Sound (t : Table) : Prop where
  shared : UpTo t.nrGrantFrames t.shared
  active : UpTo t.nrActiveGrantFrames t.active
  status : UpTo t.nrStatusFrames t.status
  nrStatus : t.nrStatusFrames =
    if t.gtVersion = .v2 then grantToStatusFrames t.nrGrantFrames else 0
  /-- No product of the size computations overflows. -/
  small : t.nrGrantFrames < 2 ^ 23

/-- Each reference has its frames. -/
def Coherent (t : Table) : Prop :=
  ∀ ref < t.nrGrantEntries,
    t.shared (ref / (if t.gtVersion = .v1 then shgntPerPageV1 else shgntPerPageV2)) ≠ none ∧
    t.active (ref / acgntPerPage) ≠ none ∧
    (t.gtVersion = .v2 → t.status (ref / stgntPerPage) ≠ none)

/-- The two tables have the same frames. -/
structure SameFrames (t t' : Table) : Prop where
  nrGrantFrames : t'.nrGrantFrames = t.nrGrantFrames
  nrStatusFrames : t'.nrStatusFrames = t.nrStatusFrames
  shared : t'.shared = t.shared
  active : t'.active = t.active
  status : t'.status = t.status

section Sound

variable {t : Table} {env : GrowEnv} {req : Nat}

theorem numAct_eq {n : Nat} (hn : n < 2 ^ 23) :
    numActFramesFromShaFrames n = (n * 512 + 101) / 102 := by
  unfold numActFramesFromShaFrames shgntPerPageV1 acgntPerPage
  rw [Nat.mod_eq_of_lt (show n * 512 < 2 ^ 32 by omega), Nat.mod_eq_of_lt (by omega)]

theorem numAct_mono {n m : Nat} (hm : m < 2 ^ 23) (h : n ≤ m) :
    numActFramesFromShaFrames n ≤ numActFramesFromShaFrames m := by
  rw [numAct_eq hm, numAct_eq (lt_of_le_of_lt h hm)]
  omega

theorem status_mono {n m : Nat} (h : n ≤ m) : grantToStatusFrames n ≤ grantToStatusFrames m := by
  unfold grantToStatusFrames shgntPerPageV2 stgntPerPage
  omega

/-- `n` entries fit into the frames that are allocated for them. -/
theorem div_lt_frames {ref n c : Nat} (hc : 0 < c) (h : ref < n) : ref / c < (n + (c - 1)) / c := by
  have hle : (ref + c) / c ≤ (n + (c - 1)) / c := Nat.div_le_div_right (by omega)
  rw [Nat.add_div_right _ hc] at hle
  exact hle

theorem Sound.coherent (h : Sound t) : Coherent t := by
  have hsmall := h.small
  intro ref href
  unfold Table.nrGrantEntries at href
  -- the active frames are counted for version 1, which has more entries
  have hactive : ref < t.nrGrantFrames * 512 → t.active (ref / acgntPerPage) ≠ none := by
    intro hlt
    refine (h.active _).mpr ?_
    rw [Table.nrActiveGrantFrames, numAct_eq hsmall]
    exact div_lt_frames (by decide) hlt
  by_cases hv1 : t.gtVersion = .v1
  · rw [if_pos hv1] at href ⊢
    refine ⟨(h.shared _).mpr ?_, hactive (by omega), fun hv2 => ?_⟩
    · exact Nat.div_lt_of_lt_mul (by rw [shgntPerPageV1]; omega)
    · rw [hv1] at hv2
      cases hv2
  · rw [if_neg hv1] at href ⊢
    refine ⟨(h.shared _).mpr ?_, hactive (by omega), fun hv2 => (h.status _).mpr ?_⟩
    · exact Nat.div_lt_of_lt_mul (by rw [shgntPerPageV2]; omega)
    · rw [h.nrStatus, if_pos hv2]
      exact div_lt_frames (by decide) (by rw [shgntPerPageV2]; omega)

/-! ## What the operations do -/

theorem populate_ok {alloc : FrameArray} (hs : UpTo t.nrStatusFrames t.status)
    (hle : t.nrStatusFrames ≤ grantToStatusFrames t.nrGrantFrames)
    (hok : (gnttabPopulateStatusFrames alloc t).1 = true) :
    ∃ status, UpTo (grantToStatusFrames t.nrGrantFrames) status ∧
      (gnttabPopulateStatusFrames alloc t).2 =
        { t with status, nrStatusFrames := grantToStatusFrames t.nrGrantFrames } := by
  unfold gnttabPopulateStatusFrames at hok ⊢
  dsimp only at hok ⊢
  split at hok
  · next halloc =>
      rw [if_pos halloc]
      exact ⟨_, hs.grow hle halloc, rfl⟩
  · cases hok

theorem populate_fail {alloc : FrameArray} (hs : UpTo t.nrStatusFrames t.status)
    (hfail : (gnttabPopulateStatusFrames alloc t).1 = false) :
    (gnttabPopulateStatusFrames alloc t).2 = t := by
  unfold gnttabPopulateStatusFrames at hfail ⊢
  dsimp only at hfail ⊢
  split at hfail
  · cases hfail
  · next halloc => rw [if_neg halloc, hs.take_back]

theorem populate_fst (alloc : FrameArray) (t : Table) :
    (gnttabPopulateStatusFrames alloc t).1 =
      (allocFrames alloc t.nrStatusFrames
        (grantToStatusFrames t.nrGrantFrames - t.nrStatusFrames) t.status).1 := by
  unfold gnttabPopulateStatusFrames
  dsimp only
  split
  · next h => rw [h]
  · next h => rw [Bool.not_eq_true] at h; rw [h]

/-- A grow of a version 2 table gets its active and shared frames, and one of the
status frames cannot be allocated. -/
def StatusFails (env : GrowEnv) (req : Nat) (t : Table) : Prop :=
  t.gtVersion = .v2 ∧
    (∀ i, t.nrActiveGrantFrames ≤ i → i < numActFramesFromShaFrames req → env.active i ≠ none) ∧
    (∀ i, t.nrGrantFrames ≤ i → i < req → env.shared i ≠ none) ∧
    ∃ i, t.nrStatusFrames ≤ i ∧ i < grantToStatusFrames req ∧ env.status i = none

theorem activeAllocFailed_eq (h : UpTo t.nrActiveGrantFrames t.active) (alloc : FrameArray) :
    activeAllocFailed req { t with active := (allocFrames alloc t.nrActiveGrantFrames
      (numActFramesFromShaFrames req - t.nrActiveGrantFrames) t.active).2 } = t := by
  have hback := h.take_back (m := numActFramesFromShaFrames req) alloc
  exact congrArg (fun active => { t with active }) hback

/-- Otherwise the grow succeeds, or leaves the table as it was. -/
theorem grow_cases (h : Sound t) (hle : t.nrGrantFrames ≤ req) (hreq : req < 2 ^ 23)
    (hfit : ¬ StatusFails env req t) :
    gnttabGrowTable env req t = (false, t) ∨
      ∃ t', gnttabGrowTable env req t = (true, t') ∧ Sound t' ∧ t'.nrGrantFrames = req := by
  have hact := numAct_mono hreq hle
  unfold gnttabGrowTable
  dsimp only
  split
  · -- an active frame
    exact Or.inl (congrArg (Prod.mk false) (activeAllocFailed_eq h.active env.active))
  · next hactive =>
      rw [Bool.not_eq_false] at hactive
      split
      · -- a shared frame
        refine Or.inl (congrArg (Prod.mk false) ?_)
        unfold sharedAllocFailed
        dsimp only
        rw [h.shared.take_back]
        exact activeAllocFailed_eq h.active env.active
      · next hshared =>
          rw [Bool.not_eq_false] at hshared
          have hA := h.active.grow hact hactive
          have hS := h.shared.grow hle hshared
          split
          · next hv2 =>
              -- the table as it stands when its status frames are added
              generalize ht : Table.mk t.gtVersion req t.nrStatusFrames
                (allocFrames env.shared t.nrGrantFrames (req - t.nrGrantFrames) t.shared).2
                (allocFrames env.active t.nrActiveGrantFrames
                  (numActFramesFromShaFrames req - t.nrActiveGrantFrames) t.active).2
                t.status = t₁
              have hstatus : UpTo t₁.nrStatusFrames t₁.status := by
                rw [← ht]
                exact h.status
              have hreq₁ : t₁.nrGrantFrames = req := by rw [← ht]
              have hnr : t₁.nrStatusFrames ≤ grantToStatusFrames t₁.nrGrantFrames := by
                rw [hreq₁, ← ht]
                dsimp only
                rw [h.nrStatus, if_pos hv2]
                exact status_mono hle
              have hok : (gnttabPopulateStatusFrames env.status t₁).1 = true := by
                rw [populate_fst, allocFrames_fst]
                intro i h1 h2 hnone
                refine hfit ⟨hv2, fun i h1 h2 => ?_, fun i h1 h2 => ?_, i, ?_, ?_, hnone⟩
                · exact (allocFrames_fst _ _ _ _).mp hactive i h1 (by omega)
                · exact (allocFrames_fst _ _ _ _).mp hshared i h1 (by omega)
                · rw [← ht] at h1
                  exact h1
                · rw [hreq₁] at h2 hnr
                  omega
              rcases populate_ok hstatus hnr hok with ⟨status, hup, heq⟩
              rw [if_pos hok]
              refine Or.inr ⟨_, rfl, ?_, ?_⟩
              · rw [heq, ← ht]
                rw [hreq₁] at hup
                exact ⟨hS, hA, hup, (if_pos hv2).symm, hreq⟩
              · rw [heq]
                exact hreq₁
          · next hv2 =>
              refine Or.inr ⟨_, rfl, ⟨hS, hA, h.status, ?_, hreq⟩, rfl⟩
              have hnr := h.nrStatus
              rw [if_neg hv2] at hnr
              exact hnr.trans (if_neg hv2).symm

end Sound

/-! ## Runs -/

/-- The step does not fail on a status frame of a grow. -/
def Step.StatusFit (maxFrames : Nat) : Step → Table → Prop
  | .setupTable refused env nrFrames, t =>
      nrFrames ≤ maxFrames → refused = none → ¬ StatusFails env nrFrames t
  | .setVersion .., _ => True

/-- What a step does to the frames: the table does not get smaller, and keeps all
its frames if the step fails. -/
structure Step.Keeps (maxFrames : Nat) (step : Step) (t : Table) : Prop where
  grows : t.nrGrantFrames ≤ (step.run maxFrames t).nrGrantFrames
  taken_back : step.Fails maxFrames t → SameFrames t (step.run maxFrames t)

section Runs

variable {maxFrames : Nat} {t : Table}

theorem sameFrames_refl (t : Table) : SameFrames t t := ⟨rfl, rfl, rfl, rfl, rfl⟩

theorem grantTableCreate_sound {env : GrowEnv} (h : grantTableCreate env = some t) :
    Sound t := by
  unfold grantTableCreate at h
  dsimp only at h
  split at h
  · next hok =>
      obtain rfl := Option.some.inj h
      have hnone : UpTo 0 (fun _ => none) := fun i => by simp
      exact ⟨hnone.grow (Nat.zero_le 4) hok.2, hnone.grow (Nat.zero_le _) hok.1, hnone, rfl,
        show 4 < 2 ^ 23 by decide⟩
  · cases h

/-- Choosing version 1 for a table that has none changes no frame. -/
theorem Sound.choose (h : Sound t) :
    Sound (if t.gtVersion = .unset then { t with gtVersion := .v1 } else t) := by
  split
  · next hunset =>
      have hnr := h.nrStatus
      rw [if_neg (by rw [hunset]; decide)] at hnr
      exact ⟨h.shared, h.active, h.status, hnr, h.small⟩
  · exact h

theorem setupTable_keeps (hmax : maxFrames < 2 ^ 23) {refused : Option Gntst} {env : GrowEnv}
    {nrFrames : Nat} (h : Sound t)
    (hfit : (Step.setupTable refused env nrFrames).StatusFit maxFrames t) :
    Sound ((Step.setupTable refused env nrFrames).run maxFrames t) ∧
      (Step.setupTable refused env nrFrames).Keeps maxFrames t := by
  have hsame : SameFrames t
      (if t.gtVersion = .unset then { t with gtVersion := .v1 } else t) := by
    split <;> exact ⟨rfl, rfl, rfl, rfl, rfl⟩
  have hchosen := h.choose
  -- what is left to show about the three parts of the call
  suffices hcall : ∀ out, gnttabSetupTable maxFrames refused env nrFrames t = out →
      Sound out.2 ∧ t.nrGrantFrames ≤ out.2.nrGrantFrames ∧
        (out.1 ≠ .okay → SameFrames t out.2) by
    rcases hcall _ rfl with ⟨hsound, hgrows, hback⟩
    exact ⟨hsound, hgrows, hback⟩
  rintro out rfl
  unfold gnttabSetupTable
  split
  · exact ⟨h, le_rfl, fun _ => sameFrames_refl t⟩
  · next hle =>
      cases hrefused : refused with
      | some status => exact ⟨h, le_rfl, fun _ => sameFrames_refl t⟩
      | none =>
          have hfails := hfit (not_lt.mp hle) hrefused
          have hfails' : ¬ StatusFails env nrFrames
              (if t.gtVersion = .unset then { t with gtVersion := .v1 } else t) := by
            split
            · rintro ⟨hbad, -⟩
              cases hbad
            · exact hfails
          dsimp only
          generalize (if t.gtVersion = .unset then { t with gtVersion := .v1 } else t) = t₁
            at hsame hchosen hfails' ⊢
          rw [← hsame.nrGrantFrames]
          split
          · next hgrow =>
              have hreq : t₁.nrGrantFrames ≤ nrFrames := by
                rcases hgrow with hlt | ⟨hv2, hstatus⟩
                · exact le_of_lt hlt
                · -- the status frames of a sound table are those of all its frames
                  by_contra hbad
                  have hnr := hchosen.nrStatus
                  rw [if_pos hv2] at hnr
                  have := status_mono (le_of_not_ge hbad)
                  omega
              rcases grow_cases hchosen hreq (by omega) hfails' with hfail | ⟨t', hok, hs, hn⟩
              · rw [hfail]
                exact ⟨hchosen, le_rfl, fun _ => hsame⟩
              · rw [hok]
                refine ⟨hs, ?_, fun hbad => absurd rfl hbad⟩
                change t₁.nrGrantFrames ≤ t'.nrGrantFrames
                rw [hn]
                exact hreq
          · exact ⟨hchosen, le_rfl, fun _ => hsame⟩

theorem setVersion_keeps {inUse : Bool} {alloc : FrameArray} {version : Nat} (h : Sound t) :
    Sound ((Step.setVersion inUse alloc version).run maxFrames t) ∧
      (Step.setVersion inUse alloc version).Keeps maxFrames t := by
  suffices hcall : ∀ out, gnttabSetVersion inUse alloc version t = out →
      Sound out.2 ∧ t.nrGrantFrames ≤ out.2.nrGrantFrames ∧
        ((∃ e, out.1 = .error e) → SameFrames t out.2) by
    rcases hcall _ rfl with ⟨hsound, hgrows, hback⟩
    exact ⟨hsound, hgrows, hback⟩
  rintro out rfl
  have hstay : ∀ (res : Except VersionError Unit), Sound (res, t).2 ∧
      t.nrGrantFrames ≤ (res, t).2.nrGrantFrames ∧
        ((∃ e, (res, t).1 = .error e) → SameFrames t (res, t).2) :=
    fun _ => ⟨h, le_rfl, fun _ => sameFrames_refl t⟩
  unfold gnttabSetVersion
  split
  · split
    · exact hstay _
    · split
      · exact hstay _
      · next hv1 _ =>
          refine ⟨?_, ?_, ?_⟩
          · dsimp only
            split
            · exact ⟨h.shared, h.active, h.status.free, rfl, h.small⟩
            · next hv2 =>
                have hnr := h.nrStatus
                rw [if_neg hv2] at hnr
                exact ⟨h.shared, h.active, h.status, hnr, h.small⟩
          · dsimp only
            split <;> exact le_rfl
          · rintro ⟨e, hbad⟩
            cases hbad
  · split
    · exact hstay _
    · split
      · exact hstay _
      · next hv2 _ =>
          have hnr := h.nrStatus
          rw [if_neg hv2] at hnr
          dsimp only
          split
          · next hok =>
              have hle : t.nrStatusFrames ≤ grantToStatusFrames t.nrGrantFrames := by
                rw [hnr]
                exact Nat.zero_le _
              rcases populate_ok h.status hle hok with ⟨status, hup, heq⟩
              rw [heq]
              refine ⟨⟨h.shared, h.active, hup, rfl, h.small⟩, le_rfl, ?_⟩
              rintro ⟨e, hbad⟩
              cases hbad
          · next hfail =>
              rw [Bool.not_eq_true] at hfail
              rw [populate_fail h.status hfail]
              exact hstay _
  · exact hstay _

/-- In every run that meets the condition, every reference has its frames in
every state, the table does not get smaller, and a step that fails leaves the
frames as they were. -/
theorem run_coherent (hmax : maxFrames < 2 ^ 23) {env : GrowEnv}
    (hcreate : grantTableCreate env = some t) {steps : List Step}
    (hfit : Runs.Each (Step.run maxFrames) (Step.StatusFit maxFrames) steps t) :
    Coherent (Runs.run (Step.run maxFrames) steps t) ∧
      Runs.Each (Step.run maxFrames) (fun step t => Coherent t ∧ step.Keeps maxFrames t) steps
        t := by
  have hstep : ∀ (step : Step) (t : Table), step.StatusFit maxFrames t → Sound t →
      Sound (step.run maxFrames t) ∧ step.Keeps maxFrames t := by
    intro step t hok h
    cases step with
    | setupTable refused env nrFrames => exact setupTable_keeps hmax h hok
    | setVersion inUse alloc version => exact setVersion_keeps h
  have hsound := grantTableCreate_sound hcreate
  constructor
  · exact (hfit.inv (fun step t hok h => (hstep step t hok h).1) hsound).coherent
  · exact hfit.of_inv (fun step t hok h => (hstep step t hok h).1)
      (fun step t hok h => ⟨h.coherent, (hstep step t hok h).2⟩) hsound

end Runs

/-! ## A grow that fails on a status frame -/

/-- Allocations that all succeed, and the same without status frames. -/
def plenty : GrowEnv := ⟨some, some, some⟩
def noStatus : GrowEnv := ⟨some, some, fun _ => none⟩

/-- The table of a new domain. -/
def newTable : Table where
  gtVersion := .unset
  nrGrantFrames := 4
  nrStatusFrames := 0
  shared := (allocFrames some 0 4 fun _ => none).2
  active := (allocFrames some 0 (numActFramesFromShaFrames 4) fun _ => none).2
  status := fun _ => none

theorem newTable_created : grantTableCreate plenty = some newTable := rfl

/-- A run through both versions, with a grow in each. -/
theorem run_coherent_versions :
    Coherent (Runs.run (Step.run 32) [.setupTable none plenty 8, .setVersion false some 2,
      .setupTable none plenty 12] newTable) := by
  have hfit : Runs.Each (Step.run 32) (Step.StatusFit 32) [.setupTable none plenty 8,
      .setVersion false some 2, .setupTable none plenty 12] newTable := by
    refine ⟨?_, trivial, ?_, trivial⟩
    · rintro - - ⟨hbad, -⟩
      cases hbad
    · rintro - - ⟨-, -, -, i, -, -, hbad⟩
      cases hbad
  exact (run_coherent (by decide) newTable_created hfit).1

/-- A version 2 table of 4 frames is to grow to 12, and gets no second status
frame: it stays at 12 frames without it, and then shrinks to 9. -/
theorem failed_grow_kept :
    grantTableCreate plenty = some newTable ∧
    (Step.setupTable none noStatus 12).Fails 32 (Step.run 32 (.setVersion false some 2) newTable) ∧
    (Runs.run (Step.run 32) [.setVersion false some 2, .setupTable none noStatus 12]
      newTable).nrGrantFrames = 12 ∧
    ¬ Coherent (Runs.run (Step.run 32) [.setVersion false some 2, .setupTable none noStatus 12]
      newTable) ∧
    (Runs.run (Step.run 32) [.setVersion false some 2, .setupTable none noStatus 12,
      .setupTable none plenty 9] newTable).nrGrantFrames = 9 := by
  refine ⟨newTable_created, ?_, by decide, fun hbad => ?_, by decide⟩
  · have hstatus : (gnttabSetupTable 32 none noStatus 12
        (Step.run 32 (.setVersion false some 2) newTable)).1 = .generalError := by decide
    intro hbad
    rw [hstatus] at hbad
    cases hbad
  have hstatus := (hbad 2048 (by decide)).2.2 (by decide)
  exact hstatus (by decide)

end Grant.Frames
