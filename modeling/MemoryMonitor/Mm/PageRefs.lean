import MemoryMonitor.Lib.Packed
import MemoryMonitor.Lib.Runs
import MemoryMonitor.Lib.Totals

/-!
# References to a page

`get_page`, `page_get_owner_and_reference`, `get_page_light` and `put_page`
(`xen/arch/x86/mm.c`) on one page, by `n` CPUs in any order. The low 55 bits of
`count_info` count; a step is one compare-and-swap or one access to the owner. Whoever
owns the page may be changed at any time, and so may the other bits of `count_info`.

`get_page` takes a reference first and looks at the owner then. If it reads that there is
no owner it does not give the reference back: `leaked` counts those.
-/

namespace Mm.PageRefs

/-- `PGC_count_mask`. -/
def pgcCountMask : BitVec 64 := 0x7FFFFFFFFFFFFF

/-- What is called: `get_page` for a domain, or `page_get_owner_and_reference`. -/
inductive Get where
  | page (domain : Nat)
  | ownerAndReference
  deriving DecidableEq

/-- Whose reference `put_page` gives back. -/
inductive Drop where
  | held | light | failedGet
  deriving DecidableEq

/-- Where a CPU is, before its next operation. -/
inductive Pc where
  | idle
  /-- Before the swap, with the word that was seen. -/
  | take (g : Get) (y : BitVec 64)
  | readOwner (g : Get)
  | light (y : BitVec 64)
  /-- `get_page` calls `put_page`. -/
  | putRead
  | put (d : Drop) (y : BitVec 64)
  /-- The count is zero. -/
  | finish
  deriving DecidableEq

/-- The reference of `get_page_light`, and the CPU that takes or drops it: it can be taken
again only when it is gone. -/
inductive Light where
  | absent
  | taking (i : Nat)
  | held
  | dropping (i : Nat)
  deriving DecidableEq

/-- `refs` and `light` are the references that callers have, and `leaked` those that nobody
has. `flags` are the other bits of `countInfo` as they were last set, and `last` is the CPU
that has dropped the last reference. -/
structure State where
  countInfo : BitVec 64
  owner : Option Nat
  pc : Nat → Pc
  bug : Bool
  refs : Nat
  light : Light
  leaked : Nat
  flags : Nat
  last : Option Nat
  /-- How often the page went to `free_domheap_page`, and how often it was given up since
  `cleanup_page_cacheattr` failed. -/
  freed : Nat
  lost : Nat

/-- A page that has been allocated: one reference, and any flags. -/
def State.init (flags : BitVec 9) (owner : Option Nat) : State where
  countInfo := flags ++ 1#55
  owner := owner
  pc _ := .idle
  bug := false
  refs := 1
  light := .absent
  leaked := 0
  flags := flags.toNat
  last := none
  freed := 0
  lost := 0

namespace State

def goto (s : State) (i : Nat) (p : Pc) : State := { s with pc := Function.update s.pc i p }

/-- The next operation of CPU `i`; `cleanup` is whether `cleanup_page_cacheattr` succeeds. -/
def advance (s : State) (i : Nat) (cleanup : Bool) : State :=
  match s.pc i with
  | .idle => s
  | .take g x =>
      if ((x + 2) &&& pgcCountMask) ≤ 2 then s.goto i .idle
      else if s.countInfo = x then { s.goto i (.readOwner g) with countInfo := x + 1 }
      else s.goto i (.take g s.countInfo)
  | .readOwner g =>
      match s.owner, g with
      | none, _ => { s.goto i .idle with leaked := s.leaked + 1 }
      | some _, .ownerAndReference => { s.goto i .idle with refs := s.refs + 1 }
      | some owner, .page domain =>
          if owner = domain then { s.goto i .idle with refs := s.refs + 1 } else s.goto i .putRead
  | .light x =>
      if x &&& pgcCountMask = 0 ∨ (x + 1) &&& pgcCountMask = 0 then { s with bug := true }
      else if s.countInfo = x then
        { s.goto i .idle with countInfo := x + 1, refs := s.refs + 1, light := .held }
      else s.goto i (.light s.countInfo)
  | .putRead => s.goto i (.put .failedGet s.countInfo)
  | .put d x =>
      if s.countInfo = x then
        let s :=
          { s with
            countInfo := x - 1
            light := if d = Drop.light then .absent else s.light }
        if (x - 1) &&& pgcCountMask = 0 then { s.goto i .finish with last := some i }
        else s.goto i .idle
      else s.goto i (.put d s.countInfo)
  | .finish =>
      if cleanup then { s.goto i .idle with freed := s.freed + 1 }
      else { s.goto i .idle with lost := s.lost + 1 }

end State

/-- What happens next. A put gives back a reference that the caller has. The caller of
`get_page_light` has one too, and keeps it meanwhile. -/
inductive Step where
  | get (i : Nat) (g : Get)
  | getPageLight (i : Nat)
  | putPage (i : Nat)
  | putLight (i : Nat)
  | next (i : Nat) (cleanup : Bool)
  | setOwner (owner : Option Nat)
  | setFlags (flags : BitVec 9)

/-- One step of one of the `n` CPUs. -/
def act (n : Nat) (step : Step) (s : State) : State :=
  match step with
  | .get i g => if i < n ∧ s.pc i = .idle then s.goto i (.take g s.countInfo) else s
  | .getPageLight i =>
      if i < n ∧ s.pc i = .idle ∧ 0 < s.refs ∧ s.light = .absent then
        { s.goto i (.light s.countInfo) with refs := s.refs - 1, light := .taking i }
      else s
  | .putPage i =>
      if i < n ∧ s.pc i = .idle ∧ 0 < s.refs then
        { s.goto i (.put .held s.countInfo) with refs := s.refs - 1 }
      else s
  | .putLight i =>
      if i < n ∧ s.pc i = .idle ∧ s.light = .held then
        { s.goto i (.put .light s.countInfo) with light := .dropping i }
      else s
  | .next i cleanup => if i < n then s.advance i cleanup else s
  | .setOwner owner => { s with owner := owner }
  | .setFlags flags =>
      { s with
        countInfo := BitVec.ofNat 64 (2 ^ 55 * flags.toNat + Packed.count 55 s.countInfo)
        flags := flags.toNat }

/-! ## The property -/

/-- The references a CPU has while its call is under way. -/
def Pc.temp : Pc → Nat
  | .idle | .take .. | .finish => 0
  | .readOwner _ | .light _ | .putRead | .put .. => 1

/-- The reference of `get_page_light`, when it is there and not on its way out. -/
def Light.toNat (l : Light) : Nat := if l = .held then 1 else 0

/-- The references that are counted. -/
def State.outstanding (n : Nat) (s : State) : Nat :=
  s.refs + s.light.toNat + s.leaked + ∑ i ∈ Finset.range n, (s.pc i).temp

structure Counted (n : Nat) (s : State) : Prop where
  noBug : s.bug = false
  /-- The count is the number of references, and the flags are as they were set. -/
  count : Packed.count 55 s.countInfo = s.outstanding n
  flags : Packed.flags 55 s.countInfo = s.flags
  /-- The page is freed at most once, and not before the last reference is gone. -/
  once : s.freed + s.lost ≤ 1
  last : 0 < s.freed + s.lost → s.outstanding n = 0
  /-- Who has dropped the last reference has freed the page, or is about to, unless the
  cache attributes could not be reset. -/
  frees : s.outstanding n = 0 → s.freed + s.lost = 1 ∨ ∃ i, s.pc i = .finish

/-! ## The invariant -/

section Words

variable {x : BitVec 64}

theorem pgcCountMask_toNat : pgcCountMask.toNat = 2 ^ 55 - 1 := rfl

/-- The values that `page_get_owner_and_reference` refuses: 0, -1 and -2. -/
theorem refused_iff : (x + 2) &&& pgcCountMask ≤ 2 ↔
    Packed.count 55 x = 0 ∨ 2 ^ 55 - 2 ≤ Packed.count 55 x := by
  have htwo : (2 : BitVec 64).toNat = 2 := rfl
  rw [BitVec.le_def, Packed.toNat_and_mask pgcCountMask_toNat, htwo]
  unfold Packed.count
  rw [BitVec.toNat_add, htwo]
  have := x.isLt
  omega

theorem add_one (h : Packed.count 55 x + 1 < 2 ^ 55) :
    Packed.count 55 (x + 1) = Packed.count 55 x + 1 ∧
      Packed.flags 55 (x + 1) = Packed.flags 55 x :=
  Packed.add_one (by decide) (by decide) h

theorem sub_one (h : 0 < Packed.count 55 x) :
    Packed.count 55 (x - 1) = Packed.count 55 x - 1 ∧
      Packed.flags 55 (x - 1) = Packed.flags 55 x :=
  Packed.sub_one (by decide) h

end Words

/-- The reference of `get_page_light` is counted. -/
def Light.Counted : Light → Prop
  | .absent | .taking _ => False
  | .held | .dropping _ => True

/-- The word can be counted up by `get_page_light`. -/
def Roomy (x : BitVec 64) : Prop := 0 < Packed.count 55 x ∧ Packed.count 55 x + 1 < 2 ^ 55

/-- What CPU `i` relies on. -/
def State.Here (s : State) (i : Nat) : Prop :=
  match s.pc i with
  | .light x => s.light = .taking i ∧ Roomy x
  | .put .light _ => s.light = .dropping i
  | .finish => s.last = some i ∧ s.freed = 0 ∧ s.lost = 0
  | _ => True

structure Inv (n : Nat) (s : State) : Prop where
  noBug : s.bug = false
  count : Packed.count 55 s.countInfo = s.outstanding n
  flags : Packed.flags 55 s.countInfo = s.flags
  /-- One reference is left for `get_page_light`. -/
  bound : s.outstanding n + 1 < 2 ^ 55 ∨ s.light.Counted ∧ s.outstanding n < 2 ^ 55
  here : ∀ i, s.Here i
  alive : s.last = none → 0 < s.outstanding n ∧ s.freed = 0 ∧ s.lost = 0
  spent : s.last ≠ none → s.outstanding n = 0
  once : s.freed + s.lost ≤ 1
  frees : ∀ i, s.last = some i → s.freed + s.lost = 1 ∨ s.pc i = .finish

variable {n i j : Nat} {s s' : State} {p : Pc}

theorem Inv.counted (h : Inv n s) : Counted n s := by
  refine ⟨h.noBug, h.count, h.flags, h.once, fun hpos => h.spent fun hl => ?_, fun h0 => ?_⟩
  · have := h.alive hl
    omega
  · cases hl : s.last with
    | none =>
      have := h.alive hl
      omega
    | some i => exact (h.frees i hl).imp_right fun hp => ⟨i, hp⟩

theorem Inv.last_none (h : Inv n s) (hpos : 0 < s.outstanding n) : s.last = none := by
  by_contra hl
  have := h.spent hl
  omega

/-- The references when CPU `i` moves on. -/
theorem outstanding_goto (hi : i < n) (hpc : s'.pc = Function.update s.pc i p) :
    s'.outstanding n + (s.refs + s.light.toNat + s.leaked + (s.pc i).temp)
      = s.outstanding n + (s'.refs + s'.light.toNat + s'.leaked + p.temp) := by
  have hsum := Totals.sum_update (Finset.mem_range.mpr hi) s.pc p fun _ q => q.temp
  unfold State.outstanding
  rw [hpc]
  omega

/-- The step of CPU `i` leaves the others alone. -/
structure Quiet (i : Nat) (p : Pc) (s s' : State) : Prop where
  pc : s'.pc = Function.update s.pc i p
  taking : ∀ j, j ≠ i → s.light = .taking j → s'.light = .taking j
  dropping : ∀ j, j ≠ i → s.light = .dropping j → s'.light = .dropping j
  last : ∀ j, j ≠ i → s.last = some j →
    s'.last = some j ∧ s'.freed = s.freed ∧ s'.lost = s.lost

theorem Quiet.self (q : Quiet i p s s') : s'.pc i = p := by
  rw [q.pc]
  exact Function.update_self ..

theorem Quiet.other (q : Quiet i p s s') (hj : j ≠ i) : s'.pc j = s.pc j := by
  rw [q.pc]
  exact Function.update_of_ne hj ..

theorem Quiet.here (q : Quiet i p s s') (h : ∀ j, s.Here j) (hi : s'.Here i) (j : Nat) :
    s'.Here j := by
  by_cases hj : j = i
  · rw [hj]
    exact hi
  · have hh := h j
    unfold State.Here at hh ⊢
    rw [q.other hj]
    cases hp : s.pc j with
    | light x =>
      rw [hp] at hh
      exact ⟨q.taking j hj hh.1, hh.2⟩
    | put d x =>
      rw [hp] at hh
      cases d with
      | light => exact q.dropping j hj hh
      | held => trivial
      | failedGet => trivial
    | finish =>
      rw [hp] at hh
      rcases q.last j hj hh.1 with ⟨hl, hf, hlo⟩
      exact ⟨hl, hf.trans hh.2.1, hlo.trans hh.2.2⟩
    | idle => trivial
    | take g x => trivial
    | readOwner g => trivial
    | putRead => trivial

theorem Quiet.goto : Quiet i p s (s.goto i p) :=
  ⟨rfl, fun _ _ hl => hl, fun _ _ hl => hl, fun _ _ hl => ⟨hl, rfl, rfl⟩⟩

theorem Inv.same (h : Inv n s) (q : Quiet i p s s') (hi : i < n) (hhere : s'.Here i)
    (hbal : s'.refs + s'.light.toNat + s'.leaked + p.temp
      = s.refs + s.light.toNat + s.leaked + (s.pc i).temp)
    (hlight : s.light.Counted → s'.light.Counted) (hfin : s.pc i ≠ .finish)
    (hsame : (s'.countInfo, s'.bug, s'.flags, s'.last, s'.freed, s'.lost)
      = (s.countInfo, s.bug, s.flags, s.last, s.freed, s.lost)) : Inv n s' := by
  simp only [Prod.mk.injEq] at hsame
  rcases hsame with ⟨hci, hbug, hfl, hla, hfr, hlo⟩
  have hout : s'.outstanding n = s.outstanding n := by
    have := outstanding_goto hi q.pc
    omega
  refine ⟨hbug.trans h.noBug, ?_, ?_, ?_, q.here h.here hhere, ?_, ?_, ?_, fun k hk => ?_⟩
  · rw [hci, hout]
    exact h.count
  · rw [hci, hfl]
    exact h.flags
  · rw [hout]
    exact h.bound.imp_right fun hb => ⟨hlight hb.1, hb.2⟩
  · rw [hla, hout, hfr, hlo]
    exact h.alive
  · rw [hla, hout]
    exact h.spent
  · rw [hfr, hlo]
    exact h.once
  · rw [hla] at hk
    rw [hfr, hlo]
    refine (h.frees k hk).imp_right fun hp => ?_
    have hki : k ≠ i := by
      rintro rfl
      exact hfin hp
    rw [q.other hki]
    exact hp

/-- A reference is added. -/
theorem Inv.inc (h : Inv n s) (q : Quiet i p s s') (hi : i < n) (hhere : s'.Here i)
    (hbal : s'.refs + s'.light.toNat + s'.leaked + p.temp
      = s.refs + s.light.toNat + s.leaked + (s.pc i).temp + 1)
    (hpos : 0 < s.outstanding n) (hci : s'.countInfo = s.countInfo + 1)
    (hbound : s.outstanding n + 2 < 2 ^ 55 ∨ s'.light.Counted ∧ s.outstanding n + 1 < 2 ^ 55)
    (hsame : (s'.bug, s'.flags, s'.last, s'.freed, s'.lost)
      = (s.bug, s.flags, s.last, s.freed, s.lost)) : Inv n s' := by
  simp only [Prod.mk.injEq] at hsame
  rcases hsame with ⟨hbug, hfl, hla, hfr, hlo⟩
  have hout : s'.outstanding n = s.outstanding n + 1 := by
    have := outstanding_goto hi q.pc
    omega
  have hadd := add_one (x := s.countInfo) (by rw [h.count]; omega)
  have hnone := h.last_none (by omega)
  refine ⟨hbug.trans h.noBug, ?_, ?_, ?_, q.here h.here hhere, fun _ => ?_, fun hl => ?_, ?_,
    fun k hk => ?_⟩
  · rw [hci, hadd.1, h.count, hout]
  · rw [hci, hadd.2, hfl]
    exact h.flags
  · rw [hout]
    omega
  · rw [hout, hfr, hlo]
    exact ⟨Nat.succ_pos _, (h.alive hnone).2⟩
  · exact absurd (hla.trans hnone) hl
  · rw [hfr, hlo]
    exact h.once
  · rw [hla, hnone] at hk
    cases hk

/-- A reference is dropped, not the last one. -/
theorem Inv.dec (h : Inv n s) (q : Quiet i p s s') (hi : i < n) (hhere : s'.Here i)
    (hbal : s'.refs + s'.light.toNat + s'.leaked + p.temp + 1
      = s.refs + s.light.toNat + s.leaked + (s.pc i).temp)
    (hci : s'.countInfo = s.countInfo - 1) (hpos : 1 < s.outstanding n)
    (hsame : (s'.bug, s'.flags, s'.last, s'.freed, s'.lost)
      = (s.bug, s.flags, s.last, s.freed, s.lost)) : Inv n s' := by
  simp only [Prod.mk.injEq] at hsame
  rcases hsame with ⟨hbug, hfl, hla, hfr, hlo⟩
  have hout : s'.outstanding n + 1 = s.outstanding n := by
    have := outstanding_goto hi q.pc
    omega
  have hsub := sub_one (x := s.countInfo) (by rw [h.count]; omega)
  have hnone := h.last_none (by omega)
  refine ⟨hbug.trans h.noBug, ?_, ?_, .inl ?_, q.here h.here hhere, fun _ => ?_, fun hl => ?_, ?_,
    fun k hk => ?_⟩
  · rw [hci, hsub.1, h.count]
    omega
  · rw [hci, hsub.2, hfl]
    exact h.flags
  · have := h.bound
    omega
  · rw [hfr, hlo]
    exact ⟨by omega, (h.alive hnone).2⟩
  · exact absurd (hla.trans hnone) hl
  · rw [hfr, hlo]
    exact h.once
  · rw [hla, hnone] at hk
    cases hk

/-- The last reference is dropped. -/
theorem Inv.decLast (h : Inv n s) (q : Quiet i .finish s s') (hi : i < n)
    (hbal : s'.refs + s'.light.toNat + s'.leaked + 1
      = s.refs + s.light.toNat + s.leaked + (s.pc i).temp)
    (hci : s'.countInfo = s.countInfo - 1) (hone : s.outstanding n = 1) (hla : s'.last = some i)
    (hsame : (s'.bug, s'.flags, s'.freed, s'.lost) = (s.bug, s.flags, s.freed, s.lost)) :
    Inv n s' := by
  simp only [Prod.mk.injEq] at hsame
  rcases hsame with ⟨hbug, hfl, hfr, hlo⟩
  have hout : s'.outstanding n = 0 := by
    have := outstanding_goto hi q.pc
    have ht : Pc.finish.temp = 0 := rfl
    omega
  have hsub := sub_one (x := s.countInfo) (by rw [h.count]; omega)
  have hnone := h.last_none (by omega)
  rcases h.alive hnone with ⟨-, hf0, hl0⟩
  refine ⟨hbug.trans h.noBug, ?_, ?_, .inl ?_, q.here h.here ?_, fun hl => ?_, fun _ => hout, ?_,
    fun k hk => ?_⟩
  · rw [hci, hsub.1, h.count]
    omega
  · rw [hci, hsub.2, hfl]
    exact h.flags
  · rw [hout]
    decide
  · unfold State.Here
    rw [q.self]
    exact ⟨hla, hfr.trans hf0, hlo.trans hl0⟩
  · rw [hla] at hl
    nomatch hl
  · omega
  · rw [hla] at hk
    obtain rfl := Option.some.inj hk
    exact .inr q.self

/-- The page goes to `free_domheap_page`, or is given up. -/
theorem Inv.finish (h : Inv n s) (hi : i < n) (hp : s.pc i = .finish) (hpc : s'.pc = Function.update s.pc i .idle)
    (hone : s'.freed + s'.lost = 1)
    (hsame : (s'.countInfo, s'.bug, s'.flags, s'.last, s'.refs, s'.light, s'.leaked)
      = (s.countInfo, s.bug, s.flags, s.last, s.refs, s.light, s.leaked)) : Inv n s' := by
  simp only [Prod.mk.injEq] at hsame
  rcases hsame with ⟨hci, hbug, hfl, hla, href, hli, hlk⟩
  have hh := h.here i
  unfold State.Here at hh
  rw [hp] at hh
  have hout : s'.outstanding n = s.outstanding n := by
    have hgo := outstanding_goto hi hpc
    have ht : (s.pc i).temp = Pc.idle.temp := by
      rw [hp]
      rfl
    rw [href, hli, hlk, ht] at hgo
    omega
  have q : Quiet i .idle s s' := by
    refine ⟨hpc, fun j _ hl => hli.trans hl, fun j _ hl => hli.trans hl, fun j hj hl => ?_⟩
    rw [hh.1] at hl
    exact absurd (Option.some.inj hl).symm hj
  refine ⟨hbug.trans h.noBug, ?_, ?_, ?_, q.here h.here ?_, fun hl => ?_, ?_, hone.le, fun k _ => .inl hone⟩
  · rw [hci, hout]
    exact h.count
  · rw [hci, hfl]
    exact h.flags
  · rw [hout, hli]
    exact h.bound
  · unfold State.Here
    rw [q.self]
    trivial
  · rw [hla, hh.1] at hl
    nomatch hl
  · rw [hla, hout]
    exact h.spent

/-! ## Steps -/

/-- A call that is over relies on nothing, nor does one that takes a reference. -/
theorem State.here_of (hpc : s.pc i = p) (hp : (∀ x, p ≠ .light x) ∧ (∀ x, p ≠ .put .light x) ∧ p ≠ .finish) :
    s.Here i := by
  unfold State.Here
  rw [hpc]
  cases p with
  | light x => exact absurd rfl (hp.1 x)
  | put d x =>
    cases d with
    | light => exact absurd rfl (hp.2.1 x)
    | held => exact True.intro
    | failedGet => exact True.intro
  | finish => exact absurd rfl hp.2.2
  | idle => exact True.intro
  | take g x => exact True.intro
  | readOwner g => exact True.intro
  | putRead => exact True.intro

/-- A CPU moves on with the references that it has. -/
theorem Inv.goto (h : Inv n s) (hi : i < n) {old : Pc} (hp : s.pc i = old) (hhere : (s.goto i p).Here i)
    (htemp : p.temp = old.temp) (hfin : old ≠ .finish) : Inv n (s.goto i p) := by
  rw [← hp] at htemp hfin
  refine h.same .goto hi hhere ?_ id hfin rfl
  rw [htemp]
  rfl

/-- A CPU with a reference of its own is counted. -/
theorem Inv.temp_pos (hi : i < n) (ht : 0 < (s.pc i).temp) : 0 < s.outstanding n := by
  have hle := Finset.single_le_sum (f := fun j => (s.pc j).temp) (fun _ _ => Nat.zero_le _)
    (Finset.mem_range.mpr hi)
  unfold State.outstanding
  omega

theorem Inv.advance (h : Inv n s) (hi : i < n) (cleanup : Bool) : Inv n (s.advance i cleanup) := by
  have hh := h.here i
  unfold State.Here at hh
  unfold State.advance
  cases hp : s.pc i with
  | idle => exact h
  | take g x =>
    have hback : Inv n (s.goto i .idle) := by
      exact h.goto hi hp (State.here_of Quiet.goto.self ⟨nofun, nofun, nofun⟩) rfl nofun
    dsimp only
    split
    · exact hback
    · next hok =>
      rw [refused_iff] at hok
      split
      · next heq =>
        rw [← heq] at hok ⊢
        rw [h.count] at hok
        have q : Quiet i (.readOwner g) s { s.goto i (.readOwner g) with countInfo := s.countInfo + 1 } :=
          ⟨rfl, fun _ _ hl => hl, fun _ _ hl => hl, fun _ _ hl => ⟨hl, rfl, rfl⟩⟩
        refine h.inc q hi (State.here_of q.self ⟨nofun, nofun, nofun⟩) ?_ (by omega) rfl (.inl (by omega)) rfl
        rw [hp]
        rfl
      · exact h.goto hi hp (State.here_of Quiet.goto.self ⟨nofun, nofun, nofun⟩) rfl nofun
  | readOwner g =>
    have hfin : s.pc i ≠ .finish := by
      rw [hp]
      nofun
    -- the reference that was taken is handed over, or is nobody's
    have hmove (refs leaked : Nat) (hsum : refs + leaked = s.refs + s.leaked + 1) :
        Inv n { s.goto i .idle with refs := refs, leaked := leaked } := by
      have q : Quiet i .idle s { s.goto i .idle with refs := refs, leaked := leaked } :=
        ⟨rfl, fun _ _ hl => hl, fun _ _ hl => hl, fun _ _ hl => ⟨hl, rfl, rfl⟩⟩
      refine h.same q hi (State.here_of q.self ⟨nofun, nofun, nofun⟩) ?_ id hfin rfl
      rw [hp]
      show refs + s.light.toNat + leaked + 0 = s.refs + s.light.toNat + s.leaked + 1
      omega
    dsimp only
    split
    · exact hmove s.refs (s.leaked + 1) (by omega)
    · exact hmove (s.refs + 1) s.leaked (by omega)
    · split
      · exact hmove (s.refs + 1) s.leaked (by omega)
      · exact h.goto hi hp (State.here_of Quiet.goto.self ⟨nofun, nofun, nofun⟩) rfl nofun
  | light x =>
    rw [hp] at hh
    rcases hh with ⟨hl, hpos, hroom⟩
    have hbound : s.outstanding n + 1 < 2 ^ 55 := by
      refine h.bound.resolve_right fun hb => ?_
      rw [hl] at hb
      exact hb.1
    have hout : 0 < s.outstanding n := Inv.temp_pos hi (by rw [hp]; exact Nat.one_pos)
    have hnobug : ¬(x &&& pgcCountMask = 0 ∨ (x + 1) &&& pgcCountMask = 0) := by
      rw [Packed.and_mask_eq_zero pgcCountMask_toNat, Packed.and_mask_eq_zero pgcCountMask_toNat,
        (add_one hroom).1]
      omega
    dsimp only
    rw [if_neg hnobug]
    split
    · next heq =>
      rw [← heq]
      have q : Quiet i .idle s { s.goto i .idle with
          countInfo := s.countInfo + 1, refs := s.refs + 1, light := .held } := by
        refine ⟨rfl, fun j hj hlj => ?_, fun j hj hlj => ?_, fun _ _ hl => ⟨hl, rfl, rfl⟩⟩
        · rw [hl] at hlj
          injection hlj with hlj
          exact absurd hlj.symm hj
        · rw [hl] at hlj
          nomatch hlj
      refine h.inc q hi (State.here_of q.self ⟨nofun, nofun, nofun⟩) ?_ hout rfl (.inr ⟨trivial, hbound⟩) rfl
      rw [hp, hl]
      show s.refs + 1 + 1 + s.leaked + 0 = s.refs + 0 + s.leaked + 1 + 1
      omega
    · refine h.goto hi hp ?_ rfl nofun
      unfold State.Here
      rw [Quiet.goto.self]
      refine ⟨hl, ?_, ?_⟩
      · rw [h.count]
        exact hout
      · rw [h.count]
        exact hbound
  | putRead =>
    exact h.goto hi hp (State.here_of Quiet.goto.self ⟨nofun, nofun, nofun⟩) rfl nofun
  | put d x =>
    rw [hp] at hh
    have hout : 0 < s.outstanding n := Inv.temp_pos hi (by rw [hp]; exact Nat.one_pos)
    dsimp only
    split
    · next heq =>
      rw [← heq]
      have hsub := sub_one (x := s.countInfo) (by rw [h.count]; exact hout)
      -- of the light reference nothing is left
      have hlight : (if d = Drop.light then Light.absent else s.light).toNat = s.light.toNat := by
        split
        · next hd =>
          rw [hd] at hh
          rw [show s.light = .dropping i from hh]
          rfl
        · rfl
      have hother {j : Nat} (hj : j ≠ i) {l : Light} (hlj : s.light = l)
          (hne : l = .taking j ∨ l = .dropping j) :
          (if d = Drop.light then Light.absent else s.light) = l := by
        split
        · next hd =>
          rw [hd] at hh
          rw [show s.light = .dropping i from hh] at hlj
          subst hlj
          rcases hne with hne | hne
          · nomatch hne
          · injection hne with hne
            exact absurd hne.symm hj
        · exact hlj
      split
      · next h0 =>
        rw [Packed.and_mask_eq_zero pgcCountMask_toNat, hsub.1, h.count] at h0
        refine h.decLast (i := i) ⟨rfl, fun j hj hlj => hother hj hlj (.inl rfl),
          fun j hj hlj => hother hj hlj (.inr rfl), fun j hj hlj => ?_⟩ hi ?_ rfl (by omega) rfl rfl
        · have hne := h.spent (by rw [hlj]; nofun)
          omega
        · rw [hp]
          show s.refs + (if d = Drop.light then Light.absent else s.light).toNat + s.leaked + 1 = _
          rw [hlight]
          rfl
      · next h0 =>
        rw [Packed.and_mask_eq_zero pgcCountMask_toNat, hsub.1, h.count] at h0
        have q : Quiet i .idle s (State.goto { s with
            countInfo := s.countInfo - 1
            light := if d = Drop.light then .absent else s.light } i .idle) :=
          ⟨rfl, fun j hj hlj => hother hj hlj (.inl rfl), fun j hj hlj => hother hj hlj (.inr rfl),
            fun _ _ hl => ⟨hl, rfl, rfl⟩⟩
        refine h.dec q hi (State.here_of q.self ⟨nofun, nofun, nofun⟩) ?_ rfl (by omega) rfl
        rw [hp]
        show s.refs + (if d = Drop.light then Light.absent else s.light).toNat + s.leaked + 0 + 1 = _
        rw [hlight]
        rfl
    · refine h.goto hi hp ?_ rfl nofun
      unfold State.Here
      rw [Quiet.goto.self]
      cases d with
      | light => exact hh
      | held => exact True.intro
      | failedGet => exact True.intro
  | finish =>
    rw [hp] at hh
    rcases hh with ⟨-, hf, hl⟩
    dsimp only
    split
    · refine h.finish hi hp rfl ?_ rfl
      show s.freed + 1 + s.lost = 1
      omega
    · refine h.finish hi hp rfl ?_ rfl
      show s.freed + (s.lost + 1) = 1
      omega

theorem Inv.act (h : Inv n s) (step : Step) : Inv n (act n step s) := by
  cases step with
  | get i g =>
    dsimp only [PageRefs.act]
    split
    · next hc =>
      exact h.goto hc.1 hc.2 (State.here_of Quiet.goto.self ⟨nofun, nofun, nofun⟩) rfl nofun
    · exact h
  | getPageLight i =>
    dsimp only [PageRefs.act]
    split
    · next hc =>
      rcases hc with ⟨hi, hp, hr, hl⟩
      have q : Quiet i (.light s.countInfo) s { s.goto i (.light s.countInfo) with
          refs := s.refs - 1, light := .taking i } := by
        refine ⟨rfl, fun j _ hlj => ?_, fun j _ hlj => ?_, fun _ _ hla => ⟨hla, rfl, rfl⟩⟩
        · rw [hl] at hlj
          nomatch hlj
        · rw [hl] at hlj
          nomatch hlj
      have hbound : s.outstanding n + 1 < 2 ^ 55 := by
        refine h.bound.resolve_right fun hb => ?_
        rw [hl] at hb
        exact hb.1
      have hout : 0 < s.outstanding n := by
        unfold State.outstanding
        omega
      refine h.same q hi ?_ ?_ ?_ (by rw [hp]; nofun) rfl
      · unfold State.Here
        rw [q.self]
        refine ⟨rfl, ?_, ?_⟩
        · rw [h.count]
          exact hout
        · rw [h.count]
          exact hbound
      · rw [hp, hl]
        show s.refs - 1 + 0 + s.leaked + 1 = s.refs + 0 + s.leaked + 0
        omega
      · rw [hl]
        exact False.elim
    · exact h
  | putPage i =>
    dsimp only [PageRefs.act]
    split
    · next hc =>
      rcases hc with ⟨hi, hp, hr⟩
      have q : Quiet i (.put .held s.countInfo) s { s.goto i (.put .held s.countInfo) with
          refs := s.refs - 1 } :=
        ⟨rfl, fun _ _ hl => hl, fun _ _ hl => hl, fun _ _ hla => ⟨hla, rfl, rfl⟩⟩
      refine h.same q hi (State.here_of q.self ⟨nofun, nofun, nofun⟩) ?_ id (by rw [hp]; nofun) rfl
      rw [hp]
      show s.refs - 1 + s.light.toNat + s.leaked + 1 = s.refs + s.light.toNat + s.leaked + 0
      omega
    · exact h
  | putLight i =>
    dsimp only [PageRefs.act]
    split
    · next hc =>
      rcases hc with ⟨hi, hp, hl⟩
      have q : Quiet i (.put .light s.countInfo) s { s.goto i (.put .light s.countInfo) with
          light := .dropping i } := by
        refine ⟨rfl, fun j _ hlj => ?_, fun j _ hlj => ?_, fun _ _ hla => ⟨hla, rfl, rfl⟩⟩
        · rw [hl] at hlj
          nomatch hlj
        · rw [hl] at hlj
          nomatch hlj
      refine h.same q hi ?_ ?_ (fun _ => trivial) (by rw [hp]; nofun) rfl
      · unfold State.Here
        rw [q.self]
      · rw [hp, hl]
        show s.refs + 0 + s.leaked + 1 = s.refs + 1 + s.leaked + 0
        omega
    · exact h
  | next i cleanup =>
    dsimp only [PageRefs.act]
    split
    · next hi => exact h.advance hi cleanup
    · exact h
  | setOwner owner =>
    exact ⟨h.noBug, h.count, h.flags, h.bound, h.here, h.alive, h.spent, h.once, h.frees⟩
  | setFlags flags =>
    have hlt := flags.isLt
    have hc := Packed.count_lt (k := 55) (x := s.countInfo)
    have hw : (BitVec.ofNat 64 (2 ^ 55 * flags.toNat + Packed.count 55 s.countInfo)).toNat
        = 2 ^ 55 * flags.toNat + Packed.count 55 s.countInfo := by
      rw [BitVec.toNat_ofNat, Nat.mod_eq_of_lt (by omega)]
    rcases Packed.of_toNat hc hw with ⟨hcount, hflags⟩
    refine ⟨h.noBug, hcount.trans h.count, hflags, h.bound, h.here, h.alive, h.spent, h.once, h.frees⟩

theorem Inv.init (n : Nat) (flags : BitVec 9) (owner : Option Nat) : Inv n (.init flags owner) := by
  have hsum : ∑ i ∈ Finset.range n, ((State.init flags owner).pc i).temp = 0 :=
    Finset.sum_eq_zero fun _ _ => rfl
  have hout : (State.init flags owner).outstanding n = 1 := by
    unfold State.outstanding
    rw [hsum]
    rfl
  have hw : (State.init flags owner).countInfo.toNat = 2 ^ 55 * flags.toNat + 1 := by
    show (flags ++ 1#55).toNat = _
    rw [BitVec.toNat_append, ← Nat.shiftLeft_add_eq_or_of_lt (by decide), Nat.shiftLeft_eq]
    have : (1#55).toNat = 1 := rfl
    omega
  rcases Packed.of_toNat (by decide) hw with ⟨hcount, hflags⟩
  refine ⟨rfl, ?_, hflags, .inl ?_, fun i => State.here_of rfl ⟨nofun, nofun, nofun⟩, fun _ => ?_,
    fun hl => absurd rfl hl, Nat.zero_le _, nofun⟩
  · rw [hout]
    exact hcount
  · rw [hout]
    decide
  · rw [hout]
    exact ⟨Nat.one_pos, rfl, rfl⟩

/-- Every run of any number of CPUs on an allocated page. -/
theorem run_counted (n : Nat) (flags : BitVec 9) (owner : Option Nat) (steps : List Step) :
    Counted n (Runs.run (act n) steps (.init flags owner)) :=
  Inv.counted (Runs.run_inv (I := Inv n) (fun step _ h => h.act step) steps (Inv.init n flags owner))

/-- No call is under way. -/
def State.Quiescent (n : Nat) (s : State) : Prop := ∀ i, i < n → s.pc i = .idle

instance (n : Nat) (s : State) : Decidable (s.Quiescent n) :=
  inferInstanceAs (Decidable (∀ i, i < n → s.pc i = .idle))

/-- The last reference is dropped, and the cache attributes cannot be reset: the page is not
freed. -/
theorem put_last_lost :
    ¬∀ steps, (Runs.run (act 1) steps (.init 0 (some 0))).Quiescent 1 →
      (Runs.run (act 1) steps (.init 0 (some 0))).outstanding 1 = 0 →
      (Runs.run (act 1) steps (.init 0 (some 0))).freed = 1 := by
  intro h
  have hfreed := h [.putPage 0, .next 0 false, .next 0 false] (by decide) (by decide)
  exact absurd hfreed (by decide)

end Mm.PageRefs
