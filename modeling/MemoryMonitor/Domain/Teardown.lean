import Mathlib
import MemoryMonitor.Lib.Runs

/-!
# Tearing a domain down

`get_domain` and `put_domain` (`xen/include/xen/sched.h`) with `domain_kill` and
`domain_destroy` (`xen/common/domain.c`) on one domain. Any number of CPUs take their
steps in any order; a step is one atomic operation on `refcnt`, or an access to
`is_dying`. The count can reach zero more than once, as `get_domain` may raise it again
before `domain_destroy` has swung it to `DOMAIN_DESTROYED`, and then several CPUs are
in `domain_destroy`.

`refcnt` has 32 bits and nothing keeps it from wrapping. With less than `2 ^ 32`
references it is their number, and all else follows.
-/

namespace Domain.Teardown

/-- `is_dying`. -/
inductive Dying where
  | alive | dying | dead
  deriving DecidableEq

/-- Where a CPU is, before its next operation. -/
inductive Pc where
  | idle
  /-- `get_domain` with the count it has seen. -/
  | getSwap (old : BitVec 32)
  /-- `domain_destroy`, before the `BUG_ON` and before the swap. -/
  | destroyCheck
  | destroySwap
  | unlink
  | callRcu
  /-- `domain_kill`, before `domain_relinquish_resources`, before the domain is dead,
  and before its `put_domain`. -/
  | killRelinquish
  | killDead
  | killPut
  deriving DecidableEq

/-- The references outstanding are history: `refs` of them beside the one that the
domain is created with, `own`. So is `swung`, the CPU that has set the count to
`DOMAIN_DESTROYED`, and how often the domain was unlinked and its end scheduled. -/
structure State where
  refcnt : BitVec 32
  isDying : Dying
  domctlLock : Option Nat
  pc : Nat → Pc
  bug : Bool
  refs : Nat
  own : Bool
  swung : Option Nat
  unlinked : Nat
  scheduled : Nat

/-- After `domain_create`. -/
def State.init : State where
  refcnt := 1
  isDying := .alive
  domctlLock := none
  pc _ := .idle
  bug := false
  refs := 0
  own := true
  swung := none
  unlinked := 0
  scheduled := 0

/-- `DOMAIN_DESTROYED`. -/
def domainDestroyed : BitVec 32 := 1 <<< 31

namespace State

def goto (s : State) (i : Nat) (p : Pc) : State := { s with pc := Function.update s.pc i p }

/-- The call is over, and with it the domctl that it was part of. -/
def ret (s : State) (i : Nat) : State :=
  { s.goto i .idle with domctlLock := if s.domctlLock = some i then none else s.domctlLock }

/-- `atomic_dec_and_test(&d->refcnt)`, and `domain_destroy` if it was the last. -/
def decAndTest (s : State) (i : Nat) : State :=
  let s := { s with refcnt := s.refcnt - 1 }
  if s.refcnt = 0 then s.goto i .destroyCheck else s.ret i

end State

/-- What CPU `i` does next. -/
inductive Step where
  | getDomain (i : Nat)
  /-- `get_knownalive_domain`, by a holder of a reference. -/
  | getKnownalive (i : Nat)
  | putDomain (i : Nat)
  /-- `domain_kill`; `self` is `d == current->domain`. -/
  | domainKill (i : Nat) (self : Bool)
  /-- The next operation of the call under way; `again` is whether
  `domain_relinquish_resources` returns `-EAGAIN`. -/
  | next (i : Nat) (again : Bool)

/-- The next operation of CPU `i`. -/
def State.advance (s : State) (i : Nat) (again : Bool) : State :=
  match s.pc i with
  | .idle => s
  | .getSwap old =>
      if old &&& domainDestroyed ≠ 0 then s.ret i
      else if s.refcnt = old then { s.ret i with refcnt := old + 1, refs := s.refs + 1 }
      else s.goto i (.getSwap s.refcnt)
  | .destroyCheck =>
      if s.isDying = .alive then { s with bug := true } else s.goto i .destroySwap
  | .destroySwap =>
      if s.refcnt = 0 then { s.goto i .unlink with refcnt := domainDestroyed, swung := some i }
      else s.ret i
  | .unlink => { s.goto i .callRcu with unlinked := s.unlinked + 1 }
  | .callRcu => { s.ret i with scheduled := s.scheduled + 1 }
  | .killRelinquish => if again then s.ret i else s.goto i .killDead
  | .killDead => { s.goto i .killPut with isDying := .dead }
  | .killPut => { s with own := false }.decAndTest i

/-- A put gives back a reference that is outstanding, and a domctl waits for the lock. -/
def act (step : Step) (s : State) : State :=
  match step with
  | .getDomain i => if s.pc i = .idle then s.goto i (.getSwap s.refcnt) else s
  | .getKnownalive i =>
      if s.pc i = .idle ∧ 0 < s.refs then { s with refcnt := s.refcnt + 1, refs := s.refs + 1 } else s
  | .putDomain i =>
      if s.pc i = .idle ∧ 0 < s.refs then { s with refs := s.refs - 1 }.decAndTest i else s
  | .domainKill i self =>
      if s.pc i = .idle ∧ s.domctlLock = none ∧ ¬self then
        match s.isDying with
        | .alive => { s.goto i .killRelinquish with isDying := .dying, domctlLock := some i }
        | .dying => { s.goto i .killRelinquish with domctlLock := some i }
        | .dead => s
      else s
  | .next i again => s.advance i again

/-! ## The property -/

/-- The references outstanding. -/
def State.outstanding (s : State) : Nat := s.refs + s.own.toNat

/-- CPU `i` is about to succeed with `get_domain`. -/
def State.Succeeds (s : State) (i : Nat) : Prop :=
  s.pc i = .getSwap s.refcnt ∧ s.refcnt &&& domainDestroyed = 0

/-- CPU `i` is in `domain_destroy`, before the swap. -/
def State.Destroying (s : State) (i : Nat) : Prop :=
  s.pc i = .destroyCheck ∨ s.pc i = .destroySwap

structure TornDownOnce (s : State) : Prop where
  noBug : s.bug = false
  once : s.unlinked ≤ 1 ∧ s.scheduled ≤ s.unlinked
  /-- Not before the domain is dead and all references have been put. -/
  last : s.swung ≠ none → s.isDying = .dead ∧ s.outstanding = 0
  unlinked : 0 < s.unlinked → s.swung ≠ none
  /-- `get_domain` fails from then on, and before that it keeps the domain. -/
  fails : ∀ i, s.Succeeds i → s.swung = none
  /-- Who has dropped the last reference goes on to destroy the domain. -/
  destroys : s.swung = none → s.outstanding = 0 → ∃ i, s.Destroying i

/-! ## The invariant -/

/-- What CPU `i` relies on. -/
def State.Here (s : State) (i : Nat) : Prop :=
  match s.pc i with
  | .idle | .getSwap _ => True
  | .destroyCheck | .destroySwap => s.isDying = .dead
  | .unlink => s.swung = some i ∧ s.unlinked = 0 ∧ s.scheduled = 0
  | .callRcu => s.swung = some i ∧ s.unlinked = 1 ∧ s.scheduled = 0
  | .killRelinquish | .killDead => s.domctlLock = some i ∧ s.isDying = .dying
  | .killPut => s.domctlLock = some i ∧ s.isDying = .dead ∧ s.own = true

structure Inv (s : State) : Prop where
  noBug : s.bug = false
  count : s.swung = none → s.refcnt.toNat = s.outstanding
  swung : s.swung ≠ none → s.refcnt = domainDestroyed ∧ s.outstanding = 0
  own : s.own = false → s.isDying = .dead
  here : ∀ i, s.Here i
  pending : s.swung = none → s.outstanding = 0 → ∃ i, s.Destroying i
  before : s.swung = none → s.unlinked = 0 ∧ s.scheduled = 0
  once : s.unlinked ≤ 1 ∧ s.scheduled ≤ s.unlinked

variable {s s' : State} {i j : Nat}

theorem Inv.tornDownOnce (h : Inv s) : TornDownOnce s := by
  refine ⟨h.noBug, h.once, fun hs => ⟨h.own ?_, (h.swung hs).2⟩, fun hu hs => ?_, fun i hi => ?_,
    h.pending⟩
  · have hout := (h.swung hs).2
    unfold State.outstanding at hout
    cases ho : s.own with
    | false => rfl
    | true => simp [ho] at hout
  · have := (h.before hs).1
    omega
  · by_contra hs
    have hbit := hi.2
    rw [(h.swung hs).1] at hbit
    exact absurd hbit (by decide)

/-- A CPU whose lock and whose turn the step respects is not disturbed by it. -/
theorem State.Here.mono (h : s.Here j) (hpc : s'.pc j = s.pc j)
    (hdead : s.isDying = .dead → s'.isDying = .dead)
    (hlock : s.domctlLock = some j →
      s'.domctlLock = some j ∧ s'.isDying = s.isDying ∧ s'.own = s.own)
    (hswung : s.swung = some j →
      s'.swung = some j ∧ s'.unlinked = s.unlinked ∧ s'.scheduled = s.scheduled) : s'.Here j := by
  unfold State.Here at h ⊢
  rw [hpc]
  cases hp : s.pc j with
  | idle => trivial
  | getSwap old => trivial
  | destroyCheck =>
    rw [hp] at h
    exact hdead h
  | destroySwap =>
    rw [hp] at h
    exact hdead h
  | unlink =>
    rw [hp] at h
    rcases hswung h.1 with ⟨hs, hu, hr⟩
    exact ⟨hs, hu.trans h.2.1, hr.trans h.2.2⟩
  | callRcu =>
    rw [hp] at h
    rcases hswung h.1 with ⟨hs, hu, hr⟩
    exact ⟨hs, hu.trans h.2.1, hr.trans h.2.2⟩
  | killRelinquish =>
    rw [hp] at h
    rcases hlock h.1 with ⟨hl, hd, -⟩
    exact ⟨hl, hd.trans h.2⟩
  | killDead =>
    rw [hp] at h
    rcases hlock h.1 with ⟨hl, hd, -⟩
    exact ⟨hl, hd.trans h.2⟩
  | killPut =>
    rw [hp] at h
    rcases hlock h.1 with ⟨hl, hd, ho⟩
    exact ⟨hl, hd.trans h.2.1, ho.trans h.2.2⟩

/-- The step of CPU `i` leaves the others alone. -/
structure Quiet (i : Nat) (s s' : State) : Prop where
  pc : ∀ j, j ≠ i → s'.pc j = s.pc j
  dead : s.isDying = .dead → s'.isDying = .dead
  lock : ∀ j, j ≠ i → s.domctlLock = some j →
    s'.domctlLock = some j ∧ s'.isDying = s.isDying ∧ s'.own = s.own
  swung : ∀ j, j ≠ i → s.swung = some j →
    s'.swung = some j ∧ s'.unlinked = s.unlinked ∧ s'.scheduled = s.scheduled

theorem Quiet.here (q : Quiet i s s') (h : ∀ j, s.Here j) (hi : s'.Here i) (j : Nat) : s'.Here j := by
  by_cases hj : j = i
  · rw [hj]
    exact hi
  · exact (h j).mono (q.pc j hj) q.dead (q.lock j hj) (q.swung j hj)

/-- Another CPU that is in `domain_destroy` stays there. -/
theorem Quiet.destroying (q : Quiet i s s') (hi : ¬s.Destroying i ∨ s'.Destroying i)
    (h : ∃ j, s.Destroying j) : ∃ j, s'.Destroying j := by
  rcases h with ⟨j, hj⟩
  by_cases hji : j = i
  · rcases hi with hi | hi
    · rw [hji] at hj
      exact absurd hj hi
    · exact ⟨i, hi⟩
  · refine ⟨j, ?_⟩
    unfold State.Destroying
    rw [q.pc j hji]
    exact hj

/-! ## Steps -/

theorem State.goto_self (p : Pc) : (s.goto i p).pc i = p := Function.update_self ..

theorem State.goto_of_ne {p : Pc} (hj : j ≠ i) : (s.goto i p).pc j = s.pc j :=
  Function.update_of_ne hj ..

theorem Quiet.goto (p : Pc) : Quiet i s (s.goto i p) :=
  ⟨fun _ hj => State.goto_of_ne hj, id, fun _ _ hl => ⟨hl, rfl, rfl⟩, fun _ _ hs => ⟨hs, rfl, rfl⟩⟩

theorem Quiet.ret : Quiet i s (s.ret i) := by
  refine ⟨fun _ hj => State.goto_of_ne hj, id, fun j hj hl => ⟨?_, rfl, rfl⟩,
    fun _ _ hs => ⟨hs, rfl, rfl⟩⟩
  show (if s.domctlLock = some i then none else s.domctlLock) = some j
  rw [hl, if_neg fun he => hj (Option.some.inj he)]

theorem State.here_idle (hi : s.pc i = .idle) : s.Here i := by
  unfold State.Here
  rw [hi]
  trivial

theorem State.ret_here : (s.ret i).Here i := State.here_idle (State.goto_self .idle)

/-- All but `is_dying`, the lock and where the CPUs are. -/
def State.shared (s : State) : Bool × BitVec 32 × Nat × Option Nat × Nat × Nat :=
  (s.bug, s.refcnt, s.outstanding, s.swung, s.unlinked, s.scheduled)

/-- CPU `i` goes on, and nothing is changed that the others see. -/
theorem Inv.quiet (h : Inv s) (q : Quiet i s s') (hi : s'.Here i)
    (hd : s.swung = none → s.outstanding = 0 → ¬s.Destroying i ∨ s'.Destroying i)
    (hdy : s'.own = false → s'.isDying = .dead) (hsame : s'.shared = s.shared) : Inv s' := by
  unfold State.shared at hsame
  simp only [Prod.mk.injEq] at hsame
  rcases hsame with ⟨hbug, hcnt, hout, hsw, hun, hsc⟩
  refine ⟨hbug.trans h.noBug, ?_, ?_, hdy, q.here h.here hi, ?_, ?_, ?_⟩
  · rw [hcnt, hout, hsw]
    exact h.count
  · rw [hcnt, hout, hsw]
    exact h.swung
  · rw [hout, hsw]
    exact fun hs ho => q.destroying (hd hs ho) (h.pending hs ho)
  · rw [hun, hsc, hsw]
    exact h.before
  · rw [hun, hsc]
    exact h.once

theorem Inv.not_swung (h : Inv s) (ho : 0 < s.outstanding) : s.swung = none := by
  by_contra hs
  have := (h.swung hs).2
  omega

theorem State.not_destroying (hi : s.pc i = .idle) : ¬s.Destroying i := by
  unfold State.Destroying
  rw [hi]
  nofun

/-- A reference is added. -/
theorem Inv.inc {n : BitVec 32} (h : Inv s) (hn : n = s.refcnt) (hs : s.swung = none)
    (hfew : s.outstanding + 1 < 2 ^ 32) :
    Inv { s with refcnt := n + 1, refs := s.refs + 1 } := by
  have hone : (1 : BitVec 32).toNat = 1 := rfl
  have hout : State.outstanding { s with refcnt := n + 1, refs := s.refs + 1 } = s.outstanding + 1 := by
    unfold State.outstanding
    dsimp only
    omega
  refine ⟨h.noBug, fun _ => ?_, fun hs' => absurd hs hs', h.own, fun j => ?_, fun _ ho => ?_, h.before,
    h.once⟩
  · rw [hout, ← h.count hs, hn]
    rw [← h.count hs] at hfew
    show (s.refcnt + 1).toNat = _
    rw [BitVec.toNat_add, hone, Nat.mod_eq_of_lt hfew]
  · exact (h.here j).mono rfl id (fun hl => ⟨hl, rfl, rfl⟩) fun hs => ⟨hs, rfl, rfl⟩
  · rw [hout] at ho
    nomatch ho

/-- A reference is dropped: `s'` has one less outstanding. -/
theorem Inv.decAndTest (h : Inv s) (q : Quiet i s s') (hout : s.outstanding = s'.outstanding + 1)
    (hbug : s'.bug = s.bug) (hcnt : s'.refcnt = s.refcnt) (hdy : s'.own = false → s'.isDying = .dead)
    (hsw : s'.swung = s.swung) (hun : s'.unlinked = s.unlinked) (hsc : s'.scheduled = s.scheduled) :
    Inv (s'.decAndTest i) := by
  have hs : s.swung = none := h.not_swung (by omega)
  have hone : (1 : BitVec 32).toNat = 1 := rfl
  have hcount : (s'.refcnt - 1).toNat = s'.outstanding := by
    have h0 := h.count hs
    rw [hcnt, BitVec.toNat_sub, hone]
    omega
  -- what the two outcomes have in common
  have hmk {pc : Nat → Pc} {lock : Option Nat}
      (hq : Quiet i s { s' with refcnt := s'.refcnt - 1, pc := pc, domctlLock := lock })
      (hi : State.Here { s' with refcnt := s'.refcnt - 1, pc := pc, domctlLock := lock } i)
      (hp : s'.outstanding = 0 →
        ∃ j, State.Destroying { s' with refcnt := s'.refcnt - 1, pc := pc, domctlLock := lock } j) :
      Inv { s' with refcnt := s'.refcnt - 1, pc := pc, domctlLock := lock } := by
    refine ⟨hbug.trans h.noBug, fun _ => hcount, fun hs' => absurd (hsw.trans hs) hs', hdy,
      hq.here h.here hi, fun _ => hp, fun _ => ?_, ?_⟩
    · dsimp only
      rw [hun, hsc]
      exact h.before hs
    · dsimp only
      rw [hun, hsc]
      exact h.once
  unfold State.decAndTest
  dsimp only
  split
  · next hzero =>
    refine hmk ⟨fun j hj => ?_, q.dead, q.lock, q.swung⟩ ?_ fun _ => ⟨i, .inl (Function.update_self ..)⟩
    · dsimp only
      rw [Function.update_of_ne hj]
      exact q.pc j hj
    · -- the last one is gone, so the domain's own is
      have h0 : s'.outstanding = 0 := by
        rw [hzero] at hcount
        exact hcount.symm
      unfold State.outstanding at h0
      unfold State.Here
      dsimp only
      rw [Function.update_self]
      refine hdy ?_
      cases ho : s'.own with
      | false => rfl
      | true => simp [ho] at h0
  · next hzero =>
    refine hmk ⟨fun j hj => ?_, q.dead, fun j hj hl => ?_, q.swung⟩ ?_ fun h0 => ?_
    · dsimp only
      rw [State.goto_of_ne hj]
      exact q.pc j hj
    · rcases q.lock j hj hl with ⟨hl', hrest⟩
      refine ⟨?_, hrest⟩
      dsimp only
      rw [hl', if_neg fun he => hj (Option.some.inj he)]
    · exact State.here_idle (Function.update_self ..)
    · refine absurd ?_ hzero
      apply BitVec.eq_of_toNat_eq
      rw [hcount]
      exact h0

/-- One step of a call under way. -/
theorem Inv.advance (h : Inv s) (hfew : s.outstanding + 1 < 2 ^ 32) (again : Bool) :
    Inv (s.advance i again) := by
  have hi := h.here i
  unfold State.Here at hi
  unfold State.advance
  split
  · exact h
  · next old hp =>
    have hnd : ¬s.Destroying i := by
      unfold State.Destroying
      rw [hp]
      nofun
    split
    · exact h.quiet .ret State.ret_here (fun _ _ => .inl hnd) h.own rfl
    · next hbit =>
      split
      · next heq =>
        have hs : s.swung = none := by
          refine h.tornDownOnce.fails i ⟨?_, ?_⟩
          · rw [heq]
            exact hp
          · rw [heq]
            exact not_not.mp hbit
        have hret : Inv (s.ret i) := h.quiet .ret State.ret_here (fun _ _ => .inl hnd) h.own rfl
        exact hret.inc heq.symm hs hfew
      · refine h.quiet (.goto _) ?_ (fun _ _ => .inl hnd) h.own rfl
        unfold State.Here
        rw [State.goto_self]
        trivial
  · next hp =>
    rw [hp] at hi
    rw [if_neg (by rw [hi]; nofun)]
    refine h.quiet (.goto _) ?_ (fun _ _ => .inr (.inr (State.goto_self _))) h.own rfl
    unfold State.Here
    rw [State.goto_self]
    exact hi
  · next hp =>
    rw [hp] at hi
    split
    · next hzero =>
      have hs : s.swung = none := by
        by_contra hs
        rw [(h.swung hs).1] at hzero
        exact absurd hzero (by decide)
      have hout : s.outstanding = 0 := by
        rw [← h.count hs, hzero]
        rfl
      rcases h.before hs with ⟨hu, hc⟩
      refine ⟨h.noBug, nofun, fun _ => ⟨rfl, hout⟩, h.own, ?_, nofun, nofun, h.once⟩
      refine Quiet.here (i := i) (s := s) ⟨fun j hj => State.goto_of_ne hj, id,
        fun _ _ hl => ⟨hl, rfl, rfl⟩, fun j _ hsj => ?_⟩ h.here ?_
      · rw [hs] at hsj
        nomatch hsj
      · unfold State.Here
        dsimp only
        rw [State.goto_self]
        exact ⟨rfl, hu, hc⟩
    · next hzero =>
      refine h.quiet .ret State.ret_here (fun hs ho => absurd ?_ hzero) h.own rfl
      apply BitVec.eq_of_toNat_eq
      rw [h.count hs]
      exact ho
  · next hp =>
    rw [hp] at hi
    rcases hi with ⟨hs, hu, hc⟩
    have hne : s.swung ≠ none := by
      rw [hs]
      nofun
    refine ⟨h.noBug, fun hn => absurd hn hne, h.swung, h.own, ?_, fun hn => absurd hn hne,
      fun hn => absurd hn hne, ?_⟩
    · refine Quiet.here (i := i) (s := s) ⟨fun j hj => State.goto_of_ne hj, id,
        fun _ _ hl => ⟨hl, rfl, rfl⟩, fun j hj hsj => ?_⟩ h.here ?_
      · rw [hs] at hsj
        exact absurd (Option.some.inj hsj).symm hj
      · unfold State.Here
        dsimp only
        rw [State.goto_self]
        exact ⟨hs, by rw [hu], hc⟩
    · dsimp only
      show s.unlinked + 1 ≤ 1 ∧ s.scheduled ≤ s.unlinked + 1
      omega
  · next hp =>
    rw [hp] at hi
    rcases hi with ⟨hs, hu, hc⟩
    have hne : s.swung ≠ none := by
      rw [hs]
      nofun
    refine ⟨h.noBug, fun hn => absurd hn hne, h.swung, h.own, ?_, fun hn => absurd hn hne,
      fun hn => absurd hn hne, ?_⟩
    · refine Quiet.here (i := i) (s := s) ⟨Quiet.ret.pc, id, Quiet.ret.lock, fun j hj hsj => ?_⟩ h.here
        (State.here_idle (State.goto_self .idle))
      rw [hs] at hsj
      exact absurd (Option.some.inj hsj).symm hj
    · show s.unlinked ≤ 1 ∧ s.scheduled + 1 ≤ s.unlinked
      omega
  · next hp =>
    rw [hp] at hi
    have hnd : ¬s.Destroying i := by
      unfold State.Destroying
      rw [hp]
      nofun
    split
    · exact h.quiet .ret State.ret_here (fun _ _ => .inl hnd) h.own rfl
    · refine h.quiet (.goto _) ?_ (fun _ _ => .inl hnd) h.own rfl
      unfold State.Here
      rw [State.goto_self]
      exact hi
  · next hp =>
    rw [hp] at hi
    have hnd : ¬s.Destroying i := by
      unfold State.Destroying
      rw [hp]
      nofun
    have hown : s.own = true := by
      by_contra ho
      have := h.own (by simpa using ho)
      rw [hi.2] at this
      nomatch this
    refine h.quiet ⟨fun j hj => State.goto_of_ne hj, fun _ => rfl, fun j hj hl => ?_,
      fun _ _ hs => ⟨hs, rfl, rfl⟩⟩ ?_ (fun _ _ => .inl hnd) (fun _ => rfl) rfl
    · rw [hi.1] at hl
      exact absurd (Option.some.inj hl).symm hj
    · unfold State.Here
      dsimp only
      rw [State.goto_self]
      exact ⟨hi.1, rfl, hown⟩
  · next hp =>
    rw [hp] at hi
    rcases hi with ⟨hl, hd, ho⟩
    refine h.decAndTest ⟨fun _ _ => rfl, id, fun j hj hlj => ?_, fun _ _ hs => ⟨hs, rfl, rfl⟩⟩ ?_ rfl rfl
      (fun _ => hd) rfl rfl rfl
    · rw [hl] at hlj
      exact absurd (Option.some.inj hlj).symm hj
    · unfold State.outstanding
      rw [ho]
      rfl

theorem Inv.act (h : Inv s) (hfew : s.outstanding + 1 < 2 ^ 32) (step : Step) : Inv (act step s) := by
  cases step with
  | getDomain i =>
    dsimp only [Teardown.act]
    split
    · next hp =>
      refine h.quiet (.goto _) ?_ (fun _ _ => .inl (State.not_destroying hp)) h.own rfl
      unfold State.Here
      rw [State.goto_self]
      trivial
    · exact h
  | getKnownalive i =>
    dsimp only [Teardown.act]
    split
    · next hp => exact h.inc rfl (h.not_swung (Nat.lt_of_lt_of_le hp.2 (Nat.le_add_right ..))) hfew
    · exact h
  | putDomain i =>
    dsimp only [Teardown.act]
    split
    · next hp =>
      refine h.decAndTest ⟨fun _ _ => rfl, id, fun _ _ hl => ⟨hl, rfl, rfl⟩,
        fun _ _ hs => ⟨hs, rfl, rfl⟩⟩ ?_ rfl rfl h.own rfl rfl rfl
      have := hp.2
      unfold State.outstanding
      dsimp only
      omega
    · exact h
  | domainKill i self =>
    dsimp only [Teardown.act]
    split
    · next hp =>
      rcases hp with ⟨hidle, hlock, -⟩
      split
      · next ha =>
        refine h.quiet ⟨fun j hj => State.goto_of_ne hj, fun hd => ?_, fun j _ hl => ?_,
          fun _ _ hs => ⟨hs, rfl, rfl⟩⟩ ?_ (fun _ _ => .inl (State.not_destroying hidle)) (fun ho => ?_) rfl
        · rw [ha] at hd
          nomatch hd
        · rw [hlock] at hl
          nomatch hl
        · unfold State.Here
          dsimp only
          rw [State.goto_self]
          exact ⟨rfl, rfl⟩
        · have := h.own ho
          rw [ha] at this
          nomatch this
      · next hd =>
        refine h.quiet ⟨fun j hj => State.goto_of_ne hj, id, fun j _ hl => ?_,
          fun _ _ hs => ⟨hs, rfl, rfl⟩⟩ ?_ (fun _ _ => .inl (State.not_destroying hidle)) h.own rfl
        · rw [hlock] at hl
          nomatch hl
        · unfold State.Here
          dsimp only
          rw [State.goto_self]
          exact ⟨rfl, hd⟩
      · exact h
    · exact h
  | next i again => exact h.advance hfew again

theorem Inv.init : Inv State.init :=
  ⟨rfl, fun _ => rfl, fun hs => absurd rfl hs, nofun, fun _ => State.here_idle rfl, nofun,
    fun _ => ⟨rfl, rfl⟩, ⟨Nat.zero_le _, le_rfl⟩⟩

/-- Fewer than `2 ^ 32 - 1` references are outstanding before each step. -/
def Few (_ : Step) (s : State) : Prop := s.outstanding + 1 < 2 ^ 32

theorem run_tornDownOnce (steps : List Step) (h : Runs.Each act Few steps .init) :
    TornDownOnce (Runs.run act steps .init) :=
  (h.inv (fun step _ hfew hinv => Inv.act hinv hfew step) Inv.init).tornDownOnce

instance (step : Step) (s : State) : Decidable (Few step s) := inferInstanceAs (Decidable (_ < _))

/-- A reference that is taken before the domain is killed, and put after. -/
def heldWhileKilled : List Step :=
  [.getDomain 0, .next 0 false, .domainKill 1 false, .next 1 false, .next 1 false, .next 1 false,
    .putDomain 0, .next 0 false, .next 0 false, .next 0 false, .next 0 false]

theorem run_tornDownOnce_held :
    TornDownOnce (Runs.run act heldWhileKilled .init) ∧
      (Runs.run act heldWhileKilled .init).scheduled = 1 :=
  ⟨run_tornDownOnce heldWhileKilled (by decide), by decide⟩

/-! ## Wrapping -/

/-- A holder takes `n` more references. -/
theorem run_replicate_getKnownalive (n : Nat) (hi : s.pc i = .idle) (hr : 0 < s.refs) :
    Runs.run act (List.replicate n (.getKnownalive i)) s
      = { s with refcnt := s.refcnt + BitVec.ofNat 32 n, refs := s.refs + n } := by
  induction n generalizing s with
  | zero =>
    show s = _
    simp
  | succ n ih =>
    have hstep : act (.getKnownalive i) s = { s with refcnt := s.refcnt + 1, refs := s.refs + 1 } :=
      if_pos ⟨hi, hr⟩
    have hcnt : s.refcnt + 1 + BitVec.ofNat 32 n = s.refcnt + BitVec.ofNat 32 (n + 1) := by
      rw [Nat.add_comm n 1, BitVec.ofNat_add, BitVec.add_assoc]
      rfl
    have hrefs : s.refs + 1 + n = s.refs + (n + 1) := by omega
    rw [List.replicate_succ]
    show Runs.run act _ (act (.getKnownalive i) s) = _
    rw [hstep, ih (s := { s with refcnt := s.refcnt + 1, refs := s.refs + 1 }) hi (Nat.succ_pos _)]
    dsimp only
    rw [hcnt, hrefs]

/-- With `2 ^ 32` references besides its own the count of the domain is 1. -/
theorem wrapped_tornDown :
    ¬∀ steps : List Step, TornDownOnce (Runs.run act steps .init) := by
  intro h
  have hrun := h ([.getDomain 0, .next 0 false] ++
    (List.replicate (2 ^ 32 - 1) (.getKnownalive 0) ++
      [.domainKill 0 false, .next 0 false, .next 0 false, .next 0 false, .next 0 false,
        .next 0 false]))
  rw [Runs.run_append, Runs.run_append, run_replicate_getKnownalive _ (by decide) (by decide)] at hrun
  have hout := (hrun.last (by decide)).2
  exact absurd hout (by decide)

end Domain.Teardown
