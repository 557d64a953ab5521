import MemoryMonitor.Hvm.Vpt

/-!
# Guest time

`hvm_get_guest_time`, `hvm_set_guest_time` and the freezing of time of `xen/arch/x86/hvm/vpt.c`. A
domain has a clock that never stands still, whatever `get_s_time` says, and every vCPU has an offset
to it. In the mode `delay_for_missed_ticks` the time of a vCPU stands still while it does not run: it
is stamped when the vCPU is saved, and set back to the stamp when it is restored.

The mode is tested at both ends, and a stamp that is not used is not thrown away.
-/

namespace Hvm.GuestTime

structure State (V : Type) where
  mode : Vpt.Mode
  /-- `pl_time`. -/
  stimeOffset : Int
  lastGuestTime : Int
  /-- `hvm_vcpu.stime_offset` and the stamp `hvm_vcpu.guest_time`, which is 0 if there is none. -/
  vcpuOffset : V → Int
  guestTime : V → Int
  /-- Whether a vCPU runs, and what it has read while it did, the last value first: not in the
  source. -/
  running : V → Bool
  seen : V → List Int

namespace State

variable {V : Type} [DecidableEq V] (s : State V)

/-- The clock of the domain in `hvm_get_guest_time`; `stime` is what `get_s_time` returns. -/
def tick (stime : Int) : State V :=
  let now := stime + s.stimeOffset
  if now - s.lastGuestTime > 0 then { s with lastGuestTime := now }
  else { s with lastGuestTime := s.lastGuestTime + 1 }

/-- What `hvm_get_guest_time` returns, once the clock has been read. -/
def now (v : V) : Int :=
  s.lastGuestTime + s.vcpuOffset v

/-- The vCPU has read the time, if it runs. -/
def note (v : V) : State V :=
  if s.running v then { s with seen := Function.update s.seen v (s.now v :: s.seen v) } else s

/-- `hvm_set_guest_time`. -/
def setGuestTime (v : V) (guestTime stime : Int) : State V :=
  let s := s.tick stime
  { s with vcpuOffset := Function.update s.vcpuOffset v (s.vcpuOffset v + (guestTime - s.now v)) }

/-- `pt_freeze_time`. -/
def freezeTime (v : V) (stime : Int) : State V :=
  if s.mode ≠ .delayForMissedTicks then s
  else
    let s := s.tick stime
    { s with guestTime := Function.update s.guestTime v (s.now v) }

/-- `pt_thaw_time`. -/
def thawTime (v : V) (stime : Int) : State V :=
  if s.mode ≠ .delayForMissedTicks then s
  else if s.guestTime v = 0 then s
  else
    let s := s.setGuestTime v (s.guestTime v) stime
    { s with guestTime := Function.update s.guestTime v 0 }

/-- The end of `pt_intr_post`, in the context of the vCPU. -/
def intrPost (v : V) (lastPltGtime stime stime' : Int) : State V :=
  if s.mode ≠ .delayForMissedTicks then s
  else
    let s := (s.tick stime).note v
    if s.now v < lastPltGtime then s.setGuestTime v lastPltGtime stime' else s

end State

inductive Step (V : Type) where
  /-- `hvm_get_guest_time`, by the vCPU if it runs, or by another. -/
  | get (v : V) (stime : Int)
  /-- The vCPU stops running: `pt_save_timer`, and whether it is called and finds the vCPU not blocked. -/
  | save (v : V) (freeze : Bool) (stime : Int)
  /-- `pt_restore_timer`. -/
  | restore (v : V) (stime : Int)
  | intrPost (v : V) (lastPltGtime stime stime' : Int)
  | setMode (mode : Vpt.Mode)

variable {V : Type} [DecidableEq V]

def act (step : Step V) (s : State V) : State V :=
  match step with
  | .get v stime => (s.tick stime).note v
  | .save v freeze stime =>
      let s := { s with running := Function.update s.running v false }
      if freeze then s.freezeTime v stime else s
  | .restore v stime =>
      let s := s.thawTime v stime
      { s with running := Function.update s.running v true }
  | .intrPost v lastPltGtime stime stime' => s.intrPost v lastPltGtime stime stime'
  | .setMode mode => { s with mode := mode }

/-- `hvm_init_guest_time`. -/
def init (mode : Vpt.Mode) (stime : Int) : State V where
  mode := mode
  stimeOffset := -stime
  lastGuestTime := 0
  vcpuOffset _ := 0
  guestTime _ := 0
  running _ := false
  seen _ := []

/-- The values that a vCPU has read are strictly increasing. -/
def State.Increasing (s : State V) : Prop :=
  ∀ v, (s.seen v).Pairwise (· > ·)

/-- A vCPU that is restored in another mode has no stamp. -/
def Unstamped (step : Step V) (s : State V) : Prop :=
  match step with
  | .restore v _ => s.mode ≠ .delayForMissedTicks → s.guestTime v = 0
  | _ => True

/-! ## What has been read is in the past -/

namespace State

variable {s : State V}

/-- A value that a vCPU can still be set to, and those that it has read. -/
structure Inv (s : State V) : Prop where
  increasing : s.Increasing
  past : ∀ v, ∀ x ∈ s.seen v, x ≤ s.now v
  stamped : ∀ v, s.guestTime v ≠ 0 → ∀ x ∈ s.seen v, x ≤ s.guestTime v
  unused : ∀ v, s.running v = true → s.guestTime v = 0

section

omit [DecidableEq V]

theorem tick_lt (s : State V) (stime : Int) : s.lastGuestTime < (s.tick stime).lastGuestTime := by
  unfold State.tick
  dsimp only
  split
  · dsimp only
    omega
  · dsimp only
    omega

theorem tick_same (s : State V) (stime : Int) :
    (s.tick stime).seen = s.seen ∧ (s.tick stime).guestTime = s.guestTime ∧ (s.tick stime).running = s.running ∧
    (s.tick stime).vcpuOffset = s.vcpuOffset ∧ (s.tick stime).mode = s.mode := by
  unfold State.tick
  dsimp only
  split <;> exact ⟨rfl, rfl, rfl, rfl, rfl⟩

end

theorem now_tick (s : State V) (stime : Int) (v : V) : s.now v < (s.tick stime).now v := by
  have hlt := s.tick_lt stime
  unfold now
  rw [(s.tick_same stime).2.2.2.1]
  omega

/-- The clock moves on, and what was read before is strictly in the past. -/
theorem Inv.tick (h : s.Inv) (stime : Int) :
    (s.tick stime).Inv ∧ ∀ v, ∀ x ∈ (s.tick stime).seen v, x < (s.tick stime).now v := by
  rcases s.tick_same stime with ⟨hseen, hstamp, hrunning, -, -⟩
  have hpast : ∀ v, ∀ x ∈ (s.tick stime).seen v, x < (s.tick stime).now v := by
    intro v x hx
    rw [hseen] at hx
    have hle := h.past v x hx
    have hlt := s.now_tick stime v
    omega
  refine ⟨?_, hpast⟩
  constructor
  · intro v
    rw [hseen]
    exact h.increasing v
  · intro v x hx
    exact Int.le_of_lt (hpast v x hx)
  · intro v hne x hx
    rw [hseen] at hx
    rw [hstamp] at hne ⊢
    exact h.stamped v hne x hx
  · intro v hv
    rw [hrunning] at hv
    rw [hstamp]
    exact h.unused v hv

/-- A value that is later than those before it is read. -/
theorem Inv.note (h : s.Inv) (v : V) (hpast : ∀ x ∈ s.seen v, x < s.now v) : (s.note v).Inv := by
  unfold State.note
  split
  · rename_i hrunning
    have hseen : ∀ w x, x ∈ Function.update s.seen v (s.now v :: s.seen v) w →
        (w = v ∧ x = s.now v) ∨ x ∈ s.seen w := by
      intro w x hx
      rw [Function.update_apply] at hx
      split at hx
      · rename_i hw
        rcases List.mem_cons.1 hx with heq | hold
        · exact .inl ⟨hw, heq⟩
        · rw [hw]
          exact .inr hold
      · exact .inr hx
    constructor
    · intro w
      show (Function.update s.seen v (s.now v :: s.seen v) w).Pairwise (· > ·)
      rw [Function.update_apply]
      split
      · exact List.pairwise_cons.2 ⟨hpast, h.increasing v⟩
      · exact h.increasing w
    · intro w x hx
      rcases hseen w x hx with ⟨hw, heq⟩ | hold
      · rw [hw, heq]
        exact Int.le_refl _
      · exact h.past w x hold
    · intro w hne x hx
      rcases hseen w x hx with ⟨hw, -⟩ | hold
      · -- a vCPU that runs has no stamp
        rw [hw] at hne
        exact absurd (h.unused v hrunning) hne
      · exact h.stamped w hne x hold
    · exact h.unused
  · exact h

theorem Inv.get (h : s.Inv) (v : V) (stime : Int) : ((s.tick stime).note v).Inv := by
  rcases h.tick stime with ⟨hinv, hpast⟩
  exact hinv.note v (hpast v)

theorem now_setGuestTime_self (s : State V) (v : V) (guestTime stime : Int) :
    (s.setGuestTime v guestTime stime).now v = guestTime := by
  show (s.tick stime).lastGuestTime + Function.update (s.tick stime).vcpuOffset v _ v = guestTime
  rw [Function.update_self]
  unfold now
  omega

theorem now_setGuestTime_of_ne (s : State V) {v w : V} (hne : w ≠ v) (guestTime stime : Int) :
    (s.setGuestTime v guestTime stime).now w = (s.tick stime).now w := by
  show (s.tick stime).lastGuestTime + Function.update (s.tick stime).vcpuOffset v _ w = _
  rw [Function.update_of_ne hne]
  rfl

theorem Inv.setGuestTime (h : s.Inv) (v : V) (guestTime stime : Int) (hlater : ∀ x ∈ s.seen v, x ≤ guestTime) :
    (s.setGuestTime v guestTime stime).Inv := by
  rcases h.tick stime with ⟨hinv, -⟩
  constructor
  · exact hinv.increasing
  · intro w x hx
    by_cases hw : w = v
    · rw [hw] at hx ⊢
      rw [now_setGuestTime_self]
      have hx' : x ∈ (s.tick stime).seen v := hx
      rw [(s.tick_same stime).1] at hx'
      exact hlater x hx'
    · rw [now_setGuestTime_of_ne s hw]
      exact hinv.past w x hx
  · exact hinv.stamped
  · exact hinv.unused

/-- The stamp of a vCPU that has stopped is a new reading of the clock. -/
theorem Inv.freezeTime (h : s.Inv) {v : V} (hstopped : s.running v = false) (stime : Int) : (s.freezeTime v stime).Inv := by
  unfold State.freezeTime
  split
  · exact h
  · rcases h.tick stime with ⟨hinv, -⟩
    have hstamp : ∀ w, Function.update (s.tick stime).guestTime v ((s.tick stime).now v) w =
        if w = v then (s.tick stime).now v else (s.tick stime).guestTime w := fun w => Function.update_apply ..
    constructor
    · exact hinv.increasing
    · exact hinv.past
    · intro w hne x hx
      show x ≤ Function.update (s.tick stime).guestTime v ((s.tick stime).now v) w
      have hne' : Function.update (s.tick stime).guestTime v ((s.tick stime).now v) w ≠ 0 := hne
      rw [hstamp] at hne' ⊢
      split
      · rename_i hw
        rw [hw] at hx
        exact hinv.past v x hx
      · rename_i hw
        rw [if_neg hw] at hne'
        exact hinv.stamped w hne' x hx
    · intro w hw
      have hw' : (s.tick stime).running w = true := hw
      have hne : w ≠ v := by
        intro heq
        rw [(s.tick_same stime).2.2.1, heq, hstopped] at hw'
        exact nomatch hw'
      show Function.update (s.tick stime).guestTime v ((s.tick stime).now v) w = 0
      rw [hstamp, if_neg hne]
      exact hinv.unused w hw'

theorem Inv.save (h : s.Inv) (v : V) (freeze : Bool) (stime : Int) : (act (.save v freeze stime) s).Inv := by
  have hstopped : ({ s with running := Function.update s.running v false } : State V).Inv := by
    constructor
    · exact h.increasing
    · exact h.past
    · exact h.stamped
    · intro w hw
      have hw' : Function.update s.running v false w = true := hw
      rw [Function.update_apply] at hw'
      split at hw'
      · exact nomatch hw'
      · exact h.unused w hw'
  unfold act
  dsimp only
  split
  · apply hstopped.freezeTime
    exact Function.update_self ..
  · exact hstopped

theorem Inv.restore (h : s.Inv) (v : V) (stime : Int) (hstep : Unstamped (.restore v stime) s) :
    (act (.restore v stime) s).Inv := by
  have hthaw : (s.thawTime v stime).Inv ∧ (s.thawTime v stime).guestTime v = 0 := by
    unfold State.thawTime
    split
    · rename_i hmode
      exact ⟨h, hstep hmode⟩
    · split
      · rename_i hzero
        exact ⟨h, hzero⟩
      · rename_i hne
        have hset := h.setGuestTime v (s.guestTime v) stime (h.stamped v hne)
        refine ⟨?_, Function.update_self ..⟩
        constructor
        · exact hset.increasing
        · exact hset.past
        · intro w hw x hx
          have hw' : Function.update (s.setGuestTime v (s.guestTime v) stime).guestTime v 0 w ≠ 0 := hw
          show x ≤ Function.update (s.setGuestTime v (s.guestTime v) stime).guestTime v 0 w
          rw [Function.update_apply] at hw' ⊢
          split
          · rename_i heq
            rw [if_pos heq] at hw'
            exact absurd rfl hw'
          · rename_i heq
            rw [if_neg heq] at hw'
            exact hset.stamped w hw' x hx
        · intro w hw
          show Function.update (s.setGuestTime v (s.guestTime v) stime).guestTime v 0 w = 0
          rw [Function.update_apply]
          split
          · rfl
          · exact hset.unused w hw
  rcases hthaw with ⟨hinv, hzero⟩
  constructor
  · exact hinv.increasing
  · exact hinv.past
  · exact hinv.stamped
  · intro w hw
    have hw' : Function.update (s.thawTime v stime).running v true w = true := hw
    rw [Function.update_apply] at hw'
    split at hw'
    · rename_i heq
      rw [heq]
      exact hzero
    · exact hinv.unused w hw'

theorem Inv.intrPost (h : s.Inv) (v : V) (lastPltGtime stime stime' : Int) :
    (s.intrPost v lastPltGtime stime stime').Inv := by
  unfold State.intrPost
  split
  · exact h
  · dsimp only
    have hget := h.get v stime
    split
    · rename_i hlt
      apply hget.setGuestTime
      intro x hx
      have hpast := hget.past v x hx
      omega
    · exact hget

theorem Inv.act (h : s.Inv) (step : Step V) (hstep : Unstamped step s) : (act step s).Inv := by
  cases step with
  | get v stime => exact h.get v stime
  | save v freeze stime => exact h.save v freeze stime
  | restore v stime => exact h.restore v stime hstep
  | intrPost v lastPltGtime stime stime' => exact h.intrPost v lastPltGtime stime stime'
  | setMode mode => exact ⟨h.increasing, h.past, h.stamped, h.unused⟩

omit [DecidableEq V] in
theorem inv_init (mode : Vpt.Mode) (stime : Int) : (init mode stime : State V).Inv := by
  constructor
  · intro v
    exact List.Pairwise.nil
  · intro v x hx
    exact nomatch hx
  · intro v _ x hx
    exact nomatch hx
  · intro v hv
    exact nomatch hv

end State

open Runs

/-- While no vCPU is restored in another mode than the one it was stamped in, its time does not run
backwards, whatever `get_s_time` returns. -/
theorem run_increasing (mode : Vpt.Mode) (stime : Int) (steps : List (Step V))
    (hsteps : Each act Unstamped steps (init mode stime : State V)) :
    (run act steps (init mode stime : State V)).Increasing := by
  have hkeep : ∀ (step : Step V) s, Unstamped step s → State.Inv s → State.Inv (act step s) := by
    intro step s hstep hinv
    exact hinv.act step hstep
  exact (hsteps.inv (I := State.Inv) hkeep (State.inv_init mode stime)).increasing

/-- A vCPU is stamped and thawed, while `get_s_time` goes back. -/
theorem run_increasing_thaw :
    let steps : List (Step Unit) :=
      [.restore () 0, .get () 10, .save () true 20, .restore () 50, .get () 40, .get () 45]
    (run act steps (init .delayForMissedTicks 0)).Increasing ∧
    (run act steps (init .delayForMissedTicks 0)).seen () = [22, 21, 10] := by
  intro steps
  have hsteps : Each act Unstamped steps (init .delayForMissedTicks 0) := by
    refine ⟨?_, trivial, trivial, ?_, trivial, trivial, trivial⟩
    · intro hmode
      exact absurd rfl hmode
    · intro hmode
      exact absurd rfl hmode
  exact ⟨run_increasing _ _ _ hsteps, by decide⟩

/-- A stamp is left over from a restore in another mode. Back in the first mode the vCPU blocks, so
that it is not stamped again, and is set back to the old stamp. -/
theorem stale_stamp_used :
    let steps : List (Step Unit) :=
      [.restore () 0, .save () true 20, .setMode .noDelayForMissedTicks, .restore () 25, .get () 30,
        .setMode .delayForMissedTicks, .save () false 35, .restore () 40, .get () 41]
    (run act steps (init .delayForMissedTicks 0)).seen () = [21, 30] ∧
    ¬(run act steps (init .delayForMissedTicks 0)).Increasing := by
  intro steps
  have hseen : (run act steps (init .delayForMissedTicks 0)).seen () = [21, 30] := by decide
  refine ⟨hseen, fun hinc => ?_⟩
  have hpair := hinc ()
  rw [hseen] at hpair
  revert hpair
  decide

end Hvm.GuestTime
