import MemoryMonitor.Sched.RunQueue

/-!
# The credit scheduler: charging for time

`burn_credits` of `xen/common/sched_credit.c`. While a vCPU runs, `start_time` is the time from which on it has
not been charged yet; while it does not run, it is the negative of what has been left over. A credit
stands for 100us, and a burn rounds to the nearest number of credits, so that `start_time` may lie ahead.

Times are nanoseconds. `last`, `ran`, `charged` and `granted` only record what has happened.
-/

namespace Sched.Burn

open RunQueue (Vcpu)

/-- `MILLISECS`. -/
def millisecs (ms : Int) : Int := ms * 1000000
/-- `CSCHED_CREDITS_PER_MSEC`. -/
def creditsPerMsec : Int := 10

/-- The credits for a stretch of time, as an `unsigned int`. -/
def creditsFor (delta : Int) : Int :=
  (delta * creditsPerMsec + (millisecs 1).tdiv 2).tdiv (millisecs 1) % 2 ^ 32

structure State (C G : Type) where
  queues : RunQueue.State C G
  startTime : G → Int
  credit : G → BitVec 32
  /-- when a CPU has last called the scheduler or has had a tick -/
  last : C → Int
  /-- for how long a vCPU has been running until the last call on its CPU -/
  ran : G → Int
  /-- what `burn_credits` has subtracted -/
  charged : G → Int
  /-- what has been added elsewhere -/
  granted : G → Int

namespace State

variable {C G : Type} [DecidableEq C] [DecidableEq G] [Fintype C] (s : State C G)

/-- Time passes on a CPU, for its current vCPU. -/
def pass (c : C) (now : Int) : State C G :=
  let s' := { s with last := Function.update s.last c now }
  match s.queues.curr c with
  | .idle _ => s'
  | .guest g => { s' with ran := Function.update s.ran g (s.ran g + (now - s.last c)) }

/-- `burn_credits`. -/
def burnCredits (g : G) (now : Int) : State C G :=
  let delta := now - s.startTime g
  if delta ≤ 0 then s
  else
    let credits := creditsFor delta
    { s with
      credit := Function.update s.credit g (s.credit g - BitVec.ofInt 32 credits)
      startTime := Function.update s.startTime g
        (s.startTime g + (credits * millisecs 1).tdiv creditsPerMsec)
      charged := Function.update s.charged g (s.charged g + credits) }

def addStart (g : G) (time : Int) : State C G :=
  { s with startTime := Function.update s.startTime g (s.startTime g + time) }

/-- What `csched_schedule` does with the vCPU that has been current. -/
def chargePrev (now : Int) : Vcpu C G → State C G
  | .idle _ => s
  | .guest g => (s.burnCredits g now).addStart g (-now)

def startNext (now : Int) : Vcpu C G → State C G
  | .idle _ => s
  | .guest g => s.addStart g now

/-- `csched_schedule`. -/
def schedule (c : C) (now : Int) (taskletWork : Bool) (workers : List C) (suits : Vcpu C G → Bool) :
    State C G :=
  let s := (s.pass c now).chargePrev now (s.queues.curr c)
  let s := { s with queues := s.queues.schedule c taskletWork workers suits }
  s.startNext now (s.queues.curr c)

/-- `csched_tick` with `csched_vcpu_acct`, as far as it is about priorities and credits. -/
def tick (c : C) (now : Int) : State C G :=
  match s.queues.curr c with
  | .idle _ => s.pass c now
  | .guest g =>
    let s := if s.queues.pri (.guest g) = RunQueue.priBoost
      then { s with queues := RunQueue.act (.account g RunQueue.priUnder) s.queues } else s
    (s.pass c now).burnCredits g now

/-- `csched_acct` and others change the credits of a vCPU. -/
def grant (g : G) (n : Int) : State C G :=
  { s with
    credit := Function.update s.credit g (s.credit g + BitVec.ofInt 32 n)
    granted := Function.update s.granted g (s.granted g + n) }

end State

inductive Step (C G : Type) where
  | schedule (c : C) (now : Int) (taskletWork : Bool) (workers : List C) (suits : Vcpu C G → Bool)
  | tick (c : C) (now : Int)
  | grant (g : G) (n : Int)
  /-- Everything else that concerns the queues. -/
  | other (step : RunQueue.Step C G)

variable {C G : Type} [DecidableEq C] [DecidableEq G] [Fintype C]

open State

def act (step : Step C G) (s : State C G) : State C G :=
  match step with
  | .schedule c now taskletWork workers suits => s.schedule c now taskletWork workers suits
  | .tick c now => s.tick c now
  | .grant g n => s.grant g n
  | .other step => { s with queues := RunQueue.act step s.queues }

def isSchedule : RunQueue.Step C G → Bool
  | .schedule _ _ _ _ => true
  | _ => false

/-- How the callers call. -/
def Called (step : Step C G) (s : State C G) : Prop :=
  match step with
  | .schedule c now _ _ _ => s.last c ≤ now
  | .tick c now => s.last c ≤ now
  | .grant _ _ => True
  | .other step => isSchedule step = false ∧ RunQueue.Called step s.queues

/-- The credits for the time that a vCPU has been running without a burn fit into an `unsigned int`; with
ticks each 10ms the time is much shorter. -/
def Short (step : Step C G) (s : State C G) : Prop :=
  match step with
  | .schedule c now _ _ _ => (s.queues.curr c).isIdle = false → now - s.last c ≤ 100000 * (2 ^ 32 - 2)
  | .tick c now => (s.queues.curr c).isIdle = false → now - s.last c ≤ 100000 * (2 ^ 32 - 2)
  | _ => True

instance : ∀ (step : Step C G) (s : State C G), Decidable (Called step s)
  | .schedule _ _ _ _ _, _ => inferInstanceAs (Decidable (_ ≤ _))
  | .tick _ _, _ => inferInstanceAs (Decidable (_ ≤ _))
  | .grant _ _, _ => isTrue trivial
  | .other step, s => inferInstanceAs (Decidable (isSchedule step = false ∧ RunQueue.Called step s.queues))

instance : ∀ (step : Step C G) (s : State C G), Decidable (Short step s)
  | .schedule _ _ _ _ _, _ => inferInstanceAs (Decidable (_ → _))
  | .tick _ _, _ => inferInstanceAs (Decidable (_ → _))
  | .grant _ _, _ => isTrue trivial
  | .other _, _ => isTrue trivial

/-- All CPUs idle; no vCPU has been running. -/
def init (processor : G → C) : State C G where
  queues := RunQueue.init processor
  startTime := fun _ => 0
  credit := fun _ => 0
  last := fun _ => 0
  ran := fun _ => 0
  charged := fun _ => 0
  granted := fun _ => 0

/-! ## The invariant -/

namespace State

variable {s : State C G} {x : Option C} {c : C} {g : G} {now : Int}

/-- The time for which a vCPU has not been charged, or the negative of what it has been charged in
advance. -/
def rest (s : State C G) (g : G) : Int := s.ran g - 100000 * s.charged g

/-- `start_time` accounts for the rest. `x` is a CPU whose current vCPU has been charged and whose next
one has not been started. -/
structure Inv (x : Option C) (s : State C G) : Prop where
  queues : s.queues.Inv none
  running : ∀ c g, x ≠ some c → s.queues.curr c = .guest g → s.last c - s.startTime g = s.rest g
  off : ∀ g, (∀ c, x ≠ some c → s.queues.curr c ≠ .guest g) → -s.startTime g = s.rest g
  half : ∀ g, -50000 ≤ s.rest g ∧ s.rest g ≤ 50000
  credit : ∀ g, s.credit g = BitVec.ofInt 32 (s.granted g) - BitVec.ofInt 32 (s.charged g)

/-- The credits are the time rounded to the nearest number of credits. -/
theorem creditsFor_spec {delta : Int} (hpos : 0 < delta)
    (hshort : delta ≤ 50000 + 100000 * (2 ^ 32 - 2)) :
    -50000 ≤ delta - 100000 * creditsFor delta ∧ delta - 100000 * creditsFor delta ≤ 50000 := by
  have hhalf : (millisecs 1).tdiv 2 = 500000 := by decide
  have hdiv : creditsFor delta = (delta * 10 + 500000) / 1000000 := by
    unfold creditsFor creditsPerMsec
    rw [hhalf, Int.tdiv_eq_ediv_of_nonneg (by omega)]
    unfold millisecs
    apply Int.emod_eq_of_lt
    · omega
    · omega
  rw [hdiv]
  omega

theorem startTime_spec (credits : Int) : (credits * millisecs 1).tdiv creditsPerMsec = 100000 * credits := by
  unfold millisecs creditsPerMsec
  have h : credits * (1 * 1000000) = 100000 * credits * 10 := by omega
  rw [h, Int.mul_tdiv_cancel _ (by decide)]

/-- A burn keeps what `start_time` accounts for, up to at most half a credit. -/
structure Burned (g : G) (now : Int) (s s' : State C G) : Prop where
  same : s' = { s with startTime := s'.startTime, credit := s'.credit, charged := s'.charged }
  other : ∀ g', g' ≠ g → s'.startTime g' = s.startTime g' ∧ s'.credit g' = s.credit g' ∧
    s'.charged g' = s.charged g'
  kept : now - s'.startTime g + 100000 * s'.charged g = now - s.startTime g + 100000 * s.charged g
  half : -50000 ≤ now - s'.startTime g ∧ now - s'.startTime g ≤ 50000
  credit : s'.credit g + BitVec.ofInt 32 (s'.charged g) = s.credit g + BitVec.ofInt 32 (s.charged g)

omit [DecidableEq C] [Fintype C] in
theorem burnCredits_burned (s : State C G) (hlow : -50000 ≤ now - s.startTime g)
    (hshort : now - s.startTime g ≤ 50000 + 100000 * (2 ^ 32 - 2)) : Burned g now s (s.burnCredits g now) := by
  unfold burnCredits
  dsimp only
  split
  · next hahead => exact ⟨rfl, fun _ _ => ⟨rfl, rfl, rfl⟩, rfl, ⟨hlow, by omega⟩, rfl⟩
  · next hpos =>
    have hspec := creditsFor_spec (by omega) hshort
    constructor
    · rfl
    · intro g' hg
      dsimp only
      rw [Function.update_of_ne hg, Function.update_of_ne hg, Function.update_of_ne hg]
      exact ⟨rfl, rfl, rfl⟩
    · dsimp only
      rw [Function.update_self, Function.update_self, startTime_spec]
      omega
    · dsimp only
      rw [Function.update_self, startTime_spec]
      omega
    · dsimp only
      rw [Function.update_self, Function.update_self, BitVec.ofInt_add]
      grind

section

omit [Fintype C]

theorem pass_frame (s : State C G) (c : C) (now : Int) :
    s.pass c now = { s with last := Function.update s.last c now, ran := (s.pass c now).ran } := by
  unfold pass
  dsimp only
  split <;> rfl

theorem pass_ran (hc : s.queues.curr c = .guest g) :
    (s.pass c now).ran = Function.update s.ran g (s.ran g + (now - s.last c)) := by
  unfold pass
  rw [hc]

end

/-- The time that has passed is charged to the current vCPU of a CPU. -/
structure Passed (c : C) (now : Int) (g : G) (s s' : State C G) : Prop where
  queues : s'.queues = s.queues
  last : s'.last = Function.update s.last c now
  granted : s'.granted = s.granted
  other : ∀ g', g' ≠ g → s'.startTime g' = s.startTime g' ∧ s'.credit g' = s.credit g' ∧
    s'.charged g' = s.charged g' ∧ s'.ran g' = s.ran g'
  even : now - s'.startTime g = s'.rest g
  half : -50000 ≤ s'.rest g ∧ s'.rest g ≤ 50000
  credit : s'.credit g = BitVec.ofInt 32 (s'.granted g) - BitVec.ofInt 32 (s'.charged g)

theorem Inv.passed (hs : s.Inv none) (hc : s.queues.curr c = .guest g) (hnow : s.last c ≤ now)
    (hshort : now - s.last c ≤ 100000 * (2 ^ 32 - 2)) : Passed c now g s ((s.pass c now).burnCredits g now) := by
  have hrun := hs.running c g nofun hc
  have hhalf := hs.half g
  have hframe := pass_frame s c now
  have hran : (s.pass c now).ran = Function.update s.ran g (s.ran g + (now - s.last c)) := pass_ran hc
  have hstart : (s.pass c now).startTime = s.startTime := by rw [hframe]
  have hcharged : (s.pass c now).charged = s.charged := by rw [hframe]
  have hcredit : (s.pass c now).credit = s.credit := by rw [hframe]
  have hburned : Burned g now (s.pass c now) ((s.pass c now).burnCredits g now) :=
    burnCredits_burned _ (by rw [hstart]; omega) (by rw [hstart]; omega)
  generalize s.pass c now = s₁ at hframe hran hstart hcharged hcredit hburned ⊢
  generalize s₁.burnCredits g now = s₂ at hburned ⊢
  have hran₂ : s₂.ran = s₁.ran := by rw [hburned.same]
  have hgranted : s₂.granted = s.granted := by rw [hburned.same, hframe]
  have heven : now - s₂.startTime g = s₂.rest g := by
    have hkept := hburned.kept
    unfold rest at hrun ⊢
    rw [hstart, hcharged] at hkept
    rw [hran₂, hran, Function.update_self]
    omega
  constructor
  · rw [hburned.same, hframe]
  · rw [hburned.same, hframe]
  · exact hgranted
  · intro g' hg
    obtain ⟨hstart', hcredit', hcharged'⟩ := hburned.other g' hg
    rw [hstart', hcredit', hcharged', hran₂, hran, Function.update_of_ne hg, hstart, hcredit, hcharged]
    exact ⟨rfl, rfl, rfl, rfl⟩
  · exact heven
  · rw [← heven]
    exact hburned.half
  · have hold := hs.credit g
    have hnew := hburned.credit
    rw [hcredit, hcharged, hold] at hnew
    rw [hgranted]
    grind

section Passed

variable {s' : State C G} (hp : Passed c now g s s')

omit [DecidableEq G] [Fintype C]

include hp

theorem Passed.rest {g' : G} (hg : g' ≠ g) : s'.rest g' = s.rest g' := by
  obtain ⟨-, -, hcharged, hran⟩ := hp.other g' hg
  unfold State.rest
  rw [hcharged, hran]

theorem Passed.halves (hs : s.Inv x) (g' : G) : -50000 ≤ s'.rest g' ∧ s'.rest g' ≤ 50000 := by
  by_cases hg : g' = g
  · subst hg
    exact hp.half
  · rw [hp.rest hg]
    exact hs.half g'

theorem Passed.credits (hs : s.Inv x) (g' : G) :
    s'.credit g' = BitVec.ofInt 32 (s'.granted g') - BitVec.ofInt 32 (s'.charged g') := by
  by_cases hg : g' = g
  · subst hg
    exact hp.credit
  · obtain ⟨-, hcredit, hcharged, -⟩ := hp.other g' hg
    rw [hcredit, hcharged, hp.granted]
    exact hs.credit g'

end Passed

omit [DecidableEq C] [DecidableEq G] [Fintype C] in
/-- A step of the queues in which the current vCPUs stay, except on the CPU that `x` is about. -/
theorem Inv.requeue {queues : RunQueue.State C G} (hs : s.Inv x) (hqueues : queues.Inv none)
    (hcurr : ∀ c, x ≠ some c → queues.curr c = s.queues.curr c) : Inv x { s with queues := queues } where
  queues := hqueues
  running := fun c g hx hc => hs.running c g hx ((hcurr c hx).symm.trans hc)
  off := fun g h => hs.off g fun c hx hc => h c hx ((hcurr c hx).trans hc)
  half := hs.half
  credit := hs.credit

/-- The current vCPU is charged, and its `start_time` becomes the negative of the rest. -/
theorem Inv.chargePrev (hs : s.Inv none) (hnow : s.last c ≤ now)
    (hshort : (s.queues.curr c).isIdle = false → now - s.last c ≤ 100000 * (2 ^ 32 - 2)) :
    ((s.pass c now).chargePrev now (s.queues.curr c)).Inv (some c) ∧
      ((s.pass c now).chargePrev now (s.queues.curr c)).last c = now ∧
      ((s.pass c now).chargePrev now (s.queues.curr c)).queues = s.queues := by
  have hsome : ∀ {c'}, some c ≠ some c' → c' ≠ c := fun hne h => hne (h ▸ rfl)
  cases hc : s.queues.curr c with
  | idle c₀ =>
    have hpass : s.pass c now = { s with last := Function.update s.last c now } := by
      unfold pass
      rw [hc]
    simp only [State.chargePrev, hpass]
    refine ⟨?_, Function.update_self .., trivial⟩
    constructor
    · exact hs.queues
    · intro c' g hx hc'
      dsimp only
      rw [Function.update_of_ne (hsome hx)]
      exact hs.running c' g nofun hc'
    · intro g h
      refine hs.off g fun c' _ hc' => ?_
      by_cases heq : c' = c
      · rw [heq, hc] at hc'
        cases hc'
      · exact h c' (fun h => heq (Option.some.inj h).symm) hc'
    · exact hs.half
    · exact hs.credit
  | guest g =>
    have hpassed := hs.passed hc hnow (hshort (by rw [hc]; rfl))
    simp only [State.chargePrev]
    generalize (s.pass c now).burnCredits g now = s' at hpassed ⊢
    refine ⟨?_, by change s'.last c = now; rw [hpassed.last, Function.update_self], hpassed.queues⟩
    constructor
    · exact hpassed.queues ▸ hs.queues
    · intro c' g' hx hc'
      have hne : c' ≠ c := hsome hx
      change s'.queues.curr c' = .guest g' at hc'
      rw [hpassed.queues] at hc'
      -- the vCPU is not current elsewhere
      have hg : g' ≠ g := by
        rintro rfl
        have hhome := hs.queues.curr_eq hc
        rw [hs.queues.curr_eq hc'] at hhome
        exact hne hhome
      change s'.last c' - Function.update s'.startTime g _ g' = s'.rest g'
      rw [hpassed.last, Function.update_of_ne hne, Function.update_of_ne hg, (hpassed.other g' hg).1, hpassed.rest hg]
      exact hs.running c' g' nofun hc'
    · intro g' h
      change -Function.update s'.startTime g (s'.startTime g + -now) g' = s'.rest g'
      by_cases hg : g' = g
      · subst hg
        rw [Function.update_self, ← hpassed.even]
        omega
      · rw [Function.update_of_ne hg, (hpassed.other g' hg).1, hpassed.rest hg]
        refine hs.off g' fun c' _ hc' => ?_
        by_cases heq : c' = c
        · rw [heq, hc] at hc'
          exact hg (Vcpu.guest.inj hc').symm
        · refine h c' (fun h => heq (Option.some.inj h).symm) ?_
          change s'.queues.curr c' = _
          rw [hpassed.queues]
          exact hc'
    · exact hpassed.halves hs
    · exact hpassed.credits hs

theorem Inv.startNext (hs : s.Inv (some c)) (hnow : s.last c = now) :
    (s.startNext now (s.queues.curr c)).Inv none := by
  cases hc : s.queues.curr c with
  | idle c₀ =>
    refine { hs with running := fun c' g _ hc' => hs.running c' g ?_ hc', off := fun g h => ?_ }
    · rintro ⟨⟩
      have h := hc.symm.trans hc'
      cases h
    · exact hs.off g fun c' _ => h c' nofun
  | guest g =>
    have hoff : -s.startTime g = s.rest g := by
      apply hs.off g
      intro c' hx hc'
      have hhome := hs.queues.curr_eq hc
      rw [hs.queues.curr_eq hc'] at hhome
      exact hx (hhome ▸ rfl)
    constructor
    · exact hs.queues
    · intro c' g' _ hc'
      change s.last c' - Function.update s.startTime g (s.startTime g + now) g' = s.rest g'
      by_cases hg : g' = g
      · subst hg
        have heq : c' = c := (hs.queues.curr_eq hc').symm.trans (hs.queues.curr_eq hc)
        rw [Function.update_self, heq, hnow, ← hoff]
        omega
      · rw [Function.update_of_ne hg]
        apply hs.running c' g' _ hc'
        rintro ⟨⟩
        exact hg (Vcpu.guest.inj (hc.symm.trans hc')).symm
    · intro g' h
      have hg : g' ≠ g := fun heq => h c nofun (heq ▸ hc)
      change -Function.update s.startTime g (s.startTime g + now) g' = s.rest g'
      rw [Function.update_of_ne hg]
      exact hs.off g' fun c' _ => h c' nofun
    · exact hs.half
    · exact hs.credit

theorem Inv.schedule (hs : s.Inv none) (hnow : s.last c ≤ now)
    (hshort : (s.queues.curr c).isIdle = false → now - s.last c ≤ 100000 * (2 ^ 32 - 2))
    (taskletWork : Bool) (workers : List C) (suits : Vcpu C G → Bool) :
    (s.schedule c now taskletWork workers suits).Inv none := by
  obtain ⟨hcharged, hlast, hqueues⟩ := hs.chargePrev hnow hshort
  unfold State.schedule
  dsimp only
  generalize (s.pass c now).chargePrev now (s.queues.curr c) = s' at hcharged hlast hqueues ⊢
  have hdecided := hcharged.queues.decided c taskletWork workers suits
  have hrequeued := hcharged.requeue (hcharged.queues.schedule c taskletWork workers suits)
    fun c' hx => hdecided.curr c' fun h => hx (h ▸ rfl)
  exact hrequeued.startNext hlast

/-- A tick charges the current vCPU, which stays. -/
theorem Inv.charge (hs : s.Inv none) (hc : s.queues.curr c = .guest g) (hnow : s.last c ≤ now)
    (hshort : now - s.last c ≤ 100000 * (2 ^ 32 - 2)) : ((s.pass c now).burnCredits g now).Inv none := by
  have hpassed := hs.passed hc hnow hshort
  generalize (s.pass c now).burnCredits g now = s' at hpassed ⊢
  constructor
  · rw [hpassed.queues]
    exact hs.queues
  · intro c' g' _ hc'
    rw [hpassed.queues] at hc'
    rw [hpassed.last]
    by_cases heq : c' = c
    · subst heq
      have hg : g' = g := Vcpu.guest.inj (hc'.symm.trans hc)
      rw [Function.update_self, hg]
      exact hpassed.even
    · have hg : g' ≠ g := by
        rintro rfl
        exact heq ((hs.queues.curr_eq hc').symm.trans (hs.queues.curr_eq hc))
      rw [Function.update_of_ne heq, (hpassed.other g' hg).1, hpassed.rest hg]
      exact hs.running c' g' nofun hc'
  · intro g' h
    rw [hpassed.queues] at h
    have hg : g' ≠ g := fun heq => h c nofun (heq ▸ hc)
    rw [(hpassed.other g' hg).1, hpassed.rest hg]
    exact hs.off g' h
  · exact hpassed.halves hs
  · exact hpassed.credits hs

theorem priIdle_lt_priUnder : RunQueue.priIdle < RunQueue.priUnder := by decide

theorem Inv.tick (hs : s.Inv none) (hnow : s.last c ≤ now)
    (hshort : (s.queues.curr c).isIdle = false → now - s.last c ≤ 100000 * (2 ^ 32 - 2)) :
    (s.tick c now).Inv none := by
  unfold State.tick
  split
  · next c₀ hc =>
    have hcharged := (hs.chargePrev hnow hshort).1
    rw [hc] at hcharged
    refine { hcharged with
      running := fun c' g _ hc' => hcharged.running c' g ?_ hc'
      off := fun g h => hcharged.off g fun c' _ => h c' nofun }
    rintro ⟨⟩
    rw [pass_frame s c now] at hc'
    have h := hc.symm.trans hc'
    cases h
  · next g hc =>
    have hshort' := hshort (by rw [hc]; rfl)
    dsimp only
    split
    · -- a boost ends
      have haccount : Inv none { s with queues := RunQueue.act (.account g RunQueue.priUnder) s.queues } :=
        have hcalled : RunQueue.Called (.account g RunQueue.priUnder) s.queues := priIdle_lt_priUnder
        hs.requeue (hs.queues.act hcalled) fun _ _ => rfl
      exact haccount.charge hc hnow hshort'
    · exact hs.charge hc hnow hshort'

omit [DecidableEq C] [Fintype C] in
theorem Inv.grant (hs : s.Inv none) (g : G) (n : Int) : (s.grant g n).Inv none := by
  refine { hs with credit := fun g' => ?_ }
  change Function.update s.credit g _ g' =
    BitVec.ofInt 32 (Function.update s.granted g _ g') - BitVec.ofInt 32 (s.charged g')
  by_cases hg : g' = g
  · subst hg
    rw [Function.update_self, Function.update_self, BitVec.ofInt_add, hs.credit g']
    grind
  · rw [Function.update_of_ne hg, Function.update_of_ne hg]
    exact hs.credit g'

end State

/-- Only a call of the scheduler changes the current vCPU of a CPU. -/
theorem act_curr {step : RunQueue.Step C G} (h : isSchedule step = false) (q : RunQueue.State C G) :
    (RunQueue.act step q).curr = q.curr := by
  cases step with
  | schedule c taskletWork workers suits => cases h
  | insert v =>
    change (q.vcpuInsert v).curr = q.curr
    unfold RunQueue.State.vcpuInsert
    split <;> rfl
  | remove g => exact (RunQueue.State.vcpuRemove_queues q g).curr
  | sleep g => exact (RunQueue.State.vcpuSleep_queues q g).curr
  | wake g parked => exact (RunQueue.State.vcpuWake_queues q g parked).curr
  | yield c byDefault =>
    change (q.vcpuYield c byDefault).curr = q.curr
    unfold RunQueue.State.vcpuYield
    split <;> rfl
  | sort c => rfl
  | contextSaved v => rfl
  | pause g runnable => rfl
  | account g pri => rfl
  | move g c => rfl

theorem State.Inv.act {step : Step C G} {s : State C G} (hcalled : Called step s) (hshort : Short step s)
    (hs : s.Inv none) : (act step s).Inv none := by
  cases step with
  | schedule c now taskletWork workers suits => exact hs.schedule hcalled hshort taskletWork workers suits
  | tick c now => exact hs.tick hcalled hshort
  | grant g n => exact hs.grant g n
  | other step => exact hs.requeue (hs.queues.act hcalled.2) fun c _ => congrFun (act_curr hcalled.1 s.queues) c

theorem inv_init (processor : G → C) : (init processor : State C G).Inv none where
  queues := RunQueue.inv_init processor
  running := fun _ _ _ h => by cases h
  off := fun _ _ => by
    change -(0 : Int) = 0 - 100000 * 0
    decide
  half := fun _ => by
    change -50000 ≤ (0 : Int) - 100000 * 0 ∧ (0 : Int) - 100000 * 0 ≤ 50000
    decide
  credit := fun _ => by
    change (0 : BitVec 32) = BitVec.ofInt 32 0 - BitVec.ofInt 32 0
    decide

/-- The credits that a vCPU has been charged differ by at most half a credit from the time that it has been
running, in units of 100us, up to the last call on its CPU; they are what its credits have lost. -/
def Charged (s : State C G) (g : G) : Prop :=
  2 * (100000 * s.charged g - s.ran g).natAbs ≤ 100000 ∧
    s.credit g = BitVec.ofInt 32 (s.granted g) - BitVec.ofInt 32 (s.charged g)

omit [DecidableEq C] [DecidableEq G] [Fintype C] in
theorem State.Inv.charged {s : State C G} (hs : s.Inv none) (g : G) : Charged s g := by
  refine ⟨?_, hs.credit g⟩
  have hhalf := hs.half g
  unfold rest at hhalf
  omega

theorem run_charged (processor : G → C) (steps : List (Step C G))
    (hcalled : Runs.Each act Called steps (init processor))
    (hshort : Runs.Each act Short steps (init processor)) (g : G) :
    Charged (Runs.run act steps (init processor)) g :=
  (Runs.Each.inv (fun _ _ h hs => State.Inv.act h.1 h.2 hs) (hcalled.and hshort) (inv_init processor)).charged g

/-- A vCPU runs on one CPU in three stretches that no credit fits into, and is stolen by another one. -/
def cutStretches : List (Step Bool Unit) :=
  [.other (.pause () true), .other (.wake () false), .schedule false 1000 false [] (fun _ => true),
    .tick false 41000, .tick false 81000, .schedule false 125000 true [] (fun _ => true),
    .other (.contextSaved (.guest ())), .other (.account () RunQueue.priUnder),
    .schedule true 90000 false [false] (fun _ => true), .tick true 170000]

theorem run_charged_cutStretches : Charged (Runs.run act cutStretches (init fun _ => false)) () :=
  run_charged _ _ (by decide +kernel) (by decide +kernel) _

end Sched.Burn
