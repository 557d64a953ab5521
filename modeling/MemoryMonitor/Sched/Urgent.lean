import MemoryMonitor.Lib.Tally
import MemoryMonitor.Sched.RunQueue

/-!
# The urgent vCPUs of a CPU

A vCPU that is blocked and polls is urgent (`vcpu_urgent_count_update` in `xen/common/schedule.c`), and
the idle governor asks how many urgent vCPUs a CPU has. The count is kept at the CPU that is noted as the
processor of the vCPU, so each operation that gives a vCPU another processor has to take it along.

The queues are those of the credit scheduler. A step is one call under the schedule lock, or a change of
the flags of a vCPU, for which no lock is needed.
-/

namespace Sched.Urgent

open RunQueue (Vcpu)

/-- `RUNSTATE_running` and so on. -/
inductive Runstate where
  | running
  | runnable
  | blocked
  | offline
  deriving DecidableEq

/-- `v->runstate.state >= RUNSTATE_blocked`. -/
def Runstate.sleeps : Runstate → Bool
  | .running | .runnable => false
  | .blocked | .offline => true

structure State (C G : Type) where
  queues : RunQueue.State C G
  isUrgent : G → Bool
  /-- `_VPF_blocked` in `pause_flags` -/
  blocked : G → Bool
  /-- the bit of the vCPU in `poll_mask` -/
  polls : G → Bool
  /-- other pause flags, or a pause count -/
  held : G → Bool
  runstate : G → Runstate
  urgentCount : C → Int

namespace State

variable {C G : Type} [DecidableEq C] [DecidableEq G] [Fintype C] (s : State C G)

def processor (g : G) : C := s.queues.processor (.guest g)

/-- `vcpu_runnable`. -/
def runnable (g : G) : Bool := !s.blocked g && !s.held g

/-- The pause flags and the poll mask change. -/
def setFlags (g : G) (blocked polls held : Bool) : State C G :=
  { s with
    blocked := Function.update s.blocked g blocked
    polls := Function.update s.polls g polls
    held := Function.update s.held g held
    queues := RunQueue.act (.pause g (!blocked && !held)) s.queues }

def addUrgent (c : C) (n : Int) : State C G :=
  { s with urgentCount := Function.update s.urgentCount c (s.urgentCount c + n) }

/-- `vcpu_urgent_count_update`. -/
def urgentCountUpdate (g : G) : State C G :=
  if s.isUrgent g then
    if s.blocked g = false ∨ s.polls g = false then
      { s with isUrgent := Function.update s.isUrgent g false }.addUrgent (s.processor g) (-1)
    else s
  else if s.blocked g ∧ s.polls g then
    { s with isUrgent := Function.update s.isUrgent g true }.addUrgent (s.processor g) 1
  else s

/-- `vcpu_runstate_change`. -/
def runstateChange (g : G) (newState : Runstate) : State C G :=
  let s := s.urgentCountUpdate g
  { s with runstate := Function.update s.runstate g newState }

/-- `vcpu_wake`. -/
def vcpuWake (g : G) (parked : Bool) : State C G :=
  if s.runnable g then
    let s := if (s.runstate g).sleeps then s.runstateChange g .runnable else s
    { s with queues := s.queues.vcpuWake g parked }
  else if s.blocked g = false then
    if s.runstate g = .blocked then s.runstateChange g .offline else s
  else s

/-- `vcpu_sleep_nosync`. -/
def vcpuSleep (g : G) : State C G :=
  if s.runnable g = false then
    let s := if s.runstate g = .runnable then s.runstateChange g .offline else s
    { s with queues := s.queues.vcpuSleep g }
  else s

/-- What becomes of the vCPU that has been current. -/
def deschedule : Vcpu C G → State C G
  | .idle _ => s
  | .guest g =>
    s.runstateChange g (if s.blocked g then .blocked else if s.runnable g then .runnable else .offline)

def dispatch : Vcpu C G → State C G
  | .idle _ => s
  | .guest g => s.runstateChange g .running

/-- `schedule()`. -/
def schedule (c : C) (taskletWork : Bool) (workers : List C) (suits : Vcpu C G → Bool) : State C G :=
  let prev := s.queues.curr c
  let s := { s with queues := s.queues.schedule c taskletWork workers suits }
  let next := s.queues.curr c
  if prev = next then s else (s.deschedule prev).dispatch next

/-- `vcpu_migrate` from where it holds both locks. `held` is what holds the vCPU when `_VPF_migrating` is
cleared, and `landed` where the `migrate` operation of the scheduler puts it; a scheduler without one puts
it on the new CPU. -/
def vcpuMigrate (g : G) (newCpu landed : C) (held parked : Bool) : State C G :=
  if s.queues.isRunning (.guest g) then s
  else
    let oldCpu := s.processor g
    let s := s.setFlags g (s.blocked g) (s.polls g) held
    let s := if s.isUrgent g ∧ oldCpu ≠ newCpu then (s.addUrgent newCpu 1).addUrgent oldCpu (-1) else s
    let s := { s with queues := RunQueue.act (.move g landed) s.queues }
    s.vcpuWake g parked

/-- One turn of the loop of `sched_move_domain`. -/
def moveVcpu (g : G) (newP : C) : State C G :=
  let queues := s.queues.vcpuRemove g
  let queues := RunQueue.act (.move g newP) queues
  { s with queues := queues.vcpuInsert (.guest g) }

/-- The loop of `sched_move_domain`, which goes round the CPUs of the pool. -/
def moveDomain (cpuValid : Nat → C) : List G → Nat → State C G → State C G
  | [], _, s => s
  | g :: vcpus, i, s => moveDomain cpuValid vcpus (i + 1) (s.moveVcpu g (cpuValid i))

/-- `sched_destroy_vcpu`. -/
def destroyVcpu (g : G) : State C G :=
  let s := if s.isUrgent g
    then { s with isUrgent := Function.update s.isUrgent g false }.addUrgent (s.processor g) (-1) else s
  { s with queues := s.queues.vcpuRemove g }

end State

inductive Step (C G : Type) where
  /-- `do_block` and `do_poll` set flags of the current vCPU, `vcpu_unblock`, `evtchn_set_pending` and the
  poll timer clear them, others pause and unpause. -/
  | flags (g : G) (blocked polls held : Bool)
  | wake (g : G) (parked : Bool)
  | sleep (g : G)
  | schedule (c : C) (taskletWork : Bool) (workers : List C) (suits : Vcpu C G → Bool)
  | contextSaved (g : G)
  | migrate (g : G) (newCpu landed : C) (held parked : Bool)
  | moveDomain (cpuValid : Nat → C) (vcpus : List G)
  | destroy (g : G)
  /-- `sched_init_vcpu` -/
  | insert (g : G)
  | sort (c : C)
  | yield (c : C) (byDefault : Bool)
  | account (g : G) (pri : Int)

variable {C G : Type} [DecidableEq C] [DecidableEq G] [Fintype C]

open State

def act (step : Step C G) (s : State C G) : State C G :=
  match step with
  | .flags g blocked polls held => s.setFlags g blocked polls held
  | .wake g parked => s.vcpuWake g parked
  | .sleep g => s.vcpuSleep g
  | .schedule c taskletWork workers suits => s.schedule c taskletWork workers suits
  | .contextSaved g => { s with queues := RunQueue.act (.contextSaved (.guest g)) s.queues }
  | .migrate g newCpu landed held parked => s.vcpuMigrate g newCpu landed held parked
  | .moveDomain cpuValid vcpus => State.moveDomain cpuValid vcpus 0 s
  | .destroy g => s.destroyVcpu g
  | .insert g => { s with queues := RunQueue.act (.insert (.guest g)) s.queues }
  | .sort c => { s with queues := RunQueue.act (.sort c) s.queues }
  | .yield c byDefault => { s with queues := RunQueue.act (.yield c byDefault) s.queues }
  | .account g pri => { s with queues := RunQueue.act (.account g pri) s.queues }

/-- How the callers call. -/
def Called (step : Step C G) (s : State C G) : Prop :=
  match step with
  -- a vCPU blocks itself
  | .flags g blocked polls _ => (∃ c, s.queues.curr c = .guest g) ∨
      (blocked = true → s.blocked g = true) ∧ (polls = true → s.polls g = true)
  | .contextSaved g => RunQueue.Called (.contextSaved (.guest g)) s.queues
  -- `domain_pause` waits until the vCPUs do not run
  | .moveDomain _ vcpus => ∀ g ∈ vcpus, s.runnable g = false ∧ s.queues.isRunning (.guest g) = false
  -- the vCPU is a new one
  | .insert g => s.isUrgent g = false
  | .yield c _ => RunQueue.Called (.yield c false) s.queues
  | .account g pri => RunQueue.Called (.account g pri) s.queues
  | _ => True

/-- All CPUs idle, no vCPU on a queue. -/
def init (processor : G → C) : State C G where
  queues := RunQueue.init processor
  isUrgent := fun _ => false
  blocked := fun _ => false
  polls := fun _ => false
  held := fun _ => true
  runstate := fun _ => .offline
  urgentCount := fun _ => 0

/-- The count of each CPU is the number of its urgent vCPUs. -/
def Counted [Fintype G] (s : State C G) : Prop :=
  ∀ c, s.urgentCount c = Tally.tally s.isUrgent s.processor c

instance [Fintype G] (s : State C G) : Decidable (Counted s) := inferInstanceAs (Decidable (∀ _, _ = _))

/-- The steps that take the count along. -/
def TakenAlong (step : Step C G) (s : State C G) : Prop :=
  match step with
  | .migrate g newCpu landed _ _ => s.queues.isRunning (.guest g) = false →
      ¬ s.queues.OnRunq (.guest g) ∧ (s.isUrgent g = true → landed = newCpu)
  | .moveDomain cpuValid vcpus => ∀ (i : Nat) (h : i < vcpus.length), s.isUrgent vcpus[i] = true →
      s.processor vcpus[i] = cpuValid i
  | _ => True

instance : ∀ (step : Step C G) (s : State C G), Decidable (Called step s)
  | .flags _ _ _ _, _ => inferInstanceAs (Decidable (_ ∨ _))
  | .contextSaved g, s => inferInstanceAs (Decidable (RunQueue.Called (.contextSaved (.guest g)) s.queues))
  | .moveDomain _ vcpus, _ => inferInstanceAs (Decidable (∀ g ∈ vcpus, _))
  | .insert _, _ => inferInstanceAs (Decidable (_ = _))
  | .yield c _, s => inferInstanceAs (Decidable (RunQueue.Called (.yield c false) s.queues))
  | .account g pri, s => inferInstanceAs (Decidable (RunQueue.Called (.account g pri) s.queues))
  | .wake _ _, _ => isTrue trivial
  | .sleep _, _ => isTrue trivial
  | .schedule _ _ _ _, _ => isTrue trivial
  | .migrate _ _ _ _ _, _ => isTrue trivial
  | .destroy _, _ => isTrue trivial
  | .sort _, _ => isTrue trivial

instance : ∀ (step : Step C G) (s : State C G), Decidable (TakenAlong step s)
  | .migrate _ _ _ _ _, _ => inferInstanceAs (Decidable (_ → _ ∧ (_ → _)))
  | .moveDomain _ vcpus, _ => inferInstanceAs (Decidable (∀ (i : Nat) (_ : i < vcpus.length), _ → _))
  | .flags _ _ _ _, _ => isTrue trivial
  | .wake _ _, _ => isTrue trivial
  | .sleep _, _ => isTrue trivial
  | .schedule _ _ _ _, _ => isTrue trivial
  | .contextSaved _, _ => isTrue trivial
  | .destroy _, _ => isTrue trivial
  | .insert _, _ => isTrue trivial
  | .sort _, _ => isTrue trivial
  | .yield _ _, _ => isTrue trivial
  | .account _ _, _ => isTrue trivial

/-! ## The invariant -/

section Invariant

variable [Fintype G] {s : State C G} {c : C} {g : G}

namespace State

/-- A vCPU in a queue is not urgent, since it only blocks while it is current. `x` is a CPU whose new current
vCPU has not been dispatched yet. -/
structure Inv (x : Option C) (s : State C G) : Prop where
  queues : s.queues.Inv none
  agree : ∀ g, s.queues.runnable (.guest g) = s.runnable g
  queued : ∀ g, s.queues.OnRunq (.guest g) → s.blocked g = false ∧ s.isUrgent g = false
  current : ∀ c g, x ≠ some c → s.queues.curr c = .guest g → s.runstate g = .running
  awake : ∀ g, (s.runstate g).sleeps = false → s.isUrgent g = false
  counted : Counted s

omit [DecidableEq C] [DecidableEq G] [Fintype C] [Fintype G] in
theorem runnable_blocked (h : s.runnable g = true) : s.blocked g = false := by
  unfold runnable at h
  simpa using (Bool.and_eq_true_iff.mp h).1

/-- An update of the count only looks at the flags and keeps the count right. -/
structure Recounted (g : G) (s s' : State C G) : Prop where
  queues : s'.queues = s.queues
  blocked : s'.blocked = s.blocked
  polls : s'.polls = s.polls
  held : s'.held = s.held
  runstate : s'.runstate = s.runstate
  other : ∀ g', g' ≠ g → s'.isUrgent g' = s.isUrgent g'
  urgent : s'.isUrgent g = (s.blocked g && s.polls g)
  counted : Counted s → Counted s'

omit [DecidableEq G] [Fintype C] [Fintype G] in
theorem addUrgent_count (s : State C G) (c : C) (n : Int) (c' : C) :
    (s.addUrgent c n).urgentCount c' = s.urgentCount c' + if c = c' then n else 0 := by
  change Function.update s.urgentCount c (s.urgentCount c + n) c' = _
  by_cases heq : c = c'
  · rw [heq, Function.update_self, if_pos rfl]
  · rw [Function.update_of_ne (Ne.symm heq), if_neg heq, add_zero]

/-- A vCPU stops being urgent. -/
theorem Counted.turnOff (h : Counted s) (hurgent : s.isUrgent g = true) :
    Counted ({ s with isUrgent := Function.update s.isUrgent g false }.addUrgent (s.processor g) (-1)) := by
  intro c
  have hoff := Tally.tally_off hurgent s.processor c
  have hc := h c
  rw [addUrgent_count]
  change s.urgentCount c + _ = ((Tally.tally (Function.update s.isUrgent g false) s.processor c : Nat) : Int)
  split at hoff
  · next heq =>
    rw [if_pos heq]
    omega
  · next hne =>
    rw [if_neg hne]
    omega

/-- A vCPU becomes urgent. -/
theorem Counted.turnOn (h : Counted s) (hcalm : s.isUrgent g = false) :
    Counted ({ s with isUrgent := Function.update s.isUrgent g true }.addUrgent (s.processor g) 1) := by
  intro c
  have hon := Tally.tally_on hcalm s.processor c
  have hc := h c
  rw [addUrgent_count]
  change s.urgentCount c + _ = ((Tally.tally (Function.update s.isUrgent g true) s.processor c : Nat) : Int)
  split at hon
  · next heq =>
    rw [if_pos heq]
    omega
  · next hne =>
    rw [if_neg hne]
    omega

theorem urgentCountUpdate_recounted (s : State C G) (g : G) : Recounted g s (s.urgentCountUpdate g) := by
  unfold urgentCountUpdate
  split
  · next hurgent =>
    split
    · next hcalm =>
      -- no longer urgent
      refine ⟨rfl, rfl, rfl, rfl, rfl, fun g' hg => Function.update_of_ne hg .., ?_, ?_⟩
      · unfold addUrgent
        dsimp only
        rw [Function.update_self]
        rcases hcalm with h | h <;> simp [h]
      · exact fun hcounted => Counted.turnOff hcounted hurgent
    · next hstill =>
      refine ⟨rfl, rfl, rfl, rfl, rfl, fun _ _ => rfl, ?_, id⟩
      rw [not_or] at hstill
      rw [hurgent]
      simpa using hstill
  · next hcalm =>
    have hcalm : s.isUrgent g = false := by simpa using hcalm
    split
    · next hblocks =>
      refine ⟨rfl, rfl, rfl, rfl, rfl, fun g' hg => Function.update_of_ne hg .., ?_, ?_⟩
      · unfold addUrgent
        dsimp only
        rw [Function.update_self, hblocks.1, hblocks.2]
        rfl
      · exact fun hcounted => Counted.turnOn hcounted hcalm
    · next hnot =>
      refine ⟨rfl, rfl, rfl, rfl, rfl, fun _ _ => rfl, ?_, id⟩
      rw [hcalm]
      symm
      simpa using hnot

omit [DecidableEq G] [Fintype C] in
/-- A vCPU that is not urgent is given another processor. -/
theorem Counted.congr {s' : State C G} (h : Counted s) (hcount : s'.urgentCount = s.urgentCount)
    (hurgent : s'.isUrgent = s.isUrgent)
    (hprocessor : ∀ g, s.isUrgent g = true → s'.processor g = s.processor g) : Counted s' := by
  intro c
  rw [hcount, h c, hurgent]
  unfold Tally.tally
  congr 1
  refine Finset.sum_congr rfl fun g _ => ?_
  cases hg : s.isUrgent g with
  | false => rfl
  | true => rw [hprocessor g hg]

theorem Inv.runstateChange {x y : Option C} (hs : s.Inv x) {newState : Runstate}
    (hcalm : newState.sleeps = false → s.blocked g = false)
    (hcurrent : ∀ c g', y ≠ some c → s.queues.curr c = .guest g' →
      g' = g ∧ newState = .running ∨ g' ≠ g ∧ x ≠ some c) :
    (s.runstateChange g newState).Inv y := by
  have hup := urgentCountUpdate_recounted s g
  unfold State.runstateChange
  have hurgent : ∀ g', s.isUrgent g' = false → (g' = g → s.blocked g = false) →
      (s.urgentCountUpdate g).isUrgent g' = false := by
    intro g' hold hg
    by_cases heq : g' = g
    · rw [heq, hup.urgent, hg heq]
      rfl
    · rw [hup.other g' heq, hold]
  constructor
  · dsimp only
    rw [hup.queues]
    exact hs.queues
  · intro g'
    change (s.urgentCountUpdate g).queues.runnable (.guest g') =
      (!(s.urgentCountUpdate g).blocked g' && !(s.urgentCountUpdate g).held g')
    rw [hup.queues, hup.blocked, hup.held]
    exact hs.agree g'
  · intro g' hon
    dsimp only at hon ⊢
    rw [hup.queues] at hon
    obtain ⟨hblocked, hold⟩ := hs.queued g' hon
    rw [hup.blocked]
    exact ⟨hblocked, hurgent g' hold fun h => h ▸ hblocked⟩
  · intro c g' hy hc
    dsimp only at hc ⊢
    rw [hup.queues] at hc
    rw [hup.runstate]
    rcases hcurrent c g' hy hc with ⟨rfl, hrun⟩ | ⟨hne, hx⟩
    · rw [Function.update_self]
      exact hrun
    · rw [Function.update_of_ne hne]
      exact hs.current c g' hx hc
  · intro g' hawake
    dsimp only at hawake ⊢
    rw [hup.runstate] at hawake
    by_cases heq : g' = g
    · subst heq
      rw [Function.update_self] at hawake
      rw [hup.urgent, hcalm hawake]
      rfl
    · rw [Function.update_of_ne heq] at hawake
      rw [hup.other g' heq]
      exact hs.awake g' hawake
  · exact hup.counted hs.counted

/-- A vCPU of which no CPU is current. -/
theorem Inv.runstateChange_off (hs : s.Inv none) {newState : Runstate}
    (hcalm : newState.sleeps = false → s.blocked g = false) (hoff : ∀ c, s.queues.curr c ≠ .guest g) :
    (s.runstateChange g newState).Inv none :=
  hs.runstateChange hcalm fun c _ _ hc => .inr ⟨fun h => hoff c (h ▸ hc), nofun⟩

omit [DecidableEq G] [Fintype C] in
theorem Inv.off (hs : s.Inv none) (h : s.runstate g ≠ .running) (c : C) : s.queues.curr c ≠ .guest g :=
  fun hc => h (hs.current c g nofun hc)

/-- A step of the queues, in which urgent vCPUs keep their processors. -/
theorem Inv.requeue {x y : Option C} (hs : s.Inv x) {queues : RunQueue.State C G} (hqueues : queues.Inv none)
    (hrunnable : ∀ g, queues.runnable (.guest g) = s.queues.runnable (.guest g))
    (hon : ∀ g, queues.OnRunq (.guest g) →
      s.queues.OnRunq (.guest g) ∨ s.blocked g = false ∧ s.isUrgent g = false)
    (hcurr : ∀ c g, y ≠ some c → queues.curr c = .guest g →
      x ≠ some c ∧ s.queues.curr c = .guest g)
    (hprocessor : ∀ g, s.isUrgent g = true → queues.processor (.guest g) = s.processor g) :
    Inv y { s with queues := queues } where
  queues := hqueues
  agree := fun g => (hrunnable g).trans (hs.agree g)
  queued := fun g h => (hon g h).elim (hs.queued g) id
  current := fun c g hy hc => hs.current c g (hcurr c g hy hc).1 (hcurr c g hy hc).2
  awake := hs.awake
  counted := Counted.congr hs.counted rfl rfl hprocessor

/-- The queue of a CPU before its new current vCPU is dispatched. -/
theorem Inv.decide (hs : s.Inv none) (c : C) (taskletWork : Bool) (workers : List C)
    (suits : Vcpu C G → Bool) :
    Inv (some c) { s with queues := s.queues.schedule c taskletWork workers suits } := by
  have hdecided := hs.queues.decided c taskletWork workers suits
  have hcalm : ∀ g, s.queues.curr c = .guest g → s.isUrgent g = false := by
    intro g hc
    apply hs.awake
    rw [hs.current c g nofun hc]
    rfl
  apply hs.requeue (hs.queues.schedule c taskletWork workers suits)
  · intro g
    rw [hdecided.runnable]
  · intro g hon
    rcases hdecided.onRunq _ hon with hold | ⟨hc, hrunnable⟩
    · exact .inl hold
    · rw [hs.agree] at hrunnable
      exact .inr ⟨runnable_blocked hrunnable, hcalm g hc.symm⟩
  · intro c' g hne hc'
    rw [hdecided.curr c' fun h => hne (h ▸ rfl)] at hc'
    exact ⟨nofun, hc'⟩
  · intro g hurgent
    apply hdecided.processor
    intro hnext
    have hnot : s.isUrgent g = false := by
      rcases hdecided.next with hprev | hidle | hon
      · exact hcalm g (by rw [← hprev, ← hnext])
      · rw [← hnext] at hidle
        cases hidle
      · rw [← hnext] at hon
        exact (hs.queued g hon).2
    rw [hnot] at hurgent
    cases hurgent

theorem Inv.schedule (hs : s.Inv none) (c : C) (taskletWork : Bool) (workers : List C)
    (suits : Vcpu C G → Bool) : (s.schedule c taskletWork workers suits).Inv none := by
  have hdecide := hs.decide c taskletWork workers suits
  have hdecided := hs.queues.decided c taskletWork workers suits
  unfold State.schedule
  generalize hqueues : s.queues.schedule c taskletWork workers suits = queues at hdecide hdecided ⊢
  dsimp only
  -- the current vCPU of the CPU is as good as dispatched
  have hdone : ∀ {s' : State C G}, s'.Inv (some c) →
      (∀ g, s'.queues.curr c = .guest g → s'.runstate g = .running) → s'.Inv none := by
    intro s' hs' hrun
    refine { hs' with current := fun c' g _ hc' => ?_ }
    by_cases heq : c' = c
    · subst heq
      exact hrun g hc'
    · exact hs'.current c' g (fun h => heq (Option.some.inj h).symm) hc'
  split
  · next hsame =>
    apply hdone hdecide
    intro g hg
    exact hs.current c g nofun (hsame.trans hg)
  · next hne =>
    -- the vCPU that has been current is not so elsewhere
    have hprev : ∀ c', some c ≠ some c' → queues.curr c' ≠ s.queues.curr c := by
      intro c' hc' heq
      have hne' : c' ≠ c := fun h => hc' (h ▸ rfl)
      rw [hdecided.curr c' hne'] at heq
      have hhome := hs.queues.current c'
      rw [heq, hs.queues.current] at hhome
      exact hne' hhome.symm
    have hdesched : ∀ v, v = s.queues.curr c →
        (({ s with queues := queues } : State C G).deschedule v).Inv (some c) ∧
          (({ s with queues := queues } : State C G).deschedule v).queues = queues ∧
          (({ s with queues := queues } : State C G).deschedule v).blocked = s.blocked := by
      rintro (c₀ | g) hv
      · exact ⟨hdecide, rfl, rfl⟩
      · have hup := urgentCountUpdate_recounted ({ s with queues := queues } : State C G) g
        refine ⟨hdecide.runstateChange ?_ ?_, hup.queues, hup.blocked⟩
        · intro hawake
          by_cases hb : s.blocked g = true
          · simp [hb, Runstate.sleeps] at hawake
          · simpa using hb
        · intro c' g' hne' hc'
          refine .inr ⟨?_, hne'⟩
          rintro rfl
          exact hprev c' hne' (hc'.trans hv)
    obtain ⟨hinv, hq, hblocked⟩ := hdesched _ rfl
    generalize ({ s with queues := queues } : State C G).deschedule (s.queues.curr c) = s' at hinv hq hblocked
    unfold dispatch
    split
    · next hidle =>
      apply hdone hinv
      intro g hg
      rw [hq, hidle] at hg
      cases hg
    · next g hg =>
      have hwaits : s.queues.OnRunq (.guest g) := by
        rcases hdecided.next with heq | hidle | hon
        · exact absurd heq.symm hne
        · rw [hg] at hidle
          cases hidle
        · exact hg ▸ hon
      apply hinv.runstateChange
      · intro _
        rw [hblocked]
        exact (hs.queued g hwaits).1
      · intro c' g' _ hc'
        rw [hq] at hc'
        by_cases heq : g' = g
        · exact .inl ⟨heq, rfl⟩
        · refine .inr ⟨heq, ?_⟩
          rintro ⟨⟩
          rw [hg] at hc'
          exact heq (Vcpu.guest.inj hc').symm

/-- A call that at most puts `g` into a queue, or takes it out of one. -/
theorem Inv.queues_step (hs : s.Inv none) {queues : RunQueue.State C G} (hqueues : queues.Inv none)
    (hstep : RunQueue.State.Queues g s.queues queues)
    (hcalm : queues.OnRunq (.guest g) →
      s.queues.OnRunq (.guest g) ∨ s.blocked g = false ∧ s.isUrgent g = false) :
    Inv none { s with queues := queues } := by
  apply hs.requeue hqueues
  · intro g'
    rw [hstep.runnable]
  · intro g' hon
    rcases hstep.onRunq _ hon with hold | heq
    · exact .inl hold
    · cases heq
      exact hcalm hon
  · intro c g' _ hc
    rw [hstep.curr] at hc
    exact ⟨nofun, hc⟩
  · intro g' _
    rw [hstep.processor]
    rfl

theorem Inv.vcpuWake (hs : s.Inv none) (g : G) (parked : Bool) : (s.vcpuWake g parked).Inv none := by
  unfold State.vcpuWake
  split
  · next hrunnable =>
    have hblocked := runnable_blocked hrunnable
    dsimp only
    split
    · next hsleeps =>
      have hoff : s.runstate g ≠ .running := by
        intro h
        rw [h] at hsleeps
        cases hsleeps
      have hwoken : (s.runstateChange g .runnable).Inv none :=
        hs.runstateChange_off (fun _ => hblocked) (hs.off hoff)
      have hup := urgentCountUpdate_recounted s g
      apply hwoken.queues_step (hwoken.queues.vcpuWake g parked) (RunQueue.State.vcpuWake_queues _ g parked)
      intro _
      refine .inr ⟨(congrFun hup.blocked g).trans hblocked, hup.urgent.trans ?_⟩
      rw [hblocked]
      rfl
    · next hawake =>
      apply hs.queues_step (hs.queues.vcpuWake g parked) (RunQueue.State.vcpuWake_queues _ g parked)
      intro _
      exact .inr ⟨hblocked, hs.awake g (by simpa using hawake)⟩
  · split
    · next hblocked =>
      split
      · next hstate =>
        apply hs.runstateChange_off (fun _ => hblocked)
        apply hs.off
        rw [hstate]
        decide
      · exact hs
    · exact hs

theorem Inv.vcpuSleep (hs : s.Inv none) (g : G) : (s.vcpuSleep g).Inv none := by
  have hqueues : ∀ {s' : State C G}, s'.Inv none → Inv none { s' with queues := s'.queues.vcpuSleep g } := by
    intro s' hs'
    apply hs'.queues_step (hs'.queues.vcpuSleep g) (RunQueue.State.vcpuSleep_queues _ g)
    exact fun hon => .inl (RunQueue.State.vcpuSleep_onRunq hon)
  unfold State.vcpuSleep
  split
  · dsimp only
    split
    · next hstate =>
      apply hqueues
      apply hs.runstateChange_off (fun h => by cases h)
      apply hs.off
      rw [hstate]
      decide
    · exact hqueues hs
  · exact hs

theorem Inv.setFlags (hs : s.Inv none) {blocked polls held : Bool}
    (h : (∃ c, s.queues.curr c = .guest g) ∨ (blocked = true → s.blocked g = true)) :
    (s.setFlags g blocked polls held).Inv none := by
  constructor
  · have hcalled : RunQueue.Called (.pause g (!blocked && !held)) s.queues := trivial
    exact hs.queues.act hcalled
  · intro g'
    change Function.update s.queues.runnable (.guest g) (!blocked && !held) (.guest g') =
      (!Function.update s.blocked g blocked g' && !Function.update s.held g held g')
    by_cases hg : g' = g
    · subst hg
      simp only [Function.update_self]
    · rw [Function.update_of_ne hg, Function.update_of_ne hg, Function.update_of_ne fun h => hg (Vcpu.guest.inj h)]
      exact hs.agree g'
  · intro g' hon
    obtain ⟨hblocked, hcalm⟩ := hs.queued g' hon
    refine ⟨?_, hcalm⟩
    change Function.update s.blocked g blocked g' = false
    by_cases hg : g' = g
    · subst hg
      rw [Function.update_self]
      rcases h with ⟨c, hc⟩ | hclear
      · have hoff := hs.queues.current_off c
        rw [hc] at hoff
        exact absurd hon hoff
      · cases blocked with
        | false => rfl
        | true => rw [hclear rfl] at hblocked; exact hblocked
    · rw [Function.update_of_ne hg]
      exact hblocked
  · exact hs.current
  · exact hs.awake
  · exact hs.counted

/-- A vCPU that is off the queues and not current gets another processor, and the count follows. -/
theorem Inv.moved (hs : s.Inv none) (landed : C) (hoff : ¬ s.queues.OnRunq (.guest g))
    (hcurr : ∀ c, s.queues.curr c ≠ .guest g) (count : C → Int)
    (hcount : ∀ c, count c + (if s.isUrgent g = true ∧ s.processor g = c then 1 else 0) =
      s.urgentCount c + if s.isUrgent g = true ∧ landed = c then 1 else 0) :
    Inv none { s with queues := RunQueue.act (.move g landed) s.queues, urgentCount := count } := by
  constructor
  · have hcalled : RunQueue.Called (.move g landed) s.queues := ⟨hoff, hcurr⟩
    exact hs.queues.act hcalled
  · exact hs.agree
  · exact hs.queued
  · exact hs.current
  · exact hs.awake
  · intro c
    have hnew : ∀ g', g' ≠ g → Function.update s.queues.processor (.guest g) landed (.guest g') = s.processor g' :=
      fun g' hg => Function.update_of_ne (fun h => hg (Vcpu.guest.inj h)) ..
    have hchange := Tally.tally_change g (fun g' _ => rfl : ∀ g', g' ≠ g → s.isUrgent g' = s.isUrgent g') hnew c
    have hc := hs.counted c
    have hcount := hcount c
    rw [Function.update_self] at hchange
    have hweight : ∀ a, ((Tally.weight (s.isUrgent g) a c : Nat) : Int) =
        if s.isUrgent g = true ∧ a = c then 1 else 0 := by
      intro a
      unfold Tally.weight
      split <;> rfl
    rw [← hweight, ← hweight] at hcount
    change count c = ((Tally.tally s.isUrgent
      (fun g' => Function.update s.queues.processor (.guest g) landed (.guest g')) c : Nat) : Int)
    change _ + Tally.weight (s.isUrgent g) (s.processor g) c = _ at hchange
    omega

/-- The transfer in `vcpu_migrate`. -/
theorem Inv.vcpuMigrate (hs : s.Inv none) {newCpu landed : C} (held parked : Bool)
    (h : s.queues.isRunning (.guest g) = false →
      ¬ s.queues.OnRunq (.guest g) ∧ (s.isUrgent g = true → landed = newCpu)) :
    (s.vcpuMigrate g newCpu landed held parked).Inv none := by
  unfold State.vcpuMigrate
  split
  · exact hs
  · next hrun =>
    obtain ⟨hoff, hland⟩ := h (by simpa using hrun)
    have hcurr : ∀ c, s.queues.curr c ≠ .guest g := by
      intro c hc
      apply hrun
      rw [← hc]
      exact hs.queues.running c
    have hflags : (s.setFlags g (s.blocked g) (s.polls g) held).Inv none := hs.setFlags (.inr id)
    dsimp only
    apply Inv.vcpuWake
    have hprocessor : (s.setFlags g (s.blocked g) (s.polls g) held).processor g = s.processor g := rfl
    split
    · next hmoves =>
      obtain ⟨hurgent, hne⟩ := hmoves
      have hto : landed = newCpu := hland hurgent
      subst hto
      refine hflags.moved landed hoff hcurr _ (fun c => ?_)
      rw [addUrgent_count, addUrgent_count, hprocessor]
      simp only [hurgent, true_and]
      by_cases hold : s.processor g = c
      · subst hold
        rw [if_neg (Ne.symm hne), if_pos rfl, if_pos rfl]
        omega
      · rw [if_neg hold, if_neg hold]
        omega
    · next hstays =>
      refine hflags.moved landed hoff hcurr _ (fun c => ?_)
      rw [hprocessor]
      by_cases hurgent : (s.setFlags g (s.blocked g) (s.polls g) held).isUrgent g = true
      · have hsame : s.processor g = newCpu := by
          by_contra hne
          exact hstays ⟨hurgent, hne⟩
        rw [hland hurgent, hsame]
      · rw [if_neg fun h => hurgent h.1, if_neg fun h => hurgent h.1]

/-- One turn of the loop of `sched_move_domain`, with the count where it is. -/
theorem Inv.moveVcpu (hs : s.Inv none) {newP : C} (hheld : s.runnable g = false)
    (hrun : s.queues.isRunning (.guest g) = false) (h : s.isUrgent g = true → s.processor g = newP) :
    (s.moveVcpu g newP).Inv none := by
  have hremove := RunQueue.State.vcpuRemove_queues s.queues g
  have hremoved : Inv none { s with queues := s.queues.vcpuRemove g } :=
    hs.queues_step (hs.queues.vcpuRemove g) hremove fun hon => absurd hon (hs.queues.vcpuRemove_off g)
  have hcurr : ∀ c, (s.queues.vcpuRemove g).curr c ≠ .guest g := by
    intro c hc
    rw [hremove.curr] at hc
    have hruns := hs.queues.running c
    rw [hc, hrun] at hruns
    cases hruns
  have hprocessor : ({ s with queues := s.queues.vcpuRemove g } : State C G).processor g = s.processor g :=
    congrFun hremove.processor _
  have hmoved := hremoved.moved newP (hs.queues.vcpuRemove_off g) hcurr s.urgentCount
    fun c => by
      rw [hprocessor]
      by_cases hurgent : s.isUrgent g = true
      · rw [h hurgent]
      · rw [if_neg fun h => hurgent h.1, if_neg fun h => hurgent h.1]
  -- the vCPU is paused and stays off the queues
  unfold State.moveVcpu
  dsimp only
  have hpaused : (RunQueue.act (.move g newP) (s.queues.vcpuRemove g)).runnable (.guest g) = false := by
    change (s.queues.vcpuRemove g).runnable (.guest g) = false
    rw [hremove.runnable, hs.agree]
    exact hheld
  rw [(RunQueue.State.vcpuInsert_queues _ g).2 hpaused]
  exact hmoved

omit [Fintype G] in
theorem moveVcpu_frame (s : State C G) (g : G) (newP : C) :
    (s.moveVcpu g newP).isUrgent = s.isUrgent ∧ (∀ g', (s.moveVcpu g newP).runnable g' = s.runnable g') ∧
      (s.moveVcpu g newP).queues.isRunning = s.queues.isRunning ∧
      ∀ g', (s.moveVcpu g newP).processor g' = if g' = g then newP else s.processor g' := by
  have hremove := RunQueue.State.vcpuRemove_queues s.queues g
  have hinsert := (RunQueue.State.vcpuInsert_queues (RunQueue.act (.move g newP) (s.queues.vcpuRemove g)) g).1
  refine ⟨rfl, fun _ => rfl, hinsert.isRunning.trans hremove.isRunning, fun g' => ?_⟩
  refine (congrFun hinsert.processor _).trans ?_
  change Function.update (s.queues.vcpuRemove g).processor (.guest g) newP (.guest g') = _
  rw [hremove.processor]
  split
  · next heq => rw [heq, Function.update_self]
  · next hne => exact Function.update_of_ne (fun h => hne (Vcpu.guest.inj h)) ..

theorem Inv.moveDomain (cpuValid : Nat → C) (vcpus : List G) (i : Nat) (hs : s.Inv none)
    (hpaused : ∀ g ∈ vcpus, s.runnable g = false ∧ s.queues.isRunning (.guest g) = false)
    (h : ∀ (j : Nat) (hj : j < vcpus.length), s.isUrgent vcpus[j] = true →
      s.processor vcpus[j] = cpuValid (i + j)) :
    (State.moveDomain cpuValid vcpus i s).Inv none := by
  induction vcpus generalizing i s with
  | nil => exact hs
  | cons g vcpus ih =>
    obtain ⟨hurgent, hrunnable, hrunning, hprocessor⟩ := moveVcpu_frame s g (cpuValid i)
    obtain ⟨hheld, hrun⟩ := hpaused g List.mem_cons_self
    have hfirst : s.isUrgent g = true → s.processor g = cpuValid i := h 0 (Nat.succ_pos _)
    apply ih (i + 1) (hs.moveVcpu hheld hrun hfirst)
    · intro g' hg'
      rw [hrunnable, hrunning]
      exact hpaused g' (List.mem_cons_of_mem g hg')
    · intro j hj hg'
      rw [hurgent] at hg'
      have hold := h (j + 1) (Nat.succ_lt_succ hj) hg'
      rw [List.getElem_cons_succ] at hold
      rw [hprocessor, Nat.add_assoc, Nat.add_comm 1 j, ← hold]
      split
      · next heq =>
        rw [heq] at hg' ⊢
        exact (hfirst hg').symm
      · rfl

theorem Inv.destroyVcpu (hs : s.Inv none) (g : G) : (s.destroyVcpu g).Inv none := by
  have hcalm : Inv none (if s.isUrgent g
      then { s with isUrgent := Function.update s.isUrgent g false }.addUrgent (s.processor g) (-1) else s) := by
    split
    · next hurgent =>
      have hless : ∀ g', s.isUrgent g' = false → Function.update s.isUrgent g false g' = false := by
        intro g' hold
        by_cases hg : g' = g
        · rw [hg, Function.update_self]
        · rw [Function.update_of_ne hg, hold]
      constructor
      · exact hs.queues
      · exact hs.agree
      · exact fun g' hon => ⟨(hs.queued g' hon).1, hless g' (hs.queued g' hon).2⟩
      · exact hs.current
      · exact fun g' hawake => hless g' (hs.awake g' hawake)
      · exact Counted.turnOff hs.counted hurgent
    · exact hs
  unfold State.destroyVcpu
  exact hcalm.queues_step (hcalm.queues.vcpuRemove g) (RunQueue.State.vcpuRemove_queues _ g)
    fun hon => absurd hon (hcalm.queues.vcpuRemove_off g)

/-- A step of the queues alone that moves no vCPU. -/
theorem Inv.queues_act (hs : s.Inv none) (step : RunQueue.Step C G) (hcalled : RunQueue.Called step s.queues)
    (hrunnable : (RunQueue.act step s.queues).runnable = s.queues.runnable)
    (hcurr : (RunQueue.act step s.queues).curr = s.queues.curr)
    (hprocessor : (RunQueue.act step s.queues).processor = s.queues.processor)
    (hon : ∀ w, (RunQueue.act step s.queues).OnRunq w → s.queues.OnRunq w) :
    Inv none { s with queues := RunQueue.act step s.queues } := by
  apply hs.requeue (hs.queues.act hcalled)
  · intro g
    rw [hrunnable]
  · exact fun g h => .inl (hon _ h)
  · intro c g _ hc
    rw [hcurr] at hc
    exact ⟨nofun, hc⟩
  · intro g _
    rw [hprocessor]
    rfl

end State

theorem State.Inv.act {step : Step C G} {s : State C G} (hcalled : Called step s) (halong : TakenAlong step s)
    (hs : s.Inv none) : (act step s).Inv none := by
  cases step with
  | flags g blocked polls held =>
    exact hs.setFlags (hcalled.imp_right fun h => h.1)
  | wake g parked => exact hs.vcpuWake g parked
  | sleep g => exact hs.vcpuSleep g
  | schedule c taskletWork workers suits => exact hs.schedule c taskletWork workers suits
  | contextSaved g => exact hs.queues_act _ hcalled rfl rfl rfl fun _ => id
  | migrate g newCpu landed held parked => exact hs.vcpuMigrate held parked halong
  | moveDomain cpuValid vcpus =>
    refine hs.moveDomain cpuValid vcpus 0 hcalled fun i hi hg => ?_
    rw [Nat.zero_add]
    exact halong i hi hg
  | destroy g => exact hs.destroyVcpu g
  | insert g =>
    -- the vCPU is only inserted if it is runnable
    apply hs.queues_step (hs.queues.vcpuInsert (.guest g)) (RunQueue.State.vcpuInsert_queues _ g).1
    intro hon
    cases hrunnable : s.queues.runnable (.guest g) with
    | false =>
      rw [(RunQueue.State.vcpuInsert_queues _ g).2 hrunnable] at hon
      exact .inl hon
    | true =>
      rw [hs.agree] at hrunnable
      exact .inr ⟨runnable_blocked hrunnable, hcalled⟩
  | sort c => exact hs.queues_act (.sort c) trivial rfl rfl rfl fun w => RunQueue.State.runqSort_onRunq
  | yield c byDefault =>
    have hsame : ∀ q : RunQueue.State C G, (q.vcpuYield c byDefault).runnable = q.runnable ∧
        (q.vcpuYield c byDefault).curr = q.curr ∧ (q.vcpuYield c byDefault).processor = q.processor ∧
        (q.vcpuYield c byDefault).runq = q.runq := by
      intro q
      unfold RunQueue.State.vcpuYield
      split <;> exact ⟨rfl, rfl, rfl, rfl⟩
    obtain ⟨hrunnable, hcurr, hprocessor, hrunq⟩ := hsame s.queues
    refine hs.queues_act (.yield c byDefault) hcalled hrunnable hcurr hprocessor fun w hw => ?_
    obtain ⟨c', hw⟩ := hw
    exact ⟨c', hrunq ▸ hw⟩
  | account g pri => exact hs.queues_act (.account g pri) hcalled rfl rfl rfl fun _ => id

theorem inv_init (processor : G → C) : (init processor : State C G).Inv none where
  queues := RunQueue.inv_init processor
  agree := fun _ => rfl
  queued := fun _ ⟨_, h⟩ => absurd h List.not_mem_nil
  current := fun _ _ _ h => by cases h
  awake := fun _ _ => rfl
  counted := fun c => by
    have hnone := Tally.tally_none (fun _ => rfl) (init processor : State C G).processor c
    exact (congrArg Nat.cast hnone).symm

/-- As long as each operation that gives a vCPU another processor takes the count along, the count of
each CPU is the number of its urgent vCPUs. -/
theorem run_countsUrgent (processor : G → C) (steps : List (Step C G))
    (hcalled : Runs.Each act Called steps (init processor))
    (halong : Runs.Each act TakenAlong steps (init processor)) :
    Runs.Each act (fun step s => Counted (act step s)) steps (init processor) := by
  apply Runs.Each.of_inv (I := State.Inv none) _ _ (hcalled.and halong) (inv_init processor)
  · exact fun step s h hs => State.Inv.act h.1 h.2 hs
  · exact fun step s h hs => (State.Inv.act h.1 h.2 hs).counted

/-- A vCPU of the CPU `false` blocks, polls, and is urgent when it does not run any more. -/
def pollsOn : List (Step Bool Unit) :=
  [.flags () false false false, .wake () false, .schedule false false [] (fun _ => true),
    .flags () true true false, .schedule false false [] (fun _ => true), .contextSaved ()]

/-- It migrates, its domain is moved to where it is, and it is woken and destroyed. -/
theorem run_countsUrgent_migrated :
    Runs.Each act (fun step s => Counted (act step s))
      (pollsOn ++ [.migrate () true true false false, .flags () true true true,
        .moveDomain (fun _ => true) [()], .flags () false false false, .wake () false, .destroy ()])
      (init fun _ => false) :=
  run_countsUrgent _ _ (by decide +kernel) (by decide +kernel)

/-- Its domain is moved to the CPU `true`, and the count stays at the CPU `false`. -/
theorem moveDomain_uncounted :
    Runs.Each act Called (pollsOn ++ [.flags () true true true, .moveDomain (fun _ => true) [()]])
        (init fun _ => false) ∧
      ¬ Runs.Each act (fun step s => Counted (act step s))
        (pollsOn ++ [.flags () true true true, .moveDomain (fun _ => true) [()]]) (init fun _ => false) := by
  decide +kernel

end Invariant

end Sched.Urgent
