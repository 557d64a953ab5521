import Mathlib
import MemoryMonitor.Lib.Runs

/-!
# The second credit scheduler

The run queues of `xen/common/sched_credit2.c`, each of which several CPUs share. The vCPUs of a queue wait in
the order of their credit. A vCPU that is switched out stays flagged as scheduled until its context has been
saved, and only then goes back to the queue, or leaves the load of the queue.

A step is what is done under the lock of a queue, or one write that is done without it: `context_saved` clears
`is_running` first, and `csched_dom_cntl` takes the lock for each vCPU anew. The load averages, which choose
what `balance_load` moves and where, are left out: the choice is an argument. A `BUG_ON` that is hit sets `bug`.
`slept`, `saving`, `schedIn`, `schedOut` and `burns` are only there to be reasoned about.
-/

namespace Sched.Credit2

/-- `CSCHED_DEFAULT_WEIGHT`. -/
def defaultWeight : Int := 256
/-- `CSCHED_CREDIT_INIT`, in nanoseconds. -/
def creditInit : Int := 10000000
/-- `CSCHED_CARRYOVER_MAX`. -/
def carryoverMax : Int := 500000
/-- `CSCHED_MIGRATE_COMPENSATION`. -/
def migrateCompensation : Int := 50000
/-- `CSCHED_CREDIT_RESET`. -/
def creditReset : Int := 0
/-- `CSCHED_IDLE_CREDIT`. -/
def idleCredit : Int := -2 ^ 30

/-- The CPUs with their queues, and the vCPUs with their domains. -/
structure Machine (V C Q D : Type) where
  c2r : C → Q
  /-- the mask of a queue, in the order of the CPUs -/
  active : Q → List C
  mem_active : ∀ c q, c ∈ active q ↔ c2r c = q
  active_ne : ∀ q, active q ≠ []
  domain : V → D
  /-- `CSCHED_MIGRATE_RESIST` -/
  migrateResist : Int

/-- `first_cpu(rqd->active)`. -/
def Machine.firstCpu {V C Q D : Type} (m : Machine V C Q D) (q : Q) : C := (m.active q).head (m.active_ne q)

/-- What `burn_credits` has taken from a vCPU, and for which time. -/
structure Burn where
  since : Int
  till : Int
  lost : Int
  maxWeight : Int
  weight : Int
  deriving DecidableEq

structure State (V C Q D : Type) where
  processor : V → C
  /-- the current vCPU of a CPU; `none` is the idle one -/
  curr : C → Option V
  isRunning : V → Bool
  /-- `_VPF_migrating` -/
  migrating : V → Bool
  /-- all else that keeps a vCPU from running -/
  held : V → Bool
  runq : Q → List V
  /-- `rqd->svc` -/
  svc : Q → List V
  maxWeight : Q → Int
  load : Q → Int
  idle : C → Bool
  tickled : C → Bool
  rqd : V → Option Q
  weight : V → Int
  credit : V → BitVec 32
  startTime : V → Int
  /-- `CSFLAG_scheduled` -/
  scheduled : V → Bool
  /-- `CSFLAG_delayed_runq_add` -/
  delayedRunqAdd : V → Bool
  /-- `CSFLAG_runq_migrate_request` -/
  migrateRequest : V → Bool
  sdomWeight : D → Int
  sdomVcpu : D → List V
  /-- the `csched_dom_cntl` that is under way: its domain, the old weight, and the vCPUs to come -/
  domCntl : Option (D × Int × List V)
  bug : Bool
  /-- The vCPU has been put to sleep since it has become one that cannot run. -/
  slept : V → Bool
  /-- The vCPU has been switched out and its context is still to be saved. -/
  saving : V → Bool
  schedIn : V → Int
  schedOut : V → Int
  burns : V → List Burn

namespace State

variable {V C Q D : Type} [DecidableEq V] [DecidableEq C] [DecidableEq Q] [DecidableEq D] [Fintype Q]
  (m : Machine V C Q D) (s : State V C Q D)

/-- `BUG_ON`. -/
def bugOn (p : Prop) [Decidable p] : State V C Q D := { s with bug := s.bug || decide p }

/-- `vcpu_runnable`. -/
def runnable (v : V) : Bool := !s.migrating v && !s.held v

/-- `__vcpu_on_runq`. -/
def OnRunq (v : V) : Prop := ∃ q, v ∈ s.runq q

instance (v : V) : Decidable (s.OnRunq v) := inferInstanceAs (Decidable (∃ q, v ∈ s.runq q))

/-- The credit of a vCPU or of an idle one. -/
def creditOf : Option V → Int
  | none => idleCredit
  | some v => (s.credit v).toInt

/-- `update_load`, but for the averages. -/
def updateLoad (q : Option Q) (change : Int) : State V C Q D :=
  { s with load := fun q' => if q = some q' then s.load q' + change else s.load q' }

/-! ### The queue -/

/-- The loop of `__runq_insert`: before the first vCPU with less credit. -/
def insertByCredit (credit : V → Int) (v : V) : List V → List V
  | [] => [v]
  | w :: l => if credit w < credit v then v :: w :: l else w :: insertByCredit credit v l

/-- `runq_insert`. -/
def runqInsert (cpu : C) (v : V) : State V C Q D :=
  let s := s.bugOn (s.OnRunq v)
  let s := s.bugOn (m.c2r cpu ≠ m.c2r (s.processor v))
  let s := s.bugOn (s.rqd v ≠ some (m.c2r cpu))
  let s := s.bugOn (s.isRunning v = true)
  let s := s.bugOn (s.scheduled v = true)
  let runq := insertByCredit (fun v => s.creditOf (some v)) v (s.runq (m.c2r cpu))
  { s with runq := Function.update s.runq (m.c2r cpu) runq }

/-- `__runq_remove`. -/
def runqRemove (v : V) : State V C Q D :=
  let s := s.bugOn (¬ s.OnRunq v)
  { s with runq := fun q => (s.runq q).erase v }

/-! ### Credits -/

/-- `t2c`, in 64 bits. -/
def t2c (q : Q) (time : Int) (v : V) : Int := (BitVec.ofInt 64 (time * s.maxWeight q)).toInt.tdiv (s.weight v)

/-- The credit after a charge. -/
def burned (q : Q) (v : V) (delta : Int) : BitVec 32 := BitVec.ofInt 32 ((s.credit v).toInt - s.t2c q delta v)

/-- The charge for the time since `start_time`. -/
def burnTill (q : Q) (v : V) (now : Int) : Burn where
  since := s.startTime v
  till := now
  lost := (s.credit v).toInt - (s.burned q v (now - s.startTime v)).toInt
  maxWeight := s.maxWeight q
  weight := s.weight v

/-- `burn_credits`. -/
def burnCredits (q : Q) (v : Option V) (now : Int) : State V C Q D :=
  match v with
  | none => s
  | some v =>
    let delta := now - s.startTime v
    if 0 < delta then
      { s with
        credit := Function.update s.credit v (s.burned q v delta)
        startTime := Function.update s.startTime v now
        burns := Function.update s.burns v (s.burns v ++ [s.burnTill q v now]) }
    else s

/-- The loop of `runq_tickle` over CPUs that are not idle, with the one that has been found best so far. -/
def tickleLoop (q : Q) (now : Int) : List C → Option C → Int → State V C Q D → State V C Q D × Option C × Int
  | [], ipid, lowest, s => (s, ipid, lowest)
  | i :: mask, ipid, lowest, s =>
    let s := s.bugOn (s.curr i = none)
    let s := s.burnCredits q (s.curr i) now
    if s.creditOf (s.curr i) < lowest then tickleLoop q now mask (some i) (s.creditOf (s.curr i)) s
    else tickleLoop q now mask ipid lowest s

def tickle (ipid : C) : State V C Q D := { s with tickled := Function.update s.tickled ipid true }

/-- `runq_tickle`. -/
def runqTickle (cpu : C) (v : V) (now : Int) : State V C Q D :=
  let q := m.c2r cpu
  let s := s.bugOn (s.processor v ≠ cpu)
  let s := s.bugOn (s.rqd v ≠ some q)
  let s := s.burnCredits q (s.curr cpu) now
  if s.creditOf (s.curr cpu) < s.creditOf (some v) then s.tickle cpu
  else
    match (m.active q).find? fun i => s.idle i && !s.tickled i with
    | some i => s.tickle i
    | none =>
      let mask := (m.active q).filter fun i => !s.idle i && !s.tickled i && decide (i ≠ cpu)
      let (s, ipid, lowest) := tickleLoop q now mask none (2 ^ 30) s
      match ipid with
      | none => s
      | some i => if s.creditOf (some v) < lowest + m.migrateResist then s else s.tickle i

/-- `reset_credit`. -/
def resetCredit (q : Q) (now : Int) : State V C Q D :=
  let s := s.bugOn (∃ v ∈ s.svc q, s.rqd v ≠ some q)
  { s with
    credit := fun v =>
      if v ∈ s.svc q then BitVec.ofInt 32 (min (s.credit v).toInt carryoverMax + creditInit) else s.credit v
    startTime := fun v => if v ∈ s.svc q then now else s.startTime v }

/-! ### The vCPUs of a queue -/

/-- `update_max_weight`. -/
def updateMaxWeight (q : Q) (newWeight oldWeight : Int) : State V C Q D :=
  if s.maxWeight q < newWeight then { s with maxWeight := Function.update s.maxWeight q newWeight }
  else if oldWeight = s.maxWeight q then
    { s with
      maxWeight := Function.update s.maxWeight q
        ((s.svc q).foldl (fun maxWeight v => if maxWeight < s.weight v then s.weight v else maxWeight) 1) }
  else s

/-- `__runq_assign`. -/
def assign (v : V) (q : Q) : State V C Q D :=
  let s := { s with
    rqd := Function.update s.rqd v (some q)
    svc := Function.update s.svc q (s.svc q ++ [v]) }
  s.updateMaxWeight q (s.weight v) 0

/-- `runq_assign`. -/
def runqAssign (v : V) : State V C Q D := (s.bugOn (s.rqd v ≠ none)).assign v (m.c2r (s.processor v))

/-- `__runq_deassign`. -/
def deassign (v : V) : State V C Q D :=
  let s := s.bugOn (s.OnRunq v)
  let s := { s with svc := fun q => (s.svc q).erase v }
  let s := match s.rqd v with
    | none => s
    | some q => s.updateMaxWeight q 0 (s.weight v)
  { s with rqd := Function.update s.rqd v none }

/-- `runq_deassign`. -/
def runqDeassign (v : V) : State V C Q D := (s.bugOn (s.rqd v ≠ some (m.c2r (s.processor v)))).deassign v

/-- `csched_alloc_vdata`. -/
def allocVdata (v : V) : State V C Q D :=
  { s with
    rqd := Function.update s.rqd v none
    weight := Function.update s.weight v (s.sdomWeight (m.domain v))
    credit := Function.update s.credit v (BitVec.ofInt 32 creditInit)
    startTime := Function.update s.startTime v 0
    scheduled := Function.update s.scheduled v false
    delayedRunqAdd := Function.update s.delayedRunqAdd v false
    migrateRequest := Function.update s.migrateRequest v false }

/-- A new vCPU of the scheduler: `csched_alloc_vdata`, the processor, and `csched_vcpu_insert`. -/
def vcpuInsert (v : V) (cpu : C) : State V C Q D :=
  let s := s.allocVdata m v
  let s := { s with processor := Function.update s.processor v cpu }
  let s := { s with
    sdomVcpu := Function.update s.sdomVcpu (m.domain v) (s.sdomVcpu (m.domain v) ++ [v])
    slept := Function.update s.slept v (!s.runnable v) }
  s.runqAssign m v

/-- `csched_vcpu_remove`. -/
def vcpuRemove (v : V) : State V C Q D :=
  let s := s.bugOn (s.OnRunq v)
  let s := s.runqDeassign m v
  { s with sdomVcpu := Function.update s.sdomVcpu (m.domain v) ((s.sdomVcpu (m.domain v)).erase v) }

/-- `csched_vcpu_sleep`, which `vcpu_sleep_nosync` calls for a vCPU that cannot run. -/
def vcpuSleep (v : V) : State V C Q D :=
  if s.runnable v = true then s
  else
    let s := { s with slept := Function.update s.slept v true }
    if s.curr (s.processor v) = some v then s
    else if s.OnRunq v then
      let s := s.bugOn (s.rqd v ≠ some (m.c2r (s.processor v)))
      (s.updateLoad (s.rqd v) (-1)).runqRemove v
    else if s.delayedRunqAdd v = true then
      { s with delayedRunqAdd := Function.update s.delayedRunqAdd v false }
    else s

/-- `runq_insert` at the processor of a vCPU, and `runq_tickle`. -/
def queueUp (v : V) (now : Int) : State V C Q D :=
  let s := s.runqInsert m (s.processor v) v
  s.runqTickle m (s.processor v) v now

/-- `csched_vcpu_wake`, which `vcpu_wake` calls for a vCPU that can run. -/
def vcpuWake (v : V) (now : Int) : State V C Q D :=
  if s.runnable v = false then s
  else if s.curr (s.processor v) = some v then s
  else if s.OnRunq v then s
  else if s.scheduled v = true then { s with delayedRunqAdd := Function.update s.delayedRunqAdd v true }
  else
    let s := if s.rqd v = none then s.runqAssign m v else s.bugOn (s.rqd v ≠ some (m.c2r (s.processor v)))
    (s.updateLoad (s.rqd v) 1).queueUp m v now

/-- The flags of a vCPU whose context has been saved. -/
def clearScheduled (v : V) : State V C Q D :=
  { s with
    scheduled := Function.update s.scheduled v false
    delayedRunqAdd := Function.update s.delayedRunqAdd v false
    saving := Function.update s.saving v false }

/-- `csched_context_saved`, for a vCPU of a domain. -/
def contextSaved (v : V) (now : Int) : State V C Q D :=
  if s.rqd v ≠ some (m.c2r (s.processor v)) then { s with bug := true }
  else
    let delayed := s.delayedRunqAdd v
    let s := s.clearScheduled v
    if delayed && s.runnable v then
      (s.bugOn (s.OnRunq v)).queueUp m v now
    else s.updateLoad (s.rqd v) (-1)

/-! ### Migration -/

/-- A vCPU that is not flagged as scheduled gets another queue. -/
def reassign (v : V) (q : Q) : State V C Q D :=
  let s := s.deassign v
  let s := { s with processor := Function.update s.processor v (m.firstCpu q) }
  s.assign v q

/-- `migrate`. -/
def migrate (v : V) (q : Q) (now : Int) : State V C Q D :=
  if s.scheduled v = true then
    { s with
      migrating := Function.update s.migrating v true
      migrateRequest := Function.update s.migrateRequest v true }
  else
    let onRunq := s.OnRunq v
    let s := if onRunq then (s.runqRemove v).updateLoad (s.rqd v) (-1) else s
    let s := s.reassign m v q
    if onRunq then (s.updateLoad (s.rqd v) 1).queueUp m v now else s

/-- `balance_load`, which moves `push` to the queue `orqd` and `pull` from there, where they are not flagged to
migrate already. -/
def balanceLoad (cpu : C) (orqd : Q) (push pull : Option V) (now : Int) : State V C Q D :=
  let lrqd := m.c2r cpu
  if orqd = lrqd then s
  else
    let push := push.filter fun v => decide (v ∈ s.svc lrqd) && !s.migrateRequest v
    let pull := pull.filter fun v => decide (v ∈ s.svc orqd) && !s.migrateRequest v
    let s := match push with
      | none => s
      | some v => s.migrate m v orqd now
    match pull with
    | none => s
    | some v => s.migrate m v lrqd now

/-- The rest of `vcpu_migrate` after a CPU has been picked, with `csched_vcpu_migrate`. -/
def vcpuMigrate (v : V) (newCpu : C) (now : Int) : State V C Q D :=
  if s.isRunning v = true ∨ s.migrating v = false then s
  else
    let s := { s with migrating := Function.update s.migrating v false }
    let s := { s with slept := Function.update s.slept v (s.slept v && !s.runnable v) }
    if some (m.c2r newCpu) ≠ s.rqd v then s.migrate m v (m.c2r newCpu) now else s

/-! ### The scheduler -/

/-- The loop of `runq_candidate`. -/
def candidateLoop (cpu : C) (snext : Option V) : List V → Option V
  | [] => snext
  | v :: l =>
    if s.processor v ≠ cpu ∧ s.creditOf (some v) < s.creditOf snext + m.migrateResist then candidateLoop cpu snext l
    else if s.creditOf snext < s.creditOf (some v) then some v
    else snext

/-- `runq_candidate`. -/
def runqCandidate (cpu : C) (scurr : Option V) : Option V :=
  s.candidateLoop m cpu (scurr.filter fun v => s.runnable v) (s.runq (m.c2r cpu))

/-- The vCPU that `csched_schedule` chooses, after the credits of the current one have been burned. -/
def choose (cpu : C) (taskletWork : Bool) : Option V :=
  if taskletWork then none else s.runqCandidate m cpu (s.curr cpu)

/-- The vCPU that has been chosen leaves the queue, unless it runs already. -/
def takeNext (cpu : C) (v : V) : State V C Q D :=
  if s.curr cpu ≠ some v then
    let s := s.bugOn (s.rqd v ≠ some (m.c2r cpu))
    let s := s.runqRemove v
    let s := s.bugOn (s.isRunning v = true)
    { s with scheduled := Function.update s.scheduled v true }
  else s

/-- The check for the reset condition; `balance` is what `balance_load` finds. -/
def checkReset (cpu : C) (v : V) (balance : Option (Q × Option V × Option V)) (now : Int) : State V C Q D :=
  if s.creditOf (some v) ≤ creditReset then
    let s := s.resetCredit (m.c2r cpu) now
    match balance with
    | none => s
    | some (orqd, push, pull) => s.balanceLoad m cpu orqd push pull now
  else s

/-- The vCPU will run on the CPU. -/
def place (cpu : C) (v : V) (now : Int) : State V C Q D :=
  let s := { s with
    idle := Function.update s.idle cpu false
    startTime := Function.update s.startTime v now }
  if s.processor v ≠ cpu then
    { s with
      credit := Function.update s.credit v (BitVec.ofInt 32 ((s.credit v).toInt + migrateCompensation))
      processor := Function.update s.processor v cpu }
  else s

/-- `csched_schedule` for a vCPU of a domain that has been chosen. -/
def startVcpu (cpu : C) (v : V) (balance : Option (Q × Option V × Option V)) (now : Int) : State V C Q D :=
  ((s.takeNext m cpu v).checkReset m cpu v balance now).place cpu v now

/-- The current vCPU of a CPU is to go back to the queue, if it can run and another one has been chosen. -/
def delayCurr (cpu : C) (snext : Option V) : State V C Q D :=
  match s.curr cpu with
  | none => s
  | some v =>
    if snext ≠ some v ∧ s.runnable v = true then
      { s with delayedRunqAdd := Function.update s.delayedRunqAdd v true }
    else s

/-- `csched_schedule`, with what it returns. -/
def cschedSchedule (cpu : C) (taskletWork : Bool) (balance : Option (Q × Option V × Option V)) (now : Int) :
    State V C Q D × Option V :=
  let s := s.bugOn (∃ v ∈ s.curr cpu, s.rqd v ≠ some (m.c2r cpu))
  let s := { s with tickled := Function.update s.tickled cpu false }
  let s := s.burnCredits (m.c2r cpu) (s.curr cpu) now
  let snext := s.choose m cpu taskletWork
  let s := s.delayCurr cpu snext
  match snext with
  | none => ({ s with idle := Function.update s.idle cpu true }, none)
  | some v => (s.startVcpu m cpu v balance now, some v)

/-- The vCPU that a CPU leaves. -/
def leave (prev : Option V) (now : Int) : State V C Q D :=
  match prev with
  | none => s
  | some v =>
    { s with
      saving := Function.update s.saving v true
      schedOut := Function.update s.schedOut v now }

/-- The vCPU that a CPU turns to. -/
def enter (next : Option V) (now : Int) : State V C Q D :=
  match next with
  | none => s
  | some v =>
    { s with
      isRunning := Function.update s.isRunning v true
      schedIn := Function.update s.schedIn v now
      burns := Function.update s.burns v [] }

/-- What `schedule` does with the vCPU that has been chosen. -/
def switchTo (cpu : C) (next : Option V) (now : Int) : State V C Q D :=
  let prev := s.curr cpu
  if next = prev then s
  else (({ s with curr := Function.update s.curr cpu next }.leave prev now).enter next now)

/-- `schedule`. -/
def schedule (cpu : C) (taskletWork : Bool) (balance : Option (Q × Option V × Option V)) (now : Int) :
    State V C Q D :=
  let (s, next) := s.cschedSchedule m cpu taskletWork balance now
  s.switchTo cpu next now

/-! ### Weights -/

/-- `csched_dom_cntl` up to the loop. -/
def startDomCntl (d : D) (weight : BitVec 16) : State V C Q D :=
  if weight = 0 then s
  else
    { s with
      sdomWeight := Function.update s.sdomWeight d weight.toNat
      domCntl := some (d, s.sdomWeight d, s.sdomVcpu d) }

/-- One turn of the loop of `csched_dom_cntl`, or its end. -/
def domCntlNext : State V C Q D :=
  match s.domCntl with
  | none => s
  | some (_, _, []) => { s with domCntl := none }
  | some (d, oldWeight, v :: rest) =>
    let s := s.bugOn (s.rqd v ≠ some (m.c2r (s.processor v)))
    let s := { s with
      weight := Function.update s.weight v (s.sdomWeight d)
      domCntl := some (d, oldWeight, rest) }
    match s.rqd v with
    | none => s
    | some q => s.updateMaxWeight q (s.weight v) oldWeight

end State

inductive Step (V C Q D : Type) where
  /-- `csched_dom_init` -/
  | domInit (d : D)
  | insert (v : V) (cpu : C)
  | remove (v : V)
  | sleep (v : V)
  | wake (v : V) (now : Int)
  /-- the beginning of `context_saved` -/
  | notRunning (v : V)
  | contextSaved (v : V) (now : Int)
  | schedule (cpu : C) (taskletWork : Bool) (balance : Option (Q × Option V × Option V)) (now : Int)
  | domCntl (d : D) (weight : BitVec 16)
  | domCntlNext
  /-- `choose_cpu` takes notice of a request -/
  | pick (v : V)
  | migrate (v : V) (newCpu : C) (now : Int)
  /-- Something else keeps a vCPU from running, or does not any more. -/
  | hold (v : V) (held : Bool)
  /-- `_VPF_migrating` is set by `schedule.c`. -/
  | setMigrating (v : V)

variable {V C Q D : Type} [DecidableEq V] [DecidableEq C] [DecidableEq Q] [DecidableEq D] [Fintype Q]
  (m : Machine V C Q D)

open State

def act (step : Step V C Q D) (s : State V C Q D) : State V C Q D :=
  match step with
  | .domInit d => { s with sdomWeight := Function.update s.sdomWeight d defaultWeight }
  | .insert v cpu => s.vcpuInsert m v cpu
  | .remove v => s.vcpuRemove m v
  | .sleep v => s.vcpuSleep m v
  | .wake v now => s.vcpuWake m v now
  | .notRunning v => { s with isRunning := Function.update s.isRunning v false }
  | .contextSaved v now => s.contextSaved m v now
  | .schedule cpu taskletWork balance now => s.schedule m cpu taskletWork balance now
  | .domCntl d weight => s.startDomCntl d weight
  | .domCntlNext => s.domCntlNext m
  | .pick v => { s with migrateRequest := Function.update s.migrateRequest v false }
  | .migrate v newCpu now => s.vcpuMigrate m v newCpu now
  | .hold v held =>
    let s := { s with held := Function.update s.held v held }
    { s with slept := Function.update s.slept v (s.slept v && !s.runnable v) }
  | .setMigrating v => { s with migrating := Function.update s.migrating v true }

/-- How the callers call. -/
def Called (step : Step V C Q D) (s : State V C Q D) : Prop :=
  match step with
  -- the domain is a new one
  | .domInit d => s.sdomVcpu d = [] ∧ s.domCntl.map Prod.fst ≠ some d
  -- the weight of the domain is not being changed
  | .insert v _ =>
    v ∉ s.sdomVcpu (m.domain v) ∧ s.isRunning v = false ∧ s.domCntl.map Prod.fst ≠ some (m.domain v)
  -- the vCPU has been paused, and has been waited for
  | .remove v =>
    v ∈ s.sdomVcpu (m.domain v) ∧ s.slept v = true ∧ s.isRunning v = false ∧
      s.domCntl.map Prod.fst ≠ some (m.domain v)
  | .sleep v | .wake v _ | .pick v | .migrate v _ _ => v ∈ s.sdomVcpu (m.domain v)
  | .notRunning v => s.saving v = true ∧ s.curr (s.processor v) ≠ some v
  | .contextSaved v _ => s.saving v = true ∧ s.isRunning v = false
  -- under the private lock
  | .domCntl _ _ => s.domCntl = none
  | _ => True

instance : ∀ (step : Step V C Q D) (s : State V C Q D), Decidable (Called m step s)
  | .domInit _, _ | .notRunning _, _ | .contextSaved _ _, _ => inferInstanceAs (Decidable (_ ∧ _))
  | .insert _ _, _ => inferInstanceAs (Decidable (_ ∧ _ ∧ _))
  | .remove _, _ => inferInstanceAs (Decidable (_ ∧ _ ∧ _ ∧ _))
  | .sleep v, s | .wake v _, s | .pick v, s | .migrate v _ _, s =>
    inferInstanceAs (Decidable (v ∈ s.sdomVcpu (m.domain v)))
  | .domCntl _ _, s =>
    match h : s.domCntl with
    | none => isTrue h
    | some _ => isFalse (by unfold Called; rw [h]; nofun)
  | .schedule _ _ _ _, _ | .domCntlNext, _ | .hold _ _, _ | .setMigrating _, _ => inferInstanceAs (Decidable True)

/-- No vCPUs, and the idle vCPUs run. -/
def init (processor : V → C) : State V C Q D where
  processor := processor
  curr := fun _ => none
  isRunning := fun _ => false
  migrating := fun _ => false
  held := fun _ => true
  runq := fun _ => []
  svc := fun _ => []
  maxWeight := fun _ => 1
  load := fun _ => 0
  idle := fun _ => true
  tickled := fun _ => false
  rqd := fun _ => none
  weight := fun _ => 0
  credit := fun _ => 0
  startTime := fun _ => 0
  scheduled := fun _ => false
  delayedRunqAdd := fun _ => false
  migrateRequest := fun _ => false
  sdomWeight := fun _ => defaultWeight
  sdomVcpu := fun _ => []
  domCntl := none
  bug := false
  slept := fun _ => false
  saving := fun _ => false
  schedIn := fun _ => 0
  schedOut := fun _ => 0
  burns := fun _ => []

end Sched.Credit2
