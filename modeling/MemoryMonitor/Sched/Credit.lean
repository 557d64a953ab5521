import Mathlib
import MemoryMonitor.Lib.Runs
import MemoryMonitor.Lib.SafeWalk

/-!
# The credit scheduler: accounting

The accounting of `xen/common/sched_credit.c`. A vCPU that is found running by a tick becomes active,
and with it its domain; `csched_acct` hands out credits to the active domains by their weights, parks
the vCPUs that have used more than the cap of their domain allows, and takes those off the lists that
have saved up enough. `prv->weight` is kept as the sum of the weights of all active vCPUs.

The walks of `csched_acct` are the walks of `Lib.SafeWalk`: a domain is moved to the head of the list,
or taken off it, while the list is walked through.
-/

namespace Sched.Credit

/-- A value that is stored as a `uint32_t`, and as an `int`. -/
def u32 (x : Int) : Nat := (x % 2 ^ 32).toNat

def i32 (x : Int) : Int := Int.bmod x (2 ^ 32)

/-- `MAX_VIRT_CPUS`. -/
def maxVirtCpus : Nat := 8192

instance : NeZero maxVirtCpus := ⟨by decide⟩

/-- `CSCHED_DEFAULT_WEIGHT`. -/
def defaultWeight : Nat := 256

/-- `CSCHED_CREDITS_PER_ACCT`, which is `CSCHED_CREDITS_PER_TSLICE` too. -/
def creditsPerAcct : Nat := 300

/-- A vCPU of a domain. -/
structure Vcpu (D : Type) where
  dom : D
  id : Fin maxVirtCpus
  deriving DecidableEq

/-- `CSCHED_PRI_TS_BOOST`, `CSCHED_PRI_TS_UNDER` and `CSCHED_PRI_TS_OVER`. -/
inductive Pri where
  | tsBoost
  | tsUnder
  | tsOver
  deriving DecidableEq

/-- `struct csched_vcpu`; `parked` is the flag `CSCHED_FLAG_VCPU_PARKED`. -/
structure Svc where
  credit : Int
  pri : Pri
  parked : Bool

/-- `struct csched_dom`. -/
structure Sdom (D : Type) where
  activeVcpu : List (Vcpu D)
  activeVcpuCount : Nat
  weight : Nat
  cap : Nat

/-- `struct csched_private` of one scheduler, with what it knows of the domains and vCPUs. -/
structure State (D : Type) where
  activeSdom : List D
  weight : Nat
  credit : Nat
  creditBalance : Int
  sdom : D → Sdom D
  svc : Vcpu D → Svc
  /-- How often the scheduler has paused a vCPU, less how often it has unpaused it. -/
  pauses : Vcpu D → Int
  /-- A `BUG_ON` has been hit, or a division by zero. -/
  crashed : Bool

variable {D : Type} [DecidableEq D]

namespace State

variable (s : State D)

def bugOn (p : Prop) [Decidable p] : State D :=
  { s with crashed := s.crashed || p }

def setSdom (d : D) (x : Sdom D) : State D :=
  { s with sdom := Function.update s.sdom d x }

def setSvc (v : Vcpu D) (x : Svc) : State D :=
  { s with svc := Function.update s.svc v x }

/-- Whether the vCPU is on the list of its domain. -/
def Active (v : Vcpu D) : Prop :=
  v ∈ (s.sdom v.dom).activeVcpu

instance (v : Vcpu D) : Decidable (s.Active v) :=
  inferInstanceAs (Decidable (_ ∈ _))

/-- `__csched_vcpu_acct_start`. -/
def acctStart (v : Vcpu D) : State D :=
  if s.Active v then s
  else
    let sdom := s.sdom v.dom
    let s := s.setSdom v.dom { sdom with
      activeVcpuCount := (sdom.activeVcpuCount + 1) % 2 ^ 16
      activeVcpu := v :: sdom.activeVcpu }
    { s with
      weight := u32 (s.weight + sdom.weight)
      activeSdom := if v.dom ∈ s.activeSdom then s.activeSdom else v.dom :: s.activeSdom }

/-- `__csched_vcpu_acct_stop_locked`. -/
def acctStopLocked (v : Vcpu D) : State D :=
  let sdom := s.sdom v.dom
  let s := s.bugOn (¬ s.Active v ∨ s.weight < sdom.weight)
  let activeVcpu := sdom.activeVcpu.erase v
  let s := s.setSdom v.dom { sdom with
    activeVcpuCount := (sdom.activeVcpuCount + (2 ^ 16 - 1)) % 2 ^ 16
    activeVcpu := activeVcpu }
  { s with
    weight := u32 (s.weight - sdom.weight)
    activeSdom := if activeVcpu = [] then s.activeSdom.erase v.dom else s.activeSdom }

/-- `vcpu_pause_nosync` of a vCPU that has used too much, and its flag. -/
def park (v : Vcpu D) : State D :=
  { s.setSvc v { s.svc v with parked := true } with
    pauses := Function.update s.pauses v (s.pauses v + 1) }

/-- `vcpu_unpause` of a parked vCPU. -/
def unpark (v : Vcpu D) : State D :=
  { s.setSvc v { s.svc v with parked := false } with
    pauses := Function.update s.pauses v (s.pauses v - 1) }

/-- `burn_credits`. -/
def burnCredits (v : Vcpu D) (credits : Nat) : State D :=
  s.setSvc v { s.svc v with credit := i32 ((s.svc v).credit - credits) }

/-- `csched_vcpu_acct`; what it does when the vCPU is active already is not accounting. -/
def vcpuAcct (v : Vcpu D) (credits : Nat) : State D :=
  let s := if (s.svc v).pri = .tsBoost then s.setSvc v { s.svc v with pri := .tsUnder } else s
  (s.burnCredits v credits).acctStart v

/-- `csched_vcpu_remove`. -/
def vcpuRemove (v : Vcpu D) : State D :=
  if s.Active v then s.acctStopLocked v else s

/-- `csched_alloc_vdata`; `csched_vcpu_insert` is about the run queue only. -/
def allocVdata (v : Vcpu D) : State D :=
  s.setSvc v ⟨0, .tsUnder, false⟩

/-- `csched_alloc_domdata`. -/
def allocDomdata (d : D) : State D :=
  s.setSdom d ⟨[], 0, defaultWeight, 0⟩

/-- `csched_dom_cntl`, `XEN_DOMCTL_SCHEDOP_putinfo`. -/
def domCntl (d : D) (weight cap : UInt16) : State D :=
  let s :=
    if weight ≠ 0 then
      let sdom := s.sdom d
      let s := if d ∈ s.activeSdom then
          { s with weight := u32 (s.weight - sdom.weight * sdom.activeVcpuCount
              + weight.toNat * sdom.activeVcpuCount) }
        else s
      s.setSdom d { sdom with weight := weight.toNat }
    else s
  if cap ≠ 65535 then s.setSdom d { s.sdom d with cap := cap.toNat } else s

end State

/-- The local variables of `csched_acct`, with the domains that it has visited: not in the source. -/
structure Acct (D : Type) where
  state : State D
  creditTotal : Nat
  weightLeft : Nat
  creditBalance : Int
  creditXtra : Bool
  visited : List D

namespace Acct

variable (a : Acct D)

/-- The body of the inner loop: the state, and the credit of the vCPU. -/
def credited (d : D) (creditFair creditCap : Nat) (v : Vcpu D) : State D × Int :=
  let s := a.state.bugOn (d ≠ v.dom)
  let credit := i32 ((s.svc v).credit + creditFair)
  if credit < 0 then
    let s := s.setSvc v { s.svc v with credit := credit, pri := .tsOver }
    -- a capped domain has used up what it is allowed
    let s := if (s.sdom d).cap ≠ 0 ∧ credit < -creditCap ∧ ¬ (s.svc v).parked then s.park v else s
    if credit < -creditsPerAcct then
      (s.setSvc v { s.svc v with credit := -creditsPerAcct }, -creditsPerAcct)
    else (s, credit)
  else
    let s := s.setSvc v { s.svc v with credit := credit, pri := .tsUnder }
    let s := if (s.svc v).parked then s.unpark v else s
    -- the vCPU stops earning
    if creditsPerAcct < credit then
      let s := s.acctStopLocked v
      (s.setSvc v { s.svc v with credit := credit / 2 }, credit / 2)
    else (s, credit)

def vcpu (d : D) (creditFair creditCap : Nat) (v : Vcpu D) : Acct D :=
  let (s, credit) := a.credited d creditFair creditCap v
  { a with state := s, creditBalance := i32 (a.creditBalance + credit) }

/-- `credit_cap` of a domain, and of each of its vCPUs. -/
def creditCap (d : D) : Nat :=
  ((a.state.sdom d).cap * creditsPerAcct + 99) / 100

def creditCapVcpu (d : D) : Nat :=
  let count := (a.state.sdom d).activeVcpuCount
  u32 (a.creditCap d + (count - 1)) / count

/-- `credit_peak`: the vCPUs run all the time, or as long as the cap allows. -/
def creditPeak (weightTotal : Nat) (d : D) : Nat :=
  let sdom := a.state.sdom d
  let peak : Nat := u32 (sdom.activeVcpuCount * creditsPerAcct)
  let peak : Nat :=
    if a.state.creditBalance < 0 then
      u32 (peak + u32 (-a.state.creditBalance * sdom.weight * sdom.activeVcpuCount + (weightTotal - 1))
        / weightTotal)
    else peak
  if sdom.cap ≠ 0 ∧ a.creditCap d < peak then a.creditCap d else peak

/-- `credit_fair`, in competition with all other domains. -/
def creditFair (weightTotal : Nat) (d : D) : Nat :=
  let sdom := a.state.sdom d
  u32 (a.creditTotal * sdom.weight * sdom.activeVcpuCount + (weightTotal - 1)) / weightTotal

/-- The weight of the vCPUs of a domain. -/
def share (d : D) : Nat :=
  (a.state.sdom d).weight * (a.state.sdom d).activeVcpuCount

/-- The body of the outer loop up to the inner one: the assertions, and what each vCPU of the domain
gets. -/
def fairShare (weightTotal : Nat) (d : D) : Acct D × Nat :=
  let sdom := a.state.sdom d
  let a := { a with
    state := a.state.bugOn
      (sdom.activeVcpuCount = 0 ∨ sdom.weight = 0 ∨ a.weightLeft < a.share d ∨ weightTotal = 0)
    weightLeft := u32 (a.weightLeft - a.share d)
    visited := a.visited ++ [d] }
  let peak := a.creditPeak weightTotal d
  let fair := a.creditFair weightTotal d
  let (a, fair) : Acct D × Nat :=
    if fair < peak then ({ a with creditXtra := true }, fair)
    else
      let a := if a.weightLeft ≠ 0 then
          { a with creditTotal := u32 (a.creditTotal
              + u32 ((fair - peak) * weightTotal + (a.weightLeft - 1)) / a.weightLeft) }
        else a
      -- domains with credits to spare are kept at the head of the list
      let a := if a.creditXtra then
          { a with state := { a.state with activeSdom := d :: a.state.activeSdom.erase d } }
        else a
      (a, peak)
  (a, u32 (fair + (sdom.activeVcpuCount - 1)) / sdom.activeVcpuCount)

/-- The body of the outer loop. -/
def dom (weightTotal : Nat) (d : D) : Acct D :=
  let cap := a.creditCapVcpu d
  let (a, fair) := a.fairShare weightTotal d
  SafeWalk.forEach (fun a => (a.state.sdom d).activeVcpu) (fun v a => a.vcpu d fair cap v) a

end Acct

/-- The loops of `csched_acct`. -/
def State.acctWalk (s : State D) : Acct D :=
  SafeWalk.forEach (fun a => a.state.activeSdom) (fun d a => a.dom s.weight d)
    { state := s
      creditTotal := if s.creditBalance < 0 then u32 (s.credit - s.creditBalance) else s.credit
      weightLeft := s.weight
      creditBalance := 0
      creditXtra := false
      visited := [] }

/-- `csched_acct`. -/
def State.acct (s : State D) : State D :=
  if s.weight = 0 then { s with creditBalance := 0 }
  else { s.acctWalk.state with creditBalance := s.acctWalk.creditBalance }

inductive Step (D : Type) where
  /-- A tick finds the vCPU running. -/
  | vcpuAcct (v : Vcpu D) (credits : Nat)
  /-- `csched_schedule` takes the vCPU off its CPU. -/
  | burnCredits (v : Vcpu D) (credits : Nat)
  | acct
  | vcpuRemove (v : Vcpu D)
  | domCntl (d : D) (weight cap : UInt16)
  | allocVdata (v : Vcpu D)
  | allocDomdata (d : D)

def act (step : Step D) (s : State D) : State D :=
  match step with
  | .vcpuAcct v credits => s.vcpuAcct v credits
  | .burnCredits v credits => s.burnCredits v credits
  | .acct => s.acct
  | .vcpuRemove v => s.vcpuRemove v
  | .domCntl d weight cap => s.domCntl d weight cap
  | .allocVdata v => s.allocVdata v
  | .allocDomdata d => s.allocDomdata d

/-- A scheduler for some CPUs, and no domain. -/
def init (ncpus : Nat) : State D where
  activeSdom := []
  weight := 0
  credit := u32 (creditsPerAcct * ncpus)
  creditBalance := 0
  sdom _ := ⟨[], 0, defaultWeight, 0⟩
  svc _ := ⟨0, .tsUnder, false⟩
  pauses _ := 0
  crashed := false

/-- The data of a domain or a vCPU is new: no vCPU of the domain is active, and the vCPU is not. -/
def Called (step : Step D) (s : State D) : Prop :=
  match step with
  | .allocVdata v => ¬ s.Active v
  | .allocDomdata d => (s.sdom d).activeVcpu = []
  | _ => True

/-! ## Small facts -/

namespace State

variable {s : State D} {d d' : D} {v : Vcpu D}

@[simp] theorem bugOn_sdom {p : Prop} [Decidable p] : (s.bugOn p).sdom = s.sdom := rfl

/-- The contribution to `pause_count` that the flag stands for. -/
def owed (v : Vcpu D) : Int :=
  if (s.svc v).parked then 1 else 0

/-- What happens to the data of one vCPU: the lists do not change, and it is paused as often more as
its flag says. -/
structure Kept (v : Vcpu D) (s s' : State D) : Prop where
  activeSdom : s'.activeSdom = s.activeSdom
  weight : s'.weight = s.weight
  sdom : s'.sdom = s.sdom
  crashed : s'.crashed = s.crashed
  svc : ∀ w, w ≠ v → s'.svc w = s.svc w
  pauses : ∀ w, w ≠ v → s'.pauses w = s.pauses w
  balance : s'.pauses v - s'.owed v = s.pauses v - s.owed v

section

omit [DecidableEq D]

theorem Kept.refl (v : Vcpu D) (s : State D) : Kept v s s :=
  ⟨rfl, rfl, rfl, rfl, fun _ _ => rfl, fun _ _ => rfl, rfl⟩

theorem Kept.trans {s s' s'' : State D} (h : Kept v s s') (h' : Kept v s' s'') : Kept v s s'' where
  activeSdom := h'.activeSdom.trans h.activeSdom
  weight := h'.weight.trans h.weight
  sdom := h'.sdom.trans h.sdom
  crashed := h'.crashed.trans h.crashed
  svc w hw := (h'.svc w hw).trans (h.svc w hw)
  pauses w hw := (h'.pauses w hw).trans (h.pauses w hw)
  balance := h'.balance.trans h.balance

end

theorem kept_setSvc {x : Svc} (hx : x.parked = (s.svc v).parked) : Kept v s (s.setSvc v x) where
  activeSdom := rfl
  weight := rfl
  sdom := rfl
  crashed := rfl
  svc _ hw := Function.update_of_ne hw ..
  pauses _ _ := rfl
  balance := by simp [owed, setSvc, hx]

theorem kept_park (hv : (s.svc v).parked = false) : Kept v s (s.park v) where
  activeSdom := rfl
  weight := rfl
  sdom := rfl
  crashed := rfl
  svc _ hw := Function.update_of_ne hw ..
  pauses _ hw := Function.update_of_ne hw ..
  balance := by simp [owed, park, setSvc, hv]

theorem kept_unpark (hv : (s.svc v).parked = true) : Kept v s (s.unpark v) where
  activeSdom := rfl
  weight := rfl
  sdom := rfl
  crashed := rfl
  svc _ hw := Function.update_of_ne hw ..
  pauses _ hw := Function.update_of_ne hw ..
  balance := by simp [owed, unpark, setSvc, hv]

end State

namespace Acct

variable {a : Acct D} {d : D} {v : Vcpu D}

/-- What the inner loop does to a vCPU: it stays active, parked or not, or it stops being active, and
it is not parked then. -/
theorem credited_cases (a : Acct D) (hv : v.dom = d) (fair cap : Nat) :
    ∃ s, State.Kept v a.state s ∧
      ((a.credited d fair cap v).1 = s ∨
        (s.svc v).parked = false ∧
          ∃ c, (a.credited d fair cap v).1 =
            (s.acctStopLocked v).setSvc v { (s.acctStopLocked v).svc v with credit := c }) := by
  have hbug : a.state.bugOn (d ≠ v.dom) = a.state := by
    simp [State.bugOn, hv]
  unfold credited
  rw [hbug]
  dsimp only
  generalize i32 ((a.state.svc v).credit + fair) = credit
  split
  · -- used up: it may be parked, and its credit is bounded from below
    generalize hs : a.state.setSvc v { a.state.svc v with credit := credit, pri := .tsOver } = s
    have hk : State.Kept v a.state s := hs ▸ State.kept_setSvc rfl
    have hpark : State.Kept v s
        (if (s.sdom d).cap ≠ 0 ∧ credit < -cap ∧ ¬ (s.svc v).parked then s.park v else s) := by
      split
      · rename_i h
        exact State.kept_park (by simpa using h.2.2)
      · exact State.Kept.refl v s
    generalize (if (s.sdom d).cap ≠ 0 ∧ credit < -cap ∧ ¬ (s.svc v).parked then s.park v else s) = s'
      at hpark ⊢
    split
    · refine ⟨_, ?_, .inl rfl⟩
      exact (hk.trans hpark).trans (State.kept_setSvc rfl)
    · exact ⟨_, hk.trans hpark, .inl rfl⟩
  · -- in credit: it is not parked after that, and it may stop earning
    generalize hs : a.state.setSvc v { a.state.svc v with credit := credit, pri := .tsUnder } = s
    have hk : State.Kept v a.state s := hs ▸ State.kept_setSvc rfl
    have hunpark : State.Kept v s (if (s.svc v).parked then s.unpark v else s) ∧
        ((if (s.svc v).parked then s.unpark v else s).svc v).parked = false := by
      split
      · rename_i h
        exact ⟨State.kept_unpark h, by simp [State.unpark, State.setSvc]⟩
      · rename_i h
        exact ⟨State.Kept.refl v s, by simpa using h⟩
    generalize (if (s.svc v).parked then s.unpark v else s) = s' at hunpark ⊢
    split
    · exact ⟨s', hk.trans hunpark.1, .inr ⟨hunpark.2, credit / 2, rfl⟩⟩
    · exact ⟨s', hk.trans hunpark.1, .inl rfl⟩

end Acct

/-! ## The lists -/

namespace State

variable {s s' : State D} {d d' : D} {v w : Vcpu D}

/-- The lists say which vCPUs and which domains are active, whatever the counts are. -/
structure Lists (s : State D) : Prop where
  sdom_nodup : s.activeSdom.Nodup
  vcpu_nodup : ∀ d, (s.sdom d).activeVcpu.Nodup
  vcpu_dom : ∀ d, ∀ v ∈ (s.sdom d).activeVcpu, v.dom = d
  listed : ∀ d, d ∈ s.activeSdom ↔ (s.sdom d).activeVcpu ≠ []

section

omit [DecidableEq D]

theorem Lists.congr (h : s.Lists) (hsdom : s'.activeSdom = s.activeSdom)
    (hvcpu : ∀ d, (s'.sdom d).activeVcpu = (s.sdom d).activeVcpu) : s'.Lists := by
  constructor
  · rw [hsdom]
    exact h.sdom_nodup
  · intro d
    rw [hvcpu]
    exact h.vcpu_nodup d
  · intro d v hv
    rw [hvcpu] at hv
    exact h.vcpu_dom d v hv
  · intro d
    rw [hsdom, hvcpu]
    exact h.listed d

theorem Kept.active_iff (h : Kept v s s') (w : Vcpu D) : s'.Active w ↔ s.Active w := by
  rw [Active, Active, h.sdom]

end

theorem Lists.kept (hs : s.Lists) (h : Kept v s s') : s'.Lists :=
  hs.congr h.activeSdom fun d => by rw [h.sdom]

/-- The list of a domain after one of its vCPUs has become active. -/
theorem acctStart_activeVcpu (hv : ¬ s.Active v) (d : D) :
    ((s.acctStart v).sdom d).activeVcpu =
      if d = v.dom then v :: (s.sdom d).activeVcpu else (s.sdom d).activeVcpu := by
  simp only [acctStart, if_neg hv, setSdom, Function.update_apply]
  split
  next h => rw [h]
  next => rfl

theorem acctStart_activeSdom (hv : ¬ s.Active v) :
    (s.acctStart v).activeSdom =
      if v.dom ∈ s.activeSdom then s.activeSdom else v.dom :: s.activeSdom := by
  rw [acctStart, if_neg hv]
  rfl

theorem Lists.acctStart (hs : s.Lists) (v : Vcpu D) : (s.acctStart v).Lists := by
  by_cases hv : s.Active v
  · rw [State.acctStart, if_pos hv]
    exact hs
  · constructor
    · rw [acctStart_activeSdom hv]
      split
      · exact hs.sdom_nodup
      · rename_i hd
        exact List.nodup_cons.mpr ⟨hd, hs.sdom_nodup⟩
    · intro d
      rw [acctStart_activeVcpu hv]
      split
      · rename_i hd
        subst hd
        exact List.nodup_cons.mpr ⟨hv, hs.vcpu_nodup _⟩
      · exact hs.vcpu_nodup d
    · intro d w hw
      rw [acctStart_activeVcpu hv] at hw
      split at hw
      · rename_i hd
        rcases List.mem_cons.mp hw with rfl | hw
        · exact hd.symm
        · exact hs.vcpu_dom d w hw
      · exact hs.vcpu_dom d w hw
    · intro d
      rw [acctStart_activeSdom hv, acctStart_activeVcpu hv]
      by_cases hd : d = v.dom
      · subst hd
        simp only [if_true, ne_eq, reduceCtorEq, not_false_eq_true, iff_true]
        split
        · assumption
        · exact List.mem_cons_self
      · rw [if_neg hd, ← hs.listed]
        split
        · exact Iff.rfl
        · exact ⟨fun h => (List.mem_cons.mp h).resolve_left hd, List.mem_cons_of_mem _⟩

theorem acctStopLocked_activeVcpu (s : State D) (v : Vcpu D) (d : D) :
    ((s.acctStopLocked v).sdom d).activeVcpu =
      if d = v.dom then (s.sdom d).activeVcpu.erase v else (s.sdom d).activeVcpu := by
  simp only [acctStopLocked, setSdom, Function.update_apply, bugOn_sdom]
  split
  next h => rw [h]
  next => rfl

theorem acctStopLocked_activeSdom (s : State D) (v : Vcpu D) :
    (s.acctStopLocked v).activeSdom =
      if (s.sdom v.dom).activeVcpu.erase v = [] then s.activeSdom.erase v.dom else s.activeSdom := rfl

theorem Lists.acctStopLocked (hs : s.Lists) (v : Vcpu D) : (s.acctStopLocked v).Lists := by
  constructor
  · rw [acctStopLocked_activeSdom]
    split
    · exact hs.sdom_nodup.erase _
    · exact hs.sdom_nodup
  · intro d
    rw [acctStopLocked_activeVcpu]
    split
    · exact (hs.vcpu_nodup d).erase _
    · exact hs.vcpu_nodup d
  · intro d w hw
    rw [acctStopLocked_activeVcpu] at hw
    split at hw
    · exact hs.vcpu_dom d w (List.mem_of_mem_erase hw)
    · exact hs.vcpu_dom d w hw
  · intro d
    rw [acctStopLocked_activeSdom, acctStopLocked_activeVcpu]
    by_cases hd : d = v.dom
    · subst hd
      rw [if_pos rfl]
      split
      · rename_i hlast
        simp [hs.sdom_nodup.mem_erase_iff, hlast]
      · rename_i hmore
        refine ⟨fun _ => hmore, fun _ => (hs.listed v.dom).mpr ?_⟩
        intro hnil
        rw [hnil] at hmore
        exact hmore rfl
    · rw [if_neg hd, ← hs.listed]
      split
      · exact List.mem_erase_of_ne hd
      · exact Iff.rfl

theorem kept_burnCredits (s : State D) (v : Vcpu D) (credits : Nat) : Kept v s (s.burnCredits v credits) :=
  kept_setSvc rfl

/-- What `csched_dom_cntl` does about the weight. -/
def setWeight (s : State D) (d : D) (weight : UInt16) : State D :=
  if weight ≠ 0 then
    { s with
      weight := if d ∈ s.activeSdom then
          u32 (s.weight - (s.sdom d).weight * (s.sdom d).activeVcpuCount
            + weight.toNat * (s.sdom d).activeVcpuCount)
        else s.weight }.setSdom d { s.sdom d with weight := weight.toNat }
  else s

theorem domCntl_eq (s : State D) (d : D) (weight cap : UInt16) :
    s.domCntl d weight cap =
      if cap ≠ 65535 then
        (s.setWeight d weight).setSdom d { (s.setWeight d weight).sdom d with cap := cap.toNat }
      else s.setWeight d weight := by
  have hset : s.setWeight d weight =
      if weight ≠ 0 then
        (if d ∈ s.activeSdom then
          { s with weight := u32 (s.weight - (s.sdom d).weight * (s.sdom d).activeVcpuCount
              + weight.toNat * (s.sdom d).activeVcpuCount) }
        else s).setSdom d { s.sdom d with weight := weight.toNat }
      else s := by
    unfold setWeight
    split
    · split <;> rfl
    · rfl
  rw [hset]
  rfl

theorem setWeight_activeVcpu (s : State D) (d : D) (weight : UInt16) (d' : D) :
    ((s.setWeight d weight).sdom d').activeVcpu = (s.sdom d').activeVcpu := by
  unfold setWeight
  split
  · by_cases hd : d' = d
    · subst hd
      simp [setSdom]
    · simp [setSdom, hd]
  · rfl

theorem setWeight_activeSdom (s : State D) (d : D) (weight : UInt16) :
    (s.setWeight d weight).activeSdom = s.activeSdom := by
  unfold setWeight
  split <;> rfl

theorem setCap_activeVcpu (s : State D) (d : D) (cap : Nat) (d' : D) :
    ((s.setSdom d { s.sdom d with cap := cap }).sdom d').activeVcpu = (s.sdom d').activeVcpu := by
  by_cases hd : d' = d
  · subst hd
    simp [setSdom]
  · simp [setSdom, hd]

theorem Lists.setWeight (hl : s.Lists) (d : D) (weight : UInt16) : (s.setWeight d weight).Lists :=
  hl.congr (s.setWeight_activeSdom d weight) (s.setWeight_activeVcpu d weight)

theorem Lists.domCntl (hl : s.Lists) (d : D) (weight cap : UInt16) : (s.domCntl d weight cap).Lists := by
  rw [domCntl_eq]
  split
  · exact (hl.setWeight d weight).congr rfl (setCap_activeVcpu _ d _)
  · exact hl.setWeight d weight

theorem Lists.allocDomdata (hl : s.Lists) (hd : (s.sdom d).activeVcpu = []) : (s.allocDomdata d).Lists := by
  refine hl.congr rfl fun d' => ?_
  by_cases h : d' = d
  · subst h
    simp [State.allocDomdata, setSdom, hd]
  · simp [State.allocDomdata, setSdom, h]

/-- A domain that is moved to the head of the list. -/
theorem Lists.reorder (hs : s.Lists) (hd : d ∈ s.activeSdom) :
    Lists { s with activeSdom := d :: s.activeSdom.erase d } := by
  have hperm := List.perm_cons_erase hd
  refine ⟨hperm.nodup hs.sdom_nodup, hs.vcpu_nodup, hs.vcpu_dom, fun d' => ?_⟩
  rw [← hs.listed]
  exact hperm.mem_iff.symm

end State

/-! ## The walks -/

namespace Acct

variable {a : Acct D} {d : D} {v : Vcpu D} {fair cap weightTotal : Nat}

@[simp] theorem vcpu_state : (a.vcpu d fair cap v).state = (a.credited d fair cap v).1 := rfl

theorem vcpu_lists (hl : a.state.Lists) (hv : v.dom = d) (fair cap : Nat) :
    (a.vcpu d fair cap v).state.Lists ∧
      (((a.vcpu d fair cap v).state.sdom d).activeVcpu = (a.state.sdom d).activeVcpu ∨
        ((a.vcpu d fair cap v).state.sdom d).activeVcpu = (a.state.sdom d).activeVcpu.erase v) := by
  obtain ⟨s, hk, heq | ⟨-, c, heq⟩⟩ := a.credited_cases hv fair cap
  · rw [vcpu_state, heq]
    exact ⟨hl.kept hk, .inl (by rw [hk.sdom])⟩
  · rw [vcpu_state, heq]
    refine ⟨((hl.kept hk).acctStopLocked v).congr rfl fun _ => rfl, .inr ?_⟩
    change ((s.acctStopLocked v).sdom d).activeVcpu = _
    rw [State.acctStopLocked_activeVcpu, if_pos hv.symm, hk.sdom]

/-- The rule for the inner loop: what holds before, and is kept for each vCPU that is active then,
holds after it. -/
theorem walkVcpus {Q : Acct D → Prop}
    (hvcpu : ∀ a v, a.state.Lists → v.dom = d → a.state.Active v → Q a → Q (a.vcpu d fair cap v))
    (hl : a.state.Lists) (hQ : Q a) :
    (SafeWalk.forEach (fun a => (a.state.sdom d).activeVcpu) (fun v a => a.vcpu d fair cap v) a).state.Lists ∧
      Q (SafeWalk.forEach (fun a => (a.state.sdom d).activeVcpu) (fun v a => a.vcpu d fair cap v) a) := by
  let I : List (Vcpu D) → Acct D → Prop := fun rest a =>
    a.state.Lists ∧ (∃ pre, (a.state.sdom d).activeVcpu = pre ++ rest) ∧ Q a
  have hwalk := SafeWalk.forEach_eq_foldl (fun a => (a.state.sdom d).activeVcpu)
    (fun v a => a.vcpu d fair cap v) (I := I) ?_ ?_ (s := a) ⟨hl, ⟨[], rfl⟩, hQ⟩
  · exact ⟨hwalk.2.1, hwalk.2.2.2⟩
  · rintro rest a ⟨hl, ⟨pre, hpre⟩, -⟩
    exact ⟨pre, hpre, hl.vcpu_nodup d⟩
  · rintro v rest a ⟨hl, ⟨pre, hpre⟩, hQ⟩
    have hmem : v ∈ (a.state.sdom d).activeVcpu := by simp [hpre]
    have hv := hl.vcpu_dom d v hmem
    have hact : a.state.Active v := by
      rw [State.Active, hv]
      exact hmem
    obtain ⟨hl', hlist⟩ := vcpu_lists hl hv fair cap
    refine ⟨hl', ?_, hvcpu a v hl hv hact hQ⟩
    rcases hlist with h | h
    · exact ⟨pre ++ [v], by rw [h, hpre, List.append_assoc, List.singleton_append]⟩
    · have hnot : v ∉ pre := by
        have hnodup := hl.vcpu_nodup d
        rw [hpre] at hnodup
        exact fun hp => List.disjoint_of_nodup_append hnodup hp List.mem_cons_self
      exact ⟨pre, by rw [h, hpre, List.erase_append_right _ hnot, List.erase_cons_head]⟩

/-- What the outer loop does to a domain before it looks at its vCPUs. -/
theorem fairShare_cases (a : Acct D) (weightTotal : Nat) (d : D) :
    ∃ l, (a.fairShare weightTotal d).1.state = { a.state.bugOn ((a.state.sdom d).activeVcpuCount = 0 ∨
        (a.state.sdom d).weight = 0 ∨ a.weightLeft < a.share d ∨ weightTotal = 0) with activeSdom := l } ∧
      (l = a.state.activeSdom ∨ l = d :: a.state.activeSdom.erase d) ∧
      (a.fairShare weightTotal d).1.weightLeft = u32 (a.weightLeft - a.share d) ∧
      (a.fairShare weightTotal d).1.visited = a.visited ++ [d] := by
  unfold fairShare
  dsimp only
  split
  · exact ⟨_, rfl, .inl rfl, rfl, rfl⟩
  · dsimp only
    split
    · split
      · exact ⟨_, rfl, .inr rfl, rfl, rfl⟩
      · exact ⟨_, rfl, .inl rfl, rfl, rfl⟩
    · split
      · exact ⟨_, rfl, .inr rfl, rfl, rfl⟩
      · exact ⟨_, rfl, .inl rfl, rfl, rfl⟩

theorem fairShare_lists (hl : a.state.Lists) (hd : d ∈ a.state.activeSdom) (weightTotal : Nat) :
    (a.fairShare weightTotal d).1.state.Lists := by
  obtain ⟨l, hstate, rfl | rfl, -, -⟩ := a.fairShare_cases weightTotal d
  · rw [hstate]
    exact hl.congr rfl fun _ => rfl
  · rw [hstate]
    exact (hl.reorder hd).congr rfl fun _ => rfl

/-- The rule for one round of the outer loop. -/
theorem dom_rule {Q : Acct D → Prop} {w : Nat} (hl : a.state.Lists) (hd : d ∈ a.state.activeSdom)
    (hQ : Q (a.fairShare w d).1)
    (hvcpu : ∀ fair cap a v, a.state.Lists → v.dom = d → a.state.Active v → Q a →
      Q (a.vcpu d fair cap v)) :
    (a.dom w d).state.Lists ∧ Q (a.dom w d) :=
  walkVcpus (hvcpu _ _) (fairShare_lists hl hd w) hQ

/-- A domain can only be moved to the front of the list, or leave it: what is behind it stays. -/
theorem dom_suffix {pre rest : List D} (hl : a.state.Lists)
    (hlist : a.state.activeSdom = pre ++ d :: rest) (weightTotal : Nat) :
    ∃ pre', (a.dom weightTotal d).state.activeSdom = pre' ++ rest := by
  have hd : d ∈ a.state.activeSdom := by simp [hlist]
  have hnodup := hl.sdom_nodup
  rw [hlist] at hnodup
  have hpre : d ∉ pre := fun h => List.disjoint_of_nodup_append hnodup h List.mem_cons_self
  have hrest : d ∉ rest := (List.nodup_cons.mp (List.Nodup.of_append_right hnodup)).1
  refine (dom_rule (Q := fun a => ∃ pre', a.state.activeSdom = pre' ++ rest) hl hd ?_ ?_).2
  · obtain ⟨l, hstate, rfl | rfl, -, -⟩ := a.fairShare_cases weightTotal d
    · exact ⟨pre ++ [d], by rw [hstate, hlist]; simp⟩
    · refine ⟨d :: pre, ?_⟩
      rw [hstate, hlist]
      simp [List.erase_append_right _ hpre]
  · rintro fair cap a v hl hv hact ⟨pre', hpre'⟩
    obtain ⟨s, hk, heq | ⟨-, c, heq⟩⟩ := a.credited_cases hv fair cap
    · exact ⟨pre', by rw [vcpu_state, heq, hk.activeSdom, hpre']⟩
    · rw [vcpu_state, heq]
      change ∃ pre', (s.acctStopLocked v).activeSdom = pre' ++ rest
      rw [State.acctStopLocked_activeSdom, hk.activeSdom, hpre', hv]
      split
      · -- its last vCPU: the domain leaves the list, from where it is
        by_cases hmem : d ∈ pre'
        · exact ⟨pre'.erase d, List.erase_append_left _ hmem⟩
        · exact ⟨pre', by rw [List.erase_append_right _ hmem, List.erase_of_not_mem hrest]⟩
      · exact ⟨pre', rfl⟩

end Acct

/-- The walk of `csched_acct` visits the domains in their order; `P rest a` says that `rest` are left. -/
theorem State.Lists.acctWalk_rule {s : State D} {P : List D → Acct D → Prop} (hs : s.Lists)
    (hdom : ∀ d rest a, a.state.Lists → d ∈ a.state.activeSdom → d ∉ rest → P (d :: rest) a →
      P rest (a.dom s.weight d))
    (h0 : ∀ creditTotal, P s.activeSdom ⟨s, creditTotal, s.weight, 0, false, []⟩) :
    s.acctWalk = s.activeSdom.foldl (fun a d => a.dom s.weight d)
        ⟨s, if s.creditBalance < 0 then u32 (s.credit - s.creditBalance) else s.credit, s.weight, 0, false, []⟩ ∧
      s.acctWalk.state.Lists ∧ P [] s.acctWalk := by
  let I : List D → Acct D → Prop := fun rest a =>
    a.state.Lists ∧ (∃ pre, a.state.activeSdom = pre ++ rest) ∧ P rest a
  have hwalk := SafeWalk.forEach_eq_foldl (fun a : Acct D => a.state.activeSdom)
    (fun d a => a.dom s.weight d) (I := I) ?_ ?_
    (s := ⟨s, if s.creditBalance < 0 then u32 (s.credit - s.creditBalance) else s.credit, s.weight, 0,
      false, []⟩) ⟨hs, ⟨[], rfl⟩, h0 _⟩
  · exact ⟨hwalk.1, hwalk.2.1, hwalk.2.2.2⟩
  · rintro rest a ⟨hl, ⟨pre, hpre⟩, -⟩
    exact ⟨pre, hpre, hl.sdom_nodup⟩
  · rintro d rest a ⟨hl, ⟨pre, hpre⟩, hP⟩
    have hd : d ∈ a.state.activeSdom := by simp [hpre]
    have hrest : d ∉ rest := by
      have hnodup := hl.sdom_nodup
      rw [hpre] at hnodup
      exact (List.nodup_cons.mp (List.Nodup.of_append_right hnodup)).1
    refine ⟨?_, Acct.dom_suffix hl hpre s.weight, hdom d rest a hl hd hrest hP⟩
    exact (Acct.dom_rule (Q := fun _ => True) hl hd trivial fun _ _ _ _ _ _ _ _ => trivial).1

/-- The rule for `csched_acct`. -/
theorem State.Lists.acctWalk {s : State D} {P : List D → Acct D → Prop} (hs : s.Lists)
    (hdom : ∀ d rest a, a.state.Lists → d ∈ a.state.activeSdom → d ∉ rest → P (d :: rest) a →
      P rest (a.dom s.weight d))
    (h0 : ∀ creditTotal, P s.activeSdom ⟨s, creditTotal, s.weight, 0, false, []⟩) :
    s.acctWalk.state.Lists ∧ P [] s.acctWalk :=
  (hs.acctWalk_rule hdom h0).2

theorem State.Lists.acctWalk_foldl {s : State D} (hs : s.Lists) :
    s.acctWalk = s.activeSdom.foldl (fun a d => a.dom s.weight d)
      ⟨s, if s.creditBalance < 0 then u32 (s.credit - s.creditBalance) else s.credit, s.weight, 0, false, []⟩ :=
  (hs.acctWalk_rule (P := fun _ _ => True) (fun _ _ _ _ _ _ _ => trivial) fun _ => trivial).1

namespace State

variable {s : State D} {v : Vcpu D}

/-- `csched_vcpu_acct` makes the vCPU active, apart from what happens to its own data. -/
theorem vcpuAcct_cases (s : State D) (v : Vcpu D) (credits : Nat) :
    ∃ s', Kept v s s' ∧ (s'.svc v).parked = (s.svc v).parked ∧ s.vcpuAcct v credits = s'.acctStart v := by
  let s₁ := if (s.svc v).pri = .tsBoost then s.setSvc v { s.svc v with pri := .tsUnder } else s
  have hk : Kept v s s₁ ∧ (s₁.svc v).parked = (s.svc v).parked := by
    unfold s₁
    split
    · exact ⟨kept_setSvc rfl, by simp [setSvc]⟩
    · exact ⟨Kept.refl v s, rfl⟩
  refine ⟨s₁.burnCredits v credits, hk.1.trans (kept_burnCredits _ v credits), ?_, rfl⟩
  rw [← hk.2]
  simp [burnCredits, setSvc]

theorem Lists.acct (hs : s.Lists) : s.acct.Lists := by
  unfold State.acct
  split
  · exact hs.congr rfl fun _ => rfl
  · have hwalk := (hs.acctWalk (P := fun _ _ => True) (fun _ _ _ _ _ _ _ => trivial) fun _ => trivial).1
    exact hwalk.congr rfl fun _ => rfl

end State

theorem Lists.act {step : Step D} {s : State D} (hcalled : Called step s) (hs : s.Lists) :
    (act step s).Lists := by
  cases step with
  | vcpuAcct v credits =>
    obtain ⟨s', hk, -, heq⟩ := s.vcpuAcct_cases v credits
    simp only [Credit.act, heq]
    exact (hs.kept hk).acctStart v
  | burnCredits v credits => exact hs.kept (State.kept_burnCredits s v credits)
  | acct => exact hs.acct
  | vcpuRemove v =>
    simp only [Credit.act, State.vcpuRemove]
    split
    · exact hs.acctStopLocked v
    · exact hs
  | domCntl d weight cap => exact hs.domCntl d weight cap
  | allocVdata v => exact hs.congr rfl fun _ => rfl
  | allocDomdata d => exact hs.allocDomdata hcalled

omit [DecidableEq D] in
theorem Lists.init (ncpus : Nat) : (init ncpus : State D).Lists :=
  ⟨List.nodup_nil, fun _ => List.nodup_nil, fun _ _ h => (nomatch h),
    fun _ => by simp [Credit.init]⟩

end Sched.Credit
