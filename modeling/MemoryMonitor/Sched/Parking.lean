import MemoryMonitor.Sched.Credit

/-!
# The credit scheduler: parked vCPUs

`csched_acct` pauses a vCPU of a capped domain that has used too much, and sets its flag
`CSCHED_FLAG_VCPU_PARKED`; when the vCPU is in credit again it is unpaused. The flag is in the data that
the scheduler of a cpupool has of the vCPU. That data is freed when the vCPU is destroyed, and when
`sched_move_domain` of `xen/common/schedule.c` takes its domain to another pool; neither looks at the
flag.
-/

namespace Sched.Credit

variable {D : Type} [DecidableEq D]

namespace State

variable {s s' : State D} {d : D} {v w : Vcpu D}

/-- A vCPU is paused by the scheduler if its flag is set, and it is on a list then. -/
structure Balanced (s : State D) : Prop where
  pauses : ∀ v, s.pauses v = s.owed v
  active : ∀ v, (s.svc v).parked = true → s.Active v

omit [DecidableEq D] in
theorem owed_congr (h : s'.svc v = s.svc v) : s'.owed v = s.owed v := by
  rw [owed, owed, h]

theorem Balanced.congr (hs : s.Balanced) (hsvc : s'.svc = s.svc) (hpauses : s'.pauses = s.pauses)
    (hactive : ∀ v, s.Active v → s'.Active v) : s'.Balanced := by
  constructor
  · intro v
    rw [hpauses, hs.pauses, owed_congr (by rw [hsvc])]
  · intro v hv
    rw [hsvc] at hv
    exact hactive v (hs.active v hv)

theorem Balanced.kept (hs : s.Balanced) (h : Kept v s s')
    (hv : (s'.svc v).parked = true → s.Active v) : s'.Balanced := by
  constructor
  · intro w
    by_cases hw : w = v
    · have hbal := h.balance
      have hold := hs.pauses v
      rw [hw]
      omega
    · rw [h.pauses w hw, hs.pauses, owed_congr (h.svc w hw)]
  · intro w hp
    rw [h.active_iff]
    by_cases hw : w = v
    · rw [hw] at hp ⊢
      exact hv hp
    · rw [h.svc w hw] at hp
      exact hs.active w hp

theorem active_acctStart (s : State D) (v : Vcpu D) (hw : s.Active w) : (s.acctStart v).Active w := by
  by_cases hv : s.Active v
  · rwa [acctStart, if_pos hv]
  · rw [Active, acctStart_activeVcpu hv]
    split
    · exact List.mem_cons_of_mem _ hw
    · exact hw

theorem active_of_acctStart (hw : (s.acctStart v).Active w) : w = v ∨ s.Active w := by
  by_cases hv : s.Active v
  · rw [acctStart, if_pos hv] at hw
    exact .inr hw
  · rw [Active, acctStart_activeVcpu hv] at hw
    split at hw
    · exact List.mem_cons.mp hw
    · exact .inr hw

theorem active_acctStopLocked (s : State D) (hne : w ≠ v) :
    (s.acctStopLocked v).Active w ↔ s.Active w := by
  rw [Active, acctStopLocked_activeVcpu, Active]
  split
  · exact List.mem_erase_of_ne hne
  · exact Iff.rfl

theorem active_of_acctStopLocked (hw : (s.acctStopLocked v).Active w) : s.Active w := by
  rw [Active, acctStopLocked_activeVcpu] at hw
  split at hw
  · exact List.mem_of_mem_erase hw
  · exact hw

theorem not_active_acctStopLocked (hl : s.Lists) : ¬ (s.acctStopLocked v).Active v := by
  rw [Active, acctStopLocked_activeVcpu, if_pos rfl]
  exact (hl.vcpu_nodup _).not_mem_erase

theorem acctStart_svc (s : State D) (v : Vcpu D) :
    (s.acctStart v).svc = s.svc ∧ (s.acctStart v).pauses = s.pauses := by
  unfold acctStart
  split <;> exact ⟨rfl, rfl⟩

theorem Balanced.acctStart (hs : s.Balanced) (v : Vcpu D) : (s.acctStart v).Balanced :=
  hs.congr (s.acctStart_svc v).1 (s.acctStart_svc v).2 fun _ => s.active_acctStart v

/-- A vCPU that is not parked can be taken off the list. -/
theorem Balanced.acctStopLocked (hs : s.Balanced) (hv : (s.svc v).parked = false) :
    (s.acctStopLocked v).Balanced := by
  constructor
  · exact hs.pauses
  · intro w hw
    have hne : w ≠ v := by
      rintro rfl
      have hw' : (s.svc w).parked = true := hw
      rw [hv] at hw'
      cases hw'
    exact (s.active_acctStopLocked hne).mpr (hs.active w hw)

theorem Balanced.vcpu {a : Acct D} (hs : a.state.Balanced) (hv : v.dom = d) (hact : a.state.Active v)
    (fair cap : Nat) :
    (a.vcpu d fair cap v).state.Balanced ∧
      ∀ w, (a.vcpu d fair cap v).state.Active w → a.state.Active w := by
  obtain ⟨s, hk, heq | ⟨hpark, c, heq⟩⟩ := a.credited_cases hv fair cap
  · rw [Acct.vcpu_state, heq]
    exact ⟨hs.kept hk fun _ => hact, fun w hw => (hk.active_iff w).mp hw⟩
  · rw [Acct.vcpu_state, heq]
    have hstop := (hs.kept hk fun _ => hact).acctStopLocked hpark
    constructor
    · refine hstop.kept (kept_setSvc rfl) fun hp => ?_
      have hp' : ((s.acctStopLocked v).svc v).parked = true := by simpa [setSvc] using hp
      exact absurd hp' (by rw [show (s.acctStopLocked v).svc = s.svc from rfl, hpark]; decide)
    · intro w hw
      exact (hk.active_iff w).mp (active_of_acctStopLocked hw)

theorem Balanced.acct (hs : s.Balanced) (hl : s.Lists) :
    s.acct.Balanced ∧ ∀ w, s.acct.Active w → s.Active w := by
  unfold State.acct
  split
  · exact ⟨hs.congr rfl rfl fun _ h => h, fun _ h => h⟩
  · let P : List D → Acct D → Prop := fun _ a => a.state.Balanced ∧ ∀ w, a.state.Active w → s.Active w
    have hwalk := (hl.acctWalk (P := P) ?_ fun _ => ⟨hs, fun _ h => h⟩).2
    · exact ⟨hwalk.1.congr rfl rfl fun _ h => h, hwalk.2⟩
    · rintro d rest a hla hd - ⟨hb, hsub⟩
      refine (Acct.dom_rule (Q := P []) hla hd ?_ ?_).2
      · obtain ⟨l, hstate, -, -, -⟩ := a.fairShare_cases s.weight d
        simp only [P, hstate]
        exact ⟨hb.congr rfl rfl fun _ h => h, hsub⟩
      · rintro fair cap a' v hl' hv hact ⟨hb', hsub'⟩
        obtain ⟨hbv, hsubv⟩ := hb'.vcpu hv hact fair cap
        exact ⟨hbv, fun w hw => hsub' w (hsubv w hw)⟩

end State

/-- The cpupools, each with a credit scheduler. -/
structure Pools (P D : Type) where
  pool : P → State D
  /-- `d->cpupool`. -/
  cpupool : D → P
  /-- The pool whose data `v->sched_priv` is; `none` for a vCPU that is not there. -/
  home : Vcpu D → Option P

variable {P : Type} [DecidableEq P]

namespace Pools

variable (s : Pools P D)

def setPool (p : P) (x : State D) : Pools P D :=
  { s with pool := Function.update s.pool p x }

/-- What happens in the pool of the vCPU. -/
def atHome (v : Vcpu D) (f : State D → State D) : Pools P D :=
  match s.home v with
  | some p => s.setPool p (f (s.pool p))
  | none => s

/-- `csched_vcpu_remove` and `csched_free_vdata`. -/
def release (v : Vcpu D) : Pools P D :=
  let s := s.atHome v fun x => x.vcpuRemove v
  { s with home := Function.update s.home v none }

/-- `sched_init_vcpu`, if there is memory. -/
def initVcpu (v : Vcpu D) : Pools P D :=
  let p := s.cpupool v.dom
  let s := s.setPool p ((s.pool p).allocVdata v)
  { s with home := Function.update s.home v (some p) }

/-- The beginning of `sched_move_domain`: new data in the pool `q`, for the domain and its vCPUs. -/
def moveAlloc (d : D) (q : P) (vcpus : List (Vcpu D)) : Pools P D :=
  s.setPool q (vcpus.foldl State.allocVdata ((s.pool q).allocDomdata d))

/-- The body of the loop of `sched_move_domain`. -/
def moveVcpu (v : Vcpu D) (q : P) : Pools P D :=
  let s := s.release v
  { s with home := Function.update s.home v (some q) }

end Pools

inductive PoolStep (P D : Type) where
  | vcpuAcct (v : Vcpu D) (credits : Nat)
  | burnCredits (v : Vcpu D) (credits : Nat)
  | acct (p : P)
  | domCntl (d : D) (weight cap : UInt16)
  | initVcpu (v : Vcpu D)
  /-- `sched_destroy_vcpu`. -/
  | destroyVcpu (v : Vcpu D)
  | moveAlloc (d : D) (q : P) (vcpus : List (Vcpu D))
  | moveVcpu (v : Vcpu D) (q : P)
  /-- The end of `sched_move_domain`. -/
  | moveEnd (d : D) (q : P)

def poolAct (step : PoolStep P D) (s : Pools P D) : Pools P D :=
  match step with
  | .vcpuAcct v credits => s.atHome v fun x => x.vcpuAcct v credits
  | .burnCredits v credits => s.atHome v fun x => x.burnCredits v credits
  | .acct p => s.setPool p (s.pool p).acct
  | .domCntl d weight cap => s.setPool (s.cpupool d) ((s.pool (s.cpupool d)).domCntl d weight cap)
  | .initVcpu v => s.initVcpu v
  | .destroyVcpu v => s.release v
  | .moveAlloc d q vcpus => s.moveAlloc d q vcpus
  | .moveVcpu v q => s.moveVcpu v q
  | .moveEnd d q => { s with cpupool := Function.update s.cpupool d q }

/-- Pools with some CPUs, and no vCPU. -/
def initPools (ncpus : P → Nat) (cpupool : D → P) : Pools P D where
  pool p := init (ncpus p)
  cpupool := cpupool
  home _ := none

/-- A vCPU is initialised once, and a domain is moved to a pool that it is not in. -/
def PoolCalled (step : PoolStep P D) (s : Pools P D) : Prop :=
  match step with
  | .initVcpu v => s.home v = none
  | .moveAlloc d q vcpus => (∀ v, v.dom = d → s.home v ≠ some q) ∧ ∀ v ∈ vcpus, v.dom = d
  | _ => True

/-- A vCPU is paused by the scheduler of its pool if that has parked it, and by no other; and it is
parked only while it is on the list of its domain. -/
structure Pools.ParkingBalanced (s : Pools P D) : Prop where
  home : ∀ v p, s.home v = some p → (s.pool p).pauses v = if ((s.pool p).svc v).parked then 1 else 0
  away : ∀ v p, s.home v ≠ some p → (s.pool p).pauses v = 0
  active : ∀ v p, s.home v = some p → ((s.pool p).svc v).parked = true → (s.pool p).Active v

/-- A vCPU whose data is freed is not parked. -/
def FreedUnparked (step : PoolStep P D) (s : Pools P D) : Prop :=
  match step with
  | .destroyVcpu v | .moveVcpu v _ => ∀ p, s.home v = some p → ((s.pool p).svc v).parked = false
  | _ => True

/-! ## What holds in every pool -/

namespace Pools

variable {s : Pools P D} {v : Vcpu D} {p : P}

structure Inv (s : Pools P D) : Prop where
  lists : ∀ p, (s.pool p).Lists
  balanced : ∀ p, (s.pool p).Balanced
  active : ∀ p v, (s.pool p).Active v → s.home v = some p

omit [DecidableEq D] [DecidableEq P] in
theorem Inv.parkingBalanced (hs : s.Inv) : s.ParkingBalanced := by
  constructor
  · intro v p _
    exact (hs.balanced p).pauses v
  · intro v p hp
    rw [(hs.balanced p).pauses, State.owed, if_neg]
    intro hpark
    exact hp (hs.active p v ((hs.balanced p).active v hpark))
  · intro v p _ hpark
    exact (hs.balanced p).active v hpark

omit [DecidableEq D] in
theorem Inv.setPool (hs : s.Inv) {x : State D} (hl : x.Lists) (hb : x.Balanced)
    (hactive : ∀ v, x.Active v → s.home v = some p) : (s.setPool p x).Inv := by
  have hpool : ∀ q, (s.setPool p x).pool q = if q = p then x else s.pool q := fun q =>
    Function.update_apply ..
  constructor
  · intro q
    rw [hpool]
    split
    · exact hl
    · exact hs.lists q
  · intro q
    rw [hpool]
    split
    · exact hb
    · exact hs.balanced q
  · intro q w hw
    rw [hpool] at hw
    split at hw
    · rename_i hq
      rw [hq]
      exact hactive w hw
    · exact hs.active q w hw

/-- A step of the data of a vCPU whose home is the pool. -/
theorem Inv.atHome (hs : s.Inv) {f : State D → State D}
    (hf : ∀ p, s.home v = some p → (f (s.pool p)).Lists ∧ (f (s.pool p)).Balanced ∧
      ∀ w, (f (s.pool p)).Active w → w = v ∨ (s.pool p).Active w) : (s.atHome v f).Inv := by
  unfold Pools.atHome
  split
  · rename_i p hp
    obtain ⟨hl, hb, hactive⟩ := hf p hp
    refine hs.setPool hl hb fun w hw => ?_
    rcases hactive w hw with rfl | hw
    · exact hp
    · exact hs.active p w hw
  · exact hs

omit [DecidableEq P] in
/-- A vCPU is in no other pool than its home, so it can be given another one when it has left that. -/
theorem Inv.rehome (hs : s.Inv) (home : Option P) (hv : ∀ p, ¬ (s.pool p).Active v) :
    Inv { s with home := Function.update s.home v home } := by
  refine ⟨hs.lists, hs.balanced, fun p w hw => ?_⟩
  have hne : w ≠ v := by
    rintro rfl
    exact hv p hw
  exact (Function.update_of_ne hne ..).trans (hs.active p w hw)

theorem Inv.release (hs : s.Inv) (hv : ∀ p, s.home v = some p → ((s.pool p).svc v).parked = false) :
    (s.release v).Inv ∧ ∀ p, ¬ ((s.release v).pool p).Active v := by
  have hremove : (s.atHome v fun x => x.vcpuRemove v).Inv := by
    refine hs.atHome fun p hp => ?_
    unfold State.vcpuRemove
    split
    · refine ⟨(hs.lists p).acctStopLocked v, (hs.balanced p).acctStopLocked (hv p hp), fun w hw => ?_⟩
      exact .inr (State.active_of_acctStopLocked hw)
    · exact ⟨hs.lists p, hs.balanced p, fun _ h => .inr h⟩
  have hgone : ∀ p, ¬ ((s.atHome v fun x => x.vcpuRemove v).pool p).Active v := by
    intro p hact
    unfold Pools.atHome at hact
    split at hact
    · rename_i q hq
      by_cases hp : p = q
      · subst hp
        simp only [Pools.setPool, Function.update_self, State.vcpuRemove] at hact
        split at hact
        · exact State.not_active_acctStopLocked (hs.lists p) hact
        · contradiction
      · -- another pool has never known it as active
        simp only [Pools.setPool, Function.update_of_ne hp] at hact
        have hhome := hs.active p v hact
        rw [hq] at hhome
        exact hp (Option.some.inj hhome).symm
    · rename_i hnone
      have hhome := hs.active p v hact
      rw [hnone] at hhome
      cases hhome
  exact ⟨hremove.rehome none hgone, hgone⟩

/-- New data for a vCPU that is not active. -/
theorem balanced_allocVdata {x : State D} (hx : x.Balanced) (hv : ¬ x.Active v) : (x.allocVdata v).Balanced := by
  have hpark : (x.svc v).parked = false := by
    by_contra h
    exact hv (hx.active v (by simpa using h))
  exact hx.kept (State.kept_setSvc hpark.symm) fun h => by
    simp [State.allocVdata, State.setSvc] at h

theorem balanced_foldl_allocVdata {vcpus : List (Vcpu D)} {x : State D} (hx : x.Balanced)
    (hv : ∀ v ∈ vcpus, ¬ x.Active v) : (vcpus.foldl State.allocVdata x).Balanced := by
  induction vcpus generalizing x with
  | nil => exact hx
  | cons v rest ih =>
    exact ih (balanced_allocVdata hx (hv v List.mem_cons_self)) fun w hw => hv w (List.mem_cons_of_mem v hw)

theorem foldl_allocVdata_sdom (vcpus : List (Vcpu D)) (x : State D) :
    (vcpus.foldl State.allocVdata x).sdom = x.sdom ∧
      (vcpus.foldl State.allocVdata x).activeSdom = x.activeSdom := by
  induction vcpus generalizing x with
  | nil => exact ⟨rfl, rfl⟩
  | cons v rest ih => exact ih (x.allocVdata v)

theorem Inv.moveAlloc (hs : s.Inv) {d : D} {q : P} {vcpus : List (Vcpu D)}
    (hhome : ∀ v, v.dom = d → s.home v ≠ some q) (hdom : ∀ v ∈ vcpus, v.dom = d) :
    (s.moveAlloc d q vcpus).Inv := by
  have hnil : ((s.pool q).sdom d).activeVcpu = [] := by
    apply List.eq_nil_iff_forall_not_mem.mpr
    intro v hv
    have hvd := (hs.lists q).vcpu_dom d v hv
    refine hhome v hvd (hs.active q v ?_)
    rw [State.Active, hvd]
    exact hv
  have hactive : ∀ w, ((s.pool q).allocDomdata d).Active w ↔ (s.pool q).Active w := by
    intro w
    by_cases hw : w.dom = d
    · simp [State.Active, State.allocDomdata, State.setSdom, hw, hnil]
    · simp [State.Active, State.allocDomdata, State.setSdom, hw]
  have hdata : ((s.pool q).allocDomdata d).Balanced :=
    (hs.balanced q).congr rfl rfl fun w hw => (hactive w).mpr hw
  obtain ⟨hsdom, hlist⟩ := foldl_allocVdata_sdom vcpus ((s.pool q).allocDomdata d)
  refine hs.setPool ?_ ?_ ?_
  · exact ((hs.lists q).allocDomdata hnil).congr hlist fun _ => by rw [hsdom]
  · refine balanced_foldl_allocVdata hdata fun v hv hact => ?_
    exact hhome v (hdom v hv) (hs.active q v ((hactive v).mp hact))
  · intro w hw
    rw [State.Active, hsdom] at hw
    exact hs.active q w ((hactive w).mp hw)

theorem domCntl_svc (x : State D) (d : D) (weight cap : UInt16) :
    (x.domCntl d weight cap).svc = x.svc ∧ (x.domCntl d weight cap).pauses = x.pauses := by
  rw [State.domCntl_eq]
  unfold State.setWeight
  split <;> split <;> exact ⟨rfl, rfl⟩

theorem domCntl_active (x : State D) (d : D) (weight cap : UInt16) (w : Vcpu D) :
    (x.domCntl d weight cap).Active w ↔ x.Active w := by
  rw [State.domCntl_eq, State.Active, State.Active]
  split
  · rw [State.setCap_activeVcpu, State.setWeight_activeVcpu]
  · rw [State.setWeight_activeVcpu]

end Pools

/-- Every step keeps the pools in order, if no parked vCPU is freed. -/
theorem Pools.Inv.act {step : PoolStep P D} {s : Pools P D} (hcalled : PoolCalled step s)
    (hfreed : FreedUnparked step s) (hs : s.Inv) : (poolAct step s).Inv := by
  cases step with
  | vcpuAcct v credits =>
    change (s.atHome v fun x => x.vcpuAcct v credits).Inv
    refine hs.atHome fun p hp => ?_
    obtain ⟨x, hk, hpark, heq⟩ := (s.pool p).vcpuAcct_cases v credits
    rw [heq]
    have hb : x.Balanced := (hs.balanced p).kept hk fun h => (hs.balanced p).active v (hpark ▸ h)
    refine ⟨((hs.lists p).kept hk).acctStart v, hb.acctStart v, fun w hw => ?_⟩
    exact (State.active_of_acctStart hw).imp_right (hk.active_iff w).mp
  | burnCredits v credits =>
    change (s.atHome v fun x => x.burnCredits v credits).Inv
    refine hs.atHome fun p hp => ?_
    have hk := (s.pool p).kept_burnCredits v credits
    refine ⟨(hs.lists p).kept hk, (hs.balanced p).kept hk fun h => ?_, fun _ h => .inr h⟩
    exact (hs.balanced p).active v (by simpa [State.burnCredits, State.setSvc] using h)
  | acct p =>
    obtain ⟨hb, hactive⟩ := (hs.balanced p).acct (hs.lists p)
    exact hs.setPool (hs.lists p).acct hb fun w hw => hs.active p w (hactive w hw)
  | domCntl d weight cap =>
    have hsvc := Pools.domCntl_svc (s.pool (s.cpupool d)) d weight cap
    have hactive := Pools.domCntl_active (s.pool (s.cpupool d)) d weight cap
    refine hs.setPool ((hs.lists _).domCntl d weight cap) ?_ fun w hw => hs.active _ w ((hactive w).mp hw)
    exact (hs.balanced _).congr hsvc.1 hsvc.2 fun w hw => (hactive w).mpr hw
  | initVcpu v =>
    have hnone : s.home v = none := hcalled
    have hidle : ∀ p, ¬ (s.pool p).Active v := by
      intro p hact
      have hhome := hs.active p v hact
      rw [hnone] at hhome
      cases hhome
    have hset : (s.setPool (s.cpupool v.dom) ((s.pool (s.cpupool v.dom)).allocVdata v)).Inv :=
      hs.setPool ((hs.lists _).congr rfl fun _ => rfl)
        (Pools.balanced_allocVdata (hs.balanced _) (hidle _)) fun w hw => hs.active _ w hw
    refine hset.rehome _ fun p hact => ?_
    by_cases hp : p = s.cpupool v.dom
    · subst hp
      simp only [Pools.setPool, Function.update_self] at hact
      exact hidle _ hact
    · simp only [Pools.setPool, Function.update_of_ne hp] at hact
      exact hidle p hact
  | destroyVcpu v => exact (hs.release hfreed).1
  | moveAlloc d q vcpus => exact hs.moveAlloc hcalled.1 hcalled.2
  | moveVcpu v q =>
    obtain ⟨hrel, hgone⟩ := hs.release hfreed
    exact hrel.rehome (some q) hgone
  | moveEnd d q => exact ⟨hs.lists, hs.balanced, hs.active⟩

omit [DecidableEq P] in
theorem Pools.Inv.init (ncpus : P → Nat) (cpupool : D → P) : (initPools ncpus cpupool : Pools P D).Inv :=
  ⟨fun p => Lists.init (ncpus p), fun _ => ⟨fun _ => rfl, fun _ h => (nomatch h)⟩, fun _ _ h => (nomatch h)⟩

/-- In a run in which no vCPU is parked when its data is freed, the parking is balanced after every
step. -/
theorem run_parking_balanced (ncpus : P → Nat) (cpupool : D → P) (steps : List (PoolStep P D))
    (hcalled : Runs.Each poolAct PoolCalled steps (initPools ncpus cpupool))
    (hfreed : Runs.Each poolAct FreedUnparked steps (initPools ncpus cpupool)) :
    Runs.Each poolAct (fun step s => (poolAct step s).ParkingBalanced) steps
      (initPools ncpus cpupool) := by
  refine Runs.Each.of_inv (I := Pools.Inv) ?_ ?_ (hcalled.and hfreed) (Pools.Inv.init ncpus cpupool)
  · intro step s hok hs
    exact Pools.Inv.act hok.1 hok.2 hs
  · intro step s hok hs
    exact (Pools.Inv.act hok.1 hok.2 hs).parkingBalanced

/-- A vCPU of a capped domain uses more than it has, and is parked. -/
def parkOne : List (PoolStep Bool Nat) :=
  [.initVcpu ⟨0, 0⟩, .domCntl 0 0 1, .vcpuAcct ⟨0, 0⟩ 1000, .acct false]

/-- The domain goes to the other pool. -/
def moveOne : List (PoolStep Bool Nat) :=
  [.moveAlloc 0 true [⟨0, 0⟩], .moveVcpu ⟨0, 0⟩ true, .moveEnd 0 true]

/-- The cap is lifted in between, and the vCPU comes back into credit. -/
def parkAndMove : List (PoolStep Bool Nat) :=
  parkOne ++ [.domCntl 0 0 0, .acct false] ++ moveOne

def twoPools : Pools Bool Nat := initPools (fun _ => 1) fun _ => false

instance (step : PoolStep Bool Nat) (s : Pools Bool Nat) : Decidable (FreedUnparked step s) :=
  match step with
  | .destroyVcpu _ | .moveVcpu _ _ => inferInstanceAs (Decidable (∀ _ : Bool, _ → _))
  | .vcpuAcct .. | .burnCredits .. | .acct .. | .domCntl .. | .initVcpu .. | .moveAlloc .. | .moveEnd .. =>
      isTrue trivial

/-- While there is no other vCPU than the one in the first pool, its domain is not in the second. -/
theorem not_home_of_update {s : Pools Bool Nat}
    (h : s.home = Function.update (fun _ => none) ⟨0, 0⟩ (some false)) (v : Vcpu Nat) : s.home v ≠ some true := by
  rw [h, Function.update_apply]
  split <;> simp

theorem run_parking_balanced_parkAndMove :
    Runs.Each poolAct PoolCalled parkAndMove twoPools ∧
      Runs.Each poolAct FreedUnparked parkAndMove twoPools ∧
      Runs.Each poolAct (fun step s => (poolAct step s).ParkingBalanced) parkAndMove twoPools := by
  have hcalled : Runs.Each poolAct PoolCalled parkAndMove twoPools := by
    refine ⟨rfl, trivial, trivial, trivial, trivial, trivial, ⟨?_, by simp⟩, trivial, trivial, trivial⟩
    exact fun v _ => not_home_of_update rfl v
  have hfreed : Runs.Each poolAct FreedUnparked parkAndMove twoPools := by decide +kernel
  exact ⟨hcalled, hfreed, run_parking_balanced _ _ parkAndMove hcalled hfreed⟩

/-- The vCPU is moved while it is parked: it stays paused, and its new data does not say so. -/
theorem parked_vcpu_moved :
    Runs.Each poolAct PoolCalled (parkOne ++ moveOne) twoPools ∧
      ¬ (Runs.run poolAct (parkOne ++ moveOne) twoPools).ParkingBalanced := by
  constructor
  · refine ⟨rfl, trivial, trivial, trivial, ⟨?_, by simp⟩, trivial, trivial, trivial⟩
    exact fun v _ => not_home_of_update rfl v
  · intro h
    have hzero := h.away ⟨0, 0⟩ false (by decide +kernel)
    revert hzero
    decide +kernel

end Sched.Credit
