import MemoryMonitor.Sched.Credit2.Runs

/-!
# The second credit scheduler: what is charged

What `burn_credits` of `xen/common/sched_credit2.c` takes from a vCPU while it runs. A vCPU is charged by the CPU
it runs on and by `runq_tickle` on other CPUs; `start_time` is where the time begins that is not charged yet.
-/

namespace Sched.Credit2

open Function (update update_self update_of_ne)

/-- What a stretch costs, rounded down. -/
def Burn.Exact (burn : Burn) : Prop := burn.lost = (burn.till - burn.since) * burn.maxWeight / burn.weight

/-- The stretches follow each other from one time to another, without a gap. -/
def Covers (since till : Int) : List Burn → Prop
  | [] => since = till
  | burn :: l => burn.since = since ∧ burn.since < burn.till ∧ Covers burn.till till l

theorem Covers.append (burn : Burn) {since till : Int} {l : List Burn} (h : Covers since till l)
    (hsince : burn.since = till) (hlt : burn.since < burn.till) : Covers since burn.till (l ++ [burn]) := by
  induction l generalizing since with
  | nil => exact ⟨hsince.trans h.symm, hlt, rfl⟩
  | cons first l ih => exact ⟨h.1, h.2.1, ih h.2.2⟩

instance Covers.decide : ∀ (since till : Int) (l : List Burn), Decidable (Covers since till l)
  | since, till, [] => inferInstanceAs (Decidable (since = till))
  | since, till, burn :: l =>
    have := Covers.decide burn.till till l
    inferInstanceAs (Decidable (burn.since = since ∧ burn.since < burn.till ∧ Covers burn.till till l))

/-- What a call of `burn_credits` is to take from a vCPU, and what the vCPU has. -/
structure BurnCall where
  credit : Int
  cost : Int

/-- The credit does not fall below what 32 bits hold. -/
def BurnCall.Fits (call : BurnCall) : Prop := -2 ^ 31 ≤ call.credit - call.cost

instance (call : BurnCall) : Decidable call.Fits := inferInstanceAs (Decidable (_ ≤ _))

variable {V C Q D : Type} [DecidableEq V] [DecidableEq C] [DecidableEq Q] [DecidableEq D] [Fintype Q]
  (m : Machine V C Q D)

/-! ## The calls of `burn_credits` -/

namespace State

def burnCall (s : State V C Q D) (q : Q) (v : Option V) (now : Int) : List BurnCall :=
  match v with
  | none => []
  | some v =>
    let delta := now - s.startTime v
    if 0 < delta then [⟨(s.credit v).toInt, delta * s.maxWeight q / s.weight v⟩] else []

def tickleLoopCalls (q : Q) (now : Int) : List C → State V C Q D → List BurnCall
  | [], _ => []
  | i :: mask, s =>
    let s := s.bugOn (s.curr i = none)
    s.burnCall q (s.curr i) now ++ tickleLoopCalls q now mask (s.burnCredits q (s.curr i) now)

def tickleCalls (cpu : C) (v : V) (now : Int) (s : State V C Q D) : List BurnCall :=
  let q := m.c2r cpu
  let s := s.bugOn (s.processor v ≠ cpu)
  let s := s.bugOn (s.rqd v ≠ some q)
  let calls := s.burnCall q (s.curr cpu) now
  let s := s.burnCredits q (s.curr cpu) now
  if s.creditOf (s.curr cpu) < s.creditOf (some v) then calls
  else
    match (m.active q).find? fun i => s.idle i && !s.tickled i with
    | some _ => calls
    | none =>
      let mask := (m.active q).filter fun i => !s.idle i && !s.tickled i && decide (i ≠ cpu)
      calls ++ tickleLoopCalls q now mask s

def queueUpCalls (v : V) (now : Int) (s : State V C Q D) : List BurnCall :=
  let s := s.runqInsert m (s.processor v) v
  s.tickleCalls m (s.processor v) v now

def wakeCalls (v : V) (now : Int) (s : State V C Q D) : List BurnCall :=
  if s.runnable v = false ∨ s.curr (s.processor v) = some v ∨ s.OnRunq v ∨ s.scheduled v = true then []
  else
    let s := if s.rqd v = none then s.runqAssign m v else s.bugOn (s.rqd v ≠ some (m.c2r (s.processor v)))
    (s.updateLoad (s.rqd v) 1).queueUpCalls m v now

def contextSavedCalls (v : V) (now : Int) (s : State V C Q D) : List BurnCall :=
  if s.rqd v = some (m.c2r (s.processor v)) ∧ s.delayedRunqAdd v = true ∧ s.runnable v = true then
    let s := s.clearScheduled v
    (s.bugOn (s.OnRunq v)).queueUpCalls m v now
  else []

def migrateCalls (v : V) (q : Q) (now : Int) (s : State V C Q D) : List BurnCall :=
  if s.scheduled v = false ∧ s.OnRunq v then
    let s := ((s.runqRemove v).updateLoad (s.rqd v) (-1)).reassign m v q
    (s.updateLoad (s.rqd v) 1).queueUpCalls m v now
  else []

def balanceCalls (cpu : C) (orqd : Q) (push pull : Option V) (now : Int) (s : State V C Q D) : List BurnCall :=
  let lrqd := m.c2r cpu
  if orqd = lrqd then []
  else
    let push := push.filter fun v => decide (v ∈ s.svc lrqd) && !s.migrateRequest v
    let pull := pull.filter fun v => decide (v ∈ s.svc orqd) && !s.migrateRequest v
    let calls := match push with
      | none => []
      | some v => s.migrateCalls m v orqd now
    let s := match push with
      | none => s
      | some v => s.migrate m v orqd now
    match pull with
    | none => calls
    | some v => calls ++ s.migrateCalls m v lrqd now

/-- The state after `csched_schedule` has charged the current vCPU. -/
def afterBurn (cpu : C) (now : Int) (s : State V C Q D) : State V C Q D :=
  let s := s.bugOn (∃ v ∈ s.curr cpu, s.rqd v ≠ some (m.c2r cpu))
  let s := { s with tickled := update s.tickled cpu false }
  s.burnCredits (m.c2r cpu) (s.curr cpu) now

/-- Whether `csched_schedule` resets the credits: the vCPU that it chooses has none left. -/
def resets (cpu : C) (taskletWork : Bool) (now : Int) (s : State V C Q D) : Bool :=
  match (s.afterBurn m cpu now).choose m cpu taskletWork with
  | none => false
  | some v => decide ((s.afterBurn m cpu now).creditOf (some v) ≤ creditReset)

def scheduleCalls (cpu : C) (taskletWork : Bool) (balance : Option (Q × Option V × Option V)) (now : Int)
    (s : State V C Q D) : List BurnCall :=
  let calls := s.burnCall (m.c2r cpu) (s.curr cpu) now
  let s := s.afterBurn m cpu now
  match s.choose m cpu taskletWork, balance with
  | some v, some (orqd, push, pull) =>
    let s := (s.delayCurr cpu (some v)).takeNext m cpu v
    if s.creditOf (some v) ≤ creditReset then
      calls ++ (s.resetCredit (m.c2r cpu) now).balanceCalls m cpu orqd push pull now
    else calls
  | _, _ => calls

end State

/-- The calls of `burn_credits` in a step that take something. -/
def burnCalls (step : Step V C Q D) (s : State V C Q D) : List BurnCall :=
  match step with
  | .wake v now => s.wakeCalls m v now
  | .contextSaved v now => s.contextSavedCalls m v now
  | .schedule cpu taskletWork balance now => s.scheduleCalls m cpu taskletWork balance now
  | .migrate v newCpu now =>
    if s.isRunning v = false ∧ s.migrating v = true ∧ some (m.c2r newCpu) ≠ s.rqd v then
      let s := { s with migrating := update s.migrating v false }
      let s := { s with slept := update s.slept v (s.slept v && !s.runnable v) }
      s.migrateCalls m v (m.c2r newCpu) now
    else []
  | _ => []

/-- The time that a CPU is called with is not before its current vCPU has been charged last, and when the credits
of its queue are reset, the other CPUs of the queue have just charged theirs. -/
def InTime (step : Step V C Q D) (s : State V C Q D) : Prop :=
  match step with
  | .schedule cpu taskletWork _ now =>
    (∀ v ∈ s.curr cpu, s.startTime v ≤ now) ∧
      (s.resets m cpu taskletWork now = true →
        ∀ c ∈ m.active (m.c2r cpu), c ≠ cpu → ∀ v ∈ s.curr c, s.startTime v = now)
  | _ => True

instance : ∀ (step : Step V C Q D) (s : State V C Q D), Decidable (InTime m step s)
  | .schedule _ _ _ _, _ => inferInstanceAs (Decidable (_ ∧ _))
  | .domInit _, _ | .insert _ _, _ | .remove _, _ | .sleep _, _ | .wake _ _, _ | .notRunning _, _
  | .contextSaved _ _, _ | .domCntl _ _, _ | .domCntlNext, _ | .pick _, _ | .migrate _ _ _, _ | .hold _ _, _
  | .setMigrating _, _ => inferInstanceAs (Decidable True)

/-- No credit wraps around. -/
def Afforded (step : Step V C Q D) (s : State V C Q D) : Prop := ∀ call ∈ burnCalls m step s, call.Fits

instance (step : Step V C Q D) (s : State V C Q D) : Decidable (Afforded m step s) :=
  inferInstanceAs (Decidable (∀ call ∈ burnCalls m step s, call.Fits))

/-- What a vCPU is charged since it has been scheduled in: the time that it runs, up to the last charge, and in
the end all of it. -/
structure Charged (s : State V C Q D) (v : V) : Prop where
  exact : ∀ burn ∈ s.burns v, burn.Exact
  running : ∀ c, s.curr c = some v → Covers (s.schedIn v) (s.startTime v) (s.burns v)
  ran : (∀ c, s.curr c ≠ some v) → Covers (s.schedIn v) (s.schedOut v) (s.burns v)

/-! ## Charges -/

variable [Fintype V] {m} {b : Bool} {s s' : State V C Q D} {v w : V} {c cpu : C} {q : Q} {now : Int}

omit [DecidableEq C] [DecidableEq D] in
theorem Inv.weight_range (hs : Inv m b s) (hv : s.rqd v ≠ none) : 1 ≤ s.weight v ∧ s.weight v < 2 ^ 16 := by
  by_cases hpending : v ∈ pending s
  · unfold pending at hpending
    split at hpending
    · cases hpending
    · next d old l hl =>
      obtain ⟨hlow, hhigh, -, hall⟩ := hs.cntl d old l hl
      rw [(hall v hpending).2]
      exact ⟨hlow, hhigh⟩
  · rw [hs.weighed v hv hpending]
    exact hs.sdomWeight _

theorem Inv.maxWeight_range (hs : Inv m b s) (q : Q) : 1 ≤ s.maxWeight q ∧ s.maxWeight q < 2 ^ 16 := by
  refine ⟨(hs.heaviest q).pos, ?_⟩
  rcases (hs.heaviest q).attained with h | ⟨v, hv, h⟩
  · omega
  · rw [← h]
    refine (hs.weight_range ?_).2
    rw [hv]
    exact Option.some_ne_none _

/-- Every vCPU is charged right, and those in `late` have been charged up to now. -/
structure Paid (now : Int) (late : V → Prop) (s : State V C Q D) : Prop where
  charged : ∀ v, Charged s v
  late : ∀ v, late v → s.startTime v = now

/-- Nobody is charged, and no time is set. -/
structure Quiet (s s' : State V C Q D) : Prop where
  curr : s'.curr = s.curr
  startTime : s'.startTime = s.startTime
  burns : s'.burns = s.burns
  schedIn : s'.schedIn = s.schedIn
  schedOut : s'.schedOut = s.schedOut

variable {late : V → Prop}

section

omit [DecidableEq V] [DecidableEq C] [DecidableEq Q] [DecidableEq D] [Fintype Q] [Fintype V]

theorem Quiet.trans {s'' : State V C Q D} (h : Quiet s s') (h' : Quiet s' s'') : Quiet s s'' :=
  ⟨h'.curr.trans h.curr, h'.startTime.trans h.startTime, h'.burns.trans h.burns, h'.schedIn.trans h.schedIn,
    h'.schedOut.trans h.schedOut⟩

theorem Quiet.paid (h : Quiet s s') (hs : Paid now late s) : Paid now late s' := by
  refine ⟨fun v => ?_, fun v hv => (congrFun h.startTime v).trans (hs.late v hv)⟩
  obtain ⟨hexact, hrunning, hran⟩ := hs.charged v
  constructor
  · rw [h.burns]
    exact hexact
  · rw [h.curr, h.schedIn, h.startTime, h.burns]
    exact hrunning
  · rw [h.curr, h.schedIn, h.schedOut, h.burns]
    exact hran

/-- The credit falls by what the stretch costs. -/
theorem State.burned_exact {delta : Int} (hdelta : 0 < delta) (hmax : 1 ≤ s.maxWeight q)
    (hweight : 1 ≤ s.weight v ∧ s.weight v < 2 ^ 16)
    (hfits : -2 ^ 31 ≤ (s.credit v).toInt - delta * s.maxWeight q / s.weight v) :
    (s.credit v).toInt - (s.burned q v delta).toInt = delta * s.maxWeight q / s.weight v := by
  have hlow := BitVec.le_toInt (s.credit v)
  have hhigh := BitVec.toInt_lt (x := s.credit v)
  have hnonneg : 0 ≤ delta * s.maxWeight q := Int.mul_nonneg hdelta.le (by omega)
  have hcost : 0 ≤ delta * s.maxWeight q / s.weight v := Int.ediv_nonneg hnonneg (by omega)
  -- the product fits into 64 bits
  have hprod : delta * s.maxWeight q < 2 ^ 63 := by
    have hlt := Int.lt_ediv_add_one_mul_self (delta * s.maxWeight q) (show 0 < s.weight v by omega)
    have hle : (delta * s.maxWeight q / s.weight v + 1) * s.weight v ≤ (2 ^ 32 + 1) * 2 ^ 16 :=
      Int.mul_le_mul (by omega) hweight.2.le (by omega) (by decide)
    omega
  have ht2c : s.t2c q delta v = delta * s.maxWeight q / s.weight v := by
    unfold t2c
    have htoInt : (BitVec.ofInt 64 (delta * s.maxWeight q)).toInt = delta * s.maxWeight q := by
      rw [BitVec.toInt_ofInt]
      apply Int.bmod_eq_of_le <;> omega
    rw [htoInt, Int.tdiv_eq_ediv_of_nonneg hnonneg]
  have htoInt : (s.burned q v delta).toInt = (s.credit v).toInt - delta * s.maxWeight q / s.weight v := by
    unfold burned
    rw [ht2c, BitVec.toInt_ofInt]
    apply Int.bmod_eq_of_le <;> omega
  rw [htoInt]
  omega

end

/-- The current vCPU of a CPU is charged. -/
theorem Paid.burnCredits (hp : Paid now late s) (hs : Inv m b s) (c : C) (q : Q)
    (hfits : ∀ call ∈ s.burnCall q (s.curr c) now, call.Fits) :
    Paid now late (s.burnCredits q (s.curr c) now) := by
  unfold State.burnCredits
  cases hc : s.curr c with
  | none => exact hp
  | some v =>
    rw [hc] at hfits
    unfold State.burnCall at hfits
    dsimp only at hfits ⊢
    split
    · next hdelta =>
      rw [if_pos hdelta] at hfits
      have hfits := hfits _ List.mem_cons_self
      obtain ⟨-, hrqd, -⟩ := hs.current c v hc
      have hexact := State.burned_exact hdelta (hs.maxWeight_range q).1
        (hs.weight_range (by rw [hrqd]; exact Option.some_ne_none _)) hfits
      refine ⟨fun w => ?_, fun w hw => ?_⟩
      · obtain ⟨hold, hrunning, hran⟩ := hp.charged w
        by_cases heq : w = v
        · subst heq
          constructor
          · dsimp only
            rw [update_self]
            intro burn hburn
            rcases List.mem_append.mp hburn with hburn | hburn
            · exact hold burn hburn
            · rw [List.mem_singleton.mp hburn]
              exact hexact
          · intro c' _
            dsimp only
            rw [update_self, update_self]
            exact (hrunning c hc).append (s.burnTill q w now) rfl (Int.sub_pos.mp hdelta)
          · exact fun h => absurd hc (h c)
        · constructor
          · dsimp only
            rw [update_of_ne heq]
            exact hold
          · dsimp only
            rw [update_of_ne heq, update_of_ne heq]
            exact hrunning
          · dsimp only
            rw [update_of_ne heq]
            exact hran
      · dsimp only
        by_cases heq : w = v
        · rw [heq, update_self]
        · rw [update_of_ne heq]
          exact hp.late w hw
    · exact hp

open State

theorem Paid.tickleLoop (hp : Paid now late s) (hs : Inv m b s) {q : Q} {mask : List C} (ipid : Option C) (lowest : Int)
    (hmask : ∀ i ∈ mask, s.curr i ≠ none) (hfits : ∀ call ∈ tickleLoopCalls q now mask s, call.Fits) :
    Paid now late (tickleLoop q now mask ipid lowest s).1 := by
  induction mask generalizing ipid lowest s with
  | nil => exact hp
  | cons i mask ih =>
    unfold tickleLoopCalls at hfits
    rw [bugOn_false (hmask i List.mem_cons_self)] at hfits
    have hburned := burnCredits_burned s q i now
    have hcharged := hp.burnCredits hs i q fun call hcall => hfits call (List.mem_append_left _ hcall)
    have hrest : ∀ j ∈ mask, (s.burnCredits q (s.curr i) now).curr j ≠ none := by
      intro j hj
      rw [hburned.curr]
      exact hmask j (List.mem_cons_of_mem _ hj)
    have hall := fun ipid lowest => ih hcharged (hburned.inv hs) ipid lowest hrest
      fun call hcall => hfits call (List.mem_append_right _ hcall)
    unfold tickleLoop
    dsimp only
    rw [bugOn_false (hmask i List.mem_cons_self)]
    split
    · exact hall _ _
    · exact hall _ _

omit [DecidableEq V] [DecidableEq Q] [DecidableEq D] [Fintype Q] [Fintype V] in
theorem tickle_quiet (s : State V C Q D) (i : C) : Quiet s (s.tickle i) := ⟨rfl, rfl, rfl, rfl, rfl⟩

theorem Paid.runqTickle (hp : Paid now late s) (hs : Inv m b s) (hprocessor : s.processor v = cpu)
    (hrqd : s.rqd v = some (m.c2r cpu)) (hfits : ∀ call ∈ s.tickleCalls m cpu v now, call.Fits) :
    Paid now late (s.runqTickle m cpu v now) := by
  have hburned := burnCredits_burned s (m.c2r cpu) cpu now
  have hs' := hburned.inv hs
  unfold tickleCalls at hfits
  unfold State.runqTickle
  dsimp only at hfits ⊢
  rw [bugOn_false (not_not.mpr hprocessor), bugOn_false (not_not.mpr hrqd)] at hfits ⊢
  generalize hr : s.burnCredits (m.c2r cpu) (s.curr cpu) now = r at *
  split
  · next hlt =>
    rw [if_pos hlt] at hfits
    exact (tickle_quiet ..).paid (hr ▸ hp.burnCredits hs cpu _ hfits)
  · next hlt =>
    rw [if_neg hlt] at hfits
    split
    · next i hfind =>
      rw [hfind] at hfits
      exact (tickle_quiet ..).paid (hr ▸ hp.burnCredits hs cpu _ hfits)
    · next hfind =>
      rw [hfind] at hfits
      have hcharged : Paid now late r :=
        hr ▸ hp.burnCredits hs cpu _ fun call hcall => hfits call (List.mem_append_left _ hcall)
      have hloop := hcharged.tickleLoop hs' none (2 ^ 30) (fun i hi => by
        have hbusy := (List.mem_filter.mp hi).2
        intro hnone
        rw [(hs'.idle i).mpr hnone] at hbusy
        simp at hbusy) fun call hcall => hfits call (List.mem_append_right _ hcall)
      split
      · exact hloop
      · split
        · exact hloop
        · exact (tickle_quiet ..).paid hloop

/-! ## Steps -/

theorem Paid.queueUp (hp : Paid now late s) (hv : Off m s v) (hs : Inv m b (s.runqInsert m (s.processor v) v))
    (hfits : ∀ call ∈ s.queueUpCalls m v now, call.Fits) : Paid now late (s.queueUp m v now) := by
  unfold queueUpCalls at hfits
  rw [runqInsert_off hv] at hs hfits
  rw [queueUp_off hv]
  have hquiet : Quiet s { s with
      runq := update s.runq (m.c2r (s.processor v))
        (insertByCredit (fun v => s.creditOf (some v)) v (s.runq (m.c2r (s.processor v)))) } :=
    ⟨rfl, rfl, rfl, rfl, rfl⟩
  exact (hquiet.paid hp).runqTickle hs rfl hv.rqd hfits

omit [DecidableEq V] [DecidableEq C] [DecidableEq Q] [DecidableEq D] [Fintype Q] [Fintype V] in
theorem bugOn_quiet (s : State V C Q D) (p : Prop) [Decidable p] : Quiet s (s.bugOn p) := ⟨rfl, rfl, rfl, rfl, rfl⟩

omit [DecidableEq C] [DecidableEq Q] [DecidableEq D] [Fintype V] in
theorem runqRemove_quiet (s : State V C Q D) (v : V) : Quiet s (s.runqRemove v) := ⟨rfl, rfl, rfl, rfl, rfl⟩

section

omit [DecidableEq V] [DecidableEq C] [DecidableEq D] [Fintype Q] [Fintype V]

theorem updateLoad_quiet (s : State V C Q D) (a : Option Q) (n : Int) : Quiet s (s.updateLoad a n) :=
  ⟨rfl, rfl, rfl, rfl, rfl⟩

theorem updateMaxWeight_quiet (s : State V C Q D) (q : Q) (newWeight oldWeight : Int) :
    Quiet s (s.updateMaxWeight q newWeight oldWeight) := by
  unfold updateMaxWeight
  split
  · exact ⟨rfl, rfl, rfl, rfl, rfl⟩
  · split <;> exact ⟨rfl, rfl, rfl, rfl, rfl⟩

end

theorem assign_quiet (s : State V C Q D) (v : V) (q : Q) : Quiet s (s.assign v q) := by
  unfold State.assign
  refine Quiet.trans ?_ (updateMaxWeight_quiet ..)
  exact ⟨rfl, rfl, rfl, rfl, rfl⟩

theorem deassign_quiet (s : State V C Q D) (v : V) : Quiet s (s.deassign v) := by
  unfold deassign
  dsimp only
  split
  · exact ⟨rfl, rfl, rfl, rfl, rfl⟩
  · next q hq =>
    have hquiet := updateMaxWeight_quiet
      ({ s.bugOn (s.OnRunq v) with svc := fun q => ((s.bugOn (s.OnRunq v)).svc q).erase v } : State V C Q D)
      q 0 (s.weight v)
    exact ⟨hquiet.curr, hquiet.startTime, hquiet.burns, hquiet.schedIn, hquiet.schedOut⟩

theorem reassign_quiet (m : Machine V C Q D) (s : State V C Q D) (v : V) (q : Q) : Quiet s (s.reassign m v q) := by
  unfold reassign
  have hquiet := deassign_quiet s v
  refine Quiet.trans ?_ (assign_quiet ..)
  exact ⟨hquiet.curr, hquiet.startTime, hquiet.burns, hquiet.schedIn, hquiet.schedOut⟩

omit [DecidableEq C] [DecidableEq D] [Fintype Q] [Fintype V] in
theorem dequeued_quiet (s : State V C Q D) (v : V) : Quiet s (s.dequeued v) := ⟨rfl, rfl, rfl, rfl, rfl⟩

theorem Paid.migrate (hp : Paid now late s) (hs : Inv m b s)
    (hfits : ∀ call ∈ s.migrateCalls m v q now, call.Fits) : Paid now late (s.migrate m v q now) := by
  unfold State.migrate
  split
  · have hquiet : Quiet s { s with
        migrating := update s.migrating v true
        migrateRequest := update s.migrateRequest v true } := ⟨rfl, rfl, rfl, rfl, rfl⟩
    exact hquiet.paid hp
  · next hflag =>
    rw [Bool.not_eq_true] at hflag
    by_cases hon : s.OnRunq v
    · unfold migrateCalls at hfits
      rw [if_pos ⟨hflag, hon⟩, runqRemove_updateLoad hon] at hfits
      simp only [if_pos hon]
      rw [runqRemove_updateLoad hon]
      obtain ⟨hs', -, hv', hslept⟩ := (hs.dequeue hon).reassign (hs.dequeued_off hon) q
      have hawake : s.slept v = false := by
        by_contra hslept
        exact (hs.slept v (Bool.eq_true_of_not_eq_false hslept)).2 hon
      have hquiet := ((dequeued_quiet s v).trans (reassign_quiet m _ v q)).trans
        (updateLoad_quiet _ (((s.dequeued v).reassign m v q).rqd v) 1)
      exact (hquiet.paid hp).queueUp (hv'.updateLoad 1)
        (hs'.enqueue hv' ((congrFun hslept v).trans hawake)) hfits
    · simp only [if_neg hon]
      exact (reassign_quiet m s v q).paid hp

theorem Paid.vcpuWake (hp : Paid now late s) (hs : Inv m b s) (hv : v ∈ s.sdomVcpu (m.domain v))
    (hfits : ∀ call ∈ s.wakeCalls m v now, call.Fits) : Paid now late (s.vcpuWake m v now) := by
  unfold State.vcpuWake
  split
  · exact hp
  · next hrunnable =>
    split
    · exact hp
    · next hcurr =>
      split
      · exact hp
      · next hoff =>
        split
        · have hquiet : Quiet s { s with delayedRunqAdd := update s.delayedRunqAdd v true } := ⟨rfl, rfl, rfl, rfl, rfl⟩
          exact hquiet.paid hp
        · next hflag =>
          have hrqd := hs.listed_rqd hv
          have hassigned : ¬ s.rqd v = none := by
            rw [hrqd]
            exact Option.some_ne_none _
          unfold wakeCalls at hfits
          rw [if_neg (by tauto)] at hfits
          rw [if_neg hassigned, bugOn_false (not_not.mpr hrqd)] at hfits ⊢
          rw [Bool.not_eq_true] at hflag
          rw [Bool.not_eq_false] at hrunnable
          have hoff : Off m s v := ⟨hrqd, hflag, hs.off_running hflag, hoff⟩
          exact ((updateLoad_quiet ..).paid hp).queueUp (hoff.updateLoad 1)
            (hs.enqueue hoff (hs.awake hrunnable)) hfits

theorem Paid.contextSaved (hp : Paid now late s) (hs : Inv m b s) (hsaving : s.saving v = true)
    (hrun : s.isRunning v = false) (hfits : ∀ call ∈ s.contextSavedCalls m v now, call.Fits) :
    Paid now late (s.contextSaved m v now) := by
  have hquiet : Quiet s (s.clearScheduled v) := ⟨rfl, rfl, rfl, rfl, rfl⟩
  unfold State.contextSaved
  split
  · have hbug : Quiet s { s with bug := true } := ⟨rfl, rfl, rfl, rfl, rfl⟩
    exact hbug.paid hp
  · next hrqd =>
    rw [not_not] at hrqd
    dsimp only
    split
    · next hadd =>
      obtain ⟨hdelayed, hrunnable⟩ := (Bool.and_eq_true _ _).mp hadd
      have hcleared := hs.cleared_off hrqd hrun hdelayed
      have hunflag := hs.unflag hrun fun hb => (hs.saving hb v hsaving).1
      unfold contextSavedCalls at hfits
      rw [if_pos ⟨hrqd, hdelayed, hrunnable⟩] at hfits
      dsimp only at hfits
      rw [bugOn_false hcleared.off] at hfits ⊢
      exact (hquiet.paid hp).queueUp hcleared (hunflag.requeue hcleared (hs.awake hrunnable)) hfits
    · exact (hquiet.trans (updateLoad_quiet ..)).paid hp

theorem Paid.vcpuMigrate (hp : Paid now late s) (hs : Inv m b s) (newCpu : C)
    (hfits : ∀ call ∈ burnCalls m (.migrate v newCpu now) s, call.Fits) :
    Paid now late (s.vcpuMigrate m v newCpu now) := by
  unfold State.vcpuMigrate
  split
  · exact hp
  · next hfree =>
    obtain ⟨hrun, hmigrating⟩ := not_or.mp hfree
    rw [Bool.not_eq_true] at hrun
    rw [Bool.not_eq_false] at hmigrating
    have hcleared := hs.setRunnable v (update s.migrating v false) s.held
      (fun w hw => update_of_ne hw ..) (fun _ _ => rfl)
    have hquiet : Quiet s { s with
        migrating := update s.migrating v false
        slept := update s.slept v (s.slept v && !({ s with migrating := update s.migrating v false }.runnable v)) } :=
      ⟨rfl, rfl, rfl, rfl, rfl⟩
    dsimp only
    split
    · next hother =>
      unfold burnCalls at hfits
      dsimp only at hfits
      rw [if_pos ⟨hrun, hmigrating, hother⟩] at hfits
      exact (hquiet.paid hp).migrate hcleared hfits
    · exact hquiet.paid hp

/-! ### The scheduler -/

omit [DecidableEq C] [DecidableEq D] in
/-- The credits of a queue are reset when all its current vCPUs have just been charged. -/
theorem Paid.resetCredit (hp : Paid now late s) (hs : Inv m b s)
    (hall : ∀ c, m.c2r c = q → ∀ v, s.curr c = some v → s.startTime v = now) :
    Paid now late (s.resetCredit q now) := by
  unfold State.resetCredit
  refine ⟨fun v => ?_, fun v hv => ?_⟩
  · obtain ⟨hexact, hrunning, hran⟩ := hp.charged v
    refine ⟨hexact, fun c hc => ?_, hran⟩
    have hsame : (if v ∈ s.svc q then now else s.startTime v) = s.startTime v := by
      split
      · next hv =>
        refine (hall c ?_ v hc).symm
        have hrqd := (hs.assigned q v).mp hv
        rw [(hs.current c v hc).2.1] at hrqd
        exact Option.some.inj hrqd
      · rfl
    dsimp only [State.bugOn]
    rw [hsame]
    exact hrunning c hc
  · by_cases hmem : v ∈ s.svc q
    · exact if_pos hmem
    · exact (if_neg hmem).trans (hp.late v hv)

theorem Paid.balanceLoad (hp : Paid now late s) (hs : Inv m b s) (cpu : C) (orqd : Q) (push pull : Option V)
    (hfits : ∀ call ∈ s.balanceCalls m cpu orqd push pull now, call.Fits) :
    Paid now late (s.balanceLoad m cpu orqd push pull now) := by
  unfold balanceCalls at hfits
  unfold State.balanceLoad
  by_cases heq : orqd = m.c2r cpu
  · rw [if_pos heq]
    exact hp
  · rw [if_neg heq] at hfits ⊢
    cases hpush : push.filter fun v => decide (v ∈ s.svc (m.c2r cpu)) && !s.migrateRequest v with
    | none =>
      rw [hpush] at hfits
      cases hpull : pull.filter fun v => decide (v ∈ s.svc orqd) && !s.migrateRequest v with
      | none => exact hp
      | some w =>
        rw [hpull] at hfits
        exact hp.migrate hs hfits
    | some v =>
      rw [hpush] at hfits
      obtain ⟨hs', -⟩ := hs.migrate (hs.mem_filter _ push hpush) orqd now
      cases hpull : pull.filter fun v => decide (v ∈ s.svc orqd) && !s.migrateRequest v with
      | none =>
        rw [hpull] at hfits
        exact hp.migrate hs hfits
      | some w =>
        rw [hpull] at hfits
        have hcharged := hp.migrate hs fun call hcall => hfits call (List.mem_append_left _ hcall)
        exact hcharged.migrate hs' fun call hcall =>
          hfits call (List.mem_append_right _ hcall)

theorem Paid.checkReset (hp : Paid now late s) (hs : Inv m b s) (cpu : C) (v : V)
    (balance : Option (Q × Option V × Option V))
    (hall : s.creditOf (some v) ≤ creditReset →
      ∀ c, m.c2r c = m.c2r cpu → ∀ w, s.curr c = some w → s.startTime w = now)
    (hfits : s.creditOf (some v) ≤ creditReset → ∀ orqd push pull, balance = some (orqd, push, pull) →
      ∀ call ∈ (s.resetCredit (m.c2r cpu) now).balanceCalls m cpu orqd push pull now, call.Fits) :
    Paid now late (s.checkReset m cpu v balance now) := by
  unfold State.checkReset
  split
  · next hreset =>
    have hcharged := hp.resetCredit hs (hall hreset)
    split
    · exact hcharged
    · next orqd push pull =>
      exact hcharged.balanceLoad (hs.resetCredit (m.c2r cpu) now).1 cpu orqd push pull
        (hfits hreset orqd push pull rfl)
  · exact hp

theorem Paid.afterBurn (hp : Paid now (fun _ => False) s) (hs : Inv m b s) (cpu : C)
    (hin : ∀ v, s.curr cpu = some v → s.startTime v ≤ now)
    (hfits : ∀ call ∈ s.burnCall (m.c2r cpu) (s.curr cpu) now, call.Fits) :
    Paid now (fun v => s.curr cpu = some v) (s.afterBurn m cpu now) := by
  have hbug : ¬ ∃ v ∈ s.curr cpu, s.rqd v ≠ some (m.c2r cpu) := fun ⟨v, hv, hne⟩ => hne (hs.current cpu v hv).2.1
  have hquiet : Quiet s { s with tickled := update s.tickled cpu false } := ⟨rfl, rfl, rfl, rfl, rfl⟩
  have hcharged := (hquiet.paid hp).burnCredits (m := m) (b := b) { hs with } cpu (m.c2r cpu) hfits
  unfold State.afterBurn
  rw [bugOn_false hbug]
  refine ⟨hcharged.charged, fun v hv => ?_⟩
  have hle := hin v hv
  dsimp only
  rw [hv]
  unfold State.burnCredits
  dsimp only
  split
  · exact update_self ..
  · dsimp only
    omega

omit [DecidableEq C] [DecidableEq Q] [DecidableEq D] [Fintype Q] [Fintype V] in
theorem delayCurr_quiet (s : State V C Q D) (cpu : C) (snext : Option V) : Quiet s (s.delayCurr cpu snext) := by
  unfold delayCurr
  split
  · exact ⟨rfl, rfl, rfl, rfl, rfl⟩
  · split <;> exact ⟨rfl, rfl, rfl, rfl, rfl⟩

theorem takeNext_quiet (m : Machine V C Q D) (s : State V C Q D) (cpu : C) (v : V) : Quiet s (s.takeNext m cpu v) := by
  unfold takeNext
  split
  · dsimp only
    have hremoved := (bugOn_quiet s (s.rqd v ≠ some (m.c2r cpu))).trans (runqRemove_quiet _ v)
    generalize (s.bugOn (s.rqd v ≠ some (m.c2r cpu))).runqRemove v = r at hremoved
    have hbugs := hremoved.trans (bugOn_quiet r (r.isRunning v = true))
    exact ⟨hbugs.curr, hbugs.startTime, hbugs.burns, hbugs.schedIn, hbugs.schedOut⟩
  · exact ⟨rfl, rfl, rfl, rfl, rfl⟩

omit [DecidableEq C] [DecidableEq Q] [DecidableEq D] [Fintype Q] [Fintype V] in
/-- Where a vCPU that does not run begins to be charged does not matter yet. -/
theorem Charged.setStart (h : ∀ w, Charged s w) (hv : ∀ c, s.curr c ≠ some v) (x : Int) (w : V) :
    Charged { s with startTime := update s.startTime v x } w := by
  obtain ⟨hexact, hrunning, hran⟩ := h w
  refine ⟨hexact, fun c hc => ?_, hran⟩
  dsimp only
  rw [update_of_ne]
  · exact hrunning c hc
  · rintro rfl
    exact hv c hc

omit [DecidableEq Q] [DecidableEq D] [Fintype Q] [Fintype V] in
/-- What `schedule` writes that is only there to be reasoned about. -/
theorem State.switchTo_times {next : Option V} (h : next ≠ s.curr cpu) (now : Int) :
    (s.switchTo cpu next now).curr = update s.curr cpu next ∧
      (s.switchTo cpu next now).startTime = s.startTime ∧
      (s.switchTo cpu next now).schedOut = (fun w => if s.curr cpu = some w then now else s.schedOut w) ∧
      (s.switchTo cpu next now).schedIn = (fun w => if next = some w then now else s.schedIn w) ∧
      (s.switchTo cpu next now).burns = fun w => if next = some w then [] else s.burns w := by
  have hupdate : ∀ {α : Type} (f : V → α) (v : V) (x : α),
      update f v x = fun w => if some v = some w then x else f w := by
    intro α f v x
    funext w
    unfold Function.update
    simp only [Option.some.injEq, eq_comm, eq_rec_constant, dite_eq_ite]
  unfold switchTo
  rw [if_neg h]
  unfold enter leave
  cases s.curr cpu <;> cases next <;> simp only [hupdate, reduceCtorEq, if_false, and_self]

theorem Charged.turn (h : ∀ v, Charged s v) {next : Option V} (hne : next ≠ s.curr cpu)
    (hnext : ∀ v, next = some v → (∀ c, s.curr c ≠ some v) ∧ s.startTime v = now)
    (hprev : ∀ v, s.curr cpu = some v → s.startTime v = now) (v : V) : Charged (s.switchTo cpu next now) v := by
  obtain ⟨hcurr, hstart, hout, hin, hburns⟩ := switchTo_times hne now
  obtain ⟨hexact, hrunning, hran⟩ := h v
  constructor
  · rw [hburns]
    dsimp only
    split
    · nofun
    · exact hexact
  · intro c hc
    rw [hcurr] at hc
    rw [hburns, hin, hstart]
    dsimp only
    by_cases hcpu : c = cpu
    · rw [hcpu, update_self] at hc
      rw [if_pos hc, if_pos hc]
      exact (hnext v hc).2.symm
    · rw [update_of_ne hcpu] at hc
      have hother : ¬ next = some v := fun hv => (hnext v hv).1 c hc
      rw [if_neg hother, if_neg hother]
      exact hrunning c hc
  · intro hgone
    rw [hcurr] at hgone
    rw [hburns, hin, hout]
    dsimp only
    have hother : ¬ next = some v := by
      intro hv
      apply hgone cpu
      rw [update_self]
      exact hv
    rw [if_neg hother, if_neg hother]
    split
    · next hv =>
      rw [← hprev v hv]
      exact hrunning cpu hv
    · next hv =>
      refine hran fun c hc => ?_
      by_cases hcpu : c = cpu
      · exact hv (hcpu ▸ hc)
      · apply hgone c
        rw [update_of_ne hcpu]
        exact hc

/-- The chosen vCPU runs on. -/
theorem Paid.stay (hp : Paid now (fun v => s.curr cpu = some v) s) (hs : Inv m b s) (hv : s.curr cpu = some v)
    (w : V) : Charged ((s.place cpu v now).switchTo cpu (some v) now) w := by
  obtain ⟨hprocessor, -⟩ := hs.current cpu v hv
  have hstart : update s.startTime v now = s.startTime := by
    rw [← hp.late v hv, Function.update_eq_self]
  have hquiet : Quiet s { s with idle := update s.idle cpu false } := ⟨rfl, rfl, rfl, rfl, rfl⟩
  unfold place
  rw [if_neg (not_not.mpr hprocessor), hstart]
  unfold switchTo
  rw [if_pos hv.symm]
  exact (hquiet.paid hp).charged w

/-- The chosen vCPU comes from the queue. -/
theorem Paid.turnTo (hp : Paid now (fun v => s.curr cpu = some v) s) (hv : ∀ c, s.curr c ≠ some v) (w : V) :
    Charged ((s.place cpu v now).switchTo cpu (some v) now) w := by
  have hplace : (s.place cpu v now).curr = s.curr ∧ (s.place cpu v now).startTime = update s.startTime v now ∧
      ∀ w, Charged (s.place cpu v now) w := by
    have hstart := Charged.setStart hp.charged hv now
    unfold place
    dsimp only
    split
    · exact ⟨rfl, rfl, fun w => ⟨(hstart w).exact, (hstart w).running, (hstart w).ran⟩⟩
    · exact ⟨rfl, rfl, fun w => ⟨(hstart w).exact, (hstart w).running, (hstart w).ran⟩⟩
  obtain ⟨hcurr, htime, hcharged⟩ := hplace
  refine Charged.turn hcharged (fun h => hv cpu ?_) (fun w hw => ?_) (fun w hw => ?_) w
  · rw [← hcurr]
    exact h.symm
  · cases hw
    rw [hcurr, htime]
    exact ⟨hv, update_self ..⟩
  · rw [hcurr] at hw
    rw [htime, update_of_ne]
    · exact hp.late w hw
    · rintro rfl
      exact hv cpu hw

omit [DecidableEq C] [DecidableEq Q] [DecidableEq D] [Fintype Q] [Fintype V] in
theorem State.burnCredits_other (hv : s.curr c ≠ some v) :
    (s.burnCredits q (s.curr c) now).startTime v = s.startTime v := by
  unfold State.burnCredits
  split
  · rfl
  · next u hu =>
    dsimp only
    split
    · refine update_of_ne ?_ ..
      rintro rfl
      exact hv hu
    · rfl

theorem Inv.afterBurn (hs : Inv m b s) (cpu : C) (now : Int) :
    Burned s (s.afterBurn m cpu now) ∧
      ∀ v, s.curr cpu ≠ some v → (s.afterBurn m cpu now).startTime v = s.startTime v := by
  have hbug : ¬ ∃ v ∈ s.curr cpu, s.rqd v ≠ some (m.c2r cpu) := fun ⟨v, hv, hne⟩ => hne (hs.current cpu v hv).2.1
  have htickled : Burned s { s with tickled := update s.tickled cpu false } := ⟨rfl, fun _ _ => rfl, rfl⟩
  unfold State.afterBurn
  rw [bugOn_false hbug]
  constructor
  · exact htickled.trans (burnCredits_burned ..)
  · intro v hv
    exact burnCredits_other (s := { s with tickled := update s.tickled cpu false }) hv

omit [DecidableEq D] [Fintype V] in
theorem State.schedule_eq (m : Machine V C Q D) (s : State V C Q D) (cpu : C) (taskletWork : Bool)
    (balance : Option (Q × Option V × Option V)) (now : Int) :
    s.schedule m cpu taskletWork balance now =
      let snext := (s.afterBurn m cpu now).choose m cpu taskletWork
      let s := (s.afterBurn m cpu now).delayCurr cpu snext
      match snext with
      | none => { s with idle := update s.idle cpu true }.switchTo cpu none now
      | some v => (s.startVcpu m cpu v balance now).switchTo cpu (some v) now := by
  have hcsched : s.cschedSchedule m cpu taskletWork balance now =
      let snext := (s.afterBurn m cpu now).choose m cpu taskletWork
      let s := (s.afterBurn m cpu now).delayCurr cpu snext
      match snext with
      | none => ({ s with idle := update s.idle cpu true }, none)
      | some v => (s.startVcpu m cpu v balance now, some v) := rfl
  unfold State.schedule
  rw [hcsched]
  cases (s.afterBurn m cpu now).choose m cpu taskletWork <;> rfl

/-- A CPU has no vCPU to run. -/
theorem Paid.idle (hp : Paid now (fun v => s.curr cpu = some v) s) (w : V) :
    Charged ({ s with idle := update s.idle cpu true }.switchTo cpu none now) w := by
  have hquiet : Quiet s { s with idle := update s.idle cpu true } := ⟨rfl, rfl, rfl, rfl, rfl⟩
  have hcharged := hquiet.paid hp
  by_cases hidle : s.curr cpu = none
  · unfold switchTo
    rw [if_pos hidle.symm]
    exact hcharged.charged w
  · exact Charged.turn hcharged.charged (Ne.symm hidle) (fun v h => by cases h) hp.late w

theorem Paid.schedule (hp : Paid now (fun _ => False) s) (hs : Inv m b s) (cpu : C) (taskletWork : Bool)
    (balance : Option (Q × Option V × Option V)) (hin : InTime m (.schedule cpu taskletWork balance now) s)
    (hfits : ∀ call ∈ s.scheduleCalls m cpu taskletWork balance now, call.Fits) (w : V) :
    Charged (s.schedule m cpu taskletWork balance now) w := by
  obtain ⟨hstart, hreset⟩ := hin
  obtain ⟨hburned, hothers⟩ := hs.afterBurn cpu now
  rw [schedule_eq]
  unfold State.scheduleCalls at hfits
  unfold State.resets at hreset
  dsimp only at hfits ⊢
  have hp₁ := hp.afterBurn hs cpu hstart fun call hcall => hfits call (by
    split
    · split
      · exact List.mem_append_left _ hcall
      · exact hcall
    · exact hcall)
  have hs₁ := hburned.inv hs
  have hcurr₁ := hburned.curr
  generalize s.afterBurn m cpu now = s₁ at *
  have hquiet := delayCurr_quiet s₁ cpu (s₁.choose m cpu taskletWork)
  have hs₂ := hs₁.delayCurr cpu (s₁.choose m cpu taskletWork)
  cases hchoose : s₁.choose m cpu taskletWork with
  | none =>
    rw [hchoose] at hquiet
    have hp₂ := hquiet.paid hp₁
    rw [← hcurr₁, ← hquiet.curr] at hp₂
    exact hp₂.idle w
  | some v =>
    rw [hchoose] at hfits hreset hquiet hs₂
    dsimp only at hfits hreset ⊢
    have hrunq : (s₁.delayCurr cpu (some v)).runq = s₁.runq ∧ (s₁.delayCurr cpu (some v)).credit = s₁.credit := by
      unfold State.delayCurr
      split
      · exact ⟨rfl, rfl⟩
      · split <;> exact ⟨rfl, rfl⟩
    have hbalance : ((s₁.delayCurr cpu (some v)).takeNext m cpu v).creditOf (some v) ≤ creditReset →
        ∀ orqd push pull, balance = some (orqd, push, pull) →
        ∀ call ∈ (((s₁.delayCurr cpu (some v)).takeNext m cpu v).resetCredit (m.c2r cpu) now).balanceCalls m cpu orqd
          push pull now, call.Fits := by
      rintro hle orqd push pull rfl call hcall
      dsimp only at hfits
      rw [if_pos hle] at hfits
      exact hfits call (List.mem_append_right _ hcall)
    clear hfits
    generalize s₁.delayCurr cpu (some v) = s₂ at *
    have hquiet₃ := hquiet.trans (takeNext_quiet m s₂ cpu v)
    have hcredit : (s₂.takeNext m cpu v).creditOf (some v) = s₁.creditOf (some v) := by
      have htake : (s₂.takeNext m cpu v).credit = s₂.credit := by
        unfold State.takeNext
        split <;> rfl
      unfold State.creditOf
      dsimp only
      rw [htake, hrunq.2]
    unfold startVcpu
    have hcheck : ∀ {b' : Bool}, Inv m b' (s₂.takeNext m cpu v) →
        Paid now (fun v => s.curr cpu = some v) ((s₂.takeNext m cpu v).checkReset m cpu v balance now) := by
      intro b' hs₃
      refine (hquiet₃.paid hp₁).checkReset hs₃ cpu v balance (fun hle c hc u hu => ?_) hbalance
      rw [hcredit] at hle
      rw [hquiet₃.curr, hcurr₁] at hu
      rw [hquiet₃.startTime]
      by_cases hcpu : c = cpu
      · exact hp₁.late u (hcpu ▸ hu)
      · rw [hothers u fun h => hcpu ((hs.current c u hu).1.symm.trans (hs.current cpu u h).1)]
        exact hreset (decide_eq_true hle) c ((m.mem_active c _).mpr hc) hcpu u hu
    by_cases hstay : s₂.curr cpu = some v
    · have htake : s₂.takeNext m cpu v = s₂ := by
        unfold State.takeNext
        rw [if_neg (not_not.mpr hstay)]
      rw [htake] at hcheck ⊢
      obtain ⟨hs₃, hmoved⟩ := hs₂.checkReset cpu v balance now
      have hp₃ := hcheck hs₂
      rw [← hcurr₁, ← hquiet.curr, ← hmoved.curr] at hp₃
      exact hp₃.stay hs₃ (hmoved.curr ▸ hstay) w
    · have hmem : v ∈ s₂.runq (m.c2r cpu) := by
        rw [hrunq.1]
        refine (choose_spec hchoose).resolve_left fun h => hstay ?_
        rw [hquiet.curr]
        exact h
      obtain ⟨hs₃, hnext, hcurr₃⟩ := hs₂.takeNext hmem
      obtain ⟨hs₄, hmoved⟩ := hs₃.checkReset cpu v balance now
      have hp₃ := hcheck hs₃
      rw [← hcurr₁, ← hquiet₃.curr, ← hmoved.curr] at hp₃
      exact hp₃.turnTo (hnext.moved hmoved).curr w

/-! ## Runs -/

theorem vcpuInsert_quiet (m : Machine V C Q D) (s : State V C Q D) (v : V) (cpu : C) :
    Quiet { s with startTime := update s.startTime v 0 } (s.vcpuInsert m v cpu) := by
  unfold State.vcpuInsert runqAssign allocVdata
  refine Quiet.trans ?_ (assign_quiet ..)
  exact ⟨rfl, rfl, rfl, rfl, rfl⟩

theorem vcpuRemove_quiet (m : Machine V C Q D) (s : State V C Q D) (v : V) : Quiet s (s.vcpuRemove m v) := by
  unfold State.vcpuRemove runqDeassign
  dsimp only
  generalize hr : ((s.bugOn (s.OnRunq v)).bugOn ((s.bugOn (s.OnRunq v)).rqd v ≠
    some (m.c2r ((s.bugOn (s.OnRunq v)).processor v)))) = r
  have hquiet : Quiet s r := hr ▸ ⟨rfl, rfl, rfl, rfl, rfl⟩
  have hgone := hquiet.trans (deassign_quiet r v)
  exact ⟨hgone.curr, hgone.startTime, hgone.burns, hgone.schedIn, hgone.schedOut⟩

theorem vcpuSleep_quiet (m : Machine V C Q D) (s : State V C Q D) (v : V) : Quiet s (s.vcpuSleep m v) := by
  unfold State.vcpuSleep
  split
  · exact ⟨rfl, rfl, rfl, rfl, rfl⟩
  · dsimp only
    have hslept : Quiet s { s with slept := update s.slept v true } := ⟨rfl, rfl, rfl, rfl, rfl⟩
    split
    · exact hslept
    · split
      · exact (hslept.trans (bugOn_quiet ..)).trans ((updateLoad_quiet ..).trans (runqRemove_quiet ..))
      · split
        · exact ⟨rfl, rfl, rfl, rfl, rfl⟩
        · exact hslept

omit [DecidableEq V] [DecidableEq C] [DecidableEq Q] [Fintype Q] [Fintype V] in
theorem startDomCntl_quiet (s : State V C Q D) (d : D) (weight : BitVec 16) : Quiet s (s.startDomCntl d weight) := by
  unfold State.startDomCntl
  split <;> exact ⟨rfl, rfl, rfl, rfl, rfl⟩

theorem domCntlNext_quiet (m : Machine V C Q D) (s : State V C Q D) : Quiet s (s.domCntlNext m) := by
  unfold State.domCntlNext
  split
  · exact ⟨rfl, rfl, rfl, rfl, rfl⟩
  · exact ⟨rfl, rfl, rfl, rfl, rfl⟩
  · dsimp only
    split
    · exact ⟨rfl, rfl, rfl, rfl, rfl⟩
    · refine Quiet.trans ?_ (updateMaxWeight_quiet ..)
      exact ⟨rfl, rfl, rfl, rfl, rfl⟩

theorem Charged.act {step : Step V C Q D} (hcalled : Called m step s) (hin : InTime m step s)
    (hfits : Afforded m step s) (hs : Inv m b s) (h : ∀ v, Charged s v) (v : V) : Charged (act m step s) v := by
  have hp : ∀ now : Int, Paid now (fun _ => False) s := fun now => ⟨h, fun _ h => h.elim⟩
  have hquiet : ∀ {s'}, Quiet s s' → Charged s' v := fun hquiet => (hquiet.paid (hp 0)).charged v
  cases step with
  | domInit d => exact hquiet ⟨rfl, rfl, rfl, rfl, rfl⟩
  | insert w cpu =>
    have hnew : ∀ c, s.curr c ≠ some w := by
      intro c hc
      apply hcalled.1
      refine (hs.listed _ w).mpr ⟨rfl, ?_⟩
      rw [(hs.current c w hc).2.1]
      exact Option.some_ne_none _
    have hstart : Paid 0 (fun _ => False) { s with startTime := update s.startTime w 0 } :=
      ⟨Charged.setStart h hnew 0, fun _ h => h.elim⟩
    exact ((vcpuInsert_quiet m s w cpu).paid hstart).charged v
  | remove w => exact hquiet (vcpuRemove_quiet m s w)
  | sleep w => exact hquiet (vcpuSleep_quiet m s w)
  | wake w now => exact ((hp now).vcpuWake hs hcalled hfits).charged v
  | notRunning w => exact hquiet ⟨rfl, rfl, rfl, rfl, rfl⟩
  | contextSaved w now => exact ((hp now).contextSaved hs hcalled.1 hcalled.2 hfits).charged v
  | schedule cpu taskletWork balance now => exact (hp now).schedule hs cpu taskletWork balance hin hfits v
  | domCntl d weight => exact hquiet (startDomCntl_quiet s d weight)
  | domCntlNext => exact hquiet (domCntlNext_quiet m s)
  | pick w => exact hquiet ⟨rfl, rfl, rfl, rfl, rfl⟩
  | migrate w newCpu now => exact ((hp now).vcpuMigrate hs newCpu hfits).charged v
  | hold w held => exact hquiet ⟨rfl, rfl, rfl, rfl, rfl⟩
  | setMigrating w => exact hquiet ⟨rfl, rfl, rfl, rfl, rfl⟩

/-- As long as the CPUs run the scheduler in time and no credit wraps around, every vCPU is charged for all the
time that it runs, and for none of it twice. -/
theorem run_chargesRunTime (m : Machine V C Q D) (processor : V → C) (steps : List (Step V C Q D))
    (hcalled : Runs.Each (act m) (Called m) steps (init processor))
    (hin : Runs.Each (act m) (InTime m) steps (init processor))
    (hfits : Runs.Each (act m) (Afforded m) steps (init processor)) :
    Runs.Each (act m) (fun step s => ∀ v, Charged (act m step s) v) steps (init processor) := by
  have hact : ∀ (step : Step V C Q D) (s : State V C Q D),
      (Called m step s ∧ InTime m step s) ∧ Afforded m step s → Inv m false s ∧ (∀ v, Charged s v) →
      Inv m false (act m step s) ∧ ∀ v, Charged (act m step s) v := by
    rintro step s ⟨⟨hcalled, hin⟩, hfits⟩ ⟨hs, hcharged⟩
    exact ⟨hs.act hcalled nofun, Charged.act hcalled hin hfits hs hcharged⟩
  apply Runs.Each.of_inv (I := fun s => Inv m false s ∧ ∀ v, Charged s v) hact _ ((hcalled.and hin).and hfits)
  · exact ⟨inv_init m false processor, fun _ => ⟨nofun, nofun, fun _ => rfl⟩⟩
  · exact fun step s h hs => (hact step s h hs).2

/-- Two CPUs that share a queue. -/
def queueShared (V : Type) (domain : V → Unit) : Machine V Bool Unit Unit where
  c2r := fun _ => ()
  active := fun _ => [false, true]
  mem_active := by decide
  active_ne := fun _ => List.cons_ne_nil false [true]
  domain := domain
  migrateResist := 500000

/-- A vCPU that wakes up has the CPU looked at where another one runs; that one is alone again when its credit
comes to an end. -/
theorem run_chargesRunTime_reset :
    Runs.Each (act (queueShared Bool fun _ => ()))
      (fun step s => ∀ v, Charged (act (queueShared Bool fun _ => ()) step s) v)
      [.insert false false, .insert true true, .hold false false, .hold true false, .wake false 0,
        .schedule false false none 1000000, .wake true 4000000, .schedule true false none 4000001,
        .hold true true, .sleep true, .schedule true false none 5500000, .notRunning true,
        .contextSaved true 5500001, .schedule false false none 7000000, .schedule false false none 11000000]
      (init id) :=
  run_chargesRunTime _ _ _ (by decide +kernel) (by decide +kernel) (by decide +kernel)

/-- Two CPUs of a queue run a vCPU each, for 5 ms at a time. When the credit of one comes to an end, its CPU
resets both, and the last 5 ms of the other one are never charged. -/
theorem reset_forgives :
    let m := queueShared Bool fun _ => ()
    let steps : List (Step Bool Bool Unit Unit) := [.insert false false, .insert true true, .hold false false,
      .hold true false, .wake false 0, .wake true 0, .schedule false false none 1000000,
      .schedule true false none 1000000, .schedule false false none 6000000, .schedule true false none 6000000,
      .schedule true false none 11000000]
    Runs.Each (act m) (Called m) steps (init id) ∧ Runs.Each (act m) (Afforded m) steps (init id) ∧
      ¬ Charged (Runs.run (act m) steps (init id)) false :=
  ⟨by decide +kernel, by decide +kernel, fun h => absurd (h.running false (by decide +kernel)) (by decide +kernel)⟩

end Sched.Credit2
