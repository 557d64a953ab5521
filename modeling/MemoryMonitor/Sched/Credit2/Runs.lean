import MemoryMonitor.Sched.Credit2.Migrate

/-!
# The second credit scheduler: runs

The scheduler itself, the coming and going of vCPUs, and the changes of weights keep the invariant of the queues,
so that it holds in every state of a run.
-/

namespace Sched.Credit2

open Function (update update_self update_of_ne)

variable {V C Q D : Type} [DecidableEq V] [DecidableEq C] [DecidableEq Q] [DecidableEq D] [Fintype Q] [Fintype V]
  {m : Machine V C Q D} {b : Bool} {s s' : State V C Q D} {v w : V} {c cpu : C} {q : Q} {d : D} {now : Int}

open State

/-! ### The scheduler -/

omit [DecidableEq V] [DecidableEq Q] [DecidableEq D] [Fintype Q] [Fintype V] in
theorem State.candidateLoop_spec (cpu : C) (snext : Option V) (l : List V) :
    s.candidateLoop m cpu snext l = snext ∨ ∃ v ∈ l, s.candidateLoop m cpu snext l = some v := by
  induction l with
  | nil => exact .inl rfl
  | cons w l ih =>
    unfold candidateLoop
    split
    · exact ih.imp_right fun ⟨v, hv, h⟩ => ⟨v, List.mem_cons_of_mem _ hv, h⟩
    · split
      · exact .inr ⟨w, List.mem_cons_self, rfl⟩
      · exact .inl rfl

/-- The scheduler chooses the current vCPU, one of the queue, or the idle one. -/
theorem State.choose_spec {taskletWork : Bool} (h : s.choose m cpu taskletWork = some v) :
    s.curr cpu = some v ∨ v ∈ s.runq (m.c2r cpu) := by
  unfold choose at h
  split at h
  · cases h
  · unfold runqCandidate at h
    rcases s.candidateLoop_spec (m := m) cpu ((s.curr cpu).filter fun v => s.runnable v) (s.runq (m.c2r cpu)) with
      hloop | ⟨w, hw, hloop⟩
    · rw [hloop] at h
      exact .inl (Option.filter_eq_some_iff.mp h).1
    · rw [hloop] at h
      cases h
      exact .inr hw

/-- A vCPU that a CPU of its queue can turn to. -/
structure State.Next (m : Machine V C Q D) (b : Bool) (cpu : C) (v : V) (s : State V C Q D) : Prop where
  scheduled : s.scheduled v = true
  rqd : s.rqd v = some (m.c2r cpu)
  curr : ∀ c, s.curr c ≠ some v
  saving : b = true → s.saving v = false

omit [DecidableEq V] [DecidableEq C] [DecidableEq Q] [DecidableEq D] [Fintype Q] [Fintype V] in
theorem State.Next.moved (h : Next m b cpu v s) (hmoved : Moved s s') : Next m b cpu v s' := by
  refine ⟨?_, ?_, ?_, ?_⟩
  · rw [hmoved.scheduled]
    exact h.scheduled
  · rw [(hmoved.place v h.scheduled).1]
    exact h.rqd
  · rw [hmoved.curr]
    exact h.curr
  · rw [hmoved.saving]
    exact h.saving

theorem Inv.takeNext (hs : Inv m b s) (hv : v ∈ s.runq (m.c2r cpu)) :
    Inv m b (s.takeNext m cpu v) ∧ Next m b cpu v (s.takeNext m cpu v) ∧ (s.takeNext m cpu v).curr = s.curr := by
  obtain ⟨hon, hrqd⟩ := hs.onRunq hv
  obtain ⟨-, hrun, hflag⟩ := hs.queued _ v hv
  have hcurr : ∀ c, s.curr c ≠ some v := by
    intro c hc
    rw [(hs.current c v hc).2.2.1] at hflag
    cases hflag
  have heq : s.takeNext m cpu v = { s with
      runq := fun q => (s.runq q).erase v
      scheduled := update s.scheduled v true } := by
    unfold State.takeNext
    rw [if_pos (hcurr cpu), bugOn_false (not_not.mpr hrqd)]
    dsimp only
    rw [runqRemove_on hon]
    have hrun' : ¬ s.isRunning v = true := by
      rw [hrun]
      nofun
    rw [bugOn_false hrun']
  -- it counts for the load all the time
  have hload := congrArg State.load (updateLoad_back s (s.rqd v))
  have hflagged := (hs.dequeue hon).flag (hs.dequeued_off hon)
  change Inv m b { s with
    runq := fun q => (s.runq q).erase v
    scheduled := update s.scheduled v true
    load := ((s.updateLoad (s.rqd v) (-1)).updateLoad (s.rqd v) 1).load } at hflagged
  rw [hload] at hflagged
  rw [heq]
  refine ⟨hflagged, ⟨update_self .., hrqd, hcurr, fun hb => ?_⟩, rfl⟩
  by_contra hsaving
  have hflag' := (hs.saving hb v (Bool.eq_true_of_not_eq_false hsaving)).1
  rw [hflag] at hflag'
  cases hflag'

theorem Inv.checkReset (hs : Inv m b s) (cpu : C) (v : V) (balance : Option (Q × Option V × Option V)) (now : Int) :
    Inv m b (s.checkReset m cpu v balance now) ∧ Moved s (s.checkReset m cpu v balance now) := by
  unfold State.checkReset
  split
  · obtain ⟨hs', hmoved⟩ := hs.resetCredit (m.c2r cpu) now
    split
    · exact ⟨hs', hmoved⟩
    · obtain ⟨hs'', hmoved'⟩ := hs'.balanceLoad cpu _ _ _ now
      exact ⟨hs'', hmoved.trans hmoved'⟩
  · exact ⟨hs, .refl s⟩

section

omit [DecidableEq C] [DecidableEq D]

theorem Inv.delayCurr (hs : Inv m b s) (cpu : C) (snext : Option V) : Inv m b (s.delayCurr cpu snext) := by
  unfold State.delayCurr
  split
  · exact hs
  · next v hv =>
    split
    · refine { hs with delayed := fun w hw => ?_ }
      dsimp only at hw
      by_cases heq : w = v
      · rw [heq]
        exact (hs.current cpu v hv).2.2.1
      · rw [update_of_ne heq] at hw
        exact hs.delayed w hw
    · exact hs

/-- The credit of a vCPU that does not wait has nothing to do with the order. -/
theorem Inv.setCredit (hs : Inv m b s) (hflag : s.scheduled v = true) (x : BitVec 32) :
    Inv m b { s with credit := update s.credit v x } := by
  have hne : ∀ {q w}, w ∈ s.runq q → w ≠ v := by
    rintro q w hw rfl
    rw [(hs.queued q w hw).2.2] at hflag
    cases hflag
  refine { hs with sorted := fun q => ?_ }
  refine (hs.sorted q).imp_of_mem fun {v' w} hv hw hle => ?_
  unfold State.creditOf at hle ⊢
  dsimp only at hle ⊢
  rw [update_of_ne (hne hv), update_of_ne (hne hw)]
  exact hle

end

omit [DecidableEq D] in
theorem Inv.stay (hs : Inv m b s) (hv : s.curr cpu = some v) (now : Int) :
    Inv m b ((s.place cpu v now).switchTo cpu (some v) now) := by
  obtain ⟨hprocessor, -⟩ := hs.current cpu v hv
  have hidle : update s.idle cpu false = s.idle := by
    have hbusy : s.idle cpu = false := by
      by_contra hidle
      rw [(hs.idle cpu).mp (Bool.eq_true_of_not_eq_false hidle)] at hv
      cases hv
    rw [← hbusy, Function.update_eq_self]
  unfold State.place
  rw [if_neg (not_not.mpr hprocessor), hidle]
  unfold State.switchTo
  rw [if_pos hv.symm]
  exact { hs with }

omit [DecidableEq Q] [DecidableEq D] [Fintype Q] [Fintype V] in
theorem State.switchTo_eq {next : Option V} (h : next ≠ s.curr cpu) (now : Int) :
    s.switchTo cpu next now = { s with
      curr := update s.curr cpu next
      saving := fun w => if s.curr cpu = some w then true else s.saving w
      isRunning := fun w => if next = some w then true else s.isRunning w
      schedOut := (s.switchTo cpu next now).schedOut
      schedIn := (s.switchTo cpu next now).schedIn
      burns := (s.switchTo cpu next now).burns } := by
  have hupdate : ∀ (f : V → Bool) (v : V), update f v true = fun w => if some v = some w then true else f w := by
    intro f v
    funext w
    unfold Function.update
    simp only [Option.some.injEq, eq_comm, eq_rec_constant, dite_eq_ite]
  unfold switchTo
  rw [if_neg h]
  unfold enter leave
  cases s.curr cpu with
  | none =>
    cases next with
    | none => simp only [reduceCtorEq, if_false]
    | some v => simp only [hupdate, reduceCtorEq, if_false]
  | some u =>
    cases next with
    | none => simp only [hupdate, reduceCtorEq, if_false]
    | some v => simp only [hupdate]

theorem Inv.turn (hs : Inv m b s) (next : Option V) (hne : next ≠ s.curr cpu)
    (hnext : ∀ v, next = some v → Next m b cpu v s ∧ s.processor v = cpu) (now : Int) :
    Inv m b ({ s with idle := update s.idle cpu next.isNone }.switchTo cpu next now) := by
  rw [switchTo_eq (s := { s with idle := update s.idle cpu next.isNone }) hne]
  refine { hs with
    queued := fun q w hw => ?_
    current := fun c w hw => ?_
    running := fun w hw => ?_
    idle := fun c => ?_
    saving := fun hb w hw => ?_ }
  · obtain ⟨hrqd, hrun, hflag⟩ := hs.queued q w hw
    refine ⟨hrqd, (if_neg fun h => ?_).trans hrun, hflag⟩
    rw [(hnext w h).1.scheduled] at hflag
    cases hflag
  · dsimp only at hw ⊢
    by_cases hc : c = cpu
    · subst hc
      rw [update_self] at hw
      obtain ⟨hv, hprocessor⟩ := hnext w hw
      exact ⟨hprocessor, hv.rqd, hv.scheduled, if_pos hw⟩
    · rw [update_of_ne hc] at hw
      obtain ⟨hprocessor, hrqd, hflag, hrun⟩ := hs.current c w hw
      refine ⟨hprocessor, hrqd, hflag, ?_⟩
      rw [hrun, ite_self]
  · dsimp only at hw
    split at hw
    · next h => exact (hnext w h).1.scheduled
    · exact hs.running w hw
  · dsimp only
    by_cases hc : c = cpu
    · subst hc
      rw [update_self, update_self]
      exact Option.isNone_iff_eq_none
    · rw [update_of_ne hc, update_of_ne hc]
      exact hs.idle c
  · dsimp only at hw ⊢
    split at hw
    · next hprev =>
      obtain ⟨hprocessor, -, hflag, -⟩ := hs.current cpu w hprev
      refine ⟨hflag, fun c hc => ?_⟩
      by_cases hcpu : c = cpu
      · subst hcpu
        rw [update_self, ← hprev] at hc
        exact hne hc
      · rw [update_of_ne hcpu] at hc
        exact hcpu ((hs.current c w hc).1.symm.trans hprocessor)
    · obtain ⟨hflag, hcurr⟩ := hs.saving hb w hw
      refine ⟨hflag, fun c hc => ?_⟩
      by_cases hcpu : c = cpu
      · subst hcpu
        rw [update_self] at hc
        rw [(hnext w hc).1.saving hb] at hw
        cases hw
      · rw [update_of_ne hcpu] at hc
        exact hcurr c hc

/-- A CPU turns to a vCPU that it has taken from the queue. -/
theorem Inv.turnTo (hs : Inv m b s) (hv : Next m b cpu v s) (now : Int) :
    Inv m b ((s.place cpu v now).switchTo cpu (some v) now) := by
  have hne : some v ≠ s.curr cpu := fun h => hv.curr cpu h.symm
  have hnext : ∀ {s' : State V C Q D}, Next m b cpu v s' → s'.processor v = cpu →
      ∀ w, some v = some w → Next m b cpu w s' ∧ s'.processor w = cpu := by
    rintro s' hv hprocessor w h
    cases h
    exact ⟨hv, hprocessor⟩
  unfold State.place
  dsimp only
  split
  · -- it comes from another CPU of the queue
    have hmoved : Inv m b { s with
        startTime := update s.startTime v now
        credit := update s.credit v (BitVec.ofInt 32 ((s.credit v).toInt + migrateCompensation))
        processor := update s.processor v cpu } := by
      refine { hs.setCredit hv.scheduled _ with place := fun w q hw => ?_, current := fun c w hw => ?_ }
      · dsimp only at hw ⊢
        by_cases heq : w = v
        · subst heq
          rw [update_self]
          rw [hv.rqd] at hw
          exact Option.some.inj hw
        · rw [update_of_ne heq]
          exact hs.place w q hw
      · obtain ⟨hprocessor, hrest⟩ := hs.current c w hw
        refine ⟨?_, hrest⟩
        dsimp only
        rw [update_of_ne]
        · exact hprocessor
        · rintro rfl
          exact hv.curr c hw
    exact hmoved.turn (some v) hne (hnext ⟨hv.scheduled, hv.rqd, hv.curr, hv.saving⟩ (update_self ..)) now
  · next hprocessor =>
    rw [not_not] at hprocessor
    have hsame : Inv m b { s with startTime := update s.startTime v now } := { hs with }
    exact hsame.turn (some v) hne (hnext ⟨hv.scheduled, hv.rqd, hv.curr, hv.saving⟩ hprocessor) now

theorem Inv.schedule (hs : Inv m b s) (cpu : C) (taskletWork : Bool) (balance : Option (Q × Option V × Option V))
    (now : Int) : Inv m b (s.schedule m cpu taskletWork balance now) := by
  have hbug : ¬ ∃ v ∈ s.curr cpu, s.rqd v ≠ some (m.c2r cpu) := fun ⟨v, hv, hne⟩ => hne (hs.current cpu v hv).2.1
  unfold State.schedule cschedSchedule
  dsimp only
  rw [bugOn_false hbug]
  -- the credits of the current vCPU
  have hburned := burnCredits_burned { s with tickled := update s.tickled cpu false } (m.c2r cpu) cpu now
  have hs₁ := hburned.inv (m := m) (b := b) { hs with }
  generalize State.burnCredits { s with tickled := update s.tickled cpu false } (m.c2r cpu) (s.curr cpu) now = s₁
    at hburned hs₁
  have hs₂ := hs₁.delayCurr cpu (s₁.choose m cpu taskletWork)
  have hsame : (s₁.delayCurr cpu (s₁.choose m cpu taskletWork)).curr = s₁.curr ∧
      (s₁.delayCurr cpu (s₁.choose m cpu taskletWork)).runq = s₁.runq := by
    unfold State.delayCurr
    split
    · exact ⟨rfl, rfl⟩
    · split <;> exact ⟨rfl, rfl⟩
  cases hchoose : s₁.choose m cpu taskletWork with
  | none =>
    rw [hchoose] at hs₂ hsame
    dsimp only
    generalize s₁.delayCurr cpu none = s₂ at hs₂ hsame
    by_cases hidle : s₂.curr cpu = none
    · -- the idle vCPU runs already
      have hset : update s₂.idle cpu true = s₂.idle := by
        rw [← (hs₂.idle cpu).mpr hidle, Function.update_eq_self]
      rw [hset]
      unfold State.switchTo
      dsimp only
      rw [if_pos hidle.symm]
      exact hs₂
    · exact hs₂.turn none (Ne.symm hidle) (fun _ h => by cases h) now
  | some v =>
    rw [hchoose] at hs₂ hsame
    dsimp only
    generalize s₁.delayCurr cpu (some v) = s₂ at hs₂ hsame
    unfold startVcpu
    by_cases hstay : s₂.curr cpu = some v
    · have htake : s₂.takeNext m cpu v = s₂ := by
        unfold State.takeNext
        rw [if_neg (not_not.mpr hstay)]
      rw [htake]
      obtain ⟨hs₃, hmoved⟩ := hs₂.checkReset cpu v balance now
      exact hs₃.stay (hmoved.curr ▸ hstay) now
    · have hmem : v ∈ s₂.runq (m.c2r cpu) := by
        rw [hsame.2]
        refine (choose_spec hchoose).resolve_left fun h => hstay ?_
        rw [hsame.1]
        exact h
      obtain ⟨hs₃, hnext, -⟩ := hs₂.takeNext hmem
      obtain ⟨hs₄, hmoved⟩ := hs₃.checkReset cpu v balance now
      exact hs₄.turnTo (hnext.moved hmoved) now

/-! ### The vCPUs of a domain -/

theorem Inv.vcpuInsert (hs : Inv m b s) (hv : v ∉ s.sdomVcpu (m.domain v)) (hrun : s.isRunning v = false) (cpu : C) :
    Inv m b (s.vcpuInsert m v cpu) := by
  have hnone : s.rqd v = none := by
    by_contra hne
    exact hv ((hs.listed _ v).mpr ⟨rfl, hne⟩)
  have hsome : ∀ {w q}, s.rqd w = some q → w ≠ v := by
    rintro w q hw rfl
    rw [hnone] at hw
    cases hw
  have hwait : ∀ {q w}, w ∈ s.runq q → w ≠ v := fun hw => hsome (hs.queued _ _ hw).1
  have hrqd₀ : update s.rqd v none = s.rqd := by rw [← hnone, Function.update_eq_self]
  have hflag : b = true → s.scheduled v = false := by
    intro hb
    by_contra hflag
    exact hs.flagged hb v (Bool.eq_true_of_not_eq_false hflag) hnone
  obtain ⟨x, hx, hmax⟩ := assign_spec (s := { s with
      weight := update s.weight v (s.sdomWeight (m.domain v))
      credit := update s.credit v (BitVec.ofInt 32 creditInit)
      startTime := update s.startTime v 0
      scheduled := update s.scheduled v false
      delayedRunqAdd := update s.delayedRunqAdd v false
      migrateRequest := update s.migrateRequest v false
      processor := update s.processor v cpu
      sdomVcpu := update s.sdomVcpu (m.domain v) (s.sdomVcpu (m.domain v) ++ [v])
      slept := update s.slept v (!s.runnable v) }) (v := v) (q := m.c2r cpu) hs.assigned hnone
    ((hs.heaviest _).weight_congr fun w hw => update_of_ne (hsome hw) ..)
  have heq : s.vcpuInsert m v cpu = { s with
      weight := update s.weight v (s.sdomWeight (m.domain v))
      credit := update s.credit v (BitVec.ofInt 32 creditInit)
      startTime := update s.startTime v 0
      scheduled := update s.scheduled v false
      delayedRunqAdd := update s.delayedRunqAdd v false
      migrateRequest := update s.migrateRequest v false
      processor := update s.processor v cpu
      sdomVcpu := update s.sdomVcpu (m.domain v) (s.sdomVcpu (m.domain v) ++ [v])
      slept := update s.slept v (!s.runnable v)
      rqd := update s.rqd v (some (m.c2r cpu))
      svc := update s.svc (m.c2r cpu) (s.svc (m.c2r cpu) ++ [v])
      maxWeight := update s.maxWeight (m.c2r cpu) x } := by
    have hfree : ¬ s.rqd v ≠ none := not_not.mpr hnone
    unfold State.vcpuInsert allocVdata runqAssign
    dsimp only
    rw [hrqd₀, bugOn_false hfree, update_self]
    exact hx
  rw [heq]
  have hrqd : ∀ {w}, w ≠ v → update s.rqd v (some (m.c2r cpu)) w = s.rqd w := fun hw => update_of_ne hw ..
  have hscheduled : ∀ {w}, w ≠ v → update s.scheduled v false w = s.scheduled w := fun hw => update_of_ne hw ..
  refine { hs with
    sorted := fun q => ?_
    queued := fun q w hw => ?_
    heaviest := fun q => ?_
    assigned := fun q w => ?_
    svcNodup := fun q => ?_
    place := fun w q hw => ?_
    current := fun c w hw => ?_
    running := fun w hw => ?_
    delayed := fun w hw => ?_
    slept := fun w hw => ?_
    listed := fun d w => ?_
    sdomNodup := fun d => ?_
    weighed := fun w hw hpending => ?_
    cntl := fun d old l hl => ?_
    load := fun hb q => ?_
    saving := fun hb w hw => ?_
    flagged := fun hb w hw => ?_ }
  · refine (hs.sorted q).imp_of_mem fun {v' w} hv' hw hle => ?_
    unfold State.creditOf at hle ⊢
    dsimp only at hle ⊢
    rw [update_of_ne (hwait hv'), update_of_ne (hwait hw)]
    exact hle
  · obtain ⟨hq, hrun', hflag'⟩ := hs.queued q w hw
    exact ⟨(hrqd (hwait hw)).trans hq, hrun', (hscheduled (hwait hw)).trans hflag'⟩
  · by_cases hq : q = m.c2r cpu
    · subst hq
      dsimp only
      rw [update_self]
      exact hmax
    · dsimp only
      rw [update_of_ne hq]
      refine ((hs.heaviest q).weight_congr fun w hw => update_of_ne (hsome hw) ..).congr fun w => ?_
      rw [update_eq_some]
      constructor
      · rintro (⟨-, h⟩ | ⟨-, h⟩)
        · exact h
        · exact absurd (Option.some.inj h).symm hq
      · exact fun h => .inl ⟨hsome h, h⟩
  · dsimp only
    rw [mem_update_append, hs.assigned, update_eq_some]
    constructor
    · rintro (h | ⟨rfl, rfl⟩)
      · exact .inl ⟨hsome h, h⟩
      · exact .inr ⟨rfl, rfl⟩
    · rintro (⟨-, h⟩ | ⟨rfl, h⟩)
      · exact .inl h
      · exact .inr ⟨rfl, (Option.some.inj h).symm⟩
  · by_cases hq : q = m.c2r cpu
    · subst hq
      dsimp only
      rw [update_self, (List.perm_append_singleton v _).nodup_iff, List.nodup_cons]
      exact ⟨fun h => hsome ((hs.assigned _ v).mp h) rfl, hs.svcNodup _⟩
    · dsimp only
      rw [update_of_ne hq]
      exact hs.svcNodup q
  · rcases update_eq_some.mp hw with ⟨hne, hw⟩ | ⟨rfl, hq⟩
    · dsimp only
      rw [update_of_ne hne]
      exact hs.place w q hw
    · dsimp only
      rw [update_self]
      exact Option.some.inj hq
  · obtain ⟨hprocessor, hq, hflag', hrun'⟩ := hs.current c w hw
    have hne := hsome hq
    exact ⟨(update_of_ne hne ..).trans hprocessor, (hrqd hne).trans hq, (hscheduled hne).trans hflag', hrun'⟩
  · refine (hscheduled ?_).trans (hs.running w hw)
    rintro rfl
    rw [hrun] at hw
    cases hw
  · dsimp only at hw ⊢
    by_cases heq : w = v
    · rw [heq, update_self] at hw
      cases hw
    · rw [update_of_ne heq] at hw
      exact (hscheduled heq).trans (hs.delayed w hw)
  · dsimp only at hw
    by_cases heq : w = v
    · subst heq
      rw [update_self, Bool.not_eq_true'] at hw
      exact ⟨hw, fun ⟨q, h⟩ => hwait h rfl⟩
    · rw [update_of_ne heq] at hw
      exact hs.slept w hw
  · dsimp only
    rw [mem_update_append (f := s.sdomVcpu), hs.listed]
    by_cases heq : w = v
    · subst heq
      rw [update_self]
      simp only [hnone, ne_eq, not_true_eq_false, and_false, true_and, false_or, reduceCtorEq, not_false_eq_true, and_true]
      exact eq_comm
    · rw [hrqd heq]
      simp only [heq, false_and, or_false]
  · by_cases hd : d = m.domain v
    · subst hd
      dsimp only
      rw [update_self, (List.perm_append_singleton v _).nodup_iff, List.nodup_cons]
      exact ⟨hv, hs.sdomNodup _⟩
    · dsimp only
      rw [update_of_ne hd]
      exact hs.sdomNodup d
  · dsimp only at hw ⊢
    by_cases heq : w = v
    · rw [heq, update_self]
    · rw [hrqd heq] at hw
      rw [update_of_ne heq]
      exact hs.weighed w hw hpending
  · obtain ⟨hlow, hhigh, hnodup, hall⟩ := hs.cntl d old l hl
    refine ⟨hlow, hhigh, hnodup, fun w hw => ?_⟩
    obtain ⟨hmem, hweight⟩ := hall w hw
    refine ⟨(mem_update_append (f := s.sdomVcpu)).mpr (.inl hmem), (update_of_ne ?_ ..).trans hweight⟩
    rintro rfl
    exact ((hs.listed d w).mp hmem).2 hnone
  · refine (hs.load hb q).trans (congrArg Nat.cast (busy_idle (v := v) (fun w => ?_) (fun w hw => hrqd hw) ?_ q).symm)
    · refine isBusy_congr Iff.rfl ?_
      by_cases heq : w = v
      · subst heq
        exact (update_self ..).trans (hflag hb).symm
      · exact hscheduled heq
    · exact isBusy_false (fun ⟨q, h⟩ => hwait h rfl) (hflag hb)
  · obtain ⟨hflag', hcurr⟩ := hs.saving hb w hw
    refine ⟨(hscheduled ?_).trans hflag', hcurr⟩
    rintro rfl
    rw [hflag hb] at hflag'
    cases hflag'
  · dsimp only at hw ⊢
    by_cases heq : w = v
    · rw [heq, update_self] at hw
      cases hw
    · rw [hscheduled heq] at hw
      rw [hrqd heq]
      exact hs.flagged hb w hw

theorem Inv.vcpuRemove (hs : Inv m b s) (hv : v ∈ s.sdomVcpu (m.domain v)) (hslept : s.slept v = true)
    (hrun : s.isRunning v = false) (hcntl : s.domCntl.map Prod.fst ≠ some (m.domain v))
    (hflag : b = true → s.scheduled v = false) : Inv m b (s.vcpuRemove m v) := by
  have hoff : ¬ s.OnRunq v := (hs.slept v hslept).2
  have hplace := hs.listed_rqd hv
  obtain ⟨x, hx, hmax⟩ := deassign_spec hs.assigned (hs.svcNodup _) hplace hoff (hs.heaviest _)
  have heq : s.vcpuRemove m v = { s with
      svc := fun q => (s.svc q).erase v
      maxWeight := update s.maxWeight (m.c2r (s.processor v)) x
      rqd := update s.rqd v none
      sdomVcpu := update s.sdomVcpu (m.domain v) ((s.sdomVcpu (m.domain v)).erase v) } := by
    unfold State.vcpuRemove runqDeassign
    rw [bugOn_false hoff]
    dsimp only
    rw [bugOn_false (not_not.mpr hplace), hx]
  rw [heq]
  have hrqd : ∀ {w}, w ≠ v → update s.rqd v none w = s.rqd w := fun hw => update_of_ne hw ..
  have hnone : ∀ {w}, update s.rqd v none w ≠ none → w ≠ v := by
    rintro w hw rfl
    exact hw (update_self ..)
  have hwait : ∀ {q w}, w ∈ s.runq q → w ≠ v := by
    rintro q w hw rfl
    exact hoff ⟨q, hw⟩
  refine { hs with
    queued := fun q w hw => ⟨(hrqd (hwait hw)).trans (hs.queued q w hw).1, (hs.queued q w hw).2⟩
    heaviest := fun q => ?_
    assigned := fun q w => ?_
    svcNodup := fun q => (hs.svcNodup q).erase v
    place := fun w q hw => ?_
    current := fun c w hw => ?_
    listed := fun d w => ?_
    sdomNodup := fun d => ?_
    weighed := fun w hw => hs.weighed w (hrqd (hnone hw) ▸ hw)
    cntl := fun d old l hl => ?_
    load := fun hb q => ?_
    flagged := fun hb w hw => ?_ }
  · by_cases hq : q = m.c2r (s.processor v)
    · subst hq
      dsimp only
      rw [update_self]
      exact hmax
    · dsimp only
      rw [update_of_ne hq]
      refine (hs.heaviest q).congr fun w => ?_
      rw [update_eq_some]
      constructor
      · rintro (⟨-, h⟩ | ⟨-, h⟩)
        · exact h
        · cases h
      · intro h
        refine .inl ⟨?_, h⟩
        rintro rfl
        rw [hplace] at h
        exact hq (Option.some.inj h).symm
  · dsimp only
    rw [(hs.svcNodup q).mem_erase_iff, hs.assigned, update_eq_some]
    simp only [reduceCtorEq, and_false, or_false]
  · rcases update_eq_some.mp hw with ⟨-, hw⟩ | ⟨-, hw⟩
    · exact hs.place w q hw
    · cases hw
  · obtain ⟨hprocessor, hq, hflag', hrun'⟩ := hs.current c w hw
    refine ⟨hprocessor, (hrqd ?_).trans hq, hflag', hrun'⟩
    rintro rfl
    rw [hrun] at hrun'
    cases hrun'
  · dsimp only
    by_cases hd : d = m.domain v
    · subst hd
      rw [update_self, (hs.sdomNodup _).mem_erase_iff, hs.listed]
      constructor
      · rintro ⟨hne, hdomain, hw⟩
        exact ⟨hdomain, (hrqd hne).symm ▸ hw⟩
      · rintro ⟨hdomain, hw⟩
        exact ⟨hnone hw, hdomain, hrqd (hnone hw) ▸ hw⟩
    · rw [update_of_ne hd, hs.listed]
      refine and_congr_right fun hdomain => ?_
      rw [hrqd]
      rintro rfl
      exact hd hdomain.symm
  · by_cases hd : d = m.domain v
    · subst hd
      dsimp only
      rw [update_self]
      exact (hs.sdomNodup _).erase v
    · dsimp only
      rw [update_of_ne hd]
      exact hs.sdomNodup d
  · obtain ⟨hlow, hhigh, hnodup, hall⟩ := hs.cntl d old l hl
    have hd : d ≠ m.domain v := by
      rintro rfl
      dsimp only at hl
      rw [hl] at hcntl
      exact hcntl rfl
    refine ⟨hlow, hhigh, hnodup, fun w hw => ⟨?_, (hall w hw).2⟩⟩
    dsimp only
    rw [update_of_ne hd]
    exact (hall w hw).1
  · refine (hs.load hb q).trans (congrArg Nat.cast (busy_idle (v := v) (fun w => ?_) (fun w hw => hrqd hw) ?_ q).symm)
    · exact isBusy_congr Iff.rfl rfl
    · exact isBusy_false hoff (hflag hb)
  · dsimp only at hw ⊢
    rw [hrqd]
    · exact hs.flagged hb w hw
    · rintro rfl
      rw [hflag hb] at hw
      cases hw

/-! ### Weights -/

section

omit [DecidableEq C]

theorem Inv.domInit (hs : Inv m b s) (hd : s.sdomVcpu d = []) :
    Inv m b { s with sdomWeight := update s.sdomWeight d defaultWeight } := by
  refine { hs with sdomWeight := fun d' => ?_, weighed := fun w hw hpending => ?_ }
  · by_cases heq : d' = d
    · subst heq
      dsimp only
      rw [update_self]
      decide
    · dsimp only
      rw [update_of_ne heq]
      exact hs.sdomWeight d'
  · dsimp only
    rw [update_of_ne]
    · exact hs.weighed w hw hpending
    · rintro rfl
      have hmem := (hs.listed _ w).mpr ⟨rfl, hw⟩
      rw [hd] at hmem
      cases hmem

theorem Inv.startDomCntl (hs : Inv m b s) (hcntl : s.domCntl = none) (d : D) (weight : BitVec 16) :
    Inv m b (s.startDomCntl d weight) := by
  unfold State.startDomCntl
  split
  · exact hs
  · next hzero =>
    have hpending : pending s = [] := by
      unfold pending
      rw [hcntl]
    have hweighed : ∀ w, s.rqd w ≠ none → s.weight w = s.sdomWeight (m.domain w) := by
      intro w hw
      refine hs.weighed w hw ?_
      rw [hpending]
      exact List.not_mem_nil
    refine { hs with sdomWeight := fun d' => ?_, weighed := fun w hw hpending => ?_, cntl := fun d' old l hl => ?_ }
    · by_cases heq : d' = d
      · subst heq
        dsimp only
        rw [update_self]
        have hlt := weight.isLt
        have hne : weight.toNat ≠ 0 := fun h => hzero (BitVec.eq_of_toNat_eq h)
        omega
      · dsimp only
        rw [update_of_ne heq]
        exact hs.sdomWeight d'
    · dsimp only
      rw [update_of_ne]
      · exact hweighed w hw
      · rintro rfl
        exact hpending ((hs.listed _ w).mpr ⟨rfl, hw⟩)
    · cases hl
      obtain ⟨hlow, hhigh⟩ := hs.sdomWeight d
      refine ⟨hlow, hhigh, hs.sdomNodup d, fun w hw => ⟨hw, ?_⟩⟩
      obtain ⟨hdomain, hrqd⟩ := (hs.listed d w).mp hw
      rw [← hdomain]
      exact hweighed w hrqd

end

theorem Inv.domCntlNext (hs : Inv m b s) : Inv m b (s.domCntlNext m) := by
  unfold State.domCntlNext
  split
  · exact hs
  · next d old hl =>
    refine { hs with weighed := fun w hw _ => hs.weighed w hw ?_, cntl := fun _ _ _ h => by cases h }
    unfold pending
    rw [hl]
    exact List.not_mem_nil
  · next d old v rest hl =>
    obtain ⟨hlow, hhigh, hnodup, hall⟩ := hs.cntl d old _ hl
    obtain ⟨hmem, hweight⟩ := hall v List.mem_cons_self
    obtain ⟨hnew, hnodup⟩ := List.nodup_cons.mp hnodup
    obtain ⟨hdomain, -⟩ := (hs.listed d v).mp hmem
    have hplace := hs.listed_rqd hmem
    have hmax := hs.heaviest (m.c2r (s.processor v))
    have hother : ∀ {w}, w ≠ v → update s.weight v (s.sdomWeight d) w = s.weight w := fun hw => update_of_ne hw ..
    obtain ⟨x, hx, hmax'⟩ := updateMaxWeight_spec (s := { s with
        weight := update s.weight v (s.sdomWeight d)
        domCntl := some (d, old, rest) }) s.rqd (s.sdomWeight d) old (hs.assigned _) hmax.pos (fun w hw => by
        by_cases heq : w = v
        · exact .inr (heq ▸ update_self ..)
        · exact .inl ((hother heq).trans_le (hmax.le w hw)))
      (.inr ⟨v, hplace, update_self ..⟩) (by
        rcases hmax.attained with h | ⟨w, hw, h⟩
        · exact .inl h
        · by_cases heq : w = v
          · exact .inr (.inr (hweight.symm.trans (heq ▸ h)))
          · exact .inr (.inl ⟨w, hw, (hother heq).trans h⟩))
    dsimp only
    rw [bugOn_false (not_not.mpr hplace), hplace]
    dsimp only
    rw [update_self, hx]
    refine { hs with heaviest := fun q => ?_, weighed := fun w hw hpending => ?_, cntl := fun d' old' l h => ?_ }
    · by_cases hq : q = m.c2r (s.processor v)
      · subst hq
        dsimp only
        rw [update_self]
        exact hmax'
      · dsimp only
        rw [update_of_ne hq]
        refine (hs.heaviest q).weight_congr fun w hw => hother ?_
        rintro rfl
        rw [hplace] at hw
        exact hq (Option.some.inj hw).symm
    · dsimp only
      by_cases heq : w = v
      · subst heq
        rw [update_self, hdomain]
      · rw [hother heq]
        refine hs.weighed w hw fun h => hpending ?_
        unfold pending at h ⊢
        rw [hl] at h
        exact (List.mem_cons.mp h).resolve_left heq
    · cases h
      refine ⟨hlow, hhigh, hnodup, fun w hw => ?_⟩
      obtain ⟨hmem, hweight⟩ := hall w (List.mem_cons_of_mem _ hw)
      refine ⟨hmem, (hother ?_).trans hweight⟩
      rintro rfl
      exact hnew hw

/-! ## Runs -/

section

omit [DecidableEq C] [DecidableEq D]

theorem Inv.notRunning (hs : Inv m b s) (hcurr : s.curr (s.processor v) ≠ some v) :
    Inv m b { s with isRunning := update s.isRunning v false } := by
  have hfalse : ∀ {w}, s.isRunning w = false → update s.isRunning v false w = false := by
    intro w hw
    by_cases heq : w = v
    · rw [heq, update_self]
    · rw [update_of_ne heq, hw]
  refine { hs with queued := fun q w hw => ?_, current := fun c w hw => ?_, running := fun w hw => hs.running w ?_ }
  · obtain ⟨hrqd, hrun, hflag⟩ := hs.queued q w hw
    exact ⟨hrqd, hfalse hrun, hflag⟩
  · obtain ⟨hprocessor, hrqd, hflag, hrun⟩ := hs.current c w hw
    refine ⟨hprocessor, hrqd, hflag, (update_of_ne ?_ ..).trans hrun⟩
    rintro rfl
    rw [hprocessor] at hcurr
    exact hcurr hw
  · by_contra hrun
    rw [Bool.not_eq_true] at hrun
    dsimp only at hw
    rw [hfalse hrun] at hw
    cases hw

theorem Inv.setMigrating (hs : Inv m b s) (v : V) : Inv m b { s with migrating := update s.migrating v true } := by
  refine { hs with slept := fun w hw => ?_ }
  obtain ⟨hrunnable, hoff⟩ := hs.slept w hw
  refine ⟨?_, hoff⟩
  unfold State.runnable at hrunnable ⊢
  dsimp only
  by_cases heq : w = v
  · rw [heq, update_self]
    rfl
  · rw [update_of_ne heq]
    exact hrunnable

end

/-- A vCPU is only removed when its context has been saved to the end. -/
def Saved (step : Step V C Q D) (s : State V C Q D) : Prop :=
  match step with
  | .remove v => s.scheduled v = false
  | _ => True

instance : ∀ (step : Step V C Q D) (s : State V C Q D), Decidable (Saved step s)
  | .remove v, s => inferInstanceAs (Decidable (s.scheduled v = false))
  | .domInit _, _ | .insert _ _, _ | .sleep _, _ | .wake _ _, _ | .notRunning _, _ | .contextSaved _ _, _
  | .schedule _ _ _ _, _ | .domCntl _ _, _ | .domCntlNext, _ | .pick _, _ | .migrate _ _ _, _ | .hold _ _, _
  | .setMigrating _, _ => inferInstanceAs (Decidable True)

theorem Inv.act {step : Step V C Q D} (hcalled : Called m step s) (hsaved : b = true → Saved step s) (hs : Inv m b s) :
    Inv m b (act m step s) := by
  cases step with
  | domInit d => exact hs.domInit hcalled.1
  | insert v cpu => exact hs.vcpuInsert hcalled.1 hcalled.2.1 cpu
  | remove v => exact hs.vcpuRemove hcalled.1 hcalled.2.1 hcalled.2.2.1 hcalled.2.2.2 hsaved
  | sleep v => exact hs.vcpuSleep v
  | wake v now => exact hs.vcpuWake hcalled now
  | notRunning v => exact hs.notRunning hcalled.2
  | contextSaved v now => exact hs.contextSaved hcalled.1 hcalled.2 now
  | schedule cpu taskletWork balance now => exact hs.schedule cpu taskletWork balance now
  | domCntl d weight => exact hs.startDomCntl hcalled d weight
  | domCntlNext => exact hs.domCntlNext
  | pick v => exact { hs with }
  | migrate v newCpu now => exact hs.vcpuMigrate hcalled newCpu now
  | hold v held => exact hs.setRunnable v s.migrating (update s.held v held) (fun _ _ => rfl) fun w hw => update_of_ne hw ..
  | setMigrating v => exact hs.setMigrating v

theorem inv_init (m : Machine V C Q D) (b : Bool) (processor : V → C) : Inv m b (init processor : State V C Q D) where
  sorted := fun _ => List.Pairwise.nil
  queued := fun _ _ h => by cases h
  nodup := fun _ => List.nodup_nil
  heaviest := fun _ => ⟨nofun, .inl rfl, le_rfl⟩
  assigned := fun _ _ => ⟨nofun, nofun⟩
  svcNodup := fun _ => List.nodup_nil
  place := fun _ _ h => by cases h
  current := fun _ _ h => by cases h
  running := fun _ h => by cases h
  delayed := fun _ h => by cases h
  idle := fun _ => ⟨fun _ => rfl, fun _ => rfl⟩
  slept := fun _ h => by cases h
  listed := fun _ _ => ⟨nofun, fun h => absurd rfl h.2⟩
  sdomNodup := fun _ => List.nodup_nil
  sdomWeight := fun _ => ⟨(by decide : 1 ≤ defaultWeight), (by decide : defaultWeight < 2 ^ 16)⟩
  weighed := fun _ h => absurd rfl h
  cntl := fun _ _ _ h => by cases h
  load := fun _ q => (congrArg Nat.cast (Tally.tally_none
    (fun v => isBusy_false (fun ⟨_, h⟩ => by cases h) rfl) _ (some q))).symm
  saving := fun _ _ h => by cases h
  flagged := fun _ _ h => by cases h
  noBug := fun _ => rfl

omit [DecidableEq C] [DecidableEq D] in
theorem Inv.sound (hs : Inv m true s) : s.Sound :=
  ⟨hs.sorted, hs.queued, hs.nodup, hs.load rfl, hs.heaviest⟩

/-- As long as no vCPU is removed before its context has been saved to the end, the queues are sound in every
state, and no `BUG_ON` is hit. -/
theorem run_queues (m : Machine V C Q D) (processor : V → C) (steps : List (Step V C Q D))
    (hcalled : Runs.Each (act m) (Called m) steps (init processor))
    (hsaved : Runs.Each (act m) Saved steps (init processor)) :
    Runs.Each (act m) (fun step s => (act m step s).Sound ∧ (act m step s).bug = false) steps (init processor) := by
  apply Runs.Each.of_inv (I := Inv m true) _ _ (hcalled.and hsaved) (inv_init m true processor)
  · exact fun step s h hs => hs.act h.1 fun _ => h.2
  · exact fun step s h hs => ⟨(hs.act h.1 fun _ => h.2).sound, (hs.act h.1 fun _ => h.2).noBug rfl⟩

/-- A queue for each CPU. -/
def queueEach (C V : Type) (domain : V → Unit) : Machine V C C Unit where
  c2r := id
  active := fun q => [q]
  mem_active := fun _ _ => List.mem_singleton
  active_ne := fun q => List.cons_ne_nil q []
  domain := domain
  migrateResist := 500000

/-- Two vCPUs share the CPU `false` until the balance of the load moves one to the CPU `true`, where it is
removed in the end. -/
theorem run_queues_balanced :
    Runs.Each (act (queueEach Bool Bool fun _ => ()))
      (fun step s => (act (queueEach Bool Bool fun _ => ()) step s).Sound ∧
        (act (queueEach Bool Bool fun _ => ()) step s).bug = false)
      [.insert false false, .insert true false, .hold false false, .hold true false, .wake false 0, .wake true 0,
        .schedule false false none 1, .domCntl () 512, .domCntlNext, .domCntlNext, .domCntlNext,
        .schedule false false none 20000000, .notRunning false, .contextSaved false 20000001,
        .schedule false false (some (true, some true, none)) 40000000, .notRunning true,
        .contextSaved true 40000001, .pick true, .migrate true true 40000002, .wake true 40000003,
        .schedule true false none 40000004, .hold true true, .sleep true, .schedule true false none 50000000,
        .notRunning true, .contextSaved true 50000001, .remove true] (init id) :=
  run_queues _ _ _ (by decide +kernel) (by decide +kernel)

/-- A vCPU is paused and removed after `is_running` has been cleared and before its context has been saved to the
end; it counts for the load of its queue for good. -/
theorem remove_leavesLoad :
    let m := queueEach Unit Unit fun _ => ()
    let steps : List (Step Unit Unit Unit Unit) := [.insert () (), .hold () false, .wake () 0,
      .schedule () false none 1, .hold () true, .sleep (), .schedule () false none 2, .notRunning (), .remove ()]
    Runs.Each (act m) (Called m) steps (init fun _ => ()) ∧ ¬ (Runs.run (act m) steps (init fun _ => ())).Sound :=
  ⟨by decide +kernel, fun h => absurd (h.load ()) (by decide +kernel)⟩

end Sched.Credit2
