import MemoryMonitor.Sched.Credit2.Queues

/-!
# The second credit scheduler: sleep, wake and migration

The operations of `xen/common/sched_credit2.c` that put vCPUs into the queues and take them out, and those that
move them from one queue to another, keep the invariant of the queues.
-/

namespace Sched.Credit2

open Function (update update_self update_of_ne)

variable {V C Q D : Type} [DecidableEq V] [DecidableEq C] [DecidableEq Q] [DecidableEq D] [Fintype Q] [Fintype V]
  {m : Machine V C Q D} {b : Bool} {s s' : State V C Q D} {v w : V} {c cpu : C} {q : Q} {d : D} {now : Int}

open State

/-! ### Sleep, wake, and the saved context -/

theorem Inv.vcpuSleep (hs : Inv m b s) (v : V) : Inv m b (s.vcpuSleep m v) := by
  unfold State.vcpuSleep
  split
  · exact hs
  · next hrunnable =>
    rw [Bool.not_eq_true] at hrunnable
    -- the vCPU is not in a queue afterwards
    have hmark : ∀ {s' : State V C Q D}, Inv m b s' → s'.runnable v = false → ¬ s'.OnRunq v →
        Inv m b { s' with slept := update s'.slept v true } := by
      intro s' hs' hrunnable hoff
      refine { hs' with slept := fun w hw => ?_ }
      by_cases heq : w = v
      · subst heq
        exact ⟨hrunnable, hoff⟩
      · refine hs'.slept w ?_
        dsimp only at hw
        rwa [update_of_ne heq] at hw
    dsimp only
    split
    · next hcurr =>
      refine hmark hs hrunnable fun hon => ?_
      have hflag := (hs.onRunq_rqd hon).2.2
      rw [(hs.current _ v hcurr).2.2.1] at hflag
      cases hflag
    · split
      · next hon =>
        have hon' : s.OnRunq v := hon
        have hrqd := (hs.onRunq_rqd hon').1
        rw [bugOn_false (not_not.mpr hrqd)]
        have hdeq := updateLoad_runqRemove (s := { s with slept := update s.slept v true }) hon'
        rw [hdeq]
        exact hmark (hs.dequeue hon') hrunnable fun h => (hs.dequeued_onRunq.mp h).2 rfl
      · next hoff =>
        have hoff' : ¬ s.OnRunq v := hoff
        have hslept := hmark hs hrunnable hoff'
        split
        · refine { hslept with delayed := fun w hw => hs.delayed w ?_ }
          dsimp only at hw
          by_cases heq : w = v
          · rw [heq, update_self] at hw
            cases hw
          · rwa [update_of_ne heq] at hw
        · exact hslept

theorem Inv.runqTickle (hs : Inv m b s) (hprocessor : s.processor v = cpu) (hrqd : s.rqd v = some (m.c2r cpu))
    (now : Int) : Inv m b (s.runqTickle m cpu v now) :=
  (runqTickle_burned hs.idle hprocessor hrqd now).inv hs

theorem State.queueUp_off (hv : Off m s v) (now : Int) :
    s.queueUp m v now = State.runqTickle m { s with
      runq := update s.runq (m.c2r (s.processor v))
        (insertByCredit (fun v => s.creditOf (some v)) v (s.runq (m.c2r (s.processor v)))) } (s.processor v) v now := by
  unfold queueUp
  rw [runqInsert_off hv]

omit [DecidableEq V] [DecidableEq C] [DecidableEq D] [Fintype Q] [Fintype V] in
theorem State.Off.updateLoad (hv : Off m s v) (n : Int) : Off m (s.updateLoad (s.rqd v) n) v :=
  ⟨hv.rqd, hv.scheduled, hv.running, hv.off⟩

/-- A vCPU that counts for the load already goes to the queue. -/
theorem Inv.requeue (hs : Inv m b (s.updateLoad (s.rqd v) (-1))) (hv : Off m s v) (hslept : s.slept v = false) :
    Inv m b (s.runqInsert m (s.processor v) v) := by
  have hadded := hs.enqueue (hv.updateLoad (-1)) hslept
  change Inv m b (((s.updateLoad (s.rqd v) (-1)).updateLoad (s.rqd v) 1).runqInsert m (s.processor v) v) at hadded
  rw [updateLoad_back] at hadded
  exact hadded

/-- A vCPU goes to the queue and makes a CPU look at it. -/
theorem State.Off.queueUp (hv : Off m s v) (hs : Inv m b (s.runqInsert m (s.processor v) v)) (now : Int) :
    Inv m b (s.queueUp m v now) := by
  rw [runqInsert_off hv] at hs
  rw [queueUp_off hv]
  exact hs.runqTickle rfl hv.rqd now

section

omit [DecidableEq C] [DecidableEq D]

theorem Inv.awake (hs : Inv m b s) (hrunnable : s.runnable v = true) : s.slept v = false := by
  by_contra hslept
  have hrunnable' := (hs.slept v (Bool.eq_true_of_not_eq_false hslept)).1
  rw [hrunnable] at hrunnable'
  cases hrunnable'

theorem Inv.listed_rqd (hs : Inv m b s) (hv : v ∈ s.sdomVcpu d) : s.rqd v = some (m.c2r (s.processor v)) := by
  obtain ⟨q, hrqd⟩ := Option.ne_none_iff_exists'.mp ((hs.listed d v).mp hv).2
  rw [hrqd, hs.place v q hrqd]

end

theorem Inv.vcpuWake (hs : Inv m b s) (hv : v ∈ s.sdomVcpu (m.domain v)) (now : Int) :
    Inv m b (s.vcpuWake m v now) := by
  unfold State.vcpuWake
  split
  · exact hs
  · next hrunnable =>
    rw [Bool.not_eq_false] at hrunnable
    split
    · exact hs
    · split
      · exact hs
      · next hoff =>
        split
        · next hflag =>
          -- it is put into the queue when its context has been saved
          refine { hs with delayed := fun w hw => ?_ }
          by_cases heq : w = v
          · exact heq ▸ hflag
          · refine hs.delayed w ?_
            dsimp only at hw
            rwa [update_of_ne heq] at hw
        · next hflag =>
          rw [Bool.not_eq_true] at hflag
          have hrqd := hs.listed_rqd hv
          rw [if_neg (by rw [hrqd]; exact Option.some_ne_none _), bugOn_false (not_not.mpr hrqd)]
          have hoff : Off m s v := ⟨hrqd, hflag, hs.off_running hflag, hoff⟩
          exact (hoff.updateLoad 1).queueUp (hs.enqueue hoff (hs.awake hrunnable)) now

/-- A vCPU whose context has been saved goes to the queue that it is not in. -/
theorem Inv.cleared_off (hs : Inv m b s) (hrqd : s.rqd v = some (m.c2r (s.processor v))) (hrun : s.isRunning v = false)
    (hdelayed : s.delayedRunqAdd v = true) : Off m (s.clearScheduled v) v := by
  refine ⟨hrqd, update_self .., hrun, fun hon => ?_⟩
  have hflag := (hs.onRunq_rqd hon).2.2
  rw [hs.delayed v hdelayed] at hflag
  cases hflag

theorem Inv.contextSaved (hs : Inv m b s) (hsaving : s.saving v = true) (hrun : s.isRunning v = false) (now : Int) :
    Inv m b (s.contextSaved m v now) := by
  unfold State.contextSaved
  split
  · next hrqd =>
    refine { hs with noBug := fun hb => absurd ?_ hrqd }
    obtain ⟨q, hq⟩ := Option.ne_none_iff_exists'.mp (hs.flagged hb v (hs.saving hb v hsaving).1)
    rw [hq, hs.place v q hq]
  · next hrqd =>
    rw [not_not] at hrqd
    have hunflag := hs.unflag hrun fun hb => (hs.saving hb v hsaving).1
    dsimp only
    split
    · next hadd =>
      obtain ⟨hdelayed, hrunnable⟩ := (Bool.and_eq_true _ _).mp hadd
      have hcleared := hs.cleared_off hrqd hrun hdelayed
      rw [bugOn_false hcleared.off]
      exact hcleared.queueUp (hunflag.requeue hcleared (hs.awake hrunnable)) now
    · exact hunflag

/-! ### Migration -/

namespace State

/-- What a migration leaves alone: who runs, and the places of those that are flagged as scheduled. -/
structure Moved (s s' : State V C Q D) : Prop where
  curr : s'.curr = s.curr
  idle : s'.idle = s.idle
  isRunning : s'.isRunning = s.isRunning
  scheduled : s'.scheduled = s.scheduled
  saving : s'.saving = s.saving
  assigned : ∀ v, s'.rqd v ≠ none ↔ s.rqd v ≠ none
  place : ∀ v, s.scheduled v = true → s'.rqd v = s.rqd v ∧ s'.processor v = s.processor v

section

omit [DecidableEq V] [DecidableEq C] [DecidableEq Q] [DecidableEq D] [Fintype Q] [Fintype V]

theorem Moved.refl (s : State V C Q D) : Moved s s :=
  ⟨rfl, rfl, rfl, rfl, rfl, fun _ => Iff.rfl, fun _ _ => ⟨rfl, rfl⟩⟩

theorem Moved.trans {s'' : State V C Q D} (h : Moved s s') (h' : Moved s' s'') : Moved s s'' := by
  refine ⟨h'.curr.trans h.curr, h'.idle.trans h.idle, h'.isRunning.trans h.isRunning,
    h'.scheduled.trans h.scheduled, h'.saving.trans h.saving,
    fun v => (h'.assigned v).trans (h.assigned v), fun v hv => ?_⟩
  obtain ⟨hrqd, hprocessor⟩ := h.place v hv
  obtain ⟨hrqd', hprocessor'⟩ := h'.place v (h.scheduled ▸ hv)
  exact ⟨hrqd'.trans hrqd, hprocessor'.trans hprocessor⟩

theorem Burned.moved (h : Burned s s') : Moved s s' := by
  rw [h.same]
  exact ⟨rfl, rfl, rfl, rfl, rfl, fun _ => Iff.rfl, fun _ _ => ⟨rfl, rfl⟩⟩

end

end State

omit [DecidableEq C] [DecidableEq D] in
theorem State.busy_idle (hother : ∀ w, s'.isBusy w = s.isBusy w) (hrqd : ∀ w, w ≠ v → s'.rqd w = s.rqd w)
    (hidle : s.isBusy v = false) (q : Q) : s'.busy q = s.busy q := by
  have hchange := Tally.tally_change v (fun w _ => hother w) hrqd (some q)
  rw [hother v, hidle, Tally.weight_off, Tally.weight_off] at hchange
  exact hchange

/-- A vCPU that neither waits nor is flagged as scheduled gets another queue. -/
theorem Inv.reassign (hs : Inv m b s) (hv : Off m s v) (q : Q) :
    Inv m b (s.reassign m v q) ∧ Moved s (s.reassign m v q) ∧ Off m (s.reassign m v q) v ∧
      (s.reassign m v q).slept = s.slept := by
  have hfirst : m.c2r (m.firstCpu q) = q := (m.mem_active _ _).mp (List.head_mem _)
  obtain ⟨x, hx, hmax⟩ := deassign_spec hs.assigned (hs.svcNodup _) hv.rqd hv.off (hs.heaviest _)
  generalize hq₀ : m.c2r (s.processor v) = q₀ at hx hmax
  have hrqd₀ : s.rqd v = some q₀ := hq₀ ▸ hv.rqd
  have hne : ∀ {w}, s.scheduled w = true → w ≠ v := by
    rintro w hw rfl
    rw [hv.scheduled] at hw
    cases hw
  have hwait : ∀ {q w}, w ∈ s.runq q → w ≠ v := by
    rintro q w hw rfl
    exact hv.off ⟨q, hw⟩
  -- the state in between
  have hassigned : ∀ q' w, w ∈ (s.svc q').erase v ↔ update s.rqd v none w = some q' := by
    intro q' w
    rw [(hs.svcNodup q').mem_erase_iff, hs.assigned, update_eq_some]
    simp only [reduceCtorEq, and_false, or_false]
  have hheaviest : ∀ q', Heaviest (update s.rqd v none) s.weight q' (update s.maxWeight q₀ x q') := by
    intro q'
    by_cases hq' : q' = q₀
    · subst hq'
      rw [update_self]
      exact hmax
    · rw [update_of_ne hq']
      refine (hs.heaviest q').congr fun w => ?_
      rw [update_eq_some]
      constructor
      · rintro (⟨-, h⟩ | ⟨-, h⟩)
        · exact h
        · cases h
      · intro h
        refine .inl ⟨?_, h⟩
        rintro rfl
        rw [hrqd₀] at h
        exact hq' (Option.some.inj h).symm
  obtain ⟨y, hy, hmax'⟩ := assign_spec (s := { s with
      svc := fun q => (s.svc q).erase v
      maxWeight := update s.maxWeight q₀ x
      rqd := update s.rqd v none
      processor := update s.processor v (m.firstCpu q) }) (v := v) (q := q) hassigned (update_self ..) (hheaviest q)
  have heq : s.reassign m v q = { s with
      svc := update (fun q => (s.svc q).erase v) q ((s.svc q).erase v ++ [v])
      maxWeight := update (update s.maxWeight q₀ x) q y
      rqd := update s.rqd v (some q)
      processor := update s.processor v (m.firstCpu q) } := by
    unfold State.reassign
    rw [hx]
    rw [hy, Function.update_idem]
  rw [Function.update_idem] at hmax'
  have hrqd : ∀ {w}, w ≠ v → update s.rqd v (some q) w = s.rqd w := fun hw => update_of_ne hw ..
  have hprocessor : ∀ {w}, w ≠ v → update s.processor v (m.firstCpu q) w = s.processor w :=
    fun hw => update_of_ne hw ..
  have hsome : ∀ {w}, update s.rqd v (some q) w ≠ none ↔ s.rqd w ≠ none := by
    intro w
    by_cases hw : w = v
    · subst hw
      rw [update_self, hrqd₀]
      simp only [ne_eq, reduceCtorEq, not_false_eq_true]
    · rw [hrqd hw]
  rw [heq]
  refine ⟨?_, ⟨rfl, rfl, rfl, rfl, rfl, fun _ => hsome, fun w hw => ⟨hrqd (hne hw), hprocessor (hne hw)⟩⟩,
    ⟨?_, hv.scheduled, hv.running, hv.off⟩, rfl⟩
  · refine { hs with
      queued := fun q' w hw => ⟨(hrqd (hwait hw)).trans (hs.queued q' w hw).1, (hs.queued q' w hw).2⟩
      heaviest := fun q' => ?_
      assigned := fun q' w => ?_
      svcNodup := fun q' => ?_
      place := fun w q' hw => ?_
      current := fun c w hw => ?_
      listed := fun d w => (hs.listed d w).trans (and_congr_right fun _ => hsome.symm)
      weighed := fun w hw => hs.weighed w (hsome.mp hw)
      load := fun hb q' => ?_
      flagged := fun hb w hw => hsome.mpr (hs.flagged hb w hw) }
    · by_cases hq' : q' = q
      · subst hq'
        dsimp only
        rw [update_self]
        exact hmax'
      · dsimp only
        rw [update_of_ne hq']
        refine (hheaviest q').congr fun w => ?_
        rw [update_eq_some, update_eq_some]
        simp only [Option.some.injEq, reduceCtorEq, and_false, or_false, Ne.symm hq']
    · dsimp only
      rw [mem_update_append (f := fun q => (s.svc q).erase v), hassigned, update_eq_some, update_eq_some]
      simp only [reduceCtorEq, and_false, or_false, Option.some.injEq, eq_comm (a := q)]
    · by_cases hq' : q' = q
      · subst hq'
        dsimp only
        rw [update_self, (List.perm_append_singleton v _).nodup_iff, List.nodup_cons]
        exact ⟨(hs.svcNodup _).not_mem_erase, (hs.svcNodup _).erase v⟩
      · dsimp only
        rw [update_of_ne hq']
        exact (hs.svcNodup q').erase v
    · rcases update_eq_some.mp hw with ⟨hne, hw⟩ | ⟨rfl, hq⟩
      · dsimp only
        rw [hprocessor hne]
        exact hs.place w q' hw
      · dsimp only
        rw [update_self, hfirst]
        exact Option.some.inj hq
    · obtain ⟨hproc, hq', hflag, hrun⟩ := hs.current c w hw
      exact ⟨(hprocessor (hne hflag)).trans hproc, (hrqd (hne hflag)).trans hq', hflag, hrun⟩
    · refine (hs.load hb q').trans (congrArg Nat.cast (busy_idle (v := v) (fun w => ?_) (fun w hw => ?_) ?_ q').symm)
      · exact isBusy_congr Iff.rfl rfl
      · exact hrqd hw
      · exact isBusy_false hv.off hv.scheduled
  · dsimp only
    rw [update_self, update_self, hfirst]

omit [DecidableEq C] [DecidableEq D] [Fintype Q] [Fintype V] in
theorem State.dequeued_moved (s : State V C Q D) (v : V) : Moved s (s.dequeued v) :=
  ⟨rfl, rfl, rfl, rfl, rfl, fun _ => Iff.rfl, fun _ _ => ⟨rfl, rfl⟩⟩

omit [DecidableEq V] [DecidableEq C] [DecidableEq D] [Fintype Q] [Fintype V] in
theorem State.updateLoad_moved (s : State V C Q D) (a : Option Q) (n : Int) : Moved s (s.updateLoad a n) :=
  ⟨rfl, rfl, rfl, rfl, rfl, fun _ => Iff.rfl, fun _ _ => ⟨rfl, rfl⟩⟩

theorem State.queueUp_moved (hidle : ∀ c, s.idle c = true ↔ s.curr c = none) (hv : Off m s v) (now : Int) :
    Moved s (s.queueUp m v now) := by
  rw [queueUp_off hv]
  generalize insertByCredit (fun v => s.creditOf (some v)) v (s.runq (m.c2r (s.processor v))) = l
  have htickle := runqTickle_burned (m := m) (v := v) (s := { s with runq := update s.runq (m.c2r (s.processor v)) l })
    hidle rfl hv.rqd now
  have hmoved : Moved s { s with runq := update s.runq (m.c2r (s.processor v)) l } :=
    ⟨rfl, rfl, rfl, rfl, rfl, fun _ => Iff.rfl, fun _ _ => ⟨rfl, rfl⟩⟩
  exact hmoved.trans htickle.moved

theorem Inv.migrate (hs : Inv m b s) (hv : s.rqd v ≠ none) (q : Q) (now : Int) :
    Inv m b (s.migrate m v q now) ∧ Moved s (s.migrate m v q now) := by
  unfold State.migrate
  split
  · next hflag =>
    -- it is left to `context_saved`
    refine ⟨{ hs with slept := fun w hw => ?_ }, rfl, rfl, rfl, rfl, rfl, fun _ => Iff.rfl,
      fun _ _ => ⟨rfl, rfl⟩⟩
    obtain ⟨hrunnable, hoff⟩ := hs.slept w hw
    refine ⟨?_, hoff⟩
    unfold State.runnable at hrunnable ⊢
    dsimp only
    by_cases heq : w = v
    · rw [heq, update_self]
      rfl
    · rw [update_of_ne heq]
      exact hrunnable
  · next hflag =>
    rw [Bool.not_eq_true] at hflag
    obtain ⟨q₀, hq₀⟩ := Option.ne_none_iff_exists'.mp hv
    have hrqd : s.rqd v = some (m.c2r (s.processor v)) := by rw [hq₀, hs.place v q₀ hq₀]
    by_cases hon : s.OnRunq v
    · simp only [if_pos hon]
      rw [runqRemove_updateLoad hon]
      obtain ⟨hs', hmoved, hv', hslept⟩ := (hs.dequeue hon).reassign (hs.dequeued_off hon) q
      have hawake : s.slept v = false := by
        by_contra hslept
        exact (hs.slept v (Bool.eq_true_of_not_eq_false hslept)).2 hon
      refine ⟨(hv'.updateLoad 1).queueUp (hs'.enqueue hv' ((congrFun hslept v).trans hawake)) now, ?_⟩
      have hqueued : Moved _ _ := queueUp_moved (s := ((s.dequeued v).reassign m v q).updateLoad _ 1) hs'.idle
        (hv'.updateLoad 1) now
      exact ((dequeued_moved s v).trans hmoved).trans
        ((updateLoad_moved ..).trans hqueued)
    · simp only [if_neg hon]
      obtain ⟨hs', hmoved, -⟩ := hs.reassign ⟨hrqd, hflag, hs.off_running hflag, hon⟩ q
      exact ⟨hs', hmoved⟩

omit [DecidableEq C] [DecidableEq D] in
/-- A vCPU that can run, or cannot any more. -/
theorem Inv.setRunnable (hs : Inv m b s) (v : V) (migrating held : V → Bool)
    (hmigrating : ∀ w, w ≠ v → migrating w = s.migrating w) (hheld : ∀ w, w ≠ v → held w = s.held w) :
    Inv m b { s with
      migrating := migrating
      held := held
      slept := update s.slept v (s.slept v && !(!migrating v && !held v)) } := by
  refine { hs with slept := fun w hw => ?_ }
  dsimp only at hw
  by_cases heq : w = v
  · subst heq
    rw [update_self, Bool.and_eq_true, Bool.not_eq_true'] at hw
    exact ⟨hw.2, (hs.slept w hw.1).2⟩
  · rw [update_of_ne heq] at hw
    obtain ⟨hrunnable, hoff⟩ := hs.slept w hw
    refine ⟨?_, hoff⟩
    unfold State.runnable at hrunnable ⊢
    dsimp only
    rw [hmigrating w heq, hheld w heq]
    exact hrunnable

theorem Inv.vcpuMigrate (hs : Inv m b s) (hv : v ∈ s.sdomVcpu (m.domain v)) (newCpu : C) (now : Int) :
    Inv m b (s.vcpuMigrate m v newCpu now) := by
  unfold State.vcpuMigrate
  split
  · exact hs
  · have hcleared := hs.setRunnable v (update s.migrating v false) s.held
      (fun w hw => update_of_ne hw ..) (fun _ _ => rfl)
    dsimp only
    split
    · exact (hcleared.migrate ((hs.listed _ v).mp hv).2 _ now).1
    · exact hcleared

/-! ### Reset and balance -/

theorem reset_toInt (credit : BitVec 32) :
    (BitVec.ofInt 32 (min credit.toInt carryoverMax + creditInit)).toInt = min credit.toInt carryoverMax + creditInit := by
  have hlow := BitVec.le_toInt credit
  rw [BitVec.toInt_ofInt]
  unfold carryoverMax creditInit
  apply Int.bmod_eq_of_le
  · omega
  · omega

/-- The order stays: credits are clipped at the same value, and get the same on top. -/
theorem Inv.resetCredit (hs : Inv m b s) (q : Q) (now : Int) :
    Inv m b (s.resetCredit q now) ∧ Moved s (s.resetCredit q now) := by
  unfold State.resetCredit
  have hall : ¬ ∃ v ∈ s.svc q, s.rqd v ≠ some q := fun ⟨v, hv, hne⟩ => hne ((hs.assigned q v).mp hv)
  rw [bugOn_false hall]
  refine ⟨{ hs with sorted := fun q' => ?_ }, rfl, rfl, rfl, rfl, rfl, fun _ => Iff.rfl, fun _ _ => ⟨rfl, rfl⟩⟩
  have hin : ∀ v ∈ s.runq q', v ∈ s.svc q ↔ q' = q := by
    intro v hv
    rw [hs.assigned, (hs.queued q' v hv).1]
    exact Option.some_inj
  refine (hs.sorted q').imp_of_mem fun {v w} hv hw hle => ?_
  unfold State.creditOf at hle ⊢
  dsimp only at hle ⊢
  by_cases hq : q' = q
  · rw [if_pos ((hin v hv).mpr hq), if_pos ((hin w hw).mpr hq), reset_toInt, reset_toInt]
    have hmin := min_le_min_right carryoverMax hle
    omega
  · rw [if_neg fun h => hq ((hin v hv).mp h), if_neg fun h => hq ((hin w hw).mp h)]
    exact hle

omit [DecidableEq C] [DecidableEq D] in
/-- What `balance_load` moves is in the queue that it is moved from. -/
theorem Inv.mem_filter (hs : Inv m b s) (q : Q) (o : Option V)
    (h : (o.filter fun v => decide (v ∈ s.svc q) && !s.migrateRequest v) = some v) : s.rqd v ≠ none := by
  obtain ⟨-, hp⟩ := Option.filter_eq_some_iff.mp h
  have hv := of_decide_eq_true ((Bool.and_eq_true _ _).mp hp).1
  rw [(hs.assigned q v).mp hv]
  exact Option.some_ne_none _

theorem Inv.migrateFirst (hs : Inv m b s) (cpu : C) (orqd : Q) (push : Option V) (now : Int) :
    ∀ s', s' = (match push.filter fun v => decide (v ∈ s.svc (m.c2r cpu)) && !s.migrateRequest v with
      | none => s
      | some v => s.migrate m v orqd now) → Inv m b s' ∧ Moved s s' := by
  rintro s' rfl
  split
  · exact ⟨hs, .refl s⟩
  · next v hv => exact hs.migrate (hs.mem_filter _ push hv) orqd now

theorem Inv.balanceLoad (hs : Inv m b s) (cpu : C) (orqd : Q) (push pull : Option V) (now : Int) :
    Inv m b (s.balanceLoad m cpu orqd push pull now) ∧ Moved s (s.balanceLoad m cpu orqd push pull now) := by
  unfold State.balanceLoad
  dsimp only
  split
  · exact ⟨hs, .refl s⟩
  · obtain ⟨hs', hmoved⟩ := hs.migrateFirst cpu orqd push now _ rfl
    split
    · exact ⟨hs', hmoved⟩
    · next v hv =>
      obtain ⟨hs'', hmoved'⟩ := hs'.migrate ((hmoved.assigned v).mpr (hs.mem_filter _ pull hv)) (m.c2r cpu) now
      exact ⟨hs'', hmoved.trans hmoved'⟩

end Sched.Credit2
