import MemoryMonitor.Timer.Runs

/-!
# One run of `timer_softirq_action`

`softirqLoop` goes from one release of the lock to the next. What happens while it is
released, the callback included, is a function of the world of which only `Calm` is
known. The timers that are active at the beginning and expire before `now` are
executed, one at a time, and the deadline is that of the others.
-/

namespace Timer

variable {timerSlop : Int} {w w' : World} {c : Nat} {t : Tid} {now : Int} {reprogrammed : Bool}

/-- The rest of `timer_softirq_action`: the timers it executes, and the end. -/
def softirqLoop (timerSlop : Int) (c : Nat) (now : Int) (reprogrammed : Bool)
    (callback : Nat → Tid → World → World) : Nat → World → Option (List Tid × World)
  | 0, _ => none
  | n + 1, w =>
      match w.softirq c with
      | none => some ([], w)
      | some ph =>
          match ph.step timerSlop c now reprogrammed w with
          | none => none
          | some w =>
              match w.softirq c, (w.ts c).running with
              | some (.heapTimer _), some t | some (.listTimer _), some t =>
                  (softirqLoop timerSlop c now reprogrammed callback n (callback n t w)).map
                    fun r => (t :: r.1, r.2)
              | _, _ => softirqLoop timerSlop c now reprogrammed callback n w

/-- `timer_softirq_action`, from its first line. -/
def timerSoftirqAction (timerSlop : Int) (c : Nat) (alloc : Bool) (now : Int) (reprogrammed : Bool)
    (callback : Nat → Tid → World → World) (fuel : Nat) (w : World) : Option (List Tid × World) :=
  match (Step.softirq c alloc).run timerSlop w with
  | none => none
  | some w => softirqLoop timerSlop c now reprogrammed callback fuel w

/-- The store is in order, and the times are of type `s_time_t`. -/
structure Held (w : World) (c : Nat) : Prop where
  stores : Stores w w.place
  settled : ∀ t d, w.cpu t = some d → ∃ k : Kind, w.status t = k.status
  limit : Limit (w.ts c).heap.limit
  range : ∀ t, w.expires t ≤ stimeMax

theorem Inv.held {R : Int → Prop} (h : Inv R timerSlop w) (hR : ∀ e, R e → e ≤ stimeMax) (c : Nat) :
    Held w c :=
  ⟨h.safe.stores, h.settled, h.safe.limit c, fun t => hR _ (h.safe.expires t)⟩

/-- What is done while the lock is released arms no timer of the CPU, and stops none. -/
structure Calm (c : Nat) (w w' : World) : Prop where
  held : Held w' c
  heap : (w'.ts c).heap = (w.ts c).heap
  list : (w'.ts c).list = (w.ts c).list
  expires : ∀ t, w.Active c t → w'.expires t = w.expires t
  softirq : w'.softirq c = w.softirq c

/-- The deadline is that of the earliest active timer, if there is one. -/
def World.DeadlineSet (w : World) (timerSlop : Int) (c : Nat) : Prop :=
  (∀ t, ¬w.Active c t) ∧ w.timerDeadline c = 0 ∨
    ∃ m, IsLeast {e | ∃ t, w.Active c t ∧ w.expires t = e} m ∧
      w.timerDeadline c = if m = stimeMax then 0 else addTime m timerSlop

/-! ## Active timers -/

theorem World.active_iff_place : w.Active c t ↔ ∃ k, w.place t = some (c, k) ∧ k.Active := by
  unfold World.Active activeTimer
  simp only [decide_eq_true_eq, World.place_eq_some]
  constructor
  · rintro ⟨hc, hs | hs⟩
    · exact ⟨.heap, ⟨hc, hs⟩, nofun⟩
    · exact ⟨.list, ⟨hc, hs⟩, nofun⟩
  · rintro ⟨k, ⟨hc, hs⟩, hk⟩
    cases k with
    | heap => exact ⟨hc, .inl hs⟩
    | list => exact ⟨hc, .inr hs⟩
    | inactive => exact absurd rfl hk

theorem Stores.active_iff (h : Stores w w.place) :
    w.Active c t ↔ Heap.Mem (w.ts c).heap t ∨ t ∈ (w.ts c).list := by
  rw [World.active_iff_place, (h c).heap_mem, (h c).list_mem]
  constructor
  · rintro ⟨k, hp, hk⟩
    cases k with
    | heap => exact .inl hp
    | list => exact .inr hp
    | inactive => exact absurd rfl hk
  · rintro (hp | hp)
    · exact ⟨.heap, hp, nofun⟩
    · exact ⟨.list, hp, nofun⟩

theorem Calm.active_iff (h : Calm c w w') (hw : Held w c) : w'.Active c t ↔ w.Active c t := by
  rw [h.held.stores.active_iff, hw.stores.active_iff, h.heap, h.list]

/-! ## One timer is executed -/

/-- Timer `t` has been taken out of the store and its callback is next. -/
structure Fired (c : Nat) (now : Int) (t : Tid) (w w' : World) : Prop where
  held : Held w' c
  active : w.Active c t
  ready : w.expires t < now
  expires : w'.expires = w.expires
  rest : ∀ x, w'.Active c x ↔ w.Active c x ∧ x ≠ t
  running : (w'.ts c).running = some t
  load : (w'.ts c).load + 1 = (w.ts c).load

/-- The timer `t` is out of its container. -/
theorem Held.executeTimer {ts : Timers} {off : Tid → Nat} {ph : Option Phase} (h : Held w c)
    (ht : w.Active c t) (hready : w.expires t < now)
    (hst : Stores (w.replace c ts off) (Function.update w.place t none))
    (hlimit : ts.heap.limit = (w.ts c).heap.limit) (hload : ts.load + 1 = (w.ts c).load) :
    Fired c now t w ((Timer.executeTimer c t (w.replace c ts off)).setSoftirq c ph) := by
  rcases World.active_iff_place.mp ht with ⟨k, hp, -⟩
  have hc : w.cpu t = some c := (World.place_eq_some.mp hp).1
  generalize hw' : (Timer.executeTimer c t (w.replace c ts off)).setSoftirq c ph = w'
  have hcpu : w'.cpu = w.cpu := by
    subst hw'
    rfl
  have hexp : w'.expires = w.expires := by
    subst hw'
    rfl
  have hstatus : w'.status = Function.update w.status t .inactive := by
    subst hw'
    rfl
  have hts : w'.ts c = { ts with inactive := t :: ts.inactive, running := some t } := by
    subst hw'
    simp [Timer.executeTimer, World.setSoftirq, World.setTs, World.addInactive, World.replace,
      World.setStatus]
  have hplace : w'.place = Function.update w.place t (some (c, .inactive)) := by
    rw [World.place_update (w := w) (t := t) (fun x _ => congrFun hcpu x) fun x hx => by
      rw [hstatus, Function.update_of_ne hx]]
    congr 1
    refine World.place_eq_some.mpr ⟨(congrFun hcpu t).trans hc, ?_⟩
    rw [hstatus]
    exact Function.update_self ..
  have hstores : Stores w' w'.place := by
    have hadd := hst.addInactive (c := c) (t := t) (Function.update_self ..)
    rw [Function.update_idem, ← hplace] at hadd
    have hrun : Stores (((w.replace c ts off).addInactive c t).setTs c
        fun ts => { ts with running := some t }) w'.place :=
      hadd.setTs { hadd c with }
    subst hw'
    exact hrun
  refine ⟨⟨hstores, fun x d hx => ?_, ?_, fun x => ?_⟩, ht, hready, hexp, fun x => ?_, ?_, ?_⟩
  · rw [hstatus]
    by_cases hxt : x = t
    · subst hxt
      exact ⟨.inactive, Function.update_self ..⟩
    · rw [Function.update_of_ne hxt]
      rw [hcpu] at hx
      exact h.settled x d hx
  · rw [hts]
    show Limit ts.heap.limit
    rw [hlimit]
    exact h.limit
  · rw [hexp]
    exact h.range x
  · rw [World.active_iff_place, World.active_iff_place, hplace]
    by_cases hxt : x = t
    · subst hxt
      rw [Function.update_self]
      refine iff_of_false ?_ fun hx => hx.2 rfl
      rintro ⟨k, hk, hka⟩
      injection hk with hk
      injection hk with _ hk
      exact hka hk.symm
    · rw [Function.update_of_ne hxt]
      exact (and_iff_left hxt).symm
  · rw [hts]
  · rw [hts]
    exact hload

/-! ## The end -/

/-- All timers that remain are later, and the deadline is set. -/
structure Finished (timerSlop : Int) (c : Nat) (now : Int) (w w' : World) : Prop where
  held : Held w' c
  softirq : w'.softirq c = none
  expires : w'.expires = w.expires
  active : ∀ x, w'.Active c x ↔ w.Active c x
  late : ∀ x, w.Active c x → now ≤ w.expires x
  deadline : w'.DeadlineSet timerSlop c

theorem finish_finished (timerSlop : Int) (reprogrammed : Bool) (h : Held w c)
    (hlate : ∀ x, w.Active c x → now ≤ w.expires x) :
    ∃ w', finish timerSlop c reprogrammed w = some w' ∧ Finished timerSlop c now w w' := by
  have hst := h.stores
  have hl (x : Tid) : x ∈ (w.ts c).list ↔ w.place x = some (c, .list) := (hst c).list_mem x
  rcases moveList_spec (w := w.setList c []) (hst c).list_nodup
    (fun x hx => (World.place_eq_some.mp ((hl x).mp hx)).1) hst.clearList with
    ⟨w₁, he, hst₁, hq, hout, hin⟩
  have hcpu : w₁.cpu = w.cpu := hq.cpu
  have hexp : w₁.expires = w.expires := hq.expires
  -- a timer of the list is in the heap now, or in the list again
  have hactive (x : Tid) : w₁.Active c x ↔ w.Active c x := by
    by_cases hx : x ∈ (w.ts c).list
    · rcases hin x hx with ⟨k, hk, hs⟩
      have hxc : w₁.cpu x = some c := by
        rw [hcpu]
        exact (World.place_eq_some.mp ((hl x).mp hx)).1
      exact iff_of_true (World.active_iff_place.mpr ⟨k, World.place_eq_some.mpr ⟨hxc, hs⟩, hk⟩)
        (hst.active_iff.mpr (.inr hx))
    · unfold World.Active activeTimer
      rw [hcpu, hout x hx]
      exact Iff.rfl
  unfold finish
  rw [he]
  refine ⟨_, rfl, ⟨hst₁, fun x d hx => ?_, ?_, fun x => ?_⟩, Function.update_self .., hexp, hactive,
    hlate, ?_⟩
  · show ∃ k : Kind, w₁.status x = k.status
    change w₁.cpu x = some d at hx
    by_cases hxl : x ∈ (w.ts c).list
    · rcases hin x hxl with ⟨k, -, hk⟩
      exact ⟨k, hk⟩
    · rw [hout x hxl]
      rw [hcpu] at hx
      exact h.settled x d hx
  · show Limit (w₁.ts c).heap.limit
    rw [hq.limit c]
    have hsame : ((w.setList c []).ts c).heap = (w.ts c).heap := by
      simp [World.setList, World.setTs]
    rw [hsame]
    exact h.limit
  · show w₁.expires x ≤ stimeMax
    rw [hexp]
    exact h.range x
  · have hmax (x : Tid) : w₁.expires x ≤ stimeMax := by
      rw [hexp]
      exact h.range x
    by_cases hnone : ∃ t, w₁.Active c t
    · rcases hnone with ⟨t, ht⟩
      rcases World.active_iff_place.mp ht with ⟨k, hp, hk⟩
      refine .inr ⟨earliest w₁ c, ⟨?_, ?_⟩, Function.update_self ..⟩
      · rcases (mem_activeExpires hst₁).mp (earliest_mem hst₁ hp hk hmax) with ⟨x, k', hx, hk', he'⟩
        exact ⟨x, World.active_iff_place.mpr ⟨k', hx, hk'⟩, he'⟩
      · rintro e ⟨x, hx, rfl⟩
        rcases World.active_iff_place.mp hx with ⟨k', hx', hk'⟩
        exact earliest_le hst₁ hx' hk'
    · push Not at hnone
      refine .inl ⟨hnone, (Function.update_self ..).trans ?_⟩
      -- neither container has a timer
      have hsize : ¬(w₁.ts c).heap.size ≠ 0 := by
        intro hne
        exact hnone _ (hst₁.active_iff.mpr (.inl ⟨1, le_rfl, by omega, rfl⟩))
      have hempty : (w₁.ts c).list = [] := List.eq_nil_iff_forall_not_mem.mpr fun x hx =>
        hnone x (hst₁.active_iff.mpr (.inr hx))
      have hearliest : earliest w₁ c = stimeMax := by
        unfold earliest
        dsimp only
        rw [hempty, if_neg hsize]
      rw [if_pos hearliest]

/-! ## The two loops -/

/-- The list is looked at when the heap has no timer left that expires before `now`. -/
def Phase.Scans (now : Int) (c : Nat) (w : World) : Phase → Prop
  | .grow _ => False
  | .ready => True
  | .heapTimer n => n = now
  | .listTimer n => n = now ∧ ∀ x, Heap.Mem (w.ts c).heap x → now ≤ w.expires x

/-- A timer is executed, or the end is reached. -/
def Outcome (timerSlop : Int) (c : Nat) (now : Int) (w w' : World) : Prop :=
  (∃ t ph, w'.softirq c = some ph ∧ ph ≠ .ready ∧ ph.Scans now c w' ∧ Fired c now t w w') ∨
    Finished timerSlop c now w w'

theorem listTimers_outcome (timerSlop : Int) (reprogrammed : Bool) (h : Held w c)
    (hheap : ∀ x, Heap.Mem (w.ts c).heap x → now ≤ w.expires x) :
    ∃ w', listTimers timerSlop c now reprogrammed w = some w' ∧ Outcome timerSlop c now w w' := by
  unfold listTimers
  split
  · next hl =>
    have hlate (x : Tid) (hx : w.Active c x) : now ≤ w.expires x := by
      rcases h.stores.active_iff.mp hx with hx | hx
      · exact hheap x hx
      · rw [hl] at hx
        nomatch hx
    rcases finish_finished timerSlop reprogrammed h hlate with ⟨w', he, hf⟩
    exact ⟨w', he, .inr hf⟩
  · next t rest hl =>
    split
    · next hlt =>
      have hm : t ∈ (w.ts c).list := by
        rw [hl]
        exact List.mem_cons_self
      have herase : (w.ts c).list.erase t = rest := by
        rw [hl]
        exact List.erase_cons_head ..
      have hst := h.stores.eraseList (((h.stores c).list_mem t).mp hm)
      rw [herase] at hst
      have hfired : Fired c now t w ((executeTimer c t (w.setList c rest)).setSoftirq c
          (some (.listTimer now))) := by
        refine @Held.executeTimer w c t now _ w.heapOffset _ h (h.stores.active_iff.mpr (.inr hm)) hlt hst rfl ?_
        unfold Timers.load
        rw [hl, List.length_cons]
        rfl
      refine ⟨_, rfl, .inl ⟨t, _, Function.update_self .., nofun, ⟨rfl, fun x hx => ?_⟩, hfired⟩⟩
      refine hheap x ?_
      simpa [executeTimer, World.setSoftirq, World.setTs, World.addInactive, World.setList,
        World.setStatus] using hx
    · next hge =>
      -- the list is sorted
      have hlate (x : Tid) (hx : w.Active c x) : now ≤ w.expires x := by
        rcases h.stores.active_iff.mp hx with hx | hx
        · exact hheap x hx
        · have hsorted := (h.stores c).sorted
          rw [hl] at hx hsorted
          rcases List.mem_cons.mp hx with rfl | hx
          · exact not_lt.mp hge
          · exact (not_lt.mp hge).trans ((List.pairwise_cons.mp hsorted).1 x hx)
      rcases finish_finished timerSlop reprogrammed h hlate with ⟨w', he, hf⟩
      exact ⟨w', he, .inr hf⟩

theorem heapTimers_outcome (timerSlop : Int) (now : Int) (reprogrammed : Bool) (h : Held w c) :
    ∃ w', heapTimers timerSlop c now reprogrammed w = some w' ∧ Outcome timerSlop c now w w' := by
  unfold heapTimers
  dsimp only
  split
  · next hc =>
    have hm : Heap.Mem (w.ts c).heap ((w.ts c).heap.slot 1) := ⟨1, le_rfl, by omega, rfl⟩
    have hr := Heap.removeFromHeap_removed (h.stores c).heap hm
    have hst := h.stores.removeFromHeap (((h.stores c).heap_mem _).mp hm)
    have hload : (Timers.load { w.ts c with
        heap := (Heap.removeFromHeap w.expires ((w.ts c).heap, w.heapOffset)
          ((w.ts c).heap.slot 1)).2.1 }) + 1 = (w.ts c).load := by
      unfold Timers.load
      rw [← hr.size]
      exact Nat.add_right_comm ..
    exact ⟨_, rfl, .inl ⟨_, .heapTimer now, Function.update_self .., nofun, rfl,
      h.executeTimer (h.stores.active_iff.mpr (.inl hm)) hc.2 hst hr.limit hload⟩⟩
  · next hc =>
    refine listTimers_outcome timerSlop reprogrammed h fun x hx => ?_
    have hroot := (h.stores c).heap.ordered.root_le_of_mem hx
    rcases hx with ⟨i, hi, hin, -⟩
    have hne : (w.ts c).heap.size ≠ 0 := by omega
    exact (not_lt.mp fun hlt => hc ⟨hne, hlt⟩).trans hroot

/-- `ts->running = NULL`. -/
theorem Held.setRunning (h : Held w c) (r : Option Tid) :
    Held (w.setTs c fun ts => { ts with running := r }) c := by
  refine ⟨h.stores.setTs { h.stores c with }, h.settled, ?_, h.range⟩
  show Limit (Function.update w.ts c { w.ts c with running := r } c).heap.limit
  rw [Function.update_self]
  exact h.limit

theorem setRunning_ts (r : Option Tid) :
    (w.setTs c fun ts => { ts with running := r }).ts c = { w.ts c with running := r } :=
  Function.update_self ..

/-- Nothing looks at `running`. -/
theorem Outcome.of_setRunning {r : Option Tid}
    (h : Outcome timerSlop c now (w.setTs c fun ts => { ts with running := r }) w') :
    Outcome timerSlop c now w w' := by
  rcases h with ⟨t, ph, hph, hne, hscans, hf⟩ | hf
  · refine .inl ⟨t, ph, hph, hne, hscans, hf.held, hf.active, hf.ready, hf.expires, hf.rest,
      hf.running, ?_⟩
    have hload := hf.load
    rw [setRunning_ts] at hload
    exact hload
  · exact .inr ⟨hf.held, hf.softirq, hf.expires, hf.active, hf.late, hf.deadline⟩

theorem Phase.step_outcome (timerSlop : Int) (reprogrammed : Bool) {ph : Phase} (h : Held w c) (hph : ph.Scans now c w) :
    ∃ w', ph.step timerSlop c now reprogrammed w = some w' ∧ Outcome timerSlop c now w w' := by
  cases ph with
  | grow _ => exact hph.elim
  | ready => exact heapTimers_outcome timerSlop now reprogrammed h
  | heapTimer n =>
    obtain rfl : n = now := hph
    rcases heapTimers_outcome timerSlop n reprogrammed (h.setRunning none) with ⟨w', he, ho⟩
    exact ⟨w', he, ho.of_setRunning⟩
  | listTimer n =>
    obtain ⟨rfl, hheap⟩ := hph
    have hheap' (x : Tid) (hx : Heap.Mem ((w.setTs c fun ts =>
        { ts with running := none }).ts c).heap x) : n ≤ w.expires x := by
      rw [setRunning_ts] at hx
      exact hheap x hx
    rcases listTimers_outcome timerSlop reprogrammed (h.setRunning none) hheap' with ⟨w', he, ho⟩
    exact ⟨w', he, ho.of_setRunning⟩

/-! ## The run -/

/-- What the run from `w` has executed and left. -/
structure Executed (timerSlop : Int) (c : Nat) (now : Int) (w : World) (r : List Tid × World) :
    Prop where
  nodup : r.1.Nodup
  mem : ∀ t, t ∈ r.1 ↔ w.Active c t ∧ w.expires t < now
  active : ∀ t, r.2.Active c t ↔ w.Active c t ∧ now ≤ w.expires t
  expires : ∀ t, r.2.Active c t → r.2.expires t = w.expires t
  held : Held r.2 c
  softirq : r.2.softirq c = none
  deadline : r.2.DeadlineSet timerSlop c

theorem Finished.executed (h : Finished timerSlop c now w w') : Executed timerSlop c now w ([], w') := by
  refine ⟨.nil, fun t => ?_, fun t => ?_, fun t _ => congrFun h.expires t, h.held, h.softirq,
    h.deadline⟩
  · refine iff_of_false List.not_mem_nil fun ht => ?_
    exact absurd ht.2 (not_lt.mpr (h.late t ht.1))
  · rw [h.active]
    exact (and_iff_left_of_imp (h.late t)).symm

/-- The run goes on after the callback of `t`. -/
theorem Fired.executed {w'' : World} {r : List Tid × World} (h : Fired c now t w w')
    (hcalm : Calm c w' w'') (hr : Executed timerSlop c now w'' r) :
    Executed timerSlop c now w (t :: r.1, r.2) := by
  have hactive (x : Tid) : w''.Active c x ↔ w.Active c x ∧ x ≠ t := by
    rw [hcalm.active_iff h.held, h.rest]
  have hexp {x : Tid} (hx : w.Active c x ∧ x ≠ t) : w''.expires x = w.expires x :=
    (hcalm.expires x ((h.rest x).mpr hx)).trans (congrFun h.expires x)
  refine ⟨List.nodup_cons.mpr ⟨fun hm => ?_, hr.nodup⟩, fun x => ?_, fun x => ?_, fun x hx => ?_,
    hr.held, hr.softirq, hr.deadline⟩
  · exact ((hactive t).mp ((hr.mem t).mp hm).1).2 rfl
  · rw [List.mem_cons, hr.mem, hactive]
    constructor
    · rintro (rfl | ⟨hx, hlt⟩)
      · exact ⟨h.active, h.ready⟩
      · rw [hexp hx] at hlt
        exact ⟨hx.1, hlt⟩
    · rintro ⟨hx, hlt⟩
      by_cases hxt : x = t
      · exact .inl hxt
      · refine .inr ⟨⟨hx, hxt⟩, ?_⟩
        rw [hexp ⟨hx, hxt⟩]
        exact hlt
  · rw [hr.active, hactive]
    constructor
    · rintro ⟨hx, hle⟩
      rw [hexp hx] at hle
      exact ⟨hx.1, hle⟩
    · rintro ⟨hx, hle⟩
      have hxt : x ≠ t := by
        rintro rfl
        exact absurd h.ready (not_lt.mpr hle)
      refine ⟨⟨hx, hxt⟩, ?_⟩
      rw [hexp ⟨hx, hxt⟩]
      exact hle
  · exact (hr.expires x hx).trans (hexp ((hactive x).mp ((hr.active x).mp hx).1))

/-- By induction on the timers that are left, each turn of the loops takes one. -/
theorem softirqLoop_executed (timerSlop : Int) (reprogrammed : Bool) {callback : Nat → Tid → World → World}
    (hcb : ∀ n t w, Held w c → Calm c w (callback n t w)) {n : Nat} {ph : Phase} (h : Held w c)
    (hph : w.softirq c = some ph) (hscans : ph.Scans now c w) (hn : (w.ts c).load + 2 ≤ n) :
    ∃ r, softirqLoop timerSlop c now reprogrammed callback n w = some r ∧
      Executed timerSlop c now w r := by
  induction n generalizing w ph with
  | zero => omega
  | succ n ih =>
    rcases Phase.step_outcome timerSlop reprogrammed h hscans with ⟨w₁, he, ⟨t, ph₁, hph₁, hready, hscans₁, hf⟩ | hf⟩
    · have hcalm := hcb n t w₁ hf.held
      have hph₂ : (callback n t w₁).softirq c = some ph₁ := hcalm.softirq.trans hph₁
      have hscans₂ : ph₁.Scans now c (callback n t w₁) := by
        cases ph₁ with
        | grow _ => exact hscans₁
        | ready => trivial
        | heapTimer _ => exact hscans₁
        | listTimer m =>
          refine ⟨hscans₁.1, fun x hx => ?_⟩
          rw [hcalm.heap] at hx
          rw [hcalm.expires x (hf.held.stores.active_iff.mpr (.inl hx))]
          exact hscans₁.2 x hx
      have hload : ((callback n t w₁).ts c).load = (w₁.ts c).load := by
        unfold Timers.load
        rw [hcalm.heap, hcalm.list]
      have hless := hf.load
      rcases ih hcalm.held hph₂ hscans₂ (by omega) with ⟨r, hr, hexec⟩
      refine ⟨(t :: r.1, r.2), ?_, hf.executed hcalm hexec⟩
      unfold softirqLoop
      rw [hph]
      dsimp only
      rw [he]
      dsimp only
      rw [hph₁, hf.running]
      cases ph₁ with
      | grow _ => exact hscans₁.elim
      | ready => exact absurd rfl hready
      | heapTimer _ | listTimer _ =>
        dsimp only
        rw [hr]
        rfl
    · refine ⟨([], w₁), ?_, hf.executed⟩
      rcases Nat.exists_eq_add_of_le' hn with ⟨m, hm⟩
      obtain ⟨k, rfl⟩ : ∃ k, n = k + 1 := ⟨m + (w.ts c).load, by omega⟩
      unfold softirqLoop
      rw [hph]
      dsimp only
      rw [he]
      dsimp only
      rw [hf.softirq]
      unfold softirqLoop
      rw [hf.softirq]

/-- The world with a larger heap for CPU `c`, of which the limit was `n`. -/
def World.grown (w : World) (c n : Nat) : World :=
  (w.setTs c fun ts => { ts with heap := ts.heap.grow n }).setSoftirq c (some .ready)

theorem softirqLoop_grow {callback : Nat → Tid → World → World} {n m : Nat} :
    softirqLoop timerSlop c now reprogrammed callback (n + 1) (w.setSoftirq c (some (.grow m)))
      = softirqLoop timerSlop c now reprogrammed callback n (w.grown c m) := by
  have hph : (w.setSoftirq c (some (.grow m))).softirq c = some (.grow m) := Function.update_self ..
  have hstep : Phase.step timerSlop c now reprogrammed (w.setSoftirq c (some (.grow m))) (.grow m)
      = some (w.grown c m) := by
    simp [Phase.step, World.grown, World.setSoftirq, World.setTs]
  have hready : (w.grown c m).softirq c = some .ready := Function.update_self ..
  conv => lhs; unfold softirqLoop
  rw [hph]
  dsimp only
  rw [hstep]
  dsimp only
  rw [hready]

/-- The larger heap holds the same timers. -/
theorem Held.grow (h : Held w c) : Held (w.grown c (w.ts c).heap.limit) c := by
  refine ⟨?_, h.settled, ?_, h.range⟩
  · exact h.stores.setTs (f := fun ts => { ts with heap := ts.heap.grow (w.ts c).heap.limit })
      ((h.stores c).grow h.limit)
  · show Limit (Function.update w.ts c _ c).heap.limit
    rw [Function.update_self]
    exact h.limit.newLimit.2

theorem Held.setSoftirq (h : Held w c) (ph : Option Phase) : Held (w.setSoftirq c ph) c :=
  ⟨h.stores, h.settled, h.limit, h.range⟩

/-- One run executes the timers that expire before `now`, each once, and no others. -/
theorem timerSoftirqAction_executed (timerSlop : Int) (alloc : Bool) (now : Int)
    (reprogrammed : Bool) {callback : Nat → Tid → World → World} {fuel : Nat} (h : Held w c)
    (hidle : w.softirq c = none) (hcb : ∀ n t w, Held w c → Calm c w (callback n t w))
    (hfuel : (w.ts c).load + 3 ≤ fuel) :
    ∃ r, timerSoftirqAction timerSlop c alloc now reprogrammed callback fuel w = some r ∧
      Executed timerSlop c now w r := by
  unfold timerSoftirqAction Step.run
  dsimp only
  rw [if_neg (not_not.mpr hidle)]
  by_cases hgrow : (w.ts c).list ≠ [] ∧ alloc = true
  · -- the heap is replaced first
    rw [if_pos hgrow]
    obtain ⟨n, rfl⟩ : ∃ n, fuel = n + 1 := ⟨fuel - 1, by omega⟩
    dsimp only
    rw [softirqLoop_grow]
    have hload : ((w.grown c (w.ts c).heap.limit).ts c).load = (w.ts c).load := by
      show (Function.update w.ts c _ c).load = _
      rw [Function.update_self]
      rfl
    have hready : Phase.Scans now c (w.grown c (w.ts c).heap.limit) .ready := trivial
    rcases softirqLoop_executed timerSlop reprogrammed hcb h.grow (Function.update_self ..) hready
      (n := n) (by omega) with ⟨r, hr, hexec⟩
    exact ⟨r, hr, hexec.nodup, hexec.mem, hexec.active, hexec.expires, hexec.held, hexec.softirq,
      hexec.deadline⟩
  · rw [if_neg hgrow]
    have hready : Phase.Scans now c (w.setSoftirq c (some .ready)) .ready := trivial
    have hn : ((w.setSoftirq c (some .ready)).ts c).load + 2 ≤ fuel := by
      show (w.ts c).load + 2 ≤ fuel
      omega
    rcases softirqLoop_executed timerSlop reprogrammed hcb (h.setSoftirq (some .ready))
      (Function.update_self ..) hready hn with ⟨r, hr, hexec⟩
    exact ⟨r, hr, hexec.nodup, hexec.mem, hexec.active, hexec.expires, hexec.held, hexec.softirq,
      hexec.deadline⟩

theorem calm_refl (h : Held w c) : Calm c w w :=
  ⟨h, rfl, rfl, fun _ _ => rfl, rfl⟩

theorem runSteps_held {steps : List Step} (hw : runSteps timerSlop steps .init = some w) (c : Nat) :
    Held w c := by
  have h0 : (0 : Int) ≤ stimeMax := by decide
  have hset (e : Int64) : e.toInt ≤ stimeMax := Int.le_of_lt_add_one e.toInt_lt
  rcases runSteps_inv (R := fun e => e ≤ stimeMax) (World.init_inv h0) (fun _ he => he) h0
    fun t e _ => hset e with ⟨w', he, hinv, -⟩ | ⟨hnone, -⟩
  · rw [hw] at he
    injection he with he
    subst he
    exact hinv.held (fun _ he => he) c
  · rw [hw] at hnone
    nomatch hnone

/-- Two timers, which find no room in the heap. -/
def twoTimers (a b : Int64) : List Step := [.init 0 0, .init 1 0, .set 0 a, .set 1 b]

theorem timerSoftirqAction_executed_twoTimers :
    ∃ w r, runSteps 50000 (twoTimers 70000 90000) .init = some w ∧
      timerSoftirqAction 50000 0 true 80000 true (fun _ _ w => w) 5 w = some r ∧
      Executed 50000 0 80000 w r := by
  have hrun : (runSteps 50000 (twoTimers 70000 90000) .init).map (fun w =>
      (w.softirq 0, (w.ts 0).load)) = some (none, 2) := by decide
  rcases Option.map_eq_some_iff.mp hrun with ⟨w, hw, he⟩
  injection he with hidle hload
  rcases timerSoftirqAction_executed 50000 true 80000 true (runSteps_held hw 0) hidle
    (fun _ _ w h => calm_refl (show Held w 0 from h)) (by rw [hload]) with ⟨r, hr, hexec⟩
  exact ⟨w, r, hw, hr, hexec⟩

/-- A timer at `STIME_MAX` remains and has no deadline. -/
theorem timerSoftirqAction_stimeMax :
    ∃ w r, runSteps 0 [.init 0 0, .set 0 .maxValue] .init = some w ∧ Held w 0 ∧
      timerSoftirqAction 0 0 false 0 true (fun _ _ w => w) 4 w = some r ∧
      ¬((∀ t, ¬r.2.Active 0 t) ∧ r.2.timerDeadline 0 = 0 ∨
        ∃ m, IsLeast {e | ∃ t, r.2.Active 0 t ∧ r.2.expires t = e} m ∧
          r.2.timerDeadline 0 = m + 0) := by
  have hrun : ((runSteps 0 [.init 0 0, .set 0 .maxValue] .init).bind fun w =>
      timerSoftirqAction 0 0 false 0 true (fun _ _ w => w) 4 w).map (fun r =>
        (r.2.cpu, activeTimer 0 r.2, r.2.expires 0, r.2.timerDeadline 0))
      = some (Function.update (fun _ => none) 0 (some 0), true, stimeMax, 0) := by rfl
  rcases Option.map_eq_some_iff.mp hrun with ⟨r, hr, he⟩
  rcases Option.bind_eq_some_iff.mp hr with ⟨w, hw, hr⟩
  simp only [Prod.mk.injEq] at he
  rcases he with ⟨hc, ha, hexp, hd⟩
  refine ⟨w, r, hw, runSteps_held hw 0, hr, ?_⟩
  rintro (⟨hnone, -⟩ | ⟨m, ⟨⟨t, ht, he⟩, -⟩, hm⟩)
  · refine hnone 0 ⟨?_, ha⟩
    rw [hc]
    rfl
  · -- it is the only one
    have ht0 : t = 0 := by
      by_contra hne
      have hct := ht.1
      rw [hc, Function.update_of_ne hne] at hct
      nomatch hct
    subst ht0
    rw [hd, ← he, hexp] at hm
    exact absurd hm (by decide)

end Timer
