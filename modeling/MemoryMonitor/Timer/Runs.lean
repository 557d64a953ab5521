import MemoryMonitor.Timer.Softirq

/-!
# Timers over whole runs

A run starts with CPUs that have no timers. It ends early only if `kill_timer` is
called in the callback of the timer itself.
-/

namespace Timer

variable {R : Int → Prop} {timerSlop : Int} {w : World}

theorem World.init_inv (h0 : R 0) : Inv R timerSlop World.init := by
  have hplace : World.init.place = fun _ => none := rfl
  refine ⟨⟨fun c => ?_, fun _ => .inl rfl, nofun, fun c => .inr fun t k ht => ?_, fun _ => h0,
    fun _ _ => nofun⟩, fun t c hc => nomatch hc⟩
  · rw [hplace]
    refine ⟨⟨?_, ?_, le_rfl, Nat.zero_lt_one, Nat.two_pow_pos 16⟩, fun t => ?_, .nil, .nil, ?_, .nil,
      ?_⟩
    · intro i hi hin
      change i ≤ 0 at hin
      omega
    · intro i hi hin
      change i ≤ 0 at hin
      omega
    · refine iff_of_false ?_ nofun
      rintro ⟨i, hi, hin, -⟩
      change i ≤ 0 at hin
      omega
    · exact fun t => iff_of_false List.not_mem_nil nofun
    · exact fun t => iff_of_false List.not_mem_nil nofun
  · rw [hplace] at ht
    nomatch ht

/-- Whether timer `x` is in use after the step. -/
def Step.live (x : Tid) : Bool → Step → Bool
  | b, .init t _ => b || x == t
  | b, .kill _ t => b && x != t
  | b, _ => b

/-- Whether the steps have initialised the timer and not killed it since. -/
def live (steps : List Step) (x : Tid) : Bool := steps.foldl (Step.live x) false

/-- The step kills the timer whose callback is running on the CPU. -/
def Step.KillsRunning (s : Step) (w : World) : Prop :=
  ∃ c t, s = .kill c t ∧ (w.ts c).running = some t

theorem Step.run_inv {s : Step} (h : Inv R timerSlop w) (hR : ∀ e, R e → e ≤ stimeMax) (h0 : R 0)
    (hset : ∀ t e, s = .set t e → R e.toInt) :
    (∃ w', s.run timerSlop w = some w' ∧ Inv R timerSlop w' ∧
      ∀ x, (w'.cpu x).isSome = s.live x (w.cpu x).isSome) ∨
    s.run timerSlop w = none ∧ s.KillsRunning w := by
  cases s with
  | init t cpu =>
    refine .inl ?_
    dsimp only [Step.run]
    split
    · next hc =>
      refine ⟨_, rfl, initTimer_inv h hc h0, fun x => ?_⟩
      show (Function.update w.cpu t (some cpu) x).isSome = ((w.cpu x).isSome || x == t)
      by_cases hx : x = t
      · subst hx
        simp
      · simp [hx]
    · next hc =>
      refine ⟨w, rfl, h, fun x => ?_⟩
      show (w.cpu x).isSome = ((w.cpu x).isSome || x == t)
      by_cases hx : x = t
      · subst hx
        simpa [Option.isSome_iff_ne_none] using hc
      · simp [hx]
  | set t e =>
    rcases setTimer_inv h (hset t e rfl) with ⟨w', he, h', hc⟩
    exact .inl ⟨w', he, h', fun x => by rw [hc]; rfl⟩
  | stop t =>
    rcases stopTimer_inv h with ⟨w', he, h', hc⟩
    exact .inl ⟨w', he, h', fun x => by rw [hc]; rfl⟩
  | migrate t newCpu => exact .inl (migrateTimer_inv h)
  | kill c t =>
    by_cases hrun : (w.ts c).running = some t
    · exact .inr ⟨if_pos hrun, c, t, rfl, hrun⟩
    · rcases killTimer_inv h hrun with ⟨w', he, h', hc⟩
      refine .inl ⟨w', he, h', fun x => ?_⟩
      show (w'.cpu x).isSome = ((w.cpu x).isSome && x != t)
      rw [hc]
      by_cases hx : x = t
      · subst hx
        simp
      · simp [hx]
  | softirq c alloc =>
    refine .inl ?_
    dsimp only [Step.run]
    split
    · exact ⟨w, rfl, h, fun _ => rfl⟩
    · split
      · refine ⟨_, rfl, ⟨h.safe.setSoftirq _ fun n hn => ?_, h.settled⟩, fun _ => rfl⟩
        injection hn with hn
        injection hn
      · exact ⟨_, rfl, ⟨h.safe.setSoftirq _ nofun, h.settled⟩, fun _ => rfl⟩
  | next c now reprogrammed =>
    refine .inl ?_
    dsimp only [Step.run]
    split
    · exact ⟨w, rfl, h, fun _ => rfl⟩
    · next p hp =>
      rcases Phase.step_inv h hR hp with ⟨w', he, h', hc⟩
      exact ⟨w', he, h', fun x => by rw [hc]; rfl⟩
  | removeCpu oldCpu newCpu =>
    refine .inl ?_
    dsimp only [Step.run]
    split
    · exact ⟨w, rfl, h, fun _ => rfl⟩
    · next hne =>
      rcases migrateTimersFromCpu_inv h hne with ⟨w', he, h', hc, -⟩
      exact ⟨w', he, h', hc⟩
  | prepareCpu c =>
    refine .inl ?_
    dsimp only [Step.run]
    split
    · next hc => exact ⟨_, rfl, h.prepareCpu hc.1 hc.2.1, fun _ => rfl⟩
    · exact ⟨w, rfl, h, fun _ => rfl⟩

theorem runSteps_inv {steps : List Step} (h : Inv R timerSlop w) (hR : ∀ e, R e → e ≤ stimeMax)
    (h0 : R 0) (hset : ∀ t e, Step.set t e ∈ steps → R e.toInt) :
    (∃ w', runSteps timerSlop steps w = some w' ∧ Inv R timerSlop w' ∧
      ∀ x, (w'.cpu x).isSome = steps.foldl (Step.live x) (w.cpu x).isSome) ∨
    runSteps timerSlop steps w = none ∧ ∃ before s after w', steps = before ++ s :: after ∧
      runSteps timerSlop before w = some w' ∧ s.KillsRunning w' := by
  induction steps generalizing w with
  | nil => exact .inl ⟨w, rfl, h, fun _ => rfl⟩
  | cons s rest ih =>
    have hset₁ (t : Tid) (e : Int64) (hs : s = .set t e) : R e.toInt :=
      hset t e (hs ▸ List.mem_cons_self)
    rcases Step.run_inv h hR h0 hset₁ with ⟨w₁, he, h₁, hlive⟩ | ⟨he, hkill⟩
    · have hcons (l : List Step) : runSteps timerSlop (s :: l) w = runSteps timerSlop l w₁ := by
        unfold runSteps
        rw [he]
        cases l <;> rfl
      rw [hcons]
      rcases ih h₁ fun t e hs => hset t e (List.mem_cons_of_mem _ hs) with
        ⟨w', he', h', hlive'⟩ | ⟨hnone, before, s', after, w', rfl, he', hkill⟩
      · refine .inl ⟨w', he', h', fun x => ?_⟩
        rw [hlive' x, hlive x]
        rfl
      · exact .inr ⟨hnone, s :: before, s', after, w', rfl, (hcons before).trans he', hkill⟩
    · refine .inr ⟨?_, [], s, rest, w, rfl, rfl, hkill⟩
      unfold runSteps
      rw [he]

/-! ## The store -/

/-- Position `i` of a container of CPU `c` holds the timer. -/
def World.At (w : World) (t : Tid) (c : Nat) : Kind → Nat → Prop
  | .heap, i => 1 ≤ i ∧ i ≤ (w.ts c).heap.size ∧ (w.ts c).heap.slot i = t
  | .list, i => (w.ts c).list[i]? = some t
  | .inactive, i => (w.ts c).inactive[i]? = some t

/-- What holds of the timers between any two steps. -/
structure Stored (w : World) : Prop where
  /-- A timer in use is in one place, which its fields name. -/
  one : ∀ t c, w.cpu t = some c → ∃ k i, w.At t c k i ∧ w.status t = k.status ∧
    (k = .heap → i = w.heapOffset t) ∧ ∀ c' k' i', w.At t c' k' i' → c' = c ∧ k' = k ∧ i' = i
  /-- Any other timer is nowhere. -/
  nowhere : ∀ t, w.cpu t = none → ∀ c k i, ¬w.At t c k i
  /-- The parent of each timer expires no later. -/
  heap : ∀ c i, 2 ≤ i → i ≤ (w.ts c).heap.size →
    w.expires ((w.ts c).heap.slot (i / 2)) ≤ w.expires ((w.ts c).heap.slot i)
  size : ∀ c, (w.ts c).heap.size ≤ (w.ts c).heap.limit ∧
    (w.ts c).heap.limit < (w.ts c).heap.slots ∧ (w.ts c).heap.limit < 2 ^ 16
  list : ∀ c, (w.ts c).list.Pairwise fun a b => w.expires a ≤ w.expires b

theorem World.At.place {t : Tid} {c : Nat} {k : Kind} {i : Nat} {p : Place} (hs : Stores w p)
    (h : w.At t c k i) : p t = some (c, k) := by
  cases k with
  | heap => exact ((hs c).heap_mem t).mp ⟨i, h⟩
  | list => exact ((hs c).list_mem t).mp (List.mem_of_getElem? h)
  | inactive => exact ((hs c).inactive_mem t).mp (List.mem_of_getElem? h)

theorem World.exists_at {t : Tid} {c : Nat} {k : Kind} {p : Place} (hs : Stores w p)
    (h : p t = some (c, k)) : ∃ i, w.At t c k i := by
  cases k with
  | heap => exact ((hs c).heap_mem t).mpr h
  | list => exact List.mem_iff_getElem?.mp (((hs c).list_mem t).mpr h)
  | inactive => exact List.mem_iff_getElem?.mp (((hs c).inactive_mem t).mpr h)

/-- A timer is only once in a container. -/
theorem World.At.unique {t : Tid} {c : Nat} {k : Kind} {i j : Nat} {p : Place} (hs : Stores w p)
    (hi : w.At t c k i) (hj : w.At t c k j) : i = j := by
  have hnodup {l : List Tid} (hl : l.Nodup) (hi : l[i]? = some t) (hj : l[j]? = some t) : i = j := by
    have hlt : i < l.length := (List.getElem?_eq_some_iff.mp hi).1
    exact (List.getElem?_inj hlt hl).mp (hi.trans hj.symm)
  cases k with
  | heap => exact (hs c).heap.indexed.inj hi.1 hi.2.1 hj.1 hj.2.1 (hi.2.2.trans hj.2.2.symm)
  | list => exact hnodup (hs c).list_nodup hi hj
  | inactive => exact hnodup (hs c).inactive_nodup hi hj

theorem Inv.stored (h : Inv R timerSlop w) : Stored w := by
  have hs := h.safe.stores
  refine ⟨fun t c hc => ?_, fun t hc c k i hat => ?_, fun c => (hs c).heap.ordered,
    fun c => ⟨(hs c).heap.size_le, (hs c).heap.limit_lt, (hs c).heap.limit_bits⟩,
    fun c => (hs c).sorted⟩
  · rcases h.settled t c hc with ⟨k, hk⟩
    have hplace := World.place_eq_some.mpr ⟨hc, hk⟩
    rcases World.exists_at hs hplace with ⟨i, hi⟩
    refine ⟨k, i, hi, hk, ?_, fun c' k' i' hat => ?_⟩
    · rintro rfl
      have := (hs c).heap.indexed i hi.1 hi.2.1
      rw [hi.2.2] at this
      exact this.symm
    · have hat' := hat.place hs
      rw [hplace] at hat'
      injection hat' with hat'
      injection hat' with hc' hk'
      subst hc' hk'
      exact ⟨rfl, rfl, hat.unique hs hi⟩
  · have hat' := hat.place hs
    rw [World.place_eq_none hc] at hat'
    nomatch hat'

/-- The store is in order after every run, and it has the timers that the steps have
initialised and not killed. -/
theorem runSteps_stored (timerSlop : Int) (steps : List Step) :
    (∃ w, runSteps timerSlop steps .init = some w ∧ Stored w ∧
      ∀ t, (w.cpu t).isSome = live steps t) ∨
    runSteps timerSlop steps .init = none ∧ ∃ before s after w, steps = before ++ s :: after ∧
      runSteps timerSlop before .init = some w ∧ s.KillsRunning w := by
  have h0 : (0 : Int) ≤ stimeMax := by decide
  have hset (e : Int64) : e.toInt ≤ stimeMax := Int.le_of_lt_add_one e.toInt_lt
  rcases runSteps_inv (R := fun e => e ≤ stimeMax) (World.init_inv h0) (fun _ he => he) h0
    fun t e _ => hset e with ⟨w, he, hinv, hlive⟩ | hkill
  · exact .inl ⟨w, he, hinv.stored, hlive⟩
  · exact .inr hkill

/-! ## The deadline -/

/-- The timer is in the heap or in the list of the CPU. -/
def World.Active (w : World) (c : Nat) (t : Tid) : Prop :=
  w.cpu t = some c ∧ activeTimer t w = true

/-- Either the softirq has been raised since its last run, or no timer comes before the
earliest one at that run, and the deadline is that of the earliest. A timer that expires
at `STIME_MAX` has no deadline. -/
def World.Announced (w : World) (timerSlop : Int) (c : Nat) : Prop :=
  w.raised c = true ∨ ∃ m, IsLeast {e | e ∈ w.lastExpires c} m ∧
    (∀ t, w.Active c t → m ≤ w.expires t) ∧
    (if m = stimeMax then w.timerDeadline c = 0
      else w.timerDeadline c = m + timerSlop ∧
        ∀ t, w.Active c t → w.timerDeadline c ≤ w.expires t + timerSlop)

/-- The times for which a deadline can be computed. -/
def InRange (timerSlop : Int) (e : Int) : Prop := -2 ^ 63 ≤ e ∧ e ≤ stimeMax - timerSlop

theorem addTime_of_inRange {e : Int} (hslop : 0 ≤ timerSlop) (h : InRange timerSlop e) :
    addTime e timerSlop = e + timerSlop := by
  unfold InRange stimeMax at h
  unfold addTime
  rw [Int.bmod_eq_of_le (by omega) (by omega)]

theorem Inv.announced {c : Nat} {t : Tid} (h : Inv (InRange timerSlop) timerSlop w)
    (hslop : 0 ≤ timerSlop) (ht : w.Active c t) : w.Announced timerSlop c := by
  have hactive {x : Tid} (hx : w.Active c x) :
      ∃ k : Kind, w.place x = some (c, k) ∧ k.Active := by
    rcases h.inactive_or_active hx.1 with ⟨-, ha⟩ | ⟨k, hk, hs, -⟩
    · rw [hx.2] at ha
      nomatch ha
    · exact ⟨k, World.place_eq_some.mpr ⟨hx.1, hs⟩, hk⟩
  refine (h.safe.announced c).imp_right fun hcov => ?_
  rcases hactive ht with ⟨k, hp, hk⟩
  rcases hcov t k hp hk with ⟨m, hm, hdl, -⟩
  have hearliest (x : Tid) (hx : w.Active c x) : m ≤ w.expires x := by
    rcases hactive hx with ⟨k', hp', hk'⟩
    rcases hcov x k' hp' hk' with ⟨m', hm', -, hle⟩
    rwa [hm.unique hm']
  refine ⟨m, hm, hearliest, ?_⟩
  split
  · next hmax =>
    rw [if_pos hmax] at hdl
    exact hdl
  · next hmax =>
    rw [if_neg hmax, addTime_of_inRange hslop (h.safe.lastExpires c m hm.1)] at hdl
    refine ⟨hdl, fun x hx => ?_⟩
    rw [hdl]
    exact Int.add_le_add_right (hearliest x hx) _

/-- No timer is missed. -/
theorem runSteps_announced (timerSlop : UInt32) (steps : List Step) (c : Nat) (t : Tid) (w : World)
    (hset : ∀ t e, Step.set t e ∈ steps → e.toInt ≤ stimeMax - timerSlop.toNat)
    (hw : runSteps timerSlop.toNat steps .init = some w) (ht : w.Active c t) :
    w.Announced timerSlop.toNat c := by
  have hslop := timerSlop.toNat_lt
  have h0 : InRange timerSlop.toNat 0 := by
    unfold InRange stimeMax
    omega
  have hR (e : Int) (he : InRange timerSlop.toNat e) : e ≤ stimeMax := by
    have := he.2
    omega
  rcases runSteps_inv (World.init_inv h0) hR h0 fun t e hs => ⟨e.le_toInt, hset t e hs⟩ with
    ⟨w', he, h, -⟩ | ⟨hnone, -⟩
  · rw [hw] at he
    injection he with he
    subst he
    exact h.announced (by omega) ht
  · rw [hw] at hnone
    nomatch hnone

/-- One timer, and one run of the softirq. -/
def oneTimer (e : Int64) : List Step := [.init 0 0, .set 0 e, .softirq 0 false, .next 0 0 true]

theorem runSteps_announced_oneTimer :
    ∃ w, runSteps 50000 (oneTimer 70000) .init = some w ∧ w.Active 0 0 ∧ w.Announced 50000 0 := by
  have hset (t : Tid) (e : Int64) (h : Step.set t e ∈ oneTimer 70000) :
      e.toInt ≤ stimeMax - (50000 : UInt32).toNat := by
    have he : t = 0 ∧ e = 70000 := by simpa [oneTimer] using h
    rw [he.2]
    decide
  have hactive : (runSteps 50000 (oneTimer 70000) .init).map (fun w => (w.cpu 0, activeTimer 0 w))
      = some (some 0, true) := by decide
  rcases Option.map_eq_some_iff.mp hactive with ⟨w, hw, he⟩
  injection he with hc ha
  exact ⟨w, hw, ⟨hc, ha⟩, runSteps_announced 50000 _ 0 0 w hset hw ⟨hc, ha⟩⟩

/-- With `timer_slop=0` a timer may be set to `STIME_MAX`, and then has no deadline. -/
theorem stimeMax_no_deadline :
    ∃ w, runSteps 0 (oneTimer .maxValue) .init = some w ∧ Int64.maxValue.toInt ≤ stimeMax - 0 ∧
      w.Active 0 0 ∧ ¬(w.raised 0 = true ∨ ∃ m, IsLeast {e | e ∈ w.lastExpires 0} m ∧
        w.timerDeadline 0 = m + 0 ∧ ∀ t, w.Active 0 t → w.timerDeadline 0 ≤ w.expires t + 0) := by
  have hrun : (runSteps 0 (oneTimer .maxValue) .init).map (fun w =>
      ((w.cpu 0, activeTimer 0 w), w.raised 0, w.timerDeadline 0, w.lastExpires 0))
      = some ((some 0, true), false, 0, [stimeMax]) := by decide
  rcases Option.map_eq_some_iff.mp hrun with ⟨w, hw, he⟩
  simp only [Prod.mk.injEq] at he
  rcases he with ⟨⟨hc, ha⟩, hr, hd, hl⟩
  refine ⟨w, hw, by decide, ⟨hc, ha⟩, ?_⟩
  rintro (h | ⟨m, hm, hdm, -⟩)
  · rw [hr] at h
    nomatch h
  · have hmem : m ∈ w.lastExpires 0 := hm.1
    rw [hl, List.mem_singleton] at hmem
    rw [hd, hmem] at hdm
    exact absurd hdm (by decide)

end Timer
