import Mathlib
import MemoryMonitor.Lib.Runs

/-!
# The credit scheduler: the run queues

The run queues of `xen/common/sched_credit.c`. Each CPU has a list of the vCPUs that wait for it, which
is ordered by priority. A vCPU that is woken or descheduled is inserted by its priority, a CPU that has
nothing better to do takes one from the queue of another CPU, and the idle vCPU of a CPU, which has the
lowest priority, waits in its queue whenever another vCPU runs.

A call is one step: the queue of a CPU is only changed under its schedule lock. A `BUG_ON` that is hit,
and a list head that is taken for a vCPU, set `bug`.
-/

namespace Sched.RunQueue

/-- `CSCHED_PRI_TS_BOOST`. -/
def priBoost : Int := 0
/-- `CSCHED_PRI_TS_UNDER`. -/
def priUnder : Int := -1
/-- `CSCHED_PRI_TS_OVER`. -/
def priOver : Int := -2
/-- `CSCHED_PRI_IDLE`. -/
def priIdle : Int := -64

/-- The idle vCPU of a CPU, or a vCPU of a domain. -/
inductive Vcpu (C G : Type) where
  | idle (c : C)
  | guest (g : G)
  deriving DecidableEq

def Vcpu.isIdle {C G : Type} : Vcpu C G → Bool
  | .idle _ => true
  | .guest _ => false

structure State (C G : Type) where
  runq : C → List (Vcpu C G)
  pri : Vcpu C G → Int
  /-- `CSCHED_FLAG_VCPU_YIELD` -/
  yield : Vcpu C G → Bool
  processor : Vcpu C G → C
  curr : C → Vcpu C G
  isRunning : Vcpu C G → Bool
  /-- `vcpu_runnable`, which others change at any time -/
  runnable : Vcpu C G → Bool
  bug : Bool

namespace State

variable {C G : Type} [DecidableEq C] [DecidableEq G] [Fintype C] (s : State C G)

/-- `BUG_ON`. -/
def bugOn (p : Prop) [Decidable p] : State C G := { s with bug := s.bug || decide p }

/-- `__vcpu_on_runq`. -/
def OnRunq (v : Vcpu C G) : Prop := ∃ c, v ∈ s.runq c

instance (v : Vcpu C G) : Decidable (s.OnRunq v) := inferInstanceAs (Decidable (∃ c, v ∈ s.runq c))

/-- The place before the first vCPU of a lower priority. -/
def place (c : C) (v : Vcpu C G) : Nat := (s.runq c).findIdx fun w => decide (s.pri w < s.pri v)

/-- A vCPU that yields goes behind the vCPU at its place, unless that is the idle one. -/
def yieldsTo (c : C) (v : Vcpu C G) : Bool :=
  s.yield v && match (s.runq c)[s.place c v]? with
    | some w => decide (priIdle < s.pri w)
    | none => false

/-- `__runq_insert`. With the flag set, the element at the place is read, and `BUG_ON` checks the one
behind it. -/
def runqInsert (c : C) (v : Vcpu C G) : State C G :=
  let s := s.bugOn (s.OnRunq v)
  let s := s.bugOn (c ≠ s.processor v)
  let s := s.bugOn (s.yield v = true ∧ s.place c v = (s.runq c).length)
  let s := s.bugOn (s.yieldsTo c v = true ∧ s.place c v + 1 = (s.runq c).length)
  let i := if s.yieldsTo c v then s.place c v + 1 else s.place c v
  { s with runq := Function.update s.runq c ((s.runq c).insertIdx i v) }

/-- `__runq_remove`. -/
def runqRemove (v : Vcpu C G) : State C G :=
  let s := s.bugOn (¬ s.OnRunq v)
  { s with runq := fun c => (s.runq c).erase v }

/-- `csched_vcpu_insert`. -/
def vcpuInsert (v : Vcpu C G) : State C G :=
  if ¬ s.OnRunq v ∧ s.runnable v = true ∧ s.isRunning v = false then s.runqInsert (s.processor v) v else s

/-- `csched_vcpu_remove`, as far as it is about the queues. -/
def vcpuRemove (g : G) : State C G := if s.OnRunq (.guest g) then s.runqRemove (.guest g) else s

/-- `csched_vcpu_sleep`. -/
def vcpuSleep (g : G) : State C G :=
  if s.curr (s.processor (.guest g)) = .guest g then s
  else if s.OnRunq (.guest g) then s.runqRemove (.guest g)
  else s

/-- `csched_vcpu_wake`; `parked` is the flag of a vCPU that the scheduler has paused. -/
def vcpuWake (g : G) (parked : Bool) : State C G :=
  if s.curr (s.processor (.guest g)) = .guest g then s
  else if s.OnRunq (.guest g) then s
  else
    let s := if s.pri (.guest g) = priUnder ∧ parked = false
      then { s with pri := Function.update s.pri (.guest g) priBoost } else s
    s.runqInsert (s.processor (.guest g)) (.guest g)

/-- `csched_vcpu_yield`, called for the current vCPU; `byDefault` is `sched_credit_default_yield`. -/
def vcpuYield (c : C) (byDefault : Bool) : State C G :=
  if byDefault = false then { s with yield := Function.update s.yield (s.curr c) true } else s

/-- The loop of `csched_runq_sort`: the queue is `unders`, then `others`, then what is to come. -/
def sortLoop (pri : Vcpu C G → Int) (unders others : List (Vcpu C G)) : List (Vcpu C G) → List (Vcpu C G)
  | [] => unders ++ others
  | elem :: next =>
    if priUnder ≤ pri elem then sortLoop pri (unders ++ [elem]) others next
    else sortLoop pri unders (others ++ [elem]) next

/-- `csched_runq_sort`. -/
def runqSort (c : C) : State C G := { s with runq := Function.update s.runq c (sortLoop s.pri [] [] (s.runq c)) }

/-- The walk of `csched_runq_steal`: whether the `BUG_ON` is hit, and the vCPU that is taken. `suits` is
what `__csched_vcpu_is_migrateable` says of the caches and of the affinity. -/
def stealWalk (pri : Int) (suits : Vcpu C G → Bool) : List (Vcpu C G) → Bool × Option (Vcpu C G)
  | [] => (false, none)
  | v :: next =>
    if s.pri v ≤ pri then (false, none)
    else if v.isIdle then (true, none)
    else if s.isRunning v = false ∧ suits v = true then (false, some v)
    else stealWalk pri suits next

/-- `csched_runq_steal`. -/
def runqSteal (peer cpu : C) (pri : Int) (suits : Vcpu C G → Bool) : State C G × Option (Vcpu C G) :=
  if (s.curr peer).isIdle then (s, none)
  else
    let s' := s.bugOn ((s.stealWalk pri suits (s.runq peer)).1 = true)
    match (s.stealWalk pri suits (s.runq peer)).2 with
    | none => (s', none)
    | some v =>
      let s' := s'.runqRemove v
      ({ s' with processor := Function.update s'.processor v cpu }, some v)

/-- The loop of `csched_load_balance` over the CPUs whose lock it gets and that are online. -/
def stealFrom (cpu : C) (pri : Int) (suits : Vcpu C G → Bool) :
    List C → State C G → State C G × Option (Vcpu C G)
  | [], s => (s, none)
  | peer :: workers, s =>
    match s.runqSteal peer cpu pri suits with
    | (s, some v) => (s, some v)
    | (s, none) => stealFrom cpu pri suits workers s

/-- `csched_load_balance`: the state and the vCPU to run. -/
def loadBalance (cpu : C) (snext : Vcpu C G) (workers : List C) (suits : Vcpu C G → Bool) :
    State C G × Vcpu C G :=
  let s := s.bugOn (cpu ≠ s.processor snext)
  match stealFrom cpu (s.pri snext) suits workers s with
  | (s, some v) => (s, v)
  | (s, none) => (s.runqRemove snext, snext)

/-- The first part of `csched_schedule`: the current vCPU goes back to the queue. -/
def putBack (c : C) : State C G :=
  let scurr := s.curr c
  let s := if scurr.isIdle then { s with pri := Function.update s.pri scurr priIdle } else s
  if s.runnable scurr then s.runqInsert c scurr
  else s.bugOn (scurr.isIdle = true ∨ s.runq c = [])

/-- The rest of `csched_schedule`, with `snext` from the head of the queue. -/
def pickNext (c : C) (taskletWork : Bool) (workers : List C) (suits : Vcpu C G → Bool)
    (snext : Vcpu C G) : State C G × Vcpu C G :=
  let scurr := s.curr c
  let snext := if taskletWork then .idle c else snext
  let s := if taskletWork then { s with pri := Function.update s.pri (.idle c) priBoost } else s
  let s := { s with yield := Function.update s.yield scurr false }
  if priOver < s.pri snext then (s.runqRemove snext, snext) else s.loadBalance c snext workers suits

/-- `schedule()`: the vCPU that `csched_schedule` decides for becomes the current one. -/
def schedule (c : C) (taskletWork : Bool) (workers : List C) (suits : Vcpu C G → Bool) : State C G :=
  let s := s.putBack c
  match s.runq c with
  -- the list head would be taken for a vCPU
  | [] => { s with bug := true }
  | snext :: _ =>
    let r := s.pickNext c taskletWork workers suits snext
    { r.1 with
      curr := Function.update r.1.curr c r.2
      isRunning := Function.update r.1.isRunning r.2 true }

/-- `context_saved` of a vCPU that has been descheduled. -/
def contextSaved (v : Vcpu C G) : State C G := { s with isRunning := Function.update s.isRunning v false }

end State

inductive Step (C G : Type) where
  | insert (v : Vcpu C G)
  | remove (g : G)
  | sleep (g : G)
  | wake (g : G) (parked : Bool)
  | yield (c : C) (byDefault : Bool)
  | schedule (c : C) (taskletWork : Bool) (workers : List C) (suits : Vcpu C G → Bool)
  | sort (c : C)
  | contextSaved (v : Vcpu C G)
  /-- The pause flags of a vCPU change. -/
  | pause (g : G) (runnable : Bool)
  /-- The priority of a vCPU changes as it gets and uses up credits. -/
  | account (g : G) (pri : Int)
  /-- A vCPU that is neither queued nor current is given another CPU. -/
  | move (g : G) (c : C)

variable {C G : Type} [DecidableEq C] [DecidableEq G] [Fintype C]

open State

def act (step : Step C G) (s : State C G) : State C G :=
  match step with
  | .insert v => s.vcpuInsert v
  | .remove g => s.vcpuRemove g
  | .sleep g => s.vcpuSleep g
  | .wake g parked => s.vcpuWake g parked
  | .yield c byDefault => s.vcpuYield c byDefault
  | .schedule c taskletWork workers suits => s.schedule c taskletWork workers suits
  | .sort c => s.runqSort c
  | .contextSaved v => s.contextSaved v
  | .pause g runnable => { s with runnable := Function.update s.runnable (.guest g) runnable }
  | .account g pri => { s with pri := Function.update s.pri (.guest g) pri }
  | .move g c => { s with processor := Function.update s.processor (.guest g) c }

/-- How the callers call. -/
def Called (step : Step C G) (s : State C G) : Prop :=
  match step with
  -- `do_yield` is a hypercall
  | .yield c _ => (s.curr c).isIdle = false
  -- `context_switch` saves the vCPU that has been running before
  | .contextSaved v => ∀ c, s.curr c ≠ v
  | .account _ pri => priIdle < pri
  | .move g _ => ¬ s.OnRunq (.guest g) ∧ ∀ c, s.curr c ≠ .guest g
  | _ => True

instance : ∀ (step : Step C G) (s : State C G), Decidable (Called step s)
  | .yield _ _, _ => inferInstanceAs (Decidable (_ = _))
  | .contextSaved _, _ => inferInstanceAs (Decidable (∀ _, _))
  | .account _ _, _ => inferInstanceAs (Decidable (_ < _))
  | .move _ _, _ => inferInstanceAs (Decidable (_ ∧ _))
  | .insert _, _ => isTrue trivial
  | .remove _, _ => isTrue trivial
  | .sleep _, _ => isTrue trivial
  | .wake _ _, _ => isTrue trivial
  | .schedule _ _ _ _, _ => isTrue trivial
  | .sort _, _ => isTrue trivial
  | .pause _ _, _ => isTrue trivial

/-- All CPUs idle, with empty queues. -/
def init (processor : G → C) : State C G where
  runq := fun _ => []
  pri := fun
    | .idle _ => priIdle
    | .guest _ => priUnder
  yield := fun _ => false
  processor := fun
    | .idle c => c
    | .guest g => processor g
  curr := fun c => .idle c
  isRunning := Vcpu.isIdle
  runnable := Vcpu.isIdle
  bug := false

/-! ## The invariant -/

namespace State

variable {s : State C G} {x : Option C} {c : C} {v : Vcpu C G} {g : G}

omit [DecidableEq C] [DecidableEq G] [Fintype C] in
theorem guest_ne_idle (g : G) (c : C) : (Vcpu.guest g : Vcpu C G) ≠ .idle c := nofun

/-- Who is where. `x` is a CPU that is about to choose, whose current vCPU may be in the queue already. -/
structure Inv (x : Option C) (s : State C G) : Prop where
  noBug : s.bug = false
  nodup : ∀ c, (s.runq c).Nodup
  home : ∀ c, ∀ v ∈ s.runq c, s.processor v = c
  idleHome : ∀ c, s.processor (.idle c) = c
  idleRuns : ∀ c, s.runnable (.idle c) = true
  guestPri : ∀ g, priIdle < s.pri (.guest g)
  current : ∀ c, s.processor (s.curr c) = c
  running : ∀ c, s.isRunning (s.curr c) = true
  apart : ∀ c, x ≠ some c → s.curr c ∉ s.runq c
  idleLast : ∀ c, x = some c ∨ s.curr c ≠ .idle c → ∃ l, s.runq c = l ++ [.idle c]
  idlePri : ∀ c, .idle c ∈ s.runq c → s.pri (.idle c) = priIdle
  yields : ∀ v, s.yield v = true → v.isIdle = false ∧ ∃ c, s.curr c = v

omit [DecidableEq C] [DecidableEq G] [Fintype C] in
theorem bugOn_false (s : State C G) {p : Prop} [Decidable p] (h : ¬ p) : s.bugOn p = s := by
  unfold bugOn
  rw [decide_eq_false h, Bool.or_false]

theorem bugOn_not (s : State C G) {p : Prop} [Decidable p] (h : p) : s.bugOn (¬ p) = s :=
  bugOn_false s (not_not_intro h)

section

omit [DecidableEq C] [DecidableEq G] [Fintype C]

theorem Inv.onRunq_iff (hs : s.Inv x) : s.OnRunq v ↔ v ∈ s.runq (s.processor v) := by
  constructor
  · rintro ⟨c, hc⟩
    rw [hs.home c v hc]
    exact hc
  · exact fun h => ⟨_, h⟩

/-- The idle vCPU in a queue is that of the CPU. -/
theorem Inv.idle_eq (hs : s.Inv x) {c' : C} (h : .idle c' ∈ s.runq c) : c' = c := by
  rw [← hs.home c _ h, hs.idleHome]

end

/-- The current vCPU of a CPU is not in any queue. -/
theorem Inv.current_off (hs : s.Inv none) (c : C) : ¬ s.OnRunq (s.curr c) := by
  rw [hs.onRunq_iff, hs.current]
  exact hs.apart c (by simp)

omit [DecidableEq C] [DecidableEq G] [Fintype C] in
theorem Inv.curr_eq (hs : s.Inv x) (h : s.curr c = v) : s.processor v = c := by
  rw [← h]
  exact hs.current c

/-! ### Insertion -/

section

omit [DecidableEq C] [DecidableEq G] [Fintype C]

theorem place_le (s : State C G) (c : C) (v : Vcpu C G) : s.place c v ≤ (s.runq c).length :=
  List.findIdx_le_length

theorem Inv.place_lt (hs : s.Inv x) {l : List (Vcpu C G)} (hl : s.runq c = l ++ [.idle c]) (g : G) :
    s.place c (.guest g) ≤ l.length := by
  have hpri : s.pri (.idle c) = priIdle := hs.idlePri c (by rw [hl]; simp)
  have hlt : s.place c (.guest g) < (s.runq c).length := by
    apply List.findIdx_lt_length_of_exists
    refine ⟨.idle c, by rw [hl]; simp, ?_⟩
    rw [hpri]
    exact decide_eq_true (hs.guestPri g)
  rw [hl, List.length_append, List.length_singleton] at hlt
  omega

end

theorem Inv.yieldsTo_lt (hs : s.Inv x) {l : List (Vcpu C G)} (hl : s.runq c = l ++ [.idle c]) (g : G)
    (h : s.yieldsTo c (.guest g) = true) : s.place c (.guest g) < l.length := by
  have hle := hs.place_lt hl g
  by_contra hge
  have hplace : s.place c (.guest g) = l.length := by omega
  have hpri : s.pri (.idle c) = priIdle := hs.idlePri c (by rw [hl]; simp)
  -- the element at the place is the idle vCPU
  unfold yieldsTo at h
  rw [hplace, hl, List.getElem?_append_right le_rfl, Nat.sub_self] at h
  simp only [List.getElem?_cons_zero, hpri, lt_irrefl, decide_false, Bool.and_false] at h
  cases h

/-- What an insertion does to the queue. -/
structure Inserted (c : C) (v : Vcpu C G) (s s' : State C G) : Prop where
  same : s' = { s with runq := s'.runq }
  other : ∀ c', c' ≠ c → s'.runq c' = s.runq c'
  perm : List.Perm (s'.runq c) (v :: s.runq c)
  last : ∀ l, s.runq c = l ++ [.idle c] → ∃ l', s'.runq c = l' ++ [.idle c]

theorem insertIdx_append {α : Type} (a b : α) {l : List α} {i : Nat} (h : i ≤ l.length) :
    (l ++ [b]).insertIdx i a = l.insertIdx i a ++ [b] := by
  induction l generalizing i with
  | nil =>
    obtain rfl : i = 0 := by simpa using h
    rfl
  | cons d l ih =>
    cases i with
    | zero => rfl
    | succ i =>
      simp only [List.cons_append, List.insertIdx_succ_cons]
      rw [ih (by simpa using h)]

/-- A vCPU of a domain is inserted; it only yields where the idle vCPU is in the queue. -/
theorem Inv.inserted_guest (hs : s.Inv x) (hoff : ¬ s.OnRunq (.guest g)) (hc : s.processor (.guest g) = c)
    (hyield : s.yield (.guest g) = true → ∃ l, s.runq c = l ++ [.idle c]) :
    Inserted c (.guest g) s (s.runqInsert c (.guest g)) := by
  have hhead : ¬ (s.yield (.guest g) = true ∧ s.place c (.guest g) = (s.runq c).length) := by
    rintro ⟨hy, hplace⟩
    obtain ⟨l, hl⟩ := hyield hy
    have hle := hs.place_lt hl g
    rw [hplace, hl, List.length_append, List.length_singleton] at hle
    omega
  have hbehind : ¬ (s.yieldsTo c (.guest g) = true ∧ s.place c (.guest g) + 1 = (s.runq c).length) := by
    rintro ⟨hy, hplace⟩
    obtain ⟨l, hl⟩ := hyield (by unfold yieldsTo at hy; exact (Bool.and_eq_true_iff.mp hy).1)
    have hlt := hs.yieldsTo_lt hl g hy
    rw [hl, List.length_append, List.length_singleton] at hplace
    omega
  have hle : (if s.yieldsTo c (.guest g) then s.place c (.guest g) + 1 else s.place c (.guest g)) ≤
      (s.runq c).length := by
    split
    · next hy =>
      have := place_le s c (.guest g)
      obtain ⟨l, hl⟩ := hyield (by unfold yieldsTo at hy; exact (Bool.and_eq_true_iff.mp hy).1)
      have hlt := hs.yieldsTo_lt hl g hy
      rw [hl, List.length_append, List.length_singleton]
      omega
    · exact place_le s c _
  unfold runqInsert
  simp only [bugOn_false s hoff, bugOn_not s hc.symm, bugOn_false s hhead, bugOn_false s hbehind]
  refine ⟨rfl, fun c' hne => Function.update_of_ne hne .., ?_, ?_⟩
  · dsimp only
    rw [Function.update_self]
    exact List.perm_insertIdx _ _ hle
  · intro l hl
    dsimp only
    rw [Function.update_self, hl]
    refine ⟨_, insertIdx_append _ _ ?_⟩
    split
    · next hy =>
      have hlt := hs.yieldsTo_lt hl g hy
      omega
    · exact hs.place_lt hl g

/-- The idle vCPU is inserted behind all others. -/
theorem Inv.inserted_idle (hs : s.Inv x) (hoff : ¬ s.OnRunq (.idle c)) (hpri : s.pri (.idle c) = priIdle) :
    s.runqInsert c (.idle c) = { s with runq := Function.update s.runq c (s.runq c ++ [.idle c]) } := by
  have hyield : ¬ s.yield (.idle c) = true := fun h => by cases (hs.yields _ h).1
  have hplace : s.place c (.idle c) = (s.runq c).length := by
    apply List.findIdx_eq_length.mpr
    intro w hw
    apply decide_eq_false
    rw [hpri]
    cases w with
    | idle c' =>
      rw [hs.idle_eq hw] at hw
      exact absurd ⟨c, hw⟩ hoff
    | guest g =>
      have hlt := hs.guestPri g
      omega
  have hto : s.yieldsTo c (.idle c) = false := by
    unfold yieldsTo
    rw [Bool.and_eq_false_iff]
    exact .inl (by simpa using hyield)
  unfold runqInsert
  simp only [bugOn_false s hoff, bugOn_not s (hs.idleHome c).symm,
    bugOn_false s (fun h : s.yield (.idle c) = true ∧ _ => hyield h.1), hto, hplace]
  rw [bugOn_false s (by simp), if_neg (by simp [hto]), hplace, List.insertIdx_length_self]

omit [DecidableEq G] [Fintype C] in
/-- A queue with one more vCPU, which is at home there. -/
theorem Inserted.inv {s' : State C G} (h : Inserted c v s s') {y : Option C} (hs : s.Inv x)
    (hoff : ¬ s.OnRunq v) (hc : s.processor v = c) (hpri : ∀ c', v = .idle c' → s.pri v = priIdle)
    (hapart : ∀ c', y ≠ some c' → s.curr c' ≠ v ∧ x ≠ some c')
    (hlast : ∀ c', y = some c' ∨ s.curr c' ≠ .idle c' →
      (c' = c ∧ ∃ l, s'.runq c = l ++ [.idle c]) ∨ x = some c' ∨ s.curr c' ≠ .idle c') : s'.Inv y := by
  have hmem : ∀ c' w, w ∈ s'.runq c' → w ∈ s.runq c' ∨ c' = c ∧ w = v := by
    intro c' w hw
    by_cases hc' : c' = c
    · subst hc'
      rcases List.mem_cons.mp (h.perm.mem_iff.mp hw) with rfl | hw
      · exact .inr ⟨rfl, rfl⟩
      · exact .inl hw
    · rw [h.other c' hc'] at hw
      exact .inl hw
  rw [h.same]
  constructor
  · exact hs.noBug
  · intro c'
    by_cases hc' : c' = c
    · subst hc'
      exact h.perm.symm.nodup (List.nodup_cons.mpr ⟨fun hv => hoff ⟨_, hv⟩, hs.nodup _⟩)
    · rw [h.other c' hc']
      exact hs.nodup c'
  · intro c' w hw
    rcases hmem c' w hw with hw | ⟨rfl, rfl⟩
    · exact hs.home c' w hw
    · exact hc
  · exact hs.idleHome
  · exact hs.idleRuns
  · exact hs.guestPri
  · exact hs.current
  · exact hs.running
  · intro c' hne hw
    obtain ⟨hcurr, hx⟩ := hapart c' hne
    rcases hmem c' _ hw with hw | ⟨-, hw⟩
    · exact hs.apart c' hx hw
    · exact hcurr hw
  · intro c' hc'
    rcases hlast c' hc' with ⟨rfl, l, hl⟩ | hold
    · exact ⟨l, hl⟩
    · obtain ⟨l, hl⟩ := hs.idleLast c' hold
      by_cases heq : c' = c
      · subst heq
        exact h.last l hl
      · exact ⟨l, by rw [← hl]; exact h.other c' heq⟩
  · intro c' hw
    rcases hmem c' _ hw with hw | ⟨-, hw⟩
    · exact hs.idlePri c' hw
    · rw [hw]
      exact hpri c' hw.symm
  · exact hs.yields

/-! ### Removal -/

theorem runqRemove_eq (s : State C G) (h : s.OnRunq v) :
    s.runqRemove v = { s with runq := fun c => (s.runq c).erase v } := by
  unfold runqRemove
  simp only [bugOn_not s h]

omit [Fintype C] in
theorem erase_append_idle {l : List (Vcpu C G)} (hne : v ≠ .idle c) :
    (l ++ [Vcpu.idle c]).erase v = l.erase v ++ [Vcpu.idle c] := by
  by_cases hv : v ∈ l
  · exact List.erase_append_left _ hv
  · have hlast : v ∉ [Vcpu.idle c] := by simpa using hne
    rw [List.erase_append_right _ hv, List.erase_of_not_mem hv, List.erase_of_not_mem hlast]

/-- A vCPU of a domain leaves its queue. -/
theorem Inv.runqRemove (hs : s.Inv x) (h : s.OnRunq (.guest g)) : (s.runqRemove (.guest g)).Inv x := by
  rw [runqRemove_eq s h]
  have hmem : ∀ {c w}, w ∈ (s.runq c).erase (.guest g) → w ∈ s.runq c := fun hw => List.mem_of_mem_erase hw
  constructor
  · exact hs.noBug
  · exact fun c => (hs.nodup c).erase _
  · exact fun c w hw => hs.home c w (hmem hw)
  · exact hs.idleHome
  · exact hs.idleRuns
  · exact hs.guestPri
  · exact hs.current
  · exact hs.running
  · exact fun c hne hw => hs.apart c hne (hmem hw)
  · intro c hc
    obtain ⟨l, hl⟩ := hs.idleLast c hc
    refine ⟨l.erase (.guest g), ?_⟩
    dsimp only
    rw [hl]
    exact erase_append_idle (guest_ne_idle g c)
  · exact fun c hw => hs.idlePri c (hmem hw)
  · exact hs.yields

/-! ### The calls of the callers -/

omit [DecidableEq C] [DecidableEq G] [Fintype C] in
/-- Only the queues, the CPUs and the flags count; a change elsewhere changes nothing. -/
theorem Inv.congr {s' : State C G} (hs : s.Inv x) (hrunq : s'.runq = s.runq) (hbug : s'.bug = s.bug)
    (hprocessor : ∀ v, s.OnRunq v ∨ (∃ c, s.curr c = v) ∨ v.isIdle = true → s'.processor v = s.processor v)
    (hcurr : s'.curr = s.curr) (hruns : ∀ c, s'.runnable (.idle c) = s.runnable (.idle c))
    (hidle : ∀ c, s'.pri (.idle c) = s.pri (.idle c)) (hguest : ∀ g, priIdle < s'.pri (.guest g))
    (hrunning : ∀ c, s'.isRunning (s.curr c) = s.isRunning (s.curr c))
    (hyield : ∀ v, s'.yield v = true → s.yield v = true ∨ v.isIdle = false ∧ ∃ c, s.curr c = v) :
    s'.Inv x := by
  constructor
  · rw [hbug]
    exact hs.noBug
  · rw [hrunq]
    exact hs.nodup
  · intro c v hv
    rw [hrunq] at hv
    rw [hprocessor v (.inl ⟨c, hv⟩)]
    exact hs.home c v hv
  · intro c
    rw [hprocessor _ (.inr (.inr rfl))]
    exact hs.idleHome c
  · intro c
    rw [hruns]
    exact hs.idleRuns c
  · exact hguest
  · intro c
    rw [hcurr, hprocessor _ (.inr (.inl ⟨c, rfl⟩))]
    exact hs.current c
  · intro c
    rw [hcurr, hrunning]
    exact hs.running c
  · rw [hcurr, hrunq]
    exact hs.apart
  · rw [hcurr, hrunq]
    exact hs.idleLast
  · intro c hc
    rw [hrunq] at hc
    rw [hidle]
    exact hs.idlePri c hc
  · intro v hv
    rw [hcurr]
    exact (hyield v hv).elim (hs.yields v) id

/-- A vCPU of a domain that is off the queues and not current is put into a queue. -/
theorem Inv.runqInsert (hs : s.Inv none) (hoff : ¬ s.OnRunq (.guest g)) (hcurr : ∀ c, s.curr c ≠ .guest g) :
    (s.runqInsert (s.processor (.guest g)) (.guest g)).Inv none := by
  have hyield : s.yield (.guest g) = true → ∃ l, s.runq (s.processor (.guest g)) = l ++
      [.idle (s.processor (.guest g))] := by
    intro hy
    obtain ⟨-, c, hc⟩ := hs.yields _ hy
    exact absurd hc (hcurr c)
  exact (hs.inserted_guest hoff rfl hyield).inv hs hoff rfl (fun _ h => by cases h)
    (fun c' _ => ⟨hcurr c', by simp⟩) fun _ h => .inr h

/-- A vCPU that is current is so on its own CPU. -/
theorem Inv.not_current (hs : s.Inv x) (h : s.curr (s.processor v) ≠ v) (c : C) : s.curr c ≠ v := by
  intro hc
  apply h
  rw [hs.curr_eq hc]
  exact hc

theorem Inv.vcpuInsert (hs : s.Inv none) (v : Vcpu C G) : (s.vcpuInsert v).Inv none := by
  unfold State.vcpuInsert
  split
  · next h =>
    obtain ⟨hoff, -, hrun⟩ := h
    have hcurr : ∀ c, s.curr c ≠ v := by
      rintro c rfl
      rw [hs.running c] at hrun
      cases hrun
    cases v with
    | guest g => exact hs.runqInsert hoff hcurr
    | idle c =>
      -- an idle vCPU that is not current is in its queue
      obtain ⟨l, hl⟩ := hs.idleLast c (.inr (hcurr c))
      exact absurd ⟨c, by rw [hl]; simp⟩ hoff
  · exact hs

theorem Inv.vcpuRemove (hs : s.Inv x) (g : G) : (s.vcpuRemove g).Inv x := by
  unfold State.vcpuRemove
  split
  · next h => exact hs.runqRemove h
  · exact hs

theorem Inv.vcpuSleep (hs : s.Inv x) (g : G) : (s.vcpuSleep g).Inv x := by
  unfold State.vcpuSleep
  split
  · exact hs
  · split
    · next h => exact hs.runqRemove h
    · exact hs

theorem Inv.vcpuWake (hs : s.Inv none) (g : G) (parked : Bool) : (s.vcpuWake g parked).Inv none := by
  unfold State.vcpuWake
  split
  · exact hs
  · next hcurr =>
    split
    · exact hs
    · next hoff =>
      split
      · have hboost : Inv none { s with pri := Function.update s.pri (.guest g) priBoost } := by
          refine hs.congr rfl rfl (fun _ _ => rfl) rfl (fun _ => rfl) (fun c => ?_) (fun g' => ?_)
            (fun _ => rfl) fun _ => .inl
          · dsimp only
            rw [Function.update_of_ne (guest_ne_idle g c).symm]
          by_cases hg : g' = g
          · subst hg
            dsimp only
            rw [Function.update_self]
            decide
          · dsimp only
            rw [Function.update_of_ne (by simpa using hg)]
            exact hs.guestPri g'
        exact hboost.runqInsert hoff (hs.not_current hcurr)
      · exact hs.runqInsert hoff (hs.not_current hcurr)

theorem Inv.vcpuYield (hs : s.Inv x) (hc : (s.curr c).isIdle = false) (byDefault : Bool) :
    (s.vcpuYield c byDefault).Inv x := by
  unfold State.vcpuYield
  split
  · refine hs.congr rfl rfl (fun _ _ => rfl) rfl (fun _ => rfl) (fun _ => rfl) hs.guestPri (fun _ => rfl)
      fun v hv => ?_
    by_cases hv' : v = s.curr c
    · exact .inr ⟨hv' ▸ hc, c, hv'.symm⟩
    · dsimp only at hv
      rw [Function.update_of_ne hv'] at hv
      exact .inl hv
  · exact hs

/-! ### Sorting -/

section

omit [DecidableEq C] [DecidableEq G] [Fintype C]

theorem sortLoop_perm (pri : Vcpu C G → Int) (l unders others : List (Vcpu C G)) :
    List.Perm (sortLoop pri unders others l) (unders ++ others ++ l) := by
  induction l generalizing unders others with
  | nil =>
    rw [List.append_nil]
    exact List.Perm.refl _
  | cons elem next ih =>
    unfold sortLoop
    split
    · refine (ih _ _).trans ?_
      simp only [List.append_assoc, List.singleton_append]
      exact List.Perm.append_left _ List.perm_middle.symm
    · refine (ih _ _).trans ?_
      simp only [List.append_assoc, List.singleton_append]
      exact List.Perm.refl _

/-- An element of low priority at the end stays there. -/
theorem sortLoop_last (pri : Vcpu C G → Int) {w : Vcpu C G} (hw : ¬ priUnder ≤ pri w)
    (l unders others : List (Vcpu C G)) :
    ∃ l', sortLoop pri unders others (l ++ [w]) = l' ++ [w] := by
  induction l generalizing unders others with
  | nil =>
    refine ⟨unders ++ others, ?_⟩
    rw [List.nil_append, sortLoop, if_neg hw, sortLoop, List.append_assoc]
  | cons elem next ih =>
    rw [List.cons_append]
    unfold sortLoop
    split
    · exact ih _ _
    · exact ih _ _

end

theorem runqSort_perm (s : State C G) (c c' : C) : List.Perm ((s.runqSort c).runq c') (s.runq c') := by
  unfold runqSort
  by_cases hc : c' = c
  · subst hc
    dsimp only
    rw [Function.update_self]
    exact sortLoop_perm s.pri _ [] []
  · dsimp only
    rw [Function.update_of_ne hc]

theorem runqSort_onRunq {w : Vcpu C G} (h : (s.runqSort c).OnRunq w) : s.OnRunq w :=
  h.imp fun c' hw => (runqSort_perm s c c').mem_iff.mp hw

theorem Inv.runqSort (hs : s.Inv x) (c : C) : (s.runqSort c).Inv x := by
  have hperm := runqSort_perm s c
  have hmem : ∀ {c' w}, w ∈ (s.runqSort c).runq c' → w ∈ s.runq c' := fun hw => (hperm _).mem_iff.mp hw
  constructor
  · exact hs.noBug
  · exact fun c' => (hperm c').symm.nodup (hs.nodup c')
  · exact fun c' w hw => hs.home c' w (hmem hw)
  · exact hs.idleHome
  · exact hs.idleRuns
  · exact hs.guestPri
  · exact hs.current
  · exact hs.running
  · exact fun c' hne hw => hs.apart c' hne (hmem hw)
  · intro c' hc'
    obtain ⟨l, hl⟩ := hs.idleLast c' hc'
    unfold State.runqSort
    by_cases hc : c' = c
    · subst hc
      have hpri : s.pri (.idle c') = priIdle := hs.idlePri c' (by rw [hl]; simp)
      dsimp only
      rw [Function.update_self, hl]
      exact sortLoop_last s.pri (by rw [hpri]; decide) l [] []
    · dsimp only
      rw [Function.update_of_ne hc]
      exact ⟨l, hl⟩
  · exact fun c' hw => hs.idlePri c' (hmem hw)
  · exact hs.yields

/-! ### Scheduling -/

/-- The state after `csched_schedule` has decided for `v`, which is not yet the current vCPU of `c`. -/
structure Chosen (c : C) (v : Vcpu C G) (s : State C G) : Prop where
  noBug : s.bug = false
  nodup : ∀ c', (s.runq c').Nodup
  home : ∀ c', ∀ w ∈ s.runq c', s.processor w = c'
  idleHome : ∀ c', s.processor (.idle c') = c'
  idleRuns : ∀ c', s.runnable (.idle c') = true
  guestPri : ∀ g, priIdle < s.pri (.guest g)
  off : v ∉ s.runq c
  chosen : s.processor v = c
  current : ∀ c', c' ≠ c → s.processor (s.curr c') = c'
  running : ∀ c', c' ≠ c → s.isRunning (s.curr c') = true
  apart : ∀ c', c' ≠ c → s.curr c' ∉ s.runq c'
  idleLast : ∀ c', (if c' = c then v else s.curr c') ≠ .idle c' → ∃ l, s.runq c' = l ++ [.idle c']
  idlePri : ∀ c', .idle c' ∈ s.runq c' → s.pri (.idle c') = priIdle
  yields : ∀ w, s.yield w = true → w.isIdle = false ∧ ∃ c', c' ≠ c ∧ s.curr c' = w

omit [Fintype C] in
/-- The decision takes effect. -/
theorem Chosen.inv (hs : s.Chosen c v) :
    Inv none { s with
      curr := Function.update s.curr c v
      isRunning := Function.update s.isRunning v true } := by
  have hcurr : ∀ c', Function.update s.curr c v c' = if c' = c then v else s.curr c' := by
    intro c'
    by_cases hc : c' = c
    · rw [if_pos hc, hc, Function.update_self]
    · rw [if_neg hc, Function.update_of_ne hc]
  constructor
  · exact hs.noBug
  · exact hs.nodup
  · exact hs.home
  · exact hs.idleHome
  · exact hs.idleRuns
  · exact hs.guestPri
  · intro c'
    dsimp only
    rw [hcurr]
    split
    · next hc => rw [hc, hs.chosen]
    · next hc => exact hs.current c' hc
  · intro c'
    dsimp only
    rw [hcurr]
    by_cases hv : (if c' = c then v else s.curr c') = v
    · rw [hv, Function.update_self]
    · rw [Function.update_of_ne hv]
      have hc : c' ≠ c := fun h => hv (if_pos h)
      rw [if_neg hc]
      exact hs.running c' hc
  · intro c' _
    dsimp only
    rw [hcurr]
    split
    · next hc =>
      rw [hc]
      exact hs.off
    · next hc => exact hs.apart c' hc
  · intro c' hc'
    dsimp only at hc' ⊢
    rw [hcurr] at hc'
    exact hs.idleLast c' (hc'.resolve_left (by simp))
  · exact hs.idlePri
  · intro w hw
    obtain ⟨hidle, c', hc', hcur⟩ := hs.yields w hw
    refine ⟨hidle, c', ?_⟩
    dsimp only
    rw [Function.update_of_ne hc']
    exact hcur

/-- The current vCPU is back in the queue, or is not runnable; the idle vCPU is at the end. -/
theorem Inv.putBack (hs : s.Inv none) (c : C) : (s.putBack c).Inv (some c) := by
  have hoff := hs.current_off c
  unfold State.putBack
  cases hscurr : s.curr c with
  | idle c₀ =>
    have hc₀ : c₀ = c := by rw [← hs.idleHome c₀, ← hscurr, hs.current]
    subst hc₀
    rw [hscurr] at hoff
    -- the priority of the idle vCPU is restored
    have hpri : Inv none { s with pri := Function.update s.pri (.idle c₀) priIdle } := by
      constructor
      · exact hs.noBug
      · exact hs.nodup
      · exact hs.home
      · exact hs.idleHome
      · exact hs.idleRuns
      · intro g
        dsimp only
        rw [Function.update_of_ne (guest_ne_idle g c₀)]
        exact hs.guestPri g
      · exact hs.current
      · exact hs.running
      · exact hs.apart
      · exact hs.idleLast
      · intro c' hc'
        dsimp only
        by_cases hc : (Vcpu.idle c' : Vcpu C G) = .idle c₀
        · rw [hc, Function.update_self]
        · rw [Function.update_of_ne hc]
          exact hs.idlePri c' hc'
      · exact hs.yields
    have hself : (Function.update s.pri (.idle c₀) priIdle) (.idle c₀) = priIdle := Function.update_self ..
    simp only [Vcpu.isIdle, if_true, hs.idleRuns c₀]
    rw [hpri.inserted_idle hoff hself]
    refine Inserted.inv (s := { s with pri := Function.update s.pri (.idle c₀) priIdle }) (c := c₀)
      (v := .idle c₀) ⟨rfl, fun c' hne => Function.update_of_ne hne .., ?_, ?_⟩ hpri hoff (hs.idleHome c₀)
      (fun _ _ => hself) ?_ ?_
    · dsimp only
      rw [Function.update_self]
      exact List.perm_append_singleton _ _
    · intro l hl
      dsimp only
      rw [Function.update_self]
      exact ⟨_, rfl⟩
    · intro c' hne
      refine ⟨fun heq => hne ?_, by simp⟩
      have hhome := hs.idleHome c₀
      rw [← heq, hs.current] at hhome
      rw [hhome]
    · intro c' hc'
      by_cases hc : c' = c₀
      · subst hc
        refine .inl ⟨rfl, s.runq c', ?_⟩
        dsimp only
        rw [Function.update_self]
      · exact .inr (.inr (hc'.resolve_left (fun h => hc (Option.some.inj h).symm)))
  | guest g =>
    rw [hscurr] at hoff
    have hne : s.curr c ≠ .idle c := by
      rw [hscurr]
      exact nofun
    obtain ⟨l, hl⟩ := hs.idleLast c (.inr hne)
    have hhome : s.processor (.guest g) = c := hs.curr_eq hscurr
    have hlast : ∀ c', some c = some c' ∨ s.curr c' ≠ .idle c' → s.curr c' ≠ .idle c' := by
      rintro c' (hc' | hc')
      · rw [← Option.some.inj hc']
        exact hne
      · exact hc'
    simp only [Vcpu.isIdle, Bool.false_eq_true, if_false]
    split
    · refine (hs.inserted_guest hoff hhome fun _ => ⟨l, hl⟩).inv hs hoff hhome (fun _ h => by cases h) ?_ ?_
      · intro c' hc'
        refine ⟨fun heq => hc' ?_, by simp⟩
        rw [← hhome, ← heq, hs.current]
      · exact fun c' hc' => .inr (.inr (hlast c' hc'))
    · rw [bugOn_false _ (by rw [hl]; simp)]
      refine { hs with apart := fun c' _ => hs.apart c' (by simp), idleLast := fun c' hc' => ?_ }
      exact hs.idleLast c' (.inr (hlast c' hc'))

/-- A vCPU of the queue is chosen and leaves it; only the idle vCPU may have been boosted before. -/
theorem Inv.choose (hs : s.Inv (some c)) (hv : v ∈ s.runq c) {pri : Vcpu C G → Int}
    (hpri : ∀ w, w ≠ .idle c → pri w = s.pri w) (hidle : pri (.idle c) = s.pri (.idle c) ∨ v = .idle c)
    {yield : Vcpu C G → Bool} (hyield : ∀ w, yield w = true → s.yield w = true ∧ s.curr c ≠ w) :
    Chosen c v { s with pri := pri, yield := yield, runq := fun c' => (s.runq c').erase v } := by
  have hmem : ∀ {c' w}, w ∈ (s.runq c').erase v → w ∈ s.runq c' := fun hw => List.mem_of_mem_erase hw
  have hhome : s.processor v = c := hs.home c v hv
  have hsome : ∀ {c'}, c' ≠ c → some c ≠ some c' := fun hne h => hne (Option.some.inj h).symm
  constructor
  · exact hs.noBug
  · exact fun c' => (hs.nodup c').erase _
  · exact fun c' w hw => hs.home c' w (hmem hw)
  · exact hs.idleHome
  · exact hs.idleRuns
  · intro g
    dsimp only
    rw [hpri _ (guest_ne_idle g c)]
    exact hs.guestPri g
  · exact (hs.nodup c).not_mem_erase
  · exact hhome
  · exact fun c' _ => hs.current c'
  · exact fun c' _ => hs.running c'
  · exact fun c' hne hw => hs.apart c' (hsome hne) (hmem hw)
  · intro c' hc'
    have hne : v ≠ .idle c' := by
      intro heq
      by_cases hc : c' = c
      · exact hc' (by rw [if_pos hc, heq])
      · rw [heq, hs.idleHome] at hhome
        exact hc hhome
    have hold : some c = some c' ∨ s.curr c' ≠ .idle c' := by
      by_cases hc : c' = c
      · exact .inl (by rw [hc])
      · rw [if_neg hc] at hc'
        exact .inr hc'
    obtain ⟨l, hl⟩ := hs.idleLast c' hold
    refine ⟨l.erase v, ?_⟩
    dsimp only
    rw [hl]
    exact erase_append_idle hne
  · intro c' hw
    dsimp only at hw ⊢
    have hw' := hmem hw
    by_cases hc : (Vcpu.idle c' : Vcpu C G) = .idle c
    · rcases hidle with hsame | hv'
      · rw [hc, hsame, ← hc]
        exact hs.idlePri c' hw'
      · rw [hc, hv'] at hw
        exact absurd hw (hs.nodup c').not_mem_erase
    · rw [hpri _ hc]
      exact hs.idlePri c' hw'
  · intro w hw
    obtain ⟨hold, hne⟩ := hyield w hw
    obtain ⟨hnot, c', hc'⟩ := hs.yields w hold
    exact ⟨hnot, c', fun h => hne (h ▸ hc'), hc'⟩

omit [DecidableEq C] [DecidableEq G] [Fintype C] in
/-- The walk over the queue of another CPU ends before its idle vCPU. -/
theorem stealWalk_spec (pri : Int) (suits : Vcpu C G → Bool) (l : List (Vcpu C G))
    (hidle : ∀ w ∈ l, w.isIdle = true → s.pri w ≤ pri) :
    (s.stealWalk pri suits l).1 = false ∧ ∀ v, (s.stealWalk pri suits l).2 = some v →
      v ∈ l ∧ v.isIdle = false ∧ s.isRunning v = false := by
  induction l with
  | nil => exact ⟨rfl, fun v h => by cases h⟩
  | cons w next ih =>
    obtain ⟨hbug, htake⟩ := ih fun w hw => hidle w (List.mem_cons_of_mem _ hw)
    unfold stealWalk
    by_cases hpri : s.pri w ≤ pri
    · rw [if_pos hpri]
      exact ⟨rfl, fun v h => by cases h⟩
    · have hguest : ¬ w.isIdle = true := fun h => hpri (hidle w List.mem_cons_self h)
      rw [if_neg hpri, if_neg hguest]
      split
      · next hsuits =>
        refine ⟨rfl, fun v hv => ?_⟩
        cases hv
        exact ⟨List.mem_cons_self, by simpa using hguest, hsuits.1⟩
      · refine ⟨hbug, fun v hv => ?_⟩
        obtain ⟨hmem, hrest⟩ := htake v hv
        exact ⟨List.mem_cons_of_mem _ hmem, hrest⟩

/-- A steal takes a vCPU of a domain that does not run from the queue of another CPU, or does nothing. -/
theorem Inv.runqSteal (hs : s.Inv x) {pri : Int} (hpri : priIdle ≤ pri) (peer cpu : C)
    (suits : Vcpu C G → Bool) :
    s.runqSteal peer cpu pri suits = (s, none) ∨
      ∃ g, .guest g ∈ s.runq peer ∧ s.isRunning (.guest g) = false ∧
        s.runqSteal peer cpu pri suits =
          ({ s with
            runq := fun c => (s.runq c).erase (.guest g)
            processor := Function.update s.processor (.guest g) cpu }, some (.guest g)) := by
  obtain ⟨hbug, htake⟩ := stealWalk_spec (s := s) pri suits (s.runq peer) fun w hw hidle => by
    cases w with
    | guest g => cases hidle
    | idle c' =>
      have hc' := hs.idle_eq hw
      subst hc'
      rw [hs.idlePri c' hw]
      exact hpri
  unfold State.runqSteal
  split
  · exact .inl rfl
  · simp only [bugOn_false s (by rw [hbug]; decide : ¬ (s.stealWalk pri suits (s.runq peer)).1 = true)]
    cases htaken : (s.stealWalk pri suits (s.runq peer)).2 with
    | none => exact .inl rfl
    | some v =>
      obtain ⟨hmem, hguest, hrun⟩ := htake v htaken
      cases v with
      | idle c' => cases hguest
      | guest g =>
        refine .inr ⟨g, hmem, hrun, ?_⟩
        simp only [runqRemove_eq s ⟨peer, hmem⟩]

theorem Inv.stealFrom (hs : s.Inv x) {pri : Int} (hpri : priIdle ≤ pri) (cpu : C)
    (suits : Vcpu C G → Bool) (workers : List C) :
    stealFrom cpu pri suits workers s = (s, none) ∨
      ∃ peer ∈ workers, ∃ g, .guest g ∈ s.runq peer ∧ s.isRunning (.guest g) = false ∧
        stealFrom cpu pri suits workers s =
          ({ s with
            runq := fun c => (s.runq c).erase (.guest g)
            processor := Function.update s.processor (.guest g) cpu }, some (.guest g)) := by
  induction workers with
  | nil => exact .inl rfl
  | cons peer workers ih =>
    unfold State.stealFrom
    rcases hs.runqSteal hpri peer cpu suits with hnone | ⟨g, hmem, hrun, htaken⟩
    · rw [hnone]
      rcases ih with hnone' | ⟨peer', hpeer', hrest⟩
      · exact .inl hnone'
      · exact .inr ⟨peer', List.mem_cons_of_mem _ hpeer', hrest⟩
    · rw [htaken]
      exact .inr ⟨peer, List.mem_cons_self, g, hmem, hrun, rfl⟩

theorem Inv.stolen (hs : s.Inv (some c)) (hrun : s.isRunning (.guest g) = false) {yield : Vcpu C G → Bool}
    (hyield : ∀ w, yield w = true → s.yield w = true ∧ s.curr c ≠ w) :
    Chosen c (.guest g) { s with
      yield := yield
      runq := fun c' => (s.runq c').erase (.guest g)
      processor := Function.update s.processor (.guest g) c } := by
  have hin : ∀ {c' w}, w ∈ (s.runq c').erase (.guest g) → w ∈ s.runq c' := fun hw => List.mem_of_mem_erase hw
  have hsome : ∀ {c'}, c' ≠ c → some c ≠ some c' := fun hne h => hne (Option.some.inj h).symm
  have hout : ∀ c', .guest g ∉ (s.runq c').erase (.guest g) := fun c' => (hs.nodup c').not_mem_erase
  have hcurr : ∀ c', s.curr c' ≠ .guest g := by
    intro c' h
    have hrun' := hs.running c'
    rw [h, hrun] at hrun'
    cases hrun'
  have hproc : ∀ {w : Vcpu C G}, w ≠ .guest g →
      Function.update s.processor (.guest g) c w = s.processor w := fun hne => Function.update_of_ne hne ..
  constructor
  · exact hs.noBug
  · exact fun c' => (hs.nodup c').erase _
  · intro c' w hw
    have hne : w ≠ .guest g := fun h => hout c' (h ▸ hw)
    dsimp only
    rw [hproc hne]
    exact hs.home c' w (hin hw)
  · intro c'
    dsimp only
    rw [hproc (guest_ne_idle g c').symm]
    exact hs.idleHome c'
  · exact hs.idleRuns
  · exact hs.guestPri
  · exact hout c
  · exact Function.update_self ..
  · intro c' _
    dsimp only
    rw [hproc (hcurr c')]
    exact hs.current c'
  · exact fun c' _ => hs.running c'
  · exact fun c' hne hw => hs.apart c' (hsome hne) (hin hw)
  · intro c' hc'
    have hold : some c = some c' ∨ s.curr c' ≠ .idle c' := by
      by_cases hc : c' = c
      · exact .inl (by rw [hc])
      · rw [if_neg hc] at hc'
        exact .inr hc'
    obtain ⟨l, hl⟩ := hs.idleLast c' hold
    refine ⟨l.erase (.guest g), ?_⟩
    dsimp only
    rw [hl]
    exact erase_append_idle (guest_ne_idle g c')
  · exact fun c' hw => hs.idlePri c' (hin hw)
  · intro w hw
    obtain ⟨hold, hne⟩ := hyield w hw
    obtain ⟨hnot, c', hc'⟩ := hs.yields w hold
    exact ⟨hnot, c', fun h => hne (h ▸ hc'), hc'⟩

theorem Inv.priIdle_le (hs : s.Inv x) (hv : v ∈ s.runq c) : priIdle ≤ s.pri v := by
  cases v with
  | guest g => exact (hs.guestPri g).le
  | idle c' =>
    have hc' := hs.idle_eq hv
    subst hc'
    rw [hs.idlePri c' hv]

/-- Without a boost, `v` of the queue or a vCPU from another one is chosen. -/
theorem Inv.pick (hs : s.Inv (some c)) (hv : v ∈ s.runq c) (workers : List C)
    (suits : Vcpu C G → Bool) {yield : Vcpu C G → Bool}
    (hyield : ∀ w, yield w = true → s.yield w = true ∧ s.curr c ≠ w) :
    let r := if priOver < s.pri v then (({ s with yield := yield } : State C G).runqRemove v, v)
      else ({ s with yield := yield } : State C G).loadBalance c v workers suits
    Chosen c r.2 r.1 := by
  have hyields : Inv (some c) { s with yield := yield } :=
    { hs with yields := fun w hw => hs.yields w (hyield w hw).1 }
  have hchosen := hs.choose hv (fun _ _ => rfl) (.inl rfl) hyield
  have hremove : ({ s with yield := yield } : State C G).runqRemove v =
      { s with pri := s.pri, yield := yield, runq := fun c' => (s.runq c').erase v } :=
    runqRemove_eq { s with yield := yield } ⟨c, hv⟩
  split
  · rw [hremove]
    exact hchosen
  · unfold State.loadBalance
    rw [bugOn_false _ (by rw [not_not]; exact (hs.home c v hv).symm)]
    dsimp only
    rcases hyields.stealFrom (hs.priIdle_le hv) c suits workers with
      hnone | ⟨peer, -, g, -, hrun, htaken⟩
    · rw [hnone]
      dsimp only
      rw [hremove]
      exact hchosen
    · rw [htaken]
      exact hs.stolen hrun hyield

theorem Inv.schedule (hs : s.Inv none) (c : C) (taskletWork : Bool) (workers : List C)
    (suits : Vcpu C G → Bool) :
    (s.schedule c taskletWork workers suits).Inv none := by
  have hput := hs.putBack c
  obtain ⟨l, hl⟩ := hput.idleLast c (.inl rfl)
  have hidle : .idle c ∈ (s.putBack c).runq c := by rw [hl]; simp
  have hyield : ∀ w, Function.update (s.putBack c).yield ((s.putBack c).curr c) false w = true →
      (s.putBack c).yield w = true ∧ (s.putBack c).curr c ≠ w := by
    intro w hw
    by_cases hne : w = (s.putBack c).curr c
    · rw [hne, Function.update_self] at hw
      cases hw
    · rw [Function.update_of_ne hne] at hw
      exact ⟨hw, Ne.symm hne⟩
  unfold State.schedule
  cases hq : (s.putBack c).runq c with
  | nil =>
    rw [hq] at hidle
    cases hidle
  | cons snext rest =>
    simp only [hq]
    apply Chosen.inv
    have hhead : snext ∈ (s.putBack c).runq c := by rw [hq]; exact List.mem_cons_self
    unfold pickNext
    cases taskletWork with
    | false => exact hput.pick hhead workers suits hyield
    | true =>
      -- the idle vCPU is boosted and leaves the queue
      have hboost : Function.update (s.putBack c).pri (.idle c) priBoost (.idle c) = priBoost :=
        Function.update_self ..
      have hremove : ∀ s' : State C G, s'.runq = (s.putBack c).runq →
          s'.runqRemove (.idle c) = { s' with runq := fun c' => (s'.runq c').erase (.idle c) } :=
        fun s' hq => runqRemove_eq s' ⟨c, by rw [hq]; exact hidle⟩
      simp only [if_true, hboost]
      rw [if_pos (by decide), hremove { s.putBack c with
        pri := Function.update (s.putBack c).pri (.idle c) priBoost
        yield := Function.update (s.putBack c).yield ((s.putBack c).curr c) false } rfl]
      exact hput.choose hidle (fun w hw => Function.update_of_ne hw ..) (.inr rfl) hyield

/-! ### What a call of the scheduler changes -/

/-- `v` may leave its queue and its CPU; everything else stays. -/
structure Takes (v : Vcpu C G) (s s' : State C G) : Prop where
  runnable : s'.runnable = s.runnable
  curr : s'.curr = s.curr
  processor : ∀ w, w ≠ v → s'.processor w = s.processor w
  onRunq : ∀ w, s'.OnRunq w → s.OnRunq w

theorem runqRemove_takes (s : State C G) (v : Vcpu C G) : Takes v s (s.runqRemove v) where
  runnable := rfl
  curr := rfl
  processor := fun _ _ => rfl
  onRunq := fun _ ⟨c, hw⟩ => ⟨c, List.mem_of_mem_erase hw⟩

/-- The vCPU that is decided for comes from a queue, or is an idle one. -/
theorem Inv.pickNext_takes (hs : s.Inv (some c)) {snext : Vcpu C G} (hv : snext ∈ s.runq c)
    (taskletWork : Bool) (workers : List C) (suits : Vcpu C G → Bool) :
    Takes (s.pickNext c taskletWork workers suits snext).2 s
        (s.pickNext c taskletWork workers suits snext).1 ∧
      ((s.pickNext c taskletWork workers suits snext).2.isIdle = true ∨
        s.OnRunq (s.pickNext c taskletWork workers suits snext).2) := by
  have hremove : ∀ (s' : State C G) (w : Vcpu C G), s'.runnable = s.runnable → s'.curr = s.curr →
      s'.processor = s.processor → s'.runq = s.runq → Takes w s (s'.runqRemove w) := by
    intro s' w hrunnable hcurr hprocessor hrunq
    constructor
    · exact hrunnable
    · exact hcurr
    · exact fun _ _ => congrFun hprocessor _
    · rintro w' ⟨c', hw'⟩
      exact ⟨c', hrunq ▸ List.mem_of_mem_erase hw'⟩
  unfold pickNext
  cases taskletWork with
  | true =>
    have hboost : Function.update s.pri (.idle c) priBoost (.idle c) = priBoost := Function.update_self ..
    simp only [if_true, hboost]
    rw [if_pos (by decide)]
    exact ⟨hremove _ _ rfl rfl rfl rfl, .inl rfl⟩
  | false =>
    simp only [Bool.false_eq_true, if_false]
    split
    · exact ⟨hremove _ _ rfl rfl rfl rfl, .inr ⟨c, hv⟩⟩
    · have hyields : Inv (some c) { s with yield := Function.update s.yield (s.curr c) false } := by
        refine { hs with yields := fun w hw => hs.yields w ?_ }
        by_cases hne : w = s.curr c
        · rw [hne] at hw
          dsimp only at hw
          rw [Function.update_self] at hw
          cases hw
        · dsimp only at hw
          rw [Function.update_of_ne hne] at hw
          exact hw
      unfold State.loadBalance
      rw [bugOn_false _ (by rw [not_not]; exact (hs.home c snext hv).symm)]
      dsimp only
      rcases hyields.stealFrom (hs.priIdle_le hv) c suits workers with
        hnone | ⟨peer, -, g, hg, -, htaken⟩
      · rw [hnone]
        exact ⟨hremove _ _ rfl rfl rfl rfl, .inr ⟨c, hv⟩⟩
      · rw [htaken]
        refine ⟨⟨rfl, rfl, fun w hw => Function.update_of_ne hw .., ?_⟩, .inr ⟨peer, hg⟩⟩
        rintro w ⟨c', hw⟩
        exact ⟨c', List.mem_of_mem_erase hw⟩

/-- A CPU decides: only the vCPU that it decides for may get another processor, and that one was current
or waited in a queue, or is an idle one. -/
structure Decided (c : C) (s s' : State C G) : Prop where
  runnable : s'.runnable = s.runnable
  curr : ∀ c', c' ≠ c → s'.curr c' = s.curr c'
  next : s'.curr c = s.curr c ∨ (s'.curr c).isIdle = true ∨ s.OnRunq (s'.curr c)
  processor : ∀ w, w ≠ s'.curr c → s'.processor w = s.processor w
  onRunq : ∀ w, s'.OnRunq w → s.OnRunq w ∨ w = s.curr c ∧ s.runnable w = true

theorem runqInsert_onRunq {c : C} {v w : Vcpu C G} (h : (s.runqInsert c v).OnRunq w) :
    s.OnRunq w ∨ w = v := by
  obtain ⟨c', hw⟩ := h
  unfold runqInsert at hw
  dsimp only at hw
  by_cases hc : c' = c
  · subst hc
    rw [Function.update_self] at hw
    exact (List.eq_or_mem_of_mem_insertIdx hw).symm.imp (fun hold => ⟨c', hold⟩) id
  · rw [Function.update_of_ne hc] at hw
    exact .inl ⟨c', hw⟩

theorem putBack_onRunq {c : C} {w : Vcpu C G} (h : (s.putBack c).OnRunq w) :
    s.OnRunq w ∨ w = s.curr c ∧ s.runnable w = true := by
  -- the priority of an idle vCPU is restored before
  have hinsert : ∀ pri, s.runnable (s.curr c) = true →
      (({ s with pri := pri } : State C G).runqInsert c (s.curr c)).OnRunq w →
        s.OnRunq w ∨ w = s.curr c ∧ s.runnable w = true := by
    intro pri hrunnable hon
    rcases runqInsert_onRunq hon with hold | heq
    · exact .inl hold
    · exact .inr ⟨heq, heq ▸ hrunnable⟩
  unfold putBack at h
  by_cases hidle : (s.curr c).isIdle = true
  · simp only [if_pos hidle] at h
    split at h
    · next hrunnable => exact hinsert _ hrunnable h
    · exact .inl h
  · simp only [if_neg hidle] at h
    split at h
    · next hrunnable => exact hinsert s.pri hrunnable h
    · exact .inl h

/-- Everything but the queue and the priority of an idle vCPU stays when the current vCPU is put back. -/
theorem putBack_frame (s : State C G) (c : C) :
    (s.putBack c).runnable = s.runnable ∧ (s.putBack c).curr = s.curr ∧
      (s.putBack c).processor = s.processor ∧ (s.putBack c).isRunning = s.isRunning := by
  unfold putBack
  dsimp only
  split <;> split <;> exact ⟨rfl, rfl, rfl, rfl⟩

theorem Inv.decided (hs : s.Inv none) (c : C) (taskletWork : Bool) (workers : List C)
    (suits : Vcpu C G → Bool) : Decided c s (s.schedule c taskletWork workers suits) := by
  have hput := hs.putBack c
  obtain ⟨hrunnable, hcurr, hprocessor, -⟩ := putBack_frame s c
  obtain ⟨l, hl⟩ := hput.idleLast c (.inl rfl)
  unfold State.schedule
  cases hq : (s.putBack c).runq c with
  | nil =>
    rw [hq] at hl
    simp at hl
  | cons snext rest =>
    simp only [hq]
    obtain ⟨htakes, hnext⟩ := hput.pickNext_takes (hq ▸ List.mem_cons_self)
      taskletWork workers suits
    constructor
    · exact htakes.runnable.trans hrunnable
    · intro c' hc'
      dsimp only
      rw [Function.update_of_ne hc', htakes.curr, hcurr]
    · dsimp only
      rw [Function.update_self]
      rcases hnext with hidle | hon
      · exact .inr (.inl hidle)
      · rcases putBack_onRunq hon with hold | ⟨hprev, -⟩
        · exact .inr (.inr hold)
        · exact .inl hprev
    · intro w hw
      dsimp only at hw ⊢
      rw [Function.update_self] at hw
      rw [htakes.processor w hw, hprocessor]
    · intro w hw
      exact putBack_onRunq (htakes.onRunq w hw)

/-- At most the queues change, and at most `g` comes to be in one. -/
structure Queues (g : G) (s s' : State C G) : Prop where
  runnable : s'.runnable = s.runnable
  curr : s'.curr = s.curr
  processor : s'.processor = s.processor
  isRunning : s'.isRunning = s.isRunning
  onRunq : ∀ w, s'.OnRunq w → s.OnRunq w ∨ w = .guest g

theorem runqInsert_queues (s : State C G) (pri : Vcpu C G → Int) (c : C) (g : G) :
    Queues g s (({ s with pri := pri } : State C G).runqInsert c (.guest g)) where
  runnable := rfl
  curr := rfl
  processor := rfl
  isRunning := rfl
  onRunq := fun _ hw => runqInsert_onRunq (s := { s with pri := pri }) hw

theorem vcpuWake_queues (s : State C G) (g : G) (parked : Bool) : Queues g s (s.vcpuWake g parked) := by
  have hsame : Queues g s s := ⟨rfl, rfl, rfl, rfl, fun _ => .inl⟩
  unfold vcpuWake
  split
  · exact hsame
  · split
    · exact hsame
    · split
      · exact runqInsert_queues s _ _ g
      · exact runqInsert_queues s s.pri _ g

theorem vcpuInsert_queues (s : State C G) (g : G) :
    Queues g s (s.vcpuInsert (.guest g)) ∧
      (s.runnable (.guest g) = false → s.vcpuInsert (.guest g) = s) := by
  unfold vcpuInsert
  split
  · next h => exact ⟨runqInsert_queues s s.pri _ g, fun hnot => by simp [h.2.1] at hnot⟩
  · exact ⟨⟨rfl, rfl, rfl, rfl, fun _ => .inl⟩, fun _ => rfl⟩

theorem runqRemove_queues (s : State C G) (g : G) : Queues g s (s.runqRemove (.guest g)) :=
  ⟨rfl, rfl, rfl, rfl, fun w hw => .inl ((runqRemove_takes s (.guest g)).onRunq w hw)⟩

theorem vcpuSleep_queues (s : State C G) (g : G) : Queues g s (s.vcpuSleep g) := by
  unfold vcpuSleep
  split
  · exact ⟨rfl, rfl, rfl, rfl, fun _ => .inl⟩
  · split
    · exact runqRemove_queues s g
    · exact ⟨rfl, rfl, rfl, rfl, fun _ => .inl⟩

theorem vcpuSleep_onRunq {w : Vcpu C G} (h : (s.vcpuSleep g).OnRunq w) : s.OnRunq w := by
  unfold vcpuSleep at h
  split at h
  · exact h
  · split at h
    · exact (runqRemove_takes s (.guest g)).onRunq w h
    · exact h

theorem vcpuRemove_queues (s : State C G) (g : G) : Queues g s (s.vcpuRemove g) := by
  unfold vcpuRemove
  split
  · exact runqRemove_queues s g
  · exact ⟨rfl, rfl, rfl, rfl, fun _ => .inl⟩

theorem Inv.vcpuRemove_off {x : Option C} (hs : s.Inv x) (g : G) : ¬ (s.vcpuRemove g).OnRunq (.guest g) := by
  unfold State.vcpuRemove
  split
  · rintro ⟨c, hc⟩
    exact (hs.nodup c).not_mem_erase hc
  · next h => exact h

end State

/-! ## Runs -/

section Runs

theorem State.Inv.act {step : Step C G} {s : State C G} (hcalled : Called step s) (hs : s.Inv none) :
    (act step s).Inv none := by
  cases step with
  | insert v => exact hs.vcpuInsert v
  | remove g => exact hs.vcpuRemove g
  | sleep g => exact hs.vcpuSleep g
  | wake g parked => exact hs.vcpuWake g parked
  | yield c byDefault => exact hs.vcpuYield hcalled byDefault
  | schedule c taskletWork workers suits => exact hs.schedule c taskletWork workers suits
  | sort c => exact hs.runqSort c
  | contextSaved v =>
    refine hs.congr rfl rfl (fun _ _ => rfl) rfl (fun _ => rfl) (fun _ => rfl) hs.guestPri (fun c => ?_)
      fun _ => .inl
    exact Function.update_of_ne (hcalled c) ..
  | pause g runnable =>
    refine hs.congr rfl rfl (fun _ _ => rfl) rfl (fun c => ?_) (fun _ => rfl) hs.guestPri (fun _ => rfl)
      fun _ => .inl
    change Function.update s.runnable (.guest g) runnable (.idle c) = _
    rw [Function.update_of_ne (guest_ne_idle g c).symm]
  | account g pri =>
    refine hs.congr rfl rfl (fun _ _ => rfl) rfl (fun _ => rfl) (fun c => ?_) (fun g' => ?_) (fun _ => rfl)
      fun _ => .inl
    · change Function.update s.pri (.guest g) pri (.idle c) = _
      rw [Function.update_of_ne (guest_ne_idle g c).symm]
    · change priIdle < Function.update s.pri (.guest g) pri (.guest g')
      by_cases hg : (Vcpu.guest g' : Vcpu C G) = .guest g
      · rw [hg, Function.update_self]
        exact hcalled
      · rw [Function.update_of_ne hg]
        exact hs.guestPri g'
  | move g c =>
    refine hs.congr rfl rfl (fun v hv => ?_) rfl (fun _ => rfl) (fun _ => rfl) hs.guestPri (fun _ => rfl)
      fun _ => .inl
    have hne : v ≠ .guest g := by
      rintro rfl
      rcases hv with hon | ⟨c', hc'⟩ | hidle
      · exact hcalled.1 hon
      · exact hcalled.2 c' hc'
      · cases hidle
    exact Function.update_of_ne hne ..

omit [DecidableEq C] [DecidableEq G] [Fintype C] in
theorem inv_init (processor : G → C) : (init processor : State C G).Inv none where
  noBug := rfl
  nodup := fun _ => List.nodup_nil
  home := fun _ _ hv => absurd hv List.not_mem_nil
  idleHome := fun _ => rfl
  idleRuns := fun _ => rfl
  guestPri := fun _ => by change priIdle < priUnder; decide
  current := fun _ => rfl
  running := fun _ => rfl
  apart := fun _ _ => List.not_mem_nil
  idleLast := fun _ hc => hc.elim (fun h => by cases h) fun h => absurd rfl h
  idlePri := fun _ hv => absurd hv List.not_mem_nil
  yields := fun _ hv => by cases hv

/-- Where the vCPUs are: each one on at most one queue, that of its processor, and not while it is
current; the idle vCPU of a CPU is current or waits behind all others. -/
structure State.Placed (s : State C G) : Prop where
  once : ∀ c, (s.runq c).Nodup
  home : ∀ c, ∀ v ∈ s.runq c, s.processor v = c
  apart : ∀ c c', s.curr c ∉ s.runq c'
  idle : ∀ c, s.curr c = .idle c ∨ ∃ l, s.runq c = l ++ [.idle c] ∧ s.pri (.idle c) = priIdle

theorem State.Inv.placed {s : State C G} (hs : s.Inv none) : s.Placed where
  once := hs.nodup
  home := hs.home
  apart := fun c c' h => hs.current_off c ⟨c', h⟩
  idle := fun c => by
    by_cases hc : s.curr c = .idle c
    · exact .inl hc
    · obtain ⟨l, hl⟩ := hs.idleLast c (.inr hc)
      exact .inr ⟨l, hl, hs.idlePri c (by rw [hl]; simp)⟩

/-- In every state that calls lead to, the vCPUs are where they should be, and no `BUG_ON` has been hit
nor a list head taken for a vCPU. -/
theorem run_placed (processor : G → C) (steps : List (Step C G))
    (h : Runs.Each act Called steps (init processor)) :
    (Runs.run act steps (init processor)).Placed ∧ (Runs.run act steps (init processor)).bug = false := by
  have hinv := Runs.Each.inv (fun _ _ hcalled hs => State.Inv.act hcalled hs) h (inv_init processor)
  exact ⟨hinv.placed, hinv.noBug⟩

/-- Two CPUs: a vCPU is woken, runs, yields to another one, and is stolen while a tasklet runs. -/
def stolenWhileTasklet : List (Step Bool Nat) :=
  [.pause 0 true, .pause 1 true, .wake 0 false, .schedule false false [] (fun _ => true), .wake 1 false,
    .yield false false, .schedule false false [] (fun _ => true), .contextSaved (.guest 0),
    .account 0 priUnder, .schedule true false [false] (fun _ => true), .schedule false true [] (fun _ => true)]

theorem run_placed_stolenWhileTasklet :
    (Runs.run act stolenWhileTasklet (init fun _ => false)).Placed ∧
      (Runs.run act stolenWhileTasklet (init fun _ => false)).bug = false :=
  run_placed _ _ (by decide +kernel)

end Runs

end Sched.RunQueue
