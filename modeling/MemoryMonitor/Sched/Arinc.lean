import Mathlib
import MemoryMonitor.Lib.Runs

/-!
# The ARINC 653 scheduler

`xen/common/sched_arinc653.c`. A major frame is cut into the runtimes of the entries of a schedule,
and `a653sched_do_schedule` finds the entry that a time falls into. The index of that entry and the
time of the next switch are kept from one call to the next; whoever installs a schedule only says
that the next call has to start a new frame.

The runtimes are summed up in 64 bits before they are compared with the frame, nothing bounds the
frame itself, and a table that is full is left by reading the entry behind it.
-/

namespace Sched.Arinc

/-- A value that is stored as an `s_time_t`. -/
def sTime (x : Int) : Int := Int.bmod x (2 ^ 64)

/-- `ARINC653_MAX_DOMAINS_PER_SCHEDULE`. -/
def maxEntries : Nat := 64

/-- `MAX_VIRT_CPUS`. -/
def maxVirtCpus : Nat := 8192

/-- One of the `sched_entries` of a `xen_sysctl_arinc653_schedule`. -/
structure SysctlEntry (H : Type) where
  domHandle : H
  vcpuId : UInt32
  runtime : UInt64

/-- A `xen_sysctl_arinc653_schedule`; the list has the first `num_sched_entries` entries. -/
structure Sysctl (H : Type) where
  majorFrame : UInt64
  schedEntries : List (SysctlEntry H)

/-- `sched_entry_t`. -/
structure Entry (V H : Type) where
  domHandle : H
  vcpuId : Nat
  runtime : Int
  vc : Option V

/-- A vCPU as `find_vcpu` sees it: the handle of its domain, and its number there. -/
structure Names (V H : Type) where
  handle : V → H
  vcpuId : V → Nat
  /-- `dom0_handle`. -/
  dom0 : H

/-- The vCPU that a call selects; the idle one is `IDLETASK(0)`. -/
inductive Task (V : Type) where
  | idle
  | vcpu (v : V)
  deriving DecidableEq

/-- `struct task_slice`. -/
structure Slice (V : Type) where
  task : Task V
  time : Int
  deriving DecidableEq

/-- What stops the host, or leaves the table. -/
inductive Fault where
  /-- `BUG_ON(new_task == NULL)`. -/
  | noTask
  /-- `BUG_ON(now >= sched_priv->next_major_frame)`. -/
  | missedFrame
  /-- `BUG_ON(ret.time <= 0)`. -/
  | noTime
  /-- An entry is read that is not in the array `schedule`. -/
  | outside
  deriving DecidableEq

/-- `a653sched_priv_t`, and the two static variables of `a653sched_do_schedule`. -/
structure State (V H : Type) where
  schedule : Nat → Entry V H
  numScheduleEntries : Nat
  majorFrame : Int
  nextMajorFrame : Int
  vcpuList : List V
  awake : V → Bool
  schedIndex : Nat
  nextSwitchTime : Int
  /-- The time of the last step, and of the last call that started a frame: not in the source. -/
  clock : Int
  frame : Int

variable {V H : Type} [DecidableEq V] [DecidableEq H] (names : Names V H)

/-- `find_vcpu`. -/
def findVcpu (vcpuList : List V) (handle : H) (vcpuId : Nat) : Option V :=
  vcpuList.find? fun v => names.handle v = handle ∧ vcpuId = names.vcpuId v

/-- The loop of `arinc653_sched_set` over the entries: whether one is for domain 0, and the sum of
the runtimes. -/
def checkEntries : List (SysctlEntry H) → Bool → UInt64 → Option (Bool × UInt64)
  | [], foundDom0, total => some (foundDom0, total)
  | e :: rest, foundDom0, total =>
      let foundDom0 := foundDom0 || e.domHandle = names.dom0
      if maxVirtCpus ≤ e.vcpuId.toNat ∨ e.runtime = 0 then none
      else checkEntries rest foundDom0 (total + e.runtime)

/-- What `arinc653_sched_set` checks. -/
def accepts (r : Sysctl H) : Bool :=
  if r.majorFrame = 0 ∨ r.schedEntries.length < 1 ∨ maxEntries < r.schedEntries.length then false
  else
    match checkEntries names r.schedEntries false 0 with
    | none => false
    | some (foundDom0, total) => foundDom0 && total ≤ r.majorFrame

/-- When the entry `i` of a schedule begins in its frame. -/
def begins (schedule : Nat → Entry V H) : Nat → Int
  | 0 => 0
  | i + 1 => begins schedule i + (schedule i).runtime

namespace State

variable (s : State V H)

/-- `update_schedule_vcpus`. -/
def updateScheduleVcpus : State V H :=
  { s with
    schedule := fun i =>
      let e := s.schedule i
      if i < s.numScheduleEntries then
        { e with vc := findVcpu names s.vcpuList e.domHandle e.vcpuId }
      else e }

/-- The entries that are copied into place; those behind them stay as they are. -/
def copied (r : Sysctl H) (i : Nat) : Entry V H :=
  match r.schedEntries[i]? with
  | some e => ⟨e.domHandle, e.vcpuId.toNat, sTime e.runtime.toNat, (s.schedule i).vc⟩
  | none => s.schedule i

/-- `arinc653_sched_set` at the time `now`. -/
def schedSet (r : Sysctl H) (now : Int) : State V H :=
  if accepts names r then
    let s := { s with
      numScheduleEntries := r.schedEntries.length
      majorFrame := sTime r.majorFrame.toNat
      schedule := s.copied r }
    { s.updateScheduleVcpus names with nextMajorFrame := now }
  else s

/-- `a653sched_alloc_vdata` of a vCPU that is not idle; `ok` is whether there is memory. -/
def allocVdata (v : V) (ok : Bool) : State V H :=
  if ok then
    { s with awake := Function.update s.awake v false, vcpuList := v :: s.vcpuList }.updateScheduleVcpus names
  else s

/-- `a653sched_free_vdata`. -/
def freeVdata (v : V) : State V H :=
  { s with vcpuList := s.vcpuList.erase v }.updateScheduleVcpus names

/-- The loop of `a653sched_do_schedule`; `left` is how many entries there are from `index` on. -/
def catchUp (now : Int) : (left index : Nat) → (nextSwitchTime : Int) → Except Fault (Nat × Int)
  | 0, index, next => .ok (index, next)
  | left + 1, index, next =>
      if next ≤ now then
        if index + 1 < maxEntries then
          catchUp now left (index + 1) (sTime (next + (s.schedule (index + 1)).runtime))
        else .error .outside
      else .ok (index, next)

/-- The index and the time of the next switch that a call goes on with. -/
def position (now : Int) : Except Fault (State V H) :=
  if s.nextMajorFrame ≤ now then
    .ok { s with
      schedIndex := 0
      nextMajorFrame := sTime (now + s.majorFrame)
      nextSwitchTime := sTime (now + (s.schedule 0).runtime)
      frame := now }
  else
    match s.catchUp now (s.numScheduleEntries - s.schedIndex) s.schedIndex s.nextSwitchTime with
    | .ok (index, next) => .ok { s with schedIndex := index, nextSwitchTime := next }
    | .error e => .error e

/-- Whether the task that has been found can be run; for the idle one it makes no difference. -/
def canRun (runnable : V → Bool) : Option (Task V) → Bool
  | none => false
  | some .idle => true
  | some (.vcpu v) => s.awake v && runnable v

/-- The task of the entry at the index. -/
def newTask (runnable : V → Bool) : Option (Task V) :=
  let task := if s.schedIndex < s.numScheduleEntries then (s.schedule s.schedIndex).vc.map .vcpu
    else some .idle
  if s.canRun runnable task then task else some .idle

/-- If all entries have had their time, the next switch is at the next major frame. -/
def switchTime : Int :=
  if s.numScheduleEntries ≤ s.schedIndex then s.nextMajorFrame else s.nextSwitchTime

/-- `a653sched_do_schedule`; `runnable` is `vcpu_runnable`. -/
def doSchedule (now : Int) (taskletWork : Bool) (runnable : V → Bool) :
    Except Fault (State V H × Slice V) :=
  match s.position now with
  | .error e => .error e
  | .ok s =>
      let s := { s with nextSwitchTime := s.switchTime }
      match s.newTask runnable with
      | none => .error .noTask
      | some task =>
          if s.nextMajorFrame ≤ now then .error .missedFrame
          else
            -- tasklet work runs in the idle vCPU and goes first
            let task := if taskletWork then .idle else task
            let time := sTime (s.nextSwitchTime - now)
            if time ≤ 0 then .error .noTime else .ok (s, ⟨task, time⟩)

/-- When the entry `i` ends in a frame that starts at `f`; what is left of the frame counts as one
more entry. -/
def boundary (f : Int) (i : Nat) : Int :=
  if i < s.numScheduleEntries then f + begins s.schedule (i + 1) else f + s.majorFrame

/-- The task of the entry `i`: its vCPU, if there is one on the list that is awake and can run, and
there is no tasklet work. -/
def taskOf (taskletWork : Bool) (runnable : V → Bool) (i : Nat) : Task V :=
  if taskletWork ∨ s.numScheduleEntries ≤ i then .idle
  else
    match findVcpu names s.vcpuList (s.schedule i).domHandle (s.schedule i).vcpuId with
    | none => .idle
    | some v => if s.awake v ∧ runnable v then .vcpu v else .idle

end State

inductive Step (V H : Type) where
  | schedSet (r : Sysctl H) (now : Int)
  | doSchedule (now : Int) (taskletWork : Bool) (runnable : V → Bool)
  | allocVdata (v : V) (ok : Bool)
  | freeVdata (v : V)
  /-- `a653sched_vcpu_sleep` and `a653sched_vcpu_wake`. -/
  | sleep (v : V)
  | wake (v : V)

def act (step : Step V H) (s : State V H) : State V H :=
  match step with
  | .schedSet r now => { s.schedSet names r now with clock := now }
  | .doSchedule now taskletWork runnable =>
      match s.doSchedule now taskletWork runnable with
      | .ok (s, _) => { s with clock := now }
      | .error _ => { s with clock := now }
  | .allocVdata v ok => s.allocVdata names v ok
  | .freeVdata v => s.freeVdata names v
  | .sleep v => { s with awake := Function.update s.awake v false }
  | .wake v => { s with awake := Function.update s.awake v true }

/-- `MILLISECS(10)`. -/
def tenMillisecs : Int := 10000000

/-- `a653sched_init`; the entries that are zeroed have no vCPU and no time. -/
def init : State V H where
  schedule i := ⟨names.dom0, 0, if i = 0 then tenMillisecs else 0, none⟩
  numScheduleEntries := 1
  majorFrame := tenMillisecs
  nextMajorFrame := 0
  vcpuList := []
  awake _ := false
  schedIndex := 0
  nextSwitchTime := 0
  clock := 0
  frame := 0

/-- The times of the steps do not decrease. -/
def Timely (step : Step V H) (s : State V H) : Prop :=
  match step with
  | .schedSet _ now => s.clock ≤ now
  | .doSchedule now _ _ => s.clock ≤ now
  | _ => True

/-- A call stops at no assertion and stays in the table, and it selects the entry that its time falls
into, until the end of that entry; `s` is the state after the call, with the start of the frame. -/
def Selects (now : Int) (taskletWork : Bool) (runnable : V → Bool) (s : State V H) (slice : Slice V) :
    Prop :=
  ∃ i ≤ s.numScheduleEntries,
    s.frame + begins s.schedule i ≤ now ∧ now < s.boundary s.frame i ∧
      slice.task = s.taskOf names taskletWork runnable i ∧ now + slice.time = s.boundary s.frame i

/-- A call does not fail, it starts a frame if the last one is over, and it selects the entry that the
time falls into. -/
def Partitioned (step : Step V H) (s : State V H) : Prop :=
  match step with
  | .doSchedule now taskletWork runnable =>
      ∃ s' slice, s.doSchedule now taskletWork runnable = .ok (s', slice) ∧
        s'.frame = (if s.nextMajorFrame ≤ now then now else s.frame) ∧
        Selects names now taskletWork runnable s' slice
  | _ => True

/-- The sum of the runtimes, in no number of bits. -/
def Sysctl.total (r : Sysctl H) : Nat := (r.schedEntries.map fun e => e.runtime.toNat).sum

/-- A schedule that is installed fits into its frame, and into the table with an entry to spare unless
it fills its frame; a frame that starts ends before time does. -/
def Sound (step : Step V H) (s : State V H) : Prop :=
  match step with
  | .schedSet r _ =>
      accepts names r →
        r.total ≤ r.majorFrame.toNat ∧ r.majorFrame.toNat < 2 ^ 63 ∧
          (r.schedEntries.length < maxEntries ∨ r.total = r.majorFrame.toNat)
  | .doSchedule now _ _ => s.nextMajorFrame ≤ now → now + s.majorFrame < 2 ^ 63
  | _ => True

/-! ## Time that fits into 64 bits -/

theorem sTime_eq {x : Int} (h : -2 ^ 63 ≤ x) (h' : x < 2 ^ 63) : sTime x = x := by
  unfold sTime
  rw [Int.bmod_def]
  split <;> omega

/-! ## The entries of a schedule -/

section Schedule

variable {schedule : Nat → Entry V H} {n : Nat}

section

omit [DecidableEq V] [DecidableEq H]

theorem begins_mono (hpos : ∀ i < n, 0 < (schedule i).runtime) {i j : Nat} (hij : i ≤ j) (hj : j ≤ n) :
    begins schedule i ≤ begins schedule j := by
  induction j with
  | zero =>
    have : i = 0 := by omega
    exact Int.le_of_eq (by rw [this])
  | succ j ih =>
    have hrun := hpos j (by omega)
    rcases Nat.lt_or_ge j i with hlt | hge
    · have : i = j + 1 := by omega
      exact Int.le_of_eq (by rw [this])
    · have hle := ih hge (by omega)
      simp only [begins]
      omega

theorem begins_congr {schedule' : Nat → Entry V H}
    (h : ∀ i, (schedule' i).runtime = (schedule i).runtime) (i : Nat) :
    begins schedule' i = begins schedule i := by
  induction i with
  | zero => rfl
  | succ i ih => rw [begins, begins, ih, h i]

end

theorem begins_nonneg (hpos : ∀ i < n, 0 < (schedule i).runtime) {i : Nat} (hi : i ≤ n) :
    0 ≤ begins schedule i :=
  begins_mono hpos (Nat.zero_le i) hi

omit [DecidableEq V] [DecidableEq H] in
theorem begins_eq_sum {l : List (SysctlEntry H)}
    (h : ∀ i e, l[i]? = some e → (schedule i).runtime = e.runtime.toNat) {i : Nat} (hi : i ≤ l.length) :
    begins schedule i = ((l.take i).map fun e => e.runtime.toNat).sum := by
  induction i with
  | zero => simp [begins]
  | succ i ih =>
    have hget : l[i]? = some l[i] := List.getElem?_eq_getElem (by omega)
    have hsum : ((l.take (i + 1)).map fun e => e.runtime.toNat).sum =
        ((l.take i).map fun e => e.runtime.toNat).sum + l[i].runtime.toNat := by
      rw [List.take_add_one, hget, List.map_append, List.sum_append_nat]
      simp
    rw [hsum, begins, ih (by omega), h i _ hget]
    omega

end Schedule

omit [DecidableEq V] in
theorem runtime_ne_zero {l : List (SysctlEntry H)} {found : Bool} {total : UInt64}
    {result : Bool × UInt64} (h : checkEntries names l found total = some result) :
    ∀ e ∈ l, e.runtime ≠ 0 := by
  induction l generalizing found total with
  | nil => simp
  | cons e rest ih =>
    simp only [checkEntries] at h
    split at h
    · cases h
    · rename_i hbad
      intro e' he'
      rcases List.mem_cons.mp he' with rfl | hmem
      · exact fun h0 => hbad (.inr h0)
      · exact ih h e' hmem

/-- What is accepted has entries, not more than the table, and each has some time. -/
theorem accepts_cases {r : Sysctl H} (h : accepts names r = true) :
    1 ≤ r.schedEntries.length ∧ r.schedEntries.length ≤ maxEntries ∧
      ∀ e ∈ r.schedEntries, e.runtime ≠ 0 := by
  unfold accepts at h
  split at h
  · cases h
  · rename_i hshape
    rw [not_or, not_or, Nat.not_lt, Nat.not_lt] at hshape
    refine ⟨hshape.2.1, hshape.2.2, ?_⟩
    split at h
    · cases h
    · rename_i hcheck
      exact runtime_ne_zero names hcheck

omit [DecidableEq H] in
theorem runtime_le_total {r : Sysctl H} {e : SysctlEntry H} (he : e ∈ r.schedEntries) :
    e.runtime.toNat ≤ r.total :=
  List.single_le_sum (fun _ _ => Nat.zero_le _) _ (List.mem_map_of_mem he)

/-! ## A frame -/

namespace State

variable {s : State V H}

/-- The schedule in place, and where its vCPUs come from. -/
structure Fits (s : State V H) : Prop where
  entries_pos : 0 < s.numScheduleEntries
  entries_le : s.numScheduleEntries ≤ maxEntries
  runtime_pos : ∀ i < s.numScheduleEntries, 0 < (s.schedule i).runtime
  sum_le : begins s.schedule s.numScheduleEntries ≤ s.majorFrame
  room : s.numScheduleEntries < maxEntries ∨ begins s.schedule s.numScheduleEntries = s.majorFrame
  found : ∀ i < s.numScheduleEntries,
    (s.schedule i).vc = findVcpu names s.vcpuList (s.schedule i).domHandle (s.schedule i).vcpuId

/-- A frame has been started and its last call was in the entry at the index. -/
structure InFrame (s : State V H) : Prop where
  frame_nonneg : 0 ≤ s.frame
  ends : s.nextMajorFrame = s.frame + s.majorFrame
  ends_lt : s.nextMajorFrame < 2 ^ 63
  index_le : s.schedIndex ≤ s.numScheduleEntries
  reached : s.frame + begins s.schedule s.schedIndex ≤ s.clock
  switch : s.nextSwitchTime = s.boundary s.frame s.schedIndex

structure Inv (s : State V H) : Prop where
  fits : s.Fits names
  clock_nonneg : 0 ≤ s.clock
  phase : s.nextMajorFrame ≤ s.clock ∨ s.InFrame

omit [DecidableEq V] in
theorem Fits.congr (hs : s.Fits names) {s' : State V H} (hschedule : s'.schedule = s.schedule)
    (hn : s'.numScheduleEntries = s.numScheduleEntries) (hframe : s'.majorFrame = s.majorFrame)
    (hlist : s'.vcpuList = s.vcpuList) : s'.Fits names := by
  constructor
  · rw [hn]; exact hs.entries_pos
  · rw [hn]; exact hs.entries_le
  · rw [hn, hschedule]; exact hs.runtime_pos
  · rw [hn, hschedule, hframe]; exact hs.sum_le
  · rw [hn, hschedule, hframe]; exact hs.room
  · rw [hn, hschedule, hlist]; exact hs.found

theorem Fits.begins_le (hs : s.Fits names) {i : Nat} (hi : i ≤ s.numScheduleEntries) :
    begins s.schedule i ≤ s.majorFrame :=
  Int.le_trans (begins_mono hs.runtime_pos hi (Nat.le_refl _)) hs.sum_le

theorem Fits.begins_bounds (hs : s.Fits names) {i : Nat} (hi : i ≤ s.numScheduleEntries) :
    0 ≤ begins s.schedule i ∧ begins s.schedule i ≤ s.majorFrame :=
  ⟨begins_nonneg hs.runtime_pos hi, hs.begins_le names hi⟩

/-- The loop stops in the entry that the time falls into. -/
theorem Fits.catchUp (hs : s.Fits names) {f now : Int} (hf : 0 ≤ f) (hend : f + s.majorFrame < 2 ^ 63)
    (hnow : now < f + s.majorFrame) (left index : Nat) (next : Int)
    (hleft : index + left = s.numScheduleEntries) (hreached : f + begins s.schedule index ≤ now)
    (hnext : index < s.numScheduleEntries → next = f + begins s.schedule (index + 1)) :
    ∃ i next', s.catchUp now left index next = .ok (i, next') ∧ i ≤ s.numScheduleEntries ∧
      f + begins s.schedule i ≤ now ∧
      (i < s.numScheduleEntries → next' = f + begins s.schedule (i + 1) ∧ now < next') := by
  induction left generalizing index next with
  | zero =>
    refine ⟨index, next, rfl, by omega, hreached, ?_⟩
    intro hi
    omega
  | succ left ih =>
    have hi : index < s.numScheduleEntries := by omega
    have hsw := hnext hi
    by_cases hover : next ≤ now
    · -- the entry is over; the one behind it is in the table, or the frame would be over too
      have hroom : index + 1 < maxEntries := by
        have hle := hs.entries_le
        rcases hs.room with hlt | hfull
        · omega
        · by_contra hge
          have hlast : index + 1 = s.numScheduleEntries := by omega
          rw [hlast, hfull] at hsw
          omega
      have hstep : s.catchUp now (left + 1) index next =
          s.catchUp now left (index + 1) (sTime (next + (s.schedule (index + 1)).runtime)) := by
        rw [State.catchUp, if_pos hover, if_pos hroom]
      rw [hstep]
      apply ih
      · omega
      · omega
      · intro hlt
        have hb := hs.begins_bounds names (i := index + 1 + 1) hlt
        have hsum : next + (s.schedule (index + 1)).runtime =
            f + begins s.schedule (index + 1 + 1) := by
          rw [hsw]
          exact Int.add_assoc ..
        rw [hsum]
        apply sTime_eq <;> omega
    · refine ⟨index, next, ?_, by omega, hreached, fun _ => ⟨hsw, by omega⟩⟩
      rw [State.catchUp, if_neg hover]

theorem Inv.position (hs : s.Inv names) {now : Int} (hnow : s.clock ≤ now)
    (hend : s.nextMajorFrame ≤ now → now + s.majorFrame < 2 ^ 63) :
    ∃ index next frame, s.position now = .ok { s with
        schedIndex := index
        nextSwitchTime := next
        nextMajorFrame := frame + s.majorFrame
        frame := frame } ∧
      frame = (if s.nextMajorFrame ≤ now then now else s.frame) ∧
      0 ≤ frame ∧ frame + s.majorFrame < 2 ^ 63 ∧ now < frame + s.majorFrame ∧
      index ≤ s.numScheduleEntries ∧ frame + begins s.schedule index ≤ now ∧
      (index < s.numScheduleEntries → next = frame + begins s.schedule (index + 1) ∧ now < next) := by
  have hclock := hs.clock_nonneg
  have hn := hs.fits.entries_pos
  have hfirst := hs.fits.begins_bounds names (i := 1) hn
  have hpos := hs.fits.runtime_pos 0 hn
  have hone : begins s.schedule 1 = (s.schedule 0).runtime := Int.zero_add _
  by_cases hnew : s.nextMajorFrame ≤ now
  · -- a new frame, in its first entry
    have hlt := hend hnew
    refine ⟨0, now + (s.schedule 0).runtime, now, ?_, (if_pos hnew).symm, by omega, hlt, by omega,
      Nat.zero_le _, ?_, ?_⟩
    · rw [State.position, if_pos hnew, sTime_eq (by omega) hlt, sTime_eq (by omega) (by omega)]
    · exact Int.le_of_eq (Int.add_zero _)
    · intro _
      rw [hone]
      exact ⟨rfl, by omega⟩
  · -- the frame goes on
    have hin : s.InFrame := by
      rcases hs.phase with hold | hin
      · omega
      · exact hin
    have hends := hin.ends
    have hends_lt := hin.ends_lt
    have hreached := hin.reached
    have hindex := hin.index_le
    obtain ⟨i, next, hup, hi, hle, hsw⟩ := hs.fits.catchUp names hin.frame_nonneg
      (by omega) (show now < s.frame + s.majorFrame by omega)
      (s.numScheduleEntries - s.schedIndex) s.schedIndex s.nextSwitchTime (by omega) (by omega)
      (fun hlt => by rw [hin.switch, boundary, if_pos hlt])
    refine ⟨i, next, s.frame, ?_, (if_neg hnew).symm, hin.frame_nonneg, by omega, by omega, hi, hle, hsw⟩
    rw [State.position, if_neg hnew, hup, ← hends]

omit [DecidableEq V] in
/-- What `new_task` is for the entry at the index. -/
theorem Fits.newTask (hs : s.Fits names) (runnable : V → Bool) :
    s.newTask runnable = some (s.taskOf names false runnable s.schedIndex) := by
  by_cases hi : s.schedIndex < s.numScheduleEntries
  · have hidle : ¬ (false = true ∨ s.numScheduleEntries ≤ s.schedIndex) := by simpa using hi
    rw [State.newTask, taskOf, if_pos hi, if_neg hidle, hs.found _ hi]
    cases findVcpu names s.vcpuList (s.schedule s.schedIndex).domHandle
        (s.schedule s.schedIndex).vcpuId with
    | none => rfl
    | some v => by_cases hrun : s.awake v = true ∧ runnable v = true <;> simp [canRun, hrun]
  · have hidle : false = true ∨ s.numScheduleEntries ≤ s.schedIndex := .inr (Nat.not_lt.mp hi)
    rw [State.newTask, taskOf, if_neg hi, if_pos hidle]
    rfl

/-- What a call does, in a frame that the rest of the state says. -/
theorem Inv.doSchedule (hs : s.Inv names) {now : Int} (hnow : s.clock ≤ now)
    (hend : s.nextMajorFrame ≤ now → now + s.majorFrame < 2 ^ 63) (taskletWork : Bool)
    (runnable : V → Bool) :
    ∃ s' slice, s.doSchedule now taskletWork runnable = .ok (s', slice) ∧
      s'.frame = (if s.nextMajorFrame ≤ now then now else s.frame) ∧
      Selects names now taskletWork runnable s' slice ∧
      State.Inv names { s' with clock := now } := by
  obtain ⟨i, next, f, hpos, hf, hf0, hlt, hin, hi, hreached, hsw⟩ := hs.position names hnow hend
  -- the state in which the slice is made up
  let s' : State V H := { s with
    schedIndex := i
    nextSwitchTime := s.boundary f i
    nextMajorFrame := f + s.majorFrame
    frame := f }
  have hfits : s'.Fits names := hs.fits.congr names rfl rfl rfl rfl
  have hbound : now < s.boundary f i ∧ s.boundary f i ≤ f + s.majorFrame := by
    unfold boundary
    split_ifs with hlast
    · have hb := hs.fits.begins_bounds names (i := i + 1) hlast
      obtain ⟨hnext, hlt'⟩ := hsw hlast
      omega
    · omega
  have htime : sTime (s.boundary f i - now) = s.boundary f i - now := by
    have hclock := hs.clock_nonneg
    apply sTime_eq <;> omega
  have hswitch : ({ s with
      schedIndex := i
      nextSwitchTime := next
      nextMajorFrame := f + s.majorFrame
      frame := f } : State V H).switchTime = s.boundary f i := by
    unfold switchTime boundary
    dsimp only
    split_ifs with h1 h2 h2
    · omega
    · rfl
    · exact (hsw h2).1
    · omega
  refine ⟨s', ⟨s'.taskOf names taskletWork runnable i, s.boundary f i - now⟩, ?_, hf, ?_, ?_⟩
  · have htask := hfits.newTask names runnable
    unfold State.doSchedule
    rw [hpos]
    dsimp only
    rw [hswitch]
    change (match s'.newTask runnable with | none => _ | some task => _) = _
    rw [htask]
    dsimp only
    rw [if_neg (by omega), htime, if_neg (by omega)]
    have htask' : (if taskletWork = true then Task.idle else s'.taskOf names false runnable i) =
        s'.taskOf names taskletWork runnable i := by
      cases taskletWork
      · rfl
      · simp [taskOf]
    rw [← htask']
  · exact ⟨i, hi, hreached, hbound.1, rfl, show now + (s.boundary f i - now) = s.boundary f i by omega⟩
  · refine ⟨hs.fits.congr names rfl rfl rfl rfl, Int.le_trans hs.clock_nonneg hnow, .inr ?_⟩
    exact ⟨hf0, rfl, hlt, hi, hreached, rfl⟩

/-! ## The other steps -/

omit [DecidableEq V] in
theorem updateScheduleVcpus_runtime (s : State V H) (i : Nat) :
    ((s.updateScheduleVcpus names).schedule i).runtime = (s.schedule i).runtime := by
  simp only [updateScheduleVcpus]
  split <;> rfl

/-- A vCPU goes to sleep, or wakes up. -/
theorem Inv.awake (hs : s.Inv names) (awake : V → Bool) : State.Inv names { s with awake := awake } := by
  refine ⟨hs.fits.congr names rfl rfl rfl rfl, hs.clock_nonneg, hs.phase.imp_right fun hin => ?_⟩
  exact ⟨hin.frame_nonneg, hin.ends, hin.ends_lt, hin.index_le, hin.reached, hin.switch⟩

theorem Fits.updateScheduleVcpus (h0 : 0 < s.numScheduleEntries) (hn : s.numScheduleEntries ≤ maxEntries)
    (hpos : ∀ i < s.numScheduleEntries, 0 < (s.schedule i).runtime)
    (hsum : begins s.schedule s.numScheduleEntries ≤ s.majorFrame)
    (hroom : s.numScheduleEntries < maxEntries ∨ begins s.schedule s.numScheduleEntries = s.majorFrame) :
    (s.updateScheduleVcpus names).Fits names := by
  have hrun := s.updateScheduleVcpus_runtime names
  have hbegins := begins_congr hrun
  refine ⟨h0, hn, fun i hi => ?_, ?_, ?_, ?_⟩
  · rw [hrun]
    exact hpos i hi
  · rw [hbegins]
    exact hsum
  · rw [hbegins]
    exact hroom
  · intro i hi
    have hi' : i < s.numScheduleEntries := hi
    simp only [State.updateScheduleVcpus, if_pos hi']

theorem Inv.relist (hs : s.Inv names) (vcpuList : List V) (awake : V → Bool) :
    ({ s with vcpuList := vcpuList, awake := awake }.updateScheduleVcpus names).Inv names := by
  let t : State V H := { s with vcpuList := vcpuList, awake := awake }
  have hrun := t.updateScheduleVcpus_runtime names
  have hbegins := begins_congr hrun
  have hfits := hs.fits
  refine ⟨Fits.updateScheduleVcpus names hfits.entries_pos hfits.entries_le hfits.runtime_pos
    hfits.sum_le hfits.room, hs.clock_nonneg, hs.phase.imp_right fun hin => ?_⟩
  refine ⟨hin.frame_nonneg, hin.ends, hin.ends_lt, hin.index_le, ?_, ?_⟩
  · rw [hbegins]
    exact hin.reached
  · unfold boundary
    rw [hbegins]
    exact hin.switch

omit [DecidableEq V] in
theorem copied_runtime {r : Sysctl H} (hr : r.total < 2 ^ 63) {i : Nat} {e : SysctlEntry H}
    (he : r.schedEntries[i]? = some e) : (s.copied r i).runtime = e.runtime.toNat := by
  have hle := runtime_le_total (List.mem_of_getElem? he)
  have hrun : sTime e.runtime.toNat = e.runtime.toNat := sTime_eq (by omega) (by omega)
  simp only [copied, he]
  exact hrun

theorem Inv.schedSet (hs : s.Inv names) {r : Sysctl H} {now : Int} (hnow : s.clock ≤ now)
    (hr : accepts names r = true → r.total ≤ r.majorFrame.toNat ∧ r.majorFrame.toNat < 2 ^ 63 ∧
      (r.schedEntries.length < maxEntries ∨ r.total = r.majorFrame.toNat)) :
    State.Inv names { s.schedSet names r now with clock := now } := by
  have hclock := hs.clock_nonneg
  unfold State.schedSet
  split
  next hacc =>
    obtain ⟨hsum, hlt, hroom⟩ := hr hacc
    obtain ⟨hlen, hmax, hne⟩ := accepts_cases names hacc
    have hframe : sTime r.majorFrame.toNat = r.majorFrame.toNat := sTime_eq (by omega) (by omega)
    rw [hframe]
    let t : State V H := { s with
      numScheduleEntries := r.schedEntries.length
      majorFrame := r.majorFrame.toNat
      schedule := s.copied r }
    have hrun : ∀ i e, r.schedEntries[i]? = some e → (s.copied r i).runtime = e.runtime.toNat :=
      fun i e he => copied_runtime (by omega) he
    have hbegins : begins t.schedule t.numScheduleEntries = r.total := by
      change begins (s.copied r) r.schedEntries.length = r.total
      rw [begins_eq_sum hrun (Nat.le_refl _), List.take_length]
      rfl
    have hfits : (t.updateScheduleVcpus names).Fits names := by
      refine Fits.updateScheduleVcpus names hlen hmax ?_ ?_ ?_
      · intro i hi
        have hget : r.schedEntries[i]? = some (r.schedEntries.get ⟨i, hi⟩) :=
          List.getElem?_eq_getElem hi
        have hpos : (r.schedEntries.get ⟨i, hi⟩).runtime ≠ 0 := hne _ (List.get_mem ..)
        have hnat : (r.schedEntries.get ⟨i, hi⟩).runtime.toNat ≠ 0 :=
          fun h0 => hpos (UInt64.toNat.inj h0)
        have hi' := hrun i _ hget
        change 0 < (s.copied r i).runtime
        omega
      · rw [hbegins]
        exact Int.ofNat_le.mpr hsum
      · rw [hbegins]
        exact hroom.imp_right (congrArg Int.ofNat)
    refine ⟨hfits.congr names rfl rfl rfl rfl, ?_, .inl (Int.le_refl now)⟩
    exact Int.le_trans hclock hnow
  next =>
    refine ⟨hs.fits.congr names rfl rfl rfl rfl, Int.le_trans hclock hnow, ?_⟩
    rcases hs.phase with hold | hin
    · exact .inl (Int.le_trans hold hnow)
    · exact .inr ⟨hin.frame_nonneg, hin.ends, hin.ends_lt, hin.index_le, Int.le_trans hin.reached hnow,
        hin.switch⟩

omit [DecidableEq V] in
theorem Inv.init : (init names : State V H).Inv names := by
  have hbegins : begins (Arinc.init names : State V H).schedule 1 = tenMillisecs := rfl
  have hmax : 1 < maxEntries := by decide
  refine ⟨⟨Nat.one_pos, Nat.le_of_lt hmax, ?_, ?_, .inl hmax, ?_⟩, Int.le_refl 0, .inl (Int.le_refl 0)⟩
  · intro i hi
    have hi0 : i = 0 := Nat.lt_one_iff.mp hi
    subst hi0
    exact (by decide : 0 < tenMillisecs)
  · exact Int.le_of_eq hbegins
  · intro i _
    rfl

end State

/-- Every step keeps the invariant. -/
theorem Inv.act {step : Step V H} {s : State V H} (htime : Timely step s) (hsound : Sound names step s)
    (hs : s.Inv names) : (act names step s).Inv names := by
  cases step with
  | schedSet r now => exact hs.schedSet names htime hsound
  | doSchedule now taskletWork runnable =>
    obtain ⟨s', slice, hcall, -, -, hinv⟩ := hs.doSchedule names htime hsound taskletWork runnable
    simp only [Arinc.act, hcall]
    exact hinv
  | allocVdata v ok =>
    simp only [Arinc.act, State.allocVdata]
    split
    · exact hs.relist names ..
    · exact hs
  | freeVdata v => exact hs.relist names _ s.awake
  | sleep v => exact hs.awake names _
  | wake v => exact hs.awake names _

section Example

/-- The vCPUs of one domain, the control domain. -/
def dom0Names : Names Nat Nat := ⟨fun _ => 0, id, 0⟩

instance (step : Step V H) (s : State V H) : Decidable (Timely step s) :=
  match step with
  | .schedSet .. | .doSchedule .. => inferInstanceAs (Decidable (_ ≤ _))
  | .allocVdata .. | .freeVdata .. | .sleep .. | .wake .. => isTrue trivial

instance (step : Step V H) (s : State V H) : Decidable (Sound names step s) :=
  match step with
  | .schedSet .. | .doSchedule .. => inferInstanceAs (Decidable (_ → _))
  | .allocVdata .. | .freeVdata .. | .sleep .. | .wake .. => isTrue trivial

/-- Two entries, of which the second has no vCPU, and a rest. -/
def twoEntries : List (Step Nat Nat) :=
  [.allocVdata 0 true, .wake 0, .schedSet ⟨100, [⟨0, 0, 30⟩, ⟨0, 1, 20⟩]⟩ 5,
    .doSchedule 7 false (fun _ => true),
    .doSchedule 40 false (fun _ => true), .doSchedule 90 false (fun _ => true),
    .doSchedule 107 false (fun _ => true)]

omit [DecidableEq V] in
theorem not_partitioned {s : State V H} {now : Int} {taskletWork : Bool} {runnable : V → Bool}
    (h : (s.doSchedule now taskletWork runnable).toBool = false) :
    ¬ Partitioned names (.doSchedule now taskletWork runnable) s := by
  rintro ⟨s', slice, hcall, -⟩
  rw [hcall] at h
  cases h

/-- 64 entries, and a call after the last one. -/
def fullTable : List (Step Nat Nat) :=
  [.schedSet ⟨100, List.replicate 64 ⟨0, 0, 1⟩⟩ 0, .doSchedule 0 false (fun _ => true),
    .doSchedule 70 false (fun _ => true)]

/-- Two runtimes whose sum is 5 in 64 bits. -/
def wrappedSum : List (Step Nat Nat) :=
  [.schedSet ⟨100, [⟨0, 0, 18446744073709551611⟩, ⟨0, 1, 10⟩]⟩ 0, .doSchedule 0 false (fun _ => true)]

/-- A frame that does not end. -/
def endlessFrame : List (Step Nat Nat) :=
  [.schedSet ⟨9223372036854775807, [⟨0, 0, 10⟩]⟩ 0, .doSchedule 1 false (fun _ => true)]

end Example

end Sched.Arinc
