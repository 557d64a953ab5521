import MemoryMonitor.Timer.Heap

/-!
# Timers (`xen/common/timer.c`)

Each CPU keeps its timers in a heap, in a sorted list for those that found the
heap full, or in a list of inactive ones. An operation runs under the locks of the
CPUs it touches and is one step. `timer_softirq_action` takes its lock several
times: to replace the heap, and again after every callback. `World.softirq` holds
where each CPU is in it; anything can happen in between, also to the timers of
that CPU.

All CPUs share `dummy_heap` at first; as it is full and empty at once, nobody
writes to it, and here each CPU has a copy.

`none` as a result is a `BUG`. `list_next`, `heap_offset` and the links of the
inactive list share their storage in the source; here the lists are lists.
-/

namespace Timer

/-- `TIMER_STATUS_*`. -/
inductive Status where
  | invalid | inactive | killed | inHeap | inList
  deriving DecidableEq

/-- `struct timers`. -/
structure Timers where
  heap : Heap
  list : List Tid
  running : Option Tid
  inactive : List Tid

/-- Where a CPU is in `timer_softirq_action`. -/
inductive Phase where
  /-- A larger heap has been allocated. -/
  | grow (oldLimit : Nat)
  /-- Before the lock is taken to execute timers. -/
  | ready
  /-- In the callback of a timer from the heap, or from the list. -/
  | heapTimer (now : Int)
  | listTimer (now : Int)
  deriving DecidableEq

/-- The timers and the CPUs. `cpu` is `none` for a timer that has not been
initialised or has been killed. The last field is history: when the active timers
expired at the end of the last `timer_softirq_action`. -/
structure World where
  expires : Tid → Int
  heapOffset : Tid → Nat
  cpu : Tid → Option Nat
  status : Tid → Status
  ts : Nat → Timers
  softirq : Nat → Option Phase
  /-- `TIMER_SOFTIRQ` has been raised since the last `timer_softirq_action` ended. -/
  raised : Nat → Bool
  timerDeadline : Nat → Int
  lastExpires : Nat → List Int

/-- `STIME_MAX`. -/
def stimeMax : Int := 2 ^ 63 - 1

/-- A sum of two `s_time_t`. -/
def addTime (a b : Int) : Int := Int.bmod (a + b) (2 ^ 64)

/-! ## Lists -/

/-- `remove_from_list`; `none` if the list has come to its end. -/
def removeFromList (t : Tid) : List Tid → Option (List Tid)
  | [] => none
  | curr :: rest => if curr = t then some rest else (removeFromList t rest).map (curr :: ·)

/-- `add_to_list`: behind those that expire no later. -/
def addToList (expires : Tid → Int) (t : Tid) : List Tid → List Tid
  | [] => [t]
  | curr :: rest =>
      if expires curr ≤ expires t then curr :: addToList expires t rest else t :: curr :: rest

/-- The answer of `add_to_list`: whether `t` comes first. -/
def firstInList (expires : Tid → Int) (t : Tid) : List Tid → Bool
  | [] => true
  | curr :: _ => expires t < expires curr

namespace World

def setTs (w : World) (c : Nat) (f : Timers → Timers) : World :=
  { w with ts := Function.update w.ts c (f (w.ts c)) }

def setStatus (w : World) (t : Tid) (s : Status) : World :=
  { w with status := Function.update w.status t s }

def setCpu (w : World) (t : Tid) (c : Option Nat) : World :=
  { w with cpu := Function.update w.cpu t c }

/-- The heap of CPU `c`, and `heap_offset` of all timers. -/
def setHeap (w : World) (c : Nat) (h : Heap.Placed) : World :=
  { w.setTs c fun ts => { ts with heap := h.1 } with heapOffset := h.2 }

def setList (w : World) (c : Nat) (l : List Tid) : World := w.setTs c fun ts => { ts with list := l }

def setSoftirq (w : World) (c : Nat) (p : Option Phase) : World :=
  { w with softirq := Function.update w.softirq c p }

/-- `cpu_raise_softirq(c, TIMER_SOFTIRQ)`, if `cond`. -/
def raiseIf (w : World) (c : Nat) (cond : Bool) : World :=
  { w with raised := Function.update w.raised c (w.raised c || cond) }

/-- `list_add(&t->inactive, ...)` and `list_del`. -/
def addInactive (w : World) (c : Nat) (t : Tid) : World :=
  w.setTs c fun ts => { ts with inactive := t :: ts.inactive }
def delInactive (w : World) (c : Nat) (t : Tid) : World :=
  w.setTs c fun ts => { ts with inactive := ts.inactive.erase t }

end World

/-! ## Entries -/

def removeEntry (t : Tid) (w : World) : Option (Bool × World) :=
  match w.cpu t with
  | none => none
  | some c =>
      match w.status t with
      | .inHeap =>
          let (rc, h) := Heap.removeFromHeap w.expires ((w.ts c).heap, w.heapOffset) t
          some (rc, (w.setHeap c h).setStatus t .invalid)
      | .inList =>
          match removeFromList t (w.ts c).list with
          | none => none
          | some l => some ((w.ts c).list.head? == some t, (w.setList c l).setStatus t .invalid)
      | .invalid | .inactive | .killed => none

def addEntry (t : Tid) (w : World) : Option (Bool × World) :=
  match w.cpu t with
  | none => none
  | some c =>
      let (rc, h) := Heap.addToHeap w.expires
        ((w.ts c).heap, Function.update w.heapOffset t 0) t
      if h.2 t ≠ 0 then some (rc, (w.setHeap c h).setStatus t .inHeap)
      else
        let l := (w.ts c).list
        some (firstInList w.expires t l,
          ((w.setHeap c h).setList c (addToList w.expires t l)).setStatus t .inList)

def activateTimer (t : Tid) (w : World) : Option World :=
  match w.cpu t with
  | none => none
  | some c =>
      match addEntry t ((w.setStatus t .invalid).delInactive c t) with
      | none => none
      | some (rc, w) => some (w.raiseIf c rc)

def deactivateTimer (t : Tid) (w : World) : Option World :=
  match w.cpu t with
  | none => none
  | some c =>
      match removeEntry t w with
      | none => none
      | some (rc, w) => some (((w.raiseIf c rc).setStatus t .inactive).addInactive c t)

def activeTimer (t : Tid) (w : World) : Bool := w.status t = .inHeap ∨ w.status t = .inList

/-- `if ( active_timer(timer) ) deactivate_timer(timer);` -/
def deactivateIfActive (t : Tid) (w : World) : Option World :=
  if activeTimer t w then deactivateTimer t w else some w

/-! ## Operations -/

/-- `init_timer`, which must only be called for a new or a killed timer. -/
def initTimer (t : Tid) (c : Nat) (w : World) : World :=
  { w with
    expires := Function.update w.expires t 0
    heapOffset := Function.update w.heapOffset t 0
    cpu := Function.update w.cpu t (some c)
    status := Function.update w.status t .inactive }.addInactive c t

def setTimer (t : Tid) (expires : Int) (w : World) : Option World :=
  if w.cpu t = none then some w
  else
    match deactivateIfActive t w with
    | none => none
    | some w => activateTimer t { w with expires := Function.update w.expires t expires }

def stopTimer (t : Tid) (w : World) : Option World :=
  if w.cpu t = none then some w else deactivateIfActive t w

def migrateTimer (t : Tid) (newCpu : Nat) (w : World) : Option World :=
  match w.cpu t with
  | none => some w
  | some oldCpu =>
      if oldCpu = newCpu then some w
      else
        let active := activeTimer t w
        match deactivateIfActive t w with
        | none => none
        | some w =>
            let w := ((w.delInactive oldCpu t).setCpu t (some newCpu)).addInactive newCpu t
            if active then activateTimer t w else some w

/-- `kill_timer` on CPU `c`; the wait for a running callback is left out. -/
def killTimer (c : Nat) (t : Tid) (w : World) : Option World :=
  if (w.ts c).running = some t then none
  else
    match w.cpu t with
    | none => some w
    | some oldCpu =>
        match deactivateIfActive t w with
        | none => none
        | some w => some (((w.delInactive oldCpu t).setStatus t .killed).setCpu t none)

/-! ## `timer_softirq_action` -/

/-- The new limit `2^(n+4) - 1`, for an old one of `2^n - 1`. -/
def newLimit (oldLimit : Nat) : Nat := (oldLimit + 1) * 16 - 1

/-- A heap of `new_limit + 1` words with the old one copied into it. -/
def Heap.grow (oldLimit : Nat) (h : Heap) : Heap :=
  Heap.setLimit
    { slot := fun i => if i ≤ oldLimit then h.slot i else 0
      size := h.size
      limit := h.limit
      slots := newLimit oldLimit + 1 }
    (newLimit oldLimit)

/-- `execute_timer`, up to the callback. -/
def executeTimer (c : Nat) (t : Tid) (w : World) : World :=
  ((w.setStatus t .inactive).addInactive c t).setTs c fun ts => { ts with running := some t }

/-- The timers of the list move to the heap, as far as there is room. -/
def moveList : List Tid → World → Option World
  | [], w => some w
  | t :: rest, w =>
      match addEntry t (w.setStatus t .invalid) with
      | none => none
      | some (_, w) => moveList rest w

/-- The earliest expiry: the top of the heap or the head of the list. -/
def earliest (w : World) (c : Nat) : Int :=
  let ts := w.ts c
  let deadline := if ts.heap.size ≠ 0 then w.expires (ts.heap.slot 1) else stimeMax
  match ts.list with
  | [] => deadline
  | t :: _ => if w.expires t < deadline then w.expires t else deadline

/-- When the timers in the heap and in the list expire. -/
def World.activeExpires (w : World) (c : Nat) : List Int :=
  (List.range' 1 (w.ts c).heap.size).map (fun i => w.expires ((w.ts c).heap.slot i)) ++
    (w.ts c).list.map w.expires

/-- The end of `timer_softirq_action`; `reprogrammed` is the result of
`reprogram_timer`. -/
def finish (timerSlop : Int) (c : Nat) (reprogrammed : Bool) (w : World) : Option World :=
  match moveList (w.ts c).list (w.setList c []) with
  | none => none
  | some w =>
      let deadline := earliest w c
      some { w with
        timerDeadline := Function.update w.timerDeadline c
          (if deadline = stimeMax then 0 else addTime deadline timerSlop)
        lastExpires := Function.update w.lastExpires c (w.activeExpires c)
        raised := Function.update w.raised c (!reprogrammed)
        softirq := Function.update w.softirq c none }

/-- `Execute ready list timers`, up to the next callback. -/
def listTimers (timerSlop : Int) (c : Nat) (now : Int) (reprogrammed : Bool) (w : World) :
    Option World :=
  match (w.ts c).list with
  | [] => finish timerSlop c reprogrammed w
  | t :: rest =>
      if w.expires t < now then
        some ((executeTimer c t (w.setList c rest)).setSoftirq c (some (.listTimer now)))
      else finish timerSlop c reprogrammed w

/-- `Execute ready heap timers`, up to the next callback. -/
def heapTimers (timerSlop : Int) (c : Nat) (now : Int) (reprogrammed : Bool) (w : World) :
    Option World :=
  let heap := (w.ts c).heap
  let t := heap.slot 1
  if heap.size ≠ 0 ∧ w.expires t < now then
    let (_, h) := Heap.removeFromHeap w.expires (heap, w.heapOffset) t
    some ((executeTimer c t (w.setHeap c h)).setSoftirq c (some (.heapTimer now)))
  else listTimers timerSlop c now reprogrammed w

/-- The next part of `timer_softirq_action` on CPU `c`; `now` is `NOW()`. -/
def Phase.step (timerSlop : Int) (c : Nat) (now : Int) (reprogrammed : Bool) (w : World) :
    Phase → Option World
  | .grow oldLimit =>
      some ((w.setTs c fun ts => { ts with heap := ts.heap.grow oldLimit }).setSoftirq c
        (some .ready))
  | .ready => heapTimers timerSlop c now reprogrammed w
  | .heapTimer now =>
      heapTimers timerSlop c now reprogrammed (w.setTs c fun ts => { ts with running := none })
  | .listTimer now =>
      listTimers timerSlop c now reprogrammed (w.setTs c fun ts => { ts with running := none })

/-! ## CPU removal -/

/-- The active timers, `n` of them at most; the flag is `notify`. -/
def moveActive (oldCpu newCpu : Nat) : Nat → Bool × World → Option (Bool × World)
  | 0, r => some r
  | n + 1, (notify, w) =>
      let ts := w.ts oldCpu
      let first := if ts.heap.size ≠ 0 then some (ts.heap.slot 1) else ts.list.head?
      match first with
      | none => some (notify, w)
      | some t =>
          match removeEntry t w with
          | none => none
          | some (_, w) =>
              match addEntry t (w.setCpu t (some newCpu)) with
              | none => none
              | some (rc, w) => moveActive oldCpu newCpu n (notify || rc, w)

/-- The inactive timers. -/
def moveInactive (oldCpu newCpu : Nat) : List Tid → World → World
  | [], w => w
  | t :: rest, w =>
      moveInactive oldCpu newCpu rest
        (((w.delInactive oldCpu t).setCpu t (some newCpu)).addInactive newCpu t)

def migrateTimersFromCpu (oldCpu newCpu : Nat) (w : World) : Option World :=
  let ts := w.ts oldCpu
  match moveActive oldCpu newCpu (ts.heap.size + ts.list.length) (false, w) with
  | none => none
  | some (notify, w) =>
      some ((moveInactive oldCpu newCpu (w.ts oldCpu).inactive w).raiseIf newCpu notify)

/-! ## Steps -/

/-- CPUs that have been prepared, and no timers. -/
def World.init : World where
  expires _ := 0
  heapOffset _ := 0
  cpu _ := none
  status _ := .invalid
  ts _ := ⟨.dummy, [], none, []⟩
  softirq _ := none
  raised _ := false
  timerDeadline _ := 0
  lastExpires _ := []

/-- One step, by any CPU and from any context, callbacks included. -/
inductive Step where
  | init (t : Tid) (cpu : Nat)
  | set (t : Tid) (expires : Int64)
  | stop (t : Tid)
  | migrate (t : Tid) (newCpu : Nat)
  | kill (c : Nat) (t : Tid)
  /-- `timer_softirq_action` begins; `alloc` is whether `xmalloc_array` succeeds. -/
  | softirq (c : Nat) (alloc : Bool)
  /-- It goes on, with the clock at `now`. -/
  | next (c : Nat) (now : Int) (reprogrammed : Bool)
  /-- `migrate_timers_from_cpu`, from a CPU that is not online to one that is. -/
  | removeCpu (oldCpu newCpu : Nat)
  /-- `CPU_UP_PREPARE` for a CPU that has never had timers or lost them when it
  was removed. -/
  | prepareCpu (c : Nat)

def Step.run (timerSlop : Int) : Step → World → Option World
  | .init t cpu, w => if w.cpu t = none then some (initTimer t cpu w) else some w
  | .set t expires, w => setTimer t expires.toInt w
  | .stop t, w => stopTimer t w
  | .migrate t newCpu, w => migrateTimer t newCpu w
  | .kill c t, w => killTimer c t w
  | .softirq c alloc, w =>
      if w.softirq c ≠ none then some w
      else if (w.ts c).list ≠ [] ∧ alloc then
        some (w.setSoftirq c (some (.grow (w.ts c).heap.limit)))
      else some (w.setSoftirq c (some .ready))
  | .next c now reprogrammed, w =>
      match w.softirq c with
      | none => some w
      | some p => p.step timerSlop c now reprogrammed w
  | .removeCpu oldCpu newCpu, w =>
      if oldCpu = newCpu then some w else migrateTimersFromCpu oldCpu newCpu w
  | .prepareCpu c, w =>
      let ts := w.ts c
      if w.softirq c = none ∧ ts.heap.size = 0 ∧ ts.list = [] ∧ ts.inactive = [] then
        some (w.setTs c fun ts => { ts with heap := .dummy })
      else some w

/-- A run of steps, up to the first `BUG`. -/
def runSteps (timerSlop : Int) : List Step → World → Option World
  | [], w => some w
  | s :: rest, w =>
      match s.run timerSlop w with
      | none => none
      | some w => runSteps timerSlop rest w

end Timer
