import Mathlib
import MemoryMonitor.Lib.Runs

/-!
# Virtual platform timers

`xen/arch/x86/hvm/vpt.c`. A timer of the domain delivers to a vCPU and is on the list of that vCPU.
It is armed while no tick is pending; when it has expired, the tick has to be delivered before it
is armed again. The timers of a vCPU are stopped while it is not running, and made up for when it
runs again. A timer whose interrupt is masked is taken off the list until the guest may have
unmasked it.

`pt_adjust_vcpu` moves a timer in two critical sections, one with the lock of either vCPU. Between
them the timer is on no list. `destroy_periodic_time` takes the timer off its list first, and kills it
when it has dropped the lock: until then the timer may still expire, and be listed again. The same
goes for `create_periodic_time`, which destroys the timer before it takes the lock again.

`NOW()`, the guest time and whether an interrupt is masked or is the one of a timer are arguments.
-/

namespace Hvm.Vpt

/-- `HVM_PARAM_TIMER_MODE`. -/
inductive Mode where
  | delayForMissedTicks
  | noDelayForMissedTicks
  | noMissedTicksPending
  | oneMissedTickPending
  deriving DecidableEq

/-- `PTSRC_isa` and `PTSRC_lapic`. -/
inductive Source where
  | isa | lapic
  deriving DecidableEq

/-- `periodic_time`, for vCPUs `V`. -/
structure Pt (V : Type) where
  onList : Bool
  oneShot : Bool
  doNotFreeze : Bool
  irqIssued : Bool
  source : Source
  irq : BitVec 8
  vcpu : Option V
  /-- `pending_intr_nr`. -/
  pending : BitVec 32
  period : BitVec 64
  scheduled : BitVec 64
  lastPltGtime : BitVec 64
  /-- The timer is in the timer system. -/
  armed : Bool
  /-- `kill_timer` has been called: the timer system leaves it alone. -/
  killed : Bool
  /-- Created and not destroyed. -/
  active : Bool
  /-- The first values of `scheduled` and `last_plt_gtime`, and the ticks delivered since: these are
  not in the source. -/
  first : BitVec 64
  start : BitVec 64
  delivered : Nat

/-- The arguments of `create_periodic_time`. -/
structure Creation (V : Type) where
  vcpu : V
  delta : BitVec 64
  period : BitVec 64
  irq : BitVec 8

/-- `align_timer`. -/
def alignTimer (firsttick period : BitVec 64) : BitVec 64 :=
  if period = 0 then firsttick else firsttick + (period - 1) - (firsttick - 1) % period

namespace Pt

variable {V : Type} (pt : Pt V)

/-- The ticks that `pt_process_missed_ticks` makes up for. -/
def missedTicks (now : BitVec 64) : BitVec 64 :=
  if pt.oneShot then 0
  else
    let missed := now - pt.scheduled
    if missed.toInt ≤ 0 then 0 else missed.sdiv pt.period + 1

/-- `pt_process_missed_ticks`. -/
def processMissedTicks (mode : Mode) (now : BitVec 64) : Pt V :=
  if pt.oneShot then pt
  else if (now - pt.scheduled).toInt ≤ 0 then pt
  else
    let missed := pt.missedTicks now
    let pt := if mode = .noMissedTicksPending then { pt with doNotFreeze := pt.pending = 0 }
      else { pt with pending := pt.pending + missed.setWidth 32 }
    { pt with scheduled := pt.scheduled + missed * pt.period }

/-- `set_timer`. -/
def arm : Pt V := { pt with armed := !pt.killed }

/-- `stop_timer`, unless the timer is not to be frozen. -/
def freeze : Pt V := if pt.doNotFreeze then pt else { pt with armed := false }

/-- The body of the loop of `pt_restore_timer`. -/
def restore (mode : Mode) (now : BitVec 64) : Pt V :=
  if pt.pending = 0 then (pt.processMissedTicks mode now).arm else pt

/-- `pt_timer_fn`, when the timer has left the timer system. -/
def expire : Pt V :=
  { pt with armed := false, pending := pt.pending + 1, scheduled := pt.scheduled + pt.period, doNotFreeze := false }

/-- What `pt_intr_post` does to a periodic timer. -/
def post (mode : Mode) (now gtime : BitVec 64) : Pt V :=
  if mode = .oneMissedTickPending ∨ mode = .noMissedTicksPending then
    let pt := ({ pt with lastPltGtime := gtime }).processMissedTicks mode now
    ({ pt with pending := 0 }).arm
  else
    let pt := { pt with lastPltGtime := pt.lastPltGtime + pt.period, pending := pt.pending - 1 }
    if pt.pending = 0 then
      let pt := pt.processMissedTicks mode now
      if pt.pending = 0 then pt.arm else pt
    else pt

/-- The timer as `create_periodic_time` leaves it. -/
def create (c : Creation V) (now gtime : BitVec 64) (vptAlign : Bool) : Pt V :=
  let period := if c.period.toNat < 100000 ∧ c.period ≠ 0 then 100000 else c.period
  let oneShot : Bool := period = 0
  let scheduled := now + c.delta
  let scheduled := if oneShot then scheduled
    else if vptAlign then alignTimer scheduled period
    else if pt.source = .lapic then scheduled + c.delta >>> 1
    else scheduled
  { pt with
    pending := 0, doNotFreeze := false, irqIssued := false, period := period, vcpu := some c.vcpu
    lastPltGtime := gtime, irq := c.irq, oneShot := oneShot, scheduled := scheduled, onList := true, armed := true
    killed := false, active := true, first := scheduled, start := gtime, delivered := 0 }

end Pt

/-- A call for a timer that has dropped the lock and is not done. -/
inductive Call (V : Type) where
  /-- `pt_adjust_vcpu` between its critical sections, with its `v` and `on_list`. -/
  | adjusting (v : V) (onList : Bool)
  /-- `destroy_periodic_time` before `kill_timer`, by itself or in `create_periodic_time`. -/
  | killing (create : Option (Creation V))
  /-- `create_periodic_time` when it has destroyed the timer. -/
  | creating (c : Creation V)

/-- The timers `T` of a domain with the calls for them, and the lists and the state of its vCPUs. -/
structure State (T V : Type) where
  pt : T → Pt V
  tmList : V → List T
  running : V → Bool
  call : T → Option (Call V)

namespace State

variable {T V : Type} [DecidableEq T] [DecidableEq V] (s : State T V)

def setPt (t : T) (pt : Pt V) : State T V := { s with pt := Function.update s.pt t pt }

/-- `list_del`, and the mark that goes with it. -/
def unlist (t : T) : State T V :=
  { s with
    pt := Function.update s.pt t { s.pt t with onList := false }
    tmList := fun v => (s.tmList v).erase t }

/-- `list_add`. -/
def listAdd (t : T) (v : V) : State T V := { s with tmList := Function.update s.tmList v (t :: s.tmList v) }

/-- Timers of a list, one after another. -/
def eachOf (ts : List T) (f : Pt V → Pt V) : State T V :=
  { s with pt := ts.foldl (fun pts t => Function.update pts t (f (pts t))) s.pt }

/-- `pt_save_timer`. -/
def saveTimer (v : V) (blocked : Bool) : State T V :=
  let s := { s with running := Function.update s.running v false }
  if blocked then s else s.eachOf (s.tmList v) Pt.freeze

/-- `pt_restore_timer`. -/
def restoreTimer (mode : Mode) (v : V) (now : BitVec 64) : State T V :=
  let s := { s with running := Function.update s.running v true }
  s.eachOf (s.tmList v) (Pt.restore · mode now)

/-- `pt_timer_fn`. -/
def timerFn (t : T) : State T V := if (s.pt t).armed then s.setPt t (s.pt t).expire else s

/-- The body of the loop of `pt_update_irq`, with `max_lag` and `earliest_pt`. -/
def lagging (masked : T → Bool) (acc : State T V × BitVec 64 × Option T) (t : T) : State T V × BitVec 64 × Option T :=
  let (s, maxLag, earliest) := acc
  let pt := s.pt t
  if pt.pending = 0 then acc
  else if masked t then (s.unlist t, maxLag, earliest)
  else if pt.lastPltGtime + pt.period < maxLag then (s, pt.lastPltGtime + pt.period, some t)
  else acc

/-- `pt_update_irq`. -/
def updateIrq (v : V) (masked : T → Bool) : State T V :=
  match (s.tmList v).foldl (lagging masked) (s, -1, none) with
  | (s, _, none) => s
  | (s, _, some t) => s.setPt t { s.pt t with irqIssued := true }

/-- `is_pt_irq`; `hit` says which timers have the vector that was acknowledged. -/
def isPtIrq (v : V) (hit : T → Bool) : Option T :=
  (s.tmList v).find? fun t => (s.pt t).pending ≠ 0 && (s.pt t).irqIssued && hit t

/-- `pt_intr_post`. -/
def intrPost (mode : Mode) (v : V) (hit : T → Bool) (now gtime : BitVec 64) : State T V :=
  match s.isPtIrq v hit with
  | none => s
  | some t =>
      let s := s.setPt t { s.pt t with irqIssued := false, delivered := (s.pt t).delivered + 1 }
      if (s.pt t).oneShot then
        let s := if (s.pt t).onList then s.unlist t else s
        s.setPt t { s.pt t with pending := 0 }
      else s.setPt t ((s.pt t).post mode now gtime)

def setCall (t : T) (call : Option (Call V)) : State T V := { s with call := Function.update s.call t call }

/-- `destroy_periodic_time` up to the end of its critical section; `create` is what is to come after it in
`create_periodic_time`. -/
def destroyList (t : T) (create : Option (Creation V)) : State T V :=
  if (s.pt t).vcpu = none then s.setCall t (create.map .creating)
  else
    let s := if (s.pt t).onList then s.unlist t else s
    (s.setPt t { s.pt t with pending := 0, active := false }).setCall t (some (.killing create))

/-- `kill_timer` in `destroy_periodic_time`. -/
def killTimer (t : T) : State T V :=
  match s.call t with
  | some (.killing create) =>
      (s.setPt t { s.pt t with armed := false, killed := true }).setCall t (create.map .creating)
  | _ => s

/-- The critical section of `create_periodic_time`. -/
def createList (vptAlign : Bool) (t : T) (now gtime : BitVec 64) : State T V :=
  match s.call t with
  | some (.creating c) =>
      ((s.setPt t ((s.pt t).create c now gtime vptAlign)).listAdd t c.vcpu).setCall t none
  | _ => s

/-- `destroy_periodic_time`, if nobody comes in between. The lock of the device keeps other calls for the timer away. -/
def destroyPeriodicTime (t : T) : State T V :=
  if (s.call t).isNone then (s.destroyList t none).killTimer t else s

/-- `create_periodic_time`, if nobody comes in between. -/
def createPeriodicTime (vptAlign : Bool) (t : T) (c : Creation V) (now gtime : BitVec 64) : State T V :=
  if (s.call t).isNone then ((s.destroyList t (some c)).killTimer t).createList vptAlign t now gtime else s

/-- `pt_adjust_vcpu` up to the end of its first critical section. -/
def adjustVcpu (t : T) (v : V) : State T V :=
  if (s.pt t).vcpu = none then s
  else
    let onList := (s.pt t).onList
    let s := if onList then s.unlist t else s
    s.setCall t (some (.adjusting v onList))

/-- The second critical section. -/
def adjustEnd (t : T) : State T V :=
  match s.call t with
  | some (.adjusting v onList) =>
      let s := s.setCall t none
      let s := s.setPt t { s.pt t with vcpu := some v }
      if onList then (s.setPt t { s.pt t with onList := true }).listAdd t v else s
  | _ => s

/-- `pt_resume`. -/
def resume (t : T) : State T V :=
  match (s.pt t).vcpu with
  | none => s
  | some v =>
      if (s.pt t).pending ≠ 0 ∧ !(s.pt t).onList then (s.setPt t { s.pt t with onList := true }).listAdd t v else s

end State

/-- What the vCPUs, the timer system and the toolstack do. The lock of the device keeps
`create_periodic_time`, `destroy_periodic_time` and `pt_adjust_vcpu` of one timer apart. -/
inductive Step (T V : Type) where
  | create (t : T) (c : Creation V)
  | destroy (t : T)
  | kill (t : T)
  | createEnd (t : T) (now gtime : BitVec 64)
  | expire (t : T)
  | updateIrq (v : V) (masked : T → Bool)
  | intrPost (v : V) (hit : T → Bool) (now gtime : BitVec 64)
  | save (v : V) (blocked : Bool)
  | restore (v : V) (now : BitVec 64)
  | resume (t : T)
  | adjust (t : T) (v : V)
  | adjustEnd (t : T)

/-- The parameters of a domain. -/
structure Params where
  mode : Mode
  vptAlign : Bool

section
variable {T V : Type} [DecidableEq T] [DecidableEq V]

def act (params : Params) (step : Step T V) (s : State T V) : State T V :=
  match step with
  | .create t c => if (s.call t).isNone then s.destroyList t (some c) else s
  | .destroy t => if (s.call t).isNone then s.destroyList t none else s
  | .kill t => s.killTimer t
  | .createEnd t now gtime => s.createList params.vptAlign t now gtime
  | .expire t => s.timerFn t
  | .updateIrq v masked => s.updateIrq v masked
  | .intrPost v hit now gtime => s.intrPost params.mode v hit now gtime
  | .save v blocked => s.saveTimer v blocked
  | .restore v now => s.restoreTimer params.mode v now
  | .resume t => s.resume t
  | .adjust t v => if (s.call t).isNone then s.adjustVcpu t v else s
  | .adjustEnd t => s.adjustEnd t

/-- A timer that has not been created. -/
def Pt.blank (source : Source) : Pt V where
  onList := false
  oneShot := false
  doNotFreeze := false
  irqIssued := false
  source := source
  irq := 0
  vcpu := none
  pending := 0
  period := 0
  scheduled := 0
  lastPltGtime := 0
  armed := false
  killed := false
  active := false
  first := 0
  start := 0
  delivered := 0

def init (source : T → Source) : State T V where
  pt t := .blank (source t)
  tmList _ := []
  running _ := false
  call _ := none

/-! ## The property -/

/-- A periodic timer that has been created and not destroyed, and no call for it is under way. -/
def State.Live (s : State T V) (t : T) : Prop :=
  (s.pt t).active = true ∧ (s.pt t).oneShot = false ∧ s.call t = none

/-- No timer stalls: one whose vCPU is running is armed or has a tick to deliver, a timer is on the
list of its vCPU once if it is marked so and on no list otherwise, and one that is off its list has
a tick to deliver. -/
structure State.NeverStalls (s : State T V) : Prop where
  armed : ∀ t v, s.Live t → (s.pt t).vcpu = some v → s.running v = true → (s.pt t).armed = true ∨ (s.pt t).pending ≠ 0
  listed : ∀ t v, (s.tmList v).count t = if (s.pt t).onList = true ∧ (s.pt t).vcpu = some v then 1 else 0
  off : ∀ t, s.Live t → (s.pt t).onList = false → (s.pt t).pending ≠ 0

/-- The call is going to put the timer on a list, unless it has not been on one. -/
def Call.lists : Call V → Bool
  | .killing none => false
  | _ => true

/-- The count of ticks does not wrap in the expiry of a timer; a timer is not listed again while it
is being moved or created; and one that is moved to a vCPU that runs is armed or has a tick to deliver. -/
def Settled (step : Step T V) (s : State T V) : Prop :=
  match step with
  | .expire t => (s.pt t).armed = true → (s.pt t).pending ≠ -1
  | .resume t => ∀ call, s.call t = some call → call.lists = true → (s.pt t).pending = 0
  | .adjustEnd t => ∀ v onList, s.call t = some (.adjusting v onList) → (s.pt t).active = true →
      (s.pt t).oneShot = false → s.running v = true → (s.pt t).armed = true ∨ (s.pt t).pending ≠ 0
  | _ => True

/-! ## Invariant -/

/-- What holds of one timer. While it is being moved it is off the lists, and will be on one again
or has a tick to deliver; while it is being created it is off the lists too. -/
structure Fine (running : V → Bool) (call : Option (Call V)) (pt : Pt V) : Prop where
  alive : pt.active = true → pt.killed = false
  armed : pt.active = true → pt.oneShot = false → call = none → ∀ v, pt.vcpu = some v → running v = true →
    pt.armed = true ∨ pt.pending ≠ 0
  off : pt.active = true → pt.oneShot = false → call = none → pt.onList = false → pt.pending ≠ 0
  window : ∀ c, call = some c → c.lists = true → pt.onList = false
  moved : ∀ v, call = some (.adjusting v false) → pt.active = true → pt.oneShot = false → pt.pending ≠ 0
  destroyed : ∀ c, call = some c → pt.active = true → ∃ v onList, c = .adjusting v onList

section
omit [DecidableEq V]

variable {running : V → Bool} {call : Option (Call V)} {pt pt' : Pt V}

/-- A timer that gets a tick to deliver. -/
theorem Fine.of_pending (h : Fine running call pt) (hpending : pt'.pending ≠ 0) (hon : pt'.onList = pt.onList)
    (hactive : pt'.active = pt.active) (hkilled : pt'.killed = pt.killed) : Fine running call pt' where
  alive hact := hkilled.trans (h.alive (hactive.symm.trans hact))
  armed _ _ _ _ _ _ := .inr hpending
  off _ _ _ _ := hpending
  window c hc hlists := hon.trans (h.window c hc hlists)
  moved _ _ _ _ := hpending
  destroyed c hc hact := h.destroyed c hc (hactive.symm.trans hact)

/-- A timer that is on its list and is armed or has a tick to deliver, unless it has been destroyed. -/
theorem Fine.of_or {running' : V → Bool} (h : Fine running' call pt) (hlisted : pt.onList = true) (hon : pt'.onList = pt.onList)
    (hactive : pt'.active = pt.active) (hkilled : pt'.killed = pt.killed)
    (hor : pt.killed = false → pt'.armed = true ∨ pt'.pending ≠ 0) : Fine running call pt' where
  alive hact := hkilled.trans (h.alive (hactive.symm.trans hact))
  armed hact _ _ _ _ _ := hor (h.alive (hactive.symm.trans hact))
  off _ _ _ hout := by
    rw [hon, hlisted] at hout
    exact Bool.noConfusion hout
  window c hc hlists := hon.trans (h.window c hc hlists)
  moved v hc _ _ := by
    have hout := h.window _ hc rfl
    rw [hlisted] at hout
    exact Bool.noConfusion hout
  destroyed c hc hact := h.destroyed c hc (hactive.symm.trans hact)

/-- Nothing but its place is asked of a timer that is not there. -/
theorem Fine.of_inactive (hactive : pt.active = false) (hwindow : ∀ c, call = some c → c.lists = true → pt.onList = false) :
    Fine running call pt := by
  have hnot : ∀ {p : Prop}, pt.active = true → p := by
    intro p hact
    rw [hactive] at hact
    exact Bool.noConfusion hact
  exact ⟨hnot, hnot, hnot, hwindow, fun _ _ => hnot, fun _ _ => hnot⟩

end

namespace State

variable {s : State T V}

/-- The lists hold the timers that are marked so. -/
def Listed (s : State T V) : Prop :=
  ∀ t v, (s.tmList v).count t = if (s.pt t).onList = true ∧ (s.pt t).vcpu = some v then 1 else 0

structure Inv (s : State T V) : Prop where
  listed : s.Listed
  fresh : ∀ t, (s.pt t).vcpu = none → (s.pt t).onList = false ∧ (s.pt t).active = false
  fine : ∀ t, Fine s.running (s.call t) (s.pt t)

theorem Inv.neverStalls (h : s.Inv) : s.NeverStalls where
  armed t v hlive hv hrun := (h.fine t).armed hlive.1 hlive.2.1 hlive.2.2 v hv hrun
  listed := h.listed
  off t hlive hout := (h.fine t).off hlive.1 hlive.2.1 hlive.2.2 hout

theorem Inv.nodup (h : s.Inv) (v : V) : (s.tmList v).Nodup := by
  rw [List.nodup_iff_count_le_one]
  intro t
  rw [h.listed t v]
  split <;> decide

theorem Inv.mem_tmList (h : s.Inv) {t : T} {v : V} :
    t ∈ s.tmList v ↔ (s.pt t).onList = true ∧ (s.pt t).vcpu = some v := by
  rw [← List.count_pos_iff, h.listed t v]
  split
  · rename_i hon
    exact ⟨fun _ => hon, fun _ => Nat.one_pos⟩
  · rename_i hoff
    exact ⟨fun hlt => absurd hlt (Nat.lt_irrefl 0), fun hon => absurd hon hoff⟩

/-- One timer changes and stays where it is on the lists. -/
theorem Inv.setPt (h : s.Inv) {t : T} {pt : Pt V} (hon : pt.onList = (s.pt t).onList) (hvcpu : pt.vcpu = (s.pt t).vcpu)
    (hactive : pt.active = (s.pt t).active) (hfine : Fine s.running (s.call t) pt) : (s.setPt t pt).Inv := by
  constructor
  · intro u v
    show (s.tmList v).count u = if (Function.update s.pt t pt u).onList = true ∧
      (Function.update s.pt t pt u).vcpu = some v then 1 else 0
    by_cases hu : u = t
    · rw [hu, Function.update_self, hon, hvcpu]
      exact h.listed t v
    · rw [Function.update_of_ne hu]
      exact h.listed u v
  · refine (Function.forall_update_iff s.pt fun _ pt => pt.vcpu = none → pt.onList = false ∧ pt.active = false).2
      ⟨fun hv => ?_, fun u _ => h.fresh u⟩
    have hnone := h.fresh t (hvcpu.symm.trans hv)
    exact ⟨hon.trans hnone.1, hactive.trans hnone.2⟩
  · exact (Function.forall_update_iff s.pt fun u pt => Fine s.running (s.call u) pt).2 ⟨hfine, fun u _ => h.fine u⟩

/-- A timer is taken off its list, with other changes. -/
theorem Inv.off (h : s.Inv) {t : T} {pt : Pt V} {call : T → Option (Call V)} (hon : pt.onList = false)
    (hfresh : pt.vcpu = none → pt.active = false) (hcall : ∀ u, u ≠ t → call u = s.call u)
    (hfine : Fine s.running (call t) pt) :
    Inv { s with pt := Function.update s.pt t pt, tmList := fun v => (s.tmList v).erase t, call := call } := by
  constructor
  · intro u v
    have hcount := h.listed u v
    show ((s.tmList v).erase t).count u = if (Function.update s.pt t pt u).onList = true ∧
      (Function.update s.pt t pt u).vcpu = some v then 1 else 0
    by_cases hu : u = t
    · rw [hu, Function.update_self, hon, if_neg fun hc => Bool.false_ne_true hc.1, List.count_erase_self, ← hu, hcount]
      split <;> rfl
    · rw [Function.update_of_ne hu, List.count_erase_of_ne hu, hcount]
  · exact (Function.forall_update_iff s.pt fun _ pt => pt.vcpu = none → pt.onList = false ∧ pt.active = false).2
      ⟨fun hv => ⟨hon, hfresh hv⟩, fun u _ => h.fresh u⟩
  · refine (Function.forall_update_iff s.pt fun u pt => Fine s.running (call u) pt).2 ⟨hfine, fun u hu => ?_⟩
    rw [hcall u hu]
    exact h.fine u

theorem Inv.unlist (h : s.Inv) {t : T} (hfine : Fine s.running (s.call t) { s.pt t with onList := false }) :
    (s.unlist t).Inv := h.off rfl (fun hv => (h.fresh t hv).2) (fun _ _ => rfl) hfine

/-- A call for a timer goes on. -/
theorem Inv.setCall (h : s.Inv) {t : T} {call : Option (Call V)} (hfine : Fine s.running call (s.pt t)) :
    (s.setCall t call).Inv := by
  refine ⟨h.listed, h.fresh, fun u => ?_⟩
  show Fine s.running (Function.update s.call t call u) (s.pt u)
  by_cases hu : u = t
  · rw [hu, Function.update_self]
    exact hfine
  · rw [Function.update_of_ne hu]
    exact h.fine u

theorem Inv.erase_of_off (h : s.Inv) {t : T} (hoff : (s.pt t).onList = false) :
    (fun v => (s.tmList v).erase t) = s.tmList := by
  funext v
  refine List.erase_of_not_mem fun hmem => ?_
  rw [(h.mem_tmList.1 hmem).1] at hoff
  exact Bool.noConfusion hoff

/-- A timer that is not on a list can be taken off. -/
theorem Inv.unlisted (h : s.Inv) (t : T) : (if (s.pt t).onList then s.unlist t else s) = s.unlist t := by
  split
  · rfl
  · rename_i hoff
    have hlist := h.erase_of_off (Bool.eq_false_of_not_eq_true hoff)
    have hpt : Function.update s.pt t { s.pt t with onList := false } = s.pt := by
      rw [← Bool.eq_false_of_not_eq_true hoff]
      exact Function.update_eq_self t s.pt
    unfold State.unlist
    rw [hlist, hpt]

/-- A timer that is off the lists is put on the list of its vCPU, with other changes. -/
theorem Inv.listAdd (h : s.Inv) {t : T} {pt : Pt V} {v : V} {call : T → Option (Call V)}
    (hout : (s.pt t).onList = false) (hon : pt.onList = true) (hvcpu : pt.vcpu = some v)
    (hcall : ∀ u, u ≠ t → call u = s.call u) (hfine : Fine s.running (call t) pt) :
    Inv { s with
      pt := Function.update s.pt t pt, tmList := Function.update s.tmList v (t :: s.tmList v), call := call } := by
  constructor
  · intro u w
    have hcount := h.listed u w
    show (Function.update s.tmList v (t :: s.tmList v) w).count u = if (Function.update s.pt t pt u).onList = true ∧
      (Function.update s.pt t pt u).vcpu = some w then 1 else 0
    rw [Function.update_apply]
    by_cases hu : u = t
    · rw [hu, Function.update_self]
      rw [hu, hout, if_neg fun hc => Bool.false_ne_true hc.1] at hcount
      by_cases hw : w = v
      · rw [if_pos hw, if_pos ⟨hon, hvcpu.trans (congrArg some hw.symm)⟩, List.count_cons_self, ← hw, hcount]
      · rw [if_neg hw, hcount, if_neg fun hc => hw (Option.some.inj (hc.2.symm.trans hvcpu))]
    · rw [Function.update_of_ne hu, ← hcount]
      split
      · rename_i hw
        rw [List.count_cons_of_ne fun he => hu he.symm, hw]
      · rfl
  · refine (Function.forall_update_iff s.pt fun _ pt => pt.vcpu = none → pt.onList = false ∧ pt.active = false).2
      ⟨fun hv => ?_, fun u _ => h.fresh u⟩
    exact absurd (hvcpu.symm.trans hv) (Option.some_ne_none v)
  · refine (Function.forall_update_iff s.pt fun u pt => Fine s.running (call u) pt).2 ⟨hfine, fun u hu => ?_⟩
    rw [hcall u hu]
    exact h.fine u

/-! ## Steps -/

theorem timerFn_inv (h : s.Inv) {t : T} (hwrap : (s.pt t).armed = true → (s.pt t).pending ≠ -1) : (s.timerFn t).Inv := by
  unfold timerFn
  split
  · rename_i harmed
    refine h.setPt rfl rfl rfl ((h.fine t).of_pending (fun hzero => hwrap harmed ?_) rfl rfl rfl)
    exact eq_neg_of_add_eq_zero_left hzero
  · exact h

theorem lagging_inv (masked : T → Bool) (acc : State T V × BitVec 64 × Option T) (t : T) (h : acc.1.Inv) :
    (lagging masked acc t).1.Inv := by
  rcases acc with ⟨s, maxLag, earliest⟩
  unfold lagging
  dsimp only
  split
  · exact h
  · rename_i hpending
    split
    · have ht := h.fine t
      exact h.unlist ⟨ht.alive, fun _ _ _ _ _ _ => .inr hpending, fun _ _ _ _ => hpending, fun _ _ _ => rfl,
        fun _ _ _ _ => hpending, ht.destroyed⟩
    · split <;> exact h

theorem updateIrq_inv (h : s.Inv) (v : V) (masked : T → Bool) : (s.updateIrq v masked).Inv := by
  have hloop : ∀ (ts : List T) (acc : State T V × BitVec 64 × Option T), acc.1.Inv →
      (ts.foldl (lagging masked) acc).1.Inv := by
    intro ts
    induction ts with
    | nil => exact fun _ hacc => hacc
    | cons t rest ih => exact fun acc hacc => ih _ (lagging_inv masked acc t hacc)
  have hend := hloop (s.tmList v) (s, -1, none) h
  unfold updateIrq
  split
  · rename_i heq
    rw [heq] at hend
    exact hend
  · rename_i u _ t heq
    rw [heq] at hend
    have ht := hend.fine t
    exact hend.setPt rfl rfl rfl ⟨ht.alive, ht.armed, ht.off, ht.window, ht.moved, ht.destroyed⟩

omit [DecidableEq T] [DecidableEq V] in
theorem isPtIrq_some {v : V} {hit : T → Bool} {t : T} (h : s.isPtIrq v hit = some t) :
    t ∈ s.tmList v ∧ (s.pt t).pending ≠ 0 := by
  refine ⟨List.mem_of_find?_eq_some h, ?_⟩
  have hsat := List.find?_some h
  rw [Bool.and_eq_true, Bool.and_eq_true] at hsat
  exact of_decide_eq_true hsat.1.1

end State

section
omit [DecidableEq V]

/-- Where a timer is and whether it is there are the same. -/
structure Same (pt pt' : Pt V) : Prop where
  onList : pt'.onList = pt.onList
  vcpu : pt'.vcpu = pt.vcpu
  active : pt'.active = pt.active
  killed : pt'.killed = pt.killed

/-- What `pt_process_missed_ticks` leaves alone. -/
theorem processMissedTicks_same (pt : Pt V) (mode : Mode) (now : BitVec 64) : Same pt (pt.processMissedTicks mode now) := by
  unfold Pt.processMissedTicks
  dsimp only
  split
  · exact ⟨rfl, rfl, rfl, rfl⟩
  · split
    · exact ⟨rfl, rfl, rfl, rfl⟩
    · split <;> exact ⟨rfl, rfl, rfl, rfl⟩

/-- A timer that is set is armed, unless it has been killed. -/
theorem Same.arm {pt pt' : Pt V} (h : Same pt pt') : pt.killed = false → pt'.arm.armed = true := by
  intro halive
  show (!pt'.killed) = true
  rw [h.killed, halive]
  rfl

/-- `stop_timer` leaves a timer where it is. -/
theorem freeze_same (pt : Pt V) : Same pt pt.freeze := by
  unfold Pt.freeze
  split <;> exact ⟨rfl, rfl, rfl, rfl⟩

/-- A periodic timer whose tick has been delivered is armed, or has another to deliver. -/
theorem post_spec (pt : Pt V) (mode : Mode) (now gtime : BitVec 64) :
    Same pt (pt.post mode now gtime) ∧
    (pt.killed = false → (pt.post mode now gtime).armed = true ∨ (pt.post mode now gtime).pending ≠ 0) := by
  unfold Pt.post
  split
  · have hsame := processMissedTicks_same { pt with lastPltGtime := gtime } mode now
    exact ⟨⟨hsame.onList, hsame.vcpu, hsame.active, hsame.killed⟩, fun halive => .inl (hsame.arm halive)⟩
  · dsimp only
    split
    · have hsame := processMissedTicks_same
        { pt with lastPltGtime := pt.lastPltGtime + pt.period, pending := pt.pending - 1 } mode now
      split
      · exact ⟨⟨hsame.onList, hsame.vcpu, hsame.active, hsame.killed⟩, fun halive => .inl (hsame.arm halive)⟩
      · rename_i hne
        exact ⟨⟨hsame.onList, hsame.vcpu, hsame.active, hsame.killed⟩, fun _ => .inr hne⟩
    · rename_i hne
      exact ⟨⟨rfl, rfl, rfl, rfl⟩, fun _ => .inr hne⟩

theorem restore_spec (pt : Pt V) (mode : Mode) (now : BitVec 64) :
    Same pt (pt.restore mode now) ∧
    (pt.killed = false → (pt.restore mode now).armed = true ∨ (pt.restore mode now).pending ≠ 0) := by
  unfold Pt.restore
  split
  · have hsame := processMissedTicks_same pt mode now
    exact ⟨⟨hsame.onList, hsame.vcpu, hsame.active, hsame.killed⟩, fun halive => .inl (hsame.arm halive)⟩
  · rename_i hne
    exact ⟨⟨rfl, rfl, rfl, rfl⟩, fun _ => .inr hne⟩

end

namespace State

variable {s : State T V}

theorem intrPost_inv (h : s.Inv) (mode : Mode) (v : V) (hit : T → Bool) (now gtime : BitVec 64) :
    (s.intrPost mode v hit now gtime).Inv := by
  unfold intrPost
  split
  · exact h
  · rename_i t hfound
    have hon := (h.mem_tmList.1 (isPtIrq_some hfound).1).1
    dsimp only
    have hfirst : (s.setPt t { s.pt t with irqIssued := false, delivered := (s.pt t).delivered + 1 }).Inv := by
      have ht := h.fine t
      exact h.setPt rfl rfl rfl ⟨ht.alive, ht.armed, ht.off, ht.window, ht.moved, ht.destroyed⟩
    have hpt : (s.setPt t { s.pt t with irqIssued := false, delivered := (s.pt t).delivered + 1 }).pt t =
        { s.pt t with irqIssued := false, delivered := (s.pt t).delivered + 1 } := Function.update_self ..
    generalize s.setPt t { s.pt t with irqIssued := false, delivered := (s.pt t).delivered + 1 } = u at hfirst hpt
    have honu : (u.pt t).onList = true := by
      rw [hpt]
      exact hon
    split
    · rename_i hone
      -- a timer that is not periodic may be off its list and have nothing to deliver
      have hfree : ∀ pt : Pt V, pt.oneShot = true → pt.onList = false → pt.active = (u.pt t).active →
          pt.killed = (u.pt t).killed → Fine u.running (u.call t) pt := by
        intro pt hpt hout hactive hkilled
        have hnot : ∀ {p : Prop}, pt.oneShot = false → p := by
          intro p hno
          rw [hpt] at hno
          exact Bool.noConfusion hno
        have ht := hfirst.fine t
        exact ⟨fun hact => hkilled.trans (ht.alive (hactive.symm.trans hact)), fun _ => hnot, fun _ => hnot,
          fun _ _ _ => hout, fun _ _ _ => hnot, fun c hc hact => ht.destroyed c hc (hactive.symm.trans hact)⟩
      have hout := hfirst.unlist (t := t) (hfree _ hone rfl rfl rfl)
      have hself : (u.unlist t).pt t = { u.pt t with onList := false } := Function.update_self ..
      refine hout.setPt rfl rfl rfl (hfree _ ?_ ?_ ?_ ?_)
      · rw [hself]
        exact hone
      · rw [hself]
      · rw [hself]
      · rw [hself]
    · rcases post_spec (u.pt t) mode now gtime with ⟨hsame, hor⟩
      exact hfirst.setPt hsame.onList hsame.vcpu hsame.active
        ((hfirst.fine t).of_or honu hsame.onList hsame.active hsame.killed hor)

/-- The timer is taken off its list to be destroyed. -/
theorem destroyList_inv (h : s.Inv) {t : T} (create : Option (Creation V)) : (s.destroyList t create).Inv := by
  unfold destroyList
  split
  · rename_i hvcpu
    have hfresh := h.fresh t hvcpu
    exact h.setCall (.of_inactive hfresh.2 fun _ _ _ => hfresh.1)
  · dsimp only
    rw [h.unlisted]
    have hself : (s.unlist t).pt t = { s.pt t with onList := false } := Function.update_self ..
    rw [hself]
    unfold State.setCall State.setPt State.unlist
    dsimp only
    rw [Function.update_idem]
    exact h.off rfl (fun _ => rfl) (fun u hu => Function.update_of_ne hu ..) (.of_inactive rfl fun _ _ _ => rfl)

theorem killTimer_inv (h : s.Inv) {t : T} : (s.killTimer t).Inv := by
  unfold killTimer
  split
  · rename_i create hcall
    have hactive : (s.pt t).active = false := by
      refine Bool.eq_false_of_not_eq_true fun hact => ?_
      rcases (h.fine t).destroyed _ hcall hact with ⟨v, onList, hno⟩
      exact nomatch hno
    have hout : ∀ c, create.map Call.creating = some c → (s.pt t).onList = false := by
      intro c hc
      cases create with
      | none => exact nomatch hc
      | some c => exact (h.fine t).window _ hcall rfl
    have hset : (s.setPt t { s.pt t with armed := false, killed := true }).Inv :=
      h.setPt rfl rfl rfl (.of_inactive hactive (h.fine t).window)
    have hself : (s.setPt t { s.pt t with armed := false, killed := true }).pt t =
      { s.pt t with armed := false, killed := true } := Function.update_self ..
    refine hset.setCall (.of_inactive ?_ fun c hc _ => ?_)
    · rw [hself]
      exact hactive
    · rw [hself]
      exact hout c hc
  · exact h

theorem createList_inv (h : s.Inv) {t : T} (vptAlign : Bool) (now gtime : BitVec 64) :
    (s.createList vptAlign t now gtime).Inv := by
  unfold createList
  split
  · rename_i c hcall
    have hout := (h.fine t).window _ hcall rfl
    refine h.listAdd hout rfl rfl (fun u hu => Function.update_of_ne hu ..) ?_
    rw [Function.update_self]
    exact ⟨fun _ => rfl, fun _ _ _ _ _ _ => .inl rfl, fun _ _ _ hoff => (nomatch hoff), nofun, nofun, nofun⟩
  · exact h

theorem adjust_inv (h : s.Inv) {t : T} (hcall : s.call t = none) (v : V) : (s.adjustVcpu t v).Inv := by
  unfold adjustVcpu
  split
  · exact h
  · dsimp only
    rw [h.unlisted]
    refine h.off rfl (fun hv => (h.fresh t hv).2) (fun u hu => Function.update_of_ne hu ..) ?_
    rw [Function.update_self]
    refine ⟨(h.fine t).alive, fun _ _ hc => (nomatch hc), fun _ _ hc => (nomatch hc), fun _ _ _ => rfl, ?_, ?_⟩
    · intro w hc hact hone
      exact (h.fine t).off hact hone hcall (Call.adjusting.inj (Option.some.inj hc)).2
    · exact fun c hc _ => ⟨v, _, (Option.some.inj hc).symm⟩

theorem adjustEnd_inv (h : s.Inv) {t : T} (hsettled : ∀ v onList, s.call t = some (.adjusting v onList) →
    (s.pt t).active = true → (s.pt t).oneShot = false → s.running v = true →
    (s.pt t).armed = true ∨ (s.pt t).pending ≠ 0) : (s.adjustEnd t).Inv := by
  unfold adjustEnd
  split
  · rename_i v onList hcall
    have hout := (h.fine t).window _ hcall rfl
    have hrun : (s.pt t).active = true → (s.pt t).oneShot = false → ∀ w, some v = some w → s.running w = true →
        (s.pt t).armed = true ∨ (s.pt t).pending ≠ 0 := by
      intro hact hone w hw hrunning
      rw [← Option.some.inj hw] at hrunning
      exact hsettled v onList hcall hact hone hrunning
    have hothers : ∀ u, u ≠ t → Function.update s.call t none u = s.call u := fun u hu => Function.update_of_ne hu ..
    have hnone : Function.update s.call t none t = none := Function.update_self ..
    cases onList with
    | true =>
      dsimp only
      rw [if_pos rfl]
      unfold State.listAdd State.setPt State.setCall
      dsimp only
      rw [Function.update_self, Function.update_idem]
      refine h.listAdd hout rfl rfl hothers ?_
      rw [hnone]
      exact ⟨(h.fine t).alive, fun hact hone _ => hrun hact hone, fun _ _ _ hoff => (nomatch hoff), nofun, nofun, nofun⟩
    | false =>
      have hfine : Fine s.running (Function.update s.call t none t) { s.pt t with vcpu := some v } := by
        rw [hnone]
        exact ⟨(h.fine t).alive, fun hact hone _ => hrun hact hone,
          fun hact hone _ _ => (h.fine t).moved v hcall hact hone, nofun, nofun, nofun⟩
      have hout' : ({ s.pt t with vcpu := some v } : Pt V).onList = false := hout
      have hoff := h.off hout' (fun hv => nomatch hv) hothers hfine
      rw [h.erase_of_off hout] at hoff
      exact hoff
  · exact h

theorem resume_inv (h : s.Inv) {t : T}
    (hsettled : ∀ call, s.call t = some call → call.lists = true → (s.pt t).pending = 0) : (s.resume t).Inv := by
  unfold resume
  split
  · exact h
  · rename_i v hvcpu
    split
    · rename_i hcond
      have hout : (s.pt t).onList = false := by simpa using hcond.2
      have ht := h.fine t
      have hfree : ∀ c, s.call t = some c → c.lists = true → False := fun c hc hlists => hcond.1 (hsettled c hc hlists)
      refine h.listAdd hout rfl hvcpu (fun _ _ => rfl) ⟨ht.alive, fun _ _ _ _ _ _ => .inr hcond.1, fun _ _ _ _ => hcond.1,
        fun c hc hlists => (hfree c hc hlists).elim, fun _ _ _ _ => hcond.1, ht.destroyed⟩
    · exact h

section

omit [DecidableEq V]

/-- A timer that is destroyed leaves the others; what comes after is left to `create_periodic_time`. -/
theorem kill_destroyList (s : State T V) (t : T) (create : Option (Creation V)) :
    (∀ u, u ≠ t → ((s.destroyList t create).killTimer t).pt u = s.pt u) ∧
      ((s.destroyList t create).killTimer t).call = Function.update s.call t (create.map .creating) := by
  unfold destroyList
  split
  · have hcall : (s.setCall t (create.map .creating)).call t = create.map .creating := Function.update_self ..
    unfold killTimer
    rw [hcall]
    cases create <;> exact ⟨fun _ _ => rfl, rfl⟩
  · dsimp only
    unfold killTimer
    rw [show (setCall _ t (some (.killing create))).call t = some (.killing create) from Function.update_self ..]
    refine ⟨fun u hu => (Function.update_of_ne hu _ _).trans ((Function.update_of_ne hu _ _).trans ?_), ?_⟩
    · split
      · exact Function.update_of_ne hu _ _
      · rfl
    · refine (Function.update_idem ..).trans ?_
      split <;> rfl

theorem kill_creating (s : State T V) (t : T) (c : Creation V) :
    ((s.destroyList t (some c)).killTimer t).call t = some (.creating c) :=
  (congrFun (s.kill_destroyList t (some c)).2 t).trans (Function.update_self ..)

end

/-- The critical section of `create_periodic_time`, when it comes. -/
theorem createList_eq {t : T} {c : Creation V} (h : s.call t = some (.creating c)) (vptAlign : Bool)
    (now gtime : BitVec 64) : s.createList vptAlign t now gtime =
      ((s.setPt t ((s.pt t).create c now gtime vptAlign)).listAdd t c.vcpu).setCall t none := by
  unfold createList
  rw [h]

/-- What a pass through the timers of a list does to each. -/
theorem foldl_update {α β : Type} [DecidableEq α] (f : β → β) {ts : List α} (hnodup : ts.Nodup) (g : α → β) (t : α) :
    ts.foldl (fun g t => Function.update g t (f (g t))) g t = if t ∈ ts then f (g t) else g t := by
  induction ts generalizing g with
  | nil => rfl
  | cons a rest ih =>
    rcases List.nodup_cons.1 hnodup with ⟨hnot, hrest⟩
    rw [List.foldl_cons, ih hrest]
    by_cases hta : t = a
    · rw [hta, if_neg hnot, if_pos (List.mem_cons_self ..), Function.update_self]
    · rw [Function.update_of_ne hta]
      by_cases hmem : t ∈ rest
      · rw [if_pos hmem, if_pos (List.mem_cons_of_mem _ hmem)]
      · rw [if_neg hmem, if_neg fun hc => (List.mem_cons.1 hc).elim hta hmem]

/-- A pass through the timers of a vCPU that starts or stops to run. -/
theorem eachOf_inv (h : s.Inv) (v : V) (level : Bool) {f : Pt V → Pt V}
    (hsame : ∀ pt, Same pt (f pt))
    (hfine : ∀ t, (s.pt t).onList = true → (s.pt t).vcpu = some v →
      Fine (Function.update s.running v level) (s.call t) (f (s.pt t)))
    (hrest : ∀ t, ¬((s.pt t).onList = true ∧ (s.pt t).vcpu = some v) →
      Fine (Function.update s.running v level) (s.call t) (s.pt t)) :
    Inv (eachOf { s with running := Function.update s.running v level } (s.tmList v) f) := by
  have hpt : ∀ t, (eachOf { s with running := Function.update s.running v level } (s.tmList v) f).pt t =
      if t ∈ s.tmList v then f (s.pt t) else s.pt t := fun t => foldl_update f (h.nodup v) s.pt t
  constructor
  · intro t w
    rw [hpt]
    split
    · rw [(hsame (s.pt t)).onList, (hsame (s.pt t)).vcpu]
      exact h.listed t w
    · exact h.listed t w
  · intro t
    rw [hpt]
    split
    · rw [(hsame (s.pt t)).onList, (hsame (s.pt t)).vcpu, (hsame (s.pt t)).active]
      exact h.fresh t
    · exact h.fresh t
  · intro t
    rw [hpt]
    split
    · rename_i hmem
      have hon := h.mem_tmList.1 hmem
      exact hfine t hon.1 hon.2
    · rename_i hmem
      exact hrest t fun hon => hmem (h.mem_tmList.2 hon)

omit [DecidableEq T] in
/-- A vCPU that does not run asks nothing of its timers. -/
theorem fine_save {running : V → Bool} {call : Option (Call V)} {pt : Pt V} (h : Fine running call pt) (v : V) :
    Fine (Function.update running v false) call pt := by
  refine ⟨h.alive, fun hact hone hm w hw hrun => ?_, h.off, h.window, h.moved, h.destroyed⟩
  by_cases hwv : w = v
  · rw [hwv, Function.update_self] at hrun
    exact Bool.noConfusion hrun
  · rw [Function.update_of_ne hwv] at hrun
    exact h.armed hact hone hm w hw hrun

theorem save_inv (h : s.Inv) (v : V) (blocked : Bool) : (s.saveTimer v blocked).Inv := by
  unfold saveTimer
  dsimp only
  split
  · exact ⟨h.listed, h.fresh, fun t => fine_save (h.fine t) v⟩
  · refine eachOf_inv h v false freeze_same (fun t hon hv => ?_) fun t _ => fine_save (h.fine t) v
    have hsame := freeze_same (s.pt t)
    have ht := h.fine t
    have hnot : ∀ {p : Prop}, (s.pt t).onList = false → p := by
      intro p hout
      rw [hon] at hout
      exact Bool.noConfusion hout
    refine ⟨fun hact => hsame.killed.trans (ht.alive (hsame.active.symm.trans hact)), fun _ _ _ w hw hrun => ?_,
      fun _ _ _ hout => hnot (hsame.onList.symm.trans hout), fun c hc hlists => hsame.onList.trans (ht.window c hc hlists),
      fun w hc _ _ => hnot (ht.window _ hc rfl), fun c hc hact => ht.destroyed c hc (hsame.active.symm.trans hact)⟩
    rw [← Option.some.inj ((hsame.vcpu.trans hv).symm.trans hw), Function.update_self] at hrun
    exact Bool.noConfusion hrun

theorem restore_inv (h : s.Inv) (mode : Mode) (v : V) (now : BitVec 64) : (s.restoreTimer mode v now).Inv := by
  unfold restoreTimer
  dsimp only
  refine eachOf_inv h v true (fun pt => (restore_spec pt mode now).1) (fun t hon hv => ?_) fun t hout => ?_
  · rcases restore_spec (s.pt t) mode now with ⟨hsame, hor⟩
    exact (h.fine t).of_or hon hsame.onList hsame.active hsame.killed hor
  · -- a timer of the vCPU that is not on its list has a tick to deliver
    have ht := h.fine t
    refine ⟨ht.alive, fun hact hone hm w hw hrun => ?_, ht.off, ht.window, ht.moved, ht.destroyed⟩
    by_cases hwv : w = v
    · refine .inr ((h.fine t).off hact hone hm ?_)
      exact Bool.eq_false_of_not_eq_true fun hon => hout ⟨hon, by rw [hw, hwv]⟩
    · rw [Function.update_of_ne hwv] at hrun
      exact (h.fine t).armed hact hone hm w hw hrun

end State

theorem act_inv {params : Params} {step : Step T V} {s : State T V} (hsettled : Settled step s) (h : s.Inv) :
    (act params step s).Inv := by
  unfold act
  cases step with
  | create t c =>
    dsimp only
    split
    · exact State.destroyList_inv h (some c)
    · exact h
  | destroy t =>
    dsimp only
    split
    · exact State.destroyList_inv h none
    · exact h
  | kill t => exact State.killTimer_inv h
  | createEnd t now gtime => exact State.createList_inv h ..
  | expire t => exact State.timerFn_inv h hsettled
  | updateIrq v masked => exact State.updateIrq_inv h v masked
  | intrPost v hit now gtime => exact State.intrPost_inv h ..
  | save v blocked => exact State.save_inv h v blocked
  | restore v now => exact State.restore_inv h ..
  | resume t => exact State.resume_inv h hsettled
  | adjust t v =>
    dsimp only
    split
    · rename_i hcall
      exact State.adjust_inv h (Option.isNone_iff_eq_none.1 hcall) v
    · exact h
  | adjustEnd t => exact State.adjustEnd_inv h hsettled

theorem init_inv (source : T → Source) : (init source : State T V).Inv := by
  refine ⟨fun t v => ?_, fun t _ => ⟨rfl, rfl⟩, fun t => .of_inactive rfl fun _ _ _ => rfl⟩
  rw [if_neg fun hc => Bool.false_ne_true hc.1]
  rfl

/-- After a run in which no count wraps, no timer is listed again while it is being moved or created, and
none is moved to a vCPU that runs while it is stopped, no timer stalls. -/
theorem run_never_stalls (params : Params) (source : T → Source) (steps : List (Step T V))
    (hsteps : Runs.Each (act params) Settled steps (init source)) :
    (Runs.run (act params) steps (init source)).NeverStalls := by
  have hinv : (Runs.run (act params) steps (init source)).Inv :=
    hsteps.inv (I := State.Inv) (fun _ _ hok h => act_inv hok h) (init_inv source)
  exact hinv.neverStalls

/-- A timer expires, is created once more, and is moved with a tick to deliver to a vCPU that runs. -/
theorem run_never_stalls_moved :
    (Runs.run (act ⟨.delayForMissedTicks, false⟩) [.restore 1 0, .create 0 ⟨0, 1000000, 1000000, 0⟩, .createEnd 0 0 0,
      .create 0 ⟨0, 1000000, 1000000, 0⟩, .expire 0, .kill 0, .createEnd 0 0 0, .expire 0, .adjust 0 1,
      .adjustEnd 0] (init fun _ => .isa : State (Fin 1) (Fin 2))).NeverStalls := by
  refine run_never_stalls _ _ _ ⟨trivial, trivial, trivial, trivial, fun _ => ?_, trivial, trivial, fun _ => ?_, trivial,
    fun v onList _ _ _ _ => .inr ?_, trivial⟩
  · decide
  · decide
  · decide

/-- A timer that is stopped with its vCPU is moved to a vCPU that runs, and nothing arms it. -/
theorem moved_stopped :
    ¬(Runs.run (act ⟨.delayForMissedTicks, false⟩) [.restore 1 0, .restore 0 0, .create 0 ⟨0, 1000000, 1000000, 0⟩,
      .createEnd 0 0 0, .save 0 false, .adjust 0 1, .adjustEnd 0]
      (init fun _ => .isa : State (Fin 1) (Fin 2))).NeverStalls := by
  intro h
  have hstall := h.armed 0 1 ⟨by decide, by decide, by decide⟩ (by decide) (by decide)
  revert hstall
  decide

/-- A timer expires before it is killed, and is listed again before it is created: it is on its list twice. -/
theorem created_twice :
    ¬(Runs.run (act ⟨.delayForMissedTicks, false⟩) [.create 0 ⟨0, 1000000, 1000000, 0⟩, .createEnd 0 0 0,
      .create 0 ⟨0, 1000000, 1000000, 0⟩, .expire 0, .resume 0, .kill 0, .createEnd 0 0 0]
      (init fun _ => .isa : State (Fin 1) (Fin 1))).NeverStalls := by
  intro h
  have htwice := h.listed 0 0
  revert htwice
  decide

end

end Hvm.Vpt
