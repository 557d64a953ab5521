import Mathlib

/-!
# Event channels (`xen/common/event_channel.c`)

Each domain has a table of channels, indexed by port, and reverse maps from
virtual and physical interrupts to ports; the channels bound to physical
interrupts are linked in a list for each vCPU. A channel between two domains is
two table entries that name each other.

An operation runs under the event locks of the domains it changes and is one
step. `__evtchn_close` drops its lock when it has to take the lock of a domain
with a lower address first, and then starts again: it has two parts, and
`evtchn_reset`, `evtchn_destroy` and `free_xen_event_channel` call it in between
their own. `World.calls` holds the calls that are under way, and anything can
happen between two parts of a call.

The pending bits are modelled elsewhere (`Evtchn.Pending`). Buckets are
allocated in order, so a table is given by the number of its valid ports. A new
bucket is entered into the table before the security labels of its channels are
allocated: if one of them cannot be, the bucket is freed but stays in the table,
and whoever is given the memory next writes into channels that have valid ports.
-/

namespace Evtchn

/-- A `struct domain`, by address: the order is that of the locks. -/
abbrev Dom := Nat

abbrev Port := Nat

/-- `ECS_*`. -/
inductive Ecs where
  | free | reserved | unbound | interdomain | pirq | virq | ipi
  deriving DecidableEq

/-- `struct evtchn`. `key` is the first word of the union: `unbound.remote_domid`,
`interdomain.remote_port`, `pirq.irq` or `virq`. -/
structure Channel where
  state : Ecs
  consumerIsXen : Bool
  notifyVcpuId : Nat
  key : Nat
  remoteDom : Dom
  nextPort : Port
  prevPort : Port
  deriving DecidableEq

/-- The channel without its place in a list. -/
def Channel.bare (c : Channel) : Channel := { c with nextPort := 0, prevPort := 0 }

theorem Channel.of_bare {c c' : Channel} (h : c.bare = c'.bare) :
    c.state = c'.state ∧ c.consumerIsXen = c'.consumerIsXen ∧
      c.notifyVcpuId = c'.notifyVcpuId ∧ c.key = c'.key ∧ c.remoteDom = c'.remoteDom := by
  simpa [bare] using h

/-- A zeroed channel. -/
def Channel.zero : Channel := ⟨.free, false, 0, 0, 0, 0, 0⟩

/-- The part of `struct domain` that concerns event channels. -/
structure Domain where
  isDying : Bool
  /-- The references are gone: `get_domain` fails. -/
  destroyed : Bool
  /-- `port_is_valid(d, p)` is `p < nrPorts`. -/
  nrPorts : Nat
  evtchn : Port → Channel
  virqToEvtchn : Nat → Nat → Port
  pirqToEvtchn : Nat → Port
  pirqEvtchnHead : Nat → Port
  /-- The ports whose channel has a label (`ssid`), and those whose bucket has been freed. -/
  ssid : Port → Bool
  freed : Port → Bool

/-- What `get_free_port` is answered: whether there is memory for a bucket, and for
the label of each of its channels. -/
structure Answers where
  alloc : Bool
  label : Nat → Bool

/-- There is memory for everything. -/
def Answers.all : Answers := ⟨true, fun _ => true⟩

/-- What stays fixed while the operations run. -/
structure Platform where
  domainId : Dom → Nat
  domainId_inj : Function.Injective domainId
  /-- `MAX_EVTCHNS(d)`. -/
  maxEvtchns : Dom → Nat
  /-- `d->vcpu[v]` exists. -/
  hasVcpu : Dom → Nat → Bool
  nrPirqs : Dom → Nat
  isHvm : Dom → Bool

/-- Paravirtualised domains with two vCPUs each. -/
def Platform.twoVcpus : Platform where
  domainId := id
  domainId_inj := Function.injective_id
  maxEvtchns _ := 4096
  hasVcpu _ v := v < 2
  nrPirqs _ := 256
  isHvm _ := false

/-- `EVTCHNS_PER_BUCKET`. -/
def evtchnsPerBucket : Nat := 128

/-- `NR_VIRQS`. -/
def nrVirqs : Nat := 24

/-- `virq_is_global`: all but `VIRQ_TIMER`, `VIRQ_DEBUG` and `VIRQ_XENOPROF`. -/
def virqIsGlobal (virq : Nat) : Bool := !(virq = 0 ∨ virq = 1 ∨ virq = 7)

/-- The errors of the operations. -/
inductive Errno where
  | einval | enospc | enomem | eexist | eperm | esrch | enoent | exsm
  deriving DecidableEq

/-! ## Calls under way -/

/-- A call between two of its parts. In the first three `seen` is the domain
`d2` that `__evtchn_close` has dropped its lock for. -/
inductive Call where
  /-- `evtchn_close` on a port. -/
  | close (d : Dom) (port : Port) (seen : Dom)
  /-- `evtchn_reset`, at port `i`. -/
  | reset (d : Dom) (i : Port) (seen : Option Dom)
  /-- `free_xen_event_channel`, after the flag has been cleared. -/
  | freeXen (d : Dom) (port : Port) (seen : Option Dom)
  /-- `evtchn_destroy`, before port `i`. -/
  | destroy (d : Dom) (i : Port)
  /-- `evtchn_destroy`, after the flag of port `i` has been cleared. -/
  | destroyClose (d : Dom) (i : Port) (seen : Option Dom)
  deriving DecidableEq

structure World where
  dom : Dom → Domain
  /-- The call each physical CPU is executing. -/
  calls : Nat → Option Call

namespace World

def setDom (w : World) (d : Dom) (x : Domain) : World := { w with dom := Function.update w.dom d x }

def setCall (w : World) (t : Nat) (c : Option Call) : World :=
  { w with calls := Function.update w.calls t c }

/-- `evtchn_from_port(d, port)`. -/
def chn (w : World) (d : Dom) (port : Port) : Channel := (w.dom d).evtchn port

@[simp] theorem setCall_dom (w : World) (t : Nat) (c : Option Call) :
    (w.setCall t c).dom = w.dom := rfl

@[simp] theorem setCall_self (w : World) (t : Nat) (c : Option Call) :
    (w.setCall t c).calls t = c :=
  Function.update_self ..

theorem setCall_of_ne (w : World) {t t' : Nat} (h : t' ≠ t) (c : Option Call) :
    (w.setCall t c).calls t' = w.calls t' :=
  Function.update_of_ne h ..

@[simp] theorem setDom_calls (w : World) (d : Dom) (x : Domain) :
    (w.setDom d x).calls = w.calls := rfl

@[simp] theorem setDom_self (w : World) (d : Dom) (x : Domain) : (w.setDom d x).dom d = x :=
  Function.update_self ..

theorem setDom_of_ne (w : World) {d d' : Dom} (h : d' ≠ d) (x : Domain) :
    (w.setDom d x).dom d' = w.dom d' :=
  Function.update_of_ne h ..

end World

namespace Domain

def setChn (x : Domain) (port : Port) (c : Channel) : Domain :=
  { x with evtchn := Function.update x.evtchn port c }

@[simp] theorem setChn_self (x : Domain) (port : Port) (c : Channel) :
    (x.setChn port c).evtchn port = c :=
  Function.update_self ..

theorem setChn_of_ne (x : Domain) {port p : Port} (h : p ≠ port) (c : Channel) :
    (x.setChn port c).evtchn p = x.evtchn p :=
  Function.update_of_ne h ..

@[simp] theorem setChn_nrPorts (x : Domain) (port : Port) (c : Channel) :
    (x.setChn port c).nrPorts = x.nrPorts := rfl

/-- `chn->u.pirq.next_port = ...` and `chn->u.pirq.prev_port = ...`. -/
def setNext (x : Domain) (port next : Port) : Domain :=
  x.setChn port { x.evtchn port with nextPort := next }
def setPrev (x : Domain) (port prev : Port) : Domain :=
  x.setChn port { x.evtchn port with prevPort := prev }

def setHead (x : Domain) (v : Nat) (port : Port) : Domain :=
  { x with pirqEvtchnHead := Function.update x.pirqEvtchnHead v port }

/-! ## Ports -/

/-- The loop of `get_free_port` over `n` ports from `port` on. -/
def findFree (evtchn : Port → Channel) : Nat → Port → Option Port
  | 0, _ => none
  | n + 1, port =>
      if (evtchn port).state = .free then some port else findFree evtchn n (port + 1)

/-- A new bucket. -/
def addBucket (x : Domain) : Domain :=
  { x with
    nrPorts := x.nrPorts + evtchnsPerBucket
    evtchn := fun p => if x.nrPorts ≤ p then Channel.zero else x.evtchn p
    ssid := fun p => if x.nrPorts ≤ p then false else x.ssid p
    freed := fun p => if x.nrPorts ≤ p then false else x.freed p }

def setLabel (x : Domain) (port : Port) (has : Bool) : Domain :=
  { x with ssid := Function.update x.ssid port has }

/-- `xsm_free_security_evtchn` for the `j` channels from `port` on. -/
def freeLabels (x : Domain) (port : Port) : Nat → Domain
  | 0 => x
  | j + 1 => (x.freeLabels port j).setLabel (port + j) false

/-- `xfree(chn)`. -/
def freeBucket (x : Domain) (port : Port) : Domain :=
  { x with freed := fun p => if port ≤ p ∧ p < port + evtchnsPerBucket then true else x.freed p }

/-- The loop of `get_free_port` over the `n` channels from `i` on of the bucket at `port`. -/
def labelBucket (label : Nat → Bool) (port : Port) : (n i : Nat) → Domain → Except Errno Port × Domain
  | 0, _, x => (.ok port, x)
  | n + 1, i, x =>
      if label i then labelBucket label port n (i + 1) (x.setLabel (port + i) true)
      else (.error .enomem, (x.freeLabels port i).freeBucket port)

def getFreePort (maxEvtchns : Nat) (a : Answers) (x : Domain) : Except Errno Port × Domain :=
  if x.isDying then (.error .einval, x)
  else
    match findFree x.evtchn x.nrPorts 0 with
    | some port => (.ok port, x)
    | none =>
        if x.nrPorts = maxEvtchns then (.error .enospc, x)
        else if a.alloc = false then (.error .enomem, x)
        else labelBucket a.label x.nrPorts evtchnsPerBucket 0 x.addBucket

/-- What an operation does once it has a port. -/
def withPort (maxEvtchns : Nat) (a : Answers) (x : Domain)
    (go : Port → Domain → Except Errno Port × Domain) : Except Errno Port × Domain :=
  match x.getFreePort maxEvtchns a with
  | (.error e, x) => (.error e, x)
  | (.ok port, x) => go port x

/-! ## The list of physical interrupts -/

def linkPirqPort (port : Port) (v : Nat) (x : Domain) : Domain :=
  let head := x.pirqEvtchnHead v
  let x := x.setPrev port 0
  let x := x.setNext port head
  let x := if head ≠ 0 then x.setPrev head port else x
  x.setHead v port

def unlinkPirqPort (port : Port) (v : Nat) (x : Domain) : Domain :=
  let next := (x.evtchn port).nextPort
  let prev := (x.evtchn port).prevPort
  let x := if prev ≠ 0 then x.setNext prev next else x.setHead v next
  if next ≠ 0 then x.setPrev next prev else x

theorem setNext_bare (x : Domain) (port next p : Port) :
    ((x.setNext port next).evtchn p).bare = (x.evtchn p).bare := by
  unfold setNext
  by_cases h : p = port
  · subst h
    rw [setChn_self]
    rfl
  · rw [setChn_of_ne x h]

theorem setPrev_bare (x : Domain) (port prev p : Port) :
    ((x.setPrev port prev).evtchn p).bare = (x.evtchn p).bare := by
  unfold setPrev
  by_cases h : p = port
  · subst h
    rw [setChn_self]
    rfl
  · rw [setChn_of_ne x h]

theorem linkPirqPort_bare (x : Domain) (port : Port) (v : Nat) (p : Port) :
    ((x.linkPirqPort port v).evtchn p).bare = (x.evtchn p).bare := by
  have hlink : (((x.setPrev port 0).setNext port (x.pirqEvtchnHead v)).evtchn p).bare
      = (x.evtchn p).bare := (setNext_bare ..).trans (setPrev_bare ..)
  unfold linkPirqPort
  dsimp only
  split
  · exact (setPrev_bare ..).trans hlink
  · exact hlink

theorem unlinkPirqPort_bare (x : Domain) (port : Port) (v : Nat) (p : Port) :
    ((x.unlinkPirqPort port v).evtchn p).bare = (x.evtchn p).bare := by
  unfold unlinkPirqPort
  dsimp only
  split <;> split
  · exact (setPrev_bare ..).trans (setNext_bare ..)
  · exact setPrev_bare ..
  · exact setNext_bare ..
  · rfl

/-- The ports `evtchn_move_pirqs` visits from `port` on; `none` if it has not
come to an end after `fuel` steps. -/
def movePirqs (x : Domain) : Nat → Port → Option (List Port)
  | 0, port => if port = 0 then some [] else none
  | fuel + 1, port =>
      if port = 0 then some []
      else (movePirqs x fuel (x.evtchn port).nextPort).map (port :: ·)

/-! ## Views -/

/-- What `f` reads off the valid ports. -/
def view {α : Type} (f : Channel → Option α) (x : Domain) (port : Port) : Option α :=
  if port < x.nrPorts then f (x.evtchn port) else none

section View

variable {α : Type} {f : Channel → Option α} {x x' : Domain} {port : Port} {c : Channel}

theorem view_eq_some {a : α} :
    x.view f port = some a ↔ port < x.nrPorts ∧ f (x.evtchn port) = some a := by
  unfold view
  split <;> simp [*]

theorem view_eq_none (h : f (x.evtchn port) = none) : x.view f port = none := by
  unfold view
  split
  · exact h
  · rfl

theorem view_congr (hn : x'.nrPorts = x.nrPorts) (hf : ∀ p, f (x'.evtchn p) = f (x.evtchn p)) :
    x'.view f = x.view f := by
  funext p
  unfold view
  rw [hn, hf]

theorem view_setChn (h : port < x.nrPorts) :
    (x.setChn port c).view f = Function.update (x.view f) port (f c) := by
  funext p
  by_cases hp : p = port
  · subst hp
    rw [Function.update_self, view, setChn_self, setChn_nrPorts, if_pos h]
  · rw [Function.update_of_ne hp, view, setChn_of_ne x hp, setChn_nrPorts]
    rfl

theorem view_setChn_of_eq (h : f c = f (x.evtchn port)) : (x.setChn port c).view f = x.view f := by
  refine view_congr rfl fun p => ?_
  by_cases hp : p = port
  · subst hp
    rw [setChn_self, h]
  · rw [setChn_of_ne x hp]

theorem view_addBucket (h : f Channel.zero = none) : x.addBucket.view f = x.view f := by
  funext p
  unfold view addBucket
  dsimp only
  by_cases hp : x.nrPorts ≤ p
  · rw [if_pos hp, if_neg (Nat.not_lt.mpr hp), h, ite_self]
  · have hp' : p < x.nrPorts := Nat.lt_of_not_le hp
    rw [if_neg hp, if_pos hp', if_pos (Nat.lt_add_right _ hp')]

/-- Only lists change. -/
theorem linkPirqPort_frame (x : Domain) (port : Port) (v : Nat) :
    let y := x.linkPirqPort port v
    y.nrPorts = x.nrPorts ∧ y.isDying = x.isDying ∧ y.virqToEvtchn = x.virqToEvtchn ∧
      y.pirqToEvtchn = x.pirqToEvtchn := by
  unfold linkPirqPort
  dsimp only
  split <;> exact ⟨rfl, rfl, rfl, rfl⟩

theorem unlinkPirqPort_frame (x : Domain) (port : Port) (v : Nat) :
    let y := x.unlinkPirqPort port v
    y.nrPorts = x.nrPorts ∧ y.isDying = x.isDying ∧ y.virqToEvtchn = x.virqToEvtchn ∧
      y.pirqToEvtchn = x.pirqToEvtchn := by
  unfold unlinkPirqPort
  dsimp only
  split <;> split <;> exact ⟨rfl, rfl, rfl, rfl⟩

theorem linkPirqPort_view {α : Type} {f : Channel → Option α} (hf : ∀ c, f c = f c.bare)
    (x : Domain) (port : Port) (v : Nat) : (x.linkPirqPort port v).view f = x.view f := by
  refine view_congr (linkPirqPort_frame x port v).1 fun p => ?_
  rw [hf, linkPirqPort_bare, ← hf]

theorem unlinkPirqPort_view {α : Type} {f : Channel → Option α} (hf : ∀ c, f c = f c.bare)
    (x : Domain) (port : Port) (v : Nat) : (x.unlinkPirqPort port v).view f = x.view f := by
  refine view_congr (unlinkPirqPort_frame x port v).1 fun p => ?_
  rw [hf, unlinkPirqPort_bare, ← hf]

end View

/-! ## Operations on one domain -/

/-- `evtchn_alloc_unbound`; `xsm` is whether the hook permits. -/
def allocUnbound (maxEvtchns : Nat) (a : Answers) (xsm : Bool) (remoteDomid : Nat) (x : Domain) :
    Except Errno Port × Domain :=
  x.withPort maxEvtchns a fun port x =>
    if xsm = false then (.error .exsm, x)
    else
      (.ok port, x.setChn port { x.evtchn port with state := .unbound, key := remoteDomid })

/-- `alloc_unbound_xen_event_channel`. -/
def allocUnboundXen (maxEvtchns : Nat) (a : Answers) (vcpu remoteDomid : Nat) (x : Domain) :
    Except Errno Port × Domain :=
  x.withPort maxEvtchns a fun port x =>
    (.ok port, x.setChn port
      { x.evtchn port with
        state := .unbound, consumerIsXen := true, notifyVcpuId := vcpu, key := remoteDomid })

def bindVirq (maxEvtchns : Nat) (a : Answers) (hasVcpu : Nat → Bool) (virq vcpu : Nat)
    (x : Domain) : Except Errno Port × Domain :=
  if nrVirqs ≤ virq then (.error .einval, x)
  else if virqIsGlobal virq ∧ vcpu ≠ 0 then (.error .einval, x)
  else if hasVcpu vcpu = false then (.error .enoent, x)
  else if x.virqToEvtchn vcpu virq ≠ 0 then (.error .eexist, x)
  else
    x.withPort maxEvtchns a fun port x =>
      let x := x.setChn port
        { x.evtchn port with state := .virq, notifyVcpuId := vcpu, key := virq }
      (.ok port, { x with
        virqToEvtchn := fun v q => if v = vcpu ∧ q = virq then port else x.virqToEvtchn v q })

def bindIpi (maxEvtchns : Nat) (a : Answers) (hasVcpu : Nat → Bool) (vcpu : Nat) (x : Domain) :
    Except Errno Port × Domain :=
  if hasVcpu vcpu = false then (.error .enoent, x)
  else
    x.withPort maxEvtchns a fun port x =>
      (.ok port, x.setChn port { x.evtchn port with state := .ipi, notifyVcpuId := vcpu })

/-- `d->pirq_to_evtchn[pirq] = port`. -/
def setPirq (x : Domain) (pirq : Nat) (port : Port) : Domain :=
  { x with pirqToEvtchn := Function.update x.pirqToEvtchn pirq port }

/-- `evtchn_bind_pirq`; `permitted` is `irq_access_permitted`, and `bound` whether
`pirq_guest_bind` succeeds. -/
def bindPirq (maxEvtchns nrPirqs : Nat) (a : Answers) (isHvm permitted bound : Bool) (pirq : Nat)
    (x : Domain) : Except Errno Port × Domain :=
  if nrPirqs ≤ pirq then (.error .einval, x)
  else if isHvm = false ∧ permitted = false then (.error .eperm, x)
  else if x.pirqToEvtchn pirq ≠ 0 then (.error .eexist, x)
  else
    x.withPort maxEvtchns a fun port x =>
      let x := x.setPirq pirq port
      if isHvm = false ∧ bound = false then (.error .einval, x.setPirq pirq 0)
      else
        let x := x.setChn port { x.evtchn port with state := .pirq, key := pirq }
        (.ok port, x.linkPirqPort port 0)

def bindVcpu (hasVcpu : Nat → Bool) (port : Port) (vcpu : Nat) (x : Domain) :
    Except Errno Unit × Domain :=
  let chn := x.evtchn port
  let rebound := x.setChn port { chn with notifyVcpuId := vcpu }
  if hasVcpu vcpu = false then (.error .enoent, x)
  else if x.nrPorts ≤ port then (.error .einval, x)
  else if chn.consumerIsXen then (.error .einval, x)
  else
    match chn.state with
    | .virq => if virqIsGlobal chn.key then (.ok (), rebound) else (.error .einval, x)
    | .unbound | .interdomain => (.ok (), rebound)
    | .pirq =>
        if chn.notifyVcpuId = vcpu then (.ok (), x)
        else
          let x := x.unlinkPirqPort port chn.notifyVcpuId
          let x := x.setChn port { x.evtchn port with notifyVcpuId := vcpu }
          (.ok (), x.linkPirqPort port vcpu)
    | .free | .reserved | .ipi => (.error .einval, x)

/-- The end of `__evtchn_close`: the channel is free, bound to vCPU 0. -/
def freePort (x : Domain) (port : Port) : Domain :=
  x.setChn port { x.evtchn port with state := .free, notifyVcpuId := 0 }

/-- `case ECS_VIRQ` of `__evtchn_close`. -/
def clearVirq (x : Domain) (hasVcpu : Nat → Bool) (virq : Nat) (port : Port) : Domain :=
  { x with virqToEvtchn := fun v q =>
      if hasVcpu v ∧ q = virq ∧ x.virqToEvtchn v q = port then 0 else x.virqToEvtchn v q }

end Domain

/-- What `f` reads off the valid ports of all domains. -/
def World.view {α : Type} (f : Channel → Option α) (w : World) (c : Dom × Port) : Option α :=
  (w.dom c.1).view f c.2

section View

variable {α : Type} {f : Channel → Option α}

theorem World.view_setDom (w : World) (d : Dom) (x : Domain) (c : Dom × Port) :
    (w.setDom d x).view f c = if c.1 = d then x.view f c.2 else w.view f c := by
  unfold view
  split
  · next h => rw [h, setDom_self]
  · next h => rw [setDom_of_ne w h]

theorem World.view_setDom_of_eq {w : World} {d : Dom} {x : Domain}
    (h : x.view f = (w.dom d).view f) : (w.setDom d x).view f = w.view f := by
  funext c
  rw [view_setDom]
  split
  · next hd =>
    rw [h, ← hd]
    rfl
  · rfl

/-- One channel of a domain looks different. -/
theorem World.view_setDom_update {w : World} {d : Dom} {x : Domain} {port : Port} {a : Option α}
    (h : x.view f = Function.update ((w.dom d).view f) port a) :
    (w.setDom d x).view f = Function.update (w.view f) (d, port) a := by
  funext c
  rw [view_setDom, h]
  by_cases hc : c = (d, port)
  · subst hc
    rw [Function.update_self, if_pos rfl, Function.update_self]
  · rw [Function.update_of_ne hc]
    split
    · next hd =>
      have hp : c.2 ≠ port := fun hp => hc (Prod.ext hd hp)
      rw [Function.update_of_ne hp, ← hd]
      rfl
    · rfl

theorem World.view_setChn (w : World) (d : Dom) {port : Port} (h : port < (w.dom d).nrPorts)
    (c : Channel) :
    (w.setDom d ((w.dom d).setChn port c)).view f = Function.update (w.view f) (d, port) (f c) :=
  view_setDom_update (Domain.view_setChn h)

end View

/-! ## Operations on two domains -/

/-- `evtchn_bind_interdomain` by `ld`; `rd` is the domain found under
`bind->remote_dom`. -/
def evtchnBindInterdomain (P : Platform) (a : Answers) (xsm : Bool) (ld rd : Dom) (rport : Port)
    (w : World) : Except Errno Port × World :=
  match (w.dom ld).getFreePort (P.maxEvtchns ld) a with
  | (.error e, x) => (.error e, w.setDom ld x)
  | (.ok lport, x) =>
      let w := w.setDom ld x
      let rchn := w.chn rd rport
      if (w.dom rd).nrPorts ≤ rport then (.error .einval, w)
      else if rchn.state ≠ .unbound ∨ rchn.key ≠ P.domainId ld then (.error .einval, w)
      else if xsm = false then (.error .exsm, w)
      else
        let w := w.setDom ld ((w.dom ld).setChn lport
          { w.chn ld lport with state := .interdomain, remoteDom := rd, key := rport })
        let w := w.setDom rd ((w.dom rd).setChn rport
          { w.chn rd rport with state := .interdomain, remoteDom := ld, key := lport })
        (.ok lport, w)

/-- The places where the hypervisor gives up. `notXen` is in `free_xen_event_channel`,
`freedTwice` where `evtchn_destroy` frees the buckets, the others in `__evtchn_close`. -/
inductive Bug where
  | getDomain | peerInvalid | peerState | peerDomain | notXen | freedTwice
  deriving DecidableEq

/-- How a part of `__evtchn_close` ends: with a result, with its lock dropped for
`d2`, or with a `BUG`. -/
inductive CloseOut where
  | done (rc : Except Errno Unit) (w : World)
  | window (d2 : Dom)
  | bug (b : Bug)

/-- `case ECS_INTERDOMAIN` with both locks held. -/
def closePeer (P : Platform) (d1 : Dom) (port1 : Port) (d2 : Dom) (w : World) : CloseOut :=
  let port2 := (w.chn d1 port1).key
  if (w.dom d2).nrPorts ≤ port2 then .bug .peerInvalid
  else if (w.chn d2 port2).state ≠ .interdomain then .bug .peerState
  else if (w.chn d2 port2).remoteDom ≠ d1 then .bug .peerDomain
  else
    let w := w.setDom d2 ((w.dom d2).setChn port2
      { w.chn d2 port2 with state := .unbound, key := P.domainId d1 })
    .done (.ok ()) (w.setDom d1 ((w.dom d1).freePort port1))

/-- A part of `__evtchn_close`, from `again` on. -/
def evtchnClose (P : Platform) (d1 : Dom) (port1 : Port) (seen : Option Dom) (w : World) :
    CloseOut :=
  let x := w.dom d1
  let chn1 := x.evtchn port1
  if x.nrPorts ≤ port1 then .done (.error .einval) w
  else if chn1.consumerIsXen then .done (.error .einval) w
  else
    match chn1.state with
    | .free | .reserved => .done (.error .einval) w
    | .unbound | .ipi => .done (.ok ()) (w.setDom d1 (x.freePort port1))
    | .pirq =>
        let x := x.setPirq chn1.key 0
        let x := x.unlinkPirqPort port1 chn1.notifyVcpuId
        .done (.ok ()) (w.setDom d1 (x.freePort port1))
    | .virq =>
        let x := x.clearVirq (P.hasVcpu d1) chn1.key port1
        .done (.ok ()) (w.setDom d1 (x.freePort port1))
    | .interdomain =>
        match seen with
        | none =>
            let d2 := chn1.remoteDom
            if (w.dom d2).destroyed then .bug .getDomain
            else if d2 < d1 then .window d2
            else closePeer P d1 port1 d2 w
        | some d2 =>
            if d2 ≠ chn1.remoteDom then .done (.error .einval) w
            else closePeer P d1 port1 d2 w

/-! ## Steps -/

/-- What `evtchn_init` makes of a domain that has been zeroed. -/
def Domain.init : Domain where
  isDying := false
  destroyed := false
  nrPorts := evtchnsPerBucket
  evtchn := Function.update (fun _ => Channel.zero) 0 { Channel.zero with state := .reserved }
  virqToEvtchn := fun _ _ => 0
  pirqToEvtchn := fun _ => 0
  pirqEvtchnHead := fun _ => 0
  ssid := fun p => p < evtchnsPerBucket
  freed := fun _ => false

/-- Freshly initialised domains, and no call under way. -/
def World.init : World := ⟨fun _ => Domain.init, fun _ => none⟩

/-- One step: an operation, the first part of a call by CPU `t`, or the next part
of the call it is executing. The domain `d` of an operation is the one whose table
is changed; outcomes of calls made on the way are arguments. -/
inductive Step where
  | allocUnbound (d : Dom) (a : Answers) (xsm : Bool) (remoteDomid : Nat)
  | bindInterdomain (ld rd : Dom) (a : Answers) (xsm : Bool) (rport : Port)
  | bindVirq (d : Dom) (a : Answers) (virq vcpu : Nat)
  | bindIpi (d : Dom) (a : Answers) (vcpu : Nat)
  | bindPirq (d : Dom) (a : Answers) (permitted bound : Bool) (pirq : Nat)
  | bindVcpu (d : Dom) (port : Port) (vcpu : Nat)
  | allocUnboundXen (d : Dom) (a : Answers) (vcpu remoteDomid : Nat)
  | close (t : Nat) (d : Dom) (port : Port)
  | reset (t : Nat) (d : Dom)
  | freeXen (t : Nat) (d : Dom) (port : Port)
  /-- `domain_kill` up to `evtchn_destroy`. -/
  | kill (t : Nat) (d : Dom)
  /-- The last reference to a domain is dropped. -/
  | drop (d : Dom)
  /-- The memory of a bucket that has been freed is written by whoever has it now. -/
  | reuse (d : Dom) (port : Port) (c : Channel)
  | next (t : Nat)

/-- An operation on one domain. -/
def World.update {α : Type} (w : World) (d : Dom) (f : Domain → α × Domain) : World :=
  w.setDom d (f (w.dom d)).2

/-- What a CPU does when a part of `__evtchn_close` has ended: it goes on with
`after` or waits for the lock with `waiting d2`. -/
def World.closed (w : World) (t : Nat) (out : CloseOut) (after : Option Call)
    (waiting : Dom → Call) : Except Bug World :=
  match out with
  | .done _ w => .ok (w.setCall t after)
  | .window d2 => .ok (w.setCall t (some (waiting d2)))
  | .bug b => .error b

theorem World.closed_cases {w w' : World} {t : Nat} {out : CloseOut} {after : Option Call} {waiting : Dom → Call}
    (hw : w.closed t out after waiting = .ok w') :
    (∃ rc w₁, out = .done rc w₁ ∧ w' = w₁.setCall t after) ∨
      ∃ d2, out = .window d2 ∧ w' = w.setCall t (some (waiting d2)) := by
  cases out with
  | done rc w₁ => exact .inl ⟨rc, w₁, rfl, (Except.ok.inj hw).symm⟩
  | window d2 => exact .inr ⟨d2, rfl, (Except.ok.inj hw).symm⟩
  | bug b => cases hw

/-- The next part of a call. -/
def Call.step (P : Platform) (t : Nat) (c : Call) (w : World) : Except Bug World :=
  match c with
  | .close d port seen => w.closed t (evtchnClose P d port (some seen) w) none (.close d port)
  | .reset d i seen =>
      if seen = none ∧ (w.dom d).nrPorts ≤ i then .ok (w.setCall t none)
      else w.closed t (evtchnClose P d i seen w) (some (.reset d (i + 1) none))
        fun d2 => .reset d i (some d2)
  | .freeXen d port seen =>
      w.closed t (evtchnClose P d port seen w) none fun d2 => .freeXen d port (some d2)
  | .destroy d i =>
      let x := w.dom d
      if x.nrPorts ≤ i then
        if (List.range x.nrPorts).any x.freed then .error .freedTwice
        else .ok ((w.setDom d { x with nrPorts := 0 }).setCall t none)
      else
        let x := x.setChn i { x.evtchn i with consumerIsXen := false }
        .ok ((w.setDom d x).setCall t (some (.destroyClose d i none)))
  | .destroyClose d i seen =>
      w.closed t (evtchnClose P d i seen w) (some (.destroy d (i + 1)))
        fun d2 => .destroyClose d i (some d2)

def Step.run (P : Platform) : Step → World → Except Bug World
  | .allocUnbound d a xsm remoteDomid, w =>
      .ok (w.update d (Domain.allocUnbound (P.maxEvtchns d) a xsm remoteDomid))
  | .bindInterdomain ld rd a xsm rport, w =>
      .ok (evtchnBindInterdomain P a xsm ld rd rport w).2
  | .bindVirq d a virq vcpu, w =>
      .ok (w.update d (Domain.bindVirq (P.maxEvtchns d) a (P.hasVcpu d) virq vcpu))
  | .bindIpi d a vcpu, w =>
      .ok (w.update d (Domain.bindIpi (P.maxEvtchns d) a (P.hasVcpu d) vcpu))
  | .bindPirq d a permitted bound pirq, w =>
      .ok (w.update d (Domain.bindPirq (P.maxEvtchns d) (P.nrPirqs d) a (P.isHvm d) permitted
        bound pirq))
  | .bindVcpu d port vcpu, w => .ok (w.update d (Domain.bindVcpu (P.hasVcpu d) port vcpu))
  | .allocUnboundXen d a vcpu remoteDomid, w =>
      .ok (w.update d (Domain.allocUnboundXen (P.maxEvtchns d) a vcpu remoteDomid))
  | .close t d port, w =>
      if w.calls t ≠ none then .ok w
      else w.closed t (evtchnClose P d port none w) none (.close d port)
  | .reset t d, w => if w.calls t ≠ none then .ok w else .ok (w.setCall t (some (.reset d 0 none)))
  | .freeXen t d port, w =>
      let x := w.dom d
      if w.calls t ≠ none ∨ x.isDying then .ok w
      else if x.nrPorts ≤ port ∨ (x.evtchn port).consumerIsXen = false then .error .notXen
      else
        let x := x.setChn port { x.evtchn port with consumerIsXen := false }
        .ok ((w.setDom d x).setCall t (some (.freeXen d port none)))
  | .kill t d, w =>
      let x := w.dom d
      if w.calls t ≠ none ∨ x.isDying then .ok w
      else .ok ((w.setDom d { x with isDying := true }).setCall t (some (.destroy d 0)))
  | .drop d, w =>
      let x := w.dom d
      if x.isDying ∧ x.nrPorts = 0 then .ok (w.setDom d { x with destroyed := true }) else .ok w
  | .reuse d port c, w =>
      let x := w.dom d
      if x.freed port then .ok (w.setDom d (x.setChn port c)) else .ok w
  | .next t, w =>
      match w.calls t with
      | none => .ok w
      | some c => c.step P t w

/-- A run of steps, up to the first `BUG`. -/
def runSteps (P : Platform) : List Step → World → Except Bug World
  | [], w => .ok w
  | s :: rest, w =>
      match s.run P w with
      | .error b => .error b
      | .ok w => runSteps P rest w

/-! ## Labels -/

/-- No port is free, and there is memory for a bucket. -/
structure Domain.Adds (maxEvtchns : Nat) (a : Answers) (x : Domain) : Prop where
  alive : x.isDying = false
  full : ∀ p < x.nrPorts, (x.evtchn p).state ≠ .free
  room : x.nrPorts ≠ maxEvtchns
  alloc : a.alloc = true

/-- The label of every channel in the bucket can be allocated. -/
def Answers.Labels (a : Answers) : Prop := ∀ i < evtchnsPerBucket, a.label i = true

/-- If a bucket is added, its channels get their labels. -/
def Domain.Labelled (maxEvtchns : Nat) (a : Answers) (x : Domain) : Prop :=
  x.Adds maxEvtchns a → a.Labels

/-- What `evtchn_bind_virq` checks before it asks for a port. -/
def Domain.VirqFree (hasVcpu : Nat → Bool) (virq vcpu : Nat) (x : Domain) : Prop :=
  virq < nrVirqs ∧ ¬(virqIsGlobal virq ∧ vcpu ≠ 0) ∧ hasVcpu vcpu = true ∧ x.virqToEvtchn vcpu virq = 0

/-- What `evtchn_bind_pirq` checks before it asks for a port. -/
def Domain.PirqFree (nrPirqs : Nat) (isHvm permitted : Bool) (pirq : Nat) (x : Domain) : Prop :=
  pirq < nrPirqs ∧ ¬(isHvm = false ∧ permitted = false) ∧ x.pirqToEvtchn pirq = 0

/-- If the step adds a bucket, its channels get their labels. -/
def Step.Labelled (P : Platform) (w : World) : Step → Prop
  | .allocUnbound d a _ _ | .allocUnboundXen d a _ _ => (w.dom d).Labelled (P.maxEvtchns d) a
  | .bindInterdomain ld _ a _ _ => (w.dom ld).Labelled (P.maxEvtchns ld) a
  | .bindVirq d a virq vcpu =>
      (w.dom d).VirqFree (P.hasVcpu d) virq vcpu → (w.dom d).Labelled (P.maxEvtchns d) a
  | .bindIpi d a vcpu => P.hasVcpu d vcpu = true → (w.dom d).Labelled (P.maxEvtchns d) a
  | .bindPirq d a permitted _ pirq =>
      (w.dom d).PirqFree (P.nrPirqs d) (P.isHvm d) permitted pirq → (w.dom d).Labelled (P.maxEvtchns d) a
  | .bindVcpu .. | .close .. | .reset .. | .freeXen .. | .kill .. | .drop .. | .reuse .. | .next .. => True

/-- In no step of the run the label of a channel in a new bucket cannot be allocated. -/
def Labelled (P : Platform) : List Step → World → Prop
  | [], _ => True
  | s :: rest, w => s.Labelled P w ∧ ∀ w', s.run P w = .ok w' → Labelled P rest w'

end Evtchn
