import MemoryMonitor.Evtchn.Channels
import MemoryMonitor.Lib.Runs

/-!
# Pending events

A port has a pending and a mask bit in the page the domain shares with the
hypervisor, and each vCPU a selector with one bit for a word of pending bits.
`evtchn_set_pending` and `evtchn_unmask` make one atomic bit operation after
another, and other CPUs, the guest among them, act in between. The channel that
names the vCPU has been read before, so that the event may go to a vCPU the
channel is no longer bound to.

An event is not lost: a port that is pending and not masked has been announced in
a selector since, or the call that made it so is still between its operations and
will announce it. The wake-up of polling vCPUs at the end of `evtchn_set_pending`
touches none of these bits and is left out.
-/

namespace Evtchn.Pending

/-- The bit operations of `evtchn_set_pending` and `evtchn_unmask`. The last is
common to both. -/
inductive BitOp where
  /-- `test_and_set_bit(port, &shared_info(d, evtchn_pending))`. -/
  | setPending
  /-- `test_bit(port, &shared_info(d, evtchn_mask))`. -/
  | testMask
  /-- `test_and_clear_bit(port, &shared_info(d, evtchn_mask))`. -/
  | clearMask
  /-- `test_bit(port, &shared_info(d, evtchn_pending))`. -/
  | testPending
  /-- `test_and_set_bit(port / BITS_PER_EVTCHN_WORD(d), &vcpu_info(v, evtchn_pending_sel))`. -/
  | setSel
  deriving DecidableEq

/-- A call for the vCPU `v` and a port of `d`, before its operation `op`. -/
structure BitCall where
  op : BitOp
  d : Dom
  v : Nat
  port : Port
  deriving DecidableEq

/-- The channel tables, the shared bits and the calls under way. The last four
fields are history: the number of steps so far, the last step that made a port
pending or unmasked it, the last that set a selector bit, and the last that
fetched a selector. -/
structure State where
  world : World
  pending : Dom × Port → Bool
  mask : Dom × Port → Bool
  sel : Dom × Nat × Nat → Bool
  calls : Nat → Option BitCall
  time : Nat
  raised : Dom × Port → Nat
  selSet : Dom × Nat × Nat → Nat
  fetched : Dom × Nat → Nat

/-- No event is pending and no call under way. -/
def State.init (w : World) (mask : Dom × Port → Bool) (sel : Dom × Nat × Nat → Bool) : State where
  world := w
  pending _ := false
  mask := mask
  sel := sel
  calls _ := none
  time := 0
  raised _ := 0
  selSet _ := 0
  fetched _ := 0

/-! ## Whom to notify -/

/-- A call of `evtchn_set_pending`: a domain, a vCPU and a port. -/
abbrev Target := Dom × Nat × Port

/-- `evtchn_send`; `xsm` is whether the hook permits. -/
def evtchnSend (xsm : Bool) (w : World) (ld : Dom) (lport : Port) : Option Target :=
  let lchn := w.chn ld lport
  if (w.dom ld).nrPorts ≤ lport then none
  else if lchn.consumerIsXen then none
  else if xsm = false then none
  else
    match lchn.state with
    | .interdomain =>
        let rchn := w.chn lchn.remoteDom lchn.key
        -- a consumer in Xen is woken instead
        if rchn.consumerIsXen then none else some (lchn.remoteDom, rchn.notifyVcpuId, lchn.key)
    | .ipi => some (ld, lchn.notifyVcpuId, lport)
    | .free | .reserved | .unbound | .pirq | .virq => none

def sendGuestVcpuVirq (w : World) (d : Dom) (v virq : Nat) : Option Target :=
  let port := (w.dom d).virqToEvtchn v virq
  if port = 0 then none else some (d, v, port)

def sendGuestGlobalVirq (w : World) (d : Dom) (virq : Nat) : Option Target :=
  let port := (w.dom d).virqToEvtchn 0 virq
  if port = 0 then none else some (d, (w.chn d port).notifyVcpuId, port)

def sendGuestPirq (w : World) (d : Dom) (pirq : Nat) : Option Target :=
  let port := (w.dom d).pirqToEvtchn pirq
  if port = 0 then none else some (d, (w.chn d port).notifyVcpuId, port)

/-! ## Steps -/

/-- What can happen: a call by CPU `t`, its next bit operation, a change of the
tables, or an action of the guest. -/
inductive Event where
  | send (t : Nat) (d : Dom) (lport : Port) (xsm : Bool)
  | vcpuVirq (t : Nat) (d : Dom) (v virq : Nat)
  | globalVirq (t : Nat) (d : Dom) (virq : Nat)
  | pirq (t : Nat) (d : Dom) (pirq : Nat)
  | bindInterdomain (t : Nat) (ld rd : Dom) (a : Answers) (xsm : Bool) (rport : Port)
  | unmask (t : Nat) (d : Dom) (port : Port)
  | bindVcpu (d : Dom) (port : Port) (vcpu : Nat)
  | next (t : Nat)
  | guestMask (d : Dom) (port : Port)
  | guestClear (d : Dom) (port : Port)
  /-- The guest fetches and clears the selector of `v`. -/
  | guestFetch (d : Dom) (v : Nat)

namespace State

def setCall (σ : State) (t : Nat) (c : Option BitCall) : State :=
  { σ with calls := Function.update σ.calls t c }

/-- A call of `evtchn_set_pending` is made. -/
def start (σ : State) (t : Nat) : Option Target → State
  | none => σ
  | some (d, v, port) => σ.setCall t (some ⟨.setPending, d, v, port⟩)

/-- The bit operation of a call, and what remains of the call. `bits d` is
`BITS_PER_EVTCHN_WORD(d)`. -/
def bitOp (bits : Dom → Nat) (σ : State) (c : BitCall) : State × Option BitCall :=
  match c.op with
  | .setPending =>
      if σ.pending (c.d, c.port) then (σ, none)
      else
        ({ σ with
            pending := Function.update σ.pending (c.d, c.port) true
            raised := Function.update σ.raised (c.d, c.port) σ.time },
          some { c with op := .testMask })
  | .testMask => if σ.mask (c.d, c.port) then (σ, none) else (σ, some { c with op := .setSel })
  | .clearMask =>
      if σ.mask (c.d, c.port) then
        ({ σ with
            mask := Function.update σ.mask (c.d, c.port) false
            raised := Function.update σ.raised (c.d, c.port) σ.time },
          some { c with op := .testPending })
      else (σ, none)
  | .testPending =>
      if σ.pending (c.d, c.port) then (σ, some { c with op := .setSel }) else (σ, none)
  | .setSel =>
      ({ σ with
          sel := Function.update σ.sel (c.d, c.v, c.port / bits c.d) true
          selSet := Function.update σ.selSet (c.d, c.v, c.port / bits c.d) σ.time },
        none)

/-- One step, without the clock. -/
def act (P : Platform) (bits : Dom → Nat) (σ : State) : Event → State
  | .send t d lport xsm =>
      if σ.calls t = none then σ.start t (evtchnSend xsm σ.world d lport) else σ
  | .vcpuVirq t d v virq =>
      if σ.calls t = none then σ.start t (sendGuestVcpuVirq σ.world d v virq) else σ
  | .globalVirq t d virq =>
      if σ.calls t = none then σ.start t (sendGuestGlobalVirq σ.world d virq) else σ
  | .pirq t d pirq => if σ.calls t = none then σ.start t (sendGuestPirq σ.world d pirq) else σ
  | .bindInterdomain t ld rd a xsm rport =>
      if σ.calls t = none then
        match evtchnBindInterdomain P a xsm ld rd rport σ.world with
        | (.ok lport, w) =>
            { σ with world := w }.start t (some (ld, (w.chn ld lport).notifyVcpuId, lport))
        | (.error _, w) => { σ with world := w }
      else σ
  | .unmask t d port =>
      if σ.calls t = none ∧ port < (σ.world.dom d).nrPorts then
        σ.setCall t (some ⟨.clearMask, d, (σ.world.chn d port).notifyVcpuId, port⟩)
      else σ
  | .bindVcpu d port vcpu =>
      { σ with world := σ.world.update d (Domain.bindVcpu (P.hasVcpu d) port vcpu) }
  | .next t =>
      match σ.calls t with
      | none => σ
      | some c => (σ.bitOp bits c).1.setCall t (σ.bitOp bits c).2
  | .guestMask d port => { σ with mask := Function.update σ.mask (d, port) true }
  | .guestClear d port => { σ with pending := Function.update σ.pending (d, port) false }
  | .guestFetch d v =>
      { σ with
        sel := fun k => if k.1 = d ∧ k.2.1 = v then false else σ.sel k
        fetched := Function.update σ.fetched (d, v) σ.time }

def tick (σ : State) : State := { σ with time := σ.time + 1 }

/-- One step at the next instant. -/
def step (P : Platform) (bits : Dom → Nat) (e : Event) (σ : State) : State := σ.tick.act P bits e

/-! ## Announced events -/

/-- Since the port was made pending or unmasked, whichever was later, the selector
bit of its word has been set for some vCPU, and it still is unless that vCPU has
fetched its selector afterwards. -/
def Announced (bits : Dom → Nat) (σ : State) (d : Dom) (port : Port) : Prop :=
  ∃ v, σ.raised (d, port) < σ.selSet (d, v, port / bits d) ∧
    (σ.sel (d, v, port / bits d) = true ∨ σ.selSet (d, v, port / bits d) < σ.fetched (d, v))

/-- A call for the port is between its bit operations. -/
def UnderWay (σ : State) (d : Dom) (port : Port) : Prop :=
  ∃ t c, σ.calls t = some c ∧ c.d = d ∧ c.port = port ∧ c.op ≠ .setPending ∧ c.op ≠ .clearMask

def NoLostEvent (bits : Dom → Nat) (σ : State) : Prop :=
  ∀ d port, σ.pending (d, port) = true → σ.mask (d, port) = false →
    σ.Announced bits d port ∨ σ.UnderWay d port

structure Inv (bits : Dom → Nat) (σ : State) : Prop where
  raised : ∀ c, σ.raised c ≤ σ.time
  selSet : ∀ k, σ.selSet k ≤ σ.time
  noLostEvent : σ.NoLostEvent bits

variable {bits : Dom → Nat} {σ σ' : State} {d : Dom} {port : Port} {t : Nat}

theorem UnderWay.setCall {c : Option BitCall} (h : σ.UnderWay d port)
    (ht : ∀ c₀, σ.calls t = some c₀ → c₀.d = d → c₀.port = port →
      c₀.op = .setPending ∨ c₀.op = .clearMask) :
    (σ.setCall t c).UnderWay d port := by
  obtain ⟨t', c', hc', hd, hp, hop⟩ := h
  have hne : t' ≠ t := by
    rintro rfl
    rcases ht c' hc' hd hp with ho | ho
    · exact hop.1 ho
    · exact hop.2 ho
  exact ⟨t', c', (Function.update_of_ne hne ..).trans hc', hd, hp, hop⟩

/-- The bits and their history are the same. -/
theorem Inv.congr (h : Inv bits σ) (hp : σ'.pending = σ.pending) (hm : σ'.mask = σ.mask)
    (hs : σ'.sel = σ.sel) (ht : σ'.time = σ.time) (hr : σ'.raised = σ.raised)
    (hss : σ'.selSet = σ.selSet) (hf : σ'.fetched = σ.fetched)
    (hu : ∀ d port, σ.UnderWay d port → σ'.UnderWay d port) : Inv bits σ' where
  raised := by
    rw [hr, ht]
    exact h.raised
  selSet := by
    rw [hss, ht]
    exact h.selSet
  noLostEvent d port hpend hmask := by
    rw [hp] at hpend
    rw [hm] at hmask
    unfold Announced
    rw [hr, hss, hs, hf]
    exact (h.noLostEvent d port hpend hmask).imp_right (hu d port)

theorem Inv.setCall_idle {c : Option BitCall} (h : Inv bits σ) (ht : σ.calls t = none) :
    Inv bits (σ.setCall t c) :=
  h.congr rfl rfl rfl rfl rfl rfl rfl fun _ _ hu => hu.setCall fun c₀ hc₀ => by
    rw [ht] at hc₀
    cases hc₀

theorem Inv.start (h : Inv bits σ) (ht : σ.calls t = none) (target : Option Target) :
    Inv bits (σ.start t target) := by
  cases target with
  | none => exact h
  | some a => exact h.setCall_idle ht

theorem Inv.setWorld (h : Inv bits σ) (w : World) : Inv bits { σ with world := w } :=
  h.congr rfl rfl rfl rfl rfl rfl rfl fun _ _ => id

/-! ## Bit operations -/

theorem Inv.raise {c : BitCall} (h : Inv bits σ) {σ' : State} (hs : σ'.sel = σ.sel)
    (ht : σ'.time = σ.time) (hr : σ'.raised = Function.update σ.raised (c.d, c.port) σ.time)
    (hss : σ'.selSet = σ.selSet) (hf : σ'.fetched = σ.fetched)
    (hc : σ'.calls = Function.update σ.calls t (some c)) (ht₀ : ∀ c₀, σ.calls t = some c₀ →
      c₀.op = .setPending ∨ c₀.op = .clearMask) (hop : c.op ≠ .setPending ∧ c.op ≠ .clearMask)
    (hold : ∀ q, q ≠ (c.d, c.port) → σ'.pending q = true → σ'.mask q = false →
      σ.pending q = true ∧ σ.mask q = false) : Inv bits σ' where
  raised q := by
    rw [hr, ht]
    by_cases hq : q = (c.d, c.port)
    · rw [hq, Function.update_self]
    · rw [Function.update_of_ne hq]
      exact h.raised q
  selSet := by
    rw [hss, ht]
    exact h.selSet
  noLostEvent d port hpend hmask := by
    by_cases hq : (d, port) = (c.d, c.port)
    · rw [Prod.mk.injEq] at hq
      refine .inr ⟨t, c, ?_, hq.1.symm, hq.2.symm, hop⟩
      rw [hc, Function.update_self]
    · obtain ⟨hpend₀, hmask₀⟩ := hold (d, port) hq hpend hmask
      rcases h.noLostEvent d port hpend₀ hmask₀ with ⟨v, ha, hv⟩ | hu
      · refine .inl ⟨v, ?_, ?_⟩
        · rw [hr, hss, Function.update_of_ne hq]
          exact ha
        · rw [hs, hss, hf]
          exact hv
      · refine .inr ?_
        obtain ⟨t', c', hc', hrest⟩ := hu.setCall (t := t) (c := some c) fun c₀ hc₀ _ _ => ht₀ c₀ hc₀
        refine ⟨t', c', ?_, hrest⟩
        rw [hc]
        exact hc'

/-- A call ends, or goes on without having changed anything. If it ends, its port
is masked or not pending. -/
theorem Inv.test {c : BitCall} {c' : Option BitCall} (h : Inv bits σ) (ht : σ.calls t = some c)
    (hgo : (∃ op, c' = some { c with op := op } ∧ op ≠ .setPending ∧ op ≠ .clearMask) ∨
      σ.pending (c.d, c.port) = false ∨ σ.mask (c.d, c.port) = true ∨
      c.op = .setPending ∨ c.op = .clearMask) :
    Inv bits (σ.setCall t c') where
  raised := h.raised
  selSet := h.selSet
  noLostEvent d port hpend hmask := by
    rcases h.noLostEvent d port hpend hmask with ha | hu
    · exact .inl ha
    refine .inr ?_
    by_cases hq : c.d = d ∧ c.port = port
    · obtain ⟨rfl, rfl⟩ := hq
      rcases hgo with ⟨op, rfl, hop⟩ | hnp | hma | hop
      · exact ⟨t, _, Function.update_self .., rfl, rfl, hop⟩
      · change σ.pending (c.d, c.port) = true at hpend
        rw [hnp] at hpend
        cases hpend
      · change σ.mask (c.d, c.port) = false at hmask
        rw [hma] at hmask
        cases hmask
      · refine hu.setCall fun c₀ hc₀ _ _ => ?_
        rw [ht] at hc₀
        cases hc₀
        exact hop
    · refine hu.setCall fun c₀ hc₀ hd hp => ?_
      rw [ht] at hc₀
      cases hc₀
      exact absurd ⟨hd, hp⟩ hq

theorem Inv.announce {c : BitCall} (h : Inv bits σ) (ht : σ.calls t = some c)
    (hraised : ∀ q, σ.raised q < σ.time) :
    Inv bits (setCall { σ with
      sel := Function.update σ.sel (c.d, c.v, c.port / bits c.d) true
      selSet := Function.update σ.selSet (c.d, c.v, c.port / bits c.d) σ.time } t none) where
  raised := h.raised
  selSet k := by
    show Function.update σ.selSet _ σ.time k ≤ σ.time
    by_cases hk : k = (c.d, c.v, c.port / bits c.d)
    · rw [hk, Function.update_self]
    · rw [Function.update_of_ne hk]
      exact h.selSet k
  noLostEvent d port hpend hmask := by
    by_cases hq : c.d = d ∧ c.port = port
    · obtain ⟨rfl, rfl⟩ := hq
      refine .inl ⟨c.v, ?_, .inl (Function.update_self ..)⟩
      show σ.raised (c.d, c.port) < Function.update σ.selSet _ σ.time _
      rw [Function.update_self]
      exact hraised _
    rcases h.noLostEvent d port hpend hmask with ⟨v, ha, hv⟩ | hu
    · refine .inl ⟨v, ?_⟩
      show σ.raised (d, port) < Function.update σ.selSet _ σ.time _ ∧
        (Function.update σ.sel _ true _ = true ∨ Function.update σ.selSet _ σ.time _ < σ.fetched (d, v))
      by_cases hk : (d, v, port / bits d) = (c.d, c.v, c.port / bits c.d)
      · rw [hk, Function.update_self, Function.update_self]
        exact ⟨hraised _, .inl rfl⟩
      · rw [Function.update_of_ne hk, Function.update_of_ne hk]
        exact ⟨ha, hv⟩
    · refine .inr ?_
      obtain ⟨t', c', hc', hrest⟩ := hu.setCall (t := t) (c := none) fun c₀ hc₀ hd hp => by
        rw [ht] at hc₀
        cases hc₀
        exact absurd ⟨hd, hp⟩ hq
      exact ⟨t', c', hc', hrest⟩

theorem Inv.next {c : BitCall} (h : Inv bits σ) (ht : σ.calls t = some c)
    (hraised : ∀ q, σ.raised q < σ.time) :
    Inv bits ((σ.bitOp bits c).1.setCall t (σ.bitOp bits c).2) := by
  have hmine {c₀ : BitCall} (hc₀ : σ.calls t = some c₀) : c₀ = c := by
    rw [ht] at hc₀
    exact (Option.some.inj hc₀).symm
  unfold bitOp
  split
  · next hop =>
    split
    · -- already pending: whoever made it so announces it
      exact h.test ht (.inr (.inr (.inr (.inl hop))))
    · refine h.raise (c := { c with op := .testMask }) (t := t) rfl rfl rfl rfl rfl rfl ?_ (by simp) ?_
      · intro c₀ hc₀
        exact .inl ((hmine hc₀) ▸ hop)
      · intro q hq hpend hmask
        refine ⟨?_, hmask⟩
        change Function.update σ.pending (c.d, c.port) true q = true at hpend
        rw [Function.update_of_ne hq] at hpend
        exact hpend
  · split
    · next hm => exact h.test ht (.inr (.inr (.inl hm)))
    · exact h.test ht (.inl ⟨.setSel, rfl, by simp⟩)
  · next hop =>
    split
    · refine h.raise (c := { c with op := .testPending }) (t := t) rfl rfl rfl rfl rfl rfl ?_ (by simp) ?_
      · intro c₀ hc₀
        exact .inr ((hmine hc₀) ▸ hop)
      · intro q hq hpend hmask
        refine ⟨hpend, ?_⟩
        change Function.update σ.mask (c.d, c.port) false q = false at hmask
        rw [Function.update_of_ne hq] at hmask
        exact hmask
    · -- not masked: nothing has been held back
      exact h.test ht (.inr (.inr (.inr (.inr hop))))
  · split
    · exact h.test ht (.inl ⟨.setSel, rfl, by simp⟩)
    · next hp => exact h.test ht (.inr (.inl (by simpa using hp)))
  · exact h.announce ht hraised

/-! ## Runs -/

theorem Inv.less (h : Inv bits σ) {pending mask : Dom × Port → Bool}
    (hold : ∀ q, pending q = true → mask q = false → σ.pending q = true ∧ σ.mask q = false) :
    Inv bits { σ with pending := pending, mask := mask } where
  raised := h.raised
  selSet := h.selSet
  noLostEvent d port hpend hmask := by
    obtain ⟨hp, hm⟩ := hold (d, port) hpend hmask
    exact h.noLostEvent d port hp hm

theorem Inv.fetch (h : Inv bits σ) (hsel : ∀ k, σ.selSet k < σ.time) (d : Dom) (v : Nat) :
    Inv bits { σ with
      sel := fun k => if k.1 = d ∧ k.2.1 = v then false else σ.sel k
      fetched := Function.update σ.fetched (d, v) σ.time } where
  raised := h.raised
  selSet := h.selSet
  noLostEvent d' port hpend hmask := by
    rcases h.noLostEvent d' port hpend hmask with ⟨v', ha, hv⟩ | hu
    · refine .inl ⟨v', ha, ?_⟩
      show (if d' = d ∧ v' = v then false else σ.sel _) = true ∨
        σ.selSet _ < Function.update σ.fetched (d, v) σ.time (d', v')
      by_cases hk : (d', v') = (d, v)
      · rw [hk, Function.update_self]
        exact .inr (hsel _)
      · rw [Function.update_of_ne hk, if_neg fun he => hk (Prod.ext he.1 he.2)]
        exact hv
    · exact .inr hu

theorem Inv.act {P : Platform} (h : Inv bits σ) (hraised : ∀ q, σ.raised q < σ.time)
    (hsel : ∀ k, σ.selSet k < σ.time) (e : Event) : Inv bits (σ.act P bits e) := by
  cases e with
  | send | vcpuVirq | globalVirq | pirq =>
    unfold State.act
    dsimp only
    split
    · next ht => exact h.start ht _
    · exact h
  | bindInterdomain t ld rd a xsm rport =>
    unfold State.act
    dsimp only
    split
    · next ht =>
      split
      · next w _ => exact (h.setWorld w).start ht _
      · next w _ => exact h.setWorld w
    · exact h
  | unmask t d port =>
    unfold State.act
    dsimp only
    split
    · next ht => exact h.setCall_idle ht.1
    · exact h
  | bindVcpu d port vcpu => exact h.setWorld _
  | next t =>
    unfold State.act
    dsimp only
    split
    · exact h
    · next ht => exact h.next ht hraised
  | guestMask d port =>
    refine h.less fun q hpend hmask => ⟨hpend, ?_⟩
    by_cases hq : q = (d, port)
    · rw [hq, Function.update_self] at hmask
      cases hmask
    · rw [Function.update_of_ne hq] at hmask
      exact hmask
  | guestClear d port =>
    refine h.less fun q hpend hmask => ⟨?_, hmask⟩
    by_cases hq : q = (d, port)
    · rw [hq, Function.update_self] at hpend
      cases hpend
    · rw [Function.update_of_ne hq] at hpend
      exact hpend
  | guestFetch d v => exact h.fetch hsel d v

theorem Inv.step {P : Platform} (h : Inv bits σ) (e : Event) : Inv bits (σ.step P bits e) := by
  have htick : Inv bits σ.tick :=
    ⟨fun q => Nat.le_succ_of_le (h.raised q), fun k => Nat.le_succ_of_le (h.selSet k), h.noLostEvent⟩
  exact htick.act (fun q => Nat.lt_succ_of_le (h.raised q))
    (fun k => Nat.lt_succ_of_le (h.selSet k)) e

end State

/-- In every interleaving of the bit operations with changes of the tables and
actions of the guest, an event that is pending and not masked has been announced,
or a call for its port is between its bit operations. -/
theorem run_noLostEvent (P : Platform) (bits : Dom → Nat) (w : World) (mask : Dom × Port → Bool)
    (sel : Dom × Nat × Nat → Bool) (events : List Event) :
    (Runs.run (State.step P bits) events (.init w mask sel)).NoLostEvent bits := by
  have hinit : State.Inv bits (.init w mask sel) :=
    ⟨fun _ => le_rfl, fun _ => le_rfl, fun _ _ hp => by cases hp⟩
  exact (Runs.run_inv (I := State.Inv bits) (fun e _ h => h.step e) events hinit).noLostEvent

/-- A domain with an inter-processor interrupt at port 1. -/
def ipiWorld : World :=
  World.init.update 0 (Domain.bindIpi 4096 .all (Platform.twoVcpus.hasVcpu 0) 1)

/-- Between the first bit operation of `evtchn_set_pending` and its last, the event
is pending and not masked, and no selector tells. -/
theorem pending_before_announced :
    let σ := Runs.run (State.step .twoVcpus fun _ => 64) [.send 0 0 1 true, .next 0]
      (.init ipiWorld (fun _ => false) fun _ => false)
    σ.pending (0, 1) = true ∧ σ.mask (0, 1) = false ∧ ¬σ.Announced (fun _ => 64) 0 1 := by
  refine ⟨by decide, by decide, ?_⟩
  rintro ⟨v, hv, -⟩
  exact absurd hv (Nat.not_lt_zero _)

/-- Two operations later the selector of vCPU 1 tells. -/
example :
    (Runs.run (State.step .twoVcpus fun _ => 64) [.send 0 0 1 true, .next 0, .next 0, .next 0]
      (.init ipiWorld (fun _ => false) fun _ => false)).sel (0, 1, 0) = true := by
  decide

end Evtchn.Pending
