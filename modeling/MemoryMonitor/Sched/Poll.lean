import MemoryMonitor.Lib.Runs
import Mathlib.Logic.Function.Basic

/-!
# Polling for events

`do_poll` of `xen/common/schedule.c` puts the current vCPU to sleep until one of a list of ports is
pending. It marks itself as blocked and as polling and then looks at the ports, while other CPUs make
ports pending (`evtchn_set_pending` of `xen/common/event_channel.c`) and unblock vCPUs (`vcpu_unblock`).
No lock is held on either side.

A step is one atomic bit operation, one test or one assignment. The vCPUs other than the poller may
change what is noted about them at any time.
-/

namespace Sched.Poll

/-- What `do_poll` has been called with, and what it finds: `ports` is what the copies from the guest
yield, where `none` is a fault. -/
structure Call where
  ports : List (Option Nat)
  handleOkay : Bool
  maxEvtchns : Nat
  /-- The `vcpu_id` of the poller. -/
  vcpuId : Nat
  maxVcpus : Nat
  vcpuId_lt : vcpuId < maxVcpus

/-- Where the poller stands. -/
inductive Stage where
  | start
  /-- `v->poll_evtchn = -1` -/
  | evtchn
  /-- `set_bit(v->vcpu_id, d->poll_mask)` -/
  | mask
  /-- `local_events_need_delivery()` -/
  | deliver
  /-- the turn `i` of the loop -/
  | check (i : Nat)
  /-- `if ( sched_poll->nr_ports == 1 ) v->poll_evtchn = port` -/
  | narrow
  /-- `raise_softirq(SCHEDULE_SOFTIRQ); return 0` -/
  | asleep
  /-- `out:` -/
  | out
  | outMask
  | outBlocked
  | bailed
  deriving DecidableEq

/-- Where `vcpu_unblock` returns to. -/
inductive Back where
  | caller
  /-- `vcpu_mark_events_pending` in `evtchn_set_pending` -/
  | scan (port : Nat)
  /-- the loop of `evtchn_set_pending`, on with the vCPU `k` -/
  | loop (port k : Nat)
  deriving DecidableEq

/-- The next operation of a CPU. -/
inductive Pc where
  | idle
  /-- `test_and_set_bit(port, &shared_info(d, evtchn_pending))` -/
  | pend (v port : Nat)
  /-- the tests of `evtchn_mask` and `evtchn_pending_sel` -/
  | notify (v port : Nat)
  /-- bit `k` in `bitmap_empty(d->poll_mask, d->max_vcpus)` -/
  | empty (port k : Nat)
  /-- bit `k` in `find_first_bit` and `find_next_bit` -/
  | find (port k : Nat)
  /-- `v->poll_evtchn <= 0` -/
  | below (port k : Nat)
  /-- `v->poll_evtchn == port` -/
  | equal (port k : Nat)
  /-- `test_and_clear_bit(vcpuid, d->poll_mask)` -/
  | claim (port k : Nat)
  /-- `v->poll_evtchn = 0` -/
  | reset (port k : Nat)
  /-- `test_and_clear_bit(_VPF_blocked, &v->pause_flags)` -/
  | unblock (v : Nat) (back : Back)
  /-- `v->poll_evtchn != 0` -/
  | polled (v : Nat) (back : Back)
  /-- `v->poll_evtchn = 0` -/
  | forget (v : Nat) (back : Back)
  /-- `test_and_clear_bit(v->vcpu_id, v->domain->poll_mask)` -/
  | unmark (v : Nat) (back : Back)
  /-- `clear_bit(_VPF_blocked, &v->pause_flags)` -/
  | reclear (v : Nat) (back : Back)
  deriving DecidableEq

def Back.pc : Back → Pc
  | .caller => .idle
  | .scan port => .empty port 0
  | .loop port k => .find port k

/-- The vCPUs and the ports of the domain, the poller, and the other CPUs. -/
structure State (C : Type) where
  blocked : Nat → Bool
  pollEvtchn : Nat → Int
  pollMask : Nat → Bool
  pending : Nat → Bool
  poller : Stage
  pc : C → Pc

namespace State

variable {C : Type} [DecidableEq C] (call : Call) (s : State C)

def setPc (c : C) (pc : Pc) : State C := { s with pc := Function.update s.pc c pc }

/-- The rest of `vcpu_unblock`, `vcpu_wake` with it, does not touch the state. -/
def goBack (c : C) (back : Back) : State C := s.setPc c back.pc

/-- The next operation of a CPU. `kick` says whether the event is news to the vCPU that is notified, so
that `vcpu_mark_events_pending` unblocks it. -/
def go (c : C) (kick : Bool) : State C :=
  match s.pc c with
  | .idle => s
  | .pend v port =>
    if s.pending port then s.setPc c .idle
    else { s with
      pending := Function.update s.pending port true
      pc := Function.update s.pc c (.notify v port) }
  | .notify v port => s.setPc c (if kick then .unblock v (.scan port) else .empty port 0)
  | .empty port k =>
    s.setPc c (
      if k < call.maxVcpus then (if s.pollMask k then .find port 0 else .empty port (k + 1)) else .idle)
  | .find port k =>
    s.setPc c (
      if k < call.maxVcpus then (if s.pollMask k then .below port k else .find port (k + 1)) else .idle)
  | .below port k => s.setPc c (if s.pollEvtchn k ≤ 0 then .claim port k else .equal port k)
  | .equal port k => s.setPc c (if s.pollEvtchn k = port then .claim port k else .find port (k + 1))
  | .claim port k =>
    if s.pollMask k then { s with
      pollMask := Function.update s.pollMask k false
      pc := Function.update s.pc c (.reset port k) }
    else s.setPc c (.find port (k + 1))
  | .reset port k => { s with
      pollEvtchn := Function.update s.pollEvtchn k 0
      pc := Function.update s.pc c (.unblock k (.loop port (k + 1))) }
  | .unblock v back =>
    if s.blocked v then { s with
      blocked := Function.update s.blocked v false
      pc := Function.update s.pc c (.polled v back) }
    else s.goBack c back
  | .polled v back => if s.pollEvtchn v ≠ 0 then s.setPc c (.forget v back) else s.goBack c back
  | .forget v back => { s with
      pollEvtchn := Function.update s.pollEvtchn v 0
      pc := Function.update s.pc c (.unmark v back) }
  | .unmark v back =>
    if s.pollMask v then { s with
      pollMask := Function.update s.pollMask v false
      pc := Function.update s.pc c (.reclear v back) }
    else s.goBack c back
  | .reclear v back => { s with blocked := Function.update s.blocked v false }.goBack c back

/-- The next operation of the poller; `events` is what `local_events_need_delivery()` yields. -/
def poll (events : Bool) : State C :=
  match s.poller with
  | .start =>
    if 128 < call.ports.length ∨ call.handleOkay = false then { s with poller := .bailed }
    else { s with blocked := Function.update s.blocked call.vcpuId true, poller := .evtchn }
  | .evtchn => { s with pollEvtchn := Function.update s.pollEvtchn call.vcpuId (-1), poller := .mask }
  | .mask => { s with pollMask := Function.update s.pollMask call.vcpuId true, poller := .deliver }
  | .deliver => { s with poller := if events then .out else .check 0 }
  | .check i =>
    match call.ports[i]? with
    | none => { s with poller := .narrow }
    | some none => { s with poller := .out }
    | some (some port) =>
      { s with poller := if call.maxEvtchns ≤ port ∨ s.pending port then .out else .check (i + 1) }
  | .narrow =>
    match call.ports with
    | [some port] =>
      { s with pollEvtchn := Function.update s.pollEvtchn call.vcpuId port, poller := .asleep }
    | _ => { s with poller := .asleep }
  | .out => { s with pollEvtchn := Function.update s.pollEvtchn call.vcpuId 0, poller := .outMask }
  | .outMask => { s with pollMask := Function.update s.pollMask call.vcpuId false, poller := .outBlocked }
  | .outBlocked => { s with blocked := Function.update s.blocked call.vcpuId false, poller := .bailed }
  | .asleep => s
  | .bailed => s

end State

inductive Step (C : Type) where
  /-- The poller goes on. -/
  | poll (events : Bool)
  /-- A CPU calls `evtchn_set_pending(v, port)`. -/
  | setPending (c : C) (v port : Nat)
  /-- A CPU calls `vcpu_unblock(v)`. -/
  | unblock (c : C) (v : Nat)
  /-- A CPU goes on. -/
  | go (c : C) (kick : Bool)
  /-- Another vCPU blocks, polls or is woken. -/
  | other (v : Nat) (blocked mask : Bool) (evtchn : Int)

variable {C : Type} [DecidableEq C] (call : Call)

def act (step : Step C) (s : State C) : State C :=
  match step with
  | .poll events => s.poll call events
  | .setPending c v port => if s.pc c = .idle then s.setPc c (.pend v port) else s
  | .unblock c v => if s.pc c = .idle then s.setPc c (.unblock v .caller) else s
  | .go c kick => s.go call c kick
  | .other v blocked mask evtchn =>
    if v = call.vcpuId then s
    else { s with
      blocked := Function.update s.blocked v blocked
      pollMask := Function.update s.pollMask v mask
      pollEvtchn := Function.update s.pollEvtchn v evtchn }

/-- `do_poll` is called by a vCPU that runs, and no CPU is in the middle of a call. -/
structure Starts (s : State C) : Prop where
  poller : s.poller = .start
  running : s.blocked call.vcpuId = false
  idle : ∀ c, s.pc c = .idle

/-- `do_poll` has returned, and so have all calls of the other CPUs. -/
structure Finished (s : State C) : Prop where
  poller : s.poller = .asleep ∨ s.poller = .bailed
  idle : ∀ c, s.pc c = .idle

/-! ## Who is going to wake the poller -/

/-- A CPU that is about to unblock the vCPU `p`. -/
def Rescues (p : Nat) : Pc → Prop
  | .reset _ k => k = p
  | .unblock v _ => v = p
  | .unmark v _ => v = p
  | _ => False

/-- A call of `vcpu_unblock` after which the CPU comes to the vCPU `p`. -/
def Heads (p port : Nat) : Back → Prop
  | .caller => False
  | .scan e => e = port
  | .loop e k => e = port ∧ k ≤ p

/-- A CPU that has made `port` pending and has not come past the vCPU `p` yet. `single` says that the
port is the one that `p` has noted. -/
def Approaches (single : Prop) (p port : Nat) : Pc → Prop
  | .notify _ e => e = port
  | .empty e k => e = port ∧ k ≤ p
  | .find e k => e = port ∧ k ≤ p
  | .below e k => e = port ∧ k ≤ p
  | .equal e k => e = port ∧ (k < p ∨ k = p ∧ single)
  | .claim e k => e = port ∧ k ≤ p
  | .reset e k => e = port ∧ k < p
  | .unblock _ back => Heads p port back
  | .polled _ back => Heads p port back
  | .forget _ back => Heads p port back
  | .unmark _ back => Heads p port back
  | .reclear _ back => Heads p port back
  | _ => False

theorem Heads.approaches {p port : Nat} {back : Back} (h : Heads p port back) (single : Prop) :
    Approaches single p port back.pc := by
  cases back with
  | caller => exact h.elim
  | scan e => exact ⟨h, Nat.zero_le p⟩
  | loop e k => exact h

theorem Approaches.mono {single single' : Prop} {p port : Nat} {pc : Pc} (h : Approaches single p port pc)
    (himp : single → single') : Approaches single' p port pc := by
  cases pc with
  | equal e k => exact ⟨h.1, h.2.imp_right fun hk => ⟨hk.1, himp hk.2⟩⟩
  | _ => exact h

section Moves

variable {call} {s s' : State C} {c : C}

/-- The poller is marked as blocked and as polling. -/
def Waits (call : Call) (s : State C) : Prop := s.blocked call.vcpuId = true ∧ s.pollMask call.vcpuId = true

/-- What one operation of another CPU can do to the poller. A CPU that is going to unblock it does not
lose it, and one that approaches it goes on until it is. -/
structure Moves (call : Call) (s s' : State C) (c : C) : Prop where
  poller : s'.poller = s.poller
  others : ∀ c', c' ≠ c → s'.pc c' = s.pc c'
  blocked : s'.blocked call.vcpuId = true → s.blocked call.vcpuId = true
  mask : s'.pollMask call.vcpuId = true → s.pollMask call.vcpuId = true
  evtchn : s'.pollEvtchn call.vcpuId = s.pollEvtchn call.vcpuId ∨
    s'.pollEvtchn call.vcpuId = 0 ∧ Rescues call.vcpuId (s'.pc c)
  pending : ∀ port, s'.pending port = true →
    s.pending port = true ∨ ∀ single, Approaches single call.vcpuId port (s'.pc c)
  rescues : Rescues call.vcpuId (s.pc c) → Waits call s' → Rescues call.vcpuId (s'.pc c)
  approaches : ∀ (single : Prop) (port : Nat), (0 < s.pollEvtchn call.vcpuId → single) →
    (single → s.pollEvtchn call.vcpuId = port) → Approaches single call.vcpuId port (s.pc c) →
    Waits call s' → Approaches single call.vcpuId port (s'.pc c) ∨ Rescues call.vcpuId (s'.pc c)

theorem setPc_pc (s : State C) (c : C) (pc : Pc) : (s.setPc c pc).pc c = pc := Function.update_self ..

/-- An operation that only reads. -/
theorem Moves.jump {pc : Pc}
    (hrescues : Rescues call.vcpuId (s.pc c) → Waits call s → Rescues call.vcpuId pc)
    (happroaches : ∀ (single : Prop) (port : Nat), (0 < s.pollEvtchn call.vcpuId → single) →
      (single → s.pollEvtchn call.vcpuId = port) → Approaches single call.vcpuId port (s.pc c) →
      Waits call s → Approaches single call.vcpuId port pc ∨ Rescues call.vcpuId pc) :
    Moves call s (s.setPc c pc) c where
  poller := rfl
  others := fun _ hne => Function.update_of_ne hne ..
  blocked := id
  mask := id
  evtchn := .inl rfl
  pending := fun _ => .inl
  rescues := by
    rw [setPc_pc]
    exact hrescues
  approaches := by
    rw [setPc_pc]
    exact happroaches

/-- An operation that clears a flag of the vCPU `v`. What the poller is marked with it does not clear. -/
theorem Moves.clear {pc : Pc} {v : Nat} {blocked' mask' : Nat → Bool}
    (hblocked : blocked' = s.blocked ∨ blocked' = Function.update s.blocked v false)
    (hmask : mask' = s.pollMask ∨ mask' = Function.update s.pollMask v false)
    (hsome : blocked' = Function.update s.blocked v false ∨ mask' = Function.update s.pollMask v false)
    (hrescues : v ≠ call.vcpuId → Rescues call.vcpuId (s.pc c) → Rescues call.vcpuId pc)
    (happroaches : v ≠ call.vcpuId → ∀ (single : Prop) (port : Nat), Approaches single call.vcpuId port (s.pc c) →
      Approaches single call.vcpuId port pc) :
    Moves call s { s with blocked := blocked', pollMask := mask', pc := Function.update s.pc c pc } c := by
  have hle : ∀ {f f' : Nat → Bool}, f' = f ∨ f' = Function.update f v false →
      f' call.vcpuId = true → f call.vcpuId = true := by
    rintro f f' (rfl | rfl) h
    · exact h
    · by_cases hv : call.vcpuId = v
      · rw [hv, Function.update_self] at h
        cases h
      · rwa [Function.update_of_ne hv] at h
  -- the flags of the poller are still set, so it is another vCPU
  have hne : blocked' call.vcpuId = true → mask' call.vcpuId = true → v ≠ call.vcpuId := by
    rintro hb hm rfl
    rcases hsome with h | h
    · rw [h, Function.update_self] at hb
      cases hb
    · rw [h, Function.update_self] at hm
      cases hm
  have hpc : (Function.update s.pc c pc) c = pc := Function.update_self ..
  constructor
  · rfl
  · exact fun _ hne => Function.update_of_ne hne ..
  · exact hle hblocked
  · exact hle hmask
  · exact .inl rfl
  · exact fun _ => .inl
  · intro hres hwaits
    dsimp only
    rw [hpc]
    exact hrescues (hne hwaits.1 hwaits.2) hres
  · intro single port _ _ happ hwaits
    dsimp only
    rw [hpc]
    exact .inl (happroaches (hne hwaits.1 hwaits.2) single port happ)

/-- An operation that writes 0 to `poll_evtchn` of the vCPU `v`, which is going to be unblocked. -/
theorem Moves.forget {pc : Pc} {v : Nat} (hself : v = call.vcpuId → Rescues call.vcpuId pc)
    (hrescues : Rescues call.vcpuId (s.pc c) → Rescues call.vcpuId pc)
    (happroaches : ∀ (single : Prop) (port : Nat), Approaches single call.vcpuId port (s.pc c) →
      Approaches single call.vcpuId port pc) :
    Moves call s { s with
      pollEvtchn := Function.update s.pollEvtchn v 0
      pc := Function.update s.pc c pc } c := by
  have hpc : (Function.update s.pc c pc) c = pc := Function.update_self ..
  constructor
  · rfl
  · exact fun _ hne => Function.update_of_ne hne ..
  · exact id
  · exact id
  · dsimp only
    rw [hpc]
    by_cases hv : call.vcpuId = v
    · rw [hv, Function.update_self]
      exact .inr ⟨rfl, hv ▸ hself hv.symm⟩
    · exact .inl (Function.update_of_ne hv ..)
  · exact fun _ => .inl
  · dsimp only
    rw [hpc]
    exact fun hres _ => hrescues hres
  · dsimp only
    rw [hpc]
    exact fun single port _ _ happ _ => .inl (happroaches single port happ)

omit [DecidableEq C] in
theorem Moves.refl (s : State C) (c : C) : Moves call s s c where
  poller := rfl
  others := fun _ _ => rfl
  blocked := id
  mask := id
  evtchn := .inl rfl
  pending := fun _ => .inl
  rescues := fun h _ => h
  approaches := fun _ _ _ _ h _ => .inl h

/-- `vcpu_unblock` is done with the vCPU `v`, whose flag was clear already. -/
theorem Moves.goBack {back : Back} {v : Nat}
    (hrescues : Rescues call.vcpuId (s.pc c) → v = call.vcpuId)
    (hv : v = call.vcpuId → ¬ Waits call s)
    (hheads : ∀ (single : Prop) (port : Nat), Approaches single call.vcpuId port (s.pc c) →
      Heads call.vcpuId port back) : Moves call s (s.goBack c back) c := by
  apply Moves.jump
  · intro hres hwaits
    exact absurd hwaits (hv (hrescues hres))
  · intro single port _ _ happ _
    exact .inl ((hheads single port happ).approaches single)

theorem moves_go (s : State C) (c : C) (kick : Bool) : Moves call s (s.go call c kick) c := by
  have hlt := call.vcpuId_lt
  unfold State.go
  cases hpc : s.pc c with
  | idle => exact Moves.refl s c
  | pend v port =>
    dsimp only
    split
    · apply Moves.jump
      · rw [hpc]
        exact fun h => h.elim
      · rw [hpc]
        exact fun _ _ _ _ h => h.elim
    · have hpc' : (Function.update s.pc c (Pc.notify v port)) c = .notify v port := Function.update_self ..
      constructor
      · rfl
      · exact fun _ hne => Function.update_of_ne hne ..
      · exact id
      · exact id
      · exact .inl rfl
      · intro e he
        dsimp only at he ⊢
        rw [hpc']
        -- what is newly pending is what this CPU is after
        by_cases hport : e = port
        · exact .inr fun _ => hport.symm
        · rw [Function.update_of_ne hport] at he
          exact .inl he
      · rw [hpc]
        exact fun h => h.elim
      · rw [hpc]
        exact fun _ _ _ _ h => h.elim
  | notify v port =>
    apply Moves.jump
    · rw [hpc]
      exact fun h => h.elim
    · rw [hpc]
      intro single e _ _ happ _
      cases kick with
      | true => exact .inl happ
      | false => exact .inl ⟨happ, Nat.zero_le _⟩
  | empty port k =>
    apply Moves.jump
    · rw [hpc]
      exact fun h => h.elim
    · rw [hpc]
      rintro single e - - ⟨he, hk⟩ ⟨-, hmask⟩
      rw [if_pos (by omega)]
      by_cases hbit : s.pollMask k = true
      · rw [if_pos hbit]
        exact .inl ⟨he, Nat.zero_le _⟩
      · have hne : k ≠ call.vcpuId := fun h => hbit (h ▸ hmask)
        rw [if_neg hbit]
        exact .inl ⟨he, by omega⟩
  | find port k =>
    apply Moves.jump
    · rw [hpc]
      exact fun h => h.elim
    · rw [hpc]
      rintro single e - - ⟨he, hk⟩ ⟨-, hmask⟩
      rw [if_pos (by omega)]
      by_cases hbit : s.pollMask k = true
      · rw [if_pos hbit]
        exact .inl ⟨he, hk⟩
      · have hne : k ≠ call.vcpuId := fun h => hbit (h ▸ hmask)
        rw [if_neg hbit]
        exact .inl ⟨he, by omega⟩
  | below port k =>
    apply Moves.jump
    · rw [hpc]
      exact fun h => h.elim
    · rw [hpc]
      rintro single e hsingle - ⟨he, hk⟩ -
      by_cases hle : s.pollEvtchn k ≤ 0
      · rw [if_pos hle]
        exact .inl ⟨he, hk⟩
      · rw [if_neg hle]
        refine .inl ⟨he, ?_⟩
        -- a positive port of the poller is the only one that it polls
        rcases Nat.lt_or_eq_of_le hk with hlow | rfl
        · exact .inl hlow
        · exact .inr ⟨rfl, hsingle (by omega)⟩
  | equal port k =>
    apply Moves.jump
    · rw [hpc]
      exact fun h => h.elim
    · rw [hpc]
      rintro single e - hport ⟨rfl, hk⟩ -
      by_cases heq : s.pollEvtchn k = port
      · rw [if_pos heq]
        exact .inl ⟨rfl, by omega⟩
      · rw [if_neg heq]
        rcases hk with hlow | ⟨rfl, hone⟩
        · exact .inl ⟨rfl, by omega⟩
        · exact absurd (hport hone) heq
  | claim port k =>
    dsimp only
    split
    · apply Moves.clear (v := k) (.inl rfl) (.inr rfl) (.inr rfl)
      · rw [hpc]
        exact fun _ h => h.elim
      · rw [hpc]
        rintro hne single e ⟨he, hk⟩
        exact ⟨he, by omega⟩
    · next hbit =>
      apply Moves.jump
      · rw [hpc]
        exact fun h => h.elim
      · rw [hpc]
        rintro single e - - ⟨he, hk⟩ ⟨-, hmask⟩
        have hne : k ≠ call.vcpuId := fun h => hbit (h ▸ hmask)
        exact .inl ⟨he, by omega⟩
  | reset port k =>
    apply Moves.forget
    · exact id
    · rw [hpc]
      exact id
    · rw [hpc]
      rintro single e ⟨he, hk⟩
      exact ⟨he, hk⟩
  | unblock v back =>
    dsimp only
    split
    · apply Moves.clear (v := v) (.inr rfl) (.inl rfl) (.inl rfl)
      · rw [hpc]
        exact fun hne h => absurd h hne
      · rw [hpc]
        exact fun _ _ _ h => h
    · next hbit =>
      apply Moves.goBack (v := v)
      · rw [hpc]
        exact id
      · rintro rfl ⟨hb, -⟩
        exact hbit hb
      · rw [hpc]
        exact fun _ _ h => h
  | polled v back =>
    dsimp only
    split
    · apply Moves.jump
      · rw [hpc]
        exact fun h => h.elim
      · rw [hpc]
        exact fun _ _ _ _ h _ => .inl h
    · apply Moves.jump
      · rw [hpc]
        exact fun h => h.elim
      · rw [hpc]
        exact fun single _ _ _ h _ => .inl (Heads.approaches h single)
  | forget v back =>
    apply Moves.forget
    · exact id
    · rw [hpc]
      exact fun h => h.elim
    · rw [hpc]
      exact fun _ _ h => h
  | unmark v back =>
    dsimp only
    split
    · apply Moves.clear (v := v) (.inl rfl) (.inr rfl) (.inr rfl)
      · rw [hpc]
        exact fun hne h => absurd h hne
      · rw [hpc]
        exact fun _ _ _ h => h
    · next hbit =>
      apply Moves.goBack (v := v)
      · rw [hpc]
        exact id
      · rintro rfl ⟨-, hm⟩
        exact hbit hm
      · rw [hpc]
        exact fun _ _ h => h
  | reclear v back =>
    apply Moves.clear (v := v) (.inr rfl) (.inl rfl) (.inl rfl)
    · rw [hpc]
      exact fun _ h => h.elim
    · rw [hpc]
      exact fun _ single _ h => Heads.approaches h single

theorem moves_begin (hidle : s.pc c = .idle) (pc : Pc) : Moves call s (s.setPc c pc) c := by
  apply Moves.jump
  · rw [hidle]
    exact fun h => h.elim
  · rw [hidle]
    exact fun _ _ _ _ h => h.elim

end Moves

/-! ## The invariant -/

/-- The poller has set its flags and has not taken the way out. -/
def Stage.Waiting : Stage → Prop
  | .deliver | .check _ | .narrow | .asleep => True
  | _ => False

/-- How many ports it has found not to be pending. -/
def passed : Stage → Nat
  | .check i => i
  | .narrow | .asleep => call.ports.length
  | _ => 0

/-- It has noted the only port that it polls. -/
def Single (stage : Stage) : Prop := stage = .asleep ∧ ∃ q, call.ports = [some q]

/-- Some CPU is about to unblock the poller. -/
def Rescued (s : State C) : Prop := ∃ c, Rescues call.vcpuId (s.pc c)

structure Inv (s : State C) : Prop where
  running : s.poller = .start ∨ s.poller = .bailed → s.blocked call.vcpuId = false
  several : s.poller = .mask ∨ s.poller.Waiting → ¬ Single call s.poller → s.pollEvtchn call.vcpuId ≤ 0
  single : ∀ q, s.poller = .asleep → call.ports = [some q] → Waits call s →
    s.pollEvtchn call.vcpuId = q ∨ Rescued call s
  waker : s.poller.Waiting → Waits call s → ∀ i < passed call s.poller, ∀ port,
    call.ports[i]? = some (some port) → s.pending port = true →
      ∃ c, Approaches (Single call s.poller) call.vcpuId port (s.pc c) ∨ Rescues call.vcpuId (s.pc c)

section Steps

variable {call} {s s' : State C} {c : C}

omit [DecidableEq C] in
theorem Moves.waits (h : Moves call s s' c) (hw : Waits call s') : Waits call s :=
  ⟨h.blocked hw.1, h.mask hw.2⟩

theorem Moves.rescued (h : Moves call s s' c) (hw : Waits call s') (hr : Rescued call s) :
    Rescued call s' := by
  obtain ⟨c', hc'⟩ := hr
  by_cases hne : c' = c
  · exact ⟨c, h.rescues (hne ▸ hc') hw⟩
  · refine ⟨c', ?_⟩
    rw [h.others c' hne]
    exact hc'

/-- An operation of another CPU. -/
theorem Inv.moves (hs : Inv call s) (h : Moves call s s' c) : Inv call s' := by
  constructor
  · intro hstage
    rw [h.poller] at hstage
    by_contra hb
    have hold := hs.running hstage
    rw [h.blocked (by simpa using hb)] at hold
    cases hold
  · intro hstage hsingle
    rw [h.poller] at hstage hsingle
    rcases h.evtchn with heq | ⟨hzero, -⟩
    · rw [heq]
      exact hs.several hstage hsingle
    · omega
  · intro q hstage hports hw
    rw [h.poller] at hstage
    rcases hs.single q hstage hports (h.waits hw) with hq | hr
    · rcases h.evtchn with heq | ⟨-, hres⟩
      · exact .inl (heq.trans hq)
      · exact .inr ⟨c, hres⟩
    · exact .inr (h.rescued hw hr)
  · intro hstage hw i hi port hport hpending
    rw [h.poller] at hstage hi ⊢
    by_cases hr : Rescued call s
    · obtain ⟨c', hc'⟩ := h.rescued hw hr
      exact ⟨c', .inr hc'⟩
    rcases h.pending port hpending with hold | hnew
    · obtain ⟨c', happ | hres⟩ := hs.waker hstage (h.waits hw) i hi port hport hold
      · by_cases hne : c' = c
        · subst hne
          refine ⟨c', h.approaches _ port ?_ ?_ happ hw⟩
          · intro hpos
            by_contra hsingle
            exact absurd (hs.several (.inr hstage) hsingle) (by omega)
          · rintro ⟨hasleep, q, hq⟩
            -- the port that has been passed is the only one
            have hi0 : i = 0 := by
              rw [hasleep] at hi
              change i < call.ports.length at hi
              rw [hq, List.length_singleton] at hi
              omega
            rw [hi0, hq] at hport
            cases hport
            exact (hs.single port hasleep hq (h.waits hw)).resolve_right hr
        · refine ⟨c', .inl ?_⟩
          rw [h.others c' hne]
          exact happ
      · exact absurd ⟨c', hres⟩ hr
    · exact ⟨c, .inl (hnew _)⟩

section

omit [DecidableEq C]

/-- Another vCPU changes. -/
theorem Inv.congr (hs : Inv call s) (hpoller : s'.poller = s.poller) (hpc : s'.pc = s.pc)
    (hpending : s'.pending = s.pending) (hblocked : s'.blocked call.vcpuId = s.blocked call.vcpuId)
    (hmask : s'.pollMask call.vcpuId = s.pollMask call.vcpuId)
    (hevtchn : s'.pollEvtchn call.vcpuId = s.pollEvtchn call.vcpuId) : Inv call s' := by
  have hwaits : Waits call s' → Waits call s := by
    unfold Waits
    rw [hblocked, hmask]
    exact id
  have hrescued : Rescued call s' ↔ Rescued call s := by
    unfold Rescued
    rw [hpc]
  constructor
  · rw [hpoller, hblocked]
    exact hs.running
  · rw [hpoller, hevtchn]
    exact hs.several
  · intro q hstage hports hw
    rw [hevtchn, hrescued]
    exact hs.single q (hpoller ▸ hstage) hports (hwaits hw)
  · rw [hpoller, hpc, hpending]
    exact fun hstage hw => hs.waker hstage (hwaits hw)

/-- The poller goes on to a stage in which it has not set both flags, or has taken the way out. -/
theorem Inv.leave (hrunning : s'.poller = .bailed → s'.blocked call.vcpuId = false)
    (hstart : s'.poller ≠ .start) (hmask : s'.poller = .mask → s'.pollEvtchn call.vcpuId ≤ 0)
    (hout : ¬ s'.poller.Waiting) : Inv call s' where
  running := fun h => h.elim (fun h => absurd h hstart) hrunning
  several := fun h _ => h.elim hmask fun h => absurd h hout
  single := fun _ h => absurd (by rw [h]; trivial) hout
  waker := fun h => absurd h hout

end

theorem Inv.poll (hs : Inv call s) (events : Bool) : Inv call (s.poll call events) := by
  have hnot : ∀ {stage : Stage}, stage ≠ .asleep → ¬ Single call stage := fun hne h => hne h.1
  unfold State.poll
  cases hstage : s.poller with
  | start =>
    dsimp only
    have hold := hs.running (.inl hstage)
    split
    · exact Inv.leave (fun _ => hold) (by simp) (by simp) (fun h => h)
    · exact Inv.leave (by simp) (by simp) (by simp) (fun h => h)
  | evtchn =>
    refine Inv.leave (by simp) (by simp) (fun _ => ?_) (fun h => h)
    dsimp only
    rw [Function.update_self]
    decide
  | mask =>
    have hold := hs.several (.inl hstage) (hnot (by rw [hstage]; simp))
    refine ⟨fun h => ?_, fun _ _ => hold, fun _ h => ?_, fun _ _ i hi => absurd hi (Nat.not_lt_zero i)⟩
    · rcases h with h | h <;> cases h
    · cases h
  | deliver =>
    have hold := hs.several (.inr (by rw [hstage]; trivial)) (hnot (by rw [hstage]; simp))
    dsimp only
    cases events with
    | true => exact Inv.leave (by simp) (by simp) (by simp) (fun h => h)
    | false =>
      refine ⟨fun h => ?_, fun _ _ => hold, fun _ h => ?_, fun _ _ i hi => absurd hi (Nat.not_lt_zero i)⟩
      · rcases h with h | h <;> cases h
      · cases h
  | check i =>
    have hwaiting : s.poller.Waiting := by rw [hstage]; trivial
    have hold := hs.several (.inr hwaiting) (hnot (by rw [hstage]; simp))
    dsimp only
    split
    · next hend =>
      refine ⟨fun h => ?_, fun _ _ => hold, fun _ h => ?_, fun _ hw j hj port hport hpending => ?_⟩
      · rcases h with h | h <;> cases h
      · cases h
      · have hi : call.ports.length ≤ i := List.getElem?_eq_none_iff.mp hend
        have hj' : j < call.ports.length := hj
        obtain ⟨c, hc⟩ := hs.waker hwaiting hw j (by rw [hstage]; change j < i; omega) port hport
          hpending
        exact ⟨c, hc.imp_left fun h => h.mono fun hone => absurd hone (hnot (by rw [hstage]; simp))⟩
    · exact Inv.leave (by simp) (by simp) (by simp) (fun h => h)
    · next port hport =>
      by_cases hend : call.maxEvtchns ≤ port ∨ s.pending port = true
      · rw [if_pos hend]
        exact Inv.leave (by simp) (by simp) (by simp) (fun h => h)
      · rw [if_neg hend]
        refine ⟨fun h => ?_, fun _ _ => hold, fun _ h => ?_, fun _ hw j hj port' hport' hpending => ?_⟩
        · rcases h with h | h <;> cases h
        · cases h
        · have hj' : j < i + 1 := hj
          -- the port of this turn has just been seen not to be pending
          have hne : j ≠ i := by
            rintro rfl
            rw [hport] at hport'
            cases hport'
            exact hend (.inr hpending)
          obtain ⟨c, hc⟩ := hs.waker hwaiting hw j (by rw [hstage]; change j < i; omega) port'
            hport' hpending
          exact ⟨c, hc.imp_left fun h => h.mono fun hone => absurd hone (hnot (by rw [hstage]; simp))⟩
  | narrow =>
    have hwaiting : s.poller.Waiting := by rw [hstage]; trivial
    have hold := hs.several (.inr hwaiting) (hnot (by rw [hstage]; simp))
    have hwaker : ∀ s' : State C, s'.poller = .asleep → s'.pc = s.pc → s'.pending = s.pending →
        (Waits call s' → Waits call s) → s'.poller.Waiting →
        Waits call s' → ∀ i < passed call s'.poller, ∀ port,
          call.ports[i]? = some (some port) → s'.pending port = true →
            ∃ c, Approaches (Single call s'.poller) call.vcpuId port (s'.pc c) ∨
              Rescues call.vcpuId (s'.pc c) := by
      intro s' hpoller hpc hpending hwaits _ hw i hi port hport hpend
      rw [hpending] at hpend
      rw [hpoller] at hi
      obtain ⟨c, hc⟩ := hs.waker hwaiting (hwaits hw) i (by rw [hstage]; exact hi) port hport hpend
      rw [hpc]
      exact ⟨c, hc.imp_left fun h => h.mono fun hone => absurd hone (hnot (by rw [hstage]; simp))⟩
    dsimp only
    split
    · next q hports =>
      refine ⟨fun h => ?_, fun _ hone => absurd ⟨rfl, q, hports⟩ hone, fun q' _ hq' _ => .inl ?_,
        hwaker _ rfl rfl rfl id⟩
      · rcases h with h | h <;> cases h
      · rw [hports] at hq'
        cases hq'
        exact Function.update_self ..
    · next hports =>
      refine ⟨fun h => ?_, fun _ _ => hold, fun q _ hq => ?_, hwaker _ rfl rfl rfl id⟩
      · rcases h with h | h <;> cases h
      · exact absurd hq (hports q)
  | out => exact Inv.leave (by simp) (by simp) (by simp) (fun h => h)
  | outMask => exact Inv.leave (by simp) (by simp) (by simp) (fun h => h)
  | outBlocked =>
    refine Inv.leave (fun _ => ?_) (by simp) (by simp) (fun h => h)
    exact Function.update_self ..
  | asleep => exact hs
  | bailed => exact hs

theorem Inv.act (hs : Inv call s) (step : Step C) : Inv call (act call step s) := by
  cases step with
  | poll events => exact hs.poll events
  | setPending c v port =>
    unfold Poll.act
    dsimp only
    split
    · next hidle => exact hs.moves (moves_begin hidle _)
    · exact hs
  | unblock c v =>
    unfold Poll.act
    dsimp only
    split
    · next hidle => exact hs.moves (moves_begin hidle _)
    · exact hs
  | go c kick => exact hs.moves (moves_go s c kick)
  | other v blocked mask evtchn =>
    unfold Poll.act
    dsimp only
    split
    · exact hs
    · next hne =>
      have hv : call.vcpuId ≠ v := fun h => hne h.symm
      exact hs.congr rfl rfl rfl (Function.update_of_ne hv ..) (Function.update_of_ne hv ..)
        (Function.update_of_ne hv ..)

end Steps

variable {call}

omit [DecidableEq C] in
theorem Starts.inv {s : State C} (h : Starts call s) : Inv call s := by
  have hout : ¬ s.poller.Waiting := by
    rw [h.poller]
    exact fun h => h
  constructor
  · exact fun _ => h.running
  · rintro (hmask | hwaiting)
    · rw [h.poller] at hmask
      cases hmask
    · exact absurd hwaiting hout
  · intro q hasleep
    rw [h.poller] at hasleep
    cases hasleep
  · exact fun hwaiting => absurd hwaiting hout

/-- No wakeup is lost: when all have come to an end, a port that is polled and is pending does not leave
the poller both blocked and marked. -/
theorem poll_wakes {s : State C} (hstart : Starts call s) (steps : List (Step C))
    (hfinished : Finished (Runs.run (act call) steps s)) {port : Nat} (hport : some port ∈ call.ports)
    (hpending : (Runs.run (act call) steps s).pending port = true) :
    ¬ ((Runs.run (act call) steps s).blocked call.vcpuId = true ∧
      (Runs.run (act call) steps s).pollMask call.vcpuId = true) := by
  have hinv := Runs.run_inv (fun step s (hs : Inv call s) => hs.act step) steps hstart.inv
  revert hinv hfinished hpending
  generalize Runs.run (act call) steps s = s'
  intro hfinished hpending hinv hw
  rcases hfinished.poller with hasleep | hbailed
  · obtain ⟨i, hi, hget⟩ := List.mem_iff_getElem.mp hport
    obtain ⟨c, happ | hres⟩ := hinv.waker (by rw [hasleep]; trivial) hw i
      (by rw [hasleep]; exact hi) port (by rw [List.getElem?_eq_getElem hi, hget]) hpending
    · rw [hfinished.idle] at happ
      exact happ
    · rw [hfinished.idle] at hres
      exact hres
  · have hrun := hinv.running (.inr hbailed)
    rw [hw.1] at hrun
    cases hrun

/-- One vCPU that polls port 3. -/
def callThree : Call := ⟨[some 3], true, 1024, 0, 1, by decide⟩

def atStart : State Unit where
  blocked := fun _ => false
  pollEvtchn := fun _ => 0
  pollMask := fun _ => false
  pending := fun _ => false
  poller := .start
  pc := fun _ => .idle

/-- Port 3 becomes pending after it has been looked at and before it is noted. -/
def lateEvent : List (Step Unit) :=
  List.replicate 5 (.poll false) ++ [.setPending () 0 3] ++ List.replicate 4 (.go () false) ++
    List.replicate 2 (.poll false) ++ List.replicate 7 (.go () false)

theorem poll_wakes_lateEvent :
    ¬ ((Runs.run (act callThree) lateEvent atStart).blocked 0 = true ∧
      (Runs.run (act callThree) lateEvent atStart).pollMask 0 = true) :=
  poll_wakes (s := atStart) ⟨rfl, rfl, fun _ => rfl⟩ lateEvent
    ⟨.inl (by decide), fun c => by cases c; decide⟩ (show some 3 ∈ callThree.ports by decide) (by decide)

end Sched.Poll
