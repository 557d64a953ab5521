import MemoryMonitor.Evtchn.Peers

/-!
# Event-channel operations that fail (`xen/common/event_channel.c`)

A new bucket of channels is entered into the domain's table before the security labels of its channels are
allocated. If one of the labels cannot be allocated, the bucket is freed, but it stays in the table: its
ports are valid, and the channels behind them are freed memory. Operations also fail after the bucket has
been added, and then it stays, with channels that are free.

`Op.run` is one operation of `Channels`, with the error that it returns. Port 0 is given away in no run,
whatever fails on the way.
-/

namespace Evtchn

/-- `evtchn_init`; `pollMask` is whether there is memory for `d->poll_mask`. -/
def Domain.evtchnInit (maxEvtchns : Nat) (a : Answers) (pollMask : Bool) (x : Domain) :
    Except Errno Unit × Domain :=
  match x.getFreePort maxEvtchns a with
  | (.error _, x) => (.error .einval, x)
  | (.ok port, x) =>
      if port ≠ 0 then (.error .einval, x)
      else
        let x := x.setChn 0 { x.evtchn 0 with state := .reserved }
        if pollMask then (.ok (), x) else (.error .enomem, x)

/-- A domain that has been zeroed. -/
def Domain.blank : Domain where
  isDying := false
  destroyed := false
  nrPorts := 0
  evtchn := fun _ => Channel.zero
  virqToEvtchn := fun _ _ => 0
  pirqToEvtchn := fun _ => 0
  pirqEvtchnHead := fun _ => 0
  ssid := fun _ => false
  freed := fun _ => false

/-! ## Operations -/

/-- An operation with the answers that it is given. -/
inductive Op where
  | init (d : Dom) (a : Answers) (pollMask : Bool)
  | allocUnbound (d : Dom) (a : Answers) (xsm : Bool) (remoteDomid : Nat)
  | allocUnboundXen (d : Dom) (a : Answers) (vcpu remoteDomid : Nat)
  | bindInterdomain (ld rd : Dom) (a : Answers) (xsm : Bool) (rport : Port)
  | bindVirq (d : Dom) (a : Answers) (virq vcpu : Nat)
  | bindIpi (d : Dom) (a : Answers) (vcpu : Nat)
  | bindPirq (d : Dom) (a : Answers) (permitted bound : Bool) (pirq : Nat)
  | bindVcpu (d : Dom) (port : Port) (vcpu : Nat)
  /-- A part of `__evtchn_close`. -/
  | close (d : Dom) (port : Port) (seen : Option Dom)

/-- The error of a result. -/
def errorOf {α : Type} : Except Errno α → Option Errno
  | .ok _ => none
  | .error e => some e

/-- The domain after an operation on it, and the error. -/
def World.onDomain {α : Type} (w : World) (d : Dom) (out : Except Errno α × Domain) : Option Errno × World :=
  (errorOf out.1, w.setDom d out.2)

/-- The error that the operation returns, if it does, and the tables that it leaves. -/
def Op.run (P : Platform) (w : World) : Op → Option Errno × World
  | .init d a pollMask => w.onDomain d ((w.dom d).evtchnInit (P.maxEvtchns d) a pollMask)
  | .allocUnbound d a xsm remoteDomid =>
      w.onDomain d ((w.dom d).allocUnbound (P.maxEvtchns d) a xsm remoteDomid)
  | .allocUnboundXen d a vcpu remoteDomid =>
      w.onDomain d ((w.dom d).allocUnboundXen (P.maxEvtchns d) a vcpu remoteDomid)
  | .bindInterdomain ld rd a xsm rport =>
      let out := evtchnBindInterdomain P a xsm ld rd rport w
      (errorOf out.1, out.2)
  | .bindVirq d a virq vcpu => w.onDomain d ((w.dom d).bindVirq (P.maxEvtchns d) a (P.hasVcpu d) virq vcpu)
  | .bindIpi d a vcpu => w.onDomain d ((w.dom d).bindIpi (P.maxEvtchns d) a (P.hasVcpu d) vcpu)
  | .bindPirq d a permitted bound pirq =>
      w.onDomain d ((w.dom d).bindPirq (P.maxEvtchns d) (P.nrPirqs d) a (P.isHvm d) permitted bound pirq)
  | .bindVcpu d port vcpu => w.onDomain d ((w.dom d).bindVcpu (P.hasVcpu d) port vcpu)
  | .close d port seen =>
      match evtchnClose P d port seen w with
      | .done rc w => (errorOf rc, w)
      | .window _ | .bug _ => (none, w)

/-! ## What stays as it was -/

/-- The same ports are valid, and the channels and the reverse maps are as they were. -/
structure Unchanged (x x' : Domain) : Prop where
  valid : x'.nrPorts = x.nrPorts
  chn : ∀ p < x.nrPorts, x'.evtchn p = x.evtchn p
  virq : x'.virqToEvtchn = x.virqToEvtchn
  pirq : x'.pirqToEvtchn = x.pirqToEvtchn
  head : x'.pirqEvtchnHead = x.pirqEvtchnHead

theorem Unchanged.refl (x : Domain) : Unchanged x x := ⟨rfl, fun _ _ => rfl, rfl, rfl, rfl⟩

theorem Unchanged.not_grown {x x' y : Domain} (hy : y.nrPorts = x.nrPorts + evtchnsPerBucket)
    (h : Unchanged y x') : ¬Unchanged x x' := by
  intro h'
  have hgrown : y.nrPorts = x.nrPorts := h.valid.symm.trans h'.valid
  rw [hy] at hgrown
  exact absurd hgrown (Nat.ne_of_gt (Nat.lt_add_of_pos_right (by decide)))

def World.Same (w w' : World) : Prop := ∀ d, Unchanged (w.dom d) (w'.dom d)

theorem World.Same.refl (w : World) : w.Same w := fun d => .refl (w.dom d)

theorem World.same_setDom_iff {w : World} {d : Dom} {x : Domain} :
    w.Same (w.setDom d x) ↔ Unchanged (w.dom d) x := by
  constructor
  · intro h
    have hd := h d
    rwa [setDom_self] at hd
  · intro h d'
    by_cases hd : d' = d
    · subst hd
      rwa [setDom_self]
    · rw [setDom_of_ne w hd]
      exact .refl _

/-- If it is an error, the domain is as it was. -/
def Domain.Atomic {α : Type} (x : Domain) (out : Except Errno α × Domain) : Prop :=
  ∀ e, out.1 = .error e → Unchanged x out.2

theorem World.onDomain_atomic {α : Type} {w : World} {d : Dom} {out : Except Errno α × Domain} :
    (∀ e, (w.onDomain d out).1 = some e → w.Same (w.onDomain d out).2) ↔ (w.dom d).Atomic out := by
  unfold onDomain Domain.Atomic
  dsimp only
  rw [same_setDom_iff]
  cases out.1 with
  | ok r => exact ⟨fun _ _ he => absurd he nofun, fun _ _ he => absurd he nofun⟩
  | error e => exact ⟨fun h _ _ => h e rfl, fun h _ _ => h e rfl⟩

/-! ## `get_free_port` -/

namespace Domain

variable {maxEvtchns : Nat} {a : Answers} {x y : Domain} {port : Port}

/-- `get_free_port` returns `port`, and leaves `y`. -/
def Hands (x : Domain) (port : Port) (y : Domain) : Prop :=
  (y = x ∧ x.Finds port) ∨ ∃ l, y = x.newBucket l ∧ port = x.nrPorts

/-- If a bucket is added, its channels get their labels, and `passes` holds. -/
def Completes (x : Domain) (maxEvtchns : Nat) (a : Answers) (passes : Prop) : Prop :=
  x.Adds maxEvtchns a → a.Labels ∧ passes

/-- Where the rest of an operation either completes or fails with the domain as it is, a failure leaves no
trace unless a bucket has been added before. -/
theorem withPort_atomic_iff {passes : Prop} {go : Port → Domain → Except Errno Port × Domain}
    (hgo : ∀ port y, x.Hands port y → (passes ∧ ∃ p, (go port y).1 = .ok p) ∨
      (¬passes ∧ ∃ e, (go port y).1 = .error e ∧ Unchanged y (go port y).2)) :
    x.Atomic (x.withPort maxEvtchns a go) ↔ x.Completes maxEvtchns a passes := by
  unfold withPort Atomic Completes
  rcases getFreePort_cases maxEvtchns a x with ⟨hno, hcase⟩ | ⟨hadds, l, ⟨hlabels, hout⟩ | ⟨hno, hout⟩⟩
  · refine ⟨fun _ h => absurd h hno, fun _ => ?_⟩
    rcases hcase with ⟨⟨e, hout⟩, -⟩ | ⟨port, hout, hfinds⟩
    · rw [hout]
      exact fun _ _ => .refl x
    · rw [hout]
      intro e he
      rcases hgo port x (.inl ⟨rfl, hfinds⟩) with ⟨-, p, hok⟩ | ⟨-, e', -, hsame⟩
      · exact absurd (hok.symm.trans he) nofun
      · exact hsame
  · rw [hout]
    rcases hgo _ _ (.inr ⟨l, rfl, rfl⟩) with ⟨hpass, p, hok⟩ | ⟨hnot, e, he, hsame⟩
    · refine ⟨fun _ _ => ⟨hlabels, hpass⟩, ?_⟩
      intro _ e he
      exact absurd (hok.symm.trans he) nofun
    · constructor
      · intro h
        exact absurd (h e he) (hsame.not_grown rfl)
      · intro h
        exact absurd (h hadds).2 hnot
  · rw [hout]
    constructor
    · intro h
      exact absurd (h _ rfl) ((Unchanged.refl _).not_grown rfl)
    · intro h
      exact absurd (h hadds).1 hno

theorem atomic_refused {e : Errno} {passes r : Prop} (hno : ¬passes) :
    x.Atomic ((.error e, x) : Except Errno Port × Domain) ↔ (passes → r) :=
  ⟨fun _ h => absurd h hno, fun _ _ _ => .refl x⟩

theorem Hands.inUse (h : x.Hands port y) (p : Port) :
    (p < y.nrPorts ∧ (y.evtchn p).state ≠ .free ↔ p < x.nrPorts ∧ (x.evtchn p).state ≠ .free) ∧
      (p < x.nrPorts → y.evtchn p = x.evtchn p) := by
  rcases h with ⟨rfl, -⟩ | ⟨l, rfl, -⟩
  · exact ⟨Iff.rfl, fun _ => rfl⟩
  unfold newBucket addBucket
  dsimp only
  by_cases hp : x.nrPorts ≤ p
  · rw [if_pos hp]
    refine ⟨⟨fun h => absurd rfl h.2, fun h => absurd h.1 (Nat.not_lt.mpr hp)⟩, ?_⟩
    intro h
    exact absurd h (Nat.not_lt.mpr hp)
  · rw [if_neg hp]
    have hlt := Nat.not_le.mp hp
    exact ⟨⟨fun h => ⟨hlt, h.2⟩, fun h => ⟨Nat.lt_add_right _ hlt, h.2⟩⟩, fun _ => rfl⟩

/-- The reverse maps are as they were. -/
theorem Hands.pirqToEvtchn (h : x.Hands port y) : y.pirqToEvtchn = x.pirqToEvtchn := by
  rcases h with ⟨rfl, -⟩ | ⟨l, rfl, -⟩ <;> rfl

end Domain

/-! ## Operations that fail -/

variable {P : Platform} {w : World}

/-- If the operation returns an error, everything is as it was. -/
def Op.Atomic (P : Platform) (w : World) (op : Op) : Prop :=
  ∀ e, (op.run P w).1 = some e → w.Same (op.run P w).2

/-- An operation that adds a bucket does not fail after that; and `evtchn_init` does not fail once port 0 is
reserved. -/
def Op.Keeps (P : Platform) (w : World) : Op → Prop
  | .init d a pollMask =>
      (w.dom d).Completes (P.maxEvtchns d) a ((w.dom d).nrPorts = 0 ∧ pollMask = true) ∧
        ((w.dom d).Finds 0 → pollMask = true)
  | .allocUnbound d a xsm _ => (w.dom d).Completes (P.maxEvtchns d) a (xsm = true)
  | .allocUnboundXen d a _ _ => (w.dom d).Completes (P.maxEvtchns d) a True
  | .bindInterdomain ld rd a xsm rport =>
      (w.dom ld).Completes (P.maxEvtchns ld) a ((rport < (w.dom rd).nrPorts ∧
        (w.chn rd rport).state = .unbound) ∧ (w.chn rd rport).key = P.domainId ld ∧ xsm = true)
  | .bindVirq d a virq vcpu =>
      (w.dom d).VirqFree (P.hasVcpu d) virq vcpu → (w.dom d).Completes (P.maxEvtchns d) a True
  | .bindIpi d a vcpu => P.hasVcpu d vcpu = true → (w.dom d).Completes (P.maxEvtchns d) a True
  | .bindPirq d a permitted bound pirq =>
      (w.dom d).PirqFree (P.nrPirqs d) (P.isHvm d) permitted pirq →
        (w.dom d).Completes (P.maxEvtchns d) a ¬(P.isHvm d = false ∧ bound = false)
  | .bindVcpu .. | .close .. => True

namespace Op

theorem allocUnbound_atomic_iff (d : Dom) (a : Answers) (xsm : Bool) (remoteDomid : Nat) :
    (Op.allocUnbound d a xsm remoteDomid).Atomic P w ↔ (Op.allocUnbound d a xsm remoteDomid).Keeps P w := by
  refine World.onDomain_atomic.trans (Domain.withPort_atomic_iff ?_)
  intro port y _
  cases xsm with
  | true => exact .inl ⟨rfl, _, rfl⟩
  | false => exact .inr ⟨nofun, _, rfl, .refl y⟩

theorem allocUnboundXen_atomic_iff (d : Dom) (a : Answers) (vcpu remoteDomid : Nat) :
    (Op.allocUnboundXen d a vcpu remoteDomid).Atomic P w ↔ (Op.allocUnboundXen d a vcpu remoteDomid).Keeps P w :=
  World.onDomain_atomic.trans (Domain.withPort_atomic_iff fun _ _ _ => .inl ⟨trivial, _, rfl⟩)

theorem bindVirq_atomic_iff (d : Dom) (a : Answers) (virq vcpu : Nat) :
    (Op.bindVirq d a virq vcpu).Atomic P w ↔ (Op.bindVirq d a virq vcpu).Keeps P w := by
  refine World.onDomain_atomic.trans ?_
  unfold Domain.bindVirq Keeps
  by_cases h₁ : nrVirqs ≤ virq
  · rw [if_pos h₁]
    exact Domain.atomic_refused fun h => absurd h.1 (Nat.not_lt.mpr h₁)
  rw [if_neg h₁]
  by_cases h₂ : virqIsGlobal virq ∧ vcpu ≠ 0
  · rw [if_pos h₂]
    exact Domain.atomic_refused fun h => h.2.1 h₂
  rw [if_neg h₂]
  by_cases h₃ : P.hasVcpu d vcpu = false
  · rw [if_pos h₃]
    exact Domain.atomic_refused fun h => Bool.false_ne_true (h₃.symm.trans h.2.2.1)
  rw [if_neg h₃]
  by_cases h₄ : (w.dom d).virqToEvtchn vcpu virq ≠ 0
  · rw [if_pos h₄]
    exact Domain.atomic_refused fun h => h₄ h.2.2.2
  rw [if_neg h₄, Domain.withPort_atomic_iff fun _ _ _ => .inl ⟨trivial, _, rfl⟩]
  have hchecked : (w.dom d).VirqFree (P.hasVcpu d) virq vcpu :=
    ⟨Nat.not_le.mp h₁, h₂, by simpa using h₃, not_not.mp h₄⟩
  exact ⟨fun h _ => h, fun h => h hchecked⟩

theorem bindIpi_atomic_iff (d : Dom) (a : Answers) (vcpu : Nat) :
    (Op.bindIpi d a vcpu).Atomic P w ↔ (Op.bindIpi d a vcpu).Keeps P w := by
  refine World.onDomain_atomic.trans ?_
  unfold Domain.bindIpi Keeps
  by_cases hv : P.hasVcpu d vcpu = false
  · rw [if_pos hv]
    exact Domain.atomic_refused fun h => Bool.false_ne_true (hv.symm.trans h)
  rw [if_neg hv, Domain.withPort_atomic_iff fun _ _ _ => .inl ⟨trivial, _, rfl⟩]
  exact ⟨fun h _ => h, fun h => h (by simpa using hv)⟩

theorem bindPirq_atomic_iff (d : Dom) (a : Answers) (permitted bound : Bool) (pirq : Nat) :
    (Op.bindPirq d a permitted bound pirq).Atomic P w ↔ (Op.bindPirq d a permitted bound pirq).Keeps P w := by
  refine World.onDomain_atomic.trans ?_
  unfold Domain.bindPirq Keeps
  by_cases h₁ : P.nrPirqs d ≤ pirq
  · rw [if_pos h₁]
    exact Domain.atomic_refused fun h => absurd h.1 (Nat.not_lt.mpr h₁)
  rw [if_neg h₁]
  by_cases h₂ : P.isHvm d = false ∧ permitted = false
  · rw [if_pos h₂]
    exact Domain.atomic_refused fun h => h.2.1 h₂
  rw [if_neg h₂]
  by_cases h₃ : (w.dom d).pirqToEvtchn pirq ≠ 0
  · rw [if_pos h₃]
    exact Domain.atomic_refused fun h => h₃ h.2.2
  have hzero := not_not.mp h₃
  rw [if_neg h₃, @Domain.withPort_atomic_iff _ a _ (¬(P.isHvm d = false ∧ bound = false)) _ ?_]
  · exact ⟨fun h _ => h, fun h => h ⟨Nat.not_le.mp h₁, h₂, hzero⟩⟩
  · intro port y hy
    dsimp only
    by_cases hb : P.isHvm d = false ∧ bound = false
    · rw [if_pos hb]
      refine .inr ⟨not_not.mpr hb, _, rfl, ?_⟩
      rw [Domain.setPirq_back port (hy.pirqToEvtchn ▸ hzero)]
      exact .refl y
    · rw [if_neg hb]
      exact .inl ⟨hb, _, rfl⟩

theorem bindInterdomain_atomic_iff (ld rd : Dom) (a : Answers) (xsm : Bool) (rport : Port) :
    (Op.bindInterdomain ld rd a xsm rport).Atomic P w ↔ (Op.bindInterdomain ld rd a xsm rport).Keeps P w := by
  have hgo (port : Port) (y : Domain) (hy : (w.dom ld).Hands port y)
      (hout : (w.dom ld).getFreePort (P.maxEvtchns ld) a = (.ok port, y)) :
      (((rport < (w.dom rd).nrPorts ∧ (w.chn rd rport).state = .unbound) ∧
          (w.chn rd rport).key = P.domainId ld ∧ xsm = true) ∧
        ∃ p, (evtchnBindInterdomain P a xsm ld rd rport w).1 = .ok p) ∨
      (¬((rport < (w.dom rd).nrPorts ∧ (w.chn rd rport).state = .unbound) ∧
          (w.chn rd rport).key = P.domainId ld ∧ xsm = true) ∧
        ∃ e, evtchnBindInterdomain P a xsm ld rd rport w = (.error e, w.setDom ld y)) := by
    -- a channel in a new bucket is free, so the remote port was valid before
    have huse : (rport < ((w.setDom ld y).dom rd).nrPorts ∧ ((w.setDom ld y).chn rd rport).state ≠ .free ↔
        rport < (w.dom rd).nrPorts ∧ (w.chn rd rport).state ≠ .free) ∧
          (rport < (w.dom rd).nrPorts → (w.setDom ld y).chn rd rport = w.chn rd rport) := by
      unfold World.chn
      by_cases hd : rd = ld
      · subst hd
        rw [World.setDom_self]
        exact hy.inUse rport
      · rw [World.setDom_of_ne w hd]
        exact ⟨Iff.rfl, fun _ => rfl⟩
    obtain ⟨huse, hsame⟩ := huse
    unfold evtchnBindInterdomain
    rw [hout]
    dsimp only
    by_cases hvalid : ((w.setDom ld y).dom rd).nrPorts ≤ rport
    · rw [if_pos hvalid]
      refine .inr ⟨?_, _, rfl⟩
      rintro ⟨⟨hlt, hunbound⟩, -⟩
      have hin := huse.mpr ⟨hlt, by rw [hunbound]; decide⟩
      exact absurd hin.1 (Nat.not_lt.mpr hvalid)
    rw [if_neg hvalid]
    by_cases hchn : ((w.setDom ld y).chn rd rport).state ≠ .unbound ∨
        ((w.setDom ld y).chn rd rport).key ≠ P.domainId ld
    · rw [if_pos hchn]
      refine .inr ⟨?_, _, rfl⟩
      rintro ⟨⟨hlt, hunbound⟩, hkey, -⟩
      rw [hsame hlt] at hchn
      rcases hchn with hstate | hkey'
      · exact hstate hunbound
      · exact hkey' hkey
    rw [if_neg hchn]
    obtain ⟨hstate, hkey⟩ := not_or.mp hchn
    have hstate := not_not.mp hstate
    have hlt : rport < (w.dom rd).nrPorts :=
      (huse.mp ⟨Nat.not_le.mp hvalid, by rw [hstate]; decide⟩).1
    rw [hsame hlt] at hstate hkey
    cases xsm with
    | false => exact .inr ⟨fun h => absurd h.2.2 nofun, _, rfl⟩
    | true => exact .inl ⟨⟨⟨hlt, hstate⟩, not_not.mp hkey, rfl⟩, _, rfl⟩
  unfold Atomic run Keeps Domain.Completes
  dsimp only
  have hfail {y : Domain} {e : Errno} (h : evtchnBindInterdomain P a xsm ld rd rport w = (.error e, w.setDom ld y)) :
      (∀ e', errorOf (evtchnBindInterdomain P a xsm ld rd rport w).1 = some e' →
        w.Same (evtchnBindInterdomain P a xsm ld rd rport w).2) ↔ Unchanged (w.dom ld) y := by
    rw [h]
    exact ⟨fun h => World.same_setDom_iff.mp (h e rfl), fun h _ _ => World.same_setDom_iff.mpr h⟩
  have hdone {p : Port} (h : (evtchnBindInterdomain P a xsm ld rd rport w).1 = .ok p) (e' : Errno) :
      errorOf (evtchnBindInterdomain P a xsm ld rd rport w).1 ≠ some e' := by
    rw [h]
    nofun
  rcases Domain.getFreePort_cases (P.maxEvtchns ld) a (w.dom ld) with
    ⟨hno, ⟨⟨e, hout⟩, -⟩ | ⟨port, hout, hfinds⟩⟩ | ⟨hadds, l, ⟨hlabels, hout⟩ | ⟨hno, hout⟩⟩
  · refine (hfail (y := w.dom ld) (e := e) ?_).trans ⟨fun _ h => absurd h hno, fun _ => .refl _⟩
    unfold evtchnBindInterdomain
    rw [hout]
  · refine ⟨fun _ h => absurd h hno, fun _ => ?_⟩
    rcases hgo port _ (.inl ⟨rfl, hfinds⟩) hout with ⟨-, p, hok⟩ | ⟨-, e, herr⟩
    · exact fun e he => absurd he (hdone hok e)
    · exact (hfail herr).mpr (.refl _)
  · rcases hgo _ _ (.inr ⟨l, rfl, rfl⟩) hout with ⟨hpass, p, hok⟩ | ⟨hnot, e, herr⟩
    · exact ⟨fun _ _ => ⟨hlabels, hpass⟩, fun _ e he => absurd he (hdone hok e)⟩
    · rw [hfail herr]
      constructor
      · intro h
        exact absurd h ((Unchanged.refl _).not_grown rfl)
      · intro h
        exact absurd (h hadds).2 hnot
  · rw [hfail (y := ((w.dom ld).newBucket l).freeBucket (w.dom ld).nrPorts) (e := .enomem) ?_]
    · constructor
      · intro h
        exact absurd h ((Unchanged.refl _).not_grown rfl)
      · intro h
        exact absurd (h hadds).1 hno
    · unfold evtchnBindInterdomain
      rw [hout]

end Op

theorem Domain.bindVcpu_refused {hasVcpu : Nat → Bool} {port : Port} {vcpu : Nat} {x : Domain} {e : Errno}
    (h : (x.bindVcpu hasVcpu port vcpu).1 = .error e) : (x.bindVcpu hasVcpu port vcpu).2 = x := by
  unfold Domain.bindVcpu at h ⊢
  dsimp only at h ⊢
  by_cases h₁ : hasVcpu vcpu = false
  · rw [if_pos h₁]
  rw [if_neg h₁] at h ⊢
  by_cases h₂ : x.nrPorts ≤ port
  · rw [if_pos h₂]
  rw [if_neg h₂] at h ⊢
  cases h₃ : (x.evtchn port).consumerIsXen with
  | true => rfl
  | false =>
    rw [h₃, if_neg Bool.false_ne_true] at h
    rw [if_neg Bool.false_ne_true]
    cases hs : (x.evtchn port).state with
    | free | reserved | ipi => rfl
    | unbound | interdomain =>
      rw [hs] at h
      cases h
    | virq =>
      rw [hs] at h
      dsimp only at h ⊢
      cases hg : virqIsGlobal (x.evtchn port).key with
      | true =>
        rw [hg, if_pos rfl] at h
        cases h
      | false => rfl
    | pirq =>
      rw [hs] at h
      dsimp only at h
      split at h <;> cases h

namespace Op

theorem bindVcpu_atomic_iff (d : Dom) (port : Port) (vcpu : Nat) :
    (Op.bindVcpu d port vcpu).Atomic P w ↔ (Op.bindVcpu d port vcpu).Keeps P w := by
  refine ⟨fun _ => trivial, fun _ => World.onDomain_atomic.mpr fun e he => ?_⟩
  rw [Domain.bindVcpu_refused he]
  exact .refl _

theorem evtchnClose_refused {d : Dom} {port : Port} {seen : Option Dom} {w w' : World} {e : Errno}
    (h : Evtchn.evtchnClose P d port seen w = .done (.error e) w') : w' = w := by
  rcases evtchnClose_cases h with ⟨-, -, hw⟩ | ⟨hrc, -⟩
  · exact hw
  · cases hrc

theorem close_atomic_iff (d : Dom) (port : Port) (seen : Option Dom) :
    (Op.close d port seen).Atomic P w ↔ (Op.close d port seen).Keeps P w := by
  refine ⟨fun _ => trivial, ?_⟩
  intro _
  unfold Atomic run
  dsimp only
  cases hout : Evtchn.evtchnClose P d port seen w with
  | done rc w' =>
    cases rc with
    | ok u => exact fun e he => nomatch he
    | error e' =>
      intro e _
      rw [evtchnClose_refused hout]
      exact .refl w
  | window d2 => exact fun e he => nomatch he
  | bug b => exact fun e he => nomatch he

/-- `evtchn_init` is called for port 0, and it is the only operation that fails once it has changed a channel. -/
theorem init_atomic_iff (d : Dom) (a : Answers) (pollMask : Bool) :
    (Op.init d a pollMask).Atomic P w ↔ (Op.init d a pollMask).Keeps P w := by
  refine World.onDomain_atomic.trans ?_
  unfold Domain.Atomic Keeps Domain.Completes Domain.evtchnInit
  dsimp only
  have hgrown {y y' : Domain} (hy : y.nrPorts = (w.dom d).nrPorts + evtchnsPerBucket) {e : Errno}
      (h : Unchanged y y') : ¬∀ e', (Except.error e : Except Errno Unit) = .error e' → Unchanged (w.dom d) y' :=
    fun hall => h.not_grown hy (hall e rfl)
  rcases Domain.getFreePort_cases (P.maxEvtchns d) a (w.dom d) with
    ⟨hno, ⟨⟨e, hout⟩, hnone⟩ | ⟨port, hout, hfinds⟩⟩ | ⟨hadds, l, ⟨hlabels, hout⟩ | ⟨hnot, hout⟩⟩
  · rw [hout]
    exact ⟨fun _ => ⟨fun h => absurd h hno, fun h => absurd h (hnone 0)⟩, fun _ _ _ => .refl _⟩
  · rw [hout]
    dsimp only
    by_cases hport : port = 0
    · subst hport
      rw [if_neg (not_not.mpr rfl)]
      cases pollMask with
      | true => exact ⟨fun _ => ⟨fun h => absurd h hno, fun _ => rfl⟩, fun _ _ he => nomatch he⟩
      | false =>
        constructor
        · intro h
          -- port 0 was free, and it is reserved now
          have hchn := (h .enomem rfl).chn 0 hfinds.2.1
          rw [if_neg Bool.false_ne_true, Domain.setChn_self] at hchn
          have hstate := congrArg Channel.state hchn
          exact absurd (hstate.trans hfinds.2.2.1) nofun
        · intro h
          exact absurd (h.2 hfinds) nofun
    · rw [if_pos hport]
      refine ⟨fun _ => ⟨fun h => absurd h hno, ?_⟩, fun _ _ _ => .refl _⟩
      intro h
      exact absurd h.2.2.1 (hfinds.2.2.2 0 (Nat.pos_of_ne_zero hport))
  · rw [hout]
    dsimp only
    by_cases hport : (w.dom d).nrPorts = 0
    · rw [if_neg (not_not.mpr hport)]
      cases pollMask with
      | true => exact ⟨fun _ => ⟨fun _ => ⟨hlabels, hport, rfl⟩, fun _ => rfl⟩, fun _ _ he => nomatch he⟩
      | false =>
        constructor
        · intro h
          have hvalid := (h .enomem rfl).valid
          exact absurd hvalid (Nat.ne_of_gt (Nat.lt_add_of_pos_right (by decide)))
        · intro h
          exact absurd (h.1 hadds).2.2 nofun
    · rw [if_pos hport]
      exact ⟨fun h => absurd h (hgrown rfl (.refl _)), fun h => absurd (h.1 hadds).2.1 hport⟩
  · rw [hout]
    exact ⟨fun h => absurd h (hgrown rfl (.refl _)), fun h => absurd (h.1 hadds).1 hnot⟩

theorem atomic_iff (op : Op) : op.Atomic P w ↔ op.Keeps P w := by
  cases op with
  | init d a pollMask => exact init_atomic_iff d a pollMask
  | allocUnbound d a xsm remoteDomid => exact allocUnbound_atomic_iff d a xsm remoteDomid
  | allocUnboundXen d a vcpu remoteDomid => exact allocUnboundXen_atomic_iff d a vcpu remoteDomid
  | bindInterdomain ld rd a xsm rport => exact bindInterdomain_atomic_iff ld rd a xsm rport
  | bindVirq d a virq vcpu => exact bindVirq_atomic_iff d a virq vcpu
  | bindIpi d a vcpu => exact bindIpi_atomic_iff d a vcpu
  | bindPirq d a permitted bound pirq => exact bindPirq_atomic_iff d a permitted bound pirq
  | bindVcpu d port vcpu => exact bindVcpu_atomic_iff d port vcpu
  | close d port seen => exact close_atomic_iff d port seen

end Op

/-! ## Port 0 -/

/-- Port 0 is reserved, in a bucket that has not been freed. -/
structure Domain.ZeroKept (x : Domain) : Prop where
  reserved : (x.evtchn 0).state = .reserved
  kept : x.freed 0 = false
  alive : x.isDying = false → 0 < x.nrPorts

/-- A step that leaves port 0 reserved, whatever it finds in the other channels. -/
structure Guards (x x' : Domain) : Prop where
  isDying : x'.isDying = x.isDying
  zero : x.ZeroKept → x'.ZeroKept

namespace Guards

variable {x x' x'' y : Domain} {port : Port} {c : Channel} {maxEvtchns : Nat} {a : Answers}

theorem refl (x : Domain) : Guards x x := ⟨rfl, id⟩

theorem trans (h : Guards x x') (h' : Guards x' x'') : Guards x x'' :=
  ⟨h'.isDying.trans h.isDying, h'.zero ∘ h.zero⟩

theorem setChn (hc : (x.evtchn port).state = .reserved → c.state = .reserved) :
    Guards x (x.setChn port c) := by
  refine ⟨rfl, fun h => ⟨?_, h.kept, h.alive⟩⟩
  by_cases hp : 0 = port
  · subst hp
    rw [Domain.setChn_self]
    exact hc h.reserved
  · rw [Domain.setChn_of_ne x hp]
    exact h.reserved

theorem of_bare (h : x.Bare x') : Guards x x' := by
  refine ⟨h.isDying, fun hz => ⟨(congrArg Channel.state (h.bare 0)).trans hz.reserved, ?_, ?_⟩⟩
  · rw [h.freed]
    exact hz.kept
  · rw [h.isDying, h.nrPorts]
    exact hz.alive

/-- A new bucket comes after that of port 0. -/
theorem getFreePort {r : Except Errno Port} (h : x.getFreePort maxEvtchns a = (r, y)) : Guards x y := by
  have hnew (l : Port → Bool) (hd : x.isDying = false) (f : Port → Bool)
      (hf : 0 < x.nrPorts → f 0 = x.freed 0) : Guards x { x.newBucket l with freed := f } := by
    refine ⟨rfl, fun h => ?_⟩
    have hpos := h.alive hd
    refine ⟨?_, (hf hpos).trans h.kept, fun _ => Nat.lt_add_right _ hpos⟩
    show (if x.nrPorts ≤ 0 then Channel.zero else x.evtchn 0).state = .reserved
    rw [if_neg (Nat.not_le.mpr hpos)]
    exact h.reserved
  rcases Domain.getFreePort_grown h with rfl | ⟨hd, l, rfl | ⟨-, rfl⟩⟩
  · exact .refl _
  · exact hnew l hd _ fun hpos => if_neg (Nat.not_le.mpr hpos)
  · refine hnew l hd _ fun hpos => (if_neg ?_).trans (if_neg (Nat.not_le.mpr hpos))
    rintro ⟨hle, -⟩
    exact Nat.not_le.mpr hpos hle

theorem bindFree (h : x.getFreePort maxEvtchns a = (.ok port, y)) : Guards x (y.setChn port c) := by
  refine (getFreePort h).trans (setChn fun hr => ?_)
  rw [(Domain.getFreePort_ok h).2.2.2] at hr
  cases hr

theorem edits : Edits (fun _ _ _ => True) Guards where
  trans := .trans
  bare := .of_bare
  port _ h := .getFreePort h
  bind h _ := .bindFree h
  rebind _ _ _ := .setChn id

end Guards

namespace World

def Guards (w w' : World) : Prop := ∀ d, Evtchn.Guards (w.dom d) (w'.dom d)

theorem Guards.trans {w' w'' : World} (h : w.Guards w') (h' : w'.Guards w'') : w.Guards w'' :=
  fun d => (h d).trans (h' d)

theorem Guards.setDom {d : Dom} {x : Domain} (h : Evtchn.Guards (w.dom d) x) : w.Guards (w.setDom d x) := by
  intro d'
  by_cases hd : d' = d
  · subst hd
    rwa [setDom_self]
  · rw [setDom_of_ne w hd]
    exact .refl _

theorem Guards.setTwo {d d' : Dom} {port port' : Port} {c c' : Channel} (hc : (w.chn d port).state ≠ .reserved)
    (hc' : (w.chn d' port').state ≠ .reserved) (hr : c.state ≠ .reserved) :
    let w' := w.setDom d ((w.dom d).setChn port c)
    w.Guards (w'.setDom d' ((w'.dom d').setChn port' c')) := by
  intro w'
  refine Guards.trans (.setDom (.setChn fun h => absurd h hc)) (.setDom (.setChn fun h => ?_))
  change (w'.chn d' port').state = .reserved at h
  by_cases he : (d', port') = (d, port)
  · cases he
    rw [World.chn, World.setDom_self, Domain.setChn_self] at h
    exact absurd h hr
  · rw [World.chn_setChn_of_ne he] at h
    exact absurd h hc'

theorem evtchnBindInterdomain_calls {a : Answers} {xsm : Bool} {ld rd : Dom} {rport : Port} :
    (evtchnBindInterdomain P a xsm ld rd rport w).2.calls = w.calls := by
  unfold evtchnBindInterdomain
  split
  · rfl
  dsimp only
  split
  · rfl
  split
  · rfl
  split <;> rfl

theorem Guards.bindInterdomain {a : Answers} {xsm : Bool} {ld rd : Dom} {rport : Port} :
    w.Guards (evtchnBindInterdomain P a xsm ld rd rport w).2 := by
  unfold evtchnBindInterdomain
  split
  · next h => exact .setDom (.getFreePort h)
  next lport y h =>
  have hy : w.Guards (w.setDom ld y) := .setDom (.getFreePort h)
  dsimp only
  split
  · exact hy
  split
  · exact hy
  next hwait =>
  split
  · exact hy
  rw [not_or, not_not] at hwait
  refine hy.trans (.setTwo ?_ (by simp [hwait.1]) (by simp))
  rw [World.chn, World.setDom_self, (Domain.getFreePort_ok h).2.2.2]
  simp

theorem Guards.closePeer {d1 d2 : Dom} {port1 : Port} {rc : Except Errno Unit} {w' : World}
    (hs : (w.chn d1 port1).state = .interdomain) (hout : closePeer P d1 port1 d2 w = .done rc w') :
    w.Guards w' := by
  unfold Evtchn.closePeer at hout
  dsimp only at hout
  split at hout
  · cases hout
  split at hout
  · cases hout
  next hs2 =>
  split at hout
  · cases hout
  cases hout
  exact .setTwo (by simp [not_not.mp hs2]) (by simp [hs]) (by simp)

theorem Guards.close {d1 : Dom} {port1 : Port} {seen : Option Dom} {rc : Except Errno Unit} {w' : World}
    (hout : evtchnClose P d1 port1 seen w = .done rc w') : w.Guards w' := by
  rcases evtchnClose_cases hout with ⟨e, -, rfl⟩ | ⟨-, -, ⟨x, hx, rfl, hs⟩ | ⟨hs, d2, hp⟩⟩
  · exact fun _ => .refl _
  · refine .setDom ((Evtchn.Guards.of_bare hx).trans (.setChn fun hr => ?_))
    exact absurd ((congrArg Channel.state (hx.bare port1)).symm.trans hr) hs
  · exact .closePeer hs hp

end World

/-- Port 0 of every domain is reserved, and only dying domains are taken down. -/
structure ZeroSafe (w : World) : Prop where
  zero : ∀ d, (w.dom d).ZeroKept
  dying : ∀ t c d, w.calls t = some c → c.Destroys d → (w.dom d).isDying = true

namespace ZeroSafe

variable {w' : World}

theorem guards (h : ZeroSafe w) (hg : w.Guards w')
    (hc : ∀ t c d, w'.calls t = some c → c.Destroys d → (w.dom d).isDying = true) : ZeroSafe w' where
  zero d := (hg d).zero (h.zero d)
  dying t c d ht hd := by
    rw [(hg d).isDying]
    exact hc t c d ht hd

/-- A CPU goes on to another call. -/
theorem setCall (h : ZeroSafe w) {t : Nat} {c : Option Call}
    (hc : ∀ c' d, c = some c' → c'.Destroys d → (w.dom d).isDying = true) : ZeroSafe (w.setCall t c) where
  zero := h.zero
  dying t' c' d ht hd := by
    by_cases htt : t' = t
    · subst htt
      rw [World.setCall_self] at ht
      exact hc c' d ht hd
    · rw [World.setCall_of_ne w htt] at ht
      exact h.dying t' c' d ht hd

theorem setDom (h : ZeroSafe w) {d : Dom} {x : Domain} (hg : Guards (w.dom d) x) : ZeroSafe (w.setDom d x) :=
  h.guards (.setDom hg) h.dying

theorem closed (h : ZeroSafe w) {t : Nat} {d1 : Dom} {port1 : Port} {seen : Option Dom} {after : Option Call}
    {waiting : Dom → Call} (hafter : ∀ c d, after = some c → c.Destroys d → (w.dom d).isDying = true)
    (hwaiting : ∀ d2 d, (waiting d2).Destroys d → (w.dom d).isDying = true)
    (hw : w.closed t (evtchnClose P d1 port1 seen w) after waiting = .ok w') : ZeroSafe w' := by
  rcases World.closed_cases hw with ⟨rc, w₁, hout, rfl⟩ | ⟨d2, -, rfl⟩
  · have hg := World.Guards.close hout
    refine (h.guards hg ?_).setCall ?_
    · rw [evtchnClose_calls hout]
      exact h.dying
    · intro c d hc hd
      rw [(hg d).isDying]
      exact hafter c d hc hd
  · refine h.setCall fun c d hc hd => ?_
    cases hc
    exact hwaiting d2 d hd

theorem next (h : ZeroSafe w) {t : Nat} {c : Call} (ht : w.calls t = some c)
    (hw : c.step P t w = .ok w') : ZeroSafe w' := by
  cases c with
  | close d port seen => exact h.closed (fun _ _ hc => by cases hc) (fun _ _ => False.elim) hw
  | reset d i seen =>
    unfold Call.step at hw
    dsimp only at hw
    split at hw
    · cases hw
      exact h.setCall fun _ _ hc => by cases hc
    · refine h.closed (fun c d' hc hd => ?_) (fun _ _ => False.elim) hw
      cases hc
      exact hd.elim
  | freeXen d port seen => exact h.closed (fun _ _ hc => by cases hc) (fun _ _ => False.elim) hw
  | destroy d i =>
    have hdying := h.dying t _ d ht rfl
    unfold Call.step at hw
    dsimp only at hw
    split at hw
    · split at hw
      · cases hw
      cases hw
      have hg : Guards (w.dom d) { w.dom d with nrPorts := 0 } :=
        ⟨rfl, fun hz => ⟨hz.reserved, hz.kept, fun hd => absurd (hdying.symm.trans hd) nofun⟩⟩
      exact (h.setDom hg).setCall fun _ _ hc => absurd hc nofun
    · cases hw
      have hg : Guards (w.dom d) ((w.dom d).setChn i { (w.dom d).evtchn i with consumerIsXen := false }) :=
        .setChn id
      refine (h.setDom hg).setCall fun c d' hc hd => ?_
      cases hc
      cases hd
      rw [World.setDom_self]
      exact hdying
  | destroyClose d i seen =>
    have hdying := h.dying t _ d ht rfl
    refine h.closed (fun c d' hc hd => ?_) (fun _ d' hd => ?_) hw
    · cases hc
      cases hd
      exact hdying
    · cases hd
      exact hdying

theorem step (h : ZeroSafe w) {s : Step} (hw : s.run P w = .ok w') : ZeroSafe w' := by
  have hnone {t : Nat} {d : Dom} {port : Port} {after : Option Call} {waiting : Dom → Call}
      (ha : ∀ c d, after = some c → ¬c.Destroys d) (hwait : ∀ d2 d, ¬(waiting d2).Destroys d)
      (hw : w.closed t (evtchnClose P d port none w) after waiting = .ok w') : ZeroSafe w' :=
    h.closed (fun c d hc hd => absurd hd (ha c d hc)) (fun d2 d hd => absurd hd (hwait d2 d)) hw
  cases s with
  | allocUnbound d a xsm remoteDomid =>
    cases hw
    exact h.setDom (Guards.edits.allocUnbound trivial)
  | bindInterdomain ld rd a xsm rport =>
    cases hw
    refine h.guards .bindInterdomain ?_
    rw [World.evtchnBindInterdomain_calls]
    exact h.dying
  | bindVirq d a virq vcpu =>
    cases hw
    exact h.setDom (Guards.edits.bindVirq fun _ => trivial)
  | bindIpi d a vcpu =>
    cases hw
    exact h.setDom (Guards.edits.bindIpi fun _ => trivial)
  | bindPirq d a permitted bound pirq =>
    cases hw
    exact h.setDom (Guards.edits.bindPirq fun _ => trivial)
  | bindVcpu d port vcpu =>
    cases hw
    exact h.setDom Guards.edits.bindVcpu
  | allocUnboundXen d a vcpu remoteDomid =>
    cases hw
    exact h.setDom (Guards.edits.allocUnboundXen trivial)
  | close t d port =>
    unfold Step.run at hw
    dsimp only at hw
    split at hw
    · cases hw
      exact h
    · exact hnone (fun c d hc => by cases hc) (fun _ _ => id) hw
  | reset t d =>
    unfold Step.run at hw
    dsimp only at hw
    split at hw
    · cases hw
      exact h
    · cases hw
      refine h.setCall fun c d' hc hd => ?_
      cases hc
      exact hd.elim
  | freeXen t d port =>
    unfold Step.run at hw
    dsimp only at hw
    split at hw
    · cases hw
      exact h
    · split at hw
      · cases hw
      · cases hw
        have hg : Guards (w.dom d) ((w.dom d).setChn port { (w.dom d).evtchn port with consumerIsXen := false }) :=
          .setChn id
        refine (h.setDom hg).setCall fun c d' hc hd => ?_
        cases hc
        exact hd.elim
  | kill t d =>
    unfold Step.run at hw
    dsimp only at hw
    split at hw
    · cases hw
      exact h
    · cases hw
      have hz (d' : Dom) : ((w.setDom d { w.dom d with isDying := true }).dom d').ZeroKept ∧
          ((w.dom d').isDying = true → ((w.setDom d { w.dom d with isDying := true }).dom d').isDying = true) := by
        by_cases hd : d' = d
        · subst hd
          rw [World.setDom_self]
          exact ⟨⟨(h.zero d').reserved, (h.zero d').kept, fun hd => by cases hd⟩, fun _ => rfl⟩
        · rw [World.setDom_of_ne w hd]
          exact ⟨h.zero d', id⟩
      have hsafe : ZeroSafe (w.setDom d { w.dom d with isDying := true }) :=
        ⟨fun d' => (hz d').1, fun t' c d' ht hd => (hz d').2 (h.dying t' c d' ht hd)⟩
      refine hsafe.setCall fun c d' hc hd => ?_
      cases hc
      cases hd
      rw [World.setDom_self]
  | drop d =>
    unfold Step.run at hw
    dsimp only at hw
    split at hw
    · cases hw
      have hg : Guards (w.dom d) { w.dom d with destroyed := true } :=
        ⟨rfl, fun hz => ⟨hz.reserved, hz.kept, hz.alive⟩⟩
      exact h.setDom hg
    · cases hw
      exact h
  | reuse d port c =>
    unfold Step.run at hw
    dsimp only at hw
    split at hw
    · next hf =>
      cases hw
      -- the bucket of port 0 has not been freed
      refine h.setDom ⟨rfl, fun hz => ⟨?_, hz.kept, hz.alive⟩⟩
      rw [Domain.setChn_of_ne]
      · exact hz.reserved
      · rintro rfl
        exact absurd (hz.kept.symm.trans hf) nofun
    · cases hw
      exact h
  | next t =>
    unfold Step.run at hw
    dsimp only at hw
    split at hw
    · cases hw
      exact h
    · next ht => exact h.next ht hw

end ZeroSafe

theorem runSteps_zeroSafe {w' : World} (steps : List Step) (h : ZeroSafe w)
    (hw : runSteps P steps w = .ok w') : ZeroSafe w' := by
  induction steps generalizing w with
  | nil =>
    cases hw
    exact h
  | cons s rest ih =>
    unfold runSteps at hw
    split at hw
    · cases hw
    · next w₁ hw₁ => exact ih (h.step hw₁) hw

/-- The domains have been initialised, and no call is under way. -/
def World.Fresh (P : Platform) (w : World) : Prop :=
  (∀ d, ∃ a, Domain.blank.evtchnInit (P.maxEvtchns d) a true = (.ok (), w.dom d)) ∧ ∀ t, w.calls t = none

/-- `evtchn_init` of a zeroed domain. -/
theorem Domain.evtchnInit_zeroKept {maxEvtchns : Nat} {a : Answers} {pollMask : Bool} {x : Domain}
    (h : blank.evtchnInit maxEvtchns a pollMask = (.ok (), x)) : x.ZeroKept := by
  unfold evtchnInit at h
  rcases getFreePort_cases maxEvtchns a blank with
    ⟨-, ⟨⟨e, hout⟩, -⟩ | ⟨port, -, hfinds⟩⟩ | ⟨-, l, ⟨-, hout⟩ | ⟨-, hout⟩⟩
  · rw [hout] at h
    cases h
  · exact absurd hfinds.2.1 (Nat.not_lt_zero port)
  · rw [hout] at h
    cases pollMask with
    | true =>
      cases h
      exact ⟨rfl, rfl, fun _ => (blank.newBucket_free l).1⟩
    | false => cases h
  · rw [hout] at h
    cases h

theorem World.Fresh.zeroSafe (h : w.Fresh P) : ZeroSafe w where
  zero d := by
    obtain ⟨a, ha⟩ := h.1 d
    exact Domain.evtchnInit_zeroKept ha
  dying t c d ht := by
    rw [h.2 t] at ht
    cases ht

namespace Domain

variable {maxEvtchns : Nat} {a : Answers} {x : Domain}

/-- `get_free_port` never returns port 0 where it is reserved. -/
theorem getFreePort_ne_zero (h : x.ZeroKept) : (x.getFreePort maxEvtchns a).1 ≠ .ok 0 := by
  intro hport
  have hout : x.getFreePort maxEvtchns a = (.ok 0, (x.getFreePort maxEvtchns a).2) := Prod.ext hport rfl
  obtain ⟨hd, -, -, hfree⟩ := getFreePort_ok hout
  have hreserved := ((Guards.getFreePort hout).zero h).reserved
  exact absurd (hreserved.symm.trans hfree) nofun

/-- If `get_free_port` returns an error, no port has become valid. -/
def KeepsValid (maxEvtchns : Nat) (a : Answers) (x : Domain) : Prop :=
  ∀ e, (x.getFreePort maxEvtchns a).1 = .error e →
    ∀ p, p < (x.getFreePort maxEvtchns a).2.nrPorts → p < x.nrPorts

/-- The port that `get_free_port` returns was free, or is in a new bucket. -/
def GivesFree (maxEvtchns : Nat) (a : Answers) (x : Domain) : Prop :=
  ∀ port, (x.getFreePort maxEvtchns a).1 = .ok port →
    (port < x.nrPorts ∧ (x.evtchn port).state = .free) ∨
      (x.nrPorts ≤ port ∧ port < (x.getFreePort maxEvtchns a).2.nrPorts ∧
        (x.getFreePort maxEvtchns a).2.evtchn port = Channel.zero)

theorem keepsValid_iff (maxEvtchns : Nat) (a : Answers) (x : Domain) :
    x.KeepsValid maxEvtchns a ↔ x.Labelled maxEvtchns a := by
  unfold KeepsValid Labelled
  rcases getFreePort_cases maxEvtchns a x with
    ⟨hno, ⟨⟨e, hout⟩, -⟩ | ⟨port, hout, -⟩⟩ | ⟨hadds, l, ⟨hlabels, hout⟩ | ⟨hnot, hout⟩⟩
  · rw [hout]
    exact ⟨fun _ h => absurd h hno, fun _ _ _ _ hp => hp⟩
  · rw [hout]
    exact ⟨fun _ h => absurd h hno, fun _ _ _ _ hp => hp⟩
  · rw [hout]
    exact ⟨fun _ _ => hlabels, fun _ _ he => nomatch he⟩
  · rw [hout]
    constructor
    · intro h
      -- the first port of the bucket is valid
      exact absurd (h .enomem rfl x.nrPorts (x.newBucket_free l).1) (Nat.lt_irrefl _)
    · intro h
      exact absurd (h hadds) hnot

theorem givesFree (maxEvtchns : Nat) (a : Answers) (x : Domain) : x.GivesFree maxEvtchns a := by
  unfold GivesFree
  rcases getFreePort_cases maxEvtchns a x with
    ⟨-, ⟨⟨e, hout⟩, -⟩ | ⟨port, hout, hfinds⟩⟩ | ⟨-, l, ⟨-, hout⟩ | ⟨-, hout⟩⟩
  · rw [hout]
    nofun
  · rw [hout]
    intro p hp
    cases hp
    exact .inl ⟨hfinds.2.1, hfinds.2.2.1⟩
  · rw [hout]
    intro p hp
    cases hp
    exact .inr ⟨le_rfl, (x.newBucket_free l).1, if_pos le_rfl⟩
  · rw [hout]
    nofun

end Domain

/-! ## Failures leave no trace -/

/-- An operation that fails leaves everything as it was if and only if it does not fail after it has added a
bucket; no port becomes valid when `get_free_port` fails if and only if the labels of a new bucket can be
allocated. A port that is given away was free or is new, and in no run from initialised domains it is port 0. -/
theorem failed_leavesNoTrace_iff (P : Platform) :
    (∀ w op, Op.Atomic P w op ↔ op.Keeps P w) ∧
      (∀ maxEvtchns a (x : Domain),
        (x.KeepsValid maxEvtchns a ↔ x.Labelled maxEvtchns a) ∧ x.GivesFree maxEvtchns a) ∧
      ∀ w₀ steps w, w₀.Fresh P → runSteps P steps w₀ = .ok w →
        ∀ d a, ((w.dom d).getFreePort (P.maxEvtchns d) a).1 ≠ .ok 0 := by
  refine ⟨fun w op => op.atomic_iff, fun m a x => ⟨x.keepsValid_iff m a, x.givesFree m a⟩, ?_⟩
  intro w₀ steps w hfresh hrun d a
  exact Domain.getFreePort_ne_zero ((runSteps_zeroSafe steps hfresh.zeroSafe hrun).zero d)

/-- Every domain has one bucket, all of whose channels are in use. -/
def fullTables : World where
  dom _ := { Domain.init with
    evtchn := fun p => { Channel.zero with state := if p = 0 then .reserved else .unbound } }
  calls _ := none

/-- Where there is no memory for a bucket, the operation fails and nothing has changed. -/
theorem failed_leavesNoTrace_noMemory :
    Op.Atomic .twoVcpus fullTables (.allocUnbound 1 ⟨false, fun _ => true⟩ true 0) := by
  refine ((failed_leavesNoTrace_iff .twoVcpus).1 fullTables _).mpr ?_
  intro hadds
  exact absurd hadds.alloc nofun

/-- Where the first label cannot be allocated, the channel behind port 128 is freed memory, and the port is
valid. -/
theorem allocUnbound_leavesFreed :
    let op : Op := .allocUnbound 0 ⟨true, fun _ => false⟩ true 0
    (op.run .twoVcpus fullTables).1 = some .enomem ∧ ¬128 < (fullTables.dom 0).nrPorts ∧
      128 < ((op.run .twoVcpus fullTables).2.dom 0).nrPorts ∧
      ((op.run .twoVcpus fullTables).2.dom 0).freed 128 = true ∧ ¬op.Atomic .twoVcpus fullTables := by
  refine ⟨by decide +kernel, by decide, by decide +kernel, by decide +kernel, ?_⟩
  intro h
  have hvalid := (h .enomem (by decide +kernel) 0).valid
  exact absurd hvalid (by decide +kernel)

end Evtchn
