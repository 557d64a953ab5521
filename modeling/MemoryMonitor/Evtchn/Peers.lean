import MemoryMonitor.Evtchn.Channels
import MemoryMonitor.Lib.Pairing

/-!
# Peers

The two ends of a channel between domains name each other, in every state that
any interleaving of the operations reaches. Most steps are `Quiet`: they leave
the peer of every channel alone. Binding pairs two channels that have no peer,
and closing separates a pair.

A closing CPU that waits for a lock has looked at its channel before. While the
domain is dying such a channel can only fade (`Late`), which is why
`evtchn_destroy` closes every port.

All this needs that no bucket has been freed while it is in the table: the
channels in such a bucket are whatever is written there (`Domain.Intact`).
-/

namespace Evtchn

/-- The other end of an `ECS_INTERDOMAIN` channel. -/
def Channel.peer (c : Channel) : Option (Dom × Port) :=
  if c.state = .interdomain then some (c.remoteDom, c.key) else none

/-- The peer of the channel `c.2` of domain `c.1`. -/
def World.peer (w : World) (c : Dom × Port) : Option (Dom × Port) := w.view Channel.peer c

theorem Channel.peer_eq_some {c : Channel} {q : Dom × Port} :
    c.peer = some q ↔ c.state = .interdomain ∧ (c.remoteDom, c.key) = q := by
  unfold peer
  split <;> simp [*]

theorem Channel.peer_eq_none {c : Channel} (h : c.state ≠ .interdomain) : c.peer = none :=
  if_neg h

theorem World.peer_eq_some {w : World} {c q : Dom × Port} :
    w.peer c = some q ↔ c.2 < (w.dom c.1).nrPorts ∧ (w.chn c.1 c.2).state = .interdomain ∧
      ((w.chn c.1 c.2).remoteDom, (w.chn c.1 c.2).key) = q := by
  unfold peer view
  rw [Domain.view_eq_some, Channel.peer_eq_some]
  rfl

theorem World.peer_setDom (w : World) (d : Dom) (x : Domain) (c : Dom × Port) :
    (w.setDom d x).peer c = if c.1 = d then x.view Channel.peer c.2 else w.peer c :=
  view_setDom w d x c

theorem World.peer_setChn (w : World) (d : Dom) {port : Port} (h : port < (w.dom d).nrPorts)
    (c : Channel) :
    (w.setDom d ((w.dom d).setChn port c)).peer = Function.update w.peer (d, port) c.peer :=
  view_setChn w d h c

/-- Only lists and tables differ. -/
structure Domain.Bare (x x' : Domain) : Prop where
  isDying : x'.isDying = x.isDying
  destroyed : x'.destroyed = x.destroyed
  nrPorts : x'.nrPorts = x.nrPorts
  freed : x'.freed = x.freed
  bare : ∀ p, (x'.evtchn p).bare = (x.evtchn p).bare

namespace Domain.Bare

variable {x x' x'' : Domain} {port : Port}

theorem refl (x : Domain) : x.Bare x := ⟨rfl, rfl, rfl, rfl, fun _ => rfl⟩

theorem trans (h : x.Bare x') (h' : x'.Bare x'') : x.Bare x'' :=
  ⟨h'.isDying.trans h.isDying, h'.destroyed.trans h.destroyed, h'.nrPorts.trans h.nrPorts,
    h'.freed.trans h.freed, fun p => (h'.bare p).trans (h.bare p)⟩

theorem of_evtchn (he : x'.evtchn = x.evtchn) (hd : x'.isDying = x.isDying)
    (hs : x'.destroyed = x.destroyed) (hn : x'.nrPorts = x.nrPorts) (hf : x'.freed = x.freed) : x.Bare x' :=
  ⟨hd, hs, hn, hf, fun p => by rw [he]⟩

theorem linkPirqPort (v : Nat) : x.Bare (x.linkPirqPort port v) := by
  refine ⟨?_, ?_, ?_, ?_, linkPirqPort_bare x port v⟩
  all_goals
    unfold Domain.linkPirqPort
    dsimp only
    split <;> rfl

theorem unlinkPirqPort (v : Nat) : x.Bare (x.unlinkPirqPort port v) := by
  refine ⟨?_, ?_, ?_, ?_, unlinkPirqPort_bare x port v⟩
  all_goals
    unfold Domain.unlinkPirqPort
    dsimp only
    split <;> split <;> rfl

theorem setPirq (pirq : Nat) : x.Bare (x.setPirq pirq port) := of_evtchn rfl rfl rfl rfl rfl

theorem clearVirq (hasVcpu : Nat → Bool) (virq : Nat) : x.Bare (x.clearVirq hasVcpu virq port) :=
  of_evtchn rfl rfl rfl rfl rfl

theorem view {α : Type} {f : Channel → Option α} (h : x.Bare x') (hf : ∀ c, f c = f c.bare) :
    x'.view f = x.view f := by
  refine view_congr h.nrPorts fun p => ?_
  rw [hf, h.bare, ← hf]

end Domain.Bare

/-! ## Channels of a dying domain -/

/-- Nothing is bound to the port. -/
def Channel.Closed (c : Channel) : Prop := c.state = .free ∨ c.state = .reserved

/-- What a CPU that waits for the lock of `d2` finds when it comes back. -/
def Channel.Waits (P : Platform) (d2 : Dom) (c : Channel) : Prop :=
  c.Closed ∨ (c.state = .unbound ∧ c.key = P.domainId d2) ∨
    (c.state = .interdomain ∧ c.remoteDom = d2)

/-- What can become of a channel of a dying domain. -/
structure Late (P : Platform) (c c' : Channel) : Prop where
  closed : c.Closed → c'.Closed
  consumerIsXen : c.consumerIsXen = false → c'.consumerIsXen = false
  waits : ∀ d2, c.Waits P d2 → c'.Waits P d2

variable {P : Platform}

theorem Late.refl (c : Channel) : Late P c c := ⟨id, id, fun _ => id⟩

theorem Late.trans {c c' c'' : Channel} (h : Late P c c') (h' : Late P c' c'') : Late P c c'' :=
  ⟨h'.closed ∘ h.closed, h'.consumerIsXen ∘ h.consumerIsXen,
    fun d2 => h'.waits d2 ∘ h.waits d2⟩

theorem Late.of_closed {c c' : Channel} (hc : c'.Closed)
    (hx : c.consumerIsXen = false → c'.consumerIsXen = false) : Late P c c' :=
  ⟨fun _ => hc, hx, fun _ _ => .inl hc⟩

/-- Only the vCPU, the flag and the list pointers change. -/
theorem Late.of_eq {c c' : Channel} (hs : c'.state = c.state) (hk : c'.key = c.key)
    (hr : c'.remoteDom = c.remoteDom)
    (hx : c.consumerIsXen = false → c'.consumerIsXen = false) : Late P c c' := by
  refine ⟨?_, hx, ?_⟩
  · unfold Channel.Closed
    rw [hs]
    exact id
  · intro d2
    unfold Channel.Waits Channel.Closed
    rw [hs, hk, hr]
    exact id

/-- The other end is closed. -/
theorem Late.unbind {c c' : Channel} (hc : c.state = .interdomain) (hs : c'.state = .unbound)
    (hk : c'.key = P.domainId c.remoteDom) (hx : c'.consumerIsXen = c.consumerIsXen) :
    Late P c c' := by
  refine ⟨?_, fun h => hx ▸ h, ?_⟩
  · rintro (h | h) <;> rw [hc] at h <;> cases h
  · rintro d2 ((h | h) | ⟨h, -⟩ | ⟨-, rfl⟩)
    · rw [hc] at h
      cases h
    · rw [hc] at h
      cases h
    · rw [hc] at h
      cases h
    · exact .inr (.inl ⟨hs, hk⟩)

theorem Late.bind {c c' : Channel} (hc : c.state = .unbound) (hs : c'.state = .interdomain)
    (hk : c.key = P.domainId c'.remoteDom) (hx : c'.consumerIsXen = c.consumerIsXen) :
    Late P c c' := by
  refine ⟨?_, fun h => hx ▸ h, ?_⟩
  · rintro (h | h) <;> rw [hc] at h <;> cases h
  · rintro d2 ((h | h) | ⟨-, h⟩ | ⟨h, -⟩)
    · rw [hc] at h
      cases h
    · rw [hc] at h
      cases h
    · -- domains with one identifier are one domain
      exact .inr (.inr ⟨hs, P.domainId_inj (hk.symm.trans h)⟩)
    · rw [hc] at h
      cases h

/-- No bucket of the table has been freed. -/
def Domain.Intact (x : Domain) : Prop := ∀ p, x.freed p = false

/-- A step that neither starts nor finishes the end of a domain. -/
structure Ages (P : Platform) (x x' : Domain) : Prop where
  intact : x.Intact → x'.Intact
  isDying : x'.isDying = x.isDying
  destroyed : x'.destroyed = x.destroyed
  nrPorts : x.isDying → x'.nrPorts = x.nrPorts
  late : x.isDying → ∀ port, Late P (x.evtchn port) (x'.evtchn port)

namespace Ages

variable {x x' x'' : Domain} {port : Port}

theorem refl (x : Domain) : Ages P x x := ⟨id, rfl, rfl, fun _ => rfl, fun _ _ => .refl _⟩

theorem trans (h : Ages P x x') (h' : Ages P x' x'') : Ages P x x'' where
  intact := h'.intact ∘ h.intact
  isDying := h'.isDying.trans h.isDying
  destroyed := h'.destroyed.trans h.destroyed
  nrPorts hd := (h'.nrPorts (h.isDying.trans hd)).trans (h.nrPorts hd)
  late hd p := (h.late hd p).trans (h'.late (h.isDying.trans hd) p)

theorem setChn {c : Channel} (hl : x.isDying → Late P (x.evtchn port) c) :
    Ages P x (x.setChn port c) where
  intact := id
  isDying := rfl
  destroyed := rfl
  nrPorts _ := rfl
  late hd p := by
    by_cases h : p = port
    · subst h
      rw [Domain.setChn_self]
      exact hl hd
    · rw [Domain.setChn_of_ne x h]
      exact .refl _

end Ages

/-! ## Steps that leave peers alone -/

structure Quiet (P : Platform) (x x' : Domain) : Prop extends Ages P x x' where
  peers : x'.view Channel.peer = x.view Channel.peer

namespace Quiet

variable {x x' x'' : Domain} {port : Port}

theorem refl (x : Domain) : Quiet P x x := ⟨.refl x, rfl⟩

theorem trans (h : Quiet P x x') (h' : Quiet P x' x'') : Quiet P x x'' :=
  ⟨h.toAges.trans h'.toAges, h'.peers.trans h.peers⟩

theorem of_bare (h : x.Bare x') : Quiet P x x' where
  intact hi p := (congrFun h.freed p).trans (hi p)
  isDying := h.isDying
  destroyed := h.destroyed
  nrPorts _ := h.nrPorts
  late _ port := by
    obtain ⟨hs, hx, -, hk, hr⟩ := Channel.of_bare (h.bare port)
    exact .of_eq hs hk hr fun h => hx.trans h
  peers := h.view fun _ => rfl

theorem setChn {c : Channel} (hp : c.peer = (x.evtchn port).peer)
    (hl : x.isDying → Late P (x.evtchn port) c) : Quiet P x (x.setChn port c) where
  toAges := .setChn hl
  peers := Domain.view_setChn_of_eq hp

theorem setChn_of_eq {c : Channel} (hs : c.state = (x.evtchn port).state)
    (hk : c.key = (x.evtchn port).key) (hr : c.remoteDom = (x.evtchn port).remoteDom)
    (hx : (x.evtchn port).consumerIsXen = false → c.consumerIsXen = false) :
    Quiet P x (x.setChn port c) := by
  refine setChn ?_ fun _ => .of_eq hs hk hr hx
  unfold Channel.peer
  rw [hs, hk, hr]

theorem freePort (h : (x.evtchn port).state ≠ .interdomain) : Quiet P x (x.freePort port) := by
  refine setChn ?_ fun _ => .of_closed (.inl rfl) id
  rw [Channel.peer_eq_none h]
  rfl

end Quiet

/-! ## Operations on one domain -/

namespace Domain

/-- `evtchn_bind_pirq` takes its entry back. -/
theorem setPirq_back {x : Domain} {pirq : Nat} (port : Port) (hz : x.pirqToEvtchn pirq = 0) :
    (x.setPirq pirq port).setPirq pirq 0 = x := by
  unfold setPirq
  dsimp only
  rw [Function.update_idem, Function.update_eq_self_iff.mpr hz.symm]

theorem findFree_some {evtchn : Port → Channel} {n start port : Nat}
    (h : findFree evtchn n start = some port) :
    start ≤ port ∧ port < start + n ∧ (evtchn port).state = .free := by
  induction n generalizing start with
  | zero => cases h
  | succ n ih =>
    unfold findFree at h
    split at h
    · next hf =>
      cases h
      exact ⟨le_rfl, by omega, hf⟩
    · have := ih h
      exact ⟨by omega, by omega, this.2.2⟩

theorem findFree_first {evtchn : Port → Channel} {n start port : Nat}
    (h : findFree evtchn n start = some port) {p : Nat} (hlo : start ≤ p) (hp : p < port) :
    (evtchn p).state ≠ .free := by
  induction n generalizing start with
  | zero => cases h
  | succ n ih =>
    unfold findFree at h
    split at h
    · cases h
      omega
    · next hf =>
      by_cases hps : p = start
      · rwa [hps]
      · exact ih h (by omega)

theorem findFree_none {evtchn : Port → Channel} {n start : Nat} (h : findFree evtchn n start = none)
    {p : Nat} (hlo : start ≤ p) (hp : p < start + n) : (evtchn p).state ≠ .free := by
  induction n generalizing start with
  | zero => omega
  | succ n ih =>
    unfold findFree at h
    split at h
    · cases h
    · next hf =>
      by_cases hps : p = start
      · rwa [hps]
      · exact ih h (by omega) (by omega)

section FreePort

variable {maxEvtchns port : Nat} {a : Answers} {x y : Domain} {r : Except Errno Port}

theorem freeLabels_eq (x : Domain) (port : Port) (j : Nat) :
    ∃ l, x.freeLabels port j = { x with ssid := l } := by
  induction j with
  | zero => exact ⟨_, rfl⟩
  | succ j ih =>
    obtain ⟨l, hl⟩ := ih
    unfold freeLabels
    rw [hl]
    exact ⟨_, rfl⟩

/-- The labels leave the channels as they are, and the bucket where it is. -/
theorem labelBucket_cases (label : Nat → Bool) (port : Port) (n i : Nat) (x : Domain) :
    ((∀ j, i ≤ j → j < i + n → label j = true) ∧
        ∃ l, labelBucket label port n i x = (.ok port, { x with ssid := l })) ∨
      ((∃ j, i ≤ j ∧ j < i + n ∧ label j = false) ∧ ∃ l,
        labelBucket label port n i x = (.error .enomem, { x with ssid := l }.freeBucket port)) := by
  induction n generalizing i x with
  | zero => exact .inl ⟨fun j hlo hhi => absurd hhi (by omega), _, rfl⟩
  | succ n ih =>
    unfold labelBucket
    cases hi : label i with
    | true =>
      rw [if_pos rfl]
      rcases ih (i + 1) (x.setLabel (port + i) true) with ⟨hall, hout⟩ | ⟨⟨j, hlo, hhi, hj⟩, hout⟩
      · refine .inl ⟨?_, hout⟩
        intro j hlo hhi
        by_cases hj : j = i
        · rwa [hj]
        · exact hall j (by omega) (by omega)
      · exact .inr ⟨⟨j, by omega, by omega, hj⟩, hout⟩
    | false =>
      rw [if_neg Bool.false_ne_true]
      obtain ⟨l, hl⟩ := freeLabels_eq x port i
      rw [hl]
      exact .inr ⟨⟨i, le_rfl, by omega, hi⟩, l, rfl⟩

/-- The channel is the first one that is free. -/
def Finds (x : Domain) (port : Port) : Prop :=
  x.isDying = false ∧ port < x.nrPorts ∧ (x.evtchn port).state = .free ∧
    ∀ p < port, (x.evtchn p).state ≠ .free

/-- A new bucket, with some labels. -/
def newBucket (x : Domain) (l : Port → Bool) : Domain := { x.addBucket with ssid := l }

theorem getFreePort_cases (maxEvtchns : Nat) (a : Answers) (x : Domain) :
    (¬x.Adds maxEvtchns a ∧ (((∃ e, x.getFreePort maxEvtchns a = (.error e, x)) ∧ ∀ port, ¬x.Finds port) ∨
        ∃ port, x.getFreePort maxEvtchns a = (.ok port, x) ∧ x.Finds port)) ∨
      (x.Adds maxEvtchns a ∧ ∃ l,
        ((a.Labels ∧ x.getFreePort maxEvtchns a = (.ok x.nrPorts, x.newBucket l)) ∨
          (¬a.Labels ∧
            x.getFreePort maxEvtchns a = (.error .enomem, (x.newBucket l).freeBucket x.nrPorts)))) := by
  unfold getFreePort
  by_cases hd : x.isDying = true
  · rw [if_pos hd]
    refine .inl ⟨fun h => absurd (hd.symm.trans h.alive) nofun, .inl ⟨⟨_, rfl⟩, ?_⟩⟩
    intro port hfinds
    exact absurd (hd.symm.trans hfinds.1) nofun
  rw [if_neg hd]
  have halive : x.isDying = false := by simpa using hd
  cases hf : findFree x.evtchn x.nrPorts 0 with
  | some port =>
    obtain ⟨-, hlt, hfree⟩ := findFree_some hf
    rw [Nat.zero_add] at hlt
    refine .inl ⟨fun h => h.full port hlt hfree, .inr ⟨port, rfl, halive, hlt, hfree, ?_⟩⟩
    intro p hp
    exact findFree_first hf (Nat.zero_le p) hp
  | none =>
    have hfull : ∀ p < x.nrPorts, (x.evtchn p).state ≠ .free := by
      intro p hp
      exact findFree_none hf (Nat.zero_le p) (by rwa [Nat.zero_add])
    have hnone : ∀ port, ¬x.Finds port := fun port h => hfull port h.2.1 h.2.2.1
    dsimp only
    by_cases hm : x.nrPorts = maxEvtchns
    · rw [if_pos hm]
      exact .inl ⟨fun h => h.room hm, .inl ⟨⟨_, rfl⟩, hnone⟩⟩
    rw [if_neg hm]
    cases hal : a.alloc with
    | false =>
      rw [if_pos rfl]
      exact .inl ⟨fun h => absurd (hal.symm.trans h.alloc) nofun, .inl ⟨⟨_, rfl⟩, hnone⟩⟩
    | true =>
      rw [if_neg nofun]
      refine .inr ⟨⟨halive, hfull, hm, hal⟩, ?_⟩
      rcases labelBucket_cases a.label x.nrPorts evtchnsPerBucket 0 x.addBucket with
        ⟨hall, l, hout⟩ | ⟨⟨j, -, hj, hno⟩, l, hout⟩
      · refine ⟨l, .inl ⟨?_, hout⟩⟩
        intro i hi
        exact hall i (Nat.zero_le i) (by omega)
      · refine ⟨l, .inr ⟨?_, hout⟩⟩
        intro h
        exact absurd ((h j (by omega)).symm.trans hno) nofun

/-- Nothing has changed but for a new bucket, and that has been freed only if a label is missing. -/
theorem getFreePort_grown (h : x.getFreePort maxEvtchns a = (r, y)) :
    y = x ∨ x.isDying = false ∧ ∃ l, y = x.newBucket l ∨
      (¬x.Labelled maxEvtchns a ∧ y = (x.newBucket l).freeBucket x.nrPorts) := by
  rcases getFreePort_cases maxEvtchns a x with
    ⟨-, ⟨⟨e, hout⟩, -⟩ | ⟨port, hout, -⟩⟩ | ⟨hadds, l, ⟨-, hout⟩ | ⟨hno, hout⟩⟩
  all_goals rw [hout, Prod.mk.injEq] at h
  · exact .inl h.2.symm
  · exact .inl h.2.symm
  · exact .inr ⟨hadds.alive, l, .inl h.2.symm⟩
  · exact .inr ⟨hadds.alive, l, .inr ⟨fun hl => hno (hl hadds), h.2.symm⟩⟩

theorem newBucket_free (x : Domain) (l : Port → Bool) :
    x.nrPorts < (x.newBucket l).nrPorts ∧ ((x.newBucket l).evtchn x.nrPorts).state = .free := by
  refine ⟨Nat.lt_add_of_pos_right (by decide), ?_⟩
  show (if x.nrPorts ≤ x.nrPorts then Channel.zero else _).state = .free
  rw [if_pos le_rfl]
  rfl

theorem getFreePort_ok (h : x.getFreePort maxEvtchns a = (.ok port, y)) :
    x.isDying = false ∧ (y = x ∨ ∃ l, y = x.newBucket l) ∧ port < y.nrPorts ∧
      (y.evtchn port).state = .free := by
  rcases getFreePort_cases maxEvtchns a x with
    ⟨-, ⟨⟨e, hout⟩, -⟩ | ⟨port', hout, hd, hlt, hfree, -⟩⟩ | ⟨hadds, l, ⟨-, hout⟩ | ⟨-, hout⟩⟩
  all_goals rw [hout] at h
  · cases h
  · cases h
    exact ⟨hd, .inl rfl, hlt, hfree⟩
  · cases h
    obtain ⟨hlt, hfree⟩ := x.newBucket_free l
    exact ⟨hadds.alive, .inr ⟨l, rfl⟩, hlt, hfree⟩
  · cases h

end FreePort

end Domain

theorem Quiet.newBucket {x : Domain} (hd : x.isDying = false) (l : Port → Bool) :
    Quiet P x (x.newBucket l) where
  intact h p := by
    show (if x.nrPorts ≤ p then false else x.freed p) = false
    rw [h p, ite_self]
  isDying := rfl
  destroyed := rfl
  nrPorts h := by
    rw [hd] at h
    cases h
  peers := Domain.view_addBucket rfl
  late h := by
    rw [hd] at h
    cases h

section GetFreePort

variable {maxEvtchns : Nat} {a : Answers} {x y : Domain} {port : Port} {r : Except Errno Port}

theorem Quiet.getFreePort (hl : x.Labelled maxEvtchns a) (h : x.getFreePort maxEvtchns a = (r, y)) :
    Quiet P x y := by
  rcases Domain.getFreePort_grown h with rfl | ⟨hd, l, rfl | ⟨hno, -⟩⟩
  · exact .refl _
  · exact .newBucket hd l
  · exact absurd hl hno

/-- A free port of a domain that is not dying is bound. -/
theorem Quiet.bindFree {c : Channel} (h : x.getFreePort maxEvtchns a = (.ok port, y))
    (hc : c.state ≠ .interdomain) : Quiet P x (y.setChn port c) := by
  obtain ⟨hd, hy, -, hf⟩ := Domain.getFreePort_ok h
  have hq : Quiet P x y := by
    rcases hy with rfl | ⟨l, rfl⟩
    · exact .refl _
    · exact .newBucket hd l
  refine hq.trans (.setChn ?_ ?_)
  · rw [Channel.peer_eq_none hc, Channel.peer_eq_none]
    rw [hf]
    simp
  · intro hd'
    rw [hq.isDying, hd] at hd'
    cases hd'

end GetFreePort

/-- What the operations on one domain do, one thing after the other, stays within `R`;
`L` is asked of what `get_free_port` is answered. -/
structure Edits (L : Domain → Nat → Answers → Prop) (R : Domain → Domain → Prop) : Prop where
  trans : ∀ {x y z}, R x y → R y z → R x z
  bare : ∀ {x y}, x.Bare y → R x y
  port : ∀ {x y m a r}, L x m a → x.getFreePort m a = (r, y) → R x y
  bind : ∀ {x y m a port c}, x.getFreePort m a = (.ok port, y) → c.state ≠ .interdomain →
    R x (y.setChn port c)
  rebind : ∀ x port vcpu, R x (x.setChn port { x.evtchn port with notifyVcpuId := vcpu })

namespace Edits

variable {L : Domain → Nat → Answers → Prop} {R : Domain → Domain → Prop} {maxEvtchns nrPirqs : Nat}
  {a : Answers} {xsm isHvm permitted bound : Bool} {hasVcpu : Nat → Bool}
  {remoteDomid virq pirq vcpu : Nat} {port : Port} {x : Domain}

theorem refl (e : Edits L R) (x : Domain) : R x x := e.bare (.refl x)

theorem withPort (e : Edits L R) {go : Port → Domain → Except Errno Port × Domain} (hl : L x maxEvtchns a)
    (hgo : ∀ port y, x.getFreePort maxEvtchns a = (.ok port, y) → R x (go port y).2) :
    R x (x.withPort maxEvtchns a go).2 := by
  unfold Domain.withPort
  split
  · next h => exact e.port hl h
  · next h => exact hgo _ _ h

theorem allocUnbound (e : Edits L R) (hl : L x maxEvtchns a) :
    R x (x.allocUnbound maxEvtchns a xsm remoteDomid).2 := by
  refine e.withPort hl fun port y h => ?_
  split
  · exact e.port hl h
  · exact e.bind h (by simp)

theorem allocUnboundXen (e : Edits L R) (hl : L x maxEvtchns a) :
    R x (x.allocUnboundXen maxEvtchns a vcpu remoteDomid).2 :=
  e.withPort hl fun _ _ h => e.bind h (by simp)

theorem bindVirq (e : Edits L R) (hl : x.VirqFree hasVcpu virq vcpu → L x maxEvtchns a) :
    R x (x.bindVirq maxEvtchns a hasVcpu virq vcpu).2 := by
  unfold Domain.bindVirq
  split
  · exact e.refl x
  next hq =>
  split
  · exact e.refl x
  next hg =>
  split
  · exact e.refl x
  next hv =>
  split
  · exact e.refl x
  next hz =>
  have hfree : x.VirqFree hasVcpu virq vcpu := ⟨Nat.not_le.mp hq, hg, by simpa using hv, not_not.mp hz⟩
  refine e.withPort (hl hfree) fun port y h => ?_
  have hbound : R x (y.setChn port
      { y.evtchn port with state := .virq, notifyVcpuId := vcpu, key := virq }) :=
    e.bind h (by simp)
  exact e.trans hbound (e.bare (.of_evtchn rfl rfl rfl rfl rfl))

theorem bindIpi (e : Edits L R) (hl : hasVcpu vcpu = true → L x maxEvtchns a) :
    R x (x.bindIpi maxEvtchns a hasVcpu vcpu).2 := by
  unfold Domain.bindIpi
  split
  · exact e.refl x
  · next hv => exact e.withPort (hl (by simpa using hv)) fun _ _ h => e.bind h (by simp)

theorem bindPirq (e : Edits L R) (hl : x.PirqFree nrPirqs isHvm permitted pirq → L x maxEvtchns a) :
    R x (x.bindPirq maxEvtchns nrPirqs a isHvm permitted bound pirq).2 := by
  unfold Domain.bindPirq
  split
  · exact e.refl x
  next hn =>
  split
  · exact e.refl x
  next hp =>
  split
  · exact e.refl x
  next hz =>
  have hfree := hl ⟨Nat.not_le.mp hn, hp, not_not.mp hz⟩
  refine e.withPort hfree fun port y h => ?_
  dsimp only
  split
  · exact e.trans (e.port hfree h) (e.bare (.of_evtchn rfl rfl rfl rfl rfl))
  · have hbound : R x (y.setChn port { y.evtchn port with state := .pirq, key := pirq }) :=
      e.bind h (by simp)
    have hset : (y.setChn port { y.evtchn port with state := .pirq, key := pirq }).Bare
        ((y.setPirq pirq port).setChn port { y.evtchn port with state := .pirq, key := pirq }) :=
      .of_evtchn rfl rfl rfl rfl rfl
    exact e.trans hbound (e.bare (hset.trans (.linkPirqPort 0)))

theorem bindVcpu (e : Edits L R) : R x (x.bindVcpu hasVcpu port vcpu).2 := by
  unfold Domain.bindVcpu
  dsimp only
  split
  · exact e.refl x
  split
  · exact e.refl x
  split
  · exact e.refl x
  split
  · split
    · exact e.rebind x port vcpu
    · exact e.refl x
  · exact e.rebind x port vcpu
  · exact e.rebind x port vcpu
  · split
    · exact e.refl x
    · exact e.trans (e.trans (e.bare (.unlinkPirqPort _)) (e.rebind _ port vcpu)) (e.bare (.linkPirqPort vcpu))
  iterate 3 exact e.refl x

end Edits

theorem Quiet.edits : Edits (fun x m a => x.Labelled m a) (Quiet P) where
  trans := .trans
  bare := .of_bare
  port := .getFreePort
  bind := .bindFree
  rebind _ _ _ := .setChn_of_eq rfl rfl rfl id

/-! ## Operations on two domains -/

namespace World

def Ages (P : Platform) (w w' : World) : Prop := ∀ d, Evtchn.Ages P (w.dom d) (w'.dom d)

theorem Ages.trans {w w' w'' : World} (h : w.Ages P w') (h' : w'.Ages P w'') : w.Ages P w'' :=
  fun d => (h d).trans (h' d)

theorem Ages.setDom {w : World} {d : Dom} {x : Domain} (h : Evtchn.Ages P (w.dom d) x) :
    w.Ages P (w.setDom d x) := by
  intro d'
  by_cases hd : d' = d
  · subst hd
    rw [setDom_self]
    exact h
  · rw [setDom_of_ne w hd]
    exact .refl _

theorem peer_of_quiet {w : World} {d : Dom} {x : Domain} (h : Quiet P (w.dom d) x) :
    (w.setDom d x).peer = w.peer :=
  view_setDom_of_eq h.peers

/-- The channels are the same. -/
theorem peer_setDom_of_eq {w : World} {d : Dom} {x : Domain} (he : x.evtchn = (w.dom d).evtchn)
    (hn : x.nrPorts = (w.dom d).nrPorts) : (w.setDom d x).peer = w.peer :=
  view_setDom_of_eq (Domain.view_congr hn fun p => by rw [he])

/-- One domain has changed, and no peer with it. -/
theorem Ages.of_quiet {w : World} {d : Dom} {x : Domain} (h : Quiet P (w.dom d) x) :
    w.Ages P (w.setDom d x) :=
  .setDom h.toAges

end World

open Pairing

theorem World.peer_eq_none {w : World} {d : Dom} {port : Port}
    (h : (w.chn d port).state ≠ .interdomain) : w.peer (d, port) = none := by
  cases hp : w.peer (d, port) with
  | none => rfl
  | some q => exact absurd (World.peer_eq_some.mp hp).2.1 h

theorem World.chn_setChn_of_ne {w : World} {d d' : Dom} {port port' : Port} {c : Channel}
    (h : (d', port') ≠ (d, port)) :
    (w.setDom d ((w.dom d).setChn port c)).chn d' port' = w.chn d' port' := by
  unfold World.chn
  by_cases hd : d' = d
  · subst hd
    rw [World.setDom_self, Domain.setChn_of_ne]
    rintro rfl
    exact h rfl
  · rw [World.setDom_of_ne w hd]

theorem World.nrPorts_setChn (w : World) (d d' : Dom) (port : Port) (c : Channel) :
    ((w.setDom d ((w.dom d).setChn port c)).dom d').nrPorts = (w.dom d').nrPorts := by
  by_cases hd : d' = d
  · subst hd
    rw [World.setDom_self, Domain.setChn_nrPorts]
  · rw [World.setDom_of_ne w hd]

section Connect

variable {w : World} {ld rd : Dom} {lport rport : Port} {c c' : Channel}

/-- Two channels become the ends of one. -/
theorem World.peer_connect (hl : lport < (w.dom ld).nrPorts) (hr : rport < (w.dom rd).nrPorts)
    (hc : c.peer = some (rd, rport)) (hc' : c'.peer = some (ld, lport)) :
    let w' := w.setDom ld ((w.dom ld).setChn lport c)
    (w'.setDom rd ((w'.dom rd).setChn rport c')).peer = pair w.peer (ld, lport) (rd, rport) := by
  intro w'
  have hr' : rport < (w'.dom rd).nrPorts := by
    rw [World.nrPorts_setChn]
    exact hr
  rw [World.peer_setChn w' rd hr', World.peer_setChn w ld hl, hc, hc']
  rfl

/-- The domain that binds is not dying, and the channel of the other one waits for it. -/
theorem World.ages_connect (hl : (w.dom ld).isDying = false) (hne : (rd, rport) ≠ (ld, lport))
    (hc : Late P (w.chn rd rport) c') :
    let w' := w.setDom ld ((w.dom ld).setChn lport c)
    w.Ages P (w'.setDom rd ((w'.dom rd).setChn rport c')) := by
  intro w'
  have hlocal : w.Ages P w' := by
    refine .setDom (.setChn ?_)
    intro hd
    rw [hl] at hd
    cases hd
  refine hlocal.trans (.setDom (.setChn ?_))
  intro _
  show Late P (w'.chn rd rport) c'
  rw [World.chn_setChn_of_ne hne]
  exact hc

end Connect

/-- The binding domain has a free port, and the remote one waits for it. -/
theorem evtchnBindInterdomain_peer (P : Platform) (a : Answers) (xsm : Bool) (ld rd : Dom)
    (rport : Port) (w : World) (hl : (w.dom ld).Labelled (P.maxEvtchns ld) a) {w' : World}
    (hw' : (evtchnBindInterdomain P a xsm ld rd rport w).2 = w') :
    w'.calls = w.calls ∧ w.Ages P w' ∧
    (w'.peer = w.peer ∨ ∃ lport, w.peer (ld, lport) = none ∧ w.peer (rd, rport) = none ∧
      w'.peer = pair w.peer (ld, lport) (rd, rport)) := by
  unfold evtchnBindInterdomain at hw'
  split at hw'
  · next hp =>
    subst hw'
    have hq := Quiet.getFreePort (P := P) hl hp
    exact ⟨rfl, .of_quiet hq, .inl (World.peer_of_quiet hq)⟩
  next lport y hp =>
  have hq : Quiet P (w.dom ld) y := .getFreePort hl hp
  obtain ⟨hnd, -, hlport, hfree⟩ := Domain.getFreePort_ok hp
  have hages : w.Ages P (w.setDom ld y) := .of_quiet hq
  have hpeer : (w.setDom ld y).peer = w.peer := World.peer_of_quiet hq
  dsimp only at hw'
  split at hw'
  · subst hw'
    exact ⟨rfl, hages, .inl hpeer⟩
  next hvalid =>
  split at hw'
  · subst hw'
    exact ⟨rfl, hages, .inl hpeer⟩
  next hwait =>
  split at hw'
  · subst hw'
    exact ⟨rfl, hages, .inl hpeer⟩
  rw [not_or, not_not, not_not] at hwait
  obtain ⟨hrchn, hkey⟩ := hwait
  have hlfree : ((w.setDom ld y).chn ld lport).state = .free := by
    unfold World.chn
    rw [World.setDom_self]
    exact hfree
  -- the two ports are different: one is free, the other unbound
  have hne : (rd, rport) ≠ (ld, lport) := by
    intro h
    cases h
    rw [hrchn] at hlfree
    cases hlfree
  subst hw'
  refine ⟨rfl, hages.trans (World.ages_connect ?_ hne ?_), .inr ⟨lport, ?_, ?_, ?_⟩⟩
  · rw [World.setDom_self]
    exact hq.isDying.trans hnd
  · refine .bind hrchn rfl hkey ?_
    rw [World.chn_setChn_of_ne hne]
  · rw [← hpeer]
    exact World.peer_eq_none (by simp [hlfree])
  · rw [← hpeer]
    exact World.peer_eq_none (by simp [hrchn])
  · rw [← hpeer]
    refine World.peer_connect ?_ (Nat.lt_of_not_le hvalid) rfl rfl
    rw [World.setDom_self]
    exact hlport

/-! ## Closing -/

/-- With the locks of both domains held the other end is found, and the pair separated. -/
theorem closePeer_done {d1 d2 : Dom} {port1 : Port} {w : World} (hm : Mutual w.peer)
    (hp : port1 < (w.dom d1).nrPorts) (hs : (w.chn d1 port1).state = .interdomain)
    (hd : (w.chn d1 port1).remoteDom = d2) :
    ∃ w', closePeer P d1 port1 d2 w = .done (.ok ()) w' ∧ w'.calls = w.calls ∧ w.Ages P w' ∧
      w'.peer = separate w.peer (d1, port1) (d2, (w.chn d1 port1).key) ∧
      (w'.chn d1 port1).Closed := by
  have hpeer : w.peer (d1, port1) = some (d2, (w.chn d1 port1).key) :=
    World.peer_eq_some.mpr ⟨hp, hs, by rw [hd]⟩
  obtain ⟨hp2, hs2, hd2⟩ := World.peer_eq_some.mp (hm _ _ hpeer)
  have hd2' : (w.chn d2 (w.chn d1 port1).key).remoteDom = d1 := congrArg Prod.fst hd2
  unfold closePeer
  dsimp only
  rw [if_neg (Nat.not_le.mpr hp2), if_neg (not_not.mpr hs2), if_neg (not_not.mpr hd2')]
  refine ⟨_, rfl, rfl, ?_, ?_, ?_⟩
  · refine World.Ages.trans (.setDom (.setChn fun _ => ?_)) (.setDom (.setChn fun _ => ?_))
    · exact .unbind hs2 rfl (congrArg P.domainId hd2'.symm) rfl
    · exact .of_closed (.inl rfl) id
  · unfold Domain.freePort
    rw [World.peer_setChn, World.peer_setChn w d2 hp2]
    · rfl
    · rw [World.nrPorts_setChn]
      exact hp
  · unfold World.chn Domain.freePort
    rw [World.setDom_self, Domain.setChn_self]
    exact .inl rfl

/-- A part of `__evtchn_close` meets no `BUG`. It leaves peers symmetric, and the
port closed unless the channel is attached to Xen or has been given to another
peer in the window. -/
theorem evtchnClose_peer (P : Platform) (d1 : Dom) (port1 : Port) (seen : Option Dom) {w : World}
    (hm : Mutual w.peer) (hg : ∀ d, (w.dom d).destroyed → (w.dom d).nrPorts = 0) :
    (∃ rc w', evtchnClose P d1 port1 seen w = .done rc w' ∧ w'.calls = w.calls ∧ w.Ages P w' ∧
      Mutual w'.peer ∧
      (port1 < (w.dom d1).nrPorts → (w.chn d1 port1).consumerIsXen = false →
        (∀ d2, seen = some d2 → (w.chn d1 port1).Waits P d2) → (w'.chn d1 port1).Closed)) ∨
    ∃ d2, evtchnClose P d1 port1 seen w = .window d2 ∧ (w.chn d1 port1).Waits P d2 := by
  -- a channel that has no peer is freed
  have hfreed {x : Domain} (hq : Quiet P (w.dom d1) x)
      (hx : (x.evtchn port1).state ≠ .interdomain) :
      let w' := w.setDom d1 (x.freePort port1)
      w'.calls = w.calls ∧ w.Ages P w' ∧ Mutual w'.peer ∧ (w'.chn d1 port1).Closed := by
    intro w'
    have hq' : Quiet P (w.dom d1) (x.freePort port1) := hq.trans (.freePort hx)
    refine ⟨rfl, .of_quiet hq', ?_, ?_⟩
    · rw [World.peer_of_quiet hq']
      exact hm
    · show ((w.setDom d1 (x.freePort port1)).dom d1).evtchn port1 |>.Closed
      rw [World.setDom_self]
      unfold Domain.freePort
      rw [Domain.setChn_self]
      exact .inl rfl
  unfold evtchnClose
  dsimp only
  split
  · next hp =>
    exact .inl ⟨_, w, rfl, rfl, fun _ => .refl _, hm, fun h => absurd hp (Nat.not_le.mpr h)⟩
  next hp =>
  have hp' : port1 < (w.dom d1).nrPorts := Nat.lt_of_not_le hp
  split
  · next hx =>
    refine .inl ⟨_, w, rfl, rfl, fun _ => .refl _, hm, fun _ h => ?_⟩
    rw [World.chn, hx] at h
    cases h
  split
  · next hs => exact .inl ⟨_, w, rfl, rfl, fun _ => .refl _, hm, fun _ _ _ => .inl hs⟩
  · next hs => exact .inl ⟨_, w, rfl, rfl, fun _ => .refl _, hm, fun _ _ _ => .inr hs⟩
  · next hs =>
    obtain ⟨h1, h2, h3, h4⟩ := hfreed (.refl _) (by simp [hs])
    exact .inl ⟨_, _, rfl, h1, h2, h3, fun _ _ _ => h4⟩
  · next hs =>
    obtain ⟨h1, h2, h3, h4⟩ := hfreed (.refl _) (by simp [hs])
    exact .inl ⟨_, _, rfl, h1, h2, h3, fun _ _ _ => h4⟩
  · next hs =>
    have hstate := congrArg Channel.state (Domain.unlinkPirqPort_bare
      ((w.dom d1).setPirq ((w.dom d1).evtchn port1).key 0) port1
      ((w.dom d1).evtchn port1).notifyVcpuId port1)
    obtain ⟨h1, h2, h3, h4⟩ := hfreed (.of_bare ((Domain.Bare.setPirq _).trans (.unlinkPirqPort _)))
      (hstate.trans_ne (hs.trans_ne (by simp)))
    exact .inl ⟨_, _, rfl, h1, h2, h3, fun _ _ _ => h4⟩
  · next hs =>
    have hq : (w.dom d1).Bare ((w.dom d1).clearVirq (P.hasVcpu d1) ((w.dom d1).evtchn port1).key port1) :=
      .clearVirq ..
    obtain ⟨h1, h2, h3, h4⟩ := hfreed (.of_bare hq) (hs.trans_ne (by simp))
    exact .inl ⟨_, _, rfl, h1, h2, h3, fun _ _ _ => h4⟩
  · next hs =>
    -- the peer is a valid channel, so its domain still stands
    have hclose {d2 : Dom} (hd : (w.chn d1 port1).remoteDom = d2) :
        ∃ rc w', closePeer P d1 port1 d2 w = .done rc w' ∧ w'.calls = w.calls ∧ w.Ages P w' ∧
          Mutual w'.peer ∧ (w'.chn d1 port1).Closed := by
      obtain ⟨w', h0, h1, h2, h3, h4⟩ := closePeer_done (P := P) hm hp' hs hd
      refine ⟨_, w', h0, h1, h2, ?_, h4⟩
      rw [h3]
      exact hm.separate (World.peer_eq_some.mpr ⟨hp', hs, by rw [hd]⟩)
    split
    · split
      · next hdes =>
        have hpeer : w.peer (d1, port1) = some _ := World.peer_eq_some.mpr ⟨hp', hs, rfl⟩
        have hvalid := (World.peer_eq_some.mp (hm _ _ hpeer)).1
        have hzero := hg _ hdes
        change _ < (w.dom ((w.dom d1).evtchn port1).remoteDom).nrPorts at hvalid
        rw [hzero] at hvalid
        exact absurd hvalid (Nat.not_lt_zero _)
      · split
        · exact .inr ⟨_, rfl, .inr (.inr ⟨hs, rfl⟩)⟩
        · obtain ⟨rc, w', h0, h1, h2, h3, h4⟩ := hclose rfl
          exact .inl ⟨rc, w', h0, h1, h2, h3, fun _ _ _ => h4⟩
    · next d2 =>
      split
      · next hd =>
        refine .inl ⟨_, w, rfl, rfl, fun _ => .refl _, hm, fun _ _ hw => ?_⟩
        -- whoever waits finds the peer it has seen
        rcases hw d2 rfl with h | ⟨h, -⟩ | ⟨-, h⟩
        · exact h
        · rw [World.chn, hs] at h
          cases h
        · exact absurd h.symm hd
      · next hd =>
        obtain ⟨rc, w', h0, h1, h2, h3, h4⟩ := hclose (not_not.mp hd).symm
        exact .inl ⟨rc, w', h0, h1, h2, h3, fun _ _ _ => h4⟩

/-- What a part of `__evtchn_close` that is done has done: nothing, or it has freed the
port, of one domain or of two. -/
theorem evtchnClose_cases {d : Dom} {port : Port} {seen : Option Dom} {rc : Except Errno Unit}
    {w w' : World} (hout : evtchnClose P d port seen w = .done rc w') :
    (∃ e, rc = .error e ∧ w' = w) ∨ (rc = .ok () ∧ port < (w.dom d).nrPorts ∧
      ((∃ x, (w.dom d).Bare x ∧ w' = w.setDom d (x.freePort port) ∧ (w.chn d port).state ≠ .reserved) ∨
        ((w.chn d port).state = .interdomain ∧ ∃ d2, closePeer P d port d2 w = .done rc w'))) := by
  unfold evtchnClose at hout
  dsimp only at hout
  split at hout
  · cases hout
    exact .inl ⟨_, rfl, rfl⟩
  next hn =>
  have hn' : port < (w.dom d).nrPorts := Nat.lt_of_not_le hn
  have hpeer {d2 : Dom} (hs : (w.chn d port).state = .interdomain)
      (hp : closePeer P d port d2 w = .done rc w') :
      rc = .ok () ∧ port < (w.dom d).nrPorts ∧ ((∃ x, (w.dom d).Bare x ∧
        w' = w.setDom d (x.freePort port) ∧ (w.chn d port).state ≠ .reserved) ∨
          ((w.chn d port).state = .interdomain ∧ ∃ d2, closePeer P d port d2 w = .done rc w')) := by
    refine ⟨?_, hn', .inr ⟨hs, d2, hp⟩⟩
    unfold closePeer at hp
    dsimp only at hp
    split at hp
    · cases hp
    split at hp
    · cases hp
    split at hp
    · cases hp
    cases hp
    rfl
  split at hout
  · cases hout
    exact .inl ⟨_, rfl, rfl⟩
  split at hout
  · cases hout
    exact .inl ⟨_, rfl, rfl⟩
  · cases hout
    exact .inl ⟨_, rfl, rfl⟩
  · next hs =>
    cases hout
    exact .inr ⟨rfl, hn', .inl ⟨_, .refl _, rfl, by simp [World.chn, hs]⟩⟩
  · next hs =>
    cases hout
    exact .inr ⟨rfl, hn', .inl ⟨_, .refl _, rfl, by simp [World.chn, hs]⟩⟩
  · next hs =>
    cases hout
    refine .inr ⟨rfl, hn', .inl ⟨_, ?_, rfl, by simp [World.chn, hs]⟩⟩
    exact (Domain.Bare.setPirq _).trans (.unlinkPirqPort _)
  · next hs =>
    cases hout
    exact .inr ⟨rfl, hn', .inl ⟨_, .clearVirq _ _, rfl, by simp [World.chn, hs]⟩⟩
  · next hs =>
    split at hout
    · split at hout
      · cases hout
      · split at hout
        · cases hout
        · exact .inr (hpeer hs hout)
    · split at hout
      · cases hout
        exact .inl ⟨_, rfl, rfl⟩
      · exact .inr (hpeer hs hout)

/-- The calls under way are left alone. -/
theorem evtchnClose_calls {d : Dom} {port : Port} {seen : Option Dom} {rc : Except Errno Unit}
    {w w' : World} (hout : evtchnClose P d port seen w = .done rc w') : w'.calls = w.calls := by
  rcases evtchnClose_cases hout with ⟨e, -, rfl⟩ | ⟨-, -, ⟨x, -, rfl, -⟩ | ⟨-, d2, hp⟩⟩
  · rfl
  · rfl
  · unfold closePeer at hp
    dsimp only at hp
    split at hp
    · cases hp
    split at hp
    · cases hp
    split at hp
    · cases hp
    cases hp
    rfl

/-! ## The invariant -/

/-- The call is an `evtchn_destroy` of the domain. -/
def Call.Destroys (d : Dom) : Call → Prop
  | .destroy d' _ | .destroyClose d' _ _ => d' = d
  | .close .. | .reset .. | .freeXen .. => False

/-- The ports that `evtchn_destroy` has passed are closed. -/
def World.Swept (w : World) (d : Dom) (i : Port) : Prop :=
  (w.dom d).isDying ∧ ∀ port < i, port < (w.dom d).nrPorts → (w.chn d port).Closed

/-- What a call under way relies on. -/
def Call.Ok (P : Platform) (w : World) : Call → Prop
  | .destroy d i => w.Swept d i
  | .destroyClose d i seen =>
      w.Swept d i ∧ (w.chn d i).consumerIsXen = false ∧
        ∀ d2, seen = some d2 → (w.chn d i).Waits P d2
  | .close .. | .reset .. | .freeXen .. => True

/-- `evtchn_destroy` of the domain is under way. -/
def World.Destroying (w : World) (d : Dom) : Prop := ∃ t c, w.calls t = some c ∧ c.Destroys d

structure Inv (P : Platform) (w : World) : Prop where
  intact : ∀ d, (w.dom d).Intact
  peers : Mutual w.peer
  gone : ∀ d, (w.dom d).destroyed → (w.dom d).isDying ∧ (w.dom d).nrPorts = 0
  dead : ∀ d, (w.dom d).isDying → (w.dom d).nrPorts = 0 ∨ w.Destroying d
  calls : ∀ t c, w.calls t = some c → c.Ok P w

theorem World.Swept.ages {w w' : World} (ha : w.Ages P w') {d : Dom} {i : Port}
    (h : w.Swept d i) : w'.Swept d i := by
  refine ⟨(ha d).isDying.trans h.1, fun port hi hp => ?_⟩
  rw [(ha d).nrPorts h.1] at hp
  exact ((ha d).late h.1 port).closed (h.2 port hi hp)

theorem Call.Ok.ages {w w' : World} (ha : w.Ages P w') {c : Call} (h : c.Ok P w) : c.Ok P w' := by
  cases c with
  | close | reset | freeXen => trivial
  | destroy d i => exact World.Swept.ages ha h
  | destroyClose d i seen =>
    obtain ⟨hs, hx, hw⟩ := h
    have hl := (ha d).late hs.1 i
    exact ⟨hs.ages ha, hl.consumerIsXen hx, fun d2 h2 => hl.waits d2 (hw d2 h2)⟩

theorem Domain.init_state (port : Port) : (Domain.init.evtchn port).state ≠ .interdomain := by
  unfold Domain.init
  by_cases h : port = 0
  · subst h
    simp
  · simp [h, Channel.zero]

namespace Inv

variable {w w' : World}

theorem ages (h : Inv P w) (hc : w'.calls = w.calls) (ha : w.Ages P w') (hm : Mutual w'.peer) :
    Inv P w' where
  intact d := (ha d).intact (h.intact d)
  peers := hm
  gone d hd := by
    rw [(ha d).destroyed] at hd
    obtain ⟨h1, h2⟩ := h.gone d hd
    exact ⟨(ha d).isDying.trans h1, ((ha d).nrPorts h1).trans h2⟩
  dead d hd := by
    rw [(ha d).isDying] at hd
    rw [(ha d).nrPorts hd]
    unfold World.Destroying
    rw [hc]
    exact h.dead d hd
  calls t c ht := by
    rw [hc] at ht
    exact (h.calls t c ht).ages ha

theorem quiet (h : Inv P w) {d : Dom} {x : Domain} (hq : Quiet P (w.dom d) x) :
    Inv P (w.setDom d x) := by
  refine h.ages rfl (.of_quiet hq) ?_
  rw [World.peer_of_quiet hq]
  exact h.peers

/-- A CPU goes on to another call; it does not drop the end of a domain. -/
theorem setCall (h : Inv P w) {t : Nat} {c : Option Call} (hc : ∀ c', c = some c' → c'.Ok P w)
    (hd : ∀ c₀ d, w.calls t = some c₀ → c₀.Destroys d →
      (w.dom d).nrPorts = 0 ∨ ∃ c', c = some c' ∧ c'.Destroys d) :
    Inv P (w.setCall t c) where
  intact := h.intact
  peers := h.peers
  gone := h.gone
  dead d hdy := by
    rcases h.dead d hdy with h0 | ⟨t', c₀, ht', hc₀⟩
    · exact .inl h0
    · by_cases htt : t' = t
      · subst htt
        rcases hd c₀ d ht' hc₀ with h0 | ⟨c', hc', hd'⟩
        · exact .inl h0
        · exact .inr ⟨t', c', (World.setCall_self ..).trans hc', hd'⟩
      · exact .inr ⟨t', c₀, (World.setCall_of_ne w htt c).trans ht', hc₀⟩
  calls t' c' ht' := by
    by_cases htt : t' = t
    · subst htt
      rw [World.setCall_self] at ht'
      have := hc c' ht'
      cases c' <;> exact this
    · rw [World.setCall_of_ne w htt] at ht'
      have := h.calls t' c' ht'
      cases c' <;> exact this

theorem init : Inv P World.init where
  intact _ _ := rfl
  peers a b hab := by
    obtain ⟨-, hs, -⟩ := World.peer_eq_some.mp hab
    exact absurd hs (Domain.init_state a.2)
  gone d hd := by cases hd
  dead d hd := by cases hd
  calls t c ht := by cases ht

end Inv

/-! ## Runs -/

/-- The end of a domain: its channels stay as they are. -/
theorem Inv.setFlags {w w' : World} {d : Dom} {x : Domain} (h : Inv P w)
    (hw' : w'.dom = (w.setDom d x).dom) (hf : x.freed = (w.dom d).freed)
    (he : x.evtchn = (w.dom d).evtchn) (hn : x.nrPorts = (w.dom d).nrPorts ∨ x.nrPorts = 0) (hd : (w.dom d).isDying → x.isDying)
    (hg : x.destroyed → x.isDying ∧ x.nrPorts = 0) (hdead : x.isDying → x.nrPorts = 0 ∨ w'.Destroying d)
    (hm : w'.peer = w.peer) (hkeep : ∀ d', w.Destroying d' → w'.Destroying d')
    (hcalls : ∀ t c, w'.calls t = some c → w.calls t = some c ∨ c.Ok P w') : Inv P w' := by
  have hself : w'.dom d = x := by rw [hw', World.setDom_self]
  have hother {d' : Dom} (hne : d' ≠ d) : w'.dom d' = w.dom d' := by
    rw [hw', World.setDom_of_ne w hne]
  have hchn (d' : Dom) (port : Port) : w'.chn d' port = w.chn d' port := by
    unfold World.chn
    by_cases hdd : d' = d
    · subst hdd
      rw [hself, he]
    · rw [hother hdd]
  have hswept {d' : Dom} {j : Port} (hs : w.Swept d' j) : w'.Swept d' j := by
    unfold World.Swept
    by_cases hdd : d' = d
    · subst hdd
      rw [hself]
      refine ⟨hd hs.1, fun port hj hp => ?_⟩
      rw [hchn]
      rcases hn with hn | hn
      · exact hs.2 port hj (hn ▸ hp)
      · exact absurd (hn ▸ hp) (Nat.not_lt_zero port)
    · rw [hother hdd]
      refine ⟨hs.1, fun port hj hp => ?_⟩
      rw [hchn]
      exact hs.2 port hj hp
  constructor
  · intro d'
    by_cases hdd : d' = d
    · subst hdd
      unfold Domain.Intact
      rw [hself, hf]
      exact h.intact d'
    · rw [hother hdd]
      exact h.intact d'
  · rw [hm]
    exact h.peers
  · intro d' hd'
    by_cases hdd : d' = d
    · subst hdd
      rw [hself] at hd' ⊢
      exact hg hd'
    · rw [hother hdd] at hd' ⊢
      exact h.gone d' hd'
  · intro d' hd'
    by_cases hdd : d' = d
    · subst hdd
      rw [hself] at hd' ⊢
      exact hdead hd'
    · rw [hother hdd] at hd' ⊢
      exact (h.dead d' hd').imp_right (hkeep d')
  · intro t c ht
    rcases hcalls t c ht with hc | hc
    · have hok := h.calls t c hc
      cases c with
      | close | reset | freeXen => trivial
      | destroy d' j => exact hswept hok
      | destroyClose d' j seen =>
        refine ⟨hswept hok.1, ?_⟩
        rw [hchn]
        exact hok.2
    · exact hc

/-- `evtchn_destroy` has passed every port: no channel had the domain as its peer. -/
theorem Inv.finish {w : World} {d : Dom} {i : Port} (h : Inv P w) (hs : w.Swept d i)
    (hi : (w.dom d).nrPorts ≤ i) : Inv P (w.setDom d { w.dom d with nrPorts := 0 }) := by
  refine h.setFlags rfl rfl rfl (.inr rfl) id (fun hd => ⟨(h.gone d hd).1, rfl⟩) (fun _ => .inl rfl) ?_
    (fun _ => id) fun _ _ => .inl
  funext c
  rw [World.peer_setDom]
  split
  · next hc =>
    subst hc
    symm
    show w.peer c = none
    by_cases hp : c.2 < (w.dom c.1).nrPorts
    · rcases hs.2 c.2 (Nat.lt_of_lt_of_le hp hi) hp with hf | hf
      · exact World.peer_eq_none (by simp [hf])
      · exact World.peer_eq_none (by simp [hf])
    · exact if_neg hp
  · rfl

/-- The last reference goes after `evtchn_destroy` has finished. -/
theorem Inv.drop {w : World} {d : Dom} (h : Inv P w) (hd : (w.dom d).isDying)
    (hn : (w.dom d).nrPorts = 0) : Inv P (w.setDom d { w.dom d with destroyed := true }) := by
  refine h.setFlags rfl rfl rfl (.inl rfl) id (fun _ => ⟨hd, hn⟩) (fun _ => .inl hn) ?_ (fun _ => id)
    fun _ _ => .inl
  exact World.peer_setDom_of_eq rfl rfl

theorem Inv.kill {w : World} {t : Nat} {d : Dom} (h : Inv P w) (ht : w.calls t = none) :
    Inv P ((w.setDom d { w.dom d with isDying := true }).setCall t (some (.destroy d 0))) := by
  refine h.setFlags rfl rfl rfl (.inl rfl) (fun _ => rfl) ?_ (fun _ => .inr ?_) ?_ ?_ ?_
  · intro hdes
    exact ⟨rfl, (h.gone d hdes).2⟩
  · exact ⟨t, _, World.setCall_self .., rfl⟩
  · exact World.peer_setDom_of_eq (x := { w.dom d with isDying := true }) rfl rfl
  · rintro d' ⟨t', c, ht', hc⟩
    have hne : t' ≠ t := by
      rintro rfl
      rw [ht] at ht'
      cases ht'
    exact ⟨t', c, (World.setCall_of_ne _ hne _).trans ht', hc⟩
  · intro t' c ht'
    by_cases hne : t' = t
    · subst hne
      rw [World.setCall_self] at ht'
      cases ht'
      refine .inr ⟨?_, fun port hp => absurd hp (Nat.not_lt_zero port)⟩
      rw [World.setCall_dom, World.setDom_self]
    · rw [World.setCall_of_ne _ hne] at ht'
      exact .inl ht'

/-- The end of a part of `__evtchn_close`, for a CPU that goes on with `after`. -/
theorem Inv.closed {w : World} (h : Inv P w) (t : Nat) (d1 : Dom) (port1 : Port)
    (seen : Option Dom) (after : Option Call) (waiting : Dom → Call)
    (hafter : ∀ w', w.Ages P w' →
      (port1 < (w.dom d1).nrPorts → (w.chn d1 port1).consumerIsXen = false →
        (∀ d2, seen = some d2 → (w.chn d1 port1).Waits P d2) → (w'.chn d1 port1).Closed) →
      ∀ c', after = some c' → c'.Ok P w')
    (hwaiting : ∀ d2, (w.chn d1 port1).Waits P d2 → (waiting d2).Ok P w)
    (hd : ∀ c₀ d, w.calls t = some c₀ → c₀.Destroys d →
      (∃ c', after = some c' ∧ c'.Destroys d) ∧ ∀ d2, (waiting d2).Destroys d) :
    ∃ w', w.closed t (evtchnClose P d1 port1 seen w) after waiting = .ok w' ∧ Inv P w' := by
  rcases evtchnClose_peer P d1 port1 seen h.peers
    (fun d hd => (h.gone d hd).2) with ⟨rc, w', hout, hcalls, hages, hm, hclosed⟩ | ⟨d2, hout, hw⟩
  · rw [hout]
    refine ⟨_, rfl, (h.ages hcalls hages hm).setCall (hafter w' hages hclosed) ?_⟩
    intro c₀ d ht hc₀
    rw [hcalls] at ht
    exact .inr (hd c₀ d ht hc₀).1
  · rw [hout]
    refine ⟨_, rfl, h.setCall ?_ ?_⟩
    · rintro c' ⟨⟩
      exact hwaiting d2 hw
    · intro c₀ d ht hc₀
      exact .inr ⟨_, rfl, (hd c₀ d ht hc₀).2 d2⟩

theorem Inv.next {w : World} {t : Nat} {c : Call} (h : Inv P w) (ht : w.calls t = some c) :
    ∃ w', c.step P t w = .ok w' ∧ Inv P w' := by
  have hok := h.calls t c ht
  -- only `evtchn_destroy` has something to hand over
  have hnone (hc : ∀ d, ¬c.Destroys d) {Q : Dom → Prop} :
      ∀ c₀ d, w.calls t = some c₀ → c₀.Destroys d → Q d := by
    intro c₀ d hc₀ hd
    rw [ht] at hc₀
    cases hc₀
    exact absurd hd (hc d)
  cases c with
  | close d port seen =>
    exact h.closed _ _ _ _ _ _ (fun _ _ _ _ hc => by cases hc) (fun _ _ => trivial) (hnone fun _ => id)
  | reset d i seen =>
    unfold Call.step
    dsimp only
    split
    · exact ⟨_, rfl, h.setCall (fun _ hc => by cases hc) (hnone fun _ => id)⟩
    · refine h.closed _ _ _ _ _ _ (fun _ _ _ c' hc => ?_) (fun _ _ => trivial) (hnone fun _ => id)
      cases hc
      trivial
  | freeXen d port seen =>
    exact h.closed _ _ _ _ _ _ (fun _ _ _ _ hc => by cases hc) (fun _ _ => trivial) (hnone fun _ => id)
  | destroy d i =>
    unfold Call.step
    dsimp only
    split
    · next hi =>
      have hintact : (List.range (w.dom d).nrPorts).any (w.dom d).freed = false := by
        simp [h.intact d _]
      rw [if_neg (by simp [hintact])]
      refine ⟨_, rfl, (h.finish hok hi).setCall (fun _ hc => by cases hc) ?_⟩
      intro c₀ d' hc₀ hd'
      rw [World.setDom_calls, ht] at hc₀
      cases hc₀
      cases hd'
      rw [World.setDom_self]
      exact .inl rfl
    · have hq : Quiet P (w.dom d) ((w.dom d).setChn i
          { (w.dom d).evtchn i with consumerIsXen := false }) :=
        .setChn_of_eq rfl rfl rfl fun _ => rfl
      refine ⟨_, rfl, (h.quiet hq).setCall ?_ ?_⟩
      · rintro c' ⟨⟩
        refine ⟨World.Swept.ages (.of_quiet hq) hok, ?_, fun _ hc => by cases hc⟩
        unfold World.chn
        rw [World.setDom_self, Domain.setChn_self]
      · intro c₀ d' hc₀ hd'
        rw [World.setDom_calls, ht] at hc₀
        cases hc₀
        exact .inr ⟨_, rfl, hd'⟩
  | destroyClose d i seen =>
    obtain ⟨hswept, hx, hw⟩ := hok
    refine h.closed _ _ _ _ _ _ (fun w' ha hclosed c' hc => ?_) (fun d2 hw2 => ?_) ?_
    · cases hc
      have hs := hswept.ages ha
      refine ⟨hs.1, fun port hi hp => ?_⟩
      by_cases hport : port = i
      · subst hport
        rw [(ha d).nrPorts hswept.1] at hp
        exact hclosed hp hx hw
      · exact hs.2 port (Nat.lt_of_le_of_ne (Nat.le_of_lt_succ hi) hport) hp
    · exact ⟨hswept, hx, fun d2' hd2 => by cases hd2; exact hw2⟩
    · intro c₀ d' hc₀ hd'
      rw [ht] at hc₀
      cases hc₀
      exact ⟨⟨_, rfl, hd'⟩, fun _ => hd'⟩

/-- How a step may end. -/
def Safe (P : Platform) : Except Bug World → Prop
  | .ok w => Inv P w
  | .error b => b = .notXen

theorem Step.run_safe {w : World} (s : Step) (h : Inv P w) (hl : s.Labelled P w) :
    Safe P (s.run P w) := by
  -- a CPU that starts a call is executing none
  have hidle {t : Nat} (ht : ¬w.calls t ≠ none) {Q : Dom → Prop} :
      ∀ c₀ d, w.calls t = some c₀ → c₀.Destroys d → Q d := by
    intro c₀ d hc₀
    rw [not_not.mp ht] at hc₀
    cases hc₀
  cases s with
  | allocUnbound d a xsm remoteDomid => exact h.quiet (Quiet.edits.allocUnbound hl)
  | bindInterdomain ld rd a xsm rport =>
    obtain ⟨hcalls, hages, hpeer⟩ := evtchnBindInterdomain_peer P a xsm ld rd rport w hl rfl
    refine h.ages hcalls hages ?_
    rcases hpeer with hpeer | ⟨lport, hl, hr, hpeer⟩
    · rw [hpeer]
      exact h.peers
    · rw [hpeer]
      exact h.peers.pair hl hr
  | bindVirq d a virq vcpu => exact h.quiet (Quiet.edits.bindVirq hl)
  | bindIpi d a vcpu => exact h.quiet (Quiet.edits.bindIpi hl)
  | bindPirq d a permitted bound pirq => exact h.quiet (Quiet.edits.bindPirq hl)
  | bindVcpu d port vcpu => exact h.quiet Quiet.edits.bindVcpu
  | allocUnboundXen d a vcpu remoteDomid => exact h.quiet (Quiet.edits.allocUnboundXen hl)
  | close t d port =>
    unfold Step.run
    dsimp only
    split
    · exact h
    · next ht =>
      obtain ⟨w', hw', hinv⟩ := h.closed t d port none none (.close d port)
        (fun _ _ _ _ hc => by cases hc) (fun _ _ => trivial) (hidle ht)
      rw [hw']
      exact hinv
  | reset t d =>
    unfold Step.run
    dsimp only
    split
    · exact h
    · next ht =>
      refine h.setCall (fun c' hc => ?_) (hidle ht)
      cases hc
      trivial
  | freeXen t d port =>
    unfold Step.run
    dsimp only
    split
    · exact h
    · next ht =>
      split
      · rfl
      · have hq : Quiet P (w.dom d) ((w.dom d).setChn port
            { (w.dom d).evtchn port with consumerIsXen := false }) :=
          .setChn_of_eq rfl rfl rfl fun _ => rfl
        refine (h.quiet hq).setCall (fun c' hc => ?_) (hidle fun hne => ht (.inl hne))
        cases hc
        trivial
  | kill t d =>
    unfold Step.run
    dsimp only
    split
    · exact h
    · next ht =>
      rw [not_or, not_not] at ht
      exact h.kill ht.1
  | drop d =>
    unfold Step.run
    dsimp only
    split
    · next hd => exact h.drop hd.1 hd.2
    · exact h
  | reuse d port c =>
    unfold Step.run
    dsimp only
    rw [h.intact d port, if_neg Bool.false_ne_true]
    exact h
  | next t =>
    unfold Step.run
    dsimp only
    split
    · exact h
    · next c ht =>
      obtain ⟨w', hw', hinv⟩ := h.next ht
      rw [hw']
      exact hinv

theorem runSteps_safe {w : World} (steps : List Step) (h : Inv P w) (hl : Labelled P steps w) :
    Safe P (runSteps P steps w) := by
  induction steps generalizing w with
  | nil => exact h
  | cons s rest ih =>
    have hs := s.run_safe h hl.1
    unfold runSteps
    split
    · next b hb =>
      rw [hb] at hs
      exact hs
    · next w' hw' =>
      rw [hw'] at hs
      exact ih hs (hl.2 w' hw')

/-- The domain has been through `evtchn_destroy`. -/
def World.Finished (w : World) (d : Dom) : Prop := (w.dom d).isDying ∧ ¬w.Destroying d

/-- Peers name each other, and nobody names a domain that is gone. -/
structure Symmetric (w : World) : Prop where
  iff : ∀ c₁ c₂, w.peer c₁ = some c₂ ↔ w.peer c₂ = some c₁
  finished : ∀ d port c, w.Finished d → w.peer c ≠ some (d, port)

theorem Inv.symmetric {w : World} (h : Inv P w) : Symmetric w := by
  refine ⟨h.peers.iff, fun d port c hd hc => ?_⟩
  have hn : (w.dom d).nrPorts = 0 := (h.dead d hd.1).resolve_right hd.2
  have hp := (World.peer_eq_some.mp (h.peers _ _ hc)).1
  rw [hn] at hp
  exact Nat.not_lt_zero _ hp

/-- From freshly initialised domains, every interleaving of the operations in which the
channels of new buckets get their labels keeps peers symmetric and meets no `BUG` of
`__evtchn_close`. -/
theorem runSteps_symmetric (P : Platform) (steps : List Step) (hl : Labelled P steps World.init) :
    match runSteps P steps World.init with
    | .ok w => Symmetric w
    | .error b => b = .notXen := by
  have h := runSteps_safe steps (Inv.init (P := P)) hl
  cases hr : runSteps P steps World.init with
  | ok w =>
    rw [hr] at h
    exact h.symmetric
  | error b =>
    rw [hr] at h
    exact h

/-- A close that waits for the lock of the peer's domain. -/
def lateClose : List Step :=
  [.allocUnbound 1 .all true 0, .bindInterdomain 0 1 .all true 1, .close 0 1 1, .next 0]

theorem runSteps_symmetric_lateClose :
    ∃ w, runSteps .twoVcpus lateClose World.init = .ok w ∧ Symmetric w := by
  have hlabels {x : Domain} {m : Nat} : x.Labelled m .all := fun _ _ _ => rfl
  refine ⟨_, rfl, runSteps_symmetric .twoVcpus lateClose ⟨hlabels, ?_⟩⟩
  exact fun _ _ => ⟨hlabels, fun _ _ => ⟨trivial, fun _ _ => ⟨trivial, fun _ _ => trivial⟩⟩⟩

/-- The second bucket of domain 0 gets no labels, and the memory of its first channel then holds `c`. -/
def freedBucket (c : Channel) : List Step :=
  List.replicate 127 (.allocUnbound 0 .all true 1) ++
    [.allocUnbound 0 ⟨true, fun _ => false⟩ true 1, .reuse 0 128 c]

/-- What is in the memory of a freed bucket names a peer that knows nothing of it. -/
theorem runSteps_symmetric_freedBucket :
    ∃ w, runSteps .twoVcpus (freedBucket { Channel.zero with
      state := .interdomain, remoteDom := 1, key := 1 }) World.init = .ok w ∧ ¬Symmetric w := by
  have hpeers : (runSteps .twoVcpus (freedBucket { Channel.zero with
      state := .interdomain, remoteDom := 1, key := 1 }) World.init).toOption.map
        (fun w => (w.peer (0, 128), w.peer (1, 1))) = some (some (1, 1), none) := by decide +kernel
  revert hpeers
  generalize runSteps .twoVcpus _ World.init = r
  intro hpeers
  cases r with
  | error b => cases hpeers
  | ok w =>
    obtain ⟨hpeer, hnone⟩ := Prod.mk.inj (Option.some.inj hpeers)
    refine ⟨w, rfl, fun h => ?_⟩
    have hback := (h.iff _ _).mp hpeer
    rw [hnone] at hback
    cases hback

end Evtchn
