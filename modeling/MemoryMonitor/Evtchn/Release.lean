import MemoryMonitor.Evtchn.Peers
import MemoryMonitor.Lib.Runs

/-!
# Releasing a channel attached to Xen

`free_xen_event_channel` clears the flag of its channel, drops the lock, and only
then closes the port by its number. Once the flag is clear the guest may close the
channel itself and be given the port again, and then the call closes a channel of
the guest. Ports are given away only by `get_free_port`: where no operation is
given the port of a call under way, the call frees the channel it was made for,
unless the channel is in a bucket that has been freed and turns into another by itself.

A port stands for one channel after another. `Traced` counts the steps and notes
when each channel was made, and for each call the channel that it found.
-/

namespace Evtchn

/-- The port stands for a channel. -/
def Channel.inUse (c : Channel) : Option Unit := if c.state = .free then none else some ()

def World.InUse (w : World) (c : Dom × Port) : Prop := w.view Channel.inUse c = some ()

instance (w : World) (c : Dom × Port) : Decidable (w.InUse c) :=
  inferInstanceAs (Decidable (_ = _))

/-- A state with its history. -/
structure Traced where
  world : World
  /-- The number of steps so far. -/
  time : Nat
  /-- The step that made the channel the port stands for. -/
  born : Dom × Port → Nat
  /-- For the CPUs in `free_xen_event_channel`, the step that made the channel
  which was attached to Xen at the call. -/
  attached : Nat → Nat

namespace Traced

def init : Traced := ⟨World.init, 0, fun _ => 0, fun _ => 0⟩

/-- The step `s` leads to `w`. -/
def advance (s : Step) (w : World) (τ : Traced) : Traced where
  world := w
  time := τ.time + 1
  born := fun c => if w.InUse c ∧ ¬τ.world.InUse c then τ.time + 1 else τ.born c
  attached :=
    match s with
    | .freeXen t d port =>
        if τ.world.calls t = none then Function.update τ.attached t (τ.born (d, port))
        else τ.attached
    | _ => τ.attached

/-- A step, unless a `BUG` has been met. -/
def step (P : Platform) (s : Step) : Except Bug Traced → Except Bug Traced
  | .error b => .error b
  | .ok τ =>
      match s.run P τ.world with
      | .error b => .error b
      | .ok w => .ok (τ.advance s w)

end Traced

def givenPort (d : Dom) : Except Errno Port → Option (Dom × Port)
  | .ok port => some (d, port)
  | .error _ => none

/-- The port that an operation is given. -/
def Step.takes (P : Platform) (w : World) : Step → Option (Dom × Port)
  | .allocUnbound d a xsm remoteDomid =>
      givenPort d ((w.dom d).allocUnbound (P.maxEvtchns d) a xsm remoteDomid).1
  | .bindInterdomain ld rd a xsm rport =>
      givenPort ld (evtchnBindInterdomain P a xsm ld rd rport w).1
  | .bindVirq d a virq vcpu =>
      givenPort d ((w.dom d).bindVirq (P.maxEvtchns d) a (P.hasVcpu d) virq vcpu).1
  | .bindIpi d a vcpu =>
      givenPort d ((w.dom d).bindIpi (P.maxEvtchns d) a (P.hasVcpu d) vcpu).1
  | .bindPirq d a permitted bound pirq =>
      givenPort d ((w.dom d).bindPirq (P.maxEvtchns d) (P.nrPirqs d) a (P.isHvm d) permitted
        bound pirq).1
  | .allocUnboundXen d a vcpu remoteDomid =>
      givenPort d ((w.dom d).allocUnboundXen (P.maxEvtchns d) a vcpu remoteDomid).1
  | .bindVcpu .. | .close .. | .reset .. | .freeXen .. | .kill .. | .drop .. | .reuse ..
  | .next .. => none

/-- No operation is given the port of a call of `free_xen_event_channel` that is
under way, and the channels of a new bucket get their labels. -/
def Step.Spares (P : Platform) (s : Step) : Except Bug Traced → Prop
  | .error _ => True
  | .ok τ => s.Labelled P τ.world ∧ ∀ t d port seen,
      τ.world.calls t = some (.freeXen d port seen) → s.takes P τ.world ≠ some (d, port)

/-- When a call of `free_xen_event_channel` goes on, the only channel that it
changes to `ECS_FREE` is the one that was attached to Xen when it was made. -/
def Step.FreesOwn (P : Platform) (s : Step) : Except Bug Traced → Prop
  | .error _ => True
  | .ok τ => ∀ t d port seen w, s = .next t → τ.world.calls t = some (.freeXen d port seen) →
      s.run P τ.world = .ok w → ∀ c, τ.world.InUse c → ¬w.InUse c →
        c = (d, port) ∧ τ.born c = τ.attached t

/-! ## Ports in use -/

/-- An operation puts the port it is given to use, and no other. -/
def Domain.Gives (x : Domain) (out : Except Errno Port × Domain) : Prop :=
  out.2.view Channel.inUse = x.view Channel.inUse ∨
    ∃ port, out.1 = .ok port ∧
      out.2.view Channel.inUse = Function.update (x.view Channel.inUse) port (some ())

namespace Domain

variable {x y : Domain} {port : Port} {maxEvtchns : Nat} {a : Answers}

theorem getFreePort_inUse {r : Except Errno Port} (h : x.getFreePort maxEvtchns a = (r, y)) :
    y.view Channel.inUse = x.view Channel.inUse := by
  rcases getFreePort_grown h with rfl | ⟨-, l, rfl | ⟨-, rfl⟩⟩
  · rfl
  · exact view_addBucket rfl
  · exact view_addBucket rfl

theorem gives_bound {c : Channel} (h : x.getFreePort maxEvtchns a = (.ok port, y))
    (hc : c.state ≠ .free) : x.Gives (.ok port, y.setChn port c) := by
  obtain ⟨-, -, hn, -⟩ := getFreePort_ok h
  refine .inr ⟨port, rfl, ?_⟩
  rw [view_setChn hn, getFreePort_inUse h]
  exact congrArg _ (if_neg hc)

/-- Only tables and lists change after that. -/
theorem Gives.congr {r : Except Errno Port} {z : Domain} (h : x.Gives (r, y))
    (hz : z.view Channel.inUse = y.view Channel.inUse) : x.Gives (r, z) := by
  rcases h with h | ⟨p, hr, h⟩
  · exact .inl (hz.trans h)
  · exact .inr ⟨p, hr, hz.trans h⟩

theorem withPort_gives {go : Port → Domain → Except Errno Port × Domain}
    (hgo : ∀ port y, x.getFreePort maxEvtchns a = (.ok port, y) → x.Gives (go port y)) :
    x.Gives (x.withPort maxEvtchns a go) := by
  unfold withPort
  split
  · next h => exact .inl (getFreePort_inUse h)
  · next h => exact hgo _ _ h

section Operations

variable {nrPirqs : Nat} {xsm isHvm permitted bound : Bool} {hasVcpu : Nat → Bool}
  {remoteDomid virq pirq vcpu : Nat}

theorem allocUnbound_gives : x.Gives (x.allocUnbound maxEvtchns a xsm remoteDomid) := by
  refine withPort_gives fun port y h => ?_
  split
  · exact .inl (getFreePort_inUse h)
  · exact gives_bound h (by simp)

theorem allocUnboundXen_gives :
    x.Gives (x.allocUnboundXen maxEvtchns a vcpu remoteDomid) :=
  withPort_gives fun _ _ h => gives_bound h (by simp)

theorem bindVirq_gives : x.Gives (x.bindVirq maxEvtchns a hasVcpu virq vcpu) := by
  unfold bindVirq
  repeat' split
  iterate 4 exact .inl rfl
  refine withPort_gives fun port y h => ?_
  have hg : x.Gives (.ok port, y.setChn port
      { y.evtchn port with state := .virq, notifyVcpuId := vcpu, key := virq }) :=
    gives_bound h (by simp)
  exact hg.congr rfl

theorem bindIpi_gives : x.Gives (x.bindIpi maxEvtchns a hasVcpu vcpu) := by
  unfold bindIpi
  split
  · exact .inl rfl
  · exact withPort_gives fun _ _ h => gives_bound h (by simp)

theorem bindPirq_gives :
    x.Gives (x.bindPirq maxEvtchns nrPirqs a isHvm permitted bound pirq) := by
  unfold bindPirq
  split
  · exact .inl rfl
  split
  · exact .inl rfl
  split
  · exact .inl rfl
  refine withPort_gives fun port y h => ?_
  split
  · have hy : y.view Channel.inUse = x.view Channel.inUse := getFreePort_inUse h
    exact .inl hy
  · have hg : x.Gives (.ok port, y.setChn port { y.evtchn port with state := .pirq, key := pirq }) :=
      gives_bound h (by simp)
    exact hg.congr (linkPirqPort_view (fun _ => rfl) _ port 0)

theorem bindVcpu_inUse :
    (x.bindVcpu hasVcpu port vcpu).2.view Channel.inUse = x.view Channel.inUse := by
  have hrebound (y : Domain) :
      (y.setChn port { y.evtchn port with notifyVcpuId := vcpu }).view Channel.inUse
        = y.view Channel.inUse := view_setChn_of_eq rfl
  unfold bindVcpu
  dsimp only
  split
  · rfl
  split
  · rfl
  split
  · rfl
  split
  · split
    · exact hrebound x
    · rfl
  · exact hrebound x
  · exact hrebound x
  · split
    · rfl
    · rw [linkPirqPort_view fun _ => rfl, hrebound, unlinkPirqPort_view fun _ => rfl]
  iterate 3 rfl

end Operations

end Domain

/-- The local port is put to use; the remote one is in use already. -/
theorem evtchnBindInterdomain_inUse (P : Platform) (a : Answers) (xsm : Bool) (ld rd : Dom)
    (rport : Port) (w : World) :
    (evtchnBindInterdomain P a xsm ld rd rport w).2.view Channel.inUse = w.view Channel.inUse ∨
    ∃ lport, (evtchnBindInterdomain P a xsm ld rd rport w).1 = .ok lport ∧
      (evtchnBindInterdomain P a xsm ld rd rport w).2.view Channel.inUse
        = Function.update (w.view Channel.inUse) (ld, lport) (some ()) := by
  unfold evtchnBindInterdomain
  split
  · next hp => exact .inl (World.view_setDom_of_eq (Domain.getFreePort_inUse hp))
  next lport y hp =>
  obtain ⟨-, -, hn, hfree⟩ := Domain.getFreePort_ok hp
  have hy : (w.setDom ld y).view Channel.inUse = w.view Channel.inUse :=
    World.view_setDom_of_eq (Domain.getFreePort_inUse hp)
  dsimp only
  split
  · exact .inl hy
  split
  · exact .inl hy
  next hwait =>
  split
  · exact .inl hy
  rw [not_or, not_not] at hwait
  refine .inr ⟨lport, rfl, ?_⟩
  have hne : (rd, rport) ≠ (ld, lport) := by
    intro h
    cases h
    have := hwait.1
    rw [World.chn, World.setDom_self, hfree] at this
    cases this
  rw [World.view_setDom_of_eq, World.view_setChn _ _ (by rw [World.setDom_self]; exact hn), hy]
  · rfl
  · refine Domain.view_setChn_of_eq ?_
    -- the remote channel was unbound
    show some () = (World.chn _ rd rport).inUse
    rw [World.chn_setChn_of_ne hne]
    exact (if_neg (by simp [hwait.1])).symm

section Close

variable {P : Platform} {d1 d2 : Dom} {port1 : Port} {seen : Option Dom} {w w' : World}
  {rc : Except Errno Unit}

/-- The channel is freed, or nothing is. -/
def Freed (c : Dom × Port) (w w' : World) : Prop :=
  w'.view Channel.inUse = w.view Channel.inUse ∨
    w'.view Channel.inUse = Function.update (w.view Channel.inUse) c none

theorem Freed.freePort {x : Domain} (hn : port1 < x.nrPorts)
    (hx : x.view Channel.inUse = (w.dom d1).view Channel.inUse) :
    Freed (d1, port1) w (w.setDom d1 (x.freePort port1)) := by
  refine .inr (World.view_setDom_update ?_)
  rw [Domain.freePort, Domain.view_setChn hn, hx]
  rfl

theorem closePeer_freed (hn : port1 < (w.dom d1).nrPorts)
    (hout : closePeer P d1 port1 d2 w = .done rc w') : Freed (d1, port1) w w' := by
  unfold closePeer at hout
  dsimp only at hout
  split at hout
  · cases hout
  split at hout
  · cases hout
  next hs =>
  split at hout
  · cases hout
  cases hout
  rw [not_not] at hs
  have hpeer : (w.setDom d2 ((w.dom d2).setChn (w.chn d1 port1).key
      { w.chn d2 (w.chn d1 port1).key with state := .unbound, key := P.domainId d1 })).view
        Channel.inUse = w.view Channel.inUse :=
    World.view_setDom_of_eq (Domain.view_setChn_of_eq (if_neg (hs.trans_ne (by simp))).symm)
  unfold Freed
  rw [← hpeer]
  refine Freed.freePort ?_ rfl
  rw [World.nrPorts_setChn]
  exact hn

theorem evtchnClose_freed (hout : evtchnClose P d1 port1 seen w = .done rc w') :
    Freed (d1, port1) w w' := by
  rcases evtchnClose_cases hout with ⟨e, -, rfl⟩ | ⟨-, hn, ⟨x, hx, rfl, -⟩ | ⟨-, d2, hp⟩⟩
  · exact .inl rfl
  · exact .freePort (hx.nrPorts ▸ hn) (hx.view fun _ => rfl)
  · exact closePeer_freed hn hp

end Close

/-! ## Steps -/

variable {P : Platform} {w w' : World}

theorem World.closed_inUse {t : Nat} {d1 : Dom} {port1 : Port} {seen : Option Dom}
    {after : Option Call} {waiting : Dom → Call}
    (hw : w.closed t (evtchnClose P d1 port1 seen w) after waiting = .ok w') :
    Freed (d1, port1) w w' := by
  rcases World.closed_cases hw with ⟨rc, w₁, hout, rfl⟩ | ⟨d2, -, rfl⟩
  · have hfreed : Freed (d1, port1) w w₁ := evtchnClose_freed hout
    exact hfreed
  · exact .inl rfl

theorem Freed.not_opened {c c' : Dom × Port} (h : Freed c w w') (hc : w'.InUse c') : w.InUse c' := by
  unfold World.InUse at hc ⊢
  rcases h with h | h
  · rw [← h]
    exact hc
  · rw [h] at hc
    by_cases hcc : c' = c
    · subst hcc
      rw [Function.update_self] at hc
      cases hc
    · rw [Function.update_of_ne hcc] at hc
      exact hc

theorem World.InUse.of_view {d : Dom} {x : Domain} {c : Dom × Port}
    (hx : x.view Channel.inUse = (w.dom d).view Channel.inUse) (h : (w.setDom d x).InUse c) :
    w.InUse c := by
  unfold World.InUse at h ⊢
  rw [World.view_setDom_of_eq hx] at h
  exact h

theorem Domain.clearFlag_inUse (x : Domain) (port : Port) :
    (x.setChn port { x.evtchn port with consumerIsXen := false }).view Channel.inUse
      = x.view Channel.inUse :=
  view_setChn_of_eq rfl

theorem Domain.Gives.takes {d : Dom} {out : Except Errno Port × Domain} {c : Dom × Port}
    (h : (w.dom d).Gives out) (hc : (w.setDom d out.2).InUse c) (hc₀ : ¬w.InUse c) :
    givenPort d out.1 = some c := by
  unfold World.InUse at hc hc₀
  rcases h with h | ⟨port, hr, h⟩
  · rw [World.view_setDom_of_eq h] at hc
    exact absurd hc hc₀
  · rw [World.view_setDom_update h] at hc
    by_cases hcc : c = (d, port)
    · rw [hr, hcc]
      rfl
    · rw [Function.update_of_ne hcc] at hc
      exact absurd hc hc₀

theorem Call.step_not_opened {t : Nat} {c : Call} {a : Dom × Port} (hw : c.step P t w = .ok w')
    (ha : w'.InUse a) : w.InUse a := by
  cases c with
  | close d port seen => exact (World.closed_inUse hw).not_opened ha
  | reset d i seen =>
    unfold Call.step at hw
    dsimp only at hw
    split at hw
    · cases hw
      exact ha
    · exact (World.closed_inUse hw).not_opened ha
  | freeXen d port seen => exact (World.closed_inUse hw).not_opened ha
  | destroy d i =>
    unfold Call.step at hw
    dsimp only at hw
    split at hw
    · split at hw
      · cases hw
      cases hw
      change (w.setDom d { w.dom d with nrPorts := 0 }).view Channel.inUse a = _ at ha
      rw [World.view_setDom] at ha
      split at ha
      · cases ha
      · exact ha
    · cases hw
      exact World.InUse.of_view (Domain.clearFlag_inUse _ i) ha
  | destroyClose d i seen => exact (World.closed_inUse hw).not_opened ha

theorem Step.takes_of_opened {s : Step} {c : Dom × Port} (hi : ∀ d, (w.dom d).Intact)
    (hw : s.run P w = .ok w') (hc : w'.InUse c) (hc₀ : ¬w.InUse c) : s.takes P w = some c := by
  cases s with
  | allocUnbound d a xsm remoteDomid =>
    cases hw
    exact Domain.allocUnbound_gives.takes hc hc₀
  | bindInterdomain ld rd a xsm rport =>
    cases hw
    rcases evtchnBindInterdomain_inUse P a xsm ld rd rport w with h | ⟨lport, hr, h⟩
    · unfold World.InUse at hc
      rw [h] at hc
      exact absurd hc hc₀
    · unfold World.InUse at hc
      rw [h] at hc
      by_cases hcc : c = (ld, lport)
      · show givenPort ld _ = some c
        rw [hr, hcc]
        rfl
      · rw [Function.update_of_ne hcc] at hc
        exact absurd hc hc₀
  | bindVirq d a virq vcpu =>
    cases hw
    exact Domain.bindVirq_gives.takes hc hc₀
  | bindIpi d a vcpu =>
    cases hw
    exact Domain.bindIpi_gives.takes hc hc₀
  | bindPirq d a permitted bound pirq =>
    cases hw
    exact Domain.bindPirq_gives.takes hc hc₀
  | bindVcpu d port vcpu =>
    cases hw
    exact absurd (World.InUse.of_view Domain.bindVcpu_inUse hc) hc₀
  | allocUnboundXen d a vcpu remoteDomid =>
    cases hw
    exact Domain.allocUnboundXen_gives.takes hc hc₀
  | close t d port =>
    unfold Step.run at hw
    dsimp only at hw
    split at hw
    · cases hw
      exact absurd hc hc₀
    · exact absurd ((World.closed_inUse hw).not_opened hc) hc₀
  | reset t d =>
    unfold Step.run at hw
    dsimp only at hw
    split at hw
    · cases hw
      exact absurd hc hc₀
    · cases hw
      exact absurd hc hc₀
  | freeXen t d port =>
    unfold Step.run at hw
    dsimp only at hw
    split at hw
    · cases hw
      exact absurd hc hc₀
    · split at hw
      · cases hw
      · cases hw
        exact absurd (World.InUse.of_view (Domain.clearFlag_inUse _ port) hc) hc₀
  | kill t d =>
    unfold Step.run at hw
    dsimp only at hw
    split at hw
    · cases hw
      exact absurd hc hc₀
    · cases hw
      exact absurd (World.InUse.of_view (x := { w.dom d with isDying := true }) rfl hc) hc₀
  | drop d =>
    unfold Step.run at hw
    dsimp only at hw
    split at hw
    · cases hw
      exact absurd (World.InUse.of_view (x := { w.dom d with destroyed := true }) rfl hc) hc₀
    · cases hw
      exact absurd hc hc₀
  | reuse d port c =>
    unfold Step.run at hw
    dsimp only at hw
    rw [hi d port, if_neg Bool.false_ne_true] at hw
    cases hw
    exact absurd hc hc₀
  | next t =>
    unfold Step.run at hw
    dsimp only at hw
    split at hw
    · cases hw
      exact absurd hc hc₀
    · exact absurd (Call.step_not_opened hw hc) hc₀

/-! ## Runs -/

/-- The port of a call under way stands for the channel that the call has found. -/
def Traced.Held (P : Platform) : Except Bug Traced → Prop
  | .error _ => True
  | .ok τ => Inv P τ.world ∧ ∀ t d port seen, τ.world.calls t = some (.freeXen d port seen) →
      τ.born (d, port) = τ.attached t

theorem World.closed_calls {t : Nat} {d1 : Dom} {port1 : Port} {seen : Option Dom}
    {after : Option Call} {waiting : Dom → Call}
    (hw : w.closed t (evtchnClose P d1 port1 seen w) after waiting = .ok w') :
    ∃ c, w'.calls = (w.setCall t c).calls ∧ (c = after ∨ ∃ d2, c = some (waiting d2)) := by
  rcases World.closed_cases hw with ⟨rc, w₁, hout, rfl⟩ | ⟨d2, -, rfl⟩
  · refine ⟨after, ?_, .inl rfl⟩
    unfold World.setCall
    rw [evtchnClose_calls hout]
  · exact ⟨_, rfl, .inr ⟨d2, rfl⟩⟩

section Calls

variable {t : Nat} {d : Dom} {port : Port} {seen : Option Dom}

/-- The CPU `t'` goes on with something else than `free_xen_event_channel`. -/
theorem freeXen_of_setCall {t' : Nat} {c : Option Call} (hw : w'.calls = (w.setCall t' c).calls)
    (hc : ∀ seen, c ≠ some (.freeXen d port seen))
    (ht : w'.calls t = some (.freeXen d port seen)) : w.calls t = some (.freeXen d port seen) := by
  rw [hw] at ht
  by_cases htt : t = t'
  · subst htt
    rw [World.setCall_self] at ht
    exact absurd ht (hc seen)
  · rw [World.setCall_of_ne w htt] at ht
    exact ht

theorem Call.step_freeXen {t' : Nat} {c : Call} (hc : w.calls t' = some c)
    (hw : c.step P t' w = .ok w') (ht : w'.calls t = some (.freeXen d port seen)) :
    ∃ seen', w.calls t = some (.freeXen d port seen') := by
  cases c with
  | close d' p s =>
    obtain ⟨c', hcalls, rfl | ⟨d2, rfl⟩⟩ := World.closed_calls hw
    · exact ⟨seen, freeXen_of_setCall hcalls (by simp) ht⟩
    · exact ⟨seen, freeXen_of_setCall hcalls (by simp) ht⟩
  | reset d' i s =>
    unfold Call.step at hw
    dsimp only at hw
    split at hw
    · cases hw
      exact ⟨seen, freeXen_of_setCall rfl (by simp) ht⟩
    · obtain ⟨c', hcalls, rfl | ⟨d2, rfl⟩⟩ := World.closed_calls hw
      · exact ⟨seen, freeXen_of_setCall hcalls (by simp) ht⟩
      · exact ⟨seen, freeXen_of_setCall hcalls (by simp) ht⟩
  | freeXen d' p s =>
    obtain ⟨c', hcalls, rfl | ⟨d2, rfl⟩⟩ := World.closed_calls hw
    · exact ⟨seen, freeXen_of_setCall hcalls (by simp) ht⟩
    · -- a call that waits for a lock is still the same call
      by_cases htt : t = t'
      · subst htt
        rw [hcalls, World.setCall_self] at ht
        cases ht
        exact ⟨s, hc⟩
      · rw [hcalls, World.setCall_of_ne w htt] at ht
        exact ⟨seen, ht⟩
  | destroy d' i =>
    unfold Call.step at hw
    dsimp only at hw
    split at hw
    · split at hw
      · cases hw
      cases hw
      exact ⟨seen, freeXen_of_setCall rfl (by simp) ht⟩
    · cases hw
      exact ⟨seen, freeXen_of_setCall rfl (by simp) ht⟩
  | destroyClose d' i s =>
    obtain ⟨c', hcalls, rfl | ⟨d2, rfl⟩⟩ := World.closed_calls hw
    · exact ⟨seen, freeXen_of_setCall hcalls (by simp) ht⟩
    · exact ⟨seen, freeXen_of_setCall hcalls (by simp) ht⟩

/-- Who is in `free_xen_event_channel` after a step was in it before, or has just made the call. -/
theorem Step.run_freeXen {s : Step} (hl : s.Labelled P w) (hw : s.run P w = .ok w')
    (ht : w'.calls t = some (.freeXen d port seen)) :
    (∃ seen', w.calls t = some (.freeXen d port seen')) ∨
      (s = .freeXen t d port ∧ w.calls t = none) := by
  cases s with
  | allocUnbound | bindVirq | bindIpi | bindPirq | bindVcpu | allocUnboundXen =>
    cases hw
    exact .inl ⟨seen, ht⟩
  | bindInterdomain ld rd a xsm rport =>
    cases hw
    rw [(evtchnBindInterdomain_peer P a xsm ld rd rport w hl rfl).1] at ht
    exact .inl ⟨seen, ht⟩
  | close t' d' p =>
    unfold Step.run at hw
    dsimp only at hw
    split at hw
    · cases hw
      exact .inl ⟨seen, ht⟩
    · obtain ⟨c', hcalls, rfl | ⟨d2, rfl⟩⟩ := World.closed_calls hw
      · exact .inl ⟨seen, freeXen_of_setCall hcalls (by simp) ht⟩
      · exact .inl ⟨seen, freeXen_of_setCall hcalls (by simp) ht⟩
  | reset t' d' =>
    unfold Step.run at hw
    dsimp only at hw
    split at hw
    · cases hw
      exact .inl ⟨seen, ht⟩
    · cases hw
      exact .inl ⟨seen, freeXen_of_setCall rfl (by simp) ht⟩
  | freeXen t' d' p =>
    unfold Step.run at hw
    dsimp only at hw
    split at hw
    · cases hw
      exact .inl ⟨seen, ht⟩
    · next hidle =>
      split at hw
      · cases hw
      · cases hw
        by_cases htt : t = t'
        · subst htt
          rw [World.setCall_self] at ht
          cases ht
          rw [not_or, not_not] at hidle
          exact .inr ⟨rfl, hidle.1⟩
        · rw [World.setCall_of_ne _ htt] at ht
          exact .inl ⟨seen, ht⟩
  | kill t' d' =>
    unfold Step.run at hw
    dsimp only at hw
    split at hw
    · cases hw
      exact .inl ⟨seen, ht⟩
    · cases hw
      exact .inl ⟨seen, freeXen_of_setCall rfl (by simp) ht⟩
  | drop d' | reuse d' =>
    unfold Step.run at hw
    dsimp only at hw
    split at hw
    · cases hw
      exact .inl ⟨seen, ht⟩
    · cases hw
      exact .inl ⟨seen, ht⟩
  | next t' =>
    unfold Step.run at hw
    dsimp only at hw
    split at hw
    · cases hw
      exact .inl ⟨seen, ht⟩
    · next c hc => exact .inl (Call.step_freeXen hc hw ht)

end Calls

theorem Traced.held_step {s : Step} {σ : Except Bug Traced} (hs : s.Spares P σ) (h : Held P σ) :
    Held P (step P s σ) := by
  cases σ with
  | error b => trivial
  | ok τ =>
    unfold step
    dsimp only
    split
    · trivial
    next w hw =>
    obtain ⟨hinv, hheld⟩ := h
    obtain ⟨hl, hs⟩ := hs
    have hsafe := s.run_safe hinv hl
    rw [hw] at hsafe
    refine ⟨hsafe, fun t d port seen ht => ?_⟩
    -- no new channel is made at the port of a call
    have hborn (hne : s.takes P τ.world ≠ some (d, port)) :
        (τ.advance s w).born (d, port) = τ.born (d, port) :=
      if_neg fun hc => hne (s.takes_of_opened hinv.intact hw hc.1 hc.2)
    rcases s.run_freeXen hl hw ht with ⟨seen', hcall⟩ | ⟨rfl, hidle⟩
    · have hattached : (τ.advance s w).attached t = τ.attached t := by
        unfold advance
        split
        · next t' d' p =>
          split
          · next hidle =>
            refine Function.update_of_ne ?_ ..
            rintro rfl
            rw [hidle] at hcall
            cases hcall
          · rfl
        · rfl
      rw [hborn (hs t d port seen' hcall), hattached]
      exact hheld t d port seen' hcall
    · rw [hborn (by simp [Step.takes])]
      unfold advance
      dsimp only
      rw [if_pos hidle, Function.update_self]

theorem Step.run_next {t : Nat} {c : Call} (ht : w.calls t = some c) :
    (Step.next t).run P w = c.step P t w := by
  unfold Step.run
  dsimp only
  rw [ht]

theorem Step.freesOwn_of_held {s : Step} {σ : Except Bug Traced} (h : Traced.Held P σ) :
    s.FreesOwn P σ := by
  cases σ with
  | error b => trivial
  | ok τ =>
    rintro t d port seen w rfl ht hw c hc hc'
    rw [Step.run_next ht] at hw
    have hfreed : Freed (d, port) τ.world w := World.closed_inUse hw
    have heq : c = (d, port) := by
      by_contra hne
      unfold World.InUse at hc hc'
      rcases hfreed with hf | hf
      · rw [hf] at hc'
        exact hc' hc
      · rw [hf, Function.update_of_ne hne] at hc'
        exact hc' hc
    refine ⟨heq, ?_⟩
    rw [heq]
    exact h.2 t d port seen ht

/-- In every run in which no operation is given the port of a call under way and the
channels of new buckets get their labels, the calls of `free_xen_event_channel` free their own channels. -/
theorem freeXen_frees_own (P : Platform) (steps : List Step)
    (h : Runs.Each (Traced.step P) (Step.Spares P) steps (.ok Traced.init)) :
    Runs.Each (Traced.step P) (Step.FreesOwn P) steps (.ok Traced.init) :=
  h.of_inv (I := Traced.Held P) (fun _ _ hs => Traced.held_step hs)
    (fun _ _ _ => Step.freesOwn_of_held) ⟨Inv.init, fun _ _ _ _ ht => by cases ht⟩

/-- The guest gives a channel of its own up while Xen releases another. -/
def quietRelease : List Step :=
  [.allocUnboundXen 0 .all 0 5, .allocUnbound 0 .all true 5, .freeXen 0 0 1, .close 1 0 2, .next 0]

theorem freeXen_frees_own_quietRelease :
    Runs.Each (Traced.step .twoVcpus) (Step.FreesOwn .twoVcpus) quietRelease (.ok Traced.init) ∧
      ∃ w, runSteps .twoVcpus quietRelease World.init = .ok w ∧ ¬w.InUse (0, 1) := by
  refine ⟨freeXen_frees_own .twoVcpus quietRelease ⟨?_, ?_, ?_, ?_, ?_, trivial⟩, _, rfl, by decide⟩
  iterate 2
    · refine ⟨fun _ _ _ => rfl, ?_⟩
      rintro t d port seen ⟨⟩
  iterate 3
    · refine ⟨trivial, ?_⟩
      rintro t d port seen -
      exact Option.some_ne_none _ |>.symm

/-- The guest closes the channel as soon as the flag is clear and allocates another. -/
def reusedPort : List Step :=
  [.allocUnboundXen 0 .all 0 5, .freeXen 0 0 1, .close 1 0 1, .allocUnbound 0 .all true 5, .next 0]

/-- `free_xen_event_channel` closes the channel the guest has allocated since. -/
theorem freeXen_frees_reusedPort :
    ¬Runs.Each (Traced.step .twoVcpus) (Step.FreesOwn .twoVcpus) reusedPort (.ok Traced.init) := by
  rintro ⟨-, -, -, -, hlast, -⟩
  have := hlast 0 0 1 none _ rfl rfl rfl (0, 1) (by decide) (by decide)
  exact absurd this.2 (by decide)

end Evtchn
