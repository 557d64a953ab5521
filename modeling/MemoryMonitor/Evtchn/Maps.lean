import MemoryMonitor.Evtchn.Peers
import MemoryMonitor.Lib.DList

/-!
# Reverse maps

`virq_to_evtchn` and `pirq_to_evtchn` are the inverses of what the channels say
of themselves, and the channels of each vCPU's physical interrupts are one doubly
linked list. All of it rests on free ports being bound to vCPU 0:
`evtchn_bind_pirq` links its port at vCPU 0 without setting `notify_vcpu_id`.
-/

namespace Evtchn

open Pairing

namespace Channel

/-- Where `virq_to_evtchn` should name the channel: a global virtual interrupt is
entered at vCPU 0, wherever it is delivered. -/
def virqSlot (c : Channel) : Option (Nat × Nat) :=
  if c.state = .virq then some (if virqIsGlobal c.key then 0 else c.notifyVcpuId, c.key) else none

def pirqIrq (c : Channel) : Option Nat := if c.state = .pirq then some c.key else none

/-- The vCPU whose list the channel is in. -/
def pirqVcpu (c : Channel) : Option Nat := if c.state = .pirq then some c.notifyVcpuId else none

end Channel

namespace Domain

def next (x : Domain) (port : Port) : Port := (x.evtchn port).nextPort

def prev (x : Domain) (port : Port) : Port := (x.evtchn port).prevPort

/-- Each vCPU has a list of the ports that `on` gives it. -/
def Lists (x : Domain) (on : Port → Option Nat) : Prop :=
  ∀ v, ∃ l, DList x.next x.prev (x.pirqEvtchnHead v) l ∧ ∀ port, port ∈ l ↔ on port = some v

end Domain

/-- Port 0 is never given away, and a free port has been reset. -/
structure Tidy (x : Domain) : Prop where
  reserved : (x.evtchn 0).state = .reserved
  alive : x.isDying = false → 0 < x.nrPorts
  free : ∀ port < x.nrPorts, (x.evtchn port).state = .free →
    (x.evtchn port).notifyVcpuId = 0 ∧ (x.evtchn port).consumerIsXen = false

/-- The tables of a domain agree with its channels. -/
structure Consistent (hasVcpu : Nat → Bool) (x : Domain) : Prop extends Tidy x where
  virq : Reverse (fun k : Nat × Nat => x.virqToEvtchn k.1 k.2) (x.view Channel.virqSlot)
  vcpu : ∀ port k, x.view Channel.virqSlot port = some k → hasVcpu k.1
  pirq : Reverse x.pirqToEvtchn (x.view Channel.pirqIrq)
  lists : x.Lists (x.view Channel.pirqVcpu)

/-! ## Lists -/

namespace Domain

variable {x x' : Domain} {on : Port → Option Nat} {port : Port} {v : Nat}

theorem setNext_next (x : Domain) (port n : Port) :
    (x.setNext port n).next = Function.update x.next port n := by
  funext p
  unfold next setNext
  by_cases h : p = port
  · subst h
    rw [setChn_self, Function.update_self]
  · rw [setChn_of_ne x h, Function.update_of_ne h]

theorem setNext_prev (x : Domain) (port n : Port) : (x.setNext port n).prev = x.prev := by
  funext p
  unfold prev setNext
  by_cases h : p = port
  · subst h
    rw [setChn_self]
  · rw [setChn_of_ne x h]

theorem setPrev_prev (x : Domain) (port n : Port) :
    (x.setPrev port n).prev = Function.update x.prev port n := by
  funext p
  unfold prev setPrev
  by_cases h : p = port
  · subst h
    rw [setChn_self, Function.update_self]
  · rw [setChn_of_ne x h, Function.update_of_ne h]

theorem setPrev_next (x : Domain) (port n : Port) : (x.setPrev port n).next = x.next := by
  funext p
  unfold next setPrev
  by_cases h : p = port
  · subst h
    rw [setChn_self]
  · rw [setChn_of_ne x h]

theorem Lists.congr (h : x.Lists on) (hh : x'.pirqEvtchnHead = x.pirqEvtchnHead)
    (hn : ∀ p, on p ≠ none → x'.next p = x.next p) (hp : ∀ p, on p ≠ none → x'.prev p = x.prev p) :
    x'.Lists on := by
  intro v
  obtain ⟨l, hl, hm⟩ := h v
  have hon : ∀ p ∈ l, on p ≠ none := by
    intro p hpl
    rw [(hm p).mp hpl]
    simp
  refine ⟨l, ?_, hm⟩
  rw [hh]
  exact hl.congr (fun p hpl => hn p (hon p hpl)) fun p hpl => hp p (hon p hpl)

theorem Lists.setChn {c : Channel} (h : x.Lists on) (hon : on port = none) :
    (x.setChn port c).Lists on := by
  have hsame {p : Port} (hp : on p ≠ none) : (x.setChn port c).evtchn p = x.evtchn p := by
    refine setChn_of_ne x ?_ c
    rintro rfl
    exact hp hon
  exact h.congr rfl (fun _ hp => congrArg Channel.nextPort (hsame hp))
    fun _ hp => congrArg Channel.prevPort (hsame hp)

theorem linkPirqPort_next (x : Domain) (port : Port) (v : Nat) :
    (x.linkPirqPort port v).next = Function.update x.next port (x.pirqEvtchnHead v) := by
  show Domain.next (if _ then _ else _) = _
  split
  · rw [setPrev_next, setNext_next, setPrev_next]
  · rw [setNext_next, setPrev_next]

theorem linkPirqPort_prev (x : Domain) (port : Port) (v : Nat) :
    (x.linkPirqPort port v).prev = if x.pirqEvtchnHead v ≠ 0
      then Function.update (Function.update x.prev port 0) (x.pirqEvtchnHead v) port
      else Function.update x.prev port 0 := by
  show Domain.prev (if _ then _ else _) = _
  split
  · rw [setPrev_prev, setNext_prev, setPrev_prev]
  · rw [setNext_prev, setPrev_prev]

theorem linkPirqPort_head (x : Domain) (port : Port) (v : Nat) :
    (x.linkPirqPort port v).pirqEvtchnHead = Function.update x.pirqEvtchnHead v port := by
  show Function.update (Domain.pirqEvtchnHead (if _ then _ else _)) v port = _
  split <;> rfl

/-- `unlink_pirq_port`, its first half and its second. -/
theorem unlinkPirqPort_eq (x : Domain) (port : Port) (v : Nat) :
    x.unlinkPirqPort port v =
      let y := if x.prev port ≠ 0 then x.setNext (x.prev port) (x.next port)
        else x.setHead v (x.next port)
      if x.next port ≠ 0 then y.setPrev (x.next port) (x.prev port) else y := rfl

theorem unlinkPirqPort_next (x : Domain) (port : Port) (v : Nat) :
    (x.unlinkPirqPort port v).next
      = if x.prev port ≠ 0 then Function.update x.next (x.prev port) (x.next port) else x.next := by
  rw [unlinkPirqPort_eq]
  by_cases hn : x.next port ≠ 0 <;> by_cases hp : x.prev port ≠ 0
  · simp only [if_pos hn, if_pos hp, setPrev_next, setNext_next]
  · simp only [if_pos hn, if_neg hp, setPrev_next]
    rfl
  · simp only [if_neg hn, if_pos hp, setNext_next]
  · simp only [if_neg hn, if_neg hp]
    rfl

theorem unlinkPirqPort_prev (x : Domain) (port : Port) (v : Nat) :
    (x.unlinkPirqPort port v).prev
      = if x.next port ≠ 0 then Function.update x.prev (x.next port) (x.prev port) else x.prev := by
  rw [unlinkPirqPort_eq]
  by_cases hn : x.next port ≠ 0 <;> by_cases hp : x.prev port ≠ 0
  · simp only [if_pos hn, if_pos hp, setPrev_prev, setNext_prev]
  · simp only [if_pos hn, if_neg hp, setPrev_prev]
    rfl
  · simp only [if_neg hn, if_pos hp, setNext_prev]
  · simp only [if_neg hn, if_neg hp]
    rfl

theorem unlinkPirqPort_head (x : Domain) (port : Port) (v : Nat) :
    (x.unlinkPirqPort port v).pirqEvtchnHead = if x.prev port ≠ 0 then x.pirqEvtchnHead
      else Function.update x.pirqEvtchnHead v (x.next port) := by
  rw [unlinkPirqPort_eq]
  by_cases hn : x.next port ≠ 0 <;> by_cases hp : x.prev port ≠ 0
  · simp only [if_pos hn, if_pos hp]
    rfl
  · simp only [if_pos hn, if_neg hp]
    rfl
  · simp only [if_neg hn, if_pos hp]
    rfl
  · simp only [if_neg hn, if_neg hp]
    rfl

/-- The port is put into the list of `v`. -/
theorem Lists.link (h : x.Lists on) (hp : port ≠ 0) (hon : on port = none) :
    (x.linkPirqPort port v).Lists (Function.update on port (some v)) := by
  intro u
  obtain ⟨l, hl, hm⟩ := h u
  have hport : ∀ p ∈ l, p ≠ port := by
    rintro p hpl rfl
    rw [hm, hon] at hpl
    cases hpl
  rw [linkPirqPort_head]
  by_cases huv : u = v
  · subst huv
    rw [Function.update_self]
    refine ⟨port :: l, hl.push hp (fun hpl => hport port hpl rfl) ?_ ?_ ?_ ?_ ?_, ?_⟩
    · intro q hq
      rw [linkPirqPort_next, Function.update_of_ne (hport q hq)]
    · intro q hq hqh
      rw [linkPirqPort_prev]
      split
      · rw [Function.update_of_ne hqh, Function.update_of_ne (hport q hq)]
      · rw [Function.update_of_ne (hport q hq)]
    · rw [linkPirqPort_next, Function.update_self]
    · rw [linkPirqPort_prev]
      split
      · next hz =>
        rw [Function.update_of_ne (hport _ (hl.head_mem hz)).symm, Function.update_self]
      · rw [Function.update_self]
    · intro hz
      rw [linkPirqPort_prev, if_pos hz, Function.update_self]
    · intro p
      by_cases hpp : p = port
      · subst hpp
        simp
      · rw [Function.update_of_ne hpp, ← hm p]
        simp [hpp]
  · -- the old head of the list of `v` is in no other list
    have hhead : x.pirqEvtchnHead v ≠ 0 → ∀ p ∈ l, p ≠ x.pirqEvtchnHead v := by
      rintro hz p hpl rfl
      obtain ⟨l', hl', hm'⟩ := h v
      have h1 := (hm _).mp hpl
      have h2 := (hm' _).mp (hl'.head_mem hz)
      rw [h1] at h2
      exact huv (Option.some.inj h2)
    rw [Function.update_of_ne huv]
    refine ⟨l, hl.congr ?_ ?_, ?_⟩
    · intro q hq
      rw [linkPirqPort_next, Function.update_of_ne (hport q hq)]
    · intro q hq
      rw [linkPirqPort_prev]
      split
      · next hz => rw [Function.update_of_ne (hhead hz q hq), Function.update_of_ne (hport q hq)]
      · rw [Function.update_of_ne (hport q hq)]
    · intro p
      by_cases hpp : p = port
      · subst hpp
        rw [Function.update_self, hm, hon]
        constructor
        · intro hne
          cases hne
        · intro he
          exact absurd (Option.some.inj he).symm huv
      · rw [Function.update_of_ne hpp, hm]

/-- The port is taken out of the list of `v`. -/
theorem Lists.unlink (h : x.Lists on) (hon : on port = some v) :
    (x.unlinkPirqPort port v).Lists (Function.update on port none) := by
  obtain ⟨l₀, hl₀, hm₀⟩ := h v
  have hport : port ∈ l₀ := (hm₀ port).mpr hon
  obtain ⟨-, hprev, hnext⟩ := hl₀.neighbours hport
  intro u
  rw [unlinkPirqPort_head]
  by_cases huv : u = v
  · subst huv
    refine ⟨l₀.erase port, hl₀.erase hport ?_ ?_ ?_ ?_ ?_, ?_⟩
    · intro q _ _ hq
      rw [unlinkPirqPort_next]
      split
      · rw [Function.update_of_ne hq]
      · rfl
    · intro q _ _ hq
      rw [unlinkPirqPort_prev]
      split
      · rw [Function.update_of_ne hq]
      · rfl
    · intro hz
      rw [if_pos hz, unlinkPirqPort_next, if_pos hz, Function.update_self]
      exact ⟨rfl, rfl⟩
    · intro hz
      rw [if_neg (not_not.mpr hz), Function.update_self]
    · intro hz
      rw [unlinkPirqPort_prev, if_pos hz, Function.update_self]
    · intro p
      rw [hl₀.nodup.mem_erase_iff, hm₀]
      by_cases hpp : p = port
      · subst hpp
        simp
      · rw [Function.update_of_ne hpp]
        simp [hpp]
  · obtain ⟨l, hl, hm⟩ := h u
    -- the neighbours are in the list of `v`
    have hdisj : ∀ p ∈ l, p ∉ l₀ := by
      intro p hpl hpl₀
      rw [hm] at hpl
      rw [hm₀, hpl] at hpl₀
      exact huv (Option.some.inj hpl₀)
    have hhead : (if x.prev port ≠ 0 then x.pirqEvtchnHead
        else Function.update x.pirqEvtchnHead v (x.next port)) u = x.pirqEvtchnHead u := by
      split
      · rfl
      · rw [Function.update_of_ne huv]
    rw [hhead]
    refine ⟨l, hl.congr ?_ ?_, ?_⟩
    · intro q hq
      rw [unlinkPirqPort_next]
      split
      · next hz =>
        rw [Function.update_of_ne]
        rintro rfl
        exact hdisj _ hq (hprev hz).1
      · rfl
    · intro q hq
      rw [unlinkPirqPort_prev]
      split
      · next hz =>
        rw [Function.update_of_ne]
        rintro rfl
        exact hdisj _ hq (hnext hz).1
      · rfl
    · intro p
      by_cases hpp : p = port
      · subst hpp
        rw [Function.update_self, hm, hon]
        constructor
        · intro he
          exact absurd (Option.some.inj he).symm huv
        · intro hne
          cases hne
      · rw [Function.update_of_ne hpp, hm]

/-- `evtchn_move_pirqs` comes to the end of a list. -/
theorem movePirqs_path {b b' h fuel : Nat} {l : List Nat} (hp : DList.Path x.next x.prev b h l b' 0)
    (hf : l.length ≤ fuel) : x.movePirqs fuel h = some l := by
  induction l generalizing b h fuel with
  | nil =>
    have hz : h = 0 := hp.2
    subst hz
    cases fuel <;> rfl
  | cons p l ih =>
    obtain ⟨rfl, h0, -, hrest⟩ := hp
    cases fuel with
    | zero => simp at hf
    | succ fuel =>
      have hl : x.movePirqs fuel (x.evtchn h).nextPort = some l :=
        ih hrest (Nat.le_of_succ_le_succ hf)
      unfold movePirqs
      rw [if_neg h0, hl]
      rfl

end Domain

/-! ## Operations on one domain -/

namespace Tidy

variable {x x' : Domain} {port : Port} {c : Channel}

theorem setChn (h : Tidy x) (hp : port ≠ 0)
    (hc : c.state = .free → c.notifyVcpuId = 0 ∧ c.consumerIsXen = false) :
    Tidy (x.setChn port c) where
  reserved := by
    rw [Domain.setChn_of_ne x hp.symm]
    exact h.reserved
  alive := h.alive
  free p hn hs := by
    by_cases hpp : p = port
    · subst hpp
      rw [Domain.setChn_self] at hs ⊢
      exact hc hs
    · rw [Domain.setChn_of_ne x hpp] at hs ⊢
      exact h.free p hn hs

/-- Only lists and tables change. -/
theorem of_bare (h : Tidy x) (hn : x'.nrPorts = x.nrPorts) (hd : x'.isDying = x.isDying)
    (hb : ∀ p, (x'.evtchn p).bare = (x.evtchn p).bare) : Tidy x' where
  reserved := (congrArg Channel.state (hb 0)).trans h.reserved
  alive := by
    rw [hn, hd]
    exact h.alive
  free p hp hs := by
    rw [hn] at hp
    obtain ⟨hstate, hxen, hvcpu, -, -⟩ := Channel.of_bare (hb p)
    rw [hstate] at hs
    rw [hvcpu, hxen]
    exact h.free p hp hs

theorem ne_zero (h : Tidy x) (hs : (x.evtchn port).state ≠ .reserved) : port ≠ 0 := by
  rintro rfl
  exact hs h.reserved

end Tidy

/-- Not bound to an interrupt: no table names the channel. -/
def Ecs.Plain (s : Ecs) : Prop := s ≠ .virq ∧ s ≠ .pirq

theorem Domain.init_plain (port : Port) : (Domain.init.evtchn port).state.Plain := by
  unfold Domain.init
  by_cases h : port = 0
  · subst h
    exact ⟨by simp, by simp⟩
  · constructor <;> simp [h, Channel.zero]

section Views

variable {c : Channel}

theorem Channel.virqSlot_plain (h : c.state.Plain) : c.virqSlot = none := if_neg h.1

theorem Channel.pirqIrq_plain (h : c.state.Plain) : c.pirqIrq = none := if_neg h.2

theorem Channel.pirqVcpu_plain (h : c.state.Plain) : c.pirqVcpu = none := if_neg h.2

end Views

namespace Consistent

variable {hasVcpu : Nat → Bool} {x x' : Domain} {port : Port} {c : Channel}

/-- Nothing that the tables speak of has changed. -/
theorem of_views (h : Consistent hasVcpu x) (ht : Tidy x')
    (hvm : x'.virqToEvtchn = x.virqToEvtchn) (hpm : x'.pirqToEvtchn = x.pirqToEvtchn)
    (hh : x'.pirqEvtchnHead = x.pirqEvtchnHead)
    (hv : x'.view Channel.virqSlot = x.view Channel.virqSlot)
    (hi : x'.view Channel.pirqIrq = x.view Channel.pirqIrq)
    (hl : x'.view Channel.pirqVcpu = x.view Channel.pirqVcpu)
    (hlink : ∀ p, x.view Channel.pirqVcpu p ≠ none →
      x'.next p = x.next p ∧ x'.prev p = x.prev p) : Consistent hasVcpu x' where
  toTidy := ht
  virq := by
    rw [hvm, hv]
    exact h.virq
  vcpu := by
    rw [hv]
    exact h.vcpu
  pirq := by
    rw [hpm, hi]
    exact h.pirq
  lists := by
    rw [hl]
    exact h.lists.congr hh (fun p hp => (hlink p hp).1) fun p hp => (hlink p hp).2

/-- A channel that no table names is changed to another such. -/
theorem setPlain (h : Consistent hasVcpu x) (hs : (x.evtchn port).state.Plain)
    (hr : (x.evtchn port).state ≠ .reserved) (hc : c.state.Plain)
    (hf : c.state = .free → c.notifyVcpuId = 0 ∧ c.consumerIsXen = false) :
    Consistent hasVcpu (x.setChn port c) := by
  refine h.of_views (h.toTidy.setChn (h.toTidy.ne_zero hr) hf) rfl rfl rfl ?_ ?_ ?_ ?_
  · exact Domain.view_setChn_of_eq (by rw [c.virqSlot_plain hc, Channel.virqSlot_plain hs])
  · exact Domain.view_setChn_of_eq (by rw [c.pirqIrq_plain hc, Channel.pirqIrq_plain hs])
  · exact Domain.view_setChn_of_eq (by rw [c.pirqVcpu_plain hc, Channel.pirqVcpu_plain hs])
  · intro p hp
    have hne : p ≠ port := by
      rintro rfl
      exact hp (Domain.view_eq_none (Channel.pirqVcpu_plain hs))
    unfold Domain.next Domain.prev
    rw [Domain.setChn_of_ne x hne]
    exact ⟨rfl, rfl⟩

/-- A bound channel is given another vCPU, where no table depends on it, or loses its flag. -/
theorem setBound (h : Consistent hasVcpu x) (hs : c.state = (x.evtchn port).state)
    (hv : c.virqSlot = (x.evtchn port).virqSlot) (hi : c.pirqIrq = (x.evtchn port).pirqIrq)
    (hl : c.pirqVcpu = (x.evtchn port).pirqVcpu) (hn : c.nextPort = (x.evtchn port).nextPort)
    (hp : c.prevPort = (x.evtchn port).prevPort)
    (hf : port < x.nrPorts → c.state = .free → c.notifyVcpuId = 0 ∧ c.consumerIsXen = false) :
    Consistent hasVcpu (x.setChn port c) := by
  refine h.of_views ⟨?_, h.alive, ?_⟩ rfl rfl rfl (Domain.view_setChn_of_eq hv)
    (Domain.view_setChn_of_eq hi) (Domain.view_setChn_of_eq hl) ?_
  · by_cases hz : 0 = port
    · subst hz
      rw [Domain.setChn_self, hs]
      exact h.reserved
    · rw [Domain.setChn_of_ne x hz]
      exact h.reserved
  · intro p hpn hps
    by_cases hpp : p = port
    · subst hpp
      rw [Domain.setChn_self] at hps ⊢
      exact hf hpn hps
    · rw [Domain.setChn_of_ne x hpp] at hps ⊢
      exact h.free p hpn hps
  · intro p _
    unfold Domain.next Domain.prev
    by_cases hpp : p = port
    · subst hpp
      rw [Domain.setChn_self]
      exact ⟨hn, hp⟩
    · rw [Domain.setChn_of_ne x hpp]
      exact ⟨rfl, rfl⟩

/-- The labels, and whether the bucket has been freed, do not matter. -/
theorem addBucket (h : Consistent hasVcpu x) (hd : x.isDying = false) (l f : Port → Bool) :
    Consistent hasVcpu { x.addBucket with ssid := l, freed := f } := by
  have hold {p : Port} (hp : p < x.nrPorts) : x.addBucket.evtchn p = x.evtchn p :=
    if_neg (Nat.not_le.mpr hp)
  refine h.of_views ⟨?_, ?_, ?_⟩ rfl rfl rfl (Domain.view_addBucket rfl)
    (Domain.view_addBucket rfl) (Domain.view_addBucket rfl) ?_
  · rw [hold (h.alive hd)]
    exact h.reserved
  · intro _
    exact Nat.lt_add_right _ (h.alive hd)
  · intro p _ hs
    by_cases hp : p < x.nrPorts
    · rw [hold hp] at hs ⊢
      exact h.free p hp hs
    · have hzero : x.addBucket.evtchn p = Channel.zero := if_pos (Nat.not_lt.mp hp)
      rw [hzero]
      exact ⟨rfl, rfl⟩
  · intro p hp
    have hn : p < x.nrPorts := by
      by_contra hn
      exact hp (if_neg hn)
    unfold Domain.next Domain.prev
    rw [hold hn]
    exact ⟨rfl, rfl⟩

section GetFreePort

variable {maxEvtchns : Nat} {a : Answers} {y : Domain}

theorem getFreePort {r : Except Errno Port} (h : Consistent hasVcpu x)
    (hp : x.getFreePort maxEvtchns a = (r, y)) : Consistent hasVcpu y := by
  rcases Domain.getFreePort_grown hp with rfl | ⟨hd, l, rfl | ⟨-, rfl⟩⟩
  · exact h
  · exact h.addBucket hd l _
  · exact h.addBucket hd l _

/-- A free port is taken for something that no table names. -/
theorem bindPlain (h : Consistent hasVcpu x) (hp : x.getFreePort maxEvtchns a = (.ok port, y))
    (hc : c.state.Plain) (hf : c.state ≠ .free) : Consistent hasVcpu (y.setChn port c) := by
  obtain ⟨-, -, -, hs⟩ := Domain.getFreePort_ok hp
  refine (h.getFreePort hp).setPlain ?_ ?_ hc fun hcf => absurd hcf hf
  · rw [hs]
    exact ⟨by simp, by simp⟩
  · rw [hs]
    simp

theorem withPort {go : Port → Domain → Except Errno Port × Domain} (h : Consistent hasVcpu x)
    (hgo : ∀ port y, x.getFreePort maxEvtchns a = (.ok port, y) → Consistent hasVcpu (go port y).2) :
    Consistent hasVcpu (x.withPort maxEvtchns a go).2 := by
  unfold Domain.withPort
  split
  · next hp => exact h.getFreePort hp
  · next hp => exact hgo _ _ hp

end GetFreePort

section Operations

variable {maxEvtchns nrPirqs : Nat} {a : Answers} {xsm isHvm permitted bound : Bool}
  {remoteDomid virq pirq vcpu : Nat}

theorem allocUnbound (h : Consistent hasVcpu x) :
    Consistent hasVcpu (x.allocUnbound maxEvtchns a xsm remoteDomid).2 := by
  refine h.withPort fun port y hp => ?_
  split
  · exact h.getFreePort hp
  · exact h.bindPlain hp ⟨by simp, by simp⟩ (by simp)

theorem allocUnboundXen (h : Consistent hasVcpu x) :
    Consistent hasVcpu (x.allocUnboundXen maxEvtchns a vcpu remoteDomid).2 :=
  h.withPort fun _ _ hp => h.bindPlain hp ⟨by simp, by simp⟩ (by simp)

theorem bindIpi (h : Consistent hasVcpu x) :
    Consistent hasVcpu (x.bindIpi maxEvtchns a hasVcpu vcpu).2 := by
  unfold Domain.bindIpi
  split
  · exact h
  · exact h.withPort fun _ _ hp => h.bindPlain hp ⟨by simp, by simp⟩ (by simp)

/-- `evtchn_bind_virq` once it has its port. -/
theorem setVirq (h : Consistent hasVcpu x) (hn : port < x.nrPorts)
    (hs : (x.evtchn port).state = .free) (hg : virqIsGlobal virq → vcpu = 0)
    (hv : hasVcpu vcpu) (hz : x.virqToEvtchn vcpu virq = 0) :
    Consistent hasVcpu
      { x.setChn port { x.evtchn port with state := .virq, notifyVcpuId := vcpu, key := virq } with
        virqToEvtchn := fun v q => if v = vcpu ∧ q = virq then port else x.virqToEvtchn v q } := by
  have hp0 : port ≠ 0 := h.toTidy.ne_zero (by simp [hs])
  have hplain : (x.evtchn port).state.Plain := by
    rw [hs]
    exact ⟨by simp, by simp⟩
  -- a global interrupt is bound at vCPU 0, where it is entered
  have hslot : Channel.virqSlot
      { x.evtchn port with state := .virq, notifyVcpuId := vcpu, key := virq }
        = some (vcpu, virq) := by
    unfold Channel.virqSlot
    dsimp only
    rw [if_pos rfl]
    split
    · next hgl => rw [hg hgl]
    · rfl
  generalize hc : ({ x.evtchn port with
    state := .virq, notifyVcpuId := vcpu, key := virq } : Channel) = c at hslot
  have hstate : c.state = .virq := by rw [← hc]
  have hview : (x.setChn port c).view Channel.virqSlot
      = Function.update (x.view Channel.virqSlot) port (some (vcpu, virq)) := by
    rw [Domain.view_setChn hn, hslot]
  have hirq : (x.setChn port c).view Channel.pirqIrq = x.view Channel.pirqIrq :=
    Domain.view_setChn_of_eq (by
      rw [Channel.pirqIrq_plain hplain]
      exact if_neg (by simp [hstate]))
  have hvcpu : (x.setChn port c).view Channel.pirqVcpu = x.view Channel.pirqVcpu :=
    Domain.view_setChn_of_eq (by
      rw [Channel.pirqVcpu_plain hplain]
      exact if_neg (by simp [hstate]))
  refine ⟨(h.toTidy.setChn (c := c) hp0 (by simp [hstate])).of_bare rfl rfl fun _ => rfl,
    ?_, ?_, ?_, ?_⟩
  · show Reverse _ ((x.setChn port c).view Channel.virqSlot)
    rw [hview]
    have hset := h.virq.set (p := port) (k := (vcpu, virq)) hp0 hz
      (Domain.view_eq_none (Channel.virqSlot_plain hplain))
    convert hset using 1
    funext k
    by_cases hk : k = (vcpu, virq)
    · subst hk
      rw [Function.update_self]
      exact if_pos ⟨rfl, rfl⟩
    · rw [Function.update_of_ne hk]
      exact if_neg fun he => hk (Prod.ext he.1 he.2)
  · intro p k hk
    change (x.setChn port c).view Channel.virqSlot p = some k at hk
    rw [hview] at hk
    by_cases hpp : p = port
    · subst hpp
      rw [Function.update_self] at hk
      cases hk
      exact hv
    · rw [Function.update_of_ne hpp] at hk
      exact h.vcpu p k hk
  · show Reverse _ ((x.setChn port c).view Channel.pirqIrq)
    rw [hirq]
    exact h.pirq
  · show Domain.Lists _ ((x.setChn port c).view Channel.pirqVcpu)
    rw [hvcpu]
    exact (h.lists.setChn (Domain.view_eq_none (Channel.pirqVcpu_plain hplain))).congr rfl
      (fun _ _ => rfl) fun _ _ => rfl

theorem bindVirq (h : Consistent hasVcpu x) :
    Consistent hasVcpu (x.bindVirq maxEvtchns a hasVcpu virq vcpu).2 := by
  unfold Domain.bindVirq
  split
  · exact h
  split
  · exact h
  next hg =>
  split
  · exact h
  next hv =>
  split
  · exact h
  next hz =>
  refine h.withPort fun port y hp => ?_
  obtain ⟨-, hy, hn, hs⟩ := Domain.getFreePort_ok hp
  refine (h.getFreePort hp).setVirq hn hs ?_ (by simpa using hv) ?_
  · intro hgl
    by_contra h0
    exact hg ⟨hgl, h0⟩
  · rcases hy with rfl | ⟨l, rfl⟩
    · exact not_not.mp hz
    · exact not_not.mp hz

/-- `case ECS_VIRQ` of `__evtchn_close`. -/
theorem closeVirq (h : Consistent hasVcpu x) (hn : port < x.nrPorts)
    (hs : (x.evtchn port).state = .virq) (hx : (x.evtchn port).consumerIsXen = false) :
    Consistent hasVcpu
      ((x.clearVirq hasVcpu (x.evtchn port).key port).freePort port) := by
  have hp0 : port ≠ 0 := h.toTidy.ne_zero (by simp [hs])
  obtain ⟨k, hk, hkey⟩ : ∃ k, x.view Channel.virqSlot port = some k ∧ k.2 = (x.evtchn port).key := by
    refine ⟨(if virqIsGlobal (x.evtchn port).key then 0 else (x.evtchn port).notifyVcpuId,
      (x.evtchn port).key), Domain.view_eq_some.mpr ⟨hn, if_pos hs⟩, rfl⟩
  have hirq : (x.freePort port).view Channel.pirqIrq = x.view Channel.pirqIrq :=
    Domain.view_setChn_of_eq (by simp [Channel.pirqIrq, hs])
  have hvcpu : (x.freePort port).view Channel.pirqVcpu = x.view Channel.pirqVcpu :=
    Domain.view_setChn_of_eq (by simp [Channel.pirqVcpu, hs])
  have hview : (x.freePort port).view Channel.virqSlot
      = Function.update (x.view Channel.virqSlot) port none := Domain.view_setChn hn
  refine ⟨(h.toTidy.setChn (c := { x.evtchn port with state := .free, notifyVcpuId := 0 }) hp0
    fun _ => ⟨rfl, hx⟩).of_bare rfl rfl fun _ => rfl, ?_, ?_, ?_, ?_⟩
  · show Reverse _ ((x.freePort port).view Channel.virqSlot)
    rw [hview]
    -- the entry of the channel is the only one that names it
    convert h.virq.clear hp0 hk using 1
    funext k'
    have hiff := h.virq k' port hp0
    by_cases hkk : k' = k
    · subst hkk
      rw [Function.update_self]
      exact if_pos ⟨h.vcpu port k' hk, hkey, hiff.mpr hk⟩
    · rw [Function.update_of_ne hkk]
      refine if_neg fun he => hkk ?_
      have := hiff.mp he.2.2
      rw [hk] at this
      exact (Option.some.inj this).symm
  · intro p k' hk'
    change (x.freePort port).view Channel.virqSlot p = some k' at hk'
    rw [hview] at hk'
    by_cases hpp : p = port
    · subst hpp
      rw [Function.update_self] at hk'
      cases hk'
    · rw [Function.update_of_ne hpp] at hk'
      exact h.vcpu p k' hk'
  · show Reverse _ ((x.freePort port).view Channel.pirqIrq)
    rw [hirq]
    exact h.pirq
  · show Domain.Lists _ ((x.freePort port).view Channel.pirqVcpu)
    rw [hvcpu]
    have hnone : x.view Channel.pirqVcpu port = none :=
      Domain.view_eq_none (if_neg (by simp [hs]))
    exact (h.lists.setChn hnone).congr rfl (fun _ _ => rfl) fun _ _ => rfl

end Operations

/-! ## Physical interrupts -/

theorem linkPirqPort_tidy (ht : Tidy x) (v : Nat) : Tidy (x.linkPirqPort port v) :=
  ht.of_bare (Domain.linkPirqPort_frame x port v).1 (Domain.linkPirqPort_frame x port v).2.1
    (Domain.linkPirqPort_bare x port v)

theorem unlinkPirqPort_tidy (ht : Tidy x) (port : Port) (v : Nat) : Tidy (x.unlinkPirqPort port v) :=
  ht.of_bare (Domain.unlinkPirqPort_frame x port v).1 (Domain.unlinkPirqPort_frame x port v).2.1
    (Domain.unlinkPirqPort_bare x port v)

/-- `evtchn_bind_pirq` once it has its port: the port is linked at vCPU 0, which
is the one a free channel is bound to. -/
theorem setPirq {pirq : Nat} (h : Consistent hasVcpu x) (hn : port < x.nrPorts)
    (hs : (x.evtchn port).state = .free) (hz : x.pirqToEvtchn pirq = 0) :
    Consistent hasVcpu (((x.setPirq pirq port).setChn port
      { x.evtchn port with state := .pirq, key := pirq }).linkPirqPort port 0) := by
  have hp0 : port ≠ 0 := h.toTidy.ne_zero (by simp [hs])
  have hplain : (x.evtchn port).state.Plain := by
    rw [hs]
    exact ⟨by simp, by simp⟩
  have hvcpu0 : (x.evtchn port).notifyVcpuId = 0 := (h.free port hn hs).1
  generalize hc : ({ x.evtchn port with state := .pirq, key := pirq } : Channel) = c
  have hstate : c.state = .pirq := by rw [← hc]
  have hslot : c.virqSlot = none := if_neg (by simp [hstate])
  have hirq : c.pirqIrq = some pirq := by rw [← hc]; rfl
  have hvcpu : c.pirqVcpu = some 0 := by rw [← hc, ← hvcpu0]; rfl
  have hview {α : Type} (f : Channel → Option α) :
      ((x.setPirq pirq port).setChn port c).view f = Function.update (x.view f) port (f c) :=
    Domain.view_setChn (x := x.setPirq pirq port) hn
  have htidy : Tidy ((x.setPirq pirq port).setChn port c) :=
    (h.toTidy.of_bare rfl rfl fun _ => rfl : Tidy (x.setPirq pirq port)).setChn hp0
      (by simp [hstate])
  have hvirq : (((x.setPirq pirq port).setChn port c).linkPirqPort port 0).view Channel.virqSlot
      = x.view Channel.virqSlot := by
    rw [Domain.linkPirqPort_view (fun _ => rfl), hview, hslot]
    exact Function.update_eq_self_iff.mpr (Domain.view_eq_none (Channel.virqSlot_plain hplain)).symm
  refine ⟨linkPirqPort_tidy htidy 0, ?_, ?_, ?_, ?_⟩
  · rw [hvirq, (Domain.linkPirqPort_frame ..).2.2.1]
    exact h.virq
  · rw [hvirq]
    exact h.vcpu
  · rw [Domain.linkPirqPort_view (fun _ => rfl), hview, hirq, (Domain.linkPirqPort_frame ..).2.2.2]
    exact h.pirq.set hp0 hz (Domain.view_eq_none (Channel.pirqIrq_plain hplain))
  · rw [Domain.linkPirqPort_view (fun _ => rfl), hview, hvcpu]
    have hnone := Domain.view_eq_none (Channel.pirqVcpu_plain hplain)
    have hlists : (x.setPirq pirq port).Lists (x.view Channel.pirqVcpu) :=
      h.lists.congr rfl (fun _ _ => rfl) fun _ _ => rfl
    exact (hlists.setChn hnone).link hp0 hnone

theorem bindPirq {maxEvtchns nrPirqs pirq : Nat} {a : Answers} {isHvm permitted bound : Bool}
    (h : Consistent hasVcpu x) :
    Consistent hasVcpu (x.bindPirq maxEvtchns nrPirqs a isHvm permitted bound pirq).2 := by
  unfold Domain.bindPirq
  split
  · exact h
  split
  · exact h
  split
  · exact h
  next hz =>
  refine h.withPort fun port y hp => ?_
  obtain ⟨-, hy, hn, hs⟩ := Domain.getFreePort_ok hp
  have hz' : y.pirqToEvtchn pirq = 0 := by
    rcases hy with rfl | ⟨l, rfl⟩
    · exact not_not.mp hz
    · exact not_not.mp hz
  dsimp only
  split
  · rw [Domain.setPirq_back port hz']
    exact h.getFreePort hp
  · exact (h.getFreePort hp).setPirq hn hs hz'

/-- `case ECS_PIRQ` of `__evtchn_close`. -/
theorem closePirq (h : Consistent hasVcpu x) (hn : port < x.nrPorts)
    (hs : (x.evtchn port).state = .pirq) (hx : (x.evtchn port).consumerIsXen = false) :
    Consistent hasVcpu (((x.setPirq (x.evtchn port).key 0).unlinkPirqPort port
      (x.evtchn port).notifyVcpuId).freePort port) := by
  have hp0 : port ≠ 0 := h.toTidy.ne_zero (by simp [hs])
  have hirq : x.view Channel.pirqIrq port = some (x.evtchn port).key :=
    Domain.view_eq_some.mpr ⟨hn, if_pos hs⟩
  have hvcpu : x.view Channel.pirqVcpu port = some (x.evtchn port).notifyVcpuId :=
    Domain.view_eq_some.mpr ⟨hn, if_pos hs⟩
  have hslot : x.view Channel.virqSlot port = none := Domain.view_eq_none (if_neg (by simp [hs]))
  have hlists : (x.setPirq (x.evtchn port).key 0).Lists (x.view Channel.pirqVcpu) :=
    h.lists.congr rfl (fun _ _ => rfl) fun _ _ => rfl
  have htidy : Tidy (x.setPirq (x.evtchn port).key 0) := h.toTidy.of_bare rfl rfl fun _ => rfl
  have hframe := Domain.unlinkPirqPort_frame (x.setPirq (x.evtchn port).key 0) port
    (x.evtchn port).notifyVcpuId
  have hbare := Channel.of_bare (Domain.unlinkPirqPort_bare (x.setPirq (x.evtchn port).key 0) port
    (x.evtchn port).notifyVcpuId port)
  have hviews {α : Type} (f : Channel → Option α) (hf : ∀ c, f c = f c.bare) :
      ((x.setPirq (x.evtchn port).key 0).unlinkPirqPort port (x.evtchn port).notifyVcpuId).view f
        = x.view f := by
    rw [Domain.unlinkPirqPort_view hf]
    rfl
  have hunlinked := hlists.unlink hvcpu
  have htidy' := unlinkPirqPort_tidy htidy port (x.evtchn port).notifyVcpuId
  generalize (x.setPirq (x.evtchn port).key 0).unlinkPirqPort port (x.evtchn port).notifyVcpuId = y
    at hframe hbare hviews hunlinked htidy'
  have hview {α : Type} (f : Channel → Option α) (hf : ∀ c, f c = f c.bare)
      (hnone : f { y.evtchn port with state := .free, notifyVcpuId := 0 } = none) :
      (y.freePort port).view f = Function.update (x.view f) port none := by
    rw [Domain.freePort, Domain.view_setChn, hviews f hf, hnone]
    rw [hframe.1]
    exact hn
  have hvirq : (y.freePort port).view Channel.virqSlot = x.view Channel.virqSlot := by
    rw [hview _ (fun _ => rfl) rfl]
    exact Function.update_eq_self_iff.mpr hslot.symm
  refine ⟨htidy'.setChn hp0 fun _ => ⟨rfl, hbare.2.1.trans hx⟩, ?_, ?_, ?_, ?_⟩
  · rw [hvirq]
    show Reverse (fun k : Nat × Nat => y.virqToEvtchn k.1 k.2) _
    rw [hframe.2.2.1]
    exact h.virq
  · rw [hvirq]
    exact h.vcpu
  · rw [hview _ (fun _ => rfl) rfl]
    show Reverse y.pirqToEvtchn _
    rw [hframe.2.2.2]
    exact h.pirq.clear hp0 hirq
  · rw [hview _ (fun _ => rfl) rfl]
    exact hunlinked.setChn (Function.update_self ..)

/-- A physical interrupt moves from one list to another. -/
theorem movePirq {vcpu : Nat} (h : Consistent hasVcpu x) (hn : port < x.nrPorts)
    (hs : (x.evtchn port).state = .pirq) :
    let y := x.unlinkPirqPort port (x.evtchn port).notifyVcpuId
    Consistent hasVcpu
      ((y.setChn port { y.evtchn port with notifyVcpuId := vcpu }).linkPirqPort port vcpu) := by
  have hp0 : port ≠ 0 := h.toTidy.ne_zero (by simp [hs])
  have hvcpu : x.view Channel.pirqVcpu port = some (x.evtchn port).notifyVcpuId :=
    Domain.view_eq_some.mpr ⟨hn, if_pos hs⟩
  have hframe := Domain.unlinkPirqPort_frame x port (x.evtchn port).notifyVcpuId
  have hbare := Channel.of_bare
    (Domain.unlinkPirqPort_bare x port (x.evtchn port).notifyVcpuId port)
  have hviews {α : Type} (f : Channel → Option α) (hf : ∀ c, f c = f c.bare) :=
    Domain.unlinkPirqPort_view hf x port (x.evtchn port).notifyVcpuId
  have hunlinked := h.lists.unlink hvcpu
  have htidy := unlinkPirqPort_tidy h.toTidy port (x.evtchn port).notifyVcpuId
  generalize x.unlinkPirqPort port (x.evtchn port).notifyVcpuId = y
    at hframe hbare hviews hunlinked htidy ⊢
  intro y'
  have hstate : (y.evtchn port).state = .pirq := hbare.1.trans hs
  have hirq : (y.setChn port { y.evtchn port with notifyVcpuId := vcpu }).view Channel.pirqIrq
      = x.view Channel.pirqIrq := by
    rw [Domain.view_setChn_of_eq, hviews _ fun _ => rfl]
    rfl
  have hvirq : (y.setChn port { y.evtchn port with notifyVcpuId := vcpu }).view Channel.virqSlot
      = x.view Channel.virqSlot := by
    rw [Domain.view_setChn_of_eq, hviews _ fun _ => rfl]
    simp [Channel.virqSlot, hstate]
  have hmoved : (y.setChn port { y.evtchn port with notifyVcpuId := vcpu }).view Channel.pirqVcpu
      = Function.update (x.view Channel.pirqVcpu) port (some vcpu) := by
    rw [Domain.view_setChn, hviews _ fun _ => rfl]
    · exact congrArg _ (if_pos hstate)
    · rw [hframe.1]
      exact hn
  refine ⟨linkPirqPort_tidy (htidy.setChn hp0 ?_) vcpu, ?_, ?_, ?_, ?_⟩
  · intro hfree
    rw [hstate] at hfree
    cases hfree
  · rw [Domain.linkPirqPort_view (fun _ => rfl), hvirq, (Domain.linkPirqPort_frame ..).2.2.1]
    show Reverse (fun k : Nat × Nat => y.virqToEvtchn k.1 k.2) _
    rw [hframe.2.2.1]
    exact h.virq
  · rw [Domain.linkPirqPort_view (fun _ => rfl), hvirq]
    exact h.vcpu
  · rw [Domain.linkPirqPort_view (fun _ => rfl), hirq, (Domain.linkPirqPort_frame ..).2.2.2]
    show Reverse y.pirqToEvtchn _
    rw [hframe.2.2.2]
    exact h.pirq
  · rw [Domain.linkPirqPort_view (fun _ => rfl), hmoved]
    have hlinked := (hunlinked.setChn (c := { y.evtchn port with notifyVcpuId := vcpu })
      (Function.update_self ..)).link (v := vcpu) hp0 (Function.update_self ..)
    rw [Function.update_idem] at hlinked
    exact hlinked

theorem bindVcpu {vcpu : Nat} (h : Consistent hasVcpu x) :
    Consistent hasVcpu (x.bindVcpu hasVcpu port vcpu).2 := by
  unfold Domain.bindVcpu
  dsimp only
  split
  · exact h
  split
  · exact h
  next hn =>
  split
  · exact h
  split
  · next hs =>
    split
    · next hg =>
      -- a global interrupt stays entered at vCPU 0
      refine h.setBound rfl ?_ rfl ?_ rfl rfl ?_
      · simp [Channel.virqSlot, hg]
      · simp [Channel.pirqVcpu, hs]
      · intro _ hf
        rw [hs] at hf
        cases hf
    · exact h
  · next hs =>
    refine h.setBound rfl (by simp [Channel.virqSlot, hs]) rfl (by simp [Channel.pirqVcpu, hs])
      rfl rfl fun _ hf => ?_
    rw [hs] at hf
    cases hf
  · next hs =>
    refine h.setBound rfl (by simp [Channel.virqSlot, hs]) rfl (by simp [Channel.pirqVcpu, hs])
      rfl rfl fun _ hf => ?_
    rw [hs] at hf
    cases hf
  · next hs =>
    split
    · exact h
    · exact h.movePirq (Nat.lt_of_not_le hn) hs
  iterate 3 exact h

theorem clearFlag (h : Consistent hasVcpu x) :
    Consistent hasVcpu (x.setChn port { x.evtchn port with consumerIsXen := false }) :=
  h.setBound rfl rfl rfl rfl rfl rfl fun hn hf => ⟨(h.free port hn hf).1, rfl⟩

/-- A channel that no table names is freed. -/
theorem freePort (h : Consistent hasVcpu x) (hs : (x.evtchn port).state.Plain)
    (hr : (x.evtchn port).state ≠ .reserved) (hx : (x.evtchn port).consumerIsXen = false) :
    Consistent hasVcpu (x.freePort port) :=
  h.setPlain hs hr ⟨by simp, by simp⟩ fun _ => ⟨rfl, hx⟩

theorem init : Consistent hasVcpu Domain.init where
  reserved := rfl
  alive _ := by decide
  free p _ hs := by
    by_cases hp : p = 0
    · subst hp
      cases hs
    · unfold Domain.init
      dsimp only
      rw [Function.update_of_ne hp]
      exact ⟨rfl, rfl⟩
  virq k p hp := by
    rw [Domain.view_eq_none (Channel.virqSlot_plain (Domain.init_plain p))]
    exact ⟨fun he => absurd he.symm hp, fun he => by cases he⟩
  vcpu p k hk := by
    rw [Domain.view_eq_none (Channel.virqSlot_plain (Domain.init_plain p))] at hk
    cases hk
  pirq i p hp := by
    rw [Domain.view_eq_none (Channel.pirqIrq_plain (Domain.init_plain p))]
    exact ⟨fun he => absurd he.symm hp, fun he => by cases he⟩
  lists v := by
    refine ⟨[], .nil, fun p => ?_⟩
    rw [Domain.view_eq_none (Channel.pirqVcpu_plain (Domain.init_plain p))]
    simp

/-- `evtchn_destroy` takes the table away when all of it is closed. -/
theorem finish (h : Consistent hasVcpu x) (hd : x.isDying)
    (hc : ∀ p < x.nrPorts, (x.evtchn p).Closed) :
    Consistent hasVcpu { x with nrPorts := 0 } := by
  have hview {α : Type} {f : Channel → Option α} (hf : ∀ {c : Channel}, c.state.Plain → f c = none) :
      Domain.view f { x with nrPorts := 0 } = x.view f := by
    funext p
    symm
    show x.view f p = none
    by_cases hp : p < x.nrPorts
    · refine Domain.view_eq_none (hf ?_)
      rcases hc p hp with hs | hs
      · rw [hs]
        exact ⟨by simp, by simp⟩
      · rw [hs]
        exact ⟨by simp, by simp⟩
    · exact if_neg hp
  refine h.of_views ⟨h.reserved, ?_, ?_⟩ rfl rfl rfl (hview Channel.virqSlot_plain)
    (hview Channel.pirqIrq_plain) (hview Channel.pirqVcpu_plain) fun _ _ => ⟨rfl, rfl⟩
  · intro hnd
    change x.isDying = false at hnd
    rw [hd] at hnd
    cases hnd
  · intro p hp
    exact absurd hp (Nat.not_lt_zero p)

end Consistent

/-! ## Operations on two domains -/

def World.Consistent (P : Platform) (w : World) : Prop :=
  ∀ d, Evtchn.Consistent (P.hasVcpu d) (w.dom d)

namespace World.Consistent

variable {P : Platform} {w : World}

theorem setDom {d : Dom} {x : Domain} (h : w.Consistent P)
    (hx : Evtchn.Consistent (P.hasVcpu d) x) : (w.setDom d x).Consistent P := by
  intro d'
  by_cases hd : d' = d
  · subst hd
    rw [setDom_self]
    exact hx
  · rw [setDom_of_ne w hd]
    exact h d'

theorem setTwo {d₁ d₂ : Dom} {p₁ p₂ : Port} {c₁ c₂ : Channel} (h : w.Consistent P)
    (hs₁ : (w.chn d₁ p₁).state.Plain) (hr₁ : (w.chn d₁ p₁).state ≠ .reserved)
    (hs₂ : (w.chn d₂ p₂).state.Plain) (hr₂ : (w.chn d₂ p₂).state ≠ .reserved)
    (hc₁ : c₁.state.Plain) (hf₁ : c₁.state ≠ .free ∧ c₁.state ≠ .reserved) (hc₂ : c₂.state.Plain)
    (hf₂ : c₂.state = .free → c₂.notifyVcpuId = 0 ∧ c₂.consumerIsXen = false) :
    let w' := w.setDom d₁ ((w.dom d₁).setChn p₁ c₁)
    (w'.setDom d₂ ((w'.dom d₂).setChn p₂ c₂)).Consistent P := by
  intro w'
  have h' : w'.Consistent P :=
    h.setDom ((h d₁).setPlain hs₁ hr₁ hc₁ fun hf => absurd hf hf₁.1)
  have hchn : (w'.chn d₂ p₂).state.Plain ∧ (w'.chn d₂ p₂).state ≠ .reserved := by
    by_cases he : (d₂, p₂) = (d₁, p₁)
    · cases he
      have : w'.chn d₁ p₁ = c₁ := by
        unfold World.chn
        rw [setDom_self, Domain.setChn_self]
      rw [this]
      exact ⟨hc₁, hf₁.2⟩
    · rw [World.chn_setChn_of_ne he]
      exact ⟨hs₂, hr₂⟩
  exact h'.setDom ((h' d₂).setPlain hchn.1 hchn.2 hc₂ hf₂)

theorem bindInterdomain {a : Answers} {xsm : Bool} {ld rd : Dom} {rport : Port} (h : w.Consistent P) :
    (evtchnBindInterdomain P a xsm ld rd rport w).2.Consistent P := by
  unfold evtchnBindInterdomain
  split
  · next hp => exact h.setDom ((h ld).getFreePort hp)
  next lport y hp =>
  have hy : (w.setDom ld y).Consistent P := h.setDom ((h ld).getFreePort hp)
  dsimp only
  split
  · exact hy
  split
  · exact hy
  next hwait =>
  split
  · exact hy
  rw [not_or, not_not] at hwait
  have hfree : ((w.setDom ld y).chn ld lport).state = .free := by
    unfold World.chn
    rw [setDom_self]
    exact (Domain.getFreePort_ok hp).2.2.2
  refine hy.setTwo ?_ ?_ ?_ ?_ ⟨by simp, by simp⟩ ⟨by simp, by simp⟩ ⟨by simp, by simp⟩
    fun hf => by cases hf
  · rw [hfree]
    exact ⟨by simp, by simp⟩
  · simp [hfree]
  · rw [hwait.1]
    exact ⟨by simp, by simp⟩
  · simp [hwait.1]

theorem closePeer {d1 d2 : Dom} {port1 : Port} {rc : Except Errno Unit} {w' : World}
    (h : w.Consistent P) (hs : (w.chn d1 port1).state = .interdomain)
    (hx : (w.chn d1 port1).consumerIsXen = false)
    (hout : closePeer P d1 port1 d2 w = .done rc w') : w'.Consistent P := by
  unfold Evtchn.closePeer at hout
  dsimp only at hout
  split at hout
  · cases hout
  split at hout
  · cases hout
  next hs2 =>
  split at hout
  · cases hout
  cases hout
  rw [not_not] at hs2
  refine h.setTwo
    ?_ ?_ ?_ ?_ ⟨by simp, by simp⟩ ⟨by simp, by simp⟩ ⟨by simp, by simp⟩ fun _ => ⟨rfl, ?_⟩
  · rw [hs2]
    exact ⟨by simp, by simp⟩
  · simp [hs2]
  · rw [hs]
    exact ⟨by simp, by simp⟩
  · simp [hs]
  · -- the flag of the channel that is freed has been tested before
    show (World.chn _ d1 port1).consumerIsXen = false
    by_cases he : (d1, port1) = (d2, (w.chn d1 port1).key)
    · rw [Prod.mk.injEq] at he
      unfold World.chn
      rw [← he.1, setDom_self]
      by_cases hp : port1 = ((w.dom d1).evtchn port1).key
      · rw [← hp, Domain.setChn_self]
        exact hx
      · rw [Domain.setChn_of_ne _ hp]
        exact hx
    · rw [World.chn_setChn_of_ne he]
      exact hx

theorem close {d1 : Dom} {port1 : Port} {seen : Option Dom} {rc : Except Errno Unit} {w' : World}
    (h : w.Consistent P) (hout : evtchnClose P d1 port1 seen w = .done rc w') :
    w'.Consistent P := by
  unfold evtchnClose at hout
  dsimp only at hout
  split at hout
  · cases hout
    exact h
  next hn =>
  have hn' : port1 < (w.dom d1).nrPorts := Nat.lt_of_not_le hn
  split at hout
  · cases hout
    exact h
  next hxen =>
  have hx : ((w.dom d1).evtchn port1).consumerIsXen = false := by simpa using hxen
  split at hout
  · cases hout
    exact h
  · cases hout
    exact h
  · next hs =>
    cases hout
    refine h.setDom ((h d1).freePort ?_ (by simp [hs]) hx)
    rw [hs]
    exact ⟨by simp, by simp⟩
  · next hs =>
    cases hout
    refine h.setDom ((h d1).freePort ?_ (by simp [hs]) hx)
    rw [hs]
    exact ⟨by simp, by simp⟩
  · next hs =>
    cases hout
    exact h.setDom ((h d1).closePirq hn' hs hx)
  · next hs =>
    cases hout
    exact h.setDom ((h d1).closeVirq hn' hs hx)
  · next hs =>
    split at hout
    · split at hout
      · cases hout
      · split at hout
        · cases hout
        · exact h.closePeer hs hx hout
    · split at hout
      · cases hout
        exact h
      · exact h.closePeer hs hx hout

theorem closed {t : Nat} {d1 : Dom} {port1 : Port} {seen : Option Dom} {after : Option Call}
    {waiting : Dom → Call} {w' : World} (h : w.Consistent P)
    (hw : w.closed t (evtchnClose P d1 port1 seen w) after waiting = .ok w') :
    w'.Consistent P := by
  rcases World.closed_cases hw with ⟨rc, w₁, hout, rfl⟩ | ⟨d2, -, rfl⟩
  · intro d
    exact h.close hout d
  · exact h

end World.Consistent

/-! ## Runs -/

variable {P : Platform}

theorem Call.step_consistent {w w' : World} {t : Nat} {c : Call} (hinv : Inv P w)
    (h : w.Consistent P) (ht : w.calls t = some c) (hw : c.step P t w = .ok w') :
    w'.Consistent P := by
  have hok := hinv.calls t c ht
  cases c with
  | close d port seen => exact h.closed hw
  | reset d i seen =>
    unfold Call.step at hw
    dsimp only at hw
    split at hw
    · cases hw
      exact h
    · exact h.closed hw
  | freeXen d port seen => exact h.closed hw
  | destroy d i =>
    unfold Call.step at hw
    dsimp only at hw
    split at hw
    · next hi =>
      split at hw
      · cases hw
      cases hw
      exact h.setDom ((h d).finish hok.1 fun p hp => hok.2 p (Nat.lt_of_lt_of_le hp hi) hp)
    · cases hw
      exact h.setDom (h d).clearFlag
  | destroyClose d i seen => exact h.closed hw

theorem Step.run_consistent {w w' : World} (s : Step) (hinv : Inv P w) (h : w.Consistent P)
    (hw : s.run P w = .ok w') : w'.Consistent P := by
  cases s with
  | allocUnbound d a xsm remoteDomid =>
    cases hw
    exact h.setDom (h d).allocUnbound
  | bindInterdomain ld rd a xsm rport =>
    cases hw
    exact h.bindInterdomain
  | bindVirq d a virq vcpu =>
    cases hw
    exact h.setDom (h d).bindVirq
  | bindIpi d a vcpu =>
    cases hw
    exact h.setDom (h d).bindIpi
  | bindPirq d a permitted bound pirq =>
    cases hw
    exact h.setDom (h d).bindPirq
  | bindVcpu d port vcpu =>
    cases hw
    exact h.setDom (h d).bindVcpu
  | allocUnboundXen d a vcpu remoteDomid =>
    cases hw
    exact h.setDom (h d).allocUnboundXen
  | close t d port =>
    unfold Step.run at hw
    dsimp only at hw
    split at hw
    · cases hw
      exact h
    · exact h.closed hw
  | reset t d =>
    unfold Step.run at hw
    dsimp only at hw
    split at hw
    · cases hw
      exact h
    · cases hw
      exact h
  | freeXen t d port =>
    unfold Step.run at hw
    dsimp only at hw
    split at hw
    · cases hw
      exact h
    · split at hw
      · cases hw
      · cases hw
        exact h.setDom (h d).clearFlag
  | kill t d =>
    unfold Step.run at hw
    dsimp only at hw
    split at hw
    · cases hw
      exact h
    · cases hw
      have htidy : Tidy { w.dom d with isDying := true } :=
        ⟨(h d).reserved, (by intro hd; cases hd), (h d).free⟩
      exact h.setDom ((h d).of_views htidy rfl rfl rfl rfl rfl rfl fun _ _ => ⟨rfl, rfl⟩)
  | drop d =>
    unfold Step.run at hw
    dsimp only at hw
    split at hw
    · cases hw
      exact h.setDom ((h d).of_views ((h d).toTidy.of_bare rfl rfl fun _ => rfl) rfl rfl rfl
        rfl rfl rfl fun _ _ => ⟨rfl, rfl⟩)
    · cases hw
      exact h
  | reuse d port c =>
    unfold Step.run at hw
    dsimp only at hw
    rw [hinv.intact d port, if_neg Bool.false_ne_true] at hw
    cases hw
    exact h
  | next t =>
    unfold Step.run at hw
    dsimp only at hw
    split at hw
    · cases hw
      exact h
    · next ht => exact Call.step_consistent hinv h ht hw

theorem runSteps_consistent {w w' : World} (steps : List Step) (hinv : Inv P w)
    (h : w.Consistent P) (hl : Labelled P steps w) (hw : runSteps P steps w = .ok w') :
    w'.Consistent P := by
  induction steps generalizing w with
  | nil =>
    cases hw
    exact h
  | cons s rest ih =>
    have hs := s.run_safe hinv hl.1
    unfold runSteps at hw
    split at hw
    · cases hw
    · next w₁ hw₁ =>
      rw [hw₁] at hs
      exact ih hs (s.run_consistent hinv h hw₁) (hl.2 w₁ hw₁) hw

/-- What the tables of a domain say, in terms of its channels. -/
structure TablesAgree (x : Domain) : Prop where
  virq : ∀ v q port, port ≠ 0 → (x.virqToEvtchn v q = port ↔
    port < x.nrPorts ∧ (x.evtchn port).state = .virq ∧ (x.evtchn port).key = q ∧
      if virqIsGlobal q then v = 0 else (x.evtchn port).notifyVcpuId = v)
  pirq : ∀ i port, port ≠ 0 → (x.pirqToEvtchn i = port ↔
    port < x.nrPorts ∧ (x.evtchn port).state = .pirq ∧ (x.evtchn port).key = i)
  /-- `evtchn_move_pirqs` visits the ports of `v`, each of them once. -/
  list : ∀ v, ∃ l, DList x.next x.prev (x.pirqEvtchnHead v) l ∧
    (∀ port, port ∈ l ↔ port < x.nrPorts ∧ (x.evtchn port).state = .pirq ∧
      (x.evtchn port).notifyVcpuId = v) ∧
    ∀ fuel, l.length ≤ fuel → x.movePirqs fuel (x.pirqEvtchnHead v) = some l
  free : ∀ port < x.nrPorts, (x.evtchn port).state = .free →
    (x.evtchn port).notifyVcpuId = 0 ∧ (x.evtchn port).consumerIsXen = false

theorem Channel.virqSlot_eq_some {c : Channel} {v q : Nat} :
    c.virqSlot = some (v, q) ↔
      c.state = .virq ∧ c.key = q ∧ if virqIsGlobal q then v = 0 else c.notifyVcpuId = v := by
  unfold virqSlot
  by_cases hs : c.state = .virq
  · rw [if_pos hs, Option.some.injEq, Prod.mk.injEq]
    constructor
    · rintro ⟨hv, rfl⟩
      refine ⟨hs, rfl, ?_⟩
      split at hv
      · next hg =>
        rw [if_pos hg]
        exact hv.symm
      · next hg =>
        rw [if_neg hg]
        exact hv
    · rintro ⟨-, rfl, hv⟩
      refine ⟨?_, rfl⟩
      split at hv
      · next hg =>
        rw [if_pos hg]
        exact hv.symm
      · next hg =>
        rw [if_neg hg]
        exact hv
  · simp [hs]

theorem Channel.pirqIrq_eq_some {c : Channel} {i : Nat} :
    c.pirqIrq = some i ↔ c.state = .pirq ∧ c.key = i := by
  unfold pirqIrq
  split <;> simp [*]

theorem Channel.pirqVcpu_eq_some {c : Channel} {v : Nat} :
    c.pirqVcpu = some v ↔ c.state = .pirq ∧ c.notifyVcpuId = v := by
  unfold pirqVcpu
  split <;> simp [*]

theorem Consistent.tablesAgree {hasVcpu : Nat → Bool} {x : Domain} (h : Consistent hasVcpu x) :
    TablesAgree x where
  virq v q port hp := by
    rw [h.virq (v, q) port hp, Domain.view_eq_some, Channel.virqSlot_eq_some]
  pirq i port hp := by
    rw [h.pirq i port hp, Domain.view_eq_some, Channel.pirqIrq_eq_some]
  list v := by
    obtain ⟨l, hl, hm⟩ := h.lists v
    obtain ⟨b', hpath⟩ := hl.path
    refine ⟨l, hl, fun port => ?_, fun fuel hf => Domain.movePirqs_path hpath hf⟩
    rw [hm, Domain.view_eq_some, Channel.pirqVcpu_eq_some]
  free := h.free

/-- From freshly initialised domains, every interleaving of the operations in which the
channels of new buckets get their labels, with whatever other failures on the way, leaves
the tables of every domain in agreement with its channels. -/
theorem runSteps_tablesAgree (P : Platform) (steps : List Step) (w : World)
    (hl : Labelled P steps World.init) (h : runSteps P steps World.init = .ok w) (d : Dom) :
    TablesAgree (w.dom d) :=
  (runSteps_consistent steps Inv.init (fun _ => .init) hl h d).tablesAgree

/-- Two physical interrupts, one of which moves to vCPU 1, and a virtual one that
takes the port of the other. -/
def movedPirq : List Step :=
  [.bindPirq 0 .all true true 9, .bindPirq 0 .all true true 5, .bindVcpu 0 2 1, .close 0 0 1,
    .bindVirq 0 .all 0 1]

theorem runSteps_tablesAgree_movedPirq :
    ∃ w, runSteps .twoVcpus movedPirq World.init = .ok w ∧ TablesAgree (w.dom 0) ∧
      (w.dom 0).movePirqs 5 ((w.dom 0).pirqEvtchnHead 1) = some [2] ∧
      (w.dom 0).movePirqs 5 ((w.dom 0).pirqEvtchnHead 0) = some [] ∧
      (w.dom 0).virqToEvtchn 1 0 = 1 := by
  have hlabels {p : Prop} {x : Domain} {m : Nat} : p → x.Labelled m .all := fun _ _ _ _ => rfl
  refine ⟨_, rfl, runSteps_tablesAgree .twoVcpus movedPirq _ ⟨hlabels, fun _ _ => ?_⟩ rfl 0, rfl, rfl, rfl⟩
  exact ⟨hlabels, fun _ _ => ⟨trivial, fun _ _ => ⟨trivial, fun _ _ => ⟨hlabels, fun _ _ => trivial⟩⟩⟩⟩

/-- What is in the memory of a freed bucket may be a free channel that is bound to vCPU 1. -/
theorem runSteps_tablesAgree_freedBucket :
    ∃ w, runSteps .twoVcpus (freedBucket { Channel.zero with notifyVcpuId := 1 }) World.init = .ok w ∧
      ¬TablesAgree (w.dom 0) := by
  have hfree : (runSteps .twoVcpus (freedBucket { Channel.zero with notifyVcpuId := 1 })
      World.init).toOption.map (fun w => decide (128 < (w.dom 0).nrPorts ∧
        (w.chn 0 128).state = .free ∧ (w.chn 0 128).notifyVcpuId = 1)) = some true := by decide +kernel
  revert hfree
  generalize runSteps .twoVcpus _ World.init = r
  intro hfree
  cases r with
  | error b => cases hfree
  | ok w =>
    obtain ⟨hvalid, hstate, hvcpu⟩ := of_decide_eq_true (Option.some.inj hfree)
    refine ⟨w, rfl, fun h => ?_⟩
    have hzero := (h.free 128 hvalid hstate).1
    change (w.chn 0 128).notifyVcpuId = 0 at hzero
    rw [hvcpu] at hzero
    cases hzero

end Evtchn
