import MemoryMonitor.Hvm.Irq

/-!
# The virtual I/O APIC

`xen/arch/x86/hvm/vioapic.c` over the wires of `Hvm.Irq`. A pin that is triggered by level is
delivered once, and `remote_irr` is set until the guest ends the interrupt. Three places deliver:
the edge of the wire, a write to the redirection entry, and the end of the interrupt, if the wire
is still asserted.

With `iommu_enabled`, `vioapic_update_EOI` drops the lock between clearing `remote_irr` and looking
at the wire, so that the edge of the wire or another EOI can deliver the pin in between.
-/

namespace Hvm.Vioapic

/-! ## Redirection entries -/

/-- `vioapic_redir_entry`, as its bits. -/
abbrev Redirent := BitVec 64

namespace Redirent

variable (ent : Redirent)

def vector : Nat := ent.toNat % 256
def remoteIrr : Bool := ent.getLsbD 14
def trigMode : Bool := ent.getLsbD 15
def mask : Bool := ent.getLsbD 16

def setBit (i : Nat) (value : Bool) : Redirent :=
  if value then ent ||| BitVec.twoPow 64 i else ent &&& ~~~BitVec.twoPow 64 i

/-- What a guest write makes of an entry. Bit 12 is `delivery_status`. -/
def write (topWord : Bool) (val : BitVec 32) : Redirent :=
  if topWord then (ent.setWidth 32).setWidth 64 ||| (val.setWidth 64 <<< 32)
  else setBit (setBit ((ent >>> 32) <<< 32 ||| val.setWidth 64) 12 false) 14 (remoteIrr ent)

end Redirent

open Redirent

/-- What happens to a pin. -/
inductive Event where
  /-- `remote_irr = 1`, over the value it had. -/
  | setIrr (pin : Nat) (old : Bool)
  /-- `remote_irr = 0` in `vioapic_update_EOI`. -/
  | clearIrr (pin : Nat)
  /-- `vioapic_deliver`, with the `trig_mode` of the pin. -/
  | deliver (pin : Nat) (level : Bool)
  deriving DecidableEq

def Event.pin : Event → Nat
  | .setIrr pin _ => pin
  | .clearIrr pin => pin
  | .deliver pin _ => pin

/-- A call of `vioapic_update_EOI` that is in `hvm_dpci_eoi` for `gsi` and has the pins of `rest`
still to go. -/
structure Call where
  vector : Int
  gsi : Nat
  rest : List Nat

structure State where
  irq : Irq.State
  redirtbl : Nat → Redirent
  calls : List Call
  /-- What has happened, the newest first. -/
  log : List Event

namespace State

def setIrr (s : State) (pin : Nat) : State :=
  { s with
    redirtbl := Function.update s.redirtbl pin (setBit (s.redirtbl pin) 14 true)
    log := .setIrr pin (remoteIrr (s.redirtbl pin)) :: s.log }

def clearIrr (s : State) (pin : Nat) : State :=
  { s with
    redirtbl := Function.update s.redirtbl pin (setBit (s.redirtbl pin) 14 false)
    log := .clearIrr pin :: s.log }

/-- `vioapic_deliver`. -/
def deliver (s : State) (pin : Nat) : State :=
  { s with log := .deliver pin (trigMode (s.redirtbl pin)) :: s.log }

/-- `vioapic_irq_positive_edge`. -/
def irqPositiveEdge (s : State) (irq : Nat) : State :=
  let ent := s.redirtbl irq
  if mask ent then s
  else if !trigMode ent then s.deliver irq
  else if !remoteIrr ent then (s.setIrr irq).deliver irq
  else s

/-- `vioapic_write_redirent`. -/
def writeRedirent (s : State) (idx : Nat) (topWord : Bool) (val : BitVec 32) : State :=
  let ent := write (s.redirtbl idx) topWord val
  let s := { s with redirtbl := Function.update s.redirtbl idx ent }
  if idx = 0 then s
  else if trigMode ent ∧ !mask ent ∧ !remoteIrr ent ∧ s.irq.gsiCount idx ≠ 0 then (s.setIrr idx).deliver idx
  else s

/-- What follows `hvm_dpci_eoi` for a pin. -/
def recheck (s : State) (gsi : Nat) : State :=
  if trigMode (s.redirtbl gsi) ∧ !mask (s.redirtbl gsi) ∧ s.irq.gsiCount gsi ≠ 0 then (s.setIrr gsi).deliver gsi
  else s

/-- The loop of `vioapic_update_EOI`, until it is through or calls `hvm_dpci_eoi`. -/
def eoiLoop (iommuEnabled : Bool) (vector : Int) : List Nat → State → State
  | [], s => s
  | gsi :: rest, s =>
      if (Redirent.vector (s.redirtbl gsi) : Int) ≠ vector then eoiLoop iommuEnabled vector rest s
      else
        let s := s.clearIrr gsi
        if iommuEnabled then { s with calls := s.calls ++ [⟨vector, gsi, rest⟩] }
        else eoiLoop iommuEnabled vector rest (s.recheck gsi)

/-- `vioapic_update_EOI`. -/
def updateEoi (s : State) (iommuEnabled : Bool) (vector : Int) : State :=
  s.eoiLoop iommuEnabled vector (List.range Irq.numPins)

/-- A call comes back from `hvm_dpci_eoi` and takes the lock. -/
def resume (s : State) (iommuEnabled : Bool) (k : Nat) : State :=
  match s.calls[k]? with
  | none => s
  | some call =>
      let s := { s with calls := s.calls.eraseIdx k }
      (s.recheck call.gsi).eoiLoop iommuEnabled call.vector call.rest

/-- A change to the wires, with the edges that follow from it. -/
def wires (s : State) (step : Irq.Step) : State :=
  let irq := Irq.act step s.irq
  (irq.raised.drop s.irq.raised.length).foldl irqPositiveEdge { s with irq := irq }

end State

/-- Critical sections of `irq_lock`. -/
inductive Step where
  | wires (step : Irq.Step) (live : step.live)
  | writeRedirent (idx : Fin 48) (topWord : Bool) (val : BitVec 32)
  | updateEoi (vector : Int)
  | resume (k : Nat)

def act (iommuEnabled : Bool) (step : Step) (s : State) : State :=
  match step with
  | .wires step _ => s.wires step
  | .writeRedirent idx topWord val => s.writeRedirent idx topWord val
  | .updateEoi vector => s.updateEoi iommuEnabled vector
  | .resume k => s.resume iommuEnabled k

/-- `vioapic_reset`, in a domain that uses no pirqs. -/
def init : State where
  irq := Irq.init fun _ => false
  redirtbl _ := setBit 0 16 true
  calls := []
  log := []

/-! ## The property -/

/-- The pin is asserted and is to be delivered by level. -/
def State.Pending (s : State) (pin : Nat) : Prop :=
  trigMode (s.redirtbl pin) = true ∧ mask (s.redirtbl pin) = false ∧ s.irq.gsiCount pin ≠ 0

/-- A delivery by level goes with a rise of `remote_irr` just before it, and a rise with a delivery
just after it; between two deliveries an EOI has cleared it. -/
structure Exact (pin : Nat) (log : List Event) : Prop where
  rise : ∀ newer older, log = newer ++ .deliver pin true :: older → ∃ older', older = .setIrr pin false :: older'
  delivery : ∀ newer older, log = newer ++ .setIrr pin false :: older → ∃ newer', newer = newer' ++ [.deliver pin true]
  cleared : ∀ newer between older,
    log = newer ++ .deliver pin true :: (between ++ .deliver pin true :: older) → .clearIrr pin ∈ between

/-- A call that comes back finds that the pin has not been delivered in the meantime, or that there
is nothing to deliver. -/
def Settled (step : Step) (s : State) : Prop :=
  match step with
  | .resume k => ∀ call ∈ s.calls[k]?, call.gsi ≠ 0 → remoteIrr (s.redirtbl call.gsi) = true → ¬s.Pending call.gsi
  | _ => True

/-! ## Bits -/

theorem getLsbD_setBit (ent : Redirent) {i : Nat} (hi : i < 64) (value : Bool) (j : Nat) :
    (setBit ent i value).getLsbD j = if j = i then value else ent.getLsbD j := by
  unfold setBit
  by_cases hj : j = i
  · rw [if_pos hj, hj]
    cases value <;> simp [hi]
  · have hij : ¬i = j := fun h => hj h.symm
    rw [if_neg hj]
    cases value with
    | true => simp [BitVec.getLsbD_twoPow, hij]
    | false =>
      by_cases hw : j < 64
      · simp [hw, hj]
      · simp [hw, BitVec.getLsbD_of_ge ent j (Nat.le_of_not_lt hw)]

/-- A write leaves `remote_irr` alone. -/
theorem write_remoteIrr (ent : Redirent) (topWord : Bool) (val : BitVec 32) :
    remoteIrr (write ent topWord val) = remoteIrr ent := by
  unfold write
  cases topWord with
  | true => simp [remoteIrr]
  | false =>
    show (setBit (setBit _ 12 false) 14 (remoteIrr ent)).getLsbD 14 = _
    rw [getLsbD_setBit _ (by decide), if_pos rfl]

/-! ## Traces -/

/-- What can happen to a pin, and whether its `remote_irr` is set then. -/
inductive Traced (pin : Nat) : Bool → List Event → Prop
  | nil : Traced pin false []
  | clear {irr : Bool} {log : List Event} (h : Traced pin irr log) : Traced pin false (.clearIrr pin :: log)
  | fire {log : List Event} (h : Traced pin false log) : Traced pin true (.deliver pin true :: .setIrr pin false :: log)
  | edge {irr : Bool} {log : List Event} (h : Traced pin irr log) : Traced pin irr (.deliver pin false :: log)
  | other {irr : Bool} {log : List Event} {event : Event} (h : Traced pin irr log) (hne : event.pin ≠ pin) :
      Traced pin irr (event :: log)

variable {pin : Nat} {log : List Event}

theorem Traced.rise {irr : Bool} (h : Traced pin irr log) (newer : List Event) {older : List Event}
    (heq : log = newer ++ .deliver pin true :: older) :
    ∃ older', older = .setIrr pin false :: older' ∧ Traced pin false older' := by
  induction h generalizing newer with
  | nil => cases newer <;> simp at heq
  | clear h ih =>
    cases newer with
    | nil => exact Event.noConfusion (List.cons.inj heq).1
    | cons _ newer => exact ih newer (List.cons.inj heq).2
  | fire h ih =>
    rename_i log
    cases newer with
    | nil => exact ⟨log, (List.cons.inj heq).2.symm, h⟩
    | cons _ newer =>
      cases newer with
      | nil => exact Event.noConfusion (List.cons.inj (List.cons.inj heq).2).1
      | cons _ newer => exact ih newer (List.cons.inj (List.cons.inj heq).2).2
  | edge h ih =>
    cases newer with
    | nil => exact Bool.noConfusion (Event.deliver.inj (List.cons.inj heq).1).2
    | cons _ newer => exact ih newer (List.cons.inj heq).2
  | other h hne ih =>
    cases newer with
    | nil => exact absurd (congrArg Event.pin (List.cons.inj heq).1) hne
    | cons _ newer => exact ih newer (List.cons.inj heq).2

theorem Traced.delivery {irr : Bool} (h : Traced pin irr log) (newer : List Event) {older : List Event}
    (heq : log = newer ++ .setIrr pin false :: older) : ∃ newer', newer = newer' ++ [.deliver pin true] := by
  have step : ∀ {event : Event} {newer : List Event}, (∃ newer', newer = newer' ++ [.deliver pin true]) →
      ∃ newer', event :: newer = newer' ++ [.deliver pin true] := by
    intro event newer ⟨newer', h⟩
    exact ⟨event :: newer', congrArg (event :: ·) h⟩
  induction h generalizing newer with
  | nil => cases newer <;> simp at heq
  | clear h ih =>
    cases newer with
    | nil => exact Event.noConfusion (List.cons.inj heq).1
    | cons _ newer => exact step (ih newer (List.cons.inj heq).2)
  | fire h ih =>
    cases newer with
    | nil => exact Event.noConfusion (List.cons.inj heq).1
    | cons _ newer =>
      have htail := (List.cons.inj heq).2
      cases newer with
      | nil => exact ⟨[], congrArg ([·]) (List.cons.inj heq).1.symm⟩
      | cons _ newer => exact step (step (ih newer (List.cons.inj htail).2))
  | edge h ih =>
    cases newer with
    | nil => exact Event.noConfusion (List.cons.inj heq).1
    | cons _ newer => exact step (ih newer (List.cons.inj heq).2)
  | other h hne ih =>
    cases newer with
    | nil => exact absurd (congrArg Event.pin (List.cons.inj heq).1) hne
    | cons _ newer => exact step (ih newer (List.cons.inj heq).2)

/-- `remote_irr` is set by a delivery, and is clear only after an EOI. -/
theorem Traced.cleared (between : List Event) {older : List Event}
    (h : Traced pin false (between ++ .deliver pin true :: older)) : .clearIrr pin ∈ between := by
  induction between with
  | nil => cases h with
    | other _ hne => exact absurd rfl hne
  | cons event between ih =>
    cases h with
    | clear => exact List.mem_cons_self ..
    | edge h => exact List.mem_cons_of_mem _ (ih h)
    | other h _ => exact List.mem_cons_of_mem _ (ih h)

theorem Traced.exact {irr : Bool} (h : Traced pin irr log) : Exact pin log := by
  constructor
  · intro newer older heq
    rcases h.rise newer heq with ⟨older', hrise, -⟩
    exact ⟨older', hrise⟩
  · intro newer older heq
    exact h.delivery newer heq
  · intro newer between older heq
    rcases h.rise newer heq with ⟨older', hrise, hlow⟩
    -- the rise is the first of the events between the two deliveries
    cases between with
    | nil => exact Event.noConfusion (List.cons.inj hrise).1
    | cons event between =>
      rw [← (List.cons.inj hrise).2] at hlow
      exact List.mem_cons_of_mem _ (hlow.cleared between)

/-- An element of a list is still there after one has been taken out, or is that one. -/
theorem mem_eraseIdx_or_eq {α : Type} {l : List α} {k : Nat} {a b : α} (ha : l[k]? = some a) (hb : b ∈ l) :
    b ∈ l.eraseIdx k ∨ b = a := by
  rcases List.mem_iff_getElem?.1 hb with ⟨j, hj⟩
  by_cases hjk : j = k
  · rw [hjk, ha] at hj
    exact .inr (Option.some.inj hj).symm
  · exact .inl (List.mem_eraseIdx_iff_getElem?.2 ⟨j, hjk, hj⟩)

/-! ## One pin -/

namespace State

variable {s t u : State} {p : Nat}

/-- What holds of a pin: outside the windows of its EOIs it has been delivered if it is pending,
and its events are in order. -/
structure Inv (s : State) (p : Nat) : Prop where
  level : (∀ call ∈ s.calls, call.gsi ≠ p) → s.Pending p → remoteIrr (s.redirtbl p) = true
  traced : Traced p (remoteIrr (s.redirtbl p)) s.log

/-- The pin has been delivered some more, and that is all. -/
structure Advances (s t : State) (p : Nat) : Prop where
  irq : t.irq = s.irq
  calls : t.calls = s.calls
  trigMode : trigMode (t.redirtbl p) = trigMode (s.redirtbl p)
  mask : mask (t.redirtbl p) = mask (s.redirtbl p)
  remoteIrr : remoteIrr (s.redirtbl p) = true → remoteIrr (t.redirtbl p) = true
  traced : Traced p (Redirent.remoteIrr (s.redirtbl p)) s.log → Traced p (Redirent.remoteIrr (t.redirtbl p)) t.log

theorem advances_refl (s : State) (p : Nat) : Advances s s p := ⟨rfl, rfl, rfl, rfl, id, id⟩

theorem Advances.trans (h : Advances s t p) (h' : Advances t u p) : Advances s u p where
  irq := h'.irq.trans h.irq
  calls := h'.calls.trans h.calls
  trigMode := h'.trigMode.trans h.trigMode
  mask := h'.mask.trans h.mask
  remoteIrr hs := h'.remoteIrr (h.remoteIrr hs)
  traced hs := h'.traced (h.traced hs)

theorem Advances.pending (h : Advances s t p) : t.Pending p ↔ s.Pending p := by
  unfold Pending
  rw [h.trigMode, h.mask, h.irq]

/-- The entry of a pin after `remote_irr` of one has changed. -/
theorem update_irr (f : Nat → Redirent) (pin : Nat) (value : Bool) (p : Nat) :
    trigMode (Function.update f pin (setBit (f pin) 14 value) p) = trigMode (f p) ∧
    mask (Function.update f pin (setBit (f pin) 14 value) p) = mask (f p) ∧
    remoteIrr (Function.update f pin (setBit (f pin) 14 value) p) = if p = pin then value else remoteIrr (f p) := by
  have hbit := getLsbD_setBit (f pin) (show 14 < 64 by decide) value
  rw [Function.update_apply]
  by_cases hp : p = pin
  · rw [if_pos hp, if_pos hp, hp]
    refine ⟨(hbit 15).trans (if_neg (by decide)), (hbit 16).trans (if_neg (by decide)), (hbit 14).trans (if_pos rfl)⟩
  · rw [if_neg hp, if_neg hp]
    exact ⟨rfl, rfl, rfl⟩

/-- A pin that is triggered by level is delivered when its `remote_irr` is clear. -/
theorem advances_fire {pin : Nat} (htrig : pin = p → Redirent.trigMode (s.redirtbl p) = true)
    (hirr : pin = p → Redirent.remoteIrr (s.redirtbl p) = false) : Advances s ((s.setIrr pin).deliver pin) p := by
  rcases update_irr s.redirtbl pin true p with ⟨ht, hm, hr⟩
  refine ⟨rfl, rfl, ht, hm, fun hs => ?_, fun hs => ?_⟩
  · refine hr.trans ?_
    split
    · rfl
    · exact hs
  · by_cases hp : p = pin
    · have hlevel : Redirent.trigMode ((s.setIrr pin).redirtbl pin) = true := by
        rw [hp] at ht
        exact ht.trans ((congrArg _ (congrArg _ hp.symm)).trans (htrig hp.symm))
      have hlow := hirr hp.symm
      rw [hlow] at hs
      rw [if_pos hp] at hr
      show Traced p (Redirent.remoteIrr ((s.setIrr pin).redirtbl p)) (.deliver pin (Redirent.trigMode ((s.setIrr pin).redirtbl pin)) ::
        .setIrr pin (Redirent.remoteIrr (s.redirtbl pin)) :: s.log)
      rw [show Redirent.remoteIrr ((s.setIrr pin).redirtbl p) = true from hr, hlevel, ← hp, hlow]
      exact hs.fire
    · rw [if_neg hp] at hr
      show Traced p (Redirent.remoteIrr ((s.setIrr pin).redirtbl p)) (.deliver pin (Redirent.trigMode ((s.setIrr pin).redirtbl pin)) ::
        .setIrr pin (Redirent.remoteIrr (s.redirtbl pin)) :: s.log)
      rw [show Redirent.remoteIrr ((s.setIrr pin).redirtbl p) = _ from hr]
      have hset := hs.other (show (Event.setIrr pin (Redirent.remoteIrr (s.redirtbl pin))).pin ≠ p from fun h => hp h.symm)
      exact hset.other fun h => hp h.symm

theorem advances_irqPositiveEdge (s : State) (irq p : Nat) : Advances s (s.irqPositiveEdge irq) p ∧
    (irq = p → Redirent.trigMode (s.redirtbl p) = true → Redirent.mask (s.redirtbl p) = false →
      Redirent.remoteIrr ((s.irqPositiveEdge irq).redirtbl p) = true) := by
  unfold irqPositiveEdge
  dsimp only
  split
  · rename_i hmask
    refine ⟨s.advances_refl p, fun hp _ hm => ?_⟩
    rw [hp, hm] at hmask
    exact Bool.noConfusion hmask
  · split
    · rename_i hedge
      rw [Bool.not_eq_true'] at hedge
      constructor
      · refine ⟨rfl, rfl, rfl, rfl, id, fun hs => ?_⟩
        by_cases hp : irq = p
        · show Traced p _ (.deliver irq (Redirent.trigMode (s.redirtbl irq)) :: s.log)
          rw [hedge, hp]
          exact hs.edge
        · exact hs.other hp
      · intro hp ht _
        rw [hp, ht] at hedge
        exact Bool.noConfusion hedge
    · rename_i hlevel
      rw [Bool.not_eq_true', Bool.not_eq_false] at hlevel
      split
      · rename_i hirr
        rw [Bool.not_eq_true'] at hirr
        refine ⟨advances_fire (fun hp => hp ▸ hlevel) (fun hp => hp ▸ hirr), fun hp _ _ => ?_⟩
        exact (update_irr s.redirtbl irq true p).2.2.trans (if_pos hp.symm)
      · rename_i hirr
        rw [Bool.not_eq_true', Bool.not_eq_false] at hirr
        exact ⟨s.advances_refl p, fun hp _ _ => hp ▸ hirr⟩

/-- The edges of several wires. -/
theorem advances_edges (irqs : List Nat) (s : State) (p : Nat) : Advances s (irqs.foldl irqPositiveEdge s) p ∧
    (p ∈ irqs → Redirent.trigMode (s.redirtbl p) = true → Redirent.mask (s.redirtbl p) = false →
      Redirent.remoteIrr ((irqs.foldl irqPositiveEdge s).redirtbl p) = true) := by
  induction irqs generalizing s with
  | nil => exact ⟨s.advances_refl p, fun hp => absurd hp List.not_mem_nil⟩
  | cons irq rest ih =>
    rcases s.advances_irqPositiveEdge irq p with ⟨hone, hset⟩
    rcases ih (s.irqPositiveEdge irq) with ⟨hrest, hlater⟩
    refine ⟨hone.trans hrest, fun hp ht hm => ?_⟩
    rcases List.mem_cons.1 hp with hfirst | hin
    · exact hrest.remoteIrr (hset hfirst.symm ht hm)
    · exact hlater hin (hone.trigMode.trans ht) (hone.mask.trans hm)

/-! ## Critical sections -/

theorem wires_inv {step : Irq.Step} (hlive : step.live) (hc : s.irq.Counted) (hw : s.irq.Wired) (h : s.Inv p) :
    (s.wires step).irq = Irq.act step s.irq ∧ (s.wires step).Inv p := by
  rcases Irq.act_rises hlive hc hw with ⟨new, hraised, hnew⟩
  have hdrop : (Irq.act step s.irq).raised.drop s.irq.raised.length = new := by
    rw [hraised, List.drop_left]
  unfold wires
  dsimp only
  rw [hdrop]
  rcases advances_edges new { s with irq := Irq.act step s.irq } p with ⟨hadv, hset⟩
  generalize new.foldl irqPositiveEdge { s with irq := Irq.act step s.irq } = t at hadv hset
  refine ⟨hadv.irq, fun hout hpend => ?_, hadv.traced h.traced⟩
  rw [hadv.calls] at hout
  rcases hadv.pending.1 hpend with ⟨ht, hm, hcount⟩
  -- the pin was pending before, or its count has left zero
  by_cases hzero : s.irq.gsiCount p = 0
  · exact hset (hnew p hzero hcount) ht hm
  · exact hadv.remoteIrr (h.level hout ⟨ht, hm, hzero⟩)

theorem writeRedirent_inv (hp : p ≠ 0) (h : s.Inv p) (idx : Nat) (topWord : Bool) (val : BitVec 32) :
    (s.writeRedirent idx topWord val).irq = s.irq ∧ (s.writeRedirent idx topWord val).Inv p := by
  have hirr : Redirent.remoteIrr (Function.update s.redirtbl idx (write (s.redirtbl idx) topWord val) p) =
      Redirent.remoteIrr (s.redirtbl p) := by
    rw [Function.update_apply]
    split
    · rename_i hpin
      rw [hpin, write_remoteIrr]
    · rfl
  have hself : Function.update s.redirtbl idx (write (s.redirtbl idx) topWord val) idx =
      write (s.redirtbl idx) topWord val := Function.update_self ..
  have htraced : Traced p (Redirent.remoteIrr (Function.update s.redirtbl idx (write (s.redirtbl idx) topWord val) p))
      s.log := by
    rw [hirr]
    exact h.traced
  have hother : p ≠ idx → (∀ call ∈ s.calls, call.gsi ≠ p) →
      Pending { s with redirtbl := Function.update s.redirtbl idx (write (s.redirtbl idx) topWord val) } p →
      Redirent.remoteIrr (Function.update s.redirtbl idx (write (s.redirtbl idx) topWord val) p) = true := by
    intro hne hout ⟨ht, hm, hcount⟩
    rw [hirr]
    refine h.level hout ⟨?_, ?_, hcount⟩
    · exact (congrArg Redirent.trigMode (Function.update_of_ne hne _ s.redirtbl)).symm.trans ht
    · exact (congrArg Redirent.mask (Function.update_of_ne hne _ s.redirtbl)).symm.trans hm
  unfold writeRedirent
  dsimp only
  split
  · rename_i hzero
    refine ⟨rfl, fun hout hpend => ?_, htraced⟩
    exact hother (fun hpin => hp (hpin.trans hzero)) hout hpend
  · split
    · rename_i hcond
      rcases hcond with ⟨ht, hm, hr, hcount⟩
      rw [Bool.not_eq_true'] at hr
      have hadv := advances_fire (s := { s with
        redirtbl := Function.update s.redirtbl idx (write (s.redirtbl idx) topWord val) })
        (fun hpin : idx = p => hpin ▸ (congrArg Redirent.trigMode hself).trans ht)
        (fun hpin => hpin ▸ (congrArg Redirent.remoteIrr hself).trans hr)
      refine ⟨hadv.irq, fun hout hpend => ?_, hadv.traced htraced⟩
      by_cases hpin : p = idx
      · exact (update_irr _ idx true p).2.2.trans (if_pos hpin)
      · exact hadv.remoteIrr (hother hpin hout (hadv.pending.1 hpend))
    · rename_i hcond
      refine ⟨rfl, fun hout hpend => ?_, htraced⟩
      by_cases hpin : p = idx
      · rcases hpend with ⟨ht, hm, hcount⟩
        rw [hpin] at ht hm hcount ⊢
        dsimp only at ht hm ⊢
        rw [hself] at ht hm ⊢
        by_contra hr
        exact hcond ⟨ht, by rw [hm]; rfl, by rw [Bool.eq_false_of_not_eq_true hr]; rfl, hcount⟩
      · exact hother hpin hout hpend

/-- The pin is looked at again. It holds of it then whatever was before, if it has not been
delivered in the meantime. -/
theorem recheck_inv {gsi : Nat} (htraced : Traced p (Redirent.remoteIrr (s.redirtbl p)) s.log)
    (hother : gsi ≠ p → s.Inv p) (hsettled : gsi = p → Redirent.remoteIrr (s.redirtbl p) = true → ¬s.Pending p) :
    (s.recheck gsi).irq = s.irq ∧ (s.recheck gsi).calls = s.calls ∧ (s.recheck gsi).Inv p := by
  unfold recheck
  split
  · rename_i hcond
    rcases hcond with ⟨ht, hm, hcount⟩
    rw [Bool.not_eq_true'] at hm
    have hadv : Advances s ((s.setIrr gsi).deliver gsi) p := by
      refine advances_fire (fun hp => hp ▸ ht) fun hp => ?_
      by_contra hr
      rw [hp] at ht hm hcount
      exact hsettled hp (Bool.eq_true_of_not_eq_false hr) ⟨ht, hm, hcount⟩
    refine ⟨rfl, rfl, fun hout hpend => ?_, hadv.traced htraced⟩
    by_cases hp : gsi = p
    · exact (update_irr s.redirtbl gsi true p).2.2.trans (if_pos hp.symm)
    · exact hadv.remoteIrr ((hother hp).level hout (hadv.pending.1 hpend))
  · rename_i hcond
    refine ⟨rfl, rfl, fun hout hpend => ?_, htraced⟩
    by_cases hp : gsi = p
    · rcases hpend with ⟨ht, hm, hcount⟩
      rw [← hp] at ht hm hcount
      exact absurd ⟨ht, by rw [hm]; rfl, hcount⟩ hcond
    · exact (hother hp).level hout hpend

theorem clearIrr_traced (h : Traced p (Redirent.remoteIrr (s.redirtbl p)) s.log) (gsi : Nat) :
    Traced p (Redirent.remoteIrr ((s.clearIrr gsi).redirtbl p)) (s.clearIrr gsi).log := by
  have hr : Redirent.remoteIrr ((s.clearIrr gsi).redirtbl p) = if p = gsi then false else Redirent.remoteIrr (s.redirtbl p) :=
    (update_irr s.redirtbl gsi false p).2.2
  rw [hr]
  split
  · rename_i hp
    rw [← hp]
    exact h.clear
  · rename_i hp
    exact h.other fun he => hp he.symm

/-- Another pin is cleared. -/
theorem clearIrr_inv (h : s.Inv p) {gsi : Nat} (hne : gsi ≠ p) : (s.clearIrr gsi).Inv p := by
  rcases update_irr s.redirtbl gsi false p with ⟨ht, hm, hr⟩
  rw [if_neg fun he => hne he.symm] at hr
  refine ⟨fun hout hpend => ?_, clearIrr_traced h.traced gsi⟩
  rcases hpend with ⟨hpt, hpm, hcount⟩
  exact hr.trans (h.level hout ⟨ht.symm.trans hpt, hm.symm.trans hpm, hcount⟩)

theorem eoiLoop_inv (iommuEnabled : Bool) (vector : Int) (pins : List Nat) (h : s.Inv p) :
    (s.eoiLoop iommuEnabled vector pins).irq = s.irq ∧ (s.eoiLoop iommuEnabled vector pins).Inv p := by
  induction pins generalizing s with
  | nil => exact ⟨rfl, h⟩
  | cons gsi rest ih =>
    unfold eoiLoop
    split
    · exact ih h
    · dsimp only
      split
      · -- the call is in its window from here on
        refine ⟨rfl, fun hout hpend => ?_, clearIrr_traced h.traced gsi⟩
        have hne : gsi ≠ p := hout _ (List.mem_append_right _ (List.mem_singleton_self _))
        exact (clearIrr_inv h hne).level (fun call hcall => hout call (List.mem_append_left _ hcall)) hpend
      · have hclear : gsi = p → Redirent.remoteIrr ((s.clearIrr gsi).redirtbl p) = true →
            ¬(s.clearIrr gsi).Pending p := by
          intro hp hr
          rw [show Redirent.remoteIrr ((s.clearIrr gsi).redirtbl p) = _ from (update_irr s.redirtbl gsi false p).2.2,
            if_pos hp.symm] at hr
          exact Bool.noConfusion hr
        rcases recheck_inv (clearIrr_traced h.traced gsi) (clearIrr_inv h) hclear with ⟨hirq, -, hinv⟩
        rcases ih hinv with ⟨hrest, hend⟩
        exact ⟨hrest.trans hirq, hend⟩

theorem resume_inv (iommuEnabled : Bool) (k : Nat) (hp : p ≠ 0) (h : s.Inv p) (hsettled : Settled (.resume k) s) :
    (s.resume iommuEnabled k).irq = s.irq ∧ (s.resume iommuEnabled k).Inv p := by
  unfold resume
  split
  · exact ⟨rfl, h⟩
  · rename_i call hcall
    dsimp only
    have hother : call.gsi ≠ p → Inv { s with calls := s.calls.eraseIdx k } p := by
      intro hne
      refine ⟨fun hout hpend => h.level (fun c hc => ?_) hpend, h.traced⟩
      rcases mem_eraseIdx_or_eq hcall hc with hin | heq
      · exact hout c hin
      · rw [heq]
        exact hne
    have hquiet : call.gsi = p → Redirent.remoteIrr (s.redirtbl p) = true →
        ¬Pending { s with calls := s.calls.eraseIdx k } p := by
      intro hgsi hr hpend
      rw [← hgsi] at hr hpend hp
      exact hsettled call hcall hp hr hpend
    rcases recheck_inv (s := { s with calls := s.calls.eraseIdx k }) h.traced hother hquiet with ⟨hirq, -, hinv⟩
    rcases eoiLoop_inv iommuEnabled call.vector call.rest hinv with ⟨hrest, hend⟩
    exact ⟨hrest.trans hirq, hend⟩

end State

/-- What holds after any run. -/
structure Sound (s : State) : Prop where
  counted : s.irq.Counted
  wired : s.irq.Wired
  inv : ∀ p, p ≠ 0 → s.Inv p

theorem act_sound {iommuEnabled : Bool} {step : Step} {s : State} (hsettled : Settled step s) (h : Sound s) :
    Sound (act iommuEnabled step s) := by
  -- all but the wires leave the wires alone
  have hkeep : ∀ t : State, (∀ p, p ≠ 0 → t.irq = s.irq ∧ t.Inv p) → Sound t := by
    intro t ht
    have hirq := (ht 1 (by decide)).1
    refine ⟨?_, ?_, fun p hp => (ht p hp).2⟩
    · rw [hirq]
      exact h.counted
    · rw [hirq]
      exact h.wired
  cases step with
  | wires step live =>
    have hirq := (State.wires_inv live h.counted h.wired (h.inv 1 (by decide))).1
    have hadm : Irq.Admitted step s.irq ∧ step.inRange := by
      cases step with
      | load => exact False.elim live
      | _ => exact ⟨trivial, trivial⟩
    refine ⟨?_, ?_, fun p hp => (State.wires_inv live h.counted h.wired (h.inv p hp)).2⟩
    · show (s.wires step).irq.Counted
      rw [hirq]
      exact Irq.act_counted hadm.1 hadm.2 h.counted
    · show (s.wires step).irq.Wired
      rw [hirq]
      exact Irq.act_wired live h.wired
  | writeRedirent idx topWord val => exact hkeep _ fun p hp => State.writeRedirent_inv hp (h.inv p hp) ..
  | updateEoi vector => exact hkeep _ fun p hp => State.eoiLoop_inv _ _ _ (h.inv p hp)
  | resume k => exact hkeep _ fun p hp => State.resume_inv _ k hp (h.inv p hp) hsettled

theorem init_sound : Sound init := by
  refine ⟨Irq.init_counted _, ⟨fun _ => rfl, fun hvia => Irq.Via.noConfusion hvia⟩, fun p _ => ⟨fun _ hpend => ?_, ?_⟩⟩
  · exact absurd rfl hpend.2.2
  · have hclear : remoteIrr (setBit 0 16 true) = false := by decide
    show Traced p (remoteIrr (setBit 0 16 true)) []
    rw [hclear]
    exact .nil

/-- After a run whose EOIs come back to pins that have not been delivered in the meantime, a pin
that is pending has been delivered, unless one of its EOIs is in its window; and the deliveries are
the rises of `remote_irr`. -/
theorem run_level_delivered (iommuEnabled : Bool) (steps : List Step)
    (hsteps : Runs.Each (act iommuEnabled) Settled steps init) (p : Nat) (hp : p ≠ 0) :
    ((∀ call ∈ (Runs.run (act iommuEnabled) steps init).calls, call.gsi ≠ p) →
      (Runs.run (act iommuEnabled) steps init).Pending p →
      remoteIrr ((Runs.run (act iommuEnabled) steps init).redirtbl p) = true) ∧
    Exact p (Runs.run (act iommuEnabled) steps init).log := by
  have hsound : Sound (Runs.run (act iommuEnabled) steps init) :=
    hsteps.inv (fun step s hok h => act_sound hok h) init_sound
  exact ⟨(hsound.inv p hp).level, (hsound.inv p hp).traced.exact⟩

/-- Pin 16 by level with vector 0x31, wire 0 is asserted, and the guest ends the interrupt. -/
theorem run_level_delivered_eoi :
    let steps := [.writeRedirent 16 false 0x8031, .wires (.pciIntxAssert 0) trivial, .updateEoi 0x31, .resume 0]
    remoteIrr ((Runs.run (act true) steps init).redirtbl 16) = true ∧ Exact 16 (Runs.run (act true) steps init).log := by
  have hwindow : Settled (.resume 0) (Runs.run (act true) [.writeRedirent 16 false 0x8031,
      .wires (.pciIntxAssert 0) trivial, .updateEoi 0x31] init) := by
    intro call hcall _ hr
    have hgsi : call.gsi = 16 := by
      have hmap : ((Runs.run (act true) [.writeRedirent 16 false 0x8031, .wires (.pciIntxAssert 0) trivial,
          .updateEoi 0x31] init).calls[0]?).map (·.gsi) = some 16 := by decide +kernel
      rw [hcall] at hmap
      exact Option.some.inj hmap
    rw [hgsi] at hr
    exact absurd hr (by decide +kernel)
  have h := run_level_delivered true
    [.writeRedirent 16 false 0x8031, .wires (.pciIntxAssert 0) trivial, .updateEoi 0x31, .resume 0]
    ⟨trivial, trivial, trivial, hwindow, trivial⟩ 16 (by decide)
  refine ⟨h.1 ?_ ⟨?_, ?_, ?_⟩, h.2⟩
  · decide +kernel
  · decide +kernel
  · decide +kernel
  · decide +kernel

/-- The wire goes down and up again in the window, which delivers the pin, and the EOI delivers it
once more when it comes back. -/
theorem delivered_twice_in_window :
    ¬Exact 16 (Runs.run (act true) [.writeRedirent 16 false 0x8031, .wires (.pciIntxAssert 0) trivial, .updateEoi 0x31,
      .wires (.pciIntxDeassert 0) trivial, .wires (.pciIntxAssert 0) trivial, .resume 0] init).log := by
  intro h
  have hlog : (Runs.run (act true) [.writeRedirent 16 false 0x8031, .wires (.pciIntxAssert 0) trivial, .updateEoi 0x31,
      .wires (.pciIntxDeassert 0) trivial, .wires (.pciIntxAssert 0) trivial, .resume 0] init).log =
      [.deliver 16 true, .setIrr 16 true, .deliver 16 true, .setIrr 16 false, .clearIrr 16, .deliver 16 true,
        .setIrr 16 false] := by
    decide +kernel
  rcases h.rise [] _ hlog with ⟨older, holder⟩
  exact absurd holder (by simp)

end Hvm.Vioapic
