import MemoryMonitor.Hvm.Hpet

/-!
# The interrupts of the HPET's timers

A guest accesses the registers of the HPET, and between its accesses the platform timers go on. The
interrupt of a timer is an index of the two PICs and of the 16 ISA wires (`pt_irq_masked`, `pt_irq_vector`
and `hvm_isa_irq_assert`), and comes from a field of five bits that the guest writes.
-/

namespace Hvm.Vpt

variable {T V : Type} [DecidableEq T] [DecidableEq V]

/-- The step creates the timer. -/
def Creates (t : T) : Step T V → Prop
  | .create u _ | .createEnd u .. => u = t
  | _ => False

/-- The timer has the same interrupt in another state. -/
def SameIrq (t : T) (s s' : State T V) : Prop := (s'.pt t).irq = (s.pt t).irq

section
omit [DecidableEq V]

theorem SameIrq.setPt {t u : T} {s s' : State T V} {pt : Pt V} (h : SameIrq t s s') (hpt : pt.irq = (s'.pt u).irq) :
    SameIrq t s (s'.setPt u pt) := by
  refine Eq.trans ?_ h
  show (Function.update s'.pt u pt t).irq = _
  by_cases ht : t = u
  · rw [ht, Function.update_self, hpt]
  · rw [Function.update_of_ne ht]

theorem SameIrq.unlist {t u : T} {s s' : State T V} (h : SameIrq t s s') : SameIrq t s (s'.unlist u) :=
  show SameIrq t s (s'.setPt u { s'.pt u with onList := false }) from h.setPt rfl

theorem SameIrq.unlisted {t u : T} {s s' : State T V} (h : SameIrq t s s') {onList : Bool} :
    SameIrq t s (if onList then s'.unlist u else s') := by
  split
  · exact h.unlist
  · exact h

theorem sameIrq_destroyList (t u : T) (s : State T V) (create : Option (Creation V)) :
    SameIrq t s (s.destroyList u create) := by
  have hs : SameIrq t s s := rfl
  unfold State.destroyList
  split
  · exact hs
  · exact hs.unlisted.setPt rfl

theorem sameIrq_killTimer (t u : T) (s : State T V) : SameIrq t s (s.killTimer u) := by
  have hs : SameIrq t s s := rfl
  unfold State.killTimer
  split
  · exact hs.setPt rfl
  · exact hs

theorem sameIrq_destroy (t u : T) (s : State T V) : SameIrq t s (s.destroyPeriodicTime u) := by
  unfold State.destroyPeriodicTime
  split
  · exact (sameIrq_killTimer t u _).trans (sameIrq_destroyList t u s none)
  · rfl

theorem processMissedTicks_irq (pt : Pt V) (mode : Mode) (now : BitVec 64) :
    (pt.processMissedTicks mode now).irq = pt.irq := by
  unfold Pt.processMissedTicks
  dsimp only
  split
  · rfl
  · split
    · rfl
    · split <;> rfl

theorem post_irq (pt : Pt V) (mode : Mode) (now gtime : BitVec 64) : (pt.post mode now gtime).irq = pt.irq := by
  unfold Pt.post
  split
  · exact processMissedTicks_irq ..
  · dsimp only
    split
    · split <;> exact processMissedTicks_irq ..
    · rfl

theorem sameIrq_eachOf (t : T) (s : State T V) (ts : List T) {f : Pt V → Pt V} (hf : ∀ pt, (f pt).irq = pt.irq) :
    SameIrq t s (s.eachOf ts f) := by
  unfold SameIrq State.eachOf
  dsimp only
  generalize s.pt = pts
  induction ts generalizing pts with
  | nil => rfl
  | cons u rest ih =>
    rw [List.foldl_cons, ih]
    by_cases ht : t = u
    · rw [ht, Function.update_self, hf]
    · rw [Function.update_of_ne ht]

theorem sameIrq_updateIrq (t : T) (s : State T V) (v : V) (masked : T → Bool) :
    SameIrq t s (s.updateIrq v masked) := by
  have hloop : ∀ (ts : List T) (acc : State T V × BitVec 64 × Option T), SameIrq t s acc.1 →
      SameIrq t s (ts.foldl (State.lagging masked) acc).1 := by
    intro ts
    induction ts with
    | nil => exact fun _ hacc => hacc
    | cons u rest ih =>
      intro acc hacc
      apply ih
      unfold State.lagging
      dsimp only
      split
      · exact hacc
      · split
        · exact hacc.unlist
        · split <;> exact hacc
  have hend := hloop (s.tmList v) (s, -1, none) rfl
  unfold State.updateIrq
  split
  · rename_i heq
    rw [heq] at hend
    exact hend
  · rename_i heq
    rw [heq] at hend
    exact hend.setPt rfl

theorem sameIrq_intrPost (t : T) (s : State T V) (mode : Mode) (v : V) (hit : T → Bool) (now gtime : BitVec 64) :
    SameIrq t s (s.intrPost mode v hit now gtime) := by
  unfold State.intrPost
  split
  · rfl
  · rename_i u _
    dsimp only
    have hs : SameIrq t s s := rfl
    have hfirst : SameIrq t s (s.setPt u { s.pt u with irqIssued := false, delivered := (s.pt u).delivered + 1 }) :=
      hs.setPt rfl
    split
    · exact hfirst.unlisted.setPt rfl
    · exact hfirst.setPt (post_irq ..)

end

theorem sameIrq_createList {t u : T} (h : t ≠ u) (s : State T V) (vptAlign : Bool) (now gtime : BitVec 64) :
    SameIrq t s (s.createList vptAlign u now gtime) := by
  unfold State.createList
  split
  · exact congrArg Pt.irq (Function.update_of_ne h ..)
  · rfl

/-- Only its creation gives a timer an interrupt. -/
theorem act_sameIrq (params : Params) {step : Step T V} (t : T) (h : ¬ Creates t step) (s : State T V) :
    SameIrq t s (act params step s) := by
  have hs : SameIrq t s s := rfl
  cases step with
  | create u c =>
    unfold act
    dsimp only
    split
    · exact sameIrq_destroyList t u s (some c)
    · rfl
  | destroy u =>
    unfold act
    dsimp only
    split
    · exact sameIrq_destroyList t u s none
    · rfl
  | kill u => exact sameIrq_killTimer t u s
  | createEnd u now gtime => exact sameIrq_createList (fun ht => h ht.symm) s params.vptAlign now gtime
  | expire u =>
    unfold act State.timerFn
    dsimp only
    split
    · exact hs.setPt rfl
    · rfl
  | updateIrq v masked => exact sameIrq_updateIrq t s v masked
  | intrPost v hit now gtime => exact sameIrq_intrPost t s params.mode v hit now gtime
  | save v blocked =>
    unfold act State.saveTimer
    dsimp only
    split
    · rfl
    · refine sameIrq_eachOf t _ _ fun pt => ?_
      unfold Pt.freeze
      split <;> rfl
  | restore v now =>
    unfold act State.restoreTimer
    dsimp only
    refine sameIrq_eachOf t _ _ fun pt => ?_
    unfold Pt.restore
    split
    · exact processMissedTicks_irq ..
    · rfl
  | resume u =>
    unfold act State.resume
    dsimp only
    split
    · rfl
    · split
      · exact hs.setPt rfl
      · rfl
  | adjust u v =>
    unfold act State.adjustVcpu
    dsimp only
    split
    · split
      · rfl
      · exact hs.unlisted
    · rfl
  | adjustEnd u =>
    unfold act State.adjustEnd
    dsimp only
    split
    · rename_i v onList _
      have hmoved : SameIrq t s ((s.setCall u none).setPt u { s.pt u with vcpu := some v }) := hs.setPt rfl
      split
      · refine hmoved.setPt (u := u) ?_
        rfl
      · exact hmoved
    · rfl

/-- A timer that is created has the interrupt it is given, or that it had if another call for it is under way. -/
theorem createPeriodicTime_irq (s : State T V) (vptAlign : Bool) (t : T) (c : Creation V) (now gtime : BitVec 64) :
    ((s.createPeriodicTime vptAlign t c now gtime).pt t).irq = c.irq ∨
      SameIrq t s (s.createPeriodicTime vptAlign t c now gtime) := by
  unfold State.createPeriodicTime
  split
  · left
    rw [State.createList_eq (s.kill_creating t c)]
    exact congrArg Pt.irq (Function.update_self t _ ((s.destroyList t (some c)).killTimer t).pt)
  · exact .inr rfl

/-- Another timer keeps its interrupt. -/
theorem sameIrq_createPeriodicTime {t u : T} (h : t ≠ u) (s : State T V) (vptAlign : Bool) (c : Creation V)
    (now gtime : BitVec 64) : SameIrq t s (s.createPeriodicTime vptAlign u c now gtime) := by
  unfold State.createPeriodicTime
  split
  · exact (sameIrq_createList h _ vptAlign now gtime).trans
      ((sameIrq_killTimer t u _).trans (sameIrq_destroyList t u s (some c)))
  · rfl

end Hvm.Vpt

namespace Hvm.Hpet

variable {O V : Type} [DecidableEq O] [DecidableEq V]

/-! ## Accesses -/

/-- Accesses of the guest to the registers, and what the platform timers do otherwise: the timers of the HPET
are created by writes to its registers only. -/
inductive Step (O V : Type) where
  | read (env : Env O V) (addr len : BitVec 64)
  | write (env : Env O V) (addr len val : BitVec 64)
  | platform (params : Vpt.Params) (step : Vpt.Step (Fin 3 ⊕ O) V) (hother : ∀ tn, ¬ Vpt.Creates (.inl tn) step)

def act (step : Step O V) (s : State O V) : State O V :=
  match step with
  | .read env addr len => s.read env addr len
  | .write env addr len val => s.write env addr len val
  | .platform params step _ => { s with vpt := Vpt.act params step s.vpt }

/-- `hpet_init`, in a domain none of whose timers has been created. -/
def State.init (source : O → Vpt.Source) : State O V where
  regs := .init
  vpt := Vpt.init (Sum.elim (fun _ => .isa) source)
  crashed := false

/-- The interrupts of the timers are ISA interrupts, each at one of the two PICs. -/
def State.IrqsInRange (s : State O V) : Prop :=
  ∀ tn, (s.vpt.pt (.inl tn)).irq.toNat ≤ 15 ∧ (s.vpt.pt (.inl tn)).irq.toNat >>> 3 < 2

/-- The timer, if it is enabled, gets its interrupt from legacy replacement or has a route below 16. -/
def Regs.Routed (h : Regs) (tn : Fin 3) : Prop :=
  (h.timers tn).enabled = true → (tn.val ≤ 1 ∧ h.legacy = true) ∨ (h.timers tn).intRoute.toNat ≤ 15

instance (h : Regs) (tn : Fin 3) : Decidable (h.Routed tn) := inferInstanceAs (Decidable (_ → _))

/-- The timers that a write starts are routed to ISA interrupts. -/
def StartsRouted : Step O V → State O V → Prop
  | .write env addr len val, s =>
      ∀ tn ∈ (s.regs.write env.gtime addr len val).start, (s.regs.write env.gtime addr len val).regs.Routed tn
  | _, _ => True

instance (step : Step O V) (s : State O V) : Decidable (StartsRouted step s) := by
  cases step
  · exact inferInstanceAs (Decidable True)
  · exact inferInstanceAs (Decidable (∀ _ ∈ _, _))
  · exact inferInstanceAs (Decidable True)

theorem Regs.Routed.irq_le {h : Regs} {tn : Fin 3} (hrouted : h.Routed tn) (henabled : (h.timers tn).enabled = true) :
    (h.irq tn).toNat ≤ 15 := by
  unfold Regs.irq
  by_cases hlegacy : (decide (tn.val ≤ 1) && h.legacy) = true
  · rw [if_pos hlegacy]
    split <;> decide
  · rw [if_neg hlegacy, BitVec.toNat_setWidth]
    rcases hrouted henabled with hreplaced | hroute
    · refine absurd ?_ hlegacy
      rw [decide_eq_true hreplaced.1, hreplaced.2]
      rfl
    · exact Nat.le_trans (Nat.mod_le _ _) hroute

/-- What looking at a comparator leaves alone. -/
theorem Regs.getComparator_routed (h : Regs) (gtime : BitVec 64) (tn u : Fin 3) :
    (h.getComparator gtime tn).2.legacy = h.legacy ∧
      ((h.getComparator gtime tn).2.timers u).config = (h.timers u).config := by
  refine ⟨rfl, ?_⟩
  show (Function.update h.timers tn _ u).config = _
  by_cases hu : u = tn
  · rw [hu, Function.update_self]
  · rw [Function.update_of_ne hu]

theorem Regs.Routed.getComparator {h : Regs} {u : Fin 3} (hrouted : h.Routed u) (gtime : BitVec 64) (tn : Fin 3) :
    (h.getComparator gtime tn).2.Routed u := by
  have hsame := (h.getComparator_routed gtime tn u).2
  unfold Regs.Routed Timer.enabled Timer.intRoute at *
  rw [hsame]
  exact hrouted

namespace State

variable {s : State O V}

omit [DecidableEq O] [DecidableEq V] in
/-- Timers that keep their interrupts, or take one that is in range. -/
theorem IrqsInRange.of_irq (h : s.IrqsInRange) {s' : State O V}
    (hirq : ∀ tn, Vpt.SameIrq (.inl tn) s.vpt s'.vpt ∨ (s'.vpt.pt (.inl tn)).irq.toNat ≤ 15) : s'.IrqsInRange := by
  intro tn
  rcases hirq tn with hsame | hle
  · rw [hsame]
    exact h tn
  · refine ⟨hle, ?_⟩
    rw [Nat.shiftRight_eq_div_pow]
    omega

omit [DecidableEq V] in
theorem IrqsInRange.stopTimer (h : s.IrqsInRange) (env : Env O V) (tn : Fin 3) : (s.stopTimer env tn).IrqsInRange :=
  h.of_irq fun u => .inl (Vpt.sameIrq_destroy (.inl u) _ s.vpt)

theorem IrqsInRange.setTimer (h : s.IrqsInRange) {tn : Fin 3} (hrouted : s.regs.Routed tn) (env : Env O V) :
    (s.setTimer env tn).IrqsInRange := by
  have hpit : ∀ u : Fin 3, Vpt.SameIrq (.inl u) s.vpt
      (if tn = 0 && s.regs.legacy then s.vpt.destroyPeriodicTime (.inr env.pit0) else s.vpt) := by
    intro u
    split
    · exact Vpt.sameIrq_destroy (.inl u) _ s.vpt
    · rfl
  unfold State.setTimer
  dsimp only
  generalize (if tn = 0 && s.regs.legacy then s.vpt.destroyPeriodicTime (.inr env.pit0) else s.vpt) = vpt
    at hpit
  by_cases henabled : (s.regs.timers tn).enabled = true
  · rw [henabled, Bool.not_true, if_neg Bool.false_ne_true]
    apply h.of_irq
    intro u
    by_cases hu : u = tn
    · rw [hu]
      have hconfig := (s.regs.getComparator_routed env.gtime tn tn).2
      have hle := (hrouted.getComparator env.gtime tn).irq_le (by
        unfold Timer.enabled at *
        rw [hconfig]
        exact henabled)
      refine (Vpt.createPeriodicTime_irq vpt _ _ _ _ _).symm.imp (fun hsame => hsame.trans (hpit tn)) fun hnew => ?_
      rw [hnew]
      exact hle
    · left
      have hother : (Sum.inl tn : Fin 3 ⊕ O) ≠ .inl u := fun heq => hu (Sum.inl.inj heq).symm
      exact (Vpt.sameIrq_createPeriodicTime hother.symm vpt _ _ _ _).trans (hpit u)
  · rw [Bool.eq_false_of_not_eq_true henabled]
    exact h.of_irq fun u => .inl (hpit u)

theorem setTimer_routed (env : Env O V) (tn : Fin 3) {u : Fin 3} (hrouted : s.regs.Routed u) :
    (s.setTimer env tn).regs.Routed u := by
  unfold State.setTimer
  dsimp only
  split
  · exact hrouted
  · exact hrouted.getComparator env.gtime tn

omit [DecidableEq V] in
theorem IrqsInRange.stopAll (h : s.IrqsInRange) (env : Env O V) (stop : List (Fin 3)) {start : List (Fin 3)}
    (hrouted : ∀ tn ∈ start, s.regs.Routed tn) :
    (stop.foldl (fun s tn => s.stopTimer env tn) s).IrqsInRange ∧
      ∀ tn ∈ start, (stop.foldl (fun s tn => s.stopTimer env tn) s).regs.Routed tn := by
  induction stop generalizing s with
  | nil => exact ⟨h, hrouted⟩
  | cons u rest ih => exact ih (h.stopTimer env u) fun tn htn => (hrouted tn htn).getComparator env.gtime u

theorem IrqsInRange.startAll (h : s.IrqsInRange) (env : Env O V) {start : List (Fin 3)}
    (hrouted : ∀ tn ∈ start, s.regs.Routed tn) : (start.foldl (fun s tn => s.setTimer env tn) s).IrqsInRange := by
  induction start generalizing s with
  | nil => exact h
  | cons u rest ih =>
    have hfirst := h.setTimer (hrouted u List.mem_cons_self) env
    exact ih hfirst fun tn htn => setTimer_routed env u (hrouted tn (List.mem_cons_of_mem u htn))

end State

theorem act_inRange (step : Step O V) (s : State O V) (hrouted : StartsRouted step s) (h : s.IrqsInRange) :
    (act step s).IrqsInRange := by
  cases step with
  | read env addr len => exact h
  | write env addr len val =>
    -- the registers change first, then timers are stopped, then timers are started
    have hchanged : State.IrqsInRange ({ s with
        regs := (s.regs.write env.gtime addr len val).regs
        crashed := s.crashed || (s.regs.write env.gtime addr len val).crash } : State O V) := h
    have hstopped := hchanged.stopAll env (s.regs.write env.gtime addr len val).stop hrouted
    exact hstopped.1.startAll env hstopped.2
  | platform params step hother => exact h.of_irq fun tn => .inl (Vpt.act_sameIrq params _ (hother tn) s.vpt)

/-- In a run in which writes start timers with routes below 16 only, every timer has an ISA interrupt. -/
theorem run_irqs_in_range (source : O → Vpt.Source) (steps : List (Step O V))
    (h : Runs.Each act StartsRouted steps (State.init source)) :
    (Runs.run act steps (State.init source)).IrqsInRange := by
  apply Runs.Each.inv act_inRange h
  intro tn
  have hzero : ((State.init source : State O V).vpt.pt (.inl tn)).irq = 0 := rfl
  rw [hzero]
  decide

/-- The environment of an access. -/
private def boot : Env (Fin 1) (Fin 1) := ⟨⟨.delayForMissedTicks, false⟩, 0, 0, 0, 0⟩

/-- The first timer is routed to interrupt 2 and enabled. -/
theorem run_irqs_in_range_routed :
    (Runs.run act [.write boot 0x100 8 0x404, .write boot 0x10 8 1] (State.init fun _ : Fin 1 => .isa)).IrqsInRange :=
  run_irqs_in_range _ _ (by decide +kernel)

/-- The first timer is routed to interrupt 31 and enabled: it is created with that interrupt. -/
theorem run_irq_route31 :
    let s := Runs.run act [.write boot 0x100 8 0x3e04, .write boot 0x10 8 1] (State.init fun _ : Fin 1 => .isa)
    (s.vpt.pt (.inl 0)).onList = true ∧ (s.vpt.pt (.inl 0)).irq = 31 ∧ ¬ s.IrqsInRange := by
  refine ⟨by decide +kernel, by decide +kernel, fun h => ?_⟩
  exact absurd (h 0).1 (by decide +kernel)

end Hvm.Hpet
