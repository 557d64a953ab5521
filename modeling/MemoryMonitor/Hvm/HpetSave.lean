import MemoryMonitor.Hvm.HpetRuns

/-!
# Saving and loading the HPET

`hpet_save` and `hpet_load`. The record has the main counter and, of each timer, the comparator that is
hidden; the timers that are enabled are started when it is loaded. The record's length and its place in the
image are not here.
-/

namespace Hvm.Hpet

/-- What is saved of a timer. -/
structure SavedTimer where
  config : BitVec 64
  cmp : BitVec 64
  fsb : BitVec 64
  period : BitVec 64

/-- `hvm_hw_hpet`. -/
structure Record where
  capability : BitVec 64
  config : BitVec 64
  isr : BitVec 64
  mc64 : BitVec 64
  timers : Fin 3 → SavedTimer

namespace Regs

variable (h : Regs) (gtime : BitVec 64)

/-- What `hpet_save` does to the registers. -/
def saved : Regs := { h with mc64 := h.mcOffset + guestTimeHpet gtime }

/-- The record of `hpet_save`. -/
def save : Record where
  capability := h.capability
  config := h.config
  isr := h.isr
  mc64 := (h.saved gtime).mc64
  timers tn :=
    let t := h.timers tn
    ⟨t.config, t.comparator64, t.fsb, t.period⟩

/-- What the guest reads from a register. -/
def visible (reg : Reg) : BitVec 64 := (h.read64 gtime reg).1

end Regs

/-- The registers of `hpet_load`. -/
def Record.load (rec : Record) (gtime : BitVec 64) : Regs where
  capability := rec.capability
  config := rec.config
  isr := rec.isr
  mc64 := rec.mc64
  timers tn :=
    let r := rec.timers tn
    let t : Timer := ⟨r.config, r.cmp, r.fsb, r.period, r.cmp⟩
    { t with cmp := if t.is32bit then low32 r.cmp else r.cmp }
  mcOffset := rec.mc64 - guestTimeHpet gtime

variable {O V : Type} [DecidableEq O] [DecidableEq V]

/-- `hpet_load`. -/
def State.load (env : Env O V) (rec : Record) (s : State O V) : State O V :=
  let s := { s with regs := rec.load env.gtime }
  if s.regs.enabled then s.regs.enabledTimers.foldl (fun s tn => s.setTimer env tn) s else s

/-- The timer is on the list of a vCPU, or has a tick to deliver. -/
def State.Running (s : State O V) (tn : Fin 3) : Prop :=
  (s.vpt.pt (.inl tn)).onList = true ∨ (s.vpt.pt (.inl tn)).pending ≠ 0

/-- The guest sees neither that its HPET is saved nor that it is loaded into another domain. -/
structure Transparent (s : State O V) (gtime : BitVec 64) (env : Env O V) (source : O → Vpt.Source) : Prop where
  save : ∀ reg, (s.regs.saved gtime).visible gtime reg = s.regs.visible gtime reg
  load : ∀ reg, (State.load env (s.regs.save gtime) (.init source)).regs.visible env.gtime reg =
    s.regs.visible gtime reg
  running : ∀ tn, (State.load env (s.regs.save gtime) (.init source)).Running tn ↔ s.Running tn

/-! ## What the guest sees -/

/-- Registers that the guest cannot tell apart, each at a time of its own. -/
structure Alike (h : Regs) (gtime : BitVec 64) (h' : Regs) (gtime' : BitVec 64) : Prop where
  capability : h'.capability = h.capability
  config : h'.config = h.config
  isr : h'.isr = h.isr
  counter : h'.readMaincounter gtime' = h.readMaincounter gtime
  timer : ∀ tn, (h'.timers tn).config = (h.timers tn).config ∧ (h'.timers tn).fsb = (h.timers tn).fsb
  comparator : ∀ tn, h'.advanced gtime' tn = h.advanced gtime tn

section

variable {h h' h'' : Regs} {gtime gtime' gtime'' : BitVec 64}

theorem Alike.trans (hfst : Alike h gtime h' gtime') (hsnd : Alike h' gtime' h'' gtime'') : Alike h gtime h'' gtime'' where
  capability := hsnd.capability.trans hfst.capability
  config := hsnd.config.trans hfst.config
  isr := hsnd.isr.trans hfst.isr
  counter := hsnd.counter.trans hfst.counter
  timer tn := ⟨(hsnd.timer tn).1.trans (hfst.timer tn).1, (hsnd.timer tn).2.trans (hfst.timer tn).2⟩
  comparator tn := (hsnd.comparator tn).trans (hfst.comparator tn)

theorem Alike.visible (hlike : Alike h gtime h' gtime') (reg : Regs.Reg) : h'.visible gtime' reg = h.visible gtime reg := by
  cases reg with
  | id => exact hlike.capability
  | cfg => exact hlike.config
  | status => exact hlike.isr
  | counter => exact hlike.counter
  | tnCfg tn => exact (hlike.timer tn).1
  | tnCmp tn =>
    show (h'.getComparator gtime' tn).1 = (h.getComparator gtime tn).1
    unfold Regs.getComparator Timer.is32bit
    dsimp only
    rw [(hlike.timer tn).1, hlike.comparator tn]
  | tnRoute tn => exact (hlike.timer tn).2
  | reserved => rfl

theorem advanced_congr {tn : Fin 3} (hcounter : h'.readMaincounter gtime' = h.readMaincounter gtime)
    (hconfig : (h'.timers tn).config = (h.timers tn).config) (hperiod : (h'.timers tn).period = (h.timers tn).period)
    (hcmp : (h'.timers tn).comparator64 = (h.timers tn).comparator64) :
    h'.advanced gtime' tn = h.advanced gtime tn := by
  unfold Regs.advanced Timer.isPeriodic
  dsimp only
  rw [hcounter, hconfig, hperiod, hcmp]

theorem alike_getComparator (h : Regs) (gtime : BitVec 64) (tn : Fin 3) :
    Alike h gtime (h.getComparator gtime tn).2 gtime := by
  have hother : ∀ u, u ≠ tn → (h.getComparator gtime tn).2.timers u = h.timers u :=
    fun u hu => Function.update_of_ne hu _ _
  refine ⟨rfl, rfl, rfl, rfl, fun u => ?_, fun u => ?_⟩
  · by_cases hu : u = tn
    · rw [hu, Regs.getComparator_self]
      exact ⟨rfl, rfl⟩
    · rw [hother u hu]
      exact ⟨rfl, rfl⟩
  · by_cases hu : u = tn
    · rw [hu]
      exact Regs.advanced_again
    · have hsame := hother u hu
      exact advanced_congr rfl (congrArg Timer.config hsame) (congrArg Timer.period hsame)
        (congrArg Timer.comparator64 hsame)

end

theorem alike_setTimer (env : Env O V) (s : State O V) (tn : Fin 3) :
    Alike s.regs env.gtime (s.setTimer env tn).regs env.gtime := by
  unfold State.setTimer
  dsimp only
  split
  · exact ⟨rfl, rfl, rfl, rfl, fun _ => ⟨rfl, rfl⟩, fun _ => rfl⟩
  · exact alike_getComparator s.regs env.gtime tn

theorem alike_startAll (env : Env O V) (start : List (Fin 3)) (s : State O V) :
    Alike s.regs env.gtime (start.foldl (fun s tn => s.setTimer env tn) s).regs env.gtime := by
  induction start generalizing s with
  | nil => exact ⟨rfl, rfl, rfl, rfl, fun _ => ⟨rfl, rfl⟩, fun _ => rfl⟩
  | cons tn rest ih => exact (alike_setTimer env s tn).trans (ih _)

theorem saved_counter (h : Regs) (gtime : BitVec 64) :
    (h.saved gtime).readMaincounter gtime = h.mcOffset + guestTimeHpet gtime := by
  have henabled : (h.saved gtime).enabled = h.enabled := rfl
  unfold Regs.readMaincounter
  rw [henabled]
  split
  · exact BitVec.add_comm ..
  · rfl

/-- What is loaded is what is left by saving it, at any time. -/
theorem alike_load (h : Regs) (gtime gtime' : BitVec 64) :
    Alike (h.saved gtime) gtime ((h.save gtime).load gtime') gtime' := by
  have hcounter : ((h.save gtime).load gtime').readMaincounter gtime' = (h.saved gtime).readMaincounter gtime := by
    rw [saved_counter]
    unfold Regs.readMaincounter
    split
    · exact (BitVec.add_comm ..).trans (BitVec.sub_add_cancel ..)
    · rfl
  exact ⟨rfl, rfl, rfl, hcounter, fun _ => ⟨rfl, rfl⟩, fun _ => advanced_congr hcounter rfl rfl rfl⟩

/-! ## What is running -/

section

variable {T : Type} [DecidableEq T]

omit [DecidableEq V] in
/-- A timer that is destroyed leaves the others, and the calls that are under way. -/
theorem destroy_pt (s : Vpt.State T V) (t : T) :
    (∀ u, u ≠ t → (s.destroyPeriodicTime t).pt u = s.pt u) ∧ (s.destroyPeriodicTime t).call = s.call := by
  unfold Vpt.State.destroyPeriodicTime
  split
  · rename_i hcall
    have hkill := s.kill_destroyList t none
    refine ⟨hkill.1, hkill.2.trans ?_⟩
    exact Function.update_eq_self_iff.mpr (Option.isNone_iff_eq_none.mp hcall).symm
  · exact ⟨fun _ _ => rfl, rfl⟩

theorem create_pt {s : Vpt.State T V} {t : T} (hcall : s.call t = none) (vptAlign : Bool) (c : Vpt.Creation V)
    (now gtime : BitVec 64) :
    ((s.createPeriodicTime vptAlign t c now gtime).pt t).onList = true ∧
      (∀ u, u ≠ t → (s.createPeriodicTime vptAlign t c now gtime).pt u = s.pt u) ∧
      (s.createPeriodicTime vptAlign t c now gtime).call = s.call := by
  have hkill := s.kill_destroyList t (some c)
  unfold Vpt.State.createPeriodicTime
  rw [if_pos (Option.isNone_iff_eq_none.mpr hcall), Vpt.State.createList_eq (s.kill_creating t c)]
  refine ⟨?_, fun u hu => (Function.update_of_ne hu _ _).trans (hkill.1 u hu), ?_⟩
  · exact congrArg Vpt.Pt.onList (Function.update_self t _ ((s.destroyList t (some c)).killTimer t).pt)
  · show Function.update ((s.destroyList t (some c)).killTimer t).call t none = s.call
    rw [hkill.2, Function.update_idem]
    exact Function.update_eq_self_iff.mpr hcall.symm

end

namespace State

variable {s : State O V}

theorem setTimer_running (env : Env O V) {tn : Fin 3} (hcall : s.vpt.call (.inl tn) = none)
    (henabled : (s.regs.timers tn).enabled = true) :
    (∀ u, (s.setTimer env tn).Running u ↔ u = tn ∨ s.Running u) ∧
      (s.setTimer env tn).vpt.call = s.vpt.call := by
  have hpit : (∀ u : Fin 3, (if tn = 0 && s.regs.legacy then s.vpt.destroyPeriodicTime (.inr env.pit0)
        else s.vpt).pt (.inl u) = s.vpt.pt (.inl u)) ∧
      (if tn = 0 && s.regs.legacy then s.vpt.destroyPeriodicTime (.inr env.pit0) else s.vpt).call =
        s.vpt.call := by
    split
    · have hdestroy := destroy_pt s.vpt (Sum.inr env.pit0)
      exact ⟨fun u => hdestroy.1 (.inl u) Sum.inl_ne_inr, hdestroy.2⟩
    · exact ⟨fun _ => rfl, rfl⟩
  unfold State.setTimer State.Running
  dsimp only
  generalize (if tn = 0 && s.regs.legacy then s.vpt.destroyPeriodicTime (.inr env.pit0) else s.vpt) = vpt
    at hpit
  rw [henabled, Bool.not_true, if_neg Bool.false_ne_true]
  have hcreate := fun c => create_pt ((congrFun hpit.2 _).trans hcall) env.params.vptAlign c env.now env.gtime
  refine ⟨fun u => ?_, (hcreate _).2.2.trans hpit.2⟩
  by_cases hu : u = tn
  · rw [hu]
    exact iff_of_true (.inl (hcreate _).1) (.inl rfl)
  · have hne : (Sum.inl u : Fin 3 ⊕ O) ≠ .inl tn := fun heq => hu (Sum.inl.inj heq)
    rw [(hcreate _).2.1 (.inl u) hne, hpit.1 u, or_iff_right hu]

theorem startAll_running (env : Env O V) {start : List (Fin 3)} (hcall : ∀ tn, s.vpt.call (.inl tn) = none)
    (henabled : ∀ tn ∈ start, (s.regs.timers tn).enabled = true) (u : Fin 3) :
    (start.foldl (fun s tn => s.setTimer env tn) s).Running u ↔ u ∈ start ∨ s.Running u := by
  induction start generalizing s with
  | nil => exact (or_iff_right List.not_mem_nil).symm
  | cons tn rest ih =>
    rcases setTimer_running env (hcall tn) (henabled tn List.mem_cons_self) with ⟨hrunning, hcalls⟩
    have hkept : ∀ t ∈ rest, ((s.setTimer env tn).regs.timers t).enabled = true := by
      intro t ht
      have hconfig := ((alike_setTimer env s tn).timer t).1
      unfold Timer.enabled at *
      rw [hconfig]
      exact henabled t (List.mem_cons_of_mem tn ht)
    rw [List.foldl_cons, ih (hcalls ▸ hcall) hkept, hrunning u, List.mem_cons, or_left_comm, or_assoc]

/-- The timers that run when the HPET has been loaded into a new domain. -/
theorem load_running (env : Env O V) (rec : Record) (source : O → Vpt.Source) (tn : Fin 3) :
    (State.load env rec (.init source)).Running tn ↔
      (rec.load env.gtime).enabled = true ∧ ((rec.load env.gtime).timers tn).enabled = true := by
  have hfresh : ¬ ({ State.init source with regs := rec.load env.gtime } : State O V).Running tn := by
    rintro (hlisted | hpending)
    · exact Bool.false_ne_true hlisted
    · exact hpending rfl
  have hmem : tn ∈ (rec.load env.gtime).enabledTimers ↔ ((rec.load env.gtime).timers tn).enabled = true := by
    unfold Regs.enabledTimers
    rw [List.mem_filter]
    have hall : ∀ t : Fin 3, t ∈ [0, 1, 2] := by decide
    exact and_iff_right (hall tn)
  unfold State.load
  dsimp only
  split
  · rename_i henabled
    rw [startAll_running env (fun _ => rfl), or_iff_left hfresh, hmem, and_iff_right henabled]
    intro t ht
    exact (List.mem_filter.mp ht).2
  · rename_i hhalted
    exact iff_of_false hfresh fun hboth => hhalted hboth.1

end State

/-- Saving and loading are seen by no guest just if the counter of a halted HPET is the one that it would have if
it were enabled, and the timers that are running are those that are enabled. -/
theorem hpetSave_load_iff (s : State O V) (gtime : BitVec 64) (env : Env O V) (source : O → Vpt.Source) :
    Transparent s gtime env source ↔
      (s.regs.enabled = true ∨ s.regs.mc64 = s.regs.mcOffset + guestTimeHpet gtime) ∧
        ∀ tn, s.Running tn ↔ s.regs.enabled = true ∧ (s.regs.timers tn).enabled = true := by
  have hloaded : Alike (s.regs.saved gtime) gtime (State.load env (s.regs.save gtime) (.init source)).regs env.gtime := by
    refine (alike_load s.regs gtime env.gtime).trans ?_
    unfold State.load
    dsimp only
    split
    · exact alike_startAll env _ { State.init source with regs := (s.regs.save gtime).load env.gtime }
    · exact ⟨rfl, rfl, rfl, rfl, fun _ => ⟨rfl, rfl⟩, fun _ => rfl⟩
  have hrunning := State.load_running env (s.regs.save gtime) source
  constructor
  · rintro ⟨hsave, -, hruns⟩
    refine ⟨?_, fun tn => (hruns tn).symm.trans (hrunning tn)⟩
    by_cases henabled : s.regs.enabled = true
    · exact .inl henabled
    · right
      have hcounter : (s.regs.saved gtime).readMaincounter gtime = s.regs.readMaincounter gtime := hsave .counter
      rw [saved_counter] at hcounter
      unfold Regs.readMaincounter at hcounter
      rw [if_neg henabled] at hcounter
      exact hcounter.symm
  · rintro ⟨hcounter, hruns⟩
    have hsame : (s.regs.saved gtime).readMaincounter gtime = s.regs.readMaincounter gtime := by
      rw [saved_counter]
      unfold Regs.readMaincounter
      split
      · exact BitVec.add_comm ..
      · rename_i hhalted
        exact (hcounter.resolve_left hhalted).symm
    have hsaved : Alike s.regs gtime (s.regs.saved gtime) gtime :=
      ⟨rfl, rfl, rfl, hsame, fun _ => ⟨rfl, rfl⟩, fun _ => advanced_congr hsame rfl rfl rfl⟩
    exact ⟨hsaved.visible, (hsaved.trans hloaded).visible, fun tn => (hrunning tn).trans (hruns tn).symm⟩

/-- A guest that has not touched its HPET reads 0 from the counter, and 1 after a save. -/
theorem hpetSave_halted :
    Regs.init.visible 16 .counter = 0 ∧ (Regs.init.saved 16).visible 16 .counter = 1 ∧
      ∀ env : Env (Fin 1) (Fin 1), ¬ Transparent (.init fun _ => .isa) 16 env fun _ => .isa := by
  refine ⟨by decide +kernel, by decide +kernel, fun env h => ?_⟩
  exact absurd (h.save .counter) (by decide +kernel)

end Hvm.Hpet
