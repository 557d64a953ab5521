import MemoryMonitor.Hvm.Vpt

/-!
# The ticks of a platform timer

In the modes that deliver every tick, the deadline of a periodic timer is its first deadline and a
period for each tick that was delivered or is pending, and the platform time of its last tick is
the time it was created and a period for each tick that was delivered.

`pt_process_missed_ticks` makes up for the ticks whose deadlines have passed. A deadline that is
just now is left for the timer, if it is the first.
-/

namespace Hvm.Vpt

/-- Every tick is delivered. -/
def Mode.everyTick (mode : Mode) : Prop := mode = .delayForMissedTicks ∨ mode = .noDelayForMissedTicks

namespace Pt

variable {V : Type} (pt : Pt V)

/-- The deadline and the platform time of a periodic timer follow from its ticks. -/
def OnTime : Prop :=
  pt.active = true → pt.oneShot = false →
    pt.scheduled = pt.first + pt.period * BitVec.ofNat 64 (pt.delivered + pt.pending.toNat) ∧
    pt.lastPltGtime = pt.start + pt.period * BitVec.ofNat 64 pt.delivered

/-- The ticks that are made up for, and the ones before, have room in `pending_intr_nr`. -/
def Fits (now : BitVec 64) : Prop := pt.pending.toNat + (pt.missedTicks now).toNat < 2 ^ 32

/-- What `pt_process_missed_ticks` has to do in a mode that delivers every tick: `n` is the number of
ticks that it adds. -/
structure Compensated (mode : Mode) (now : BitVec 64) (n : Nat) : Prop where
  pending : (pt.processMissedTicks mode now).pending.toNat = pt.pending.toNat + n
  scheduled : (pt.processMissedTicks mode now).scheduled.toInt = pt.scheduled.toInt + n * pt.period.toNat
  /-- The deadline is not in the past; it is now only if it was now before. -/
  due : now.toInt ≤ (pt.processMissedTicks mode now).scheduled.toInt
  ahead : now ≠ pt.scheduled → now.toInt < (pt.processMissedTicks mode now).scheduled.toInt
  /-- The ticks added are those whose deadlines have passed. -/
  passed : now ≠ pt.scheduled → ∀ k : Nat, k < n ↔ pt.scheduled.toInt + k * pt.period.toNat ≤ now.toInt
  sole : now = pt.scheduled → n = 0

end Pt

variable {T V : Type} [DecidableEq T] [DecidableEq V]

/-- The ticks that are not delivered never reach `2 ^ 32`. -/
def Fits (step : Step T V) (s : State T V) : Prop :=
  match step with
  | .expire t => (s.pt t).armed = true → (s.pt t).pending.toNat + 1 < 2 ^ 32
  | .restore v now => ∀ t ∈ s.tmList v, (s.pt t).pending = 0 → (s.pt t).Fits now
  | .intrPost v hit now _ => ∀ t ∈ s.isPtIrq v hit, (s.pt t).pending = 1 → ((s.pt t).missedTicks now).toNat < 2 ^ 32
  | _ => True

namespace Pt

variable {V : Type} {pt : Pt V}

/-! ## Missed ticks -/

theorem processMissedTicks_eq {mode : Mode} (hmode : mode.everyTick) (pt : Pt V) (now : BitVec 64) :
    pt.processMissedTicks mode now =
      { pt with
        pending := pt.pending + (pt.missedTicks now).setWidth 32
        scheduled := pt.scheduled + pt.missedTicks now * pt.period } := by
  have hne : mode ≠ .noMissedTicksPending := by
    rcases hmode with h | h <;> rw [h] <;> exact Mode.noConfusion
  have hnone : pt.missedTicks now = 0 → pt =
      { pt with
        pending := pt.pending + (pt.missedTicks now).setWidth 32
        scheduled := pt.scheduled + pt.missedTicks now * pt.period } := by
    intro hzero
    rw [hzero]
    simp
  unfold processMissedTicks
  split
  · rename_i hone
    exact hnone (if_pos hone)
  · rename_i hone
    split
    · rename_i hle
      refine hnone ?_
      unfold missedTicks
      rw [if_neg hone]
      exact if_pos hle
    · dsimp only

theorem Fits.toNat {now : BitVec 64} (h : pt.Fits now) :
    (pt.pending + (pt.missedTicks now).setWidth 32).toNat = pt.pending.toNat + (pt.missedTicks now).toNat := by
  unfold Fits at h
  rw [BitVec.toNat_add, BitVec.toNat_setWidth]
  omega

theorem ofNat_toNat_mul (m p : BitVec 64) (n : Nat) :
    p * BitVec.ofNat 64 n + m * p = p * BitVec.ofNat 64 (n + m.toNat) := by
  rw [BitVec.ofNat_add, BitVec.ofNat_toNat, BitVec.setWidth_eq]
  ring

theorem OnTime.processMissedTicks (h : pt.OnTime) {mode : Mode} (hmode : mode.everyTick) {now : BitVec 64}
    (hfits : pt.Fits now) : (pt.processMissedTicks mode now).OnTime := by
  rw [processMissedTicks_eq hmode]
  intro hact hone
  rcases h hact hone with ⟨hscheduled, hlast⟩
  refine ⟨?_, hlast⟩
  rw [hfits.toNat, ← Nat.add_assoc, ← ofNat_toNat_mul, ← add_assoc, ← hscheduled]

theorem OnTime.expire (h : pt.OnTime) (hfits : pt.pending.toNat + 1 < 2 ^ 32) : pt.expire.OnTime := by
  intro hact hone
  rcases h hact hone with ⟨hscheduled, hlast⟩
  refine ⟨?_, hlast⟩
  have hnat : (pt.pending + 1).toNat = pt.pending.toNat + 1 := by
    rw [BitVec.toNat_add]
    exact Nat.mod_eq_of_lt hfits
  have hmul := ofNat_toNat_mul 1 pt.period (pt.delivered + pt.pending.toNat)
  show pt.scheduled + pt.period = pt.first + pt.period * BitVec.ofNat 64 (pt.delivered + (pt.pending + 1).toNat)
  rw [hnat, ← Nat.add_assoc, show pt.delivered + pt.pending.toNat + 1 =
    pt.delivered + pt.pending.toNat + (1 : BitVec 64).toNat from rfl, ← hmul, ← add_assoc, ← hscheduled, one_mul]

theorem OnTime.post (h : pt.OnTime) (hpending : pt.pending ≠ 0) {mode : Mode} (hmode : mode.everyTick)
    {now : BitVec 64} (hfits : pt.pending = 1 → (pt.missedTicks now).toNat < 2 ^ 32) (gtime : BitVec 64) :
    (Pt.post { pt with irqIssued := false, delivered := pt.delivered + 1 } mode now gtime).OnTime := by
  have hpos : 0 < pt.pending.toNat := by
    refine Nat.pos_of_ne_zero fun hzero => hpending ?_
    exact BitVec.eq_of_toNat_eq hzero
  have hnat : (pt.pending - 1).toNat = pt.pending.toNat - 1 := by
    rw [BitVec.toNat_sub, show (1 : BitVec 32).toNat = 1 from rfl]
    omega
  have hnot : ¬(mode = .oneMissedTickPending ∨ mode = .noMissedTicksPending) := by
    rcases hmode with hm | hm <;> rw [hm] <;> decide
  -- the tick moves from those that are pending to those that were delivered
  have hdelivered : OnTime { pt with
      irqIssued := false, delivered := pt.delivered + 1
      lastPltGtime := pt.lastPltGtime + pt.period, pending := pt.pending - 1 } := by
    intro hact hone
    rcases h hact hone with ⟨hscheduled, hlast⟩
    have hmul := ofNat_toNat_mul 1 pt.period pt.delivered
    rw [one_mul] at hmul
    constructor
    · show pt.scheduled = pt.first + pt.period * BitVec.ofNat 64 (pt.delivered + 1 + (pt.pending - 1).toNat)
      rw [hnat, show pt.delivered + 1 + (pt.pending.toNat - 1) = pt.delivered + pt.pending.toNat by omega]
      exact hscheduled
    · show pt.lastPltGtime + pt.period = pt.start + pt.period * BitVec.ofNat 64 (pt.delivered + 1)
      rw [hlast, add_assoc, hmul]
      rfl
  unfold Pt.post
  rw [if_neg hnot]
  dsimp only
  split
  · rename_i hzero
    have hone : pt.pending = 1 := by
      refine BitVec.eq_of_toNat_eq ?_
      have hz : (pt.pending - 1).toNat = 0 := congrArg BitVec.toNat hzero
      show pt.pending.toNat = 1
      omega
    have hmissed : (pt.pending - 1).toNat + (pt.missedTicks now).toNat < 2 ^ 32 := by
      rw [hnat, hone]
      exact (Nat.zero_add _).symm ▸ hfits hone
    have hroom := hdelivered.processMissedTicks hmode hmissed
    split
    · exact hroom
    · exact hroom
  · exact hdelivered

/-- A timer is restored, and would be again without a change to its ticks. -/
theorem OnTime.restore (h : pt.OnTime) {mode : Mode} (hmode : mode.everyTick) {now : BitVec 64}
    (hfits : pt.pending = 0 → pt.Fits now) :
    (pt.restore mode now).OnTime ∧ ((pt.restore mode now).pending = 0 → (pt.restore mode now).Fits now) := by
  unfold Pt.restore
  split
  · rename_i hzero
    have hroom := hfits hzero
    refine ⟨h.processMissedTicks hmode hroom, fun hnone => ?_⟩
    have heq := processMissedTicks_eq hmode pt now
    have hmissed : pt.missedTicks now = 0 := by
      have hsum := hroom.toNat
      have hzero' : (pt.pending + (pt.missedTicks now).setWidth 32).toNat = 0 := by
        have hpend : (pt.processMissedTicks mode now).pending = pt.pending + (pt.missedTicks now).setWidth 32 :=
          congrArg Pt.pending heq
        rw [← hpend]
        exact congrArg BitVec.toNat hnone
      refine BitVec.eq_of_toNat_eq ?_
      show (pt.missedTicks now).toNat = 0
      omega
    rw [hmissed] at heq
    have hsame : (pt.processMissedTicks mode now).arm = pt.arm := by
      rw [heq]
      unfold arm
      simp
    rw [hsame]
    exact hroom
  · rename_i hne
    exact ⟨h, fun hzero => absurd hzero hne⟩

end Pt

/-! ## Steps -/

/-- All timers are on time. -/
def State.OnTime (s : State T V) : Prop := ∀ t, (s.pt t).OnTime

namespace State

variable {s : State T V}

section

omit [DecidableEq V]

theorem OnTime.setPt (h : s.OnTime) {t : T} {pt : Pt V} (hpt : pt.OnTime) : (s.setPt t pt).OnTime :=
  (Function.forall_update_iff s.pt fun _ pt => pt.OnTime).2 ⟨hpt, fun u _ => h u⟩

theorem OnTime.unlist (h : s.OnTime) (t : T) : (s.unlist t).OnTime :=
  (Function.forall_update_iff s.pt fun _ pt => pt.OnTime).2 ⟨h t, fun u _ => h u⟩

theorem OnTime.unlisted (h : s.OnTime) (t : T) : (if (s.pt t).onList then s.unlist t else s).OnTime := by
  split
  · exact h.unlist t
  · exact h

theorem OnTime.destroyList (h : s.OnTime) (t : T) (create : Option (Creation V)) : (s.destroyList t create).OnTime := by
  unfold State.destroyList
  split
  · exact h
  · exact (h.unlisted t).setPt fun hact => (nomatch hact)

theorem OnTime.killTimer (h : s.OnTime) (t : T) : (s.killTimer t).OnTime := by
  unfold State.killTimer
  split
  · exact h.setPt (h t)
  · exact h

end

theorem OnTime.createList (h : s.OnTime) (vptAlign : Bool) (t : T) (now gtime : BitVec 64) :
    (s.createList vptAlign t now gtime).OnTime := by
  unfold State.createList
  split
  · refine h.setPt fun _ _ => ⟨?_, ?_⟩
    · exact (by simp : ∀ a p : BitVec 64, a = a + p * BitVec.ofNat 64 (0 + 0)) _ _
    · exact (by simp : ∀ a p : BitVec 64, a = a + p * BitVec.ofNat 64 0) _ _
  · exact h

section

omit [DecidableEq V]

theorem OnTime.updateIrq (h : s.OnTime) (v : V) (masked : T → Bool) : (s.updateIrq v masked).OnTime := by
  have hone : ∀ (acc : State T V × BitVec 64 × Option T) (t : T), acc.1.OnTime → (lagging masked acc t).1.OnTime := by
    intro ⟨u, maxLag, earliest⟩ t hu
    unfold lagging
    dsimp only
    split
    · exact hu
    · split
      · exact OnTime.unlist hu t
      · split <;> exact hu
  have hloop : ∀ (ts : List T) (acc : State T V × BitVec 64 × Option T), acc.1.OnTime →
      (ts.foldl (lagging masked) acc).1.OnTime := by
    intro ts
    induction ts with
    | nil => exact fun _ hacc => hacc
    | cons t rest ih => exact fun acc hacc => ih _ (hone acc t hacc)
  have hend := hloop (s.tmList v) (s, -1, none) h
  unfold State.updateIrq
  split
  · rename_i heq
    rw [heq] at hend
    exact hend
  · rename_i u _ t heq
    rw [heq] at hend
    exact OnTime.setPt hend (hend t)

theorem OnTime.intrPost (h : s.OnTime) {mode : Mode} (hmode : mode.everyTick) (v : V) (hit : T → Bool) {now : BitVec 64}
    (gtime : BitVec 64)
    (hfits : ∀ t ∈ s.isPtIrq v hit, (s.pt t).pending = 1 → ((s.pt t).missedTicks now).toNat < 2 ^ 32) :
    (s.intrPost mode v hit now gtime).OnTime := by
  unfold State.intrPost
  split
  · exact h
  · rename_i t hfound
    have hpt : (s.setPt t { s.pt t with irqIssued := false, delivered := (s.pt t).delivered + 1 }).pt t =
        { s.pt t with irqIssued := false, delivered := (s.pt t).delivered + 1 } := Function.update_self ..
    have hothers : ∀ u, u ≠ t →
        ((s.setPt t { s.pt t with irqIssued := false, delivered := (s.pt t).delivered + 1 }).pt u).OnTime := by
      intro u hu
      show (Function.update s.pt t _ u).OnTime
      rw [Function.update_of_ne hu]
      exact h u
    dsimp only
    generalize s.setPt t { s.pt t with irqIssued := false, delivered := (s.pt t).delivered + 1 } = r at hpt hothers
    split
    · rename_i hone
      -- nothing is said about a timer that is not periodic
      have hr : r.OnTime := by
        intro u
        by_cases hu : u = t
        · rw [hu]
          intro _ hno
          rw [hone] at hno
          exact Bool.noConfusion hno
        · exact hothers u hu
      have hone' : ((if (r.pt t).onList then r.unlist t else r).pt t).oneShot = true := by
        split
        · have hself : (r.unlist t).pt t = { r.pt t with onList := false } := Function.update_self ..
          rw [hself]
          exact hone
        · exact hone
      refine (hr.unlisted t).setPt fun _ hno => ?_
      rw [hone'] at hno
      exact Bool.noConfusion hno
    · refine (Function.forall_update_iff r.pt fun _ pt => pt.OnTime).2 ⟨?_, hothers⟩
      rw [hpt]
      exact (h t).post (isPtIrq_some hfound).2 hmode (hfits t hfound) gtime

/-- A pass through a list, where each timer may come up again. -/
theorem OnTime.eachOf (h : s.OnTime) (ts : List T) {f : Pt V → Pt V} (ok : Pt V → Prop) (hts : ∀ t ∈ ts, ok (s.pt t))
    (hf : ∀ pt : Pt V, pt.OnTime → ok pt → (f pt).OnTime ∧ ok (f pt)) : (s.eachOf ts f).OnTime := by
  have hloop : ∀ (ts : List T) (pts : T → Pt V), (∀ t, (pts t).OnTime) → (∀ t ∈ ts, ok (pts t)) →
      ∀ t, ((ts.foldl (fun pts t => Function.update pts t (f (pts t))) pts) t).OnTime := by
    intro ts
    induction ts with
    | nil => exact fun pts hpts _ => hpts
    | cons t rest ih =>
      intro pts hpts hok
      rcases hf (pts t) (hpts t) (hok t (List.mem_cons_self ..)) with ⟨hnew, hagain⟩
      refine ih _ (fun u => ?_) fun u hu => ?_
      · dsimp only
        rw [Function.update_apply]
        split
        · exact hnew
        · exact hpts u
      · dsimp only
        rw [Function.update_apply]
        split
        · exact hagain
        · exact hok u (List.mem_cons_of_mem _ hu)
  exact hloop ts s.pt h hts

end

theorem OnTime.save (h : s.OnTime) (v : V) (blocked : Bool) : (s.saveTimer v blocked).OnTime := by
  unfold saveTimer
  split
  · exact h
  · refine eachOf h (s.tmList v) (fun _ => True) (fun _ _ => trivial) fun pt hpt _ => ⟨?_, trivial⟩
    unfold Pt.freeze
    split <;> exact hpt

theorem OnTime.restore (h : s.OnTime) {mode : Mode} (hmode : mode.everyTick) (v : V) {now : BitVec 64}
    (hfits : ∀ t ∈ s.tmList v, (s.pt t).pending = 0 → (s.pt t).Fits now) : (s.restoreTimer mode v now).OnTime :=
  eachOf h (s.tmList v) (fun pt => pt.pending = 0 → pt.Fits now) hfits fun _ hpt hok => hpt.restore hmode hok

theorem OnTime.adjustEnd (h : s.OnTime) (t : T) : (s.adjustEnd t).OnTime := by
  unfold State.adjustEnd
  split
  · rename_i v onList hm
    have hset : ((s.setCall t none).setPt t { s.pt t with vcpu := some v }).OnTime := OnTime.setPt h (h t)
    split
    · exact hset.setPt (hset t)
    · exact hset
  · exact h

end State

theorem act_onTime {params : Params} (hmode : params.mode.everyTick) {step : Step T V} {s : State T V} (hfits : Fits step s)
    (h : s.OnTime) : (act params step s).OnTime := by
  unfold act
  cases step with
  | create t c =>
    dsimp only
    split
    · exact h.destroyList t (some c)
    · exact h
  | destroy t =>
    dsimp only
    split
    · exact h.destroyList t none
    · exact h
  | kill t => exact h.killTimer t
  | createEnd t now gtime => exact h.createList _ t now gtime
  | expire t =>
    dsimp only
    unfold State.timerFn
    split
    · rename_i harmed
      exact h.setPt ((h t).expire (hfits harmed))
    · exact h
  | updateIrq v masked => exact h.updateIrq v masked
  | intrPost v hit now gtime => exact h.intrPost hmode v hit gtime hfits
  | save v blocked => exact h.save v blocked
  | restore v now => exact h.restore hmode v hfits
  | resume t =>
    dsimp only
    unfold State.resume
    split
    · exact h
    · split
      · exact h.setPt (h t)
      · exact h
  | adjust t v =>
    dsimp only
    split
    · unfold State.adjustVcpu
      split
      · exact h
      · exact h.unlisted t
    · exact h
  | adjustEnd t => exact h.adjustEnd t

/-! ## The ticks that are made up for -/

namespace Pt

variable {V : Type} {pt : Pt V}

/-- A periodic timer, with times that are not negative and have room for a period. -/
structure InTime (pt : Pt V) (now : BitVec 64) : Prop where
  periodic : pt.oneShot = false
  period : 0 < pt.period.toNat
  scheduled : 0 ≤ pt.scheduled.toInt
  clock : 0 ≤ now.toInt
  room : now.toInt + pt.period.toNat < 2 ^ 63

theorem bmod_word {x : Int} (h : 0 ≤ x) (hlt : x < 2 ^ 63) : x.bmod (2 ^ 64) = x := by
  apply Int.bmod_eq_of_le
  · omega
  · omega

theorem toNat_of_toInt {a : BitVec 64} (h : 0 ≤ a.toInt) : (a.toNat : Int) = a.toInt := by
  rw [BitVec.toInt_eq_toNat_cond] at h ⊢
  split
  · rfl
  · omega

variable {now : BitVec 64}

theorem InTime.toInt_period (h : pt.InTime now) : pt.period.toInt = pt.period.toNat := by
  have hroom := h.room
  have hclock := h.clock
  apply BitVec.toInt_eq_toNat_of_lt
  omega

theorem InTime.toInt_late (h : pt.InTime now) : (now - pt.scheduled).toInt = now.toInt - pt.scheduled.toInt := by
  have h1 := BitVec.toInt_lt (x := now)
  have h2 := BitVec.toInt_lt (x := pt.scheduled)
  have h3 := h.scheduled
  have h4 := h.clock
  rw [BitVec.toInt_sub]
  apply Int.bmod_eq_of_le
  · omega
  · omega

/-- Nothing is missed before the deadline, nor at it. -/
theorem InTime.missed_none (h : pt.InTime now) (hle : now.toInt ≤ pt.scheduled.toInt) : pt.missedTicks now = 0 := by
  unfold missedTicks
  dsimp only
  rw [h.periodic, if_neg Bool.false_ne_true, h.toInt_late, if_pos (by omega)]

/-- The deadlines that have passed, as a number. -/
def late (pt : Pt V) (now : BitVec 64) : Nat := (now.toInt - pt.scheduled.toInt).toNat / pt.period.toNat + 1

theorem InTime.missed_late (h : pt.InTime now) (hlt : pt.scheduled.toInt < now.toInt) :
    (pt.missedTicks now).toInt = pt.late now ∧ (pt.missedTicks now).toNat = pt.late now := by
  have hroom := h.room
  have hsched := h.scheduled
  have hperiod := h.period
  have hlate := h.toInt_late
  have hdiv : (now.toInt - pt.scheduled.toInt).tdiv pt.period.toInt =
      ((now.toInt - pt.scheduled.toInt).toNat / pt.period.toNat : Nat) := by
    rw [h.toInt_period, Int.tdiv_eq_ediv_of_nonneg (by omega), Int.natCast_ediv, Int.toNat_of_nonneg (by omega)]
  have hbound := Nat.div_le_self (now.toInt - pt.scheduled.toInt).toNat pt.period.toNat
  have hone : (1 : BitVec 64).toInt = 1 := by decide
  have hsum : (pt.missedTicks now).toInt = pt.late now := by
    unfold missedTicks late
    dsimp only
    rw [h.periodic, if_neg Bool.false_ne_true, hlate, if_neg (by omega), BitVec.toInt_add, BitVec.toInt_sdiv, hlate, hdiv,
      hone]
    generalize (now.toInt - pt.scheduled.toInt).toNat / pt.period.toNat = q at hbound ⊢
    rw [bmod_word (Int.natCast_nonneg q) (by omega), bmod_word (by omega) (by omega)]
    rfl
  have hnat := toNat_of_toInt (show 0 ≤ (pt.missedTicks now).toInt by rw [hsum]; exact Int.natCast_nonneg _)
  exact ⟨hsum, by omega⟩

/-- The deadline that is next, and the ones before it. -/
theorem InTime.late_spec (h : pt.InTime now) (hlt : pt.scheduled.toInt < now.toInt) :
    now.toInt < pt.scheduled.toInt + pt.late now * pt.period.toNat ∧
    pt.scheduled.toInt + pt.late now * pt.period.toNat ≤ now.toInt + pt.period.toNat ∧
    ∀ k : Nat, k < pt.late now ↔ pt.scheduled.toInt + k * pt.period.toNat ≤ now.toInt := by
  generalize hd : (now.toInt - pt.scheduled.toInt).toNat = d
  have hnow : now.toInt = pt.scheduled.toInt + d := by omega
  have hmod := Nat.div_add_mod d pt.period.toNat
  have hlow := Nat.mod_lt d h.period
  have hnext : (pt.late now : Int) * pt.period.toNat = pt.period.toNat * (d / pt.period.toNat : Nat) + pt.period.toNat := by
    unfold late
    rw [hd]
    push_cast
    ring
  refine ⟨by omega, by omega, fun k => ?_⟩
  have hk : k < pt.late now ↔ k * pt.period.toNat ≤ d := by
    unfold late
    rw [hd, Nat.lt_succ_iff, Nat.le_div_iff_mul_le h.period]
  rw [hk, hnow, ← Nat.cast_mul]
  omega

theorem InTime.compensated (h : pt.InTime now) {mode : Mode} (hmode : mode.everyTick) (hfits : pt.Fits now) :
    ∃ n, pt.Compensated mode now n := by
  have heq := processMissedTicks_eq hmode pt now
  have hpending : (pt.processMissedTicks mode now).pending.toNat = pt.pending.toNat + (pt.missedTicks now).toNat := by
    rw [heq]
    exact hfits.toNat
  by_cases hlt : pt.scheduled.toInt < now.toInt
  · rcases h.late_spec hlt with ⟨hahead, hnear, hpassed⟩
    rcases h.missed_late hlt with ⟨hlate, hmissed⟩
    have hne : now ≠ pt.scheduled := by
      intro hc
      rw [hc] at hlt
      exact absurd hlt (lt_irrefl _)
    have hscheduled : (pt.processMissedTicks mode now).scheduled.toInt =
        pt.scheduled.toInt + pt.late now * pt.period.toNat := by
      have hroom := h.room
      have hsched := h.scheduled
      have hpos : (0 : Int) ≤ pt.late now * pt.period.toNat := Int.mul_nonneg (Int.natCast_nonneg _) (Int.natCast_nonneg _)
      rw [heq]
      rw [BitVec.toInt_add, BitVec.toInt_mul, hlate, h.toInt_period, bmod_word hpos (by omega), bmod_word (by omega) (by omega)]
    refine ⟨pt.late now, ?_, hscheduled, ?_, fun _ => ?_, fun _ => hpassed, fun hc => absurd hc hne⟩
    · rw [hpending, hmissed]
    · rw [hscheduled]
      exact le_of_lt hahead
    · rw [hscheduled]
      exact hahead
  · have hnone := h.missed_none (not_lt.1 hlt)
    have hsame : (pt.processMissedTicks mode now).scheduled = pt.scheduled := by
      rw [heq, hnone]
      simp
    have hsched : now ≠ pt.scheduled → now.toInt < pt.scheduled.toInt := by
      intro hne
      exact lt_of_le_of_ne (not_lt.1 hlt) fun he => hne (BitVec.eq_of_toInt_eq he)
    refine ⟨0, ?_, ?_, ?_, fun hne => ?_, fun hne k => ?_, fun _ => rfl⟩
    · rw [hpending, hnone]
      rfl
    · rw [hsame]
      simp
    · rw [hsame]
      exact not_lt.1 hlt
    · rw [hsame]
      exact hsched hne
    · have hk : (0 : Int) ≤ k * pt.period.toNat := Int.mul_nonneg (Int.natCast_nonneg _) (Int.natCast_nonneg _)
      have hlate := hsched hne
      omega

end Pt

/-- After a run in a mode that delivers every tick, no tick of a periodic timer has been lost or
invented; and the ticks that are made up for are the ones that were missed. -/
theorem run_on_time (params : Params) (hmode : params.mode.everyTick) (source : T → Source) (steps : List (Step T V))
    (hfits : Runs.Each (act params) Fits steps (init source)) :
    (∀ t, ((Runs.run (act params) steps (init source)).pt t).OnTime) ∧
    ∀ (pt : Pt V) (now : BitVec 64), pt.InTime now → pt.Fits now → ∃ n, pt.Compensated params.mode now n := by
  constructor
  · exact hfits.inv (I := State.OnTime) (fun _ _ hok h => act_onTime hmode hok h) fun _ hact => (nomatch hact)
  · exact fun pt now h hroom => h.compensated hmode hroom

/-- A timer of a millisecond that has just been created. -/
private def created (t : Fin 1) : State (Fin 1) (Fin 1) :=
  Runs.run (act ⟨.delayForMissedTicks, false⟩) [.create t ⟨t, 1000000, 1000000, 0⟩, .createEnd t 0 0] (init fun _ => .isa)

private theorem created_inTime (now : BitVec 64) (hclock : 0 ≤ now.toInt) (hroom : now.toInt + 1000000 < 2 ^ 63) :
    ((created 0).pt 0).InTime now :=
  ⟨by decide, by decide +kernel, by decide +kernel, hclock, hroom⟩

/-- A tick expires and is delivered when three more have been missed. They are made up for, as the four are of a timer
that has not expired at that time. -/
theorem run_on_time_tick :
    ((Runs.run (act ⟨.delayForMissedTicks, false⟩) [.create 0 ⟨0, 1000000, 1000000, 0⟩, .createEnd 0 0 0, .expire 0,
      .updateIrq 0 fun _ => false, .intrPost 0 (fun _ => true) 4500000 0]
      (init fun _ => .isa : State (Fin 1) (Fin 1))).pt 0).OnTime ∧
    ((Runs.run (act ⟨.delayForMissedTicks, false⟩) [.expire 0, .updateIrq 0 fun _ => false,
      .intrPost 0 (fun _ => true) 4500000 0] (created 0)).pt 0).pending = 3 ∧
    ((created 0).pt 0).missedTicks 4500000 = 4 ∧
    ∃ n, ((created 0).pt 0).Compensated .delayForMissedTicks 4500000 n := by
  have hexpire : Fits (.expire 0) (created 0) := by
    intro _
    decide
  have hpost : Fits (.intrPost 0 (fun _ => true) 4500000 0) (Runs.run (act ⟨.delayForMissedTicks, false⟩)
      [.expire 0, .updateIrq 0 fun _ => false] (created 0)) := by
    intro t _ _
    rw [Fin.fin_one_eq_zero t]
    decide +kernel
  have hrun := run_on_time ⟨.delayForMissedTicks, false⟩ (.inl rfl) (fun _ : Fin 1 => Source.isa)
    ([.create 0 ⟨0, 1000000, 1000000, 0⟩, .createEnd 0 0 0, .expire 0, .updateIrq 0 fun _ => false,
      .intrPost 0 (fun _ => true) 4500000 0] : List (Step (Fin 1) (Fin 1))) ⟨trivial, trivial, hexpire, trivial, hpost, trivial⟩
  refine ⟨hrun.1 0, by decide +kernel, by decide +kernel, hrun.2 _ _ (created_inTime _ ?_ ?_) ?_⟩
  · decide
  · decide
  · unfold Pt.Fits
    decide +kernel

/-- The vCPU runs again just when the timer is due: its deadline is not after now. -/
theorem deadline_now :
    (((created 0).saveTimer 0 false).pt 0).InTime 1000000 ∧ (((created 0).saveTimer 0 false).pt 0).Fits 1000000 ∧
    ¬(1000000 : BitVec 64).toInt <
      ((((created 0).saveTimer 0 false).pt 0).processMissedTicks .delayForMissedTicks 1000000).scheduled.toInt := by
  refine ⟨⟨?_, ?_, ?_, ?_, ?_⟩, ?_, ?_⟩
  · decide
  · decide +kernel
  · decide +kernel
  · decide +kernel
  · decide +kernel
  · unfold Pt.Fits
    decide +kernel
  · decide +kernel

end Hvm.Vpt
