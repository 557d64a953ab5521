import MemoryMonitor.P2m.Pod

/-!
# The lock of the p2m

`guest_physmap_mark_populate_on_demand`, `guest_physmap_add_entry`, `p2m_gfn_to_mfn` and what
populates a frame when it is looked up (`xen/arch/x86/mm/p2m.c`) take the lock themselves, or only
if their caller does not have it. A frame of 1GB is cut up by a function that then gives the lock
up, and a range that is in use is refused without that.
-/

namespace P2m

/-- Who has the lock: nobody, this CPU's caller or what it has called, or another CPU. -/
inductive Holder where
  | free | caller | callee | other
  deriving DecidableEq

/-- `p2m_locked_by_me`. -/
def Holder.mine : Holder → Bool
  | .caller | .callee => true
  | .free | .other => false

namespace Holder

/-- The lock is still where it was, or at least not with this CPU. -/
def Like (a b : Holder) : Prop := a = b ∨ (a.mine = false ∧ b.mine = false)

theorem Like.refl (a : Holder) : a.Like a := Or.inl rfl

theorem Like.trans {a b c : Holder} (h : a.Like b) (h' : b.Like c) : a.Like c := by
  rcases h with rfl | ⟨ha, hb⟩
  · exact h'
  · rcases h' with rfl | ⟨-, hc⟩
    · exact Or.inr ⟨ha, hb⟩
    · exact Or.inr ⟨ha, hc⟩

theorem Like.mine {a b : Holder} (h : a.Like b) : a.mine = b.mine := by
  rcases h with rfl | ⟨ha, hb⟩
  · rfl
  · rw [ha, hb]

theorem Like.eq {a b : Holder} (h : a.Like b) (hb : b.mine = true) : a = b := by
  rcases h with rfl | ⟨-, hb'⟩
  · rfl
  · rw [hb] at hb'
    exact absurd hb' nofun

end Holder

/-- `p2m_query_t`. -/
inductive Query where
  | query | alloc | guest
  deriving DecidableEq

/-- The levels of the tables at which a lookup may end. -/
inductive Level where
  | l1 | l2 | l3
  deriving DecidableEq

/-- What is found in a slot of a table: nothing is present, but the flags have a type; or something
is, which is a superpage if `pse`. -/
inductive Slot where
  | absent (t : P2mType)
  | present (mfn : ℕ) (t : P2mType) (pse : Bool)
  deriving DecidableEq

def Slot.type : Slot → P2mType
  | .absent t => t
  | .present _ t _ => t

/-- A domain's p2m with its lock, seen from one CPU. -/
structure Locking extends Pod where
  translated : Bool
  maxMapped : ℕ
  maxGuest : ℕ
  holder : Holder
  /-- How often this CPU has looked at what others may change. -/
  clock : ℕ
  /-- The lock was given up where it had not been taken. -/
  stray : Bool

/-- What this CPU finds: what the others have done to the domain since it last looked, while they
could; what is in the tables; which table pages can be had; and what the sweeps do. -/
structure World where
  others : ℕ → Pod → Pod
  l4Present : ℕ → ℕ → Bool
  slot : ℕ → Level → ℕ → Slot
  ok : ℕ → Bool
  sweepSuper : Pod → Pod
  sweepSingle : Pod → Pod

/-- A call comes to an end, or to a `BUG`, or it has not yet. -/
inductive Result (α : Type) where
  | running
  | halted
  | done (a : α)

def Result.isDone {α : Type} : Result α → Bool
  | .done _ => true
  | _ => false

namespace Locking

/-- Time passes. Whoever has the lock is alone with the p2m, but the domain may be torn down. -/
def look (w : World) (s : Locking) : Locking :=
  { s with
    toPod :=
      if s.holder.mine then { s.toPod with isDying := (w.others s.clock s.toPod).isDying }
      else w.others s.clock s.toPod
    clock := s.clock + 1 }

/-- With the lock. -/
def locked (w : World) (s : Locking) : Locking := if s.holder.mine then s else { s.look w with holder := .callee }

/-- `p2m_lock`, which does not return to who has it. -/
def lock (w : World) (s : Locking) : Option Locking :=
  if s.holder.mine then none else some { s.look w with holder := .callee }

/-- `p2m_unlock`. -/
def unlock (s : Locking) : Locking :=
  { s with holder := .free, stray := s.stray || decide (s.holder ≠ .callee) }

/-- `POPULATE_ON_DEMAND_MFN`. -/
def populateOnDemandMfn : ℕ := 2 ^ 9

/-- `set_p2m_entry`. -/
def setP2mEntry (w : World) (gfn mfn order : ℕ) (t : P2mType) (s : Locking) : Locking × Bool :=
  let r := s.toState.setP2mEntry gfn mfn order t w.ok
  ({ s with toState := r.1 }, r.2)

/-- A superpage becomes single frames that are populated on demand. -/
def splinter (w : World) (gfn : ℕ) : (todo i : ℕ) → Locking → Locking
  | 0, _, s => s
  | todo + 1, i, s =>
      splinter w gfn todo (i + 1) (s.setP2mEntry w (gfn + i) populateOnDemandMfn 0 .populateOnDemand).1

/-- The sweeps of `p2m_pod_demand_populate`. -/
def sweepIfLow (w : World) (order : ℕ) (s : Locking) : Locking :=
  if s.entryCount > s.count then
    let s := if order = 9 ∧ s.super = [] then { s with toPod := w.sweepSuper s.toPod } else s
    if s.single = [] ∧ (order = 0 ∨ (order = 9 ∧ s.super = [])) then { s with toPod := w.sweepSingle s.toPod } else s
  else s

/-- A page of the cache is mapped. -/
def mapPage (w : World) (gfn order page : ℕ) (s : Locking) : Result Bool × Locking :=
  if page % 2 ^ order ≠ 0 then (.halted, s)
  else
    let s := (s.setP2mEntry w gfn page order .ramRw).1
    let s := { s with toState := State.nameFrames gfn page (2 ^ order) 0 s.toState }
    let s := { s with entryCount := s.entryCount - 2 ^ order }
    if s.entryCount < 0 then (.halted, s) else (.done true, s)

/-- `p2m_pod_demand_populate`, and whether it returns 0. -/
def demandPopulate (w : World) (gfn order : ℕ) (q : Query) (s : Locking) : Result Bool × Locking :=
  let aligned := gfn / 2 ^ order * 2 ^ order
  if s.isDying then (.done false, s)
  else if order = 18 then (.done true, (s.setP2mEntry w aligned populateOnDemandMfn 9 .populateOnDemand).1.unlock)
  else
    let s := s.sweepIfLow w order
    let s := if q = .guest ∧ gfn > s.maxGuest then { s with maxGuest := gfn } else s
    if s.count = 0 then (.done false, { s with crashed := true })
    else if order ≠ 0 ∧ order ≠ 9 then (.halted, s)
    else
      match s.toPod.cacheGet order with
      | some (page, p) => mapPage w aligned order page { s with toPod := p }
      | none => if order ≠ 9 then (.halted, s) else (.done true, s.splinter w aligned (2 ^ order) 0)

/-- The lock is taken unless the caller has it. -/
def lockIf (w : World) (doLocking : Bool) (s : Locking) : Option Locking := if doLocking then s.lock w else some s

def unlockIf (doLocking : Bool) (s : Locking) : Locking := if doLocking then s.unlock else s

/-- `p2m_pod_check_and_populate`. -/
def checkAndPopulate (w : World) (gfn : ℕ) (level : Level) (order : ℕ) (q : Query) (s : Locking) :
    Result Bool × Locking :=
  let doLocking := !s.holder.mine
  match s.lockIf w doLocking with
  | none => (.halted, s)
  | some s =>
      let slot := w.slot s.clock level gfn
      let s := s.look w
      if slot.type ≠ .populateOnDemand then (.done true, s.unlockIf doLocking)
      else
        match s.demandPopulate w gfn order q with
        | (.done r, s) => (.done r, s.unlockIf doLocking)
        | out => out

/-- What a lookup does where the flags of a slot say so. -/
def populate (w : World) (gfn : ℕ) (q : Query) (level : Level) (s : Locking) : Result Bool × Locking :=
  match level with
  | .l3 => s.demandPopulate w gfn 18 q
  | .l2 => s.checkAndPopulate w gfn .l2 9 q
  | .l1 => s.checkAndPopulate w gfn .l1 0 q

/-- What is returned for a frame that is mapped. -/
def mapped (gfn mfn : ℕ) (t : P2mType) : Level → Entry
  | .l3 => ⟨if t.isRam || t = .mmioDm || t = .mmioDirect then mfn + gfn % 2 ^ 18 else invalidMfn, t⟩
  | .l2 => ⟨if t.isRam || t = .mmioDm || t = .mmioDirect then mfn + gfn % 2 ^ 9 else invalidMfn, t⟩
  | .l1 => ⟨if t.isRam || t = .mmioDm || t = .mmioDirect || t.isGrant then mfn else invalidMfn, t⟩

/-- The walk of `p2m_gfn_to_mfn` below the top level, which looks again after it has populated. -/
def walk (w : World) (gfn : ℕ) (q : Query) : (fuel : ℕ) → Level → Locking → Result Entry × Locking
  | 0, _, s => (.running, s)
  | fuel + 1, level, s =>
      let slot := w.slot s.clock level gfn
      let s := s.look w
      match slot with
      | .absent t =>
          if t = .populateOnDemand then
            if q ≠ .query then
              match s.populate w gfn q level with
              | (.done true, s) => walk w gfn q fuel level s
              | (.done false, s) => (.done .unmapped, s)
              | (.running, s) => (.running, s)
              | (.halted, s) => (.halted, s)
            else (.done ⟨invalidMfn, .populateOnDemand⟩, s)
          else (.done .unmapped, s)
      | .present mfn t pse =>
          match level with
          | .l1 => (.done (mapped gfn mfn t .l1), s)
          | .l2 => if pse then (.done (mapped gfn mfn t .l2), s) else walk w gfn q fuel .l1 s
          | .l3 => if pse then (.done (mapped gfn mfn t .l3), s) else walk w gfn q fuel .l2 s

/-- `p2m_gfn_to_mfn`. -/
def gfnToMfn (w : World) (gfn : ℕ) (q : Query) (fuel : ℕ) (s : Locking) : Result Entry × Locking :=
  if gfn > s.maxMapped then (.done .unmapped, s)
  else
    let present := w.l4Present s.clock gfn
    let s := s.look w
    if present then walk w gfn q fuel .l3 s else (.done .unmapped, s)

inductive Errno where
  | ok | EBUSY | EINVAL
  deriving DecidableEq

/-- The loop of `guest_physmap_mark_populate_on_demand`: how many frames are populated on demand
already, unless one is in use. -/
def countPod (gfn : ℕ) : (todo i podCount : ℕ) → State → Option ℕ
  | 0, _, podCount, _ => some podCount
  | todo + 1, i, podCount, s =>
      let e := s.p2m (gfn + i)
      if e.type.isRam then none
      else countPod gfn todo (i + 1) (if e.type = .populateOnDemand then podCount + 1 else podCount) s

/-- `guest_physmap_mark_populate_on_demand`. -/
def markPopulateOnDemand (w : World) (gfn order : ℕ) (s : Locking) : Result Errno × Locking :=
  if !s.translated then (.halted, s)
  else
    match s.lock w with
    | none => (.halted, s)
    | some s =>
        match countPod gfn (2 ^ order) 0 0 s.toState with
        | none => (.done .EBUSY, s)
        | some podCount =>
            let (s, set) := s.setP2mEntry w gfn populateOnDemandMfn order .populateOnDemand
            if set then
              let s := { s with entryCount := s.entryCount + 2 ^ order - podCount }
              if s.entryCount < 0 then (.halted, s) else (.done .ok, s.unlock)
            else (.done .EINVAL, s.unlock)

/-- `guest_physmap_add_entry`. -/
def addEntry (w : World) (gfn mfn order : ℕ) (t : P2mType) (s : Locking) : Result Errno × Locking :=
  if !s.translated then (.done .ok, s)
  else
    match s.lock w with
    | none => (.halted, s)
    | some s =>
        match State.retire gfn (2 ^ order) 0 0 s.toState with
        | .error st => (.done .EINVAL, { s with toState := st }.unlock)
        | .ok (st, podCount) =>
            let s := { s with toState := State.unalias gfn mfn w.ok (2 ^ order) 0 st }
            if s.mfnValid mfn then
              let (s, set) := s.setP2mEntry w gfn mfn order t
              let s := if t.isGrant then s else { s with toState := State.nameFrames gfn mfn (2 ^ order) 0 s.toState }
              (.done (if set then .ok else .EINVAL), s.unlock)
            else
              let (s, set) := s.setP2mEntry w gfn invalidMfn order .invalid
              if set then
                let s := { s with entryCount := s.entryCount - podCount }
                if s.entryCount < 0 then (.halted, s) else (.done .ok, s.unlock)
              else (.done .EINVAL, s.unlock)

/-! ## What is asked of a call -/

inductive Call where
  | mark (gfn order : ℕ)
  | add (gfn mfn order : ℕ) (t : P2mType)
  | check (gfn : ℕ) (level : Level) (order : ℕ) (q : Query)
  | demand (gfn order : ℕ) (q : Query)
  | lookup (gfn : ℕ) (q : Query)

/-- The state in which a call begins. -/
def enter (s : Locking) : Locking :=
  { s with stray := false, holder := if s.holder.mine then .caller else s.holder }

/-- How far a call comes. Only the lookup can need more than one round. -/
def run (w : World) (fuel : ℕ) (call : Call) (s : Locking) : Bool × Locking :=
  match call with
  | .mark gfn order => (s.markPopulateOnDemand w gfn order).map Result.isDone id
  | .add gfn mfn order t => (s.addEntry w gfn mfn order t).map Result.isDone id
  | .check gfn level order q => (s.checkAndPopulate w gfn level order q).map Result.isDone id
  | .demand gfn order q => (s.demandPopulate w gfn order q).map Result.isDone id
  | .lookup gfn q => (s.gfnToMfn w gfn q fuel).map Result.isDone id

/-- The call gives up no lock that it has not taken, and if it ends this CPU has the lock just if it
had it before. -/
structure Balanced (w : World) (call : Call) (s : Locking) : Prop where
  stray : ∀ fuel, (run w fuel call s.enter).2.stray = false
  holder : ∀ fuel, (run w fuel call s.enter).1 = true → (run w fuel call s.enter).2.holder.mine = s.holder.mine

/-- When it does: a range that is to be populated on demand has no RAM, once the lock is taken; and
no frame of 1GB is populated on demand, unless the domain is torn down. -/
def Fits (w : World) (s : Locking) : Call → Prop
  | .mark gfn order => s.translated = false ∨ s.holder.mine = true ∨
      ∀ i < 2 ^ order, ((s.look w).p2m (gfn + i)).type.isRam = false
  | .add _ _ _ _ => True
  | .check gfn level order _ => order = 18 →
      ((s.locked w).look w).isDying = true ∨ (w.slot (s.locked w).clock level gfn).type ≠ .populateOnDemand
  | .demand _ order _ => order = 18 → s.isDying = true
  | .lookup gfn q => q = .query ∨ s.maxMapped < gfn ∨ w.l4Present s.clock gfn = false ∨
      w.slot (s.clock + 1) .l3 gfn ≠ .absent .populateOnDemand ∨ ((s.look w).look w).isDying = true

variable {w : World} {s s' s'' : Locking} {gfn mfn order page fuel : ℕ} {q : Query} {t : P2mType} {level : Level}
  {α : Type} {r : Result α × Locking}

/-! ## What leaves the lock alone -/

structure Kept (s s' : Locking) : Prop where
  holder : s'.holder.Like s.holder
  stray : s'.stray = s.stray

theorem Kept.refl (s : Locking) : Kept s s := ⟨Holder.Like.refl _, rfl⟩

theorem Kept.trans (h : Kept s s') (h' : Kept s' s'') : Kept s s'' :=
  ⟨h'.holder.trans h.holder, h'.stray.trans h.stray⟩

/-- The same for a call, which may not come to its end. -/
structure Keeps (s : Locking) (r : Result α × Locking) : Prop where
  holder : r.1.isDone = true → r.2.holder.Like s.holder
  stray : r.2.stray = s.stray

theorem Kept.keeps (h : Kept s s') (a : Result α) : Keeps s (a, s') := ⟨fun _ => h.holder, h.stray⟩

theorem Kept.trans_keeps (h : Kept s s') (h' : Keeps s' r) : Keeps s r :=
  ⟨fun hdone => (h'.holder hdone).trans h.holder, h'.stray.trans h.stray⟩

theorem kept_look (w : World) (s : Locking) : Kept s (s.look w) := ⟨Or.inl rfl, rfl⟩

theorem kept_splinter (todo i : ℕ) (s : Locking) : Kept s (s.splinter w gfn todo i) := by
  induction todo generalizing i s with
  | zero => exact Kept.refl s
  | succ todo ih =>
      obtain ⟨hholder, hstray⟩ := ih (i + 1) (s.setP2mEntry w (gfn + i) populateOnDemandMfn 0 .populateOnDemand).1
      exact ⟨hholder, hstray⟩

theorem kept_sweepIfLow (w : World) (order : ℕ) (s : Locking) : Kept s (s.sweepIfLow w order) := by
  unfold sweepIfLow
  by_cases hlow : s.entryCount > s.count
  · rw [if_pos hlow]
    dsimp only
    generalize hs : (if order = 9 ∧ s.super = [] then { s with toPod := w.sweepSuper s.toPod } else s) = s₁
    have hkept : Kept s s₁ := by
      rw [← hs]
      split
      · exact ⟨Or.inl rfl, rfl⟩
      · exact Kept.refl s
    split
    · exact hkept.trans ⟨Or.inl rfl, rfl⟩
    · exact hkept
  · rw [if_neg hlow]
    exact Kept.refl s

theorem keeps_mapPage (w : World) (gfn order page : ℕ) (s : Locking) : Keeps s (s.mapPage w gfn order page) := by
  unfold mapPage
  by_cases haligned : page % 2 ^ order ≠ 0
  · rw [if_pos haligned]
    exact (Kept.refl s).keeps _
  · rw [if_neg haligned]
    dsimp only
    split
    · exact ⟨fun _ => Or.inl rfl, rfl⟩
    · exact ⟨fun _ => Or.inl rfl, rfl⟩

/-! ## Frames that are populated on demand -/

/-- Only a frame of 1GB, in a domain that lives, is dealt with in another way. -/
theorem keeps_demandPopulate (h : order = 18 → s.isDying = true) : Keeps s (s.demandPopulate w gfn order q) := by
  unfold demandPopulate
  dsimp only
  by_cases hdying : s.isDying = true
  · rw [if_pos hdying]
    exact (Kept.refl s).keeps _
  · rw [if_neg hdying, if_neg (fun h18 => hdying (h h18))]
    have hswept := kept_sweepIfLow w order s
    generalize s.sweepIfLow w order = s₁ at hswept
    generalize hs : (if q = .guest ∧ gfn > s₁.maxGuest then { s₁ with maxGuest := gfn } else s₁) = s₂
    have hkept : Kept s s₂ := by
      rw [← hs]
      split
      · exact hswept.trans ⟨Or.inl rfl, rfl⟩
      · exact hswept
    by_cases hcount : s₂.count = 0
    · rw [if_pos hcount]
      exact ⟨fun _ => hkept.holder, hkept.stray⟩
    · rw [if_neg hcount]
      by_cases hsize : order ≠ 0 ∧ order ≠ 9
      · rw [if_pos hsize]
        exact hkept.keeps _
      · rw [if_neg hsize]
        cases s₂.toPod.cacheGet order with
        | some got =>
            have hgot : Kept s₂ { s₂ with toPod := got.2 } := ⟨Or.inl rfl, rfl⟩
            exact (hkept.trans hgot).trans_keeps (keeps_mapPage w _ _ _ _)
        | none =>
            dsimp only
            split
            · exact hkept.keeps _
            · exact Kept.keeps (hkept.trans (kept_splinter _ _ _)) _

/-- The lock is given up. -/
theorem demandPopulate_gib (h : s.isDying = false) :
    (s.demandPopulate w gfn 18 q).1 = .done true ∧ (s.demandPopulate w gfn 18 q).2.holder = .free ∧
      (s.demandPopulate w gfn 18 q).2.stray = (s.stray || decide (s.holder ≠ .callee)) := by
  unfold demandPopulate
  rw [if_neg (by rw [h]; exact Bool.false_ne_true), if_pos rfl]
  exact ⟨rfl, rfl, rfl⟩

theorem lockIf_eq (w : World) (s : Locking) : s.lockIf w (!s.holder.mine) = some (s.locked w) := by
  unfold lockIf locked lock
  cases hmine : s.holder.mine <;> rfl

/-- Whoever takes the lock has it. -/
theorem locked_spec (w : World) (s : Locking) :
    (s.locked w).stray = s.stray ∧ (s.locked w).holder = if s.holder.mine then s.holder else .callee := by
  unfold locked
  cases hmine : s.holder.mine
  · exact ⟨rfl, rfl⟩
  · exact ⟨rfl, rfl⟩

/-- What was taken is given back. -/
theorem unlockIf_spec (h : s'.holder = (s.locked w).holder) (hstray : s'.stray = s.stray) :
    Kept s (s'.unlockIf (!s.holder.mine)) := by
  rw [(locked_spec w s).2] at h
  unfold unlockIf
  cases hmine : s.holder.mine
  · rw [hmine] at h
    refine ⟨Or.inr ⟨rfl, hmine⟩, ?_⟩
    show (s'.stray || decide (s'.holder ≠ .callee)) = s.stray
    rw [hstray, h]
    simp
  · rw [hmine] at h
    exact ⟨Or.inl h, hstray⟩

/-- The state in which `p2m_pod_check_and_populate` populates. -/
theorem checkAndPopulate_eq (w : World) (gfn : ℕ) (level : Level) (order : ℕ) (q : Query) (s : Locking) :
    s.checkAndPopulate w gfn level order q =
      if (w.slot (s.locked w).clock level gfn).type ≠ .populateOnDemand then
        (.done true, ((s.locked w).look w).unlockIf (!s.holder.mine))
      else
        match ((s.locked w).look w).demandPopulate w gfn order q with
        | (.done r, s') => (.done r, s'.unlockIf (!s.holder.mine))
        | out => out := by
  unfold checkAndPopulate
  dsimp only
  rw [lockIf_eq]

theorem keeps_checkAndPopulate (h : order = 18 →
      ((s.locked w).look w).isDying = true ∨ (w.slot (s.locked w).clock level gfn).type ≠ .populateOnDemand) :
    Keeps s (s.checkAndPopulate w gfn level order q) := by
  have hstray : ((s.locked w).look w).stray = s.stray := (locked_spec w s).1
  have hmine : ((s.locked w).look w).holder.mine = true := by
    show (s.locked w).holder.mine = true
    rw [(locked_spec w s).2]
    cases hholder : s.holder <;> rfl
  rw [checkAndPopulate_eq]
  by_cases hslot : (w.slot (s.locked w).clock level gfn).type ≠ .populateOnDemand
  · rw [if_pos hslot]
    exact (@unlockIf_spec w s ((s.locked w).look w) rfl hstray).keeps _
  · rw [if_neg hslot]
    have hkeeps := @keeps_demandPopulate w ((s.locked w).look w) gfn order q (fun h18 => (h h18).resolve_right hslot)
    rcases hrun : ((s.locked w).look w).demandPopulate w gfn order q with ⟨_ | _ | r, s'⟩
    · rw [hrun] at hkeeps
      exact ⟨fun hdone => absurd hdone Bool.false_ne_true, hkeeps.stray.trans hstray⟩
    · rw [hrun] at hkeeps
      exact ⟨fun hdone => absurd hdone Bool.false_ne_true, hkeeps.stray.trans hstray⟩
    · rw [hrun] at hkeeps
      have hholder : s'.holder = (s.locked w).holder := (hkeeps.holder rfl).eq hmine
      exact (unlockIf_spec hholder (hkeeps.stray.trans hstray)).keeps _

/-- A frame of 1GB: the lock that the caller has is given up, or the one that was taken twice. -/
theorem checkAndPopulate_gib (hlive : ((s.locked w).look w).isDying = false)
    (hslot : (w.slot (s.locked w).clock level gfn).type = .populateOnDemand) (hentry : s.holder ≠ .callee) :
    (s.checkAndPopulate w gfn level 18 q).2.stray = true := by
  obtain ⟨hdone, hfree, hgave⟩ := @demandPopulate_gib w ((s.locked w).look w) gfn q hlive
  have hholder : ((s.locked w).look w).holder = if s.holder.mine then s.holder else .callee := (locked_spec w s).2
  rw [checkAndPopulate_eq, if_neg (fun hne => hne hslot)]
  rcases hrun : ((s.locked w).look w).demandPopulate w gfn 18 q with ⟨_ | _ | r, s'⟩
  · rw [hrun] at hdone
    exact absurd hdone nofun
  · rw [hrun] at hdone
    exact absurd hdone nofun
  · rw [hrun] at hgave hfree
    dsimp only at hgave hfree ⊢
    unfold unlockIf
    cases hmine : s.holder.mine
    · show (s'.stray || decide (s'.holder ≠ .callee)) = true
      rw [hfree]
      simp
    · show s'.stray = true
      rw [hgave, hholder, hmine, if_pos rfl]
      simp [hentry]

/-! ## Lookups -/

theorem walk_succ (w : World) (gfn : ℕ) (q : Query) (fuel : ℕ) (level : Level) (s : Locking) :
    walk w gfn q (fuel + 1) level s =
      if w.slot s.clock level gfn = .absent .populateOnDemand ∧ q ≠ .query then
        match (s.look w).populate w gfn q level with
        | (.done true, s) => walk w gfn q fuel level s
        | (.done false, s) => (.done .unmapped, s)
        | (.running, s) => (.running, s)
        | (.halted, s) => (.halted, s)
      else
        match w.slot s.clock level gfn with
        | .absent t => (.done (if t = .populateOnDemand then ⟨invalidMfn, .populateOnDemand⟩ else .unmapped), s.look w)
        | .present mfn t pse =>
            match level with
            | .l1 => (.done (mapped gfn mfn t .l1), s.look w)
            | .l2 => if pse then (.done (mapped gfn mfn t .l2), s.look w) else walk w gfn q fuel .l1 (s.look w)
            | .l3 => if pse then (.done (mapped gfn mfn t .l3), s.look w) else walk w gfn q fuel .l2 (s.look w) := by
  rw [walk]
  cases hslot : w.slot s.clock level gfn with
  | absent t =>
      dsimp only
      by_cases ht : t = .populateOnDemand
      · subst ht
        by_cases hq : q = .query
        · rw [if_pos rfl, if_neg (fun h => h hq), if_neg (fun h => h.2 hq), if_pos rfl]
        · rw [if_pos rfl, if_pos hq, if_pos ⟨rfl, hq⟩]
      · rw [if_neg ht, if_neg (fun h => ht (Slot.absent.inj h.1)), if_neg ht]
  | present mfn t pse =>
      have hnot : ¬(Slot.present mfn t pse = .absent .populateOnDemand ∧ q ≠ .query) := fun h => absurd h.1 nofun
      rw [if_neg hnot]

theorem keeps_round (hpop : q ≠ .query → w.slot s.clock level gfn = .absent .populateOnDemand →
      Keeps (s.look w) ((s.look w).populate w gfn q level))
    (hagain : ∀ s', q ≠ .query → w.slot s.clock level gfn = .absent .populateOnDemand →
      (s.look w).populate w gfn q level = (.done true, s') →
      Keeps s' (walk w gfn q fuel level s'))
    (hdown : ∀ l, l ≠ .l3 → Keeps (s.look w) (walk w gfn q fuel l (s.look w))) :
    Keeps s (walk w gfn q (fuel + 1) level s) := by
  have hlook := kept_look w s
  rw [walk_succ]
  by_cases hpod : w.slot s.clock level gfn = .absent .populateOnDemand ∧ q ≠ .query
  · rw [if_pos hpod]
    have hkeeps := hpop hpod.2 hpod.1
    rcases hrun : (s.look w).populate w gfn q level with ⟨_ | _ | _ | _, s'⟩
    · rw [hrun] at hkeeps
      exact hlook.trans_keeps ⟨fun hdone => absurd hdone Bool.false_ne_true, hkeeps.stray⟩
    · rw [hrun] at hkeeps
      exact hlook.trans_keeps ⟨fun hdone => absurd hdone Bool.false_ne_true, hkeeps.stray⟩
    · rw [hrun] at hkeeps
      exact hlook.trans_keeps ⟨fun _ => hkeeps.holder rfl, hkeeps.stray⟩
    · rw [hrun] at hkeeps
      have hkept : Kept (s.look w) s' := ⟨hkeeps.holder rfl, hkeeps.stray⟩
      exact (hlook.trans hkept).trans_keeps (hagain s' hpod.2 hpod.1 hrun)
  · rw [if_neg hpod]
    cases w.slot s.clock level gfn with
    | absent t => exact hlook.keeps _
    | present mfn t pse =>
        cases level with
        | l1 => exact hlook.keeps _
        | l2 =>
            dsimp only
            split
            · exact hlook.keeps _
            · exact hlook.trans_keeps (hdown .l1 nofun)
        | l3 =>
            dsimp only
            split
            · exact hlook.keeps _
            · exact hlook.trans_keeps (hdown .l2 nofun)

/-- Below the level of 1GB the lock is taken and given back in each round. -/
theorem keeps_walk (hlevel : level ≠ .l3) (s : Locking) : Keeps s (walk w gfn q fuel level s) := by
  induction fuel generalizing level s with
  | zero => exact (Kept.refl s).keeps _
  | succ fuel ih =>
      apply keeps_round
      · intro _ _
        cases level with
        | l1 => exact keeps_checkAndPopulate (fun h => absurd h (by decide))
        | l2 => exact keeps_checkAndPopulate (fun h => absurd h (by decide))
        | l3 => exact absurd rfl hlevel
      · intro s' _ _ _
        exact ih hlevel s'
      · intro l hl
        exact ih hl _

/-- A lookup keeps the lock, unless it finds a frame of 1GB that is populated on demand. -/
theorem keeps_gfnToMfn (h : Fits w s (.lookup gfn q)) : Keeps s (s.gfnToMfn w gfn q fuel) := by
  unfold gfnToMfn
  by_cases hhigh : gfn > s.maxMapped
  · rw [if_pos hhigh]
    exact (Kept.refl s).keeps _
  · rw [if_neg hhigh]
    dsimp only
    by_cases hpresent : w.l4Present s.clock gfn = true
    · rw [if_pos hpresent]
      apply (kept_look w s).trans_keeps
      cases fuel with
      | zero => exact (Kept.refl _).keeps _
      | succ fuel =>
          have hdead : q ≠ .query → w.slot (s.look w).clock .l3 gfn = .absent .populateOnDemand →
              ((s.look w).look w).isDying = true := by
            intro hq hslot
            rcases h with h | h | h | h | h
            · exact absurd h hq
            · exact absurd h hhigh
            · rw [hpresent] at h
              exact absurd h nofun
            · exact absurd hslot h
            · exact h
          have hrefused : q ≠ .query → w.slot (s.look w).clock .l3 gfn = .absent .populateOnDemand →
              ((s.look w).look w).populate w gfn q .l3 = (.done false, (s.look w).look w) := by
            intro hq hslot
            exact if_pos (hdead hq hslot)
          by_cases hpod : w.slot (s.look w).clock .l3 gfn = .absent .populateOnDemand ∧ q ≠ .query
          · rw [walk_succ, if_pos hpod, hrefused hpod.2 hpod.1]
            exact (kept_look w _).keeps _
          · apply keeps_round
            · intro hq hslot
              exact absurd ⟨hslot, hq⟩ hpod
            · intro s' hq hslot _
              exact absurd ⟨hslot, hq⟩ hpod
            · intro l hl
              exact keeps_walk hl _
    · rw [if_neg hpresent]
      exact (kept_look w s).keeps _

/-- Where it does, it gives up a lock that it has not taken. -/
theorem gfnToMfn_gib (h : ¬Fits w s (.lookup gfn q)) (hentry : s.holder ≠ .callee) :
    (s.gfnToMfn w gfn q 1).2.stray = true := by
  unfold Fits at h
  have hq : q ≠ .query := fun h' => h (Or.inl h')
  have hlow : ¬gfn > s.maxMapped := fun h' => h (Or.inr (Or.inl h'))
  have hpresent : w.l4Present s.clock gfn = true := by
    by_contra h'
    exact h (Or.inr (Or.inr (Or.inl (Bool.eq_false_iff.mpr h'))))
  have hslot : w.slot (s.look w).clock .l3 gfn = .absent .populateOnDemand := by
    by_contra h'
    exact h (Or.inr (Or.inr (Or.inr (Or.inl h'))))
  have hlive : ((s.look w).look w).isDying = false := by
    by_contra h'
    exact h (Or.inr (Or.inr (Or.inr (Or.inr (Bool.eq_true_of_not_eq_false h')))))
  obtain ⟨hdone, -, hgave⟩ := @demandPopulate_gib w ((s.look w).look w) gfn q hlive
  have hpop : ((s.look w).look w).populate w gfn q .l3 =
      (.done true, (((s.look w).look w).demandPopulate w gfn 18 q).2) := by
    show ((s.look w).look w).demandPopulate w gfn 18 q = _
    rw [← hdone]
  unfold gfnToMfn
  rw [if_neg hlow]
  dsimp only
  rw [if_pos hpresent, walk_succ, if_pos ⟨hslot, hq⟩, hpop]
  show (((s.look w).look w).demandPopulate w gfn 18 q).2.stray = true
  rw [hgave]
  have hholder : ((s.look w).look w).holder = s.holder := rfl
  rw [hholder]
  simp [hentry]

/-! ## Ranges -/

theorem countPod_none {st : State} (todo i n : ℕ) :
    countPod gfn todo i n st = none ↔ ∃ k < todo, (st.p2m (gfn + (i + k))).type.isRam = true := by
  induction todo generalizing i n with
  | zero =>
      constructor
      · intro h
        exact absurd h nofun
      · rintro ⟨k, hk, -⟩
        exact absurd hk (Nat.not_lt_zero k)
  | succ todo ih =>
      rw [countPod]
      by_cases hram : (st.p2m (gfn + i)).type.isRam = true
      · rw [if_pos hram]
        constructor
        · intro _
          exact ⟨0, Nat.succ_pos todo, hram⟩
        · intro _
          rfl
      · rw [if_neg hram, ih]
        constructor
        · rintro ⟨k, hk, hk'⟩
          refine ⟨k + 1, Nat.succ_lt_succ hk, ?_⟩
          rw [show i + (k + 1) = i + 1 + k by omega]
          exact hk'
        · rintro ⟨_ | k, hk, hk'⟩
          · exact absurd hk' hram
          · refine ⟨k, Nat.lt_of_succ_lt_succ hk, ?_⟩
            rw [show i + 1 + k = i + (k + 1) by omega]
            exact hk'

/-- The lock is taken and given back. -/
theorem kept_unlock (hfree : ¬s.holder.mine = true) (hlocked : s'.holder = .callee) (hstray : s'.stray = s.stray) :
    Kept s s'.unlock := by
  refine ⟨Or.inr ⟨rfl, Bool.eq_false_iff.mpr hfree⟩, ?_⟩
  show (s'.stray || decide (s'.holder ≠ .callee)) = s.stray
  rw [hlocked, hstray]
  simp

theorem keeps_halted (h : s'.stray = s.stray) : Keeps s ((Result.halted, s') : Result α × Locking) :=
  ⟨fun hdone => absurd hdone Bool.false_ne_true, h⟩

theorem keeps_markPopulateOnDemand (h : Fits w s (.mark gfn order)) :
    Keeps s (s.markPopulateOnDemand w gfn order) := by
  unfold markPopulateOnDemand
  by_cases htrans : s.translated = true
  · rw [if_neg (by simp [htrans])]
    unfold lock
    by_cases hmine : s.holder.mine = true
    · rw [if_pos hmine]
      exact keeps_halted rfl
    · rw [if_neg hmine]
      dsimp only
      have hram : ∀ i < 2 ^ order, ((s.look w).p2m (gfn + i)).type.isRam = false := by
        rcases h with h | h | h
        · rw [htrans] at h
          exact absurd h nofun
        · exact absurd h hmine
        · exact h
      cases hcount : countPod gfn (2 ^ order) 0 0 (s.look w).toState with
      | none =>
          obtain ⟨k, hk, hk'⟩ := (countPod_none _ _ _).mp hcount
          rw [Nat.zero_add, hram k hk] at hk'
          exact absurd hk' nofun
      | some podCount =>
          dsimp only
          split
          · split
            · exact keeps_halted rfl
            · refine Kept.keeps (kept_unlock hmine ?_ ?_) _ <;> rfl
          · refine Kept.keeps (kept_unlock hmine ?_ ?_) _ <;> rfl
  · rw [if_pos (by simp [htrans])]
    exact keeps_halted rfl

/-- The range is in use: the lock is kept. -/
theorem markPopulateOnDemand_busy (h : ¬Fits w s (.mark gfn order)) :
    s.holder.mine = false ∧ (s.markPopulateOnDemand w gfn order).1.isDone = true ∧
      (s.markPopulateOnDemand w gfn order).2.holder.mine = true := by
  unfold Fits at h
  have htrans : s.translated = true := by
    by_contra h'
    exact h (Or.inl (Bool.eq_false_iff.mpr h'))
  have hmine : ¬s.holder.mine = true := fun h' => h (Or.inr (Or.inl h'))
  have hbusy : countPod gfn (2 ^ order) 0 0 (s.look w).toState = none := by
    rw [countPod_none]
    by_contra h'
    refine h (Or.inr (Or.inr ?_))
    intro i hi
    by_contra hram
    refine h' ⟨i, hi, ?_⟩
    rw [Nat.zero_add]
    exact Bool.eq_true_of_not_eq_false hram
  refine ⟨Bool.eq_false_iff.mpr hmine, ?_⟩
  unfold markPopulateOnDemand
  rw [if_neg (by simp [htrans])]
  unfold lock
  rw [if_neg hmine]
  dsimp only
  rw [hbusy]
  exact ⟨rfl, rfl⟩

theorem keeps_addEntry (w : World) (gfn mfn order : ℕ) (t : P2mType) (s : Locking) :
    Keeps s (s.addEntry w gfn mfn order t) := by
  unfold addEntry
  by_cases htrans : s.translated = true
  · rw [if_neg (by simp [htrans])]
    unfold lock
    by_cases hmine : s.holder.mine = true
    · rw [if_pos hmine]
      exact keeps_halted rfl
    · rw [if_neg hmine]
      dsimp only
      cases State.retire gfn (2 ^ order) 0 0 (s.look w).toState with
      | error st => refine Kept.keeps (kept_unlock hmine ?_ ?_) _ <;> rfl
      | ok done =>
          dsimp only
          split
          · refine Kept.keeps (kept_unlock hmine ?_ ?_) _ <;> split <;> rfl
          · split
            · split
              · exact keeps_halted rfl
              · refine Kept.keeps (kept_unlock hmine ?_ ?_) _ <;> rfl
            · refine Kept.keeps (kept_unlock hmine ?_ ?_) _ <;> rfl
  · rw [if_pos (by simp [htrans])]
    exact (Kept.refl s).keeps _

/-! ## All calls -/

theorem enter_mine (s : Locking) : s.enter.holder.mine = s.holder.mine := by
  unfold enter
  cases s.holder <;> rfl

theorem enter_holder (s : Locking) : s.enter.holder ≠ .callee := by
  unfold enter
  cases s.holder <;> exact nofun

/-- Two states that differ at most in who of this CPU has the lock, and in the mark. -/
structure Alike (s s' : Locking) : Prop where
  toPod : s.toPod = s'.toPod
  clock : s.clock = s'.clock
  mine : s.holder.mine = s'.holder.mine
  translated : s.translated = s'.translated
  maxMapped : s.maxMapped = s'.maxMapped

theorem Alike.look (h : Alike s s') (w : World) : Alike (s.look w) (s'.look w) := by
  refine ⟨?_, ?_, h.mine, h.translated, h.maxMapped⟩
  · unfold Locking.look
    rw [h.toPod, h.clock, h.mine]
  · show s.clock + 1 = s'.clock + 1
    rw [h.clock]

theorem Alike.locked (h : Alike s s') (w : World) : Alike (s.locked w) (s'.locked w) := by
  have hlook := h.look w
  unfold Locking.locked
  rw [h.mine]
  cases s'.holder.mine
  · exact ⟨hlook.toPod, hlook.clock, rfl, hlook.translated, hlook.maxMapped⟩
  · exact h

theorem alike_enter (s : Locking) : Alike s.enter s := ⟨rfl, rfl, enter_mine s, rfl, rfl⟩

/-- They are fit for the same calls. -/
theorem fits_enter (w : World) (s : Locking) (call : Call) : Fits w s.enter call ↔ Fits w s call := by
  have h := alike_enter s
  cases call with
  | mark gfn order =>
      unfold Fits
      rw [h.translated, h.mine, (h.look w).toPod]
  | add gfn mfn order t => exact Iff.rfl
  | check gfn level order q =>
      unfold Fits
      rw [((h.locked w).look w).toPod, (h.locked w).clock]
  | demand gfn order q => exact Iff.rfl
  | lookup gfn q =>
      unfold Fits
      rw [h.maxMapped, h.clock, ((h.look w).look w).toPod]

theorem balanced_of_keeps {call : Call} (h : ∀ fuel, ∃ (α : Type) (r : Result α × Locking),
      run w fuel call s.enter = r.map Result.isDone id ∧ Keeps s.enter r) : Balanced w call s := by
  constructor
  · intro fuel
    obtain ⟨α, r, hr, hkeeps⟩ := h fuel
    rw [hr]
    exact hkeeps.stray
  · intro fuel hdone
    obtain ⟨α, r, hr, hkeeps⟩ := h fuel
    rw [hr] at hdone ⊢
    exact (hkeeps.holder hdone).mine.trans (enter_mine s)

/-- A call leaves the lock as it was, and gives up none that it has not taken, exactly if no RAM is
to be populated on demand, and no frame of 1GB is populated on demand in a domain that lives. -/
theorem run_balanced_iff (w : World) (call : Call) (s : Locking) : Balanced w call s ↔ Fits w s call := by
  constructor
  · intro h
    by_contra hnot
    rw [← fits_enter] at hnot
    cases call with
    | mark gfn order =>
        obtain ⟨hfree, hdone, hmine⟩ := markPopulateOnDemand_busy hnot
        have heq : (markPopulateOnDemand w gfn order s.enter).2.holder.mine = s.holder.mine := h.holder 0 hdone
        rw [hmine, ← enter_mine, hfree] at heq
        exact absurd heq nofun
    | add gfn mfn order t => exact hnot trivial
    | check gfn level order q =>
        unfold Fits at hnot
        push Not at hnot
        obtain ⟨rfl, hlive, hslot⟩ := hnot
        have hlost := @checkAndPopulate_gib w s.enter gfn q level (Bool.eq_false_iff.mpr hlive) hslot (enter_holder s)
        exact absurd (hlost.symm.trans (h.stray 0)) nofun
    | demand gfn order q =>
        unfold Fits at hnot
        push Not at hnot
        obtain ⟨rfl, hlive⟩ := hnot
        obtain ⟨-, -, hgave⟩ := @demandPopulate_gib w s.enter gfn q (Bool.eq_false_iff.mpr hlive)
        have hlost : (demandPopulate w gfn 18 q s.enter).2.stray = true := by
          rw [hgave]
          simp [enter_holder]
        exact absurd (hlost.symm.trans (h.stray 0)) nofun
    | lookup gfn q =>
        have hlost := gfnToMfn_gib hnot (enter_holder s)
        exact absurd (hlost.symm.trans (h.stray 1)) nofun
  · intro h
    rw [← fits_enter] at h
    apply balanced_of_keeps
    intro fuel
    cases call with
    | mark gfn order => exact ⟨_, _, rfl, keeps_markPopulateOnDemand h⟩
    | add gfn mfn order t => exact ⟨_, _, rfl, keeps_addEntry w gfn mfn order t _⟩
    | check gfn level order q => exact ⟨_, _, rfl, keeps_checkAndPopulate h⟩
    | demand gfn order q => exact ⟨_, _, rfl, keeps_demandPopulate h⟩
    | lookup gfn q => exact ⟨_, _, rfl, keeps_gfnToMfn h⟩

/-! ## A range that is in use -/

/-- A domain in which frame 0 is RAM, on a machine where nothing else happens. -/
def oneFrame : Locking where
  hapEnabled := true
  hap1gb := false
  hap2mb := true
  mfnValid := fun mfn => decide (mfn < 1024)
  owner := fun mfn => if mfn = 7 then .self else .other
  p2m := fun gfn => if gfn = 0 then ⟨7, .ramRw⟩ else .unmapped
  m2p := fun mfn => if mfn = 7 then 0 else invalidM2pEntry
  entryCount := 0
  crashed := false
  bug := false
  count := 0
  super := []
  single := []
  isDying := false
  getPage := fun _ => true
  debug := false
  translated := true
  maxMapped := 0
  maxGuest := 0
  holder := .free
  clock := 0
  stray := false

def quiet : World where
  others := fun _ p => p
  l4Present := fun _ _ => true
  slot := fun _ _ _ => .absent .mmioDm
  ok := fun _ => true
  sweepSuper := id
  sweepSingle := id

/-- The frame is to be populated on demand: the call is refused, and the lock is kept. -/
theorem mark_keepsLock : oneFrame.holder = .free ∧
    (oneFrame.markPopulateOnDemand quiet 0 0).1 = .done .EBUSY ∧
    (oneFrame.markPopulateOnDemand quiet 0 0).2.holder = .callee ∧ ¬Balanced quiet (.mark 0 0) oneFrame := by
  refine ⟨rfl, rfl, rfl, ?_⟩
  intro h
  have heq : Holder.callee.mine = Holder.free.mine := h.holder 0 rfl
  exact absurd heq nofun

end Locking

end P2m
