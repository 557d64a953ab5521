import MemoryMonitor.Sched.Credit2.State
import MemoryMonitor.Lib.Tally

/-!
# The second credit scheduler: its queues

What holds of the run queues of `xen/common/sched_credit2.c` in every state with the locks free. `Inv m true` is
all of it. `Inv m false` leaves out what goes wrong when a vCPU is removed between the two halves of
`context_saved`.
-/

namespace Sched.Credit2

open Function (update update_self update_of_ne)

variable {V C Q D : Type} [DecidableEq V] [DecidableEq C] [DecidableEq Q] [DecidableEq D] [Fintype Q] [Fintype V]
  {m : Machine V C Q D} {b : Bool} {s s' : State V C Q D} {v w : V} {c cpu : C} {q : Q} {d : D} {now : Int}

namespace State

/-- Whether a vCPU counts for the load. -/
def isBusy (s : State V C Q D) (v : V) : Bool := decide (s.OnRunq v) || s.scheduled v

/-- How many vCPUs of a queue wait in it or are flagged as scheduled. -/
def busy (s : State V C Q D) (q : Q) : Nat := Tally.tally s.isBusy s.rqd (some q)

/-- The largest weight in a queue, but at least 1. -/
structure Heaviest (rqd : V → Option Q) (weight : V → Int) (q : Q) (maxWeight : Int) : Prop where
  le : ∀ v, rqd v = some q → weight v ≤ maxWeight
  attained : maxWeight = 1 ∨ ∃ v, rqd v = some q ∧ weight v = maxWeight
  pos : 1 ≤ maxWeight

/-- What the claims about a queue are: its order, who is in it, its load and its largest weight. -/
structure Sound (s : State V C Q D) : Prop where
  sorted : ∀ q, (s.runq q).Pairwise fun v w => s.creditOf (some w) ≤ s.creditOf (some v)
  queued : ∀ q, ∀ v ∈ s.runq q, s.rqd v = some q ∧ s.isRunning v = false ∧ s.scheduled v = false
  nodup : ∀ q, (s.runq q).Nodup
  load : ∀ q, s.load q = s.busy q
  heaviest : ∀ q, Heaviest s.rqd s.weight q (s.maxWeight q)

end State

/-- The vCPUs whose weight `csched_dom_cntl` has still to change. -/
def pending (s : State V C Q D) : List V :=
  match s.domCntl with
  | none => []
  | some (_, _, l) => l

structure Inv (m : Machine V C Q D) (b : Bool) (s : State V C Q D) : Prop where
  sorted : ∀ q, (s.runq q).Pairwise fun v w => s.creditOf (some w) ≤ s.creditOf (some v)
  queued : ∀ q, ∀ v ∈ s.runq q, s.rqd v = some q ∧ s.isRunning v = false ∧ s.scheduled v = false
  nodup : ∀ q, (s.runq q).Nodup
  heaviest : ∀ q, State.Heaviest s.rqd s.weight q (s.maxWeight q)
  assigned : ∀ q v, v ∈ s.svc q ↔ s.rqd v = some q
  svcNodup : ∀ q, (s.svc q).Nodup
  place : ∀ v q, s.rqd v = some q → m.c2r (s.processor v) = q
  current : ∀ c v, s.curr c = some v →
    s.processor v = c ∧ s.rqd v = some (m.c2r c) ∧ s.scheduled v = true ∧ s.isRunning v = true
  running : ∀ v, s.isRunning v = true → s.scheduled v = true
  delayed : ∀ v, s.delayedRunqAdd v = true → s.scheduled v = true
  idle : ∀ c, s.idle c = true ↔ s.curr c = none
  slept : ∀ v, s.slept v = true → s.runnable v = false ∧ ¬ s.OnRunq v
  listed : ∀ d v, v ∈ s.sdomVcpu d ↔ m.domain v = d ∧ s.rqd v ≠ none
  sdomNodup : ∀ d, (s.sdomVcpu d).Nodup
  sdomWeight : ∀ d, 1 ≤ s.sdomWeight d ∧ s.sdomWeight d < 2 ^ 16
  weighed : ∀ v, s.rqd v ≠ none → v ∉ pending s → s.weight v = s.sdomWeight (m.domain v)
  cntl : ∀ d old l, s.domCntl = some (d, old, l) → 1 ≤ old ∧ old < 2 ^ 16 ∧ l.Nodup ∧
    ∀ v ∈ l, v ∈ s.sdomVcpu d ∧ s.weight v = old
  load : b = true → ∀ q, s.load q = s.busy q
  saving : b = true → ∀ v, s.saving v = true → s.scheduled v = true ∧ ∀ c, s.curr c ≠ some v
  flagged : b = true → ∀ v, s.scheduled v = true → s.rqd v ≠ none
  noBug : b = true → s.bug = false

namespace State

/-! ### Which credits change -/

/-- Only vCPUs that run are charged. -/
structure Burned (s s' : State V C Q D) : Prop where
  same : s' = { s with
    credit := s'.credit
    startTime := s'.startTime
    tickled := s'.tickled
    burns := s'.burns
    bug := s'.bug }
  credit : ∀ v, (∀ c, s.curr c ≠ some v) → s'.credit v = s.credit v
  bug : s'.bug = s.bug

section

omit [DecidableEq V] [DecidableEq C] [DecidableEq Q] [DecidableEq D] [Fintype Q] [Fintype V]

theorem Burned.refl (s : State V C Q D) : Burned s s := ⟨rfl, fun _ _ => rfl, rfl⟩

theorem Burned.curr (h : Burned s s') : s'.curr = s.curr := by rw [h.same]

end

theorem Burned.trans {s'' : State V C Q D} (h : Burned s s') (h' : Burned s' s'') : Burned s s'' := by
  refine ⟨?_, fun v hv => ?_, h'.bug.trans h.bug⟩
  · have hsame := h'.same
    rw [h.same] at hsame
    exact hsame
  · rw [h'.credit v fun c => h.curr ▸ hv c]
    exact h.credit v hv

omit [DecidableEq V] [DecidableEq C] [DecidableEq Q] [DecidableEq D] [Fintype Q] [Fintype V] in
theorem bugOn_false {p : Prop} [Decidable p] (h : ¬ p) : s.bugOn p = s := by
  unfold bugOn
  rw [decide_eq_false h, Bool.or_false]

theorem burnCredits_burned (s : State V C Q D) (q : Q) (c : C) (now : Int) :
    Burned s (s.burnCredits q (s.curr c) now) := by
  unfold burnCredits
  split
  · exact .refl s
  · next v hv =>
    dsimp only
    split
    · refine ⟨rfl, fun w hw => ?_, rfl⟩
      exact update_of_ne (fun heq => hw c (hv.trans (congrArg some heq.symm))) ..
    · exact .refl s

omit [DecidableEq V] [DecidableEq Q] [DecidableEq D] [Fintype Q] [Fintype V] in
theorem tickle_burned (s : State V C Q D) (i : C) : Burned s (s.tickle i) := ⟨rfl, fun _ _ => rfl, rfl⟩

theorem tickleLoop_burned (q : Q) (now : Int) (mask : List C) (ipid : Option C) (lowest : Int)
    (hmask : ∀ i ∈ mask, s.curr i ≠ none) : Burned s (tickleLoop q now mask ipid lowest s).1 := by
  induction mask generalizing ipid lowest s with
  | nil => exact .refl s
  | cons i mask ih =>
    have hburned := burnCredits_burned s q i now
    have hrest : ∀ j ∈ mask, (s.burnCredits q (s.curr i) now).curr j ≠ none := by
      intro j hj
      rw [hburned.curr]
      exact hmask j (List.mem_cons_of_mem _ hj)
    unfold tickleLoop
    dsimp only
    rw [bugOn_false (hmask i List.mem_cons_self)]
    split
    · exact hburned.trans (ih _ _ hrest)
    · exact hburned.trans (ih _ _ hrest)

theorem runqTickle_burned (hidle : ∀ c, s.idle c = true ↔ s.curr c = none) (hprocessor : s.processor v = cpu)
    (hrqd : s.rqd v = some (m.c2r cpu)) (now : Int) : Burned s (s.runqTickle m cpu v now) := by
  have hburned := burnCredits_burned s (m.c2r cpu) cpu now
  unfold runqTickle
  dsimp only
  rw [bugOn_false (not_not.mpr hprocessor), bugOn_false (not_not.mpr hrqd)]
  split
  · exact hburned.trans (tickle_burned ..)
  · split
    · exact hburned.trans (tickle_burned ..)
    · have hloop := tickleLoop_burned (s := s.burnCredits (m.c2r cpu) (s.curr cpu) now) (m.c2r cpu) now
        ((m.active (m.c2r cpu)).filter fun i =>
          !(s.burnCredits (m.c2r cpu) (s.curr cpu) now).idle i &&
            !(s.burnCredits (m.c2r cpu) (s.curr cpu) now).tickled i && decide (i ≠ cpu)) none (2 ^ 30) fun i hi => by
        -- a CPU that is not idle has a current vCPU
        have hbusy := (List.mem_filter.mp hi).2
        rw [hburned.curr]
        intro hnone
        have hi := (hidle i).mpr hnone
        rw [hburned.same] at hbusy
        simp [hi] at hbusy
      have hall := hburned.trans hloop
      split
      · exact hall
      · split
        · exact hall
        · exact hall.trans (tickle_burned ..)

end State

omit [DecidableEq C] [DecidableEq D] in
theorem State.Burned.inv (h : Burned s s') (hs : Inv m b s) : Inv m b s' := by
  have hcredit : ∀ q, ∀ v ∈ s.runq q, s'.credit v = s.credit v := by
    intro q v hv
    apply h.credit
    intro c hc
    have hflag := (hs.queued q v hv).2.2
    rw [(hs.current c v hc).2.2.1] at hflag
    cases hflag
  have hbug := h.bug
  rw [h.same]
  generalize s'.credit = credit at hcredit
  refine { hs with sorted := fun q => ?_, noBug := fun hb => hbug.trans (hs.noBug hb) }
  refine (hs.sorted q).imp_of_mem fun {v w} hv hw hle => ?_
  unfold State.creditOf at hle ⊢
  dsimp only at hle ⊢
  rw [hcredit q v hv, hcredit q w hw]
  exact hle

namespace State

/-! ### The largest weight -/

omit [DecidableEq V] [Fintype V] in
theorem foldl_heaviest (weight : V → Int) (l : List V) (a : Int) :
    let r := l.foldl (fun maxWeight v => if maxWeight < weight v then weight v else maxWeight) a
    (∀ v ∈ l, weight v ≤ r) ∧ (r = a ∨ ∃ v ∈ l, weight v = r) ∧ a ≤ r := by
  induction l generalizing a with
  | nil => exact ⟨nofun, .inl rfl, le_rfl⟩
  | cons w l ih =>
    obtain ⟨hle, hatt, hge⟩ := ih (if a < weight w then weight w else a)
    dsimp only [List.foldl_cons]
    refine ⟨?_, ?_, ?_⟩
    · intro v hv
      rcases List.mem_cons.mp hv with rfl | hv
      · refine le_trans ?_ hge
        split
        · exact le_rfl
        · omega
      · exact hle v hv
    · rcases hatt with hatt | ⟨v, hv, hatt⟩
      · split at hatt
        · next hlt =>
          rw [if_pos hlt]
          exact .inr ⟨w, List.mem_cons_self, hatt.symm⟩
        · next hlt =>
          rw [if_neg hlt]
          exact .inl hatt
      · exact .inr ⟨v, List.mem_cons_of_mem _ hv, hatt⟩
    · refine le_trans ?_ hge
      split
      · omega
      · exact le_rfl

omit [DecidableEq C] [DecidableEq D] [Fintype Q] in
/-- The shortcut of `update_max_weight` is enough when only vCPUs of the new weight can be heavier, and only
one of the old weight can have been the heaviest. -/
theorem updateMaxWeight_spec (rqd : V → Option Q) (newWeight oldWeight : Int)
    (hassigned : ∀ v, v ∈ s.svc q ↔ rqd v = some q) (hpos : 1 ≤ s.maxWeight q)
    (hle : ∀ v, rqd v = some q → s.weight v ≤ s.maxWeight q ∨ s.weight v = newWeight)
    (hnew : newWeight ≤ s.maxWeight q ∨ ∃ v, rqd v = some q ∧ s.weight v = newWeight)
    (hatt : s.maxWeight q = 1 ∨ (∃ v, rqd v = some q ∧ s.weight v = s.maxWeight q) ∨
      oldWeight = s.maxWeight q) :
    ∃ x, s.updateMaxWeight q newWeight oldWeight = { s with maxWeight := update s.maxWeight q x } ∧
      Heaviest rqd s.weight q x := by
  unfold updateMaxWeight
  split
  · next hlt =>
    refine ⟨newWeight, rfl, fun v hv => ?_, .inr (hnew.resolve_left (by omega)), by omega⟩
    rcases hle v hv with h | h <;> omega
  · next hlt =>
    split
    · obtain ⟨hmax, hone, hge⟩ := foldl_heaviest s.weight (s.svc q) 1
      refine ⟨_, rfl, fun v hv => hmax v ((hassigned v).mpr hv), ?_, hge⟩
      rcases hone with hone | ⟨v, hv, hone⟩
      · exact .inl hone
      · exact .inr ⟨v, (hassigned v).mp hv, hone⟩
    · next hold =>
      refine ⟨s.maxWeight q, ?_, fun v hv => ?_, ?_, hpos⟩
      · rw [Function.update_eq_self]
      · rcases hle v hv with h | h <;> omega
      · rcases hatt with h | h | h
        · exact .inl h
        · exact .inr h
        · exact absurd h hold

section

omit [DecidableEq V] [DecidableEq Q] [Fintype Q] [Fintype V]

theorem Heaviest.congr {rqd rqd' : V → Option Q} {weight : V → Int} {x : Int} (h : Heaviest rqd weight q x)
    (hsame : ∀ v, rqd' v = some q ↔ rqd v = some q) : Heaviest rqd' weight q x := by
  refine ⟨fun v hv => h.le v ((hsame v).mp hv), h.attained.imp_right ?_, h.pos⟩
  rintro ⟨v, hv, hweight⟩
  exact ⟨v, (hsame v).mpr hv, hweight⟩

theorem Heaviest.weight_congr {rqd : V → Option Q} {weight weight' : V → Int} {x : Int}
    (h : Heaviest rqd weight q x) (hsame : ∀ v, rqd v = some q → weight' v = weight v) :
    Heaviest rqd weight' q x := by
  refine ⟨fun v hv => (hsame v hv).trans_le (h.le v hv), h.attained.imp_right ?_, h.pos⟩
  rintro ⟨v, hv, hweight⟩
  exact ⟨v, hv, (hsame v hv).trans hweight⟩

end

omit [Fintype Q] [Fintype V] in
theorem update_eq_some {rqd : V → Option Q} {a : Option Q} :
    update rqd v a w = some q ↔ w ≠ v ∧ rqd w = some q ∨ w = v ∧ a = some q := by
  by_cases hw : w = v
  · subst hw
    rw [update_self]
    tauto
  · rw [update_of_ne hw]
    tauto

omit [DecidableEq V] [Fintype V] in
theorem mem_update_append {K : Type} [DecidableEq K] {f : K → List V} {k k' : K} :
    w ∈ update f k (f k ++ [v]) k' ↔ w ∈ f k' ∨ w = v ∧ k' = k := by
  by_cases hk : k' = k
  · subst hk
    rw [update_self, List.mem_append, List.mem_singleton]
    tauto
  · rw [update_of_ne hk]
    tauto

theorem assign_spec (hassigned : ∀ q v, v ∈ s.svc q ↔ s.rqd v = some q) (hnone : s.rqd v = none)
    (hheaviest : Heaviest s.rqd s.weight q (s.maxWeight q)) :
    ∃ x, s.assign v q = { s with
        rqd := update s.rqd v (some q)
        svc := update s.svc q (s.svc q ++ [v])
        maxWeight := update s.maxWeight q x } ∧
      Heaviest (update s.rqd v (some q)) s.weight q x := by
  have hne : ∀ {w q'}, s.rqd w = some q' → w ≠ v := by
    rintro w q' hw rfl
    rw [hnone] at hw
    cases hw
  refine updateMaxWeight_spec (s := { s with
    rqd := update s.rqd v (some q)
    svc := update s.svc q (s.svc q ++ [v]) }) _ _ _ (fun w => ?_) hheaviest.pos (fun w hw => ?_) ?_ ?_
  · dsimp only
    rw [mem_update_append, hassigned, update_eq_some]
    constructor
    · rintro (hw | ⟨rfl, -⟩)
      · exact .inl ⟨hne hw, hw⟩
      · exact .inr ⟨rfl, rfl⟩
    · rintro (⟨-, hw⟩ | ⟨rfl, -⟩)
      · exact .inl hw
      · exact .inr ⟨rfl, rfl⟩
  · rcases update_eq_some.mp hw with ⟨-, hw⟩ | ⟨rfl, -⟩
    · exact .inl (hheaviest.le w hw)
    · exact .inr rfl
  · exact .inr ⟨v, update_self .., rfl⟩
  · rcases hheaviest.attained with h | ⟨w, hw, h⟩
    · exact .inl h
    · exact .inr (.inl ⟨w, update_eq_some.mpr (.inl ⟨hne hw, hw⟩), h⟩)

theorem deassign_spec (hassigned : ∀ q v, v ∈ s.svc q ↔ s.rqd v = some q) (hnodup : (s.svc q).Nodup)
    (hrqd : s.rqd v = some q) (hoff : ¬ s.OnRunq v) (hheaviest : Heaviest s.rqd s.weight q (s.maxWeight q)) :
    ∃ x, s.deassign v = { s with
        svc := fun q => (s.svc q).erase v
        maxWeight := update s.maxWeight q x
        rqd := update s.rqd v none } ∧
      Heaviest (update s.rqd v none) s.weight q x := by
  obtain ⟨x, hx, hmax⟩ := updateMaxWeight_spec (s := { s with svc := fun q => (s.svc q).erase v }) (q := q)
    (update s.rqd v none) 0 (s.weight v) (fun w => by
      dsimp only
      rw [hnodup.mem_erase_iff, hassigned, update_eq_some]
      simp only [reduceCtorEq, and_false, or_false]) hheaviest.pos (fun w hw => by
      rcases update_eq_some.mp hw with ⟨-, hw⟩ | ⟨-, hw⟩
      · exact .inl (hheaviest.le w hw)
      · cases hw) (.inl (by have := hheaviest.pos; dsimp only; omega)) (by
      rcases hheaviest.attained with h | ⟨w, hw, h⟩
      · exact .inl h
      · by_cases heq : w = v
        · exact .inr (.inr (heq ▸ h))
        · exact .inr (.inl ⟨w, update_eq_some.mpr (.inl ⟨heq, hw⟩), h⟩))
  refine ⟨x, ?_, hmax⟩
  unfold deassign
  rw [bugOn_false hoff]
  dsimp only
  rw [hrqd]
  dsimp only
  rw [hx]

/-! ### Who is busy -/

section

omit [DecidableEq C] [DecidableEq Q] [DecidableEq D] [Fintype V]

theorem isBusy_congr (hon : s'.OnRunq w ↔ s.OnRunq w) (hflag : s'.scheduled w = s.scheduled w) :
    s'.isBusy w = s.isBusy w := by
  unfold isBusy
  rw [hflag, decide_eq_decide.mpr hon]

theorem isBusy_false (hoff : ¬ s.OnRunq v) (hflag : s.scheduled v = false) : s.isBusy v = false := by
  unfold isBusy
  rw [hflag, decide_eq_false hoff]
  rfl

theorem isBusy_of_scheduled (hflag : s.scheduled v = true) : s.isBusy v = true := by
  unfold isBusy
  rw [hflag, Bool.or_true]

theorem isBusy_of_onRunq (hon : s.OnRunq v) : s.isBusy v = true := by
  unfold isBusy
  rw [decide_eq_true hon, Bool.true_or]

end

omit [DecidableEq C] [DecidableEq D] in
/-- One vCPU of a queue becomes busy. -/
theorem busy_on (s s' : State V C Q D) (hother : ∀ w, w ≠ v → s'.isBusy w = s.isBusy w) (hrqd : s'.rqd = s.rqd)
    (hold : s.isBusy v = false) (hnew : s'.isBusy v = true) (q : Q) :
    s'.busy q = s.busy q + if s.rqd v = some q then 1 else 0 := by
  have hchange := Tally.tally_change v hother (fun w _ => congrFun hrqd w) (some q)
  rw [hold, hnew, Tally.weight_off, Tally.weight_on, hrqd] at hchange
  unfold busy
  rw [hrqd]
  exact hchange

/-- One vCPU of a queue is not busy any more. -/
theorem busy_off (s s' : State V C Q D) (hother : ∀ w, w ≠ v → s'.isBusy w = s.isBusy w) (hrqd : s'.rqd = s.rqd)
    (hold : s.isBusy v = true) (hnew : s'.isBusy v = false) (q : Q) :
    s'.busy q + (if s.rqd v = some q then 1 else 0) = s.busy q :=
  (busy_on s' s (fun w hw => (hother w hw).symm) hrqd.symm hnew hold q ▸ hrqd ▸ rfl)

omit [DecidableEq V] [DecidableEq C] [DecidableEq D] [Fintype Q] [Fintype V] in
theorem updateLoad_load (s : State V C Q D) (a : Option Q) (n : Int) (q : Q) :
    (s.updateLoad a n).load q = s.load q + if a = some q then n else 0 := by
  unfold updateLoad
  dsimp only
  split
  · rfl
  · rw [add_zero]

theorem updateLoad_back (s : State V C Q D) (a : Option Q) : (s.updateLoad a (-1)).updateLoad a 1 = s := by
  have hload : ((s.updateLoad a (-1)).updateLoad a 1).load = s.load := by
    funext q
    rw [updateLoad_load, updateLoad_load]
    split <;> omega
  change { s with load := ((s.updateLoad a (-1)).updateLoad a 1).load } = s
  rw [hload]

/-! ### The order of a queue -/

omit [DecidableEq V] [Fintype V] in
theorem insertByCredit_perm (credit : V → Int) (v : V) (l : List V) : (insertByCredit credit v l).Perm (v :: l) := by
  induction l with
  | nil => exact .refl _
  | cons w l ih =>
    unfold insertByCredit
    split
    · exact .refl _
    · exact (ih.cons w).trans (List.Perm.swap v w l)

theorem insertByCredit_sorted (credit : V → Int) (v : V) {l : List V}
    (h : l.Pairwise fun v w => credit w ≤ credit v) :
    (insertByCredit credit v l).Pairwise fun v w => credit w ≤ credit v := by
  induction l with
  | nil => exact List.pairwise_singleton ..
  | cons w l ih =>
    obtain ⟨hw, hl⟩ := List.pairwise_cons.mp h
    unfold insertByCredit
    split
    · next hlt =>
      refine List.pairwise_cons.mpr ⟨fun x hx => ?_, h⟩
      rcases List.mem_cons.mp hx with rfl | hx
      · exact hlt.le
      · exact (hw x hx).trans hlt.le
    · next hge =>
      refine List.pairwise_cons.mpr ⟨fun x hx => ?_, ih hl⟩
      rcases List.mem_cons.mp ((insertByCredit_perm credit v l).mem_iff.mp hx) with rfl | hx
      · exact not_lt.mp hge
      · exact hw x hx

/-- A vCPU of a queue that neither waits nor is flagged as scheduled. -/
structure Off (m : Machine V C Q D) (s : State V C Q D) (v : V) : Prop where
  rqd : s.rqd v = some (m.c2r (s.processor v))
  scheduled : s.scheduled v = false
  running : s.isRunning v = false
  off : ¬ s.OnRunq v

end State

open State

section

omit [DecidableEq C] [DecidableEq D]

theorem Inv.off_running (hs : Inv m b s) (hflag : s.scheduled v = false) : s.isRunning v = false := by
  by_contra hrun
  have hrun := hs.running v (Bool.eq_true_of_not_eq_false hrun)
  rw [hflag] at hrun
  cases hrun

theorem Inv.onRunq (hs : Inv m b s) (hv : v ∈ s.runq q) : s.OnRunq v ∧ s.rqd v = some q :=
  ⟨⟨q, hv⟩, (hs.queued q v hv).1⟩

/-- A vCPU that waits is in the queue of its processor. -/
theorem Inv.onRunq_rqd (hs : Inv m b s) (hv : s.OnRunq v) :
    s.rqd v = some (m.c2r (s.processor v)) ∧ v ∈ s.runq (m.c2r (s.processor v)) ∧ s.scheduled v = false := by
  obtain ⟨q, hv⟩ := hv
  obtain ⟨hrqd, -, hflag⟩ := hs.queued q v hv
  have hplace := hs.place v q hrqd
  subst hplace
  exact ⟨hrqd, hv, hflag⟩

end

theorem State.runqInsert_off (hv : Off m s v) :
    s.runqInsert m (s.processor v) v = { s with
      runq := update s.runq (m.c2r (s.processor v))
        (insertByCredit (fun v => s.creditOf (some v)) v (s.runq (m.c2r (s.processor v)))) } := by
  have hrun : ¬ s.isRunning v = true := by
    rw [hv.running]
    nofun
  have hflag : ¬ s.scheduled v = true := by
    rw [hv.scheduled]
    nofun
  unfold runqInsert
  dsimp only
  rw [bugOn_false hv.off, bugOn_false (not_not.mpr rfl), bugOn_false (not_not.mpr hv.rqd),
    bugOn_false hrun, bugOn_false hflag]

/-- A vCPU goes to the queue, and counts for its load. -/
theorem Inv.enqueue (hs : Inv m b s) (hv : Off m s v) (hslept : s.slept v = false) :
    Inv m b ((s.updateLoad (s.rqd v) 1).runqInsert m (s.processor v) v) := by
  have hcount := updateLoad_load s (s.rqd v) 1
  generalize hq₀ : m.c2r (s.processor v) = q₀
  have hperm := insertByCredit_perm (fun v => s.creditOf (some v)) v (s.runq q₀)
  have hsorted := insertByCredit_sorted (fun v => s.creditOf (some v)) v (hs.sorted q₀)
  generalize hl : insertByCredit (fun v => s.creditOf (some v)) v (s.runq q₀) = l at hperm hsorted
  have hmem : ∀ {q w}, w ∈ update s.runq q₀ l q ↔ w ∈ s.runq q ∨ w = v ∧ q = q₀ := by
    intro q w
    by_cases hq : q = q₀
    · subst hq
      rw [update_self, hperm.mem_iff, List.mem_cons]
      tauto
    · rw [update_of_ne hq]
      tauto
  have hon : ∀ w, w ≠ v → ((∃ q, w ∈ update s.runq q₀ l q) ↔ s.OnRunq w) := by
    intro w hw
    simp only [hmem, hw, false_and, or_false]
    rfl
  have heq : (s.updateLoad (s.rqd v) 1).runqInsert m (s.processor v) v = { s with
      load := (s.updateLoad (s.rqd v) 1).load
      runq := update s.runq q₀ l } := by
    subst hq₀ hl
    exact runqInsert_off (s := { s with load := (s.updateLoad (s.rqd v) 1).load })
      ⟨hv.rqd, hv.scheduled, hv.running, hv.off⟩
  rw [heq]
  refine { hs with
    sorted := fun q => ?_
    queued := fun q w hw => ?_
    nodup := fun q => ?_
    slept := fun w hw => ?_
    load := fun hb q => ?_ }
  · by_cases hq : q = q₀
    · subst hq
      dsimp only
      rw [update_self]
      exact hsorted
    · dsimp only
      rw [update_of_ne hq]
      exact hs.sorted q
  · rcases hmem.mp hw with hw | ⟨rfl, rfl⟩
    · exact hs.queued q w hw
    · exact ⟨hq₀ ▸ hv.rqd, hv.running, hv.scheduled⟩
  · by_cases hq : q = q₀
    · subst hq
      dsimp only
      rw [update_self, hperm.nodup_iff, List.nodup_cons]
      exact ⟨fun hw => hv.off ⟨q, hw⟩, hs.nodup q⟩
    · dsimp only
      rw [update_of_ne hq]
      exact hs.nodup q
  · obtain ⟨hrunnable, hoff⟩ := hs.slept w hw
    have hne : w ≠ v := by
      rintro rfl
      rw [hslept] at hw
      cases hw
    exact ⟨hrunnable, fun h => hoff ((hon w hne).mp h)⟩
  · have hbusy := busy_on (v := v) s ({ s with
        load := (s.updateLoad (s.rqd v) 1).load
        runq := update s.runq q₀ l })
      (fun w hw => isBusy_congr (hon w hw) rfl) rfl (isBusy_false hv.off hv.scheduled)
      (isBusy_of_onRunq ⟨q₀, hmem.mpr (.inr ⟨rfl, rfl⟩)⟩) q
    rw [hbusy, hcount, hs.load hb]
    split <;> omega

namespace State

/-- A vCPU leaves the queue, and does not count any more. -/
def dequeued (s : State V C Q D) (v : V) : State V C Q D :=
  { s with
    runq := fun q => (s.runq q).erase v
    load := (s.updateLoad (s.rqd v) (-1)).load }

theorem runqRemove_on (h : s.OnRunq v) : s.runqRemove v = { s with runq := fun q => (s.runq q).erase v } := by
  unfold runqRemove
  rw [bugOn_false (not_not.mpr h)]

theorem runqRemove_updateLoad (h : s.OnRunq v) : (s.runqRemove v).updateLoad (s.rqd v) (-1) = s.dequeued v := by
  rw [runqRemove_on h]
  rfl

theorem updateLoad_runqRemove (h : s.OnRunq v) : (s.updateLoad (s.rqd v) (-1)).runqRemove v = s.dequeued v :=
  runqRemove_on (s := s.updateLoad (s.rqd v) (-1)) h

end State

omit [DecidableEq C] [DecidableEq D] in
theorem Inv.dequeued_onRunq (hs : Inv m b s) : (s.dequeued v).OnRunq w ↔ s.OnRunq w ∧ w ≠ v := by
  constructor
  · rintro ⟨q, hw⟩
    refine ⟨⟨q, List.mem_of_mem_erase hw⟩, ?_⟩
    rintro rfl
    exact (hs.nodup q).not_mem_erase hw
  · rintro ⟨⟨q, hw⟩, hne⟩
    exact ⟨q, (List.mem_erase_of_ne hne).mpr hw⟩

theorem Inv.dequeue (hs : Inv m b s) (hv : s.OnRunq v) : Inv m b (s.dequeued v) := by
  have hmem : ∀ {q w}, w ∈ (s.dequeued v).runq q → w ∈ s.runq q := fun h => List.mem_of_mem_erase h
  have hcount := updateLoad_load s (s.rqd v) (-1)
  refine { hs with
    sorted := fun q => (hs.sorted q).sublist List.erase_sublist
    queued := fun q w hw => hs.queued q w (hmem hw)
    nodup := fun q => (hs.nodup q).sublist List.erase_sublist
    slept := fun w hw => ⟨(hs.slept w hw).1, fun h => (hs.slept w hw).2 (hs.dequeued_onRunq.mp h).1⟩
    load := fun hb q => ?_ }
  have hother : ∀ w, w ≠ v → (s.dequeued v).isBusy w = s.isBusy w := by
    intro w hw
    refine isBusy_congr ⟨fun h => (hs.dequeued_onRunq.mp h).1, fun h => hs.dequeued_onRunq.mpr ⟨h, hw⟩⟩ rfl
  have hbusy := busy_off s (s.dequeued v) hother rfl (isBusy_of_onRunq hv)
    (isBusy_false (fun h => (hs.dequeued_onRunq.mp h).2 rfl) (hs.onRunq_rqd hv).2.2) q
  change (s.updateLoad (s.rqd v) (-1)).load q = (s.dequeued v).busy q
  rw [hcount, hs.load hb]
  split at hbusy
  · next h =>
    rw [if_pos h]
    omega
  · next h =>
    rw [if_neg h]
    omega

theorem Inv.dequeued_off (hs : Inv m b s) (hv : s.OnRunq v) : Off m (s.dequeued v) v := by
  obtain ⟨hrqd, -, hflag⟩ := hs.onRunq_rqd hv
  exact ⟨hrqd, hflag, hs.off_running hflag, fun h => (hs.dequeued_onRunq.mp h).2 rfl⟩

theorem Inv.flag (hs : Inv m b s) (hv : Off m s v) :
    Inv m b { s with
      scheduled := update s.scheduled v true
      load := (s.updateLoad (s.rqd v) 1).load } := by
  have hcount := updateLoad_load s (s.rqd v) 1
  have hset : ∀ w, s.scheduled w = true → update s.scheduled v true w = true := by
    intro w hw
    by_cases heq : w = v
    · rw [heq, update_self]
    · rw [update_of_ne heq, hw]
  have hkept : ∀ {w}, w ≠ v → update s.scheduled v true w = s.scheduled w := fun hw => update_of_ne hw ..
  refine { hs with
    queued := fun q w hw => ?_
    current := fun c w hw => ?_
    running := fun w hw => hset w (hs.running w hw)
    delayed := fun w hw => hset w (hs.delayed w hw)
    load := fun hb q => ?_
    saving := fun hb w hw => ⟨hset w (hs.saving hb w hw).1, (hs.saving hb w hw).2⟩
    flagged := fun hb w hw => ?_ }
  · obtain ⟨hrqd, hrun, hflag⟩ := hs.queued q w hw
    refine ⟨hrqd, hrun, (hkept ?_).trans hflag⟩
    rintro rfl
    exact hv.off ⟨q, hw⟩
  · obtain ⟨hprocessor, hrqd, hflag, hrun⟩ := hs.current c w hw
    exact ⟨hprocessor, hrqd, hset w hflag, hrun⟩
  · have hbusy := busy_on (v := v) s ({ s with
        scheduled := update s.scheduled v true
        load := (s.updateLoad (s.rqd v) 1).load })
      (fun w hw => isBusy_congr Iff.rfl (hkept hw)) rfl (isBusy_false hv.off hv.scheduled)
      (isBusy_of_scheduled (update_self ..)) q
    rw [hbusy, hcount, hs.load hb]
    split <;> omega
  · by_cases heq : w = v
    · subst heq
      dsimp only
      rw [hv.rqd]
      exact Option.some_ne_none _
    · exact hs.flagged hb w (hkept heq ▸ hw)

/-- The context of a vCPU has been saved, and it does not count for the load. -/
theorem Inv.unflag (hs : Inv m b s) (hrun : s.isRunning v = false) (hflag : b = true → s.scheduled v = true) :
    Inv m b ((s.clearScheduled v).updateLoad (s.rqd v) (-1)) := by
  have hkept : ∀ {w}, w ≠ v → update s.scheduled v false w = s.scheduled w := fun hw => update_of_ne hw ..
  have hnone : ∀ {f : V → Bool} {w}, update f v false w = true → w ≠ v ∧ f w = true := by
    intro f w hw
    by_cases heq : w = v
    · rw [heq, update_self] at hw
      cases hw
    · rw [update_of_ne heq] at hw
      exact ⟨heq, hw⟩
  refine { hs with
    queued := fun q w hw => ?_
    current := fun c w hw => ?_
    running := fun w hw => ?_
    delayed := fun w hw => ?_
    load := fun hb q => ?_
    saving := fun hb w hw => ?_
    flagged := fun hb w hw => hs.flagged hb w (hnone hw).2 }
  · obtain ⟨hrqd, hrun, hflag'⟩ := hs.queued q w hw
    refine ⟨hrqd, hrun, ?_⟩
    by_cases heq : w = v
    · exact heq ▸ update_self ..
    · exact (hkept heq).trans hflag'
  · obtain ⟨hprocessor, hrqd, hflag', hrun'⟩ := hs.current c w hw
    refine ⟨hprocessor, hrqd, (hkept ?_).trans hflag', hrun'⟩
    rintro rfl
    rw [hrun] at hrun'
    cases hrun'
  · refine (hkept ?_).trans (hs.running w hw)
    rintro rfl
    rw [← Bool.not_eq_true] at hrun
    exact hrun hw
  · obtain ⟨hne, hw⟩ := hnone hw
    exact (hkept hne).trans (hs.delayed w hw)
  · have hflag := hflag hb
    have hoff : ¬ s.OnRunq v := by
      intro hon
      have hflag' := (hs.onRunq_rqd hon).2.2
      rw [hflag] at hflag'
      cases hflag'
    have hcount := updateLoad_load s (s.rqd v) (-1) q
    have hbusy := busy_off (v := v) s ((s.clearScheduled v).updateLoad (s.rqd v) (-1))
      (fun w hw => isBusy_congr Iff.rfl (hkept hw)) rfl (isBusy_of_scheduled hflag)
      (isBusy_false hoff (update_self ..)) q
    refine hcount.trans ?_
    rw [hs.load hb]
    split at hbusy
    · next h =>
      rw [if_pos h]
      omega
    · next h =>
      rw [if_neg h]
      omega
  · obtain ⟨hne, hw⟩ := hnone hw
    obtain ⟨hflag', hcurr⟩ := hs.saving hb w hw
    exact ⟨(hkept hne).trans hflag', hcurr⟩

end Sched.Credit2
