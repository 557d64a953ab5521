import MemoryMonitor.Lib.Runs
import MemoryMonitor.Tmem.Get

/-!
# Coherence

A get gives what has been put last, in every run of operations on whole pages.
-/

namespace Tmem

variable {P : Settings} {s : State} {k : Key} {p : Page}

/-- The frame of a put or of a get is valid, and all of it is copied. -/
def Step.Whole : Step → Prop
  | .put _ src _ => ∃ p, src = .whole (some p)
  | .get _ sink => sink = .whole true
  | _ => True

/-- A get has succeeded. -/
def Result.isHit : Result → Bool
  | .hit _ => true
  | _ => false

/-- The operations so far, the last one first. -/
abbrev Log := List (Step × Result)

/-- The page of the last put of a key, if it has succeeded, and nothing has taken it away since. -/
def expected (P : Settings) (k : Key) : Log → Option Page
  | [] => none
  | (.put k' src _, result) :: log =>
      if k' = k then if result = .done then src.frame else none else expected P k log
  | (.get k' _, result) :: log => if k' = k ∧ P.takes k ∧ result.isHit then none else expected P k log
  | (.flushPage k', _) :: log => if k' = k then none else expected P k log
  | (.flushObject o, _) :: log => if k.obj = o then none else expected P k log
  | (.evict _, _) :: log => expected P k log

/-- A step, with its result in the log. -/
def logStep (P : Settings) (step : Step) (t : State × Log) : State × Log :=
  ((t.1.step P step).1, (step, (t.1.step P step).2) :: t.2)

/-- A get that succeeds gives the expected page; it misses if there is none; and if the pool is persistent, it
succeeds if there is one. -/
def Coherent (P : Settings) (step : Step) (t : State × Log) : Prop :=
  match step with
  | .get k _ =>
      (∀ frame, (t.1.step P step).2 = .hit frame → ∃ p, frame = some p ∧ expected P k t.2 = some p) ∧
      (expected P k t.2 = none → (t.1.step P step).2.isHit = false) ∧
      (P.persistent k.obj.pool = true → ∀ p, expected P k t.2 = some p → (t.1.step P step).2 = .hit (some p))
  | _ => True

/-- What is in the trees is what is expected. -/
structure Tracked (P : Settings) (t : State × Log) : Prop where
  rest : AtRest P false t.1
  page : ∀ {k i}, t.1.tree k = some i → ∃ p, expected P k t.2 = some p ∧ t.1.Holds P i p
  there : ∀ {k}, P.persistent k.obj.pool = true → expected P k t.2 ≠ none → t.1.tree k ≠ none

variable {t : State × Log} {step : Step} {keys : Key → Prop}

/-- Keys whose pages stay where they are, and are expected as before. -/
theorem Tracked.elsewhere {r : State} {result : Result} (h : Tracked P t) (hkeeps : Keeps P keys t.1 r)
    (hsame : ∀ k, keys k → expected P k ((step, result) :: t.2) = expected P k t.2) (hk : keys k) :
    (∀ i, r.tree k = some i → ∃ p, expected P k ((step, result) :: t.2) = some p ∧ r.Holds P i p) ∧
    (P.persistent k.obj.pool = true → expected P k ((step, result) :: t.2) ≠ none → r.tree k ≠ none) := by
  obtain ⟨htree, hholds⟩ := hkeeps k hk
  rw [hsame k hk, htree]
  refine ⟨fun i hi => ?_, fun hp hne => h.there hp hne⟩
  obtain ⟨p, hp, hold⟩ := h.page hi
  exact ⟨p, hp, hholds i hi p hold⟩

/-- A key is treated on its own, the others are as before. -/
theorem Tracked.settle {r : State} {result : Result} (h : Tracked P t) (hr : Settled P false k t.1 r)
    (hsame : ∀ k', k' ≠ k → expected P k' ((step, result) :: t.2) = expected P k' t.2)
    (hpage : ∀ i, r.tree k = some i → ∃ p, expected P k ((step, result) :: t.2) = some p ∧ r.Holds P i p)
    (hthere : P.persistent k.obj.pool = true → expected P k ((step, result) :: t.2) ≠ none → r.tree k ≠ none) :
    Tracked P (r, (step, result) :: t.2) := by
  refine ⟨hr.rest, fun {k' i} hi => ?_, fun {k'} hp hne => ?_⟩
  · by_cases hk : k' = k
    · subst hk
      exact hpage i hi
    · exact (h.elsewhere hr.keeps hsame hk).1 i hi
  · by_cases hk : k' = k
    · subst hk
      exact hthere hp hne
    · exact (h.elsewhere hr.keeps hsame hk).2 hp hne

/-- Nothing is under the key any more, and nothing is expected of a persistent pool. -/
theorem Tracked.settle_none {r : State} {result : Result} (h : Tracked P t) (hr : Settled P false k t.1 r)
    (hsame : ∀ k', k' ≠ k → expected P k' ((step, result) :: t.2) = expected P k' t.2) (hnone : r.tree k = none)
    (hpers : P.persistent k.obj.pool = true → expected P k ((step, result) :: t.2) = none) :
    Tracked P (r, (step, result) :: t.2) := by
  refine h.settle hr hsame (fun i hi => ?_) fun hp hne => absurd (hpers hp) hne
  rw [hnone] at hi
  cases hi

theorem Result.isHit_false {result : Result} (h : result.isHit = false) (frame : Option Page) : result ≠ .hit frame := by
  rintro rfl
  cases h

theorem Tracked.doTmemGet (h : Tracked P t) (k : Key) :
    Tracked P (logStep P (.get k (.whole true)) t) := by
  have hgot := h.rest.doTmemGet k (.whole true) (.inl rfl)
  unfold logStep State.step
  dsimp only
  generalize t.1.doTmemGet P k (.whole true) = r at *
  have hsame : ∀ k', k' ≠ k → expected P k' ((.get k (.whole true), r.2) :: t.2) = expected P k' t.2 :=
    fun k' hk => if_neg fun hin => hk hin.1.symm
  by_cases htaken : P.takes k ∧ r.2.isHit
  · have hnone : r.1.tree k = none := by
      cases hr : r.2 with
      | hit frame => exact hgot.gone htaken.1 frame hr
      | _ =>
        rw [hr] at htaken
        exact absurd htaken.2 (by decide)
    exact h.settle_none hgot.toSettled hsame hnone fun _ => if_pos ⟨rfl, htaken⟩
  · have hkeep : Keeps P (· = k) t.1 r.1 := by
      apply hgot.stays
      by_cases htakes : P.takes k
      · exact .inr (Result.isHit_false (Bool.eq_false_iff.2 fun hhit => htaken ⟨htakes, hhit⟩))
      · exact .inl htakes
    have hexpected : ∀ k', k' = k → expected P k' ((.get k (.whole true), r.2) :: t.2) = expected P k' t.2 := by
      rintro k' rfl
      exact if_neg fun hin => htaken hin.2
    have hself := h.elsewhere hkeep hexpected rfl
    exact h.settle hgot.toSettled hsame hself.1 hself.2

theorem Tracked.logStep (h : Tracked P t) (hstep : step.Whole) : Tracked P (logStep P step t) := by
  cases step with
  | put k src a =>
    obtain ⟨p, rfl⟩ := hstep
    have hput := h.rest.doTmemPut k (.whole (some p)) a nofun
    unfold Tmem.logStep State.step
    dsimp only
    generalize t.1.doTmemPut P k (.whole (some p)) a = r at *
    refine h.settle hput.toSettled (fun k' hk => if_neg (Ne.symm hk)) (fun i hi => ?_) fun hpers hne => ?_
    · obtain ⟨hdone, p', hgives, hp⟩ := hput.page i hi
      refine ⟨p', ?_, hp⟩
      unfold expected
      rw [if_pos rfl, if_pos hdone]
      rcases hgives with hframe | ⟨junk, -, hcopy⟩
      · exact hframe
      · exact hcopy
    · refine hput.there ?_ hpers
      by_contra hfail
      unfold expected at hne
      rw [if_pos rfl, if_neg hfail] at hne
      exact hne rfl
  | get k sink =>
    cases hstep
    exact h.doTmemGet k
  | flushPage k =>
    obtain ⟨hsettled, hnone⟩ := h.rest.doTmemFlushPage k
    exact h.settle_none hsettled (fun k' hk => if_neg (Ne.symm hk)) hnone fun _ => if_pos rfl
  | flushObject o =>
    have hempty := h.rest.doTmemFlushObject o
    unfold Tmem.logStep State.step
    dsimp only
    generalize t.1.doTmemFlushObject P o = r at *
    have hsame : ∀ k : Key, k.obj ≠ o → expected P k ((.flushObject o, r.2) :: t.2) = expected P k t.2 :=
      fun k hk => if_neg hk
    refine ⟨hempty.toAtRest, fun {k i} hi => ?_, fun {k} hp hne => ?_⟩
    · by_cases hk : k.obj = o
      · rw [hempty.gone k hk] at hi
        cases hi
      · exact (h.elsewhere hempty.keeps hsame hk).1 i hi
    · by_cases hk : k.obj = o
      · exact absurd (if_pos hk) hne
      · exact (h.elsewhere hempty.keeps hsame hk).2 hp hne
  | evict overQuota =>
    obtain ⟨hstays, hcaught⟩ := h.rest.victim overQuota
    unfold Tmem.logStep State.step
    dsimp only
    cases hv : t.1.victim P overQuota with
    | mk r found =>
      rw [hv] at hstays hcaught
      cases found with
      | none =>
        have hstay := hstays rfl
        have hsame : ∀ k, True → expected P k ((.evict overQuota, .missed) :: t.2) = expected P k t.2 := fun _ _ => rfl
        refine ⟨hstay.toAtRest, fun {k i} hi => ?_, fun {k} hp hne => ?_⟩
        · exact (h.elsewhere hstay.keeps hsame trivial).1 i hi
        · exact (h.elsewhere hstay.keeps hsame trivial).2 hp hne
      | some i =>
        obtain ⟨k, hpers, hsettled, hnone⟩ := (hcaught i rfl).evictFound nofun
        refine h.settle_none hsettled (fun _ _ => rfl) hnone fun hp => ?_
        rw [hpers] at hp
        cases hp

theorem Tracked.coherent (h : Tracked P t) (hlzo : P.Invertible) (hstep : step.Whole) : Coherent P step t := by
  cases step with
  | get k sink =>
    cases hstep
    have hgot := h.rest.doTmemGet k (.whole true) (.inl rfl)
    unfold Coherent
    dsimp only
    change (∀ frame, (t.1.doTmemGet P k (.whole true)).2 = .hit frame → _) ∧
      (_ → (t.1.doTmemGet P k (.whole true)).2.isHit = false) ∧
      (_ → ∀ p, _ → (t.1.doTmemGet P k (.whole true)).2 = .hit (some p))
    generalize t.1.doTmemGet P k (.whole true) = r at *
    have hhit : ∀ frame, r.2 = .hit frame → ∃ p, frame = some p ∧ expected P k t.2 = some p := by
      intro frame hr
      obtain ⟨i, hi, rfl⟩ := hgot.hit frame hr
      obtain ⟨p, hp, hold⟩ := h.page hi
      exact ⟨p, h.rest.stored.copyToClient hlzo hold, hp⟩
    refine ⟨hhit, fun hnone => ?_, fun hpers p hp => ?_⟩
    · cases hr : r.2 with
      | hit frame =>
        obtain ⟨p, -, hp⟩ := hhit frame hr
        rw [hnone] at hp
        cases hp
      | _ => rfl
    · obtain ⟨frame, hr⟩ := hgot.there hpers (h.there hpers (by rw [hp]; exact Option.some_ne_none p))
      obtain ⟨p', hframe, hp'⟩ := hhit frame hr
      rw [hp] at hp'
      cases hp'
      rw [hr, hframe]
  | _ => trivial

/-- Nothing has been put. -/
theorem atRest_init (P : Settings) (b : Bool) : AtRest P b State.init where
  stored := by
    constructor
    case owned =>
      intro o f ho
      cases o <;> obtain ⟨_, h, -⟩ := ho <;> cases h
    case unique =>
      intro o o' f ho
      cases o <;> obtain ⟨_, h, -⟩ := ho <;> cases h
    case pages => exact Finset.sum_empty.symm
    all_goals exact fun h => by cases h
  placed := by
    constructor
    case count => exact fun h => by cases h
    case eph_nodup => exact List.nodup_nil
    case eph_count => rfl
    case client =>
      intro i c
      constructor
      · intro h
        cases h
      · rintro ⟨h, -⟩
        cases h
    case client_nodup => exact fun _ => List.nodup_nil
    case client_count => exact fun _ => rfl
    case pool => exact fun _ => Finset.sum_empty.symm
    all_goals exact fun h => by cases h
  counts := by
    intro _
    refine ⟨⟨?_, ?_⟩, fun _ => Finset.sum_empty.symm, fun _ => Finset.sum_empty.symm⟩
    · intro f p h
      cases h
    · intro q c h
      cases h
  free := fun _ => rfl

/-- Whatever the settings, if the compression can be undone: in every run of operations on whole pages, each get gives
what has been put last. -/
theorem run_coherentPages (P : Settings) (hlzo : P.Invertible) (steps : List Step) (hwhole : ∀ step ∈ steps, step.Whole) :
    Runs.Each (logStep P) (Coherent P) steps (State.init, []) := by
  have hrun : Runs.Each (logStep P) (fun step _ => step.Whole) steps (State.init, []) :=
    Runs.each_of_forall fun step hstep _ => hwhole step hstep
  apply Runs.Each.of_inv (I := Tracked P) _ _ hrun
  · refine ⟨atRest_init P false, ?_, fun _ h => absurd rfl h⟩
    intro k i h
    cases h
  · exact fun step t hstep h => h.logStep hstep
  · exact fun step t hstep h => h.coherent hlzo hstep

/-- Everything is compressed and shared; a compression that only leaves out the zeroes at the end. Pool 0 is persistent,
and pool 2 is shared. -/
def allOn : Settings where
  compress := true
  dedup := true
  tze := true
  setCompress := fun _ => false
  client := id
  persistent := fun pool => pool = 0
  shared := fun pool => pool = 2
  frozen := fun _ => false
  lzoCompress := fun p => 17 :: p.head p.tzePfpScan
  lzoDecompress := fun b => .ofTze b.tail

/-- No allocation fails. -/
def Answers.all : Answers := ⟨true, true, true, true, true, true, true, some (.ofTze []), none⟩

/-- Two pools get the same page; one is evicted, and the other is put again and flushed. -/
theorem run_coherentPages_shared :
    Runs.Each (logStep allOn) (Coherent allOn)
      [.put ⟨⟨0, 0, 0, 0⟩, 5⟩ (.whole (some (.ofTze [1]))) .all, .put ⟨⟨1, 0, 0, 0⟩, 5⟩ (.whole (some (.ofTze [1]))) .all,
        .evict none, .get ⟨⟨1, 0, 0, 0⟩, 5⟩ (.whole true), .get ⟨⟨0, 0, 0, 0⟩, 5⟩ (.whole true),
        .put ⟨⟨0, 0, 0, 0⟩, 5⟩ (.whole (some (.ofTze [2]))) .all, .get ⟨⟨0, 0, 0, 0⟩, 5⟩ (.whole true),
        .flushPage ⟨⟨0, 0, 0, 0⟩, 5⟩, .get ⟨⟨0, 0, 0, 0⟩, 5⟩ (.whole true)] (State.init, []) := by
  refine run_coherentPages allOn (fun p => p.ofTze_head) _ ?_
  simp only [List.mem_cons, List.not_mem_nil, or_false, forall_eq_or_imp, forall_eq]
  exact ⟨⟨_, rfl⟩, ⟨_, rfl⟩, trivial, rfl, rfl, ⟨_, rfl⟩, rfl, trivial, rfl⟩

end Tmem
