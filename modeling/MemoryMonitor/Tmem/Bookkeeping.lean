import MemoryMonitor.Tmem.Coherent

/-!
# Bookkeeping

The trees, the lists and the counters are right after every operation, unless a get is given a bad frame, a put
shares a page of zeroes, or an eviction finds a compressed page that is shared.
-/

namespace Tmem

variable {P : Settings} {b : Bool} {s : State} {i q : Nat} {g : Pgp} {k : Key} {p : Page}

namespace State

/-- The descriptors of an object, of a client's ephemeral pages, and of its compressed pages. -/
def pagesOf (s : State) (o : Obj) : Set Nat := {i | ∃ g, s.pgps i = some g ∧ g.key.obj = o}
def ephemeral (P : Settings) (s : State) : Set Nat :=
  {i | ∃ g, s.pgps i = some g ∧ P.persistent g.key.obj.pool = false}
def ephemeralOf (P : Settings) (s : State) (c : Nat) : Set Nat :=
  {i | ∃ g, s.pgps i = some g ∧ P.persistent g.key.obj.pool = false ∧ P.client g.key.obj.pool = c}
def zippedOf (P : Settings) (s : State) (c : Nat) : Set Nat :=
  {i | ∃ g, s.pgps i = some g ∧ P.client g.key.obj.pool = c ∧ g.data ≠ .null ∧ g.size ≠ 0}

/-- The pages that descriptors and contents point to. -/
def reachable (s : State) : Set Nat := {f | ∃ o, s.Owns o f}

end State

open Classical in
/-- No lock is held, and the trees, the lists and the counters are right. -/
structure Booked (P : Settings) (s : State) : Prop where
  free : ∀ o, s.locked o = false
  lt : ∀ {i g}, s.pgps i = some g → i < s.nextPgp
  tree : ∀ {i g}, s.pgps i = some g → ∀ k, s.tree k = some i ↔ k = g.key
  obj : ∀ {i g}, s.pgps i = some g → s.objs g.key.obj ≠ none
  listed : ∀ i, i ∈ s.eph ↔ i ∈ s.ephemeral P
  once : s.eph.Nodup
  clientListed : ∀ i c, i ∈ s.clientEph c ↔ i ∈ s.ephemeralOf P c
  clientOnce : ∀ c, (s.clientEph c).Nodup
  count : ∀ {o n}, s.objs o = some n → n = (s.pagesOf o).ncard
  ephCount : ∀ c, s.ephCount c = (s.ephemeralOf P c).ncard
  globalEphCount : s.globalEphCount = (s.ephemeral P).ncard
  refCount : ∀ {q c}, s.pcds q = some c → c.refCount = c.pgpList.length ∧ c.refCount ≠ 0
  pageCount : s.pageCount = s.reachable.ncard
  compressedPages : ∀ c, s.compressedPages c = (s.zippedOf P c).ncard
  compressedSum : ∀ c, s.compressedSum c = ∑ i ∈ Finset.range s.nextPgp with i ∈ s.zippedOf P c, (s.pgp i).size

/-- A put does not share a page of zeroes, a get that finds its page is given a valid frame, and the page that is
evicted is not compressed and shared. -/
def Step.Fine (P : Settings) (step : Step) (s : State) : Prop :=
  match step with
  | .put k src a => s.Fills P k a → src.Nonzero P k a
  | .get k sink => sink.valid = true ∨ s.tree k = none
  | .evict overQuota => ∀ i, (s.victim P overQuota).2 = some i →
      ((s.victim P overQuota).1.pgp i).firstbyte = none ∨ ((s.victim P overQuota).1.pgp i).size = 0
  | _ => True

theorem AtRest.step {step : Step} (h : AtRest P true s) (hfine : step.Fine P s) : AtRest P true (s.step P step).1 := by
  cases step with
  | put k src a => exact (h.doTmemPut k src a fun _ => hfine).rest
  | get k sink => exact (h.doTmemGet k sink hfine).rest
  | flushPage k => exact (h.doTmemFlushPage k).1.rest
  | flushObject o => exact (h.doTmemFlushObject o).toAtRest
  | evict overQuota =>
    obtain ⟨hstays, hcaught⟩ := h.victim overQuota
    unfold Step.Fine at hfine
    dsimp only at hfine
    unfold State.step
    dsimp only
    cases hv : s.victim P overQuota with
    | mk r found =>
      rw [hv] at hstays hcaught hfine
      cases found with
      | none => exact (hstays rfl).toAtRest
      | some i =>
        obtain ⟨k, -, hsettled, -⟩ := (hcaught i rfl).evictFound fun _ => hfine i rfl
        exact hsettled.rest

/-- A sum of ones counts. -/
theorem sum_eq_ncard {n : Nat} {A : Set Nat} {f : Nat → Int} [DecidablePred (· ∈ A)] (hlt : ∀ i ∈ A, i < n)
    (hf : ∀ i, f i = if i ∈ A then 1 else 0) : ∑ i ∈ Finset.range n, f i = A.ncard := by
  have hset : A = ↑((Finset.range n).filter (· ∈ A)) := by
    ext i
    simp only [Finset.coe_filter, Finset.mem_range, Set.mem_ofPred_eq]
    exact ⟨fun hi => ⟨hlt i hi, hi⟩, fun hi => hi.2⟩
  rw [Finset.sum_congr rfl fun i _ => hf i, Finset.sum_boole]
  conv_rhs => rw [hset, Set.ncard_coe_finset]

theorem length_eq_ncard {l : List Nat} {A : Set Nat} (hnodup : l.Nodup) (h : ∀ i, i ∈ l ↔ i ∈ A) : l.length = A.ncard := by
  have hset : A = ↑l.toFinset := by
    ext i
    rw [← h i, List.coe_toFinset]
    rfl
  rw [hset, Set.ncard_coe_finset, List.toFinset_card_of_nodup hnodup]

open Classical in
theorem AtRest.booked (h : AtRest P true s) : Booked P s := by
  have hkey : ∀ {i k}, s.keyAt i = some k ↔ ∃ g, s.pgps i = some g ∧ g.key = k := Option.map_eq_some_iff
  have hcounts := h.counts rfl
  have heph : ∀ i, i ∈ s.eph ↔ i ∈ s.ephemeral P := by
    intro i
    constructor
    · intro hi
      obtain ⟨k, hk, hp⟩ := h.placed.eph_key hi
      obtain ⟨g, hg, rfl⟩ := hkey.1 hk
      exact ⟨g, hg, hp⟩
    · rintro ⟨g, hg, hp⟩
      exact h.placed.listed (Placed.keyAt_of hg) (Option.some_ne_none i) hp
  have hclient : ∀ i c, i ∈ s.clientEph c ↔ i ∈ s.ephemeralOf P c := by
    intro i c
    rw [h.placed.client, heph]
    constructor
    · rintro ⟨⟨g, hg, hp⟩, k, hk, hc⟩
      rw [Placed.keyAt_of hg] at hk
      cases hk
      exact ⟨g, hg, hp, hc⟩
    · rintro ⟨g, hg, hp, hc⟩
      exact ⟨⟨g, hg, hp⟩, g.key, Placed.keyAt_of hg, hc⟩
  have hzipped : ∀ c w i, zipped P c w (s.pgps i) = if i ∈ s.zippedOf P c then w (s.pgp i).size else 0 := by
    intro c w i
    cases hg : s.pgps i with
    | none =>
      refine (if_neg ?_).symm
      rintro ⟨g, hg', -⟩
      rw [hg] at hg'
      cases hg'
    | some g =>
      rw [zipped_some, State.pgp_of hg]
      refine if_congr ?_ rfl rfl
      constructor
      · exact fun hin => ⟨g, hg, hin⟩
      · rintro ⟨g', hg', hin⟩
        cases hg.symm.trans hg'
        exact hin
  constructor
  case free => exact h.free
  case lt => exact h.stored.pgp_lt
  case tree =>
    intro i g hg k
    constructor
    · intro ht
      have hk := h.placed.tree_key ht
      rw [Placed.keyAt_of hg] at hk
      exact (Option.some.inj hk).symm
    · rintro rfl
      exact h.placed.in_tree (Placed.keyAt_of hg) (Option.some_ne_none i)
  case obj =>
    intro i g hg
    obtain ⟨n, hn⟩ := h.placed.obj (h.placed.in_tree (Placed.keyAt_of hg) (Option.some_ne_none i))
    rw [hn]
    exact Option.some_ne_none n
  case listed => exact heph
  case once => exact h.placed.eph_nodup
  case clientListed => exact hclient
  case clientOnce => exact h.placed.client_nodup
  case count =>
    intro o n hn
    rw [h.placed.count hn]
    refine sum_eq_ncard (fun i ⟨g, hg, _⟩ => h.stored.pgp_lt hg) fun i => ?_
    cases hg : s.pgps i with
    | none =>
      unfold State.keyAt
      rw [hg]
      refine (if_neg ?_).symm
      rintro ⟨g, hg', -⟩
      rw [hg] at hg'
      cases hg'
    | some g =>
      rw [Placed.keyAt_of hg, inObj_some, h.placed.in_tree (Placed.keyAt_of hg) (Option.some_ne_none i)]
      refine if_congr ?_ rfl rfl
      constructor
      · rintro ⟨ho, -⟩
        exact ⟨g, hg, ho⟩
      · rintro ⟨g', hg', ho⟩
        cases hg.symm.trans hg'
        exact ⟨ho, rfl⟩
  case ephCount =>
    intro c
    rw [h.placed.client_count, length_eq_ncard (h.placed.client_nodup c) fun i => hclient i c]
  case globalEphCount => rw [h.placed.eph_count, length_eq_ncard h.placed.eph_nodup heph]
  case refCount =>
    intro q c hc
    have hcount := h.stored.count hc
    refine ⟨hcount, fun hzero => hcounts.tight.content hc (Option.some_ne_none q) ?_⟩
    rw [hzero] at hcount
    exact List.eq_nil_of_length_eq_zero (by omega)
  case pageCount =>
    rw [h.stored.pages]
    refine sum_eq_ncard (fun f ⟨o, ho⟩ => ?_) fun f => if_congr ?_ rfl rfl
    · obtain ⟨p, hp⟩ := h.stored.owned ho
      exact h.stored.page_lt hp
    · rw [Option.isSome_iff_exists]
      constructor
      · rintro ⟨p, hp⟩
        exact hcounts.tight.page hp (Option.some_ne_none f)
      · rintro ⟨o, ho⟩
        exact h.stored.owned ho
  case compressedPages =>
    intro c
    rw [hcounts.zipped.pages]
    exact sum_eq_ncard (fun i ⟨g, hg, _⟩ => h.stored.pgp_lt hg) (hzipped c _)
  case compressedSum =>
    intro c
    rw [hcounts.zipped.sum, Finset.sum_congr rfl fun i _ => hzipped c _ i, Finset.sum_ite, Finset.sum_const_zero, add_zero]
    push_cast
    rfl

/-- In every run whose operations are fine, the books are right after each of them. -/
theorem run_booked (P : Settings) (steps : List Step)
    (hfine : Runs.Each (fun step s => (State.step P s step).1) (Step.Fine P) steps State.init) :
    Runs.Each (fun step s => (State.step P s step).1) (fun step s => Booked P (s.step P step).1) steps State.init := by
  apply Runs.Each.of_inv (I := AtRest P true) _ _ hfine (atRest_init P true)
  · exact fun step s hstep h => h.step hstep
  · exact fun step s hstep h => (h.step hstep).booked

/-- A page is put without buffers to compress it, and evicted. A put from a bad frame fails, and a get to one
finds no page. -/
theorem run_booked_evicted :
    Runs.Each (fun step s => (State.step allOn s step).1) (fun step s => Booked allOn (s.step allOn step).1)
      [.put ⟨⟨1, 0, 0, 0⟩, 5⟩ (.whole (some (.ofTze [1]))) { Answers.all with buffers := false },
        .evict none, .put ⟨⟨2, 0, 0, 0⟩, 5⟩ (.whole none) .all, .get ⟨⟨2, 0, 0, 0⟩, 5⟩ (.whole false)] State.init := by
  refine run_booked allOn _ ⟨fun _ => ?_, ?_, fun _ => ?_, .inr ?_, trivial⟩
  · intro _ junk p _ _ _ _
    exact (by decide : pageSize ≠ 0)
  · rintro i hi
    cases (show some 0 = some i from hi)
    exact .inr (by decide +kernel)
  · intro _ junk p _ hcopy
    cases hcopy
  · rfl

/-- A get with a bad frame leaves the object locked. -/
theorem get_leavesLock :
    let key : Key := ⟨⟨0, 0, 0, 0⟩, 5⟩
    ¬ Runs.Each (fun step s => (State.step allOn s step).1) (fun step s => Booked allOn (s.step allOn step).1)
      [.put key (.whole (some (.ofTze [1]))) { Answers.all with buffers := false }, .get key (.whole false)] State.init := by
  intro key h
  have hfree := h.2.1.free key.obj
  exact absurd hfree (by decide +kernel)

end Tmem
