import MemoryMonitor.Tmem.Ops

/-!
# Get, flush and eviction

The other operations of `xen/common/tmem.c` on a store in which nothing is locked.
-/

namespace Tmem

variable {P : Settings} {b : Bool} {x : Option Nat} {s s' : State} {i j q : Nat} {g : Pgp} {k : Key} {o : Obj} {p : Page}

/-! ## Get -/

/-- A get takes the page out of a private ephemeral pool. -/
def Settings.takes (P : Settings) (k : Key) : Prop :=
  P.persistent k.obj.pool = false ∧ P.shared k.obj.pool = false

instance (P : Settings) (k : Key) : Decidable (P.takes k) := inferInstanceAs (Decidable (_ ∧ _))

/-- What a get gives: what is under its key, which stays there unless the get takes it. -/
structure WasGot (P : Settings) (b : Bool) (k : Key) (sink : Sink) (s : State) (r : State × Result) : Prop extends
    Settled P b k s r.1 where
  hit : ∀ frame, r.2 = .hit frame → ∃ i, s.tree k = some i ∧ frame = s.copyToClient P i sink
  stays : ¬ P.takes k ∨ (∀ frame, r.2 ≠ .hit frame) → Keeps P (· = k) s r.1
  gone : P.takes k → ∀ frame, r.2 = .hit frame → r.1.tree k = none
  there : P.persistent k.obj.pool = true → s.tree k ≠ none → ∃ frame, r.2 = .hit frame

theorem Keeps.refl (P : Settings) (keys : Key → Prop) (s : State) : Keeps P keys s s := fun _ _ => ⟨rfl, fun _ _ _ hp => hp⟩

/-- A get that finds nothing. -/
theorem WasGot.of_miss {sink : Sink} {r : State × Result} (h : Settled P b k s r.1) (hkeep : Keeps P (· = k) s r.1)
    (hmiss : ∀ frame, r.2 ≠ .hit frame) (hnone : s.tree k = none) : WasGot P b k sink s r where
  toSettled := h
  hit := fun frame hr => absurd hr (hmiss frame)
  stays := fun _ => hkeep
  gone := fun _ frame hr => absurd hr (hmiss frame)
  there := fun _ hne => absurd hnone hne

theorem Placed.poolCount_ne (h : Placed P x s) (ht : s.tree k = some i) : s.poolCount k.obj.pool ≠ 0 := by
  have hkey := h.tree_key ht
  have hone : inPool k.obj.pool (s.keyAt i) = 1 := by
    rw [hkey, inPool_some, if_pos rfl]
  have hle := Finset.single_le_sum (f := fun i => inPool k.obj.pool (s.keyAt i)) (fun j _ => by
    unfold inPool
    split
    · split <;> decide
    · exact le_rfl) (Finset.mem_range.2 (h.lt hkey))
  rw [hone, ← h.pool] at hle
  omega

theorem State.copyToClient_congr (hs : SameData s s') (i : Nat) (sink : Sink) :
    s'.copyToClient P i sink = s.copyToClient P i sink := by
  unfold State.copyToClient State.pcdCopyToClient State.pageOf State.pgp State.pcd
  rw [hs.pgps, hs.pcds, hs.pages]

/-- A page that is found is copied, if the client's frame is valid. -/
theorem Kept.getFound (h : Kept P b none s) (ht : s.tree k = some i) (sink : Sink) (hvalid : sink.valid = true)
    (hfree : ∀ o, o ≠ k.obj → s.locked o = false) : WasGot P b k sink s (s.getFound P k i sink) := by
  unfold State.getFound
  rw [hvalid, if_pos rfl, if_pos rfl, if_pos rfl]
  have hthere : ∀ {r : State}, ∃ frame, (r, Result.hit (s.copyToClient P i sink)).2 = .hit frame := ⟨_, rfl⟩
  have hhit : ∀ {r : State} frame, (r, Result.hit (s.copyToClient P i sink)).2 = .hit frame →
      ∃ i, s.tree k = some i ∧ frame = s.copyToClient P i sink := by
    rintro r frame ⟨⟩
    exact ⟨i, ht, rfl⟩
  split
  · next hpers =>
    refine ⟨h.unlock hfree, hhit, fun _ => (s.sameData_unlock k.obj).keeps fun _ _ => rfl, fun htakes => ?_,
      fun _ _ => hthere⟩
    exact absurd (htakes.1.symm.trans hpers) (by decide)
  · next hpers =>
    rw [Bool.not_eq_true] at hpers
    split
    · next hshared =>
      have heph : i ∈ s.eph := h.placed.listed (h.placed.tree_key ht) (Option.some_ne_none i) hpers
      have hdata : SameData s (s.moveToTail P i) := ⟨rfl, rfl, rfl, rfl, rfl, rfl, rfl, rfl, rfl⟩
      have hmoved := h.move hdata (h.placed.moveToTail heph)
      have hunlocked := hmoved.unlock (k := k) hfree
      refine ⟨hunlocked.after (hdata.keeps fun _ _ => rfl), hhit, fun _ => ?_, fun htakes => ?_, fun _ _ => hthere⟩
      · exact (hdata.keeps fun _ _ => rfl).trans ((State.sameData_unlock _ k.obj).keeps fun _ _ => rfl)
      · exact absurd (htakes.2.symm.trans hshared) (by decide)
    · next hshared =>
      rw [Bool.not_eq_true] at hshared
      rw [State.copyToClient_congr (s.sameData_pgpDeleteFromObj k)]
      obtain ⟨hkept, hkeeps, hnone, hlocked, -⟩ := (h.except i).pgpRemove ht
      have hreleased := hkept.objRelease (k := k) (by rw [hlocked]; exact hfree)
      refine ⟨hreleased.after hkeeps, hhit, fun hno => ?_, fun _ _ _ => ?_, fun _ _ => hthere⟩
      · rcases hno with hno | hno
        · exact absurd ⟨hpers, hshared⟩ hno
        · exact absurd rfl (hno _)
      · rw [State.tree_objRelease]
        exact hnone

/-- `do_tmem_get` -/
theorem AtRest.doTmemGet (h : AtRest P b s) (k : Key) (sink : Sink) (hvalid : sink.valid = true ∨ s.tree k = none) :
    WasGot P b k sink s (s.doTmemGet P k sink) := by
  obtain ⟨hlock, hother⟩ := h.lock k.obj
  have hmiss : ∀ {result : Result}, (∀ frame, result ≠ .hit frame) → s.tree k = none → WasGot P b k sink s (s, result) :=
    fun hmiss hnone => WasGot.of_miss (h.settled k) (Keeps.refl P _ s) hmiss hnone
  unfold State.doTmemGet
  split
  · next hzero =>
    refine hmiss nofun ?_
    by_contra hne
    obtain ⟨i, hi⟩ := Option.ne_none_iff_exists'.mp hne
    exact h.placed.poolCount_ne hi hzero
  · split
    · next hobj =>
      refine hmiss nofun ?_
      by_contra hne
      obtain ⟨i, hi⟩ := Option.ne_none_iff_exists'.mp hne
      obtain ⟨n, hn⟩ := h.placed.obj hi
      rw [hobj] at hn
      cases hn
    · rw [h.free, if_neg (by decide)]
      split
      · next hnone =>
        refine WasGot.of_miss ((hlock.unlock (k := k) hother).after (s.lock_keeps k.obj)) ?_ nofun hnone
        exact (s.lock_keeps k.obj).trans ((State.sameData_unlock _ k.obj).keeps fun _ _ => rfl)
      · next i hi =>
        have hgot := hlock.getFound (b := b) hi sink (hvalid.resolve_right (by rw [hi]; exact Option.some_ne_none i)) hother
        refine ⟨hgot.toSettled.after (s.lock_keeps k.obj), fun frame hr => ?_,
          fun hno => (s.lock_keeps k.obj).trans (hgot.stays hno), hgot.gone, hgot.there⟩
        obtain ⟨j, hj, hframe⟩ := hgot.hit frame hr
        exact ⟨j, hj, hframe.trans (State.copyToClient_congr (s.sameData_lock k.obj) j sink)⟩

/-! ## Flush -/

/-- `do_tmem_flush_page` -/
theorem AtRest.doTmemFlushPage (h : AtRest P b s) (k : Key) :
    Settled P b k s (s.doTmemFlushPage P k).1 ∧ (s.doTmemFlushPage P k).1.tree k = none := by
  obtain ⟨hlock, hother⟩ := h.lock k.obj
  unfold State.doTmemFlushPage
  split
  · next hobj =>
    refine ⟨h.settled k, ?_⟩
    by_contra hne
    obtain ⟨i, hi⟩ := Option.ne_none_iff_exists'.mp hne
    obtain ⟨n, hn⟩ := h.placed.obj hi
    rw [hobj] at hn
    cases hn
  · rw [h.free, if_neg (by decide)]
    split
    · next hnone => exact ⟨(hlock.unlock (k := k) hother).after (s.lock_keeps k.obj), hnone⟩
    · next i hi =>
      obtain ⟨hsettled, hnone⟩ := hlock.failedDup hi hother
      exact ⟨hsettled.after (s.lock_keeps k.obj), hnone⟩

/-- What is flushed by `radix_tree_destroy` is flushed like a single page. -/
theorem State.pgpDestroy_eq (hg : s.pgps i = some g) :
    s.pgpDestroy P i = (s.pgpDeleteFromObj g.key).pgpDelete P i := by
  unfold State.pgpDestroy State.pgpDelete
  rw [State.pgp_of hg]
  congr 1
  unfold State.pgpDelist State.pgpDeleteFromObj State.countIn State.clientOf State.pgp
  dsimp only
  split <;> rfl

/-- The pages in the tree of an object go one after the other. -/
theorem Kept.foldl_pgpDestroy (h : Kept P b none s) (l : List Nat) (hnodup : l.Nodup)
    (hl : ∀ i ∈ l, ∃ k, k.obj = o ∧ s.tree k = some i) {n : Int} (hobj : s.objs o = some n) :
    let r := l.foldl (State.pgpDestroy P) s
    Kept P b none r ∧ Keeps P (·.obj ≠ o) s r ∧ (∀ k i, r.tree k = some i → s.tree k = some i ∧ i ∉ l) ∧
      r.locked = s.locked ∧ ∃ n, r.objs o = some n := by
  induction l generalizing s n with
  | nil => exact ⟨h, Keeps.refl P _ s, fun k i hi => ⟨hi, List.not_mem_nil⟩, rfl, n, hobj⟩
  | cons i l ih =>
    obtain ⟨hi, hnodup⟩ := List.nodup_cons.1 hnodup
    obtain ⟨k, hk, ht⟩ := hl i List.mem_cons_self
    obtain ⟨g, hg, hkey⟩ := Option.map_eq_some_iff.1 (h.placed.tree_key ht)
    have hdestroy : s.pgpDestroy P i = (s.pgpDeleteFromObj k).pgpDelete P i := by
      rw [State.pgpDestroy_eq hg, hkey]
    obtain ⟨hkept, hkeeps, hnone, hlocked, hobjs, hgone⟩ := (h.except i).pgpRemove ht
    have htree : ∀ k', k' ≠ k → ((s.pgpDeleteFromObj k).pgpDelete P i).tree k' = s.tree k' := fun k' hk' => (hkeeps k' hk').1
    rw [List.foldl_cons, hdestroy]
    generalize (s.pgpDeleteFromObj k).pgpDelete P i = r at *
    have hcount : r.objs o = some (n + -1) := by
      rw [hobjs, hk]
      refine (Function.update_self ..).trans ?_
      rw [hobj]
      rfl
    -- the others are in the tree still
    obtain ⟨hall, hothers, hrest, hlocks, hthere⟩ := ih hkept hnodup (fun j hj => by
      obtain ⟨k', hk', hj'⟩ := hl j (List.mem_cons_of_mem _ hj)
      refine ⟨k', hk', (htree k' ?_).trans hj'⟩
      rintro rfl
      cases ht.symm.trans hj'
      exact hi hj) hcount
    refine ⟨hall, ?_, fun k' j hj => ?_, hlocks.trans hlocked, hthere⟩
    · refine Keeps.trans (fun k' hk' => hkeeps k' ?_) hothers
      rintro rfl
      exact hk' hk
    · obtain ⟨hj', hout⟩ := hrest k' j hj
      have hne : k' ≠ k := by
        rintro rfl
        rw [hnone] at hj'
        cases hj'
      refine ⟨(htree k' hne).symm.trans hj', fun hmem => ?_⟩
      rcases List.mem_cons.1 hmem with rfl | hmem
      · have h1 := h.placed.tree_key ht
        have h2 := h.placed.tree_key ((htree k' hne).symm.trans hj')
        rw [h1] at h2
        exact hne (Option.some.inj h2).symm
      · exact hout hmem

theorem State.mem_inTree (h : Kept P b none s) : i ∈ s.inTree o ↔ ∃ k, k.obj = o ∧ s.tree k = some i := by
  unfold State.inTree
  rw [List.mem_filter, List.mem_range, Bool.and_eq_true, decide_eq_true_eq, decide_eq_true_eq]
  constructor
  · rintro ⟨-, hobj, ht⟩
    exact ⟨_, hobj, ht⟩
  · rintro ⟨k, hk, ht⟩
    have hkey := h.placed.tree_key ht
    rw [Placed.key_of hkey]
    exact ⟨h.placed.lt hkey, hk, ht⟩

/-- A flush of an object is over. -/
structure Emptied (P : Settings) (b : Bool) (o : Obj) (s r : State) : Prop extends AtRest P b r where
  keeps : Keeps P (·.obj ≠ o) s r
  gone : ∀ k, k.obj = o → r.tree k = none

/-- `do_tmem_flush_object` -/
theorem AtRest.doTmemFlushObject (h : AtRest P b s) (o : Obj) : Emptied P b o s (s.doTmemFlushObject P o).1 := by
  obtain ⟨hlock, hother⟩ := h.lock o
  unfold State.doTmemFlushObject
  split
  · next hobj =>
    refine ⟨h, Keeps.refl P _ s, fun k hk => ?_⟩
    by_contra hne
    obtain ⟨i, hi⟩ := Option.ne_none_iff_exists'.mp hne
    obtain ⟨n, hn⟩ := h.placed.obj hi
    rw [hk, hobj] at hn
    cases hn
  · next n hobj =>
    rw [h.free, if_neg (by decide)]
    have hin : ∀ {i}, i ∈ s.inTree o ↔ ∃ k, k.obj = o ∧ s.tree k = some i := State.mem_inTree h.toKept
    obtain ⟨hkept, hkeeps, hrest, hlocked, m, hm⟩ := hlock.foldl_pgpDestroy (s.inTree o)
      (List.nodup_range.filter _) (fun i hi => hin.1 hi) hobj
    dsimp only
    generalize (s.inTree o).foldl (State.pgpDestroy P) (s.lock o) = r at *
    -- nothing is left in the tree
    have hempty : ∀ k, k.obj = o → r.tree k = none := by
      intro k hk
      by_contra hne
      obtain ⟨i, hi⟩ := Option.ne_none_iff_exists'.mp hne
      obtain ⟨hi', hout⟩ := hrest k i hi
      exact hout (hin.2 ⟨k, hk, hi'⟩)
    have hzero : m = 0 := by
      rw [hkept.placed.count hm]
      refine Finset.sum_eq_zero fun i _ => ?_
      unfold inObj
      split
      · refine if_neg fun hin => ?_
        rw [hempty _ hin.1] at hin
        exact Option.some_ne_none i hin.2.symm
      · rfl
    rw [hzero] at hm
    have hdata := State.sameData_objFree r o
    refine ⟨⟨hkept.move hdata (hkept.placed.objFree hm), ?_⟩, ?_, hempty⟩
    · refine State.unlock_free (s := { r with objs := Function.update r.objs o none }) ?_
      intro o' ho
      exact (congrFun hlocked o').trans (hother o' ho)
    · exact ((s.lock_keeps o).trans hkeeps).trans (hdata.keeps fun _ _ => rfl)

/-! ## Eviction -/

/-- Every page stays where it is. -/
structure Stays (P : Settings) (b : Bool) (s s' : State) : Prop extends AtRest P b s' where
  keeps : Keeps P (fun _ => True) s s'
  eph : ∀ i, i ∈ s'.eph ↔ i ∈ s.eph

theorem Stays.trans {s₁ s₂ s₃ : State} (h : Stays P b s₁ s₂) (h' : Stays P b s₂ s₃) : Stays P b s₁ s₃ :=
  ⟨h'.toAtRest, h.keeps.trans h'.keeps, fun i => (h'.eph i).trans (h.eph i)⟩

theorem AtRest.stays (h : AtRest P b s) : Stays P b s s := ⟨h, Keeps.refl P _ s, fun _ => Iff.rfl⟩

theorem AtRest.moveToTail (h : AtRest P b s) (hi : i ∈ s.eph) : Stays P b s (s.moveToTail P i) := by
  have hdata : SameData s (s.moveToTail P i) := ⟨rfl, rfl, rfl, rfl, rfl, rfl, rfl, rfl, rfl⟩
  refine ⟨⟨h.move hdata (h.placed.moveToTail hi), h.free⟩, hdata.keeps fun _ _ => rfl, fun j => ?_⟩
  change j ∈ s.eph.erase i ++ [i] ↔ j ∈ s.eph
  rw [List.mem_append, h.placed.eph_nodup.mem_erase_iff, List.mem_singleton]
  constructor
  · rintro (⟨-, hj⟩ | rfl)
    · exact hj
    · exact hi
  · intro hj
    by_cases heq : j = i
    · exact .inr heq
    · exact .inl ⟨heq, hj⟩

/-- That an eviction has been tried does not matter for the data. -/
theorem AtRest.attempted (h : AtRest P b s) (hg : s.pgps i = some g) (hd : g.data = .pcd q) :
    Stays P b s (s.attempted i) := by
  have hpgps : ∀ j, (s.attempted i).pgps j = if j = i then some { g with evictionAttempted := true } else s.pgps j := by
    intro j
    unfold State.attempted
    rw [State.pgp_of hg]
    exact Function.update_apply ..
  have hkey : (s.attempted i).keyAt = s.keyAt := by
    funext j
    unfold State.keyAt
    rw [hpgps]
    split
    · next hj =>
      rw [hj, hg]
      rfl
    · rfl
  have hholds : ∀ j p, s.Holds P j p → (s.attempted i).Holds P j p := by
    rintro j p ⟨g', hg', hdata⟩
    by_cases hj : j = i
    · subst hj
      cases hg.symm.trans hg'
      refine ⟨{ g with evictionAttempted := true }, (hpgps j).trans (if_pos rfl), ?_⟩
      dsimp only
      rw [hd] at hdata ⊢
      exact hdata
    · refine ⟨g', ((hpgps j).trans (if_neg hj)).trans hg', hdata⟩
  refine ⟨⟨⟨h.stored.attempted hg hd, h.placed.congr ⟨rfl, rfl, rfl, rfl, rfl, rfl, rfl, rfl, rfl⟩ hkey, fun hb => ?_⟩,
    h.free⟩, fun k _ => ⟨rfl, fun j _ p hp => hholds j p hp⟩, fun _ => Iff.rfl⟩
  have hcounts := h.counts hb
  constructor
  · refine hcounts.tight.update_pgps (i := i) (v := some { g with evictionAttempted := true }) (funext fun j => ?_) rfl rfl ?_
      fun f hf => .inl hf
    · rw [hpgps, Function.update_apply]
    · intro g' f hg' hd'
      cases hg.symm.trans hg'
      exact Data.noConfusion (hd.symm.trans hd')
  · refine hcounts.zipped.same (h.stored.pgp_lt hg) rfl (fun j hj => (hpgps j).trans (if_neg hj)) rfl rfl fun c w => ?_
    rw [hpgps, if_pos rfl, hg, zipped_some, zipped_some]

/-- Where a page that can be evicted is found, it stays, and its object is locked. -/
structure Caught (P : Settings) (b : Bool) (i : Nat) (s r : State) : Prop where
  found : ∃ s' g, Stays P b s s' ∧ s'.pgps i = some g ∧ s'.tree g.key = some i ∧
    P.persistent g.key.obj.pool = false ∧ r = s'.lock g.key.obj

theorem AtRest.tryToEvictPgp (h : AtRest P b s) (hi : i ∈ s.eph) :
    ((s.tryToEvictPgp P i).2 = false → Stays P b s (s.tryToEvictPgp P i).1) ∧
    ((s.tryToEvictPgp P i).2 = true → Caught P b i s (s.tryToEvictPgp P i).1) := by
  obtain ⟨k, hk, hpers⟩ := h.placed.eph_key hi
  obtain ⟨g, hg, hkey⟩ := Option.map_eq_some_iff.1 hk
  have htree : s.tree g.key = some i := by
    rw [hkey]
    exact h.placed.in_tree hk (Option.some_ne_none i)
  have hcaught : Caught P b i s (s.lock g.key.obj) := ⟨s, g, h.stays, hg, htree, hkey ▸ hpers, rfl⟩
  unfold State.tryToEvictPgp
  dsimp only
  rw [State.pgp_of hg, h.free, if_neg (by decide)]
  split
  · split
    · next q _ hd =>
      split
      · have hattempted := h.attempted hg hd
        exact ⟨fun _ => hattempted.trans (hattempted.moveToTail ((hattempted.eph i).2 hi)), nofun⟩
      · exact ⟨nofun, fun _ => hcaught⟩
    · exact ⟨fun _ => h.stays, nofun⟩
  · exact ⟨nofun, fun _ => hcaught⟩

/-- The walk moves pages in their lists, until it finds one. -/
theorem AtRest.evictWalk {items : State → List Nat} (hitems : ∀ s, AtRest P b s → ∀ i ∈ items s, i ∈ s.eph) (n : Nat)
    (cursor : Option Nat) (h : AtRest P b s) (hcursor : ∀ i, cursor = some i → i ∈ s.eph) :
    ((s.evictWalk P items n cursor).2 = none → Stays P b s (s.evictWalk P items n cursor).1) ∧
    ∀ i, (s.evictWalk P items n cursor).2 = some i → Caught P b i s (s.evictWalk P items n cursor).1 := by
  induction n generalizing s cursor with
  | zero => exact ⟨fun _ => h.stays, nofun⟩
  | succ n ih =>
    cases cursor with
    | none => exact ⟨fun _ => h.stays, nofun⟩
    | some i =>
      obtain ⟨hstays, hcaught⟩ := h.tryToEvictPgp (hcursor i rfl)
      unfold State.evictWalk
      dsimp only
      split
      · next htrue =>
        refine ⟨nofun, ?_⟩
        rintro j ⟨⟩
        exact hcaught htrue
      · next hfalse =>
        have hstay := hstays (Bool.eq_false_iff.2 hfalse)
        obtain ⟨hnone, hsome⟩ := ih (SafeWalk.next (items s) i) hstay.toAtRest fun j hj =>
          (hstay.eph j).2 (hitems s h j (SafeWalk.mem_of_next hj))
        refine ⟨fun hr => hstay.trans (hnone hr), fun j hj => ?_⟩
        obtain ⟨s', g, hs', hg, ht, hpers, hr⟩ := hsome j hj
        exact ⟨s', g, hstay.trans hs', hg, ht, hpers, hr⟩

theorem AtRest.victim (h : AtRest P b s) (overQuota : Option Nat) :
    ((s.victim P overQuota).2 = none → Stays P b s (s.victim P overQuota).1) ∧
    ∀ i, (s.victim P overQuota).2 = some i → Caught P b i s (s.victim P overQuota).1 := by
  have hitems : ∀ s, AtRest P b s → ∀ i ∈ s.evictList overQuota, i ∈ s.eph := by
    intro s h i hi
    unfold State.evictList at hi
    split at hi
    · split at hi
      · exact hi
      · exact (h.placed.client.1 hi).1
    · exact hi
  exact h.evictWalk hitems _ _ fun i hi => hitems s h i (List.mem_of_mem_head? hi)

/-- The page that has been found goes. A compressed page that has a content with others must not be among them if the
counts are to stay right. -/
theorem Caught.evictFound {r : State} (h : Caught P b i s r)
    (hfine : b = true → (r.pgp i).firstbyte = none ∨ (r.pgp i).size = 0) :
    ∃ k, P.persistent k.obj.pool = false ∧ Settled P b k s (r.evictFound P i) ∧ (r.evictFound P i).tree k = none := by
  obtain ⟨s', g, hstays, hg, ht, hpers, rfl⟩ := h
  have hgr : (s'.lock g.key.obj).pgps i = some g := hg
  obtain ⟨hlock, hother⟩ := hstays.lock g.key.obj
  have hbefore : Keeps P (· ≠ g.key) s (s'.lock g.key.obj) :=
    fun k hk => (hstays.keeps.trans (s'.lock_keeps g.key.obj)) k trivial
  refine ⟨g.key, hpers, ?_⟩
  have hdata := State.sameData_pgpDeleteFromObj (s'.lock g.key.obj) g.key
  have hnone : ((s'.lock g.key.obj).pgpDeleteFromObj g.key).tree g.key = none := Function.update_self ..
  have hdeleted := hlock.except i |>.move hdata ((hlock.except i).placed.pgpDeleteFromObj ht)
  have hgd : ((s'.lock g.key.obj).pgpDeleteFromObj g.key).pgps i = some g := hg
  have hmoved : Keeps P (· ≠ g.key) s ((s'.lock g.key.obj).pgpDeleteFromObj g.key) :=
    hbefore.trans (hdata.keeps fun k hk => Function.update_of_ne hk ..)
  rw [State.pgp_of hgr] at hfine
  unfold State.evictFound
  dsimp only
  rw [State.pgp_of hgr, State.pgp_of hgd]
  generalize hr : (s'.lock g.key.obj).pgpDeleteFromObj g.key = r at *
  have hlocked : r.locked = (s'.lock g.key.obj).locked := by
    rw [← hr]
    rfl
  -- it is no longer with the others of its content
  obtain ⟨r', hr', hkept, g', hg', hkey, hchange⟩ : ∃ r', (if P.dedup = true ∧ g.firstbyte.isSome = true then r.pcdDisassociate i
      else r) = r' ∧ Kept P b (some i) r' ∧ ∃ g', r'.pgps i = some g' ∧ g'.key = g.key ∧ Changes P i r r' := by
    split
    · next hshare =>
      have hwf := hdeleted.stored.wf hgd
      unfold Pgp.Wf at hwf
      have hpcd : ∃ q, g.data = .pcd q := by
        cases hd : g.data with
        | pcd q => exact ⟨q, rfl⟩
        | null | pfp f | buf l =>
          rw [hd] at hwf
          simp_all
      obtain ⟨q, hd⟩ := hpcd
      obtain ⟨hchange, hself⟩ := hdeleted.stored.pcdDisassociate hgd hd
      refine ⟨_, rfl, hdeleted.change hgd hchange fun hb => ?_, _, hself, rfl, hchange⟩
      refine (hdeleted.counts hb).pcdDisassociate hdeleted.stored hgd hd ((hfine hb).resolve_left ?_)
      rintro hno
      rw [hno] at hshare
      exact absurd hshare.2 (by decide)
    · exact ⟨r, rfl, hdeleted, g, hgd, rfl, Changes.refl hdeleted.stored⟩
  rw [hr']
  have htree : r'.tree g.key = none := (congrFun hchange.index.tree _).trans hnone
  obtain ⟨hgone, hothers⟩ := hkept.pgpDelete hg' (by
    rw [hkey, htree]
    exact (Option.some_ne_none i).symm)
  have hkeeps := hothers.keeps hkept.placed hg'
  rw [hkey] at hkeeps
  have hreleased := hgone.objRelease (k := g.key) (by
    rw [hothers.trees.2.2.1, hchange.index.locked, hlocked]
    exact hother)
  refine ⟨hreleased.after ((hmoved.trans (hchange.keeps hdeleted.placed hgd)).trans hkeeps), ?_⟩
  rw [State.tree_objRelease, hothers.trees.1]
  exact htree

end Tmem
