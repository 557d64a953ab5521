import MemoryMonitor.Tmem.Counts
import MemoryMonitor.Tmem.Placed

/-!
# Operations of transcendent memory

What `xen/common/tmem.c` does with one descriptor keeps the data, the places and, where no page is lost, the
counts; and the pages that are put under other keys stay where they are.
-/

namespace Tmem

variable {P : Settings} {b : Bool} {x : Option Nat} {s s' : State} {i j q : Nat} {g : Pgp} {k : Key} {o : Obj} {p : Page}

/-- The data, the places and, if they are to be right, the counts. -/
structure Kept (P : Settings) (b : Bool) (x : Option Nat) (s : State) : Prop where
  stored : Stored P s
  placed : Placed P x s
  counts : b = true → Counts P s

namespace Kept

theorem move {y : Option Nat} (h : Kept P b x s) (hs : SameData s s') (hp : Placed P y s') : Kept P b y s' :=
  ⟨h.stored.congr hs, hp, fun hb => (h.counts hb).congr hs⟩

/-- Only the data of a descriptor changes. -/
theorem change (h : Kept P b x s) (hg : s.pgps i = some g) (hs : Changes P i s s') (hc : b = true → Counts P s') :
    Kept P b x s' :=
  ⟨hs.stored, hs.placed hg h.placed, hc⟩

theorem except (h : Kept P b none s) (i : Nat) : Kept P b (some i) s := ⟨h.stored, h.placed.except i, h.counts⟩

end Kept

/-! ## Descriptors that go -/

theorem State.sameData_pgpDelist (s : State) (i : Nat) : SameData s (s.pgpDelist P i) := by
  unfold State.pgpDelist
  dsimp only
  split <;> exact ⟨rfl, rfl, rfl, rfl, rfl, rfl, rfl, rfl, rfl⟩

/-- The objects and their trees are the same. -/
def SameTrees (s s' : State) : Prop := s'.tree = s.tree ∧ s'.objs = s.objs ∧ s'.locked = s.locked ∧ s'.nextPgp = s.nextPgp

theorem SameTrees.trans {s₁ s₂ s₃ : State} (h : SameTrees s₁ s₂) (h' : SameTrees s₂ s₃) : SameTrees s₁ s₃ :=
  ⟨h'.1.trans h.1, h'.2.1.trans h.2.1, h'.2.2.1.trans h.2.2.1, h'.2.2.2.trans h.2.2.2⟩

theorem SameTrees.of_index (h : SameIndex s s') : SameTrees s s' := ⟨h.tree, h.objs, h.locked, h.nextPgp⟩

theorem State.sameTrees_pgpDelist (s : State) (i : Nat) : SameTrees s (s.pgpDelist P i) := by
  unfold State.pgpDelist
  dsimp only
  split <;> exact ⟨rfl, rfl, rfl, rfl⟩

/-- A descriptor has gone, and the others are what they were. -/
structure Gone (P : Settings) (i : Nat) (s s' : State) : Prop where
  trees : SameTrees s s'
  other : ∀ j, j ≠ i → s'.pgps j = s.pgps j
  holds : ∀ j, j ≠ i → ∀ p, s.Holds P j p → s'.Holds P j p

/-- The data of a descriptor goes, if there is any. -/
theorem Stored.bared (h : Stored P s) (hg : s.pgps i = some g) :
    Changes P i s (s.pgpFreeData P i) ∧
      ∃ g', (s.pgpFreeData P i).pgps i = some g' ∧ g'.data = .null ∧ g'.key = g.key := by
  by_cases hdata : g.data = .null
  · have hsame : s.pgpFreeData P i = s := by
      unfold State.pgpFreeData
      rw [State.pgp_of hg]
      exact if_pos hdata
    rw [hsame]
    exact ⟨Changes.refl h, g, hg, hdata, rfl⟩
  · obtain ⟨hfree, hself⟩ := h.pgpFreeData hg hdata
    exact ⟨hfree, _, hself, rfl, rfl⟩

theorem Counts.bared (h : Counts P s) (hs : Stored P s) (hg : s.pgps i = some g) : Counts P (s.pgpFreeData P i) := by
  by_cases hdata : g.data = .null
  · unfold State.pgpFreeData
    rw [State.pgp_of hg]
    dsimp only
    rw [if_pos hdata]
    exact h
  · exact h.pgpFreeData hs hg hdata

/-- A descriptor without data comes or goes. -/
theorem Zipped.update_pgps {v : Option Pgp} {n : Nat} (h : Zipped P s)
    (hold : ∀ g, s.pgps i = some g → g.data = .null) (hnew : ∀ g, v = some g → g.data = .null)
    (hn : n = s.nextPgp ∨ n = s.nextPgp + 1 ∧ s.pgps s.nextPgp = none) (poolCount : Nat → Int) :
    Zipped P { s with pgps := Function.update s.pgps i v, nextPgp := n, poolCount := poolCount } := by
  have hzero : ∀ (c : Nat) (w : Nat → Int) (v : Option Pgp), (∀ g, v = some g → g.data = .null) → zipped P c w v = 0 := by
    intro c w v hv
    cases v with
    | none => rfl
    | some g => exact zipped_null (hv g rfl)
  -- no descriptor counts for more or less
  have hsum : ∀ (c : Nat) (w : Nat → Int), ∑ j ∈ Finset.range n, zipped P c w (Function.update s.pgps i v j) =
      ∑ j ∈ Finset.range s.nextPgp, zipped P c w (s.pgps j) := by
    intro c w
    have hsame : ∀ j, zipped P c w (Function.update s.pgps i v j) = zipped P c w (s.pgps j) := by
      intro j
      by_cases hj : j = i
      · rw [hj, Function.update_self, hzero c w v hnew, hzero c w _ hold]
      · rw [Function.update_of_ne hj]
    rw [Finset.sum_congr rfl fun j _ => hsame j]
    rcases hn with hn | ⟨hn, hnone⟩
    · rw [hn]
    · rw [hn, Finset.sum_range_succ, hnone]
      exact add_zero _
  exact ⟨fun c => (h.pages c).trans (hsum c _).symm, fun c => (h.sum c).trans (hsum c _).symm⟩

theorem Counts.update_pgps {v : Option Pgp} {n : Nat} (h : Counts P s)
    (hold : ∀ g, s.pgps i = some g → g.data = .null) (hnew : ∀ g, v = some g → g.data = .null)
    (hn : n = s.nextPgp ∨ n = s.nextPgp + 1 ∧ s.pgps s.nextPgp = none) (poolCount : Nat → Int) :
    Counts P { s with pgps := Function.update s.pgps i v, nextPgp := n, poolCount := poolCount } := by
  refine ⟨?_, h.zipped.update_pgps hold hnew hn poolCount⟩
  refine h.tight.update_pgps (i := i) (v := v) rfl rfl rfl ?_ fun f hf => .inl hf
  intro g f hg hd
  exact Data.noConfusion ((hold g hg).symm.trans hd)

theorem Kept.pgpFree (h : Kept P b (some i) s) (hg : s.pgps i = some g) (htree : s.tree g.key ≠ some i)
    (heph : i ∉ s.eph) : Kept P b none (s.pgpFree P i) ∧ Gone P i s (s.pgpFree P i) := by
  obtain ⟨hchange, g', hg', hd', hkey⟩ := h.stored.bared hg
  have hfreed := h.change hg hchange fun hb => (h.counts hb).bared h.stored hg
  have hold : ∀ g, (s.pgpFreeData P i).pgps i = some g → g.data = .null := by
    intro g₁ hg₁
    cases hg'.symm.trans hg₁
    exact hd'
  unfold State.pgpFree
  rw [State.pgp_of hg]
  dsimp only
  generalize s.pgpFreeData P i = r at *
  have htrees := SameTrees.of_index hchange.index
  have hplaced := hfreed.placed.free (Placed.keyAt_of hg') (by rw [hkey, htrees.1]; exact htree)
    (by rw [hchange.index.eph]; exact heph)
  rw [hkey] at hplaced
  refine ⟨⟨?_, hplaced, fun hb => ?_⟩, htrees, fun j hj => ?_, fun j hj p hp => ?_⟩
  · exact hchange.stored.update_pgps (v := none) (n := r.nextPgp) hold nofun le_rfl _
  · exact (hfreed.counts hb).update_pgps (v := none) hold nofun (.inl rfl) _
  · exact (Function.update_of_ne hj _ _).trans (hchange.other j hj)
  · exact hchange.stored.update_holds (v := none) (n := r.nextPgp) _ hj (hchange.holds j hj p hp)

/-- A descriptor that is not in its tree is taken from its lists and freed. -/
theorem Kept.pgpDelete (h : Kept P b (some i) s) (hg : s.pgps i = some g) (htree : s.tree g.key ≠ some i) :
    Kept P b none (s.pgpDelete P i) ∧ Gone P i s (s.pgpDelete P i) := by
  obtain ⟨hplaced, heph⟩ := h.placed.pgpDelist (Placed.keyAt_of hg)
  have hdata := State.sameData_pgpDelist (P := P) s i
  have htrees := State.sameTrees_pgpDelist (P := P) s i
  have hdelisted := h.move hdata hplaced
  obtain ⟨hkept, hgone⟩ := hdelisted.pgpFree ((congrFun hdata.pgps i).trans hg) (by rw [htrees.1]; exact htree) heph
  refine ⟨hkept, htrees.trans hgone.trees, fun j hj => ?_, fun j hj p hp => ?_⟩
  · exact (hgone.other j hj).trans (congrFun hdata.pgps j)
  · exact hgone.holds j hj p ((hdata.holds j p).2 hp)

/-! ## Keys -/

/-- What is put under some keys stays where it is. -/
def Keeps (P : Settings) (keys : Key → Prop) (s s' : State) : Prop :=
  ∀ k, keys k → s'.tree k = s.tree k ∧ ∀ i, s.tree k = some i → ∀ p, s.Holds P i p → s'.Holds P i p

variable {keys : Key → Prop}

theorem Keeps.trans {s₁ s₂ s₃ : State} (h : Keeps P keys s₁ s₂) (h' : Keeps P keys s₂ s₃) : Keeps P keys s₁ s₃ := by
  intro k hk
  obtain ⟨htree, hholds⟩ := h k hk
  obtain ⟨htree', hholds'⟩ := h' k hk
  exact ⟨htree'.trans htree, fun i hi p hp => hholds' i (htree.trans hi) p (hholds i hi p hp)⟩

theorem SameData.keeps (h : SameData s s') (htree : ∀ k, keys k → s'.tree k = s.tree k) : Keeps P keys s s' :=
  fun k hk => ⟨htree k hk, fun i _ p hp => (h.holds i p).2 hp⟩

/-- A descriptor with another key is another one. -/
theorem Placed.ne_of_tree (h : Placed P x s) (hg : s.pgps i = some g) (hk : k ≠ g.key) (hj : s.tree k = some j) :
    j ≠ i := by
  rintro rfl
  have hkey := h.tree_key hj
  rw [Placed.keyAt_of hg] at hkey
  exact hk (Option.some.inj hkey).symm

theorem Changes.keeps (h : Changes P i s s') (hp : Placed P x s) (hg : s.pgps i = some g) :
    Keeps P (· ≠ g.key) s s' := by
  intro k hk
  exact ⟨congrFun h.index.tree k, fun j hj => h.holds j (hp.ne_of_tree hg hk hj)⟩

theorem Gone.keeps (h : Gone P i s s') (hp : Placed P x s) (hg : s.pgps i = some g) : Keeps P (· ≠ g.key) s s' := by
  intro k hk
  exact ⟨congrFun h.trees.1 k, fun j hj => h.holds j (hp.ne_of_tree hg hk hj)⟩

theorem State.sameData_pgpDeleteFromObj (s : State) (k : Key) : SameData s (s.pgpDeleteFromObj k) :=
  ⟨rfl, rfl, rfl, rfl, rfl, rfl, rfl, rfl, rfl⟩

theorem State.sameData_unlock (s : State) (o : Obj) : SameData s (s.unlock o) :=
  ⟨rfl, rfl, rfl, rfl, rfl, rfl, rfl, rfl, rfl⟩

theorem State.sameData_objFree (s : State) (o : Obj) : SameData s (s.objFree o) :=
  ⟨rfl, rfl, rfl, rfl, rfl, rfl, rfl, rfl, rfl⟩

/-- A page is taken from its tree and goes. -/
theorem Kept.pgpRemove (h : Kept P b (some i) s) (ht : s.tree k = some i) :
    let r := (s.pgpDeleteFromObj k).pgpDelete P i
    Kept P b none r ∧ Keeps P (· ≠ k) s r ∧ r.tree k = none ∧ r.locked = s.locked ∧
      r.objs = (s.countIn k.obj (-1)).objs ∧ Gone P i (s.pgpDeleteFromObj k) r := by
  obtain ⟨g, hg, hkey⟩ := Option.map_eq_some_iff.1 (h.placed.tree_key ht)
  have hdata := State.sameData_pgpDeleteFromObj s k
  have hnone : (s.pgpDeleteFromObj k).tree k = none := Function.update_self ..
  have hdeleted := h.move hdata (h.placed.pgpDeleteFromObj ht)
  obtain ⟨hkept, hgone⟩ := hdeleted.pgpDelete (g := g) hg (by rw [hkey, hnone]; exact (Option.some_ne_none i).symm)
  have hkeeps := hgone.keeps hdeleted.placed (g := g) hg
  rw [hkey] at hkeeps
  refine ⟨hkept, (hdata.keeps fun k' hk' => Function.update_of_ne hk' ..).trans hkeeps, ?_, hgone.trees.2.2.1,
    hgone.trees.2.1, hgone⟩
  rw [hgone.trees.1]
  exact hnone

/-- An operation on a key is over. -/
structure Settled (P : Settings) (b : Bool) (k : Key) (s r : State) : Prop where
  kept : Kept P b none r
  keeps : Keeps P (· ≠ k) s r
  free : ∀ o, r.locked o = false

theorem State.unlock_free (h : ∀ o', o' ≠ o → s.locked o' = false) (o' : Obj) : (s.unlock o).locked o' = false := by
  change Function.update s.locked o false o' = false
  by_cases ho : o' = o
  · rw [ho, Function.update_self]
  · rw [Function.update_of_ne ho]
    exact h o' ho

theorem Kept.unlock (h : Kept P b none s) (hfree : ∀ o, o ≠ k.obj → s.locked o = false) :
    Settled P b k s (s.unlock k.obj) where
  kept := h.move (State.sameData_unlock s k.obj) (h.placed.unlock k.obj)
  keeps := (State.sameData_unlock s k.obj).keeps fun _ _ => rfl
  free := State.unlock_free hfree

theorem Kept.objFree (h : Kept P b none s) (hobj : s.objs k.obj = some 0) (hfree : ∀ o, o ≠ k.obj → s.locked o = false) :
    Settled P b k s (s.objFree k.obj) where
  kept := h.move (State.sameData_objFree s k.obj) (h.placed.objFree hobj)
  keeps := (State.sameData_objFree s k.obj).keeps fun _ _ => rfl
  free := State.unlock_free (s := { s with objs := Function.update s.objs k.obj none }) hfree

theorem Kept.objRelease (h : Kept P b none s) (hfree : ∀ o, o ≠ k.obj → s.locked o = false) :
    Settled P b k s (s.objRelease k.obj) := by
  unfold State.objRelease
  split
  · exact h.objFree ‹_› hfree
  · exact h.unlock hfree

theorem Kept.dropObj (h : Kept P b none s) (new : Bool) (hnew : new = true → s.objs k.obj = some 0)
    (hfree : ∀ o, o ≠ k.obj → s.locked o = false) : Settled P b k s (s.dropObj k.obj new) := by
  unfold State.dropObj
  split
  · exact h.objFree (hnew ‹_›) hfree
  · exact h.unlock hfree

theorem Settled.after {r : State} (h : Settled P b k s' r) (hs : Keeps P (· ≠ k) s s') : Settled P b k s r :=
  ⟨h.kept, hs.trans h.keeps, h.free⟩

theorem State.tree_objRelease (s : State) (o : Obj) : (s.objRelease o).tree = s.tree := by
  unfold State.objRelease
  split <;> rfl

theorem State.tree_dropObj (s : State) (o : Obj) (new : Bool) : (s.dropObj o new).tree = s.tree := by
  unfold State.dropObj
  split <;> rfl

/-- A page is flushed. -/
theorem Kept.failedDup (h : Kept P b none s) (ht : s.tree k = some i) (hfree : ∀ o, o ≠ k.obj → s.locked o = false) :
    Settled P b k s (s.failedDup P k i) ∧ (s.failedDup P k i).tree k = none := by
  obtain ⟨hkept, hkeeps, hnone, hlocked, -⟩ := (h.except i).pgpRemove ht
  unfold State.failedDup
  refine ⟨(hkept.objRelease (k := k) ?_).after hkeeps, ?_⟩
  · rw [hlocked]
    exact hfree
  · rw [State.tree_objRelease]
    exact hnone

/-! ## Put -/

/-- The page that a put is given. -/
def Source.Gives (src : Source) (a : Answers) (p : Page) : Prop :=
  src.frame = some p ∨ ∃ junk, a.page = some junk ∧ src.copy junk = some p

/-- The page that is copied is kept as a page, or a part of it is. -/
def Source.Nonzero (P : Settings) (k : Key) (src : Source) (a : Answers) : Prop :=
  a.content = true → ∀ junk p, a.page = some junk → src.copy junk = some p → P.dedup = true →
    P.persistent k.obj.pool = false → State.pfpSize P p ≠ 0

theorem Kept.tryCompress (h : Kept P b x s) (hg : s.pgps i = some g) (wanted : Bool) (src : Source) (a : Answers) :
    let r := s.tryCompress P i wanted src a
    Kept P b x r.1 ∧ Changes P i s r.1 ∧ (r.2 = .stored → ∃ p, src.Gives a p ∧ r.1.Holds P i p) ∧
      (g.data = .null → r.2 ≠ .stored → ∃ g', r.1.pgps i = some g' ∧ g'.data = .null) := by
  unfold State.tryCompress
  dsimp only
  split
  · obtain ⟨hchange, hstored, hnone⟩ := h.stored.doTmemPutCompress hg src a
    refine ⟨h.change hg hchange fun hb => (h.counts hb).doTmemPutCompress h.stored hg src a, hchange, fun hr => ?_,
      fun _ hr => hnone hr⟩
    obtain ⟨p, hframe, hp⟩ := hstored hr
    exact ⟨p, .inl hframe, hp⟩
  · exact ⟨h, Changes.refl h.stored, nofun, fun hd _ => ⟨g, hg, hd⟩⟩

theorem Kept.copyUncompressed (h : Kept P b x s) (hg : s.pgps i = some g) (hd : g.data = .null) (src : Source)
    (a : Answers) (hfine : b = true → src.Nonzero P g.key a) :
    let r := s.copyUncompressed P i src a
    Kept P b x r.1 ∧ Changes P i s r.1 ∧ (r.2 = .ok → ∃ p, src.Gives a p ∧ r.1.Holds P i p) := by
  obtain ⟨hchange, hok⟩ := h.stored.copyUncompressed hg hd src a
  refine ⟨h.change hg hchange fun hb => (h.counts hb).copyUncompressed h.stored hg hd src a (hfine hb), hchange,
    fun hr => ?_⟩
  obtain ⟨junk, p, hjunk, hcopy, hp⟩ := hok hr
  exact ⟨p, .inr ⟨junk, hjunk, hcopy⟩, hp⟩

/-- What a put gives: a page under its key only if it succeeds. -/
structure WasPut (P : Settings) (b : Bool) (k : Key) (src : Source) (a : Answers) (s : State) (r : State × Result) :
    Prop extends Settled P b k s r.1 where
  page : ∀ i, r.1.tree k = some i → r.2 = .done ∧ ∃ p, src.Gives a p ∧ r.1.Holds P i p
  there : r.2 = .done → P.persistent k.obj.pool = true → r.1.tree k ≠ none

theorem WasPut.of_none {src : Source} {a : Answers} {r : State × Result} (h : Settled P b k s r.1)
    (hnone : r.1.tree k = none) (hfail : r.2 = .done → P.persistent k.obj.pool = false) : WasPut P b k src a s r where
  toSettled := h
  page := by
    intro i hi
    rw [hnone] at hi
    cases hi
  there := by
    intro hdone hp
    rw [hfail hdone] at hp
    cases hp

theorem Kept.doTmemDupPut (h : Kept P b none s) (ht : s.tree k = some i) (src : Source) (a : Answers)
    (hfree : ∀ o, o ≠ k.obj → s.locked o = false) (hfine : b = true → src.Nonzero P k a) :
    WasPut P b k src a s (s.doTmemDupPut P k i src a) := by
  obtain ⟨g, hg, hkey⟩ := Option.map_eq_some_iff.1 (h.placed.tree_key ht)
  subst hkey
  -- the data of the descriptor changes, and the page stays under its key, or goes
  have hkeep : ∀ {r}, Kept P b none r → Changes P i s r → (∃ p, src.Gives a p ∧ r.Holds P i p) →
      WasPut P b g.key src a s (r.unlock g.key.obj, .done) := by
    intro r hr hchange hp
    have htree : (r.unlock g.key.obj).tree g.key = some i := (congrFun hchange.index.tree _).trans ht
    refine ⟨(hr.unlock (k := g.key) ?_).after (hchange.keeps h.placed hg), fun j hj => ?_, fun _ _ => ?_⟩
    · rw [hchange.index.locked]
      exact hfree
    · cases htree.symm.trans hj
      obtain ⟨p, hgives, hp⟩ := hp
      exact ⟨rfl, p, hgives, ((State.sameData_unlock r _).holds i p).2 hp⟩
    · rw [htree]
      exact Option.some_ne_none i
  have hfail : ∀ {r} {result : Result}, Kept P b none r → Changes P i s r → result ≠ .done →
      WasPut P b g.key src a s (r.failedDup P g.key i, result) := by
    intro r result hr hchange hresult
    obtain ⟨hsettled, hnone⟩ := hr.failedDup (k := g.key) ((congrFun hchange.index.tree _).trans ht) (by
      rw [hchange.index.locked]
      exact hfree)
    exact WasPut.of_none (hsettled.after (hchange.keeps h.placed hg)) hnone fun hdone => absurd hdone hresult
  unfold State.doTmemDupPut
  dsimp only
  obtain ⟨hkept, hchange, hstored, -⟩ := h.tryCompress hg
    (src.long && P.clientCompress (s.clientOf P i) && decide ((s.pgp i).size ≠ 0)) src a
  generalize s.tryCompress P i (src.long && P.clientCompress (s.clientOf P i) && decide ((s.pgp i).size ≠ 0)) src a = r at *
  split
  · exact hkeep hkept hchange (hstored ‹_›)
  · exact hfail hkept hchange nofun
  · exact hfail hkept hchange nofun
  · -- the old data goes, and the page is copied
    obtain ⟨g', hg', hkey'⟩ := hchange.key hg
    obtain ⟨hbare, g₂, hg₂, hd₂, hkey₂⟩ := hkept.stored.bared hg'
    have hkept₂ := hkept.change hg' hbare fun hb => (hkept.counts hb).bared hkept.stored hg'
    have hsame : (if (r.1.pgp i).data ≠ .null then r.1.pgpFreeData P i else r.1) = r.1.pgpFreeData P i := by
      split
      · rfl
      · next hnull =>
        unfold State.pgpFreeData
        exact (if_pos (Decidable.not_not.1 hnull)).symm
    rw [hsame]
    obtain ⟨hkept₃, hcopied, hok⟩ := hkept₂.copyUncompressed hg₂ hd₂ src a (by
      rw [hkey₂, hkey']
      exact hfine)
    have hall := (hchange.trans hbare).trans hcopied
    split
    · exact hkeep hkept₃ hall (hok ‹_›)
    · exact hfail hkept₃ hall nofun
    · exact hfail hkept₃ hall nofun
    · exact hfail hkept₃ hall nofun

/-- A new descriptor, in no tree and on no list. -/
theorem Kept.pgpAlloc (h : Kept P b none s) (k : Key) (keys : Key → Prop) :
    Kept P b (some s.nextPgp) (s.pgpAlloc k) ∧ Keeps P keys s (s.pgpAlloc k) := by
  have hold : s.pgps s.nextPgp = none := by
    by_contra hne
    obtain ⟨g, hg⟩ := Option.ne_none_iff_exists'.mp hne
    exact absurd (h.stored.pgp_lt hg) (Nat.lt_irrefl _)
  have hnull : ∀ g, s.pgps s.nextPgp = some g → g.data = .null := by
    intro g hg
    rw [hold] at hg
    cases hg
  refine ⟨⟨?_, h.placed.pgpAlloc k, fun hb => ?_⟩, fun k' _ => ⟨rfl, fun j hj p hp => ?_⟩⟩
  · refine h.stored.update_pgps hnull ?_ (Nat.le_succ _) _
    rintro g ⟨⟩
    exact ⟨rfl, rfl, Nat.lt_succ_self _⟩
  · refine (h.counts hb).update_pgps hnull ?_ (.inr ⟨rfl, hold⟩) _
    rintro g ⟨⟩
    rfl
  · exact h.stored.update_holds (n := s.nextPgp + 1) _ (Nat.ne_of_lt (h.placed.lt (h.placed.tree_key hj))) hp

/-- A descriptor that has been put into its tree has no data yet. -/
theorem Kept.setNull (h : Kept P b x s) (hg : s.pgps i = some g) (hd : g.data = .null) (n : Nat) :
    Kept P b x (s.setData i .null n) ∧ Changes P i s (s.setData i .null n) := by
  have hfb : g.firstbyte = none := Pgp.firstbyte_of_wf (h.stored.wf hg) fun q hq => Data.noConfusion (hd.symm.trans hq)
  have hchange := h.stored.changes_setData (h.stored.setData (d := .null) (n := n) hg hfb hfb nofun)
  refine ⟨h.change hg hchange fun hb => ?_, hchange⟩
  refine (h.counts hb).update_pgps (n := s.nextPgp) (fun g' hg' => ?_) ?_ (.inl rfl) s.poolCount
  · cases hg.symm.trans hg'
    exact hd
  · rintro g' ⟨⟩
    rfl

/-- A page is put on its lists, and its object is unlocked. -/
theorem Kept.insertPage (h : Kept P b (some i) s) (ht : s.tree k = some i) (heph : i ∉ s.eph)
    (hfree : ∀ o, o ≠ k.obj → s.locked o = false) :
    Settled P b k s (s.insertPage P k i) ∧ (s.insertPage P k i).tree k = some i ∧
      SameData s (s.insertPage P k i) := by
  have hk := h.placed.tree_key ht
  have hunique : ∀ {s' : State}, s'.keyAt = s.keyAt → ∀ k', s'.keyAt i = some k' → k' = k := by
    intro s' hs' k' hk'
    rw [hs', hk] at hk'
    exact (Option.some.inj hk').symm
  unfold State.insertPage
  split
  · next hpers =>
    have hplaced : Placed P none s := by
      refine h.placed.settle (fun k' hk' => ?_) (fun k' hk' hpers' => ?_)
      · rw [hunique rfl k' hk']
        exact ht
      · rw [hunique rfl k' hk', hpers] at hpers'
        cases hpers'
    have hkept : Kept P b none s := ⟨h.stored, hplaced, h.counts⟩
    exact ⟨hkept.unlock hfree, ht, State.sameData_unlock s k.obj⟩
  · next hpers =>
    have hdata : SameData s (s.enlist P i) := ⟨rfl, rfl, rfl, rfl, rfl, rfl, rfl, rfl, rfl⟩
    have hplaced : Placed P none (s.enlist P i) := by
      refine (h.placed.enlist hk (Bool.eq_false_iff.2 hpers) heph).settle (fun k' hk' => ?_) (fun _ _ _ => ?_)
      · rw [hunique rfl k' hk']
        exact ht
      · exact List.mem_append_right _ (List.mem_singleton_self i)
    have hkept := h.move hdata hplaced
    have hdata' : SameData s ((s.enlist P i).unlock k.obj) := ⟨rfl, rfl, rfl, rfl, rfl, rfl, rfl, rfl, rfl⟩
    exact ⟨(hkept.unlock (k := k) hfree).after (hdata.keeps fun _ _ => rfl), ht, hdata'⟩

theorem Kept.deleteAndFree {n : Int} (h : Kept P b (some i) s) (new : Bool) (ht : s.tree k = some i)
    (hobj : s.objs k.obj = some (n + 1)) (hnew : new = true → n = 0) (hfree : ∀ o, o ≠ k.obj → s.locked o = false) :
    Settled P b k s (s.deleteAndFree P k i new) ∧ (s.deleteAndFree P k i new).tree k = none := by
  obtain ⟨hkept, hkeeps, hnone, hlocked, hobjs, -⟩ := h.pgpRemove ht
  unfold State.deleteAndFree
  refine ⟨(hkept.dropObj (k := k) new (fun hn => ?_) ?_).after hkeeps, ?_⟩
  · have hcount : (s.countIn k.obj (-1)).objs k.obj = (s.objs k.obj).map (· + -1) := Function.update_self ..
    rw [hobjs, hcount, hobj, hnew hn]
    rfl
  · rw [hlocked]
    exact hfree
  · rw [State.tree_dropObj]
    exact hnone

theorem State.not_persistent_of_noContent {src : Source} {a : Answers} (hg : s.pgps i = some g)
    (h : (s.copyUncompressed P i src a).2 = .noContent) : P.persistent g.key.obj.pool = false := by
  unfold State.copyUncompressed at h
  split at h
  · cases h
  · split at h
    · cases h
    · dsimp only at h
      split at h
      · next p hcopy hshare =>
        have hself := State.setData_self (s := s.pageAlloc p) (d := .pfp s.nextPage) (n := 0) hg
        rw [State.pgp_of hself] at hshare
        exact Bool.eq_false_iff.2 hshare.2
      · cases h

/-- A descriptor that is in its tree is filled, or goes again. -/
theorem Kept.fillNew {n : Int} (h : Kept P b (some i) s) (new : Bool) (src : Source) (a : Answers)
    (ht : s.tree k = some i) (hg : s.pgps i = some g) (hd : g.data = .null) (heph : i ∉ s.eph)
    (hobj : s.objs k.obj = some (n + 1)) (hnew : new = true → n = 0) (hfree : ∀ o, o ≠ k.obj → s.locked o = false)
    (hfine : b = true → src.Nonzero P k a) : WasPut P b k src a s (s.fillNew P k i new src a) := by
  have hkey : g.key = k := by
    have hk := h.placed.tree_key ht
    rw [Placed.keyAt_of hg] at hk
    exact Option.some.inj hk
  subst hkey
  have hkeep : ∀ {r}, Kept P b (some i) r → Changes P i s r → (∃ p, src.Gives a p ∧ r.Holds P i p) →
      WasPut P b g.key src a s (r.insertPage P g.key i, .done) := by
    rintro r hr hchange ⟨p, hgives, hp⟩
    obtain ⟨hsettled, htree, hdata⟩ := hr.insertPage (k := g.key) ((congrFun hchange.index.tree _).trans ht)
      (by rw [hchange.index.eph]; exact heph) (by rw [hchange.index.locked]; exact hfree)
    refine ⟨hsettled.after (hchange.keeps h.placed hg), fun j hj => ?_, fun _ _ => ?_⟩
    · cases htree.symm.trans hj
      exact ⟨rfl, p, hgives, (hdata.holds i p).2 hp⟩
    · rw [htree]
      exact Option.some_ne_none i
  have hfail : ∀ {r} {result : Result}, Kept P b (some i) r → Changes P i s r →
      (result = .done → P.persistent g.key.obj.pool = false) →
      WasPut P b g.key src a s (r.deleteAndFree P g.key i new, result) := by
    intro r result hr hchange hresult
    obtain ⟨hsettled, hnone⟩ := hr.deleteAndFree (k := g.key) new ((congrFun hchange.index.tree _).trans ht)
      (by rw [hchange.index.objs]; exact hobj) hnew (by rw [hchange.index.locked]; exact hfree)
    exact WasPut.of_none (hsettled.after (hchange.keeps h.placed hg)) hnone hresult
  unfold State.fillNew
  dsimp only
  obtain ⟨hkept, hchange, hstored, hnull⟩ := h.tryCompress hg
    (src.long && P.clientCompress (P.client g.key.obj.pool)) src a
  generalize s.tryCompress P i (src.long && P.clientCompress (P.client g.key.obj.pool)) src a = r at *
  split
  · exact hkeep hkept hchange (hstored ‹_›)
  · exact hfail hkept hchange nofun
  · exact hfail hkept hchange nofun
  · next hpoor =>
    obtain ⟨g', hg', hd'⟩ := hnull hd (by rw [hpoor]; nofun)
    obtain ⟨g'', hg'', hkey'⟩ := hchange.key hg
    cases hg'.symm.trans hg''
    obtain ⟨hkept', hcopied, hok⟩ := hkept.copyUncompressed hg' hd' src a (by
      rw [hkey']
      exact hfine)
    have hall := hchange.trans hcopied
    split
    · exact hkeep hkept' hall (hok ‹_›)
    · exact hfail hkept' hall nofun
    · exact hfail hkept' hall nofun
    · next hcopy =>
      refine hfail hkept' hall fun _ => ?_
      rw [← hkey']
      exact State.not_persistent_of_noContent hg' hcopy

/-- A page is put under a key that has none. -/
theorem Kept.putNew {n : Int} (h : Kept P b none s) (new : Bool) (src : Source) (a : Answers)
    (hnone : s.tree k = none) (hobj : s.objs k.obj = some n) (hnew : new = true → n = 0)
    (hfree : ∀ o, o ≠ k.obj → s.locked o = false)
    (hfine : b = true → a.descriptor = true → a.nodes = true → src.Nonzero P k a) :
    WasPut P b k src a s (s.putNew P k new src a) := by
  have hfail : ∀ {r}, Kept P b none r → SameTrees s r → Keeps P (· ≠ k) s r →
      WasPut P b k src a s (r.dropObj k.obj new, .nomem) := by
    rintro r hr ⟨htree, hobjs, hlocked, -⟩ hkeeps
    have hdropped := hr.dropObj (k := k) new (fun hn => by rw [hobjs, hobj, hnew hn])
      (by rw [hlocked]; exact hfree)
    refine WasPut.of_none (hdropped.after hkeeps) ?_ nofun
    rw [State.tree_dropObj, htree]
    exact hnone
  unfold State.putNew
  split
  · exact hfail h ⟨rfl, rfl, rfl, rfl⟩ fun k _ => ⟨rfl, fun _ _ _ hp => hp⟩
  · next hdescriptor =>
    obtain ⟨halloc, hkeeps⟩ := h.pgpAlloc k (· ≠ k)
    have hg : (s.pgpAlloc k).pgps s.nextPgp = some ⟨k, noSize, none, false, .null⟩ := Function.update_self ..
    have hkey : (s.pgpAlloc k).keyAt s.nextPgp = some k := Placed.keyAt_of hg
    split
    · -- there are no nodes for the radix tree
      obtain ⟨hkept, hgone⟩ := halloc.pgpDelete hg (by
        change s.tree k ≠ some s.nextPgp
        rw [hnone]
        exact (Option.some_ne_none _).symm)
      have htrees : s.tree = ((s.pgpAlloc k).pgpDelete P s.nextPgp).tree := hgone.trees.1.symm
      have hdropped := hkept.dropObj (k := k) new
        (fun hn => by rw [hgone.trees.2.1]; exact hobj.trans (by rw [hnew hn])) (by rw [hgone.trees.2.2.1]; exact hfree)
      refine WasPut.of_none (hdropped.after (hkeeps.trans (hgone.keeps halloc.placed hg))) ?_ nofun
      rw [State.tree_dropObj, ← htrees]
      exact hnone
    · next hnodes =>
      have hdata : SameData (s.pgpAlloc k) ((s.pgpAlloc k).pgpAddToObj k s.nextPgp) :=
        ⟨rfl, rfl, rfl, rfl, rfl, rfl, rfl, rfl, rfl⟩
      have hadded := halloc.move hdata (halloc.placed.pgpAddToObj hkey hnone hobj)
      have htree : ((s.pgpAlloc k).pgpAddToObj k s.nextPgp).tree k = some s.nextPgp := Function.update_self ..
      have hobj' : ((s.pgpAlloc k).pgpAddToObj k s.nextPgp).objs k.obj = some (n + 1) := by
        refine (Function.update_self ..).trans ?_
        change (s.objs k.obj).map (· + 1) = some (n + 1)
        rw [hobj]
        rfl
      obtain ⟨hset, hchange⟩ := hadded.setNull (g := ⟨k, noSize, none, false, .null⟩) hg rfl 0
      have heph : s.nextPgp ∉ s.eph := by
        intro hmem
        obtain ⟨k', hk', -⟩ := h.placed.eph_key hmem
        exact absurd (h.placed.lt hk') (Nat.lt_irrefl _)
      have hput := hset.fillNew new src a htree (State.setData_self (s := (s.pgpAlloc k).pgpAddToObj k s.nextPgp)
        (g := ⟨k, noSize, none, false, .null⟩) hg) rfl heph hobj' hnew hfree
        fun hb => hfine hb (by simpa using hdescriptor) (by simpa using hnodes)
      have hbefore : Keeps P (· ≠ k) s (((s.pgpAlloc k).pgpAddToObj k s.nextPgp).setData s.nextPgp .null 0) :=
        (hkeeps.trans (hdata.keeps fun k' hk' => Function.update_of_ne hk' ..)).trans
          (hchange.keeps hadded.placed (g := ⟨k, noSize, none, false, .null⟩) hg)
      exact { hput with toSettled := hput.toSettled.after hbefore }

/-- Nothing is locked between two operations. -/
structure AtRest (P : Settings) (b : Bool) (s : State) : Prop extends Kept P b none s where
  free : ∀ o, s.locked o = false

theorem State.sameData_lock (s : State) (o : Obj) : SameData s (s.lock o) := ⟨rfl, rfl, rfl, rfl, rfl, rfl, rfl, rfl, rfl⟩

theorem AtRest.lock (h : AtRest P b s) (o : Obj) : Kept P b none (s.lock o) ∧ ∀ o', o' ≠ o → (s.lock o).locked o' = false := by
  refine ⟨h.move (State.sameData_lock s o) (h.placed.lock o), fun o' ho => ?_⟩
  exact (Function.update_of_ne ho ..).trans (h.free o')

theorem State.lock_keeps (s : State) (o : Obj) : Keeps P keys s (s.lock o) :=
  (s.sameData_lock o).keeps fun _ _ => rfl

theorem Settled.rest {r : State} (h : Settled P b k s r) : AtRest P b r := ⟨h.kept, h.free⟩

theorem AtRest.settled (h : AtRest P b s) (k : Key) : Settled P b k s s :=
  ⟨h.toKept, fun _ _ => ⟨rfl, fun _ _ _ hp => hp⟩, h.free⟩

/-- A put gets as far as to fill a descriptor. -/
def State.Fills (P : Settings) (s : State) (k : Key) (a : Answers) : Prop :=
  s.tree k ≠ none ∨
    P.frozen (P.client k.obj.pool) = false ∧ (s.objs k.obj ≠ none ∨ a.object = true) ∧ a.descriptor = true ∧
      a.nodes = true

/-- `do_tmem_put` -/
theorem AtRest.doTmemPut (h : AtRest P b s) (k : Key) (src : Source) (a : Answers)
    (hfine : b = true → s.Fills P k a → src.Nonzero P k a) : WasPut P b k src a s (s.doTmemPut P k src a) := by
  obtain ⟨hlock, hother⟩ := h.lock k.obj
  have hnone : s.objs k.obj = none → s.tree k = none := by
    intro ho
    by_contra hne
    obtain ⟨i, hi⟩ := Option.ne_none_iff_exists'.mp hne
    obtain ⟨n, hn⟩ := h.placed.obj hi
    rw [ho] at hn
    cases hn
  unfold State.doTmemPut
  split
  · next n hobj =>
    rw [h.free, if_neg (by decide)]
    split
    · next i ht =>
      have hput := hlock.doTmemDupPut ht src a hother fun hb => hfine hb (.inl (by rw [ht]; exact Option.some_ne_none i))
      exact { hput with toSettled := hput.toSettled.after (s.lock_keeps k.obj) }
    · next ht =>
      split
      · exact WasPut.of_none ((hlock.unlock (k := k) hother).after (s.lock_keeps k.obj)) ht nofun
      · next hfrozen =>
        have hput := hlock.putNew false src a ht hobj nofun hother fun hb hd hn =>
          hfine hb (.inr ⟨Bool.eq_false_iff.2 hfrozen, .inl (by rw [hobj]; exact Option.some_ne_none n), hd, hn⟩)
        exact { hput with toSettled := hput.toSettled.after (s.lock_keeps k.obj) }
  · next hobj =>
    split
    · exact WasPut.of_none (h.settled k) (hnone hobj) nofun
    · next hfrozen =>
      split
      · next hobject =>
        have hdata : SameData s (s.objNew k.obj) := ⟨rfl, rfl, rfl, rfl, rfl, rfl, rfl, rfl, rfl⟩
        have hnew := h.move hdata (h.placed.objNew hobj)
        have hput := hnew.putNew (n := 0) true src a (hnone hobj) (Function.update_self ..)
          (fun _ => rfl) (fun o ho => (Function.update_of_ne ho ..).trans (h.free o))
          fun hb hd hn => hfine hb (.inr ⟨Bool.eq_false_iff.2 hfrozen, .inr hobject, hd, hn⟩)
        exact { hput with toSettled := hput.toSettled.after (hdata.keeps fun _ _ => rfl) }
      · exact WasPut.of_none (h.settled k) (hnone hobj) nofun

end Tmem
