import MemoryMonitor.Tmem.Stored

/-!
# Where descriptors are

Every descriptor is in the radix tree of its object, and an ephemeral one is on two lists; and the counters
say how many there are. During an operation this may fail for one descriptor, the exception of `Placed`.
-/

namespace Tmem

/-- What a descriptor is in the tree for. -/
def State.keyAt (s : State) (i : Nat) : Option Key := (s.pgps i).map Pgp.key

/-- It counts for an object if it is in its radix tree. -/
def inObj (tree : Key → Option Nat) (o : Obj) (i : Nat) : Option Key → Int
  | some k => if k.obj = o ∧ tree k = some i then 1 else 0
  | none => 0

/-- It counts for its pool. -/
def inPool (n : Nat) : Option Key → Int
  | some k => if k.obj.pool = n then 1 else 0
  | none => 0

theorem inObj_some (tree : Key → Option Nat) (o : Obj) (i : Nat) (k : Key) :
    inObj tree o i (some k) = if k.obj = o ∧ tree k = some i then 1 else 0 := rfl

theorem inPool_some (n : Nat) (k : Key) : inPool n (some k) = if k.obj.pool = n then 1 else 0 := rfl

/-- The trees, the lists and the counters, with at most one exception. -/
structure Placed (P : Settings) (x : Option Nat) (s : State) : Prop where
  tree_key : ∀ {k i}, s.tree k = some i → s.keyAt i = some k
  in_tree : ∀ {i k}, s.keyAt i = some k → some i ≠ x → s.tree k = some i
  obj : ∀ {k i}, s.tree k = some i → ∃ n, s.objs k.obj = some n
  count : ∀ {o n}, s.objs o = some n → n = ∑ i ∈ Finset.range s.nextPgp, inObj s.tree o i (s.keyAt i)
  eph_key : ∀ {i}, i ∈ s.eph → ∃ k, s.keyAt i = some k ∧ P.persistent k.obj.pool = false
  listed : ∀ {i k}, s.keyAt i = some k → some i ≠ x → P.persistent k.obj.pool = false → i ∈ s.eph
  eph_nodup : s.eph.Nodup
  eph_count : s.globalEphCount = s.eph.length
  client : ∀ {i c}, i ∈ s.clientEph c ↔ i ∈ s.eph ∧ ∃ k, s.keyAt i = some k ∧ P.client k.obj.pool = c
  client_nodup : ∀ c, (s.clientEph c).Nodup
  client_count : ∀ c, s.ephCount c = (s.clientEph c).length
  pool : ∀ n, s.poolCount n = ∑ i ∈ Finset.range s.nextPgp, inPool n (s.keyAt i)
  lt : ∀ {i k}, s.keyAt i = some k → i < s.nextPgp

namespace Placed

variable {P : Settings} {x : Option Nat} {s s' : State} {i j : Nat} {k : Key} {o : Obj} {g : Pgp}

theorem keyAt_of (hg : s.pgps i = some g) : s.keyAt i = some g.key := by
  unfold State.keyAt
  rw [hg]
  rfl

/-- An exception can always be made. -/
theorem except (h : Placed P none s) (i : Nat) : Placed P (some i) s :=
  { h with
    in_tree := fun hk _ => h.in_tree hk (Option.some_ne_none _)
    listed := fun hk _ => h.listed hk (Option.some_ne_none _) }

theorem settle (h : Placed P (some i) s) (htree : ∀ k, s.keyAt i = some k → s.tree k = some i)
    (hlist : ∀ k, s.keyAt i = some k → P.persistent k.obj.pool = false → i ∈ s.eph) : Placed P none s :=
  { h with
    in_tree := by
      intro j k hk _
      by_cases hj : j = i
      · rw [hj] at hk ⊢
        exact htree k hk
      · exact h.in_tree hk fun heq => hj (Option.some.inj heq)
    listed := by
      intro j k hk _ hp
      by_cases hj : j = i
      · rw [hj] at hk ⊢
        exact hlist k hk hp
      · exact h.listed hk (fun heq => hj (Option.some.inj heq)) hp }

/-- Only the keys of the descriptors matter. -/
theorem congr (h : Placed P x s) (hi : SameIndex s s') (hk : s'.keyAt = s.keyAt) : Placed P x s' where
  tree_key := by
    rw [hi.tree, hk]
    exact h.tree_key
  in_tree := by
    rw [hi.tree, hk]
    exact h.in_tree
  obj := by
    rw [hi.tree, hi.objs]
    exact h.obj
  count := by
    rw [hi.objs, hi.nextPgp, hi.tree, hk]
    exact h.count
  eph_key := by
    rw [hi.eph, hk]
    exact h.eph_key
  listed := by
    rw [hi.eph, hk]
    exact h.listed
  eph_nodup := by
    rw [hi.eph]
    exact h.eph_nodup
  eph_count := by
    rw [hi.eph, hi.globalEphCount]
    exact h.eph_count
  client := by
    rw [hi.eph, hi.clientEph, hk]
    exact h.client
  client_nodup := by
    rw [hi.clientEph]
    exact h.client_nodup
  client_count := by
    rw [hi.clientEph, hi.ephCount]
    exact h.client_count
  pool := by
    rw [hi.poolCount, hi.nextPgp, hk]
    exact h.pool
  lt := by
    rw [hi.nextPgp, hk]
    exact h.lt

end Placed

/-- An operation on the data of a descriptor moves none. -/
theorem Changes.placed {P : Settings} {x : Option Nat} {s s' : State} {i : Nat} {g : Pgp} (h : Changes P i s s')
    (hg : s.pgps i = some g) (hp : Placed P x s) : Placed P x s' := by
  refine hp.congr h.index ?_
  funext j
  unfold State.keyAt
  by_cases hj : j = i
  · obtain ⟨g', hg', hkey⟩ := h.key hg
    rw [hj, hg, hg', Option.map_some, Option.map_some, hkey]
  · rw [h.other j hj]

namespace Placed

variable {P : Settings} {x : Option Nat} {s s' : State} {i j : Nat} {k : Key} {o : Obj} {g : Pgp}

/-! ## Objects -/

theorem inObj_nonneg (tree : Key → Option Nat) (o : Obj) (i : Nat) (k : Option Key) : 0 ≤ inObj tree o i k := by
  unfold inObj
  split
  · split
    · exact Int.one_nonneg
    · exact Int.le_refl 0
  · exact Int.le_refl 0

/-- An object without pages has nothing in its tree. -/
theorem tree_of_count (h : Placed P x s) (ho : s.objs o = some 0) (hk : k.obj = o) : s.tree k = none := by
  cases htree : s.tree k with
  | none => rfl
  | some i =>
    have hkey := h.tree_key htree
    have hcount := h.count ho
    have hone : inObj s.tree o i (s.keyAt i) = 1 := by
      rw [hkey]
      exact if_pos ⟨hk, htree⟩
    have hle := Finset.single_le_sum (f := fun i => inObj s.tree o i (s.keyAt i))
      (fun j _ => inObj_nonneg s.tree o j (s.keyAt j)) (Finset.mem_range.2 (h.lt hkey))
    rw [hone, ← hcount] at hle
    exact absurd hle (by decide)

theorem objNew (h : Placed P x s) (ho : s.objs o = none) : Placed P x (s.objNew o) := by
  have hobjs : ∀ o', (s.objNew o).objs o' = if o' = o then some 0 else s.objs o' := by
    intro o'
    exact Function.update_apply s.objs o (some 0) o'
  refine { h with obj := ?_, count := ?_ }
  · intro k i htree
    rw [hobjs]
    split
    · exact ⟨0, rfl⟩
    · exact h.obj htree
  · intro o' n hn
    rw [hobjs] at hn
    split at hn
    · rename_i heq
      cases hn
      -- nothing is in the tree of an object that is not there
      refine (Finset.sum_eq_zero fun i _ => ?_).symm
      change inObj s.tree o' i (s.keyAt i) = 0
      unfold inObj
      split
      · rename_i k _
        refine if_neg fun hin => ?_
        obtain ⟨n, hn⟩ := h.obj hin.2
        rw [hin.1, heq, ho] at hn
        exact absurd hn (Option.some_ne_none n).symm
      · rfl
    · exact h.count hn

theorem objFree (h : Placed P x s) (ho : s.objs o = some 0) : Placed P x (s.objFree o) := by
  have hobjs : ∀ o', (s.objFree o).objs o' = if o' = o then none else s.objs o' := by
    intro o'
    exact Function.update_apply s.objs o none o'
  refine { h with obj := ?_, count := ?_ }
  · intro k i htree
    rw [hobjs]
    split
    · rename_i hk
      have hnone := h.tree_of_count ho hk
      exact absurd (htree.symm.trans hnone) (Option.some_ne_none i)
    · exact h.obj htree
  · intro o' n hn
    rw [hobjs] at hn
    split at hn
    · exact absurd hn (Option.some_ne_none n).symm
    · exact h.count hn

theorem lock (h : Placed P x s) (o : Obj) : Placed P x (s.lock o) := { h with }

theorem unlock (h : Placed P x s) (o : Obj) : Placed P x (s.unlock o) := { h with }

/-! ## Descriptors -/

theorem keyAt_alloc (s : State) (k : Key) : (s.pgpAlloc k).keyAt = Function.update s.keyAt s.nextPgp (some k) := by
  funext j
  unfold State.keyAt State.pgpAlloc
  dsimp only
  rw [Function.update_apply, Function.update_apply]
  split
  · rfl
  · rfl

theorem pgpAlloc (h : Placed P none s) (k : Key) : Placed P (some s.nextPgp) (s.pgpAlloc k) := by
  have hkey : ∀ {j k'}, (s.pgpAlloc k).keyAt j = some k' → j = s.nextPgp ∧ k' = k ∨ j ≠ s.nextPgp ∧ s.keyAt j = some k' := by
    intro j k' hk'
    rw [keyAt_alloc, Function.update_apply] at hk'
    split at hk'
    · cases hk'
      exact .inl ⟨‹_›, rfl⟩
    · exact .inr ⟨‹_›, hk'⟩
  have hold : ∀ {j k'}, s.keyAt j = some k' → (s.pgpAlloc k).keyAt j = some k' := by
    intro j k' hk'
    rw [keyAt_alloc, Function.update_of_ne (Nat.ne_of_lt (h.lt hk'))]
    exact hk'
  constructor
  · exact fun ht => hold (h.tree_key ht)
  · intro j k' hk' hne
    rcases hkey hk' with ⟨hj, -⟩ | ⟨-, hk'⟩
    · exact absurd (congrArg some hj) hne
    · exact h.in_tree hk' (Option.some_ne_none j)
  · exact h.obj
  · intro o n hn
    change n = ∑ i ∈ Finset.range (s.nextPgp + 1), inObj s.tree o i ((s.pgpAlloc k).keyAt i)
    rw [Finset.sum_range_succ, h.count hn, keyAt_alloc, Function.update_self]
    have hnew : inObj s.tree o s.nextPgp (some k) = 0 := by
      refine if_neg fun hin => ?_
      exact absurd (h.lt (h.tree_key hin.2)) (Nat.lt_irrefl _)
    rw [hnew, add_zero]
    refine Finset.sum_congr rfl fun j hj => ?_
    rw [Function.update_of_ne (Nat.ne_of_lt (Finset.mem_range.1 hj))]
  · intro j hj
    obtain ⟨k', hk', hp⟩ := h.eph_key hj
    exact ⟨k', hold hk', hp⟩
  · intro j k' hk' hne hp
    rcases hkey hk' with ⟨hj, -⟩ | ⟨-, hk'⟩
    · exact absurd (congrArg some hj) hne
    · exact h.listed hk' (Option.some_ne_none j) hp
  · exact h.eph_nodup
  · exact h.eph_count
  · intro j c
    refine h.client.trans (and_congr_right fun hj => ?_)
    obtain ⟨k', hk', -⟩ := h.eph_key hj
    rw [hk', hold hk']
  · exact h.client_nodup
  · exact h.client_count
  · intro n
    change Function.update s.poolCount k.obj.pool (s.poolCount k.obj.pool + 1) n =
      ∑ i ∈ Finset.range (s.nextPgp + 1), inPool n ((s.pgpAlloc k).keyAt i)
    have hrest : ∑ i ∈ Finset.range s.nextPgp, inPool n (Function.update s.keyAt s.nextPgp (some k) i) = s.poolCount n := by
      rw [h.pool n]
      refine Finset.sum_congr rfl fun j hj => ?_
      rw [Function.update_of_ne (Nat.ne_of_lt (Finset.mem_range.1 hj))]
    rw [Finset.sum_range_succ, keyAt_alloc, Function.update_self, hrest, Function.update_apply]
    rw [inPool_some]
    split
    · rename_i hn
      rw [if_pos hn.symm, hn]
    · rename_i hn
      rw [if_neg fun heq => hn heq.symm, add_zero]
  · intro j k' hk'
    change j < s.nextPgp + 1
    rcases hkey hk' with ⟨hj, -⟩ | ⟨-, hk'⟩
    · omega
    · exact Nat.lt_succ_of_lt (h.lt hk')

theorem count_update {v : Option Nat} {n : Int} (h : Placed P x s) (hk : s.keyAt i = some k)
    (hold : s.tree k = some i ∨ s.tree k = none) (hnew : v = some i ∨ v = none) (hn : s.objs o = some n) :
    (∑ j ∈ Finset.range s.nextPgp, inObj (Function.update s.tree k v) o j (s.keyAt j)) =
      n + if k.obj = o then (if v = some i then 1 else 0) - (if s.tree k = some i then 1 else 0) else 0 := by
  have hother : ∀ j, j ≠ i → inObj (Function.update s.tree k v) o j (s.keyAt j) = inObj s.tree o j (s.keyAt j) := by
    intro j hj
    unfold inObj
    split
    · rename_i k' _
      by_cases hkk : k' = k
      · -- no other descriptor is in the tree here
        subst hkk
        rw [Function.update_self, if_neg, if_neg]
        · rintro ⟨-, ht⟩
          rcases hold with ho | ho
          · exact hj (Option.some.inj (ht.symm.trans ho))
          · exact absurd (ht.symm.trans ho) (Option.some_ne_none j)
        · rintro ⟨-, ht⟩
          rcases hnew with hv | hv
          · exact hj (Option.some.inj (ht.symm.trans hv))
          · exact absurd (ht.symm.trans hv) (Option.some_ne_none j)
      · rw [Function.update_of_ne hkk]
    · rfl
  have hsum := Totals.sum_change (Finset.mem_range.2 (h.lt hk)) hother
  rw [← h.count hn, hk, inObj_some, inObj_some, Function.update_self] at hsum
  by_cases hko : k.obj = o
  · simp only [hko, true_and, if_true] at hsum ⊢
    omega
  · simp only [hko, false_and, if_false] at hsum ⊢
    omega

theorem pgpAddToObj {n : Int} (h : Placed P (some i) s) (hk : s.keyAt i = some k) (hnone : s.tree k = none)
    (hn : s.objs k.obj = some n) : Placed P (some i) (s.pgpAddToObj k i) := by
  have hobjs : ∀ o, (s.pgpAddToObj k i).objs o = if o = k.obj then some (n + 1) else s.objs o := by
    intro o
    refine (Function.update_apply ..).trans ?_
    rw [hn]
    rfl
  have htree : ∀ k', (s.pgpAddToObj k i).tree k' = if k' = k then some i else s.tree k' := by
    intro k'
    exact Function.update_apply s.tree k (some i) k'
  refine { h with tree_key := ?_, in_tree := ?_, obj := ?_, count := ?_ }
  · intro k' j ht
    rw [htree] at ht
    split at ht
    · rename_i hkk
      cases ht
      rw [hkk]
      exact hk
    · exact h.tree_key ht
  · intro j k' hk' hne
    have ht := h.in_tree hk' hne
    rw [htree, if_neg]
    · exact ht
    · rintro rfl
      exact absurd (ht.symm.trans hnone) (Option.some_ne_none j)
  · intro k' j ht
    rw [htree] at ht
    rw [hobjs]
    split
    · exact ⟨_, rfl⟩
    · rename_i hne
      rw [if_neg fun heq => hne (by rw [heq])] at ht
      exact h.obj ht
  · intro o m hm
    change m = ∑ j ∈ Finset.range s.nextPgp, inObj (Function.update s.tree k (some i)) o j (s.keyAt j)
    rw [hobjs] at hm
    split at hm
    · rename_i heq
      cases hm
      rw [heq, h.count_update hk (.inr hnone) (.inl rfl) hn, if_pos rfl, if_pos rfl, hnone, if_neg (by simp)]
      omega
    · rename_i hne
      rw [h.count_update hk (.inr hnone) (.inl rfl) hm, if_neg fun heq => hne heq.symm, add_zero]

theorem pgpDeleteFromObj (h : Placed P (some i) s) (ht : s.tree k = some i) :
    Placed P (some i) (s.pgpDeleteFromObj k) := by
  have hk := h.tree_key ht
  obtain ⟨n, hn⟩ := h.obj ht
  have hobjs : ∀ o, (s.pgpDeleteFromObj k).objs o = if o = k.obj then some (n + -1) else s.objs o := by
    intro o
    refine (Function.update_apply ..).trans ?_
    rw [hn]
    rfl
  have htree : ∀ k', (s.pgpDeleteFromObj k).tree k' = if k' = k then none else s.tree k' := by
    intro k'
    exact Function.update_apply s.tree k none k'
  refine { h with tree_key := ?_, in_tree := ?_, obj := ?_, count := ?_ }
  · intro k' j ht'
    rw [htree] at ht'
    split at ht'
    · exact absurd ht' (Option.some_ne_none j).symm
    · exact h.tree_key ht'
  · intro j k' hk' hne
    have ht' := h.in_tree hk' hne
    rw [htree, if_neg]
    · exact ht'
    · rintro rfl
      exact hne (ht'.symm.trans ht)
  · intro k' j ht'
    rw [htree] at ht'
    rw [hobjs]
    split
    · exact ⟨_, rfl⟩
    · rename_i hne
      rw [if_neg fun heq => hne (by rw [heq])] at ht'
      exact h.obj ht'
  · intro o m hm
    change m = ∑ j ∈ Finset.range s.nextPgp, inObj (Function.update s.tree k none) o j (s.keyAt j)
    rw [hobjs] at hm
    split at hm
    · rename_i heq
      cases hm
      rw [heq, h.count_update hk (.inl ht) (.inr rfl) hn, if_pos rfl, if_neg (by simp), ht, if_pos rfl]
      omega
    · rename_i hne
      rw [h.count_update hk (.inl ht) (.inr rfl) hm, if_neg fun heq => hne heq.symm, add_zero]

/-! ## Lists -/

theorem key_of (hk : s.keyAt i = some k) : (s.pgp i).key = k := by
  unfold State.keyAt at hk
  obtain ⟨g, hg, hkey⟩ := Option.map_eq_some_iff.1 hk
  rw [State.pgp_of hg]
  exact hkey

theorem pgpDelist (h : Placed P (some i) s) (hk : s.keyAt i = some k) :
    Placed P (some i) (s.pgpDelist P i) ∧ i ∉ (s.pgpDelist P i).eph := by
  unfold State.pgpDelist State.clientOf
  rw [key_of hk]
  dsimp only
  split
  · rename_i hpers
    refine ⟨h, fun hi => ?_⟩
    obtain ⟨k', hk', hno⟩ := h.eph_key hi
    cases hk.symm.trans hk'
    exact absurd (hpers.symm.trans hno) (by simp)
  · have hmem : ∀ {j}, j ∈ s.eph.erase i ↔ j ≠ i ∧ j ∈ s.eph := h.eph_nodup.mem_erase_iff
    have hcmem : ∀ {j c}, j ∈ (s.clientEph c).erase i ↔ j ≠ i ∧ j ∈ s.clientEph c := (h.client_nodup _).mem_erase_iff
    refine ⟨{ h with
      eph_key := ?_, listed := ?_, eph_nodup := h.eph_nodup.erase i, eph_count := ?_, client := ?_
      client_nodup := ?_, client_count := ?_ }, h.eph_nodup.not_mem_erase⟩
    · intro j hj
      exact h.eph_key (hmem.1 hj).2
    · intro j k' hk' hne hp
      exact hmem.2 ⟨fun heq => hne (congrArg some heq), h.listed hk' hne hp⟩
    · dsimp only
      have hcount := h.eph_count
      split
      · rename_i hi
        have hlen := List.length_erase_of_mem hi
        have hpos := List.length_pos_of_mem hi
        omega
      · rename_i hi
        rw [List.erase_of_not_mem hi]
        exact hcount
    · intro j c
      dsimp only
      rw [hmem, Function.update_apply]
      split
      · rename_i hc
        rw [hcmem, ← hc, h.client, and_assoc]
        rfl
      · rename_i hc
        rw [h.client, and_assoc]
        refine ⟨fun hj => ⟨?_, hj⟩, fun hj => hj.2⟩
        -- it is on the list of another client
        rintro rfl
        obtain ⟨k', hk', hclient⟩ := hj.2
        cases hk.symm.trans hk'
        exact hc hclient.symm
    · intro c
      dsimp only
      rw [Function.update_apply]
      split
      · exact (h.client_nodup _).erase i
      · exact h.client_nodup c
    · intro c
      dsimp only
      rw [Function.update_apply, Function.update_apply]
      split
      · have hcount := h.client_count (P.client k.obj.pool)
        split
        · rename_i hi
          have hlen := List.length_erase_of_mem hi
          have hpos := List.length_pos_of_mem hi
          omega
        · rename_i hi
          rw [List.erase_of_not_mem hi]
          exact hcount
      · exact h.client_count c

theorem enlist (h : Placed P (some i) s) (hk : s.keyAt i = some k) (hp : P.persistent k.obj.pool = false) (hi : i ∉ s.eph) :
    Placed P (some i) (s.enlist P i) := by
  have hclient : ∀ c, i ∉ s.clientEph c := fun c hc => hi (h.client.1 hc).1
  unfold State.enlist State.clientOf
  rw [key_of hk]
  dsimp only
  refine { h with
    eph_key := ?_, listed := ?_, eph_nodup := ?_, eph_count := ?_, client := ?_
    client_nodup := ?_, client_count := ?_ }
  · intro j hj
    rcases List.mem_append.1 hj with hj | hj
    · exact h.eph_key hj
    · cases List.mem_singleton.1 hj
      exact ⟨k, hk, hp⟩
  · intro j k' hk' hne hp'
    exact List.mem_append_left _ (h.listed hk' hne hp')
  · exact List.nodup_append'.2 ⟨h.eph_nodup, List.nodup_singleton i, List.disjoint_singleton.2 hi⟩
  · dsimp only
    rw [List.length_append, h.eph_count, List.length_singleton]
    push_cast
    rfl
  · intro j c
    dsimp only
    rw [List.mem_append, List.mem_singleton, Function.update_apply]
    constructor
    · intro hj
      split at hj
      · rename_i hc
        rcases List.mem_append.1 hj with hj | hj
        · rw [← hc] at hj
          exact ⟨.inl (h.client.1 hj).1, (h.client.1 hj).2⟩
        · cases List.mem_singleton.1 hj
          exact ⟨.inr rfl, k, hk, hc.symm⟩
      · exact ⟨.inl (h.client.1 hj).1, (h.client.1 hj).2⟩
    · rintro ⟨hj | rfl, k', hk', hc⟩
      · split
        · rename_i hcc
          rw [← hcc]
          exact List.mem_append_left _ (h.client.2 ⟨hj, k', hk', hc⟩)
        · exact h.client.2 ⟨hj, k', hk', hc⟩
      · cases hk.symm.trans hk'
        rw [if_pos hc.symm]
        exact List.mem_append_right _ (List.mem_singleton_self _)
  · intro c
    dsimp only
    rw [Function.update_apply]
    split
    · exact List.nodup_append'.2 ⟨h.client_nodup _, List.nodup_singleton i, List.disjoint_singleton.2 (hclient _)⟩
    · exact h.client_nodup c
  · intro c
    dsimp only
    rw [Function.update_apply, Function.update_apply]
    split
    · rw [List.length_append, h.client_count, List.length_singleton]
      push_cast
      rfl
    · exact h.client_count c

/-- A descriptor that is moved to the tail is taken from its lists and put on them again. -/
theorem moveToTail (h : Placed P none s) (hi : i ∈ s.eph) : Placed P none (s.moveToTail P i) := by
  obtain ⟨k, hk, hp⟩ := h.eph_key hi
  have hin : i ∈ s.clientEph (P.client k.obj.pool) := h.client.2 ⟨hi, k, hk, rfl⟩
  obtain ⟨hdelist, hout⟩ := (h.except i).pgpDelist hk
  have hk' : (s.pgpDelist P i).keyAt i = some k := by
    unfold State.pgpDelist
    dsimp only
    split <;> exact hk
  have henlist := hdelist.enlist hk' hp hout
  have heq : (s.pgpDelist P i).enlist P i = s.moveToTail P i := by
    unfold State.enlist State.moveToTail State.clientOf
    rw [key_of hk', key_of hk]
    unfold State.pgpDelist State.clientOf
    rw [key_of hk]
    dsimp only
    rw [if_neg (by simp [hp]), if_pos hin, if_pos hi]
    simp
  rw [heq] at henlist
  refine henlist.settle (fun k' hk' => h.in_tree hk' (Option.some_ne_none i)) fun k' _ _ => ?_
  exact List.mem_append_right _ (List.mem_singleton_self _)

/-- A descriptor that is neither in its tree nor on its lists goes. -/
theorem free (h : Placed P (some i) s) (hk : s.keyAt i = some k) (htree : s.tree k ≠ some i) (hi : i ∉ s.eph) :
    Placed P none { s with
      pgps := Function.update s.pgps i none
      poolCount := Function.update s.poolCount k.obj.pool (s.poolCount k.obj.pool - 1) } := by
  have hkey : ∀ j, State.keyAt { s with
      pgps := Function.update s.pgps i none
      poolCount := Function.update s.poolCount k.obj.pool (s.poolCount k.obj.pool - 1) } j =
      if j = i then none else s.keyAt j := by
    intro j
    unfold State.keyAt
    dsimp only
    rw [Function.update_apply]
    split <;> rfl
  constructor
  · intro k' j ht
    rw [hkey, if_neg]
    · exact h.tree_key ht
    · rintro rfl
      cases hk.symm.trans (h.tree_key ht)
      exact htree ht
  · intro j k' hk' _
    rw [hkey] at hk'
    split at hk'
    · exact absurd hk' (Option.some_ne_none k').symm
    · rename_i hj
      exact h.in_tree hk' fun heq => hj (Option.some.inj heq)
  · exact h.obj
  · intro o n hn
    rw [h.count hn]
    refine Finset.sum_congr rfl fun j _ => ?_
    rw [hkey]
    split
    · rename_i hj
      rw [hj, hk, inObj_some, if_neg fun hin => htree hin.2]
      rfl
    · rfl
  · intro j hj
    obtain ⟨k', hk', hp⟩ := h.eph_key hj
    refine ⟨k', ?_, hp⟩
    rw [hkey, if_neg]
    · exact hk'
    · rintro rfl
      exact hi hj
  · intro j k' hk' _ hp
    rw [hkey] at hk'
    split at hk'
    · exact absurd hk' (Option.some_ne_none k').symm
    · rename_i hj
      exact h.listed hk' (fun heq => hj (Option.some.inj heq)) hp
  · exact h.eph_nodup
  · exact h.eph_count
  · intro j c
    refine h.client.trans (and_congr_right fun hj => ?_)
    rw [hkey, if_neg]
    rintro rfl
    exact hi hj
  · exact h.client_nodup
  · exact h.client_count
  · intro n
    have hother : ∀ j, j ≠ i → inPool n (if j = i then none else s.keyAt j) = inPool n (s.keyAt j) := by
      intro j hj
      rw [if_neg hj]
    have hsum := Totals.sum_change (Finset.mem_range.2 (h.lt hk)) hother
    rw [← h.pool n, hk, if_pos rfl, inPool_some] at hsum
    dsimp only
    simp only [hkey]
    rw [Function.update_apply]
    change _ + _ = _ + (0 : Int) at hsum
    split
    · rename_i hn
      rw [if_pos hn.symm] at hsum
      rw [← hn]
      omega
    · rename_i hn
      rw [if_neg fun heq => hn heq.symm] at hsum
      omega
  · intro j k' hk'
    rw [hkey] at hk'
    split at hk'
    · exact absurd hk' (Option.some_ne_none k').symm
    · exact h.lt hk'

end Placed

end Tmem
