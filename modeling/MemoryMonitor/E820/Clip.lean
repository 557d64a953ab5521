import MemoryMonitor.E820.Change

/-!
# Clipping RAM

Each round of `clip_to_limit` does away with one RAM region above the limit and makes no other,
whether the part above is retyped or, for want of room, cut off. What `opt_availmem` leaves is
counted in bytes.
-/

namespace E820

open Regions

variable {map map' map'' a b a' b' m : List Entry} {r r' : Entry} {limit avail : BitVec 64}
  {t : BitVec 32} {z : ℕ}

/-- What has become of a map of which RAM above the limit is taken away. -/
structure Clipping (limit : BitVec 64) (map map' : List Entry) : Prop where
  wf : Wf map'
  kept : ∀ z t, HasType map z t → ¬(t = e820Ram ∧ limit.toNat ≤ z) → HasType map' z t
  made : ∀ z t, HasType map' z t →
    HasType map z t ∨ (t = e820Unusable ∧ limit.toNat ≤ z ∧ HasType map z e820Ram)

theorem Clipping.refl (h : Wf map) : Clipping limit map map :=
  ⟨h, fun _ _ ht _ => ht, fun _ _ ht => Or.inl ht⟩

theorem Clipping.trans (h : Clipping limit map map') (h' : Clipping limit map' map'') :
    Clipping limit map map'' := by
  refine ⟨h'.wf, ?_, ?_⟩
  · intro z t ht hcut
    exact h'.kept z t (h.kept z t ht hcut) hcut
  · intro z t ht
    rcases h'.made z t ht with ht' | ⟨rfl, hz, ht'⟩
    · exact h.made z t ht'
    · rcases h.made z e820Ram ht' with hram | ⟨hne, -, -⟩
      · exact Or.inr ⟨rfl, hz, hram⟩
      · exact absurd hne (by decide)

/-- A region that `clip_to_limit` has to deal with. -/
def Above (limit : BitVec 64) (r : Entry) : Prop := r.type = e820Ram ∧ limit < r.stop

instance : DecidablePred (Above limit) := fun r =>
  inferInstanceAs (Decidable (r.type = e820Ram ∧ limit < r.stop))

/-- How many RAM regions go beyond the limit. -/
def above (limit : BitVec 64) (map : List Entry) : ℕ :=
  map.countP fun r => decide (r.type = e820Ram ∧ limit.toNat < r.hi)

theorem above_append (limit : BitVec 64) (l m : List Entry) :
    above limit (l ++ m) = above limit l + above limit m := List.countP_append

theorem above_iff (h : r.hi < 2 ^ 64) :
    Above limit r ↔ r.type = e820Ram ∧ limit.toNat < r.hi := by
  rw [← Entry.stop_toNat h]
  exact Iff.rfl

/-- Two first finds are one, when each is a find of the other kind too. -/
theorem First.eq {p q : Entry → Prop} (h : First p map a r b) (h' : First q map a' r' b')
    (hq : q r) (hp : p r') : a = a' ∧ r = r' ∧ b = b' := by
  have hsplit : a ++ r :: b = a' ++ r' :: b' := h.split.symm.trans h'.split
  rcases List.append_eq_append_iff.mp hsplit with ⟨c, rfl, hc⟩ | ⟨c, rfl, hc⟩
  · cases c with
    | nil =>
        obtain ⟨rfl, rfl⟩ := List.cons.inj hc
        exact ⟨(List.append_nil a).symm, rfl, rfl⟩
    | cons u c =>
        obtain ⟨rfl, -⟩ := List.cons.inj hc
        exact absurd hq (h'.earlier r (by simp))
  · cases c with
    | nil =>
        obtain ⟨rfl, rfl⟩ := List.cons.inj hc
        exact ⟨List.append_nil a', rfl, rfl⟩
    | cons u c =>
        obtain ⟨rfl, -⟩ := List.cons.inj hc
        exact absurd hp (h.earlier r' (by simp))

theorem above_first (hwf : Wf map) (h : First (Above limit) map a r b) :
    above limit map = above limit a + (1 + above limit b) := by
  have hr : r.hi < 2 ^ 64 := hwf.hi_lt (by simp [h.split])
  have hone : decide (r.type = e820Ram ∧ limit.toNat < r.hi) = true :=
    decide_eq_true ((above_iff hr).mp h.here)
  rw [h.split, above_append]
  simp only [above, List.countP_cons, hone, if_true]
  omega

/-! ## A round -/

/-- The region is cut off at the limit, or deleted: `m` is what is left of it. -/
theorem Wf.clip (hwf : Wf map) (h : First (Above limit) map a r b) (hm : Ascending Entry.lo Entry.hi m)
    (hin : ∀ p ∈ m, r.lo ≤ p.lo ∧ p.hi ≤ r.hi) (hlen : m.length ≤ 1)
    (hram : ∀ p ∈ m, p.type = e820Ram ∧ p.hi ≤ limit.toNat)
    (hall : ∀ z, r.lo ≤ z → z < limit.toNat → HasType m z e820Ram) :
    Clipping limit map (a ++ (m ++ b)) ∧ above limit (a ++ (m ++ b)) < above limit map := by
  have habove := above_first hwf h
  have hr : r ∈ map := by simp [h.split]
  have htype : r.type = e820Ram := h.here.1
  have hhave := fun z t (hz : r.lo ≤ z ∧ z < r.hi) => hwf.hasType_iff (t := t) hr hz
  obtain ⟨rfl, -, -⟩ := h
  have hnone : above limit m = 0 := by
    refine List.countP_eq_zero.mpr ?_
    intro p hp hcount
    have hp := (hram p hp).2
    have hcount := (of_decide_eq_true hcount).2
    omega
  have hinside : ∀ z t, HasType m z t → t = e820Ram ∧ z < limit.toNat ∧ r.lo ≤ z ∧ z < r.hi := by
    rintro z t ⟨p, hp, hlo, hhi, rfl⟩
    obtain ⟨hp', hlim⟩ := hram p hp
    obtain ⟨hlo', hhi'⟩ := hin p hp
    exact ⟨hp', by omega, by omega, by omega⟩
  refine ⟨⟨⟨hwf.ascending.replace hm hin, ?_, ?_⟩, ?_, ?_⟩, ?_⟩
  · intro p hp
    simp only [List.mem_append] at hp
    rcases hp with hp | hp | hp
    · exact hwf.hi_lt (by simp [hp])
    · have hle := (hin p hp).2
      have hlt := hwf.hi_lt hr
      omega
    · exact hwf.hi_lt (by simp [hp])
  · have hfits := hwf.fits
    simp only [List.length_append, List.length_cons] at hfits ⊢
    omega
  · intro z t ht hcut
    by_cases hz : r.lo ≤ z ∧ z < r.hi
    · have ht' : t = e820Ram := ((hhave z t hz).mp ht).trans htype
      refine (hwf.ascending.tagged_inside hz).mpr ?_
      rw [ht']
      exact hall z hz.1 (by by_contra hge; exact hcut ⟨ht', by omega⟩)
    · exact (tagged_replace hz hin).mpr ht
  · intro z t ht
    left
    by_cases hz : r.lo ≤ z ∧ z < r.hi
    · have ht' := hinside z t ((hwf.ascending.tagged_inside hz).mp ht)
      exact (hhave z t hz).mpr (ht'.1.trans htype.symm)
    · exact (tagged_replace hz hin).mp ht
  · rw [above_append, above_append, hnone, habove]
    omega

/-- Where the part above the limit starts. -/
def Entry.cutAt (r : Entry) (limit : BitVec 64) : BitVec 64 := if r.addr < limit then limit else r.addr

theorem splitEntry_end (r : Entry) (s : BitVec 64) (new : BitVec 32) :
    splitEntry r s r.stop new =
      if s = r.addr then [{ r with type := new }]
      else [Entry.between r.addr s r.type, Entry.between s r.stop new] := by
  unfold splitEntry
  by_cases hs : s = r.addr
  · simp only [hs, and_self, if_true]
  · rw [if_neg (fun h => hs h.1), if_neg hs, if_pos rfl, if_neg hs]
    rfl

/-- Of a region that is retyped from the limit on, no RAM is left above it. -/
theorem above_splitEntry (r : Entry) (limit : BitVec 64) :
    above limit (splitEntry r (r.cutAt limit) r.stop e820Unusable) = 0 := by
  have hunusable : e820Unusable ≠ e820Ram := by decide
  refine List.countP_eq_zero.mpr ?_
  intro p hp hcount
  obtain ⟨htype, hhi⟩ := of_decide_eq_true hcount
  rw [splitEntry_end] at hp
  by_cases hs : r.cutAt limit = r.addr
  · rw [if_pos hs] at hp
    obtain rfl := List.mem_singleton.mp hp
    exact hunusable htype
  · rw [if_neg hs] at hp
    have hlt : r.addr < limit := by
      by_contra hge
      exact hs (if_neg hge)
    have hcut : r.cutAt limit = limit := if_pos hlt
    rw [hcut] at hp
    simp only [List.mem_cons, List.not_mem_nil, or_false] at hp
    rcases hp with rfl | rfl
    · rw [Entry.between_hi (BitVec.le_of_lt hlt)] at hhi
      omega
    · exact hunusable htype

theorem Wf.retype (hwf : Wf map) (h : First (Above limit) map a r b) (hle : r.cutAt limit ≤ r.stop)
    (hinc : First (Includes (r.cutAt limit) r.stop) map a r b) (hroom : Room map (r.cutAt limit) r.stop r) :
    let map' := mergeAdjacent (a ++ (splitEntry r (r.cutAt limit) r.stop e820Unusable ++ b)) 0
    Clipping limit map map' ∧ above limit map' < above limit map := by
  intro map'
  have hc : Cut map r _ _ e820Unusable _ := hwf.cut hle hinc hroom
  have hr : r ∈ map := by simp [h.split]
  have htype : r.type = e820Ram := h.here.1
  have hlo : limit.toNat ≤ (r.cutAt limit).toNat ∧ r.lo ≤ (r.cutAt limit).toNat ∧
      ∀ z, r.lo ≤ z → limit.toNat ≤ z → (r.cutAt limit).toNat ≤ z := by
    unfold Entry.cutAt
    by_cases hlt : r.addr < limit
    · rw [if_pos hlt]
      have hlt : r.lo < limit.toNat := hlt
      exact ⟨Nat.le_refl _, by omega, fun z _ hz => hz⟩
    · rw [if_neg hlt]
      exact ⟨Nat.le_of_not_lt hlt, Nat.le_refl _, fun z hz _ => hz⟩
  obtain ⟨hlim, -, hcut⟩ := hlo
  refine ⟨⟨hc.wf_merge, ?_, ?_⟩, ?_⟩
  · intro z t ht hkeep
    refine hc.hasType_merge.mpr ?_
    by_cases hz : r.lo ≤ z ∧ z < r.hi
    · have ht' : t = r.type := (hwf.hasType_iff hr hz).mp ht
      have hbelow : ¬(r.cutAt limit).toNat ≤ z := fun hge => hkeep ⟨ht'.trans htype, by omega⟩
      rw [if_pos hz, if_neg (fun h => hbelow h.1)]
      exact ht'
    · rw [if_neg hz]
      exact ht
  · intro z t ht
    have ht := hc.hasType_merge.mp ht
    by_cases hz : r.lo ≤ z ∧ z < r.hi
    · rw [if_pos hz] at ht
      by_cases hin : (r.cutAt limit).toNat ≤ z ∧ z < r.stop.toNat
      · rw [if_pos hin] at ht
        exact Or.inr ⟨ht, by omega, (hwf.hasType_iff hr hz).mpr htype.symm⟩
      · rw [if_neg hin] at ht
        exact Or.inl ((hwf.hasType_iff hr hz).mpr ht)
    · rw [if_neg hz] at ht
      exact Or.inl ht
  · have hmerge := hc.merge.1.countP_le (fun n t => decide (t = e820Ram ∧ limit.toNat < n))
    have habove := above_first hwf h
    have happ : above limit (a ++ (splitEntry r (r.cutAt limit) r.stop e820Unusable ++ b)) =
        above limit a + above limit b := by
      rw [above_append, above_append, above_splitEntry]
      omega
    have hle' : above limit map' ≤
        above limit (a ++ (splitEntry r (r.cutAt limit) r.stop e820Unusable ++ b)) := hmerge
    omega

theorem clipRounds_succ (h : First (Above limit) map a r b)
    (hidx : (map.findIdx fun r => decide (Above limit r)) = a.length) (n : ℕ) : clipRounds limit (n + 1) map =
      match e820ChangeRangeType map (r.cutAt limit) r.stop e820Ram e820Unusable with
      | (true, map) => clipRounds limit n map
      | (false, map) =>
          if r.addr < limit then
            clipRounds limit n (map.set a.length { r with size := limit - r.addr })
          else clipRounds limit n (map.eraseIdx a.length) := by
  have hidx' : (map.findIdx fun r => decide (r.type = e820Ram ∧ limit < r.stop)) = a.length := hidx
  rw [clipRounds]
  simp only [hidx', h.get]
  rfl

theorem clipRounds_step (hwf : Wf map) (h : First (Above limit) map a r b)
    (hidx : (map.findIdx fun r => decide (Above limit r)) = a.length) (n : ℕ) :
    ∃ map', clipRounds limit (n + 1) map = clipRounds limit n map' ∧ Clipping limit map map' ∧
      above limit map' < above limit map := by
  have hr : r ∈ map := by simp [h.split]
  have hhi : r.hi < 2 ^ 64 := hwf.hi_lt hr
  have hstop : r.stop.toNat = r.hi := Entry.stop_toNat hhi
  have htype : r.type = e820Ram := h.here.1
  have hlim : limit < r.stop := h.here.2
  have hcut : r.addr ≤ r.cutAt limit ∧ r.cutAt limit ≤ r.stop := by
    unfold Entry.cutAt
    by_cases hlt : r.addr < limit
    · rw [if_pos hlt]
      exact ⟨BitVec.le_of_lt hlt, BitVec.le_of_lt hlim⟩
    · rw [if_neg hlt]
      have hle : r.addr.toNat ≤ r.hi := Nat.le_add_right _ _
      exact ⟨BitVec.le_refl _, show r.addr.toNat ≤ r.stop.toNat by omega⟩
  have hinc : Includes (r.cutAt limit) r.stop r := ⟨hcut.1, BitVec.le_refl _⟩
  have hround := clipRounds_succ h hidx n
  -- a failed change leaves the region to be cut or deleted
  have hfail : e820ChangeRangeType map (r.cutAt limit) r.stop e820Ram e820Unusable = (false, map) →
      ∃ map', clipRounds limit (n + 1) map = clipRounds limit n map' ∧ Clipping limit map map' ∧
        above limit map' < above limit map := by
    intro heq
    rw [hround, heq]
    by_cases hlt : r.addr < limit
    · have hhi' : (Entry.between r.addr limit r.type).hi = limit.toNat :=
        Entry.between_hi (BitVec.le_of_lt hlt)
      have hlt' : r.lo < limit.toNat := hlt
      have hlim' : limit.toNat < r.stop.toNat := hlim
      refine ⟨a ++ ([Entry.between r.addr limit r.type] ++ b), ?_, hwf.clip h ?_ ?_ (by simp) ?_ ?_⟩
      · simp only [hlt, if_true]
        congr 1
        rw [h.split, List.set_append_right _ _ (Nat.le_refl _)]
        simp [Entry.between]
      · simp only [ascending_cons, ascending_nil, List.not_mem_nil, hhi']
        exact ⟨Nat.le_of_lt hlt', by simp, trivial⟩
      · intro p hp
        obtain rfl := List.mem_singleton.mp hp
        rw [hhi']
        exact ⟨Nat.le_refl _, by omega⟩
      · intro p hp
        obtain rfl := List.mem_singleton.mp hp
        rw [hhi']
        exact ⟨htype, Nat.le_refl _⟩
      · intro z hz hz'
        exact ⟨_, List.mem_singleton.mpr rfl, hz, by rw [hhi']; exact hz', htype⟩
    · have hge : limit.toNat ≤ r.lo := Nat.le_of_not_lt hlt
      refine ⟨a ++ ([] ++ b), ?_, hwf.clip h ascending_nil (by simp) (by simp) (by simp) ?_⟩
      · simp only [hlt, if_false]
        congr 1
        rw [h.split, List.eraseIdx_append_of_length_le (Nat.le_refl _)]
        simp
      · intro z hz hz'
        omega
  rcases e820ChangeRangeType_cases map (r.cutAt limit) r.stop e820Ram e820Unusable with
    ⟨-, hnone⟩ | ⟨a', r', b', h', ⟨heq, -⟩ | ⟨htype', hroom, heq⟩⟩
  · exact absurd hinc (hnone r hr)
  · exact hfail heq
  · have habove : Above limit r' := by
      have hle : r.stop.toNat ≤ r'.stop.toNat := h'.here.2
      exact ⟨htype', Nat.lt_of_lt_of_le hlim hle⟩
    obtain ⟨rfl, rfl, rfl⟩ := h.eq h' hinc habove
    refine ⟨_, ?_, hwf.retype h hcut.2 h' hroom⟩
    rw [hround, heq]

/-! ## The whole loop -/

/-- The loop ends, by the number of regions above the limit, and none is left. -/
theorem clipRounds_spec (n : ℕ) (hwf : Wf map) (hn : above limit map ≤ n) :
    ∃ map', clipRounds limit (n + 1) map = some map' ∧ Clipping limit map map' ∧
      ∀ r ∈ map', ¬Above limit r := by
  induction n generalizing map with
  | zero =>
      rcases findIdx_first (Above limit) map with ⟨hnone, hall⟩ | ⟨a, r, b, h, -⟩
      · refine ⟨map, ?_, Clipping.refl hwf, hall⟩
        have hnone' : map[map.findIdx fun r => decide (r.type = e820Ram ∧ limit < r.stop)]? = none := hnone
        simp only [clipRounds, hnone']
      · have habove := above_first hwf h
        omega
  | succ n ih =>
      rcases findIdx_first (Above limit) map with ⟨hnone, hall⟩ | ⟨a, r, b, h, hidx⟩
      · refine ⟨map, ?_, Clipping.refl hwf, hall⟩
        have hnone' : map[map.findIdx fun r => decide (r.type = e820Ram ∧ limit < r.stop)]? = none := hnone
        rw [clipRounds]
        simp only [hnone']
      · obtain ⟨map', hround, hstep, hlt⟩ := clipRounds_step hwf h hidx (n + 1)
        obtain ⟨map'', hrun, hclip, hdone⟩ := ih hstep.wf (by omega)
        exact ⟨map'', hround.trans hrun, hstep.trans hclip, hdone⟩

/-- The map without the RAM above the limit. -/
structure Clipped (limit : BitVec 64) (map map' : List Entry) : Prop where
  wf : Wf map'
  above : ∀ z, limit.toNat ≤ z → ¬HasType map' z e820Ram
  below : ∀ z, z < limit.toNat → HasType map z e820Ram → HasType map' z e820Ram
  others : ∀ z t, t ≠ e820Ram → HasType map z t → HasType map' z t
  made : ∀ z t, HasType map' z t →
    HasType map z t ∨ (t = e820Unusable ∧ limit.toNat ≤ z ∧ HasType map z e820Ram)

theorem clipToLimit_clipped (hwf : Wf map) (limit : BitVec 64) :
    ∃ map', clipToLimit limit map = some map' ∧ Clipped limit map map' := by
  have hle : E820.above limit map ≤ map.length := List.countP_le_length
  obtain ⟨map', hrun, hclip, hdone⟩ := clipRounds_spec map.length hwf hle
  refine ⟨map', hrun, hclip.wf, ?_, ?_, ?_, hclip.made⟩
  · rintro z hz ⟨r, hr, hlo, hhi, htype⟩
    refine hdone r hr ((above_iff (hclip.wf.hi_lt hr)).mpr ⟨htype, ?_⟩)
    omega
  · intro z hz ht
    exact hclip.kept z e820Ram ht fun hcut => by omega
  · intro z t hne ht
    exact hclip.kept z t ht fun hcut => hne hcut.1

theorem Clipped.ram_iff (h : Clipped limit map map') :
    HasType map' z e820Ram ↔ z < limit.toNat ∧ HasType map z e820Ram := by
  constructor
  · intro ht
    have hz : z < limit.toNat := by
      by_contra hge
      exact h.above z (by omega) ht
    rcases h.made z e820Ram ht with ht' | ⟨hne, -, -⟩
    · exact ⟨hz, ht'⟩
    · exact absurd hne (by decide)
  · rintro ⟨hz, ht⟩
    exact h.below z hz ht

/-! ## Counting bytes -/

/-- The bytes of RAM that the entries account for. -/
def ramBytes (map : List Entry) : ℕ :=
  (map.map fun r => if r.type = e820Ram then r.size.toNat else 0).sum

theorem ramBytes_append (a b : List Entry) : ramBytes (a ++ b) = ramBytes a + ramBytes b := by
  simp [ramBytes]

theorem ramBytes_cons (r : Entry) (b : List Entry) :
    ramBytes (r :: b) = (if r.type = e820Ram then r.size.toNat else 0) + ramBytes b := rfl

/-- The addresses of RAM. -/
def ramSet (map : List Entry) : Set ℕ := {z | HasType map z e820Ram}

theorem ramSet_finite (map : List Entry) : (ramSet map).Finite := by
  refine Set.Finite.subset (Set.finite_lt_nat (2 ^ 65)) ?_
  rintro z ⟨r, -, -, hhi, -⟩
  unfold Entry.hi at hhi
  show z < 2 ^ 65
  omega

/-- In a map without overlap each byte is counted once. -/
theorem ncard_ramSet (h : Ascending Entry.lo Entry.hi map) : (ramSet map).ncard = ramBytes map := by
  induction map with
  | nil =>
      have hempty : ramSet [] = ∅ := by
        ext z
        simp [ramSet, HasType]
      rw [hempty, Set.ncard_empty]
      rfl
  | cons r map ih =>
      obtain ⟨-, hrest, hasc⟩ := ascending_cons.mp h
      have ih := ih hasc
      rw [ramBytes_cons]
      by_cases htype : r.type = e820Ram
      · have hsplit : ramSet (r :: map) = (Finset.Ico r.lo r.hi : Set ℕ) ∪ ramSet map := by
          ext z
          simp [ramSet, HasType, htype]
        have hdisj : Disjoint (Finset.Ico r.lo r.hi : Set ℕ) (ramSet map) := by
          refine Set.disjoint_left.mpr ?_
          rintro z hz ⟨u, hu, hlo, -, -⟩
          have hz := (Finset.mem_Ico.mp hz).2
          have hu := hrest u hu
          omega
        rw [hsplit, Set.ncard_union_eq hdisj (Finset.finite_toSet _) (ramSet_finite map),
          Set.ncard_coe_finset, Nat.card_Ico, ih, if_pos htype]
        simp only [Entry.hi, Entry.lo]
        omega
      · have hsame : ramSet (r :: map) = ramSet map := by
          ext z
          simp [ramSet, HasType, htype]
        rw [hsame, ih, if_neg htype, Nat.zero_add]

/-- A sum of RAM does not overflow. -/
theorem Wf.ramBytes_lt (h : Wf map) : ramBytes map < 2 ^ 64 := by
  rw [← ncard_ramSet h.ascending]
  have hsub : ramSet map ⊆ (Finset.range (2 ^ 64 - 1) : Set ℕ) := by
    rintro z ⟨r, hr, -, hhi, -⟩
    have hlt := h.hi_lt hr
    refine Finset.mem_coe.mpr (Finset.mem_range.mpr ?_)
    omega
  have hle := Set.ncard_le_ncard hsub (Finset.finite_toSet _)
  rw [Set.ncard_coe_finset, Finset.card_range] at hle
  omega

/-- Where the loop over the map stops: the entry with which the sum first exceeds
`opt_availmem`. -/
structure Crossing (avail : BitVec 64) (size : ℕ) (map a : List Entry) (r : Entry) (b : List Entry) :
    Prop where
  split : map = a ++ r :: b
  type : r.type = e820Ram
  low : size + ramBytes a ≤ avail.toNat
  high : avail.toNat < size + ramBytes a + r.size.toNat

theorem sumRam_done {size : BitVec 64} {last : Option Entry} (h : avail < size) :
    sumRam avail map last size = (last, size) := by
  cases map with
  | nil => rfl
  | cons r map =>
      rw [sumRam, if_neg]
      exact BitVec.not_le.mpr h

theorem sumRam_crossing {last : Option Entry} {size : BitVec 64} (hsize : size ≤ avail)
    (hmax : size.toNat + ramBytes map < 2 ^ 64) (havail : avail.toNat < size.toNat + ramBytes map) :
    ∃ a r b, Crossing avail size.toNat map a r b ∧ (sumRam avail map last size).1 = some r ∧
      (sumRam avail map last size).2.toNat = size.toNat + ramBytes a + r.size.toNat := by
  induction map generalizing last size with
  | nil =>
      have hsize : size.toNat ≤ avail.toNat := hsize
      simp only [ramBytes, List.map_nil, List.sum_nil] at havail
      omega
  | cons r map ih =>
      have hsize' : size.toNat ≤ avail.toNat := hsize
      rw [ramBytes_cons] at hmax havail
      rw [sumRam, if_pos hsize]
      by_cases htype : r.type = e820Ram
      · rw [if_pos htype] at hmax havail ⊢
        have hsum : (size + r.size).toNat = size.toNat + r.size.toNat := by
          rw [BitVec.toNat_add]
          exact Nat.mod_eq_of_lt (by omega)
        by_cases hover : avail < size + r.size
        · have hover' : avail.toNat < (size + r.size).toNat := hover
          rw [sumRam_done hover]
          refine ⟨[], r, map, ⟨rfl, htype, ?_, ?_⟩, rfl, ?_⟩
          · simp only [ramBytes, List.map_nil, List.sum_nil]
            omega
          · simp only [ramBytes, List.map_nil, List.sum_nil]
            omega
          · simp only [ramBytes, List.map_nil, List.sum_nil]
            omega
        · have hle : size + r.size ≤ avail := BitVec.not_lt.mp hover
          obtain ⟨a, u, b, hc, hlast, hstop⟩ := @ih (some r) (size + r.size) hle (by omega) (by omega)
          have hlow := hc.low
          have hhigh := hc.high
          refine ⟨r :: a, u, b, ⟨by rw [hc.split]; rfl, hc.type, ?_, ?_⟩, hlast, ?_⟩
          · rw [ramBytes_cons, if_pos htype]
            omega
          · rw [ramBytes_cons, if_pos htype]
            omega
          · rw [ramBytes_cons, if_pos htype, hstop]
            omega
      · rw [if_neg htype] at hmax havail ⊢
        obtain ⟨a, u, b, hc, hlast, hstop⟩ := @ih (some r) size hsize (by omega) (by omega)
        have hlow := hc.low
        have hhigh := hc.high
        refine ⟨r :: a, u, b, ⟨by rw [hc.split]; rfl, hc.type, ?_, ?_⟩, hlast, ?_⟩
        · rw [ramBytes_cons, if_neg htype]
          omega
        · rw [ramBytes_cons, if_neg htype]
          omega
        · rw [ramBytes_cons, if_neg htype, hstop]
          omega

/-- The limit lies in the entry at which the sum went over `opt_availmem`, as far above its start
as bytes are still wanted. -/
theorem availLimit_crossing (hwf : Wf map) (havail : avail.toNat < ramBytes map) :
    ∃ limit a r b, availLimit avail map = some limit ∧ Crossing avail 0 map a r b ∧
      limit.toNat = r.lo + (avail.toNat - ramBytes a) := by
  have hmax := hwf.ramBytes_lt
  have hzero : (0 : BitVec 64).toNat = 0 := rfl
  obtain ⟨a, r, b, hc, hlast, hsize⟩ := @sumRam_crossing map avail none 0
    (Nat.zero_le _) (by omega) (by omega)
  have hlow := hc.low
  have hhigh := hc.high
  have hr : r.hi < 2 ^ 64 := hwf.hi_lt (by simp [hc.split])
  have hstop : r.stop.toNat = r.lo + r.size.toNat := Entry.stop_toNat hr
  have hover : avail < (sumRam avail map none 0).2 := by
    show avail.toNat < (sumRam avail map none 0).2.toNat
    omega
  refine ⟨r.stop - ((sumRam avail map none 0).2 - avail), a, r, b, ?_, hc, ?_⟩
  · unfold availLimit
    rw [← Prod.mk.eta (p := sumRam avail map none 0), hlast]
    exact if_pos hover
  · have hdiff : ((sumRam avail map none 0).2 - avail).toNat = (sumRam avail map none 0).2.toNat - avail.toNat :=
      BitVec.toNat_sub_of_le (BitVec.le_of_lt hover)
    rw [BitVec.toNat_sub_of_le, hdiff]
    · omega
    · show ((sumRam avail map none 0).2 - avail).toNat ≤ r.stop.toNat
      omega

theorem Crossing.ncard_below (hwf : Wf map) (hc : Crossing avail 0 map a r b)
    (hlimit : limit.toNat = r.lo + (avail.toNat - ramBytes a)) :
    {z | z < limit.toNat ∧ HasType map z e820Ram}.ncard = avail.toNat := by
  have hlow := hc.low
  have hhigh := hc.high
  obtain ⟨rfl, htype, -, -⟩ := hc
  obtain ⟨ha, hrb, har⟩ := ascending_append.mp hwf.ascending
  obtain ⟨-, hb, -⟩ := ascending_cons.mp hrb
  have haddr : r.addr ≤ limit := by
    show r.lo ≤ limit.toNat
    omega
  have hlim : limit.toNat ≤ r.hi := by
    unfold Entry.hi Entry.lo at *
    omega
  have hhi : (Entry.between r.addr limit e820Ram).hi = limit.toNat := Entry.between_hi haddr
  have hpart : Ascending Entry.lo Entry.hi (a ++ [Entry.between r.addr limit e820Ram]) := by
    refine ascending_append.mpr ⟨ha, ?_, ?_⟩
    · simp only [ascending_cons, ascending_nil, hhi]
      exact ⟨haddr, by simp, trivial⟩
    · intro u hu v hv
      obtain rfl := List.mem_singleton.mp hv
      exact har u hu r (by simp)
  have hset : {z | z < limit.toNat ∧ HasType (a ++ r :: b) z e820Ram} =
      ramSet (a ++ [Entry.between r.addr limit e820Ram]) := by
    ext z
    show (z < limit.toNat ∧ HasType (a ++ r :: b) z e820Ram) ↔ HasType (a ++ [_]) z e820Ram
    simp only [HasType, tagged_append, tagged_cons, tagged_nil, or_false, Entry.between_lo,
      Entry.between_type, hhi, and_true]
    constructor
    · rintro ⟨hz, hin | ⟨hlo, -, -⟩ | ⟨u, hu, hlo, -, -⟩⟩
      · exact Or.inl hin
      · exact Or.inr ⟨hlo, hz⟩
      · have hu := hb u hu
        omega
    · rintro (⟨u, hu, hlo, hhi', ht⟩ | ⟨hlo, hz⟩)
      · have hur := har u hu r (by simp)
        exact ⟨by omega, Or.inl ⟨u, hu, hlo, hhi', ht⟩⟩
      · exact ⟨hz, Or.inr (Or.inl ⟨hlo, by omega, htype⟩)⟩
  rw [hset, ncard_ramSet hpart, ramBytes_append]
  have hsize : (Entry.between r.addr limit e820Ram).size.toNat = limit.toNat - r.lo :=
    BitVec.toNat_sub_of_le haddr
  rw [ramBytes_cons, if_pos Entry.between_type, hsize]
  simp only [ramBytes, List.map_nil, List.sum_nil] at hlow hlimit ⊢
  omega

/-- The loop ends for every limit and takes away the RAM above it and nothing else. The limit for
`opt_availmem` leaves that many bytes, the lowest ones. -/
theorem clipToLimit_clips (map : List Entry) (hwf : Wf map) :
    (∀ limit, ∃ map', clipToLimit limit map = some map' ∧ Clipped limit map map') ∧
    ∀ avail : BitVec 64, avail.toNat < ramBytes map →
      ∃ limit map', availLimit avail map = some limit ∧ clipToLimit limit map = some map' ∧
        (ramSet map').ncard = avail.toNat ∧ ramSet map' ⊆ ramSet map ∧
        ∀ y ∈ ramSet map', ∀ z ∈ ramSet map, z ∉ ramSet map' → y < z := by
  constructor
  · intro limit
    exact clipToLimit_clipped hwf limit
  · intro avail havail
    obtain ⟨limit, a, r, b, heq, hc, hlimit⟩ := availLimit_crossing hwf havail
    obtain ⟨map', hrun, hclip⟩ := clipToLimit_clipped hwf limit
    have hset : ramSet map' = {z | z < limit.toNat ∧ HasType map z e820Ram} := by
      ext z
      exact hclip.ram_iff
    refine ⟨limit, map', heq, hrun, ?_, ?_, ?_⟩
    · rw [hset]
      exact hc.ncard_below hwf hlimit
    · intro z hz
      exact (hclip.ram_iff.mp hz).2
    · intro y hy z hz hnot
      have hy := (hclip.ram_iff.mp hy).1
      have hz' : ¬z < limit.toNat := fun hlt => hnot (hclip.ram_iff.mpr ⟨hlt, hz⟩)
      omega

/-- Half a megabyte of the two is wanted. -/
theorem clipToLimit_clips_lowMemory :
    ∃ limit map', availLimit 0x80000 lowMemory = some limit ∧ clipToLimit limit lowMemory = some map' ∧
      (ramSet map').ncard = 0x80000 ∧ ramSet map' ⊆ ramSet lowMemory ∧
      ∀ y ∈ ramSet map', ∀ z ∈ ramSet lowMemory, z ∉ ramSet map' → y < z :=
  (clipToLimit_clips lowMemory lowMemory_wf).2 0x80000 (by decide)

end E820
