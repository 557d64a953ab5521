import MemoryMonitor.E820.Map

/-!
# Retyping a range

A call of `e820_change_range_type` that returns 1 has split the region of the range into its
pieces and merged neighbours, neither of which an address outside the range can see.
-/

namespace E820

open Regions

variable {map a b : List Entry} {r x y : Entry} {s e : BitVec 64} {orig new t : BitVec 32} {i z : ℕ}

theorem Entry.stop_toNat (h : r.hi < 2 ^ 64) : r.stop.toNat = r.hi := by
  rw [Entry.stop, BitVec.toNat_add]
  exact Nat.mod_eq_of_lt h

/-! ## The merge loop -/

/-- Two neighbours made one. -/
def Entry.join (x y : Entry) : Entry := { x with size := x.size + y.size }

theorem joins_iff (hx : x.hi < 2 ^ 64) :
    Joins Entry.lo Entry.hi Entry.type x y ↔ ¬(x.type ≠ y.type ∨ x.stop ≠ y.addr) := by
  have htouch : x.hi = y.lo ↔ x.stop = y.addr := by
    rw [← Entry.stop_toNat hx, Entry.lo, BitVec.toNat_inj]
  rw [Joins, htouch]
  tauto

theorem Entry.join_hi (hj : x.hi = y.lo) (hy : y.hi < 2 ^ 64) : (x.join y).hi = y.hi := by
  simp only [Entry.hi, Entry.lo, Entry.join] at hj hy ⊢
  rw [BitVec.toNat_add]
  omega

theorem mergeAdjacent_end (h : map.length ≤ i + 1) : mergeAdjacent map i = map := by
  rw [mergeAdjacent, dif_neg (by omega)]

theorem mergeAdjacent_step :
    mergeAdjacent (a ++ x :: y :: b) a.length =
      if x.type ≠ y.type ∨ x.stop ≠ y.addr then mergeAdjacent (a ++ x :: y :: b) (a.length + 1)
      else mergeAdjacent (a ++ x.join y :: b) a.length := by
  rw [mergeAdjacent]
  have hlen : a.length + 1 < (a ++ x :: y :: b).length := by simp
  have hx : (a ++ x :: y :: b)[a.length] = x := by simp
  have hy : (a ++ x :: y :: b)[a.length + 1] = y := by simp
  have hset : ((a ++ x :: y :: b).set a.length (x.join y)).eraseIdx (a.length + 1) =
      a ++ x.join y :: b := by
    rw [List.set_append_right _ _ (Nat.le_refl _), List.eraseIdx_append_of_length_le (by omega)]
    simp
  rw [dif_pos hlen, hx, hy]
  congr 1
  exact congrArg (mergeAdjacent · a.length) hset

theorem exists_two (h : i + 1 < map.length) :
    ∃ a x y b, map = a ++ x :: y :: b ∧ a.length = i := by
  refine ⟨map.take i, map[i], map[i + 1], map.drop (i + 2), ?_, ?_⟩
  · rw [← List.drop_eq_getElem_cons h, ← List.drop_eq_getElem_cons (by omega), List.take_append_drop]
  · simp only [List.length_take]
    omega

theorem take_next (a l : List Entry) (x : Entry) : (a ++ x :: l).take (a.length + 1) = a ++ [x] := by
  rw [List.take_length_add_append]
  simp

/-- The loop ends with neighbours joined, and with none left to join. -/
theorem mergeAdjacent_spec (n : ℕ) (hn : map.length - i ≤ n) (hw : ∀ r ∈ map, r.hi < 2 ^ 64)
    (hsep : Separated Entry.lo Entry.hi Entry.type (map.take (i + 1))) :
    Merges Entry.lo Entry.hi Entry.type map (mergeAdjacent map i) ∧
      Separated Entry.lo Entry.hi Entry.type (mergeAdjacent map i) := by
  induction n generalizing map i with
  | zero =>
      rw [mergeAdjacent_end (by omega)]
      rw [List.take_of_length_le (by omega)] at hsep
      exact ⟨Merges.done, hsep⟩
  | succ n ih =>
      rcases Nat.lt_or_ge (i + 1) map.length with hlt | hge
      · obtain ⟨a, x, y, b, rfl, rfl⟩ := exists_two hlt
        have hx : x.hi < 2 ^ 64 := hw x (by simp)
        have hy : y.hi < 2 ^ 64 := hw y (by simp)
        rw [take_next] at hsep
        simp only [List.length_append, List.length_cons] at hn
        rw [mergeAdjacent_step]
        by_cases hj : x.type ≠ y.type ∨ x.stop ≠ y.addr
        · rw [if_pos hj]
          refine ih ?_ hw ?_
          · simp only [List.length_append, List.length_cons]
            omega
          · have hnext := take_next (a ++ [x]) b y
            simp only [List.append_assoc, List.singleton_append, List.length_append,
              List.length_singleton] at hnext
            rw [hnext, ← List.singleton_append, ← List.append_assoc]
            exact hsep.next fun hxy => (joins_iff hx).mp hxy hj
        · rw [if_neg hj]
          have hxy : Joins Entry.lo Entry.hi Entry.type x y := (joins_iff hx).mpr hj
          have hhi : (x.join y).hi = y.hi := Entry.join_hi hxy.1 hy
          have hc : ∀ r ∈ a ++ x.join y :: b, r.hi < 2 ^ 64 := by
            intro r hr
            simp only [List.mem_append, List.mem_cons] at hr
            rcases hr with hr | rfl | hr
            · exact hw r (by simp [hr])
            · omega
            · exact hw r (by simp [hr])
          have hstep : Separated Entry.lo Entry.hi Entry.type ((a ++ x.join y :: b).take (a.length + 1)) := by
            rw [take_next]
            exact hsep.join rfl rfl
          have hlen : (a ++ x.join y :: b).length - a.length ≤ n := by
            simp only [List.length_append, List.length_cons]
            omega
          obtain ⟨hm, hs⟩ := ih hlen hc hstep
          have hlo : (x.join y).lo = x.lo := rfl
          exact ⟨Merges.step hxy hlo hhi rfl hm, hs⟩
      · rw [mergeAdjacent_end (by omega)]
        rw [List.take_of_length_le (by omega)] at hsep
        exact ⟨Merges.done, hsep⟩

/-! ## The pieces of a region -/

/-- The region from `s` to `e`. -/
def Entry.between (s e : BitVec 64) (t : BitVec 32) : Entry := { addr := s, size := e - s, type := t }

@[simp]
theorem Entry.between_lo : (Entry.between s e t).lo = s.toNat := rfl

@[simp]
theorem Entry.between_type : (Entry.between s e t).type = t := rfl

theorem Entry.between_hi (h : s ≤ e) : (Entry.between s e t).hi = e.toNat := by
  have hle : s.toNat ≤ e.toNat := h
  show s.toNat + (e - s).toNat = e.toNat
  rw [BitVec.toNat_sub_of_le h]
  omega

/-- What stands for a region of which `[s, e)` gets another type. -/
structure Pieces (r : Entry) (s e : BitVec 64) (new : BitVec 32) (m : List Entry) : Prop where
  ascending : Ascending Entry.lo Entry.hi m
  inside : ∀ p ∈ m, r.lo ≤ p.lo ∧ p.hi ≤ r.hi
  nonempty : s < e → ∀ p ∈ m, p.lo < p.hi
  hasType : ∀ z t, r.lo ≤ z ∧ z < r.hi →
    (HasType m z t ↔ if s.toNat ≤ z ∧ z < e.toNat then t = new else t = r.type)

section
variable (hr : r.hi < 2 ^ 64) (hs : r.addr ≤ s) (hse : s ≤ e) (he : e ≤ r.stop)
include hr hs hse he

theorem Entry.bounds : r.lo ≤ s.toNat ∧ s.toNat ≤ e.toNat ∧ e.toNat ≤ r.hi := by
  refine ⟨hs, hse, ?_⟩
  rw [← Entry.stop_toNat hr]
  exact he

theorem pieces_whole (hse' : s = r.addr ∧ e = r.stop) : Pieces r s e new [{ r with type := new }] := by
  obtain ⟨rfl, rfl⟩ := hse'
  have hstop := Entry.stop_toNat hr
  have hlo : r.addr.toNat = r.lo := rfl
  constructor
  · simp only [ascending_cons, ascending_nil, List.not_mem_nil]
    refine ⟨Nat.le_add_right _ _, by simp, trivial⟩
  · intro p hp
    obtain rfl := List.mem_singleton.mp hp
    exact ⟨Nat.le_refl _, Nat.le_refl _⟩
  · intro hlt p hp
    obtain rfl := List.mem_singleton.mp hp
    have hlt : r.addr.toNat < r.stop.toNat := hlt
    rw [hstop] at hlt
    exact hlt
  · intro z t hz
    rw [hstop, hlo, if_pos hz]
    simp only [HasType, tagged_cons, tagged_nil, or_false]
    constructor
    · intro h
      exact h.2.2.symm
    · rintro rfl
      exact ⟨hz.1, hz.2, rfl⟩

theorem pieces_begin (hs' : s = r.addr) (hne : e ≠ r.stop) :
    Pieces r s e new [Entry.between s e new, Entry.between e r.stop r.type] := by
  obtain ⟨-, hle, hhi⟩ := Entry.bounds hr hs hse he
  have hmid : (Entry.between s e new).hi = e.toNat := Entry.between_hi hse
  have htail : (Entry.between e r.stop r.type).hi = r.hi :=
    (Entry.between_hi he).trans (Entry.stop_toNat hr)
  have hstop : e.toNat ≠ r.hi := by
    rw [← Entry.stop_toNat hr]
    exact fun h => hne (BitVec.eq_of_toNat_eq h)
  have hlo : s.toNat = r.lo := congrArg BitVec.toNat hs'
  constructor
  · simp [ascending_cons, hmid, htail]
    omega
  · simp [hmid, htail]
    omega
  · intro hlt
    have hlt : s.toNat < e.toNat := hlt
    simp [hmid, htail]
    omega
  · intro z t hz
    simp only [HasType, tagged_cons, tagged_nil, or_false, Entry.between_lo, Entry.between_type,
      hmid, htail]
    grind

theorem pieces_end (hne : s ≠ r.addr) (he' : e = r.stop) :
    Pieces r s e new [Entry.between r.addr s r.type, Entry.between s e new] := by
  obtain ⟨hlo, hle, -⟩ := Entry.bounds hr hs hse he
  have hhead : (Entry.between r.addr s r.type).hi = s.toNat := Entry.between_hi hs
  have hmid : (Entry.between s e new).hi = e.toNat := Entry.between_hi hse
  have hhi : e.toNat = r.hi := (congrArg BitVec.toNat he').trans (Entry.stop_toNat hr)
  have hstart : s.toNat ≠ r.lo := fun h => hne (BitVec.eq_of_toNat_eq h)
  have haddr : r.addr.toNat = r.lo := rfl
  constructor
  · simp [ascending_cons, hhead, hmid]
    omega
  · simp [hhead, hmid]
    omega
  · intro hlt
    have hlt : s.toNat < e.toNat := hlt
    simp [hhead, hmid]
    omega
  · intro z t hz
    simp only [HasType, tagged_cons, tagged_nil, or_false, Entry.between_lo, Entry.between_type,
      hhead, hmid]
    grind

theorem pieces_middle (hne : s ≠ r.addr) (hne' : e ≠ r.stop) :
    Pieces r s e new
      [Entry.between r.addr s r.type, Entry.between s e new, Entry.between e r.stop r.type] := by
  obtain ⟨hlo, hle, hhi⟩ := Entry.bounds hr hs hse he
  have hhead : (Entry.between r.addr s r.type).hi = s.toNat := Entry.between_hi hs
  have hmid : (Entry.between s e new).hi = e.toNat := Entry.between_hi hse
  have htail : (Entry.between e r.stop r.type).hi = r.hi :=
    (Entry.between_hi he).trans (Entry.stop_toNat hr)
  have hstart : s.toNat ≠ r.lo := fun h => hne (BitVec.eq_of_toNat_eq h)
  have hstop : e.toNat ≠ r.hi := by
    rw [← Entry.stop_toNat hr]
    exact fun h => hne' (BitVec.eq_of_toNat_eq h)
  have haddr : r.addr.toNat = r.lo := rfl
  constructor
  · simp [ascending_cons, hhead, hmid, htail]
    omega
  · simp [hhead, hmid, htail]
    omega
  · intro hlt
    have hlt : s.toNat < e.toNat := hlt
    simp [hhead, hmid, htail]
    omega
  · intro z t hz
    simp only [HasType, tagged_cons, tagged_nil, or_false, Entry.between_lo, Entry.between_type,
      hhead, hmid, htail]
    grind

theorem splitEntry_pieces : Pieces r s e new (splitEntry r s e new) := by
  unfold splitEntry
  by_cases hwhole : s = r.addr ∧ e = r.stop
  · rw [if_pos hwhole]
    exact pieces_whole hr hs hse he hwhole
  · rw [if_neg hwhole]
    by_cases hs' : s = r.addr
    · have hne : e ≠ r.stop := fun h => hwhole ⟨hs', h⟩
      rw [if_pos hs']
      have h : Pieces r s e new _ := pieces_begin hr hs hse he hs' hne
      subst hs'
      exact h
    · rw [if_neg hs']
      by_cases he' : e = r.stop
      · rw [if_pos he']
        exact pieces_end hr hs hse he hs' he'
      · rw [if_neg he']
        exact pieces_middle hr hs hse he hs' he'

end

theorem splitEntry_length (r : Entry) (s e : BitVec 64) (new : BitVec 32) :
    (splitEntry r s e new).length =
      1 + ((if s = r.addr then 0 else 1) + if e = r.stop then 0 else 1) := by
  unfold splitEntry
  by_cases hs : s = r.addr
  · by_cases he : e = r.stop
    · simp [hs, he]
    · simp [hs, he]
  · by_cases he : e = r.stop
    · simp [hs, he]
    · simp [hs, he]

/-! ## The call -/

/-- The range lies in one region of the type. -/
def Holds (map : List Entry) (s e : BitVec 64) (orig : BitVec 32) (r : Entry) : Prop :=
  r ∈ map ∧ r.type = orig ∧ r.lo ≤ s.toNat ∧ e.toNat ≤ r.hi

/-- What a call that returns 1 has done. -/
structure Retyped (map : List Entry) (s e : BitVec 64) (orig new : BitVec 32) (map' : List Entry) :
    Prop where
  wf : Wf map'
  strict : map'.Pairwise fun u v => u.lo < v.lo
  touching : map'.Pairwise fun u v => ¬Joins Entry.lo Entry.hi Entry.type u v
  before : ∀ z, s.toNat ≤ z → z < e.toNat → ∀ t, HasType map z t ↔ t = orig
  after : ∀ z, s.toNat ≤ z → z < e.toNat → ∀ t, HasType map' z t ↔ t = new
  elsewhere : ∀ z, ¬(s.toNat ≤ z ∧ z < e.toNat) → ∀ t, HasType map' z t ↔ HasType map z t

/-- The first entry for which `p` holds, and what is before and after it. -/
structure First (p : Entry → Prop) (map a : List Entry) (r : Entry) (b : List Entry) : Prop where
  split : map = a ++ r :: b
  earlier : ∀ u ∈ a, ¬p u
  here : p r

theorem findIdx_first (p : Entry → Prop) [DecidablePred p] (map : List Entry) :
    (map[map.findIdx fun r => decide (p r)]? = none ∧ ∀ r ∈ map, ¬p r) ∨
      ∃ a r b, First p map a r b ∧ (map.findIdx fun r => decide (p r)) = a.length := by
  induction map with
  | nil => exact Or.inl ⟨rfl, by simp⟩
  | cons u map ih =>
      by_cases hu : p u
      · refine Or.inr ⟨[], u, map, ⟨rfl, by simp, hu⟩, ?_⟩
        simp [List.findIdx_cons, hu]
      · have hidx : ((u :: map).findIdx fun r => decide (p r)) = (map.findIdx fun r => decide (p r)) + 1 := by
          simp [List.findIdx_cons, hu]
        rcases ih with ⟨hnone, hall⟩ | ⟨a, r, b, h, hlen⟩
        · refine Or.inl ⟨?_, ?_⟩
          · rw [hidx]
            exact hnone
          · intro r hr
            rcases List.mem_cons.mp hr with rfl | hr
            · exact hu
            · exact hall r hr
        · refine Or.inr ⟨u :: a, r, b, ⟨?_, ?_, h.here⟩, ?_⟩
          · rw [h.split]
            rfl
          · intro v hv
            rcases List.mem_cons.mp hv with rfl | hv
            · exact hu
            · exact h.earlier v hv
          · rw [hidx, hlen]
            rfl

theorem First.get {p : Entry → Prop} (h : First p map a r b) : map[a.length]? = some r := by
  rw [h.split]
  simp

theorem First.replaceAt {p : Entry → Prop} (h : First p map a r b) (m : List Entry) :
    replaceAt map a.length m = a ++ (m ++ b) := by
  rw [h.split, E820.replaceAt, List.take_left, List.drop_append]
  simp

/-- The region includes the range. -/
def Includes (s e : BitVec 64) (r : Entry) : Prop := r.addr ≤ s ∧ e ≤ r.stop

instance : DecidablePred (Includes s e) := fun r => inferInstanceAs (Decidable (r.addr ≤ s ∧ e ≤ r.stop))

/-- The table has room for the pieces of the region. -/
def Room (map : List Entry) (s e : BitVec 64) (r : Entry) : Prop :=
  let extra := (if s = r.addr then 0 else 1) + if e = r.stop then 0 else 1
  extra = 0 ∨ map.length + extra ≤ e820Max

/-- The three ways through the call: no region includes the range, the first that does is not to
be retyped, or it is replaced by its pieces. -/
theorem e820ChangeRangeType_cases (map : List Entry) (s e : BitVec 64) (orig new : BitVec 32) :
    (e820ChangeRangeType map s e orig new = (false, map) ∧ ∀ r ∈ map, ¬Includes s e r) ∨
    ∃ a r b, First (Includes s e) map a r b ∧
      (e820ChangeRangeType map s e orig new = (false, map) ∧ ¬(r.type = orig ∧ Room map s e r) ∨
        r.type = orig ∧ Room map s e r ∧
          e820ChangeRangeType map s e orig new =
            (true, mergeAdjacent (a ++ (splitEntry r s e new ++ b)) 0)) := by
  unfold e820ChangeRangeType
  rcases findIdx_first (Includes s e) map with ⟨hnone, hall⟩ | ⟨a, r, b, h, hlen⟩
  · left
    have hnone' : map[map.findIdx fun r => decide (r.addr ≤ s ∧ e ≤ r.stop)]? = none := hnone
    constructor
    · simp only [hnone']
    · exact hall
  · right
    have hlen' : (map.findIdx fun r => decide (r.addr ≤ s ∧ e ≤ r.stop)) = a.length := hlen
    refine ⟨a, r, b, h, ?_⟩
    simp only [hlen', h.get, h.replaceAt, splitEntry_length]
    by_cases htype : r.type = orig
    · rw [if_neg (fun hne => hne htype)]
      by_cases hroom : Room map s e r
      · right
        refine ⟨htype, hroom, ?_⟩
        rw [if_neg]
        unfold Room at hroom
        dsimp only at hroom
        omega
      · left
        refine ⟨?_, fun hr => hroom hr.2⟩
        rw [if_pos]
        unfold Room at hroom
        dsimp only at hroom
        omega
    · left
      rw [if_pos htype]
      exact ⟨rfl, fun hr => htype hr.1⟩

theorem Wf.hi_lt (h : Wf map) (hr : r ∈ map) : r.hi < 2 ^ 64 := h.noWrap r hr

/-- Inside a region the region's type is the only one. -/
theorem Wf.hasType_iff (h : Wf map) (hr : r ∈ map) (hz : r.lo ≤ z ∧ z < r.hi) :
    HasType map z t ↔ t = r.type := by
  constructor
  · intro ht
    exact h.ascending.tagged_unique ht ⟨r, hr, hz.1, hz.2, rfl⟩
  · rintro rfl
    exact ⟨r, hr, hz.1, hz.2, rfl⟩

/-- The table with a region in pieces, before neighbours are merged. -/
structure Cut (map : List Entry) (r : Entry) (s e : BitVec 64) (new : BitVec 32) (map' : List Entry) :
    Prop where
  ascending : Ascending Entry.lo Entry.hi map'
  noWrap : ∀ p ∈ map', p.hi < 2 ^ 64
  fits : map'.length ≤ e820Max
  hasType : ∀ z t, HasType map' z t ↔
    if r.lo ≤ z ∧ z < r.hi then (if s.toNat ≤ z ∧ z < e.toNat then t = new else t = r.type)
    else HasType map z t
  strict : s < e → (map.Pairwise fun u v => u.lo < v.lo) → map'.Pairwise fun u v => u.lo < v.lo

theorem Wf.cut (hwf : Wf map) (hse : s ≤ e) (h : First (Includes s e) map a r b) (hroom : Room map s e r) :
    Cut map r s e new (a ++ (splitEntry r s e new ++ b)) := by
  obtain ⟨rfl, -, hs, he⟩ := h
  have hr : r.hi < 2 ^ 64 := hwf.hi_lt (by simp)
  have hp : Pieces r s e new (splitEntry r s e new) := splitEntry_pieces hr hs hse he
  constructor
  · exact hwf.ascending.replace hp.ascending hp.inside
  · intro p hmem
    simp only [List.mem_append] at hmem
    rcases hmem with hmem | hmem | hmem
    · exact hwf.hi_lt (by simp [hmem])
    · have hle := (hp.inside p hmem).2
      omega
    · exact hwf.hi_lt (by simp [hmem])
  · have hfits := hwf.fits
    unfold Room at hroom
    dsimp only at hroom
    simp only [List.length_append, List.length_cons, splitEntry_length] at hfits hroom ⊢
    omega
  · intro z t
    by_cases hz : r.lo ≤ z ∧ z < r.hi
    · rw [if_pos hz]
      exact (hwf.ascending.tagged_inside hz).trans (hp.hasType z t hz)
    · rw [if_neg hz]
      exact tagged_replace hz hp.inside
  · intro hlt hstrict
    have hpieces : (splitEntry r s e new).Pairwise fun u v => u.lo < v.lo := by
      refine List.Pairwise.imp_of_mem ?_ hp.ascending.apart
      intro u v hu _ huv
      exact Nat.lt_of_lt_of_le (hp.nonempty hlt u hu) huv
    obtain ⟨ha, hrb, har⟩ := List.pairwise_append.mp hstrict
    obtain ⟨-, hb⟩ := List.pairwise_cons.mp hrb
    have hbound : ∀ v ∈ b, r.hi ≤ v.lo :=
      (ascending_cons.mp (ascending_append.mp hwf.ascending).2.1).2.1
    refine List.pairwise_append.mpr ⟨ha, List.pairwise_append.mpr ⟨hpieces, hb, ?_⟩, ?_⟩
    · intro u hu v hv
      have hu' := hp.nonempty hlt u hu
      have hin := (hp.inside u hu).2
      have hv' := hbound v hv
      omega
    · intro u hu v hv
      rcases List.mem_append.mp hv with hv | hv
      · exact Nat.lt_of_lt_of_le (har u hu r (by simp)) (hp.inside v hv).1
      · exact har u hu v (by simp [hv])

/-- Merging is all that happens afterwards. -/
theorem Cut.merge {map' : List Entry} (h : Cut map r s e new map') :
    Merges Entry.lo Entry.hi Entry.type map' (mergeAdjacent map' 0) ∧
      Separated Entry.lo Entry.hi Entry.type (mergeAdjacent map' 0) := by
  refine mergeAdjacent_spec map'.length (by omega) h.noWrap ?_
  cases map' with
  | nil => exact List.isChain_nil
  | cons p _ => exact List.isChain_singleton p

theorem Cut.wf_merge {map' : List Entry} (h : Cut map r s e new map') : Wf (mergeAdjacent map' 0) := by
  obtain ⟨hm, -⟩ := h.merge
  constructor
  · exact h.ascending.merges hm
  · exact hm.forall_hi (P := fun n => n < 2 ^ 64) h.noWrap
  · exact Nat.le_trans hm.length_le h.fits

theorem Cut.hasType_merge {map' : List Entry} (h : Cut map r s e new map') :
    HasType (mergeAdjacent map' 0) z t ↔
      if r.lo ≤ z ∧ z < r.hi then (if s.toNat ≤ z ∧ z < e.toNat then t = new else t = r.type)
      else HasType map z t :=
  (h.ascending.tagged_merges h.merge.1).trans (h.hasType z t)

/-- On a table in strictly ascending order, a call that returns 1 retypes the range and nothing else,
and keeps that order. A call that returns 0 leaves the map as it was, and does so only where no region
of the type holds the range or room is short. -/
theorem e820ChangeRangeType_retypes (map : List Entry) (hwf : Wf map)
    (hstrict : map.Pairwise fun u v => u.lo < v.lo) (s e : BitVec 64) (hse : s < e) (orig new : BitVec 32) :
    ((e820ChangeRangeType map s e orig new).1 = true →
      Retyped map s e orig new (e820ChangeRangeType map s e orig new).2) ∧
    ((e820ChangeRangeType map s e orig new).1 = false →
      (e820ChangeRangeType map s e orig new).2 = map ∧
        ∀ r, Holds map s e orig r → ¬Room map s e r) := by
  have hle : s ≤ e := BitVec.le_of_lt hse
  have hlt : s.toNat < e.toNat := hse
  have hiff : ∀ r ∈ map, Includes s e r ↔ r.lo ≤ s.toNat ∧ e.toNat ≤ r.hi := by
    intro r hr
    rw [← Entry.stop_toNat (hwf.hi_lt hr)]
    exact Iff.rfl
  rcases e820ChangeRangeType_cases map s e orig new with
    ⟨heq, hnone⟩ | ⟨a, r, b, h, ⟨heq, hnot⟩ | ⟨htype, hroom, heq⟩⟩
  · rw [heq]
    refine ⟨by simp, fun _ => ⟨rfl, ?_⟩⟩
    rintro r ⟨hr, -, hin⟩ -
    exact hnone r hr ((hiff r hr).mpr hin)
  · rw [heq]
    refine ⟨by simp, fun _ => ⟨rfl, ?_⟩⟩
    have hr : r ∈ map := by simp [h.split]
    obtain ⟨hlo, hhi⟩ := (hiff r hr).mp h.here
    rintro r' ⟨hr', htype', hlo', hhi'⟩ hroom
    -- two regions that include the range are one
    rcases hwf.ascending.cases hr hr' with rfl | hcase | hcase
    · exact hnot ⟨htype', hroom⟩
    · omega
    · omega
  · rw [heq]
    refine ⟨fun _ => ?_, by simp⟩
    have hr : r ∈ map := by simp [h.split]
    obtain ⟨hlo, hhi⟩ := (hiff r hr).mp h.here
    have hc : Cut map r s e new (a ++ (splitEntry r s e new ++ b)) := hwf.cut hle h hroom
    obtain ⟨hm, hsep⟩ := hc.merge
    have hstrict' := hm.pairwise_lo (hc.strict hse hstrict)
    constructor
    · exact hc.wf_merge
    · exact hstrict'
    · exact hsep.pairwise hc.wf_merge.ascending hstrict'
    · intro z hz hz' t
      rw [hwf.hasType_iff hr ⟨by omega, by omega⟩, htype]
    · intro z hz hz' t
      rw [hc.hasType_merge, if_pos ⟨by omega, by omega⟩, if_pos ⟨hz, hz'⟩]
    · intro z hz t
      rw [hc.hasType_merge]
      by_cases hin : r.lo ≤ z ∧ z < r.hi
      · rw [if_pos hin, if_neg hz, hwf.hasType_iff hr hin]
      · rw [if_neg hin]

/-- Two megabytes of RAM, and the hole for devices above. -/
def lowMemory : List Entry := [⟨0, 0x200000, e820Ram⟩, ⟨0xFEC00000, 0x1000, e820Reserved⟩]

theorem lowMemory_wf : Wf lowMemory := by
  constructor
  · constructor
    · decide
    · decide
  · decide
  · decide

/-- The first megabyte's upper part is reserved: RAM is left on both sides. -/
theorem e820ChangeRangeType_retypes_lowMemory :
    Retyped lowMemory 0xA0000 0x100000 e820Ram e820Reserved
      (e820ChangeRangeType lowMemory 0xA0000 0x100000 e820Ram e820Reserved).2 :=
  (e820ChangeRangeType_retypes lowMemory lowMemory_wf (by decide) 0xA0000 0x100000 (by decide) e820Ram
    e820Reserved).1 (by decide)

end E820
