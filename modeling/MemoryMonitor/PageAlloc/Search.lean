import MemoryMonitor.PageAlloc.Runs

/-!
# The search of `alloc_heap_pages`

The nodes are tried one after the other: the one to start with, those of the affinity mask in a circle, and
then the other nodes that are online. The loop has no counter. It ends because a circle comes back to where
it has started, and there are at most two of them (`tries_search`); between them, every node is tried that
is a `Candidate`.
-/

namespace PageAlloc

open Buddy (Mem)

variable {m : Machine} {w : World} {mask : Nat → Bool}

/-! ## Node masks -/

theorem firstNode_spec (h : firstNode mask < maxNumnodes) :
    mask (firstNode mask) = true ∧ ∀ n, n < firstNode mask → mask n = false := by
  unfold firstNode at h ⊢
  cases hf : (List.range maxNumnodes).find? mask with
  | none =>
    rw [hf] at h
    exact absurd h (Nat.lt_irrefl _)
  | some n =>
    rcases List.find?_range_eq_some.mp hf with ⟨hn, -, hlow⟩
    exact ⟨hn, fun k hk => by simpa using hlow k hk⟩

theorem firstNode_eq (h : firstNode mask = maxNumnodes) {n : Nat} (hn : n < maxNumnodes) :
    mask n = false := by
  unfold firstNode at h
  cases hf : (List.range maxNumnodes).find? mask with
  | none =>
    have hno := List.find?_eq_none.mp hf n (List.mem_range.mpr hn)
    simpa using hno
  | some k =>
    rw [hf] at h
    have hk := List.mem_range.mp (List.mem_of_find?_eq_some hf)
    rw [Option.getD_some] at h
    omega

theorem nextNode_spec {node : Nat} (h : nextNode node mask < maxNumnodes) :
    mask (nextNode node mask) = true ∧ node < nextNode node mask ∧
      ∀ n, node < n → n < nextNode node mask → mask n = false := by
  unfold nextNode at h ⊢
  cases hf : (List.range maxNumnodes).find? (fun n => node < n && mask n) with
  | none =>
    rw [hf] at h
    exact absurd h (Nat.lt_irrefl _)
  | some k =>
    rcases List.find?_range_eq_some.mp hf with ⟨hk, -, hlow⟩
    rcases Bool.and_eq_true_iff.mp hk with ⟨hlt, hmask⟩
    refine ⟨hmask, of_decide_eq_true hlt, ?_⟩
    intro n hn hnk
    have hno := hlow n hnk
    simpa [hn] using hno

theorem nextNode_none {node : Nat} (h : maxNumnodes ≤ nextNode node mask) {n : Nat} (hn : node < n)
    (hlt : n < maxNumnodes) : mask n = false := by
  unfold nextNode at h
  cases hf : (List.range maxNumnodes).find? (fun n => node < n && mask n) with
  | none =>
    have hno := List.find?_eq_none.mp hf n (List.mem_range.mpr hlt)
    simpa [hn] using hno
  | some k =>
    rw [hf] at h
    have hk := List.mem_range.mp (List.mem_of_find?_eq_some hf)
    rw [Option.getD_some] at h
    omega

/-! ## The loop over the nodes -/

/-- The nodes that are tried when none has a block; `none` where that is not over after `fuel` nodes. -/
def tries (m : Machine) (exactNode : Bool) : Nat → Try → Option (List Nat)
  | 0, _ => none
  | fuel + 1, s =>
    match nextTry m exactNode s with
    | none => some [s.node]
    | some s' => (tries m exactNode fuel s').map (s.node :: ·)

theorem findNode_eq_none_iff {r : Request} {exactNode : Bool} {fuel : Nat} {s : Try} {l : List Nat}
    (hs : s.node < maxNumnodes) (h : tries m exactNode fuel s = some l) :
    findNode m w r exactNode fuel s = .ok none ↔
      ∀ n ∈ l, findZone w n r.order r.zoneLo r.zoneHi = none := by
  induction fuel generalizing s l with
  | zero => cases h
  | succ fuel ih =>
    unfold findNode
    rw [if_neg (Nat.not_le.mpr hs)]
    unfold tries at h
    cases hz : findZone w s.node r.order r.zoneLo r.zoneHi with
    | some q =>
      refine iff_of_false (by simp) ?_
      intro hall
      have hmem : s.node ∈ l := by
        cases hn : nextTry m exactNode s with
        | none =>
          rw [hn] at h
          cases h
          exact List.mem_singleton_self _
        | some s' =>
          rw [hn] at h
          rcases Option.map_eq_some_iff.mp h with ⟨l', -, rfl⟩
          exact List.mem_cons_self
      rw [hall s.node hmem] at hz
      cases hz
    | none =>
      cases hn : nextTry m exactNode s with
      | none =>
        rw [hn] at h
        cases h
        refine iff_of_true rfl ?_
        intro n hmem
        rw [List.mem_singleton.mp hmem]
        exact hz
      | some s' =>
        rw [hn] at h
        rcases Option.map_eq_some_iff.mp h with ⟨l', hl', rfl⟩
        rw [ih (nextTry_lt hs hn) hl', List.forall_mem_cons]
        exact (and_iff_right hz).symm

theorem tries_mono {exactNode : Bool} {fuel fuel' : Nat} {s : Try} {l : List Nat}
    (h : tries m exactNode fuel s = some l) (hle : fuel ≤ fuel') : tries m exactNode fuel' s = some l := by
  induction fuel generalizing fuel' s l with
  | zero => cases h
  | succ fuel ih =>
    cases fuel' with
    | zero => omega
    | succ fuel' =>
      unfold tries at h ⊢
      cases hn : nextTry m exactNode s with
      | none =>
        rw [hn] at h
        exact h
      | some s' =>
        rw [hn] at h
        rcases Option.map_eq_some_iff.mp h with ⟨l', hl', rfl⟩
        dsimp only
        rw [ih hl' (by omega)]
        rfl

/-! ## The circle -/

/-- How far a node is from the first one on the way up and round. -/
def circlePos (first n : Nat) : Nat := if first ≤ n then n - first else n + maxNumnodes - first

/-- The next node is the next one on the circle, and the first one comes after all others. -/
theorem pickNode_circle {node first : Nat} (hnode : mask node = true) (hfirst : mask first = true)
    (hlt : node < maxNumnodes) (hflt : first < maxNumnodes) :
    (pickNode mask node first).2 = first ∧ mask (pickNode mask node first).1 = true ∧
      (pickNode mask node first).1 < maxNumnodes ∧
      (((pickNode mask node first).1 = first ∧
          ∀ n, n < maxNumnodes → mask n = true → circlePos first n ≤ circlePos first node) ∨
        ((pickNode mask node first).1 ≠ first ∧
          circlePos first node < circlePos first (pickNode mask node first).1 ∧
          ∀ n, n < maxNumnodes → mask n = true → circlePos first node < circlePos first n →
            circlePos first (pickNode mask node first).1 ≤ circlePos first n)) := by
  unfold pickNode
  rw [if_neg (by simp [hnode])]
  by_cases hlast : nextNode node mask ≥ maxNumnodes
  · -- the circle goes on at the lowest node of the mask
    rw [if_pos hlast]
    have hno : ∀ n, node < n → n < maxNumnodes → mask n = false := fun n => nextNode_none hlast
    have hin : firstNode mask < maxNumnodes := by
      by_contra hge
      have heq := Nat.le_antisymm (firstNode_le mask) (Nat.not_lt.mp hge)
      rw [firstNode_eq heq hflt] at hfirst
      cases hfirst
    rcases firstNode_spec hin with ⟨hmask, hlow⟩
    refine ⟨rfl, hmask, hin, ?_⟩
    generalize firstNode mask = k at hmask hlow hin
    have hkf : k ≤ first := by
      by_contra hlt'
      rw [hlow first (by omega)] at hfirst
      cases hfirst
    have hfn : first ≤ node := by
      by_contra hlt'
      rw [hno first (by omega) hflt] at hfirst
      cases hfirst
    have hin' : ∀ n, n < maxNumnodes → mask n = true → k ≤ n ∧ n ≤ node := by
      intro n hn hm
      constructor
      · by_contra hlt'
        rw [hlow n (by omega)] at hm
        cases hm
      · by_contra hlt'
        rw [hno n (by omega) hn] at hm
        cases hm
    unfold circlePos
    by_cases hkeq : k = first
    · left
      refine ⟨hkeq, ?_⟩
      intro n hn hm
      have := hin' n hn hm
      rw [if_pos (by omega), if_pos hfn]
      omega
    · right
      refine ⟨hkeq, ?_, ?_⟩
      · rw [if_pos hfn, if_neg (by omega)]
        omega
      · intro n hn hm hlt'
        have := hin' n hn hm
        rw [if_neg (by omega)]
        rw [if_pos hfn] at hlt'
        split at hlt'
        · omega
        · next hge =>
          rw [if_neg hge]
          omega
  · rw [if_neg hlast]
    rcases nextNode_spec (Nat.not_le.mp hlast) with ⟨hmask, hlt', hno⟩
    dsimp only
    refine ⟨rfl, hmask, Nat.not_le.mp hlast, ?_⟩
    have hin := Nat.not_le.mp hlast
    generalize nextNode node mask = k at hmask hlt' hno hin
    have hout : ∀ n, mask n = true → n ≤ node ∨ k ≤ n := by
      intro n hm
      by_contra hmid
      rw [hno n (by omega) (by omega)] at hm
      cases hm
    have hfout := hout first hfirst
    unfold circlePos
    by_cases hkeq : k = first
    · left
      refine ⟨hkeq, ?_⟩
      intro n hn hm
      have := hout n hm
      rw [if_neg (show ¬first ≤ node by omega)]
      split
      · omega
      · omega
    · right
      refine ⟨hkeq, ?_, ?_⟩
      · split
        · rw [if_pos (by omega)]
          omega
        · rw [if_neg (by omega)]
          omega
      · intro n hn hm hpos
        have := hout n hm
        split at hpos
        · split at hpos
          · rw [if_pos (by omega), if_pos (by omega)]
            omega
          · rw [if_pos (by omega), if_neg (by omega)]
            omega
        · split at hpos
          · omega
          · rw [if_neg (by omega), if_neg (by omega)]
            omega

theorem tries_circle {first : Nat} {retry : Bool} (hfirst : mask first = true) (hflt : first < maxNumnodes)
    {fuel : Nat} {after : List Nat}
    (hafter : match nextCircle m mask retry with
      | none => after = []
      | some s' => tries m false fuel s' = some after)
    (left node : Nat) (hnode : mask node = true) (hlt : node < maxNumnodes)
    (hleft : maxNumnodes - circlePos first node ≤ left) :
    ∃ l, tries m false (fuel + left) ⟨node, first, mask, retry⟩ = some l ∧
      ∀ n, n ∈ l ↔ (n < maxNumnodes ∧ mask n = true ∧ circlePos first node ≤ circlePos first n) ∨ n ∈ after := by
  have hposlt : ∀ n, n < maxNumnodes → circlePos first n < maxNumnodes := by
    intro n hn
    unfold circlePos
    split
    · omega
    · omega
  have hinj : ∀ n k, n < maxNumnodes → k < maxNumnodes → circlePos first n = circlePos first k → n = k := by
    intro n k hn hk heq
    unfold circlePos at heq
    split at heq
    · split at heq
      · omega
      · omega
    · split at heq
      · omega
      · omega
  induction left generalizing node with
  | zero =>
    have := hposlt node hlt
    omega
  | succ left ih =>
    rcases pickNode_circle hnode hfirst hlt hflt with ⟨hsnd, hmask, hklt, hnext⟩
    rw [← Nat.add_assoc]
    unfold tries
    have hstep : nextTry m false ⟨node, first, mask, retry⟩ =
        if (pickNode mask node first).1 = first then nextCircle m mask retry
        else some ⟨(pickNode mask node first).1, first, mask, retry⟩ := by
      unfold nextTry
      dsimp only
      rw [if_neg Bool.false_ne_true, if_neg (fun h => h.1 hnode), hsnd]
    rw [hstep]
    rcases hnext with ⟨hback, hall⟩ | ⟨hne, hpos, hmin⟩
    · -- the circle is closed
      rw [if_pos hback]
      have hself : ∀ n, n = node ↔
          n < maxNumnodes ∧ mask n = true ∧ circlePos first node ≤ circlePos first n := by
        intro n
        constructor
        · rintro rfl
          exact ⟨hlt, hnode, Nat.le_refl _⟩
        · rintro ⟨hn, hm, hle⟩
          exact hinj n node hn hlt (Nat.le_antisymm (hall n hn hm) hle)
      cases hc : nextCircle m mask retry with
      | none =>
        rw [hc] at hafter
        dsimp only at hafter ⊢
        refine ⟨_, rfl, ?_⟩
        intro n
        rw [hafter, List.mem_singleton, ← hself]
        simp
      | some s' =>
        rw [hc] at hafter
        dsimp only at hafter ⊢
        rw [tries_mono hafter (Nat.le_add_right fuel left)]
        refine ⟨_, rfl, ?_⟩
        intro n
        rw [List.mem_cons, hself]
    · rw [if_neg hne]
      rcases ih _ hmask hklt (by have := hposlt _ hklt; omega) with ⟨l, hl, hmem⟩
      dsimp only
      rw [hl]
      refine ⟨_, rfl, ?_⟩
      intro n
      rw [List.mem_cons, hmem, ← or_assoc]
      refine or_congr_left ?_
      constructor
      · rintro (rfl | ⟨hn, hm, hle⟩)
        · exact ⟨hlt, hnode, Nat.le_refl _⟩
        · exact ⟨hn, hm, by omega⟩
      · rintro ⟨hn, hm, hle⟩
        by_cases heq : circlePos first node = circlePos first n
        · exact .inl (hinj n node hn hlt heq.symm)
        · exact .inr ⟨hn, hm, hmin n hn hm (by omega)⟩

theorem tries_wholeCircle {retry : Bool} {fuel : Nat} {after : List Nat}
    (hafter : match nextCircle m mask retry with
      | none => after = []
      | some s' => tries m false fuel s' = some after) {node : Nat} (hnode : mask node = true)
    (hlt : node < maxNumnodes) :
    ∃ l, tries m false (fuel + maxNumnodes) ⟨node, node, mask, retry⟩ = some l ∧
      ∀ n, n ∈ l ↔ (n < maxNumnodes ∧ mask n = true) ∨ n ∈ after := by
  have hzero : circlePos node node = 0 := by
    unfold circlePos
    simp
  rcases tries_circle hnode hlt hafter maxNumnodes node hnode hlt (Nat.sub_le ..) with ⟨l, hl, hmem⟩
  refine ⟨l, hl, ?_⟩
  intro n
  rw [hmem, hzero]
  simp

theorem tries_otherNodes (m : Machine) (mask : Nat → Bool) :
    ∃ after, (match nextCircle m mask false with
        | none => after = []
        | some s' => tries m false maxNumnodes s' = some after) ∧
      ∀ n, n ∈ after ↔ n < maxNumnodes ∧ m.nodeOnline n = true ∧ mask n = false := by
  unfold nextCircle
  rw [if_neg Bool.false_ne_true]
  by_cases hnone : (firstNode fun n => m.nodeOnline n && !mask n) ≥ maxNumnodes
  · rw [if_pos hnone]
    refine ⟨[], rfl, ?_⟩
    intro n
    refine iff_of_false List.not_mem_nil ?_
    rintro ⟨hn, hon, hno⟩
    have heq := Nat.le_antisymm (firstNode_le _) hnone
    have := firstNode_eq heq hn
    simp [hon, hno] at this
  · rw [if_neg hnone]
    have hlt := Nat.not_le.mp hnone
    rcases firstNode_spec hlt with ⟨hmask, -⟩
    rcases @tries_wholeCircle m (fun n => m.nodeOnline n && !mask n) true 0 [] rfl _ hmask hlt with
      ⟨l, hl, hmem⟩
    rw [Nat.zero_add] at hl
    refine ⟨l, hl, ?_⟩
    intro n
    rw [hmem]
    simp

/-! ## The whole search -/

/-- The nodes that a request may be met from. -/
def Candidate (m : Machine) (r : Request) (n : Nat) : Prop :=
  n = (r.start m).1 ∨
    ((r.start m).2 = false ∧ n < maxNumnodes ∧ (m.nodeOnline n = true ∨ r.nodemask m n = true))

/-- The loop ends, and has tried the candidates by then. The bits of a node mask are those below
`MAX_NUMNODES`. -/
theorem tries_search (r : Request) (hbits : ∀ n, r.nodemask m n = true → n < maxNumnodes) :
    ∃ l, tries m (r.start m).2 (4 * maxNumnodes) (r.first m) = some l ∧
      ∀ n, n ∈ l ↔ Candidate m r n := by
  unfold Candidate Request.first
  generalize (r.start m).1 = start
  generalize r.nodemask m = mask at hbits
  cases (r.start m).2 with
  | true =>
    refine ⟨[start], ?_, ?_⟩
    · rfl
    · intro n
      simp
  | false =>
    rcases tries_otherNodes m mask with ⟨after, hafter, hmem⟩
    by_cases hin : mask start = true
    · have hlt := hbits start hin
      rcases tries_wholeCircle hafter hin hlt with ⟨l, hl, hall⟩
      refine ⟨l, tries_mono hl (by decide), ?_⟩
      intro n
      rw [hall, hmem]
      constructor
      · rintro (⟨hn, hm⟩ | ⟨hn, hon, -⟩)
        · exact .inr ⟨rfl, hn, .inr hm⟩
        · exact .inr ⟨rfl, hn, .inl hon⟩
      · rintro (rfl | ⟨-, hn, hon⟩)
        · exact .inl ⟨hlt, hin⟩
        · cases hm : mask n with
          | true => exact .inl ⟨hn, rfl⟩
          | false => exact .inr ⟨hn, hon.resolve_right (by simp [hm]), rfl⟩
    · have hstep : ∀ fuel, tries m false (fuel + 1) ⟨start, start, mask, false⟩ =
          match (if firstNode mask < maxNumnodes then
            some (⟨firstNode mask, firstNode mask, mask, false⟩ : Try) else nextCircle m mask false) with
          | none => some [start]
          | some s' => (tries m false fuel s').map (start :: ·) := by
        intro fuel
        conv => lhs; unfold tries nextTry
        rw [if_neg Bool.false_ne_true]
        by_cases hfirst : firstNode mask < maxNumnodes
        · rw [if_pos ⟨hin, hfirst⟩, if_pos hfirst]
        · rw [if_neg (fun h => hfirst h.2), if_neg hfirst]
          unfold pickNode
          rw [if_pos hin, if_pos rfl]
      by_cases hfirst : firstNode mask < maxNumnodes
      · -- the start is outside the mask
        rcases firstNode_spec hfirst with ⟨hmask, -⟩
        rcases tries_wholeCircle hafter hmask hfirst with ⟨l, hl, hall⟩
        refine ⟨start :: l, ?_, ?_⟩
        · refine @tries_mono m false (maxNumnodes + maxNumnodes + 1) _ _ _ ?_ (by decide)
          rw [hstep, if_pos hfirst]
          dsimp only
          rw [hl]
          rfl
        · intro n
          rw [List.mem_cons, hall, hmem]
          refine or_congr_right ?_
          constructor
          · rintro (⟨hn, hm⟩ | ⟨hn, hon, -⟩)
            · exact ⟨rfl, hn, .inr hm⟩
            · exact ⟨rfl, hn, .inl hon⟩
          · rintro ⟨-, hn, hon⟩
            cases hm : mask n with
            | true => exact .inl ⟨hn, rfl⟩
            | false => exact .inr ⟨hn, hon.resolve_right (by simp [hm]), rfl⟩
      · -- the mask is empty
        have hempty : ∀ n, n < maxNumnodes → mask n = false := fun n hn =>
          firstNode_eq (Nat.le_antisymm (firstNode_le mask) (Nat.not_lt.mp hfirst)) hn
        have hlist : tries m false (maxNumnodes + 1) ⟨start, start, mask, false⟩ = some (start :: after) := by
          rw [hstep, if_neg hfirst]
          cases hc : nextCircle m mask false with
          | none =>
            rw [hc] at hafter
            dsimp only at hafter ⊢
            rw [hafter]
          | some s' =>
            rw [hc] at hafter
            dsimp only at hafter ⊢
            rw [hafter]
            rfl
        refine ⟨start :: after, tries_mono hlist (by decide), ?_⟩
        intro n
        rw [List.mem_cons, hmem]
        refine or_congr_right ?_
        constructor
        · rintro ⟨hn, hon, -⟩
          exact ⟨rfl, hn, .inl hon⟩
        · rintro ⟨-, hn, hon⟩
          have hm := hempty n hn
          exact ⟨hn, hon.resolve_right (by simp [hm]), hm⟩

/-! ## The free blocks -/

/-- The invariant of the lists of free blocks; the lists of a node without a heap are empty. -/
structure Stocked (m : Machine) (w : World) : Prop where
  good : Good m w.page w.heap (fun _ => False) (fun _ => False)
  counts : Counts w.heap w.avail w.totalAvailPages 0 0 0
  unready : ∀ n, w.ready n = false → ∀ z o, w.heap n z o = []

theorem Inv.stocked (h : Inv m w) : Stocked m w := ⟨h.good, h.counts, h.book.unready⟩

variable {n z o j order : Nat}

/-- A block makes up a part of what its zone has. -/
theorem le_weight {heap : Lists} {h : Nat} (hh : h ∈ heap n z o) (ho : o ≤ maxOrder) :
    (2 : Int) ^ o ≤ weight heap n z := by
  have hpos : ∀ k, (0 : Int) ≤ 2 ^ k * ((heap n z k).length : Int) := by
    intro k
    exact Int.mul_nonneg (Int.pow_nonneg (by decide)) (Int.natCast_nonneg _)
  have hone : (1 : Int) ≤ ((heap n z o).length : Int) := by
    have := List.length_pos_of_mem hh
    omega
  have hsingle := Finset.single_le_sum (f := fun k => (2 : Int) ^ k * ((heap n z k).length : Int))
    (fun k _ => hpos k) (Finset.mem_range.mpr (Nat.lt_succ_of_le ho))
  have hpow : (0 : Int) ≤ 2 ^ o := Int.pow_nonneg (by decide)
  calc (2 : Int) ^ o = 2 ^ o * 1 := (Int.mul_one _).symm
    _ ≤ 2 ^ o * ((heap n z o).length : Int) := Int.mul_le_mul_of_nonneg_left hone hpow
    _ ≤ weight heap n z := hsingle

/-- A zone fails a request only if it has no block for it: where there is one, the counter is large
enough. -/
theorem Stocked.tryZone_eq_none_iff (hs : Stocked m w) :
    tryZone w n order z = none ↔ ∀ o h, order ≤ o → h ∉ w.heap n z o := by
  constructor
  · intro hnone o h ho hh
    have hle := (hs.good.block n z o h hh).le
    have hready : w.ready n = true := by
      by_contra hno
      rw [hs.unready n (by simpa using hno)] at hh
      exact List.not_mem_nil hh
    have havail : (2 : Int) ^ order ≤ w.avail n z := by
      have hw := le_weight hh hle
      have he := hs.counts.each n z
      have hpow : (2 : Int) ^ order ≤ 2 ^ o := by exact_mod_cast Nat.pow_le_pow_right (by decide) ho
      have hzero : (if n = 0 ∧ z = 0 then (0 : Int) else 0) = 0 := ite_self 0
      rw [hzero] at he
      omega
    unfold tryZone at hnone
    rw [if_pos ⟨hready, havail⟩] at hnone
    have hno := List.find?_eq_none.mp hnone o (List.mem_range'_1.mpr ⟨ho, by omega⟩)
    have hempty : w.heap n z o = [] := by simpa using hno
    rw [hempty] at hh
    exact List.not_mem_nil hh
  · intro hno
    unfold tryZone
    split
    · apply List.find?_eq_none.mpr
      intro k hk
      have hempty : w.heap n z k = [] :=
        List.eq_nil_iff_forall_not_mem.mpr fun h => hno k h (List.mem_range'_1.mp hk).1
      rw [hempty]
      simp
    · rfl

theorem tryZone_some (h : tryZone w n order z = some j) : order ≤ j ∧ w.heap n z j ≠ [] := by
  refine ⟨tryZone_le h, ?_⟩
  unfold tryZone at h
  split at h
  · have hj := List.find?_some h
    intro hempty
    rw [hempty] at hj
    cases hj
  · cases h

/-- All zones are tried, from the upper one down. -/
theorem findZone_eq_none_iff {zoneLo zone : Nat} (hz : zoneLo ≤ zone) :
    findZone w n order zoneLo zone = none ↔ ∀ z, zoneLo ≤ z → z ≤ zone → tryZone w n order z = none := by
  induction zone with
  | zero =>
    unfold findZone
    rw [Option.map_eq_none_iff]
    constructor
    · intro h z _ hle
      rw [Nat.le_zero.mp hle]
      exact h
    · intro h
      exact h 0 hz (Nat.le_refl 0)
  | succ zone ih =>
    unfold findZone
    cases ht : tryZone w n order (zone + 1) with
    | some j =>
      refine iff_of_false (Option.some_ne_none _) ?_
      intro h
      rw [h (zone + 1) hz (Nat.le_refl _)] at ht
      cases ht
    | none =>
      by_cases hgt : zone + 1 > zoneLo
      · rw [if_pos hgt, ih (by omega)]
        constructor
        · intro h z hlo hhi
          by_cases heq : z = zone + 1
          · rw [heq]
            exact ht
          · exact h z hlo (by omega)
        · intro h z hlo hhi
          exact h z hlo (by omega)
      · rw [if_neg hgt]
        refine iff_of_true rfl ?_
        intro z hlo hhi
        rw [show z = zone + 1 by omega]
        exact ht

theorem findZone_some {zoneLo zone : Nat} {q : Nat × Nat} (h : findZone w n order zoneLo zone = some q) :
    tryZone w n order q.1 = some q.2 := by
  induction zone with
  | zero =>
    rcases Option.map_eq_some_iff.mp h with ⟨j, hj, rfl⟩
    exact hj
  | succ zone ih =>
    unfold findZone at h
    split at h
    · next j hj =>
      cases h
      exact hj
    · split at h
      · exact ih h
      · cases h

theorem findNode_some {r : Request} {exactNode : Bool} {fuel : Nat} {s : Try} {q : Nat × Nat × Nat}
    (h : findNode m w r exactNode fuel s = .ok (some q)) : tryZone w q.1 r.order q.2.1 = some q.2.2 := by
  induction fuel generalizing s with
  | zero => cases h
  | succ fuel ih =>
    unfold findNode at h
    split at h
    · cases h
    · split at h
      · next zone j hz =>
        cases h
        exact findZone_some hz
      · split at h
        · cases h
        · exact ih h

/-! ## The block that is found -/

/-- Halving keeps the upper part, which is aligned as the block was. -/
theorem halve_spec (n z order k pg : Nat) (w : World) (hal : 2 ^ (order + k) ∣ pg) :
    2 ^ order ∣ (halve n z order k pg w).1 ∧ pg ≤ (halve n z order k pg w).1 ∧
      (halve n z order k pg w).1 + 2 ^ order = pg + 2 ^ (order + k) ∧
      Relisted n z w (halve n z order k pg w).2 := by
  induction k generalizing pg w with
  | zero => exact ⟨hal, Nat.le_refl pg, rfl, .refl w⟩
  | succ k ih =>
    have hpow : 2 ^ (order + (k + 1)) = 2 ^ (order + k) + 2 ^ (order + k) := by
      rw [← Nat.add_assoc, Nat.pow_succ]
      omega
    have hdvd : 2 ^ (order + k) ∣ pg + 2 ^ (order + k) :=
      Nat.dvd_add ((Nat.pow_dvd_pow 2 (by omega)).trans hal) (Nat.dvd_refl _)
    rcases ih (pg + 2 ^ (order + k)) (w.addTail n z (order + k) pg) hdvd with ⟨h₁, h₂, h₃, h₄⟩
    unfold halve
    refine ⟨h₁, by omega, by omega, ?_⟩
    exact (Relisted.addTail (order + k) pg).trans h₄

/-- The search ends, and an allocation fails only if no candidate has a block for it; what it returns is
aligned and was free. -/
theorem allocHeapPages_complete (hs : Stocked m w) (r : Request)
    (hnode : r.InBounds m w) (hbits : ∀ n, r.nodemask m n = true → n < maxNumnodes)
    (hzones : r.zoneLo ≤ r.zoneHi) (htmem : NoDetour m w r) :
    (∃ l, tries m (r.start m).2 (4 * maxNumnodes) (r.first m) = some l ∧
        ∀ n, n ∈ l ↔ Candidate m r n) ∧
      ∃ res w', allocHeapPages m r w = .ok (res, w') ∧
        (res = none ↔ r.order > maxOrder ∨
          ∀ n z o h, Candidate m r n → r.zoneLo ≤ z → z ≤ r.zoneHi → r.order ≤ o → h ∉ w.heap n z o) ∧
        ∀ pg, res = some pg → 2 ^ r.order ∣ pg ∧ ∀ x, Mem pg r.order x → (w.page x).state = .free := by
  refine ⟨tries_search r hbits, ?_⟩
  rcases tries_search r hbits with ⟨l, hl, hmem⟩
  unfold allocHeapPages
  by_cases hbig : r.order > maxOrder
  · rw [if_pos hbig]
    exact ⟨none, w, rfl, iff_of_true rfl (.inl hbig), nofun⟩
  · rw [if_neg hbig, if_neg htmem]
    have hstart := Request.start_lt (m := m) (hnode (Nat.not_lt.mp hbig) htmem)
    have hnone : search m w r = .ok none ↔
        ∀ n z o h, Candidate m r n → r.zoneLo ≤ z → z ≤ r.zoneHi → r.order ≤ o → h ∉ w.heap n z o := by
      unfold search
      rw [findNode_eq_none_iff hstart hl]
      constructor
      · intro h n z o x hc hlo hhi ho
        have hz := (findZone_eq_none_iff hzones).mp (h n ((hmem n).mpr hc)) z hlo hhi
        exact hs.tryZone_eq_none_iff.mp hz o x ho
      · intro h n hn
        apply (findZone_eq_none_iff hzones).mpr
        intro z hlo hhi
        exact hs.tryZone_eq_none_iff.mpr fun o x ho => h n z o x ((hmem n).mp hn) hlo hhi ho
    obtain ⟨q, hsearch⟩ := findNode_inBounds w r (r.start m).2 (4 * maxNumnodes) (s := r.first m) hstart
    change search m w r = .ok q at hsearch
    rw [hsearch]
    cases q with
    | none => exact ⟨none, w, rfl, iff_of_true rfl (.inr (hnone.mp hsearch)), nofun⟩
    | some q =>
      rcases q with ⟨node, zone, j⟩
      rcases tryZone_some (findNode_some hsearch) with ⟨hj, hlist⟩
      have hblocks : ¬∀ n z o h, Candidate m r n → r.zoneLo ≤ z → z ≤ r.zoneHi → r.order ≤ o →
          h ∉ w.heap n z o := by
        rw [← hnone, hsearch]
        exact nofun
      dsimp only
      cases hl : w.heap node zone j with
      | nil => exact absurd hl hlist
      | cons pg₀ rest =>
        dsimp only
        have hb := hs.good.block node zone j pg₀ (hl ▸ List.mem_cons_self)
        have hpow : r.order + (j - r.order) = j := Nat.add_sub_cancel' hj
        rcases halve_spec node zone r.order (j - r.order) pg₀ (w.setHeap node zone j rest)
          (by rw [hpow]; exact hb.aligned) with ⟨hal, hge, hend, hrel⟩
        rw [hpow] at hend
        generalize halve node zone r.order (j - r.order) pg₀ (w.setHeap node zone j rest) = out
          at hal hge hend hrel
        rcases out with ⟨pg, w₁⟩
        dsimp only at hal hge hend hrel ⊢
        have hfree : ∀ x, Mem pg r.order x → (w.page x).state = .free := by
          intro x hx
          have hlo := hx.1
          have hhi := hx.2
          exact inside_false.mp (hb.inside x ⟨by omega, by omega⟩).1
        have hall : (List.range (2 ^ r.order)).all (fun i => (w₁.page (pg + i)).isFree) = true := by
          rw [List.all_eq_true]
          intro i hi
          have hx : Buddy.Mem pg r.order (pg + i) := mem_of_lt (List.mem_range.mp hi)
          have hclean := hs.good.clean (pg + i) (hfree _ hx)
          rw [hrel.page (pg + i)]
          exact hclean
        refine ⟨some pg, _, if_pos hall, ?_, ?_⟩
        · exact iff_of_false nofun (not_or_intro hbig hblocks)
        · intro p hp
          cases hp
          exact ⟨hal, hfree⟩

/-- A machine with all its pages on node 1, of which only node 0 is online. -/
def secondNode : Machine where
  nid _ := 1
  nid_lt _ := by decide
  valid _ := true
  nodeOnline n := n == 0
  optTmem := false
  needed := 0
  directmapEnd := 0
  xenFixed _ := false
  conventional _ := true

/-- A page for a domain with an affinity to node 1. -/
def affinePage : Request where
  zoneLo := 0
  zoneHi := nrZones - 1
  order := 0
  memflags := 0
  domain := some (fun n => n == 1, 0)
  cpuNode := anyPage.cpuNode
  tmemFreeable := false
  tmemRelinquished := none

/-- Page 5 is in the heap. -/
def onePage : List HeapStep := [.init 5 1 fun _ => []]

theorem onePage_run : ∃ w, runHeap secondNode onePage .init = .ok w ∧ Inv secondNode w ∧ w.heap 1 2 0 = [5] := by
  have hlist : (runHeap secondNode onePage .init).toOption.map (fun w => w.heap 1 2 0) = some [5] := by
    decide +kernel
  have hin : InBounds secondNode onePage .init := ⟨trivial, fun _ _ => trivial⟩
  rcases runHeap_sound World.init_sound hin with hno | ⟨w, he, hw⟩
  · rw [hno] at hlist
    cases hlist
  · rw [he] at hlist
    exact ⟨w, he, hw.inv, Option.some.inj hlist⟩

/-- The page is found, on the node of the affinity mask. -/
theorem allocHeapPages_complete_onePage :
    ∃ w pg w', runHeap secondNode onePage .init = .ok w ∧
      allocHeapPages secondNode affinePage w = .ok (some pg, w') ∧ (w.page pg).state = .free := by
  rcases onePage_run with ⟨w, he, hw, hlist⟩
  rcases allocHeapPages_complete hw.stocked affinePage (fun _ _ => .inl (by decide))
    (fun n hn => by
      have : n = 1 := by simpa [Request.nodemask, affinePage] using hn
      rw [this]
      decide)
    (by decide) (fun h => absurd h.1 (by decide)) with ⟨-, res, w', hrun, hnone, hpages⟩
  cases res with
  | none =>
    have hno := (hnone.mp rfl).resolve_left (by decide) 1 2 0 5 (.inr ⟨rfl, by decide, .inr rfl⟩)
      (by decide) (by decide) (by decide)
    rw [hlist] at hno
    exact absurd (List.mem_singleton_self 5) hno
  | some pg => exact ⟨w, pg, w', he, hrun, (hpages pg rfl).2 pg Mem.self⟩

/-- No online node has a free block, and yet the request is met. -/
theorem allocHeapPages_offlineNode :
    ∃ w, Inv secondNode w ∧ (∀ n z o h, secondNode.nodeOnline n = true → h ∉ w.heap n z o) ∧
      ∃ pg w', allocHeapPages secondNode affinePage w = .ok (some pg, w') := by
  have halloc : (runHeap secondNode onePage .init).toOption.bind
      (fun w => (allocHeapPages secondNode affinePage w).toOption.bind Prod.fst) = some 5 := by
    decide +kernel
  rcases onePage_run with ⟨w, he, hw, -⟩
  refine ⟨w, hw, ?_, ?_⟩
  · intro n z o h hn hh
    -- a block of node 0 would consist of pages of node 0
    have hnode := (hw.good.block n z o h hh).inside h Mem.self
    have hone : n = 1 := hnode.2.2.1.symm
    rw [hone] at hn
    cases hn
  · rw [he] at halloc
    rw [show (Except.ok w : Except Halt World).toOption = some w from rfl, Option.bind_some] at halloc
    cases hrun : allocHeapPages secondNode affinePage w with
    | error e =>
      rw [hrun] at halloc
      cases halloc
    | ok out =>
      rcases out with ⟨res, w'⟩
      rw [hrun, show (Except.ok (res, w') : Except Halt _).toOption = some (res, w') from rfl,
        Option.bind_some] at halloc
      have hres : res = some 5 := halloc
      exact ⟨5, w', by rw [hres]⟩

end PageAlloc
