import MemoryMonitor.Rangeset.Ranges

/-!
# Adding to a rangeset

On a list that is kept, `rangeset_add_range` is set union, and the two queries
answer inclusion and intersection. The list is split at the bounds of the range
that is added: the ranges before it, the ranges it touches, and the ranges after
it (`Merged`). All branches of the code make one range out of those it touches
and differ only in how.
-/

namespace Rangeset

open Intervals

/-! ## Positions -/

section Positions

variable {p q : List Range} {c y : Range} {s : BitVec 64}

theorem getElem?_self : (p ++ c :: q)[p.length]? = some c := by
  simp

theorem getElem?_next : (p ++ c :: y :: q)[p.length + 1]? = some y := by
  simp

theorem getElem?_end : (p ++ [c])[p.length + 1]? = none := by
  simp

theorem modify_self (f : Range → Range) :
    (p ++ c :: q).modify p.length f = p ++ f c :: q := by
  induction p with
  | nil => rfl
  | cons r p ih => exact congrArg (r :: ·) ih

theorem destroy_next : destroyRange (p ++ c :: y :: q) (p.length + 1) = p ++ c :: q := by
  unfold destroyRange
  induction p with
  | nil => rfl
  | cons r p ih => exact congrArg (r :: ·) ih

theorem findLoop_append (hp : ∀ r ∈ p, r.lo ≤ s.toNat) (hq : ∀ r ∈ q, s.toNat < r.lo) (i : Nat)
    (x : Option Nat) :
    findLoop s (p ++ q) i x = if p = [] then x else some (i + p.length - 1) := by
  induction p generalizing i x with
  | nil =>
      cases q with
      | nil => rfl
      | cons y q =>
          have hy : s < y.s := hq y (List.mem_cons_self ..)
          simp only [List.nil_append, findLoop, if_pos hy, if_true]
  | cons r p ih =>
      have hr : ¬ s < r.s := not_lt.mpr (hp r (List.mem_cons_self ..))
      simp only [List.cons_append, findLoop, if_neg hr, reduceCtorEq, if_false, List.length_cons]
      rw [ih fun r hr => hp r (List.mem_cons_of_mem _ hr)]
      cases p with
      | nil => simp
      | cons r' p =>
          simp only [reduceCtorEq, if_false, List.length_cons]
          congr 1
          omega

/-- The lookup finds the last range that starts at `s` or before. -/
theorem findRange_append (hp : ∀ r ∈ p, r.lo ≤ s.toNat) (hq : ∀ r ∈ q, s.toNat < r.lo) :
    findRange (p ++ q) s = if p = [] then none else some (p.length - 1) := by
  unfold findRange
  rw [findLoop_append hp hq, Nat.zero_add]

theorem findRange_snoc (hp : ∀ r ∈ p ++ [c], r.lo ≤ s.toNat) (hq : ∀ r ∈ q, s.toNat < r.lo) :
    findRange (p ++ c :: q) s = some p.length := by
  have h := findRange_append hp hq
  rw [List.append_assoc, List.singleton_append] at h
  rw [h]
  simp

end Positions

/-! ## The loop and the last step -/

/-- A range with those after it, once adjacent ones have been joined. -/
def joined (c : Range) : List Range → List Range
  | [] => [c]
  | y :: q => if c.e + 1 = y.s then ⟨c.s, y.e⟩ :: q else c :: y :: q

theorem coalesce_eq (p q : List Range) (c : Range) :
    coalesce (p ++ c :: q) p.length = p ++ joined c q := by
  unfold coalesce joined
  cases q with
  | nil => rw [getElem?_self, getElem?_end]
  | cons y q =>
      rw [getElem?_self, getElem?_next]
      dsimp only
      split
      · rw [setEnd, modify_self, destroy_next]
      · rfl

/-- The loop destroys the ranges `k` that end inside `c`. -/
theorem swallow_eq (p k q : List Range) (c : Range) (hk : ∀ r ∈ k, r.hi ≤ c.hi)
    (hq : ∀ r ∈ q, c.hi < r.hi) : swallow (p ++ c :: (k ++ q)) p.length = p ++ c :: q := by
  induction k with
  | nil =>
      rw [List.nil_append, swallow]
      cases q with
      | nil =>
          split
          · next cur y' hcur hy' =>
              rw [getElem?_end] at hy'
              cases hy'
          · rfl
      | cons y q =>
          have hy : c.e < y.e := hq y (List.mem_cons_self ..)
          split
          · next cur y' hcur hy' =>
              rw [getElem?_self] at hcur
              rw [getElem?_next] at hy'
              obtain rfl := Option.some.inj hcur
              obtain rfl := Option.some.inj hy'
              exact if_pos hy
          · rfl
  | cons r k ih =>
      have hr : ¬ c.e < r.e := not_lt.mpr (hk r (List.mem_cons_self ..))
      rw [List.cons_append, swallow]
      split
      · next cur y' hcur hy' =>
          rw [getElem?_self] at hcur
          rw [getElem?_next] at hy'
          obtain rfl := Option.some.inj hcur
          obtain rfl := Option.some.inj hy'
          rw [if_neg hr, destroy_next]
          exact ih fun r hr => hk r (List.mem_cons_of_mem _ hr)
      · next hno =>
          exact absurd getElem?_next (hno c r getElem?_self)

/-- `c + 1` does not wrap below another range. -/
theorem end_succ_iff {c y : Range} (h : c.hi < y.lo) : c.e + 1 = y.s ↔ c.hi + 1 = y.lo := by
  unfold Range.lo Range.hi at *
  rw [← BitVec.toNat_inj, BitVec.toNat_add]
  have hone : (1 : BitVec 64).toNat = 1 := rfl
  rw [hone, Nat.mod_eq_of_lt (by omega)]

/-! ## One range out of those that are touched -/

/-- `c` is what becomes of `[s, e]` and the ranges `k` it touches, between the
ranges `p` and `q`. -/
structure Merged (p k q : List Range) (s e : BitVec 64) (c : Range) : Prop where
  kept : Kept (p ++ (k ++ q))
  below : ∀ r ∈ p, r.hi + 1 < c.lo
  above : ∀ r ∈ q, c.hi < r.lo
  start : c.lo ≤ s.toNat
  stop : e.toNat ≤ c.hi
  inside : ∀ r ∈ k, c.lo ≤ r.lo ∧ r.hi ≤ c.hi
  low : c.lo = s.toNat ∨ ∃ r ∈ k, c.lo = r.lo ∧ s.toNat ≤ r.hi + 1
  high : c.hi = e.toNat ∨ ∃ r ∈ k, c.hi = r.hi ∧ r.lo ≤ e.toNat + 1

section Merged

variable {p k q : List Range} {s e : BitVec 64} {c m : Range}

theorem members_joined (hq : Kept q) (habove : ∀ r ∈ q, c.hi < r.lo) (hc : c.lo ≤ c.hi) :
    members (joined c q) = Set.Icc c.lo c.hi ∪ members q := by
  unfold joined members
  cases q with
  | nil => exact covered_cons
  | cons y q =>
      dsimp only
      split
      · next hadj =>
          have hy := habove y (List.mem_cons_self ..)
          have hord := hq.ordered y (List.mem_cons_self ..)
          rw [end_succ_iff hy] at hadj
          rw [covered_cons, covered_cons, ← Set.union_assoc]
          congr 1
          ext z
          simp only [Set.mem_Icc, Set.mem_union]
          change c.lo ≤ z ∧ z ≤ y.hi ↔ _
          omega
      · rw [covered_cons]

theorem kept_joined (hq : Kept q) (habove : ∀ r ∈ q, c.hi < r.lo) (hc : c.lo ≤ c.hi) :
    Kept (joined c q) ∧ ∀ r ∈ joined c q, c.lo ≤ r.lo := by
  unfold joined
  cases q with
  | nil => exact ⟨spaced_cons.mpr ⟨hc, spaced_nil, by simp⟩, by simp⟩
  | cons y q =>
      rcases spaced_cons.mp hq with ⟨hord, hq', hafter⟩
      have hy := habove y (List.mem_cons_self ..)
      dsimp only
      split
      · refine ⟨spaced_cons.mpr ⟨?_, hq', hafter⟩, fun r hr => ?_⟩
        · change c.lo ≤ y.hi
          omega
        · rcases List.mem_cons.mp hr with rfl | hr
          · exact le_rfl
          · have := hafter r hr
            omega
      · next hadj =>
          rw [end_succ_iff hy] at hadj
          refine ⟨spaced_cons.mpr ⟨hc, hq, fun r hr => ?_⟩, fun r hr => ?_⟩
          · rcases List.mem_cons.mp hr with rfl | hr
            · omega
            · have := hafter r hr
              omega
          · rcases List.mem_cons.mp hr with rfl | hr
            · exact le_rfl
            · have := habove r hr
              omega

theorem Merged.joined (h : Merged p k q s e c) (hse : s ≤ e) :
    Kept (p ++ joined c q) ∧
      members (p ++ Rangeset.joined c q) = members (p ++ (k ++ q)) ∪ Set.Icc s.toNat e.toNat := by
  have hse' : s.toNat ≤ e.toNat := hse
  have hc : c.lo ≤ c.hi := (h.start.trans hse').trans h.stop
  rcases spaced_append.mp h.kept with ⟨hp, hkq, -⟩
  rcases spaced_append.mp hkq with ⟨-, hq, -⟩
  rcases kept_joined hq h.above hc with ⟨hj, hjlo⟩
  constructor
  · refine spaced_append.mpr ⟨hp, hj, fun a ha b hb => ?_⟩
    exact lt_of_lt_of_le (h.below a ha) (hjlo b hb)
  · have hmerge := covered_merge h.start h.stop h.inside h.low h.high
    have hjoined := members_joined hq h.above hc
    unfold members at hjoined ⊢
    rw [covered_append, hjoined, hmerge, covered_append, covered_append]
    ac_rfl

/-- A new range, where nothing is touched. -/
theorem Merged.new (hkept : Kept (p ++ q)) (hbelow : ∀ r ∈ p, r.hi + 1 < s.toNat)
    (habove : ∀ r ∈ q, e.toNat < r.lo) : Merged p [] q s e ⟨s, e⟩ where
  kept := hkept
  below := hbelow
  above := habove
  start := le_rfl
  stop := le_rfl
  inside := by simp
  low := Or.inl rfl
  high := Or.inl rfl

/-- In a kept list that ends with `last` it has the highest end. -/
theorem hi_le_last {k' : List Range} {last : Range}
    (h : (k' ++ [last]).Pairwise fun a b => a.hi < b.hi) {r : Range} (hr : r ∈ k' ++ [last]) :
    r.hi ≤ last.hi := by
  rcases List.mem_append.mp hr with hr | hr
  · exact le_of_lt ((List.pairwise_append.mp h).2.2 r hr last (List.mem_singleton_self _))
  · rw [List.mem_singleton.mp hr]

/-- One range taking over: `m` is given the start of `c₀`, and with the end of
the last range touched, or `e`, it replaces the others. -/
theorem takeOver {c₀ : Range} (hkept : Kept (p ++ (m :: k ++ q))) (hend : c₀.e = m.e)
    (hk : ∀ r ∈ m :: k, r.lo ≤ e.toNat) (hq : ∀ r ∈ q, e.toNat < r.lo)
    (hbelow : ∀ r ∈ p, r.hi + 1 < c₀.lo) (hstart : c₀.lo ≤ s.toNat) (hle : c₀.lo ≤ m.lo)
    (hlow : c₀.lo = s.toNat ∨ c₀.lo = m.lo ∧ s.toNat ≤ m.hi + 1) :
    ∃ last c, (p ++ c₀ :: (k ++ q))[p.length + k.length]? = some last ∧
      coalesce (swallow (setEnd (p ++ c₀ :: (k ++ q)) p.length
        (if e < last.e then last.e else e)) p.length) p.length = p ++ Rangeset.joined c q ∧
      Merged p (m :: k) q s e c := by
  rcases spaced_append.mp hkept with ⟨hp, hmkq, -⟩
  rcases spaced_append.mp hmkq with ⟨hmk, hqk, hcross⟩
  have hhi : c₀.hi = m.hi := congrArg BitVec.toNat hend
  -- the ends ascend, also after the start of the first range has been changed
  have hpair : (c₀ :: k).Pairwise fun a b => a.hi < b.hi := by
    rcases spaced_cons.mp hmk with ⟨-, hk', hafter⟩
    refine List.pairwise_cons.mpr ⟨fun r hr => ?_, ?_⟩
    · have h1 := hafter r hr
      have h2 := hk'.ordered r hr
      omega
    · refine hk'.apart.imp_of_mem fun {a b} ha hb hab => ?_
      have h2 := hk'.ordered b hb
      omega
  obtain ⟨k', last, hlast⟩ : ∃ k' last, c₀ :: k = k' ++ [last] := by
    rcases List.eq_nil_or_concat (c₀ :: k) with hnil | ⟨k', last, h⟩
    · cases hnil
    · exact ⟨k', last, by rw [h, List.concat_eq_append]⟩
  -- the last range as it stands in the list
  obtain ⟨r₀, hr₀, hr₀hi⟩ : ∃ r ∈ m :: k, r.hi = last.hi := by
    have hmem : last ∈ c₀ :: k := by
      rw [hlast]
      simp
    rcases List.mem_cons.mp hmem with heq | hmem
    · exact ⟨m, List.mem_cons_self .., by rw [heq, hhi]⟩
    · exact ⟨last, List.mem_cons_of_mem _ hmem, rfl⟩
  have hmax : ∀ r ∈ m :: k, r.hi ≤ last.hi := by
    intro r hr
    rw [hlast] at hpair
    rcases List.mem_cons.mp hr with rfl | hr
    · rw [← hhi]
      refine hi_le_last hpair ?_
      rw [← hlast]
      exact List.mem_cons_self ..
    · refine hi_le_last hpair ?_
      rw [← hlast]
      exact List.mem_cons_of_mem _ hr
  generalize hstop : (if e < last.e then last.e else e) = stop
  have hstop' : stop.toNat = max last.hi e.toNat := by
    rw [← hstop]
    have hlt : e < last.e ↔ e.toNat < last.hi := Iff.rfl
    split
    · next h =>
        rw [hlt] at h
        exact (max_eq_left (le_of_lt h)).symm
    · next h =>
        rw [hlt] at h
        exact (max_eq_right (not_lt.mp h)).symm
  have hgap : ∀ r ∈ q, last.hi < r.lo := by
    intro r hr
    have := hcross r₀ hr₀ r hr
    omega
  refine ⟨last, ⟨c₀.s, stop⟩, ?_, ?_, ?_⟩
  · have hlen : k'.length = k.length := by
      have := congrArg List.length hlast
      simp at this
      omega
    have happ : p ++ c₀ :: (k ++ q) = (p ++ k') ++ last :: q := by
      rw [← List.cons_append, hlast]
      simp
    rw [happ, ← hlen, ← List.length_append]
    exact getElem?_self
  · rw [hstop, setEnd, modify_self]
    have hc : (⟨c₀.s, stop⟩ : Range).hi = max last.hi e.toNat := hstop'
    rw [swallow_eq p k q ⟨c₀.s, stop⟩, coalesce_eq]
    · intro r hr
      rw [hc]
      exact (hmax r (List.mem_cons_of_mem _ hr)).trans (le_max_left _ _)
    · intro r hr
      have h1 := hq r hr
      have h2 := hgap r hr
      have h3 := hqk.ordered r hr
      rw [hc]
      exact lt_of_lt_of_le (max_lt h2 h1) h3
  · have hc : (⟨c₀.s, stop⟩ : Range).hi = max last.hi e.toNat := hstop'
    refine ⟨hkept, hbelow, fun r hr => ?_, hstart, ?_, fun r hr => ⟨?_, ?_⟩, ?_, ?_⟩
    · rw [hc]
      exact max_lt (hgap r hr) (hq r hr)
    · rw [hc]
      exact le_max_right _ _
    · rcases List.mem_cons.mp hr with rfl | hr
      · exact hle
      · have h1 := (spaced_cons.mp hmk).2.2 r hr
        have h2 := hmk.ordered m (List.mem_cons_self ..)
        exact hle.trans (by omega)
    · rw [hc]
      exact (hmax r hr).trans (le_max_left _ _)
    · rcases hlow with heq | ⟨heq, hs⟩
      · exact Or.inl heq
      · exact Or.inr ⟨m, List.mem_cons_self .., heq, hs⟩
    · rw [hc]
      by_cases hmaxe : last.hi ≤ e.toNat
      · exact Or.inl (max_eq_right hmaxe)
      · refine Or.inr ⟨r₀, hr₀, ?_, (hk r₀ hr₀).trans (Nat.le_succ _)⟩
        rw [hr₀hi]
        exact max_eq_left (by omega)

end Merged

/-! ## The operation -/

section Add

variable {l : List Range} {s e : BitVec 64}

/-- A list split at the two bounds of `[s, e]`. -/
theorem split_at (hl : Kept l) (s e : BitVec 64) :
    ∃ a m q, l = a ++ (m ++ q) ∧ (∀ r ∈ a, r.lo ≤ s.toNat) ∧
      (∀ r ∈ m, s.toNat < r.lo ∧ r.lo ≤ e.toNat) ∧ ∀ r ∈ q, e.toNat < r.lo := by
  rcases hl.split s.toNat with ⟨a, b, rfl, ha, hb⟩
  rcases (spaced_append.mp hl).2.1.split e.toNat with ⟨m, q, rfl, hm, hq⟩
  refine ⟨a, m, q, rfl, ha, fun r hr => ⟨hb r (List.mem_append_left _ hr), hm r hr⟩, hq⟩

/-- Below a number above all starts, with a gap after the last end. -/
theorem below_of_last {a : List Range} {x : Range} (ha : Kept (a ++ [x])) {n : ℕ}
    (hx : x.hi + 1 < n) : ∀ r ∈ a ++ [x], r.hi + 1 < n := by
  intro r hr
  rcases spaced_append.mp ha with ⟨-, hx', hcross⟩
  rcases List.mem_append.mp hr with hr | hr
  · have h1 := hcross r hr x (List.mem_singleton_self _)
    have h2 := hx'.ordered x (List.mem_singleton_self _)
    omega
  · rw [List.mem_singleton.mp hr]
    exact hx

theorem before_iff (x : Range) (s : BitVec 64) : x.Before s ↔ x.hi + 1 < s.toNat := by
  have hlt := s.isLt
  have hone : (1 : BitVec 64).toNat = 1 := rfl
  unfold Range.Before Range.hi
  rw [BitVec.lt_def, ne_eq, ← BitVec.toNat_inj, BitVec.toNat_add, hone]
  omega

theorem insertIdx_append (a q : List Range) (x : Range) :
    (a ++ q).insertIdx a.length x = a ++ x :: q := by
  induction a with
  | nil => rfl
  | cons r a ih => exact congrArg (r :: ·) ih

theorem addNew_eq (a q : List Range) (y : Option Nat) (hy : insertPos y = a.length) :
    addNew true (a ++ q) y s e = (0, a ++ joined ⟨s, e⟩ q) := by
  unfold addNew insertRange
  rw [if_pos rfl, hy, insertIdx_append, coalesce_eq]

/-- The result of adding `[s, e]`: out of memory, or what was touched is merged. -/
def Adds (xmalloc : Bool) (l : List Range) (s e : BitVec 64) (out : Option (Int × List Range)) :
    Prop :=
  (xmalloc = false ∧ out = some (enomem, l)) ∨
    ∃ p k q c, l = p ++ (k ++ q) ∧ Merged p k q s e c ∧ out = some (0, p ++ joined c q)

theorem adds_new {a q : List Range} (hl : Kept (a ++ q)) (xmalloc : Bool) {y : Option Nat}
    (hpos : insertPos y = a.length) (hbelow : ∀ r ∈ a, r.hi + 1 < s.toNat)
    (hq : ∀ r ∈ q, e.toNat < r.lo) :
    Adds xmalloc (a ++ q) s e (some (addNew xmalloc (a ++ q) y s e)) := by
  cases xmalloc with
  | false => exact Or.inl ⟨rfl, rfl⟩
  | true =>
      refine Or.inr ⟨a, [], q, ⟨s, e⟩, rfl, Merged.new hl hbelow hq, ?_⟩
      rw [addNew_eq a q y hpos]

/-- The range found reaches up to `s`, and is extended to `e` if it ends before. -/
theorem adds_extend {a q : List Range} {x : Range} (hl : Kept (a ++ x :: q)) (xmalloc : Bool)
    (hx : x.lo ≤ s.toNat) (htouch : ¬ x.hi + 1 < s.toNat) (hse : s ≤ e)
    (hq : ∀ r ∈ q, e.toNat < r.lo) :
    Adds xmalloc (a ++ x :: q) s e (some (0, coalesce
      (if x.e < e then setEnd (a ++ x :: q) a.length e else a ++ x :: q) a.length)) := by
  have hse' : s.toNat ≤ e.toNat := hse
  rcases spaced_append.mp hl with ⟨-, hxq, hcross⟩
  rcases spaced_cons.mp hxq with ⟨hord, -, hafter⟩
  have hlt : x.e < e ↔ x.hi < e.toNat := Iff.rfl
  have hbelow : ∀ r ∈ a, r.hi + 1 < x.lo := fun r hr => hcross r hr x (List.mem_cons_self ..)
  have hmem : x ∈ [x] := List.mem_singleton_self x
  split
  · next hend =>
      rw [hlt] at hend
      refine Or.inr ⟨a, [x], q, ⟨x.s, e⟩, rfl, ⟨hl, hbelow, hq, hx, le_rfl, ?_, ?_, Or.inl rfl⟩, ?_⟩
      · intro r hr
        rw [List.mem_singleton.mp hr]
        exact ⟨le_rfl, le_of_lt hend⟩
      · exact Or.inr ⟨x, hmem, rfl, by omega⟩
      · rw [setEnd, modify_self, coalesce_eq]
  · next hend =>
      rw [hlt, not_lt] at hend
      refine Or.inr ⟨a, [x], q, x, rfl, ⟨hl, hbelow, ?_, hx, hend, ?_, ?_, ?_⟩, ?_⟩
      · intro r hr
        have := hafter r hr
        omega
      · intro r hr
        rw [List.mem_singleton.mp hr]
        exact ⟨le_rfl, le_rfl⟩
      · exact Or.inr ⟨x, hmem, rfl, by omega⟩
      · exact Or.inr ⟨x, hmem, rfl, by omega⟩
      · rw [coalesce_eq]

theorem adds_takeOver {p k q : List Range} {m : Range} (c₀ : Range) (hl : Kept (p ++ (m :: k ++ q)))
    (xmalloc : Bool) (hend : c₀.e = m.e) (hk : ∀ r ∈ m :: k, r.lo ≤ e.toNat)
    (hq : ∀ r ∈ q, e.toNat < r.lo) (hbelow : ∀ r ∈ p, r.hi + 1 < c₀.lo)
    (hstart : c₀.lo ≤ s.toNat) (hle : c₀.lo ≤ m.lo)
    (hlow : c₀.lo = s.toNat ∨ c₀.lo = m.lo ∧ s.toNat ≤ m.hi + 1) :
    Adds xmalloc (p ++ (m :: k ++ q)) s e
      ((p ++ c₀ :: (k ++ q))[p.length + k.length]?.bind fun last =>
        some (0, coalesce (swallow (setEnd (p ++ c₀ :: (k ++ q)) p.length
          (if e < last.e then last.e else e)) p.length) p.length)) := by
  rcases takeOver hl hend hk hq hbelow hstart hle hlow with ⟨last, c, hlast, heq, hmerged⟩
  refine Or.inr ⟨p, m :: k, q, c, rfl, hmerged, ?_⟩
  rw [hlast, Option.bind_some, heq]

/-- What the operation does on a kept list. -/
theorem addRange_adds (hl : Kept l) (hse : s ≤ e) (xmalloc : Bool) :
    Adds xmalloc l s e (rangesetAddRange 0 xmalloc l s e) := by
  have hse' : s.toNat ≤ e.toNat := hse
  rcases split_at hl s e with ⟨a, m, q, rfl, ha, hm, hq⟩
  have hme : ∀ r ∈ a ++ m, r.lo ≤ e.toNat := by
    intro r hr
    rcases List.mem_append.mp hr with hr | hr
    · exact (ha r hr).trans hse'
    · exact (hm r hr).2
  have hms : ∀ r ∈ m ++ q, s.toNat < r.lo := by
    intro r hr
    rcases List.mem_append.mp hr with hr | hr
    · exact (hm r hr).1
    · exact lt_of_le_of_lt hse' (hq r hr)
  have hx := findRange_append ha hms
  have hy := findRange_append hme hq
  rw [List.append_assoc] at hy
  unfold rangesetAddRange
  rw [if_neg (not_not.mpr rfl)]
  dsimp only
  rw [hx, hy]
  rcases List.eq_nil_or_concat a with rfl | ⟨a', x, hax⟩
  · rcases m with - | ⟨m₀, m⟩
    · -- nothing starts at `e` or before
      exact adds_new hl xmalloc rfl (by simp) hq
    · -- the first range is given the start `s`
      have hm₀ := (hm m₀ (List.mem_cons_self ..)).1
      have hlast : (if [] ++ m₀ :: m = [] then none else some (([] ++ m₀ :: m).length - 1)) =
          some m.length := by simp
      rw [if_pos rfl, hlast, if_neg (by simp)]
      have htake := adds_takeOver (s := s) ⟨s, m₀.e⟩ hl xmalloc rfl hme hq (by simp) le_rfl
        (le_of_lt hm₀) (Or.inl rfl)
      rw [List.length_nil, Nat.zero_add] at htake
      exact htake
  · rw [List.concat_eq_append] at hax
    subst hax
    have hlo : x.lo ≤ s.toNat := ha x (by simp)
    have hfound : (if a' ++ [x] = [] then none else some ((a' ++ [x]).length - 1)) =
        some a'.length := by simp
    have hax : Kept (a' ++ [x]) := (spaced_append.mp hl).1
    rw [hfound]
    rcases m with - | ⟨m₀, m⟩
    · -- both lookups find `x`
      have happ : a' ++ [x] ++ ([] ++ q) = a' ++ x :: q := by simp
      rw [List.append_nil, hfound, if_pos rfl, happ]
      dsimp only
      rw [getElem?_self, Option.bind_some]
      split
      · next hbefore =>
          rw [before_iff] at hbefore
          have hnew := adds_new (y := some a'.length) hl xmalloc (by simp [insertPos])
            (below_of_last hax hbefore) hq
          rw [happ] at hnew
          exact hnew
      · next hbefore =>
          rw [before_iff] at hbefore
          rw [happ] at hl
          exact adds_extend hl xmalloc hlo hbefore hse hq
    · have hm₀ := (hm m₀ (List.mem_cons_self ..)).1
      have hlast : (if a' ++ [x] ++ m₀ :: m = [] then none
          else some ((a' ++ [x] ++ m₀ :: m).length - 1)) =
          some ((a' ++ [x]).length + m.length) := by
        simp
        omega
      have happ : a' ++ [x] ++ (m₀ :: m ++ q) = a' ++ x :: (m₀ :: m ++ q) := by simp
      have hat : (a' ++ [x] ++ (m₀ :: m ++ q))[a'.length]? = some x := by
        rw [happ]
        exact getElem?_self
      rw [hlast, if_neg (by simp; omega)]
      unfold startRange
      dsimp only
      rw [hat, Option.bind_some]
      split
      · -- the range after `x` is given the start `s`
        next hbefore =>
          rw [before_iff] at hbefore
          have htake := adds_takeOver (s := s) ⟨s, m₀.e⟩ hl xmalloc rfl
            (fun r hr => hme r (List.mem_append_right _ hr)) hq (below_of_last hax hbefore) le_rfl
            (le_of_lt hm₀) (Or.inl rfl)
          have hnext : nextRange (a' ++ [x] ++ (m₀ :: m ++ q)) a'.length =
              some (a' ++ [x]).length := by
            unfold nextRange
            rw [if_pos (by simp), List.length_append, List.length_singleton]
          rw [hnext, Option.map_some, Option.bind_some]
          dsimp only
          rw [Option.bind_some, setStart, List.cons_append, modify_self]
          exact htake
      · -- `x` reaches up to `s`
        next hbefore =>
          rw [before_iff] at hbefore
          have hlen : (a' ++ [x]).length + m.length = a'.length + (m₀ :: m).length := by
            simp
            omega
          rw [happ] at hl ⊢
          rw [hlen, Option.bind_some]
          dsimp only
          rw [Option.bind_some]
          refine adds_takeOver x hl xmalloc rfl ?_ hq ?_ hlo le_rfl
            (Or.inr ⟨rfl, by omega⟩)
          · intro r hr
            refine hme r ?_
            rw [List.append_assoc]
            exact List.mem_append_right _ hr
          · intro r hr
            exact (spaced_append.mp hax).2.2 r hr x (List.mem_singleton_self x)

end Add

/-! ## Queries -/

section Query

variable {l : List Range} {s e : BitVec 64}

/-- What a lookup finds: the range that starts last among those that start at `z`
or before. -/
theorem findRange_cases (hl : Kept l) (z : BitVec 64) :
    (findRange l z = none ∧ ∀ r ∈ l, z.toNat < r.lo) ∨
      ∃ i x, findRange l z = some i ∧ l[i]? = some x ∧ x ∈ l ∧ x.lo ≤ z.toNat ∧
        ∀ r ∈ l, r.lo ≤ z.toNat → r = x ∨ r.hi + 1 < x.lo := by
  rcases hl.split z.toNat with ⟨a, q, rfl, ha, hq⟩
  rcases List.eq_nil_or_concat a with rfl | ⟨a', x, hax⟩
  · refine Or.inl ⟨?_, hq⟩
    rw [findRange_append ha hq, if_pos rfl]
  · rw [List.concat_eq_append] at hax
    subst hax
    have happ : a' ++ [x] ++ q = a' ++ x :: q := by simp
    refine Or.inr ⟨a'.length, x, ?_, ?_, by simp, ha x (by simp), fun r hr hlo => ?_⟩
    · rw [happ]
      exact findRange_snoc ha hq
    · rw [happ]
      exact getElem?_self
    · rcases List.mem_append.mp hr with hr | hr
      · rcases List.mem_append.mp hr with hr | hr
        · refine Or.inr ?_
          exact (spaced_append.mp (spaced_append.mp hl).1).2.2 r hr x (List.mem_singleton_self x)
        · exact Or.inl (List.mem_singleton.mp hr)
      · have := hq r hr
        omega

theorem containsRange_iff (hl : Kept l) (hse : s ≤ e) :
    ∃ b, rangesetContainsRange l s e = some b ∧
      (b = true ↔ Set.Icc s.toNat e.toNat ⊆ members l) := by
  have hse' : s.toNat ≤ e.toNat := hse
  unfold rangesetContainsRange members
  rw [hl.subset_iff hse']
  rcases findRange_cases hl s with ⟨hnone, hall⟩ | ⟨i, x, hsome, hat, hx, hlo, hlast⟩
  · rw [hnone]
    refine ⟨false, rfl, ?_⟩
    simp only [reduceCtorEq, false_iff]
    rintro ⟨r, hr, hlo, -⟩
    exact absurd (hall r hr) (not_lt.mpr hlo)
  · rw [hsome]
    dsimp only
    rw [hat, Option.map_some]
    refine ⟨_, rfl, ?_⟩
    rw [decide_eq_true_iff]
    constructor
    · intro he
      exact ⟨x, hx, hlo, he⟩
    · rintro ⟨r, hr, hrlo, hrhi⟩
      rcases hlast r hr hrlo with rfl | hlt
      · exact hrhi
      · omega

theorem overlapsRange_iff (hl : Kept l) (hse : s ≤ e) :
    ∃ b, rangesetOverlapsRange l s e = some b ∧
      (b = true ↔ (Set.Icc s.toNat e.toNat ∩ members l).Nonempty) := by
  have hse' : s.toNat ≤ e.toNat := hse
  unfold rangesetOverlapsRange members
  rw [inter_nonempty_iff hl.ordered hse']
  rcases findRange_cases hl e with ⟨hnone, hall⟩ | ⟨i, x, hsome, hat, hx, hlo, hlast⟩
  · rw [hnone]
    refine ⟨false, rfl, ?_⟩
    simp only [reduceCtorEq, false_iff]
    rintro ⟨r, hr, hlo, -⟩
    exact absurd (hall r hr) (not_lt.mpr hlo)
  · rw [hsome]
    dsimp only
    rw [hat, Option.map_some]
    refine ⟨_, rfl, ?_⟩
    rw [decide_eq_true_iff]
    constructor
    · intro hs
      exact ⟨x, hx, hlo, hs⟩
    · rintro ⟨r, hr, hrlo, hrhi⟩
      rcases hlast r hr hrlo with rfl | hlt
      · exact hrhi
      · have := hl.ordered x hx
        change s.toNat ≤ x.hi
        omega

end Query

/-- Adding is set union, and the queries are inclusion and intersection. -/
theorem rangeset_union {l : List Range} {s e : BitVec 64} (hl : Kept l) (hse : s ≤ e) (xsm : Int)
    (xmalloc : Bool) :
    (xsm ≠ 0 → rangesetAddRange xsm xmalloc l s e = some (xsm, l)) ∧
    (xsm = 0 → (xmalloc = false ∧ rangesetAddRange xsm xmalloc l s e = some (enomem, l)) ∨
      ∃ l', rangesetAddRange xsm xmalloc l s e = some (0, l') ∧ Kept l' ∧
        members l' = members l ∪ Set.Icc s.toNat e.toNat) ∧
    (∃ b, rangesetContainsRange l s e = some b ∧
      (b = true ↔ Set.Icc s.toNat e.toNat ⊆ members l)) ∧
    ∃ b, rangesetOverlapsRange l s e = some b ∧
      (b = true ↔ (Set.Icc s.toNat e.toNat ∩ members l).Nonempty) := by
  refine ⟨fun hxsm => if_pos hxsm, ?_, containsRange_iff hl hse, overlapsRange_iff hl hse⟩
  rintro rfl
  rcases addRange_adds hl hse xmalloc with hfail | ⟨p, k, q, c, rfl, hmerged, hout⟩
  · exact Or.inl hfail
  · rcases hmerged.joined hse with ⟨hkept, hmembers⟩
    exact Or.inr ⟨_, hout, hkept, hmembers⟩

/-- Filling the gap between two ranges. -/
theorem rangeset_union_gap :
    ∃ l', rangesetAddRange 0 true [⟨1, 3⟩, ⟨6, 7⟩] 4 5 = some (0, l') ∧ Kept l' ∧
      members l' = members [⟨1, 3⟩, ⟨6, 7⟩] ∪ Set.Icc 4 5 := by
  have hkept : Kept [⟨1, 3⟩, ⟨6, 7⟩] :=
    ⟨by simp [Range.lo, Range.hi], by simp [Range.lo, Range.hi]⟩
  rcases (rangeset_union (s := 4) (e := 5) hkept (by decide) 0 true).2.1 rfl with ⟨hbad, -⟩ | h
  · cases hbad
  · exact h

/-! ## Calls one after the other -/

/-- Calls of `rangeset_add_range` that find memory. -/
def addAll : List (BitVec 64 × BitVec 64) → List Range → Option (List Range)
  | [], l => some l
  | (s, e) :: calls, l =>
    match rangesetAddRange 0 true l s e with
    | some (0, l) => addAll calls l
    | _ => none

/-- The numbers of the calls. -/
def asked (calls : List (BitVec 64 × BitVec 64)) : Set ℕ := {z | ∃ c ∈ calls, c.1.toNat ≤ z ∧ z ≤ c.2.toNat}

theorem addAll_members {calls : List (BitVec 64 × BitVec 64)} (hc : ∀ c ∈ calls, c.1 ≤ c.2) {l : List Range}
    (hl : Kept l) : ∃ l', addAll calls l = some l' ∧ Kept l' ∧ members l' = members l ∪ asked calls := by
  induction calls generalizing l with
  | nil => exact ⟨l, rfl, hl, by simp [asked]⟩
  | cons c calls ih =>
    obtain ⟨s, e⟩ := c
    have hse : s ≤ e := hc (s, e) List.mem_cons_self
    rcases addRange_adds hl hse true with ⟨hfail, -⟩ | ⟨p, k, q, c, rfl, hmerged, hout⟩
    · cases hfail
    · obtain ⟨hkept, hmembers⟩ := hmerged.joined hse
      obtain ⟨l', hall, hkept', hmembers'⟩ := ih (fun c h => hc c (List.mem_cons_of_mem _ h)) hkept
      refine ⟨l', ?_, hkept', ?_⟩
      · unfold addAll
        rw [hout]
        exact hall
      · rw [hmembers', hmembers, Set.union_assoc]
        congr 1
        ext z
        simp [asked]

/-- Neither the order of the calls nor how they overlap makes a difference to the list: it is determined by
the numbers that are in it at last. -/
theorem addAll_canonical {calls calls' : List (BitVec 64 × BitVec 64)} (hc : ∀ c ∈ calls, c.1 ≤ c.2)
    (hc' : ∀ c ∈ calls', c.1 ≤ c.2) {l : List Range} (hl : Kept l)
    (hsame : members l ∪ asked calls = members l ∪ asked calls') :
    ∃ l', addAll calls l = some l' ∧ addAll calls' l = some l' ∧ Kept l' ∧ members l' = members l ∪ asked calls := by
  obtain ⟨l₁, hrun, hkept, hmembers⟩ := addAll_members hc hl
  obtain ⟨l₂, hrun', hkept', hmembers'⟩ := addAll_members hc' hl
  have heq : l₁ = l₂ := by
    refine hkept.ext hkept' (hmembers.trans (hsame.trans hmembers'.symm)) ?_
    rintro ⟨s, e⟩ ⟨s', e'⟩ hs he
    exact congrArg₂ Range.mk (BitVec.eq_of_toNat_eq hs) (BitVec.eq_of_toNat_eq he)
  exact ⟨l₁, hrun, heq ▸ hrun', hkept, hmembers⟩

/-- Three calls, and one in their place. -/
theorem addAll_canonical_three : ∃ l', addAll [(1, 3), (6, 7), (4, 5)] [] = some l' ∧ addAll [(1, 7)] [] = some l' ∧
    Kept l' ∧ members l' = members [] ∪ asked [(1, 3), (6, 7), (4, 5)] := by
  refine addAll_canonical (by simp) (by simp) spaced_nil (congrArg _ (Set.ext fun z => ?_))
  simp [asked]
  omega

end Rangeset
