import MemoryMonitor.Rangeset.Add

/-!
# Removing from a rangeset

`rangeset_remove_range` is set difference when both ends of `[s, e]` fall to the same
range. Otherwise there are two slips. If `s` lies in a gap, the range before the gap
is not cut off at `s - 1` but extended up to it; and `e + 1` wraps to 0 if `e` is
`ULONG_MAX`, so that the last range is not destroyed. `Removable` leaves both out.
-/

namespace Rangeset

open Intervals

/-! ## `rangeset_remove_range` -/

/-- The loop that destroys the ranges from `x` up to `y`. -/
def destroyUntil (r : List Range) (x y : Nat) : Option (Nat × List Range) :=
  if x = y then some (x, r)
  else if x + 1 < r.length then destroyUntil (destroyRange r x) x (y - 1)
  else none
termination_by r.length
decreasing_by
  rw [destroyRange, List.length_eraseIdx_of_lt (by omega)]
  omega

/-- The range is cut off before `s`, if it starts before. -/
def cutStart (r : List Range) (x : Nat) (s : BitVec 64) : Option (Nat × List Range) :=
  r[x]?.bind fun cur =>
    if cur.s < s then (nextRange r x).map fun i => (i, setEnd r x (s - 1))
    else some (x, r)

/-- The last of the ranges starts after `e` now, or is gone. -/
def cutEnd (r : List Range) (x : Nat) (e : BitVec 64) : Option (Int × List Range) :=
  r[x]?.map fun cur =>
    if cur.e < e + 1 then (0, destroyRange (setStart r x (e + 1)) x)
    else (0, setStart r x (e + 1))

/-- Both ends fall to the range `x`, which reaches up to `s`. -/
def removeInside (xmalloc : Bool) (r : List Range) (x : Nat) (cur : Range) (s e : BitVec 64) :
    Int × List Range :=
  if cur.s < s ∧ e < cur.e then
    if xmalloc then (0, insertRange (setEnd r x (s - 1)) (some x) ⟨e + 1, cur.e⟩)
    else (enomem, r)
  else if cur.s = s ∧ cur.e ≤ e then (0, destroyRange r x)
  else if cur.s = s then (0, setStart r x (e + 1))
  else if cur.e ≤ e then (0, setEnd r x (s - 1))
  else (0, r)

/-- `rangeset_remove_range`; `xsm` is the result of `xsm_remove_range`. -/
def rangesetRemoveRange (xsm : Int) (xmalloc : Bool) (r : List Range) (s e : BitVec 64) :
    Option (Int × List Range) :=
  if xsm ≠ 0 then some (xsm, r)
  else
    let x := findRange r s
    let y := findRange r e
    if x = y then
      match x with
      | none => some (0, r)
      | some i => r[i]?.map fun cur =>
          if cur.e < s then (0, r) else removeInside xmalloc r i cur s e
    else
      (match x with
        | none => firstRange r
        | some i => some i).bind fun i =>
        (cutStart r i s).bind fun (i, r) => y.bind fun j =>
          (destroyUntil r i j).bind fun (i, r) => cutEnd r i e

/-! ## Parts of the list -/

section Parts

variable {p k q : List Range} {c : Range} {s e : BitVec 64}

theorem destroy_self : destroyRange (p ++ c :: q) p.length = p ++ q := by
  unfold destroyRange
  induction p with
  | nil => rfl
  | cons r p ih => exact congrArg (r :: ·) ih

theorem destroyUntil_eq : destroyUntil (p ++ (k ++ c :: q)) p.length (p.length + k.length)
    = some (p.length, p ++ c :: q) := by
  induction k with
  | nil =>
      unfold destroyUntil
      rw [List.nil_append, List.length_nil, Nat.add_zero, if_pos rfl]
  | cons r k ih =>
      unfold destroyUntil
      rw [if_neg (by simp), if_pos (by simp only [List.length_append, List.length_cons]; omega), List.cons_append, destroy_self, List.length_cons]
      exact ih

/-- What is left of the last range. -/
def remainder (c : Range) (e : BitVec 64) : List Range :=
  if c.e < e + 1 then [] else [⟨e + 1, c.e⟩]

theorem cutEnd_eq : cutEnd (p ++ c :: q) p.length e = some (0, p ++ (remainder c e ++ q)) := by
  unfold cutEnd remainder
  rw [getElem?_self, Option.map_some, setStart, modify_self]
  split
  · rw [destroy_self]
    rfl
  · rfl

/-- The list is cut from `p` to the last range `c` that starts at `e` or before. -/
theorem cut_eq :
    ((destroyUntil (p ++ (k ++ c :: q)) p.length (p.length + k.length)).bind fun (i, r) =>
      cutEnd r i e) = some (0, p ++ (remainder c e ++ q)) := by
  rw [destroyUntil_eq, Option.bind_some]
  exact cutEnd_eq

end Parts

theorem toNat_pred {s : BitVec 64} (h : 0 < s.toNat) : (s - 1).toNat = s.toNat - 1 := by
  have hone : (1 : BitVec 64).toNat = 1 := rfl
  rw [BitVec.toNat_sub, hone]
  omega

theorem toNat_succ {e : BitVec 64} (h : e.toNat + 1 < 2 ^ 64) : (e + 1).toNat = e.toNat + 1 := by
  have hone : (1 : BitVec 64).toNat = 1 := rfl
  rw [BitVec.toNat_add, hone, Nat.mod_eq_of_lt h]

/-! ## What is removed -/

/-- Removing `[s, e]` fails for want of memory, or is set difference. -/
def Removes (xmalloc : Bool) (l : List Range) (s e : BitVec 64) (out : Option (Int × List Range)) :
    Prop :=
  (xmalloc = false ∧ out = some (enomem, l)) ∨
    ∃ l', out = some (0, l') ∧ Kept l' ∧ members l' = members l \ Set.Icc s.toNat e.toNat

section Removes

variable {p k q r : List Range} {s e : BitVec 64} {c x : Range} {xmalloc : Bool}

/-- The ranges `k` in the middle are replaced by what is left of them. -/
theorem removes_middle (hl : Kept (p ++ (k ++ q))) (hp : ∀ y ∈ p, y.hi < s.toNat)
    (hq : ∀ y ∈ q, e.toNat < y.lo) (hr : Kept r)
    (hin : ∀ y ∈ r, ∃ y' ∈ k, y'.lo ≤ y.lo ∧ y.hi ≤ y'.hi)
    (hm : members r = members k \ Set.Icc s.toNat e.toNat) :
    Removes xmalloc (p ++ (k ++ q)) s e (some (0, p ++ (r ++ q))) :=
  .inr ⟨_, rfl, hl.replace hr hin, covered_diff hp hq hm⟩

theorem members_singleton : members [x] = Set.Icc x.lo x.hi := by
  unfold members
  rw [covered_cons, covered_nil, Set.union_empty]

theorem kept_singleton (h : x.lo ≤ x.hi) : Kept [x] := spaced_cons.mpr ⟨h, spaced_nil, by simp⟩

/-- Nothing in the list meets `[s, e]`. -/
theorem removes_none {a : List Range} (hl : Kept (a ++ q)) (ha : ∀ y ∈ a, y.hi < s.toNat)
    (hq : ∀ y ∈ q, e.toNat < y.lo) : Removes xmalloc (a ++ q) s e (some (0, a ++ q)) := by
  refine removes_middle (k := []) (r := []) hl ha hq spaced_nil (by simp) ?_
  unfold members
  rw [covered_nil, Set.empty_sdiff]

/-- One range is replaced by the part `c` of it that is left. -/
theorem removes_part (hl : Kept (p ++ x :: q)) (hp : ∀ y ∈ p, y.hi < s.toNat)
    (hq : ∀ y ∈ q, e.toNat < y.lo) (hc : c.lo ≤ c.hi) (hin : x.lo ≤ c.lo ∧ c.hi ≤ x.hi)
    (hm : ∀ z, c.lo ≤ z ∧ z ≤ c.hi ↔ (x.lo ≤ z ∧ z ≤ x.hi) ∧ ¬(s.toNat ≤ z ∧ z ≤ e.toNat)) :
    Removes xmalloc (p ++ x :: q) s e (some (0, p ++ c :: q)) := by
  refine removes_middle (k := [x]) (r := [c]) hl hp hq (kept_singleton hc) (fun y hy => ?_) ?_
  · rw [List.mem_singleton.mp hy]
    exact ⟨x, List.mem_singleton_self x, hin⟩
  · rw [members_singleton, members_singleton]
    ext z
    exact hm z

/-- A part of the range is left on both sides. -/
theorem removes_split (hl : Kept (p ++ x :: q)) (hp : ∀ y ∈ p, y.hi < s.toNat)
    (hq : ∀ y ∈ q, e.toNat < y.lo) (hse : s.toNat ≤ e.toNat) (hlo : x.lo < s.toNat)
    (hhi : e.toNat < x.hi) :
    Removes xmalloc (p ++ x :: q) s e
      (some (0, p ++ ([⟨x.s, s - 1⟩, ⟨e + 1, x.e⟩] ++ q))) := by
  have hmax : x.hi < 2 ^ 64 := x.e.isLt
  have hs := toNat_pred (s := s) (by omega)
  have he := toNat_succ (e := e) (by omega)
  refine removes_middle (k := [x]) hl hp hq ?_ (fun y hy => ⟨x, List.mem_singleton_self x, ?_⟩) ?_
  · refine spaced_cons.mpr ⟨?_, kept_singleton ?_, fun y hy => ?_⟩
    · change x.lo ≤ (s - 1).toNat
      omega
    · change (e + 1).toNat ≤ x.hi
      omega
    · rw [List.mem_singleton.mp hy]
      change (s - 1).toNat + 1 < (e + 1).toNat
      omega
  · rcases List.mem_cons.mp hy with rfl | hy
    · change x.lo ≤ x.lo ∧ (s - 1).toNat ≤ x.hi
      omega
    · rw [List.mem_singleton.mp hy]
      change x.lo ≤ (e + 1).toNat ∧ x.hi ≤ x.hi
      omega
  · rw [members_singleton]
    unfold members
    rw [covered_cons, covered_cons, covered_nil, Set.union_empty]
    ext z
    simp only [Set.mem_union, Set.mem_Icc, Set.mem_sdiff]
    change (x.lo ≤ z ∧ z ≤ (s - 1).toNat) ∨ ((e + 1).toNat ≤ z ∧ z ≤ x.hi) ↔ _
    omega

/-- One range has both ends of `[s, e]`. -/
theorem removes_inside (hl : Kept (p ++ x :: q)) (hx : x.lo ≤ s.toNat) (htouch : s.toNat ≤ x.hi)
    (hse : s ≤ e) (hq : ∀ y ∈ q, e.toNat < y.lo) :
    Removes xmalloc (p ++ x :: q) s e (some (removeInside xmalloc (p ++ x :: q) p.length x s e)) := by
  have hse' : s.toNat ≤ e.toNat := hse
  rcases spaced_append.mp hl with ⟨-, -, hcross⟩
  have hp : ∀ y ∈ p, y.hi < s.toNat := fun y hy => by
    have := hcross y hy x (List.mem_cons_self ..)
    omega
  have hlo : x.s < s ↔ x.lo < s.toNat := Iff.rfl
  have hhi : e < x.e ↔ e.toNat < x.hi := Iff.rfl
  have hle : x.e ≤ e ↔ x.hi ≤ e.toNat := Iff.rfl
  have heq : x.s = s ↔ x.lo = s.toNat := BitVec.toNat_inj.symm
  have hmax : x.hi < 2 ^ 64 := x.e.isLt
  unfold removeInside
  split
  · next hsplit =>
      rw [hlo, hhi] at hsplit
      cases xmalloc with
      | false => exact .inl ⟨rfl, rfl⟩
      | true =>
          have hout : insertRange (setEnd (p ++ x :: q) p.length (s - 1)) (some p.length) ⟨e + 1, x.e⟩
              = p ++ ([⟨x.s, s - 1⟩, ⟨e + 1, x.e⟩] ++ q) := by
            have := insertIdx_append (p ++ [⟨x.s, s - 1⟩]) q ⟨e + 1, x.e⟩
            rw [List.length_append, List.length_singleton, List.append_assoc, List.append_assoc] at this
            unfold insertRange insertPos
            rw [setEnd, modify_self]
            exact this
          rw [if_pos rfl, hout]
          exact removes_split hl hp hq hse' hsplit.1 hsplit.2
  · next hsplit =>
      rw [hlo, hhi] at hsplit
      split
      · next hall =>
          rw [heq, hle] at hall
          rw [destroy_self]
          refine removes_middle (k := [x]) (r := []) hl hp hq spaced_nil (by simp) ?_
          rw [members_singleton]
          unfold members
          rw [covered_nil]
          refine (Set.sdiff_eq_empty.mpr fun z hz => ?_).symm
          have hz' : x.lo ≤ z ∧ z ≤ x.hi := hz
          exact ⟨by omega, by omega⟩
      · next hall =>
          rw [heq, hle] at hall
          split
          · next hstart =>
              rw [heq] at hstart
              have he := toNat_succ (e := e) (by omega)
              rw [setStart, modify_self]
              refine removes_part hl hp hq ?_ ?_ fun z => ?_
              · change (e + 1).toNat ≤ x.hi
                omega
              · change x.lo ≤ (e + 1).toNat ∧ x.hi ≤ x.hi
                omega
              · change (e + 1).toNat ≤ z ∧ z ≤ x.hi ↔ _
                omega
          · next hstart =>
              rw [heq] at hstart
              have hs := toNat_pred (s := s) (by omega)
              rw [if_pos (hle.mpr (by omega)), setEnd, modify_self]
              refine removes_part hl hp hq ?_ ?_ fun z => ?_
              · change x.lo ≤ (s - 1).toNat
                omega
              · change x.lo ≤ x.lo ∧ (s - 1).toNat ≤ x.hi
                omega
              · change x.lo ≤ z ∧ z ≤ (s - 1).toNat ↔ _
                omega

theorem remainder_members {e : BitVec 64} (he : e.toNat + 1 < 2 ^ 64) (hlo : c.lo ≤ e.toNat) :
    Kept (remainder c e) ∧ (∀ y ∈ remainder c e, e.toNat + 1 ≤ y.lo ∧ y.hi = c.hi) ∧
      members (remainder c e) = Set.Icc c.lo c.hi \ Set.Iic e.toNat := by
  have hsucc := toNat_succ he
  have hlt : c.e < e + 1 ↔ c.hi < e.toNat + 1 := by
    rw [BitVec.lt_def, hsucc]
    rfl
  unfold remainder
  split
  · next hend =>
      rw [hlt] at hend
      refine ⟨spaced_nil, by simp, ?_⟩
      unfold members
      rw [covered_nil]
      refine (Set.sdiff_eq_empty.mpr fun z hz => ?_).symm
      have hz' : c.lo ≤ z ∧ z ≤ c.hi := hz
      exact Set.mem_Iic.mpr (by omega)
  · next hend =>
      rw [hlt] at hend
      refine ⟨kept_singleton ?_, fun y hy => ?_, ?_⟩
      · change (e + 1).toNat ≤ c.hi
        omega
      · rw [List.mem_singleton.mp hy]
        change e.toNat + 1 ≤ (e + 1).toNat ∧ c.hi = c.hi
        omega
      · rw [members_singleton]
        ext z
        simp only [Set.mem_Icc, Set.mem_sdiff, Set.mem_Iic]
        change (e + 1).toNat ≤ z ∧ z ≤ c.hi ↔ _
        omega

/-- Ranges between the two ends: all that is left is the part of the last one after `e`. -/
theorem removes_cut (hl : Kept (p ++ (k ++ c :: q))) (he : e.toNat + 1 < 2 ^ 64)
    (hp : ∀ y ∈ p, y.hi < s.toNat) (hk : ∀ y ∈ k, s.toNat ≤ y.lo) (hc : s.toNat ≤ c.lo ∧ c.lo ≤ e.toNat)
    (hq : ∀ y ∈ q, e.toNat < y.lo) :
    Removes xmalloc (p ++ (k ++ c :: q)) s e (some (0, p ++ (remainder c e ++ q))) := by
  rcases remainder_members he hc.2 with ⟨hkept, hin, hmem⟩
  rcases spaced_append.mp hl with ⟨-, hkcq, -⟩
  rcases spaced_append.mp hkcq with ⟨-, -, hcross⟩
  have happ : k ++ c :: q = (k ++ [c]) ++ q := by simp
  rw [happ] at hl ⊢
  refine removes_middle hl hp hq hkept (fun y hy => ⟨c, by simp, ?_⟩) ?_
  · have := hin y hy
    omega
  · rw [hmem]
    unfold members
    rw [covered_append, covered_cons, covered_nil, Set.union_empty, Set.union_sdiff_distrib]
    have hnone : covered Range.lo Range.hi k \ Set.Icc s.toNat e.toNat = ∅ := by
      refine Set.sdiff_eq_empty.mpr ?_
      rintro z ⟨y, hy, hylo, hyhi⟩
      have h1 := hk y hy
      have h2 := hcross y hy c (List.mem_cons_self ..)
      exact ⟨by omega, by omega⟩
    rw [hnone, Set.empty_union]
    ext z
    simp only [Set.mem_Icc, Set.mem_sdiff, Set.mem_Iic]
    omega

/-- The first range that is met is cut off before `s`. -/
theorem removes_cutBoth (hl : Kept (p ++ x :: (k ++ c :: q))) (he : e.toNat + 1 < 2 ^ 64)
    (hx : x.lo < s.toNat ∧ s.toNat ≤ x.hi + 1) (hk : ∀ y ∈ k, s.toNat ≤ y.lo)
    (hc : s.toNat ≤ c.lo ∧ c.lo ≤ e.toNat) (hq : ∀ y ∈ q, e.toNat < y.lo) :
    Removes xmalloc (p ++ x :: (k ++ c :: q)) s e
      (some (0, p ++ ⟨x.s, s - 1⟩ :: (remainder c e ++ q))) := by
  have hs := toNat_pred (s := s) (by omega)
  rcases spaced_append.mp hl with ⟨hpk, hxkcq, hcross⟩
  rcases spaced_cons.mp hxkcq with ⟨hord, hkcq, hafter⟩
  -- the range cut off is the last one below `s`
  have hcut : Kept ((p ++ [⟨x.s, s - 1⟩]) ++ (k ++ c :: q)) := by
    rw [List.append_assoc, List.singleton_append]
    refine spaced_append.mpr ⟨hpk, spaced_cons.mpr ⟨?_, hkcq, fun y hy => ?_⟩, fun y hy z hz => ?_⟩
    · change x.lo ≤ (s - 1).toNat
      omega
    · have := hafter y hy
      change (s - 1).toNat + 1 < y.lo
      omega
    · rcases List.mem_cons.mp hz with rfl | hz
      · exact hcross y hy x (List.mem_cons_self ..)
      · exact hcross y hy z (List.mem_cons_of_mem _ hz)
  have hbelow : ∀ y ∈ p ++ [(⟨x.s, s - 1⟩ : Range)], y.hi < s.toNat := by
    intro y hy
    rcases List.mem_append.mp hy with hy | hy
    · have := hcross y hy x (List.mem_cons_self ..)
      omega
    · rw [List.mem_singleton.mp hy]
      change (s - 1).toNat < s.toNat
      omega
  have hxc := hafter c (by simp)
  have hrest : Removes true ((p ++ [⟨x.s, s - 1⟩]) ++ (k ++ c :: q)) s e _ :=
    removes_cut hcut he hbelow hk hc hq
  rcases hrest with ⟨hbad, -⟩ | ⟨l', hout, hkept, hmem⟩
  · nomatch hbad
  · injection hout with hout
    injection hout with _ hout
    rw [List.append_assoc, List.singleton_append] at hout
    subst hout
    refine .inr ⟨_, rfl, hkept, ?_⟩
    rw [hmem]
    unfold members
    rw [List.append_assoc, List.singleton_append, covered_append, covered_append, covered_cons,
      covered_cons, Set.union_sdiff_distrib, Set.union_sdiff_distrib, Set.union_sdiff_distrib,
      Set.union_sdiff_distrib]
    congr 2
    ext z
    simp only [Set.mem_Icc, Set.mem_sdiff]
    change (x.lo ≤ z ∧ z ≤ (s - 1).toNat) ∧ _ ↔ _
    omega

end Removes

/-! ## The operation -/

/-- No range starts in `(s, e]`; or `e + 1` does not wrap, and `s` is below all ranges, in
one or right after one. -/
def Removable (l : List Range) (s e : BitVec 64) : Prop :=
  (∀ r ∈ l, r.lo ≤ s.toNat ∨ e.toNat < r.lo) ∨
    (e.toNat + 1 < 2 ^ 64 ∧
      ((∀ r ∈ l, s.toNat < r.lo) ∨ ∃ r ∈ l, r.lo ≤ s.toNat ∧ s.toNat ≤ r.hi + 1))

section Remove

variable {l a k q : List Range} {s e : BitVec 64} {c : Range} {xmalloc : Bool}

/-- Both lookups find the same range. -/
theorem removeRange_same (hl : Kept (a ++ q)) (hse : s ≤ e) (ha : ∀ r ∈ a, r.lo ≤ s.toNat)
    (hq : ∀ r ∈ q, e.toNat < r.lo) :
    Removes xmalloc (a ++ q) s e (rangesetRemoveRange 0 xmalloc (a ++ q) s e) := by
  have hse' : s.toNat ≤ e.toNat := hse
  have hx := findRange_append ha fun r hr => lt_of_le_of_lt hse' (hq r hr)
  have hy := findRange_append (s := e) (fun r hr => (ha r hr).trans hse') hq
  unfold rangesetRemoveRange
  rw [if_neg (not_not.mpr rfl)]
  dsimp only
  rw [hx, hy, if_pos rfl]
  rcases List.eq_nil_or_concat a with rfl | ⟨a', x, hax⟩
  · exact removes_none hl (by simp) hq
  · rw [List.concat_eq_append] at hax
    subst hax
    have hax : Kept (a' ++ [x]) := (spaced_append.mp hl).1
    have happ : a' ++ [x] ++ q = a' ++ x :: q := by simp
    have hfound : (if a' ++ [x] = [] then none else some ((a' ++ [x]).length - 1)) =
        some a'.length := by simp
    rw [hfound]
    dsimp only
    rw [happ, getElem?_self, Option.map_some]
    split
    · next hbefore =>
        have hx : x.hi < s.toNat := hbefore
        rw [← happ]
        refine removes_none hl (fun r hr => ?_) hq
        rcases List.mem_append.mp hr with hr | hr
        · have h1 := (spaced_append.mp hax).2.2 r hr x (List.mem_singleton_self x)
          have h2 := ha x (by simp)
          omega
        · rw [List.mem_singleton.mp hr]
          exact hx
    · next hbefore =>
        rw [happ] at hl
        exact removes_inside hl (ha x (by simp)) (not_lt.mp hbefore) hse hq

/-- What is left of the ranges `a` that start at `s` or before, if others start up to `e`. -/
inductive CutAt (s : BitVec 64) : List Range → List Range → Prop
  | none : CutAt s [] []
  | start (a : List Range) (x : Range) (h : x.lo = s.toNat) : CutAt s (a ++ [x]) a
  | before (a : List Range) (x : Range) (h : x.lo < s.toNat) :
      CutAt s (a ++ [x]) (a ++ [⟨x.s, s - 1⟩])

/-- The lookups find different ranges. -/
theorem removeRange_two (xmalloc : Bool) (hse : s ≤ e) (ha : ∀ r ∈ a, r.lo ≤ s.toNat)
    (hk : ∀ r ∈ k ++ [c], s.toNat < r.lo ∧ r.lo ≤ e.toNat) (hq : ∀ r ∈ q, e.toNat < r.lo) :
    ∃ p, CutAt s a p ∧
      rangesetRemoveRange 0 xmalloc (a ++ (k ++ c :: q)) s e
        = some (0, p ++ (remainder c e ++ q)) := by
  have hse' : s.toNat ≤ e.toNat := hse
  have hkc : k ++ c :: q = k ++ [c] ++ q := by simp
  have hx : findRange (a ++ (k ++ c :: q)) s = if a = [] then none else some (a.length - 1) := by
    refine findRange_append ha fun r hr => ?_
    rw [hkc] at hr
    rcases List.mem_append.mp hr with hr | hr
    · exact (hk r hr).1
    · exact lt_of_le_of_lt hse' (hq r hr)
  have hy : findRange (a ++ (k ++ c :: q)) e = some (a.length + k.length) := by
    have h := findRange_snoc (p := a ++ k) (c := c) (s := e) (q := q) (fun r hr => ?_) hq
    · rw [List.append_assoc, List.length_append] at h
      exact h
    · rw [List.append_assoc] at hr
      rcases List.mem_append.mp hr with hr | hr
      · exact (ha r hr).trans hse'
      · exact (hk r hr).2
  unfold rangesetRemoveRange
  rw [if_neg (not_not.mpr rfl)]
  dsimp only
  rw [hx, hy]
  rcases List.eq_nil_or_concat a with rfl | ⟨a', x, hax⟩
  · refine ⟨[], .none, ?_⟩
    have hfirst : firstRange ([] ++ (k ++ c :: q)) = some 0 := if_neg (by simp)
    have hcut : cutStart ([] ++ (k ++ c :: q)) 0 s = some (0, [] ++ (k ++ c :: q)) := by
      unfold cutStart
      cases k with
      | nil =>
          have hlo := (hk c (by simp)).1
          simp only [List.nil_append, List.getElem?_cons_zero, Option.bind_some]
          exact if_neg (not_lt.mpr (le_of_lt hlo))
      | cons y k =>
          have hlo := (hk y (by simp)).1
          simp only [List.nil_append, List.cons_append, List.getElem?_cons_zero, Option.bind_some]
          exact if_neg (not_lt.mpr (le_of_lt hlo))
    rw [if_pos rfl, if_neg (by simp)]
    dsimp only
    rw [hfirst, Option.bind_some, hcut, Option.bind_some]
    dsimp only
    rw [Option.bind_some]
    exact cut_eq (p := [])
  · rw [List.concat_eq_append] at hax
    subst hax
    have hfound : (if a' ++ [x] = [] then none else some ((a' ++ [x]).length - 1)) =
        some a'.length := by simp
    have happ : a' ++ [x] ++ (k ++ c :: q) = a' ++ x :: (k ++ c :: q) := by simp
    have hlen : (a' ++ [x]).length + k.length = a'.length + (x :: k).length := by
      simp
      omega
    rw [hfound, if_neg (by simp; omega)]
    dsimp only
    rw [Option.bind_some, happ]
    unfold cutStart
    rw [getElem?_self, Option.bind_some]
    split
    · -- `x` is cut off
      next hlt =>
        have hnext : nextRange (a' ++ x :: (k ++ c :: q)) a'.length = some (a' ++ [x]).length := by
          unfold nextRange
          rw [if_pos (by simp only [List.length_append, List.length_cons]; omega), List.length_append, List.length_singleton]
        refine ⟨a' ++ [⟨x.s, s - 1⟩], .before a' x hlt, ?_⟩
        rw [hnext, Option.map_some, Option.bind_some]
        dsimp only
        rw [Option.bind_some, setEnd, modify_self]
        have h := cut_eq (p := a' ++ [⟨x.s, s - 1⟩]) (k := k) (c := c) (q := q) (e := e)
        rw [List.append_assoc, List.singleton_append, List.length_append, List.length_singleton] at h
        rw [List.length_append, List.length_singleton]
        exact h
    · -- `x` starts at `s`, and goes too
      next hlt =>
        have hle := ha x (by simp)
        have hge : s.toNat ≤ x.lo := not_lt.mp hlt
        refine ⟨a', .start a' x (le_antisymm hle hge), ?_⟩
        rw [Option.bind_some]
        dsimp only
        rw [Option.bind_some, hlen]
        exact cut_eq (k := x :: k)

/-- Ranges are found between the two ends, and neither slip is met. -/
theorem CutAt.removes {p : List Range} (h : CutAt s a p) (hl : Kept (a ++ (k ++ c :: q)))
    (he : e.toNat + 1 < 2 ^ 64) (ha : ∀ r ∈ a, r.lo ≤ s.toNat)
    (hk : ∀ r ∈ k ++ [c], s.toNat < r.lo ∧ r.lo ≤ e.toNat) (hq : ∀ r ∈ q, e.toNat < r.lo)
    (hgap : a = [] ∨ ∃ r ∈ a, s.toNat ≤ r.hi + 1) :
    Removes xmalloc (a ++ (k ++ c :: q)) s e (some (0, p ++ (remainder c e ++ q))) := by
  have hks : ∀ r ∈ k, s.toNat ≤ r.lo := fun r hr => le_of_lt (hk r (List.mem_append_left _ hr)).1
  have hc : s.toNat ≤ c.lo ∧ c.lo ≤ e.toNat := by
    have := hk c (by simp)
    omega
  cases h with
  | none => exact removes_cut (p := []) hl he (by simp) hks hc hq
  | start a' x hx =>
      rw [List.append_assoc, List.singleton_append] at hl ⊢
      refine removes_cut (k := x :: k) hl he (fun r hr => ?_) (fun r hr => ?_) hc hq
      · have := (spaced_append.mp hl).2.2 r hr x (List.mem_cons_self ..)
        omega
      · rcases List.mem_cons.mp hr with rfl | hr
        · omega
        · exact hks r hr
  | before a' x hx =>
      rw [List.append_assoc, List.singleton_append] at hl ⊢
      rw [List.append_assoc, List.singleton_append]
      refine removes_cutBoth hl he ⟨hx, ?_⟩ hks hc hq
      rcases hgap with hnil | ⟨r, hr, hrs⟩
      · simp at hnil
      · rcases List.mem_append.mp hr with hr | hr
        · have := (spaced_append.mp hl).2.2 r hr x (List.mem_cons_self ..)
          omega
        · rw [List.mem_singleton.mp hr] at hrs
          exact hrs

/-- `e + 1` wraps: the last range is still there. -/
theorem not_removes_wrap {p : List Range} (he : ¬e.toNat + 1 < 2 ^ 64) (hord : c.lo ≤ c.hi)
    (hc : s.toNat < c.lo) :
    ¬Removes xmalloc l s e (some (0, p ++ (remainder c e ++ q))) := by
  have hmax : e + 1 = 0 := by
    apply BitVec.eq_of_toNat_eq
    have hone : (1 : BitVec 64).toNat = 1 := rfl
    rw [BitVec.toNat_add, hone, show e.toNat + 1 = 2 ^ 64 by omega]
    rfl
  have hrem : remainder c e = [⟨0, c.e⟩] := by
    unfold remainder
    rw [hmax]
    exact if_neg (Nat.not_lt_zero _)
  rintro (⟨-, hbad⟩ | ⟨l', hout, -, hmem⟩)
  · injection hbad with hbad
    injection hbad with hbad
    nomatch hbad
  · injection hout with hout
    injection hout with _ hout
    have hin : c.hi ∈ members l' := by
      refine ⟨⟨0, c.e⟩, ?_, Nat.zero_le _, le_rfl⟩
      rw [← hout, hrem]
      simp
    rw [hmem] at hin
    have hce : c.hi < 2 ^ 64 := c.e.isLt
    exact hin.2 ⟨by omega, by omega⟩

/-- `s` is in a gap: the range before the gap grows. -/
theorem not_removes_grow {x : Range} {r : List Range} (hl : Kept (a ++ x :: r))
    (hx : x.hi + 1 < s.toNat) (hr : ∀ y ∈ r, s.toNat < y.lo) (hlo : x.lo < s.toNat) :
    ¬Removes xmalloc (a ++ x :: r) s e (some (0, a ++ [⟨x.s, s - 1⟩] ++ q)) := by
  have hs := toNat_pred (s := s) (by omega)
  rintro (⟨-, hbad⟩ | ⟨l', hout, -, hmem⟩)
  · injection hbad with hbad
    injection hbad with hbad
    nomatch hbad
  · injection hout with hout
    injection hout with _ hout
    have hin : s.toNat - 1 ∈ members l' := by
      refine ⟨⟨x.s, s - 1⟩, ?_, ?_, ?_⟩
      · rw [← hout]
        simp
      · change x.lo ≤ s.toNat - 1
        omega
      · change s.toNat - 1 ≤ (s - 1).toNat
        omega
    rw [hmem] at hin
    rcases hin.1 with ⟨y, hy, hylo, hyhi⟩
    rcases List.mem_append.mp hy with hy | hy
    · have h1 := (spaced_append.mp hl).2.2 y hy x (List.mem_cons_self ..)
      omega
    · rcases List.mem_cons.mp hy with rfl | hy
      · omega
      · have := hr y hy
        omega

/-- Removing is set difference exactly if the range is `Removable`. -/
theorem rangeset_difference_iff (hl : Kept l) (hse : s ≤ e) (xsm : Int) (xmalloc : Bool) :
    (xsm ≠ 0 → rangesetRemoveRange xsm xmalloc l s e = some (xsm, l)) ∧
    (xsm = 0 → (Removes xmalloc l s e (rangesetRemoveRange xsm xmalloc l s e) ↔
      Removable l s e)) := by
  refine ⟨fun hxsm => if_pos hxsm, ?_⟩
  rintro rfl
  have hse' : s.toNat ≤ e.toNat := hse
  rcases split_at hl s e with ⟨a, m, q, rfl, ha, hm, hq⟩
  rcases List.eq_nil_or_concat m with rfl | ⟨k, c, hkc⟩
  · -- no range starts in between
    refine iff_of_true (removeRange_same hl hse ha hq) (.inl fun r hr => ?_)
    rcases List.mem_append.mp hr with hr | hr
    · exact .inl (ha r hr)
    · exact .inr (hq r hr)
  · rw [List.concat_eq_append] at hkc
    subst hkc
    have happ : k ++ [c] ++ q = k ++ c :: q := by simp
    rw [happ] at hl ⊢
    have hcm := hm c (by simp)
    have hord : c.lo ≤ c.hi := hl.ordered c (by simp)
    have hafter : ∀ y ∈ k ++ c :: q, s.toNat < y.lo := by
      intro y hy
      rw [← happ] at hy
      rcases List.mem_append.mp hy with hy | hy
      · exact (hm y hy).1
      · exact lt_of_le_of_lt hse' (hq y hy)
    rcases removeRange_two xmalloc hse ha hm hq with ⟨p, hcut, hout⟩
    rw [hout]
    constructor
    · intro hrem
      have he : e.toNat + 1 < 2 ^ 64 := by
        by_contra he
        exact not_removes_wrap he hord hcm.1 hrem
      refine .inr ⟨he, ?_⟩
      cases hcut with
      | none => exact .inl hafter
      | start a' x hx => exact .inr ⟨x, by simp, hx.le, by have := hl.ordered x (by simp); omega⟩
      | before a' x hx =>
          refine .inr ⟨x, by simp, hx.le, ?_⟩
          by_contra hgap
          rw [List.append_assoc, List.singleton_append] at hl hrem
          exact not_removes_grow hl (by omega) hafter hx hrem
    · rintro (hnone | ⟨he, hgap⟩)
      · have := hnone c (by simp)
        omega
      · refine hcut.removes hl he ha hm hq ?_
        rcases hgap with hbelow | ⟨r, hr, hlo, hhi⟩
        · refine .inl (List.eq_nil_iff_forall_not_mem.mpr fun r hr => ?_)
          have h1 := ha r hr
          have h2 := hbelow r (List.mem_append_left _ hr)
          omega
        · refine .inr ⟨r, ?_, hhi⟩
          rcases List.mem_append.mp hr with hr | hr
          · exact hr
          · have := hafter r hr
            omega

end Remove

/-- From inside one range into another. -/
theorem rangeset_difference_iff_inside :
    Removes true [⟨1, 3⟩, ⟨6, 9⟩] 2 7 (rangesetRemoveRange 0 true [⟨1, 3⟩, ⟨6, 9⟩] 2 7) := by
  have hkept : Kept [⟨1, 3⟩, ⟨6, 9⟩] :=
    ⟨by simp [Range.lo, Range.hi], by simp [Range.lo, Range.hi]⟩
  refine ((rangeset_difference_iff hkept (by decide) 0 true).2 rfl).mpr (.inr ⟨by decide, .inr ?_⟩)
  exact ⟨⟨1, 3⟩, by simp, by decide, by decide⟩

/-- Removing from a gap on makes the number 4 a member. -/
theorem rangeset_remove_grows :
    ¬Removes true [⟨1, 3⟩, ⟨10, 12⟩] 5 11 (rangesetRemoveRange 0 true [⟨1, 3⟩, ⟨10, 12⟩] 5 11) := by
  have hout : rangesetRemoveRange 0 true [⟨1, 3⟩, ⟨10, 12⟩] 5 11
      = some (0, [⟨1, 4⟩, ⟨12, 12⟩]) := by
    decide +kernel
  rw [hout]
  rintro (⟨hbad, -⟩ | ⟨l', hl', -, hmem⟩)
  · nomatch hbad
  · injection hl' with hl'
    injection hl' with _ hl'
    have hin : 4 ∈ members l' := ⟨⟨1, 4⟩, by rw [← hl']; simp, by decide, by decide⟩
    rw [hmem] at hin
    rcases hin.1 with ⟨r, hr, hlo, hhi⟩
    revert hlo hhi
    rcases List.mem_cons.mp hr with rfl | hr
    · decide
    · rw [List.mem_singleton.mp hr]
      decide

end Rangeset
