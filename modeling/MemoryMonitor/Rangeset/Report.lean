import MemoryMonitor.Rangeset.Add

/-!
# Reporting the ranges of a rangeset

`rangeset_report_ranges` passes the parts of the ranges within `[s, e]` to a callback, until the callback
answers something else than 0. The walk starts at the range that `find_range` finds for `s`. A range that
starts above `s` is only reached from one that does not: where there is none, nothing is reported.

`rangeset_remove_range`, which starts from the same lookup, takes the first range when it finds none.
-/

namespace Rangeset

open Intervals

variable {σ : Type}

/-- `cb` with its `ctxt`: what it answers, and what it leaves in the context. -/
abbrev Callback (σ : Type) := BitVec 64 → BitVec 64 → σ → Int × σ

/-- `max` and `min` of two `unsigned long`s. -/
def maxUL (a b : BitVec 64) : BitVec 64 := if b < a then a else b
def minUL (a b : BitVec 64) : BitVec 64 := if a < b then a else b

/-- The loop, from the range in front of the list on. -/
def reportLoop (s e : BitVec 64) (cb : Callback σ) : List Range → Int → σ → Int × σ
  | [], rc, ctxt => (rc, ctxt)
  | x :: rest, rc, ctxt =>
    if x.s ≤ e ∧ rc = 0 then
      if s ≤ x.e then
        let (rc, ctxt) := cb (maxUL x.s s) (minUL x.e e) ctxt
        reportLoop s e cb rest rc ctxt
      else reportLoop s e cb rest rc ctxt
    else (rc, ctxt)

def rangesetReportRanges (r : List Range) (s e : BitVec 64) (cb : Callback σ) (ctxt : σ) : Int × σ :=
  match findRange r s with
  | none => (0, ctxt)
  | some i => reportLoop s e cb (r.drop i) 0 ctxt

/-! ## What is reported -/

/-- The callback, with a note of the intervals that it is given and of its answers. -/
def noting (cb : Callback σ) : Callback (σ × List (Range × Int)) := fun a b c =>
  let (rc, ctxt) := cb a b c.1
  (rc, ctxt, c.2 ++ [(⟨a, b⟩, rc)])

/-- The intervals that the callback is given, with its answers. -/
def reported (r : List Range) (s e : BitVec 64) (cb : Callback σ) (ctxt : σ) : List (Range × Int) :=
  (rangesetReportRanges r s e (noting cb) (ctxt, [])).2.2

/-- The intervals are, in ascending order, the longest ones of the members within `[s, e]`. -/
structure Exact (r : List Range) (s e : BitVec 64) (calls : List Range) : Prop where
  ascending : calls.Pairwise fun a b => a.hi < b.lo
  longest : ∀ x : Range, x ∈ calls ↔ LongestIn (members r ∩ Set.Icc s.toNat e.toNat) x.lo x.hi

/-- The call that is answered by something else than 0 is the last one, and its answer is returned. -/
structure Stops (rc : Int) (calls : List (Range × Int)) : Prop where
  last : ∀ i x a, calls[i]? = some (x, a) → a ≠ 0 → i + 1 = calls.length ∧ rc = a
  zero : (∀ c ∈ calls, c.2 = 0) → rc = 0

/-- A range cut off at `s` and `e`. -/
def Range.clamp (s e : BitVec 64) (x : Range) : Range := ⟨maxUL x.s s, minUL x.e e⟩

/-! ## The loop -/

variable {r : List Range} {s e : BitVec 64} {cb : Callback σ}

theorem toNat_maxUL (a b : BitVec 64) : (maxUL a b).toNat = max a.toNat b.toNat := by
  unfold maxUL
  split
  · next h => exact (max_eq_left (Nat.le_of_lt h)).symm
  · next h => exact (max_eq_right (Nat.not_lt.mp h)).symm

theorem toNat_minUL (a b : BitVec 64) : (minUL a b).toNat = min a.toNat b.toNat := by
  unfold minUL
  split
  · next h => exact (min_eq_left (Nat.le_of_lt h)).symm
  · next h => exact (min_eq_right (Nat.not_lt.mp h)).symm

theorem reportLoop_of_ne {rc : Int} (h : rc ≠ 0) (l : List Range) (ctxt : σ) :
    reportLoop s e cb l rc ctxt = (rc, ctxt) := by
  cases l with
  | nil => rfl
  | cons x rest =>
    unfold reportLoop
    rw [if_neg (fun hx => h hx.2)]

/-- Taking notes changes nothing. -/
theorem reportLoop_noting (l : List Range) (rc : Int) (ctxt : σ) (calls : List (Range × Int)) :
    (reportLoop s e (noting cb) l rc (ctxt, calls)).1 = (reportLoop s e cb l rc ctxt).1 ∧
      (reportLoop s e (noting cb) l rc (ctxt, calls)).2.1 = (reportLoop s e cb l rc ctxt).2 := by
  induction l generalizing rc ctxt calls with
  | nil => exact ⟨rfl, rfl⟩
  | cons x rest ih =>
    unfold reportLoop
    by_cases hgo : x.s ≤ e ∧ rc = 0
    · rw [if_pos hgo, if_pos hgo]
      by_cases hx : s ≤ x.e
      · rw [if_pos hx, if_pos hx]
        exact ih _ _ _
      · rw [if_neg hx, if_neg hx]
        exact ih _ _ _
    · rw [if_neg hgo, if_neg hgo]
      exact ⟨rfl, rfl⟩

theorem rangesetReportRanges_noting (r : List Range) (s e : BitVec 64) (cb : Callback σ) (ctxt : σ) :
    (rangesetReportRanges r s e (noting cb) (ctxt, [])).1 = (rangesetReportRanges r s e cb ctxt).1 ∧
      (rangesetReportRanges r s e (noting cb) (ctxt, [])).2.1 = (rangesetReportRanges r s e cb ctxt).2 := by
  unfold rangesetReportRanges
  split
  · exact ⟨rfl, rfl⟩
  · exact reportLoop_noting ..

theorem Stops.reportLoop {calls : List (Range × Int)} (h : ∀ c ∈ calls, c.2 = 0) (l : List Range) (ctxt : σ) :
    Stops (reportLoop s e (noting cb) l 0 (ctxt, calls)).1
      (reportLoop s e (noting cb) l 0 (ctxt, calls)).2.2 := by
  have hdone : Stops 0 calls := by
    constructor
    · intro i x a hi ha
      exact absurd (h _ (List.mem_of_getElem? hi)) ha
    · intro _
      rfl
  induction l generalizing ctxt calls with
  | nil => exact hdone
  | cons x rest ih =>
    unfold Rangeset.reportLoop
    by_cases hgo : x.s ≤ e
    · rw [if_pos ⟨hgo, rfl⟩]
      by_cases hx : s ≤ x.e
      · rw [if_pos hx]
        unfold noting
        dsimp only
        generalize cb (maxUL x.s s) (minUL x.e e) ctxt = out
        rcases out with ⟨rc, ctxt'⟩
        dsimp only
        by_cases hrc : rc = 0
        · subst hrc
          have hall : ∀ c ∈ calls ++ [((⟨maxUL x.s s, minUL x.e e⟩ : Range), (0 : Int))], c.2 = 0 := by
            intro c hc
            rcases List.mem_append.mp hc with hc | hc
            · exact h c hc
            · rw [List.mem_singleton.mp hc]
          exact ih hall _ ⟨fun i x a hi ha => absurd (hall _ (List.mem_of_getElem? hi)) ha, fun _ => rfl⟩
        · -- the loop is left at the next test
          have hleft := @reportLoop_of_ne _ s e (noting cb) rc hrc rest
            (ctxt', calls ++ [(⟨maxUL x.s s, minUL x.e e⟩, rc)])
          unfold noting at hleft
          rw [hleft]
          constructor
          · intro i y a hi ha
            rcases Nat.lt_or_ge i calls.length with hlt | hge
            · rw [List.getElem?_append_left hlt] at hi
              exact absurd (h _ (List.mem_of_getElem? hi)) ha
            · rw [List.getElem?_append_right hge] at hi
              have hlen := (List.getElem?_eq_some_iff.mp hi).1
              have hi0 : i - calls.length = 0 := by simpa using hlen
              rw [hi0] at hi
              cases hi
              refine ⟨?_, rfl⟩
              simp
              omega
          · intro hzero
            exact absurd (hzero _ (List.mem_append_right _ (List.mem_singleton_self _))) hrc
      · rw [if_neg hx]
        exact ih h _ hdone
    · rw [if_neg (fun hx => hgo hx.1)]
      exact hdone

/-- A callback that answers 0 is given the part of every range that meets `[s, e]`. -/
theorem reportLoop_calls (hcb : ∀ a b c, (cb a b c).1 = 0) {l : List Range} (hl : Kept l) (ctxt : σ)
    (calls : List (Range × Int)) :
    (reportLoop s e (noting cb) l 0 (ctxt, calls)).2.2.map Prod.fst =
      calls.map Prod.fst ++
        (l.filter fun x => decide (x.lo ≤ e.toNat ∧ s.toNat ≤ x.hi)).map (Range.clamp s e) := by
  induction l generalizing ctxt calls with
  | nil => simp [reportLoop]
  | cons x rest ih =>
    rcases spaced_cons.mp hl with ⟨hx, hrest, hafter⟩
    unfold reportLoop
    by_cases hgo : x.s ≤ e
    · have hlo : x.lo ≤ e.toNat := hgo
      rw [if_pos ⟨hgo, rfl⟩]
      by_cases hmeets : s ≤ x.e
      · have hhi : s.toNat ≤ x.hi := hmeets
        have hrc := hcb (maxUL x.s s) (minUL x.e e) ctxt
        have hin : decide (x.lo ≤ e.toNat ∧ s.toNat ≤ x.hi) = true := decide_eq_true ⟨hlo, hhi⟩
        rw [if_pos hmeets, List.filter_cons, if_pos hin]
        have hnote : noting cb (maxUL x.s s) (minUL x.e e) (ctxt, calls) =
            (0, (cb (maxUL x.s s) (minUL x.e e) ctxt).2, calls ++ [(x.clamp s e, 0)]) := by
          unfold noting
          rw [← hrc]
          rfl
        rw [hnote]
        dsimp only
        rw [ih hrest]
        simp
      · have hhi : ¬ s.toNat ≤ x.hi := hmeets
        rw [if_neg hmeets, List.filter_cons_of_neg (by simp [hhi]), ih hrest]
    · -- the ranges behind this one start even higher
      have hlo : ¬ x.lo ≤ e.toNat := hgo
      rw [if_neg (fun h => hgo h.1)]
      have hnone : (x :: rest).filter (fun y => decide (y.lo ≤ e.toNat ∧ s.toNat ≤ y.hi)) = [] := by
        apply List.filter_eq_nil_iff.mpr
        intro y hy
        have hle : x.lo ≤ y.lo := by
          rcases List.mem_cons.mp hy with rfl | hy
          · exact Nat.le_refl _
          · have := hafter y hy
            omega
        simp
        omega
      rw [hnone]
      simp

/-! ## The report -/

/-- The clipped ranges are what is to be reported. -/
theorem exact_clamp (hr : Kept r) (hse : s ≤ e) :
    Exact r s e ((r.filter fun x => decide (x.lo ≤ e.toNat ∧ s.toNat ≤ x.hi)).map (Range.clamp s e)) := by
  have hclip := hr.clip (s := s.toNat) (e := e.toNat) hse
  have hlo : ∀ x : Range, (x.clamp s e).lo = max x.lo s.toNat := fun x => toNat_maxUL _ _
  have hhi : ∀ x : Range, (x.clamp s e).hi = min x.hi e.toNat := fun x => toNat_minUL _ _
  constructor
  · apply List.pairwise_map.mpr
    apply hclip.apart.imp
    intro a b hab
    rw [hlo, hhi]
    exact Nat.lt_of_succ_lt hab
  · intro x
    rw [← covered_clip, hclip.longestIn_iff, List.mem_map]
    constructor
    · rintro ⟨y, hy, rfl⟩
      exact ⟨y, hy, (hlo y).symm, (hhi y).symm⟩
    · rintro ⟨y, hy, hs, he⟩
      refine ⟨y, hy, ?_⟩
      rw [← hlo] at hs
      rw [← hhi] at he
      rcases x with ⟨xs, xe⟩
      exact congrArg₂ Range.mk (BitVec.eq_of_toNat_eq hs) (BitVec.eq_of_toNat_eq he)

/-- Nothing is to be reported exactly when no range meets `[s, e]`. -/
theorem exact_nil_iff (hr : Kept r) (hse : s ≤ e) :
    Exact r s e [] ↔ ∀ x ∈ r, x.lo ≤ e.toNat → ¬ s.toNat ≤ x.hi := by
  constructor
  · intro h x hx hlo hhi
    have hmem := (exact_clamp hr hse).longest (x.clamp s e)
    rw [← h.longest] at hmem
    refine absurd (hmem.mp ?_) List.not_mem_nil
    exact List.mem_map_of_mem (List.mem_filter.mpr ⟨hx, decide_eq_true ⟨hlo, hhi⟩⟩)
  · intro h
    have hnone : (r.filter fun x => decide (x.lo ≤ e.toNat ∧ s.toNat ≤ x.hi)) = [] := by
      apply List.filter_eq_nil_iff.mpr
      intro x hx hmeets
      have hin := of_decide_eq_true hmeets
      exact h x hx hin.1 hin.2
    have hexact := exact_clamp hr hse
    rw [hnone] at hexact
    exact hexact

/-- A report stops at the first answer that is not 0; with a callback that answers 0 it is exact, unless
the first range starts in `(s, e]`. -/
theorem rangesetReportRanges_exact_iff (hr : Kept r) (hse : s ≤ e) (cb : Callback σ) (ctxt : σ) :
    Stops (rangesetReportRanges r s e cb ctxt).1 (reported r s e cb ctxt) ∧
      ((∀ a b c, (cb a b c).1 = 0) →
        (Exact r s e ((reported r s e cb ctxt).map Prod.fst) ↔
          ∀ x, r.head? = some x → x.s ≤ s ∨ e < x.s)) := by
  have hrc := (rangesetReportRanges_noting r s e cb ctxt).1
  rw [← hrc]
  unfold reported rangesetReportRanges
  rcases hr.split s.toNat with ⟨p, q, rfl, hp, hq⟩
  rw [findRange_append hp hq]
  rcases List.eq_nil_or_concat p with rfl | ⟨p, c, rfl⟩
  · -- every range starts above `s`
    rw [if_pos rfl]
    refine ⟨⟨fun i x a hi => by simp at hi, fun _ => rfl⟩, ?_⟩
    intro _
    rw [List.map_nil, exact_nil_iff hr hse]
    rw [List.nil_append] at hr ⊢
    cases q with
    | nil => simp
    | cons x q =>
      rcases spaced_cons.mp hr with ⟨hx, -, hafter⟩
      have hlt : s.toNat < x.lo := hq x List.mem_cons_self
      rw [List.head?_cons]
      constructor
      · intro hnone y hy
        cases hy
        right
        by_contra hle
        exact hnone x List.mem_cons_self (Nat.not_lt.mp hle) (by omega)
      · intro hhead y hy hlo
        have hbeyond : e.toNat < x.lo := (hhead x rfl).resolve_left (fun hle => by
          have hle' : x.lo ≤ s.toNat := hle
          omega)
        rcases List.mem_cons.mp hy with rfl | hy
        · omega
        · have := hafter y hy
          omega
  · -- the walk starts at the last range that does not start above `s`
    rw [List.concat_eq_append] at *
    rw [if_neg (by simp)]
    rw [show (p ++ [c]).length - 1 = p.length by simp, List.append_assoc]
    dsimp only
    rw [List.drop_left]
    rw [List.append_assoc] at hr
    rcases spaced_append.mp hr with ⟨-, hkept, hbefore⟩
    refine ⟨Stops.reportLoop (fun _ hc => absurd hc List.not_mem_nil) _ _, ?_⟩
    intro hcb
    have hc : c.lo ≤ s.toNat := hp c (by simp)
    have hnone : (p.filter fun x => decide (x.lo ≤ e.toNat ∧ s.toNat ≤ x.hi)) = [] := by
      apply List.filter_eq_nil_iff.mpr
      intro x hx
      have := hbefore x hx c (by simp)
      simp
      omega
    have hcalls := reportLoop_calls (s := s) (e := e) hcb hkept ctxt []
    have hexact := exact_clamp hr hse
    rw [List.filter_append, hnone, List.nil_append] at hexact
    rw [hcalls]
    refine iff_of_true hexact ?_
    intro x hx
    left
    have hmem : x ∈ p ++ [c] := by
      cases p with
      | nil =>
        cases hx
        simp
      | cons y p =>
        cases hx
        simp
    exact hp x hmem

/-- A callback that answers 0, on the ranges `[2, 5]` and `[8, 9]`. -/
theorem rangesetReportRanges_exact_two :
    Exact [⟨2, 5⟩, ⟨8, 9⟩] 3 8
      ((reported [⟨2, 5⟩, ⟨8, 9⟩] 3 8 (fun _ _ ctxt => (0, ctxt)) ()).map Prod.fst) := by
  have hkept : Kept [⟨2, 5⟩, ⟨8, 9⟩] := ⟨by decide, by decide⟩
  have h := rangesetReportRanges_exact_iff (s := 3) (e := 8) hkept (by decide)
    (fun _ _ (ctxt : Unit) => ((0 : Int), ctxt)) ()
  apply (h.2 fun _ _ _ => rfl).mpr
  intro x hx
  cases hx
  decide

/-- The only range starts above `s`: it is not reported. -/
theorem rangesetReportRanges_misses :
    Kept [⟨2, 5⟩] ∧ reported [⟨2, 5⟩] 0 9 (fun _ _ ctxt => (0, ctxt)) () = [] ∧ ¬ Exact [⟨2, 5⟩] 0 9 [] := by
  have hkept : Kept [⟨2, 5⟩] := ⟨by decide, by decide⟩
  refine ⟨hkept, rfl, ?_⟩
  rw [exact_nil_iff hkept (by decide)]
  decide

end Rangeset
