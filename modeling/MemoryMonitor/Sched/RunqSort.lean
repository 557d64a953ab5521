import MemoryMonitor.Lib.Circular

/-!
# The credit scheduler: sorting a run queue

`csched_runq_sort` (`xen/common/sched_credit.c`) on the circular list it works on. It
walks through the run queue and moves every vCPU with credits behind the last one it
has seen, so that those with credits come first and nothing else changes.
-/

namespace Sched.RunqSort

open Circular

/-- `CSCHED_PRI_TS_UNDER`. -/
def priTsUnder : Int := -1

/-- `CSCHED_PRI_IDLE`. -/
def priIdle : Int := -64

/-- `struct csched_pcpu`, as far as it is used, with the nodes of its run queue. -/
structure Pcpu (α : Type) where
  links : Links α
  /-- The head, `spc->runq`. -/
  runq : α
  pri : α → Int
  runqSortLast : Int

variable {α : Type} [DecidableEq α]

namespace Pcpu

variable (spc : Pcpu α)

/-- A vCPU with credits. -/
def Under (elem : α) : Prop := spc.pri elem ≥ priTsUnder

instance : DecidablePred spc.Under := fun _ => inferInstanceAs (Decidable (_ ≥ _))

/-- The loop; it is left after `n` turns, and at a failed assertion. -/
def sortLoop (poison : Links α) : Nat → Links α → (elem lastUnder : α) → Option (Links α)
  | n, q, elem, lastUnder =>
    if elem = spc.runq then some q
    else
      match n with
      | 0 => none
      | n + 1 =>
        let next := q.next elem
        if spc.Under elem then
          if q.prev elem ≠ lastUnder then
            (q.listDel poison elem).bind fun q => sortLoop poison n (q.listAdd elem lastUnder) next elem
          else sortLoop poison n q next elem
        else sortLoop poison n q next lastUnder

/-- `csched_runq_sort`. -/
def cschedRunqSort (poison : Links α) (n : Nat) (sortEpoch : Int) : Option (Pcpu α) :=
  if sortEpoch = spc.runqSortLast then some spc
  else
    (spc.sortLoop poison n spc.links (spc.links.next spc.runq) spc.runq).map fun q =>
      { spc with links := q, runqSortLast := sortEpoch }

/-! ## The loop -/

variable {spc}

/-- `ups` and `downs` have been seen, and `rest` has not. -/
theorem sortLoop_ring {poison q : Links α} {ups downs rest : List α} {n : Nat} (hn : rest.length ≤ n)
    (h : Circular q spc.runq (ups ++ downs ++ rest)) (hdowns : ∀ x ∈ downs, ¬ spc.Under x) :
    ∃ q', spc.sortLoop poison n q (rest.headD spc.runq) (ups.getLastD spc.runq) = some q' ∧
      Circular q' spc.runq (ups ++ rest.filter spc.Under ++ (downs ++ rest.filter fun x => ¬ spc.Under x)) := by
  induction rest generalizing q ups downs n with
  | nil =>
    unfold sortLoop
    rw [List.headD_nil, if_pos rfl]
    exact ⟨q, rfl, by simpa using h⟩
  | cons elem rest ih =>
    obtain ⟨n, rfl⟩ : ∃ m, n = m + 1 := ⟨n - 1, by simp at hn; omega⟩
    have hn : rest.length ≤ n := by simpa using hn
    obtain ⟨hhead, hnd⟩ := List.nodup_cons.mp h.nodup
    have hne : elem ≠ spc.runq := by
      rintro rfl
      exact hhead (by simp)
    obtain ⟨hbefore, hafter⟩ := Linked.append.mp h.path
    have hnext : q.next elem = rest.headD spc.runq := hafter.next_first
    have hprev : q.prev elem = (ups ++ downs).getLastD spc.runq := hbefore.prev_last
    unfold sortLoop
    rw [List.headD_cons, if_neg hne]
    dsimp only
    rw [hnext]
    by_cases hu : spc.Under elem
    · rw [if_pos hu]
      have hfilter : (elem :: rest).filter spc.Under = elem :: rest.filter spc.Under :=
        List.filter_cons_of_pos (by simpa using hu)
      have hfilter' : (elem :: rest).filter (fun x => ¬ spc.Under x) = rest.filter fun x => ¬ spc.Under x :=
        List.filter_cons_of_neg (by simpa using hu)
      have hlast : (ups ++ [elem]).getLastD spc.runq = elem := List.getLastD_concat ..
      have hout : ∀ q', Circular q' spc.runq (ups ++ [elem] ++ downs ++ rest) →
          ∃ q'', spc.sortLoop poison n q' (rest.headD spc.runq) elem = some q'' ∧ Circular q'' spc.runq
            (ups ++ (elem :: rest).filter spc.Under ++ (downs ++ (elem :: rest).filter fun x => ¬ spc.Under x)) := by
        intro q' hq'
        obtain ⟨q'', hloop, hring⟩ := ih hn hq' hdowns
        rw [hlast] at hloop
        refine ⟨q'', hloop, ?_⟩
        rw [hfilter, hfilter']
        simpa using hring
      split_ifs with hmove
      · -- It moves up, over those without credits.
        obtain ⟨q₁, hdel, hring⟩ := h.listDel poison
        rw [hdel]
        refine hout _ ?_
        rw [List.append_assoc] at hring
        have hadd := hring.listAdd (e := elem) ?_ hne
        · simpa using hadd
        · have hperm : (ups ++ downs ++ elem :: rest).Perm (elem :: (ups ++ (downs ++ rest))) := by
            rw [← List.append_assoc]
            exact List.perm_middle
          exact (List.nodup_cons.mp (hperm.nodup_iff.mp hnd)).1
      · -- The last one with credits is the one before it.
        have hnil : downs = [] := by
          cases downs with
          | nil => rfl
          | cons d ds =>
            have heq : ds.getLastD d = ups.getLastD spc.runq := by
              rw [← not_not.mp hmove, hprev, getLastD_append, List.getLastD_cons]
            have hmem : ups.getLastD spc.runq ∈ d :: ds := heq ▸ getLastD_mem d ds
            rcases List.mem_cons.mp (getLastD_mem spc.runq ups) with hl | hl
            · rw [hl] at hmem
              exact absurd (List.mem_append_left _ (List.mem_append_right ups hmem)) hhead
            · have hdisj := (List.nodup_append.mp (List.nodup_append.mp hnd).1).2.2
              exact absurd rfl (hdisj _ hl _ hmem)
        subst hnil
        exact hout q (by simpa using h)
    · rw [if_neg hu]
      have hfilter : (elem :: rest).filter spc.Under = rest.filter spc.Under :=
        List.filter_cons_of_neg (by simpa using hu)
      have hfilter' : (elem :: rest).filter (fun x => ¬ spc.Under x) = elem :: rest.filter fun x => ¬ spc.Under x :=
        List.filter_cons_of_pos (by simpa using hu)
      have hring : Circular q spc.runq (ups ++ (downs ++ [elem]) ++ rest) := by simpa using h
      have hdowns' : ∀ x ∈ downs ++ [elem], ¬ spc.Under x := by
        intro x hx
        rcases List.mem_append.mp hx with hx | hx
        · exact hdowns x hx
        · rw [List.mem_singleton.mp hx]
          exact hu
      obtain ⟨q', hloop, hring⟩ := ih hn hring hdowns'
      refine ⟨q', hloop, ?_⟩
      rw [hfilter, hfilter']
      simpa using hring

/-! ## The queue afterwards -/

/-- Those with credits first, and both groups in the order they had. -/
structure StablePartition (p : α → Prop) [DecidablePred p] (l l' : List α) : Prop where
  perm : l'.Perm l
  first : l'.Pairwise fun a b => p b → p a
  front : l'.filter p = l.filter p
  back : (l'.filter fun x => ¬ p x) = l.filter fun x => ¬ p x

omit [DecidableEq α] in
theorem stablePartition (p : α → Prop) [DecidablePred p] (l : List α) :
    StablePartition p l (l.filter p ++ l.filter fun x => ¬ p x) := by
  refine ⟨?_, ?_, ?_, ?_⟩
  · have := List.filter_append_perm (fun x => decide (p x)) l
    simpa using this
  · rw [List.pairwise_append]
    refine ⟨List.pairwise_of_forall_mem_list ?_, List.pairwise_of_forall_mem_list ?_, ?_⟩
    · intro a ha b _ _
      simpa using (List.mem_filter.mp ha).2
    · intro a _ b hb h
      exact absurd h (by simpa using (List.mem_filter.mp hb).2)
    · intro a ha b _ _
      simpa using (List.mem_filter.mp ha).2
  · simp [List.filter_filter]
  · simp [List.filter_filter]

/-- The sort ends, without a failed assertion. Unless the queue has been sorted since the
last accounting, it is a stable partition: the vCPUs with credits come first, each group
stays in its order, and an idle vCPU that was last still is. -/
theorem cschedRunqSort_stable {l : List α} (h : Circular spc.links spc.runq l) (poison : Links α) (sortEpoch : Int)
    {n : Nat} (hn : l.length ≤ n) :
    (sortEpoch = spc.runqSortLast → spc.cschedRunqSort poison n sortEpoch = some spc) ∧
      (sortEpoch ≠ spc.runqSortLast → ∃ q l', spc.cschedRunqSort poison n sortEpoch =
          some { spc with links := q, runqSortLast := sortEpoch } ∧
        Circular q spc.runq l' ∧ StablePartition spc.Under l l' ∧
        ∀ l₀ idle, l = l₀ ++ [idle] → spc.pri idle = priIdle → ∃ l₀', l' = l₀' ++ [idle]) := by
  refine ⟨fun he => if_pos he, fun he => ?_⟩
  obtain ⟨q, hloop, hring⟩ := @sortLoop_ring α _ spc poison spc.links [] [] l n hn h (by simp)
  rw [← h.path.next_first, List.getLastD_nil] at hloop
  refine ⟨q, _, ?_, hring, stablePartition spc.Under l, ?_⟩
  · unfold cschedRunqSort
    rw [if_neg he, hloop]
    rfl
  · rintro l₀ idle rfl hidle
    have hover : ¬ spc.Under idle := by
      unfold Under
      rw [hidle]
      decide
    refine ⟨(l₀ ++ [idle]).filter spc.Under ++ l₀.filter fun x => ¬ spc.Under x, ?_⟩
    simp [hover]

end Pcpu

/-- A queue of an idle vCPU behind one without credits and two with. -/
def fourWait : Pcpu Nat where
  links := ⟨fun x => (x + 1) % 5, fun x => (x + 4) % 5⟩
  runq := 0
  pri := fun x => if x = 1 then -2 else if x = 4 then priIdle else -1
  runqSortLast := 0

/-- The two with credits go to the front. -/
theorem cschedRunqSort_fourWait : ∃ q l', fourWait.cschedRunqSort fourWait.links 4 1 =
      some { fourWait with links := q, runqSortLast := 1 } ∧ Circular q 0 l' ∧
      Pcpu.StablePartition fourWait.Under [1, 2, 3, 4] l' := by
  have hring : Circular fourWait.links fourWait.runq [1, 2, 3, 4] := by
    refine ⟨?_, by decide⟩
    simp [Linked, fourWait]
  obtain ⟨q, l', hsort, hq, hpart, -⟩ := (Pcpu.cschedRunqSort_stable hring fourWait.links 1 (n := 4) (Nat.le_refl 4)).2 (by decide)
  exact ⟨q, l', hsort, hq, hpart⟩

/-- In an epoch in which it has been sorted the queue is left as it is, whatever the priorities are by now. -/
theorem cschedRunqSort_sameEpoch : fourWait.cschedRunqSort fourWait.links 4 0 = some fourWait ∧
    Circular fourWait.links fourWait.runq [1, 2, 3, 4] ∧
    ¬Pcpu.StablePartition fourWait.Under [1, 2, 3, 4] [1, 2, 3, 4] := by
  refine ⟨if_pos rfl, ⟨by simp [Linked, fourWait], by decide⟩, fun h => ?_⟩
  have hfirst := (List.pairwise_cons.mp h.first).1 2 (by simp) (by decide)
  exact absurd hfirst (by decide)

end Sched.RunqSort
