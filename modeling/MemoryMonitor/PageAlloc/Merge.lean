import MemoryMonitor.PageAlloc.Blocks

/-!
# Halving and merging

A block in hand is halved until it has the order that is asked for, or merged with
its buddy as long as the buddy is free and of the same order. The code looks at
`PFN_ORDER` of a page without knowing that a block starts there, and does not compare
zones. Both are right because blocks are aligned: a free page at the start of an
aligned range is the start of its block unless the block is larger, and then it would
have the page in hand in it; and zones end at powers of two.
-/

namespace PageAlloc

open Buddy (Mem)

/-- Only `PFN_ORDER` and the lists of a node and zone have changed. -/
structure Relisted (n z : Nat) (w w' : World) : Prop where
  rest : w' = { w with page := w'.page, heap := w'.heap }
  page : ∀ x, w'.page x = { w.page x with order := (w'.page x).order }
  lists : ∀ n' z' o, ¬(n' = n ∧ z' = z) → w'.heap n' z' o = w.heap n' z' o

section Relisted

variable {n z : Nat} {w w' : World}

theorem Relisted.refl (w : World) : Relisted n z w w := ⟨rfl, fun _ => rfl, fun _ _ _ _ => rfl⟩

theorem Relisted.trans {w₁ w₂ w₃ : World} (h : Relisted n z w₁ w₂) (h' : Relisted n z w₂ w₃) :
    Relisted n z w₁ w₃ := by
  refine ⟨?_, fun x => ?_, fun n' z' o hne => (h'.lists n' z' o hne).trans (h.lists n' z' o hne)⟩
  · rw [h'.rest, h.rest]
  · rw [h'.page x, h.page x]

theorem Relisted.setHeap (o : Nat) (v : List Nat) : Relisted n z w (w.setHeap n z o v) :=
  ⟨rfl, fun _ => rfl, fun _ _ _ hne => Lists.set_of_ne fun hs => hne ⟨hs.1, hs.2.1⟩⟩

theorem Relisted.addTail (o h : Nat) : Relisted n z w (w.addTail n z o h) := by
  refine ⟨rfl, fun x => ?_, fun _ _ _ hne => Lists.set_of_ne fun hs => hne ⟨hs.1, hs.2.1⟩⟩
  by_cases hx : x = h
  · subst hx
    simp [World.addTail, World.setHeap]
  · simp [World.addTail, World.setHeap, hx]

theorem Relisted.allocated (h : Relisted n z w w') : w'.allocated = w.allocated := by
  rw [h.rest]

theorem Relisted.given (h : Relisted n z w w') : w'.given = w.given := by
  rw [h.rest]

theorem Relisted.ready (h : Relisted n z w w') : w'.ready = w.ready := by
  rw [h.rest]

theorem Relisted.everBroken (h : Relisted n z w w') : w'.everBroken = w.everBroken := by
  rw [h.rest]

theorem Relisted.offline (h : Relisted n z w w') :
    w'.pageOfflinedList = w.pageOfflinedList ∧ w'.pageBrokenList = w.pageBrokenList := by
  rw [h.rest]
  exact ⟨rfl, rfl⟩

end Relisted

/-- The block of order `o` at `pg` is in hand. -/
structure InHand (m : Machine) (w : World) (D : Nat → Prop) (n z pg o : Nat) : Prop where
  good : Good m w.page w.heap D (Mem pg o)
  counts : Counts w.heap w.avail w.totalAvailPages n z (2 ^ o)
  le : o ≤ maxOrder
  aligned : 2 ^ o ∣ pg
  place : ∀ x, Mem pg o x → m.nid x = n ∧ Nat.log 2 x = z

/-- No two buddies of one node are both free. -/
def Maximal (heap : Lists) : Prop :=
  ∀ n z z' o h, o < maxOrder → 2 ^ (o + 1) ∣ h → h ∈ heap n z o → h + 2 ^ o ∉ heap n z' o

variable {m : Machine} {w : World} {D : Nat → Prop} {n z pg o : Nat}

theorem InHand.ne_zero (i : InHand m w D n z pg o) {x : Nat} (hx : Mem pg o x) : x ≠ 0 :=
  (i.good.heapPage x (i.good.hand x hx)).ne_zero

theorem InHand.nid_lt (i : InHand m w D n z pg o) : n < maxNumnodes := by
  rw [← (i.place pg Mem.self).1]
  exact m.nid_lt pg

theorem InHand.zone_lt (i : InHand m w D n z pg o) : z < nrZones := by
  rw [← (i.place pg Mem.self).2]
  have hp := i.good.heapPage pg (i.good.hand pg Mem.self)
  exact Nat.log_lt_of_lt_pow hp.ne_zero hp.lt

/-- The block goes onto its list. -/
theorem InHand.addTail (i : InHand m w D n z pg o) :
    Good m (w.addTail n z o pg).page (w.addTail n z o pg).heap D (fun _ => False) ∧
      Counts (w.addTail n z o pg).heap w.avail w.totalAvailPages n z 0 := by
  constructor
  · refine (i.good.list i.le i.aligned (fun _ hx => hx) i.place).congr_hand fun x => ?_
    exact iff_of_false (fun hx => hx.2 hx.1) id
  · have hc := i.counts.list (h := pg) i.le
    rw [Int.sub_self] at hc
    exact hc

/-- A block that is on a list is taken in hand. -/
theorem InHand.unlist {h : Nat} (g : Good m w.page w.heap D fun _ => False)
    (c : Counts w.heap w.avail w.totalAvailPages n z 0) (hh : h ∈ w.heap n z o) :
    InHand m (w.setHeap n z o ((w.heap n z o).erase h)) D n z h o := by
  have hb := g.block n z o h hh
  refine ⟨(g.unlist hh).congr_hand fun x => ?_, ?_, hb.le, hb.aligned, fun x hx => ?_⟩
  · exact or_iff_right id
  · have hc := c.unlist hb.le hh
    rw [Int.zero_add] at hc
    exact hc
  · exact (hb.inside x hx).2.2

/-! ## Halving -/

/-- The lower half goes onto its list. -/
theorem InHand.halve (i : InHand m w D n z pg (o + 1)) :
    InHand m (w.addTail n z o pg) D n z (pg + 2 ^ o) o := by
  have hlower {x : Nat} (hx : Mem pg o x) : Mem pg (o + 1) x := Buddy.mem_succ.mpr (.inl hx)
  have hupper {x : Nat} (hx : Mem (pg + 2 ^ o) o x) : Mem pg (o + 1) x :=
    Buddy.mem_succ.mpr (.inr hx)
  have hle : o ≤ maxOrder := Nat.le_of_succ_le i.le
  refine ⟨?_, ?_, hle, Buddy.aligned_upper i.aligned, fun x hx => i.place x (hupper hx)⟩
  · refine (i.good.list hle (Buddy.aligned_lower i.aligned) (fun x => hlower)
      fun x hx => i.place x (hlower hx)).congr_hand fun x => ?_
    constructor
    · rintro ⟨hx, hnot⟩
      exact (Buddy.mem_succ.mp hx).resolve_left hnot
    · intro hx
      exact ⟨hupper hx, Buddy.not_mem_of_upper hx⟩
  · have hc := i.counts.list (h := pg) hle
    have hpow : (2 : Int) ^ (o + 1) - 2 ^ o = 2 ^ o := by
      rw [pow_succ]
      ring
    rw [hpow] at hc
    exact hc

theorem halve_inHand {order k : Nat} (i : InHand m w D n z pg (order + k)) :
    InHand m (halve n z order k pg w).2 D n z (halve n z order k pg w).1 order ∧
      Relisted n z w (halve n z order k pg w).2 ∧
      ∀ x, Mem (halve n z order k pg w).1 order x → Mem pg (order + k) x := by
  induction k generalizing pg w with
  | zero => exact ⟨i, .refl w, fun _ hx => hx⟩
  | succ k ih =>
    rcases ih (InHand.halve i) with ⟨i', hr, hsub⟩
    refine ⟨i', (Relisted.addTail ..).trans hr, fun x hx => ?_⟩
    exact Buddy.mem_succ.mpr (.inr (hsub x hx))

/-- The buddy of a block on a list is not in hand. -/
theorem Maximal.list {heap : Lists} {h : Nat} (hm : Maximal heap)
    (hlow : o < maxOrder → ∀ z', 2 ^ (o + 1) ∣ h → h + 2 ^ o ∉ heap n z' o)
    (hup : o < maxOrder → ∀ z' h', h = h' + 2 ^ o → 2 ^ (o + 1) ∣ h' → h' ∉ heap n z' o) :
    Maximal (heap.set n z o (heap n z o ++ [h])) := by
  intro n' z₁ z₂ o' h' ho' ha hh₁ hh₂
  rcases Lists.mem_append.mp hh₁ with hk₁ | ⟨rfl, rfl, rfl, rfl⟩
  · rcases Lists.mem_append.mp hh₂ with hk₂ | ⟨rfl, rfl, rfl, he⟩
    · exact hm n' z₁ z₂ o' h' ho' ha hk₁ hk₂
    · exact hup ho' z₁ h' he.symm ha hk₁
  · rcases Lists.mem_append.mp hh₂ with hk₂ | ⟨-, -, -, he⟩
    · exact hlow ho' z₂ ha hk₂
    · have := Nat.two_pow_pos o'
      omega

theorem halve_maximal {order k : Nat} (i : InHand m w D n z pg (order + k))
    (hm : Maximal w.heap) : Maximal (halve n z order k pg w).2.heap := by
  induction k generalizing pg w with
  | zero => exact hm
  | succ k ih =>
    refine ih (InHand.halve i) ?_
    refine hm.list (fun _ z' ha hh => ?_) fun _ z' h' he ha hh => ?_
    · -- the upper half is in hand
      refine ((i.good.block _ _ _ _ hh).inside _ Mem.self).2.1 ?_
      exact Buddy.mem_succ.mpr (.inr Mem.self)
    · -- a lower half is not an upper one
      have hdvd := i.aligned
      rw [he] at hdvd
      have := (Nat.dvd_add_right ha).mp hdvd
      have := Nat.le_of_dvd (Nat.two_pow_pos _) this
      rw [Nat.pow_succ] at this
      have := Nat.two_pow_pos (order + k)
      omega

/-! ## Merging -/

/-- A page that `free_heap_pages` merges with starts a free block of that order. -/
theorem InHand.buddy_listed {lo b : Nat} (i : InHand m w D n z pg o)
    (hb : mergeable m w n o b = true) (hlo : 2 ^ (o + 1) ∣ lo)
    (hside : (lo = pg ∧ b = pg + 2 ^ o) ∨ (lo = b ∧ pg = b + 2 ^ o)) : b ∈ w.heap n z o := by
  unfold mergeable at hb
  simp only [decide_eq_true_eq] at hb
  rcases hb with ⟨-, hfree, horder, hnid⟩
  have hin : Inside w.page D b := .inl hfree
  have hpair : Mem lo (o + 1) pg ∧ Mem lo (o + 1) b := by
    rcases hside with ⟨rfl, rfl⟩ | ⟨rfl, rfl⟩
    · exact ⟨Mem.self, Buddy.mem_succ.mpr (.inr Mem.self)⟩
    · exact ⟨Buddy.mem_succ.mpr (.inr Mem.self), Mem.self⟩
  have hbal : 2 ^ o ∣ b := by
    rcases hside with ⟨rfl, rfl⟩ | ⟨rfl, -⟩
    · exact Buddy.aligned_upper hlo
    · exact Buddy.aligned_lower hlo
  have hnot : ¬Mem pg o b := by
    unfold Mem
    rcases hside with ⟨-, rfl⟩ | ⟨-, rfl⟩ <;> omega
  -- the pair lies in one zone
  have hlo0 : lo ≠ 0 := by
    rcases hside with ⟨rfl, -⟩ | ⟨rfl, -⟩
    · exact i.ne_zero Mem.self
    · exact (i.good.heapPage lo hin).ne_zero
  have hzone : Nat.log 2 b = z := by
    rw [← (i.place pg Mem.self).2, Buddy.log_eq hlo hlo0 hpair.2, Buddy.log_eq hlo hlo0 hpair.1]
  rcases i.good.cover b hin hnot with ⟨o', h', hh', hbm⟩
  rw [hnid, hzone] at hh'
  have hblk := i.good.block _ _ _ _ hh'
  have hle : o' ≤ o := by
    by_contra hgt
    -- a larger block would have the page in hand in it
    have hpg : Mem h' o' pg := hpair.2.nested hlo hblk.aligned (by omega) hbm hpair.1
    exact (hblk.inside pg hpg).2.1 Mem.self
  have hstart : h' = b := le_antisymm hbm.1 (Mem.start_le hblk.aligned hbal hle hbm Mem.self)
  have ho : o' = o := by
    rw [← hblk.order, hstart]
    exact horder
  rw [hstart, ho] at hh'
  exact hh'

/-- Two buddies make a block of the next order. -/
theorem InHand.merge {lo b : Nat} (i : InHand m w D n z pg o) (ho : o < maxOrder)
    (hlo : 2 ^ (o + 1) ∣ lo) (hside : (lo = pg ∧ b = pg + 2 ^ o) ∨ (lo = b ∧ pg = b + 2 ^ o))
    (hb : b ∈ w.heap n z o) :
    InHand m (w.setHeap n z o ((w.heap n z o).erase b)) D n z lo (o + 1) := by
  have hmem (x : Nat) : Mem lo (o + 1) x ↔ Mem pg o x ∨ Mem b o x := by
    rw [Buddy.mem_succ]
    rcases hside with ⟨rfl, rfl⟩ | ⟨rfl, rfl⟩
    · rfl
    · exact or_comm
  have hblk := i.good.block _ _ _ _ hb
  refine ⟨(i.good.unlist hb).congr_hand fun x => (hmem x).symm, ?_, ho, hlo, fun x hx => ?_⟩
  · have hc := i.counts.unlist i.le hb
    have hpow : (2 : Int) ^ o + 2 ^ o = 2 ^ (o + 1) := by
      rw [pow_succ]
      ring
    rw [hpow] at hc
    exact hc
  · rcases (hmem x).mp hx with hx | hx
    · exact i.place x hx
    · exact (hblk.inside x hx).2.2

theorem Maximal.erase {heap : Lists} {h : Nat} (hm : Maximal heap) (hnd : (heap n z o).Nodup) :
    Maximal (heap.set n z o ((heap n z o).erase h)) := by
  intro n' z₁ z₂ o' h' ho' ha hh₁ hh₂
  exact hm n' z₁ z₂ o' h' ho' ha ((Lists.mem_erase hnd).mp hh₁).1 ((Lists.mem_erase hnd).mp hh₂).1

/-- The buddy of a block. -/
def buddyOf (pg o : Nat) : Nat := if pg &&& 2 ^ o ≠ 0 then pg - 2 ^ o else pg + 2 ^ o

/-- What `merge` leaves in hand. -/
structure Merged (m : Machine) (w : World) (D : Nat → Prop) (n z pg o : Nat)
    (r : Nat × Nat × World) : Prop where
  inHand : InHand m r.2.2 D n z r.1 r.2.1
  relisted : Relisted n z w r.2.2
  sub : ∀ x, Mem pg o x → Mem r.1 r.2.1 x
  maximal : Maximal w.heap → Maximal r.2.2.heap
  /-- There is nothing to merge with any more. -/
  last : r.2.1 < maxOrder → mergeable m r.2.2 n r.2.1 (buddyOf r.1 r.2.1) = false

theorem Merged.step {lo b : Nat} {r : Nat × Nat × World} (i : InHand m w D n z pg o)
    (hside : (lo = pg ∧ b = pg + 2 ^ o) ∨ (lo = b ∧ pg = b + 2 ^ o))
    (hr : Merged m (w.setHeap n z o ((w.heap n z o).erase b)) D n z lo (o + 1) r) :
    Merged m w D n z pg o r := by
  refine ⟨hr.inHand, (Relisted.setHeap ..).trans hr.relisted, fun x hx => hr.sub x ?_,
    fun hm => hr.maximal (hm.erase (i.good.nodup n z o)), hr.last⟩
  rcases hside with ⟨rfl, rfl⟩ | ⟨rfl, rfl⟩
  · exact Buddy.mem_succ.mpr (.inl hx)
  · exact Buddy.mem_succ.mpr (.inr hx)

theorem merge_spec {fuel : Nat} (i : InHand m w D n z pg o) (hfuel : o + fuel = maxOrder) :
    ∃ r, merge m n z fuel pg o w = .ok r ∧ Merged m w D n z pg o r := by
  induction fuel generalizing pg o w with
  | zero =>
    refine ⟨_, rfl, i, .refl w, fun _ hx => hx, id, fun hlt => ?_⟩
    dsimp only at hlt
    omega
  | succ fuel ih =>
    have hstop (hb : mergeable m w n o (buddyOf pg o) = false) : Merged m w D n z pg o (pg, o, w) :=
      ⟨i, .refl w, fun _ hx => hx, id, fun _ => hb⟩
    have hgo {lo b : Nat} (hlo : 2 ^ (o + 1) ∣ lo)
        (hside : (lo = pg ∧ b = pg + 2 ^ o) ∨ (lo = b ∧ pg = b + 2 ^ o))
        (hb : mergeable m w n o b = true) : ∃ w', w.listDel n z o b = some w' ∧
          ∃ r, merge m n z fuel lo (o + 1) w' = .ok r ∧ Merged m w D n z pg o r := by
      have hlist := i.buddy_listed hb hlo hside
      refine ⟨_, if_pos hlist, ?_⟩
      rcases ih (i.merge (by omega) hlo hside hlist) (by omega) with ⟨r, hr, hm⟩
      exact ⟨r, hr, hm.step i hside⟩
    unfold merge
    dsimp only
    split
    · next hbit =>
      rcases Buddy.aligned_sub i.aligned (Buddy.and_two_pow_ne_zero.mp hbit) with ⟨hle, hlo⟩
      split
      · next hb =>
        rcases hgo hlo (.inr ⟨rfl, (Nat.sub_add_cancel hle).symm⟩) hb with ⟨w', hdel, hr⟩
        rw [hdel]
        exact hr
      · next hb =>
        refine ⟨_, rfl, hstop ?_⟩
        unfold buddyOf
        rw [if_pos hbit]
        simpa using hb
    · next hbit =>
      have hlo : 2 ^ (o + 1) ∣ pg := by
        rw [Buddy.aligned_succ i.aligned]
        rw [Buddy.and_two_pow_ne_zero] at hbit
        simpa using hbit
      split
      · next hb =>
        rcases hgo hlo (.inl ⟨rfl, rfl⟩) hb with ⟨w', hdel, hr⟩
        rw [hdel]
        exact hr
      · next hb =>
        refine ⟨_, rfl, hstop ?_⟩
        unfold buddyOf
        rw [if_neg hbit]
        simpa using hb

/-- The block goes onto its list when there is nothing to merge it with. -/
theorem Merged.addTail_maximal {r : Nat × Nat × World} (hr : Merged m w D n z pg o r)
    (hD : ∀ x, D x → Mem pg o x) (hm : Maximal w.heap) :
    Maximal (r.2.2.addTail n z r.2.1 r.1).heap := by
  rcases r with ⟨pg', o', w'⟩
  have i := hr.inHand
  dsimp only at i
  -- a buddy on a list could be merged with
  have hno {b z' : Nat} (ho' : o' < maxOrder) (hbud : buddyOf pg' o' = b) :
      b ∉ w'.heap n z' o' := by
    intro hb
    have hblk := i.good.block _ _ _ _ hb
    rcases hblk.inside b Mem.self with ⟨hin, hnot, hn, -⟩
    have hfree : (w'.page b).state = .free := hin.resolve_right fun hd => hnot (hr.sub b (hD b hd))
    have hlast := hr.last ho'
    rw [hbud] at hlast
    have hvalid := (i.good.heapPage b hin).valid
    simp [mergeable, hvalid, hfree, hblk.order, hn] at hlast
  refine (hr.maximal hm).list (fun ho' z' ha => ?_) fun ho' z' h' he ha => ?_
  · refine hno ho' (if_neg ?_)
    rw [Buddy.and_two_pow_ne_zero, (Buddy.aligned_succ (Buddy.aligned_lower ha)).mp ha]
    nofun
  · refine hno ho' ?_
    dsimp only at he ha
    unfold buddyOf
    have hbit : pg'.testBit o' = true := by
      by_contra hb
      have ha' := (Buddy.aligned_succ i.aligned).mpr (by simpa using hb)
      rw [he, Nat.dvd_add_right ha] at ha'
      have hle := Nat.le_of_dvd (Nat.two_pow_pos _) ha'
      rw [Nat.pow_succ] at hle
      have := Nat.two_pow_pos o'
      omega
    rw [if_pos (Buddy.and_two_pow_ne_zero.mpr hbit), he, Nat.add_sub_cancel]

end PageAlloc
