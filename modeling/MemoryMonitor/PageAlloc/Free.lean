import MemoryMonitor.PageAlloc.Ops

/-!
# Freeing

The pages of a block that is freed are in hand; those that were to be offlined are
offlined now and stay in the block until `reserve_offlined_page` takes them out.
-/

namespace PageAlloc

open Buddy (Mem)

variable {m : Machine} {w : World} {pg order : Nat}

/-- A block that may be freed. -/
structure Freeable (m : Machine) (w : World) (pg order : Nat) : Prop where
  taken : Taken m w pg order
  /-- It is not part of another allocated block. -/
  apart : ∀ b ∈ w.allocated, ∀ x, Mem pg order x → ¬Mem b.1 b.2 x
  xenHeap : (w.page pg).xenHeap = false

/-- The pages that are to be offlined when the block is freed. -/
def Leaving (w : World) (pg order x : Nat) : Prop :=
  Mem pg order x ∧ (w.page x).state = .offlining

theorem Freeable.zone (f : Freeable m w pg order) : pageToZone (w.page pg) pg = Nat.log 2 pg := by
  unfold pageToZone
  rw [f.xenHeap]
  rfl

/-- The pages of the block are in hand. -/
theorem Inv.markFree (h : Inv m w) (f : Freeable m w pg order) :
    InHand m (w.markFree m pg order) (Leaving w pg order) (m.nid pg) (Nat.log 2 pg) pg order := by
  have hin {x : Nat} (hx : Mem pg order x) :
      (w.markFree m pg order).page x = (w.page x).freed := if_pos hx
  have hout {x : Nat} (hx : ¬Mem pg order x) :
      (w.markFree m pg order).page x = w.page x := if_neg hx
  have hnotFree {x : Nat} (hx : Mem pg order x) : (w.page x).state ≠ .free := by
    rcases (f.taken.page x hx).1 with hs | hs <;>
    · rw [hs]
      nofun
  -- outside the block nothing has changed
  have hold {x : Nat} (hx : Inside (w.markFree m pg order).page (Leaving w pg order) x)
      (hm : ¬Mem pg order x) : (w.page x).state = .free := by
    unfold Inside at hx
    rw [hout hm] at hx
    exact hx.resolve_right fun hl => hm hl.1
  have hhand {x : Nat} (hx : Mem pg order x) :
      Inside (w.markFree m pg order).page (Leaving w pg order) x := by
    by_cases hs : (w.page x).state = .offlining
    · exact .inr ⟨hx, hs⟩
    · refine .inl ?_
      rw [hin hx]
      exact if_neg hs
  have hplace {x : Nat} (hx : Mem pg order x) := (f.taken.page x hx).2.2
  refine ⟨⟨?_, fun x hx => hhand hx, ?_, ?_, h.good.apart, h.good.nodup, ?_, ?_⟩, ?_, f.taken.le,
    f.taken.aligned, fun x hx => hplace hx⟩
  · intro x hx
    rw [hin hx.1]
    exact if_pos hx.2
  · intro n z o h' hh
    have hb := h.good.block n z o h' hh
    have hm {x : Nat} (hx : Mem h' o x) : ¬Mem pg order x := fun hm =>
      hnotFree hm (inside_false.mp (hb.inside x hx).1)
    refine ⟨hb.le, hb.aligned, ?_, fun x hx => ?_⟩
    · rw [hout (hm Mem.self)]
      exact hb.order
    · rcases hb.inside x hx with ⟨hx', -, hnz⟩
      refine ⟨.inl ?_, hm hx, hnz⟩
      rw [hout (hm hx)]
      exact inside_false.mp hx'
  · intro x hx hm
    exact h.good.cover x (.inl (hold hx hm)) id
  · intro x hx
    by_cases hm : Mem pg order x
    · rw [hin hm] at hx ⊢
      have hs : (w.page x).state ≠ .offlining := fun hs => by
        rw [show (w.page x).freed.state = _ from if_pos hs] at hx
        nomatch hx
      have hb : (w.page x).broken = false := by
        by_contra hb
        rcases h.book.broken x (by simpa using hb) with hs' | hs'
        · exact hs hs'
        · rcases (f.taken.page x hm).1 with hh | hh <;>
          · rw [hs'] at hh
            nomatch hh
      exact Page.isFree_iff.mpr ⟨hx, hb, rfl, rfl⟩
    · rw [hout hm] at hx ⊢
      exact h.good.clean x hx
  · intro x hx
    by_cases hm : Mem pg order x
    · exact h.book.heapPage x (f.taken.page x hm).2.1
    · exact h.good.heapPage x (.inl (hold hx hm))
  · have hp := h.book.heapPage pg (f.taken.page pg Mem.self).2.1
    have hc := (h.counts.zero (m.nid pg) (Nat.log 2 pg)).count (m.nid_lt pg)
      (Nat.log_lt_of_lt_pow hp.ne_zero hp.lt) (2 ^ order)
    rw [Int.zero_add] at hc
    unfold World.markFree
    rw [f.zone]
    exact hc

theorem Book.freed {w' : World} (b : Book m w) (f : Freeable m w pg order)
    (hin : ∀ x, Mem pg order x →
      w'.page x = { (w.page x).freed with order := (w'.page x).order })
    (hout : ∀ x, ¬Mem pg order x → w'.page x = { w.page x with order := (w'.page x).order })
    (hheap : ∀ n z o, n ≠ m.nid pg → w'.heap n z o = w.heap n z o)
    (halloc : w'.allocated = w.allocated) (hgiven : w'.given = w.given)
    (hready : w'.ready = w.ready) (hbroken : w'.everBroken = w.everBroken)
    (hoff : ∀ x, x ∈ w'.pageOfflinedList ↔
      x ∈ w.pageOfflinedList ∨ (Leaving w pg order x ∧ (w.page x).broken = false))
    (hbrk : ∀ x, x ∈ w'.pageBrokenList ↔
      x ∈ w.pageBrokenList ∨ (Leaving w pg order x ∧ (w.page x).broken = true))
    (hnd : w'.pageOfflinedList.Nodup ∧ w'.pageBrokenList.Nodup) : Book m w' := by
  have hbr (x : Nat) : (w'.page x).broken = (w.page x).broken := by
    by_cases hx : Mem pg order x
    · rw [hin x hx]
      rfl
    · rw [hout x hx]
  have hst {x : Nat} (hx : Mem pg order x) : (w'.page x).state
      = if (w.page x).state = .offlining then .offlined else .free := by
    rw [hin x hx]
    rfl
  have hoffl {x : Nat} : (w'.page x).state = .offlined ↔
      (w.page x).state = .offlined ∨ Leaving w pg order x := by
    by_cases hx : Mem pg order x
    · rw [hst hx]
      unfold Leaving
      have hh := (f.taken.page x hx).1
      unfold Page.Held at hh
      split
      · next hs => simp [hs, hx]
      · next hs =>
        rw [or_iff_left hs] at hh
        simp [hh]
    · rw [hout x hx]
      exact (or_iff_left fun hl => hx hl.1).symm
  refine ⟨?_, ?_, ?_, ?_, ?_, ?_, ?_, ?_, ?_, ?_, ?_, hnd, ?_⟩
  · intro x hx
    rw [hgiven] at hx
    have hm : ¬Mem pg order x := fun hm => by
      rw [(f.taken.page x hm).2.1] at hx
      nomatch hx
    rw [hout x hm]
    exact b.fresh x hx
  · intro x hx
    rw [hgiven] at hx
    exact b.heapPage x hx
  · intro x hx
    rw [hbr] at hx
    rcases b.broken x hx with hs | hs
    · by_cases hm : Mem pg order x
      · exact .inr (hoffl.mpr (.inr ⟨hm, hs⟩))
      · rw [hout x hm]
        exact .inl hs
    · exact .inr (hoffl.mpr (.inl hs))
  · intro x hx
    rw [hbroken] at hx
    rw [hbr]
    exact b.everBroken x hx
  · intro c hc
    rw [halloc] at hc
    have ht := b.taken c hc
    refine ⟨ht.le, ht.aligned, fun x hx => ?_, by rw [hready]; exact ht.ready⟩
    rcases ht.page x hx with ⟨hh, hg, hp⟩
    rw [hout x fun hm => f.apart c hc x hm hx, hgiven]
    exact ⟨hh, hg, hp⟩
  · rw [halloc]
    exact b.disjoint
  · rw [halloc]
    exact b.nodup
  · intro x hx
    rw [hready]
    by_cases hm : Mem pg order x
    · rw [(f.taken.page x hm).2.2.1]
      exact f.taken.ready
    · rw [hout x hm] at hx
      exact b.ready x hx
  · intro n hn z o
    rw [hready] at hn
    have hne : n ≠ m.nid pg := by
      rintro rfl
      rw [f.taken.ready] at hn
      nomatch hn
    rw [hheap n z o hne]
    exact b.unready n hn z o
  · intro x
    rw [hoff, hoffl, hbr, b.offlinedList]
    tauto
  · intro x
    rw [hbrk, hoffl, hbr, b.brokenList]
    tauto
  · intro x hx
    by_cases hm : Mem pg order x
    · rw [hin x hm]
      rfl
    · rw [hout x hm] at hx ⊢
      exact b.plain x hx

theorem freeHeapPages_merged (h : Inv m w) (f : Freeable m w pg order) :
    ∃ r, merge m (m.nid pg) (Nat.log 2 pg) (maxOrder - order) pg order (w.markFree m pg order) = .ok r ∧
      Merged m (w.markFree m pg order) (Leaving w pg order) (m.nid pg) (Nat.log 2 pg) pg order r ∧
      freeHeapPages m pg order w =
        (let w' := r.2.2.addTail (m.nid pg) (Nat.log 2 pg) r.2.1 r.1
        if (List.range' pg (2 ^ order)).any (w.markFree m pg order).isOfflined then
          reserveOfflinedPage m r.1 w' else .ok w') := by
  rcases merge_spec (h.markFree f) (Nat.add_sub_cancel' f.taken.le) with ⟨r, hr, hm⟩
  refine ⟨r, hr, hm, ?_⟩
  unfold freeHeapPages
  dsimp only
  rw [f.zone, hr]

theorem isOfflined_markFree {x : Nat} (hx : Mem pg order x) :
    (w.markFree m pg order).isOfflined x = true ↔ (w.page x).state = .offlining := by
  unfold World.isOfflined
  rw [decide_eq_true_eq, show (w.markFree m pg order).page x = (w.page x).freed from if_pos hx]
  show (if (w.page x).state = .offlining then PageState.offlined else .free) = .offlined ↔ _
  split
  · next hs => exact iff_of_true rfl hs
  · next hs => exact iff_of_false nofun hs

theorem mem_range'_iff {x : Nat} : x ∈ List.range' pg (2 ^ order) ↔ Mem pg order x :=
  List.mem_range'_1

theorem tainted_iff :
    (List.range' pg (2 ^ order)).any (w.markFree m pg order).isOfflined = true ↔
      ∃ x, Leaving w pg order x := by
  rw [List.any_eq_true]
  constructor
  · rintro ⟨x, hx, ho⟩
    rw [mem_range'_iff] at hx
    exact ⟨x, hx, (isOfflined_markFree hx).mp ho⟩
  · rintro ⟨x, hx⟩
    exact ⟨x, mem_range'_iff.mpr hx.1, (isOfflined_markFree hx.1).mpr hx.2⟩

theorem Relisted.markFree {n z : Nat} {w' : World} (hr : Relisted n z (w.markFree m pg order) w') :
    (∀ x, Mem pg order x → w'.page x = { (w.page x).freed with order := (w'.page x).order }) ∧
      ∀ x, ¬Mem pg order x → w'.page x = { w.page x with order := (w'.page x).order } := by
  constructor
  · intro x hx
    have := hr.page x
    rw [show (w.markFree m pg order).page x = (w.page x).freed from if_pos hx] at this
    exact this
  · intro x hx
    have := hr.page x
    rw [show (w.markFree m pg order).page x = w.page x from if_neg hx] at this
    exact this

/-- What `free_heap_pages` does with a block that has no pages to be offlined. -/
structure Freed (m : Machine) (w : World) (pg order : Nat) (w' : World) : Prop where
  inv : Inv m w'
  maximal : Maximal w.heap → Maximal w'.heap
  now : ∀ x, Mem pg order x → (w'.page x).state = .free
  other : ∀ x, ¬Mem pg order x → w'.page x = { w.page x with order := (w'.page x).order }
  allocated : w'.allocated = w.allocated
  given : w'.given = w.given
  ready : w'.ready = w.ready

theorem freeHeapPages_freed (h : Inv m w) (f : Freeable m w pg order)
    (hcalm : ∀ x, ¬Leaving w pg order x) :
    ∃ w', freeHeapPages m pg order w = .ok w' ∧ Freed m w pg order w' := by
  rcases freeHeapPages_merged h f with ⟨r, -, hm, he⟩
  have hnone : Leaving w pg order = fun _ => False := funext fun x => eq_false (hcalm x)
  have htaint : ¬(List.range' pg (2 ^ order)).any (w.markFree m pg order).isOfflined = true := by
    rw [tainted_iff]
    rintro ⟨x, hx⟩
    exact hcalm x hx
  dsimp only at he
  rw [if_neg htaint] at he
  have hadd := hm.inHand.addTail
  rw [hnone] at hadd
  have hr := hm.relisted.trans (Relisted.addTail r.2.1 r.1)
  rcases hr.markFree with ⟨hin, hout⟩
  refine ⟨_, he, ⟨hadd.1, ?_, ?_⟩, fun hmax => ?_, fun x hx => ?_, hout, hr.allocated, hr.given,
    hr.ready⟩
  · exact hadd.2.zero 0 0
  · refine h.book.freed f hin hout (fun n z o hne => ?_) hr.allocated hr.given hr.ready hr.everBroken
      (fun x => ?_) (fun x => ?_) ?_
    · exact hr.lists n z o fun hs => hne hs.1
    · rw [hr.offline.1]
      exact (or_iff_left fun hl => hcalm x hl.1).symm
    · rw [hr.offline.2]
      exact (or_iff_left fun hl => hcalm x hl.1).symm
    · rw [hr.offline.1, hr.offline.2]
      exact h.book.listNodup
  · exact hm.addTail_maximal (fun x hx => hx.1) hmax
  · rw [hin x hx]
    exact if_neg fun hs => hcalm x ⟨hx, hs⟩

/-- A page that has not been in the heap is handed to it. -/
theorem Freeable.fresh {x : Nat} (hgiven : w.given x = true)
    (hpage : (w.page x).Fresh) (hready : w.ready (m.nid x) = true)
    (hapart : ∀ b ∈ w.allocated, ¬Mem b.1 b.2 x) : Freeable m w x 0 := by
  have hself {y : Nat} (hy : Mem x 0 y) : y = x := by
    unfold Buddy.Mem at hy
    omega
  refine ⟨⟨Nat.zero_le _, Nat.one_dvd x, fun y hy => ?_, hready⟩, fun b hb y hy => ?_, hpage.2.2⟩
  · rw [hself hy]
    exact ⟨.inl hpage.1, hgiven, rfl, rfl⟩
  · rw [hself hy]
    exact hapart b hb

/-! ## `init_heap_pages` -/

/-- The pages `a..b-1` are still to be handed to the heap. -/
def Waiting (w : World) (a b : Nat) : Prop :=
  ∀ x, a ≤ x → x < b → w.given x = true ∧ (w.page x).Fresh ∧ ∀ c ∈ w.allocated, ¬Mem c.1 c.2 x

/-- The heap has been initialised as far as `a`. `P` is whether pages are never
offlined. -/
structure Filling (m : Machine) (P : Prop) (w : World) (a b : Nat) : Prop where
  inv : Inv m w
  maximal : P → Maximal w.heap
  calm : P → Calm w
  waiting : Waiting w a b

variable {P : Prop}

theorem Allocated.filling {w' : World} {a b : Nat} (h : Filling m P w a b)
    (ha : Allocated m w order pg w') : Filling m P w' a b := by
  have hout {x : Nat} (hx : (w.page x).state = .inuse) : ¬Mem pg order x := fun hm => by
    rw [ha.was x hm] at hx
    nomatch hx
  refine ⟨ha.inv, fun hP => ha.maximal (h.maximal hP), fun hP x => ?_, fun x hax hxb => ?_⟩
  · by_cases hx : Mem pg order x
    · rw [ha.now x hx]
      exact .inl rfl
    · rw [ha.other x hx]
      exact h.calm hP x
  · rcases h.waiting x hax hxb with ⟨hg, hf, hc⟩
    refine ⟨by rw [ha.given]; exact hg, ?_, fun c hcm => ?_⟩
    · rw [ha.other x (hout hf.1)]
      exact hf
    · rw [ha.allocated] at hcm
      rcases List.mem_cons.mp hcm with rfl | hcm
      · exact hout hf.1
      · exact hc c hcm

theorem allocAll_filling {a b : Nat} (h : Filling m P w a b) (rs : List Request) :
    allocAll m rs w = .error .noMemory ∨ ∃ w', allocAll m rs w = .ok w' ∧ Filling m P w' a b ∧
      w'.ready = w.ready := by
  induction rs generalizing w with
  | nil => exact .inr ⟨w, rfl, h, rfl⟩
  | cons r rest ih =>
    have hany : ({ r with memflags := 0 } : Request).asked = 255 := by simp [Request.asked]
    rcases allocHeapPages_spec h.inv fun _ _ => .inl hany with ⟨res, w₁, he, hcase⟩
    unfold allocAll
    rw [he]
    cases res with
    | none => exact .inl rfl
    | some pg =>
      rcases hcase with ⟨rfl, -⟩ | ⟨pg', -, ha⟩
      · exact ih h
      · rcases ih (ha.filling h) with hno | ⟨w', he', h', hready⟩
        · exact .inl hno
        · exact .inr ⟨w', he', h', hready.trans ha.ready⟩

/-- A node without lists gets empty ones. -/
theorem Filling.clear {a b n : Nat} (h : Filling m P w a b) (hn : w.ready n = false) (first : Bool) :
    Filling m P { w with
      heap := Function.update w.heap n fun _ _ => []
      avail := Function.update w.avail n fun _ => 0
      ready := Function.update w.ready n true
      firstNodeInitialised := first } a b := by
  have hheap : Function.update w.heap n (fun _ _ => []) = w.heap := by
    refine (Function.update_eq_self_iff ..).mpr ?_
    funext z o
    exact (h.inv.book.unready n hn z o).symm
  have hweight (z : Nat) : weight w.heap n z = 0 := by
    refine Finset.sum_eq_zero fun o _ => ?_
    rw [h.inv.book.unready n hn z o]
    simp
  have havail : Function.update w.avail n (fun _ => 0) = w.avail := by
    refine (Function.update_eq_self_iff ..).mpr ?_
    funext z
    rw [h.inv.counts.each n z, hweight z]
    simp
  rw [hheap, havail]
  have hready {k : Nat} (hk : w.ready k = true) : Function.update w.ready n true k = true := by
    by_cases hkn : k = n
    · subst hkn
      exact Function.update_self ..
    · rw [Function.update_of_ne hkn]
      exact hk
  have b := h.inv.book
  refine ⟨⟨h.inv.good, h.inv.counts, ?_⟩, h.maximal, h.calm, h.waiting⟩
  refine ⟨b.fresh, b.heapPage, b.broken, b.everBroken, fun c hc => ?_, b.disjoint, b.nodup,
    fun x hx => hready (b.ready x hx), fun k hk z o => ?_, b.offlinedList, b.brokenList, b.listNodup, b.plain⟩
  · have ht := b.taken c hc
    exact ⟨ht.le, ht.aligned, ht.page, hready ht.ready⟩
  · change Function.update w.ready n true k = false at hk
    by_cases hkn : k = n
    · subst hkn
      rw [Function.update_self] at hk
      nomatch hk
    · rw [Function.update_of_ne hkn] at hk
      exact b.unready k hk z o

theorem initNodeHeap_filling {a b node : Nat} (h : Filling m P w a b) (hn : w.ready node = false)
    (elsewhere : List Request) (mfn nr : Nat) (useTail : Bool) :
    initNodeHeap m elsewhere node mfn nr useTail w = .error .noMemory ∨
      ∃ n tail w', initNodeHeap m elsewhere node mfn nr useTail w = .ok (n, tail, w') ∧
        Filling m P w' a b ∧ w'.ready node = true ∧ n ≤ nr := by
  unfold initNodeHeap
  dsimp only
  split
  · exact .inr ⟨_, _, _, rfl, h.clear hn true, Function.update_self .., Nat.zero_le _⟩
  · split
    · next hc => exact .inr ⟨_, _, _, rfl, h.clear hn _, Function.update_self .., hc.2.1⟩
    · split
      · next hc => exact .inr ⟨_, _, _, rfl, h.clear hn _, Function.update_self .., hc.1⟩
      · rcases allocAll_filling h elsewhere with hno | ⟨w', he, h', hready⟩
        · rw [hno]
          exact .inl rfl
        · rw [he]
          refine .inr ⟨_, _, _, rfl, h'.clear ?_ _, Function.update_self .., Nat.zero_le _⟩
          rw [hready]
          exact hn

theorem Freed.filling {w' : World} {a b x : Nat} (h : Filling m P w a b) (hf : Freed m w x 0 w')
    (hx : x < a) : Filling m P w' a b := by
  have hself {y : Nat} (hy : y ≠ x) : ¬Mem x 0 y := by
    unfold Buddy.Mem
    omega
  refine ⟨hf.inv, fun hP => hf.maximal (h.maximal hP), fun hP y => ?_, fun y hay hyb => ?_⟩
  · by_cases hy : y = x
    · exact .inr (hf.now y (by rw [hy]; exact Mem.self))
    · rw [hf.other y (hself hy)]
      exact h.calm hP y
  · rcases h.waiting y hay hyb with ⟨hg, hfr, hc⟩
    rw [hf.given, hf.allocated, hf.other y (hself (by omega))]
    exact ⟨hg, hfr, hc⟩

theorem Filling.free {a b : Nat} (h : Filling m P w a b) (hab : a < b)
    (hready : w.ready (m.nid a) = true) :
    ∃ w', freeHeapPages m a 0 w = .ok w' ∧ Filling m P w' (a + 1) b := by
  rcases h.waiting a le_rfl hab with ⟨hg, hfr, hc⟩
  have hself {y : Nat} (hy : Mem a 0 y) : y = a := by
    unfold Buddy.Mem at hy
    omega
  rcases freeHeapPages_freed h.inv (.fresh hg hfr hready hc) (fun y hy => by
    have hs := hy.2
    rw [hself hy.1, hfr.1] at hs
    nomatch hs) with ⟨w', he, hf⟩
  refine ⟨w', he, hf.filling ⟨h.inv, h.maximal, h.calm, fun x hx => ?_⟩ (Nat.lt_succ_self a)⟩
  exact h.waiting x (Nat.le_of_succ_le hx)

theorem Filling.mono {a a' b b' : Nat} (h : Filling m P w a b) (ha : a ≤ a') (hb : b' ≤ b) :
    Filling m P w a' b' :=
  ⟨h.inv, h.maximal, h.calm, fun x hax hxb => h.waiting x (ha.trans hax) (lt_of_lt_of_le hxb hb)⟩

theorem initLoop_filling {elsewhere : Nat → List Request} {fuel i nrPages : Nat}
    (h : Filling m P w (pg + i) (pg + nrPages)) :
    initLoop m elsewhere pg fuel i nrPages w = .error .noMemory ∨
      ∃ w' a, initLoop m elsewhere pg fuel i nrPages w = .ok w' ∧ Filling m P w' a a := by
  have hdone {v : World} {a b : Nat} (hv : Filling m P v a b) : Filling m P v a a :=
    ⟨hv.inv, hv.maximal, hv.calm, fun x hax hxa => by omega⟩
  induction fuel generalizing i nrPages w with
  | zero => exact .inr ⟨w, _, rfl, hdone h⟩
  | succ fuel ih =>
    unfold initLoop
    split
    · next hlt =>
      dsimp only
      split
      · next hready =>
        rcases h.free (by omega) hready with ⟨w₁, he, h₁⟩
        rw [he]
        exact ih h₁
      · next hready =>
        generalize decide (m.nid (pg + i) = m.nid (pg + nrPages - 1) ∧ (pg + i) % 2 ^ maxOrder = 0 ∧
          findFirstSetBit (pg + nrPages) ≤ findFirstSetBit (pg + i)) = useTail
        rcases initNodeHeap_filling h (by simpa using hready) (elsewhere (m.nid (pg + i))) (pg + i)
          (nrPages - i) useTail with hno | ⟨n, tail, w₁, he, h₁, hready₁, hn⟩
        · rw [hno]
          exact .inl rfl
        · rw [he]
          dsimp only
          rw [if_neg (by omega)]
          split
          · exact ih (h₁.mono (by omega) le_rfl)
          · split
            · exact .inr ⟨w₁, _, rfl, hdone h₁⟩
            · rcases h₁.free (by omega) hready₁ with ⟨w₂, he₂, h₂⟩
              rw [he₂]
              exact ih (h₂.mono le_rfl (by omega))
    · exact .inr ⟨w, _, rfl, hdone h⟩

end PageAlloc
