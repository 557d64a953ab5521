import MemoryMonitor.PageAlloc.Merge

/-!
# Allocating and freeing

`Inv` holds between the operations. `Book` is its part about everything but the lists
of free blocks: what has been handed out, and where offlined pages are.
-/

namespace PageAlloc

open Buddy (Mem)

/-- The page is in use, offlining or not. -/
def Page.Held (p : Page) : Prop := p.state = .inuse ∨ p.state = .offlining

/-- The page has not been used. -/
def Page.Fresh (p : Page) : Prop := p.state = .inuse ∧ p.broken = false ∧ p.xenHeap = false

/-- The block of order `o` at `h` is in use. -/
structure Taken (m : Machine) (w : World) (h o : Nat) : Prop where
  le : o ≤ maxOrder
  aligned : 2 ^ o ∣ h
  page : ∀ x, Mem h o x → (w.page x).Held ∧ w.given x = true ∧ m.nid x = m.nid h ∧
    Nat.log 2 x = Nat.log 2 h
  ready : w.ready (m.nid h) = true

structure Book (m : Machine) (w : World) : Prop where
  fresh : ∀ x, w.given x = false → (w.page x).Fresh
  heapPage : ∀ x, w.given x = true → HeapPage m x
  broken : ∀ x, (w.page x).broken = true → (w.page x).state = .offlining ∨ (w.page x).state = .offlined
  everBroken : ∀ x, w.everBroken x = true → (w.page x).broken = true
  taken : ∀ b ∈ w.allocated, Taken m w b.1 b.2
  disjoint : ∀ b ∈ w.allocated, ∀ b' ∈ w.allocated, ∀ x, Mem b.1 b.2 x → Mem b'.1 b'.2 x → b = b'
  nodup : w.allocated.Nodup
  ready : ∀ x, ¬(w.page x).Held → w.ready (m.nid x) = true
  unready : ∀ n, w.ready n = false → ∀ z o, w.heap n z o = []
  offlinedList : ∀ x, x ∈ w.pageOfflinedList ↔
    (w.page x).state = .offlined ∧ (w.page x).broken = false
  brokenList : ∀ x, x ∈ w.pageBrokenList ↔
    (w.page x).state = .offlined ∧ (w.page x).broken = true
  listNodup : w.pageOfflinedList.Nodup ∧ w.pageBrokenList.Nodup
  plain : ∀ x, (w.page x).state = .offlined → (w.page x).xenHeap = false

structure Inv (m : Machine) (w : World) : Prop where
  good : Good m w.page w.heap (fun _ => False) (fun _ => False)
  counts : Counts w.heap w.avail w.totalAvailPages 0 0 0
  book : Book m w

/-- No page is offlined or to be offlined. -/
def Calm (w : World) : Prop := ∀ x, (w.page x).state = .inuse ∨ (w.page x).state = .free

variable {m : Machine} {w : World}

theorem Page.isFree_iff {p : Page} :
    p.isFree = true ↔ p.state = .free ∧ p.broken = false ∧ p.xenHeap = false ∧ p.rest = 0 := by
  simp [Page.isFree]

theorem inside_false {page : Nat → Page} {x : Nat} :
    Inside page (fun _ => False) x ↔ (page x).state = .free :=
  or_iff_left id

/-! ## `alloc_heap_pages` -/

theorem tryZone_le {node order zone j : Nat} (h : tryZone w node order zone = some j) :
    order ≤ j := by
  unfold tryZone at h
  split at h
  · have hm := List.mem_of_find?_eq_some h
    exact (List.mem_range'_1.mp hm).1
  · cases h

theorem findZone_le {node order zoneLo zone : Nat} {r : Nat × Nat}
    (h : findZone w node order zoneLo zone = some r) : order ≤ r.2 := by
  induction zone with
  | zero =>
    rcases Option.map_eq_some_iff.mp h with ⟨j, hj, rfl⟩
    exact tryZone_le hj
  | succ zone ih =>
    unfold findZone at h
    split at h
    · next j hj =>
      injection h with h
      subst h
      exact tryZone_le hj
    · split at h
      · exact ih h
      · nomatch h

theorem findNode_le {r : Request} {exactNode : Bool} {fuel : Nat} {s : Try} {q : Nat × Nat × Nat}
    (h : findNode m w r exactNode fuel s = .ok (some q)) : r.order ≤ q.2.2 := by
  induction fuel generalizing s with
  | zero => nomatch h
  | succ fuel ih =>
    unfold findNode at h
    split at h
    · nomatch h
    · split at h
      · next zone j hj =>
        injection h with h
        injection h with h
        subst h
        exact findZone_le hj
      · split at h
        · nomatch h
        · exact ih h

theorem firstNode_le (mask : Nat → Bool) : firstNode mask ≤ maxNumnodes := by
  unfold firstNode
  cases h : (List.range maxNumnodes).find? mask with
  | none => exact Nat.le_refl _
  | some n => exact Nat.le_of_lt (List.mem_range.mp (List.mem_of_find?_eq_some h))

theorem firstNode_lt {mask : Nat → Bool} {n : Nat} (hn : n < maxNumnodes) (hmask : mask n = true) :
    firstNode mask < maxNumnodes := by
  unfold firstNode
  cases h : (List.range maxNumnodes).find? mask with
  | none =>
    have hno := List.find?_eq_none.mp h n (List.mem_range.mpr hn)
    exact absurd hmask hno
  | some k => exact List.mem_range.mp (List.mem_of_find?_eq_some h)

/-- The masks lead to nodes below `MAX_NUMNODES`. -/
theorem nextTry_lt {exactNode : Bool} {s s' : Try} (hs : s.node < maxNumnodes)
    (h : nextTry m exactNode s = some s') : s'.node < maxNumnodes := by
  unfold nextTry at h
  split at h
  · nomatch h
  · split at h
    · next hout =>
      cases h
      exact hout.2
    · next hin =>
      dsimp only at h
      split at h
      · unfold nextCircle at h
        dsimp only at h
        split at h
        · nomatch h
        · split at h
          · nomatch h
          · next hlt =>
            cases h
            exact Nat.not_le.mp hlt
      · next hne =>
        cases h
        unfold pickNode at hne ⊢
        dsimp only
        split
        · next hmask =>
          rw [if_pos hmask] at hne
          exact absurd rfl hne
        · next hmask =>
          split
          · exact firstNode_lt hs (by simpa using hmask)
          · next hlt => exact Nat.not_le.mp hlt

theorem findNode_inBounds (w : World) (r : Request) (exactNode : Bool) (fuel : Nat) {s : Try}
    (hs : s.node < maxNumnodes) : ∃ q, findNode m w r exactNode fuel s = .ok q := by
  induction fuel generalizing s with
  | zero => exact ⟨_, rfl⟩
  | succ fuel ih =>
    unfold findNode
    rw [if_neg (Nat.not_le.mpr hs)]
    split
    · exact ⟨_, rfl⟩
    · split
      · exact ⟨_, rfl⟩
      · next s' hnext => exact ih (nextTry_lt hs hnext)

/-- The request is not sent to tmem. -/
def NoDetour (m : Machine) (w : World) (r : Request) : Prop :=
  ¬(m.optTmem ∧ (r.order = 0 ∨ r.order ≥ 9) ∧ w.totalAvailPages ≤ w.midsizeAllocZonePages ∧ r.tmemFreeable)

/-- Where there is a search, it starts at a node below `MAX_NUMNODES`. -/
def Request.InBounds (m : Machine) (w : World) (r : Request) : Prop :=
  r.order ≤ maxOrder → NoDetour m w r → r.asked = 255 ∨ r.asked < maxNumnodes

theorem Request.start_lt {r : Request} (h : r.asked = 255 ∨ r.asked < maxNumnodes) :
    (r.start m).1 < maxNumnodes := by
  have hcpu (n : Nat) : (if n ≥ maxNumnodes then (r.cpuNode : Nat) else n) < maxNumnodes := by
    split
    · exact r.cpuNode.isLt
    · next hlt => exact Nat.not_le.mp hlt
  unfold Request.start
  by_cases hask : r.asked = 255
  · rw [if_pos hask]
    exact hcpu _
  · rw [if_neg hask]
    exact h.resolve_left hask

theorem search_le {r : Request} {q : Nat × Nat × Nat} (h : search m w r = .ok (some q)) :
    r.order ≤ q.2.2 :=
  findNode_le h

theorem Good.giveAway {page page' : Nat → Page} {heap : Lists} {pg o : Nat}
    (g : Good m page heap (fun _ => False) (Mem pg o))
    (hin : ∀ x, Mem pg o x → (page' x).state ≠ .free) (hout : ∀ x, ¬Mem pg o x → page' x = page x) :
    Good m page' heap (fun _ => False) (fun _ => False) := by
  have hfree {x : Nat} (hx : (page' x).state = .free) : ¬Mem pg o x ∧ (page x).state = .free := by
    have hx' : ¬Mem pg o x := fun hm => hin x hm hx
    rw [hout x hx'] at hx
    exact ⟨hx', hx⟩
  refine ⟨nofun, nofun, ?_, ?_, g.apart, g.nodup, ?_, ?_⟩
  · intro n z o' h hh
    have hb := g.block n z o' h hh
    have hpage {x : Nat} (hx : Mem h o' x) : page' x = page x := hout x (hb.inside x hx).2.1
    refine ⟨hb.le, hb.aligned, ?_, fun x hx => ?_⟩
    · rw [hpage Mem.self]
      exact hb.order
    · rcases hb.inside x hx with ⟨hx', -, hnz⟩
      refine ⟨?_, id, hnz⟩
      unfold Inside
      rw [hpage hx]
      exact hx'
  · intro x hx _
    rcases hfree (inside_false.mp hx) with ⟨hx', hs⟩
    exact g.cover x (.inl hs) hx'
  · intro x hx
    rcases hfree hx with ⟨hx', hs⟩
    rw [hout x hx']
    exact g.clean x hs
  · intro x hx
    exact g.heapPage x (.inl (hfree (inside_false.mp hx)).2)

/-- What `alloc_heap_pages` has done if it found a block. -/
structure Allocated (m : Machine) (w : World) (order pg : Nat) (w' : World) : Prop where
  inv : Inv m w'
  maximal : Maximal w.heap → Maximal w'.heap
  /-- The pages were free, and are in use now. -/
  was : ∀ x, Mem pg order x → (w.page x).state = .free
  now : ∀ x, Mem pg order x → w'.page x = {}
  other : ∀ x, ¬Mem pg order x → w'.page x = { w.page x with order := (w'.page x).order }
  allocated : w'.allocated = (pg, order) :: w.allocated
  given : w'.given = w.given
  ready : w'.ready = w.ready
  everBroken : w'.everBroken = w.everBroken

/-- The pages of a block outside the bookkeeping of `w` are handed out. -/
theorem Book.allocated {w' : World} {pg order : Nat} (b : Book m w) (ho : order ≤ maxOrder)
    (ha : 2 ^ order ∣ pg) (hnz : ∀ x, Mem pg order x → m.nid x = m.nid pg ∧ Nat.log 2 x = Nat.log 2 pg)
    (hwas : ∀ x, Mem pg order x → (w.page x).state = .free)
    (hnow : ∀ x, Mem pg order x → w'.page x = {})
    (hother : ∀ x, ¬Mem pg order x → w'.page x = { w.page x with order := (w'.page x).order })
    (hempty : ∀ n z o, w.heap n z o = [] → w.ready n = false → w'.heap n z o = [])
    (halloc : w'.allocated = (pg, order) :: w.allocated) (hgiven : w'.given = w.given)
    (hready : w'.ready = w.ready) (hbroken : w'.everBroken = w.everBroken)
    (hlists : w'.pageOfflinedList = w.pageOfflinedList ∧ w'.pageBrokenList = w.pageBrokenList) :
    Book m w' := by
  have hgiv {x : Nat} (hx : Mem pg order x) : w.given x = true := by
    by_contra hg
    have hf := (b.fresh x (by simpa using hg)).1
    rw [hwas x hx] at hf
    nomatch hf
  have hnotHeld {x : Nat} (hx : Mem pg order x) : ¬(w.page x).Held := by
    unfold Page.Held
    rw [hwas x hx]
    nofun
  have hheld {x : Nat} (hx : (w.page x).Held) : (w'.page x).Held := by
    rw [hother x fun hm => hnotHeld hm hx]
    exact hx
  have hlist {x : Nat} {v : Bool} : ((w'.page x).state = .offlined ∧ (w'.page x).broken = v) ↔
      ((w.page x).state = .offlined ∧ (w.page x).broken = v) := by
    by_cases hx : Mem pg order x
    · rw [hnow x hx, hwas x hx]
      exact iff_of_false (fun h => nomatch h.1) fun h => nomatch h.1
    · rw [hother x hx]
  have hold (c : Nat × Nat) (hc : c ∈ w.allocated) : Taken m w' c.1 c.2 := by
    have ht := b.taken c hc
    refine ⟨ht.le, ht.aligned, fun x hx => ?_, by rw [hready]; exact ht.ready⟩
    rcases ht.page x hx with ⟨hh, hg, hp⟩
    exact ⟨hheld hh, by rw [hgiven]; exact hg, hp⟩
  have hnew : Taken m w' pg order := by
    refine ⟨ho, ha, fun x hx => ⟨?_, by rw [hgiven]; exact hgiv hx, hnz x hx⟩, ?_⟩
    · rw [hnow x hx]
      exact .inl rfl
    · rw [hready]
      exact b.ready pg (hnotHeld Mem.self)
  have hapart {c : Nat × Nat} (hc : c ∈ w.allocated) {x : Nat} (hx : Mem pg order x) :
      ¬Mem c.1 c.2 x := fun hx' => hnotHeld hx ((b.taken c hc).page x hx').1
  refine ⟨?_, ?_, ?_, ?_, ?_, ?_, ?_, ?_, ?_, ?_, ?_, ?_, ?_⟩
  · intro x hx
    rw [hgiven] at hx
    have hm : ¬Mem pg order x := fun hm => by
      rw [hgiv hm] at hx
      nomatch hx
    rw [hother x hm]
    exact b.fresh x hx
  · intro x hx
    rw [hgiven] at hx
    exact b.heapPage x hx
  · intro x hx
    by_cases hm : Mem pg order x
    · rw [hnow x hm] at hx
      nomatch hx
    · rw [hother x hm] at hx ⊢
      exact b.broken x hx
  · intro x hx
    rw [hbroken] at hx
    have hbx := b.everBroken x hx
    have hm : ¬Mem pg order x := fun hm => by
      rcases b.broken x hbx with hs | hs <;>
      · rw [hwas x hm] at hs
        nomatch hs
    rw [hother x hm]
    exact hbx
  · intro c hc
    rw [halloc] at hc
    rcases List.mem_cons.mp hc with rfl | hc
    · exact hnew
    · exact hold c hc
  · intro c hc c' hc' x hx hx'
    rw [halloc] at hc hc'
    rcases List.mem_cons.mp hc with rfl | hk
    · rcases List.mem_cons.mp hc' with rfl | hk'
      · rfl
      · exact absurd hx' (hapart hk' hx)
    · rcases List.mem_cons.mp hc' with rfl | hk'
      · exact absurd hx (hapart hk hx')
      · exact b.disjoint c hk c' hk' x hx hx'
  · rw [halloc]
    refine List.nodup_cons.mpr ⟨fun hc => ?_, b.nodup⟩
    exact hapart hc Mem.self Mem.self
  · intro x hx
    rw [hready]
    exact b.ready x fun hh => hx (hheld hh)
  · intro n hn z o
    rw [hready] at hn
    exact hempty n z o (b.unready n hn z o) hn
  · intro x
    rw [hlists.1, hlist]
    exact b.offlinedList x
  · intro x
    rw [hlists.2, hlist]
    exact b.brokenList x
  · rw [hlists.1, hlists.2]
    exact b.listNodup
  · intro x hx
    by_cases hm : Mem pg order x
    · rw [hnow x hm]
    · rw [hother x hm] at hx ⊢
      exact b.plain x hx

theorem mem_of_lt {pg order i : Nat} (h : i < 2 ^ order) : Mem pg order (pg + i) :=
  ⟨Nat.le_add_right .., Nat.add_lt_add_left h _⟩

/-- A block of the lists is halved, and its last part handed out. -/
theorem Inv.takeBlock {n z j order pg₀ : Nat} {rest : List Nat} (h : Inv m w) (ho : order ≤ j)
    (hl : w.heap n z j = pg₀ :: rest) :
    ∃ pg w₁, halve n z order (j - order) pg₀ (w.setHeap n z j rest) = (pg, w₁) ∧
      ((List.range (2 ^ order)).all fun i => (w₁.page (pg + i)).isFree) = true ∧
      Allocated m w order pg { (w₁.count n z (-2 ^ order)).mapPages pg order fun _ => {} with
        allocated := (pg, order) :: w₁.allocated } := by
  have hmem : pg₀ ∈ w.heap n z j := by
    rw [hl]
    exact List.mem_cons_self
  have herase : (w.heap n z j).erase pg₀ = rest := by
    rw [hl]
    exact List.erase_cons_head ..
  have i₀ := InHand.unlist h.good (h.counts.zero n z) hmem
  rw [herase] at i₀
  have hj : order + (j - order) = j := Nat.add_sub_cancel' ho
  have i₁ : InHand m (w.setHeap n z j rest) (fun _ => False) n z pg₀ (order + (j - order)) := by
    rw [hj]
    exact i₀
  rcases halve_inHand i₁ with ⟨i₂, hr, hsub⟩
  have hmax := halve_maximal i₁
  generalize hw₁ : halve n z order (j - order) pg₀ (w.setHeap n z j rest) = r at i₂ hr hsub hmax
  rcases r with ⟨pg, w₁⟩
  dsimp only at i₂ hr hsub hmax
  have hr' : Relisted n z w w₁ := (Relisted.setHeap ..).trans hr
  have hfree₁ {x : Nat} (hx : Mem pg order x) : (w₁.page x).state = .free :=
    inside_false.mp (i₂.good.hand x hx)
  have hwas (x : Nat) (hx : Mem pg order x) : (w.page x).state = .free := by
    have := hfree₁ hx
    rw [hr'.page x] at this
    exact this
  have hother (x : Nat) (hx : ¬Mem pg order x) :
      (if Mem pg order x then ({} : Page) else w₁.page x) =
        { w.page x with order := (if Mem pg order x then ({} : Page) else w₁.page x).order } := by
    rw [if_neg hx]
    exact hr'.page x
  refine ⟨pg, w₁, rfl, ?_, ?_⟩
  · refine List.all_eq_true.mpr fun i hi => i₂.good.clean _ (hfree₁ ?_)
    exact mem_of_lt (List.mem_range.mp hi)
  · have hcount := (i₂.counts.count i₂.nid_lt i₂.zone_lt (-2 ^ order))
    rw [Int.add_right_neg] at hcount
    have hgood : Good m (fun x => if Mem pg order x then {} else w₁.page x) w₁.heap
        (fun _ => False) (fun _ => False) :=
      i₂.good.giveAway (fun x hx => by rw [if_pos hx]; nofun) fun x hx => if_neg hx
    have halloc : (pg, order) :: w₁.allocated = (pg, order) :: w.allocated := by
      rw [hr'.allocated]
    refine ⟨⟨hgood, hcount.zero 0 0, ?_⟩, fun hm => hmax ?_, hwas, fun x hx => if_pos hx, hother,
      halloc, hr'.given, hr'.ready, hr'.everBroken⟩
    · have hplace := i₂.place
      refine h.book.allocated i₂.le i₂.aligned (fun x hx => ?_) hwas (fun x hx => if_pos hx) hother
        (fun n' z' o hnil hn => ?_) halloc hr'.given hr'.ready hr'.everBroken hr'.offline
      · rw [(hplace x hx).1, (hplace x hx).2, (hplace pg Mem.self).1, (hplace pg Mem.self).2]
        exact ⟨rfl, rfl⟩
      · -- the node has blocks, so it is not one without lists
        have hne : n' ≠ n := by
          rintro rfl
          rw [h.book.unready n' hn z j] at hl
          nomatch hl
        exact (hr'.lists n' z' o fun hs => hne hs.1).trans hnil
    · have := hm.erase (h := pg₀) (h.good.nodup n z j)
      rw [herase] at this
      exact this

theorem allocHeapPages_spec (h : Inv m w) {r : Request} (hr : r.InBounds m w) :
    ∃ res w', allocHeapPages m r w = .ok (res, w') ∧
      ((w' = w ∧ (res = none ∨ m.optTmem = true ∧ res = r.tmemRelinquished)) ∨
        ∃ pg, res = some pg ∧ Allocated m w r.order pg w') := by
  unfold allocHeapPages
  split
  · exact ⟨none, w, rfl, .inl ⟨rfl, .inl rfl⟩⟩
  · next horder =>
    split
    · next htmem => exact ⟨_, w, rfl, .inl ⟨rfl, .inr ⟨htmem.1, rfl⟩⟩⟩
    · next htmem =>
      obtain ⟨q, hq⟩ := findNode_inBounds w r (r.start m).2 (4 * maxNumnodes) (s := r.first m)
        (Request.start_lt (hr (Nat.not_lt.mp horder) htmem))
      split
      · next e he => exact nomatch hq.symm.trans he
      · exact ⟨none, w, rfl, .inl ⟨rfl, .inl rfl⟩⟩
      · next node zone j hs =>
        split
        · exact ⟨none, w, rfl, .inl ⟨rfl, .inl rfl⟩⟩
        · next pg₀ rest hl =>
          have ho : r.order ≤ j := search_le hs
          rcases h.takeBlock ho hl with ⟨pg, w₁, hhalve, hfree, ha⟩
          rw [hhalve]
          exact ⟨some pg, _, if_pos hfree, .inr ⟨pg, rfl, ha⟩⟩

end PageAlloc
