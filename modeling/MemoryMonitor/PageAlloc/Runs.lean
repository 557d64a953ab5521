import MemoryMonitor.PageAlloc.Free

/-!
# The buddy heap over whole runs

A run starts before `init_heap_pages`. It ends early only if there is no memory for
the lists of a node that turns up.
-/

namespace PageAlloc

open Buddy (Mem)

variable {m : Machine} {P : Prop} {w : World}

/-- The invariant between two steps. `P` is whether pages are never offlined. -/
def Sound (m : Machine) (P : Prop) (w : World) : Prop := Filling m P w 0 0

theorem Filling.sound {a : Nat} (h : Filling m P w a a) : Sound m P w :=
  ⟨h.inv, h.maximal, h.calm, fun _ _ hx => nomatch hx⟩

theorem World.init_sound : Sound m P World.init := by
  have hweight (n z : Nat) : weight World.init.heap n z = 0 :=
    Finset.sum_eq_zero fun o _ => by simp [World.init]
  refine ⟨⟨⟨?_, ?_, ?_, ?_, ?_, ?_, ?_, ?_⟩, ⟨?_, ?_⟩, ?_⟩, fun _ => ?_, fun _ x => .inl rfl, ?_⟩
  · exact nofun
  · exact nofun
  · exact fun n z o h hh => nomatch hh
  · intro x hx
    rcases hx with hx | hx <;> nomatch hx
  · exact fun n z o h _ _ _ _ x hh => nomatch hh
  · exact fun _ _ _ => .nil
  · exact fun x hx => nomatch hx
  · intro x hx
    rcases hx with hx | hx <;> nomatch hx
  · intro n z
    rw [hweight]
    simp [World.init]
  · simp [World.init]
  · refine ⟨fun x _ => ⟨rfl, rfl, rfl⟩, nofun, nofun, nofun, nofun, nofun, .nil, fun x hx => ?_,
      fun _ _ _ _ => rfl, fun x => ?_, fun x => ?_, ⟨.nil, .nil⟩, nofun⟩
    · exact absurd (.inl rfl) hx
    · exact iff_of_false List.not_mem_nil fun hx => nomatch hx.1
    · exact iff_of_false List.not_mem_nil fun hx => nomatch hx.1
  · exact fun n z z' o h _ _ hh => nomatch hh
  · exact fun x _ hx => nomatch hx

/-! ## Steps -/

theorem HeapStep.init_filling {pg nrPages : Nat} (h : Sound m P w)
    (hgive : ∀ x ∈ List.range' pg nrPages, w.mayGive m x = true) :
    Filling m P { w with given := fun x => w.given x || decide (pg ≤ x ∧ x < pg + nrPages) } pg
      (pg + nrPages) := by
  have b := h.inv.book
  have hfresh {x : Nat} (hx : pg ≤ x) (hx' : x < pg + nrPages) :
      w.given x = false ∧ HeapPage m x := by
    have := hgive x (List.mem_range'_1.mpr ⟨hx, hx'⟩)
    simp only [World.mayGive, Bool.and_eq_true, Bool.not_eq_true', bne_iff_ne, decide_eq_true_eq]
      at this
    rcases this with ⟨⟨⟨hg, hv⟩, h0⟩, hlt⟩
    exact ⟨hg, hv, h0, hlt⟩
  refine ⟨⟨h.inv.good, h.inv.counts, ?_⟩, h.maximal, h.calm, fun x hx hx' => ?_⟩
  · refine ⟨fun x hx => ?_, fun x hx => ?_, b.broken, b.everBroken, fun c hc => ?_, b.disjoint,
      b.nodup, b.ready, b.unready, b.offlinedList, b.brokenList, b.listNodup, b.plain⟩
    · exact b.fresh x (Bool.or_eq_false_iff.mp hx).1
    · rcases (Bool.or_eq_true _ _).mp hx with hx | hx
      · exact b.heapPage x hx
      · rw [decide_eq_true_eq] at hx
        exact (hfresh hx.1 hx.2).2
    · have ht := b.taken c hc
      refine ⟨ht.le, ht.aligned, fun x hx => ?_, ht.ready⟩
      rcases ht.page x hx with ⟨hh, hg, hp⟩
      refine ⟨hh, ?_, hp⟩
      show (w.given x || _) = true
      rw [hg]
      rfl
  · rcases hfresh hx hx' with ⟨hg, -⟩
    refine ⟨?_, b.fresh x hg, fun c hc hm => ?_⟩
    · show (w.given x || decide (pg ≤ x ∧ x < pg + nrPages)) = true
      simp [hx, hx']
    · rw [((b.taken c hc).page x hm).2.1] at hg
      nomatch hg

theorem Sound.mayFree {pg order : Nat} (h : Sound m P w) (hf : w.mayFree pg order = true) :
    Sound m P { w with allocated := w.allocated.erase (pg, order) } ∧
      Freeable m { w with allocated := w.allocated.erase (pg, order) } pg order := by
  have b := h.inv.book
  simp only [World.mayFree, Bool.and_eq_true, List.contains_iff_mem, Bool.not_eq_true'] at hf
  rcases hf with ⟨hmem, hxen⟩
  have hsub {c : Nat × Nat} (hc : c ∈ w.allocated.erase (pg, order)) : c ∈ w.allocated :=
    List.mem_of_mem_erase hc
  constructor
  · refine ⟨⟨h.inv.good, h.inv.counts, ?_⟩, h.maximal, h.calm, fun x _ hx => nomatch hx⟩
    refine ⟨b.fresh, b.heapPage, b.broken, b.everBroken, fun c hc => ?_, ?_, b.nodup.erase _, b.ready,
      b.unready, b.offlinedList, b.brokenList, b.listNodup, b.plain⟩
    · have ht := b.taken c (hsub hc)
      exact ⟨ht.le, ht.aligned, ht.page, ht.ready⟩
    · exact fun c hc c' hc' => b.disjoint c (hsub hc) c' (hsub hc')
  · have ht := b.taken (pg, order) hmem
    refine ⟨⟨ht.le, ht.aligned, ht.page, ht.ready⟩, fun c hc x hx hx' => ?_, hxen⟩
    have hne := b.disjoint c (hsub hc) (pg, order) hmem x hx' hx
    rw [hne] at hc
    exact (List.Nodup.not_mem_erase b.nodup) hc

/-- Only the page `mfn` has changed its state, and with it the list that it is on. -/
structure Moved (m : Machine) (w : World) (mfn : Nat) (w' : World) : Prop where
  given : w.given mfn = true
  page : ∀ x, x ≠ mfn → w'.page x = { w.page x with order := (w'.page x).order }
  held : (w.page mfn).Held → (w'.page mfn).Held
  ready : ¬(w'.page mfn).Held → w.ready (m.nid mfn) = true
  broken : (w'.page mfn).broken = true →
    (w'.page mfn).state = .offlining ∨ (w'.page mfn).state = .offlined
  plain : (w'.page mfn).state = .offlined → (w'.page mfn).xenHeap = false
  everBroken : w'.everBroken mfn = true → (w'.page mfn).broken = true
  everBroken_other : ∀ x, x ≠ mfn → w'.everBroken x = w.everBroken x
  offlined : mfn ∈ w'.pageOfflinedList ↔
    (w'.page mfn).state = .offlined ∧ (w'.page mfn).broken = false
  brokenList : mfn ∈ w'.pageBrokenList ↔
    (w'.page mfn).state = .offlined ∧ (w'.page mfn).broken = true
  lists : ∀ x, x ≠ mfn → (x ∈ w'.pageOfflinedList ↔ x ∈ w.pageOfflinedList) ∧
    (x ∈ w'.pageBrokenList ↔ x ∈ w.pageBrokenList)
  nodup : w'.pageOfflinedList.Nodup ∧ w'.pageBrokenList.Nodup
  unready : ∀ n, w.ready n = false → ∀ z o, w'.heap n z o = []
  rest : w'.allocated = w.allocated ∧ w'.given = w.given ∧ w'.ready = w.ready

theorem Book.moved {w' : World} (b : Book m w) (mfn : Nat) (hm : Moved m w mfn w') : Book m w' := by
  rcases hm.rest with ⟨halloc, hgiven, hready⟩
  have hheld {x : Nat} (hx : (w.page x).Held) : (w'.page x).Held := by
    by_cases hx' : x = mfn
    · subst hx'
      exact hm.held hx
    · rw [hm.page x hx']
      exact hx
  refine ⟨fun x hx => ?_, fun x hx => ?_, fun x hx => ?_, fun x hx => ?_, fun c hc => ?_, ?_, ?_,
    fun x hx => ?_, fun n hn => ?_, fun x => ?_, fun x => ?_, hm.nodup, fun x hx => ?_⟩
  · rw [hgiven] at hx
    have hx' : x ≠ mfn := by
      rintro rfl
      rw [hm.given] at hx
      nomatch hx
    rw [hm.page x hx']
    exact b.fresh x hx
  · rw [hgiven] at hx
    exact b.heapPage x hx
  · by_cases hx' : x = mfn
    · subst hx'
      exact hm.broken hx
    · rw [hm.page x hx'] at hx ⊢
      exact b.broken x hx
  · by_cases hx' : x = mfn
    · subst hx'
      exact hm.everBroken hx
    · rw [hm.everBroken_other x hx'] at hx
      rw [hm.page x hx']
      exact b.everBroken x hx
  · rw [halloc] at hc
    have ht := b.taken c hc
    refine ⟨ht.le, ht.aligned, fun x hx => ?_, by rw [hready]; exact ht.ready⟩
    rcases ht.page x hx with ⟨hh, hg, hrest⟩
    exact ⟨hheld hh, by rw [hgiven]; exact hg, hrest⟩
  · rw [halloc]
    exact b.disjoint
  · rw [halloc]
    exact b.nodup
  · rw [hready]
    by_cases hx' : x = mfn
    · subst hx'
      exact hm.ready hx
    · exact b.ready x fun hh => hx (hheld hh)
  · rw [hready] at hn
    exact hm.unready n hn
  · by_cases hx' : x = mfn
    · subst hx'
      exact hm.offlined
    · rw [(hm.lists x hx').1, hm.page x hx']
      exact b.offlinedList x
  · by_cases hx' : x = mfn
    · subst hx'
      exact hm.brokenList
    · rw [(hm.lists x hx').2, hm.page x hx']
      exact b.brokenList x
  · by_cases hx' : x = mfn
    · subst hx'
      exact hm.plain hx
    · rw [hm.page x hx'] at hx ⊢
      exact b.plain x hx

/-- A page outside the free blocks is changed, and stays outside. -/
theorem Good.setPage {page : Nat → Page} {heap : Lists} {mfn : Nat} {p : Page}
    (g : Good m page heap (fun _ => False) (fun _ => False)) (hwas : (page mfn).state ≠ .free)
    (hnow : p.state ≠ .free) :
    Good m (Function.update page mfn p) heap (fun _ => False) (fun _ => False) := by
  have hfree {x : Nat} : (Function.update page mfn p x).state = .free ↔
      x ≠ mfn ∧ (page x).state = .free := by
    by_cases hx : x = mfn
    · subst hx
      rw [Function.update_self]
      exact iff_of_false hnow fun hs => hs.1 rfl
    · rw [Function.update_of_ne hx]
      exact (and_iff_right hx).symm
  refine ⟨nofun, nofun, fun n z o h hh => ?_, fun x hx => ?_, g.apart, g.nodup, fun x hx => ?_,
    fun x hx => ?_⟩
  · have hblk := g.block n z o h hh
    have hs {x : Nat} (hx : Mem h o x) : x ≠ mfn := by
      rintro rfl
      exact hwas (inside_false.mp (hblk.inside x hx).1)
    refine ⟨hblk.le, hblk.aligned, ?_, fun x hx => ?_⟩
    · rw [Function.update_of_ne (hs Mem.self)]
      exact hblk.order
    · rcases hblk.inside x hx with ⟨hin, hrest⟩
      exact ⟨.inl (hfree.mpr ⟨hs hx, inside_false.mp hin⟩), hrest⟩
  · exact g.cover x (.inl (hfree.mp (inside_false.mp hx)).2)
  · rcases hfree.mp hx with ⟨hx', hs⟩
    rw [Function.update_of_ne hx']
    exact g.clean x hs
  · exact g.heapPage x (.inl (hfree.mp (inside_false.mp hx)).2)

theorem Page.Held.ne_free {p : Page} (h : p.Held) : p.state ≠ .free := by
  rcases h with hs | hs <;>
  · rw [hs]
    nofun

theorem Page.Held.ne_offlined {p : Page} (h : p.Held) : p.state ≠ .offlined := by
  rcases h with hs | hs <;>
  · rw [hs]
    nofun

/-- A page in use is changed, and stays in use. -/
theorem Inv.setHeld {mfn : Nat} {p : Page} {ever : Nat → Bool} (h : Inv m w)
    (hgiven : w.given mfn = true) (hheld : (w.page mfn).Held) (hp : p.Held)
    (hb : p.broken = true → p.state = .offlining) (hkeep : ever mfn = true → p.broken = true)
    (hever : ∀ x, x ≠ mfn → ever x = w.everBroken x) :
    Inv m { w with page := Function.update w.page mfn p, everBroken := ever } := by
  have b := h.book
  have hself : Function.update w.page mfn p mfn = p := Function.update_self ..
  have hno {l : List Nat} {v : Bool}
      (hl : ∀ x, x ∈ l ↔ (w.page x).state = .offlined ∧ (w.page x).broken = v) :
      mfn ∈ l ↔ p.state = .offlined ∧ p.broken = v :=
    iff_of_false (fun hx => hheld.ne_offlined ((hl mfn).mp hx).1) fun hx => hp.ne_offlined hx.1
  refine ⟨h.good.setPage hheld.ne_free hp.ne_free, h.counts, b.moved mfn ?_⟩
  refine ⟨hgiven, fun x hx => ?_, fun _ => ?_, fun hx => ?_, fun hx => ?_, fun hx => ?_, fun hx => ?_,
    hever, ?_, ?_, fun x _ => ⟨.rfl, .rfl⟩, b.listNodup, b.unready, rfl, rfl, rfl⟩ <;> dsimp only at *
  · rw [Function.update_of_ne hx]
  · rw [hself]
    exact hp
  · rw [hself] at hx
    exact absurd hp hx
  · rw [hself] at hx ⊢
    exact .inl (hb hx)
  · rw [hself] at hx
    exact absurd hx hp.ne_offlined
  · rw [hself]
    exact hkeep hx
  · rw [hself]
    exact hno b.offlinedList
  · rw [hself]
    exact hno b.brokenList

/-- The holder changes the owner, the count or the flags of a page. -/
theorem Sound.use {mfn rest order : Nat} {xenHeap : Bool} (h : Sound m P w)
    (hgiven : w.given mfn = true) (hheld : (w.page mfn).Held) :
    Sound m P { w with
      page := Function.update w.page mfn
        { w.page mfn with xenHeap := xenHeap, rest := rest, order := order } } := by
  refine ⟨h.inv.setHeld hgiven hheld hheld (fun hb => ?_) (h.inv.book.everBroken mfn) fun _ _ => rfl,
    h.maximal, fun hP x => ?_, fun _ _ hx => nomatch hx⟩
  · refine (h.inv.book.broken mfn hb).resolve_right fun hs => ?_
    rcases hheld with hh | hh <;>
    · rw [hs] at hh
      nomatch hh
  · have hc := h.calm hP x
    dsimp only
    by_cases hx : x = mfn
    · subst hx
      rw [Function.update_self]
      exact hc
    · rw [Function.update_of_ne hx]
      exact hc

theorem Freed.sound {w' : World} {pg order : Nat} (h : Sound m P w) (hf : Freed m w pg order w') :
    Sound m P w' := by
  refine ⟨hf.inv, fun hP => hf.maximal (h.maximal hP), fun hP x => ?_, fun _ _ hx => nomatch hx⟩
  by_cases hx : Mem pg order x
  · exact .inr (hf.now x hx)
  · rw [hf.other x hx]
    exact h.calm hP x

/-- No node beyond `MAX_NUMNODES` is searched. -/
def HeapStep.InBounds (m : Machine) (w : World) : HeapStep → Prop
  | .alloc r => r.InBounds m w
  | _ => True

theorem Sound.run (h : Sound m P w) (s : HeapStep) (hnode : s.InBounds m w)
    (hfree : ∀ pg order, s = .free pg order → w.mayFree pg order = true →
      ∀ x, ¬Leaving w pg order x) :
    s.run m w = .error .noMemory ∨ ∃ w', s.run m w = .ok w' ∧ Sound m P w' := by
  cases s with
  | init pg nrPages elsewhere =>
    dsimp only [HeapStep.run]
    split
    · next hgive =>
      have hfill := HeapStep.init_filling h (List.all_eq_true.mp hgive)
      rcases initLoop_filling (i := 0) hfill with hno | ⟨w', a, he, h'⟩
      · exact .inl hno
      · exact .inr ⟨w', he, h'.sound⟩
    · exact .inr ⟨w, rfl, h⟩
  | alloc r =>
    rcases allocHeapPages_spec h.inv hnode with ⟨res, w', he, ⟨rfl, -⟩ | ⟨pg, -, ha⟩⟩
    · refine .inr ⟨w', ?_, h⟩
      dsimp only [HeapStep.run]
      rw [he]
    · refine .inr ⟨w', ?_, ha.filling h⟩
      dsimp only [HeapStep.run]
      rw [he]
  | free pg order =>
    dsimp only [HeapStep.run]
    split
    · next hf =>
      rcases h.mayFree hf with ⟨h', hfr⟩
      rcases freeHeapPages_freed h'.inv hfr (hfree pg order rfl hf) with ⟨w', he, hfreed⟩
      exact .inr ⟨w', he, hfreed.sound h'⟩
    · exact .inr ⟨w, rfl, h⟩
  | use mfn xenHeap rest order =>
    dsimp only [HeapStep.run]
    split
    · next hu => exact .inr ⟨_, rfl, h.use hu.1 hu.2⟩
    · exact .inr ⟨w, rfl, h⟩

/-- A run of the heap, up to the first `BUG`. -/
def runHeap (m : Machine) : List HeapStep → World → Except Halt World
  | [], w => .ok w
  | s :: rest, w =>
      match s.run m w with
      | .error e => .error e
      | .ok w => runHeap m rest w

/-- Every step of the run is within the bounds. -/
def InBounds (m : Machine) : List HeapStep → World → Prop
  | [], _ => True
  | s :: rest, w => s.InBounds m w ∧ ∀ w', s.run m w = .ok w' → InBounds m rest w'

theorem runHeap_sound (h : Sound m True w) {steps : List HeapStep} (hnodes : InBounds m steps w) :
    runHeap m steps w = .error .noMemory ∨ ∃ w', runHeap m steps w = .ok w' ∧ Sound m True w' := by
  induction steps generalizing w with
  | nil => exact .inr ⟨w, rfl, h⟩
  | cons s rest ih =>
    -- without offlining no page is ever to be offlined
    have hcalm (pg order : Nat) (x : Nat) : ¬Leaving w pg order x := fun hl => by
      rcases h.calm trivial x with hs | hs <;>
      · rw [hl.2] at hs
        nomatch hs
    unfold runHeap
    rcases h.run s hnodes.1 fun pg order _ _ => hcalm pg order with hno | ⟨w₁, he, h₁⟩
    · rw [hno]
      exact .inl rfl
    · rw [he]
      exact ih h₁ (hnodes.2 w₁ he)

/-! ## The buddy heap -/

/-- What holds of the free blocks. -/
structure BuddyHeap (m : Machine) (w : World) : Prop where
  /-- Each block on a list is aligned and consists of free pages of its node and zone. -/
  block : ∀ n z o h, h ∈ w.heap n z o → o ≤ maxOrder ∧ 2 ^ o ∣ h ∧ (w.page h).order = o ∧
    ∀ x, Mem h o x → (w.page x).state = .free ∧ m.nid x = n ∧ pageToZone (w.page x) x = z
  /-- Each free page is in one block, which is on one list, once. -/
  cover : ∀ x, (w.page x).state = .free → ∃ n z o h, h ∈ w.heap n z o ∧ Mem h o x ∧
    ∀ n' z' o' h', h' ∈ w.heap n' z' o' → Mem h' o' x → n' = n ∧ z' = z ∧ o' = o ∧ h' = h
  nodup : ∀ n z o, (w.heap n z o).Nodup
  avail : ∀ n z, w.avail n z
    = ∑ o ∈ Finset.range (maxOrder + 1), ((w.heap n z o).map fun _ => (2 : Int) ^ o).sum
  total : w.totalAvailPages
    = ∑ n ∈ Finset.range maxNumnodes, ∑ z ∈ Finset.range nrZones, w.avail n z
  /-- Every block is on a list that the total counts. -/
  counted : ∀ n z o h, h ∈ w.heap n z o → n < maxNumnodes ∧ z < nrZones
  maximal : ∀ n z z' o h, o < maxOrder → 2 ^ (o + 1) ∣ h →
    h ∈ w.heap n z o → h + 2 ^ o ∉ w.heap n z' o

theorem Inv.buddyHeap (h : Inv m w) (hmax : Maximal w.heap) : BuddyHeap m w := by
  have g := h.good
  have hfree {n z o h' x : Nat} (hh : h' ∈ w.heap n z o) (hx : Mem h' o x) :
      (w.page x).state = .free ∧ m.nid x = n ∧ Nat.log 2 x = z := by
    rcases (g.block n z o h' hh).inside x hx with ⟨hin, -, hnz⟩
    exact ⟨inside_false.mp hin, hnz⟩
  have hzone {x : Nat} (hx : (w.page x).state = .free) :
      pageToZone (w.page x) x = Nat.log 2 x := by
    unfold pageToZone
    rw [(Page.isFree_iff.mp (g.clean x hx)).2.2.1]
    rfl
  refine ⟨fun n z o h' hh => ?_, fun x hx => ?_, g.nodup, fun n z => ?_, h.counts.sum,
    fun n z o h' hh => ?_, hmax⟩
  · have hb := g.block n z o h' hh
    refine ⟨hb.le, hb.aligned, hb.order, fun x hx => ?_⟩
    rcases hfree hh hx with ⟨hs, hn, hz⟩
    exact ⟨hs, hn, (hzone hs).trans hz⟩
  · rcases g.cover x (.inl hx) id with ⟨o, h', hh, hm⟩
    refine ⟨_, _, o, h', hh, hm, fun n' z' o' h'' hh' hm' => ?_⟩
    rcases hfree hh' hm' with ⟨-, hn, hz⟩
    have hs := g.apart _ _ _ _ _ _ _ _ x hh' hh hm' hm
    exact ⟨hn.symm, hz.symm, hs.1, hs.2⟩
  · rw [h.counts.each n z]
    simp [weight, mul_comm]
  · rcases hfree hh Mem.self with ⟨hs, rfl, rfl⟩
    have hp := g.heapPage h' (.inl hs)
    exact ⟨m.nid_lt h', Nat.log_lt_of_lt_pow hp.ne_zero hp.lt⟩

/-- In every run of the heap without offlining. -/
theorem runHeap_buddyHeap (m : Machine) {steps : List HeapStep} (hnodes : InBounds m steps .init) :
    runHeap m steps .init = .error .noMemory ∨
      ∃ w, runHeap m steps .init = .ok w ∧ BuddyHeap m w := by
  rcases runHeap_sound World.init_sound hnodes with hno | ⟨w, he, h⟩
  · exact .inl hno
  · exact .inr ⟨w, he, h.inv.buddyHeap (h.maximal trivial)⟩

/-- A machine with one node. -/
def oneNode : Machine where
  nid _ := 0
  nid_lt _ := by decide
  valid _ := true
  nodeOnline n := n == 0
  optTmem := false
  needed := 0
  directmapEnd := 0
  xenFixed _ := false
  conventional _ := true

def anyPage : Request where
  zoneLo := 0
  zoneHi := nrZones - 1
  order := 0
  memflags := 0
  domain := none
  cpuNode := ⟨0, by decide⟩
  tmemFreeable := false
  tmemRelinquished := none

/-- A block of eight pages is halved, and merged again. -/
def halved : List HeapStep := [.init 8 8 fun _ => [], .alloc { anyPage with order := 1 }, .free 14 1]

theorem runHeap_buddyHeap_halved : ∃ w, runHeap oneNode halved .init = .ok w ∧ BuddyHeap oneNode w ∧
    w.heap 0 3 3 = [8] := by
  have hlist : (runHeap oneNode halved .init).toOption.map (fun w => w.heap 0 3 3) = some [8] := by
    decide +kernel
  have hnodes : InBounds oneNode halved .init :=
    ⟨trivial, fun _ _ => ⟨fun _ _ => .inl (by decide), fun _ _ => ⟨trivial, fun _ _ => trivial⟩⟩⟩
  rcases runHeap_buddyHeap oneNode hnodes with hno | ⟨w, he, hbuddy⟩
  · rw [hno] at hlist
    nomatch hlist
  · rw [he] at hlist
    exact ⟨w, he, hbuddy, Option.some.inj hlist⟩

/-- `XENMEMF_node(64)`. -/
theorem runHeap_beyond :
    ¬∀ steps : List HeapStep, runHeap oneNode steps .init = .error .noMemory ∨
      ∃ w, runHeap oneNode steps .init = .ok w ∧ BuddyHeap oneNode w := by
  intro h
  have hrun : runHeap oneNode [.init 5 1 fun _ => [], .alloc { anyPage with memflags := 65 * 2 ^ 8 }] .init
      = .error .outOfBounds := by
    rfl
  rcases h _ with hno | ⟨w, he, -⟩
  · nomatch hrun.symm.trans hno
  · nomatch hrun.symm.trans he

end PageAlloc
