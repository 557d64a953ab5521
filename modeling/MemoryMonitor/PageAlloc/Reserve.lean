import MemoryMonitor.PageAlloc.Runs

/-!
# `reserve_offlined_page`

A block with offlined pages is taken off its list; the runs of other pages in it go
back to the lists in chunks, and the offlined ones to the lists of offlined pages. A
chunk starts wherever the last one has ended, so it need not be aligned. `Splits` is
when all of them are: each chunk that the function may try at the start of a run is.
-/

namespace PageAlloc

open Buddy (Mem)

/-- `2 ^ o` pages from `s` on are not offlined and end before the last page. -/
def ChunkFits (offl : Nat → Prop) (last s o : Nat) : Prop :=
  (∀ x, s ≤ x → x < s + 2 ^ o → ¬offl x) ∧ s + 2 ^ o < last

/-- Every chunk that fits at `s` is aligned. -/
def Fits (offl : Nat → Prop) (last s : Nat) : Prop := ∀ o, ChunkFits offl last s o → 2 ^ o ∣ s

/-- Every chunk that fits at the first page, or right after an offlined one, is aligned. -/
def Splits (offl : Nat → Prop) (head last : Nat) : Prop :=
  ∀ s, head ≤ s → s < last → (s = head ∨ offl (s - 1)) → Fits offl last s

variable {m : Machine} {w : World} {D offl : Nat → Prop} {head ho last cur n z : Nat}

/-! ## The order of a chunk -/

theorem chunkOrder_spec {fuel o : Nat} (hoffl : ∀ x, head ≤ x → x < last → (w.isOfflined x = true ↔ offl x))
    (hcur : head ≤ cur) (hlast : last = head + 2 ^ (o + fuel))
    (hpages : ∀ x, cur ≤ x → x < cur + 2 ^ o → ¬offl x) (hend : o = 0 ∨ cur + 2 ^ o < last) :
    (∀ x, cur ≤ x → x < cur + 2 ^ chunkOrder w last cur fuel o → ¬offl x) ∧
      (chunkOrder w last cur fuel o = 0 ∨ cur + 2 ^ chunkOrder w last cur fuel o < last) ∧
      ¬ChunkFits offl last cur (chunkOrder w last cur fuel o + 1) := by
  induction fuel generalizing o with
  | zero =>
    refine ⟨hpages, hend, fun hc => ?_⟩
    have hlt : cur + 2 ^ (o + 1) < last := hc.2
    rw [Nat.add_zero] at hlast
    rw [Nat.pow_succ] at hlt
    omega
  | succ fuel ih =>
    unfold chunkOrder
    split
    · next hge => exact ⟨hpages, hend, fun hc => absurd hc.2 (by omega)⟩
    · next hlt =>
      split
      · next hany =>
        refine ⟨hpages, hend, fun hc => ?_⟩
        rcases List.any_eq_true.mp hany with ⟨x, hx, hox⟩
        rw [List.mem_range'_1] at hx
        exact hc.1 x (by omega) (by omega) ((hoffl x (by omega) (by omega)).mp hox)
      · next hany =>
        refine ih (by rw [hlast]; congr 2; omega) (fun x hx hx' => ?_) (.inr (by omega))
        by_cases hxo : x < cur + 2 ^ o
        · exact hpages x hx hxo
        · intro hox
          refine hany (List.any_eq_true.mpr ⟨x, ?_, (hoffl x (by omega) (by omega)).mpr hox⟩)
          exact List.mem_range'_1.mpr ⟨by omega, by omega⟩

theorem Fits.next {o : Nat} (h : Fits offl last cur)
    (hpages : ∀ x, cur ≤ x → x < cur + 2 ^ o → ¬offl x) (hend : o = 0 ∨ cur + 2 ^ o < last)
    (hmax : ¬ChunkFits offl last cur (o + 1)) : Fits offl last (cur + 2 ^ o) := by
  intro o' hc
  have hlt : o' < o := by
    by_contra hge
    have hle : 2 ^ o ≤ 2 ^ o' := Nat.pow_le_pow_right (by omega) (by omega)
    have hc2 := hc.2
    refine hmax ⟨fun x hx hx' => ?_, by omega⟩
    by_cases hxo : x < cur + 2 ^ o
    · exact hpages x hx hxo
    · exact hc.1 x (by omega) (by omega)
  have hdvd : 2 ^ o ∣ cur := h o ⟨hpages, hend.resolve_left (by omega)⟩
  have hdvd' : 2 ^ o' ∣ 2 ^ o := Nat.pow_dvd_pow 2 hlt.le
  exact Nat.dvd_add (Nat.dvd_trans hdvd' hdvd) hdvd'

/-! ## Carving -/

/-- The pages up to `cur` have been dealt with; the offlined ones are still in hand. -/
structure Carving (m : Machine) (w : World) (D : Nat → Prop) (n z head ho cur : Nat) (v : World) :
    Prop where
  good : Good m v.page v.heap D fun x => Mem head ho x ∧ (cur ≤ x ∨ D x)
  counts : Counts v.heap v.avail v.totalAvailPages n z
    ((head + 2 ^ ho - cur : Nat) + ((List.range' head (cur - head)).countP w.isOfflined : Nat))
  relisted : Relisted n z w v
  fits : Fits D (head + 2 ^ ho) cur
  le : head ≤ cur
  le_last : cur ≤ head + 2 ^ ho

theorem range'_split {a b c : Nat} (hab : a ≤ b) (hbc : b ≤ c) :
    List.range' a (c - a) = List.range' a (b - a) ++ List.range' b (c - b) := by
  have h1 : c - a = (b - a) + (c - b) := by omega
  rw [h1, ← List.range'_append_1, Nat.add_sub_cancel' hab]

/-- What the block that is reserved has to be. -/
structure Reservable (m : Machine) (w : World) (D : Nat → Prop) (n z head ho : Nat) : Prop where
  le : ho ≤ maxOrder
  place : ∀ x, Mem head ho x → m.nid x = n ∧ Nat.log 2 x = z
  offlined : ∀ x, Mem head ho x → (w.isOfflined x = true ↔ D x)
  splits : Splits D head (head + 2 ^ ho)
  single : ho = 0 → D head

theorem Carving.skip {v : World} (b : Reservable m w D n z head ho) (c : Carving m w D n z head ho cur v)
    (hlt : cur < head + 2 ^ ho) (hD : D cur) : Carving m w D n z head ho (cur + 1) v := by
  refine ⟨c.good.congr_hand fun x => ?_, ?_, c.relisted, ?_, Nat.le_succ_of_le c.le, hlt⟩
  · refine and_congr_right fun _ => ?_
    constructor
    · rintro (hx | hx)
      · by_cases hxc : x = cur
        · exact .inr (by rw [hxc]; exact hD)
        · exact .inl (by omega)
      · exact .inr hx
    · rintro (hx | hx)
      · exact .inl (by omega)
      · exact .inr hx
  · have hoff : w.isOfflined cur = true := (b.offlined cur ⟨c.le, hlt⟩).mpr hD
    have hone : List.range' cur (cur + 1 - cur) = [cur] := by
      rw [Nat.add_sub_cancel_left]
      rfl
    have hc := c.counts
    have hk : ((head + 2 ^ ho - (cur + 1) : Nat) : Int)
        + ((List.range' head (cur + 1 - head)).countP w.isOfflined : Nat)
        = (head + 2 ^ ho - cur : Nat) + ((List.range' head (cur - head)).countP w.isOfflined : Nat) := by
      rw [range'_split c.le (Nat.le_succ cur), hone, List.countP_append, List.countP_singleton,
        if_pos hoff]
      omega
    rw [hk]
    exact hc
  · intro o hfit
    by_cases hl : cur + 1 < head + 2 ^ ho
    · exact b.splits (cur + 1) (Nat.le_succ_of_le c.le) hl (.inr (by simpa using hD)) o hfit
    · have hlast := hfit.2
      omega

theorem Carving.chunk {v : World} {o : Nat} (b : Reservable m w D n z head ho)
    (c : Carving m w D n z head ho cur v) (hpages : ∀ x, cur ≤ x → x < cur + 2 ^ o → ¬D x)
    (hle : cur + 2 ^ o ≤ head + 2 ^ ho) (hend : o = 0 ∨ cur + 2 ^ o < head + 2 ^ ho)
    (hmax : ¬ChunkFits D (head + 2 ^ ho) cur (o + 1)) :
    Carving m w D n z head ho (cur + 2 ^ o) (v.addTail n z o cur) := by
  have hpos := Nat.two_pow_pos o
  have hle₀ := c.le
  have hsub {x : Nat} (hx : Mem cur o x) : Mem head ho x := by
    unfold Buddy.Mem at hx ⊢
    omega
  have hpow : 2 ^ o ≤ 2 ^ ho := by omega
  have hoho : o ≤ ho := (Nat.pow_le_pow_iff_right (by omega)).mp hpow
  have hal : 2 ^ o ∣ cur := by
    rcases hend with rfl | hend
    · exact Nat.one_dvd cur
    · exact c.fits o ⟨hpages, hend⟩
  refine ⟨?_, ?_, c.relisted.trans (.addTail ..), c.fits.next hpages hend hmax, by omega, hle⟩
  · refine (c.good.list (hoho.trans b.le) hal (fun x hx => ⟨hsub hx, .inl hx.1⟩)
      fun x hx => b.place x (hsub hx)).congr_hand fun x => ?_
    constructor
    · rintro ⟨⟨hx, hx' | hx'⟩, hnot⟩
      · refine ⟨hx, .inl ?_⟩
        by_contra hlt
        exact hnot ⟨hx', by omega⟩
      · exact ⟨hx, .inr hx'⟩
    · rintro ⟨hx, hx'⟩
      refine ⟨⟨hx, hx'.imp_left fun hge => by omega⟩, fun hm => ?_⟩
      rcases hx' with hge | hd
      · have := hm.2
        omega
      · exact hpages x hm.1 hm.2 hd
  · have hc := c.counts.list (h := cur) (hoho.trans b.le)
    have hzero : (List.range' cur (cur + 2 ^ o - cur)).countP w.isOfflined = 0 := by
      refine List.countP_eq_zero.mpr fun x hx hox => ?_
      rw [List.mem_range'_1] at hx
      have hm : Mem cur o x := ⟨hx.1, by omega⟩
      exact hpages x hm.1 hm.2 ((b.offlined x (hsub hm)).mp hox)
    have hk : ((head + 2 ^ ho - (cur + 2 ^ o) : Nat) : Int)
        + ((List.range' head (cur + 2 ^ o - head)).countP w.isOfflined : Nat)
        = ((head + 2 ^ ho - cur : Nat) + ((List.range' head (cur - head)).countP w.isOfflined : Nat))
          - 2 ^ o := by
      rw [range'_split c.le (Nat.le_add_right cur (2 ^ o)), List.countP_append, hzero]
      push_cast [hle, c.le_last]
      ring
    rw [hk]
    exact hc

theorem carve_spec {fuel : Nat} {v : World} (b : Reservable m w D n z head ho)
    (c : Carving m w D n z head ho cur v) (hfuel : head + 2 ^ ho ≤ cur + fuel) :
    ∃ v', carve n z ho (head + 2 ^ ho) fuel cur v = .ok v' ∧
      Carving m w D n z head ho (head + 2 ^ ho) v' := by
  have hdone {v : World} {cur : Nat} (c : Carving m w D n z head ho cur v)
      (hge : ¬cur < head + 2 ^ ho) : Carving m w D n z head ho (head + 2 ^ ho) v := by
    have heq : cur = head + 2 ^ ho := le_antisymm c.le_last (not_lt.mp hge)
    rw [heq] at c
    exact c
  induction fuel generalizing cur v with
  | zero =>
    unfold carve
    rw [if_neg (by omega)]
    exact ⟨v, rfl, hdone c (by omega)⟩
  | succ fuel ih =>
    unfold carve
    split
    · next hlt =>
      have hoff (x : Nat) (hx : head ≤ x) (hx' : x < head + 2 ^ ho) :
          v.isOfflined x = true ↔ D x := by
        rw [← b.offlined x ⟨hx, hx'⟩]
        unfold World.isOfflined
        rw [c.relisted.page x]
      split
      · next hoc =>
        exact ih (c.skip b hlt ((hoff cur c.le hlt).mp hoc)) (by omega)
      · next hoc =>
        have hcur : ¬D cur := fun hd => hoc ((hoff cur c.le hlt).mpr hd)
        have hone : ∀ x, cur ≤ x → x < cur + 2 ^ 0 → ¬D x := by
          intro x hx hx'
          have : x = cur := by
            rw [Nat.pow_zero] at hx'
            omega
          rw [this]
          exact hcur
        split
        · next h0 =>
          -- a block of one page has nothing to go back
          subst h0
          refine absurd (b.single rfl) ?_
          have hle := c.le
          have : cur = head := by
            rw [Nat.pow_zero] at hlt
            omega
          rw [← this]
          exact hcur
        · next h0 =>
          rcases chunkOrder_spec hoff c.le (by rw [Nat.zero_add]) hone (.inl rfl) with
            ⟨hpages, hend, hmax⟩
          generalize chunkOrder v (head + 2 ^ ho) cur ho 0 = o at hpages hend hmax
          have hpos := Nat.two_pow_pos o
          have hle : cur + 2 ^ o ≤ head + 2 ^ ho := by
            rcases hend with rfl | hend
            · rw [Nat.pow_zero]
              omega
            · omega
          exact ih (c.chunk b hpages hle hend hmax) (by omega)
    · next hge => exact ⟨v, rfl, hdone c hge⟩

/-! ## Collecting -/

/-- The offlined pages of `l` have gone to their lists. -/
structure Collected (n z : Nat) (l : List Nat) (v v' : World) : Prop where
  rest : v' = { v with
    avail := v'.avail
    totalAvailPages := v'.totalAvailPages
    pageOfflinedList := v'.pageOfflinedList
    pageBrokenList := v'.pageBrokenList }
  offlined : v'.pageOfflinedList
    = v.pageOfflinedList ++ l.filter fun x => v.isOfflined x && !(v.page x).broken
  broken : v'.pageBrokenList
    = v.pageBrokenList ++ l.filter fun x => v.isOfflined x && (v.page x).broken
  counts : ∀ k, Counts v.heap v.avail v.totalAvailPages n z k →
    Counts v'.heap v'.avail v'.totalAvailPages n z (k - l.countP v.isOfflined)

theorem collect_spec (hn : n < maxNumnodes) (hz : z < nrZones) (l : List Nat) (v : World) :
    Collected n z l v (collect n z l v) := by
  induction l generalizing v with
  | nil =>
    refine ⟨rfl, (List.append_nil _).symm, (List.append_nil _).symm, fun k hk => ?_⟩
    rw [List.countP_nil, Int.natCast_zero, Int.sub_zero]
    exact hk
  | cons x rest ih =>
    unfold collect
    dsimp only
    split
    · next hx =>
      have hcount (k : Int) : k - ((x :: rest).countP v.isOfflined : Nat)
          = (k + -1) - (rest.countP v.isOfflined : Nat) := by
        rw [List.countP_cons, if_pos hx]
        push_cast
        ring
      split
      · next hb =>
        change (v.page x).broken = true at hb
        have c := ih { v.count n z (-1) with pageBrokenList := v.pageBrokenList ++ [x] }
        refine ⟨c.rest, ?_, ?_, fun k hk => ?_⟩
        · refine c.offlined.trans ?_
          rw [List.filter_cons_of_neg (by simp [hb])]
          rfl
        · refine c.broken.trans ?_
          rw [List.filter_cons_of_pos (by simp [hx, hb])]
          exact (List.append_cons v.pageBrokenList x _).symm
        · rw [hcount]
          exact c.counts _ (hk.count hn hz (-1))
      · next hb =>
        change ¬(v.page x).broken = true at hb
        have c := ih { v.count n z (-1) with pageOfflinedList := v.pageOfflinedList ++ [x] }
        refine ⟨c.rest, ?_, ?_, fun k hk => ?_⟩
        · refine c.offlined.trans ?_
          rw [List.filter_cons_of_pos (by simp [hx, hb])]
          exact (List.append_cons v.pageOfflinedList x _).symm
        · refine c.broken.trans ?_
          rw [List.filter_cons_of_neg (by simp [hb])]
          rfl
        · rw [hcount]
          exact c.counts _ (hk.count hn hz (-1))
    · next hx =>
      have c := ih v
      refine ⟨c.rest, ?_, ?_, fun k hk => ?_⟩
      · rw [List.filter_cons_of_neg (by simp [hx])]
        exact c.offlined
      · rw [List.filter_cons_of_neg (by simp [hx])]
        exact c.broken
      · rw [List.countP_cons_of_neg hx]
        exact c.counts k hk

/-! ## The block as a whole -/

/-- The pages in hand are the offlined ones, so nothing is left to do. -/
theorem Good.settle {page : Nat → Page} {heap : Lists} (g : Good m page heap D D) :
    Good m page heap (fun _ => False) (fun _ => False) := by
  refine ⟨nofun, nofun, fun n z o h hh => ?_, fun x hx _ => ?_, g.apart, g.nodup, g.clean,
    fun x hx => ?_⟩
  · have hb := g.block n z o h hh
    refine ⟨hb.le, hb.aligned, hb.order, fun x hx => ?_⟩
    rcases hb.inside x hx with ⟨hin, hnot, hplace⟩
    exact ⟨.inl (hin.resolve_right hnot), id, hplace⟩
  · have hfree : (page x).state = .free := inside_false.mp hx
    refine g.cover x (.inl hfree) fun hd => ?_
    rw [g.dirty x hd] at hfree
    nomatch hfree
  · exact g.heapPage x (.inl (inside_false.mp hx))

/-- What `reserve_offlined_page` does with a block of node `n` and zone `z` that has the
pages of `D` in it. -/
structure Reserved (m : Machine) (D : Nat → Prop) (n z : Nat) (v v' : World) : Prop where
  good : Good m v'.page v'.heap (fun _ => False) (fun _ => False)
  counts : Counts v'.heap v'.avail v'.totalAvailPages 0 0 0
  page : ∀ x, v'.page x = { v.page x with order := (v'.page x).order }
  lists : ∀ n' z' o, ¬(n' = n ∧ z' = z) → v'.heap n' z' o = v.heap n' z' o
  offlined : ∀ x, x ∈ v'.pageOfflinedList ↔
    x ∈ v.pageOfflinedList ∨ (D x ∧ (v.page x).broken = false)
  broken : ∀ x, x ∈ v'.pageBrokenList ↔
    x ∈ v.pageBrokenList ∨ (D x ∧ (v.page x).broken = true)
  nodup : v.pageOfflinedList.Nodup ∧ v.pageBrokenList.Nodup →
    (∀ x, D x → x ∉ v.pageOfflinedList ∧ x ∉ v.pageBrokenList) →
    v'.pageOfflinedList.Nodup ∧ v'.pageBrokenList.Nodup
  allocated : v'.allocated = v.allocated
  given : v'.given = v.given
  ready : v'.ready = v.ready
  everBroken : v'.everBroken = v.everBroken

/-- The pages of a list that go to one of the two lists of offlined pages. -/
theorem nodup_append_filter {l : List Nat} {p : Nat → Bool} (hl : l.Nodup)
    (hnew : ∀ x, p x = true → Mem head ho x → x ∉ l) :
    (l ++ (List.range' head (2 ^ ho)).filter p).Nodup := by
  have hrange : (List.range' head (2 ^ ho)).Nodup := List.nodup_range' ..
  refine List.nodup_append.mpr ⟨hl, hrange.filter p, ?_⟩
  rintro a ha b hb rfl
  rcases List.mem_filter.mp hb with ⟨hr, hp⟩
  exact hnew a hp (mem_range'_iff.mp hr) ha

/-- The listed block of order `ho` at `head` has offlined pages, and no other block has. -/
structure Blemished (m : Machine) (v : World) (D : Nat → Prop) (n z head ho : Nat) : Prop where
  good : Good m v.page v.heap D fun _ => False
  counts : Counts v.heap v.avail v.totalAvailPages 0 0 0
  listed : head ∈ v.heap n z ho
  sub : ∀ x, D x → Mem head ho x
  some : ∃ x, D x
  plain : ∀ x, D x → (v.page x).xenHeap = false
  splits : Splits D head (head + 2 ^ ho)

namespace Blemished

variable {v : World}

theorem isBlock (b : Blemished m v D n z head ho) : IsBlock m v.page D (fun _ => False) n z ho head :=
  b.good.block n z ho head b.listed

theorem place (b : Blemished m v D n z head ho) {x : Nat} (hx : Mem head ho x) :
    m.nid x = n ∧ Nat.log 2 x = z :=
  (b.isBlock.inside x hx).2.2

theorem zone (b : Blemished m v D n z head ho) : pageToZone (v.page head) head = z := by
  have hx : (v.page head).xenHeap = false := by
    rcases (b.isBlock.inside head Mem.self).1 with hfree | hd
    · exact (Page.isFree_iff.mp (b.good.clean head hfree)).2.2.1
    · exact b.plain head hd
  unfold pageToZone
  rw [hx]
  exact (b.place Mem.self).2

theorem isOfflined (b : Blemished m v D n z head ho) {x : Nat} (hx : Mem head ho x) :
    v.isOfflined x = true ↔ D x := by
  unfold World.isOfflined
  rw [decide_eq_true_eq]
  constructor
  · intro hs
    refine (b.isBlock.inside x hx).1.resolve_left fun hfree => ?_
    rw [hs] at hfree
    nomatch hfree
  · exact b.good.dirty x

theorem nid_lt (b : Blemished m v D n z head ho) : n < maxNumnodes := by
  rw [← (b.place Mem.self).1]
  exact m.nid_lt head

theorem zone_lt (b : Blemished m v D n z head ho) : z < nrZones := by
  have hp := b.good.heapPage head (b.isBlock.inside head Mem.self).1
  rw [← (b.place Mem.self).2]
  exact Nat.log_lt_of_lt_pow hp.ne_zero hp.lt

theorem reservable (b : Blemished m v D n z head ho) :
    Reservable m (v.setHeap n z ho ((v.heap n z ho).erase head)) D n z head ho := by
  refine ⟨b.isBlock.le, fun x => b.place, fun x => b.isOfflined, b.splits, fun h0 => ?_⟩
  rcases b.some with ⟨x, hx⟩
  have hm := b.sub x hx
  unfold Buddy.Mem at hm
  rw [h0, Nat.pow_zero] at hm
  have hxh : x = head := by omega
  rw [← hxh]
  exact hx

/-- The block has been taken off its list. -/
theorem start (b : Blemished m v D n z head ho) :
    Carving m (v.setHeap n z ho ((v.heap n z ho).erase head)) D n z head ho head
      (v.setHeap n z ho ((v.heap n z ho).erase head)) := by
  refine ⟨(b.good.unlist b.listed).congr_hand fun x => ?_, ?_, .refl _, ?_, le_rfl,
    Nat.le_add_right ..⟩
  · constructor
    · rintro (hx | hx)
      · exact hx.elim
      · exact ⟨hx, .inl hx.1⟩
    · exact fun hx => .inr hx.1
  · have hc := (b.counts.zero n z).unlist b.isBlock.le b.listed
    have hk : ((head + 2 ^ ho - head : Nat) : Int)
        + ((List.range' head (head - head)).countP v.isOfflined : Nat) = 0 + 2 ^ ho := by
      rw [Nat.add_sub_cancel_left, Nat.sub_self]
      simp
    show Counts _ _ _ n z (((head + 2 ^ ho - head : Nat) : Int)
      + ((List.range' head (head - head)).countP v.isOfflined : Nat))
    rw [hk]
    exact hc
  · exact b.splits head le_rfl (Nat.lt_add_of_pos_right (Nat.two_pow_pos ho)) (.inl rfl)

/-- All chunks are on their lists, and the offlined pages on theirs. -/
theorem reserved {v₁ v' : World} (b : Blemished m v D n z head ho)
    (c : Carving m (v.setHeap n z ho ((v.heap n z ho).erase head)) D n z head ho (head + 2 ^ ho) v₁)
    (hcol : Collected n z (List.range' head (2 ^ ho)) v₁ v') : Reserved m D n z v v' := by
  have hr : Relisted n z v v₁ := (Relisted.setHeap ..).trans c.relisted
  have hsame : v₁.isOfflined = v.isOfflined := by
    funext x
    unfold World.isOfflined
    rw [hr.page x]
  have hbrk (x : Nat) : (v₁.page x).broken = (v.page x).broken := by rw [hr.page x]
  have hpage : v'.page = v₁.page := by rw [hcol.rest]
  have hheap : v'.heap = v₁.heap := by rw [hcol.rest]
  have hin {x : Nat} : x ∈ List.range' head (2 ^ ho) ∧ v₁.isOfflined x = true ↔ D x := by
    rw [mem_range'_iff, hsame]
    constructor
    · intro hx
      exact (b.isOfflined hx.1).mp hx.2
    · intro hx
      exact ⟨b.sub x hx, (b.isOfflined (b.sub x hx)).mpr hx⟩
  refine ⟨?_, ?_, fun x => ?_, fun n' z' o hne => ?_, fun x => ?_, fun x => ?_, fun hnd hnew => ?_,
    ?_, ?_, ?_, ?_⟩
  · rw [hpage, hheap]
    refine (c.good.congr_hand fun x => ?_).settle
    constructor
    · rintro ⟨hx, hge | hd⟩
      · exact absurd hx.2 (by omega)
      · exact hd
    · exact fun hd => ⟨b.sub x hd, .inr hd⟩
  · have hc := hcol.counts _ c.counts
    rw [Nat.sub_self, Nat.add_sub_cancel_left, hsame] at hc
    refine Counts.zero (n := n) (z := z) ?_ 0 0
    convert hc using 1
    change (0 : Int) = ((0 : Nat) : Int) + ((List.range' head (2 ^ ho)).countP v.isOfflined : Nat)
      - ((List.range' head (2 ^ ho)).countP v.isOfflined : Nat)
    omega
  · rw [hpage]
    exact hr.page x
  · rw [hheap]
    exact hr.lists n' z' o hne
  · rw [hcol.offlined, hr.offline.1, List.mem_append, List.mem_filter, Bool.and_eq_true, ← and_assoc,
      hin, hbrk, Bool.not_eq_true']
  · rw [hcol.broken, hr.offline.2, List.mem_append, List.mem_filter, Bool.and_eq_true, ← and_assoc,
      hin, hbrk]
  · rw [hcol.offlined, hcol.broken, hr.offline.1, hr.offline.2]
    constructor
    · refine nodup_append_filter hnd.1 fun x hp hx => (hnew x (hin.mp ⟨mem_range'_iff.mpr hx, ?_⟩)).1
      exact (Bool.and_eq_true_iff.mp hp).1
    · refine nodup_append_filter hnd.2 fun x hp hx => (hnew x (hin.mp ⟨mem_range'_iff.mpr hx, ?_⟩)).2
      exact (Bool.and_eq_true_iff.mp hp).1
  · rw [hcol.rest]
    exact hr.allocated
  · rw [hcol.rest]
    exact hr.given
  · rw [hcol.rest]
    exact hr.ready
  · rw [hcol.rest]
    exact hr.everBroken

end Blemished

theorem reserveOfflinedPage_spec {v : World} (b : Blemished m v D n z head ho) :
    ∃ v', reserveOfflinedPage m head v = .ok v' ∧ Reserved m D n z v v' := by
  rcases carve_spec b.reservable b.start (Nat.le_refl _) with ⟨v₁, he, c⟩
  have hcol := collect_spec b.nid_lt b.zone_lt (List.range' head (2 ^ ho)) v₁
  refine ⟨_, ?_, b.reserved c hcol⟩
  unfold reserveOfflinedPage
  dsimp only
  rw [(b.place Mem.self).1, b.zone, b.isBlock.order,
    show v.listDel n z ho head = some _ from if_pos b.listed]
  dsimp only
  rw [he]

/-! ## Freeing a block with pages that are to be offlined -/

/-- The block that a block which is freed ends up in. -/
def mergeTo (m : Machine) (w : World) (node : Nat) : Nat → Nat → Nat → Nat × Nat
  | 0, pg, order => (pg, order)
  | fuel + 1, pg, order =>
      if mergeable m w node order (buddyOf pg order) then
        mergeTo m w node fuel (min pg (buddyOf pg order)) (order + 1)
      else (pg, order)

theorem mergeable_congr {w' : World} {o b : Nat} (h : w'.page b = w.page b) :
    mergeable m w' n o b = mergeable m w n o b := by
  unfold mergeable
  rw [h]

/-- One round of the merge, with the buddy `b` on either side. -/
theorem merge_mergeTo_round {fuel pg o lo b : Nat} {w' : World} {r : Nat × Nat × World}
    (ih : ∀ {w₁}, (∀ x, ¬Mem lo (o + 1) x → w₁.page x = w.page x) → merge m n z fuel lo (o + 1) w₁ = .ok r →
      mergeTo m w n fuel lo (o + 1) = (r.1, r.2.1))
    (hsame : ∀ x, ¬Mem pg o x → w'.page x = w.page x) (hb : ¬Mem pg o b) (hsub : ∀ x, Mem pg o x → Mem lo (o + 1) x)
    (hr : (if mergeable m w' n o b then
        match w'.listDel n z o b with
        | none => .error .bug
        | some w => merge m n z fuel lo (o + 1) w
      else .ok (pg, o, w')) = Except.ok r) :
    (if mergeable m w n o b then mergeTo m w n fuel lo (o + 1) else (pg, o)) = (r.1, r.2.1) := by
  rw [← mergeable_congr (hsame b hb)]
  split at hr
  · next hm =>
    rw [if_pos hm]
    cases hdel : w'.listDel n z o b with
    | none =>
      rw [hdel] at hr
      cases hr
    | some w₁ =>
      rw [hdel] at hr
      unfold World.listDel at hdel
      split at hdel
      · injection hdel with hdel
        refine ih (fun x hx => ?_) hr
        rw [← hdel]
        exact hsame x fun hx' => hx (hsub x hx')
      · cases hdel
  · next hm =>
    rw [if_neg hm]
    injection hr with hr
    rw [← hr]

/-- Merging looks at pages outside the block only. -/
theorem merge_mergeTo {fuel pg o : Nat} {w' : World} {r : Nat × Nat × World}
    (hsame : ∀ x, ¬Mem pg o x → w'.page x = w.page x) (hr : merge m n z fuel pg o w' = .ok r) :
    mergeTo m w n fuel pg o = (r.1, r.2.1) := by
  induction fuel generalizing pg o w' with
  | zero =>
    injection hr with hr
    rw [← hr]
    rfl
  | succ fuel ih =>
    have hpos := Nat.two_pow_pos o
    unfold mergeTo
    unfold merge at hr
    dsimp only at hr
    split at hr
    · next hbit =>
      have hle : 2 ^ o ≤ pg := Nat.ge_two_pow_of_testBit (Buddy.and_two_pow_ne_zero.mp hbit)
      rw [show buddyOf pg o = pg - 2 ^ o from if_pos hbit, min_eq_right (Nat.sub_le ..)]
      refine merge_mergeTo_round ih hsame (fun hx => ?_) (fun x hx => ?_) hr
      · have := hx.1
        omega
      · unfold Buddy.Mem at hx ⊢
        omega
    · next hbit =>
      rw [show buddyOf pg o = pg + 2 ^ o from if_neg hbit, min_eq_left (Nat.le_add_right ..)]
      refine merge_mergeTo_round ih hsame (fun hx => ?_) (fun x hx => ?_) hr
      · have := hx.2
        omega
      · unfold Buddy.Mem at hx ⊢
        omega

/-- The offlined pages of a block that is freed can be taken out of what it is merged to. -/
def FreeSplits (m : Machine) (w : World) (pg order : Nat) : Prop :=
  let b := mergeTo m w (m.nid pg) (maxOrder - order) pg order
  Splits (Leaving w pg order) b.1 (b.1 + 2 ^ b.2)

theorem freeHeapPages_reserved {pg order : Nat} (h : Inv m w) (f : Freeable m w pg order)
    (hsome : ∃ x, Leaving w pg order x) (hsplits : FreeSplits m w pg order) :
    ∃ w', freeHeapPages m pg order w = .ok w' ∧ Inv m w' := by
  rcases freeHeapPages_merged h f with ⟨r, hr, hm, he⟩
  dsimp only at he
  rw [if_pos (tainted_iff.mpr hsome)] at he
  have hblock := merge_mergeTo (w := w) (fun x hx => if_neg hx) hr
  unfold FreeSplits at hsplits
  dsimp only at hsplits
  rw [hblock] at hsplits
  have hadd := hm.inHand.addTail
  have hrel := hm.relisted.trans (Relisted.addTail r.2.1 r.1)
  rcases hrel.markFree with ⟨hin, hout⟩
  have b : Blemished m (r.2.2.addTail (m.nid pg) (Nat.log 2 pg) r.2.1 r.1) (Leaving w pg order)
      (m.nid pg) (Nat.log 2 pg) r.1 r.2.1 := by
    refine ⟨hadd.1, hadd.2.zero 0 0, ?_, fun x hx => hm.sub x hx.1, hsome, fun x hx => ?_, hsplits⟩
    · exact Lists.mem_append.mpr (.inr ⟨rfl, rfl, rfl, rfl⟩)
    · rw [hin x hx.1]
      rfl
  rcases reserveOfflinedPage_spec b with ⟨w', he', hres⟩
  have hold (x : Nat) : (w.page x).broken
      = ((r.2.2.addTail (m.nid pg) (Nat.log 2 pg) r.2.1 r.1).page x).broken := by
    by_cases hx : Mem pg order x
    · rw [hin x hx]
      rfl
    · rw [hout x hx]
  refine ⟨w', he.trans he', hres.good, hres.counts, ?_⟩
  refine h.book.freed f (fun x hx => ?_) (fun x hx => ?_) (fun n z o hne => ?_)
    (hres.allocated.trans hrel.allocated) (hres.given.trans hrel.given)
    (hres.ready.trans hrel.ready) (hres.everBroken.trans hrel.everBroken) (fun x => ?_) (fun x => ?_)
    (hres.nodup ?_ fun x hx => ?_)
  · rw [hres.page x, hin x hx]
  · rw [hres.page x, hout x hx]
  · rw [hres.lists n z o fun hs => hne hs.1]
    exact hrel.lists n z o fun hs => hne hs.1
  · rw [hres.offlined, hrel.offline.1, hold]
    rfl
  · rw [hres.broken, hrel.offline.2, hold]
    rfl
  · rw [hrel.offline.1, hrel.offline.2]
    exact h.book.listNodup
  · rw [hrel.offline.1, hrel.offline.2]
    have hs : ∀ v, ¬((w.page x).state = .offlined ∧ (w.page x).broken = v) := fun v hs => by
      rw [hx.2] at hs
      nomatch hs.1
    exact ⟨fun hx' => hs _ ((h.book.offlinedList x).mp hx'),
      fun hx' => hs _ ((h.book.brokenList x).mp hx')⟩

end PageAlloc
