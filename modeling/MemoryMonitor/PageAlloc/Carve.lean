import MemoryMonitor.PageAlloc.Offline

/-!
# What `reserve_offlined_page` makes of a block

Whatever pages of a free block are offlined, the function comes to an end, the other pages are back on the
lists in chunks that do not overlap, the offlined ones are on the lists of offlined pages and are no longer
counted. The chunks are aligned exactly when those are that fit at the start of a run (`Splits`): at every
place the loop takes the largest chunk that fits, and never asks where it is.
-/

namespace PageAlloc

open Buddy (Mem)

/-! ## The number that is returned -/

/-- The last loop of `reserve_offlined_page`, with the `count` that it returns. -/
def collectCount (node zone : Nat) : List Nat → Nat → World → Nat × World
  | [], count, w => (count, w)
  | cur :: rest, count, w =>
      if w.isOfflined cur then
        let w := w.count node zone (-1)
        collectCount node zone rest (count + 1)
          (if (w.page cur).broken then { w with pageBrokenList := w.pageBrokenList ++ [cur] }
            else { w with pageOfflinedList := w.pageOfflinedList ++ [cur] })
      else collectCount node zone rest count w

/-- `reserve_offlined_page` with its result. -/
def reserveOfflinedPageCount (m : Machine) (head : Nat) (w : World) : Except Halt (Nat × World) :=
  let node := m.nid head
  let zone := pageToZone (w.page head) head
  let headOrder := (w.page head).order
  match w.listDel node zone headOrder head with
  | none => .error .bug
  | some w =>
      match carve node zone headOrder (head + 2 ^ headOrder) (2 ^ headOrder) head w with
      | .error e => .error e
      | .ok w => .ok (collectCount node zone (List.range' head (2 ^ headOrder)) 0 w)

theorem isOfflined_congr {w w' : World} (h : w'.page = w.page) : w'.isOfflined = w.isOfflined := by
  funext x
  unfold World.isOfflined
  rw [h]

theorem collectCount_eq (n z : Nat) (l : List Nat) (count : Nat) (w : World) :
    collectCount n z l count w = (count + l.countP w.isOfflined, collect n z l w) := by
  induction l generalizing count w with
  | nil => rfl
  | cons x rest ih =>
    unfold collectCount collect
    dsimp only
    split
    · next hx =>
      have hstep : ∀ w' : World, w'.page = w.page → collectCount n z rest (count + 1) w' =
          (count + (x :: rest).countP w.isOfflined, collect n z rest w') := by
        intro w' hp
        rw [ih, isOfflined_congr hp, List.countP_cons_of_pos hx, Nat.add_assoc, Nat.add_comm 1]
      split
      · exact hstep _ rfl
      · exact hstep _ rfl
    · next hx => rw [ih, List.countP_cons_of_neg hx]

theorem collect_counts (n z : Nat) (l : List Nat) (w : World) :
    (collect n z l w).avail n z = w.avail n z - l.countP w.isOfflined ∧
      (∀ n' z', ¬(n' = n ∧ z' = z) → (collect n z l w).avail n' z' = w.avail n' z') ∧
      (collect n z l w).totalAvailPages = w.totalAvailPages - l.countP w.isOfflined := by
  induction l generalizing w with
  | nil =>
    unfold collect
    simp
  | cons x rest ih =>
    have hself : (w.count n z (-1)).avail n z = w.avail n z - 1 := by
      unfold World.count
      simp [Int.sub_eq_add_neg]
    have hother : ∀ n' z', ¬(n' = n ∧ z' = z) → (w.count n z (-1)).avail n' z' = w.avail n' z' := by
      intro n' z' hne
      unfold World.count
      dsimp only
      by_cases hn : n' = n
      · subst hn
        have hz : z' ≠ z := fun hz => hne ⟨rfl, hz⟩
        rw [Function.update_self, Function.update_of_ne hz]
      · rw [Function.update_of_ne hn]
    unfold collect
    dsimp only
    split
    · next hx =>
      -- whichever list the page goes to, the counters are the same
      have hstep : ∀ w' : World, w'.page = w.page → w'.avail = (w.count n z (-1)).avail →
          w'.totalAvailPages = w.totalAvailPages - 1 →
          (collect n z rest w').avail n z = w.avail n z - ((x :: rest).countP w.isOfflined : Nat) ∧
            (∀ n' z', ¬(n' = n ∧ z' = z) → (collect n z rest w').avail n' z' = w.avail n' z') ∧
            (collect n z rest w').totalAvailPages
              = w.totalAvailPages - ((x :: rest).countP w.isOfflined : Nat) := by
        intro w' hp ha ht
        rcases ih w' with ⟨h₁, h₂, h₃⟩
        rw [h₁, h₃, isOfflined_congr hp, List.countP_cons_of_pos hx, ha, ht, hself]
        refine ⟨?_, ?_, ?_⟩
        · push_cast
          omega
        · intro n' z' hne
          rw [h₂ n' z' hne, ha, hother n' z' hne]
        · push_cast
          omega
      split
      · exact hstep _ rfl rfl rfl
      · exact hstep _ rfl rfl rfl
    · next hx =>
      rw [List.countP_cons_of_neg hx]
      exact ih w

/-! ## The chunks -/

variable {m : Machine} {v v' : World} {offl : Nat → Prop} {head ho last cur n z : Nat}

/-- The starts of the chunks of one order. -/
def starts (o : Nat) (chunks : List (Nat × Nat)) : List Nat :=
  (chunks.filter fun c => decide (c.2 = o)).map Prod.fst

/-- The chunks, with their orders, that the pages from `cur` on go back to the lists in. -/
structure Chunks (offl : Nat → Prop) (n z last cur : Nat) (chunks : List (Nat × Nat)) (v v' : World) :
    Prop where
  relisted : Relisted n z v v'
  lists : ∀ o, v'.heap n z o = v.heap n z o ++ starts o chunks
  order : ∀ c ∈ chunks, (v'.page c.1).order = c.2
  below : ∀ x, x < cur → v'.page x = v.page x
  cover : ∀ x, (∃ c ∈ chunks, Mem c.1 c.2 x) ↔ cur ≤ x ∧ x < last ∧ ¬offl x
  ascending : chunks.Pairwise fun a b => a.1 + 2 ^ a.2 ≤ b.1
  largest : ∀ c ∈ chunks, ¬ChunkFits offl last c.1 (c.2 + 1)
  aligned : Splits offl cur last → ∀ c ∈ chunks, 2 ^ c.2 ∣ c.1

theorem Chunks.refl (v : World) (h : last ≤ cur) : Chunks offl n z last cur [] v v where
  relisted := .refl v
  lists o := by simp [starts]
  order := nofun
  below _ _ := rfl
  cover x := by
    constructor
    · rintro ⟨c, hc, -⟩
      exact absurd hc List.not_mem_nil
    · rintro ⟨hx, hlt, -⟩
      omega
  ascending := List.Pairwise.nil
  largest := nofun
  aligned _ := nofun

theorem Chunks.skip {chunks : List (Nat × Nat)} (h : Chunks offl n z last (cur + 1) chunks v v')
    (hoff : offl cur) : Chunks offl n z last cur chunks v v' := by
  refine { h with below := fun x hx => h.below x (by omega), cover := ?_, aligned := ?_ }
  · intro x
    rw [h.cover]
    constructor
    · rintro ⟨hx, hlt, hno⟩
      exact ⟨by omega, hlt, hno⟩
    · rintro ⟨hx, hlt, hno⟩
      refine ⟨?_, hlt, hno⟩
      by_contra hle
      have hxc : x = cur := by omega
      rw [hxc] at hno
      exact hno hoff
  · intro hs
    apply h.aligned
    intro s hge hlt hrun
    apply hs s (by omega) hlt
    right
    rcases hrun with rfl | hrun
    · exact hoff
    · exact hrun

theorem Chunks.cons {chunks : List (Nat × Nat)} {o : Nat}
    (h : Chunks offl n z last (cur + 2 ^ o) chunks (v.addTail n z o cur) v')
    (hpages : ∀ x, cur ≤ x → x < cur + 2 ^ o → ¬offl x) (hle : cur + 2 ^ o ≤ last)
    (hend : o = 0 ∨ cur + 2 ^ o < last) (hmax : ¬ChunkFits offl last cur (o + 1)) :
    Chunks offl n z last cur ((cur, o) :: chunks) v v' := by
  have hpos := Nat.two_pow_pos o
  have hstart : ∀ c ∈ chunks, cur + 2 ^ o ≤ c.1 := by
    intro c hc
    exact ((h.cover c.1).mp ⟨c, hc, Buddy.Mem.self⟩).1
  constructor
  · exact (Relisted.addTail o cur).trans h.relisted
  · intro o'
    rw [h.lists]
    unfold World.addTail World.setHeap starts
    dsimp only
    by_cases ho : o' = o
    · subst ho
      rw [Lists.set_self, List.filter_cons_of_pos (by simp)]
      simp
    · rw [Lists.set_of_ne (fun hs => ho hs.2.2), List.filter_cons_of_neg (by simpa using Ne.symm ho)]
  · intro c hc
    rcases List.mem_cons.mp hc with rfl | hc
    · -- the rest starts behind this chunk
      rw [h.below cur (Nat.lt_add_of_pos_right (Nat.two_pow_pos o))]
      unfold World.addTail
      simp
    · exact h.order c hc
  · intro x hx
    rw [h.below x (by omega)]
    unfold World.addTail
    exact Function.update_of_ne (by omega) ..
  · intro x
    constructor
    · rintro ⟨c, hc, hx⟩
      rcases List.mem_cons.mp hc with rfl | hc
      · have hlt := hx.2
        exact ⟨hx.1, by dsimp only at hlt; omega, hpages x hx.1 hlt⟩
      · rcases (h.cover x).mp ⟨c, hc, hx⟩ with ⟨hge, hlt, hno⟩
        exact ⟨by omega, hlt, hno⟩
    · rintro ⟨hge, hlt, hno⟩
      by_cases hin : x < cur + 2 ^ o
      · exact ⟨(cur, o), List.mem_cons_self, hge, hin⟩
      · rcases (h.cover x).mpr ⟨by omega, hlt, hno⟩ with ⟨c, hc, hx⟩
        exact ⟨c, List.mem_cons_of_mem _ hc, hx⟩
  · refine List.pairwise_cons.mpr ⟨hstart, h.ascending⟩
  · intro c hc
    rcases List.mem_cons.mp hc with rfl | hc
    · exact hmax
    · exact h.largest c hc
  · intro hs c hc
    have hfits : Fits offl last cur := hs cur (Nat.le_refl cur) (by omega) (.inl rfl)
    rcases List.mem_cons.mp hc with rfl | hc
    · rcases hend with rfl | hlt
      · exact Nat.one_dvd cur
      · exact hfits o ⟨hpages, hlt⟩
    · refine h.aligned ?_ c hc
      intro s hge hlt hrun
      rcases hrun with rfl | hrun
      · exact hfits.next hpages hend hmax
      · exact hs s (by omega) hlt (.inr hrun)

/-- The loop of the function comes to an end, and takes the largest chunk every time. -/
theorem carve_chunks (n z cur : Nat)
    (hoffl : ∀ x, head ≤ x → x < head + 2 ^ ho → (v.isOfflined x = true ↔ offl x))
    (hsingle : ho = 0 → offl head) {fuel : Nat} (hcur : head ≤ cur) (hfuel : head + 2 ^ ho ≤ cur + fuel)
    (hcurle : cur ≤ head + 2 ^ ho) :
    ∃ chunks v', carve n z ho (head + 2 ^ ho) fuel cur v = .ok v' ∧
      Chunks offl n z (head + 2 ^ ho) cur chunks v v' := by
  induction fuel generalizing cur v with
  | zero =>
    unfold carve
    rw [if_neg (by omega)]
    exact ⟨[], v, rfl, .refl v (by omega)⟩
  | succ fuel ih =>
    unfold carve
    by_cases hlt : cur < head + 2 ^ ho
    · rw [if_pos hlt]
      by_cases hoc : v.isOfflined cur = true
      · rw [if_pos hoc]
        rcases ih _ hoffl (by omega) (by omega) hlt with ⟨chunks, v', he, hc⟩
        exact ⟨chunks, v', he, hc.skip ((hoffl cur hcur hlt).mp hoc)⟩
      · rw [if_neg hoc]
        have hno : ¬offl cur := fun h => hoc ((hoffl cur hcur hlt).mpr h)
        have hho : ho ≠ 0 := by
          intro h0
          have hhead : cur = head := by
            rw [h0, Nat.pow_zero] at hlt
            omega
          rw [hhead] at hno
          exact hno (hsingle h0)
        rw [if_neg hho]
        have hone : ∀ x, cur ≤ x → x < cur + 2 ^ 0 → ¬offl x := by
          intro x hx hx'
          rw [Nat.pow_zero] at hx'
          rw [show x = cur by omega]
          exact hno
        rcases chunkOrder_spec hoffl hcur (by rw [Nat.zero_add]) hone (.inl rfl) with
          ⟨hpages, hend, hmax⟩
        dsimp only
        generalize chunkOrder v (head + 2 ^ ho) cur ho 0 = o at hpages hend hmax
        have hpos := Nat.two_pow_pos o
        have hle : cur + 2 ^ o ≤ head + 2 ^ ho := by
          rcases hend with rfl | hend
          · rw [Nat.pow_zero]
            omega
          · omega
        have hoffl' : ∀ x, head ≤ x → x < head + 2 ^ ho →
            ((v.addTail n z o cur).isOfflined x = true ↔ offl x) := by
          intro x hx hx'
          rw [← hoffl x hx hx']
          unfold World.isOfflined
          rw [(Relisted.addTail (n := n) (z := z) o cur).page x]
        rcases ih _ hoffl' (by omega) (by omega) hle with ⟨chunks, v', he, hc⟩
        exact ⟨(cur, o) :: chunks, v', he, hc.cons hpages hle hend hmax⟩
    · rw [if_neg hlt]
      exact ⟨[], v, rfl, .refl v (by omega)⟩

theorem ChunkFits.mono {s o o' : Nat} (h : ChunkFits offl last s o) (hle : o' ≤ o) :
    ChunkFits offl last s o' := by
  have hpow : 2 ^ o' ≤ 2 ^ o := Nat.pow_le_pow_right (by omega) hle
  have hend := h.2
  exact ⟨fun x hx hx' => h.1 x hx (by omega), by omega⟩

/-- The chunks are aligned exactly when those are that fit at the start of a run. -/
theorem Chunks.aligned_iff {chunks : List (Nat × Nat)} (h : Chunks offl n z last head chunks v v') :
    (∀ c ∈ chunks, 2 ^ c.2 ∣ c.1) ↔ Splits offl head last := by
  constructor
  · intro hal s hs hlt hrun o hfit
    have hno : ¬offl s := hfit.1 s (Nat.le_refl s) (Nat.lt_add_of_pos_right (Nat.two_pow_pos o))
    rcases (h.cover s).mpr ⟨hs, hlt, hno⟩ with ⟨c, hc, hmem⟩
    -- a chunk cannot reach across the page before the run
    have hstart : c.1 = s := by
      by_contra hne
      have hlo := hmem.1
      have hhi := hmem.2
      have hprev := (h.cover (s - 1)).mp ⟨c, hc, by omega, by omega⟩
      rcases hrun with rfl | hoff
      · have := hprev.1
        omega
      · exact hprev.2.2 hoff
    have hle : o ≤ c.2 := by
      by_contra hgt
      apply h.largest c hc
      rw [hstart]
      exact hfit.mono (by omega)
    rw [← hstart]
    exact (Nat.pow_dvd_pow 2 hle).trans (hal c hc)
  · exact h.aligned

/-! ## The block -/

/-- A free block, on its list, with offlined pages. -/
structure Tainted (m : Machine) (v : World) (n z ho head : Nat) : Prop where
  listed : head ∈ v.heap n z ho
  aligned : 2 ^ ho ∣ head
  node : m.nid head = n
  zone : pageToZone (v.page head) head = z
  zone_lt : z < nrZones
  order : (v.page head).order = ho
  bad : ∃ x, Mem head ho x ∧ v.isOfflined x = true

/-- The chunks are on the lists instead of the block, do not overlap and have the pages that are not
offlined; the offlined ones are on their lists and no longer counted. -/
structure Replaced (v : World) (n z ho head : Nat) (chunks : List (Nat × Nat)) (count : Nat) (v' : World) :
    Prop where
  lists : ∀ o, v'.heap n z o =
    (if o = ho then (v.heap n z ho).erase head else v.heap n z o) ++ starts o chunks
  otherLists : ∀ n' z' o, ¬(n' = n ∧ z' = z) → v'.heap n' z' o = v.heap n' z' o
  order : ∀ c ∈ chunks, (v'.page c.1).order = c.2
  apart : chunks.Pairwise fun a b => ∀ x, ¬(Mem a.1 a.2 x ∧ Mem b.1 b.2 x)
  cover : ∀ x, (∃ c ∈ chunks, Mem c.1 c.2 x) ↔ Mem head ho x ∧ ¬v.isOfflined x = true
  offlined : v'.pageOfflinedList = v.pageOfflinedList ++
    (List.range' head (2 ^ ho)).filter fun x => v.isOfflined x && !(v.page x).broken
  broken : v'.pageBrokenList = v.pageBrokenList ++
    (List.range' head (2 ^ ho)).filter fun x => v.isOfflined x && (v.page x).broken
  counted : count = (List.range' head (2 ^ ho)).countP v.isOfflined
  avail : v'.avail n z = v.avail n z - count
  otherAvail : ∀ n' z', ¬(n' = n ∧ z' = z) → v'.avail n' z' = v.avail n' z'
  total : v'.totalAvailPages = v.totalAvailPages - count

theorem mem_starts {o h : Nat} {chunks : List (Nat × Nat)} : h ∈ starts o chunks ↔ (h, o) ∈ chunks := by
  unfold starts
  simp

theorem Replaced.chunks_unique {chunks chunks' : List (Nat × Nat)} {count count' : Nat}
    (h : Replaced v n z ho head chunks count v') (h' : Replaced v n z ho head chunks' count' v')
    (c : Nat × Nat) : c ∈ chunks ↔ c ∈ chunks' := by
  have hlists := (h.lists c.2).symm.trans (h'.lists c.2)
  have hstarts := List.append_cancel_left hlists
  rw [← mem_starts, hstarts, mem_starts]

theorem Tainted.reserve (b : Tainted m v n z ho head) :
    ∃ chunks count v', reserveOfflinedPageCount m head v = .ok (count, v') ∧
      Replaced v n z ho head chunks count v' ∧
      ((∀ c ∈ chunks, 2 ^ c.2 ∣ c.1) ↔ Splits (fun x => v.isOfflined x = true) head (head + 2 ^ ho)) := by
  have hsingle : ho = 0 → v.isOfflined head = true := by
    intro h0
    rcases b.bad with ⟨x, hx, hoff⟩
    unfold Buddy.Mem at hx
    rw [h0, Nat.pow_zero] at hx
    rw [show head = x by omega]
    exact hoff
  have htaken : ∀ x, head ≤ x → x < head + 2 ^ ho →
      ((v.setHeap n z ho ((v.heap n z ho).erase head)).isOfflined x = true ↔ v.isOfflined x = true) :=
    fun x _ _ => Iff.rfl
  rcases carve_chunks n z head htaken hsingle (Nat.le_refl head) (Nat.le_refl _) (Nat.le_add_right ..) with
    ⟨chunks, v₁, hcarve, hc⟩
  have hrel : Relisted n z v v₁ := (Relisted.setHeap ..).trans hc.relisted
  have hoff : v₁.isOfflined = v.isOfflined := by
    funext x
    unfold World.isOfflined
    rw [hrel.page x]
  have hbroken : ∀ x, (v₁.page x).broken = (v.page x).broken := by
    intro x
    rw [hrel.page x]
  have hnode : n < maxNumnodes := by
    rw [← b.node]
    exact m.nid_lt head
  have hcol := collect_spec hnode b.zone_lt (List.range' head (2 ^ ho)) v₁
  rcases collect_counts n z (List.range' head (2 ^ ho)) v₁ with ⟨havail, hother, htotal⟩
  have havail₁ : v₁.avail = v.avail := by rw [hrel.rest]
  have htotal₁ : v₁.totalAvailPages = v.totalAvailPages := by rw [hrel.rest]
  refine ⟨chunks, (List.range' head (2 ^ ho)).countP v.isOfflined, collect n z (List.range' head (2 ^ ho)) v₁,
    ?_, ?_, hc.aligned_iff⟩
  · unfold reserveOfflinedPageCount
    dsimp only
    rw [b.node, b.zone, b.order, show v.listDel n z ho head = some _ from if_pos b.listed]
    dsimp only
    rw [hcarve]
    dsimp only
    rw [collectCount_eq, hoff, Nat.zero_add]
  · constructor
    · intro o
      rw [hcol.rest]
      dsimp only
      rw [hc.lists]
      unfold World.setHeap
      dsimp only
      by_cases ho' : o = ho
      · subst ho'
        rw [Lists.set_self, if_pos rfl]
      · rw [Lists.set_of_ne (fun hs => ho' hs.2.2), if_neg ho']
    · intro n' z' o hne
      rw [hcol.rest]
      exact hrel.lists n' z' o hne
    · rw [hcol.rest]
      exact hc.order
    · apply hc.ascending.imp
      intro a c hac x hx
      have hlt := hx.1.2
      have hge := hx.2.1
      omega
    · intro x
      rw [hc.cover]
      unfold Buddy.Mem
      rw [and_assoc]
    · rw [hcol.offlined, hrel.offline.1, hoff]
      simp only [hbroken]
    · rw [hcol.broken, hrel.offline.2, hoff]
      simp only [hbroken]
    · rfl
    · rw [havail, havail₁, hoff]
    · intro n' z' hne
      rw [hother n' z' hne, havail₁]
    · rw [htotal, htotal₁, hoff]

/-- The block is always replaced; the chunks are aligned exactly when those are that fit at its first page
and behind each offlined one. -/
theorem reserveOfflinedPage_aligned_iff (b : Tainted m v n z ho head) :
    (∃ chunks count v', reserveOfflinedPageCount m head v = .ok (count, v') ∧
        Replaced v n z ho head chunks count v') ∧
      ((∃ chunks count v', reserveOfflinedPageCount m head v = .ok (count, v') ∧
          Replaced v n z ho head chunks count v' ∧ ∀ c ∈ chunks, 2 ^ c.2 ∣ c.1) ↔
        Splits (fun x => v.isOfflined x = true) head (head + 2 ^ ho)) := by
  rcases b.reserve with ⟨chunks, count, v', hrun, hrep, hiff⟩
  refine ⟨⟨chunks, count, v', hrun, hrep⟩, ?_⟩
  rw [← hiff]
  constructor
  · rintro ⟨chunks', count', w', hrun', hrep', hal⟩ c hc
    rw [hrun] at hrun'
    cases hrun'
    exact hal c ((hrep.chunks_unique hrep' c).mp hc)
  · intro hal
    exact ⟨chunks, count, v', hrun, hrep, hal⟩

/-- A free block of eight pages from page 8 on, with one of them offlined. -/
def eightPages (bad : Nat) : World :=
  { World.init with
    page := fun x => { state := if x = bad then .offlined else .free, order := 3 }
    heap := World.init.heap.set 0 3 3 [8] }

theorem eightPages_tainted {bad : Nat} (h : Mem 8 3 bad) :
    Tainted oneNode (eightPages bad) 0 3 3 8 where
  listed := by
    unfold eightPages
    simp
  aligned := Nat.dvd_refl 8
  node := rfl
  zone := by
    show Nat.log 2 8 = 3
    decide +kernel
  zone_lt := by decide
  order := rfl
  bad := ⟨bad, h, by simp [World.isOfflined, eightPages]⟩

/-- The last page is offlined: the others are a chunk of four, one of two and one page. -/
theorem reserveOfflinedPage_aligned_last :
    ∃ chunks count v', reserveOfflinedPageCount oneNode 8 (eightPages 15) = .ok (count, v') ∧
      Replaced (eightPages 15) 0 3 3 8 chunks count v' ∧ ∀ c ∈ chunks, 2 ^ c.2 ∣ c.1 := by
  have b : Tainted oneNode (eightPages 15) 0 3 3 8 := eightPages_tainted ⟨by decide, by decide⟩
  refine (reserveOfflinedPage_aligned_iff b).2.mpr ?_
  intro s hs hlast hrun o hfit
  have hstart : s = 8 := by
    rcases hrun with rfl | hoff
    · rfl
    · have hbad : s - 1 = 15 := by simpa [World.isOfflined, eightPages] using hoff
      omega
  have hend := hfit.2
  have hlt : 2 ^ o < 2 ^ 3 := by omega
  rw [hstart]
  exact Nat.pow_dvd_pow 2 (Nat.le_of_lt ((Nat.pow_lt_pow_iff_right (by omega)).mp hlt))

/-- The second page is offlined: the six pages behind it start with a chunk of four at page 10. -/
theorem reserveOfflinedPage_misaligned :
    ¬∃ chunks count v', reserveOfflinedPageCount oneNode 8 (eightPages 9) = .ok (count, v') ∧
      Replaced (eightPages 9) 0 3 3 8 chunks count v' ∧ ∀ c ∈ chunks, 2 ^ c.2 ∣ c.1 := by
  rintro ⟨chunks, count, v', hrun, hrep, hal⟩
  have hlist : (reserveOfflinedPageCount oneNode 8 (eightPages 9)).toOption.map
      (fun r => r.2.heap 0 3 2) = some [10] := by
    decide +kernel
  rw [hrun] at hlist
  have hten : v'.heap 0 3 2 = [10] := Option.some.inj hlist
  rw [hrep.lists 2] at hten
  have hmem : (10 : Nat) ∈ starts 2 chunks := by
    have hin : (10 : Nat) ∈ (eightPages 9).heap 0 3 2 ++ starts 2 chunks := by
      rw [if_neg (by decide)] at hten
      rw [hten]
      exact List.mem_singleton_self 10
    exact (List.mem_append.mp hin).resolve_left (by decide +kernel)
  exact absurd (hal (10, 2) (mem_starts.mp hmem)) (by decide)

end PageAlloc
