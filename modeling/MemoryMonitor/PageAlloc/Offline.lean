import MemoryMonitor.PageAlloc.Reserve

/-!
# Taking pages offline and online

A page in use is only marked, and `free_heap_pages` finishes the work. The answers of
`page_get_owner_and_reference` and `p2m_pod_offline_or_broken_hit` are arguments of
`offline_page`: they decide about `*status` alone. The page that
`p2m_pod_offline_or_broken_replace` frees and the one that it allocates are steps of
their own.
-/

namespace PageAlloc

open Buddy (Mem)

/-! ## `offline_page` -/

/-- What is returned, and `*status` unless it is not written. -/
structure Answer where
  ret : Int
  status : Option Nat
  deriving DecidableEq

/-- The bits of `*status`. -/
def pgOfflined : Nat := 2 ^ 1
def pgPending : Nat := 2 ^ 2
def pgFailed : Nat := 2 ^ 3
def pgXenpage : Nat := 2 ^ 8
def pgAnonymous : Nat := 2 ^ 10
def pgNotConvRam : Nat := 2 ^ 11
def pgOwned : Nat := 2 ^ 12
def pgBroken : Nat := 2 ^ 13
def pgOwner (domid : Nat) : Nat := domid * 2 ^ 16

def domidXen : Nat := 0x7FF2
def domidInvalid : Nat := 0x7FF4

/-- The new `count_info` by `mark_page_offline`. -/
def Page.markOffline (p : Page) (broken : Bool) : Page :=
  { p with
    state :=
      if p.state ≠ .offlined ∧ p.state ≠ .offlining then
        if p.state = .free then .offlined else .offlining
      else p.state
    broken := p.broken || broken }

def markPageOffline (mfn : Nat) (broken : Bool) (w : World) : World :=
  { w with
    page := Function.update w.page mfn ((w.page mfn).markOffline broken)
    everBroken := Function.update w.everBroken mfn (w.everBroken mfn || broken) }

/-- The block on a list of its node and zone that has the page in it. -/
def World.findHead (m : Machine) (w : World) (mfn : Nat) : Option Nat :=
  (List.range (maxOrder + 1)).findSome? fun i =>
    (w.heap (m.nid mfn) (pageToZone (w.page mfn) mfn) i).find? fun head =>
      head ≤ mfn ∧ mfn < head + 2 ^ i

/-- The caller does not look at `-EINVAL`. -/
def reserveHeapPage (m : Machine) (mfn : Nat) (w : World) : Except Halt World :=
  match w.findHead m mfn with
  | some head => reserveOfflinedPage m head w
  | none => .ok w

def offlinePage (m : Machine) (mfn : Nat) (broken : Bool) (owner : Option Nat) (podHit : Bool)
    (w : World) : Except Halt (Answer × World) :=
  let flag := if broken then pgBroken else 0
  if ¬m.valid mfn then .ok (⟨-22, none⟩, w)
  else if m.xenFixed mfn then
    .ok (⟨-1, some (pgXenpage ||| pgFailed ||| pgOwner domidXen)⟩, w)
  else if ¬m.conventional mfn then .ok (⟨-22, some (pgFailed ||| pgNotConvRam)⟩, w)
  else
    let oldInfo := w.page mfn
    let w := markPageOffline mfn broken w
    if w.isOfflined mfn then
      match reserveHeapPage m mfn w with
      | .error e => .error e
      | .ok w => .ok (⟨0, some (pgOfflined ||| flag)⟩, w)
    else
      match owner with
      | some domid =>
          if podHit then .ok (⟨0, some (pgOfflined ||| flag)⟩, w)
          else .ok (⟨0, some (pgOwned ||| pgPending ||| pgOwner domid ||| flag)⟩, w)
      | none =>
          if oldInfo.xenHeap then
            .ok (⟨0, some (pgXenpage ||| pgPending ||| pgOwner domidXen ||| flag)⟩, w)
          else .ok (⟨0, some (pgAnonymous ||| pgFailed ||| pgOwner domidInvalid ||| flag)⟩, w)

/-! ## `online_page` -/

/-- A broken page is refused, but freed all the same if it is offlined. -/
def onlinePage (m : Machine) (mfn : Nat) (w : World) : Except Halt (Answer × World) :=
  if ¬m.valid mfn then .ok (⟨-22, none⟩, w)
  else
    let y := w.page mfn
    let inuse (w : World) : World :=
      { w with page := Function.update w.page mfn { y with state := .inuse } }
    if y.broken then
      let answer : Answer := ⟨-22, some (pgFailed ||| pgBroken)⟩
      if y.state = .offlined then
        match freeHeapPages m mfn 0 w with
        | .error e => .error e
        | .ok w => .ok (answer, w)
      else .ok (answer, w)
    else if y.state = .offlined then
      if mfn ∈ w.pageOfflinedList then
        match freeHeapPages m mfn 0
            (inuse { w with pageOfflinedList := w.pageOfflinedList.erase mfn }) with
        | .error e => .error e
        | .ok w => .ok (⟨0, some pgOfflined⟩, w)
      else .error .bug
    else if y.state = .offlining then .ok (⟨0, some pgOfflined⟩, inuse w)
    else .ok (⟨0, some 0⟩, w)

/-! ## Steps -/

inductive Step where
  | heap (s : HeapStep)
  | offline (mfn : Nat) (broken : Bool) (owner : Option Nat) (podHit : Bool)
  | online (mfn : Nat)

/-- Only pages that have been handed to the heap are taken offline and online. -/
def Step.run (m : Machine) : Step → World → Except Halt World
  | .heap s, w => s.run m w
  | .offline mfn broken owner podHit, w =>
      if w.given mfn then (offlinePage m mfn broken owner podHit w).map Prod.snd else .ok w
  | .online mfn, w => if w.given mfn then (onlinePage m mfn w).map Prod.snd else .ok w

/-- A run, up to the first `BUG`. -/
def run (m : Machine) : List Step → World → Except Halt World
  | [], w => .ok w
  | s :: rest, w =>
      match s.run m w with
      | .error e => .error e
      | .ok w => run m rest w

/-- The step stays clear of what `reserve_offlined_page`, `offline_page` and
`online_page` get wrong. -/
def Step.Ok (m : Machine) (w : World) : Step → Prop
  -- the chunks that are left of the block are aligned
  | .heap (.free pg order) =>
      w.mayFree pg order = true → (∃ x, Leaving w pg order x) → FreeSplits m w pg order
  -- the node asked for is below `MAX_NUMNODES`, and tmem does not hand back a broken page
  | .heap (.alloc r) =>
      r.InBounds m w ∧
        ∀ pg, r.tmemRelinquished = some pg → ∀ x, Mem pg r.order x → w.everBroken x = false
  | .heap _ => True
  | .offline mfn broken _ _ =>
      w.given mfn = true → m.xenFixed mfn = false → m.conventional mfn = true →
        -- an offlined page does not turn broken
        (broken = true → (w.page mfn).state = .offlined → (w.page mfn).broken = true) ∧
        -- and the chunks that are left of its block are aligned
        ((w.page mfn).state = .free → ∀ n z o h, h ∈ w.heap n z o → Mem h o mfn →
          Splits (fun x => x = mfn) h (h + 2 ^ o))
  | .online mfn =>
      w.given mfn = true → ¬((w.page mfn).state = .offlined ∧ (w.page mfn).broken = true)

def EachOk (m : Machine) : List Step → World → Prop
  | [], _ => True
  | s :: rest, w =>
      s.Ok m w ∧
        match s.run m w with
        | .error _ => True
        | .ok w => EachOk m rest w

variable {m : Machine} {w : World} {mfn : Nat} {broken : Bool}

/-! ## The block of a page -/

theorem findHead_some {head : Nat} (h : w.findHead m mfn = some head) :
    ∃ o, head ∈ w.heap (m.nid mfn) (pageToZone (w.page mfn) mfn) o ∧ Mem head o mfn := by
  rcases List.exists_of_findSome?_eq_some h with ⟨o, -, ho⟩
  have hm := List.find?_some ho
  rw [decide_eq_true_eq] at hm
  exact ⟨o, List.mem_of_find?_eq_some ho, hm⟩

theorem findHead_none {o head : Nat} (h : w.findHead m mfn = none) (ho : o ≤ maxOrder)
    (hh : head ∈ w.heap (m.nid mfn) (pageToZone (w.page mfn) mfn) o) : ¬Mem head o mfn := by
  intro hm
  have hnone := List.findSome?_eq_none_iff.mp h o (List.mem_range.mpr (Nat.lt_succ_of_le ho))
  exact List.find?_eq_none.mp hnone head hh (decide_eq_true hm)

theorem Inv.not_free_mem (h : Inv m w) (hs : (w.page mfn).state ≠ .free) {n z o head : Nat}
    (hh : head ∈ w.heap n z o) : ¬Mem head o mfn := fun hm =>
  hs (inside_false.mp ((h.good.block n z o head hh).inside mfn hm).1)

/-! ## Marking -/

theorem Page.markOffline_offlined {p : Page} (hs : p.state = .offlined)
    (hb : broken = true → p.broken = true) : p.markOffline broken = p := by
  have hor : (p.broken || broken) = p.broken := by
    cases broken with
    | false => exact Bool.or_false _
    | true => rw [hb rfl, Bool.or_true]
  unfold Page.markOffline
  rw [hor, if_neg fun hne => hne.1 hs]

theorem Page.markOffline_held {p : Page} (hp : p.Held) : (p.markOffline broken).state = .offlining := by
  unfold Page.markOffline
  dsimp only
  rcases hp with hs | hs
  · rw [hs]
    rfl
  · rw [hs]
    rfl

theorem Page.markOffline_free {p : Page} (hs : p.state = .free) :
    (p.markOffline broken).state = .offlined := by
  unfold Page.markOffline
  dsimp only
  rw [hs]
  rfl

theorem markPageOffline_page : (markPageOffline mfn broken w).page mfn
    = (w.page mfn).markOffline broken := Function.update_self ..

theorem markPageOffline_other {x : Nat} (hx : x ≠ mfn) :
    (markPageOffline mfn broken w).page x = w.page x ∧
      (markPageOffline mfn broken w).everBroken x = w.everBroken x :=
  ⟨Function.update_of_ne hx .., Function.update_of_ne hx ..⟩

theorem markPageOffline_everBroken (b : Book m w)
    (h : (markPageOffline mfn broken w).everBroken mfn = true) :
    ((w.page mfn).markOffline broken).broken = true := by
  rw [show (markPageOffline mfn broken w).everBroken mfn = (w.everBroken mfn || broken) from
    Function.update_self .., Bool.or_eq_true] at h
  show ((w.page mfn).broken || broken) = true
  rcases h with h | h
  · rw [b.everBroken mfn h]
    rfl
  · rw [h, Bool.or_true]

theorem Inv.markHeld (h : Inv m w) (hgiven : w.given mfn = true) (hheld : (w.page mfn).Held) :
    Inv m (markPageOffline mfn broken w) :=
  h.setHeld hgiven hheld (.inr (Page.markOffline_held hheld)) (fun _ => Page.markOffline_held hheld)
    (markPageOffline_everBroken h.book) fun _ hx => (markPageOffline_other hx).2

theorem Inv.markOfflined (h : Inv m w) (hgiven : w.given mfn = true)
    (hs : (w.page mfn).state = .offlined) (hb : broken = true → (w.page mfn).broken = true) :
    Inv m (markPageOffline mfn broken w) := by
  have b := h.book
  have hmark := Page.markOffline_offlined hs hb
  have hpage : (markPageOffline mfn broken w).page = w.page := by
    show Function.update w.page mfn _ = w.page
    rw [hmark, Function.update_eq_self]
  refine ⟨?_, h.counts, b.moved mfn ⟨hgiven, fun x _ => ?_, ?_, ?_, ?_, ?_, fun he => ?_,
    fun x hx => (markPageOffline_other hx).2, ?_, ?_, fun x _ => ⟨.rfl, .rfl⟩, b.listNodup, b.unready,
    rfl, rfl, rfl⟩⟩
  · rw [hpage]
    exact h.good
  · rw [hpage]
  · rw [hpage]
    exact id
  · rw [hpage]
    exact b.ready mfn
  · rw [hpage]
    exact b.broken mfn
  · rw [hpage]
    exact b.plain mfn
  · rw [markPageOffline_page]
    exact markPageOffline_everBroken b he
  · rw [hpage]
    exact b.offlinedList mfn
  · rw [hpage]
    exact b.brokenList mfn

theorem Good.markFree {page : Nat → Page} {heap : Lists} {p : Page}
    (g : Good m page heap (fun _ => False) (fun _ => False)) (hwas : (page mfn).state = .free)
    (hnow : p.state = .offlined) (ho : p.order = (page mfn).order) :
    Good m (Function.update page mfn p) heap (fun x => x = mfn) (fun _ => False) := by
  have hself : Function.update page mfn p mfn = p := Function.update_self ..
  have hin {x : Nat} : Inside (Function.update page mfn p) (fun x => x = mfn) x ↔
      (page x).state = .free := by
    unfold Inside
    by_cases hx : x = mfn
    · subst hx
      exact iff_of_true (.inr rfl) hwas
    · rw [Function.update_of_ne hx]
      exact or_iff_left hx
  refine ⟨fun x hx => ?_, nofun, fun n z o h hh => ?_, fun x hx => ?_, g.apart, g.nodup, fun x hx => ?_,
    fun x hx => ?_⟩
  · rw [hx, hself]
    exact hnow
  · have hb := g.block n z o h hh
    refine ⟨hb.le, hb.aligned, ?_, fun x hx => ?_⟩
    · by_cases hx : h = mfn
      · rw [hx, hself, ho, ← hx]
        exact hb.order
      · rw [Function.update_of_ne hx]
        exact hb.order
    · rcases hb.inside x hx with ⟨hi, hrest⟩
      exact ⟨hin.mpr (inside_false.mp hi), hrest⟩
  · exact g.cover x (.inl (hin.mp hx))
  · by_cases hx' : x = mfn
    · rw [hx', hself, hnow] at hx
      nomatch hx
    · rw [Function.update_of_ne hx'] at hx ⊢
      exact g.clean x hx
  · exact g.heapPage x (.inl (hin.mp hx))

theorem Inv.reserveFree (h : Inv m w) (hgiven : w.given mfn = true)
    (hs : (w.page mfn).state = .free)
    (hsplits : ∀ n z o head, head ∈ w.heap n z o → Mem head o mfn →
      Splits (fun x => x = mfn) head (head + 2 ^ o)) :
    ∃ w', reserveHeapPage m mfn (markPageOffline mfn broken w) = .ok w' ∧ Inv m w' := by
  have b := h.book
  have hclean := Page.isFree_iff.mp (h.good.clean mfn hs)
  have hself : (markPageOffline mfn broken w).page mfn = (w.page mfn).markOffline broken :=
    markPageOffline_page
  have hoff : ((w.page mfn).markOffline broken).state = .offlined := Page.markOffline_free hs
  have hxen : ((markPageOffline mfn broken w).page mfn).xenHeap = false := by
    rw [hself]
    exact hclean.2.2.1
  have hzone : pageToZone ((markPageOffline mfn broken w).page mfn) mfn = Nat.log 2 mfn := by
    unfold pageToZone
    rw [hxen]
    rfl
  have hlisted : ∃ head o, (markPageOffline mfn broken w).findHead m mfn = some head ∧
      head ∈ w.heap (m.nid mfn) (Nat.log 2 mfn) o ∧ Mem head o mfn := by
    cases hf : (markPageOffline mfn broken w).findHead m mfn with
    | none =>
      rcases h.good.cover mfn (.inl hs) id with ⟨o, head, hh, hm⟩
      refine absurd hm (findHead_none hf (h.good.block _ _ _ _ hh).le ?_)
      rw [hzone]
      exact hh
    | some head =>
      rcases findHead_some hf with ⟨o, hh, hm⟩
      rw [hzone] at hh
      exact ⟨head, o, rfl, hh, hm⟩
  rcases hlisted with ⟨head, o, hf, hh, hm⟩
  have hbl : Blemished m (markPageOffline mfn broken w) (fun x => x = mfn) (m.nid mfn)
      (Nat.log 2 mfn) head o := by
    refine ⟨h.good.markFree hs hoff rfl, h.counts, hh, fun x hx => ?_, ⟨mfn, rfl⟩,
      fun x hx => ?_, hsplits _ _ _ _ hh hm⟩
    · rw [hx]
      exact hm
    · rw [hx]
      exact hxen
  rcases reserveOfflinedPage_spec hbl with ⟨w', he, hres⟩
  refine ⟨w', ?_, hres.good, hres.counts, b.moved mfn ?_⟩
  · unfold reserveHeapPage
    rw [hf]
    exact he
  · have hnow : (w'.page mfn).state = .offlined ∧ (w'.page mfn).broken
        = ((markPageOffline mfn broken w).page mfn).broken := by
      rw [hres.page mfn, hself]
      exact ⟨hoff, rfl⟩
    have hno (v : Bool) : ¬((w.page mfn).state = .offlined ∧ (w.page mfn).broken = v) := fun hx => by
      rw [hs] at hx
      nomatch hx.1
    have hnew : mfn ∉ w.pageOfflinedList ∧ mfn ∉ w.pageBrokenList :=
      ⟨fun hx => hno _ ((b.offlinedList mfn).mp hx), fun hx => hno _ ((b.brokenList mfn).mp hx)⟩
    have hlistOff : (markPageOffline mfn broken w).pageOfflinedList = w.pageOfflinedList := rfl
    have hlistBrk : (markPageOffline mfn broken w).pageBrokenList = w.pageBrokenList := rfl
    refine ⟨hgiven, fun x hx => ?_, fun hheld => ?_, fun _ => ?_, fun _ => .inr hnow.1, fun _ => ?_,
      fun hx => ?_, fun x hx => ?_, ?_, ?_, fun x hx => ?_, ?_, fun n hn z o' => ?_, hres.allocated,
      hres.given, hres.ready⟩
    · rw [hres.page x, (markPageOffline_other hx).1]
    · exact absurd hs hheld.ne_free
    · refine b.ready mfn fun hheld => ?_
      exact absurd hs hheld.ne_free
    · rw [hres.page mfn]
      exact hxen
    · rw [hres.everBroken] at hx
      rw [hnow.2, hself]
      exact markPageOffline_everBroken b hx
    · rw [hres.everBroken]
      exact (markPageOffline_other hx).2
    · rw [hres.offlined, hlistOff, or_iff_right hnew.1, and_iff_right rfl, and_iff_right hnow.1, hnow.2]
    · rw [hres.broken, hlistBrk, or_iff_right hnew.2, and_iff_right rfl, and_iff_right hnow.1, hnow.2]
    · rw [hres.offlined, hres.broken, hlistOff, hlistBrk]
      exact ⟨or_iff_left fun hd => hx hd.1, or_iff_left fun hd => hx hd.1⟩
    · refine hres.nodup b.listNodup fun x hx => ?_
      rw [hx]
      exact hnew
    · have hne : n ≠ m.nid mfn := by
        rintro rfl
        rw [b.unready _ hn] at hh
        nomatch hh
      rw [hres.lists n z o' fun hx => hne hx.1]
      exact b.unready n hn z o'

theorem offlinePage_inv {owner : Option Nat} {podHit : Bool} (h : Inv m w)
    (hok : Step.Ok m w (.offline mfn broken owner podHit)) (hgiven : w.given mfn = true) :
    ∃ r, offlinePage m mfn broken owner podHit w = .ok r ∧ Inv m r.2 := by
  unfold offlinePage
  dsimp only
  split
  · exact ⟨_, rfl, h⟩
  · split
    · exact ⟨_, rfl, h⟩
    · next hfixed =>
      split
      · exact ⟨_, rfl, h⟩
      · next hconv =>
        rcases hok hgiven (by simpa using hfixed) (by simpa using hconv) with ⟨hb, hsplits⟩
        split
        · next hoff =>
          have hreserve : ∃ w', reserveHeapPage m mfn (markPageOffline mfn broken w) = .ok w' ∧
              Inv m w' := by
            unfold World.isOfflined at hoff
            rw [decide_eq_true_eq, markPageOffline_page] at hoff
            cases hs : (w.page mfn).state with
            | free => exact h.reserveFree hgiven hs (hsplits hs)
            | offlined =>
              have h' : Inv m (markPageOffline mfn broken w) :=
                h.markOfflined hgiven hs fun hbr => hb hbr hs
              refine ⟨_, ?_, h'⟩
              unfold reserveHeapPage
              cases hf : (markPageOffline mfn broken w).findHead m mfn with
              | none => rfl
              | some head =>
                rcases findHead_some hf with ⟨o, hh, hm⟩
                refine absurd hm (h'.not_free_mem ?_ hh)
                rw [markPageOffline_page, hoff]
                nofun
            | inuse =>
              rw [Page.markOffline_held (.inl hs)] at hoff
              nomatch hoff
            | offlining =>
              rw [Page.markOffline_held (.inr hs)] at hoff
              nomatch hoff
          rcases hreserve with ⟨w', he, h'⟩
          rw [he]
          exact ⟨_, rfl, h'⟩
        · next hoff =>
          have hheld : (w.page mfn).Held := by
            unfold World.isOfflined at hoff
            rw [decide_eq_true_eq, markPageOffline_page] at hoff
            cases hs : (w.page mfn).state with
            | free => exact absurd (Page.markOffline_free hs) hoff
            | offlined =>
              rw [Page.markOffline_offlined hs fun hbr => hb hbr hs] at hoff
              exact absurd hs hoff
            | inuse => exact .inl hs
            | offlining => exact .inr hs
          have h' : Inv m (markPageOffline mfn broken w) := h.markHeld hgiven hheld
          split
          · split
            · exact ⟨_, rfl, h'⟩
            · exact ⟨_, rfl, h'⟩
          · split
            · exact ⟨_, rfl, h'⟩
            · exact ⟨_, rfl, h'⟩

/-! ## Taking a page online -/

/-- An offlined page is in use again, for a moment. -/
theorem Inv.toInuse (h : Inv m w) (hgiven : w.given mfn = true) (hs : (w.page mfn).state = .offlined)
    (hb : (w.page mfn).broken = false) :
    Inv m { w with
      pageOfflinedList := w.pageOfflinedList.erase mfn
      page := Function.update w.page mfn { w.page mfn with state := .inuse } } := by
  have b := h.book
  have hself : Function.update w.page mfn { w.page mfn with state := .inuse } mfn
      = { w.page mfn with state := .inuse } := Function.update_self ..
  have hbrk : mfn ∉ w.pageBrokenList := fun hx => by
    have := ((b.brokenList mfn).mp hx).2
    rw [hb] at this
    nomatch this
  refine ⟨h.good.setPage (by rw [hs]; nofun) nofun, h.counts, b.moved mfn ?_⟩
  refine ⟨hgiven, fun x hx => ?_, fun _ => ?_, fun hx => ?_, fun hx => ?_, fun hx => ?_, fun hx => ?_,
    fun _ _ => rfl, ?_, ?_, fun x hx => ⟨?_, .rfl⟩, ⟨b.listNodup.1.erase mfn, b.listNodup.2⟩, b.unready,
    rfl, rfl, rfl⟩ <;> dsimp only at *
  · rw [Function.update_of_ne hx]
  · rw [hself]
    exact .inl rfl
  · rw [hself] at hx
    exact absurd (.inl rfl) hx
  · rw [hself] at hx
    rw [hb] at hx
    nomatch hx
  · rw [hself] at hx
    nomatch hx
  · rw [hself]
    exact b.everBroken mfn hx
  · rw [hself]
    exact iff_of_false (List.Nodup.not_mem_erase b.listNodup.1) fun hx => nomatch hx.1
  · rw [hself]
    exact iff_of_false hbrk fun hx => nomatch hx.1
  · exact List.mem_erase_of_ne hx

theorem onlinePage_inv (h : Inv m w) (hok : Step.Ok m w (.online mfn)) (hgiven : w.given mfn = true) :
    ∃ r, onlinePage m mfn w = .ok r ∧ Inv m r.2 := by
  have b := h.book
  have hself (p : Page) : Function.update w.page mfn p mfn = p := Function.update_self ..
  unfold onlinePage
  dsimp only
  split
  · exact ⟨_, rfl, h⟩
  · split
    · next hbr =>
      rw [if_neg fun hs => hok hgiven ⟨hs, hbr⟩]
      exact ⟨_, rfl, h⟩
    · next hbr =>
      have hb : (w.page mfn).broken = false := by simpa using hbr
      split
      · next hs =>
        rw [if_pos ((b.offlinedList mfn).mpr ⟨hs, hb⟩)]
        have h₁ := h.toInuse hgiven hs hb
        have hnotHeld : ¬(w.page mfn).Held := fun hh => hh.ne_offlined hs
        have hfresh : Page.Fresh { w.page mfn with state := .inuse } := ⟨rfl, hb, b.plain mfn hs⟩
        have hf : Freeable m { w with
            pageOfflinedList := w.pageOfflinedList.erase mfn
            page := Function.update w.page mfn { w.page mfn with state := .inuse } } mfn 0 := by
          refine .fresh hgiven ?_ (b.ready mfn hnotHeld) fun c hc hm => ?_
          · dsimp only
            rw [hself]
            exact hfresh
          · exact hnotHeld ((b.taken c hc).page mfn hm).1
        rcases freeHeapPages_freed h₁ hf fun x hx => by
          have hxm : x = mfn := by
            have := hx.1
            unfold Buddy.Mem at this
            omega
          have hst := hx.2
          dsimp only at hst
          rw [hxm, hself] at hst
          nomatch hst with ⟨w', he, hfreed⟩
        rw [he]
        exact ⟨_, rfl, hfreed.inv⟩
      · split
        · next hs =>
          refine ⟨_, rfl, ?_⟩
          refine h.setHeld hgiven (.inr hs) (.inl rfl) (fun hx => ?_) (b.everBroken mfn) fun _ _ => rfl
          exact absurd hx hbr
        · exact ⟨_, rfl, h⟩

/-! ## The life of a page -/

/-- The page is in a free block. -/
def World.InBlock (w : World) (x : Nat) : Prop := ∃ n z o h, h ∈ w.heap n z o ∧ Mem h o x

/-- Where a page of the heap is, by its state. -/
def World.Located (w : World) (x : Nat) : Prop :=
  match (w.page x).state with
  | .free => w.InBlock x ∧ x ∉ w.pageOfflinedList ∧ x ∉ w.pageBrokenList
  | .inuse | .offlining => ¬w.InBlock x ∧ x ∉ w.pageOfflinedList ∧ x ∉ w.pageBrokenList
  | .offlined =>
      ¬w.InBlock x ∧ (x ∈ w.pageBrokenList ↔ (w.page x).broken = true) ∧
        (x ∈ w.pageOfflinedList ↔ (w.page x).broken = false)

structure LifeCycle (m : Machine) (w : World) : Prop where
  located : ∀ x, w.given x = true → w.Located x
  /-- A page is not in two blocks, and nothing is on a list twice. -/
  apart : ∀ n z o h n' z' o' h' x, h ∈ w.heap n z o → h' ∈ w.heap n' z' o' → Mem h o x →
    Mem h' o' x → n = n' ∧ z = z' ∧ o = o' ∧ h = h'
  nodup : (∀ n z o, (w.heap n z o).Nodup) ∧ w.pageOfflinedList.Nodup ∧ w.pageBrokenList.Nodup
  /-- The counters are the pages in free blocks. -/
  avail : ∀ n z, w.avail n z
    = ∑ o ∈ Finset.range (maxOrder + 1), ((w.heap n z o).map fun _ => (2 : Int) ^ o).sum
  total : w.totalAvailPages
    = ∑ n ∈ Finset.range maxNumnodes, ∑ z ∈ Finset.range nrZones, w.avail n z
  counted : ∀ n z o h, h ∈ w.heap n z o → n < maxNumnodes ∧ z < nrZones ∧ o ≤ maxOrder
  broken : ∀ x, w.everBroken x = true → ¬w.InBlock x
  alloc : ∀ r, Step.Ok m w (.heap (.alloc r)) → ∀ pg w', allocHeapPages m r w = .ok (some pg, w') →
    ∀ x, Mem pg r.order x → w.everBroken x = false

theorem Inv.inBlock (h : Inv m w) {x : Nat} : w.InBlock x ↔ (w.page x).state = .free := by
  constructor
  · rintro ⟨n, z, o, head, hh, hm⟩
    exact inside_false.mp ((h.good.block n z o head hh).inside x hm).1
  · intro hs
    rcases h.good.cover x (.inl hs) id with ⟨o, head, hh, hm⟩
    exact ⟨_, _, o, head, hh, hm⟩

theorem Inv.located (h : Inv m w) (x : Nat) : w.Located x := by
  have b := h.book
  unfold World.Located
  rw [h.inBlock, b.offlinedList, b.brokenList]
  split <;> simp [*]

theorem Inv.everBroken_not_free (h : Inv m w) {x : Nat} (hx : w.everBroken x = true) :
    (w.page x).state ≠ .free := by
  rcases h.book.broken x (h.book.everBroken x hx) with hs | hs <;>
  · rw [hs]
    nofun

theorem Inv.lifeCycle (h : Inv m w) : LifeCycle m w := by
  have g := h.good
  have hplace {n z o head x : Nat} (hh : head ∈ w.heap n z o) (hx : Mem head o x) :
      m.nid x = n ∧ Nat.log 2 x = z := ((g.block n z o head hh).inside x hx).2.2
  refine ⟨fun x _ => h.located x, fun n z o head n' z' o' head' x hh hh' hx hx' => ?_,
    ⟨g.nodup, h.book.listNodup⟩, fun n z => ?_, h.counts.sum, fun n z o head hh => ?_, fun x hx => ?_,
    fun r hok pg w' he x hx => ?_⟩
  · rcases hplace hh hx with ⟨hn, hz⟩
    rcases hplace hh' hx' with ⟨hn', hz'⟩
    exact ⟨hn.symm.trans hn', hz.symm.trans hz', g.apart _ _ _ _ _ _ _ _ x hh hh' hx hx'⟩
  · rw [h.counts.each n z]
    simp [weight, mul_comm]
  · have hb := g.block n z o head hh
    rcases hplace hh Mem.self with ⟨rfl, rfl⟩
    have hp := g.heapPage head (hb.inside head Mem.self).1
    exact ⟨m.nid_lt head, Nat.log_lt_of_lt_pow hp.ne_zero hp.lt, hb.le⟩
  · rw [h.inBlock]
    exact h.everBroken_not_free hx
  · rcases allocHeapPages_spec h hok.1 with ⟨res, w₁, he', hcase⟩
    rw [he] at he'
    injection he' with he'
    injection he' with hres hw
    rcases hcase with ⟨-, hnone | ⟨-, htmem⟩⟩ | ⟨pg', hpg, ha⟩
    · rw [← hres] at hnone
      cases hnone
    · exact hok.2 pg (htmem.symm.trans hres.symm) x hx
    · rw [← hres] at hpg
      injection hpg with hpg
      subst hpg
      by_contra hb
      exact h.everBroken_not_free (by simpa using hb) (ha.was x hx)

/-! ## Runs -/

theorem mergeTo_congr {w' : World} {n fuel pg o : Nat} (h : w'.page = w.page) :
    mergeTo m w' n fuel pg o = mergeTo m w n fuel pg o := by
  induction fuel generalizing pg o with
  | zero => rfl
  | succ fuel ih =>
    unfold mergeTo
    rw [mergeable_congr (congrFun h _), ih]

theorem FreeSplits.congr {w' : World} {pg order : Nat} (hs : FreeSplits m w pg order)
    (h : w'.page = w.page) : FreeSplits m w' pg order := by
  have hl : Leaving w' pg order = Leaving w pg order := by
    unfold Leaving
    rw [h]
  unfold FreeSplits at hs ⊢
  dsimp only at hs ⊢
  rw [mergeTo_congr h, hl]
  exact hs

theorem Step.run_sound {P : Prop} (hP : ¬P) (h : Sound m P w) (s : Step) (hok : s.Ok m w) :
    s.run m w = .error .noMemory ∨ ∃ w', s.run m w = .ok w' ∧ Sound m P w' := by
  have hsound {w' : World} (h' : Inv m w') : Sound m P w' :=
    ⟨h', fun hp => absurd hp hP, fun hp => absurd hp hP, fun _ _ hx => nomatch hx⟩
  cases s with
  | heap s =>
    by_cases hl : ∃ pg order, s = .free pg order ∧ w.mayFree pg order = true ∧
        ∃ x, Leaving w pg order x
    · rcases hl with ⟨pg, order, rfl, hf, hsome⟩
      rcases h.mayFree hf with ⟨h', hfr⟩
      have hsplits : FreeSplits m { w with allocated := w.allocated.erase (pg, order) } pg order :=
        (hok hf hsome).congr rfl
      rcases freeHeapPages_reserved h'.inv hfr hsome hsplits with ⟨w', he, hinv⟩
      refine .inr ⟨w', ?_, hsound hinv⟩
      show (if w.mayFree pg order then _ else _) = _
      rw [if_pos hf]
      exact he
    · refine h.run s ?_ fun pg order hs hf x hx => hl ⟨pg, order, hs, hf, x, hx⟩
      cases s with
      | alloc r => exact hok.1
      | _ => trivial
  | offline mfn broken owner podHit =>
    dsimp only [Step.run]
    split
    · next hg =>
      rcases offlinePage_inv h.inv hok hg with ⟨r, he, h'⟩
      rw [he]
      exact .inr ⟨r.2, rfl, hsound h'⟩
    · exact .inr ⟨w, rfl, h⟩
  | online mfn =>
    dsimp only [Step.run]
    split
    · next hg =>
      rcases onlinePage_inv h.inv hok hg with ⟨r, he, h'⟩
      rw [he]
      exact .inr ⟨r.2, rfl, hsound h'⟩
    · exact .inr ⟨w, rfl, h⟩

theorem run_sound {P : Prop} (hP : ¬P) (h : Sound m P w) (steps : List Step) (hok : EachOk m steps w) :
    run m steps w = .error .noMemory ∨ ∃ w', run m steps w = .ok w' ∧ Sound m P w' := by
  induction steps generalizing w with
  | nil => exact .inr ⟨w, rfl, h⟩
  | cons s rest ih =>
    rcases hok with ⟨hs, hrest⟩
    unfold run
    rcases s.run_sound hP h hs with hno | ⟨w₁, he, h₁⟩
    · rw [hno]
      exact .inl rfl
    · rw [he] at hrest ⊢
      exact ih h₁ hrest

/-- In every run that stays clear of the three. -/
theorem run_lifeCycle (m : Machine) (steps : List Step) (hok : EachOk m steps .init) :
    run m steps .init = .error .noMemory ∨ ∃ w, run m steps .init = .ok w ∧ LifeCycle m w := by
  rcases run_sound not_false World.init_sound steps hok with hno | ⟨w, he, h⟩
  · exact .inl hno
  · exact .inr ⟨w, he, h.inv.lifeCycle⟩

/-- A page is marked while it is in use, offlined when it is freed, and taken online. -/
def backOnline : List Step :=
  [.heap (.init 5 1 fun _ => []), .heap (.alloc anyPage), .offline 5 false none false,
    .heap (.free 5 0), .online 5]

theorem run_lifeCycle_backOnline :
    ∃ w, run oneNode backOnline .init = .ok w ∧ LifeCycle oneNode w := by
  have hok : EachOk oneNode backOnline .init := by
    refine ⟨trivial, ⟨fun _ _ => .inl (by decide), nofun⟩, fun _ _ _ => ⟨nofun, nofun⟩, fun _ _ => ?_, fun _ => ?_, trivial⟩
    · change Splits _ 5 6
      intro s hs hlast _ o hfit
      have hend := hfit.2
      have hpos := Nat.two_pow_pos o
      omega
    · change ¬((_ : PageState) = .offlined ∧ false = true)
      exact fun hb => nomatch hb.2
  rcases run_lifeCycle oneNode backOnline hok with hno | h
  · nomatch hno
  · exact h

/-- A broken page is taken online. -/
def brokenOnline : List Step :=
  [.heap (.init 5 1 fun _ => []), .offline 5 true none false, .online 5]

theorem brokenOnline_free :
    ¬∀ steps : List Step, run oneNode steps .init = .error .noMemory ∨
      ∃ w, run oneNode steps .init = .ok w ∧ LifeCycle oneNode w := by
  intro h
  have hrun : (run oneNode brokenOnline .init).toOption.map
      (fun w => (w.everBroken 5, w.heap 0 2 0)) = some (true, [5]) := by
    decide +kernel
  rcases h brokenOnline with hno | ⟨w, he, hl⟩
  · rw [hno] at hrun
    nomatch hrun
  · rw [he] at hrun
    injection hrun with hrun
    injection hrun with hb hh
    refine hl.broken 5 hb ⟨0, 2, 0, 5, ?_, Mem.self⟩
    rw [hh]
    exact List.mem_singleton_self 5

end PageAlloc
