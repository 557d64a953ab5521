import MemoryMonitor.Grant.Table

/-!
# Giving a page away (`gnttab_transfer`)

A domain gives one of its pages to another one that has offered a grant entry for it. The page is stolen
from the caller first; from then on it belongs to nobody, and every exit either frees it or gives it to
the target. A page that lies above the addresses the target can use is copied to a new one, and the new
one is given instead.

What other code answers is an argument (`Answers`). `freed` counts how often a page has been handed back
to the heap.
-/

namespace Grant.Transfer

/-- The fields of `struct page_info` that are looked at; `count` and `allocated` are parts of
`count_info`, and `contents` is what the page holds. -/
structure Page (β : Type) where
  owner : Option Domid
  count : Nat
  allocated : Bool
  xenHeap : Bool
  free : Bool
  contents : β

structure GrantTable where
  gtVersion : GtVersion
  nrGrantFrames : Nat
  shared : Nat → SharedEntry

structure Domain where
  totPages : BitVec 32
  maxPages : BitVec 32
  isDying : Bool
  physaddrBitsize : Nat
  pageList : List Frame
  physmap : Frame → Option Frame
  grantTable : Option GrantTable

structure World (β : Type) where
  page : Frame → Page β
  domain : Domid → Option Domain
  freed : Frame → Nat

/-- The fields of `gnttab_transfer_t` that are read; `gfn` is its `mfn`. -/
structure Request where
  gfn : Frame
  domid : Domid
  ref : Nat

/-- The frame behind the guest's number, the answer of `xsm_grant_transfer`, the page that
`alloc_domheap_page` finds, and what the guest stores in the entry before each `cmpxchg`. -/
structure Answers where
  mfn : Frame
  xsm : Int
  newPage : Option Frame
  raced : List Header

variable {β : Type}

/-! ## Pages -/

def World.setPage (w : World β) (m : Frame) (p : Page β) : World β :=
  { w with page := Function.update w.page m p }

def World.setDomain (w : World β) (x : Domid) (X : Domain) : World β :=
  { w with domain := Function.update w.domain x (some X) }

/-- `page->count_info &= ~(PGC_count_mask|PGC_allocated); free_domheap_page(page);` -/
def freePage (w : World β) (m : Frame) : World β :=
  { w.setPage m { w.page m with count := 0, allocated := false, free := true } with
    freed := Function.update w.freed m (w.freed m + 1) }

/-- The tests of `steal_page`: the page is the domain's, and nobody else has a reference. -/
def Stealable (d : Domid) (p : Page β) : Prop :=
  p.xenHeap = false ∧ p.owner = some d ∧ p.count = 1 ∧ p.allocated = true

instance (d : Domid) (p : Page β) : Decidable (Stealable d p) :=
  inferInstanceAs (Decidable (_ ∧ _))

/-- What `steal_page` and `guest_physmap_remove_page` do to the caller. -/
def Domain.lose (D : Domain) (gfn m : Frame) : Domain :=
  { D with
    totPages := D.totPages - 1
    pageList := D.pageList.erase m
    physmap := Function.update D.physmap gfn none }

def stealPage (w : World β) (d : Domid) (D : Domain) (gfn m : Frame) : World β :=
  (w.setPage m { w.page m with owner := none }).setDomain d (D.lose gfn m)

/-- `BITS_PER_LONG+PAGE_SHIFT-1`. -/
def longBits : Nat := 64 + 12 - 1

def domainClampAllocBitsize (E : Domain) (bits : Nat) : Nat :=
  if E.physaddrBitsize = 0 then bits else min E.physaddrBitsize bits

/-- `(1UL << (max_bitsize - PAGE_SHIFT)) <= mfn`. -/
def TooBig (E : Domain) (mfn : Frame) : Prop :=
  2 ^ (domainClampAllocBitsize E longBits - 12) ≤ mfn.toNat

instance (E : Domain) (mfn : Frame) : Decidable (TooBig E mfn) := inferInstanceAs (Decidable (_ ≤ _))

/-- `alloc_domheap_page(NULL, ...)` has found `new`: it has no owner, and neither `PGC_allocated` nor a
reference. -/
def allocPage (w : World β) (new : Frame) : World β :=
  w.setPage new { w.page new with owner := none, count := 0, allocated := false, free := false }

/-- The page is copied to the new one and freed. -/
def substitute (w : World β) (m new : Frame) : World β :=
  let w := allocPage w new
  freePage (w.setPage new { w.page new with contents := (w.page m).contents }) m

/-! ## The grant entry -/

def gtfAcceptTransfer : BitVec 16 := 2
def gtfTransferCommitted : BitVec 16 := 4
def gtfTransferCompleted : BitVec 16 := 8

def GrantTable.nrGrantEntries (t : GrantTable) : Nat :=
  if t.gtVersion = .v1 then (t.nrGrantFrames * 4096) / 8 else (t.nrGrantFrames * 4096) / 16

def GrantTable.setEntry (t : GrantTable) (ref : Nat) (e : SharedEntry) : GrantTable :=
  { t with shared := Function.update t.shared ref e }

/-- The loop of `gnttab_prepare_for_transfer`, from the value `scombo` read last. `raced` is what the guest
stores before each further `cmpxchg`. Returns whether the entry is committed, and the header that is left
in memory. -/
def prepareLoop (ld : Domid) : List Header → Nat → Header → Bool × Header
  | raced, retries, scombo =>
    if scombo.flags ≠ gtfAcceptTransfer ∨ scombo.domid ≠ ld then (false, scombo)
    else
      let new : Header := { scombo with flags := scombo.flags ||| gtfTransferCommitted }
      match raced with
      | [] => (true, new)
      | seen :: raced =>
        if seen = scombo then (true, new)
        else if retries = 4 then (false, seen)
        else prepareLoop ld raced (retries + 1) seen

def gnttabPrepareForTransfer (rgt : Option GrantTable) (ld : Domid) (ref : Nat) (raced : List Header) :
    Bool × Option GrantTable :=
  match rgt with
  | none => (false, none)
  | some t =>
    if t.gtVersion = .unset then (false, t)
    else if t.nrGrantEntries ≤ ref then (false, t)
    else
      let out := prepareLoop ld raced 0 (t.shared ref).hdr
      (out.1, t.setEntry ref { t.shared ref with hdr := out.2 })

/-- The frame number in the entry. -/
def GrantTable.frame (t : GrantTable) (ref : Nat) : Frame :=
  if t.gtVersion = .v1 then (t.shared ref).frameV1 else (t.shared ref).frame

/-- `sha->frame = mfn`, which in version 1 is 32 bits wide, and the completion flag. -/
def GrantTable.complete (t : GrantTable) (ref : Nat) (mfn : Frame) : GrantTable :=
  let e := t.shared ref
  let frame : Frame :=
    if t.gtVersion = .v1 then (e.frame.extractLsb' 32 32) ++ (mfn.setWidth 32) else mfn
  t.setEntry ref { e with hdr := { e.hdr with flags := e.hdr.flags ||| gtfTransferCompleted }, frame }

/-! ## The request -/

/-- The page goes to the end of the target's list, and `mfn` into its physmap and its grant entry. -/
def Domain.gain (E : Domain) (t : GrantTable) (ref : Nat) (page mfn : Frame) : Domain :=
  { E with
    totPages := E.totPages + 1
    pageList := E.pageList ++ [page]
    physmap := Function.update E.physmap (t.frame ref) (some mfn)
    grantTable := some (t.complete ref mfn) }

/-- The exit that frees the page. -/
def refuse (w : World β) (page : Frame) (status : Gntst) : Gntst × World β := (status, freePage w page)

/-- From `spin_lock(&e->page_alloc_lock)` on. `page` is what the target is given, and `mfn` is the frame
that was looked up at the beginning. -/
def give (w : World β) (d e : Domid) (E : Domain) (page mfn : Frame) (ref : Nat) (raced : List Header) :
    Gntst × World β :=
  if E.isDying then refuse w page .generalError
  else if E.maxPages ≤ E.totPages then refuse w page .generalError
  else
    match gnttabPrepareForTransfer E.grantTable d ref raced with
    | (true, some t) =>
      let w := w.setPage page { w.page page with owner := some e }
      (.okay, w.setDomain e (E.gain t ref page mfn))
    | (_, rgt) => refuse (w.setDomain e { E with grantTable := rgt }) page .generalError

/-- What happens to a page that has been stolen. -/
def dispose (w : World β) (d : Domid) (req : Request) (a : Answers) : Gntst × World β :=
  match w.domain req.domid with
  | none => refuse w a.mfn .badDomain
  | some E =>
    if a.xsm ≠ 0 then refuse w a.mfn .permissionDenied
    else if TooBig E a.mfn then
      match a.newPage with
      | none => refuse w a.mfn .addressTooBig
      | some new => give (substitute w a.mfn new) d req.domid E new a.mfn req.ref a.raced
    else give w d req.domid E a.mfn a.mfn req.ref a.raced

/-- The body of the loop of `gnttab_transfer`, for the domain `d`: the status and the new state. -/
def transfer (mfnValid : Frame → Bool) (w : World β) (d : Domid) (req : Request) (a : Answers) :
    Gntst × World β :=
  match w.domain d with
  | none => (.badPage, w)
  | some D =>
    if mfnValid a.mfn = false then (.badPage, w)
    else if Stealable d (w.page a.mfn) then dispose (stealPage w d D req.gfn a.mfn) d req a
    else (.badPage, w)

/-- One turn of the loop: the request and the answers, and whether the copies from and to the guest
succeed. -/
structure Turn where
  req : Request
  answers : Answers
  copyFrom : Bool
  copyTo : Bool

/-- The loop of `gnttab_transfer`: whether it ends without `-EFAULT`, the statuses of the requests that
have been carried out, and the state. -/
def gnttabTransfer (mfnValid : Frame → Bool) (d : Domid) : List Turn → World β → Bool × List Gntst × World β
  | [], w => (true, [], w)
  | t :: rest, w =>
    if t.copyFrom = false then (false, [], w)
    else
      let out := transfer mfnValid w d t.req t.answers
      if t.copyTo = false then (false, [out.1], out.2)
      else
        let (ok, statuses, w) := gnttabTransfer mfnValid d rest out.2
        (ok, out.1 :: statuses, w)

/-! ## What is to hold -/

/-- The lists of the domains hold what belongs to them, once, and free pages belong to nobody. -/
structure World.Listed (w : World β) : Prop where
  nodup : ∀ x X, w.domain x = some X → X.pageList.Nodup
  owner : ∀ x X, w.domain x = some X → ∀ m ∈ X.pageList, (w.page m).owner = some x
  free : ∀ m, (w.page m).free = true → (w.page m).owner = none

/-- Nobody has the page. -/
def Unowned (w : World β) (m : Frame) : Prop :=
  (w.page m).owner = none ∧ ∀ x X, w.domain x = some X → m ∉ X.pageList

/-- The domain has the page, and nobody else. -/
def OwnedBy (w : World β) (m : Frame) (e : Domid) : Prop :=
  (w.page m).owner = some e ∧ (∃ E, w.domain e = some E ∧ E.pageList.count m = 1) ∧
    ∀ x X, w.domain x = some X → x ≠ e → m ∉ X.pageList

/-- The page is in use, and nobody has a reference but its owner. -/
def Held (p : Page β) (e : Domid) : Prop :=
  p.owner = some e ∧ p.count = 1 ∧ p.allocated = true ∧ p.free = false

/-- The same page is in the list, the grant entry and the physmap of the target `e`, and it holds what the
page of the caller has held. A domain that gives a page to itself has lost it before. -/
structure Given (w w' : World β) (d : Domid) (req : Request) (m p : Frame) : Prop where
  domain : ∃ E E' t t', w.domain req.domid = some E ∧ w'.domain req.domid = some E' ∧
    E.grantTable = some t ∧ E'.grantTable = some t' ∧
    E'.pageList = E.pageList.erase m ++ [p] ∧ t'.frame req.ref = p ∧
    E'.physmap (t.frame req.ref) = some p ∧
    E'.totPages + (if req.domid = d then 1 else 0) = E.totPages + 1
  page : Held (w'.page p) req.domid
  contents : (w'.page p).contents = (w.page m).contents

/-- The page is stolen. -/
def Stolen (mfnValid : Frame → Bool) (w : World β) (d : Domid) (m : Frame) : Prop :=
  mfnValid m = true ∧ Stealable d (w.page m) ∧ (w.domain d).isSome

/-- The page has been freed, once, or the domain has it. -/
def Accounted (w w' : World β) (m : Frame) (e : Domid) : Prop :=
  (w'.freed m = w.freed m + 1 ∧ (w'.page m).free = true ∧ Unowned w' m) ∨
    (w'.freed m = w.freed m ∧ (w'.page m).free = false ∧ OwnedBy w' m e)

structure Conserves (mfnValid : Frame → Bool) (w : World β) (d : Domid) (req : Request) (a : Answers) :
    Prop where
  stolen : Stolen mfnValid w d a.mfn → Accounted w (transfer mfnValid w d req a).2 a.mfn req.domid
  given : (transfer mfnValid w d req a).1 = .okay →
    ∃ p, Given w (transfer mfnValid w d req a).2 d req a.mfn p

/-- The allocator's page is one that was free. -/
def Answers.Ok (a : Answers) (w : World β) : Prop := ∀ new, a.newPage = some new → (w.page new).free = true

/-- The target takes the page; a domain that gives a page to itself has room for it. -/
structure Accepted (mfnValid : Frame → Bool) (w : World β) (d : Domid) (req : Request) (a : Answers)
    (E : Domain) : Prop where
  stolen : Stolen mfnValid w d a.mfn
  found : w.domain req.domid = some E
  xsm : a.xsm = 0
  fits : TooBig E a.mfn → a.newPage ≠ none
  alive : E.isDying = false
  room : ¬ E.maxPages ≤ E.totPages - (if req.domid = d then 1 else 0)
  prepared : (gnttabPrepareForTransfer E.grantTable d req.ref a.raced).1 = true

/-! ## The parts -/

section Parts

variable {w : World β} {d e x : Domid} {E D X : Domain} {m page mfn new gfn : Frame} {ref : Nat} {raced : List Header}

@[simp]
theorem setPage_self {p : Page β} : (w.setPage m p).page m = p := Function.update_self ..

theorem setPage_of_ne {p : Page β} (h : page ≠ m) : (w.setPage m p).page page = w.page page :=
  Function.update_of_ne h ..

@[simp]
theorem setPage_domain {p : Page β} : (w.setPage m p).domain = w.domain := rfl

@[simp]
theorem setPage_freed {p : Page β} : (w.setPage m p).freed = w.freed := rfl

@[simp]
theorem setDomain_self : (w.setDomain x X).domain x = some X := Function.update_self ..

theorem setDomain_of_ne (h : e ≠ x) : (w.setDomain x X).domain e = w.domain e := Function.update_of_ne h ..

@[simp]
theorem setDomain_page : (w.setDomain x X).page = w.page := rfl

@[simp]
theorem freePage_self :
    (freePage w m).page m = { w.page m with count := 0, allocated := false, free := true } :=
  Function.update_self ..

theorem freePage_of_ne (h : page ≠ m) : (freePage w m).page page = w.page page := Function.update_of_ne h ..

@[simp]
theorem freed_freePage : (freePage w m).freed m = w.freed m + 1 := Function.update_self ..

theorem freed_freePage_of_ne (h : page ≠ m) : (freePage w m).freed page = w.freed page :=
  Function.update_of_ne h ..

theorem World.domain_cases {Y : Domain} (h : (w.setDomain x X).domain e = some Y) :
    (e = x ∧ Y = X) ∨ (e ≠ x ∧ w.domain e = some Y) := by
  by_cases hex : e = x
  · subst hex
    rw [setDomain_self] at h
    exact Or.inl ⟨rfl, (Option.some.inj h).symm⟩
  · rw [setDomain_of_ne hex] at h
    exact Or.inr ⟨hex, h⟩

theorem Unowned.freePage (h : Unowned w m) :
    ((freePage w m).page m).free = true ∧ Unowned (freePage w m) m := by
  refine ⟨?_, ?_, h.2⟩
  · rw [freePage_self]
  · rw [freePage_self]
    exact h.1

theorem Unowned.setTable (h : Unowned w m) (he : w.domain e = some E) (rgt : Option GrantTable) :
    Unowned (w.setDomain e { E with grantTable := rgt }) m := by
  refine ⟨h.1, ?_⟩
  intro x X hx
  rcases World.domain_cases hx with ⟨rfl, rfl⟩ | ⟨-, hx⟩
  · exact h.2 x E he
  · exact h.2 x X hx

theorem Unowned.freeOther (h : Unowned w m) (hne : m ≠ page) : Unowned (Transfer.freePage w page) m := by
  refine ⟨?_, h.2⟩
  rw [freePage_of_ne hne]
  exact h.1

theorem World.Listed.inUse (h : w.Listed) (hm : Stealable d (w.page m)) : (w.page m).free = false := by
  by_contra hfree
  have hnobody := h.free m (by simpa using hfree)
  rw [hm.2.1] at hnobody
  cases hnobody

/-- The stolen page belongs to nobody. -/
theorem World.Listed.steal (h : w.Listed) (hD : w.domain d = some D) (hm : Stealable d (w.page m)) :
    Unowned (stealPage w d D gfn m) m := by
  unfold stealPage
  refine ⟨by simp, ?_⟩
  intro x X hx hmem
  rcases World.domain_cases hx with ⟨rfl, rfl⟩ | ⟨hne, hx⟩
  · -- the list had the page once
    exact (h.nodup x D hD).not_mem_erase hmem
  · have howner := h.owner x X hx m hmem
    rw [hm.2.1] at howner
    exact hne (Option.some.inj howner).symm

/-- Committing an entry changes its header only. -/
theorem prepared_eq {rgt rgt' : Option GrantTable} {ok : Bool}
    (h : gnttabPrepareForTransfer rgt d ref raced = (ok, rgt')) :
    (rgt = none ∧ rgt' = none ∧ ok = false) ∨
      ∃ t t', rgt = some t ∧ rgt' = some t' ∧ t'.gtVersion = t.gtVersion ∧ t'.frame ref = t.frame ref := by
  unfold gnttabPrepareForTransfer at h
  split at h
  · cases h
    exact Or.inl ⟨rfl, rfl, rfl⟩
  · next t =>
    right
    split at h
    · cases h
      exact ⟨t, t, rfl, rfl, rfl, rfl⟩
    · split at h
      · cases h
        exact ⟨t, t, rfl, rfl, rfl, rfl⟩
      · cases h
        refine ⟨t, _, rfl, rfl, rfl, ?_⟩
        simp [GrantTable.frame, GrantTable.setEntry, SharedEntry.frameV1]

theorem setWidth_append (x y : BitVec 32) : (x ++ y).setWidth 32 = y := by
  apply BitVec.eq_of_getLsbD_eq
  intro i hi
  rw [BitVec.getLsbD_setWidth, BitVec.getLsbD_append]
  simp [hi]

theorem setWidth_setWidth_iff (x : Frame) : (x.setWidth 32).setWidth 64 = x ↔ x.toNat < 2 ^ 32 := by
  constructor
  · intro h
    have := congrArg BitVec.toNat h
    simp at this
    omega
  · intro h
    apply BitVec.eq_of_toNat_eq
    simp
    omega

/-- The entry has the frame number, as far as it fits. -/
theorem complete_frame_iff (t : GrantTable) (ref : Nat) (mfn : Frame) :
    (t.complete ref mfn).frame ref = mfn ↔ (t.gtVersion = .v1 → mfn.toNat < 2 ^ 32) := by
  unfold GrantTable.complete GrantTable.frame GrantTable.setEntry SharedEntry.frameV1
  by_cases hv : t.gtVersion = .v1
  · simp only [hv, if_true, Function.update_self, true_implies]
    rw [setWidth_append]
    exact setWidth_setWidth_iff mfn
  · simp [hv]

end Parts

/-! ## The exits -/

section Exits

variable {w : World β} {d e : Domid} {E D : Domain} {m page mfn new gfn : Frame} {ref : Nat}
  {raced : List Header}

/-- The target takes the page, or the page is freed and at most the grant table of the target has
changed. -/
theorem give_cases (d : Domid) (ref : Nat) (raced : List Header) (he : w.domain e = some E) (page mfn : Frame) :
    (E.isDying = false ∧ ¬ E.maxPages ≤ E.totPages ∧ ∃ t t', E.grantTable = some t ∧
      gnttabPrepareForTransfer E.grantTable d ref raced = (true, some t') ∧
      t'.gtVersion = t.gtVersion ∧ t'.frame ref = t.frame ref ∧
      give w d e E page mfn ref raced =
        (.okay, (w.setPage page { w.page page with owner := some e }).setDomain e (E.gain t' ref page mfn))) ∨
    (¬ (E.isDying = false ∧ ¬ E.maxPages ≤ E.totPages ∧
      (gnttabPrepareForTransfer E.grantTable d ref raced).1 = true) ∧ ∃ rgt,
      give w d e E page mfn ref raced =
        refuse (w.setDomain e { E with grantTable := rgt }) page .generalError) := by
  have hsame : w.setDomain e { E with grantTable := E.grantTable } = w := by
    unfold World.setDomain
    rw [← he, Function.update_eq_self]
  unfold give
  by_cases hdying : E.isDying = true
  · rw [if_pos hdying]
    right
    refine ⟨fun h => ?_, E.grantTable, ?_⟩
    · rw [h.1] at hdying
      cases hdying
    · rw [hsame]
  · rw [if_neg hdying]
    by_cases hfull : E.maxPages ≤ E.totPages
    · rw [if_pos hfull]
      right
      refine ⟨fun h => h.2.1 hfull, E.grantTable, ?_⟩
      rw [hsame]
    · rw [if_neg hfull]
      have halive : E.isDying = false := by simpa using hdying
      cases hprep : gnttabPrepareForTransfer E.grantTable d ref raced with
      | mk ok rgt =>
        rcases prepared_eq hprep with ⟨-, rfl, rfl⟩ | ⟨t, t', ht, rfl, hv, hf⟩
        · right
          exact ⟨fun h => Bool.noConfusion h.2.2, none, rfl⟩
        · cases ok with
          | false =>
            right
            exact ⟨fun h => Bool.noConfusion h.2.2, some t', rfl⟩
          | true =>
            left
            exact ⟨halive, hfull, t, t', ht, rfl, hv, hf, rfl⟩

/-- The caller without the page: what the target has is as before, where it is another domain. -/
theorem steal_domain (hw : w.Listed) (hD : w.domain d = some D) (hm : Stealable d (w.page m)) {E₁ : Domain}
    (he : (stealPage w d D gfn m).domain e = some E₁) :
    ∃ E, w.domain e = some E ∧ E₁.pageList = E.pageList.erase m ∧
      E₁.totPages = E.totPages - (if e = d then 1 else 0) ∧ E₁.maxPages = E.maxPages ∧
      E₁.isDying = E.isDying ∧ E₁.physaddrBitsize = E.physaddrBitsize ∧ E₁.grantTable = E.grantTable := by
  unfold stealPage at he
  rcases World.domain_cases he with ⟨rfl, rfl⟩ | ⟨hne, he⟩
  · refine ⟨D, hD, rfl, ?_, rfl, rfl, rfl, rfl⟩
    rw [if_pos rfl]
    rfl
  · rw [setPage_domain] at he
    refine ⟨E₁, he, ?_, ?_, rfl, rfl, rfl, rfl⟩
    · -- the page is not in the list of another domain
      refine (List.erase_of_not_mem ?_).symm
      intro hmem
      have howner := hw.owner e E₁ he m hmem
      rw [hm.2.1] at howner
      exact hne (Option.some.inj howner).symm
    · rw [if_neg hne]
      simp

theorem steal_domain_none (h : (stealPage w d D gfn m).domain e = none) : w.domain e = none := by
  unfold stealPage at h
  by_cases hself : e = d
  · rw [hself, setDomain_self] at h
    cases h
  · rw [setDomain_of_ne hself, setPage_domain] at h
    exact h

/-- A free page is another one than the one that is stolen, and nobody has it. -/
theorem World.Listed.free_unowned (h : w.Listed) (gfn : Frame) (hD : w.domain d = some D) (hm : Stealable d (w.page m))
    (hfree : (w.page new).free = true) : new ≠ m ∧ Unowned (stealPage w d D gfn m) new := by
  have howner := h.free new hfree
  have hne : new ≠ m := by
    rintro rfl
    rw [hm.2.1] at howner
    cases howner
  unfold stealPage
  refine ⟨hne, ?_, ?_⟩
  · rw [setDomain_page, setPage_of_ne hne]
    exact howner
  · intro x X hx hmem
    rcases World.domain_cases hx with ⟨rfl, rfl⟩ | ⟨-, hx⟩
    · have := h.owner x D hD new (List.mem_of_mem_erase hmem)
      rw [howner] at this
      cases this
    · have := h.owner x X hx new hmem
      rw [howner] at this
      cases this

theorem substitute_unowned (h : Unowned w m) (hnew : Unowned w new) (hne : new ≠ m) :
    (substitute w m new).freed m = w.freed m + 1 ∧ ((substitute w m new).page m).free = true ∧
      Unowned (substitute w m new) m ∧ Unowned (substitute w m new) new := by
  unfold substitute allocPage
  refine ⟨by simp, by simp, ⟨?_, h.2⟩, ⟨?_, hnew.2⟩⟩
  · rw [freePage_self, setPage_of_ne hne.symm, setPage_of_ne hne.symm]
    exact h.1
  · rw [freePage_of_ne hne]
    simp

/-- Every exit but the last one: a stolen page is freed, and the target has not met the conditions. -/
structure Refused (mfnValid : Frame → Bool) (w : World β) (d : Domid) (req : Request) (a : Answers) :
    Prop where
  status : (transfer mfnValid w d req a).1 ≠ .okay
  accounted : Stolen mfnValid w d a.mfn → Accounted w (transfer mfnValid w d req a).2 a.mfn req.domid
  notAccepted : ∀ E, ¬ Accepted mfnValid w d req a E

/-- The last exit: `page`, which comes from `w₂`, is the target's, with `mfn` as its number. -/
structure Granted (mfnValid : Frame → Bool) (w w₂ : World β) (d : Domid) (req : Request) (a : Answers)
    (page : Frame) (E E₁ : Domain) (t t' : GrantTable) : Prop where
  accepted : Accepted mfnValid w d req a E
  table : E.grantTable = some t
  version : t'.gtVersion = t.gtVersion
  frame : t'.frame req.ref = t.frame req.ref
  pageList : E₁.pageList = E.pageList.erase a.mfn
  totPages : E₁.totPages = E.totPages - (if req.domid = d then 1 else 0)
  domain : w₂.domain req.domid = some E₁
  result : transfer mfnValid w d req a =
    (.okay, (w₂.setPage page { w₂.page page with owner := some req.domid }).setDomain req.domid
      (E₁.gain t' req.ref page a.mfn))

variable {mfnValid : Frame → Bool} {req : Request} {a : Answers} {w₂ : World β}

theorem Refused.of_refuse {status : Gntst} (h : transfer mfnValid w d req a = refuse w₂ a.mfn status)
    (hs : status ≠ .okay) (hfreed : w₂.freed a.mfn = w.freed a.mfn) (hun : Unowned w₂ a.mfn)
    (hna : ∀ E, ¬ Accepted mfnValid w d req a E) : Refused mfnValid w d req a where
  status := by
    rw [h]
    exact hs
  accounted _ := by
    left
    rw [h, ← hfreed]
    exact ⟨freed_freePage, hun.freePage⟩
  notAccepted := hna

theorem Granted.of_give (req : Request) (w₂ : World β) (page : Frame) (E₁ : Domain) (hw : w.Listed)
    (hs : Stolen mfnValid w d a.mfn) (hD : w.domain d = some D)
    (he₁ : (stealPage w d D req.gfn a.mfn).domain req.domid = some E₁) (hxsm : a.xsm = 0)
    (hfits : TooBig E₁ a.mfn → a.newPage ≠ none) (hdom : w₂.domain req.domid = some E₁)
    (h : transfer mfnValid w d req a = give w₂ d req.domid E₁ page a.mfn req.ref a.raced) :
    ((∀ E, ¬ Accepted mfnValid w d req a E) ∧ ∃ rgt, transfer mfnValid w d req a =
        refuse (w₂.setDomain req.domid { E₁ with grantTable := rgt }) page .generalError) ∨
      ∃ E t t', E₁.physaddrBitsize = E.physaddrBitsize ∧
        Granted mfnValid w w₂ d req a page E E₁ t t' := by
  rcases steal_domain hw hD hs.2.1 he₁ with ⟨E, he, hlist, htot, hmax, hdying, hbits, htable⟩
  rcases give_cases d req.ref a.raced hdom page a.mfn with
    ⟨halive, hroom, t, t', ht, hprep, hv, hf, hgive⟩ | ⟨hnot, rgt, hgive⟩
  · right
    refine ⟨E, t, t', hbits, ?_, ?_, hv, hf, hlist, htot, hdom, h.trans hgive⟩
    · constructor
      · exact hs
      · exact he
      · exact hxsm
      · intro hbig
        apply hfits
        unfold TooBig domainClampAllocBitsize at hbig ⊢
        rw [hbits]
        exact hbig
      · rw [← hdying]
        exact halive
      · rw [← hmax, ← htot]
        exact hroom
      · rw [← htable, hprep]
    · rw [← htable]
      exact ht
  · left
    refine ⟨?_, rgt, h.trans hgive⟩
    intro E' hacc
    have hsame : E = E' := Option.some.inj (he.symm.trans hacc.found)
    subst hsame
    apply hnot
    refine ⟨hdying.trans hacc.alive, ?_, ?_⟩
    · rw [hmax, htot]
      exact hacc.room
    · rw [htable]
      exact hacc.prepared

theorem transfer_cases (mfnValid : Frame → Bool) (d : Domid) (req : Request) (hw : w.Listed) (ha : a.Ok w) :
    Refused mfnValid w d req a ∨
      ∃ D, w.domain d = some D ∧ Stealable d (w.page a.mfn) ∧ ∃ E E₁ t t',
        (¬ TooBig E a.mfn ∧
          Granted mfnValid w (stealPage w d D req.gfn a.mfn) d req a a.mfn E E₁ t t') ∨
        (TooBig E a.mfn ∧ ∃ new, new ≠ a.mfn ∧ Unowned (stealPage w d D req.gfn a.mfn) new ∧
          Granted mfnValid w (substitute (stealPage w d D req.gfn a.mfn) a.mfn new) d req a new E E₁ t t') := by
  by_cases hs : Stolen mfnValid w d a.mfn
  · rcases hs with ⟨hvalid, hm, hsome⟩
    rcases Option.isSome_iff_exists.mp hsome with ⟨D, hD⟩
    have hrun : transfer mfnValid w d req a = dispose (stealPage w d D req.gfn a.mfn) d req a := by
      unfold transfer
      rw [hD]
      dsimp only
      rw [if_neg (by simp [hvalid]), if_pos hm]
    have hun : Unowned (stealPage w d D req.gfn a.mfn) a.mfn := hw.steal hD hm
    have hdom := fun (E₁ : Domain) (he : (stealPage w d D req.gfn a.mfn).domain req.domid = some E₁) =>
      steal_domain hw hD hm he
    have hgive := fun E₁ w₂ page => Granted.of_give req w₂ page E₁ hw ⟨hvalid, hm, hsome⟩ hD
    unfold dispose at hrun
    cases he₁ : (stealPage w d D req.gfn a.mfn).domain req.domid with
    | none =>
      rw [he₁] at hrun
      left
      refine Refused.of_refuse hrun nofun rfl hun ?_
      intro E hacc
      have hfound := hacc.found
      rw [steal_domain_none he₁] at hfound
      cases hfound
    | some E₁ =>
      rcases hdom E₁ he₁ with ⟨E, he, -, -, -, -, hbits, -⟩
      have hbig : TooBig E₁ a.mfn ↔ TooBig E a.mfn := by
        unfold TooBig domainClampAllocBitsize
        rw [hbits]
      have hfound : ∀ E', Accepted mfnValid w d req a E' → E' = E := fun E' hacc =>
        Option.some.inj (hacc.found.symm.trans he)
      rw [he₁] at hrun
      dsimp only at hrun
      by_cases hxsm : a.xsm = 0
      · rw [if_neg (not_not_intro hxsm)] at hrun
        by_cases htoo : TooBig E₁ a.mfn
        · rw [if_pos htoo] at hrun
          cases hnew : a.newPage with
          | none =>
            rw [hnew] at hrun
            left
            refine Refused.of_refuse hrun nofun rfl hun ?_
            intro E' hacc
            rw [hfound E' hacc] at hacc
            exact hacc.fits (hbig.mp htoo) hnew
          | some new =>
            rw [hnew] at hrun
            dsimp only at hrun
            have hfree := ha new hnew
            rcases hw.free_unowned req.gfn hD hm hfree with ⟨hne, hnewun⟩
            rcases substitute_unowned hun hnewun hne with ⟨hfreed, hfreem, hunm, hunnew⟩
            rcases hgive E₁ (substitute (stealPage w d D req.gfn a.mfn) a.mfn new) new he₁ hxsm
                (fun _ => by simp [hnew]) he₁ hrun with
              ⟨hna, rgt, href⟩ | ⟨E', t, t', hb, hg⟩
            · left
              constructor
              · rw [href]
                exact nofun
              · intro _
                left
                rw [href]
                have hset := hunm.setTable (E := E₁) he₁ rgt
                refine ⟨?_, ?_, hset.freeOther hne.symm⟩
                · exact (freed_freePage_of_ne hne.symm).trans hfreed
                · rw [← hfreem]
                  unfold refuse
                  rw [freePage_of_ne hne.symm, setDomain_page]
              · exact hna
            · right
              have hsame := hfound E' hg.accepted
              subst hsame
              exact ⟨D, hD, hm, E', E₁, t, t', Or.inr ⟨hbig.mp htoo, new, hne, hnewun, hg⟩⟩
        · rw [if_neg htoo] at hrun
          rcases hgive E₁ _ a.mfn he₁ hxsm (fun h => absurd h htoo) he₁ hrun with
            ⟨hna, rgt, href⟩ | ⟨E', t, t', hb, hg⟩
          · left
            exact Refused.of_refuse href nofun rfl (hun.setTable he₁ rgt) hna
          · right
            have hsame := hfound E' hg.accepted
            subst hsame
            exact ⟨D, hD, hm, E', E₁, t, t', Or.inl ⟨fun h => htoo (hbig.mpr h), hg⟩⟩
      · rw [if_pos hxsm] at hrun
        left
        refine Refused.of_refuse hrun nofun rfl hun ?_
        intro E' hacc
        exact hxsm hacc.xsm
  · left
    have hbad : transfer mfnValid w d req a = (.badPage, w) := by
      unfold transfer
      cases hD : w.domain d with
      | none => rfl
      | some D =>
        dsimp only
        by_cases hvalid : mfnValid a.mfn = false
        · rw [if_pos hvalid]
        · rw [if_neg hvalid, if_neg]
          intro hm
          exact hs ⟨by simpa using hvalid, hm, by simp [hD]⟩
    constructor
    · rw [hbad]
      exact nofun
    · intro h
      exact absurd h hs
    · intro E hacc
      exact hs hacc.stolen

end Exits

/-! ## The request -/

section Result

variable {mfnValid : Frame → Bool} {w : World β} {d : Domid} {req : Request} {a : Answers} {D E E₁ : Domain}
  {t t' : GrantTable} {w₂ : World β} {page p : Frame}

/-- The page that is given is the last one of the target's list, so no other one is meant. -/
theorem Granted.given_eq (h : Granted mfnValid w w₂ d req a page E E₁ t t')
    (hg : Given w (transfer mfnValid w d req a).2 d req a.mfn p) : p = page := by
  rcases hg.domain with ⟨F, F', -, -, hF, hF', -, -, hlist, -⟩
  rw [h.accepted.found] at hF
  cases hF
  rw [h.result, setDomain_self] at hF'
  cases hF'
  unfold Domain.gain at hlist
  dsimp only at hlist
  rw [h.pageList] at hlist
  exact (List.singleton_injective (List.append_cancel_left hlist)).symm

/-- What the target has afterwards, but for the frame number in the entry. -/
theorem Granted.given_iff (h : Granted mfnValid w w₂ d req a a.mfn E E₁ t t')
    (hpage : Held ({ w₂.page a.mfn with owner := some req.domid } : Page β) req.domid)
    (hsame : (w₂.page a.mfn).contents = (w.page a.mfn).contents) :
    (∃ p, Given w (transfer mfnValid w d req a).2 d req a.mfn p) ↔
      (t.gtVersion = .v1 → a.mfn.toNat < 2 ^ 32) := by
  rw [← h.version, ← complete_frame_iff t' req.ref a.mfn]
  constructor
  · rintro ⟨p, hg⟩
    have hp := h.given_eq hg
    subst hp
    rcases hg.domain with ⟨-, F', -, T', -, hF', -, hT', -, hframe, -⟩
    rw [h.result, setDomain_self] at hF'
    cases hF'
    cases hT'
    exact hframe
  · intro hframe
    refine ⟨a.mfn, ⟨E, E₁.gain t' req.ref a.mfn a.mfn, t, _, h.accepted.found, ?_, h.table, rfl, ?_, hframe,
      ?_, ?_⟩, ?_, ?_⟩
    · rw [h.result]
      exact setDomain_self
    · unfold Domain.gain
      rw [h.pageList]
    · unfold Domain.gain
      rw [h.frame]
      exact Function.update_self ..
    · unfold Domain.gain
      rw [h.totPages]
      split
      · exact congrArg (· + 1) (BitVec.sub_add_cancel _ _)
      · simp
    · rw [h.result, setDomain_page, setPage_self]
      exact hpage
    · rw [h.result, setDomain_page, setPage_self]
      exact hsame

/-- The page goes from the caller to the target. -/
theorem Granted.accounted (hw : w.Listed) (hm : Stealable d (w.page a.mfn)) (hD : w.domain d = some D)
    (h : Granted mfnValid w (stealPage w d D req.gfn a.mfn) d req a a.mfn E E₁ t t') :
    Accounted w (transfer mfnValid w d req a).2 a.mfn req.domid := by
  have hun : Unowned (stealPage w d D req.gfn a.mfn) a.mfn := hw.steal hD hm
  right
  rw [h.result]
  refine ⟨rfl, ?_, ?_, ⟨_, setDomain_self, ?_⟩, ?_⟩
  · rw [setDomain_page, setPage_self]
    unfold stealPage
    rw [setDomain_page, setPage_self]
    exact hw.inUse hm
  · rw [setDomain_page, setPage_self]
  · unfold Domain.gain
    dsimp only
    rw [List.count_append, List.count_eq_zero_of_not_mem (hun.2 _ _ h.domain)]
    simp
  · intro x X hx hne hmem
    rcases World.domain_cases hx with ⟨rfl, -⟩ | ⟨-, hx⟩
    · exact hne rfl
    · exact hun.2 x X hx hmem

/-- A stolen page is never lost or given twice. Where the target takes the page, it has it under its own
number exactly when the page was not above the target's addresses, and the number fits into the entry. -/
theorem transfer_conserves_iff (hw : w.Listed) (ha : a.Ok w) :
    Conserves mfnValid w d req a ↔
      ∀ E t, Accepted mfnValid w d req a E → E.grantTable = some t →
        ¬ TooBig E a.mfn ∧ (t.gtVersion = .v1 → a.mfn.toNat < 2 ^ 32) := by
  rcases transfer_cases mfnValid d req hw ha with
    hr | ⟨D, hD, hm, E, E₁, t, t', ⟨hfits, hg⟩ | ⟨hbig, new, hne, hnew, hg⟩⟩
  · refine iff_of_true ⟨hr.accounted, fun h => absurd h hr.status⟩ ?_
    intro E t hacc
    exact absurd hacc (hr.notAccepted E)
  · have hpage : Held ({ (stealPage w d D req.gfn a.mfn).page a.mfn with owner := some req.domid } : Page β)
        req.domid := by
      unfold stealPage
      rw [setDomain_page, setPage_self]
      exact ⟨rfl, hm.2.2.1, hm.2.2.2, hw.inUse hm⟩
    have hsame : ((stealPage w d D req.gfn a.mfn).page a.mfn).contents = (w.page a.mfn).contents := by
      unfold stealPage
      rw [setDomain_page, setPage_self]
    have hiff := hg.given_iff hpage hsame
    constructor
    · intro hc F T hacc hT
      have hF : F = E := Option.some.inj (hacc.found.symm.trans hg.accepted.found)
      subst hF
      have htt : T = t := Option.some.inj (hT.symm.trans hg.table)
      subst htt
      refine ⟨hfits, hiff.mp (hc.given ?_)⟩
      rw [hg.result]
    · intro hcond
      exact ⟨fun _ => hg.accounted hw hm hD, fun _ => hiff.mpr (hcond E t hg.accepted hg.table).2⟩
  · refine iff_of_false ?_ ?_
    · intro hc
      rcases hc.given (by rw [hg.result]) with ⟨p, hp⟩
      have hpage := hp.page
      rw [hg.given_eq hp, hg.result, setDomain_page, setPage_self] at hpage
      -- the new page has no reference
      have hcount := hpage.2.1
      unfold substitute allocPage at hcount
      dsimp only at hcount
      rw [freePage_of_ne hne, setPage_self, setPage_self] at hcount
      cases hcount
    · intro hcond
      exact (hcond E t hg.accepted hg.table).1 hbig

/-- A domain with one page. -/
def caller (m : Frame) : Domain where
  totPages := 1
  maxPages := 4
  isDying := false
  physaddrBitsize := 0
  pageList := [m]
  physmap := fun _ => none
  grantTable := none

/-- A domain that offers the caller an entry for a page. -/
def target (bits : Nat) : Domain where
  totPages := 0
  maxPages := 4
  isDying := false
  physaddrBitsize := bits
  pageList := []
  physmap := fun _ => none
  grantTable := some
    { gtVersion := .v1, nrGrantFrames := 1, shared := fun _ => ⟨⟨gtfAcceptTransfer, 1⟩, 0, 0, 7⟩ }

/-- Domain 1 has the page `m`, all other pages are free; domain 2 is the target. -/
def twoDomains (m : Frame) (bits : Nat) : World Nat where
  page := fun x => if x = m then ⟨some 1, 1, true, false, false, 42⟩ else ⟨none, 0, false, false, true, 0⟩
  domain := fun x => if x = 1 then some (caller m) else if x = 2 then some (target bits) else none
  freed := fun _ => 0

theorem twoDomains_listed (m : Frame) (bits : Nat) : (twoDomains m bits).Listed := by
  have hcases : ∀ x X, (twoDomains m bits).domain x = some X →
      (x = 1 ∧ X = caller m) ∨ X = target bits := by
    intro x X hx
    unfold twoDomains at hx
    dsimp only at hx
    split at hx
    · next h =>
      cases hx
      exact Or.inl ⟨h, rfl⟩
    · split at hx
      · cases hx
        exact Or.inr rfl
      · cases hx
  constructor
  · intro x X hx
    rcases hcases x X hx with ⟨-, rfl⟩ | rfl
    · exact List.nodup_singleton m
    · exact List.nodup_nil
  · intro x X hx p hp
    rcases hcases x X hx with ⟨rfl, rfl⟩ | rfl
    · rw [List.mem_singleton.mp hp]
      simp [twoDomains]
    · exact absurd hp List.not_mem_nil
  · intro p hp
    unfold twoDomains at hp ⊢
    dsimp only at hp ⊢
    split at hp
    · cases hp
    · next h => rw [if_neg h]

/-- Page 5 is given to a domain that can use it. -/
theorem transfer_conserves_low :
    (transfer (fun _ => true) (twoDomains 5 0) 1 ⟨9, 2, 3⟩ ⟨5, 0, none, []⟩).1 = .okay ∧
      Conserves (fun _ => true) (twoDomains 5 0) 1 ⟨9, 2, 3⟩ ⟨5, 0, none, []⟩ := by
  refine ⟨by decide +kernel, ?_⟩
  refine (transfer_conserves_iff (twoDomains_listed 5 0) (fun _ h => by cases h)).mpr ?_
  intro E t hacc ht
  have hE : E = target 0 := Option.some.inj (hacc.found.symm.trans rfl)
  subst hE
  cases ht
  decide

/-- Page 32 is given to a domain with addresses of 16 bits, which gets page 8 in its list and the number
of the freed page 32 in its entry. -/
theorem transfer_losesNumber :
    (transfer (fun _ => true) (twoDomains 32 16) 1 ⟨9, 2, 3⟩ ⟨32, 0, some 8, []⟩).1 = .okay ∧
      ¬ Conserves (fun _ => true) (twoDomains 32 16) 1 ⟨9, 2, 3⟩ ⟨32, 0, some 8, []⟩ := by
  constructor
  · decide +kernel
  · intro h
    have hok : (8 : Frame) = 32 := by
      rcases h.given (by decide +kernel) with ⟨p, hp⟩
      rcases hp.domain with ⟨E, E', t, t', hE, hE', -, ht', hlist, hframe, -⟩
      cases hE
      cases hE'
      cases ht'
      have hp8 : p = 8 := (List.singleton_injective (@List.append_cancel_left _ [] _ _ hlist)).symm
      rw [← hp8, ← hframe]
      decide +kernel
    exact absurd hok (by decide)

end Result

end Grant.Transfer
