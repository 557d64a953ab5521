import MemoryMonitor.Lib.Buckets
import MemoryMonitor.Lib.Runs

/-!
# Sharing of pages

`xen/arch/x86/mm/mem_sharing.c`, with `page_make_sharable` and `page_make_private` of `mm.c`. A page
that has been nominated belongs to `dom_cow` and has a handle. Pages of two handles are shared by
moving the gfns of one to the page of the other; a gfn is unshared by a copy, in place if it is the
last one, or by dropping it, as `p2m_teardown` does.

The entries are in a chained hash table, the p2m entries of the gfns, the type and the owner of the
page say the same again. `View` is the table as a map, together with these; every call is made of
five changes of the view: an entry is created, a gfn attached or detached, an entry without gfns is
dropped, and a page without an entry is changed.
-/

namespace Mm.Sharing

inductive P2mType where
  | ramRw
  | ramShared
  | other
  deriving DecidableEq

/-- An entry of a p2m; `none` is a frame that is not valid. -/
structure P2mEntry (M : Type) where
  type : P2mType
  mfn : Option M
  deriving DecidableEq

inductive Owner (D : Type) where
  | cow
  | dom (d : D)
  deriving DecidableEq

/-- `PGT_shared_page`, or one of the others. -/
inductive PageType where
  | shared
  | other
  deriving DecidableEq

structure Page (D : Type) where
  owner : Option (Owner D)
  /-- `PGC_allocated`, and the rest of `count_info`. -/
  allocated : Bool
  count : Nat
  type : PageType
  typeCount : Nat
  shrHandle : Nat
  deriving DecidableEq

/-- `struct gfn_info`. -/
structure GfnInfo (D G : Type) where
  domain : D
  gfn : G
  deriving DecidableEq

/-- `struct shr_hash_entry`; `freed` is not in the source. -/
structure Entry (D G M : Type) where
  handle : Nat
  mfn : M
  gfns : List (GfnInfo D G)
  freed : Bool
  deriving DecidableEq

inductive Err where
  | EINVAL
  | EEXIST
  | E2BIG
  | ENOMEM
  | sHandleInvalid
  | cHandleInvalid
  deriving DecidableEq

def SHR_HASH_LENGTH : Nat := 1000

structure State (D G M : Type) where
  shrHash : Nat → List (Entry D G M)
  nextHandle : Nat
  p2m : GfnInfo D G → P2mEntry M
  page : M → Page D
  /-- `atomic_t`: the source has both counters modulo `2 ^ 32`. -/
  nrSavedMfns : Int
  shrPages : D → Int
  /-- A `BUG` was hit. -/
  crashed : Bool
  /-- References to a page that are not of the sharing code, and the gfns that were dropped: these
  are not in the source. -/
  held : M → Nat
  destroyed : GfnInfo D G → Bool

/-- How a call ends. -/
inductive Result (σ : Type) where
  | done (s : σ)
  | failed (e : Err) (s : σ)
  | bug

/-! ## References -/

namespace Page

variable {D : Type} [DecidableEq D] (p : Page D)

/-- `get_page`. -/
def get (owner : Owner D) : Option (Page D) :=
  if p.owner = some owner ∧ p.count ≠ 0 then some { p with count := p.count + 1 } else none

/-- `put_page`; with the last reference the page is freed. -/
def put : Page D :=
  if p.count = 1 then { p with count := 0, owner := none } else { p with count := p.count - 1 }

/-- `get_page_type` with `PGT_shared_page`. -/
def getType : Option (Page D) :=
  if p.typeCount = 0 then some { p with type := .shared, typeCount := 1 }
  else if p.type = .shared then some { p with typeCount := p.typeCount + 1 }
  else none

/-- `get_page_and_type`; a reference whose type cannot be had is given back. -/
def getAndType (owner : Owner D) : Option (Page D) :=
  match p.get owner with
  | none => none
  | some p => p.getType

/-- `put_page_and_type`. -/
def putAndType : Page D :=
  { p with typeCount := p.typeCount - 1 }.put

/-- `page_make_sharable`. -/
def makeSharable (d : D) (expectedRefcnt : Nat) : Page D × Option Err :=
  match p.getAndType (.dom d) with
  | none => (p, some .EINVAL)
  | some p =>
      if p.typeCount ≠ 1 then (p.putAndType, some .EEXIST)
      else if p.allocated = false ∨ p.count ≠ 2 + expectedRefcnt then (p.putAndType, some .E2BIG)
      else ({ p with owner := some .cow }, none)

/-- `page_make_private`. -/
def makePrivate (d : D) : Page D × Option Err :=
  match p.get .cow with
  | none => (p, some .EINVAL)
  | some p =>
      if p.type ≠ .shared ∨ p.typeCount ≠ 1 then (p.put, some .EEXIST)
      else ({ p.putAndType with owner := some (.dom d) }.put, none)

end Page

/-! ## The calls -/

namespace State

variable {D G M : Type} [DecidableEq D] [DecidableEq G] [DecidableEq M] (s : State D G M)

def setPage (mfn : M) (p : Page D) : State D G M :=
  { s with page := Function.update s.page mfn p }

def setP2mEntry (i : GfnInfo D G) (type : P2mType) (mfn : Option M) : State D G M :=
  { s with p2m := Function.update s.p2m i ⟨type, mfn⟩ }

/-- `mem_sharing_hash_lookup`. -/
def hashLookup (handle : Nat) : Option (Entry D G M) :=
  Buckets.lookup SHR_HASH_LENGTH Entry.handle s.shrHash handle

/-- `mem_sharing_hash_insert`, with memory for the entry. -/
def hashInsert (handle : Nat) (mfn : M) : State D G M :=
  { s with shrHash := Buckets.insert SHR_HASH_LENGTH Entry.handle s.shrHash ⟨handle, mfn, [], false⟩ }

/-- `mem_sharing_hash_delete`. -/
def hashDelete (handle : Nat) : State D G M :=
  { s with shrHash := Buckets.delete SHR_HASH_LENGTH Entry.handle s.shrHash handle }

/-- A change of an entry through its pointer. -/
def modify (handle : Nat) (f : Entry D G M → Entry D G M) : State D G M :=
  { s with shrHash := Buckets.modify SHR_HASH_LENGTH Entry.handle s.shrHash handle f }

/-- `mem_sharing_hash_destroy` of an entry that is in the table. -/
def hashDestroy (handle : Nat) : State D G M :=
  s.modify handle (fun e => { e with freed := true })

/-- `list_add` to the gfns of an entry. -/
def listAdd (handle : Nat) (i : GfnInfo D G) : State D G M :=
  s.modify handle (fun e => { e with gfns := i :: e.gfns })

/-- `list_del` from the gfns of an entry. -/
def listDel (handle : Nat) (i : GfnInfo D G) : State D G M :=
  s.modify handle (fun e => { e with gfns := e.gfns.erase i })

/-- `mem_sharing_gfn_destroy`. -/
def gfnDestroy (i : GfnInfo D G) (wasShared : Bool) : State D G M :=
  if wasShared then { s with shrPages := Function.update s.shrPages i.domain (s.shrPages i.domain - 1) } else s

/-- `mem_sharing_gfn_account` of the first of the gfns, when sharing. -/
def gfnAccount (gfns : List (GfnInfo D G)) : State D G M :=
  match gfns with
  | [i] => { s with shrPages := Function.update s.shrPages i.domain (s.shrPages i.domain + 1) }
  | _ => s

/-- `mem_sharing_nominate_page`. The memory for the entry and the gfn, and the entry that
`p2m_change_type` sets, are there or not. -/
def nominatePage (i : GfnInfo D G) (expectedRefcnt : Nat) (entry info set : Bool) : Result (State D G M) :=
  match (s.p2m i).mfn with
  | none => .failed .EINVAL s
  | some mfn =>
      if (s.p2m i).type = .ramShared then .done s
      else if (s.p2m i).type ≠ .ramRw then .failed .EINVAL s
      else
        match (s.page mfn).makeSharable i.domain expectedRefcnt with
        | (p, some e) => .failed e (s.setPage mfn p)
        | (p, none) =>
            let handle := s.nextHandle
            let s := { s.setPage mfn p with nextHandle := handle + 1 }
            if entry = false then .failed .ENOMEM s
            else
              let s := s.hashInsert handle mfn
              if info = false then .failed .ENOMEM (s.hashDestroy handle)
              else if (s.p2m i).type ≠ .ramRw then
                match (s.page mfn).makePrivate i.domain with
                | (_, some _) => .bug
                | (p, none) => .failed .ENOMEM ((s.setPage mfn p).hashDestroy handle)
              else
                let s := if set then s.setP2mEntry i .ramShared (some mfn) else s
                let s := s.listAdd handle i
                .done (s.setPage mfn { s.page mfn with shrHandle := handle })

/-- One round of the loop of `mem_sharing_share_pages`. -/
def moveGfn (sh ch : Nat) (smfn cmfn : M) (i : GfnInfo D G) : Option (State D G M) :=
  match (s.page smfn).getAndType .cow with
  | none => none
  | some p =>
      let s := (s.setPage smfn p).listDel ch i
      let s := (s.setP2mEntry i .ramShared (some smfn)).listAdd sh i
      some (s.setPage cmfn (s.page cmfn).putAndType)

/-- The loop of `mem_sharing_share_pages`: the next gfn is found before one is moved. -/
def moveGfns (sh ch : Nat) (smfn cmfn : M) : List (GfnInfo D G) → State D G M → Option (State D G M)
  | [], s => some s
  | i :: rest, s =>
      match s.moveGfn sh ch smfn cmfn i with
      | none => none
      | some s => moveGfns sh ch smfn cmfn rest s

/-- `test_and_clear_bit(_PGC_allocated)`, and the reference of it. -/
def clearAllocated (mfn : M) : State D G M :=
  if (s.page mfn).allocated then s.setPage mfn { s.page mfn with allocated := false }.put else s

/-- `mem_sharing_share_pages`. -/
def sharePages (sh ch : Nat) : Result (State D G M) :=
  match s.hashLookup sh with
  | none => .failed .sHandleInvalid s
  | some se =>
      match s.hashLookup ch with
      | none => .failed .cHandleInvalid s
      | some ce =>
          match moveGfns sh ch se.mfn ce.mfn ce.gfns ((s.gfnAccount ce.gfns).gfnAccount se.gfns) with
          | none => .bug
          | some s =>
              let s := { s.hashDelete ch with nrSavedMfns := s.nrSavedMfns + 1 }
              .done (s.clearAllocated ce.mfn)

/-- The gfn has left its list: the entry goes with the last one. -/
def commitDestroy (i : GfnInfo D G) (handle : Nat) (lastGfn : Bool) : State D G M :=
  let s := s.gfnDestroy i (!lastGfn)
  if lastGfn then s.hashDelete handle else { s with nrSavedMfns := s.nrSavedMfns - 1 }

/-- `alloc_domheap_page` finds the frame, if it is free. -/
def allocPage (d : D) (mfn : M) : Option (State D G M) :=
  if (s.page mfn).count = 0 then some (s.setPage mfn ⟨some (.dom d), true, 1, .other, 0, (s.page mfn).shrHandle⟩)
  else none

/-- `mem_sharing_unshare_page`; `destroy` and `must` are its flags, and `frame` the frame that is
found for a copy. -/
def unsharePage (i : GfnInfo D G) (destroy must : Bool) (frame : Option M) : Result (State D G M) :=
  if (s.p2m i).type ≠ .ramShared then .done s
  else
    match (s.p2m i).mfn with
    | none => .bug
    | some mfn =>
        let handle := (s.page mfn).shrHandle
        match s.hashLookup handle with
        | none => .bug
        | some e =>
            if i ∉ e.gfns then .bug
            else
              let lastGfn := (e.gfns.erase i).isEmpty
              let s := s.listDel handle i
              if destroy then
                let s := s.commitDestroy i handle lastGfn
                let s := s.setPage mfn (s.page mfn).putAndType
                let s := if lastGfn then s.clearAllocated mfn else s
                .done { s with destroyed := Function.update s.destroyed i true }
              else
                match (s.page mfn).makePrivate i.domain with
                | (p, none) =>
                    .done (((s.setPage mfn p).commitDestroy i handle lastGfn).setP2mEntry i .ramRw (some mfn))
                | (p, some _) =>
                    if lastGfn then .bug
                    else
                      let s := s.setPage mfn p
                      match frame.bind (fun new => (s.allocPage i.domain new).map (new, ·)) with
                      | none => if must then .bug else .failed .ENOMEM (s.listAdd handle i)
                      | some (new, s) =>
                          let s := s.setP2mEntry i .ramShared (some new)
                          let s := s.setPage mfn (s.page mfn).putAndType
                          .done ((s.commitDestroy i handle lastGfn).setP2mEntry i .ramRw (some new))

/-- `get_page` and `put_page` by others. -/
def hold (mfn : M) : State D G M :=
  if (s.page mfn).count = 0 then s
  else { s.setPage mfn { s.page mfn with count := (s.page mfn).count + 1 } with
    held := Function.update s.held mfn (s.held mfn + 1) }

def release (mfn : M) : State D G M :=
  if s.held mfn = 0 then s
  else { s.setPage mfn (s.page mfn).put with held := Function.update s.held mfn (s.held mfn - 1) }

end State

inductive Step (D G M : Type) where
  | nominate (i : GfnInfo D G) (expectedRefcnt : Nat) (entry info set : Bool)
  | share (sh ch : Nat)
  | unshare (i : GfnInfo D G) (destroy must : Bool) (frame : Option M)
  | hold (mfn : M)
  | release (mfn : M)

variable {D G M : Type} [DecidableEq D] [DecidableEq G] [DecidableEq M]

def State.call (s : State D G M) : Step D G M → Result (State D G M)
  | .nominate i expectedRefcnt entry info set => s.nominatePage i expectedRefcnt entry info set
  | .share sh ch => s.sharePages sh ch
  | .unshare i destroy must frame => s.unsharePage i destroy must frame
  | .hold mfn => .done (s.hold mfn)
  | .release mfn => .done (s.release mfn)

/-- After a `BUG` nothing happens any more. -/
def act (step : Step D G M) (s : State D G M) : State D G M :=
  if s.crashed then s
  else
    match s.call step with
    | .done s => s
    | .failed _ s => s
    | .bug => { s with crashed := true }

/-- Before any sharing. -/
structure Start (D G M : Type) where
  p2m : GfnInfo D G → P2mEntry M
  page : M → Page D
  held : M → Nat
  unshared : ∀ i, (p2m i).type ≠ .ramShared
  untyped : ∀ m, (page m).type = .shared → (page m).typeCount = 0
  counted : ∀ m, (page m).count = (page m).allocated.toNat + held m

def init (start : Start D G M) : State D G M where
  shrHash _ := []
  nextHandle := 1
  p2m := start.p2m
  page := start.page
  nrSavedMfns := 0
  shrPages _ := 0
  crashed := false
  held := start.held
  destroyed _ := false

end Mm.Sharing
