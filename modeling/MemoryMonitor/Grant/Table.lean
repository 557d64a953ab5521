import MemoryMonitor.Lib.Lanes

/-!
# Grant tables (`xen/common/grant_table.c`)

A grant table holds the entries a domain shares with the hypervisor (`shared`,
and `status` in version 2), one active entry for each of them with the pin
counts (`active`), and the mappings of foreign grants the domain itself has
made (`maptrack`, with its free list).

`World` holds the tables of all domains: `w.active (d, ref)` is
`active_entry(d->grant_table, ref)`, and so on. It also counts the page
references the grant code has taken. What does not change while the modelled
operations run is in `Platform`: the domains, their kind, the version and the
size of each table.
-/

namespace Grant

/-! ## Data -/

/-- `domid_t`. -/
abbrev Domid := BitVec 16

/-- A machine or guest frame number. -/
abbrev Frame := BitVec 64

/-- A grant entry: the domain whose table it is in, and its reference. -/
abbrev EntryKey := Domid × Nat

/-- `GNTST_*`. -/
inductive Gntst where
  | okay | generalError | badDomain | badGntref | badHandle | badVirtAddr | badDevAddr
  | noDeviceSpace | permissionDenied | badPage | badCopyArg | addressTooBig | eagain
  deriving DecidableEq

/-- `gt_version`; 0 until a version has been chosen. -/
inductive GtVersion where
  | unset | v1 | v2
  deriving DecidableEq

/-- The header of a shared entry, read and written as one word. -/
structure Header where
  flags : BitVec 16
  domid : Domid
  deriving DecidableEq

/-- A shared entry, with the members of the version 2 union where they lie.
Version 1 has the header and the low half of `frame`. -/
structure SharedEntry where
  hdr : Header
  pageOff : BitVec 16
  length : BitVec 16
  frame : BitVec 64
  deriving DecidableEq

/-- `sha1->frame`, 32 bits wide. -/
def SharedEntry.frameV1 (e : SharedEntry) : Frame := (e.frame.setWidth 32).setWidth 64

/-- `transitive.trans_domid`, which lies where `sub_page.page_off` does. -/
def SharedEntry.transDomid (e : SharedEntry) : Domid := e.pageOff

/-- `transitive.gref`, the low half of the frame. -/
def SharedEntry.transGref (e : SharedEntry) : Nat := (e.frame.setWidth 32).toNat

structure ActiveGrantEntry where
  pin : BitVec 32
  domid : Domid
  transDom : Domid
  transGref : Nat
  frame : Frame
  gfn : Frame
  isSubPage : Bool
  start : BitVec 15
  length : BitVec 16
  deriving DecidableEq

structure GrantMapping where
  ref : Nat
  flags : BitVec 16
  domid : Domid
  deriving DecidableEq

/-- What stays fixed while the operations run. -/
structure Platform where
  /-- The domains `rcu_lock_domain_by_id` finds. -/
  domains : Finset Domid
  gtVersion : Domid → GtVersion
  nrGrantFrames : Domid → Nat
  pagingModeExternal : Domid → Bool
  isHvmDomain : Domid → Bool
  needIommu : Domid → Bool
  /-- Not RAM, or owned by `dom_io`. -/
  isIomemPage : Frame → Bool
  mfnValid : Frame → Bool
  maxNrGrantFrames : Nat

structure World where
  shared : EntryKey → SharedEntry
  status : EntryKey → BitVec 16
  active : EntryKey → ActiveGrantEntry
  maptrack : Domid × Nat → GrantMapping
  maptrackHead : Domid → Nat
  maptrackLimit : Domid → Nat
  /-- General references on each frame taken by the grant code and not dropped. -/
  pageRefs : Frame → Int
  /-- The same for `PGT_writable_page` type references. -/
  typeRefs : Frame → Int

/-- Number of grant table entries. -/
def Platform.nrGrantEntries (P : Platform) (d : Domid) : Nat :=
  if P.gtVersion d = .v1 then (P.nrGrantFrames d * 4096) / 8 else (P.nrGrantFrames d * 4096) / 16

/-! ## Flags -/

section Flags

variable {n : Nat}

/-- `flags & GNTMAP_device_map`. -/
def isDevice (flags : BitVec n) : Bool := flags.getLsbD 0

/-- `flags & GNTMAP_host_map`. -/
def isHost (flags : BitVec n) : Bool := flags.getLsbD 1

/-- `flags & GNTMAP_readonly`. -/
def isReadonly (flags : BitVec n) : Bool := flags.getLsbD 2

/-- `flags & GNTMAP_application_map`. -/
def isApplication (flags : BitVec n) : Bool := flags.getLsbD 3

/-- `flags & GNTMAP_contains_pte`. -/
def isContainsPte (flags : BitVec n) : Bool := flags.getLsbD 4

end Flags

/-- `flags &= ~GNTMAP_device_map`. -/
def clearDevice (flags : BitVec 16) : BitVec 16 := flags &&& ~~~1#16

/-- `flags &= ~GNTMAP_host_map`. -/
def clearHost (flags : BitVec 16) : BitVec 16 := flags &&& ~~~2#16

/-- `GTF_type_mask`, `GTF_permit_access`, `GTF_transitive`. -/
def gtfTypeMask : BitVec 16 := 3
def gtfPermitAccess : BitVec 16 := 1
def gtfTransitive : BitVec 16 := 3

/-- `GTF_readonly`, `GTF_reading`, `GTF_writing`, `GTF_sub_page`. -/
def gtfReadonly : BitVec 16 := 4
def gtfReading : BitVec 16 := 8
def gtfWriting : BitVec 16 := 16
def gtfSubPage : BitVec 16 := 256

/-- The bit numbers `_GTF_reading` and `_GTF_writing`. -/
def gtfReadingBit : Nat := 3
def gtfWritingBit : Nat := 4

/-- `gnttab_clear_flag`: clears one bit, given by its number. -/
def gnttabClearFlag (nr : Nat) (word : BitVec 16) : BitVec 16 := word &&& ~~~(1#16 <<< nr)

/-! ## Pins -/

/-- The counter of a kind of mapping in the pin word: `hstw`, `hstr`, `devw`, `devr`. -/
def pinLane (device readonly : Bool) : Fin 4 :=
  match device, readonly with
  | false, false => 0
  | false, true => 1
  | true, false => 2
  | true, true => 3

/-- `GNTPIN_*_inc`. -/
def pinInc (device readonly : Bool) : BitVec 32 := Lanes.inc (pinLane device readonly)

/-- `GNTPIN_hstw_mask|GNTPIN_devw_mask`. -/
def writeMask : BitVec 32 := Lanes.mask (pinLane false false) ||| Lanes.mask (pinLane true false)

/-- `GNTPIN_hstw_mask` and `GNTPIN_hstr_mask`. -/
def hstwMask : BitVec 32 := Lanes.mask (pinLane false false)
def hstrMask : BitVec 32 := Lanes.mask (pinLane false true)

/-- `act->pin += ...` for the halves in `flags`. -/
def addPin {n : Nat} (flags : BitVec n) (pin : BitVec 32) : BitVec 32 :=
  let pin := if isDevice flags then pin + pinInc true (isReadonly flags) else pin
  if isHost flags then pin + pinInc false (isReadonly flags) else pin

/-- `act->pin -= ...` for the halves in `flags`. -/
def subPin {n : Nat} (flags : BitVec n) (pin : BitVec 32) : BitVec 32 :=
  let pin := if isDevice flags then pin - pinInc true (isReadonly flags) else pin
  if isHost flags then pin - pinInc false (isReadonly flags) else pin

/-! ## State updates -/

namespace World

def setActive (w : World) (k : EntryKey) (act : ActiveGrantEntry) : World :=
  { w with active := Function.update w.active k act }

/-- Only the pin word of the entry. -/
def setPin (w : World) (k : EntryKey) (pin : BitVec 32) : World :=
  w.setActive k { w.active k with pin }

def setMapping (w : World) (k : Domid × Nat) (m : GrantMapping) : World :=
  { w with maptrack := Function.update w.maptrack k m }

def setHeader (w : World) (k : EntryKey) (hdr : Header) : World :=
  { w with shared := Function.update w.shared k { w.shared k with hdr } }

/-- The word `status` points to: the entry's own flags in version 1. -/
def statusWord (P : Platform) (w : World) (k : EntryKey) : BitVec 16 :=
  if P.gtVersion k.1 = .v1 then (w.shared k).hdr.flags else w.status k

def setStatusWord (P : Platform) (w : World) (k : EntryKey) (word : BitVec 16) : World :=
  if P.gtVersion k.1 = .v1 then w.setHeader k { (w.shared k).hdr with flags := word }
  else { w with status := Function.update w.status k word }

/-- `gnttab_clear_flag(nr, status)`. -/
def clearStatus (P : Platform) (w : World) (k : EntryKey) (nr : Nat) : World :=
  w.setStatusWord P k (gnttabClearFlag nr (w.statusWord P k))

/-- `get_page` and `put_page` on a frame. -/
def movePage (w : World) (frame : Frame) (n : Int) : World :=
  { w with pageRefs := Function.update w.pageRefs frame (w.pageRefs frame + n) }

/-- `get_page_type` and `put_page_type` on a frame. -/
def moveType (w : World) (frame : Frame) (n : Int) : World :=
  { w with typeRefs := Function.update w.typeRefs frame (w.typeRefs frame + n) }

end World

/-! ## Maptrack handles -/

/-- `MAPTRACK_PER_PAGE`. -/
def maptrackPerPage : Nat := 512

/-- `max_nr_maptrack_frames()`. -/
def Platform.maxNrMaptrackFrames (P : Platform) : Nat := P.maxNrGrantFrames * 8

/-- `__get_maptrack_handle`; `none` is `-1`. -/
def takeMaptrackHandle (ld : Domid) (w : World) : Option (Nat × World) :=
  let h := w.maptrackHead ld
  if h = w.maptrackLimit ld - 1 then none
  else some (h, { w with
    maptrackHead := Function.update w.maptrackHead ld (w.maptrack (ld, h)).ref })

/-- The new page of `get_maptrack_handle`, each entry linked to the next. -/
def growMaptrack (ld : Domid) (w : World) : World :=
  let limit := w.maptrackLimit ld
  { w with
    maptrack := fun k =>
      if k.1 = ld ∧ limit ≤ k.2 ∧ k.2 < limit + maptrackPerPage then ⟨k.2 + 1, 0, 0⟩
      else w.maptrack k
    maptrackLimit := Function.update w.maptrackLimit ld (limit + maptrackPerPage) }

/-- `get_maptrack_handle`; `alloc` is whether `alloc_xenheap_page` succeeds. -/
def getMaptrackHandle (P : Platform) (alloc : Bool) (ld : Domid) (w : World) :
    Option (Nat × World) :=
  match takeMaptrackHandle ld w with
  | some out => some out
  | none =>
      if P.maxNrMaptrackFrames ≤ w.maptrackLimit ld / maptrackPerPage then none
      else if alloc then takeMaptrackHandle ld (growMaptrack ld w)
      else none

def putMaptrackHandle (ld : Domid) (handle : Nat) (w : World) : World :=
  { w.setMapping (ld, handle)
      { w.maptrack (ld, handle) with ref := w.maptrackHead ld } with
    maptrackHead := Function.update w.maptrackHead ld handle }

/-! ## Setting the status bits -/

/-- Whether the header grants the access that is asked for: one of the `types`,
for the domain `domid`. -/
def Header.Grants (hdr : Header) (mask : BitVec 16) (types : List (BitVec 16)) (domid : Domid) :
    Prop :=
  hdr.flags &&& mask ∈ types ∧ hdr.domid = domid

instance (hdr : Header) (mask : BitVec 16) (types : List (BitVec 16)) (domid : Domid) :
    Decidable (hdr.Grants mask types domid) := by
  unfold Header.Grants
  infer_instance

/-- `GTF_type_mask`, with `GTF_sub_page` for a mapping. -/
def statusMask (mapflag : Bool) : BitVec 16 :=
  if mapflag then gtfTypeMask ||| gtfSubPage else gtfTypeMask

/-- The access bits `_set_status` adds. -/
def accessBits (readonly : Bool) : BitVec 16 :=
  if readonly then gtfReading else gtfReading ||| gtfWriting

/-- The loop of `_set_status_v1`, from the value `scombo` read last. `raced` is
what the guest stores before each further `cmpxchg`. Returns the result and the
header left in memory. -/
def setStatusV1 (domid : Domid) (readonly mapflag pinned : Bool) :
    List Header → Nat → Header → Gntst × Header
  | raced, retries, scombo =>
      if pinned = false ∧ ¬ scombo.Grants (statusMask mapflag) [gtfPermitAccess] domid then
        (.generalError, scombo)
      else if readonly = false ∧ scombo.flags &&& gtfReadonly ≠ 0 then (.generalError, scombo)
      else
        let new : Header := { scombo with flags := scombo.flags ||| accessBits readonly }
        match raced with
        | [] => (.okay, new)
        | seen :: raced =>
            if seen = scombo then (.okay, new)
            else if retries = 4 then (.generalError, seen)
            else setStatusV1 domid readonly mapflag pinned raced (retries + 1) seen

/-- `_set_status_v2`: the header as read first and as read again after the bits
were set. Returns the result and the status word. -/
def setStatusV2 (domid : Domid) (readonly mapflag pinned : Bool) (hdr again : Header)
    (status : BitVec 16) : Gntst × BitVec 16 :=
  let types := [gtfPermitAccess, gtfTransitive]
  if pinned = false ∧ ¬ hdr.Grants (statusMask mapflag) types domid then (.generalError, status)
  else if readonly = false ∧ hdr.flags &&& gtfReadonly ≠ 0 then (.generalError, status)
  else
    let status := status ||| accessBits readonly
    if pinned = false then
      if ¬ again.Grants (statusMask mapflag) types domid ∨
          (readonly = false ∧ again.flags &&& gtfReadonly ≠ 0) then
        -- the two bit numbers are or-ed, which names bit 7
        (.generalError, gnttabClearFlag (gtfReadingBit ||| gtfWritingBit) status)
      else (.okay, status)
    else if again.flags &&& gtfReadonly ≠ 0 then
      (.generalError, gnttabClearFlag gtfWritingBit status)
    else (.okay, status)

/-- `_set_status` on an entry. `raced` is what the guest stores meanwhile; in
version 2 only the first value is seen. -/
def setStatus (P : Platform) (raced : List Header) (k : EntryKey) (domid : Domid)
    (readonly mapflag : Bool) (w : World) : Gntst × World :=
  let pinned := decide ((w.active k).pin ≠ 0)
  let hdr := (w.shared k).hdr
  if P.gtVersion k.1 = .v1 then
    let out := setStatusV1 domid readonly mapflag pinned raced 0 hdr
    (out.1, w.setHeader k out.2)
  else
    let again := raced.headD hdr
    let out := setStatusV2 domid readonly mapflag pinned hdr again (w.status k)
    (out.1, { w.setHeader k again with status := Function.update w.status k out.2 })

end Grant
