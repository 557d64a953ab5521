import MemoryMonitor.Grant.Table

/-!
# Mapping and unmapping (`__gnttab_map_grant_ref`, `__gnttab_unmap_common`)

A map request pins the granted entry, takes the page references, creates the
host mapping and records the mapping under a handle; a failure on the way is
undone. An unmap request runs in two halves: `unmapCommon` takes the mapping
down and unpins, and after the TLB flush at the end of the batch
`unmapCommonComplete` drops the references, frees the handle and clears the
status bits. `releaseMappings` takes down what a dying domain has mapped.

The outcomes of calls outside this file (access control, p2m lookups, page
ownership, page table updates, the IOMMU) are arguments.
-/

namespace Grant

open World

/-! ## `__gnttab_map_grant_ref` -/

structure MapGrantRef where
  hostAddr : BitVec 64
  flags : BitVec 32
  ref : Nat
  dom : Domid

/-- `op->status`, with `op->handle` and `op->dev_bus_addr` when they are set. -/
structure MapOut where
  status : Gntst
  mapped : Option (Nat × BitVec 64)

/-- What `page_get_owner_and_reference` finds on a frame that is not iomem. -/
inductive PageOwner where
  | granting | cow | other | none
  deriving DecidableEq

/-- Outcomes of the calls a map request makes. -/
structure MapEnv where
  /-- `xsm_grant_mapref` permits. -/
  xsm : Bool
  /-- `alloc_xenheap_page` succeeds. -/
  alloc : Bool
  /-- What the guest stores in the entry's header meanwhile. -/
  raced : List Header
  /-- `__get_paged_frame(gfn, readonly)`. -/
  pagedFrame : Frame → Bool → Except Gntst Frame
  owner : PageOwner
  /-- The checked `get_page_type` succeeds. -/
  getPageType : Bool
  iomemAccessPermitted : Bool
  createGrantHostMapping : Gntst
  /-- The unchecked `get_page` of a host and device mapping succeeds. -/
  getPageAgain : Bool
  /-- The unchecked `get_page_type` of a host and device mapping succeeds. -/
  getTypeAgain : Bool
  /-- `iommu_map_page` succeeds. -/
  iommuMapPage : Bool

/-- `gnttab_host_mapping_get_page_type`. -/
def hostMappingGetPageType (P : Platform) (readonly : Bool) (ld rd : Domid) : Bool :=
  !readonly && (decide (ld = rd) || !P.pagingModeExternal rd)

/-- Writable and read-only mappings of a frame by `ld`. -/
def mapcount (w : World) (ld : Domid) (mfn : Frame) : Nat × Nat :=
  let live (readonly : Bool) (h : Nat) : Bool :=
    let map := w.maptrack (ld, h)
    (isDevice map.flags || isHost map.flags) &&
      decide ((w.active (map.domid, map.ref)).frame = mfn) && isReadonly map.flags == readonly
  ((List.range (w.maptrackLimit ld)).countP (live false),
    (List.range (w.maptrackLimit ld)).countP (live true))

/-- What the locked section leaves: the pin words before and after, and the frame. -/
structure Pinned where
  oldPin : BitVec 32
  actPin : BitVec 32
  frame : Frame

/-- `act->pin += ...`, and the values read back before the unlock. -/
def mapAddPins (op : MapGrantRef) (w : World) : Pinned × World :=
  let k := (op.dom, op.ref)
  let act := w.active k
  let pin := addPin op.flags act.pin
  (⟨act.pin, pin, act.frame⟩, w.setPin k pin)

/-- The section under the granting domain's lock: check the entry and pin it. -/
def mapPin (P : Platform) (env : MapEnv) (ld : Domid) (op : MapGrantRef) (w : World) :
    Except Gntst Pinned × World :=
  let k := (op.dom, op.ref)
  let act := w.active k
  let readonly := isReadonly op.flags
  let pinned (out : Pinned × World) : Except Gntst Pinned × World := (.ok out.1, out.2)
  if P.gtVersion op.dom = .unset then (.error .generalError, w)
  else if P.nrGrantEntries op.dom ≤ op.ref then (.error .badGntref, w)
  else if act.pin ≠ 0 ∧ (act.domid ≠ ld ∨ act.pin &&& Lanes.signs ≠ 0 ∨ act.isSubPage) then
    (.error .generalError, w)
  else if act.pin = 0 ∨ (readonly = false ∧ act.pin &&& writeMask = 0) then
    let out := setStatus P env.raced k ld readonly true w
    let w := out.2
    if out.1 ≠ .okay then (.error out.1, w)
    else if act.pin = 0 then
      let sha := w.shared k
      let gfn := if P.gtVersion op.dom = .v1 then sha.frameV1 else sha.frame
      match env.pagedFrame gfn readonly with
      | .error rc => (.error rc, w)
      | .ok frame =>
          pinned (mapAddPins op (w.setActive k
            { act with gfn, domid := ld, frame, start := 0, length := 4096, isSubPage := false }))
    else pinned (mapAddPins op w)
  else pinned (mapAddPins op w)

/-- A frame of the granting domain, or a shared one: taking the references and
creating the host mapping. Returns the error, if any, and `nr_gets`. -/
def mapOwned (P : Platform) (env : MapEnv) (ld : Domid) (op : MapGrantRef) (frame : Frame)
    (w : World) : Option Gntst × Nat × World :=
  let readonly := isReadonly op.flags
  let w := w.movePage frame 1
  let typed := hostMappingGetPageType P readonly ld op.dom
  if typed ∧ env.getPageType = false then (some .generalError, 0, w.movePage frame (-1))
  else
    let w := if typed then w.moveType frame 1 else w
    if isHost op.flags then
      if env.createGrantHostMapping ≠ .okay then (some env.createGrantHostMapping, 1, w)
      else if isDevice op.flags then
        let w := if env.getPageAgain then w.movePage frame 1 else w
        let w := if readonly = false ∧ env.getTypeAgain then w.moveType frame 1 else w
        (none, 2, w)
      else (none, 1, w)
    else (none, 1, w)

/-- What follows the unlock: the error, if any, and `nr_gets`. -/
def mapRefs (P : Platform) (env : MapEnv) (ld : Domid) (op : MapGrantRef) (frame : Frame)
    (w : World) : Option Gntst × Nat × World :=
  if P.isIomemPage frame then
    -- the reference taken to look at the owner is dropped at once
    if P.pagingModeExternal ld then (some .generalError, 0, w)
    else if env.iomemAccessPermitted = false then (some .generalError, 0, w)
    else if env.createGrantHostMapping ≠ .okay then (some env.createGrantHostMapping, 0, w)
    else (none, 0, w)
  else
    match env.owner with
    | .none => (some .generalError, 0, w)
    | .other => (some .generalError, 0, (w.movePage frame 1).movePage frame (-1))
    | .granting | .cow => mapOwned P env ld op frame w

/-- Whether the IOMMU update after a map fails. -/
def mapIommuFails (P : Platform) (env : MapEnv) (ld : Domid) (pinned : Pinned) (w : World) : Bool :=
  if P.isHvmDomain ld = false ∧ P.needIommu ld then
    let n := mapcount w ld pinned.frame
    if pinned.actPin &&& writeMask ≠ 0 ∧ pinned.oldPin &&& writeMask = 0 then
      decide (n.1 = 0) && !env.iommuMapPage
    else if pinned.actPin ≠ 0 ∧ pinned.oldPin = 0 then
      decide (n.1 + n.2 = 0) && !env.iommuMapPage
    else false
  else false

/-- The references dropped at `undo_out`. -/
def undoRefs (P : Platform) (ld : Domid) (op : MapGrantRef) (frame : Frame) (nrGets : Nat)
    (w : World) : World :=
  let readonly := isReadonly op.flags
  let w := if 1 < nrGets then
      let w := if readonly = false then w.moveType frame (-1) else w
      w.movePage frame (-1)
    else w
  if 0 < nrGets then
    let w := if hostMappingGetPageType P readonly ld op.dom then w.moveType frame (-1) else w
    w.movePage frame (-1)
  else w

/-- The pins and the status bits taken back at `undo_out`. -/
def undoPin (P : Platform) (op : MapGrantRef) (w : World) : World :=
  let k := (op.dom, op.ref)
  let pin := subPin op.flags (w.active k).pin
  let w := w.setPin k pin
  let w := if isReadonly op.flags = false ∧ pin &&& writeMask = 0 then
      w.clearStatus P k gtfWritingBit
    else w
  if pin = 0 then w.clearStatus P k gtfReadingBit else w

def MapOut.fail (rc : Gntst) : MapOut := ⟨rc, none⟩

/-- `__gnttab_map_grant_ref`, once the handle has been obtained. -/
def mapWithHandle (P : Platform) (env : MapEnv) (ld : Domid) (op : MapGrantRef) (handle : Nat)
    (w : World) : MapOut × World :=
  match mapPin P env ld op w with
  | (.error rc, w) => (.fail rc, putMaptrackHandle ld handle w)
  | (.ok pinned, w) =>
      let undo (nrGets : Nat) (w : World) : World :=
        putMaptrackHandle ld handle (undoPin P op (undoRefs P ld op pinned.frame nrGets w))
      match mapRefs P env ld op pinned.frame w with
      | (some rc, nrGets, w) => (.fail rc, undo nrGets w)
      | (none, nrGets, w) =>
          if mapIommuFails P env ld pinned w then (.fail .generalError, undo nrGets w)
          else
            (⟨.okay, some (handle, pinned.frame <<< 12)⟩,
              w.setMapping (ld, handle) ⟨op.ref, op.flags.setWidth 16, op.dom⟩)

/-- `__gnttab_map_grant_ref` by the domain `ld`. -/
def mapGrantRef (P : Platform) (env : MapEnv) (ld : Domid) (op : MapGrantRef) (w : World) :
    MapOut × World :=
  if isDevice op.flags = false ∧ isHost op.flags = false then (.fail .badGntref, w)
  else if P.pagingModeExternal ld ∧
      (isDevice op.flags ∨ isApplication op.flags ∨ isContainsPte op.flags) then
    (.fail .generalError, w)
  else if op.dom ∉ P.domains then (.fail .badDomain, w)
  else if env.xsm = false then (.fail .permissionDenied, w)
  else
    match getMaptrackHandle P env.alloc ld w with
    | none => (.fail .noDeviceSpace, w)
    | some (handle, w) => mapWithHandle P env ld op handle w

/-! ## The two halves of an unmap -/

/-- The input part of `gnttab_unmap_common`. -/
structure UnmapOp where
  hostAddr : BitVec 64
  devBusAddr : BitVec 64
  newAddr : BitVec 64
  handle : Nat

/-- `__gnttab_unmap_grant_ref` fills in no new address. -/
def UnmapOp.unmapGrantRef (hostAddr devBusAddr : BitVec 64) (handle : Nat) : UnmapOp :=
  ⟨hostAddr, devBusAddr, 0, handle⟩

/-- `__gnttab_unmap_and_replace` fills in no bus address. -/
def UnmapOp.unmapAndReplace (hostAddr newAddr : BitVec 64) (handle : Nat) : UnmapOp :=
  ⟨hostAddr, 0, newAddr, handle⟩

/-- Outcomes of the calls an unmap request makes. -/
structure UnmapEnv where
  /-- `xsm_grant_unmapref` permits. -/
  xsm : Bool
  /-- `replace_grant_host_mapping(host_addr, frame, new_addr, flags)`. -/
  replaceGrantHostMapping : BitVec 64 → Frame → BitVec 64 → BitVec 16 → Gntst
  /-- The IOMMU update succeeds. -/
  iommu : Bool
  /-- What `status` holds where the source does not set it. -/
  stale : Gntst

/-- `struct gnttab_unmap_common` as the first half leaves it. `map` is the
maptrack entry of `op.handle`; `rd` is `NULL` where the first half gave up
before finding the granting domain. -/
structure UnmapCommon where
  op : UnmapOp
  status : Gntst
  flags : BitVec 16
  frame : Frame
  rd : Option Domid

/-- Taking one half of the mapping down: its flag and its pin. -/
def dropHalf (device : Bool) (ld : Domid) (handle : Nat) (flags : BitVec 16) (w : World) : World :=
  let map := w.maptrack (ld, handle)
  let k := (map.domid, map.ref)
  let cleared := if device then clearDevice map.flags else clearHost map.flags
  (w.setMapping (ld, handle) { map with flags := cleared }).setPin k
    ((w.active k).pin - pinInc device (isReadonly flags))

/-- Whether the IOMMU update of an unmap fails. -/
def unmapIommuFails (P : Platform) (env : UnmapEnv) (ld : Domid) (frame : Frame) (w : World) :
    Bool :=
  if P.isHvmDomain ld = false ∧ P.needIommu ld then
    let n := mapcount w ld frame
    if n.1 + n.2 = 0 then !env.iommu
    else if n.1 = 0 then !env.iommu
    else false
  else false

/-- From the bus address check on, under the granting domain's lock. -/
def unmapLocked (P : Platform) (env : UnmapEnv) (ld : Domid) (op : UnmapOp) (w : World) :
    UnmapCommon × World :=
  let map := w.maptrack (ld, op.handle)
  let flags := map.flags
  let act := w.active (map.domid, map.ref)
  let busFrame : Frame := op.devBusAddr >>> 12
  let common (status : Gntst) (frame : Frame) : UnmapCommon :=
    ⟨op, status, flags, frame, some map.domid⟩
  if busFrame ≠ 0 ∧ busFrame ≠ act.frame then (common .generalError busFrame, w)
  else
    let w := if busFrame ≠ 0 ∧ isDevice flags then dropHalf true ld op.handle flags w else w
    let rc := if op.hostAddr ≠ 0 ∧ isHost flags then
        env.replaceGrantHostMapping op.hostAddr act.frame op.newAddr flags
      else .okay
    if rc ≠ .okay then (common rc act.frame, w)
    else
      let w := if op.hostAddr ≠ 0 ∧ isHost flags then dropHalf false ld op.handle flags w else w
      if unmapIommuFails P env ld act.frame w then (common .generalError act.frame, w)
      else (common .okay act.frame, w)

/-- `__gnttab_unmap_common` by the domain `ld`. -/
def unmapCommon (P : Platform) (env : UnmapEnv) (ld : Domid) (op : UnmapOp) (w : World) :
    UnmapCommon × World :=
  let busFrame : Frame := op.devBusAddr >>> 12
  let map := w.maptrack (ld, op.handle)
  if w.maptrackLimit ld ≤ op.handle then (⟨op, .badHandle, 0, busFrame, none⟩, w)
  else if map.flags = 0 then (⟨op, .badHandle, 0, busFrame, none⟩, w)
  else if map.domid ∉ P.domains then (⟨op, env.stale, map.flags, busFrame, none⟩, w)
  else if env.xsm = false then
    (⟨op, .permissionDenied, map.flags, busFrame, some map.domid⟩, w)
  else unmapLocked P env ld op w

/-- The references the second half drops for the device mapping. -/
def completeDevice (P : Platform) (c : UnmapCommon) (act : ActiveGrantEntry) (w : World) : World :=
  if isDevice c.flags ∧ P.isIomemPage act.frame = false then
    let w := if isReadonly c.flags then w else w.moveType c.frame (-1)
    w.movePage c.frame (-1)
  else w

/-- The references the second half drops for the host mapping. -/
def completeHost (P : Platform) (ld rd : Domid) (c : UnmapCommon) (w : World) : World :=
  if P.isIomemPage c.frame = false then
    let w := if hostMappingGetPageType P (isReadonly c.flags) ld rd then w.moveType c.frame (-1)
      else w
    w.movePage c.frame (-1)
  else w

/-- Freeing the handle when neither half is left. -/
def completeHandle (ld : Domid) (c : UnmapCommon) (w : World) : World :=
  let map := w.maptrack (ld, c.op.handle)
  if isDevice map.flags = false ∧ isHost map.flags = false then
    putMaptrackHandle ld c.op.handle (w.setMapping (ld, c.op.handle) { map with flags := 0 })
  else w

/-- Clearing the status bits the pins no longer call for. -/
def completeStatus (P : Platform) (k : EntryKey) (c : UnmapCommon) (w : World) : World :=
  let pin := (w.active k).pin
  let w := if pin &&& writeMask = 0 ∧ isReadonly c.flags = false then
      w.clearStatus P k gtfWritingBit
    else w
  if pin = 0 then w.clearStatus P k gtfReadingBit else w

/-- `__gnttab_unmap_common_complete`; it reads the maptrack entry again. -/
def unmapCommonComplete (P : Platform) (ld : Domid) (c : UnmapCommon) (w : World) : World :=
  match c.rd with
  | none => w
  | some rd =>
      if P.gtVersion rd = .unset then w
      else
        let k := (rd, (w.maptrack (ld, c.op.handle)).ref)
        let act := w.active k
        if c.frame ≠ act.frame then w
        else
          let w := completeDevice P c act w
          if c.op.hostAddr ≠ 0 ∧ isHost c.flags then
            if c.status ≠ .okay then w
            else completeStatus P k c (completeHandle ld c (completeHost P ld rd c w))
          else completeStatus P k c (completeHandle ld c w)

/-! ## Batches -/

/-- `GNTTAB_UNMAP_BATCH_SIZE`. -/
def unmapBatchSize : Nat := 32

/-- The first halves of a batch, in order. -/
def unmapFirst (P : Platform) (ld : Domid) :
    List (UnmapEnv × UnmapOp) → World → List UnmapCommon × World
  | [], w => ([], w)
  | (env, op) :: rest, w =>
      let out := unmapCommon P env ld op w
      let more := unmapFirst P ld rest out.2
      (out.1 :: more.1, more.2)

/-- The second halves of a batch, in order. -/
def unmapComplete (P : Platform) (ld : Domid) (cs : List UnmapCommon) (w : World) : World :=
  cs.foldl (fun w c => unmapCommonComplete P ld c w) w

/-- One batch of `gnttab_unmap_grant_ref` or `gnttab_unmap_and_replace`: the
requests up to the end of the batch, or up to a fault in the guest's memory. -/
def unmapBatch (P : Platform) (ld : Domid) (ops : List (UnmapEnv × UnmapOp)) (w : World) : World :=
  let out := unmapFirst P ld ops w
  unmapComplete P ld out.1 out.2

/-! ## `gnttab_release_mappings` -/

/-- The references a release drops for the mapping `map` of `d`. -/
def releaseRefs (P : Platform) (d : Domid) (map : GrantMapping) (frame : Frame) (w : World) :
    World :=
  let readonly := isReadonly map.flags
  let w := if isDevice map.flags ∧ P.isIomemPage frame = false then
      let w := if readonly then w else w.moveType frame (-1)
      w.movePage frame (-1)
    else w
  -- for a PV domain the host mappings go with its page tables
  if isHost map.flags ∧ P.pagingModeExternal d ∧ P.isIomemPage frame = false then
    let w := if hostMappingGetPageType P readonly d map.domid then w.moveType frame (-1) else w
    w.movePage frame (-1)
  else w

/-- The body of the loop of `gnttab_release_mappings`. -/
def releaseHandle (P : Platform) (d : Domid) (w : World) (handle : Nat) : World :=
  let map := w.maptrack (d, handle)
  if isDevice map.flags = false ∧ isHost map.flags = false then w
  else if map.domid ∉ P.domains then w.setMapping (d, handle) { map with flags := 0 }
  else
    let k := (map.domid, map.ref)
    let act := w.active k
    let pin := subPin map.flags act.pin
    let w := releaseRefs P d map act.frame (w.setPin k pin)
    let w := if isReadonly map.flags = false ∧ pin &&& writeMask = 0 then
        w.clearStatus P k gtfWritingBit
      else w
    let w := if pin = 0 then w.clearStatus P k gtfReadingBit else w
    w.setMapping (d, handle) { map with flags := 0 }

def releaseMappings (P : Platform) (d : Domid) (w : World) : World :=
  (List.range (w.maptrackLimit d)).foldl (releaseHandle P d) w

end Grant
