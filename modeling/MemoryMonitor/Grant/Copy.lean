import MemoryMonitor.Grant.Table

/-!
# Grant copies (`__gnttab_copy`)

A copy acquires its source and its destination, each a grant or a frame of the
calling domain, moves the bytes and releases what it acquired, also when it
fails on the way. Acquiring a transitive grant acquires the grant it refers to
as well, on behalf of the domain in the middle; releasing one follows what the
first pin recorded.

The lock of the table is dropped while the referent is acquired. The referent
is never in the same table, so without interference the pin word is found as it
was (`acquireTransitive_pin`), and the retry of the source is not modelled. The
references on the two frames are held for the time of the copy only and are not
counted either.
-/

namespace Grant

open World

/-! ## `__acquire_grant_for_copy` -/

/-- Outcomes of the calls made for one side of a copy. -/
structure AcquireEnv where
  /-- What the granting guest stores in the header of the entry meanwhile. -/
  raced : List Header
  /-- The same for the entry a transitive grant refers to. -/
  racedReferent : List Header
  /-- `__get_paged_frame(gfn, readonly)` in a domain. -/
  pagedFrame : Domid → Frame → Bool → Except Gntst Frame
  /-- `get_page`, or `get_page_and_type` for the destination, succeeds. -/
  getPage : Bool

/-- What a grant gives access to, as found in the entry. -/
structure Granted where
  gfn : Frame
  isSubPage : Bool
  start : BitVec 16
  length : BitVec 16
  trans : EntryKey
  frame : Frame
  owner : Domid

/-- `frame`, `page_off`, `length` and `owning_domain`. -/
structure Acquired where
  frame : Frame
  pageOff : BitVec 15
  length : BitVec 16
  owner : Domid

/-- The entry of `k` is a transitive grant. -/
def World.IsTransitive (P : Platform) (w : World) (k : EntryKey) : Prop :=
  P.gtVersion k.1 ≠ .v1 ∧ (w.shared k).hdr.flags &&& gtfTypeMask = gtfTransitive

instance (P : Platform) (w : World) (k : EntryKey) : Decidable (w.IsTransitive P k) :=
  inferInstanceAs (Decidable (_ ∧ _))

/-- The grant a transitive grant refers to. -/
def World.referent (w : World) (k : EntryKey) : EntryKey :=
  ((w.shared k).transDomid, (w.shared k).transGref)

/-- What the entry grants; `onTransitive` acquires the referent. -/
def readGrant (P : Platform) (env : AcquireEnv)
    (onTransitive : EntryKey → World → Except Gntst Granted × World)
    (k : EntryKey) (ld : Domid) (readonly : Bool) (w : World) : Except Gntst Granted × World :=
  let sha := w.shared k
  let paged (gfn : Frame) (isSubPage : Bool) (start length : BitVec 16) : Except Gntst Granted :=
    match env.pagedFrame k.1 gfn readonly with
    | .error rc => .error rc
    | .ok frame => .ok ⟨gfn, isSubPage, start, length, (ld, 0), frame, k.1⟩
  if w.IsTransitive P k then onTransitive (w.referent k) w
  else if P.gtVersion k.1 = .v1 then (paged sha.frameV1 false 0 4096, w)
  else if sha.hdr.flags &&& gtfSubPage = 0 then (paged sha.frame false 0 4096, w)
  else (paged sha.frame true sha.pageOff sha.length, w)

/-- The active entry gets what was granted on its first pin, and the `gfn` always. -/
def fillEntry (ld : Domid) (g : Granted) (act : ActiveGrantEntry) : ActiveGrantEntry :=
  if act.pin = 0 then
    { act with
      gfn := g.gfn, domid := ld, isSubPage := g.isSubPage, start := g.start.setWidth 15,
      length := g.length, transDom := g.trans.1, transGref := g.trans.2, frame := g.frame }
  else { act with gfn := g.gfn }

/-- `act->pin += ...`, and what is read back. -/
def pinForCopy (k : EntryKey) (readonly : Bool) (owner : Domid) (w : World) :
    Except Gntst Acquired × World :=
  let act := w.active k
  (.ok ⟨act.frame, act.start, act.length, owner⟩, w.setPin k (act.pin + pinInc false readonly))

/-- The body of `__acquire_grant_for_copy`. -/
def acquireEntry (P : Platform) (env : AcquireEnv) (raced : List Header)
    (onTransitive : EntryKey → World → Except Gntst Granted × World)
    (k : EntryKey) (ld : Domid) (readonly : Bool) (w : World) : Except Gntst Acquired × World :=
  let act := w.active k
  if P.gtVersion k.1 = .unset then (.error .generalError, w)
  else if P.nrGrantEntries k.1 ≤ k.2 then (.error .badGntref, w)
  else if act.pin ≠ 0 ∧ (act.domid ≠ ld ∨ act.pin &&& Lanes.signs ≠ 0) then
    (.error .generalError, w)
  else if act.pin = 0 ∨ (readonly = false ∧ act.pin &&& writeMask = 0) then
    let out := setStatus P raced k ld readonly false w
    if out.1 ≠ .okay then (.error out.1, out.2)
    else
      match readGrant P env onTransitive k ld readonly out.2 with
      | (.error rc, w) => (.error rc, w)
      | (.ok g, w) => pinForCopy k readonly g.owner (w.setActive k (fillEntry ld g (w.active k)))
  else pinForCopy k readonly k.1 w

/-- `__acquire_grant_for_copy` with transitive grants not allowed. -/
def acquireReferent (P : Platform) (env : AcquireEnv) (k : EntryKey) (ld : Domid)
    (readonly : Bool) (w : World) : Except Gntst Acquired × World :=
  acquireEntry P env env.racedReferent (fun _ w => (.error .generalError, w)) k ld readonly w

/-- `__fixup_status_for_pin`, which masks with the bit numbers. -/
def fixupStatusForPin (P : Platform) (k : EntryKey) (w : World) : World :=
  let pin := (w.active k).pin
  let word := w.statusWord P k
  let word := if pin &&& hstwMask = 0 then
      word &&& ~~~(BitVec.ofNat 16 gtfWritingBit) else word
  let word := if pin &&& hstrMask = 0 then
      word &&& ~~~(BitVec.ofNat 16 gtfReadingBit) else word
  w.setStatusWord P k word

/-- The transitive case: the referent `t` of `k` is acquired for the domain of `k`. -/
def acquireTransitive (P : Platform) (env : AcquireEnv) (k : EntryKey) (readonly : Bool)
    (t : EntryKey) (w : World) : Except Gntst Granted × World :=
  if t.1 = k.1 then (.error .generalError, w)
  else if t.1 ∉ P.domains then (.error .generalError, w)
  else
    match acquireReferent P env t k.1 readonly w with
    | (.error rc, w) => (.error rc, fixupStatusForPin P k w)
    | (.ok a, w) => (.ok ⟨BitVec.allOnes 64, true, a.pageOff.setWidth 16, a.length, t, a.frame, t.1⟩, w)

def acquireGrantForCopy (P : Platform) (env : AcquireEnv) (k : EntryKey) (ld : Domid)
    (readonly : Bool) (w : World) : Except Gntst Acquired × World :=
  acquireEntry P env env.raced (acquireTransitive P env k readonly) k ld readonly w

/-! ## `__release_grant_for_copy` -/

/-- Where a release goes on: what the first pin recorded, in version 2. -/
def World.recorded (P : Platform) (w : World) (k : EntryKey) : EntryKey :=
  if P.gtVersion k.1 = .v1 then (k.1, 0x1234567)
  else ((w.active k).transDom, (w.active k).transGref)

/-- The release of one entry: the pin, and the status bits it no longer calls for. -/
def releaseEntry (P : Platform) (k : EntryKey) (readonly : Bool) (w : World) : World :=
  let pin := (w.active k).pin - pinInc false readonly
  let w := w.setPin k pin
  let w := if readonly = false ∧ pin &&& writeMask = 0 then w.clearStatus P k gtfWritingBit else w
  if pin = 0 then w.clearStatus P k gtfReadingBit else w

/-- `__release_grant_for_copy`. The recursive calls are tail calls and their
number is bounded by `fuel`; `none` is running out of it. -/
def releaseGrantForCopy (P : Platform) : Nat → EntryKey → Bool → World → Option World
  | 0, _, _, _ => none
  | fuel + 1, k, readonly, w =>
      let pin := (w.active k).pin - pinInc false readonly
      let trans := w.recorded P k
      let releasedWrite := readonly = false ∧ pin &&& writeMask = 0
      let w := releaseEntry P k readonly w
      if trans.1 ≠ k.1 ∧ (releasedWrite ∨ pin = 0) ∧ trans.1 ∈ P.domains then
        releaseGrantForCopy P fuel trans (!decide releasedWrite) w
      else some w

/-! ## `__gnttab_copy` -/

/-- `source` or `dest` of a request; `u` is the union of `ref` and `gmfn`. -/
structure CopyPtr where
  u : BitVec 64
  domid : Domid
  offset : BitVec 16

def CopyPtr.ref (p : CopyPtr) : Nat := (p.u.setWidth 32).toNat

structure GnttabCopy where
  source : CopyPtr
  dest : CopyPtr
  len : BitVec 16
  flags : BitVec 16

/-- `flags & GNTCOPY_source_gref` and `flags & GNTCOPY_dest_gref`. -/
def GnttabCopy.srcIsGref (op : GnttabCopy) : Bool := op.flags.getLsbD 0
def GnttabCopy.destIsGref (op : GnttabCopy) : Bool := op.flags.getLsbD 1

def domidSelf : Domid := 0x7FF0

/-- Outcomes of the calls a copy makes. -/
structure CopyEnv where
  /-- `xsm_grant_copy` permits. -/
  xsm : Bool
  source : AcquireEnv
  dest : AcquireEnv

/-- The bytes `memcpy` moves. -/
structure Transfer where
  srcFrame : Frame
  srcOffset : BitVec 16
  dstFrame : Frame
  dstOffset : BitVec 16
  len : BitVec 16

structure CopyOut where
  status : Gntst
  moved : Option Transfer

/-- One side of a copy, up to the reference on its frame. Returns the frame, and
whether a grant is held. -/
def acquireSide (P : Platform) (env : AcquireEnv) (current : Domid) (isGref : Bool) (d : Domid)
    (ptr : CopyPtr) (len : BitVec 16) (readonly : Bool) (w : World) :
    Except Gntst Frame × Bool × World :=
  let usable (frame : Frame) : Except Gntst Frame :=
    if P.mfnValid frame = false then .error .generalError
    else if env.getPage = false then .error .generalError
    else .ok frame
  if isGref then
    match acquireGrantForCopy P env (d, ptr.ref) current readonly w with
    | (.error rc, w) => (.error rc, false, w)
    | (.ok a, w) =>
        if ptr.offset.toNat < a.pageOff.toNat ∨ a.length.toNat < len.toNat then
          (.error .generalError, true, w)
        else (usable a.frame, true, w)
  else
    match env.pagedFrame d ptr.u readonly with
    | .error rc => (.error rc, false, w)
    | .ok frame => (usable frame, false, w)

/-- From the source on, up to `error_out`. The two flags are `have_s_grant` and
`have_d_grant`. -/
def copyBody (P : Platform) (env : CopyEnv) (current : Domid) (op : GnttabCopy) (sd dd : Domid)
    (w : World) : CopyOut × Bool × Bool × World :=
  match acquireSide P env.source current op.srcIsGref sd op.source op.len true w with
  | (.error rc, haveS, w) => (⟨rc, none⟩, haveS, false, w)
  | (.ok sFrame, haveS, w) =>
      match acquireSide P env.dest current op.destIsGref dd op.dest op.len false w with
      | (.error rc, haveD, w) => (⟨rc, none⟩, haveS, haveD, w)
      | (.ok dFrame, haveD, w) =>
          (⟨.okay, some ⟨sFrame, op.source.offset, dFrame, op.dest.offset, op.len⟩⟩, haveS, haveD, w)

/-- The domain a side names: `rcu_lock_current_domain` or `rcu_lock_domain_by_id`. -/
def copyDomain (P : Platform) (current d : Domid) : Option Domid :=
  if d = domidSelf then some current else if d ∈ P.domains then some d else none

/-- A release, if the grant is held. -/
def releaseHeld (P : Platform) (fuel : Nat) (held : Bool) (k : EntryKey) (readonly : Bool)
    (w : World) : Option World :=
  if held then releaseGrantForCopy P fuel k readonly w else some w

/-- `__gnttab_copy` by the domain `current`; `fuel` bounds each of the releases. -/
def gnttabCopy (P : Platform) (fuel : Nat) (env : CopyEnv) (current : Domid) (op : GnttabCopy)
    (w : World) : Option (CopyOut × World) :=
  if 4096 < op.source.offset.toNat + op.len.toNat ∨ 4096 < op.dest.offset.toNat + op.len.toNat then
    some (⟨.badCopyArg, none⟩, w)
  else if (op.source.domid ≠ domidSelf ∧ op.srcIsGref = false) ∨
      (op.dest.domid ≠ domidSelf ∧ op.destIsGref = false) then
    some (⟨.permissionDenied, none⟩, w)
  else
    match copyDomain P current op.source.domid, copyDomain P current op.dest.domid with
    | some sd, some dd =>
        if env.xsm = false then some (⟨.permissionDenied, none⟩, w)
        else
          let out := copyBody P env current op sd dd w
          (releaseHeld P fuel out.2.1 (sd, op.source.ref) true out.2.2.2).bind fun w =>
            (releaseHeld P fuel out.2.2.1 (dd, op.dest.ref) false w).map fun w => (out.1, w)
    | _, _ => some (⟨.badDomain, none⟩, w)

end Grant
