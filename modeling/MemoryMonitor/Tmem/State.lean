import Mathlib
import MemoryMonitor.Lib.SafeWalk
import MemoryMonitor.Tmem.Pages

/-!
# Transcendent memory

The pools, objects and pages of `xen/common/tmem.c`. A client puts a page under a pool, an object and an
index, and may get it back. A page descriptor (`pgp_t`) is in the radix tree of its object, and, if its pool is
ephemeral, on two lists from which `tmem_evict` takes its victims. Its data is a page, or compressed data,
or a content descriptor (`pcd_t`) that is shared by all the pages with this content; which of them it is
follows from `size` and `firstbyte`.

Descriptors, content descriptors and pages are named by numbers, and a number is not used twice. Locks
are those of the objects. Statistics, the sizes of data that is no page, and live migration are left out.
-/

namespace Tmem

/-- What is chosen before the first call: the options of the command line, what the clients ask for with
`TMEMC_SET_COMPRESS`, the pools, and the compression that is used. -/
structure Settings where
  compress : Bool
  dedup : Bool
  tze : Bool
  setCompress : Nat → Bool
  client : Nat → Nat
  persistent : Nat → Bool
  shared : Nat → Bool
  frozen : Nat → Bool
  lzoCompress : Page → List UInt8
  lzoDecompress : List UInt8 → Page

namespace Settings

/-- `tmh_tze_enabled`, after `init_tmem`. -/
def tzeEnabled (P : Settings) : Bool := P.tze && !(P.dedup && P.compress)

/-- `client->compress`, which cannot be set if `tmh_dedup_enabled`. -/
def clientCompress (P : Settings) (c : Nat) : Bool := if P.dedup then P.compress else P.setCompress c

/-- Compression that can be undone. -/
def Invertible (P : Settings) : Prop := ∀ p, P.lzoDecompress (P.lzoCompress p) = p

end Settings

/-- `tmem_subpage_maxsize`. -/
def subpageMaxsize : Nat := pageSize - 2 * 16

/-- `PCD_TZE_MAX_SIZE`. -/
def tzeMaxSize : Nat := pageSize - pageSize / 64

/-- An object of a pool. -/
structure Obj where
  pool : Nat
  oid : Nat × Nat × Nat
  deriving DecidableEq

/-- What a page is put under. -/
structure Key where
  obj : Obj
  index : Nat
  deriving DecidableEq

/-- What a data pointer points to: nothing, a page, some memory, or a content descriptor. -/
inductive Data where
  | null
  | pfp (page : Nat)
  | buf (bytes : List UInt8)
  | pcd (content : Nat)
  deriving DecidableEq

/-- The size of data that is not there. -/
def noSize : Nat := 2 ^ 32 - 1

/-- `pgp_t`; `NOT_SHAREABLE` is `none`. -/
structure Pgp where
  key : Key
  size : Nat
  firstbyte : Option Nat
  evictionAttempted : Bool
  data : Data
  deriving DecidableEq

/-- `pcd_t`. -/
structure Pcd where
  firstbyte : Nat
  size : Nat
  data : Data
  refCount : Int
  pgpList : List Nat
  deriving DecidableEq

structure State where
  objs : Obj → Option Int
  locked : Obj → Bool
  tree : Key → Option Nat
  pgps : Nat → Option Pgp
  pcds : Nat → Option Pcd
  pages : Nat → Option Page
  nextPgp : Nat
  nextPcd : Nat
  nextPage : Nat
  eph : List Nat
  clientEph : Nat → List Nat
  globalEphCount : Int
  ephCount : Nat → Int
  poolCount : Nat → Int
  pageCount : Int
  compressedPages : Nat → Int
  compressedSum : Nat → Int

/-- The descriptors that pointers point to. -/
def State.pgp (s : State) (i : Nat) : Pgp := (s.pgps i).getD ⟨⟨⟨0, 0, 0, 0⟩, 0⟩, noSize, none, false, .null⟩
def State.pcd (s : State) (q : Nat) : Pcd := (s.pcds q).getD ⟨0, 0, .null, 0, []⟩

/-- The answers that a put gets: memory for an object, a descriptor, nodes of the radix tree, compressed
data, a content descriptor and a shortened page; a page, with what is in it; whether there are buffers for the
compression; and where the walk through the tree of contents ends. -/
structure Answers where
  object : Bool
  descriptor : Bool
  nodes : Bool
  buffers : Bool
  cdata : Bool
  content : Bool
  tze : Bool
  page : Option Page
  found : Option Nat

/-- What a put gives: whether there is a length, the client's frame if it is valid, and what
`tmh_copy_from_client` makes of a page. -/
structure Source where
  long : Bool
  frame : Option Page
  copy : Page → Option Page

/-- A whole page. -/
def Source.whole (frame : Option Page) : Source := ⟨true, frame, fun _ => frame⟩

/-- Where a get copies to: whether the frame is valid, and what `tmh_copy_to_client` makes of it. -/
structure Sink where
  valid : Bool
  copy : Page → Page

def Sink.whole (valid : Bool) : Sink := ⟨valid, id⟩

inductive Result where
  | done
  | missed
  | hit (frame : Option Page)
  | empty
  | fault
  | nomem
  | nospc
  | frozen
  | spins
  deriving DecidableEq

namespace State

/-! ## Pages and contents -/

/-- `tmem_page_alloc`. -/
def pageAlloc (s : State) (p : Page) : State :=
  { s with
    pages := Function.update s.pages s.nextPage (some p)
    nextPage := s.nextPage + 1
    pageCount := s.pageCount + 1 }

/-- `tmem_page_free`. -/
def pageFree (s : State) (d : Data) : State :=
  match d with
  | .pfp f => { s with pages := Function.update s.pages f none, pageCount := s.pageCount - 1 }
  | _ => s

/-- A descriptor's data pointer and size are set. -/
def setData (s : State) (i : Nat) (d : Data) (size : Nat) : State :=
  { s with pgps := Function.update s.pgps i (some { s.pgp i with data := d, size := size }) }

/-- The descriptor has no data any more. -/
def clear (s : State) (i : Nat) : State :=
  { s with pgps := Function.update s.pgps i (some { s.pgp i with data := .null, size := noSize, firstbyte := none }) }

/-- The descriptor and the content are no longer associated. -/
def unlink (s : State) (i q : Nat) : State :=
  { s.clear i with
    pcds := Function.update s.pcds q (some { s.pcd q with
      refCount := (s.pcd q).refCount - 1
      pgpList := (s.pcd q).pgpList.erase i }) }

/-- They are associated. -/
def link (s : State) (i q : Nat) : State :=
  { s with
    pcds := Function.update s.pcds q (some { s.pcd q with
      refCount := (s.pcd q).refCount + 1
      pgpList := i :: (s.pcd q).pgpList })
    pgps := Function.update s.pgps i (some { s.pgp i with
      firstbyte := some (s.pcd q).firstbyte
      evictionAttempted := false
      data := .pcd q }) }

/-- A content descriptor is put into its tree, or taken out. -/
def newPcd (s : State) (firstbyte size : Nat) (d : Data) : State :=
  { s with
    pcds := Function.update s.pcds s.nextPcd (some ⟨firstbyte, size, d, 0, []⟩)
    nextPcd := s.nextPcd + 1 }

def dropPcd (s : State) (q : Nat) : State := { s with pcds := Function.update s.pcds q none }

/-- `pcd_disassociate`. -/
def pcdDisassociate (s : State) (i : Nat) : State :=
  match (s.pgp i).data with
  | .pcd q =>
      let r := s.unlink i q
      if (r.pcd q).refCount ≠ 0 then r
      else if (s.pgp i).size ≠ 0 ∧ (s.pcd q).size < pageSize then r.dropPcd q
      else if (s.pcd q).size ≠ pageSize then r.dropPcd q
      else (r.dropPcd q).pageFree (s.pcd q).data
  | _ => s

/-- The page a descriptor points to. -/
def pageOf (s : State) (d : Data) : Option Page :=
  match d with
  | .pfp f => s.pages f
  | _ => none

variable (P : Settings)

/-- The size of a page that is to be associated. -/
def pfpSize (p : Page) : Nat :=
  if P.tzeEnabled then if tzeMaxSize < p.tzePfpScan then pageSize else p.tzePfpScan else pageSize

/-- The comparison of a new entry with one of the tree finds no difference. -/
def sameContent (s : State) (i : Nat) (cdata : Option (List UInt8)) (c : Pcd) : Bool :=
  match cdata with
  | some b => c.size < pageSize && b.length = c.size && c.data = .buf b
  | none =>
      !decide (c.size < pageSize) &&
        match s.pageOf (s.pgp i).data with
        | some p => (!P.tzeEnabled || pfpSize P p = pageSize) && s.pageOf c.data = some p
        | none => false

/-- The walk through the tree for a first byte. What it does not find, it may still have. -/
def search (s : State) (i firstbyte : Nat) (cdata : Option (List UInt8)) (found : Option Nat) : Option Nat :=
  found.filter fun q =>
    match s.pcds q with
    | some c => c.firstbyte = firstbyte && s.sameContent P i cdata c
    | none => false

/-- The first byte of a new entry. -/
def entryByte (s : State) (i : Nat) (cdata : Option (List UInt8)) : Nat :=
  match cdata with
  | some b => (b.head?.getD 0).toNat
  | none => ((s.pageOf (s.pgp i).data).map Page.firstByte).getD 0

/-- `pcd_associate`; `false` is `-ENOMEM`. -/
def pcdAssociate (s : State) (i : Nat) (cdata : Option (List UInt8)) (a : Answers) : State × Bool :=
  if !P.dedup then (s, true)
  else
    let firstbyte := s.entryByte i cdata
    match s.search P i firstbyte cdata a.found with
    | some q =>
        -- a compressed entry has no page
        ((if cdata.isNone then s.pageFree (s.pgp i).data else s).link i q, true)
    | none =>
        if !a.content then (s, false)
        else
          match cdata with
          | some b =>
              if a.cdata then ((s.newPcd firstbyte b.length (.buf b)).link i s.nextPcd, true) else (s, false)
          | none =>
              match s.pageOf (s.pgp i).data with
              | none => (s, false)
              | some p =>
                  if pfpSize P p = 0 then ((s.newPcd firstbyte 0 .null).link i s.nextPcd, true)
                  else if pfpSize P p < pageSize ∧ a.tze then
                    (((s.newPcd firstbyte (pfpSize P p) (.buf (p.head (pfpSize P p)))).pageFree
                      (s.pgp i).data).link i s.nextPcd, true)
                  else ((s.newPcd firstbyte pageSize (s.pgp i).data).link i s.nextPcd, true)

/-- The client of a descriptor. -/
def clientOf (s : State) (i : Nat) : Nat := P.client (s.pgp i).key.obj.pool

/-- One compressed page of a client more, or less. -/
def compressed (s : State) (c : Nat) (pages size : Int) : State :=
  { s with
    compressedPages := Function.update s.compressedPages c (s.compressedPages c + pages)
    compressedSum := Function.update s.compressedSum c (s.compressedSum c + size) }

/-- The memory of a descriptor's data is freed. -/
def releaseData (s : State) (i : Nat) : State :=
  if P.dedup ∧ (s.pgp i).firstbyte.isSome then s.pcdDisassociate i
  else if (s.pgp i).size ≠ 0 then s
  else s.pageFree (s.pgp i).data

/-- `pgp_free_data`. -/
def pgpFreeData (s : State) (i : Nat) : State :=
  let g := s.pgp i
  if g.data = .null then s
  else if g.size ≠ 0 then ((s.releaseData P i).compressed (s.clientOf P i) (-1) (-g.size)).clear i
  else (s.releaseData P i).clear i

/-! ## Descriptors and objects -/

/-- `pgp_alloc`. -/
def pgpAlloc (s : State) (k : Key) : State :=
  { s with
    pgps := Function.update s.pgps s.nextPgp (some ⟨k, noSize, none, false, .null⟩)
    nextPgp := s.nextPgp + 1
    poolCount := Function.update s.poolCount k.obj.pool (s.poolCount k.obj.pool + 1) }

/-- `pgp_count` of an object. -/
def countIn (s : State) (o : Obj) (n : Int) : State :=
  { s with objs := Function.update s.objs o ((s.objs o).map (· + n)) }

/-- `pgp_add_to_obj`, if there is memory. -/
def pgpAddToObj (s : State) (k : Key) (i : Nat) : State :=
  { s.countIn k.obj 1 with tree := Function.update s.tree k (some i) }

/-- `pgp_delete_from_obj`, for a descriptor that is there. -/
def pgpDeleteFromObj (s : State) (k : Key) : State :=
  { s.countIn k.obj (-1) with tree := Function.update s.tree k none }

/-- `pgp_delist`. -/
def pgpDelist (s : State) (i : Nat) : State :=
  let c := s.clientOf P i
  if P.persistent (s.pgp i).key.obj.pool then s
  else
    { s with
      ephCount := Function.update s.ephCount c (if i ∈ s.clientEph c then s.ephCount c - 1 else s.ephCount c)
      clientEph := Function.update s.clientEph c ((s.clientEph c).erase i)
      globalEphCount := if i ∈ s.eph then s.globalEphCount - 1 else s.globalEphCount
      eph := s.eph.erase i }

/-- An ephemeral page is put at the end of its lists. -/
def enlist (s : State) (i : Nat) : State :=
  let c := s.clientOf P i
  { s with
    eph := s.eph ++ [i]
    globalEphCount := s.globalEphCount + 1
    clientEph := Function.update s.clientEph c (s.clientEph c ++ [i])
    ephCount := Function.update s.ephCount c (s.ephCount c + 1) }

/-- It is moved there. -/
def moveToTail (s : State) (i : Nat) : State :=
  let c := s.clientOf P i
  { s with
    eph := s.eph.erase i ++ [i]
    clientEph := Function.update s.clientEph c ((s.clientEph c).erase i ++ [i]) }

/-- `pgp_free`. -/
def pgpFree (s : State) (i : Nat) : State :=
  let pool := (s.pgp i).key.obj.pool
  let r := s.pgpFreeData P i
  { r with
    pgps := Function.update r.pgps i none
    poolCount := Function.update r.poolCount pool (r.poolCount pool - 1) }

/-- `pgp_delete`. -/
def pgpDelete (s : State) (i : Nat) : State := (s.pgpDelist P i).pgpFree P i

/-- `pgp_destroy`, as `radix_tree_destroy` calls it. -/
def pgpDestroy (s : State) (i : Nat) : State :=
  ((s.pgpDelist P i).pgpDeleteFromObj (s.pgp i).key).pgpFree P i

def lock (s : State) (o : Obj) : State := { s with locked := Function.update s.locked o true }
def unlock (s : State) (o : Obj) : State := { s with locked := Function.update s.locked o false }

/-- `obj_new`, with the lock taken. -/
def objNew (s : State) (o : Obj) : State := { s with objs := Function.update s.objs o (some 0) } |>.lock o

/-- `obj_free`; the lock goes with the object. -/
def objFree (s : State) (o : Obj) : State := { s with objs := Function.update s.objs o none } |>.unlock o

/-- An object is freed if it has no pages, and unlocked otherwise. -/
def objRelease (s : State) (o : Obj) : State := if s.objs o = some 0 then s.objFree o else s.unlock o

/-- The descriptors in the radix tree of an object. -/
def inTree (s : State) (o : Obj) : List Nat :=
  (List.range s.nextPgp).filter fun i =>
    decide ((s.pgp i).key.obj = o) && decide (s.tree (s.pgp i).key = some i)

/-! ## Operations -/

/-- The results of `do_tmem_put_compress`. -/
inductive Compressed where
  | stored
  | poor
  | nomem
  | fault
  deriving DecidableEq

/-- Compressed data is set, and counted. -/
def setCompressed (s : State) (i : Nat) (d : Data) (size : Nat) : State :=
  (s.setData i d size).compressed (s.clientOf P i) 1 size

/-- `do_tmem_put_compress`. -/
def doTmemPutCompress (s : State) (i : Nat) (src : Source) (a : Answers) : State × Compressed :=
  let s := if (s.pgp i).data ≠ .null then s.pgpFreeData P i else s
  if !a.buffers then (s, .poor)
  else
    match src.frame with
    | none => (s, .fault)
    | some p =>
        let b := P.lzoCompress p
        if b.length = 0 ∨ subpageMaxsize ≤ b.length then (s, .poor)
        else if P.dedup ∧ ¬ P.persistent (s.pgp i).key.obj.pool then
          let r := s.pcdAssociate P i (some b) a
          if r.2 then (r.1.setCompressed P i (r.1.pgp i).data b.length, .stored) else (r.1, .nomem)
        else if a.cdata then (s.setCompressed P i (.buf b) b.length, .stored)
        else (s, .nomem)

/-- How it goes with a page that is not compressed. -/
inductive Copied where
  | ok
  | noPage
  | fault
  | noContent
  deriving DecidableEq

/-- `copy_uncompressed` in `do_tmem_put` and `do_tmem_dup_put`: a page is allocated for a descriptor without
data, the client's data is copied to it, and it is associated with its content. -/
def copyUncompressed (s : State) (i : Nat) (src : Source) (a : Answers) : State × Copied :=
  match a.page with
  | none => (s, .noPage)
  | some junk =>
      match src.copy junk with
      | none => ((s.pageAlloc junk).setData i (.pfp s.nextPage) 0, .fault)
      | some p =>
          let s := (s.pageAlloc p).setData i (.pfp s.nextPage) 0
          if P.dedup ∧ ¬ P.persistent (s.pgp i).key.obj.pool then
            let r := s.pcdAssociate P i none a
            (r.1, if r.2 then .ok else .noContent)
          else (s, .ok)

/-- The compression is tried first, if the client wants it. -/
def tryCompress (s : State) (i : Nat) (wanted : Bool) (src : Source) (a : Answers) : State × Compressed :=
  if wanted then s.doTmemPutCompress P i src a else (s, .poor)

/-- The old data is flushed, as it could not be replaced. -/
def failedDup (s : State) (k : Key) (i : Nat) : State :=
  ((s.pgpDeleteFromObj k).pgpDelete P i).objRelease k.obj

/-- `do_tmem_dup_put`, for an object that is locked. -/
def doTmemDupPut (s : State) (k : Key) (i : Nat) (src : Source) (a : Answers) : State × Result :=
  let wanted := src.long && P.clientCompress (s.clientOf P i) && decide ((s.pgp i).size ≠ 0)
  let r := s.tryCompress P i wanted src a
  match r.2 with
  | .stored => (r.1.unlock k.obj, .done)
  | .nomem => (r.1.failedDup P k i, .nospc)
  | .fault => (r.1.failedDup P k i, .fault)
  | .poor =>
      let c := (if (r.1.pgp i).data ≠ .null then r.1.pgpFreeData P i else r.1).copyUncompressed P i src a
      match c.2 with
      | .ok => (c.1.unlock k.obj, .done)
      | .fault => (c.1.failedDup P k i, .fault)
      | .noPage | .noContent => (c.1.failedDup P k i, .nospc)

/-- An object is unlocked, or freed if it was new. -/
def dropObj (s : State) (o : Obj) (new : Bool) : State := if new then s.objFree o else s.unlock o

/-- `delete_and_free`. -/
def deleteAndFree (s : State) (k : Key) (i : Nat) (new : Bool) : State :=
  ((s.pgpDeleteFromObj k).pgpDelete P i).dropObj k.obj new

/-- `insert_page`. -/
def insertPage (s : State) (k : Key) (i : Nat) : State :=
  (if P.persistent k.obj.pool then s else s.enlist P i).unlock k.obj

/-- What `do_tmem_put` does with a descriptor that is in the radix tree. -/
def fillNew (s : State) (k : Key) (i : Nat) (new : Bool) (src : Source) (a : Answers) : State × Result :=
  let r := s.tryCompress P i (src.long && P.clientCompress (P.client k.obj.pool)) src a
  match r.2 with
  | .stored => (r.1.insertPage P k i, .done)
  | .nomem => (r.1.deleteAndFree P k i new, .nomem)
  | .fault => (r.1.deleteAndFree P k i new, .fault)
  | .poor =>
      let c := r.1.copyUncompressed P i src a
      match c.2 with
      | .ok => (c.1.insertPage P k i, .done)
      | .noPage => (c.1.deleteAndFree P k i new, .nomem)
      | .fault => (c.1.deleteAndFree P k i new, .fault)
      -- `ret` is what the copy has returned
      | .noContent => (c.1.deleteAndFree P k i new, .done)

/-- The rest of `do_tmem_put`, for an object that is locked and has no such page. -/
def putNew (s : State) (k : Key) (new : Bool) (src : Source) (a : Answers) : State × Result :=
  if !a.descriptor then (s.dropObj k.obj new, .nomem)
  else if !a.nodes then (((s.pgpAlloc k).pgpDelete P s.nextPgp).dropObj k.obj new, .nomem)
  else (((s.pgpAlloc k).pgpAddToObj k s.nextPgp).setData s.nextPgp .null 0).fillNew P k s.nextPgp new src a

/-- `do_tmem_put`. `obj_find` waits for the lock of an object. -/
def doTmemPut (s : State) (k : Key) (src : Source) (a : Answers) : State × Result :=
  match s.objs k.obj with
  | some _ =>
      if s.locked k.obj then (s, .spins)
      else
        match s.tree k with
        | some i => (s.lock k.obj).doTmemDupPut P k i src a
        | none =>
            if P.frozen (P.client k.obj.pool) then ((s.lock k.obj).unlock k.obj, .frozen)
            else (s.lock k.obj).putNew P k false src a
  | none =>
      if P.frozen (P.client k.obj.pool) then (s, .frozen)
      else if a.object then (s.objNew k.obj).putNew P k true src a
      else (s, .nomem)

/-- `pcd_copy_to_client`. -/
def pcdCopyToClient (s : State) (i : Nat) : Option Page :=
  match (s.pgp i).data with
  | .pcd q =>
      let c := s.pcd q
      if (s.pgp i).size < pageSize ∧ (s.pgp i).size ≠ 0 ∧ c.size < pageSize ∧ c.size ≠ 0 then
        match c.data with
        | .buf b => some (P.lzoDecompress b)
        | _ => none
      else if P.tzeEnabled ∧ c.size < pageSize then
        match c.data with
        | .buf b => some (.ofTze b)
        | .null => some (.ofTze [])
        | _ => none
      else s.pageOf c.data
  | _ => none

/-- The client's frame after a get has copied to it. -/
def copyToClient (s : State) (i : Nat) (sink : Sink) : Option Page :=
  if P.dedup ∧ ¬ P.persistent (s.pgp i).key.obj.pool ∧ (s.pgp i).firstbyte.isSome then s.pcdCopyToClient P i
  else if (s.pgp i).size ≠ 0 then
    match (s.pgp i).data with
    | .buf b => some (P.lzoDecompress b)
    | _ => none
  else (s.pageOf (s.pgp i).data).map sink.copy

/-- What `do_tmem_get` does with a descriptor. If the frame is bad, the object stays locked. -/
def getFound (s : State) (k : Key) (i : Nat) (sink : Sink) : State × Result :=
  if P.persistent k.obj.pool then
    if sink.valid then (s.unlock k.obj, .hit (s.copyToClient P i sink)) else (s, .fault)
  else if P.shared k.obj.pool then
    if sink.valid then ((s.moveToTail P i).unlock k.obj, .hit (s.copyToClient P i sink)) else (s, .fault)
  else
    let r := s.pgpDeleteFromObj k
    if sink.valid then ((r.pgpDelete P i).objRelease k.obj, .hit (r.copyToClient P i sink)) else (r, .fault)

/-- `do_tmem_get`. -/
def doTmemGet (s : State) (k : Key) (sink : Sink) : State × Result :=
  if s.poolCount k.obj.pool = 0 then (s, .empty)
  else
    match s.objs k.obj with
    | none => (s, .missed)
    | some _ =>
        if s.locked k.obj then (s, .spins)
        else
          match s.tree k with
          | none => ((s.lock k.obj).unlock k.obj, .missed)
          | some i => (s.lock k.obj).getFound P k i sink

/-- What a flush returns. -/
def flushed (pool : Nat) : Result := if P.frozen (P.client pool) then .frozen else .done

/-- `do_tmem_flush_page`. -/
def doTmemFlushPage (s : State) (k : Key) : State × Result :=
  match s.objs k.obj with
  | none => (s, flushed P k.obj.pool)
  | some _ =>
      if s.locked k.obj then (s, .spins)
      else
        match s.tree k with
        | none => ((s.lock k.obj).unlock k.obj, flushed P k.obj.pool)
        | some i => ((s.lock k.obj).failedDup P k i, flushed P k.obj.pool)

/-- `do_tmem_flush_object`. -/
def doTmemFlushObject (s : State) (o : Obj) : State × Result :=
  match s.objs o with
  | none => (s, flushed P o.pool)
  | some _ =>
      if s.locked o then (s, .spins)
      else ((((s.inTree o).foldl (pgpDestroy P) (s.lock o))).objFree o, flushed P o.pool)

/-! ## Eviction -/

/-- An eviction has been tried. -/
def attempted (s : State) (i : Nat) : State :=
  { s with pgps := Function.update s.pgps i (some { s.pgp i with evictionAttempted := true }) }

/-- `tmem_try_to_evict_pgp`; the locks of pools and of contents are free. -/
def tryToEvictPgp (s : State) (i : Nat) : State × Bool :=
  let g := s.pgp i
  if s.locked g.key.obj then (s, false)
  else if P.dedup then
    match g.firstbyte, g.data with
    | some _, .pcd q =>
        if 1 < (s.pcd q).refCount ∧ g.evictionAttempted = false then ((s.attempted i).moveToTail P i, false)
        else (s.lock g.key.obj, true)
    | _, _ => (s, false)
  else (s.lock g.key.obj, true)

/-- The walk through a list until a page can be evicted. A page that is moved is met twice, so a walk has at most
twice as many steps as there are pages. -/
def evictWalk (items : State → List Nat) : Nat → Option Nat → State → State × Option Nat
  | 0, _, s => (s, none)
  | _ + 1, none, s => (s, none)
  | n + 1, some i, s =>
      let r := s.tryToEvictPgp P i
      if r.2 then (r.1, some i) else evictWalk items n (SafeWalk.next (items s) i) r.1

/-- The page is evicted. -/
def evictFound (s : State) (i : Nat) : State :=
  let r := s.pgpDeleteFromObj (s.pgp i).key
  let r := if P.dedup ∧ (r.pgp i).firstbyte.isSome then r.pcdDisassociate i else r
  (r.pgpDelete P i).objRelease (s.pgp i).key.obj

/-- The list that `tmem_evict` goes through: that of the current client, if it is above its quota. -/
def evictList (overQuota : Option Nat) (s : State) : List Nat :=
  match overQuota with
  | some c => if (s.clientEph c).isEmpty then s.eph else s.clientEph c
  | none => s.eph

/-- The page that `tmem_evict` finds. -/
def victim (s : State) (overQuota : Option Nat) : State × Option Nat :=
  s.evictWalk P (evictList overQuota) (2 * (s.evictList overQuota).length) (s.evictList overQuota).head?

end State

/-! ## Runs -/

inductive Step where
  | put (k : Key) (src : Source) (a : Answers)
  | get (k : Key) (sink : Sink)
  | flushPage (k : Key)
  | flushObject (o : Obj)
  | evict (overQuota : Option Nat)

variable (P : Settings)

/-- One operation; an eviction goes on until a page is found. -/
def State.step (s : State) (step : Step) : State × Result :=
  match step with
  | .put k src a => s.doTmemPut P k src a
  | .get k sink => s.doTmemGet P k sink
  | .flushPage k => s.doTmemFlushPage P k
  | .flushObject o => s.doTmemFlushObject P o
  | .evict overQuota =>
      match s.victim P overQuota with
      | (r, some i) => (r.evictFound P i, .done)
      | (r, none) => (r, .missed)

/-- No client has put anything yet. -/
def State.init : State where
  objs := fun _ => none
  locked := fun _ => false
  tree := fun _ => none
  pgps := fun _ => none
  pcds := fun _ => none
  pages := fun _ => none
  nextPgp := 0
  nextPcd := 0
  nextPage := 0
  eph := []
  clientEph := fun _ => []
  globalEphCount := 0
  ephCount := fun _ => 0
  poolCount := fun _ => 0
  pageCount := 0
  compressedPages := fun _ => 0
  compressedSum := fun _ => 0

end Tmem
