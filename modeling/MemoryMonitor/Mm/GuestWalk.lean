import MemoryMonitor.P2m.Map

/-!
# The guest's page tables, as Xen walks them (`guest_walk.c`, four levels)

`guest_walk_tables` reads the entries on the path of an address, collects in `rc`
the flags that are missing, and on success sets accessed and dirty bits the way
the processor does. Memory is what each machine frame holds as a page of 512
entries; nobody else writes to it during the walk.

`Env` is what stays fixed: the processor, the settings of the vCPU and the p2m.
Paging in a table's frame is left to `p2m_mem_paging_populate` and not followed.
-/

namespace Mm.GuestWalk

/-! ## Entries -/

abbrev Pte := BitVec 64

def pagePresent : BitVec 32 := 0x001
def pageRw : BitVec 32 := 0x002
def pageUser : BitVec 32 := 0x004
def pagePwt : BitVec 32 := 0x008
def pagePcd : BitVec 32 := 0x010
def pageAccessed : BitVec 32 := 0x020
def pageDirty : BitVec 32 := 0x040
def pagePat : BitVec 32 := 0x080
def pagePse : BitVec 32 := 0x080
def pagePaged : BitVec 32 := 0x2000
def pageShared : BitVec 32 := 0x4000
def pageNxBit : BitVec 32 := 1#32 <<< 23

/-- `get_pte_flags`: bits 52 to 63 and 0 to 11, in 24 bits. -/
def getPteFlags (x : Pte) : BitVec 32 := ((x >>> 40).setWidth 32 &&& ~~~0xFFF#32) ||| (x.setWidth 32 &&& 0xFFF#32)

/-- `put_pte_flags`. -/
def putPteFlags (flags : BitVec 32) : Pte := ((flags &&& ~~~0xFFF#32).setWidth 64 <<< 40) ||| (flags &&& 0xFFF#32).setWidth 64

/-- `guest_l1e_get_gfn` and its siblings. -/
def getGfn (e : Pte) : BitVec 64 := (e &&& ((1#64 <<< 52 - 1#64) &&& ~~~0xFFF#64)) >>> 12

/-- `guest_l1e_from_gfn`. -/
def l1eFromGfn (gfn : BitVec 64) (flags : BitVec 32) : Pte := gfn <<< 12 ||| putPteFlags flags

/-- `guest_l1_table_offset` and its siblings, for level `n + 1`. -/
def tableOffset (n : Nat) (va : BitVec 64) : Fin 512 := ⟨(va >>> (12 + 9 * n)).toNat % 512, Nat.mod_lt _ (by decide)⟩

/-! ## The vCPU -/

def pfecWriteAccess : BitVec 32 := 1#32 <<< 1
def pfecUserMode : BitVec 32 := 1#32 <<< 2
def pfecInsnFetch : BitVec 32 := 1#32 <<< 4

/-- The processor, what the vCPU has enabled, and the p2m. -/
structure Env where
  paddrBits : Nat
  /-- The width of physical addresses that x86-64 processors have. -/
  paddr : 32 ≤ paddrBits ∧ paddrBits ≤ 52
  cpuHasNx : Bool
  isHvm : Bool
  wpEnabled : Bool
  nxEnabled : Bool
  smepEnabled : Bool
  allowSuperpage : Bool
  /-- Whether the guest's processor maps pages of 1GB; the walk does not look at it. -/
  gigabytePages : Bool
  gfnToMfn : BitVec 64 → P2m.Entry

/-- `guest_supports_superpages`. -/
def Env.supportsSuperpages (E : Env) : Bool := if E.isHvm then true else E.allowSuperpage

/-- `guest_supports_nx`. -/
def Env.supportsNx (E : Env) : Bool :=
  if ¬ E.cpuHasNx then false else if ¬ E.isHvm then E.cpuHasNx else E.nxEnabled

/-- `_PAGE_INVALID_BITS`. -/
def Env.pageInvalidBits (E : Env) : BitVec 32 :=
  getPteFlags ((1#64 <<< 52 - 1#64) &&& ~~~(1#64 <<< E.paddrBits - 1#64))

/-- The table in `mandatory_flags`. -/
def flagsTable : List (BitVec 32) :=
  [pagePresent, pagePresent ||| pageRw, pagePresent ||| pageUser, pagePresent ||| pageRw ||| pageUser,
    pagePresent, pagePresent ||| pageRw, pagePresent ||| pageUser, pagePresent ||| pageRw ||| pageUser,
    pagePresent ||| pageNxBit, pagePresent ||| pageRw ||| pageNxBit, pagePresent ||| pageUser ||| pageNxBit,
    pagePresent ||| pageRw ||| pageUser ||| pageNxBit,
    pagePresent ||| pageNxBit, pagePresent ||| pageRw ||| pageNxBit, pagePresent ||| pageUser ||| pageNxBit,
    pagePresent ||| pageRw ||| pageUser ||| pageNxBit]

/-- `mandatory_flags`. -/
def Env.mandatoryFlags (E : Env) (pfec : BitVec 32) : BitVec 32 :=
  let pfec := if ¬ E.supportsNx then pfec &&& ~~~pfecInsnFetch else pfec
  let pfec := if E.isHvm ∧ ¬ E.wpEnabled ∧ pfec &&& pfecUserMode = 0 then pfec &&& ~~~pfecWriteAccess else pfec
  flagsTable.getD ((pfec &&& 0x1f) >>> 1).toNat 0 ||| E.pageInvalidBits

/-- `smep` of the walk. -/
def Env.smep (E : Env) (pfec : BitVec 32) : Bool :=
  E.isHvm && E.smepEnabled && decide (pfec &&& pfecInsnFetch ≠ 0) && decide (pfec &&& pfecUserMode = 0)

/-! ## Memory -/

/-- An entry's place: its frame and its index in the table. -/
abbrev Loc := Nat × Fin 512

abbrev Memory := Loc → Pte

/-- `set_ad_bits`: the memory and the walk's copy of the entry afterwards. -/
def setAdBits (mem : Memory) (loc : Loc) (old : Pte) (setDirty : Bool) : Memory × Pte :=
  let new := old ||| pageAccessed.setWidth 64 ||| if setDirty then pageDirty.setWidth 64 else 0
  if old ≠ new then (if mem loc = old then Function.update mem loc new else mem, new) else (mem, old)

def isPaging (t : P2m.P2mType) : Bool :=
  t = .ramPagingOut || t = .ramPaged || t = .ramPagingInStart || t = .ramPagingIn

/-- `map_domain_gfn`: the frame, whether it is mapped, and `rc` afterwards. -/
def Env.mapDomainGfn (E : Env) (gfn : BitVec 64) (rc : BitVec 32) : Nat × Bool × BitVec 32 :=
  let e := E.gfnToMfn gfn
  if isPaging e.type then (e.mfn, false, pagePaged)
  else if e.type = .ramShared then (e.mfn, false, pageShared)
  else if ¬ e.type.isRam then (e.mfn, false, rc ||| pagePresent)
  else (e.mfn, true, rc)

/-! ## The walk -/

/-- `walk_t`. -/
structure Walk where
  va : BitVec 64
  l4e : Pte
  l3e : Pte
  l2e : Pte
  l1e : Pte
  l4mfn : Nat
  l3mfn : Nat
  l2mfn : Nat
  l1mfn : Nat

/-- The flags an entry misses. -/
def Env.missing (E : Env) (mflags : BitVec 32) (e : Pte) : BitVec 32 :=
  ((getPteFlags e ^^^ (pageNxBit ||| E.pageInvalidBits)) &&& mflags) ^^^ mflags

/-- The entry made up for a page of a superpage, and whether the superpage's frame
is not aligned. -/
def superpageL1e (l2e : Pte) (va : BitVec 64) : Pte × Bool :=
  let start := getGfn l2e
  let flags := pagePresent ||| pageUser ||| pageRw ||| pageAccessed ||| pageDirty |||
    (getPteFlags l2e &&& (pagePat ||| pagePwt ||| pagePcd))
  let flags := if start &&& 1 = 0 then flags &&& ~~~pagePat else flags
  (l1eFromGfn ((start &&& ~~~511#64) + BitVec.ofNat 64 (tableOffset 0 va).val) flags,
    decide (start &&& 511#64 &&& ~~~1#64 ≠ 0))

/-- What the walk returns: `rc`, the walk, and the memory afterwards. -/
structure Result where
  rc : BitVec 32
  gw : Walk
  mem : Memory

/-- The accessed and dirty bits of a walk that was a success. -/
def Walk.setBits (gw : Walk) (mem : Memory) (pse write : Bool) : Walk × Memory :=
  let (mem, l4e) := setAdBits mem (gw.l4mfn, tableOffset 3 gw.va) gw.l4e false
  let (mem, l3e) := setAdBits mem (gw.l3mfn, tableOffset 2 gw.va) gw.l3e false
  let (mem, l2e) := setAdBits mem (gw.l2mfn, tableOffset 1 gw.va) gw.l2e (pse && write)
  let (mem, l1e) := if pse then (mem, gw.l1e) else setAdBits mem (gw.l1mfn, tableOffset 0 gw.va) gw.l1e write
  ({ gw with l4e, l3e, l2e, l1e }, mem)

/-- The end of a walk that got to the last entry: SMEP inverts the answer for USER,
and a success sets bits. -/
def Env.finish (E : Env) (mem : Memory) (pfec : BitVec 32) (gw : Walk) (pse : Bool) (rc : BitVec 32) : Result :=
  let rc := if E.smep pfec then rc ^^^ pageUser else rc
  if rc = 0 then
    let (gw, mem) := gw.setBits mem pse (decide (pfec &&& pfecWriteAccess ≠ 0))
    ⟨rc, gw, mem⟩
  else ⟨rc, gw, mem⟩

/-- The walk from the table of level 1 on. -/
def Env.walkL1 (E : Env) (mem : Memory) (pfec mflags : BitVec 32) (gw : Walk) (rc : BitVec 32) : Result :=
  let (l1mfn, mapped, rc) := E.mapDomainGfn (getGfn gw.l2e) rc
  if ¬ mapped then ⟨rc, { gw with l1mfn }, mem⟩
  else
    let l1e := mem (l1mfn, tableOffset 0 gw.va)
    E.finish mem pfec { gw with l1mfn, l1e } false (rc ||| E.missing mflags l1e)

/-- The walk from the table of level 2 on. A superpage has no entry of level 1:
one is made up. -/
def Env.walkL2 (E : Env) (mem : Memory) (pfec mflags : BitVec 32) (gw : Walk) (rc : BitVec 32) : Result :=
  let (l2mfn, mapped, rc) := E.mapDomainGfn (getGfn gw.l3e) rc
  if ¬ mapped then ⟨rc, { gw with l2mfn }, mem⟩
  else
    let l2e := mem (l2mfn, tableOffset 1 gw.va)
    let gw := { gw with l2mfn, l2e }
    let rc := rc ||| E.missing mflags l2e
    if rc &&& pagePresent ≠ 0 then ⟨rc, gw, mem⟩
    else if E.supportsSuperpages ∧ getPteFlags l2e &&& pagePse ≠ 0 then
      let (l1e, unaligned) := superpageL1e l2e gw.va
      let rc := if unaligned then rc ||| E.pageInvalidBits else rc
      E.finish mem pfec { gw with l1e, l1mfn := P2m.invalidMfn } true rc
    else E.walkL1 mem pfec mflags gw rc

/-- The walk from the table of level 3 on. -/
def Env.walkL3 (E : Env) (mem : Memory) (pfec mflags : BitVec 32) (gw : Walk) (rc : BitVec 32) : Result :=
  let (l3mfn, mapped, rc) := E.mapDomainGfn (getGfn gw.l4e) rc
  if ¬ mapped then ⟨rc, { gw with l3mfn }, mem⟩
  else
    let l3e := mem (l3mfn, tableOffset 2 gw.va)
    let gw := { gw with l3mfn, l3e }
    let rc := rc ||| E.missing mflags l3e
    if rc &&& pagePresent ≠ 0 then ⟨rc, gw, mem⟩ else E.walkL2 mem pfec mflags gw rc

/-- `guest_walk_tables`. -/
def Env.guestWalkTables (E : Env) (mem : Memory) (va : BitVec 64) (pfec : BitVec 32) (topMfn : Nat) : Result :=
  let mflags := if E.smep pfec then E.mandatoryFlags pfec ||| pageUser else E.mandatoryFlags pfec
  let l4e := mem (topMfn, tableOffset 3 va)
  let gw : Walk := ⟨va, l4e, 0, 0, 0, topMfn, 0, 0, 0⟩
  let rc := E.missing mflags l4e
  if rc &&& pagePresent ≠ 0 then ⟨rc, gw, mem⟩ else E.walkL3 mem pfec mflags gw rc

end Mm.GuestWalk
