import Mathlib

/-!
# Memory that is added to a running system

`memory_add` and `mem_hotadd_check` (`xen/arch/x86/x86_64/mm.c`). A range of frames is
taken into the frame table, the tables of the hypervisor and the mappings of dom0's IOMMU,
one after the other, and what is left of it goes to the heap; at the labels
`destroy_m2p` and `destroy_frametable` the steps are undone.

The numbers of the pages (`pdx`) leave out a hole in the frame numbers, and a bitmap has
the groups of pages in which there is memory.
-/

namespace Mm.HotAdd

/-! ## Pages and groups -/

/-- The masks of `pfn_pdx_hole_setup`: `pfn_pdx_bottom_mask` has the lowest `bottomShift`
bits, `pfn_hole_mask` the next `holeShift`, and `pfn_top_mask` all others. -/
structure Hole where
  bottomShift : Nat
  holeShift : Nat

/-- `pfn & pfn_hole_mask`, shifted down. -/
def Hole.bits (h : Hole) (pfn : Nat) : Nat := pfn / 2 ^ h.bottomShift % 2 ^ h.holeShift

/-- `pfn_to_pdx`. -/
def Hole.pfnToPdx (h : Hole) (pfn : Nat) : Nat :=
  (pfn % 2 ^ h.bottomShift) ||| ((pfn / 2 ^ h.bottomShift / 2 ^ h.holeShift) <<< h.bottomShift)

/-- `PDX_GROUP_COUNT`. -/
def pdxGroupCount : Nat := 65536

/-- `FRAMETABLE_SIZE / sizeof(*frame_table)`. -/
def frametableEntries : Nat := 10 * 2 ^ 27

/-- The first of `n` bits from `offset` on that is set, or `n`. -/
def scan (bit : Nat → Bool) (offset n : Nat) : Nat := (List.range' offset n).findIdx bit

/-- `__find_next_bit`, in words of 64 bits. It looks through all of the last word, and
also of the first, so that the result may be more than `size`. -/
def findNextBit (bit : Nat → Bool) (size offset : Nat) : Nat :=
  let left := 64 - offset % 64
  if offset % 64 ≠ 0 ∧ scan bit offset left < left then offset + scan bit offset left
  else
    let offset := if offset % 64 ≠ 0 then offset + left else offset
    if offset ≥ size then size
    else offset + scan bit offset (64 * ((size - offset + 63) / 64))

/-- `__find_next_zero_bit`. -/
def findNextZeroBit (bit : Nat → Bool) (size offset : Nat) : Nat :=
  findNextBit (fun i => !bit i) size offset

/-! ## The state -/

/-- A node, with its `NODE_DATA`. -/
structure Node where
  online : Bool
  startPfn : Nat
  spannedPages : Nat

/-- The globals, the nodes, dom0's IOMMU, and the ranges that have gone to the heap. -/
structure State (h : Hole) where
  maxPage : Nat
  maxPdx : Nat
  totalPages : Nat
  pdxGroupValid : Nat → Bool
  node : Nat → Node
  /-- The frame that dom0's IOMMU has at a frame number. -/
  iommu : Nat → Option Nat
  heap : List (Nat × Nat)
  maxPdx_eq : maxPdx = h.pfnToPdx (maxPage - 1) + 1

/-- What is fixed, and how the calls end: their result, and `info.cur` behind them. -/
structure Env where
  hole : Hole
  /-- `node_memblk_range` and `memblk_nodeid`: start, end, node. -/
  memblks : List (Nat × Nat × Nat)
  needIommu : Bool
  /-- `iommu_enabled && hd->platform_ops`. -/
  iommuOps : Bool
  /-- `setup_node`, with `none` for -1. -/
  setupNode : Nat → Option Nat
  mapPagesToXen : Int
  extendFrameTable : Int × Nat
  setupM2pTable : Int × Nat
  /-- `hd->platform_ops->map_page`. -/
  mapPage : Nat → Int

variable {h : Hole}

namespace State

variable (s : State h)

/-- `__mfn_valid`. -/
def mfnValid (mfn : Nat) : Bool :=
  decide (mfn < s.maxPage) && decide (h.bits mfn = 0) && s.pdxGroupValid (h.pfnToPdx mfn / pdxGroupCount)

/-- `max_page`, with `max_pdx`. -/
def setMaxPage (maxPage : Nat) : State h :=
  { s with maxPage := maxPage, maxPdx := h.pfnToPdx (maxPage - 1) + 1, maxPdx_eq := rfl }

def setNode (nid : Nat) (n : Node) : State h := { s with node := Function.update s.node nid n }

def setIommu (iommu : Nat → Option Nat) : State h := { s with iommu := iommu }

/-- `transfer_pages_to_heap`: what is free of the range is given to `init_domheap_pages`. -/
def transferPagesToHeap (cur epfn : Nat) : State h := { s with heap := s.heap ++ [(cur, epfn)] }

/-- The groups that `set_pdx_range` goes through. -/
def InRange (h : Hole) (smfn emfn idx : Nat) : Prop :=
  h.pfnToPdx smfn / pdxGroupCount ≤ idx ∧ idx < (h.pfnToPdx (emfn - 1) + pdxGroupCount) / pdxGroupCount

instance (smfn emfn idx : Nat) : Decidable (InRange h smfn emfn idx) := inferInstanceAs (Decidable (_ ∧ _))

/-- `set_pdx_range`. -/
def setPdxRange (smfn emfn : Nat) : State h :=
  { s with pdxGroupValid := fun idx => s.pdxGroupValid idx || decide (InRange h smfn emfn idx) }

/-! ## The check -/

/-- `sidx` of `mem_hotadd_check`. -/
def sidx (h : Hole) (spfn : Nat) : Nat := (h.pfnToPdx spfn + pdxGroupCount - 1) / pdxGroupCount

/-- `eidx` of `mem_hotadd_check`. -/
def eidx (h : Hole) (epfn : Nat) : Nat := h.pfnToPdx (epfn - 1) / pdxGroupCount

/-- `s`, the first group from `sidx` on that is not valid. -/
def firstZero (spfn epfn : Nat) : Nat := findNextZeroBit s.pdxGroupValid (eidx h epfn) (sidx h spfn)

/-- `x & ~(n - 1)`. -/
def roundDown (n x : Nat) : Nat := x / n * n

/-- `(x + (n - 1)) & ~(n - 1)`. -/
def roundUp (n x : Nat) : Nat := (x + (n - 1)) % 2 ^ 64 / n * n

/-- `e - s`. -/
def distance (s e : Nat) : Nat := (e + 2 ^ 64 - s) % 2 ^ 64

/-- `length`: at most required m2p, compat m2p and frametable bytes. -/
def tableBytes (h : Hole) (spfn epfn : Nat) : Nat :=
  let m2p := distance (roundDown (2 ^ 18) spfn) (roundUp (2 ^ 18) epfn) * 8
  let s := roundDown (2 ^ 19) spfn
  let e := min (roundUp (2 ^ 19) epfn) (2 ^ 30 / 4)
  let compat := if e > s then (e - s) * 4 else 0
  let frametable := distance (roundDown pdxGroupCount (h.pfnToPdx spfn))
    (roundUp pdxGroupCount (h.pfnToPdx epfn)) * 32
  (m2p + compat + frametable) % 2 ^ 64

/-- `mem_hotadd_check`. -/
def memHotaddCheck (spfn epfn : Nat) : Bool :=
  if spfn ≥ epfn then false
  else if h.pfnToPdx epfn > frametableEntries then false
  else if (spfn ||| epfn) % 2 ^ 9 ≠ 0 then false
  else if h.bits (spfn ||| epfn) ≠ 0 then false
  -- make sure the new range is not present now
  else if sidx h spfn ≥ eidx h epfn then false
  else if s.firstZero spfn epfn > eidx h epfn then false
  else if findNextBit s.pdxGroupValid (eidx h epfn) (s.firstZero spfn epfn) < eidx h epfn then false
  else if tableBytes h spfn epfn >>> 12 > epfn - spfn then false
  else true

end State

/-! ## The addition -/

namespace Env

variable (env : Env)

/-- `valid_numa_range`. -/
def validNumaRange (start stop node : Nat) : Bool :=
  env.memblks.any fun nd => decide (nd.1 ≤ start ∧ nd.2.1 > stop ∧ nd.2.2 = node)

/-- `iommu_map_page`, of a frame at its own number. -/
def iommuMapPage (i : Nat) (iommu : Nat → Option Nat) : Int × (Nat → Option Nat) :=
  if env.iommuOps then
    if env.mapPage i ≠ 0 then (env.mapPage i, iommu) else (0, Function.update iommu i (some i))
  else (0, iommu)

/-- `iommu_unmap_page`. -/
def iommuUnmapPage (i : Nat) (iommu : Nat → Option Nat) : Nat → Option Nat :=
  if env.iommuOps then Function.update iommu i none else iommu

/-- The loop that maps `n` frames, which is left at one that cannot be mapped. -/
def mapLoop (i : Nat) : Nat → (Nat → Option Nat) → Nat × (Nat → Option Nat)
  | 0, iommu => (i, iommu)
  | n + 1, iommu =>
    let r := env.iommuMapPage i iommu
    if r.1 ≠ 0 then (i, r.2) else mapLoop (i + 1) n r.2

/-- `while (i-- > old_max) iommu_unmap_page(dom0, i)`. -/
def unmapLoop (oldMax : Nat) : Nat → (Nat → Option Nat) → Nat → Option Nat
  | 0, iommu => iommu
  | i + 1, iommu => if i + 1 > oldMax then unmapLoop oldMax i (env.iommuUnmapPage i iommu) else iommu

end Env

/-- The node has the range as well. -/
def Node.add (n : Node) (spfn epfn : Nat) : Node :=
  if n.online then
    let start := if n.startPfn > spfn then spfn else n.startPfn
    ⟨true, start, if start + n.spannedPages < epfn then epfn - start else n.spannedPages⟩
  else ⟨true, spfn, epfn - spfn⟩

/-- `max_page`, `max_pdx` and `total_pages` are advanced, and the groups set. -/
def State.advance (s : State h) (spfn epfn : Nat) : State h :=
  let s := if s.maxPage < epfn then s.setMaxPage epfn else s
  State.setPdxRange { s with totalPages := s.totalPages + (epfn - spfn) } spfn epfn

/-- From `destroy_m2p` on: `old` has what was saved at the beginning. -/
def State.destroyM2p (s old : State h) (nid : Nat) : State h :=
  let s := { s.setMaxPage old.maxPage with totalPages := old.totalPages }
  s.setNode nid (old.node nid)

/-- `memory_add`, from where the node is known on. -/
def addToNode (env : Env) (s : State env.hole) (spfn epfn nid : Nat) : Int × State env.hole :=
  let s₁ := s.setNode nid ((s.node nid).add spfn epfn)
  -- `destroy_frametable`
  if env.extendFrameTable.1 ≠ 0 then (env.extendFrameTable.1, s₁.setNode nid (s.node nid))
  else
    let s₂ := s₁.advance spfn epfn
    let ret := env.setupM2pTable.1
    if ret ≠ 0 then (ret, s₂.destroyM2p s nid)
    else
      let loop := if env.needIommu then (epfn, s₂.iommu) else env.mapLoop spfn (epfn - spfn) s₂.iommu
      if loop.1 ≠ epfn then
        -- `ret` is still that of `setup_m2p_table`
        (ret, (s₂.setIommu (env.unmapLoop s.maxPage loop.1 loop.2)).destroyM2p s nid)
      else (0, (s₂.setIommu loop.2).transferPagesToHeap env.setupM2pTable.2 epfn)

/-- `-EINVAL`. -/
def einval : Int := -22

/-- `memory_add`. -/
def memoryAdd (env : Env) (s : State env.hole) (spfn epfn pxm : Nat) : Int × State env.hole :=
  if ¬ s.memHotaddCheck spfn epfn then (einval, s)
  else match env.setupNode pxm with
    | none => (einval, s)
    | some nid =>
      if ¬ env.validNumaRange (spfn * 2 ^ 12 % 2 ^ 64) (epfn * 2 ^ 12 % 2 ^ 64) nid then (einval, s)
      else if env.mapPagesToXen ≠ 0 then (env.mapPagesToXen, s)
      else addToNode env s spfn epfn nid

/-! ## The property and the conditions -/

/-- What the state had that must not be lost. -/
structure Unchanged (s s' : State h) : Prop where
  maxPage : s'.maxPage = s.maxPage
  maxPdx : s'.maxPdx = s.maxPdx
  totalPages : s'.totalPages = s.totalPages
  pdxGroupValid : s'.pdxGroupValid = s.pdxGroupValid
  node : s'.node = s.node
  iommu : s'.iommu = s.iommu

/-- There is an error exactly if nothing goes to the heap, and then nothing has changed. -/
structure AllOrNothing (s : State h) (r : Int × State h) : Prop where
  error : r.1 ≠ 0 ↔ r.2.heap = s.heap
  unchanged : r.2.heap = s.heap → Unchanged s r.2

/-- No frame of a range that is accepted was present. -/
def NoneWasPresent (s : State h) (spfn epfn : Nat) : Prop :=
  s.memHotaddCheck spfn epfn = true → ∀ mfn, spfn ≤ mfn → mfn < epfn → s.mfnValid mfn = false

/-- The range and the node are accepted. -/
def Accepted (env : Env) (s : State env.hole) (spfn epfn pxm : Nat) : Prop :=
  s.memHotaddCheck spfn epfn = true ∧ env.mapPagesToXen = 0 ∧ ∃ nid, env.setupNode pxm = some nid ∧
    env.validNumaRange (spfn * 2 ^ 12 % 2 ^ 64) (epfn * 2 ^ 12 % 2 ^ 64) nid = true

/-- Where `setup_m2p_table` fails all groups were valid before, and no frame fails to be
mapped in dom0's IOMMU. -/
structure Undoable (env : Env) (s : State env.hole) (spfn epfn : Nat) : Prop where
  groups : env.setupM2pTable.1 ≠ 0 → ∀ idx, State.InRange env.hole spfn epfn idx → s.pdxGroupValid idx = true
  mapped : env.setupM2pTable.1 = 0 → env.needIommu = false → env.iommuOps = true →
    ∀ i, spfn ≤ i → i < epfn → env.mapPage i = 0

/-- No frame of the range is present in a group that the check does not look at: those in
front of the first that is not valid, and the last. -/
def Unseen (s : State h) (spfn epfn : Nat) : Prop :=
  s.memHotaddCheck spfn epfn = true → ∀ mfn, spfn ≤ mfn → mfn < epfn →
    (h.pfnToPdx mfn / pdxGroupCount < s.firstZero spfn epfn ∨
      h.pfnToPdx mfn / pdxGroupCount = State.eidx h epfn) → s.mfnValid mfn = false

/-! ## The order of the pages -/

theorem Hole.pfnToPdx_eq (h : Hole) (pfn : Nat) :
    h.pfnToPdx pfn = pfn / 2 ^ h.bottomShift / 2 ^ h.holeShift * 2 ^ h.bottomShift + pfn % 2 ^ h.bottomShift := by
  have hlt : pfn % 2 ^ h.bottomShift < 2 ^ h.bottomShift := Nat.mod_lt _ (Nat.two_pow_pos _)
  unfold Hole.pfnToPdx
  rw [Nat.or_comm, ← Nat.shiftLeft_add_eq_or_of_lt hlt, Nat.shiftLeft_eq]

/-- The pages of frames outside the hole have the order of the frames. -/
theorem Hole.pfnToPdx_lt {a b : Nat} (ha : h.bits a = 0) (hb : h.bits b = 0) (hlt : a < b) :
    h.pfnToPdx a < h.pfnToPdx b := by
  unfold Hole.bits at ha hb
  rw [pfnToPdx_eq, pfnToPdx_eq]
  generalize hB : 2 ^ h.bottomShift = B at *
  generalize 2 ^ h.holeShift = H at *
  have hpos : 0 < B := hB ▸ Nat.two_pow_pos _
  have hlow := Nat.mod_lt a hpos
  rcases Nat.lt_or_ge (a / B / H) (b / B / H) with htop | htop
  · have hmul : (a / B / H + 1) * B ≤ b / B / H * B := Nat.mul_le_mul_right B htop
    rw [Nat.succ_mul] at hmul
    omega
  · -- They have the same bits above the hole, and no others.
    have hle : a / B ≤ b / B := Nat.div_le_div_right hlt.le
    have heq : a / B / H = b / B / H := le_antisymm (Nat.div_le_div_right hle) htop
    have hmid : a / B = b / B := by
      rw [← Nat.div_add_mod (a / B) H, ← Nat.div_add_mod (b / B) H, ha, hb, heq]
    have ha' := Nat.div_add_mod a B
    have hb' := Nat.div_add_mod b B
    rw [hmid] at ha'
    rw [heq]
    omega

/-- What comes in front of a multiple. -/
theorem pred_div_mod {n m : Nat} (hm : 0 < m) (hn : 0 < n) (h : n % m = 0) :
    (n - 1) / m + 1 = n / m ∧ (n - 1) % m = m - 1 := by
  obtain ⟨k, rfl⟩ := Nat.dvd_of_mod_eq_zero h
  obtain ⟨j, rfl⟩ := Nat.exists_eq_succ_of_ne_zero (Nat.pos_of_mul_pos_left hn).ne'
  have hsplit : m * (j + 1) - 1 = m * j + (m - 1) := by
    rw [Nat.mul_succ]
    omega
  constructor
  · rw [hsplit, Nat.mul_add_div hm, Nat.div_eq_of_lt (by omega), Nat.mul_div_cancel_left _ hm]
  · rw [hsplit, Nat.mul_add_mod, Nat.mod_eq_of_lt (by omega)]

/-- The frame in front of one that is not in the hole has the page in front of its page. -/
theorem Hole.pfnToPdx_pred {e : Nat} (he : h.bits e = 0) (hpos : 0 < e) :
    h.pfnToPdx (e - 1) + 1 = h.pfnToPdx e := by
  unfold Hole.bits at he
  rw [pfnToPdx_eq, pfnToPdx_eq]
  have hB : 0 < 2 ^ h.bottomShift := Nat.two_pow_pos _
  have hH : 0 < 2 ^ h.holeShift := Nat.two_pow_pos _
  generalize 2 ^ h.bottomShift = B at *
  generalize 2 ^ h.holeShift = H at *
  have hdiv := Nat.div_add_mod e B
  rcases Nat.eq_zero_or_pos (e % B) with hzero | hlow
  · -- The last frame below the hole comes before it.
    have hquot : 0 < e / B := Nat.div_pos (Nat.le_of_dvd hpos (Nat.dvd_of_mod_eq_zero hzero)) hB
    obtain ⟨hq, hr⟩ := pred_div_mod hB hpos hzero
    obtain ⟨hq', -⟩ := pred_div_mod hH hquot he
    rw [show (e - 1) / B = e / B - 1 by omega, hr, hzero, ← hq', Nat.succ_mul]
    omega
  · have hmod := Nat.mod_lt e hB
    have hsplit : e - 1 = B * (e / B) + (e % B - 1) := by omega
    have hq : (e - 1) / B = e / B := by
      rw [hsplit, Nat.mul_add_div hB, Nat.div_eq_of_lt (show e % B - 1 < B by omega)]
      rfl
    have hr : (e - 1) % B = e % B - 1 := by
      rw [hsplit, Nat.mul_add_mod, Nat.mod_eq_of_lt (show e % B - 1 < B by omega)]
    rw [hq, hr]
    omega

/-! ## The search for a bit -/

theorem scan_before {bit : Nat → Bool} {offset n i : Nat} (hle : offset ≤ i)
    (hlt : i < offset + scan bit offset n) : bit i = false := by
  have hidx : i - offset < (List.range' offset n).findIdx bit := by
    unfold scan at hlt
    omega
  have hnot := List.not_of_lt_findIdx hidx
  rw [List.getElem_range', Nat.one_mul, Nat.add_sub_cancel' hle] at hnot
  exact hnot

/-- No bit in front of the one that is found is set. -/
theorem findNextBit_before {bit : Nat → Bool} {size offset i : Nat} (hle : offset ≤ i)
    (hlt : i < findNextBit bit size offset) : bit i = false := by
  unfold findNextBit at hlt
  dsimp only at hlt
  split_ifs at hlt with hfound hpart hsize hsize
  · exact scan_before hle hlt
  · exact @scan_before bit offset (64 - offset % 64) i hle (by omega)
  · -- It is in the first word or behind it.
    rcases Nat.lt_or_ge i (offset + (64 - offset % 64)) with hfirst | hrest
    · exact @scan_before bit offset (64 - offset % 64) i hle (by omega)
    · exact scan_before hrest hlt
  · omega
  · exact scan_before hle hlt

/-! ## What is accepted -/

theorem State.memHotaddCheck_sound {s : State h} {spfn epfn : Nat} (hcheck : s.memHotaddCheck spfn epfn = true) :
    spfn < epfn ∧ h.bits epfn = 0 ∧ State.eidx h epfn ≤
      findNextBit s.pdxGroupValid (State.eidx h epfn) (s.firstZero spfn epfn) := by
  unfold State.memHotaddCheck at hcheck
  split_ifs at hcheck with hrange hmax halign hhole hgroups hzero hnext hlength
  refine ⟨not_le.mp hrange, ?_, not_lt.mp hnext⟩
  have hor : h.bits (spfn ||| epfn) = h.bits spfn ||| h.bits epfn := by
    unfold Hole.bits
    rw [← Nat.shiftRight_eq_div_pow, ← Nat.shiftRight_eq_div_pow, ← Nat.shiftRight_eq_div_pow,
      Nat.shiftRight_or_distrib, Nat.or_mod_two_pow]
  have hzero := not_not.mp hhole
  rw [hor, Nat.or_eq_zero_iff] at hzero
  exact hzero.2

/-- The check finds every present frame, but for the groups it does not look at. -/
theorem noneWasPresent_iff (s : State h) (spfn epfn : Nat) : NoneWasPresent s spfn epfn ↔ Unseen s spfn epfn := by
  constructor
  · intro hnone hcheck mfn hle hlt _
    exact hnone hcheck mfn hle hlt
  · intro hunseen hcheck mfn hle hlt
    obtain ⟨hrange, hhole, hnext⟩ := State.memHotaddCheck_sound hcheck
    by_contra hpresent
    rw [Bool.not_eq_false] at hpresent
    have hvalid := hpresent
    unfold State.mfnValid at hvalid
    rw [Bool.and_eq_true, Bool.and_eq_true, decide_eq_true_eq, decide_eq_true_eq] at hvalid
    obtain ⟨⟨-, hbits⟩, hgroup⟩ := hvalid
    have hpdx : h.pfnToPdx mfn ≤ h.pfnToPdx (epfn - 1) := by
      have hpred := Hole.pfnToPdx_pred hhole (by omega)
      have hless := Hole.pfnToPdx_lt hbits hhole hlt
      omega
    have hlast : h.pfnToPdx mfn / pdxGroupCount ≤ State.eidx h epfn := Nat.div_le_div_right hpdx
    have hskip := fun hor => hunseen hcheck mfn hle hlt hor
    rw [hpresent] at hskip
    -- It is in a group that the second search goes through.
    rcases Nat.lt_or_ge (h.pfnToPdx mfn / pdxGroupCount) (s.firstZero spfn epfn) with hbefore | hfrom
    · exact nomatch hskip (.inl hbefore)
    · rcases hlast.lt_or_eq with hinside | heq
      · rw [findNextBit_before hfrom (hinside.trans_le hnext)] at hgroup
        exact nomatch hgroup
      · exact nomatch hskip (.inr heq)

/-! ## What is undone -/

section Loops

variable (env : Env)

theorem Env.iommuMapPage_eq_zero (i : Nat) (iommu : Nat → Option Nat) :
    (env.iommuMapPage i iommu).1 = 0 ↔ (env.iommuOps = true → env.mapPage i = 0) := by
  unfold Env.iommuMapPage
  split_ifs with hops hmap
  · exact iff_of_false hmap fun h => hmap (h hops)
  · exact iff_of_true rfl fun _ => not_not.mp hmap
  · exact iff_of_true rfl fun h => absurd h hops

/-- The loop comes to its end exactly if every frame is mapped. -/
theorem Env.mapLoop_end (i n : Nat) (iommu : Nat → Option Nat) :
    (env.mapLoop i n iommu).1 = i + n ↔ (env.iommuOps = true → ∀ j, i ≤ j → j < i + n → env.mapPage j = 0) := by
  induction n generalizing i iommu with
  | zero => exact iff_of_true rfl fun _ j hle hlt => absurd hlt (by omega)
  | succ n ih =>
    unfold Env.mapLoop
    dsimp only
    have hone := env.iommuMapPage_eq_zero i iommu
    split_ifs with hfail
    · rw [Ne, hone] at hfail
      refine iff_of_false (by show ¬ i = i + (n + 1); omega) fun hall => hfail fun hops => ?_
      exact hall hops i le_rfl (by omega)
    · have hi := hone.mp (not_not.mp hfail)
      rw [show i + (n + 1) = i + 1 + n by omega, ih]
      refine forall_congr' fun hops => ⟨fun hall j hle hlt => ?_, fun hall j hle hlt => hall j (by omega) hlt⟩
      rcases hle.eq_or_lt with rfl | hless
      · exact hi hops
      · exact hall j hless hlt

end Loops

theorem setPdxRange_eq_iff (s : State h) (spfn epfn : Nat) :
    (s.setPdxRange spfn epfn).pdxGroupValid = s.pdxGroupValid ↔
      ∀ idx, State.InRange h spfn epfn idx → s.pdxGroupValid idx = true := by
  rw [funext_iff]
  refine forall_congr' fun idx => ?_
  unfold State.setPdxRange
  dsimp only
  rw [Bool.or_eq_left_iff_imp, decide_eq_true_eq]

/-- What `destroy_m2p` does not bring back. -/
theorem unchanged_destroyM2p_iff {s s' : State h} {nid : Nat} {n : Node} (hnode : s'.node = Function.update s.node nid n) :
    Unchanged s (s'.destroyM2p s nid) ↔ s'.pdxGroupValid = s.pdxGroupValid ∧ s'.iommu = s.iommu := by
  constructor
  · intro hun
    exact ⟨hun.pdxGroupValid, hun.iommu⟩
  · rintro ⟨hgroups, hiommu⟩
    refine ⟨rfl, s.maxPdx_eq.symm, rfl, hgroups, ?_, hiommu⟩
    show Function.update s'.node nid (s.node nid) = s.node
    rw [hnode, Function.update_idem, Function.update_eq_self]

theorem advance_node (s : State h) (spfn epfn : Nat) : (s.advance spfn epfn).node = s.node := by
  unfold State.advance
  dsimp only
  split <;> rfl

theorem advance_iommu (s : State h) (spfn epfn : Nat) : (s.advance spfn epfn).iommu = s.iommu := by
  unfold State.advance
  dsimp only
  split <;> rfl

theorem advance_heap (s : State h) (spfn epfn : Nat) : (s.advance spfn epfn).heap = s.heap := by
  unfold State.advance
  dsimp only
  split <;> rfl

theorem advance_groups (s : State h) (spfn epfn : Nat) :
    (s.advance spfn epfn).pdxGroupValid = (s.setPdxRange spfn epfn).pdxGroupValid := by
  unfold State.advance
  dsimp only
  split <;> rfl

theorem AllOrNothing.refused {s : State h} {ret : Int} (hret : ret ≠ 0) : AllOrNothing s (ret, s) :=
  ⟨iff_of_true hret rfl, fun _ => ⟨rfl, rfl, rfl, rfl, rfl, rfl⟩⟩

theorem addToNode_allOrNothing_iff (env : Env) (s : State env.hole) {spfn epfn nid : Nat} (hlt : spfn < epfn) :
    AllOrNothing s (addToNode env s spfn epfn nid) ↔ (env.extendFrameTable.1 = 0 → Undoable env s spfn epfn) := by
  unfold addToNode
  dsimp only
  generalize hs₁ : s.setNode nid ((s.node nid).add spfn epfn) = s₁
  have hnode : (s₁.advance spfn epfn).node = Function.update s.node nid ((s.node nid).add spfn epfn) := by
    rw [advance_node, ← hs₁]
    rfl
  have hheap : (s₁.advance spfn epfn).heap = s.heap := by
    rw [advance_heap, ← hs₁]
    rfl
  by_cases hext : env.extendFrameTable.1 = 0
  swap
  · -- Only the node has been touched.
    rw [if_pos hext]
    refine iff_of_true ⟨iff_of_true hext (by rw [← hs₁]; rfl), fun _ => ?_⟩ fun h0 => absurd h0 hext
    subst hs₁
    refine ⟨rfl, rfl, rfl, rfl, ?_, rfl⟩
    show Function.update (Function.update s.node nid _) nid (s.node nid) = s.node
    rw [Function.update_idem, Function.update_eq_self]
  rw [if_neg (not_not.mpr hext)]
  by_cases hm2p : env.setupM2pTable.1 = 0
  swap
  · -- The groups remain set.
    rw [if_pos hm2p]
    have hgroups : (s₁.advance spfn epfn).pdxGroupValid = s.pdxGroupValid ↔
        ∀ idx, State.InRange env.hole spfn epfn idx → s.pdxGroupValid idx = true := by
      rw [advance_groups, ← setPdxRange_eq_iff, ← hs₁]
      rfl
    have hiommu : (s₁.advance spfn epfn).iommu = s.iommu := by
      rw [advance_iommu, ← hs₁]
      rfl
    constructor
    · intro hall _
      have hun := (unchanged_destroyM2p_iff hnode).mp (hall.unchanged hheap)
      exact ⟨fun _ => hgroups.mp hun.1, fun h0 => absurd h0 hm2p⟩
    · intro hundo
      refine ⟨iff_of_true hm2p hheap, fun _ => (unchanged_destroyM2p_iff hnode).mpr ⟨?_, hiommu⟩⟩
      exact hgroups.mpr ((hundo hext).groups hm2p)
  rw [if_neg (not_not.mpr hm2p)]
  generalize hloop : (if env.needIommu then (epfn, (s₁.advance spfn epfn).iommu)
    else env.mapLoop spfn (epfn - spfn) (s₁.advance spfn epfn).iommu) = loop
  have hend : loop.1 = epfn ↔ (env.needIommu = false → env.iommuOps = true →
      ∀ i, spfn ≤ i → i < epfn → env.mapPage i = 0) := by
    subst hloop
    cases hneed : env.needIommu with
    | true => exact iff_of_true rfl nofun
    | false =>
      rw [if_neg Bool.false_ne_true]
      have hmap := env.mapLoop_end spfn (epfn - spfn) (s₁.advance spfn epfn).iommu
      rw [Nat.add_sub_cancel' hlt.le] at hmap
      rw [hmap]
      exact ⟨fun hall _ => hall, fun hall => hall rfl⟩
  by_cases hdone : loop.1 = epfn
  · rw [if_neg (not_not.mpr hdone)]
    have hgrown : (((s₁.advance spfn epfn).setIommu loop.2).transferPagesToHeap env.setupM2pTable.2 epfn).heap ≠ s.heap := by
      show (s₁.advance spfn epfn).heap ++ [(env.setupM2pTable.2, epfn)] ≠ s.heap
      rw [hheap]
      simp
    exact iff_of_true ⟨iff_of_false (not_not.mpr rfl) hgrown, fun hsame => absurd hsame hgrown⟩ fun _ =>
      ⟨fun hne => absurd hm2p hne, fun _ => hend.mp hdone⟩
  · -- No error is returned, since the last step before the loop has none.
    rw [if_pos hdone]
    refine iff_of_false (fun hall => ?_) fun hundo => hdone (hend.mpr ((hundo hext).mapped hm2p))
    exact hall.error.mpr hheap hm2p

/-- Memory is added all or nothing exactly if, where the range is accepted and the frame table
extended, the groups of the range were valid before should `setup_m2p_table` fail, and no frame
fails to be mapped in dom0's IOMMU. The check accepts no range with a present frame exactly if
there is none in the groups that it does not look at. -/
theorem memoryAdd_iff (env : Env) (s : State env.hole) (spfn epfn pxm : Nat) :
    (AllOrNothing s (memoryAdd env s spfn epfn pxm) ↔
      (Accepted env s spfn epfn pxm → env.extendFrameTable.1 = 0 → Undoable env s spfn epfn)) ∧
    (NoneWasPresent s spfn epfn ↔ Unseen s spfn epfn) := by
  refine ⟨?_, noneWasPresent_iff s spfn epfn⟩
  unfold memoryAdd
  by_cases hcheck : s.memHotaddCheck spfn epfn = true
  swap
  · rw [if_pos hcheck]
    exact iff_of_true (.refused (by decide)) fun hacc => absurd hacc.1 hcheck
  rw [if_neg (not_not.mpr hcheck)]
  cases hnode : env.setupNode pxm with
  | none =>
    refine iff_of_true (.refused (by decide)) ?_
    rintro ⟨-, -, nid, hnid, -⟩
    rw [hnode] at hnid
    cases hnid
  | some nid =>
    dsimp only
    by_cases hnuma : env.validNumaRange (spfn * 2 ^ 12 % 2 ^ 64) (epfn * 2 ^ 12 % 2 ^ 64) nid = true
    swap
    · rw [if_pos hnuma]
      refine iff_of_true (.refused (by decide)) ?_
      rintro ⟨-, -, nid', hnid, hvalid⟩
      rw [hnode] at hnid
      cases hnid
      exact absurd hvalid hnuma
    rw [if_neg (not_not.mpr hnuma)]
    by_cases hmap : env.mapPagesToXen = 0
    · rw [if_neg (not_not.mpr hmap), addToNode_allOrNothing_iff env s (State.memHotaddCheck_sound hcheck).1]
      exact ⟨fun h _ => h, fun h => h ⟨hcheck, hmap, nid, hnode, hnuma⟩⟩
    · rw [if_pos hmap]
      exact iff_of_true (.refused hmap) fun hacc => absurd hacc.2.1 hmap

/-! ## Two ranges -/

/-- A platform without a hole, whose IOMMU has no room for another mapping. -/
def fullIommu : Env where
  hole := ⟨64, 0⟩
  memblks := [(0, 2 ^ 40, 0)]
  needIommu := false
  iommuOps := true
  setupNode := fun _ => some 0
  mapPagesToXen := 0
  extendFrameTable := (0, 2 ^ 20)
  setupM2pTable := (0, 2 ^ 20)
  mapPage := fun _ => -12

/-- 4GB, and the groups `valid`. -/
def fourGB (valid : Nat → Bool) : State fullIommu.hole :=
  ⟨2 ^ 20, fullIommu.hole.pfnToPdx (2 ^ 20 - 1) + 1, 2 ^ 20, valid, fun _ => ⟨true, 0, 2 ^ 20⟩, fun _ => none, [], rfl⟩

/-- The first frame cannot be mapped, and success is returned. Where the last group of a range is
the only valid one, the range is accepted. -/
theorem memoryAdd_lost :
    ¬ AllOrNothing (fourGB fun idx => idx < 16) (memoryAdd fullIommu (fourGB fun idx => idx < 16) (2 ^ 20) (2 ^ 20 + 66048) 0) ∧
      ¬ NoneWasPresent (fourGB fun idx => idx = 5) (4 * 65536) (5 * 65536 + 512) := by
  constructor
  · intro hall
    have hrun : (memoryAdd fullIommu (fourGB fun idx => idx < 16) (2 ^ 20) (2 ^ 20 + 66048) 0).1 = 0 ∧
        (memoryAdd fullIommu (fourGB fun idx => idx < 16) (2 ^ 20) (2 ^ 20 + 66048) 0).2.heap = [] := by
      decide +kernel
    exact hall.error.mpr hrun.2 hrun.1
  · intro hnone
    have hcheck : (fourGB fun idx => idx = 5).memHotaddCheck (4 * 65536) (5 * 65536 + 512) = true := by
      decide +kernel
    have hpresent : (fourGB fun idx => idx = 5).mfnValid (5 * 65536) = true := by
      decide +kernel
    rw [hnone hcheck (5 * 65536) (by decide) (by decide)] at hpresent
    nomatch hpresent

end Mm.HotAdd
