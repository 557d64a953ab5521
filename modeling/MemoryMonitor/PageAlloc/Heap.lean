import MemoryMonitor.Lib.Buddy

/-!
# The page allocator (`xen/common/page_alloc.c`)

The model is that of x86_64 without a hole in the frame table, so that a page is its
`mfn`. The zone of a page is the number of its highest bit.

`PFN_ORDER` shares its storage with the owner of a page in use, which the holder of
the page sets as it likes; so does it with the reference count and the other flags.
`HeapStep.use` stands for that. Every function runs under `heap_lock` as a whole.
-/

namespace PageAlloc

/-- `MAX_ORDER`, `NR_ZONES` and `MAX_NUMNODES`. -/
def maxOrder : Nat := 18
def nrZones : Nat := 40
def maxNumnodes : Nat := 64

/-- `PGC_state`. -/
inductive PageState where
  | inuse | offlining | offlined | free
  deriving DecidableEq

/-- `count_info` and `PFN_ORDER` of a page. -/
structure Page where
  state : PageState := .inuse
  /-- `PGC_broken`. -/
  broken : Bool := false
  /-- `PGC_xen_heap`. -/
  xenHeap : Bool := false
  /-- The other bits of `count_info`. -/
  rest : Nat := 0
  order : Nat := 0
  deriving DecidableEq

/-- `count_info == PGC_state_free`. -/
def Page.isFree (p : Page) : Bool :=
  p.state = .free ∧ p.broken = false ∧ p.xenHeap = false ∧ p.rest = 0

/-- The machine: what does not change. -/
structure Machine where
  /-- `phys_to_nid`. -/
  nid : Nat → Nat
  nid_lt : ∀ mfn, nid mfn < maxNumnodes
  /-- `mfn_valid`. -/
  valid : Nat → Bool
  /-- `node_online_map`. -/
  nodeOnline : Nat → Bool
  optTmem : Bool
  /-- The pages that the lists and counters of a node need, and the end of the
  direct map. -/
  needed : Nat
  directmapEnd : Nat
  /-- `is_xen_fixed_mfn` and `page_is_ram_type(mfn, RAM_TYPE_CONVENTIONAL)`. -/
  xenFixed : Nat → Bool
  conventional : Nat → Bool

/-- The lists of free blocks, by node, zone and order. -/
abbrev Lists := Nat → Nat → Nat → List Nat

/-- The last fields are history: the blocks that are allocated, the pages that have
been handed to the heap, and those that were ever marked as broken. -/
structure World where
  page : Nat → Page
  heap : Lists
  /-- `avail[node]` has been set. -/
  ready : Nat → Bool
  avail : Nat → Nat → Int
  totalAvailPages : Int
  midsizeAllocZonePages : Int
  firstNodeInitialised : Bool
  pageOfflinedList : List Nat
  pageBrokenList : List Nat
  allocated : List (Nat × Nat)
  given : Nat → Bool
  everBroken : Nat → Bool

/-- `noMemory` is the `BUG_ON` for the lists of a new node; any other `BUG_ON`, a
`page_list_del` of a page that is not on the list, and a loop without end are `bug`.
`outOfBounds` is an access beyond the end of `avail[]` and `_heap[]`. -/
inductive Halt where
  | bug | noMemory | outOfBounds
  deriving DecidableEq

/-- `page_to_zone`. -/
def pageToZone (p : Page) (mfn : Nat) : Nat := if p.xenHeap then 0 else Nat.log 2 mfn

/-! ## Lists and counters -/

namespace Lists

def set (l : Lists) (node zone order : Nat) (v : List Nat) : Lists :=
  Function.update l node
    (Function.update (l node) zone (Function.update (l node zone) order v))

end Lists

namespace World

def setHeap (w : World) (node zone order : Nat) (v : List Nat) : World :=
  { w with heap := w.heap.set node zone order v }

/-- `page_list_add_tail`, with `PFN_ORDER(pg) = order`. -/
def addTail (w : World) (node zone order pg : Nat) : World :=
  { w.setHeap node zone order (w.heap node zone order ++ [pg]) with
    page := Function.update w.page pg { w.page pg with order := order } }

/-- `page_list_del`. -/
def listDel (w : World) (node zone order pg : Nat) : Option World :=
  if pg ∈ w.heap node zone order then
    some (w.setHeap node zone order ((w.heap node zone order).erase pg))
  else none

/-- `avail[node][zone] += n; total_avail_pages += n`. -/
def count (w : World) (node zone : Nat) (n : Int) : World :=
  { w with
    avail := Function.update w.avail node
      (Function.update (w.avail node) zone (w.avail node zone + n))
    totalAvailPages := w.totalAvailPages + n }

/-- The pages of a block are changed. -/
def mapPages (w : World) (pg order : Nat) (f : Page → Page) : World :=
  { w with page := fun x => if Buddy.Mem pg order x then f (w.page x) else w.page x }

end World

/-! ## `alloc_heap_pages` -/

def firstNode (mask : Nat → Bool) : Nat :=
  ((List.range maxNumnodes).find? mask).getD maxNumnodes

def nextNode (node : Nat) (mask : Nat → Bool) : Nat :=
  ((List.range maxNumnodes).find? fun n => node < n && mask n).getD maxNumnodes

/-- The arguments, and what the function reads from elsewhere: the affinity and the
last node of the domain, the node of the CPU, and the answers of tmem. -/
structure Request where
  zoneLo : Nat
  zoneHi : Nat
  order : Nat
  memflags : Nat
  domain : Option ((Nat → Bool) × Nat)
  cpuNode : Fin maxNumnodes
  tmemFreeable : Bool
  tmemRelinquished : Option Nat

namespace Request

/-- The node of the flags, which nobody checks; 255 (`NUMA_NO_NODE`) is any. -/
def asked (r : Request) : Nat := (r.memflags / 2 ^ 8 + 255) % 256

/-- `nodemask`. -/
def nodemask (m : Machine) (r : Request) : Nat → Bool := (r.domain.map Prod.fst).getD m.nodeOnline

/-- The node to start with, and whether it is the only one. -/
def start (m : Machine) (r : Request) : Nat × Bool :=
  if r.asked = 255 then
    let mask := r.nodemask m
    let node :=
      match r.domain with
      | none => 255
      | some (_, last) =>
          if nextNode last mask ≥ maxNumnodes then firstNode mask else nextNode last mask
    (if node ≥ maxNumnodes then r.cpuNode else node, false)
  else (r.asked, r.memflags.testBit 4)

end Request

/-- Find smallest order which can satisfy the request. -/
def tryZone (w : World) (node order zone : Nat) : Option Nat :=
  if w.ready node ∧ 2 ^ order ≤ w.avail node zone then
    (List.range' order (maxOrder + 1 - order)).find? fun j => !(w.heap node zone j).isEmpty
  else none

/-- The zones from `zone` down to `zoneLo`. -/
def findZone (w : World) (node order zoneLo : Nat) : Nat → Option (Nat × Nat)
  | 0 => (tryZone w node order 0).map fun j => (0, j)
  | zone + 1 =>
      match tryZone w node order (zone + 1) with
      | some j => some (zone + 1, j)
      | none => if zone + 1 > zoneLo then findZone w node order zoneLo zone else none

/-- Pick next node, and the one to stop at. -/
def pickNode (mask : Nat → Bool) (node first : Nat) : Nat × Nat :=
  if ¬mask node then (firstNode mask, firstNode mask)
  else if nextNode node mask ≥ maxNumnodes then (firstNode mask, first)
  else (nextNode node mask, first)

/-- Where the loop is: the node to try, the one to stop at, the mask and `nodemask_retry`. -/
structure Try where
  node : Nat
  first : Nat
  mask : Nat → Bool
  retry : Bool

/-- When we have tried all in nodemask, we fall back to others. -/
def nextCircle (m : Machine) (mask : Nat → Bool) (retry : Bool) : Option Try :=
  if retry then none
  else
    let mask := fun n => m.nodeOnline n && !mask n
    if firstNode mask ≥ maxNumnodes then none
    else some ⟨firstNode mask, firstNode mask, mask, true⟩

/-- Pick next node. -/
def nextTry (m : Machine) (exactNode : Bool) (s : Try) : Option Try :=
  if exactNode then none
  else if ¬s.mask s.node ∧ firstNode s.mask < maxNumnodes then
    some ⟨firstNode s.mask, firstNode s.mask, s.mask, s.retry⟩
  else
    let next := pickNode s.mask s.node s.first
    if next.1 = next.2 then nextCircle m s.mask s.retry else some ⟨next.1, next.2, s.mask, s.retry⟩

/-- The nodes: those of the mask in a circle, then the others. -/
def findNode (m : Machine) (w : World) (r : Request) (exactNode : Bool) :
    Nat → Try → Except Halt (Option (Nat × Nat × Nat))
  | 0, _ => .ok none
  | fuel + 1, s =>
      if s.node ≥ maxNumnodes then .error .outOfBounds
      else
        match findZone w s.node r.order r.zoneLo r.zoneHi with
        | some (zone, j) => .ok (some (s.node, zone, j))
        | none =>
            match nextTry m exactNode s with
            | none => .ok none
            | some s => findNode m w r exactNode fuel s

/-- Where the loop starts. -/
def Request.first (m : Machine) (r : Request) : Try :=
  ⟨(r.start m).1, (r.start m).1, r.nodemask m, false⟩

def search (m : Machine) (w : World) (r : Request) : Except Halt (Option (Nat × Nat × Nat)) :=
  findNode m w r (r.start m).2 (4 * maxNumnodes) (r.first m)

/-- We may have to halve the chunk a number of times: `n` times down to `order`. -/
def halve (node zone order : Nat) : Nat → Nat → World → Nat × World
  | 0, pg, w => (pg, w)
  | n + 1, pg, w =>
      halve node zone order n (pg + 2 ^ (order + n)) (w.addTail node zone (order + n) pg)

def allocHeapPages (m : Machine) (r : Request) (w : World) : Except Halt (Option Nat × World) :=
  if r.order > maxOrder then .ok (none, w)
  else if m.optTmem ∧ (r.order = 0 ∨ r.order ≥ 9) ∧
      w.totalAvailPages ≤ w.midsizeAllocZonePages ∧ r.tmemFreeable then
    .ok (r.tmemRelinquished, w)
  else
    match search m w r with
    | .error e => .error e
    | .ok none => .ok (none, w)
    | .ok (some (node, zone, j)) =>
        match w.heap node zone j with
        | [] => .ok (none, w)
        | pg :: rest =>
            let (pg, w) := halve node zone r.order (j - r.order) pg (w.setHeap node zone j rest)
            let w := w.count node zone (-2 ^ r.order)
            if (List.range (2 ^ r.order)).all fun i => (w.page (pg + i)).isFree then
              .ok (some pg,
                { w.mapPages pg r.order fun _ => {} with
                  allocated := (pg, r.order) :: w.allocated })
            else .error .bug

/-! ## `reserve_offlined_page` -/

def World.isOfflined (w : World) (mfn : Nat) : Bool := (w.page mfn).state = .offlined

/-- The order of the chunk at `cur`, which is not to reach `last`. -/
def chunkOrder (w : World) (last cur : Nat) : Nat → Nat → Nat
  | 0, curOrder => curOrder
  | fuel + 1, curOrder =>
      if cur + 2 ^ (curOrder + 1) ≥ last then curOrder
      else if (List.range' (cur + 2 ^ curOrder) (2 ^ curOrder)).any w.isOfflined then curOrder
      else chunkOrder w last cur fuel (curOrder + 1)

/-- The pages that are not offlined go back to the lists. -/
def carve (node zone headOrder last : Nat) : Nat → Nat → World → Except Halt World
  | 0, cur, w => if cur < last then .error .bug else .ok w
  | fuel + 1, cur, w =>
      if cur < last then
        if w.isOfflined cur then carve node zone headOrder last fuel (cur + 1) w
        else if headOrder = 0 then .error .bug
        else
          let curOrder := chunkOrder w last cur headOrder 0
          carve node zone headOrder last fuel (cur + 2 ^ curOrder)
            (w.addTail node zone curOrder cur)
      else .ok w

/-- The offlined ones go to their list. -/
def collect (node zone : Nat) : List Nat → World → World
  | [], w => w
  | cur :: rest, w =>
      if w.isOfflined cur then
        let w := w.count node zone (-1)
        collect node zone rest
          (if (w.page cur).broken then { w with pageBrokenList := w.pageBrokenList ++ [cur] }
            else { w with pageOfflinedList := w.pageOfflinedList ++ [cur] })
      else collect node zone rest w

def reserveOfflinedPage (m : Machine) (head : Nat) (w : World) : Except Halt World :=
  let node := m.nid head
  let zone := pageToZone (w.page head) head
  let headOrder := (w.page head).order
  match w.listDel node zone headOrder head with
  | none => .error .bug
  | some w =>
      match carve node zone headOrder (head + 2 ^ headOrder) (2 ^ headOrder) head w with
      | .error e => .error e
      | .ok w => .ok (collect node zone (List.range' head (2 ^ headOrder)) w)

/-! ## `free_heap_pages` -/

/-- The new `count_info` of a page that is freed. -/
def Page.freed (p : Page) : Page :=
  { state := if p.state = .offlining then .offlined else .free
    broken := p.broken
    xenHeap := false
    rest := 0
    order := p.order }

/-- The buddy can be merged with. -/
def mergeable (m : Machine) (w : World) (node order buddy : Nat) : Bool :=
  m.valid buddy ∧ (w.page buddy).state = .free ∧ (w.page buddy).order = order ∧
    m.nid buddy = node

/-- Merge chunks as far as possible. -/
def merge (m : Machine) (node zone : Nat) :
    Nat → Nat → Nat → World → Except Halt (Nat × Nat × World)
  | 0, pg, order, w => .ok (pg, order, w)
  | fuel + 1, pg, order, w =>
      let mask := 2 ^ order
      if pg &&& mask ≠ 0 then
        -- Merge with predecessor block?
        if mergeable m w node order (pg - mask) then
          match w.listDel node zone order (pg - mask) with
          | none => .error .bug
          | some w => merge m node zone fuel (pg - mask) (order + 1) w
        else .ok (pg, order, w)
      else
        -- Merge with successor block?
        if mergeable m w node order (pg + mask) then
          match w.listDel node zone order (pg + mask) with
          | none => .error .bug
          | some w => merge m node zone fuel pg (order + 1) w
        else .ok (pg, order, w)

/-- The pages are marked and counted as free, or as offlined. -/
def World.markFree (m : Machine) (pg order : Nat) (w : World) : World :=
  let zone := pageToZone (w.page pg) pg
  let w := (w.mapPages pg order Page.freed).count (m.nid pg) zone (2 ^ order)
  { w with
    midsizeAllocZonePages :=
      if m.optTmem then max w.midsizeAllocZonePages (w.totalAvailPages / 128)
      else w.midsizeAllocZonePages }

def freeHeapPages (m : Machine) (pg order : Nat) (w : World) : Except Halt World :=
  let node := m.nid pg
  let zone := pageToZone (w.page pg) pg
  let w := w.markFree m pg order
  let tainted := (List.range' pg (2 ^ order)).any w.isOfflined
  match merge m node zone (maxOrder - order) pg order w with
  | .error e => .error e
  | .ok (pg, order, w) =>
      let w := w.addTail node zone order pg
      if tainted then reserveOfflinedPage m pg w else .ok w

/-! ## `init_heap_pages` -/

def allocAll (m : Machine) : List Request → World → Except Halt World
  | [], w => .ok w
  | r :: rest, w =>
      match allocHeapPages m { r with memflags := 0 } w with
      | .error e => .error e
      | .ok (none, _) => .error .noMemory
      | .ok (some _, w) => allocAll m rest w

/-- `init_node_heap`: the pages it takes from the range, and `use_tail`. Otherwise
its memory comes from `alloc_xenheap_pages` or `xmalloc`, by the requests `elsewhere`, all
without flags. -/
def initNodeHeap (m : Machine) (elsewhere : List Request) (node mfn nr : Nat) (useTail : Bool)
    (w : World) : Except Halt (Nat × Bool × World) :=
  let clear (w : World) : World :=
    { w with
      heap := Function.update w.heap node fun _ _ => []
      avail := Function.update w.avail node fun _ => 0
      ready := Function.update w.ready node true }
  if ¬w.firstNodeInitialised then
    .ok (0, useTail, clear { w with firstNodeInitialised := true })
  else if useTail ∧ nr ≥ m.needed ∧ mfn + nr ≤ m.directmapEnd then
    .ok (m.needed, useTail, clear w)
  else if nr ≥ m.needed ∧ mfn + m.needed ≤ m.directmapEnd then .ok (m.needed, false, clear w)
  else
    match allocAll m elsewhere w with
    | .error e => .error e
    | .ok w => .ok (0, useTail, clear w)

def findFirstSetBit (n : Nat) : Nat := ((List.range 64).find? n.testBit).getD 64

/-- The loop, with `i` pages done; `fuel` bounds its rounds. -/
def initLoop (m : Machine) (elsewhere : Nat → List Request) (pg : Nat) :
    Nat → Nat → Nat → World → Except Halt World
  | 0, _, _, w => .ok w
  | fuel + 1, i, nrPages, w =>
      if i < nrPages then
        let nid := m.nid (pg + i)
        if w.ready nid then
          match freeHeapPages m (pg + i) 0 w with
          | .error e => .error e
          | .ok w => initLoop m elsewhere pg fuel (i + 1) nrPages w
        else
          let s := pg + i
          let e := pg + nrPages
          let useTail := nid = m.nid (e - 1) ∧ s % 2 ^ maxOrder = 0 ∧
            findFirstSetBit e ≤ findFirstSetBit s
          match initNodeHeap m (elsewhere nid) nid s (nrPages - i) useTail w with
          | .error e => .error e
          | .ok (n, useTail, w) =>
              if i + n > nrPages then .error .bug
              else if n ≠ 0 ∧ ¬useTail then initLoop m elsewhere pg fuel (i + n) nrPages w
              else if i + n = nrPages then .ok w
              else
                match freeHeapPages m (pg + i) 0 w with
                | .error e => .error e
                | .ok w => initLoop m elsewhere pg fuel (i + 1) (nrPages - n) w
      else .ok w

def initHeapPages (m : Machine) (elsewhere : Nat → List Request) (pg nrPages : Nat) (w : World) :
    Except Halt World :=
  initLoop m elsewhere pg nrPages 0 nrPages w

/-! ## Steps -/

/-- Nothing has been handed to the heap. -/
def World.init : World where
  page _ := {}
  heap _ _ _ := []
  ready _ := false
  avail _ _ := 0
  totalAvailPages := 0
  midsizeAllocZonePages := 0
  firstNodeInitialised := false
  pageOfflinedList := []
  pageBrokenList := []
  allocated := []
  given _ := false
  everBroken _ := false

inductive HeapStep where
  | init (pg nrPages : Nat) (elsewhere : Nat → List Request)
  | alloc (r : Request)
  | free (pg order : Nat)
  /-- The holder of a page of the heap that is in use sets its owner, its count and
  its flags. -/
  | use (mfn : Nat) (xenHeap : Bool) (rest order : Nat)

/-- Pages that may be handed to the heap: those of a range that has not been handed
to it before, with no `mfn` 0. -/
def World.mayGive (m : Machine) (w : World) (mfn : Nat) : Bool :=
  !w.given mfn && m.valid mfn && mfn != 0 && decide (mfn < 2 ^ nrZones)

/-- A block is freed as it was allocated, and not with `PGC_xen_heap` set: the flag is
cleared by `free_xenheap_pages`. -/
def World.mayFree (w : World) (pg order : Nat) : Bool :=
  (w.allocated.contains (pg, order)) && !(w.page pg).xenHeap

def HeapStep.run (m : Machine) : HeapStep → World → Except Halt World
  | .init pg nrPages elsewhere, w =>
      if (List.range' pg nrPages).all (w.mayGive m) then
        initHeapPages m elsewhere pg nrPages
          { w with given := fun x => w.given x || decide (pg ≤ x ∧ x < pg + nrPages) }
      else .ok w
  | .alloc r, w =>
      match allocHeapPages m r w with
      | .error e => .error e
      | .ok (_, w) => .ok w
  | .free pg order, w =>
      if w.mayFree pg order then
        freeHeapPages m pg order { w with allocated := w.allocated.erase (pg, order) }
      else .ok w
  | .use mfn xenHeap rest order, w =>
      let p := w.page mfn
      if w.given mfn ∧ (p.state = .inuse ∨ p.state = .offlining) then
        .ok { w with
          page := Function.update w.page mfn
            { p with xenHeap := xenHeap, rest := rest, order := order } }
      else .ok w

end PageAlloc
