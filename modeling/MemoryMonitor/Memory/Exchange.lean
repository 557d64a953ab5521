import MemoryMonitor.Lib.Pool
import MemoryMonitor.Lib.Runs

/-!
# Exchanging memory

`memory_exchange` (`xen/common/memory.c`) and `assign_pages` (`xen/common/page_alloc.c`). The
call works in chunks: it steals a chunk's worth of input pages from the domain without touching
`tot_pages`, allocates as many pages for it, frees the input pages and assigns the output pages.
If it fails it gives the stolen pages back with `assign_pages`, and takes for granted that this
works; but nothing is assigned to a domain that is dying.

Each access to the domain is a step of its own, and between any two of them the domain can start
dying and lose pages to `domain_relinquish_resources`.
-/

namespace Memory.Exchange

/-- What the call returns. -/
inductive Rc where
  | ok | efault | einval | eperm | enomem | continuation
  deriving DecidableEq

/-- `xen_memory_reservation`, as far as the call reads it. -/
structure Reservation where
  nrExtents : Nat
  extentOrder : Nat
  domid : Nat
  deriving DecidableEq

/-- `xen_memory_exchange`. -/
structure Exch where
  input : Reservation
  output : Reservation
  nrExchanged : Nat
  deriving DecidableEq

namespace Exch

/-- The sanity checks. C has no shifts by 64 or more. -/
def sane (x : Exch) : Bool :=
  decide (x.input.extentOrder < 64) && decide (x.output.extentOrder < 64) &&
  decide (x.nrExchanged ≤ x.input.nrExtents) &&
  decide (x.input.domid = x.output.domid) &&
  decide (x.input.nrExtents ≤ (2 ^ 64 - 1) >>> x.input.extentOrder) &&
  decide (x.output.nrExtents ≤ (2 ^ 64 - 1) >>> x.output.extentOrder) &&
  decide ((x.input.nrExtents <<< x.input.extentOrder) % 2 ^ 64 =
    (x.output.nrExtents <<< x.output.extentOrder) % 2 ^ 64)

/-- `in_chunk_order` and `out_chunk_order`: how many extents make a chunk. -/
def inChunkOrder (x : Exch) : Nat :=
  if x.input.extentOrder ≤ x.output.extentOrder then x.output.extentOrder - x.input.extentOrder
  else 0

def outChunkOrder (x : Exch) : Nat :=
  if x.input.extentOrder ≤ x.output.extentOrder then 0
  else x.input.extentOrder - x.output.extentOrder

/-- The pages of a chunk. -/
def chunkPages (x : Exch) : Nat := 2 ^ x.input.extentOrder * 2 ^ x.inChunkOrder

end Exch

/-- Where the call is: `i` is the chunk, `j` the extent in it and `k` the page in that. -/
inductive Pc where
  | idle
  | head (i : Nat)
  /-- Stealing: before the extent is read, and before a page of it is looked up. -/
  | extent (i j : Nat)
  | page (i j k : Nat)
  | alloc (i j : Nat)
  /-- The chunk cannot fail any more: the input pages go, and the output pages come. -/
  | release (i : Nat)
  | assign (i j : Nat)
  /-- At the label `fail`, and at the label `dying`. -/
  | fail (i : Nat) (rc : Rc)
  | dying (i : Nat) (rc : Rc)
  | returned (rc : Rc)
  deriving DecidableEq

/-- How often each page was taken over by the call, given to the domain by it, and freed. -/
structure Tally where
  took : Nat → Nat
  kept : Nat → Nat
  freed : Nat → Nat

def Tally.empty : Tally := ⟨fun _ => 0, fun _ => 0, fun _ => 0⟩

/-- Each of `ps` once more. -/
def bump (f : Nat → Nat) (ps : List Nat) : Nat → Nat := fun p => f p + ps.count p

structure State where
  /-- The domain: `page_list`, `tot_pages`, the reference that its pages hold on it, and
  `is_dying`. -/
  pageList : List Nat
  totPages : Int
  domRef : Bool
  isDying : Bool
  /-- The pages that the heap has. -/
  free : Nat → Bool
  /-- A `BUG` was reached. -/
  bug : Bool
  /-- The caller's structure, and the copy of the call. -/
  guest : Exch
  exch : Exch
  pc : Pc
  inChunk : List Nat
  outChunk : List Nat
  /-- History of the call, with its continuations: the input and output pages, `tot_pages` and
  `nr_exchanged` at the start, the chunks that are exchanged, and whether the caller's
  structure could be written. -/
  input : Tally
  output : Tally
  startPages : Int
  startNr : Nat
  exchanged : List Nat
  reported : Bool

/-- The pages of an extent. -/
def extentPages (page order : Nat) : List Nat := List.range' page (2 ^ order)

/-- What `gfn_to_mfn_unshare` finds; `sole` is whether the page has its one reference only. -/
inductive Found where
  | shared
  | invalid
  | page (p : Nat) (sole : Bool)
  deriving DecidableEq

/-- What the call finds out on its way: whether it is preempted, whether the guest's memory can
be accessed, what is at the next frame, and which pages the heap has for it. -/
structure Answer where
  preempt : Bool
  copied : Bool
  found : Found
  block : Option Nat
  deriving DecidableEq

/-- What the checks at the start find. -/
structure Entry where
  copied : Bool
  permitted : Bool
  domFound : Bool
  privileged : Bool
  written : Bool
  deriving DecidableEq

namespace State

/-- `free_domheap_pages` of pages that nobody owns; the heap takes no page twice. -/
def freePages (s : State) (ps : List Nat) : State :=
  { s with free := Pool.give s.free ps, bug := s.bug || ps.any s.free }

/-- `tot_pages` goes down, and with the last page the reference to the domain goes. -/
def dropPages (s : State) (n : Nat) : State :=
  { s with
    totPages := s.totPages - n
    domRef := s.domRef && !decide (n ≠ 0 ∧ s.totPages - n = 0)
    bug := s.bug || (decide (n ≠ 0 ∧ s.totPages - n = 0) && !s.domRef) }

/-- `steal_page` with `MEMF_no_refcount` succeeds. -/
def stealable (s : State) (p : Nat) (sole : Bool) : Bool := sole && decide (p ∈ s.pageList)

/-- The heap has the pages that it would hand out. -/
def available (s : State) (b : Nat) : Bool := (extentPages b s.exch.output.extentOrder).all s.free

/-- `exch.nr_exchanged` is written back, if it can be. -/
def finish (s : State) (rc : Rc) (written : Bool) : State :=
  if written then
    { s with pc := .returned rc, guest := { s.guest with nrExchanged := s.exch.nrExchanged } }
  else { s with pc := .returned .efault, reported := false }

def setNr (s : State) (nr : Nat) : State := { s with exch := { s.exch with nrExchanged := nr } }

/-- The checks at the start, and the first chunk. -/
def enter (s : State) (e : Entry) : State :=
  if !e.copied then { s with pc := .returned .efault }
  else
    let s := { s with exch := s.guest }
    if !s.exch.sane then s.finish .einval e.written
    else if !e.permitted then s.finish .eperm e.written
    else if !e.domFound then s.finish .ok e.written
    else if !e.privileged then s.finish .eperm e.written
    else { s with pc := .head (s.exch.nrExchanged >>> s.exch.inChunkOrder) }

/-- The caller has its request ready, and the history of the call begins. -/
def prepare (s : State) (x : Exch) : State :=
  { s with
    guest := x, input := .empty, output := .empty, startPages := s.totPages
    startNr := x.nrExchanged, exchanged := [], reported := true }

def call (s : State) (x : Exch) (e : Entry) : State := (s.prepare x).enter e

/-- The next access of the call to something outside of it. -/
def advance (s : State) (a : Answer) : State :=
  match s.pc with
  | .idle | .returned _ => s
  | .head i =>
      if i < s.exch.input.nrExtents >>> s.exch.inChunkOrder then
        if a.preempt then (s.setNr (i <<< s.exch.inChunkOrder)).finish .continuation a.copied
        else { s with pc := .extent i 0 }
      else (s.setNr s.exch.input.nrExtents).finish .ok a.copied
  | .extent i j =>
      if j < 2 ^ s.exch.inChunkOrder then
        if a.copied then { s with pc := .page i j 0 } else { s with pc := .fail i .efault }
      else { s with pc := .alloc i 0 }
  | .page i j k =>
      if k < 2 ^ s.exch.input.extentOrder then
        match a.found with
        | .page p sole =>
            if s.stealable p sole then
              { s with
                pageList := s.pageList.erase p, inChunk := p :: s.inChunk, pc := .page i j (k + 1)
                input := { s.input with took := bump s.input.took [p] } }
            else { s with pc := .fail i .einval }
        | .shared => { s with pc := .fail i .enomem }
        | .invalid => { s with pc := .fail i .einval }
      else { s with pc := .extent i (j + 1) }
  | .alloc i j =>
      if j < 2 ^ s.exch.outChunkOrder then
        match a.block with
        | some b =>
            if s.available b then
              { s with
                free := Pool.take s.free (extentPages b s.exch.output.extentOrder)
                outChunk := b :: s.outChunk, pc := .alloc i (j + 1)
                output := { s.output with
                  took := bump s.output.took (extentPages b s.exch.output.extentOrder) } }
            else { s with pc := .fail i .enomem }
        | none => { s with pc := .fail i .enomem }
      else { s with pc := .release i }
  | .release i =>
      match s.inChunk with
      | p :: rest =>
          { s with
            inChunk := rest
            input := { s.input with freed := bump s.input.freed [p] } }.freePages [p]
      | [] => { s with pc := .assign i 0 }
  | .assign i j =>
      match s.outChunk with
      | b :: rest =>
          let pages := extentPages b s.exch.output.extentOrder
          if s.isDying then
            ({ s with
              outChunk := rest, pc := .dying i .ok
              output := { s.output with freed := bump s.output.freed pages } }.dropPages
              (s.exch.chunkPages - j * 2 ^ s.exch.output.extentOrder)).freePages pages
          else
            { s with
              outChunk := rest, pc := .assign i (j + 1), pageList := s.pageList ++ pages
              output := { s.output with kept := bump s.output.kept pages } }
      | [] =>
          { s with
            bug := s.bug || (!s.isDying && decide (j ≠ 2 ^ s.exch.outChunkOrder))
            pc := .head (i + 1), exchanged := i :: s.exchanged }
  | .fail i rc =>
      match s.inChunk with
      | p :: rest =>
          if s.isDying then { s with bug := true }
          else
            { s with
              inChunk := rest, pageList := s.pageList ++ [p]
              input := { s.input with kept := bump s.input.kept [p] } }
      | [] => { s with pc := .dying i rc }
  | .dying i rc =>
      match s.outChunk with
      | b :: rest =>
          let pages := extentPages b s.exch.output.extentOrder
          { s with
            outChunk := rest
            output := { s.output with freed := bump s.output.freed pages } }.freePages pages
      | [] => (s.setNr (i <<< s.exch.inChunkOrder)).finish rc a.copied

/-- `domain_relinquish_resources` frees a page of a dying domain. -/
def relinquish (s : State) (p : Nat) : State :=
  if s.isDying && decide (p ∈ s.pageList) then
    ({ s with pageList := s.pageList.erase p }.dropPages 1).freePages [p]
  else s

end State

inductive Step where
  | call (exch : Exch) (e : Entry)
  | continuation (e : Entry)
  | next (a : Answer)
  | die
  | relinquish (p : Nat)
  deriving DecidableEq

def Pc.idles : Pc → Bool
  | .idle | .returned _ => true
  | _ => false

def act (step : Step) (s : State) : State :=
  if s.bug then s
  else
    match step with
    | .call exch e => if s.pc.idles then s.call exch e else s
    | .continuation e => if s.pc = .returned .continuation then s.enter e else s
    | .next a => s.advance a
    | .die => { s with isDying := true }
    | .relinquish p => s.relinquish p

/-- A domain and the free pages of the machine. -/
structure Machine where
  pageList : List Nat
  free : Nat → Bool
  nodup : pageList.Nodup
  apart : ∀ p ∈ pageList, free p = false

def State.init (m : Machine) : State where
  pageList := m.pageList
  totPages := m.pageList.length
  domRef := !m.pageList.isEmpty
  isDying := false
  free := m.free
  bug := false
  guest := ⟨⟨0, 0, 0⟩, ⟨0, 0, 0⟩, 0⟩
  exch := ⟨⟨0, 0, 0⟩, ⟨0, 0, 0⟩, 0⟩
  pc := .idle
  inChunk := []
  outChunk := []
  input := .empty
  output := .empty
  startPages := m.pageList.length
  startNr := 0
  exchanged := []
  reported := true

/-- The pages that there are. -/
def Machine.all (m : Machine) (p : Nat) : Prop := p ∈ m.pageList ∨ m.free p = true

/-! ## The property -/

/-- The caller's `nr_exchanged` says which chunks are exchanged, beginning with the one that it
named. -/
def State.Told (s : State) : Prop :=
  s.startNr >>> s.guest.inChunkOrder ≤ s.guest.nrExchanged >>> s.guest.inChunkOrder ∧
  (∀ c, c ∈ s.exchanged ↔ s.startNr >>> s.guest.inChunkOrder ≤ c ∧
    c < s.guest.nrExchanged >>> s.guest.inChunkOrder) ∧
  (s.guest.nrExchanged = s.startNr ∨ s.guest.nrExchanged % 2 ^ s.guest.inChunkOrder = 0)

/-- Nothing is lost when the call returns. -/
structure Conserved (m : Machine) (s : State) : Prop where
  /-- A stolen page was given back or freed, and so was an allocated one. -/
  input : ∀ p, s.input.took p = s.input.kept p + s.input.freed p
  output : ∀ p, s.output.took p = s.output.kept p + s.output.freed p
  /-- The domain has the pages that it is charged for, and the heap all others. -/
  charged : s.totPages = s.pageList.length
  known : ∀ p, m.all p ↔ p ∈ s.pageList ∨ s.free p = true
  ref : s.domRef = true ↔ s.totPages ≠ 0
  /-- Unless it is dying the domain has as many pages as before. -/
  same : s.isDying = false → s.totPages = s.startPages
  /-- If the caller's structure can be written, the caller is told what was done. -/
  told : s.reported = true → s.Told

/-- This step of the call jumps to `fail`. -/
def State.fails (s : State) (a : Answer) : Bool :=
  match s.pc with
  | .extent _ j => decide (j < 2 ^ s.exch.inChunkOrder) && !a.copied
  | .page _ _ k =>
      decide (k < 2 ^ s.exch.input.extentOrder) &&
        match a.found with
        | .page p sole => !s.stealable p sole
        | _ => true
  | .alloc _ j =>
      decide (j < 2 ^ s.exch.outChunkOrder) &&
        match a.block with
        | some b => !s.available b
        | none => true
  | _ => false

def Pc.failed : Pc → Bool
  | .fail _ _ => true
  | _ => false

/-- No step fails while the domain is dying and pages of it are stolen, and the domain does not
start dying while stolen pages are given back. -/
def fine (step : Step) (s : State) : Bool :=
  match step with
  | .next a => !(s.fails a && s.isDying && !s.inChunk.isEmpty)
  | .die => !(s.pc.failed && !s.inChunk.isEmpty)
  | _ => true

/-! ## The invariant -/

/-- The output pages that the call has. -/
def State.outPages (s : State) : List Nat :=
  s.outChunk.flatMap (extentPages · s.exch.output.extentOrder)

/-- The pages that the domain is charged for and does not have. -/
def State.owed (s : State) : Nat :=
  match s.pc with
  | .extent _ _ | .page _ _ _ | .alloc _ _ | .fail _ _ => s.inChunk.length
  | .release _ => s.exch.chunkPages
  | .assign _ j => s.exch.chunkPages - j * 2 ^ s.exch.output.extentOrder
  | _ => 0

/-- What the call has in its two lists. -/
def State.Lists (s : State) : Prop :=
  match s.pc with
  | .extent _ j => s.outChunk = [] ∧ s.inChunk.length = j * 2 ^ s.exch.input.extentOrder ∧
      j ≤ 2 ^ s.exch.inChunkOrder
  | .page _ j k => s.outChunk = [] ∧ s.inChunk.length = j * 2 ^ s.exch.input.extentOrder + k ∧
      j < 2 ^ s.exch.inChunkOrder ∧ k ≤ 2 ^ s.exch.input.extentOrder
  | .alloc _ j => s.inChunk.length = s.exch.chunkPages ∧ s.outChunk.length = j ∧
      j ≤ 2 ^ s.exch.outChunkOrder
  | .release _ => s.outChunk.length = 2 ^ s.exch.outChunkOrder
  | .assign _ j => s.inChunk = [] ∧ j + s.outChunk.length = 2 ^ s.exch.outChunkOrder
  | .fail _ _ => s.isDying = true → s.inChunk = []
  | .dying _ _ => s.inChunk = []
  | .idle | .head _ | .returned _ => s.inChunk = [] ∧ s.outChunk = []

/-- The chunk that is worked on. -/
def Pc.chunk : Pc → Option Nat
  | .idle | .returned _ => none
  | .head i | .extent i _ | .page i _ _ | .alloc i _ | .release i | .assign i _ | .fail i _
  | .dying i _ => some i

/-- Whether a chunk is begun. -/
def Pc.begun : Pc → Nat
  | .idle | .returned _ | .head _ => 0
  | _ => 1

/-- The chunks before the one that is worked on are exchanged. -/
def State.Progress (s : State) : Prop :=
  match s.pc.chunk with
  | some i => s.exch = s.guest ∧ s.exch.sane = true ∧
      i + s.pc.begun ≤ s.exch.input.nrExtents >>> s.exch.inChunkOrder ∧
      s.startNr >>> s.exch.inChunkOrder ≤ i ∧
      ∀ c, c ∈ s.exchanged ↔ s.startNr >>> s.exch.inChunkOrder ≤ c ∧ c < i
  | none => s.reported = true ∨ s.pc = .returned .continuation → s.Told

/-- The pages that were taken are given to the domain or freed, up to those that are still
held. -/
def Tally.Balanced (t : Tally) (held : List Nat) : Prop :=
  ∀ p, t.took p = t.kept p + t.freed p + held.count p

structure Inv (m : Machine) (s : State) : Prop where
  bug : s.bug = false
  pool : Pool m.all (s.pageList ++ (s.inChunk ++ s.outPages)) s.free
  tot : s.totPages = s.pageList.length + s.owed
  ref : s.domRef = true ↔ s.totPages ≠ 0
  same : s.isDying = false → s.totPages = s.startPages
  input : s.input.Balanced s.inChunk
  output : s.output.Balanced s.outPages
  lists : s.Lists
  progress : s.Progress

namespace Tally.Balanced

variable {t : Tally} {held : List Nat}

theorem take (ps : List Nat) (h : t.Balanced held) : Balanced { t with took := bump t.took ps } (ps ++ held) := by
  intro p
  show t.took p + ps.count p = t.kept p + t.freed p + (ps ++ held).count p
  rw [h p, List.count_append]
  omega

theorem keep (ps : List Nat) (h : t.Balanced (ps ++ held)) : Balanced { t with kept := bump t.kept ps } held := by
  intro p
  show t.took p = t.kept p + ps.count p + t.freed p + held.count p
  rw [h p, List.count_append]
  omega

theorem free (ps : List Nat) (h : t.Balanced (ps ++ held)) : Balanced { t with freed := bump t.freed ps } held := by
  intro p
  show t.took p = t.kept p + (t.freed p + ps.count p) + held.count p
  rw [h p, List.count_append]
  omega

end Tally.Balanced

section Steps

variable {m : Machine} {s s' : State} {a : Answer} {i j k p : Nat} {rc : Rc} {pc : Pc}

/-- Between calls the lists are empty. -/
theorem Inv.idle (h : Inv m s) (hidle : s.pc.idles = true) :
    s.owed = 0 ∧ s.inChunk = [] ∧ s.outChunk = [] ∧ s.outPages = [] ∧ s.pc.chunk = none := by
  have hl := h.lists
  unfold State.Lists at hl
  unfold State.owed State.outPages
  cases hpc : s.pc
  case idle =>
    rw [hpc] at hl
    exact ⟨rfl, hl.1, hl.2, by rw [hl.2]; rfl, rfl⟩
  case returned rc =>
    rw [hpc] at hl
    exact ⟨rfl, hl.1, hl.2, by rw [hl.2]; rfl, rfl⟩
  all_goals
    rw [hpc] at hidle
    exact absurd hidle Bool.false_ne_true

/-- A state between calls. -/
theorem Inv.ofIdle (hidle : s.pc.idles = true) (hin : s.inChunk = []) (hout : s.outChunk = [])
    (hbug : s.bug = false) (hpool : Pool m.all s.pageList s.free) (htot : s.totPages = s.pageList.length)
    (href : s.domRef = true ↔ s.totPages ≠ 0) (hsame : s.isDying = false → s.totPages = s.startPages)
    (hinput : s.input.Balanced []) (houtput : s.output.Balanced [])
    (htold : s.reported = true ∨ s.pc = .returned .continuation → s.Told) : Inv m s := by
  have hpages : s.outPages = [] := by
    unfold State.outPages
    rw [hout]
    rfl
  have howed : s.owed = 0 ∧ s.Lists ∧ s.pc.chunk = none := by
    unfold State.owed State.Lists
    cases hpc : s.pc
    case idle => exact ⟨rfl, ⟨hin, hout⟩, rfl⟩
    case returned rc => exact ⟨rfl, ⟨hin, hout⟩, rfl⟩
    all_goals
      rw [hpc] at hidle
      exact absurd hidle Bool.false_ne_true
  refine ⟨hbug, ?_, ?_, href, hsame, ?_, ?_, howed.2.1, ?_⟩
  · rw [hin, hpages, List.append_nil, List.append_nil]
    exact hpool
  · rw [htot, howed.1]
    exact (Int.add_zero _).symm
  · rw [hin]
    exact hinput
  · rw [hpages]
    exact houtput
  · unfold State.Progress
    rw [howed.2.2]
    exact htold

/-- The parts of such a state. -/
theorem Inv.parts (h : Inv m s) (hidle : s.pc.idles = true) :
    Pool m.all s.pageList s.free ∧ s.totPages = s.pageList.length ∧ s.input.Balanced [] ∧
      s.output.Balanced [] := by
  rcases h.idle hidle with ⟨howed, hin, -, hout, -⟩
  have hpool := h.pool
  have hinput := h.input
  have houtput := h.output
  rw [hin, hout, List.append_nil, List.append_nil] at hpool
  rw [hin] at hinput
  rw [hout] at houtput
  refine ⟨hpool, ?_, hinput, houtput⟩
  rw [h.tot, howed]
  exact Int.add_zero _

theorem Inv.conserved (h : Inv m s) (hidle : s.pc.idles = true) : Conserved m s := by
  rcases h.idle hidle with ⟨-, -, -, -, hchunk⟩
  rcases h.parts hidle with ⟨hpool, htot, hinput, houtput⟩
  have hg := h.progress
  unfold State.Progress at hg
  rw [hchunk] at hg
  exact ⟨hinput, houtput, htot, hpool.complete, h.ref, h.same, fun hr => hg (.inl hr)⟩

/-- As long as the call works on one chunk, the progress is the same. -/
theorem State.Progress.stay (h : s.Progress) (hchunk : s.pc.chunk = some i)
    (hchunk' : s'.pc.chunk = some i) (hbegun : s'.pc.begun = s.pc.begun)
    (hs : (s'.exch, s'.guest, s'.startNr, s'.exchanged) = (s.exch, s.guest, s.startNr, s.exchanged)) :
    s'.Progress := by
  simp only [Prod.mk.injEq] at hs
  rcases hs with ⟨h1, h2, h3, h4⟩
  unfold State.Progress at h ⊢
  rw [hchunk] at h
  rw [hchunk', hbegun, h1, h2, h3, h4]
  exact h

/-- The call goes on and has the same pages. -/
theorem Inv.goto (h : Inv m s) (hchunk : s.pc.chunk = some i) (hchunk' : pc.chunk = some i)
    (hbegun : pc.begun = s.pc.begun) (howed : ({ s with pc := pc } : State).owed = s.owed)
    (hlists : ({ s with pc := pc } : State).Lists) : Inv m { s with pc := pc } :=
  ⟨h.bug, h.pool, h.tot.trans (by rw [howed]), h.ref, h.same, h.input, h.output, hlists,
    h.progress.stay hchunk hchunk' hbegun rfl⟩

/-- The call goes to `fail`, and if the domain is dying there is nothing to give back. -/
theorem Inv.toFail (h : Inv m s) (hchunk : s.pc.chunk = some i) (hbegun : s.pc.begun = 1)
    (howed : s.owed = s.inChunk.length)
    (hf : s.fails a = true) (hfine : fine (.next a) s = true) (rc : Rc) :
    Inv m { s with pc := .fail i rc } := by
  refine h.goto hchunk rfl hbegun.symm howed.symm fun hdy => ?_
  have hdy' : s.isDying = true := hdy
  unfold fine at hfine
  simpa [hf, hdy'] using hfine

theorem chunkPages_eq (x : Exch) : x.chunkPages = 2 ^ x.outChunkOrder * 2 ^ x.output.extentOrder := by
  unfold Exch.chunkPages Exch.outChunkOrder Exch.inChunkOrder
  split
  · rename_i hle
    rw [← Nat.pow_add, Nat.add_sub_of_le hle, Nat.pow_zero, Nat.one_mul]
  · rename_i hlt
    rw [Nat.pow_zero, Nat.mul_one, ← Nat.pow_add, Nat.sub_add_cancel (by omega)]

/-! ## Stealing -/

theorem Inv.extent (h : Inv m s) (hpc : s.pc = .extent i j) (hfine : fine (.next a) s = true) :
    Inv m (s.advance a) := by
  have hl := h.lists
  have hchunk : s.pc.chunk = some i := by rw [hpc]; rfl
  have hbegun : s.pc.begun = 1 := by rw [hpc]; rfl
  have howed : s.owed = s.inChunk.length := by unfold State.owed; rw [hpc]
  unfold State.Lists at hl
  rw [hpc] at hl
  unfold State.advance
  rw [hpc]
  dsimp only
  split
  · rename_i hj
    split
    · exact h.goto hchunk rfl hbegun.symm howed.symm ⟨hl.1, by rw [hl.2.1]; rfl, hj, Nat.zero_le _⟩
    · rename_i hcopied
      refine h.toFail hchunk hbegun howed ?_ hfine _
      unfold State.fails
      rw [hpc]
      simp [hj, hcopied]
  · rename_i hj
    refine h.goto hchunk rfl hbegun.symm howed.symm ⟨?_, by rw [hl.1]; rfl, Nat.zero_le _⟩
    have hje : j = 2 ^ s.exch.inChunkOrder := by omega
    show s.inChunk.length = s.exch.chunkPages
    rw [hl.2.1, hje, Nat.mul_comm]
    rfl

theorem Inv.page (h : Inv m s) (hpc : s.pc = .page i j k) (hfine : fine (.next a) s = true) :
    Inv m (s.advance a) := by
  have hl := h.lists
  have hchunk : s.pc.chunk = some i := by rw [hpc]; rfl
  have hbegun : s.pc.begun = 1 := by rw [hpc]; rfl
  have howed : s.owed = s.inChunk.length := by unfold State.owed; rw [hpc]
  unfold State.Lists at hl
  rw [hpc] at hl
  unfold State.advance
  rw [hpc]
  dsimp only
  split
  · rename_i hk
    have hfail : (∀ p sole, a.found = .page p sole → s.stealable p sole = false) → s.fails a = true := by
      intro hno
      unfold State.fails
      rw [hpc]
      dsimp only
      rw [decide_eq_true hk, Bool.true_and]
      split
      · rename_i p sole hfound
        rw [hno p sole hfound]
        rfl
      · rfl
    split
    · rename_i p sole hfound
      split
      · -- a page is stolen
        rename_i hsteal
        have hmem : p ∈ s.pageList := by
          unfold State.stealable at hsteal
          simp only [Bool.and_eq_true, decide_eq_true_eq] at hsteal
          exact hsteal.2
        have hperm : (s.pageList.erase p ++ (p :: s.inChunk ++ s.outPages)).Perm
            (s.pageList ++ (s.inChunk ++ s.outPages)) :=
          List.perm_middle.trans ((List.perm_cons_erase hmem).symm.append_right _)
        have hlen := List.length_erase_add_one hmem
        refine ⟨h.bug, h.pool.perm hperm, ?_, h.ref, h.same, h.input.take [p], h.output, ?_,
          h.progress.stay hchunk rfl hbegun.symm rfl⟩
        · show s.totPages = ((s.pageList.erase p).length : Int) + ((p :: s.inChunk).length : Nat)
          rw [h.tot, howed, List.length_cons]
          omega
        · refine ⟨hl.1, ?_, hl.2.2.1, hk⟩
          show (p :: s.inChunk).length = j * 2 ^ s.exch.input.extentOrder + (k + 1)
          rw [List.length_cons, hl.2.1]
          omega
      · rename_i hsteal
        refine h.toFail hchunk hbegun howed (hfail fun p' sole' hfound' => ?_) hfine _
        rw [hfound] at hfound'
        cases hfound'
        exact Bool.eq_false_iff.2 hsteal
    · rename_i hfound
      refine h.toFail hchunk hbegun howed (hfail fun p sole hfound' => ?_) hfine _
      rw [hfound] at hfound'
      exact Found.noConfusion hfound'
    · rename_i hfound
      refine h.toFail hchunk hbegun howed (hfail fun p sole hfound' => ?_) hfine _
      rw [hfound] at hfound'
      exact Found.noConfusion hfound'
  · rename_i hk
    have hke : k = 2 ^ s.exch.input.extentOrder := by omega
    refine h.goto hchunk rfl hbegun.symm howed.symm ⟨hl.1, ?_, hl.2.2.1⟩
    show s.inChunk.length = (j + 1) * 2 ^ s.exch.input.extentOrder
    rw [hl.2.1, hke, Nat.succ_mul]

/-! ## The output pages -/

theorem extentPages_nodup (b order : Nat) : (extentPages b order).Nodup := List.nodup_range' ..

theorem outPages_cons (b : Nat) (rest : List Nat) :
    ({ s with outChunk := b :: rest } : State).outPages =
      extentPages b s.exch.output.extentOrder ++ ({ s with outChunk := rest } : State).outPages :=
  List.flatMap_cons

theorem Inv.alloc (h : Inv m s) (hpc : s.pc = .alloc i j) (hfine : fine (.next a) s = true) :
    Inv m (s.advance a) := by
  have hl := h.lists
  have hchunk : s.pc.chunk = some i := by rw [hpc]; rfl
  have hbegun : s.pc.begun = 1 := by rw [hpc]; rfl
  have howed : s.owed = s.inChunk.length := by unfold State.owed; rw [hpc]
  unfold State.Lists at hl
  rw [hpc] at hl
  unfold State.advance
  rw [hpc]
  dsimp only
  split
  · rename_i hj
    have hfail : (∀ b, a.block = some b → s.available b = false) → s.fails a = true := by
      intro hno
      unfold State.fails
      rw [hpc]
      dsimp only
      rw [decide_eq_true hj, Bool.true_and]
      split
      · rename_i b hb
        rw [hno b hb]
        rfl
      · rfl
    split
    · rename_i b hb
      split
      · rename_i hav
        have hfree : ∀ p ∈ extentPages b s.exch.output.extentOrder, s.free p = true := List.all_eq_true.1 hav
        have hpool := h.pool.handOut (extentPages_nodup b _) hfree
        have hperm : (s.pageList ++ (s.inChunk ++ (extentPages b s.exch.output.extentOrder ++ s.outPages))).Perm
            (extentPages b s.exch.output.extentOrder ++ (s.pageList ++ (s.inChunk ++ s.outPages))) := by
          rw [← List.append_assoc, ← List.append_assoc s.pageList]
          exact List.perm_append_comm_assoc ..
        refine ⟨h.bug, hpool.perm hperm, h.tot.trans (by rw [howed]; rfl), h.ref, h.same, h.input,
          h.output.take _, ⟨hl.1, ?_, hj⟩, h.progress.stay hchunk rfl hbegun.symm rfl⟩
        show (b :: s.outChunk).length = _
        rw [List.length_cons, hl.2.1]
      · rename_i hav
        refine h.toFail hchunk hbegun howed (hfail fun b' hb' => ?_) hfine _
        rw [hb] at hb'
        cases hb'
        exact Bool.eq_false_iff.2 hav
    · rename_i hb
      refine h.toFail hchunk hbegun howed (hfail fun b' hb' => ?_) hfine _
      rw [hb] at hb'
      exact absurd hb' (by simp)
  · rename_i hj
    have hje : j = 2 ^ s.exch.outChunkOrder := by omega
    refine h.goto hchunk rfl hbegun.symm ?_ ?_
    · rw [howed, hl.1]
      rfl
    · show s.outChunk.length = _
      rw [hl.2.1, hje]

theorem Inv.release (h : Inv m s) (hpc : s.pc = .release i) : Inv m (s.advance a) := by
  have hl := h.lists
  have hchunk : s.pc.chunk = some i := by rw [hpc]; rfl
  have hbegun : s.pc.begun = 1 := by rw [hpc]; rfl
  have howed : s.owed = s.exch.chunkPages := by unfold State.owed; rw [hpc]
  unfold State.Lists at hl
  rw [hpc] at hl
  unfold State.advance
  rw [hpc]
  dsimp only
  split
  · rename_i p rest hin
    have hpool : Pool m.all ([p] ++ (s.pageList ++ (rest ++ s.outPages))) s.free := by
      refine h.pool.perm ?_
      rw [hin]
      show (p :: (s.pageList ++ (rest ++ s.outPages))).Perm (s.pageList ++ p :: (rest ++ s.outPages))
      exact List.perm_middle.symm
    have hinput := h.input
    rw [hin] at hinput
    refine ⟨?_, hpool.giveBack, h.tot.trans (by rw [howed]; rfl), h.ref, h.same, hinput.free [p],
      h.output, hl, h.progress.stay hchunk rfl hbegun.symm rfl⟩
    show (s.bug || [p].any s.free) = false
    rw [h.bug, hpool.any_free]
    rfl
  · rename_i hin
    refine h.goto hchunk rfl hbegun.symm ?_ ⟨hin, ?_⟩
    · rw [howed]
      show s.exch.chunkPages - 0 * _ = _
      rw [Nat.zero_mul]
      rfl
    · show 0 + s.outChunk.length = _
      rw [hl, Nat.zero_add]

/-- A domain that has a page, or is charged for one, is referenced by its pages. -/
theorem dropPages_bug {n : Nat} (href : s.domRef = true ↔ s.totPages ≠ 0) (hbug : s.bug = false)
    (hn : (n : Int) ≤ s.totPages) : (s.dropPages n).bug = false := by
  unfold State.dropPages
  dsimp only
  rw [hbug, Bool.false_or, Bool.and_eq_false_iff]
  by_cases h0 : s.totPages = 0
  · left
    rw [decide_eq_false_iff_not]
    omega
  · right
    rw [href.2 h0]
    rfl

theorem dropPages_ref {n : Nat} (href : s.domRef = true ↔ s.totPages ≠ 0) (hn : (n : Int) ≤ s.totPages) :
    (s.dropPages n).domRef = true ↔ (s.dropPages n).totPages ≠ 0 := by
  unfold State.dropPages
  dsimp only
  rw [Bool.and_eq_true, href, Bool.not_eq_true', decide_eq_false_iff_not]
  omega

theorem Inv.assign (h : Inv m s) (hpc : s.pc = .assign i j) : Inv m (s.advance a) := by
  have hl := h.lists
  have hchunk : s.pc.chunk = some i := by rw [hpc]; rfl
  have hbegun : s.pc.begun = 1 := by rw [hpc]; rfl
  have howed : s.owed = s.exch.chunkPages - j * 2 ^ s.exch.output.extentOrder := by
    unfold State.owed
    rw [hpc]
  unfold State.Lists at hl
  rw [hpc] at hl
  rcases hl with ⟨hin, hout⟩
  unfold State.advance
  rw [hpc]
  dsimp only
  split
  · rename_i b rest hb
    have hpages : s.outPages = extentPages b s.exch.output.extentOrder ++
        ({ s with outChunk := rest } : State).outPages := by
      rw [← outPages_cons, ← hb]
    have hpool := h.pool
    have houtput := h.output
    rw [hin, List.nil_append, hpages] at hpool
    rw [hpages] at houtput
    have hlen : (extentPages b s.exch.output.extentOrder).length = 2 ^ s.exch.output.extentOrder :=
      List.length_range'
    rw [hb, List.length_cons] at hout
    -- what is charged is what the rest of the chunk will be
    have hrest : s.exch.chunkPages - (j + 1) * 2 ^ s.exch.output.extentOrder + 2 ^ s.exch.output.extentOrder =
        s.exch.chunkPages - j * 2 ^ s.exch.output.extentOrder := by
      rw [chunkPages_eq, ← Nat.sub_mul, ← Nat.sub_mul, ← Nat.succ_mul]
      congr 1
      omega
    split
    · rename_i hdy
      have hle : ((s.exch.chunkPages - j * 2 ^ s.exch.output.extentOrder : Nat) : Int) ≤ s.totPages := by
        rw [h.tot, howed]
        omega
      have hpool' : Pool m.all (extentPages b s.exch.output.extentOrder ++
          (s.pageList ++ ({ s with outChunk := rest } : State).outPages)) s.free :=
        hpool.perm (List.perm_append_comm_assoc ..)
      refine ⟨?_, ?_, ?_, dropPages_ref (s := s) h.ref hle, fun hlive => ?_, ?_, houtput.free _, hin,
        h.progress.stay hchunk rfl hbegun.symm rfl⟩
      · show (_ || (extentPages b s.exch.output.extentOrder).any s.free) = false
        rw [hpool'.any_free, Bool.or_false]
        exact dropPages_bug (s := s) h.ref h.bug hle
      · have := hpool'.giveBack
        rw [← List.nil_append (State.outPages _), ← hin] at this
        exact this
      · show s.totPages - _ = (s.pageList.length : Int) + (0 : Nat)
        rw [h.tot, howed]
        omega
      · have : s.isDying = false := hlive
        rw [hdy] at this
        exact absurd this.symm Bool.false_ne_true
      · exact h.input
    · refine ⟨h.bug, ?_, ?_, h.ref, h.same, h.input, houtput.keep _, ⟨hin, ?_⟩, h.progress.stay hchunk rfl hbegun.symm rfl⟩
      · show Pool m.all ((s.pageList ++ extentPages b s.exch.output.extentOrder) ++ (s.inChunk ++ _)) s.free
        rw [hin, List.nil_append, List.append_assoc]
        exact hpool
      · show s.totPages = ((s.pageList ++ extentPages b s.exch.output.extentOrder).length : Int) +
          ((s.exch.chunkPages - (j + 1) * 2 ^ s.exch.output.extentOrder : Nat) : Int)
        rw [h.tot, howed, List.length_append, hlen]
        omega
      · show j + 1 + rest.length = _
        rw [← hout]
        omega
  · rename_i hb
    rw [hb, List.length_nil, Nat.add_zero] at hout
    have hzero : s.owed = 0 := by
      rw [howed, chunkPages_eq, hout, Nat.sub_self]
    refine ⟨?_, h.pool, ?_, h.ref, h.same, h.input, h.output, ⟨hin, hb⟩, ?_⟩
    · show (s.bug || (!s.isDying && decide (j ≠ 2 ^ s.exch.outChunkOrder))) = false
      rw [h.bug, hout]
      simp
    · rw [h.tot, hzero]
      rfl
    · have hg := h.progress
      unfold State.Progress at hg ⊢
      rw [hchunk] at hg
      rcases hg with ⟨hsame, hsane, hlast, hfirst, hex⟩
      rw [hbegun] at hlast
      refine ⟨hsame, hsane, hlast, Nat.le_succ_of_le hfirst, fun c => ?_⟩
      dsimp only
      rw [List.mem_cons, hex c]
      omega

/-! ## Failing -/

theorem Inv.fail (h : Inv m s) (hpc : s.pc = .fail i rc) : Inv m (s.advance a) := by
  have hl := h.lists
  have hchunk : s.pc.chunk = some i := by rw [hpc]; rfl
  have hbegun : s.pc.begun = 1 := by rw [hpc]; rfl
  have howed : s.owed = s.inChunk.length := by unfold State.owed; rw [hpc]
  unfold State.Lists at hl
  rw [hpc] at hl
  unfold State.advance
  rw [hpc]
  dsimp only
  split
  · rename_i p rest hin
    split
    · rename_i hdy
      rw [hl hdy] at hin
      exact absurd hin (List.cons_ne_nil _ _).symm
    · rename_i hdy
      have hinput := h.input
      rw [hin] at hinput
      refine ⟨h.bug, ?_, ?_, h.ref, h.same, hinput.keep [p], h.output,
        fun hdy' => absurd hdy' hdy, h.progress.stay hchunk rfl hbegun.symm rfl⟩
      · have hpool := h.pool
        rw [hin] at hpool
        show Pool m.all ((s.pageList ++ [p]) ++ (rest ++ s.outPages)) s.free
        rw [List.append_assoc]
        exact hpool
      · show s.totPages = ((s.pageList ++ [p]).length : Int) + (rest.length : Nat)
        rw [h.tot, howed, hin, List.length_append, List.length_cons, List.length_singleton]
        omega
  · rename_i hin
    refine h.goto hchunk rfl hbegun.symm ?_ hin
    rw [howed, hin]
    rfl

/-! ## Returning -/

/-- A call that has nothing in its lists returns with the number of the chunk it has come to. -/
theorem Inv.finish (h : Inv m s) (hchunk : s.pc.chunk = some i) (howed : s.owed = 0)
    (hin : s.inChunk = []) (hout : s.outChunk = []) {nr : Nat}
    (hnr : nr >>> s.exch.inChunkOrder = i ∧ nr % 2 ^ s.exch.inChunkOrder = 0) (rc : Rc) (written : Bool) :
    Inv m ((s.setNr nr).finish rc written) := by
  have hg := h.progress
  unfold State.Progress at hg
  rw [hchunk] at hg
  rcases hg with ⟨hsame, -, -, hfirst, hex⟩
  rw [hsame] at hnr hex hfirst
  rw [← hnr.1] at hex hfirst
  unfold State.finish
  split
  · refine ⟨h.bug, h.pool, h.tot.trans (by rw [howed]; rfl), h.ref, h.same, h.input, h.output, ⟨hin, hout⟩,
      fun _ => ⟨hfirst, hex, .inr hnr.2⟩⟩
  · refine ⟨h.bug, h.pool, h.tot.trans (by rw [howed]; rfl), h.ref, h.same, h.input, h.output, ⟨hin, hout⟩,
      fun hr => ?_⟩
    rcases hr with hr | hr
    · exact absurd hr Bool.false_ne_true
    · exact Pc.noConfusion hr fun hrc => Rc.noConfusion hrc

theorem shift_mul (i o : Nat) : (i <<< o) >>> o = i ∧ (i <<< o) % 2 ^ o = 0 := by
  rw [Nat.shiftLeft_eq, Nat.shiftRight_eq_div_pow]
  exact ⟨Nat.mul_div_cancel _ (Nat.two_pow_pos o), Nat.mul_mod_left ..⟩

theorem Inv.dying (h : Inv m s) (hpc : s.pc = .dying i rc) : Inv m (s.advance a) := by
  have hl := h.lists
  have hchunk : s.pc.chunk = some i := by rw [hpc]; rfl
  have hbegun : s.pc.begun = 1 := by rw [hpc]; rfl
  have howed : s.owed = 0 := by unfold State.owed; rw [hpc]
  unfold State.Lists at hl
  rw [hpc] at hl
  unfold State.advance
  rw [hpc]
  dsimp only
  split
  · rename_i b rest hb
    have hpages : s.outPages = extentPages b s.exch.output.extentOrder ++
        ({ s with outChunk := rest } : State).outPages := by
      rw [← outPages_cons, ← hb]
    have hpool : Pool m.all (extentPages b s.exch.output.extentOrder ++
        (s.pageList ++ (s.inChunk ++ ({ s with outChunk := rest } : State).outPages))) s.free := by
      refine h.pool.perm ?_
      rw [hpages, ← List.append_assoc s.pageList, ← List.append_assoc s.pageList]
      exact List.perm_append_comm_assoc ..
    have houtput := h.output
    rw [hpages] at houtput
    refine ⟨?_, hpool.giveBack, h.tot.trans (by rw [howed]; rfl), h.ref, h.same, h.input, houtput.free _, hl,
      h.progress.stay hchunk rfl hbegun.symm rfl⟩
    show (s.bug || (extentPages b s.exch.output.extentOrder).any s.free) = false
    rw [h.bug, hpool.any_free]
    rfl
  · rename_i hb
    exact h.finish hchunk howed hl hb (shift_mul i _) _ _

/-- A request with lists of the same size is made of whole chunks. -/
theorem sane_chunks {x : Exch} (h : x.sane = true) : x.input.nrExtents % 2 ^ x.inChunkOrder = 0 := by
  unfold Exch.sane at h
  simp only [Bool.and_eq_true, decide_eq_true_eq] at h
  rcases h with ⟨⟨⟨⟨⟨⟨hi, ho⟩, -⟩, -⟩, hin⟩, hout⟩, hsize⟩
  unfold Exch.inChunkOrder
  split
  · rename_i hle
    have hfit : ∀ n k : Nat, n ≤ (2 ^ 64 - 1) >>> k → n <<< k < 2 ^ 64 := by
      intro n k hn
      rw [Nat.shiftRight_eq_div_pow, Nat.le_div_iff_mul_le (Nat.two_pow_pos k)] at hn
      rw [Nat.shiftLeft_eq]
      omega
    rw [Nat.mod_eq_of_lt (hfit _ _ hin), Nat.mod_eq_of_lt (hfit _ _ hout), Nat.shiftLeft_eq, Nat.shiftLeft_eq,
      ← Nat.sub_add_cancel hle, Nat.pow_add, ← Nat.mul_assoc] at hsize
    rw [Nat.eq_of_mul_eq_mul_right (Nat.two_pow_pos _) hsize]
    exact Nat.mul_mod_left ..
  · rw [Nat.pow_zero, Nat.mod_one]

theorem Inv.head (h : Inv m s) (hpc : s.pc = .head i) : Inv m (s.advance a) := by
  have hl := h.lists
  have hchunk : s.pc.chunk = some i := by rw [hpc]; rfl
  have howed : s.owed = 0 := by unfold State.owed; rw [hpc]
  have hg := h.progress
  unfold State.Progress at hg
  rw [hchunk] at hg
  rcases hg with ⟨hsame, hsane, hlast, hfirst, hex⟩
  unfold State.Lists at hl
  rw [hpc] at hl
  unfold State.advance
  rw [hpc]
  dsimp only
  split
  · rename_i hlt
    split
    · exact h.finish hchunk howed hl.1 hl.2 (shift_mul i _) _ _
    · refine ⟨h.bug, h.pool, h.tot.trans ?_, h.ref, h.same, h.input, h.output, ⟨hl.2, ?_, Nat.zero_le _⟩,
        ⟨hsame, hsane, hlt, hfirst, hex⟩⟩
      · show _ = (s.pageList.length : Int) + (s.inChunk.length : Nat)
        rw [howed, hl.1]
        rfl
      · show s.inChunk.length = _
        rw [hl.1, Nat.zero_mul]
        rfl
  · rename_i hge
    have hi : s.exch.input.nrExtents >>> s.exch.inChunkOrder = i := by
      rw [hpc] at hlast
      exact Nat.le_antisymm (Nat.le_of_not_lt hge) hlast
    exact h.finish hchunk howed hl.1 hl.2 ⟨hi, sane_chunks hsane⟩ _ _

/-! ## All steps -/

theorem Inv.advance (h : Inv m s) (hfine : fine (.next a) s = true) : Inv m (s.advance a) := by
  cases hpc : s.pc with
  | idle =>
    unfold State.advance
    rw [hpc]
    exact h
  | head i => exact h.head hpc
  | extent i j => exact h.extent hpc hfine
  | page i j k => exact h.page hpc hfine
  | alloc i j => exact h.alloc hpc hfine
  | release i => exact h.release hpc
  | assign i j => exact h.assign hpc
  | fail i rc => exact h.fail hpc
  | dying i rc => exact h.dying hpc
  | returned rc =>
    unfold State.advance
    rw [hpc]
    exact h

/-- A request that does not pass the checks is left as it is. -/
theorem Inv.reject (h : Inv m s) (hidle : s.pc.idles = true) (hsame : s.exch = s.guest) (htold : s.Told)
    (rc : Rc) (written : Bool) : Inv m (s.finish rc written) := by
  rcases h.idle hidle with ⟨-, hin, hout, -, -⟩
  rcases h.parts hidle with ⟨hpool, htot, hinput, houtput⟩
  unfold State.finish
  split
  · refine .ofIdle rfl hin hout h.bug hpool htot h.ref h.same hinput houtput fun _ => ?_
    rw [hsame]
    exact htold
  · exact .ofIdle rfl hin hout h.bug hpool htot h.ref h.same hinput houtput fun _ => htold

theorem Inv.enter (h : Inv m s) (hidle : s.pc.idles = true) (htold : s.Told) (e : Entry) :
    Inv m (s.enter e) := by
  rcases h.idle hidle with ⟨-, hin, hout, -, -⟩
  rcases h.parts hidle with ⟨hpool, htot, hinput, houtput⟩
  have hread : Inv m { s with exch := s.guest } :=
    .ofIdle hidle hin hout h.bug hpool htot h.ref h.same hinput houtput fun _ => htold
  unfold State.enter
  split
  · exact .ofIdle rfl hin hout h.bug hpool htot h.ref h.same hinput houtput fun _ => htold
  · dsimp only
    split
    · exact hread.reject hidle rfl htold _ _
    · rename_i hsane
      split
      · exact hread.reject hidle rfl htold _ _
      · split
        · exact hread.reject hidle rfl htold _ _
        · split
          · exact hread.reject hidle rfl htold _ _
          · have hs : s.guest.sane = true := by simpa using hsane
            have hle : s.guest.nrExchanged ≤ s.guest.input.nrExtents := by
              unfold Exch.sane at hs
              simp only [Bool.and_eq_true, decide_eq_true_eq] at hs
              exact hs.1.1.1.1.2
            refine ⟨h.bug, hread.pool, htot.trans (Int.add_zero _).symm, h.ref, h.same, h.input,
              hread.output, ⟨hin, hout⟩, rfl, hs, ?_, htold.1, htold.2.1⟩
            show s.guest.nrExchanged >>> _ + 0 ≤ _
            rw [Nat.shiftRight_eq_div_pow, Nat.shiftRight_eq_div_pow]
            exact Nat.div_le_div_right hle

theorem Inv.call (h : Inv m s) (hidle : s.pc.idles = true) (x : Exch) (e : Entry) :
    Inv m (s.call x e) := by
  rcases h.idle hidle with ⟨-, hin, hout, -, -⟩
  rcases h.parts hidle with ⟨hpool, htot, -, -⟩
  have htold : (s.prepare x).Told := by
    refine ⟨Nat.le_refl _, fun c => ⟨fun hc => absurd hc List.not_mem_nil, fun hc => ?_⟩, .inl rfl⟩
    exact absurd hc.2 (Nat.not_lt.2 hc.1)
  have hprep : Inv m (s.prepare x) :=
    .ofIdle hidle hin hout h.bug hpool htot h.ref (fun _ => rfl) (fun _ => rfl) (fun _ => rfl) fun _ => htold
  exact hprep.enter hidle htold e

theorem Inv.continuation (h : Inv m s) (hpc : s.pc = .returned .continuation) (e : Entry) :
    Inv m (s.enter e) := by
  have hg := h.progress
  unfold State.Progress at hg
  rw [hpc] at hg
  exact h.enter (by rw [hpc]; rfl) (hg (.inr rfl)) e

/-- A page of the dying domain is freed. -/
theorem Inv.relinquish (h : Inv m s) (p : Nat) : Inv m (s.relinquish p) := by
  unfold State.relinquish
  split
  · rename_i hp
    simp only [Bool.and_eq_true, decide_eq_true_eq] at hp
    rcases hp with ⟨hdy, hmem⟩
    have hlen := List.length_erase_add_one hmem
    have hle : ((1 : Nat) : Int) ≤ s.totPages := by
      rw [h.tot]
      omega
    have hpool : Pool m.all ([p] ++ (s.pageList.erase p ++ (s.inChunk ++ s.outPages))) s.free :=
      h.pool.perm ((List.perm_cons_erase hmem).symm.append_right _)
    refine ⟨?_, hpool.giveBack, ?_, dropPages_ref (s := s) h.ref hle, fun hlive => ?_, h.input, h.output,
      h.lists, h.progress⟩
    · show (_ || [p].any s.free) = false
      rw [hpool.any_free, Bool.or_false]
      exact dropPages_bug (s := s) h.ref h.bug hle
    · show s.totPages - (1 : Nat) = ((s.pageList.erase p).length : Int) + (s.owed : Nat)
      rw [h.tot]
      omega
    · have : s.isDying = false := hlive
      rw [hdy] at this
      exact absurd this.symm Bool.false_ne_true
  · exact h

theorem Inv.die (h : Inv m s) (hfine : fine .die s = true) : Inv m { s with isDying := true } := by
  refine ⟨h.bug, h.pool, h.tot, h.ref, fun hlive => absurd hlive Bool.noConfusion, h.input, h.output, ?_,
    h.progress⟩
  have hl := h.lists
  unfold State.Lists at hl ⊢
  cases hpc : s.pc
  case fail i rc =>
    intro _
    unfold fine at hfine
    rw [hpc] at hfine
    simpa [Pc.failed] using hfine
  all_goals
    rw [hpc] at hl
    exact hl

theorem Inv.act (step : Step) (s : State) (hfine : fine step s = true) (h : Inv m s) :
    Inv m (act step s) := by
  have hbug : ¬s.bug = true := by
    rw [h.bug]
    exact Bool.false_ne_true
  unfold Exchange.act
  rw [if_neg hbug]
  cases step with
  | call exch e =>
    dsimp only
    split
    · rename_i hidle
      exact h.call hidle exch e
    · exact h
  | continuation e =>
    dsimp only
    split
    · rename_i hpc
      exact h.continuation hpc e
    · exact h
  | next a => exact h.advance hfine
  | die => exact h.die hfine
  | relinquish p => exact h.relinquish p

theorem Inv.init (m : Machine) : Inv m (.init m) := by
  refine .ofIdle rfl rfl rfl rfl ⟨m.nodup, m.apart, fun p => Iff.rfl⟩ rfl ?_ (fun _ => rfl) (fun _ => rfl)
    (fun _ => rfl) fun _ => ⟨Nat.le_refl _, fun c => ⟨fun hc => absurd hc List.not_mem_nil, fun hc => ?_⟩, .inl rfl⟩
  · show (!m.pageList.isEmpty) = true ↔ (m.pageList.length : Int) ≠ 0
    rw [Bool.not_eq_true', Bool.eq_false_iff, ne_eq, List.isEmpty_iff_length_eq_zero]
    omega
  · exact absurd hc.2 (Nat.not_lt.2 hc.1)

end Steps

/-- In every run that is fine no `BUG` is reached, and nothing is lost when a call returns. -/
theorem run_conserved (m : Machine) (steps : List Step)
    (h : Runs.Each act (fun step s => fine step s = true) steps (.init m)) :
    (Runs.run act steps (.init m)).bug = false ∧
      ((Runs.run act steps (.init m)).pc.idles = true → Conserved m (Runs.run act steps (.init m))) := by
  have hinv : Inv m (Runs.run act steps (.init m)) := h.inv Inv.act (Inv.init m)
  exact ⟨hinv.bug, hinv.conserved⟩

/-- A domain with the pages 0 and 1; the pages 2 to 5 are free. -/
def twoPages : Machine where
  pageList := [0, 1]
  free p := decide (2 ≤ p ∧ p < 6)
  nodup := by decide
  apart := by decide

/-- An answer that makes nothing fail: the page `p` is found, and the heap has the block `b`. -/
def Answer.good (p b : Nat) : Answer := ⟨false, true, .page p true, some b⟩

def Entry.good : Entry := ⟨true, true, true, true, true⟩

/-- Both pages are exchanged as one extent for two single pages, and the domain starts dying
when it has the first of them. -/
def diesLate : List Step :=
  [.call ⟨⟨1, 1, 3⟩, ⟨2, 0, 3⟩, 0⟩ .good, .next (.good 0 0), .next (.good 0 0),
   .next (.good 0 0), .next (.good 1 0), .next (.good 0 0), .next (.good 0 0),
   .next (.good 0 2), .next (.good 0 3), .next (.good 0 0),
   .next (.good 0 0), .next (.good 0 0), .next (.good 0 0), .next (.good 0 0),
   .die, .relinquish 3, .next (.good 0 0), .next (.good 0 0)]

theorem run_conserved_diesLate :
    Conserved twoPages (Runs.run act diesLate (.init twoPages)) :=
  (run_conserved twoPages diesLate (by decide +kernel)).2 (by decide +kernel)

/-- Two pages are to be exchanged for an extent of two. One is stolen, the domain starts dying,
and the second input extent cannot be read. -/
def diesEarly : List Step :=
  [.call ⟨⟨2, 0, 3⟩, ⟨1, 1, 3⟩, 0⟩ .good, .next (.good 0 0), .next (.good 0 0), .next (.good 0 0),
   .next (.good 0 0), .die, .next ⟨false, false, .invalid, none⟩, .next (.good 0 0)]

theorem failed_exchange_bug : (Runs.run act diesEarly (.init twoPages)).bug = true := by
  decide +kernel

end Memory.Exchange
