import MemoryMonitor.Memory.Reservation
import MemoryMonitor.P2m.M2p

/-!
# The cache of populate-on-demand

A domain that boots with less memory than it believes to have gets its pages from a cache when it first
touches them (`xen/arch/x86/mm/p2m.c`). The cache holds superpages and single pages, and `pod.count` is the
number of pages in it.
-/

namespace P2m

open Memory.Reservation

/-- A domain with its PoD cache: `pod.count` pages, in superpages and single pages. -/
structure Pod extends State where
  count : Int
  super : List Nat
  single : List Nat
  isDying : Bool
  /-- `get_page(page, d)` succeeds. -/
  getPage : Nat → Bool
  /-- A debug build: `p2m_pod_cache_add` looks whose the page is. -/
  debug : Bool

namespace Pod

/-- `SUPERPAGE_PAGES`. -/
def superpagePages : Nat := 512

/-- `p2m_pod_cache_get`. There may be no superpage; that there is no page at all is a `BUG`. -/
def cacheGet (s : Pod) (order : Nat) : Option (Nat × Pod) :=
  if order = 9 then
    match s.super with
    | [] => none
    | page :: rest => some (page, { s with super := rest, count := s.count - superpagePages })
  else
    match s.single, s.super with
    | page :: rest, _ => some (page, { s with single := rest, count := s.count - 1 })
    | [], [] => none
    | [], page :: rest =>
        -- a superpage is broken up
        let single := List.range' (page + 1) (superpagePages - 1)
        some (page, { s with super := rest, single := single, count := s.count - 1 })

end Pod

end P2m
