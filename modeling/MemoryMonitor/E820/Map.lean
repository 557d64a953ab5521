import MemoryMonitor.Lib.Regions

/-!
# The E820 map

The table of memory regions that the firmware hands over and that the hypervisor then edits in
place: `e820_change_range_type` gives a part of one region another type, and `clip_to_limit`
takes the RAM above a limit away. The array is the list of its first `nr_map` entries.
-/

namespace E820

def e820Ram : BitVec 32 := 1
def e820Reserved : BitVec 32 := 2
def e820Acpi : BitVec 32 := 3
def e820Nvs : BitVec 32 := 4
def e820Unusable : BitVec 32 := 5

/-- `E820MAX`, the number of entries the array has room for. -/
def e820Max : Nat := 128

/-- `struct e820entry`. -/
structure Entry where
  addr : BitVec 64
  size : BitVec 64
  type : BitVec 32
deriving DecidableEq, Repr

/-- The first address after the region, in the arithmetic of `uint64_t`. -/
def Entry.stop (r : Entry) : BitVec 64 := r.addr + r.size

/-- `memmove` makes room at the entry `i` for its pieces, or closes the gap it leaves. -/
def replaceAt (map : List Entry) (i : Nat) (pieces : List Entry) : List Entry :=
  map.take i ++ (pieces ++ map.drop (i + 1))

/-- The last loop of `e820_change_range_type`. After a merge the index is stepped back, so that
the merged entry is compared with its next neighbour too. -/
def mergeAdjacent (map : List Entry) (i : Nat) : List Entry :=
  if h : i + 1 < map.length then
    if map[i].type ≠ map[i + 1].type ∨ map[i].stop ≠ map[i + 1].addr then
      mergeAdjacent map (i + 1)
    else
      mergeAdjacent ((map.set i { map[i] with size := map[i].size + map[i + 1].size }).eraseIdx (i + 1)) i
  else map
termination_by map.length - i
decreasing_by
  · omega
  · simp only [List.length_eraseIdx, List.length_set]
    split <;> omega

/-- The shapes in which a region is split by `[s, e)`: it is the range, it begins or ends with
it, or it has something on both sides. -/
def splitEntry (r : Entry) (s e : BitVec 64) (newType : BitVec 32) : List Entry :=
  if s = r.addr ∧ e = r.stop then
    [{ r with type := newType }]
  else if s = r.addr then
    [{ r with size := e - s, type := newType }, { r with addr := e, size := r.stop - e }]
  else if e = r.stop then
    [{ r with size := s - r.addr }, { addr := s, size := e - s, type := newType }]
  else
    [{ r with size := s - r.addr }, { addr := s, size := e - s, type := newType },
      { r with addr := e, size := r.stop - e }]

/-- `e820_change_range_type`. -/
def e820ChangeRangeType (map : List Entry) (s e : BitVec 64) (origType newType : BitVec 32) :
    Bool × List Entry :=
  let i := map.findIdx fun r => decide (r.addr ≤ s ∧ e ≤ r.stop)
  match map[i]? with
  | none => (false, map)
  | some r =>
      if r.type ≠ origType then (false, map)
      else
        let pieces := splitEntry r s e newType
        -- room is asked for only where entries come in addition
        if pieces.length ≠ 1 ∧ map.length + (pieces.length - 1) > e820Max then (false, map)
        else (true, mergeAdjacent (replaceAt map i pieces) 0)

/-- The rounds of `clip_to_limit`: each finds the first RAM region that goes beyond the limit
and does away with what is above. -/
def clipRounds (limit : BitVec 64) : Nat → List Entry → Option (List Entry)
  | 0, _ => none
  | rounds + 1, map =>
      let i := map.findIdx fun r => decide (r.type = e820Ram ∧ limit < r.stop)
      match map[i]? with
      | none => some map
      | some r =>
          match e820ChangeRangeType map (if r.addr < limit then limit else r.addr) r.stop
              e820Ram e820Unusable with
          | (true, map) => clipRounds limit rounds map
          | (false, map) =>
              -- the table is full: the region is cut, or deleted
              if r.addr < limit then
                clipRounds limit rounds (map.set i { r with size := limit - r.addr })
              else clipRounds limit rounds (map.eraseIdx i)

/-- `clip_to_limit`, with as many rounds as there are entries, and the one that finds none. -/
def clipToLimit (limit : BitVec 64) (map : List Entry) : Option (List Entry) :=
  clipRounds limit (map.length + 1) map

/-- The loop over the map that stops when there is more RAM than `opt_availmem`: the entry it
stopped after, and the sum. -/
def sumRam (availmem : BitVec 64) : List Entry → Option Entry → BitVec 64 → Option Entry × BitVec 64
  | [], last, size => (last, size)
  | r :: map, last, size =>
      if size ≤ availmem then
        sumRam availmem map (some r) (if r.type = e820Ram then size + r.size else size)
      else (last, size)

/-- The limit that `machine_specific_memory_setup` derives from `opt_availmem`. -/
def availLimit (availmem : BitVec 64) (map : List Entry) : Option (BitVec 64) :=
  match sumRam availmem map none 0 with
  | (some r, size) => if availmem < size then some (r.stop - (size - availmem)) else none
  | (none, _) => none

/-! ## What a map means -/

/-- The addresses of a region, as numbers. -/
def Entry.lo (r : Entry) : ℕ := r.addr.toNat
def Entry.hi (r : Entry) : ℕ := r.addr.toNat + r.size.toNat

/-- The address has the type in the map. -/
def HasType (map : List Entry) (z : ℕ) (t : BitVec 32) : Prop :=
  Regions.Tagged Entry.lo Entry.hi Entry.type map z t

/-- A map in order and without overlap, in which no region wraps around. -/
structure Wf (map : List Entry) : Prop where
  ascending : Regions.Ascending Entry.lo Entry.hi map
  noWrap : ∀ r ∈ map, r.hi < 2 ^ 64
  fits : map.length ≤ e820Max

end E820
