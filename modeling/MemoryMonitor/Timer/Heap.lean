import MemoryMonitor.Lib.BinHeap

/-!
# The heap of a CPU's timers (`xen/common/timer.c`)

The first word of the array holds the size and the limit of the heap, 16 bits
each; the timers are in the slots from 1 on, and `heap_offset` in a timer is its
slot. `Sifted` says what `up_heap` and `down_heap` do.
-/

namespace Timer

/-- A `struct timer`, by address. -/
abbrev Tid := Nat

/-- `struct timer **heap`. -/
structure Heap where
  slot : Nat → Tid
  /-- `GET_HEAP_SIZE`. -/
  size : Nat
  /-- `GET_HEAP_LIMIT`. -/
  limit : Nat
  /-- The number of words that are allocated. -/
  slots : Nat

/-- `dummy_heap`. -/
def Heap.dummy : Heap := ⟨fun _ => 0, 0, 0, 1⟩

namespace Heap

/-- A heap, and `heap_offset` of all timers. -/
abbrev Placed := Heap × (Tid → Nat)

/-- `SET_HEAP_SIZE`. -/
def setSize (h : Heap) (v : Nat) : Heap := { h with size := v % 2 ^ 16 }

/-- `SET_HEAP_LIMIT`. -/
def setLimit (h : Heap) (v : Nat) : Heap := { h with limit := v % 2 ^ 16 }

/-- `heap[pos] = t; t->heap_offset = pos`. -/
def put (pos : Nat) (t : Tid) (h : Placed) : Placed :=
  ({ h.1 with slot := Function.update h.1.slot pos t }, Function.update h.2 t pos)

variable (expires : Tid → Int)

/-- The loop of `down_heap`; `fuel` bounds its rounds. -/
def downLoop (t : Tid) : Nat → Nat → Placed → Placed
  | 0, pos, h => put pos t h
  | fuel + 1, pos, h =>
      let sz := h.1.size
      let nxt := 2 * pos
      if nxt ≤ sz then
        let nxt :=
          if nxt + 1 ≤ sz ∧ expires (h.1.slot (nxt + 1)) < expires (h.1.slot nxt) then nxt + 1
          else nxt
        if expires (h.1.slot nxt) > expires t then put pos t h
        else downLoop t fuel nxt (put pos (h.1.slot nxt) h)
      else put pos t h

def downHeap (h : Placed) (pos : Nat) : Placed :=
  downLoop expires (h.1.slot pos) h.1.size pos h

/-- The loop of `up_heap`; `fuel` bounds its rounds. -/
def upLoop (t : Tid) : Nat → Nat → Placed → Placed
  | 0, pos, h => put pos t h
  | fuel + 1, pos, h =>
      if pos > 1 ∧ expires t < expires (h.1.slot (pos / 2)) then
        upLoop t fuel (pos / 2) (put pos (h.1.slot (pos / 2)) h)
      else put pos t h

def upHeap (h : Placed) (pos : Nat) : Placed := upLoop expires (h.1.slot pos) pos pos h

/-- `remove_from_heap`: whether `t` was the top, and what remains. -/
def removeFromHeap (h : Placed) (t : Tid) : Bool × Placed :=
  let sz := h.1.size
  let pos := h.2 t
  if pos = sz then (pos == 1, h.1.setSize (sz - 1), h.2)
  else
    let h := put pos (h.1.slot sz) h
    let h : Placed := (h.1.setSize (sz - 1), h.2)
    if pos > 1 ∧ expires (h.1.slot pos) < expires (h.1.slot (pos / 2)) then
      (pos == 1, upHeap expires h pos)
    else (pos == 1, downHeap expires h pos)

/-- `add_to_heap`: whether `t` is the new top. Nothing happens if the heap is full. -/
def addToHeap (h : Placed) (t : Tid) : Bool × Placed :=
  let sz := h.1.size
  if sz = h.1.limit then (false, h)
  else
    let h : Placed := (h.1.setSize (sz + 1), h.2)
    let h := put (sz + 1) t h
    let h := upHeap expires h (sz + 1)
    (h.2 t == 1, h)

/-! ## Sifting -/

/-- The slots `1..size` are a heap on `expires`, within the limit. -/
structure Ok (h : Placed) : Prop where
  ordered : BinHeap.Ordered expires h.1.size h.1.slot
  indexed : BinHeap.Indexed h.1.size h.1.slot h.2
  size_le : h.1.size ≤ h.1.limit
  limit_lt : h.1.limit < h.1.slots
  limit_bits : h.1.limit < 2 ^ 16

/-- The timer is in the heap. -/
def Mem (h : Heap) (t : Tid) : Prop := BinHeap.Mem h.size h.slot t

/-- `t` has been put into a heap that had a hole at `pos`. -/
structure Sifted (h : Placed) (pos : Nat) (t : Tid) (h' : Placed) : Prop where
  ordered : BinHeap.Ordered expires h.1.size h'.1.slot
  indexed : BinHeap.Indexed h.1.size h'.1.slot h'.2
  mem : ∀ x, BinHeap.Mem h.1.size h'.1.slot x ↔ BinHeap.HoleMem h.1.size h.1.slot pos t x
  /-- No other timer is touched. -/
  frame : ∀ x, ¬BinHeap.HoleMem h.1.size h.1.slot pos t x → h'.2 x = h.2 x
  size : h'.1.size = h.1.size
  limit : h'.1.limit = h.1.limit
  slots : h'.1.slots = h.1.slots

section Sift

open BinHeap

variable {expires : Tid → Int} {h h' : Placed} {pos q : Nat} {t : Tid}

theorem Sifted.finish (hole : Hole h.1.size h.1.slot h.2 pos t)
    (ho : Ordered expires h.1.size (Function.update h.1.slot pos t)) :
    Sifted expires h pos t (put pos t h) where
  ordered := ho
  indexed := hole.finish
  mem := hole.finish_mem
  frame x hx := by
    have hne : x ≠ t := fun he => hx (.inl he)
    exact Function.update_of_ne hne ..
  size := rfl
  limit := rfl
  slots := rfl

/-- The timer of slot `q` has moved into the hole. -/
theorem Sifted.move (hole : Hole h.1.size h.1.slot h.2 pos t) (hq : 1 ≤ q) (hqn : q ≤ h.1.size)
    (hne : q ≠ pos) (hs : Sifted expires (put pos (h.1.slot q) h) q t h') :
    Sifted expires h pos t h' where
  ordered := hs.ordered
  indexed := hs.indexed
  mem x := (hs.mem x).trans (hole.move_mem hq hqn hne x)
  frame x hx := by
    rw [hs.frame x fun hx' => hx ((hole.move_mem hq hqn hne x).mp hx')]
    have hxq : x ≠ h.1.slot q := by
      rintro rfl
      exact hx (.inr ⟨q, hq, hqn, hne, rfl⟩)
    exact Function.update_of_ne hxq ..
  size := hs.size
  limit := hs.limit
  slots := hs.slots

theorem upLoop_sifted {fuel : Nat} (hfuel : pos ≤ fuel) (hole : Hole h.1.size h.1.slot h.2 pos t)
    (ho : UpOrder expires h.1.size h.1.slot pos t) :
    Sifted expires h pos t (upLoop expires t fuel pos h) := by
  induction fuel generalizing pos h with
  | zero =>
    have := hole.one_le
    omega
  | succ fuel ih =>
    have hpos := hole.one_le
    have hn := hole.le
    unfold upLoop
    split
    · next hc =>
      -- the hole moves to the parent
      have hhole := hole.move (q := pos / 2) (by omega) (by omega) (by omega)
      have horder := ho.move (by omega) hn hc.2
      exact .move hole (by omega) (by omega) (by omega) (ih (by omega) hhole horder)
    · next hc =>
      refine .finish hole (ho.finish hpos fun h2 => ?_)
      by_contra hlt
      exact hc ⟨by omega, not_le.mp hlt⟩

/-- The child that `down_heap` goes on with. -/
theorem lesser_child {s : Nat → Tid} {n : Nat} (hn : 2 * pos ≤ n)
    (hq : (if 2 * pos + 1 ≤ n ∧ expires (s (2 * pos + 1)) < expires (s (2 * pos)) then 2 * pos + 1
      else 2 * pos) = q) :
    q / 2 = pos ∧ q ≤ n ∧ ∀ i, 2 ≤ i → i ≤ n → i / 2 = pos → expires (s q) ≤ expires (s i) := by
  split at hq
  · next hc =>
    subst hq
    refine ⟨by omega, hc.1, fun i hi hin hip => ?_⟩
    have hi' : i = 2 * pos ∨ i = 2 * pos + 1 := by omega
    rcases hi' with rfl | rfl
    · exact hc.2.le
    · exact le_rfl
  · next hc =>
    subst hq
    refine ⟨by omega, hn, fun i hi hin hip => ?_⟩
    have hi' : i = 2 * pos ∨ i = 2 * pos + 1 := by omega
    rcases hi' with rfl | rfl
    · exact le_rfl
    · by_contra hlt
      exact hc ⟨hin, not_le.mp hlt⟩

theorem downLoop_sifted {fuel : Nat} (hfuel : h.1.size < pos + fuel)
    (hole : Hole h.1.size h.1.slot h.2 pos t) (ho : DownOrder expires h.1.size h.1.slot pos t) :
    Sifted expires h pos t (downLoop expires t fuel pos h) := by
  induction fuel generalizing pos h with
  | zero =>
    have := hole.le
    omega
  | succ fuel ih =>
    have hpos := hole.one_le
    unfold downLoop
    dsimp only
    split
    · next hle =>
      generalize hq : (if 2 * pos + 1 ≤ h.1.size ∧
        expires (h.1.slot (2 * pos + 1)) < expires (h.1.slot (2 * pos)) then 2 * pos + 1
        else 2 * pos) = q
      obtain ⟨hqp, hqn, hleast⟩ := lesser_child hle hq
      split
      · next hgt =>
        refine .finish hole (ho.finish hpos fun i hi hin hip => ?_)
        exact hgt.le.trans (hleast i hi hin hip)
      · next hle' =>
        -- the hole moves to the lesser child
        have hhole := hole.move (q := q) (by omega) hqn (by omega)
        have horder := ho.move hpos hqp hqn (not_lt.mp hle') hleast
        refine .move hole (by omega) hqn (by omega) (ih ?_ hhole horder)
        show h.1.size < q + fuel
        omega
    · next hgt =>
      refine .finish hole (ho.finish hpos fun i hi hin hip => ?_)
      omega

/-! ## Removing and adding -/

theorem Ok.mem_offset (hok : Ok expires h) (hm : Mem h.1 t) :
    1 ≤ h.2 t ∧ h.2 t ≤ h.1.size ∧ h.1.slot (h.2 t) = t := by
  obtain ⟨i, hi, hin, rfl⟩ := hm
  rw [hok.indexed i hi hin]
  exact ⟨hi, hin, rfl⟩

theorem Ok.size_bits (hok : Ok expires h) : h.1.size < 2 ^ 16 :=
  lt_of_le_of_lt hok.size_le hok.limit_bits

/-- What `remove_from_heap` leaves. -/
structure Removed (expires : Tid → Int) (h : Placed) (t : Tid) (h' : Placed) : Prop where
  ok : Ok expires h'
  mem : ∀ x, Mem h'.1 x ↔ Mem h.1 x ∧ x ≠ t
  frame : ∀ x, ¬Mem h.1 x → h'.2 x = h.2 x
  size : h'.1.size + 1 = h.1.size
  limit : h'.1.limit = h.1.limit
  slots : h'.1.slots = h.1.slots

/-- The last timer `u` takes the place of the one that is removed. -/
theorem Removed.of_sifted (hok : Ok expires h) (hm : Mem h.1 t) (hlast : h.2 t ≠ h.1.size)
    (hs : Sifted expires ((put (h.2 t) (h.1.slot h.1.size) h).1.setSize (h.1.size - 1),
      (put (h.2 t) (h.1.slot h.1.size) h).2) (h.2 t) (h.1.slot h.1.size) h') :
    Removed expires h t h' := by
  obtain ⟨hpos, hle, hslot⟩ := hok.mem_offset hm
  have hbits := hok.size_bits
  have hsize : (h.1.size - 1) % 2 ^ 16 = h.1.size - 1 := Nat.mod_eq_of_lt (by omega)
  have hsz : h'.1.size = h.1.size - 1 := hs.size.trans hsize
  have hmem (x : Tid) : Mem h'.1 x ↔ Mem h.1 x ∧ x ≠ t := by
    unfold Mem
    rw [hsz]
    have hx := hs.mem x
    change BinHeap.Mem ((h.1.size - 1) % 2 ^ 16) _ x ↔ HoleMem ((h.1.size - 1) % 2 ^ 16)
      (Function.update h.1.slot (h.2 t) (h.1.slot h.1.size)) (h.2 t) _ x at hx
    rw [hsize] at hx
    rw [hx]
    constructor
    · rintro (rfl | ⟨i, hi, hin, hip, rfl⟩)
      · refine ⟨⟨h.1.size, by omega, le_rfl, rfl⟩, fun he => hlast ?_⟩
        rw [← he, hok.indexed _ (by omega) le_rfl]
      · rw [Function.update_of_ne hip]
        refine ⟨⟨i, hi, by omega, rfl⟩, fun he => hip ?_⟩
        rw [← he, hok.indexed i hi (by omega)]
    · rintro ⟨⟨i, hi, hin, rfl⟩, hne⟩
      by_cases hil : i = h.1.size
      · exact .inl (by rw [hil])
      · have hip : i ≠ h.2 t := by
          rintro rfl
          exact hne hslot
        exact .inr ⟨i, hi, by omega, hip, Function.update_of_ne hip ..⟩
  refine ⟨⟨?_, ?_, ?_, ?_, ?_⟩, hmem, ?_, by omega, hs.limit, hs.slots⟩
  · rw [hs.size]
    exact hs.ordered
  · rw [hs.size]
    exact hs.indexed
  · rw [hsz, hs.limit]
    exact (Nat.sub_le ..).trans hok.size_le
  · rw [hs.limit, hs.slots]
    exact hok.limit_lt
  · rw [hs.limit]
    exact hok.limit_bits
  · intro x hx
    have hxu : x ≠ h.1.slot h.1.size := by
      rintro rfl
      exact hx ⟨h.1.size, by omega, le_rfl, rfl⟩
    rw [hs.frame x]
    · exact Function.update_of_ne hxu ..
    · intro hh
      have := (hs.mem x).mpr hh
      rw [show (setSize _ _).size = h'.1.size from hs.size.symm] at this
      exact hx ((hmem x).mp this).1

/-- The timers but the one at `pos`, with the last one in hand. -/
theorem Ok.hole (hok : Ok expires h) (hp : 1 ≤ pos) (hlt : pos < h.1.size) :
    Hole (h.1.size - 1) (Function.update h.1.slot pos (h.1.slot h.1.size))
      (Function.update h.2 (h.1.slot h.1.size) pos) pos (h.1.slot h.1.size) := by
  have hne {i : Nat} (hi : 1 ≤ i) (hin : i ≤ h.1.size - 1) : h.1.slot i ≠ h.1.slot h.1.size := by
    intro he
    have := hok.indexed.inj hi (by omega) (by omega) le_rfl he
    omega
  refine ⟨hp, by omega, ?_, ?_⟩
  · intro i hi hin hip
    rw [Function.update_of_ne hip, Function.update_of_ne (hne hi hin)]
    exact hok.indexed i hi (by omega)
  · intro i hi hin hip
    rw [Function.update_of_ne hip]
    exact hne hi hin

theorem removeFromHeap_removed (hok : Ok expires h) (hm : Mem h.1 t) :
    Removed expires h t (removeFromHeap expires h t).2 := by
  obtain ⟨hpos, hle, hslot⟩ := hok.mem_offset hm
  have hbits := hok.size_bits
  have hsize : (h.1.size - 1) % 2 ^ 16 = h.1.size - 1 := Nat.mod_eq_of_lt (by omega)
  unfold removeFromHeap
  dsimp only
  split
  · next hlast =>
    -- the last slot: nothing has to move
    have hsz : (h.1.setSize (h.1.size - 1)).size = h.1.size - 1 := hsize
    refine ⟨⟨?_, ?_, ?_, hok.limit_lt, hok.limit_bits⟩, ?_, fun _ _ => rfl, ?_, rfl, rfl⟩
    · rw [hsz]
      exact fun i hi hin => hok.ordered i hi (by omega)
    · rw [hsz]
      exact fun i hi hin => hok.indexed i hi (by omega)
    · rw [hsz]
      exact (Nat.sub_le ..).trans hok.size_le
    · intro x
      unfold Mem
      rw [hsz]
      constructor
      · rintro ⟨i, hi, hin, rfl⟩
        refine ⟨⟨i, hi, by omega, rfl⟩, ?_⟩
        intro he
        have := hok.indexed i hi (by omega)
        change h.1.slot i = t at he
        rw [he] at this
        omega
      · rintro ⟨⟨i, hi, hin, rfl⟩, hne⟩
        refine ⟨i, hi, ?_, rfl⟩
        have hil : i ≠ h.1.size := by
          rintro rfl
          rw [← hlast] at hne
          exact hne hslot
        omega
    · rw [hsz]
      omega
  · next hlast =>
    have hlt : h.2 t < h.1.size := by omega
    have hhole := hok.hole hpos hlt
    have hparent (h2 : 2 ≤ h.2 t) :
        Function.update h.1.slot (h.2 t) (h.1.slot h.1.size) (h.2 t / 2) = h.1.slot (h.2 t / 2) :=
      Function.update_of_ne (by omega) ..
    -- what does not touch the slot is in order as before
    have hrest (i : Nat) (hi : 2 ≤ i) (hin : i ≤ h.1.size - 1) (hip : i ≠ h.2 t)
        (hpi : i / 2 ≠ h.2 t) :
        expires (Function.update h.1.slot (h.2 t) (h.1.slot h.1.size) (i / 2))
          ≤ expires (Function.update h.1.slot (h.2 t) (h.1.slot h.1.size) i) := by
      rw [Function.update_of_ne hip, Function.update_of_ne hpi]
      exact hok.ordered i hi (by omega)
    have hgrand (h2 : 2 ≤ h.2 t) (i : Nat) (hi : 2 ≤ i) (hin : i ≤ h.1.size - 1)
        (hpi : i / 2 = h.2 t) :
        expires (Function.update h.1.slot (h.2 t) (h.1.slot h.1.size) (h.2 t / 2))
          ≤ expires (Function.update h.1.slot (h.2 t) (h.1.slot h.1.size) i) := by
      rw [hparent h2, Function.update_of_ne (by omega : i ≠ h.2 t)]
      have h1 := hok.ordered i hi (by omega)
      rw [hpi] at h1
      exact (hok.ordered (h.2 t) h2 hle).trans h1
    have hsizeEq : ((put (h.2 t) (h.1.slot h.1.size) h).1.setSize (h.1.size - 1)).size
        = h.1.size - 1 := hsize
    split
    · next hc =>
      refine .of_sifted hok hm hlast ?_
      have hself : (put (h.2 t) (h.1.slot h.1.size) h).1.slot (h.2 t) = h.1.slot h.1.size :=
        Function.update_self ..
      unfold upHeap
      change Sifted expires _ _ _ (upLoop expires
        ((put (h.2 t) (h.1.slot h.1.size) h).1.slot (h.2 t)) _ _ _)
      rw [hself]
      refine upLoop_sifted le_rfl ?_ ?_
      · rw [hsizeEq]
        exact hhole
      · rw [hsizeEq]
        refine ⟨hrest, hgrand, fun i hi hin hpi => ?_⟩
        have hu : expires (h.1.slot h.1.size) ≤ expires (Function.update h.1.slot (h.2 t)
            (h.1.slot h.1.size) (h.2 t / 2)) := by
          have := hc.2
          change expires ((put (h.2 t) (h.1.slot h.1.size) h).1.slot (h.2 t)) < _ at this
          rw [hself] at this
          exact this.le
        exact hu.trans (hgrand (by omega) i hi hin hpi)
    · next hc =>
      refine .of_sifted hok hm hlast ?_
      have hself : (put (h.2 t) (h.1.slot h.1.size) h).1.slot (h.2 t) = h.1.slot h.1.size :=
        Function.update_self ..
      unfold downHeap
      change Sifted expires _ _ _ (downLoop expires
        ((put (h.2 t) (h.1.slot h.1.size) h).1.slot (h.2 t)) _ _ _)
      rw [hself]
      refine downLoop_sifted ?_ ?_ ?_
      · rw [hsizeEq]
        omega
      · rw [hsizeEq]
        exact hhole
      · rw [hsizeEq]
        refine ⟨hrest, fun h2 => ?_, hgrand⟩
        by_contra hlt'
        refine hc ⟨by omega, ?_⟩
        change expires ((put (h.2 t) (h.1.slot h.1.size) h).1.slot (h.2 t)) < _
        rw [hself]
        exact not_le.mp hlt'

/-- What `add_to_heap` makes of a heap with room; `top` is its answer. -/
structure Added (expires : Tid → Int) (h : Placed) (t : Tid) (top : Bool) (h' : Placed) : Prop where
  ok : Ok expires h'
  mem : ∀ x, Mem h'.1 x ↔ x = t ∨ Mem h.1 x
  frame : ∀ x, x ≠ t → ¬Mem h.1 x → h'.2 x = h.2 x
  size : h'.1.size = h.1.size + 1
  limit : h'.1.limit = h.1.limit
  slots : h'.1.slots = h.1.slots
  /-- If `t` is not the new top, the top comes no later. -/
  top : top = false → ∃ x, Mem h.1 x ∧ expires x ≤ expires t

theorem addToHeap_full (hfull : h.1.size = h.1.limit) : addToHeap expires h t = (false, h) :=
  if_pos hfull

theorem addToHeap_added (hok : Ok expires h) (ht : ¬Mem h.1 t) (hroom : h.1.size ≠ h.1.limit) :
    Added expires h t (addToHeap expires h t).1 (addToHeap expires h t).2 := by
  have hle := hok.size_le
  have hbits := hok.limit_bits
  have hsize : (h.1.size + 1) % 2 ^ 16 = h.1.size + 1 := Nat.mod_eq_of_lt (by omega)
  -- the array with the timer in the next slot, and the size counted up
  let h₁ : Placed := put (h.1.size + 1) t (h.1.setSize (h.1.size + 1), h.2)
  have hsize₁ : h₁.1.size = h.1.size + 1 := hsize
  have hself : h₁.1.slot (h.1.size + 1) = t := Function.update_self ..
  have hslot {i : Nat} (hi : i ≤ h.1.size) : h₁.1.slot i = h.1.slot i :=
    Function.update_of_ne (by omega) ..
  have hne {i : Nat} (hi : 1 ≤ i) (hin : i ≤ h.1.size) : h.1.slot i ≠ t := by
    rintro rfl
    exact ht ⟨i, hi, hin, rfl⟩
  have hhole : Hole h₁.1.size h₁.1.slot h₁.2 (h.1.size + 1) t := by
    rw [hsize₁]
    refine ⟨by omega, le_rfl, ?_, ?_⟩
    · intro i hi hin hip
      rw [hslot (by omega)]
      refine (Function.update_of_ne (hne hi (by omega)) ..).trans ?_
      exact hok.indexed i hi (by omega)
    · intro i hi hin hip
      rw [hslot (by omega)]
      exact hne hi (by omega)
  have horder : UpOrder expires h₁.1.size h₁.1.slot (h.1.size + 1) t := by
    rw [hsize₁]
    refine ⟨?_, ?_, ?_⟩
    · intro i hi hin hip _
      rw [hslot (by omega), hslot (by omega)]
      exact hok.ordered i hi (by omega)
    · intro _ i hi hin hpi
      omega
    · intro i hi hin hpi
      omega
  have hs := upLoop_sifted (le_refl (h.1.size + 1)) hhole horder
  have hout : addToHeap expires h t = ((upLoop expires t (h.1.size + 1) (h.1.size + 1) h₁).2 t == 1,
      upLoop expires t (h.1.size + 1) (h.1.size + 1) h₁) := by
    unfold addToHeap upHeap
    dsimp only
    rw [if_neg hroom]
    change (_, upLoop expires (h₁.1.slot (h.1.size + 1)) _ _ _) = _
    rw [hself]
  rw [hout]
  generalize upLoop expires t (h.1.size + 1) (h.1.size + 1) h₁ = h' at hs ⊢
  have hmem (x : Tid) : Mem h'.1 x ↔ x = t ∨ Mem h.1 x := by
    unfold Mem
    rw [hs.size, hs.mem x, hsize₁]
    refine or_congr_right ⟨?_, ?_⟩
    · rintro ⟨i, hi, hin, hip, rfl⟩
      exact ⟨i, hi, by omega, (hslot (by omega)).symm⟩
    · rintro ⟨i, hi, hin, rfl⟩
      exact ⟨i, hi, by omega, by omega, hslot hin⟩
  have hok' : Ok expires h' := by
    refine ⟨?_, ?_, ?_, ?_, ?_⟩
    · rw [hs.size]
      exact hs.ordered
    · rw [hs.size]
      exact hs.indexed
    · rw [hs.size, hsize₁, hs.limit]
      show h.1.size + 1 ≤ h.1.limit
      omega
    · rw [hs.limit, hs.slots]
      exact hok.limit_lt
    · rw [hs.limit]
      exact hok.limit_bits
  refine ⟨hok', hmem, ?_, hs.size.trans hsize₁, hs.limit, hs.slots, ?_⟩
  · intro x hxt hx
    rw [hs.frame x]
    · exact Function.update_of_ne hxt ..
    · intro hh
      have := (hs.mem x).mpr hh
      rw [← hs.size] at this
      exact ((hmem x).mp this).elim hxt hx
  · intro htop
    have htop' : h'.2 t ≠ 1 := by simpa using htop
    have ht' : Mem h'.1 t := (hmem t).mpr (.inl rfl)
    obtain ⟨i, hi, hin, hit⟩ := ht'
    -- the first slot holds another timer
    have hroot : Mem h'.1 (h'.1.slot 1) := ⟨1, le_rfl, by omega, rfl⟩
    have hroot' : h'.1.slot 1 ≠ t := by
      intro he
      have := hok'.indexed 1 le_rfl (by omega)
      rw [he] at this
      exact htop' this
    refine ⟨h'.1.slot 1, ((hmem _).mp hroot).resolve_left hroot', ?_⟩
    exact hok'.ordered.root_le_of_mem ⟨i, hi, hin, hit⟩

end Sift

end Heap

end Timer
