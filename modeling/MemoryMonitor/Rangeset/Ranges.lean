import MemoryMonitor.Lib.Intervals

/-!
# Rangesets (`xen/common/rangeset.c`)

A rangeset is a linked list of ranges `[s, e]`. A pointer to a range is modelled
by its position in the list; `none` is `NULL`, and dereferencing a pointer that
points nowhere makes the whole operation `none`.

The list is kept ascending with gaps between the ranges (`Kept`), and on such a
list `rangeset_add_range` is set union.
-/

namespace Rangeset

open Intervals

/-- An inclusive range. -/
structure Range where
  s : BitVec 64
  e : BitVec 64
  deriving DecidableEq

/-! ## The list -/

/-- The loop of `find_range`, at position `i` with the range `x` found so far. -/
def findLoop (s : BitVec 64) : List Range → Nat → Option Nat → Option Nat
  | [], _, x => x
  | y :: ys, i, x => if s < y.s then x else findLoop s ys (i + 1) (some i)

/-- The highest range lower than or containing `s`. -/
def findRange (r : List Range) (s : BitVec 64) : Option Nat := findLoop s r 0 none

def firstRange (r : List Range) : Option Nat := if r = [] then none else some 0

def nextRange (r : List Range) (x : Nat) : Option Nat :=
  if x + 1 < r.length then some (x + 1) else none

/-- The position of a range that is inserted after `x`. -/
def insertPos : Option Nat → Nat
  | none => 0
  | some x => x + 1

def insertRange (r : List Range) (x : Option Nat) (y : Range) : List Range :=
  r.insertIdx (insertPos x) y

def destroyRange (r : List Range) (x : Nat) : List Range := r.eraseIdx x

/-- `x->s = s` and `x->e = e`. -/
def setStart (r : List Range) (x : Nat) (s : BitVec 64) : List Range := r.modify x ({ · with s })
def setEnd (r : List Range) (x : Nat) (e : BitVec 64) : List Range := r.modify x ({ · with e })

/-! ## `rangeset_add_range` -/

/-- `-ENOMEM`. -/
def enomem : Int := -12

/-- The loop that destroys the ranges after `x` that end inside it. -/
def swallow (r : List Range) (x : Nat) : List Range :=
  match r[x]?, hy : r[x + 1]? with
  | some cur, some y => if cur.e < y.e then r else swallow (destroyRange r (x + 1)) x
  | _, _ => r
termination_by r.length
decreasing_by
  have hlt := (List.getElem?_eq_some_iff.mp hy).1
  rw [destroyRange, List.length_eraseIdx_of_lt hlt]
  omega

/-- The last step: `x` takes over the range after it if they are adjacent. -/
def coalesce (r : List Range) (x : Nat) : List Range :=
  match r[x]?, r[x + 1]? with
  | some cur, some y =>
      if cur.e + 1 = y.s then destroyRange (setEnd r x y.e) (x + 1) else r
  | _, _ => r

/-- `(x->e < s) && ((x->e + 1) != s)`. -/
def Range.Before (x : Range) (s : BitVec 64) : Prop := x.e < s ∧ x.e + 1 ≠ s

instance (x : Range) (s : BitVec 64) : Decidable (x.Before s) :=
  inferInstanceAs (Decidable (_ ∧ _))

/-- A new range after `y`, if `xmalloc` succeeds. -/
def addNew (xmalloc : Bool) (r : List Range) (y : Option Nat) (s e : BitVec 64) :
    Int × List Range :=
  if xmalloc then (0, coalesce (insertRange r y ⟨s, e⟩) (insertPos y)) else (enomem, r)

/-- The range that is to cover `[s, e]` when the lookups find two ranges. -/
def startRange (r : List Range) (x : Option Nat) (s : BitVec 64) : Option (Nat × List Range) :=
  match x with
  | none => (firstRange r).map fun i => (i, setStart r i s)
  | some i => r[i]?.bind fun cur =>
      if cur.Before s then (nextRange r i).map fun i => (i, setStart r i s)
      else some (i, r)

/-- `rangeset_add_range`; `xsm` is the result of `xsm_add_range`. -/
def rangesetAddRange (xsm : Int) (xmalloc : Bool) (r : List Range) (s e : BitVec 64) :
    Option (Int × List Range) :=
  if xsm ≠ 0 then some (xsm, r)
  else
    let x := findRange r s
    let y := findRange r e
    if x = y then
      match x with
      | none => some (addNew xmalloc r y s e)
      | some i => r[i]?.bind fun cur =>
          if cur.Before s then some (addNew xmalloc r y s e)
          else some (0, coalesce (if cur.e < e then setEnd r i e else r) i)
    else
      (startRange r x s).bind fun (i, r) => y.bind fun j => r[j]?.bind fun last =>
        some (0, coalesce (swallow (setEnd r i (if e < last.e then last.e else e)) i) i)

/-! ## Queries -/

def rangesetContainsRange (r : List Range) (s e : BitVec 64) : Option Bool :=
  match findRange r s with
  | none => some false
  | some i => r[i]?.map fun x => decide (e ≤ x.e)

def rangesetOverlapsRange (r : List Range) (s e : BitVec 64) : Option Bool :=
  match findRange r e with
  | none => some false
  | some i => r[i]?.map fun x => decide (s ≤ x.e)

/-! ## Lists that are kept -/

def Range.lo (r : Range) : ℕ := r.s.toNat
def Range.hi (r : Range) : ℕ := r.e.toNat

/-- Ascending, disjoint and non-adjacent. -/
abbrev Kept (r : List Range) : Prop := Spaced Range.lo Range.hi r

/-- The numbers in the set. -/
abbrev members (r : List Range) : Set ℕ := covered Range.lo Range.hi r

end Rangeset
