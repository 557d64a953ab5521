import MemoryMonitor.Lib.Radix

/-!
# The entries of a radix tree

`entryAt` is the slot that covers a key: its level, and the leaf in it or nothing.
`mapEntries` replaces the entries one by one, as a walk over all tables does, and
leaves the tables as they are (`entryAt_mapEntries`).
-/

namespace Radix

variable {α : Type}

/-- The slot for a key, from a slot at level `k`, in tables of `W` slots. -/
def entryAt (W : Nat) : (k : Nat) → Tree α → (key : Nat) → Nat × Option α
  | k, .empty, _ => (k, none)
  | k, .leaf a, _ => (k, some a)
  | 0, .node .., _ => (0, none)
  | k + 1, .node _ slots, key => entryAt W k (slots (key / W ^ k % W)) key

def Tree.ofOption : Option α → Tree α
  | none => .empty
  | some a => .leaf a

/-- Every slot that is not a table is replaced. -/
def mapEntries (f : Nat → Option α → Option α) : (k : Nat) → Tree α → Tree α
  | k, .empty => .ofOption (f k none)
  | k, .leaf a => .ofOption (f k (some a))
  | 0, .node page slots => .node page slots
  | k + 1, .node page slots => .node page fun i => mapEntries f k (slots i)

theorem entryAt_ofOption (W k : Nat) (o : Option α) (key : Nat) : entryAt W k (.ofOption o) key = (k, o) := by
  cases o <;> cases k <;> rfl

/-- A tree that has tables above level 0 only. -/
def Deep : Nat → Tree α → Prop
  | _, .empty => True
  | _, .leaf _ => True
  | 0, .node .. => False
  | k + 1, .node _ slots => ∀ i, Deep k (slots i)

/-- The walk replaces what stands in the slot of each key. -/
theorem entryAt_mapEntries (W : Nat) (f : Nat → Option α → Option α) (key : Nat) :
    ∀ (k : Nat) (t : Tree α), Deep k t →
      entryAt W k (mapEntries f k t) key = ((entryAt W k t key).1, f (entryAt W k t key).1 (entryAt W k t key).2) := by
  intro k
  induction k with
  | zero =>
    intro t hdeep
    cases t with
    | empty => exact entryAt_ofOption W 0 _ key
    | leaf a => exact entryAt_ofOption W 0 _ key
    | node page slots => exact hdeep.elim
  | succ k ih =>
    intro t hdeep
    cases t with
    | empty => exact entryAt_ofOption W (k + 1) _ key
    | leaf a => exact entryAt_ofOption W (k + 1) _ key
    | node page slots => exact ih (slots (key / W ^ k % W)) (hdeep _)

end Radix
