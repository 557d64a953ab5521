import Mathlib

/-!
# Totals over cells

The total of a weight over finitely many cells, and how it moves when one cell
is overwritten. Stated with the old weight on the left, so that it can be used
in a monoid without subtraction.
-/

open Finset

namespace Totals

variable {ι β M : Type*} [DecidableEq ι] [AddCommMonoid M]

/-- Two weights that differ at one place. -/
theorem sum_change {s : Finset ι} {i : ι} (hi : i ∈ s) {f f' : ι → M} (h : ∀ j, j ≠ i → f' j = f j) :
    (∑ j ∈ s, f' j) + f i = (∑ j ∈ s, f j) + f' i := by
  have hrest : ∑ j ∈ s.erase i, f' j = ∑ j ∈ s.erase i, f j := by
    refine sum_congr rfl fun j hj => ?_
    exact h j (ne_of_mem_erase hj)
  rw [← add_sum_erase s f' hi, ← add_sum_erase s f hi, hrest]
  rw [add_comm (f' i), add_comm (f i), add_right_comm]

theorem sum_update {s : Finset ι} {i : ι} (hi : i ∈ s) (cells : ι → β) (v : β)
    (weight : ι → β → M) :
    (∑ j ∈ s, weight j (Function.update cells i v j)) + weight i (cells i) =
      (∑ j ∈ s, weight j (cells j)) + weight i v := by
  have hother : ∀ j, j ≠ i → weight j (Function.update cells i v j) = weight j (cells j) := by
    intro j hj
    rw [Function.update_of_ne hj]
  have hchange := sum_change hi hother
  rw [Function.update_self] at hchange
  exact hchange

end Totals
