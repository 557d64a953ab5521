import Mathlib

/-!
# Tallies

Sources that are on or off, each of which is led to one of several counters. `tally` is how many
sources that are on are led to a counter; it moves by one when a source is turned on or off or is
led elsewhere, and it can be found by going through the sources.
-/

open Finset

namespace Tally

variable {ι κ : Type*} [DecidableEq κ]

/-- What a source that is led to `a` adds to the counter `k`. -/
def weight (on : Bool) (a k : κ) : Nat := if on ∧ a = k then 1 else 0

theorem weight_off (a k : κ) : weight false a k = 0 := rfl

theorem weight_on (a k : κ) : weight true a k = if a = k then 1 else 0 := by
  unfold weight
  simp only [true_and]

theorem weight_le_one (on : Bool) (a k : κ) : weight on a k ≤ 1 := by
  unfold weight
  split <;> decide

/-- How many of the sources that are on are led to `k`. -/
def tally [Fintype ι] (on : ι → Bool) (f : ι → κ) (k : κ) : Nat := ∑ i, weight (on i) (f i) k

variable [Fintype ι]

theorem tally_le_card (on : ι → Bool) (f : ι → κ) (k : κ) : tally on f k ≤ Fintype.card ι := by
  unfold tally
  calc ∑ i, weight (on i) (f i) k ≤ ∑ _i : ι, 1 := sum_le_sum fun i _ => weight_le_one ..
    _ = Fintype.card ι := by rw [sum_const, smul_eq_mul, mul_one, card_univ]

theorem tally_none {on : ι → Bool} (h : ∀ i, on i = false) (f : ι → κ) (k : κ) : tally on f k = 0 := by
  unfold tally
  refine sum_eq_zero fun i _ => ?_
  rw [h, weight_off]

theorem tally_change [DecidableEq ι] {on on' : ι → Bool} {f f' : ι → κ} (i : ι) (hon : ∀ j, j ≠ i → on' j = on j)
    (hf : ∀ j, j ≠ i → f' j = f j) (k : κ) :
    tally on' f' k + weight (on i) (f i) k = tally on f k + weight (on' i) (f' i) k := by
  have hrest : ∑ j ∈ univ.erase i, weight (on' j) (f' j) k = ∑ j ∈ univ.erase i, weight (on j) (f j) k := by
    refine sum_congr rfl fun j hj => ?_
    rw [hon j (ne_of_mem_erase hj), hf j (ne_of_mem_erase hj)]
  unfold tally
  rw [← add_sum_erase univ _ (mem_univ i), ← add_sum_erase univ (fun j => weight (on j) (f j) k) (mem_univ i), hrest]
  omega

/-- A source is turned on. -/
theorem tally_on [DecidableEq ι] {on : ι → Bool} {i : ι} (h : on i = false) (f : ι → κ) (k : κ) :
    tally (Function.update on i true) f k = tally on f k + if f i = k then 1 else 0 := by
  have hchange := tally_change i (fun j hj => Function.update_of_ne hj true on) (fun j _ => rfl : ∀ j, j ≠ i → f j = f j) k
  rw [h, weight_off, Function.update_self, weight_on] at hchange
  exact hchange

/-- A source is turned off. -/
theorem tally_off [DecidableEq ι] {on : ι → Bool} {i : ι} (h : on i = true) (f : ι → κ) (k : κ) :
    tally (Function.update on i false) f k + (if f i = k then 1 else 0) = tally on f k := by
  have hchange := tally_change i (fun j hj => Function.update_of_ne hj false on) (fun j _ => rfl : ∀ j, j ≠ i → f j = f j) k
  rw [h, weight_on, Function.update_self, weight_off] at hchange
  exact hchange

/-- A source that is on counts. -/
theorem tally_pos [DecidableEq ι] {on : ι → Bool} {i : ι} (h : on i = true) (f : ι → κ) : 0 < tally on f (f i) := by
  have hoff := tally_off h f (f i)
  rw [if_pos rfl] at hoff
  omega

/-- The tally by going through the sources. -/
theorem tally_fin {n : Nat} (on : Fin n → Bool) (f : Fin n → κ) (k : κ) :
    tally on f k = ((List.finRange n).map fun i => weight (on i) (f i) k).sum := by
  unfold tally
  rw [Fin.sum_univ_def]

end Tally
