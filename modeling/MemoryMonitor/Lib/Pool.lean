import Mathlib

/-!
# A pool

Things are held, in a list, or free. `Pool all held free` says that nothing is held twice, that
nothing held is free, and that all there is are the things held or free. Handing out and giving
back keep this.
-/

namespace Pool

variable {α : Type} [DecidableEq α]

/-- The things that are free after `xs` are given back. -/
def give (free : α → Bool) (xs : List α) : α → Bool :=
  fun x => free x || decide (x ∈ xs)

/-- The things that are free after `xs` are handed out. -/
def take (free : α → Bool) (xs : List α) : α → Bool :=
  fun x => free x && !decide (x ∈ xs)

end Pool

structure Pool {α : Type} (all : α → Prop) (held : List α) (free : α → Bool) : Prop where
  nodup : held.Nodup
  busy : ∀ x ∈ held, free x = false
  complete : ∀ x, all x ↔ x ∈ held ∨ free x = true

namespace Pool

variable {α : Type} {all : α → Prop} {held held' xs : List α} {free : α → Bool}

theorem perm (h : Pool all held free) (hp : held'.Perm held) : Pool all held' free :=
  ⟨hp.nodup_iff.2 h.nodup, fun x hx => h.busy x (hp.mem_iff.1 hx), fun x => by
    rw [hp.mem_iff]
    exact h.complete x⟩

theorem any_free (h : Pool all (xs ++ held) free) : xs.any free = false := by
  rw [List.any_eq_false]
  intro x hx
  rw [h.busy x (List.mem_append_left _ hx)]
  exact Bool.false_ne_true

variable [DecidableEq α]

theorem giveBack (h : Pool all (xs ++ held) free) : Pool all held (give free xs) := by
  rcases List.nodup_append.1 h.nodup with ⟨-, hheld, hapart⟩
  refine ⟨hheld, fun x hx => ?_, fun x => ?_⟩
  · have hnot : x ∉ xs := fun hxs => hapart x hxs x hx rfl
    unfold give
    rw [h.busy x (List.mem_append_right _ hx), Bool.false_or]
    exact decide_eq_false hnot
  · rw [h.complete x, List.mem_append]
    unfold give
    rw [Bool.or_eq_true, decide_eq_true_iff]
    tauto

theorem handOut (h : Pool all held free) (hxs : xs.Nodup) (hfree : ∀ x ∈ xs, free x = true) :
    Pool all (xs ++ held) (take free xs) := by
  refine ⟨List.nodup_append.2 ⟨hxs, h.nodup, fun x hx y hy heq => ?_⟩, fun x hx => ?_, fun x => ?_⟩
  · have hf := hfree x hx
    rw [heq, h.busy y hy] at hf
    exact Bool.false_ne_true hf
  · unfold take
    rcases List.mem_append.1 hx with hin | hin
    · rw [decide_eq_true hin, Bool.not_true, Bool.and_false]
    · rw [h.busy x hin, Bool.false_and]
  · rw [h.complete x, List.mem_append]
    unfold take
    rw [Bool.and_eq_true, Bool.not_eq_true', decide_eq_false_iff_not]
    constructor
    · intro hx
      by_cases hin : x ∈ xs
      · exact .inl (.inl hin)
      · exact hx.imp .inr fun hf => ⟨hf, hin⟩
    · intro hx
      rcases hx with (hin | hin) | ⟨hf, -⟩
      · exact .inr (hfree x hin)
      · exact .inl hin
      · exact .inr hf

end Pool
