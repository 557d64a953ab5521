import Mathlib

/-!
# Binary heaps with back pointers

A heap is in the slots `1..n` of an array; the parent of slot `i` is `i / 2`. Each
element knows its own slot (`off`), so that it can be taken out of the middle.

Sifting moves a hole: `t` is the element in hand, `pos` the slot that waits for
it, and the other slots hold the rest. `Hole` says where everything is, and
`UpOrder` and `DownOrder` what is known of the order on the way up or down. Each
has one rule for a move of the hole and one for the end, when `t` is put into it.
-/

namespace BinHeap

variable {α κ : Type*} [LinearOrder κ] {key : α → κ} {n pos q : Nat} {s : Nat → α}
  {off : α → Nat} {t : α}

/-- No element comes before its parent. -/
def Ordered (key : α → κ) (n : Nat) (s : Nat → α) : Prop :=
  ∀ i, 2 ≤ i → i ≤ n → key (s (i / 2)) ≤ key (s i)

/-- Each element knows its slot. -/
def Indexed (n : Nat) (s : Nat → α) (off : α → Nat) : Prop :=
  ∀ i, 1 ≤ i → i ≤ n → off (s i) = i

def Mem (n : Nat) (s : Nat → α) (x : α) : Prop := ∃ i, 1 ≤ i ∧ i ≤ n ∧ s i = x

/-- The first slot holds a least element. -/
theorem Ordered.root_le (h : Ordered key n s) {i : Nat} (hi : 1 ≤ i) (hn : i ≤ n) :
    key (s 1) ≤ key (s i) := by
  induction i using Nat.strongRecOn with
  | ind i ih =>
    by_cases h1 : i = 1
    · subst h1
      exact le_rfl
    · have hp : key (s 1) ≤ key (s (i / 2)) := ih (i / 2) (by omega) (by omega) (by omega)
      exact hp.trans (h i (by omega) hn)

theorem Ordered.root_le_of_mem (h : Ordered key n s) {x : α} (hx : Mem n s x) :
    key (s 1) ≤ key x := by
  obtain ⟨i, hi, hn, rfl⟩ := hx
  exact h.root_le hi hn

theorem Indexed.inj (h : Indexed n s off) {i j : Nat} (hi : 1 ≤ i) (hin : i ≤ n) (hj : 1 ≤ j)
    (hjn : j ≤ n) (he : s i = s j) : i = j := by
  rw [← h i hi hin, ← h j hj hjn, he]

/-! ## The hole -/

structure Hole (n : Nat) (s : Nat → α) (off : α → Nat) (pos : Nat) (t : α) : Prop where
  one_le : 1 ≤ pos
  le : pos ≤ n
  off : ∀ i, 1 ≤ i → i ≤ n → i ≠ pos → off (s i) = i
  ne : ∀ i, 1 ≤ i → i ≤ n → i ≠ pos → s i ≠ t

/-- The elements, the one in hand among them. -/
def HoleMem (n : Nat) (s : Nat → α) (pos : Nat) (t x : α) : Prop :=
  x = t ∨ ∃ i, 1 ≤ i ∧ i ≤ n ∧ i ≠ pos ∧ s i = x

section Hole

variable [DecidableEq α]

/-- The element of slot `q` moves into the hole. -/
theorem Hole.move (h : Hole n s off pos t) (hq : 1 ≤ q) (hqn : q ≤ n) (hne : q ≠ pos) :
    Hole n (Function.update s pos (s q)) (Function.update off (s q) pos) q t := by
  have hslot {i : Nat} (hi : 1 ≤ i) (hin : i ≤ n) (hip : i ≠ pos) (hiq : i ≠ q) : s i ≠ s q := by
    intro he
    have hi' := h.off i hi hin hip
    rw [he, h.off q hq hqn hne] at hi'
    exact hiq hi'.symm
  refine ⟨hq, hqn, ?_, ?_⟩
  · intro i hi hin hiq
    by_cases hip : i = pos
    · subst hip
      rw [Function.update_self, Function.update_self]
    · rw [Function.update_of_ne hip, Function.update_of_ne (hslot hi hin hip hiq)]
      exact h.off i hi hin hip
  · intro i hi hin hiq
    by_cases hip : i = pos
    · subst hip
      rw [Function.update_self]
      exact h.ne q hq hqn hne
    · rw [Function.update_of_ne hip]
      exact h.ne i hi hin hip

omit [DecidableEq α] in
theorem Hole.move_mem (h : Hole n s off pos t) (hq : 1 ≤ q) (hqn : q ≤ n) (hne : q ≠ pos) (x : α) :
    HoleMem n (Function.update s pos (s q)) q t x ↔ HoleMem n s pos t x := by
  unfold HoleMem
  refine or_congr_right ⟨?_, ?_⟩
  · rintro ⟨i, hi, hin, hiq, rfl⟩
    by_cases hip : i = pos
    · subst hip
      exact ⟨q, hq, hqn, hne, by rw [Function.update_self]⟩
    · exact ⟨i, hi, hin, hip, (Function.update_of_ne hip ..).symm⟩
  · rintro ⟨i, hi, hin, hip, rfl⟩
    by_cases hiq : i = q
    · subst hiq
      exact ⟨pos, h.one_le, h.le, hne.symm, Function.update_self ..⟩
    · exact ⟨i, hi, hin, hiq, Function.update_of_ne hip ..⟩

/-- The element in hand is put into the hole. -/
theorem Hole.finish (h : Hole n s off pos t) :
    Indexed n (Function.update s pos t) (Function.update off t pos) := by
  intro i hi hin
  by_cases hip : i = pos
  · subst hip
    rw [Function.update_self, Function.update_self]
  · rw [Function.update_of_ne hip, Function.update_of_ne (h.ne i hi hin hip)]
    exact h.off i hi hin hip

omit [DecidableEq α] in
theorem Hole.finish_mem (h : Hole n s off pos t) (x : α) :
    Mem n (Function.update s pos t) x ↔ HoleMem n s pos t x := by
  constructor
  · rintro ⟨i, hi, hin, rfl⟩
    by_cases hip : i = pos
    · subst hip
      exact .inl (Function.update_self ..)
    · exact .inr ⟨i, hi, hin, hip, (Function.update_of_ne hip ..).symm⟩
  · rintro (rfl | ⟨i, hi, hin, hip, rfl⟩)
    · exact ⟨pos, h.one_le, h.le, Function.update_self ..⟩
    · exact ⟨i, hi, hin, Function.update_of_ne hip ..⟩

end Hole

/-! ## The order on the way -/

/-- On the way up: what does not touch the hole is in order, and the children of
the hole come neither before its parent nor before `t`. -/
structure UpOrder (key : α → κ) (n : Nat) (s : Nat → α) (pos : Nat) (t : α) : Prop where
  rest : ∀ i, 2 ≤ i → i ≤ n → i ≠ pos → i / 2 ≠ pos → key (s (i / 2)) ≤ key (s i)
  grand : 2 ≤ pos → ∀ i, 2 ≤ i → i ≤ n → i / 2 = pos → key (s (pos / 2)) ≤ key (s i)
  below : ∀ i, 2 ≤ i → i ≤ n → i / 2 = pos → key t ≤ key (s i)

/-- On the way down: what does not touch the hole is in order, and the parent of
the hole comes after neither `t` nor the children of the hole. -/
structure DownOrder (key : α → κ) (n : Nat) (s : Nat → α) (pos : Nat) (t : α) : Prop where
  rest : ∀ i, 2 ≤ i → i ≤ n → i ≠ pos → i / 2 ≠ pos → key (s (i / 2)) ≤ key (s i)
  above : 2 ≤ pos → key (s (pos / 2)) ≤ key t
  grand : 2 ≤ pos → ∀ i, 2 ≤ i → i ≤ n → i / 2 = pos → key (s (pos / 2)) ≤ key (s i)

/-- The parent of the hole moves down into it. -/
theorem UpOrder.move (h : UpOrder key n s pos t) (hpos : 2 ≤ pos) (hn : pos ≤ n)
    (ht : key t < key (s (pos / 2))) :
    UpOrder key n (Function.update s pos (s (pos / 2))) (pos / 2) t := by
  have hup : 2 ≤ pos / 2 → key (s (pos / 2 / 2)) ≤ key (s (pos / 2)) := fun h2 =>
    h.rest (pos / 2) h2 (by omega) (by omega) (by omega)
  refine ⟨?_, ?_, ?_⟩
  · intro i hi hin hiq hip
    have hne : i ≠ pos := by
      rintro rfl
      exact hip rfl
    rw [Function.update_of_ne hne]
    by_cases hpi : i / 2 = pos
    · rw [hpi, Function.update_self]
      exact h.grand hpos i hi hin hpi
    · rw [Function.update_of_ne hpi]
      exact h.rest i hi hin hne hpi
  · intro h2 i hi hin hiq
    rw [Function.update_of_ne (by omega : pos / 2 / 2 ≠ pos)]
    by_cases hip : i = pos
    · subst hip
      rw [Function.update_self]
      exact hup h2
    · rw [Function.update_of_ne hip]
      refine (hup h2).trans ?_
      rw [← hiq]
      exact h.rest i hi hin hip (by omega)
  · intro i hi hin hiq
    by_cases hip : i = pos
    · subst hip
      rw [Function.update_self]
      exact ht.le
    · rw [Function.update_of_ne hip]
      refine ht.le.trans ?_
      rw [← hiq]
      exact h.rest i hi hin hip (by omega)

theorem UpOrder.finish (h : UpOrder key n s pos t) (hpos : 1 ≤ pos)
    (ht : 2 ≤ pos → key (s (pos / 2)) ≤ key t) : Ordered key n (Function.update s pos t) := by
  intro i hi hin
  by_cases hip : i = pos
  · subst hip
    rw [Function.update_self, Function.update_of_ne (by omega : i / 2 ≠ i)]
    exact ht hi
  · rw [Function.update_of_ne hip]
    by_cases hpi : i / 2 = pos
    · rw [hpi, Function.update_self]
      exact h.below i hi hin hpi
    · rw [Function.update_of_ne hpi]
      exact h.rest i hi hin hip hpi

/-- The lesser child of the hole moves up into it. -/
theorem DownOrder.move (h : DownOrder key n s pos t) (hpos : 1 ≤ pos) (hq : q / 2 = pos)
    (hqn : q ≤ n) (ht : key (s q) ≤ key t)
    (hleast : ∀ i, 2 ≤ i → i ≤ n → i / 2 = pos → key (s q) ≤ key (s i)) :
    DownOrder key n (Function.update s pos (s q)) q t := by
  refine ⟨?_, ?_, ?_⟩
  · intro i hi hin hiq hiq2
    by_cases hip : i = pos
    · subst hip
      rw [Function.update_self, Function.update_of_ne (by omega : i / 2 ≠ i)]
      exact h.grand hi q (by omega) hqn hq
    · rw [Function.update_of_ne hip]
      by_cases hpi : i / 2 = pos
      · rw [hpi, Function.update_self]
        exact hleast i hi hin hpi
      · rw [Function.update_of_ne hpi]
        exact h.rest i hi hin hip hpi
  · intro _
    rw [hq, Function.update_self]
    exact ht
  · intro _ i hi hin hiq
    rw [hq, Function.update_self, Function.update_of_ne (by omega : i ≠ pos), ← hiq]
    exact h.rest i hi hin (by omega) (by omega)

theorem DownOrder.finish (h : DownOrder key n s pos t) (hpos : 1 ≤ pos)
    (ht : ∀ i, 2 ≤ i → i ≤ n → i / 2 = pos → key t ≤ key (s i)) :
    Ordered key n (Function.update s pos t) := by
  intro i hi hin
  by_cases hip : i = pos
  · subst hip
    rw [Function.update_self, Function.update_of_ne (by omega : i / 2 ≠ i)]
    exact h.above hi
  · rw [Function.update_of_ne hip]
    by_cases hpi : i / 2 = pos
    · rw [hpi, Function.update_self]
      exact ht i hi hin hpi
    · rw [Function.update_of_ne hpi]
      exact h.rest i hi hin hip hpi

end BinHeap
