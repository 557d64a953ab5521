import Mathlib

/-!
# Windows of recent values

A row of `n` slots that takes in values it does not hold: a new value moves the others up by one and
the last of them out. One value `z` stands for an empty slot. `view z n ins` is the row after the values
`ins` have been taken in, the newest first; `takeIn` is one value that comes by, and `takeInAll` a
sequence of them. What the row shows besides `z` has no repetition.
-/

namespace Window

variable {α : Type} [DecidableEq α] {z : α} {n : Nat} {ins : List α} {a : α}

/-- The row that shows the newest `n` of `ins`. -/
def view (z : α) (n : Nat) (ins : List α) : List α := (ins ++ List.replicate n z).take n

/-- A value comes by, and is taken in if the row does not show it. -/
def takeIn (z : α) (n : Nat) (ins : List α) (a : α) : List α := if a ∈ view z n ins then ins else a :: ins

/-- The values taken in of a sequence that comes by, the newest first. -/
def takeInAll (z : α) (n : Nat) (as : List α) : List α := as.foldl (takeIn z n) []

section

omit [DecidableEq α]

theorem length_view (z : α) (n : Nat) (ins : List α) : (view z n ins).length = n := by
  unfold view
  simp

theorem view_nil (z : α) (n : Nat) : view z n [] = List.replicate n z := by
  unfold view
  simp

theorem view_cons (hn : 0 < n) : view z n (a :: ins) = a :: (view z n ins).dropLast := by
  obtain ⟨m, rfl⟩ : ∃ m, n = m + 1 := ⟨n - 1, by omega⟩
  have hlast : (view z (m + 1) ins).dropLast = (ins ++ List.replicate (m + 1) z).take m := by
    rw [List.dropLast_eq_take, length_view]
    unfold view
    rw [List.take_take]
    simp
  rw [hlast]
  rfl

end

/-- A value that is shown changes nothing; another one moves the row up. -/
theorem view_takeIn (hn : 0 < n) :
    view z n (takeIn z n ins a) =
      if a ∈ view z n ins then view z n ins else a :: (view z n ins).dropLast := by
  unfold takeIn
  split
  · rfl
  · exact view_cons hn

theorem mem_view_takeIn (hn : 0 < n) : a ∈ view z n (takeIn z n ins a) := by
  rw [view_takeIn hn]
  split
  · assumption
  · exact List.mem_cons_self

theorem takeInAll_append (as : List α) (a : α) :
    takeInAll z n (as ++ [a]) = takeIn z n (takeInAll z n as) a := by
  unfold takeInAll
  rw [List.foldl_append]
  rfl

/-- What the row shows, without the empty slots. -/
def shown (z : α) (l : List α) : List α := l.filter (· ≠ z)

theorem nodup_takeIn (hn : 0 < n) (h : (shown z (view z n ins)).Nodup) :
    (shown z (view z n (takeIn z n ins a))).Nodup := by
  rw [view_takeIn hn]
  split
  · exact h
  · next hnew =>
    have hkept : (shown z (view z n ins).dropLast).Nodup :=
      List.Nodup.sublist (List.Sublist.filter _ (List.dropLast_sublist _)) h
    unfold shown at hkept ⊢
    rw [List.filter_cons]
    split
    · refine List.nodup_cons.mpr ⟨?_, hkept⟩
      intro hmem
      exact hnew (List.dropLast_subset _ (List.mem_of_mem_filter hmem))
    · exact hkept

theorem nodup_takeInAll (hn : 0 < n) (as : List α) : (shown z (view z n (takeInAll z n as))).Nodup := by
  induction as using List.reverseRecOn with
  | nil =>
    have hempty : shown z (view z n (takeInAll z n [])) = [] := by
      unfold takeInAll shown
      simp [view_nil]
    rw [hempty]
    exact List.nodup_nil
  | append_singleton as a ih =>
    rw [takeInAll_append]
    exact nodup_takeIn hn ih

/-- What is shown are the newest values taken in. -/
theorem shown_prefix (z : α) (n : Nat) (ins : List α) : shown z (view z n ins) <+: shown z ins := by
  have hrow : shown z (view z n ins) = shown z (ins.take n) := by
    unfold shown view
    rw [List.take_append, List.filter_append, List.take_replicate]
    simp
  rw [hrow]
  exact List.IsPrefix.filter _ (List.take_prefix n ins)

/-- As long as nothing has moved out, all values that came by are shown. -/
theorem mem_shown_takeInAll {as : List α} (hlen : (takeInAll z n as).length ≤ n) :
    a ∈ shown z (view z n (takeInAll z n as)) ↔ a ≠ z ∧ a ∈ as := by
  have hview : ∀ {ins : List α} {b : α}, ins.length ≤ n → b ≠ z → (b ∈ view z n ins ↔ b ∈ ins) := by
    intro ins b hle hb
    unfold view
    rw [List.take_append, List.take_of_length_le hle, List.take_replicate, List.mem_append, List.mem_replicate]
    simp [hb]
  unfold shown
  rw [List.mem_filter, decide_eq_true_eq, and_comm]
  refine and_congr_right fun ha => (hview hlen ha).trans ?_
  induction as using List.reverseRecOn with
  | nil => exact Iff.rfl
  | append_singleton as c ih =>
    rw [takeInAll_append] at hlen ⊢
    unfold takeIn at hlen ⊢
    rw [List.mem_append, List.mem_singleton]
    split_ifs at hlen ⊢ with hc
    · rw [ih hlen]
      refine ⟨.inl, fun h => h.elim id ?_⟩
      rintro rfl
      exact (ih hlen).mp ((hview hlen ha).mp hc)
    · rw [List.mem_cons, ih (Nat.le_of_succ_le hlen), or_comm]

end Window
