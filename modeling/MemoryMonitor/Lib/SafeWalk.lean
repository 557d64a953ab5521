import Mathlib.Data.List.Nodup

/-!
# Walks that survive their body

`list_for_each_safe`: the element behind the current one is looked up before the body runs, so the
body may move the current element to the front of the list, or drop it. What is left of the list is
still its end then, and the walk goes through it once, in its order.
-/

namespace SafeWalk

variable {α σ : Type} [DecidableEq α]

/-- The element behind `a`. -/
def next : List α → α → Option α
  | [], _ => none
  | b :: l, a => if b = a then l.head? else next l a

theorem next_append {pre rest : List α} {a : α} (ha : a ∉ pre) :
    next (pre ++ a :: rest) a = rest.head? := by
  induction pre with
  | nil => simp [next]
  | cons b pre ih =>
    have hne : b ≠ a := by
      rintro rfl
      exact ha List.mem_cons_self
    simp only [List.cons_append, next, if_neg hne]
    exact ih fun h => ha (List.mem_cons_of_mem b h)

theorem mem_of_next {l : List α} {a c : α} (h : next l a = some c) : c ∈ l := by
  induction l with
  | nil => cases h
  | cons d l ih =>
    unfold next at h
    split at h
    · exact List.mem_cons_of_mem _ (List.mem_of_mem_head? h)
    · exact List.mem_cons_of_mem _ (ih h)

/-- The walk from `iter` on, through the list that `items` finds in the state; `n` bounds its steps. -/
def walk (items : σ → List α) (body : α → σ → σ) : Nat → Option α → σ → σ
  | _, none, s => s
  | 0, some _, s => s
  | n + 1, some a, s => walk items body n (next (items s) a) (body a s)

/-- The walk through the whole list. -/
def forEach (items : σ → List α) (body : α → σ → σ) (s : σ) : σ :=
  walk items body (items s).length (items s).head? s

variable {items : σ → List α} {body : α → σ → σ}

theorem walk_eq_foldl {I : List α → σ → Prop}
    (hitems : ∀ rest s, I rest s → ∃ pre, items s = pre ++ rest ∧ (items s).Nodup)
    (hbody : ∀ a rest s, I (a :: rest) s → I rest (body a s)) {n : Nat} {rest : List α} {s : σ}
    (hs : I rest s) (hn : rest.length ≤ n) :
    walk items body n rest.head? s = rest.foldl (fun s a => body a s) s ∧
      I [] (walk items body n rest.head? s) := by
  induction rest generalizing n s with
  | nil => cases n <;> exact ⟨rfl, hs⟩
  | cons a rest ih =>
    cases n with
    | zero => exact absurd hn (Nat.not_succ_le_zero _)
    | succ n =>
      obtain ⟨pre, hpre, hnodup⟩ := hitems _ s hs
      -- the element is not in front of itself, so what is behind it is what is left
      have hnext : next (items s) a = rest.head? := by
        rw [hpre] at hnodup ⊢
        exact next_append fun h => List.disjoint_of_nodup_append hnodup h List.mem_cons_self
      rw [List.head?_cons, walk, hnext]
      exact ih (hbody a rest s hs) (Nat.le_of_succ_le_succ hn)

/-- The rule for a walk: `I rest s` says that `rest` is left to visit in `s`. Each element of the list
is visited once, and in the end none is left. -/
theorem forEach_eq_foldl (items : σ → List α) (body : α → σ → σ) {I : List α → σ → Prop}
    (hitems : ∀ rest s, I rest s → ∃ pre, items s = pre ++ rest ∧ (items s).Nodup)
    (hbody : ∀ a rest s, I (a :: rest) s → I rest (body a s)) {s : σ} (hs : I (items s) s) :
    forEach items body s = (items s).foldl (fun s a => body a s) s ∧ I [] (forEach items body s) :=
  walk_eq_foldl hitems hbody hs (Nat.le_refl _)

theorem forEach_keeps {P : σ → Prop} (hbody : ∀ a s, P s → P (body a s)) {s : σ} (hs : P s) :
    P (forEach items body s) := by
  have hwalk : ∀ (n : Nat) (iter : Option α) (s : σ), P s → P (walk items body n iter s) := by
    intro n
    induction n with
    | zero => intro iter s hs; cases iter <;> exact hs
    | succ n ih =>
      intro iter s hs
      cases iter with
      | none => exact hs
      | some a => exact ih _ _ (hbody a s hs)
  exact hwalk _ _ s hs

end SafeWalk
