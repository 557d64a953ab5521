/-!
# While loops

`turns cond body n s` is the state in which `while (cond) body` is left, if that is
after at most `n` turns. A loop with a measure is left; one whose condition stays
true under an invariant is not, whatever `n` is.
-/

namespace While

variable {σ : Type}

def turns (cond : σ → Prop) [DecidablePred cond] (body : σ → σ) : Nat → σ → Option σ
  | n, s =>
    if cond s then
      match n with
      | 0 => none
      | n + 1 => turns cond body n (body s)
    else some s

variable {cond : σ → Prop} [DecidablePred cond] {body : σ → σ}

theorem turns_of_not {s : σ} (n : Nat) (h : ¬ cond s) : turns cond body n s = some s := by
  unfold turns
  exact if_neg h

theorem turns_succ {s : σ} (n : Nat) (h : cond s) : turns cond body (n + 1) s = turns cond body n (body s) := by
  rw [turns]
  exact if_pos h

/-- A loop that keeps `I` is only left in a state with `I`. -/
theorem turns_some {I : σ → Prop} (hbody : ∀ s, I s → cond s → I (body s)) {n : Nat} {s s' : σ} (hs : I s)
    (hrun : turns cond body n s = some s') : I s' ∧ ¬ cond s' := by
  induction n generalizing s with
  | zero =>
    unfold turns at hrun
    split at hrun
    · cases hrun
    · next hc =>
      cases hrun
      exact ⟨hs, hc⟩
  | succ n ih =>
    by_cases hc : cond s
    · rw [turns_succ n hc] at hrun
      exact ih (hbody s hs hc) hrun
    · rw [turns_of_not _ hc] at hrun
      cases hrun
      exact ⟨hs, hc⟩

/-- A loop that keeps `I` and decreases `m` is left in a state with `I`. -/
theorem turns_ends {I : σ → Prop} (m : σ → Nat) (hbody : ∀ s, I s → cond s → I (body s) ∧ m (body s) < m s)
    {n : Nat} {s : σ} (hn : m s ≤ n) (hs : I s) : ∃ s', turns cond body n s = some s' ∧ I s' ∧ ¬ cond s' := by
  induction n generalizing s with
  | zero =>
    have hc : ¬ cond s := by
      intro hc
      have := (hbody s hs hc).2
      omega
    exact ⟨s, turns_of_not 0 hc, hs, hc⟩
  | succ n ih =>
    by_cases hc : cond s
    · obtain ⟨hI, hlt⟩ := hbody s hs hc
      obtain ⟨s', hrun, hs'⟩ := ih (s := body s) (by omega) hI
      exact ⟨s', (turns_succ n hc).trans hrun, hs'⟩
    · exact ⟨s, turns_of_not _ hc, hs, hc⟩

/-- A loop whose condition stays true is not left. -/
theorem turns_hangs {I : σ → Prop} (hI : ∀ s, I s → cond s ∧ I (body s)) (n : Nat) {s : σ} (hs : I s) :
    turns cond body n s = none := by
  induction n generalizing s with
  | zero =>
    unfold turns
    exact if_pos (hI s hs).1
  | succ n ih => exact (turns_succ n (hI s hs).1).trans (ih (hI s hs).2)

end While
