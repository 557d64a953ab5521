/-!
# Runs

A system that takes steps: `act i s` is the state after the step `i` in the
state `s`. `Each act ok is s` says that every step of the run `is` from `s` is
`ok` in the state it finds, and `Each.inv` is the invariant rule for such runs.
-/

namespace Runs

variable {σ ι : Type} {act : ι → σ → σ} {ok : ι → σ → Prop}

/-- The state after a run. -/
def run (act : ι → σ → σ) : List ι → σ → σ
  | [], s => s
  | i :: rest, s => run act rest (act i s)

theorem run_append (is js : List ι) (s : σ) :
    run act (is ++ js) s = run act js (run act is s) := by
  induction is generalizing s with
  | nil => rfl
  | cons i rest ih => exact ih (act i s)

/-- What every step preserves holds at the end of a run. -/
theorem run_inv {I : σ → Prop} (hstep : ∀ i s, I s → I (act i s)) (is : List ι) {s : σ}
    (hs : I s) : I (run act is s) := by
  induction is generalizing s with
  | nil => exact hs
  | cons i rest ih => exact ih (hstep i s hs)

/-- Every step of the run is `ok` in the state it finds. -/
def Each (act : ι → σ → σ) (ok : ι → σ → Prop) : List ι → σ → Prop
  | [], _ => True
  | i :: rest, s => ok i s ∧ Each act ok rest (act i s)

/-- Whether every step is `ok` can be found out by taking them. -/
def Each.decide (act : ι → σ → σ) (ok : ι → σ → Prop) [∀ i s, Decidable (ok i s)] :
    (is : List ι) → (s : σ) → Decidable (Each act ok is s)
  | [], _ => isTrue trivial
  | i :: rest, s =>
      have := Each.decide act ok rest (act i s)
      inferInstanceAs (Decidable (_ ∧ _))

instance [∀ i s, Decidable (ok i s)] (is : List ι) (s : σ) : Decidable (Each act ok is s) :=
  Each.decide act ok is s

/-- What every `ok` step preserves holds at the end of a run. -/
theorem Each.inv {I : σ → Prop} (hstep : ∀ i s, ok i s → I s → I (act i s))
    {is : List ι} {s : σ} (h : Each act ok is s) (hs : I s) : I (run act is s) := by
  induction is generalizing s with
  | nil => exact hs
  | cons i rest ih => exact ih h.2 (hstep i s h.1 hs)

/-- What `ok` steps do in the states of an invariant, each step of a run does. -/
theorem Each.of_inv {I : σ → Prop} {good : ι → σ → Prop}
    (hstep : ∀ i s, ok i s → I s → I (act i s)) (hgood : ∀ i s, ok i s → I s → good i s)
    {is : List ι} {s : σ} (h : Each act ok is s) (hs : I s) : Each act good is s := by
  induction is generalizing s with
  | nil => trivial
  | cons i rest ih => exact ⟨hgood i s h.1 hs, ih h.2 (hstep i s h.1 hs)⟩

/-- What every step does in the states of an invariant, each step of a run does. -/
theorem each_of_inv {I : σ → Prop} {good : ι → σ → Prop} (hstep : ∀ i s, I s → I (act i s))
    (hgood : ∀ i s, I s → good i s) (is : List ι) {s : σ} (hs : I s) : Each act good is s := by
  induction is generalizing s with
  | nil => trivial
  | cons i rest ih => exact ⟨hgood i s hs, ih (hstep i s hs)⟩

/-- What steps do in every state, each step of a run does. -/
theorem each_of_forall {is : List ι} (h : ∀ i ∈ is, ∀ s, ok i s) {s : σ} : Each act ok is s := by
  induction is generalizing s with
  | nil => trivial
  | cons i rest ih =>
    exact ⟨h i List.mem_cons_self s, ih fun j hj => h j (List.mem_cons_of_mem i hj)⟩

/-- Two conditions on the steps of one run. -/
theorem Each.and {ok' : ι → σ → Prop} {is : List ι} {s : σ} (h : Each act ok is s)
    (h' : Each act ok' is s) : Each act (fun i s => ok i s ∧ ok' i s) is s := by
  induction is generalizing s with
  | nil => trivial
  | cons i rest ih => exact ⟨⟨h.1, h'.1⟩, ih h.2 h'.2⟩

end Runs
