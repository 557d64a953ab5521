import Mathlib.Logic.Function.Basic

/-!
# Pairings

A partial function that names a partner for some elements. It is `Mutual` when
partners name each other; pairing two elements that have no partner and
separating a pair keep it so.

`Reverse` is the same for two kinds of elements: a table that gives for each key
the number of its entry, `0` for none, and the key each entry has.
-/

namespace Pairing

variable {α : Type*} [DecidableEq α] {f : α → Option α} {a b : α}

/-- Partners name each other. -/
def Mutual (f : α → Option α) : Prop := ∀ a b, f a = some b → f b = some a

omit [DecidableEq α] in
theorem Mutual.iff (h : Mutual f) (a b : α) : f a = some b ↔ f b = some a := ⟨h a b, h b a⟩

def pair (f : α → Option α) (a b : α) : α → Option α :=
  Function.update (Function.update f a (some b)) b (some a)

def separate (f : α → Option α) (a b : α) : α → Option α :=
  Function.update (Function.update f b none) a none

theorem Mutual.pair (h : Mutual f) (ha : f a = none) (hb : f b = none) : Mutual (pair f a b) := by
  have hclear : ∀ {x y : α}, f x = some y → x ≠ a ∧ x ≠ b := by
    intro x y hxy
    constructor
    · rintro rfl
      rw [ha] at hxy
      cases hxy
    · rintro rfl
      rw [hb] at hxy
      cases hxy
  unfold Pairing.pair
  intro x y hxy
  by_cases hxb : x = b
  · subst hxb
    rw [Function.update_self] at hxy
    obtain rfl := Option.some.inj hxy
    by_cases hab : a = x
    · subst hab
      rw [Function.update_self]
    · rw [Function.update_of_ne hab, Function.update_self]
  · rw [Function.update_of_ne hxb] at hxy
    by_cases hxa : x = a
    · subst hxa
      rw [Function.update_self] at hxy
      obtain rfl := Option.some.inj hxy
      rw [Function.update_self]
    · rw [Function.update_of_ne hxa] at hxy
      have hy := hclear (h x y hxy)
      rw [Function.update_of_ne hy.2, Function.update_of_ne hy.1]
      exact h x y hxy

theorem Mutual.separate (h : Mutual f) (hab : f a = some b) : Mutual (separate f a b) := by
  unfold Pairing.separate
  intro x y hxy
  by_cases hxa : x = a
  · subst hxa
    rw [Function.update_self] at hxy
    cases hxy
  · rw [Function.update_of_ne hxa] at hxy
    by_cases hxb : x = b
    · subst hxb
      rw [Function.update_self] at hxy
      cases hxy
    · rw [Function.update_of_ne hxb] at hxy
      have hyx := h x y hxy
      -- the partner of `x` is neither of the two
      have hya : y ≠ a := by
        rintro rfl
        rw [hab] at hyx
        exact hxb (Option.some.inj hyx).symm
      have hyb : y ≠ b := by
        rintro rfl
        rw [h a y hab] at hyx
        exact hxa (Option.some.inj hyx).symm
      rw [Function.update_of_ne hya, Function.update_of_ne hyb]
      exact hyx

section Reverse

variable {κ : Type*} [DecidableEq κ] {f : κ → Nat} {g : Nat → Option κ} {k : κ} {p : Nat}

/-- The table `f` is the inverse of `g`. -/
def Reverse (f : κ → Nat) (g : Nat → Option κ) : Prop := ∀ k p, p ≠ 0 → (f k = p ↔ g p = some k)

/-- The key `k`, which has no entry, gets the entry `p`. -/
theorem Reverse.set (h : Reverse f g) (hp : p ≠ 0) (hk : f k = 0) (hg : g p = none) :
    Reverse (Function.update f k p) (Function.update g p (some k)) := by
  intro k' p' hp'
  by_cases hpp : p' = p
  · subst hpp
    rw [Function.update_self]
    by_cases hkk : k' = k
    · subst hkk
      rw [Function.update_self]
      exact ⟨fun _ => rfl, fun _ => rfl⟩
    · rw [Function.update_of_ne hkk, h k' p' hp', hg]
      constructor
      · intro hne
        cases hne
      · intro he
        exact absurd (Option.some.inj he).symm hkk
  · rw [Function.update_of_ne hpp, ← h k' p' hp']
    by_cases hkk : k' = k
    · subst hkk
      rw [Function.update_self, hk]
      exact ⟨fun he => absurd he.symm hpp, fun he => absurd he.symm hp'⟩
    · rw [Function.update_of_ne hkk]

/-- The entry `p` is taken from its key. -/
theorem Reverse.clear (h : Reverse f g) (hp : p ≠ 0) (hg : g p = some k) :
    Reverse (Function.update f k 0) (Function.update g p none) := by
  have hk : f k = p := (h k p hp).mpr hg
  intro k' p' hp'
  by_cases hkk : k' = k
  · subst hkk
    rw [Function.update_self]
    by_cases hpp : p' = p
    · subst hpp
      rw [Function.update_self]
      exact ⟨fun he => absurd he.symm hp', fun he => by cases he⟩
    · rw [Function.update_of_ne hpp, ← h k' p' hp', hk]
      exact ⟨fun he => absurd he.symm hp', fun he => absurd he.symm hpp⟩
  · rw [Function.update_of_ne hkk, h k' p' hp']
    by_cases hpp : p' = p
    · subst hpp
      rw [Function.update_self, hg]
      exact ⟨fun he => absurd (Option.some.inj he).symm hkk, fun he => by cases he⟩
    · rw [Function.update_of_ne hpp]

end Reverse

end Pairing
