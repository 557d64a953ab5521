import Mathlib

/-!
# First-come accounting

Several parties offer amounts under keys, one party after the other. Only the
first offer under a key is booked; later offers under the same key, by the same
party or by another, are ignored. `tally` is the total booked.

The order of the parties matters in general. `tally_perm` says when it does
not: when any two parties that share a key make the same first offer under it.
-/

namespace FirstCome

variable {K A : Type} [DecidableEq K] [AddCommMonoid A]

/-- Book one party's offers over the keys seen so far. -/
def gain (seen : Finset K) : List (K × A) → A × Finset K
  | [] => (0, seen)
  | (k, a) :: rest =>
      if k ∈ seen then gain seen rest
      else
        let r := gain (insert k seen) rest
        (a + r.1, r.2)

/-- Book the offers of one party after the other. -/
def tally (seen : Finset K) : List (List (K × A)) → A
  | [] => 0
  | l :: ls => (gain seen l).1 + tally (gain seen l).2 ls

/-- A party's first offer under `k`. -/
def firstOffer (l : List (K × A)) (k : K) : Option A :=
  (l.find? fun e => decide (e.1 = k)).map Prod.snd

/-- The keys a party makes offers under. -/
def keysOf (l : List (K × A)) : Finset K := (l.map Prod.fst).toFinset

/-- The keys any of the parties makes offers under. -/
def allKeys : List (List (K × A)) → Finset K
  | [] => ∅
  | l :: ls => keysOf l ∪ allKeys ls

section

omit [AddCommMonoid A]

theorem firstOffer_cons (k k' : K) (a : A) (l : List (K × A)) :
    firstOffer ((k', a) :: l) k = if k' = k then some a else firstOffer l k := by
  by_cases h : k' = k
  · simp [firstOffer, h]
  · simp [firstOffer, h]

@[simp] theorem keysOf_cons (k : K) (a : A) (l : List (K × A)) :
    keysOf ((k, a) :: l) = insert k (keysOf l) := by
  simp [keysOf]

end

theorem gain_seen (seen : Finset K) (l : List (K × A)) :
    (gain seen l).2 = seen ∪ keysOf l := by
  induction l generalizing seen with
  | nil => simp [gain, keysOf]
  | cons e rest ih =>
      obtain ⟨k, a⟩ := e
      unfold gain
      by_cases hk : k ∈ seen
      · rw [if_pos hk, ih, keysOf_cons, Finset.union_insert, ← Finset.insert_union,
          Finset.insert_eq_self.mpr hk]
      · rw [if_neg hk, ih, keysOf_cons, Finset.union_insert, Finset.insert_union]

/-- Booking is sequential. -/
theorem gain_append (seen : Finset K) (l l' : List (K × A)) :
    gain seen (l ++ l') =
      ((gain seen l).1 + (gain (gain seen l).2 l').1, (gain (gain seen l).2 l').2) := by
  induction l generalizing seen with
  | nil => simp [gain]
  | cons e rest ih =>
      obtain ⟨k, a⟩ := e
      simp only [List.cons_append, gain]
      by_cases hk : k ∈ seen
      · simp only [if_pos hk, ih]
      · simp only [if_neg hk, ih, add_assoc]

/-- If `c` names the first offer under each unseen key, the gain is a sum over keys. -/
theorem gain_eq_sum (c : K → A) (seen : Finset K) (l : List (K × A))
    (h : ∀ k ∉ seen, ∀ a, firstOffer l k = some a → a = c k) :
    (gain seen l).1 = ∑ k ∈ keysOf l \ seen, c k := by
  induction l generalizing seen with
  | nil => simp [gain, keysOf]
  | cons e rest ih =>
      obtain ⟨k, a⟩ := e
      have hrest : ∀ k' ∉ seen, k' ≠ k → ∀ b, firstOffer rest k' = some b → b = c k' := by
        intro k' hk' hne b hb
        apply h k' hk' b
        rw [firstOffer_cons, if_neg (Ne.symm hne)]
        exact hb
      unfold gain
      by_cases hk : k ∈ seen
      · rw [if_pos hk, keysOf_cons, Finset.insert_sdiff_of_mem _ hk]
        apply ih
        intro k' hk'
        exact hrest k' hk' fun heq => hk' (heq ▸ hk)
      · have ha : a = c k := by
          apply h k hk a
          rw [firstOffer_cons, if_pos rfl]
        rw [if_neg hk, keysOf_cons, Finset.insert_sdiff_of_notMem _ hk]
        have hsum := ih (insert k seen) (by
          intro k' hk'
          rw [Finset.mem_insert, not_or] at hk'
          exact hrest k' hk'.2 hk'.1)
        change a + (gain (insert k seen) rest).1 = _
        have hsplit : insert k (keysOf rest \ seen) =
            insert k (keysOf rest \ insert k seen) := by
          ext x
          simp only [Finset.mem_insert, Finset.mem_sdiff, not_or]
          by_cases hx : x = k
          · simp [hx]
          · simp [hx]
        rw [hsum, hsplit, Finset.sum_insert (by simp), ha]

/-- The same for all parties together. -/
theorem tally_eq_sum (c : K → A) (seen : Finset K) (ls : List (List (K × A)))
    (h : ∀ l ∈ ls, ∀ k a, firstOffer l k = some a → a = c k) :
    tally seen ls = ∑ k ∈ allKeys ls \ seen, c k := by
  induction ls generalizing seen with
  | nil => simp [tally, allKeys]
  | cons l ls ih =>
      have hl := h l (by simp)
      rw [tally, gain_eq_sum c seen l (fun k _ => hl k),
        ih _ fun l' hl' => h l' (List.mem_cons_of_mem _ hl'), gain_seen, allKeys]
      rw [← Finset.sum_union]
      · congr 1
        ext x
        simp only [Finset.mem_union, Finset.mem_sdiff]
        by_cases h1 : x ∈ keysOf l
        · simp [h1]
        · simp [h1]
      · rw [Finset.disjoint_left]
        intro x hx hx'
        simp only [Finset.mem_sdiff, Finset.mem_union] at hx hx'
        exact hx'.2 (Or.inr hx.1)

omit [AddCommMonoid A] in
theorem mem_allKeys {ls : List (List (K × A))} {k : K} :
    k ∈ allKeys ls ↔ ∃ l ∈ ls, k ∈ keysOf l := by
  induction ls with
  | nil => simp [allKeys]
  | cons l ls ih => simp [allKeys, ih]

/-- Any two parties sharing a key make the same first offer under it. -/
def Agree (ls : List (List (K × A))) : Prop :=
  ∀ l ∈ ls, ∀ l' ∈ ls, ∀ k a a', firstOffer l k = some a → firstOffer l' k = some a' → a = a'

open Classical in
/-- Parties that agree can be visited in any order. -/
theorem tally_perm {ls ls' : List (List (K × A))} (hperm : ls.Perm ls') (h : Agree ls) :
    tally ∅ ls = tally ∅ ls' := by
  -- the amount under a key, read from whichever party offers under it
  let c : K → A := fun k =>
    if hk : ∃ a, ∃ l ∈ ls, firstOffer l k = some a then hk.choose else 0
  have hc : ∀ l ∈ ls, ∀ k a, firstOffer l k = some a → a = c k := by
    intro l hl k a ha
    have hex : ∃ a, ∃ l ∈ ls, firstOffer l k = some a := ⟨a, l, hl, ha⟩
    obtain ⟨l', hl', ha'⟩ := hex.choose_spec
    have hck : c k = hex.choose := dif_pos hex
    rw [hck]
    exact h l hl l' hl' k _ _ ha ha'
  have hc' : ∀ l ∈ ls', ∀ k a, firstOffer l k = some a → a = c k :=
    fun l hl => hc l (hperm.mem_iff.mpr hl)
  have hkeys : allKeys ls = allKeys ls' := by
    ext k
    simp only [mem_allKeys, hperm.mem_iff]
  rw [tally_eq_sum c ∅ ls hc, tally_eq_sum c ∅ ls' hc', hkeys]

end FirstCome
