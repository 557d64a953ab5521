import Mathlib

/-!
# Lists of intervals

An interval is anything with a lower and an upper bound, both included. A list
of them is `Spaced` when it is ascending with at least one number between any
two neighbours: then it is determined by the numbers it covers, and an interval
is covered exactly if one entry covers it (`Spaced.subset_iff`).
-/

namespace Intervals

variable {ρ : Type*} (lo hi : ρ → ℕ)

/-- The numbers in some interval of the list. -/
def covered (l : List ρ) : Set ℕ := {z | ∃ r ∈ l, lo r ≤ z ∧ z ≤ hi r}

/-- Ascending, disjoint and not adjacent. -/
structure Spaced (l : List ρ) : Prop where
  ordered : ∀ r ∈ l, lo r ≤ hi r
  apart : l.Pairwise fun a b => hi a + 1 < lo b

variable {lo hi} {l k m : List ρ} {r : ρ} {s e z : ℕ}

theorem mem_covered : z ∈ covered lo hi l ↔ ∃ r ∈ l, lo r ≤ z ∧ z ≤ hi r := Iff.rfl

@[simp]
theorem covered_nil : covered lo hi ([] : List ρ) = ∅ := by
  ext z
  simp [covered]

theorem covered_append : covered lo hi (l ++ m) = covered lo hi l ∪ covered lo hi m := by
  ext z
  simp only [mem_covered, Set.mem_union, List.mem_append]
  constructor
  · rintro ⟨r, hr | hr, hz⟩
    · exact Or.inl ⟨r, hr, hz⟩
    · exact Or.inr ⟨r, hr, hz⟩
  · rintro (⟨r, hr, hz⟩ | ⟨r, hr, hz⟩)
    · exact ⟨r, Or.inl hr, hz⟩
    · exact ⟨r, Or.inr hr, hz⟩

theorem covered_cons : covered lo hi (r :: l) = Set.Icc (lo r) (hi r) ∪ covered lo hi l := by
  ext z
  simp [mem_covered, Set.mem_Icc]

theorem spaced_nil : Spaced lo hi ([] : List ρ) := ⟨by simp, List.Pairwise.nil⟩

theorem spaced_append : Spaced lo hi (l ++ m) ↔
    Spaced lo hi l ∧ Spaced lo hi m ∧ ∀ a ∈ l, ∀ b ∈ m, hi a + 1 < lo b := by
  constructor
  · rintro ⟨hord, hap⟩
    rcases List.pairwise_append.mp hap with ⟨hl, hm, hcross⟩
    refine ⟨⟨fun r hr => hord r (List.mem_append_left _ hr), hl⟩,
      ⟨fun r hr => hord r (List.mem_append_right _ hr), hm⟩, hcross⟩
  · rintro ⟨hl, hm, hcross⟩
    refine ⟨fun r hr => ?_, List.pairwise_append.mpr ⟨hl.apart, hm.apart, hcross⟩⟩
    rcases List.mem_append.mp hr with h | h
    · exact hl.ordered r h
    · exact hm.ordered r h

theorem spaced_cons : Spaced lo hi (r :: l) ↔
    lo r ≤ hi r ∧ Spaced lo hi l ∧ ∀ b ∈ l, hi r + 1 < lo b := by
  constructor
  · rintro ⟨hord, hap⟩
    rcases List.pairwise_cons.mp hap with ⟨hr, hl⟩
    exact ⟨hord r (List.mem_cons_self ..), ⟨fun b hb => hord b (List.mem_cons_of_mem _ hb), hl⟩, hr⟩
  · rintro ⟨hr, hl, hcross⟩
    refine ⟨fun b hb => ?_, List.pairwise_cons.mpr ⟨hcross, hl.apart⟩⟩
    rcases List.mem_cons.mp hb with rfl | hb
    · exact hr
    · exact hl.ordered b hb

/-- Two entries are the same, or there is a gap between them. -/
theorem Spaced.trichotomy (h : Spaced lo hi l) {a b : ρ} (ha : a ∈ l) (hb : b ∈ l) :
    a = b ∨ hi a + 1 < lo b ∨ hi b + 1 < lo a := by
  let R : ρ → ρ → Prop := fun x y => x = y ∨ hi x + 1 < lo y ∨ hi y + 1 < lo x
  have hsymm : Std.Symm R := by
    constructor
    rintro x y (heq | hlt | hlt)
    · exact Or.inl heq.symm
    · exact Or.inr (Or.inr hlt)
    · exact Or.inr (Or.inl hlt)
  have hpair : l.Pairwise R := h.apart.imp fun hxy => Or.inr (Or.inl hxy)
  have hrefl : ∀ x ∈ l, R x x := fun x _ => Or.inl rfl
  exact hpair.forall_of_forall hrefl ha hb

/-- An interval is covered exactly if one entry covers it. -/
theorem Spaced.subset_iff (h : Spaced lo hi l) (hse : s ≤ e) :
    Set.Icc s e ⊆ covered lo hi l ↔ ∃ r ∈ l, lo r ≤ s ∧ e ≤ hi r := by
  constructor
  · intro hsub
    rcases hsub ⟨le_rfl, hse⟩ with ⟨r, hr, hlo, hhi⟩
    refine ⟨r, hr, hlo, ?_⟩
    -- else the number after `r` would be covered by an entry with a gap below it
    by_contra hend
    have hmem : hi r + 1 ∈ Set.Icc s e := ⟨by omega, by omega⟩
    rcases hsub hmem with ⟨r', hr', hlo', hhi'⟩
    have hr₀ := h.ordered r hr
    rcases h.trichotomy hr hr' with heq | hlt | hlt
    · rw [heq] at hhi' hlo'
      omega
    · omega
    · omega
  · rintro ⟨r, hr, hlo, hhi⟩ z hz
    exact ⟨r, hr, hlo.trans hz.1, hz.2.trans hhi⟩

theorem Spaced.subset (hl : Spaced lo hi l) (hm : Spaced lo hi m) (hcov : covered lo hi l = covered lo hi m)
    (hinj : ∀ a b, lo a = lo b → hi a = hi b → a = b) : l ⊆ m := by
  intro r hr
  have hord := hl.ordered r hr
  obtain ⟨r', hr', hlo, hhi⟩ := (hm.subset_iff hord).mp fun z hz => hcov ▸ ⟨r, hr, hz⟩
  obtain ⟨r'', hr'', hlo', hhi'⟩ := (hl.subset_iff (hm.ordered r' hr')).mp fun z hz => hcov ▸ ⟨r', hr', hz⟩
  -- `r` is in `r'`, and this in an entry that meets `r`.
  have heq : r = r'' := (hl.trichotomy hr hr'').resolve_right (by omega)
  subst heq
  rwa [hinj r r' (by omega) (by omega)]

/-- A list is determined by the numbers it covers. -/
theorem Spaced.ext (hl : Spaced lo hi l) (hm : Spaced lo hi m) (hcov : covered lo hi l = covered lo hi m)
    (hinj : ∀ a b, lo a = lo b → hi a = hi b → a = b) : l = m := by
  have hnodup {k : List ρ} (hk : Spaced lo hi k) : k.Nodup := by
    refine hk.apart.imp_of_mem ?_
    rintro a b ha - hlt rfl
    have := hk.ordered a ha
    omega
  refine List.Perm.eq_of_pairwise (fun a b ha hb hab hba => ?_) hl.apart hm.apart
    ((List.perm_ext_iff_of_nodup (hnodup hl) (hnodup hm)).mpr fun a =>
      ⟨fun ha => hl.subset hm hcov hinj ha, fun ha => hm.subset hl hcov.symm hinj ha⟩)
  have := hl.ordered a ha
  have := hm.ordered b hb
  omega

/-- An interval meets the list exactly if it meets one entry. -/
theorem inter_nonempty_iff (hord : ∀ r ∈ l, lo r ≤ hi r) (hse : s ≤ e) :
    (Set.Icc s e ∩ covered lo hi l).Nonempty ↔ ∃ r ∈ l, lo r ≤ e ∧ s ≤ hi r := by
  constructor
  · rintro ⟨z, hz, r, hr, hlo, hhi⟩
    exact ⟨r, hr, hlo.trans hz.2, hz.1.trans hhi⟩
  · rintro ⟨r, hr, hlo, hhi⟩
    have hr' := hord r hr
    by_cases hs : s ≤ lo r
    · exact ⟨lo r, ⟨hs, hlo⟩, r, hr, le_rfl, hr'⟩
    · exact ⟨s, ⟨le_rfl, hse⟩, r, hr, by omega, hhi⟩

/-- The entries that start at `s` or before, and the ones that start after it. -/
theorem Spaced.split (h : Spaced lo hi l) (s : ℕ) :
    ∃ a b, l = a ++ b ∧ (∀ r ∈ a, lo r ≤ s) ∧ ∀ r ∈ b, s < lo r := by
  induction l with
  | nil => exact ⟨[], [], rfl, by simp, by simp⟩
  | cons r l ih =>
      rcases spaced_cons.mp h with ⟨hr, hl, hafter⟩
      by_cases hs : lo r ≤ s
      · rcases ih hl with ⟨a, b, rfl, ha, hb⟩
        refine ⟨r :: a, b, rfl, fun x hx => ?_, hb⟩
        rcases List.mem_cons.mp hx with rfl | hx
        · exact hs
        · exact ha x hx
      · refine ⟨[], r :: l, rfl, by simp, fun x hx => ?_⟩
        rcases List.mem_cons.mp hx with rfl | hx
        · omega
        · have := hafter x hx
          omega

/-- Replacing the entries `k` that an interval touches by their union with it. -/
theorem covered_merge {lo' hi' : ℕ} (hs : lo' ≤ s) (he : e ≤ hi')
    (hin : ∀ r ∈ k, lo' ≤ lo r ∧ hi r ≤ hi')
    (hlow : lo' = s ∨ ∃ r ∈ k, lo' = lo r ∧ s ≤ hi r + 1)
    (hhigh : hi' = e ∨ ∃ r ∈ k, hi' = hi r ∧ lo r ≤ e + 1) :
    Set.Icc lo' hi' = covered lo hi k ∪ Set.Icc s e := by
  ext z
  simp only [Set.mem_union, Set.mem_Icc, mem_covered]
  constructor
  · rintro ⟨hz, hz'⟩
    by_cases hzs : z < s
    · rcases hlow with heq | ⟨r, hr, heq, hlo⟩
      · omega
      · exact Or.inl ⟨r, hr, by omega, by omega⟩
    · by_cases hze : e < z
      · rcases hhigh with heq | ⟨r, hr, heq, hhi⟩
        · omega
        · exact Or.inl ⟨r, hr, by omega, by omega⟩
      · exact Or.inr ⟨by omega, by omega⟩
  · rintro (⟨r, hr, hlo, hhi⟩ | ⟨hz, hz'⟩)
    · have := hin r hr
      omega
    · omega

/-- Entries `k` are replaced by `m`, each inside one of them. -/
theorem Spaced.replace {a b : List ρ} (h : Spaced lo hi (a ++ (k ++ b))) (hm : Spaced lo hi m)
    (hin : ∀ r ∈ m, ∃ r' ∈ k, lo r' ≤ lo r ∧ hi r ≤ hi r') : Spaced lo hi (a ++ (m ++ b)) := by
  rcases spaced_append.mp h with ⟨ha, hkb, hakb⟩
  rcases spaced_append.mp hkb with ⟨-, hb, hkb'⟩
  refine spaced_append.mpr ⟨ha, spaced_append.mpr ⟨hm, hb, fun r hr x hx => ?_⟩, fun x hx r hr => ?_⟩
  · rcases hin r hr with ⟨r', hr', -, hhi⟩
    have := hkb' r' hr' x hx
    omega
  · rcases List.mem_append.mp hr with hr | hr
    · rcases hin r hr with ⟨r', hr', hlo, -⟩
      have := hakb x hx r' (List.mem_append_left _ hr')
      omega
    · exact hakb x hx r (List.mem_append_right _ hr)

/-- Taking an interval away from the entries in the middle, which are all that it meets. -/
theorem covered_diff {a b : List ρ} (ha : ∀ r ∈ a, hi r < s) (hb : ∀ r ∈ b, e < lo r)
    (hm : covered lo hi m = covered lo hi k \ Set.Icc s e) :
    covered lo hi (a ++ (m ++ b)) = covered lo hi (a ++ (k ++ b)) \ Set.Icc s e := by
  have ha' : covered lo hi a \ Set.Icc s e = covered lo hi a := by
    refine sdiff_eq_left.mpr (Set.disjoint_left.mpr ?_)
    rintro z ⟨r, hr, -, hhi⟩ hz
    have := ha r hr
    have := hz.1
    omega
  have hb' : covered lo hi b \ Set.Icc s e = covered lo hi b := by
    refine sdiff_eq_left.mpr (Set.disjoint_left.mpr ?_)
    rintro z ⟨r, hr, hlo, -⟩ hz
    have := hb r hr
    have := hz.2
    omega
  rw [covered_append, covered_append, covered_append, covered_append, Set.union_sdiff_distrib,
    Set.union_sdiff_distrib, ha', hb', hm]

/-! ## The part within an interval -/

/-- `[a, b]` is a longest interval of numbers of the set. -/
structure LongestIn (S : Set ℕ) (a b : ℕ) : Prop where
  le : a ≤ b
  subset : Set.Icc a b ⊆ S
  low : ∀ z, z + 1 = a → z ∉ S
  high : b + 1 ∉ S

theorem Spaced.longestIn_iff (h : Spaced lo hi l) {a b : ℕ} :
    LongestIn (covered lo hi l) a b ↔ ∃ r ∈ l, lo r = a ∧ hi r = b := by
  constructor
  · intro hab
    rcases (h.subset_iff hab.le).mp hab.subset with ⟨r, hr, hlo, hhi⟩
    refine ⟨r, hr, ?_, ?_⟩
    · -- else the number below `a` would be covered
      by_contra hne
      apply hab.low (a - 1) (by omega)
      exact ⟨r, hr, by omega, by have := hab.le; omega⟩
    · by_contra hne
      apply hab.high
      exact ⟨r, hr, by have := hab.le; omega, by omega⟩
  · rintro ⟨r, hr, rfl, rfl⟩
    constructor
    · exact h.ordered r hr
    · intro z hz
      exact ⟨r, hr, hz.1, hz.2⟩
    · rintro z hz ⟨r', hr', hlo, hhi⟩
      rcases h.trichotomy hr hr' with rfl | hlt | hlt
      · omega
      · have := h.ordered r hr
        omega
      · omega
    · rintro ⟨r', hr', hlo, hhi⟩
      rcases h.trichotomy hr hr' with rfl | hlt | hlt
      · omega
      · omega
      · have := h.ordered r' hr'
        have := h.ordered r hr
        omega

/-- The entries that meet `[s, e]`, cut off at its ends. -/
theorem Spaced.clip (h : Spaced lo hi l) (hse : s ≤ e) :
    Spaced (fun r => max (lo r) s) (fun r => min (hi r) e)
      (l.filter fun r => decide (lo r ≤ e ∧ s ≤ hi r)) := by
  constructor
  · intro r hr
    rcases List.mem_filter.mp hr with ⟨hr, hmeets⟩
    have hin := of_decide_eq_true hmeets
    have := h.ordered r hr
    omega
  · apply (h.apart.filter _).imp
    intro a b hab
    omega

theorem covered_clip : covered (fun r => max (lo r) s) (fun r => min (hi r) e)
    (l.filter fun r => decide (lo r ≤ e ∧ s ≤ hi r)) = covered lo hi l ∩ Set.Icc s e := by
  ext z
  constructor
  · rintro ⟨r, hr, hlo, hhi⟩
    rcases List.mem_filter.mp hr with ⟨hr, -⟩
    rcases Nat.max_le.mp hlo with ⟨hlo, hs⟩
    rcases Nat.le_min.mp hhi with ⟨hhi, he⟩
    exact ⟨⟨r, hr, hlo, hhi⟩, hs, he⟩
  · rintro ⟨⟨r, hr, hlo, hhi⟩, hs, he⟩
    refine ⟨r, List.mem_filter.mpr ⟨hr, decide_eq_true ⟨by omega, by omega⟩⟩, ?_, ?_⟩
    · exact max_le hlo hs
    · exact le_min hhi he

end Intervals
