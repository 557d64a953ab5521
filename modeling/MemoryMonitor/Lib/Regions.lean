import Mathlib

/-!
# Tagged regions

A table of half-open regions `[lo, hi)`, each with a tag, in ascending order. The edits a table
goes through, replacing a region by pieces of it and making one region of two that touch, are
judged by what they do to the tag of a single address.
-/

namespace Regions

variable {ρ τ : Type*} (lo hi : ρ → ℕ) (tag : ρ → τ)

/-- The address `z` lies in a region with the tag `t`. -/
def Tagged (l : List ρ) (z : ℕ) (t : τ) : Prop := ∃ r ∈ l, lo r ≤ z ∧ z < hi r ∧ tag r = t

/-- The regions are in order and do not overlap. A region may be empty. -/
structure Ascending (l : List ρ) : Prop where
  ordered : ∀ r ∈ l, lo r ≤ hi r
  apart : l.Pairwise fun a b => hi a ≤ lo b

/-- Two neighbours that can be made one: they touch and their tags agree. -/
def Joins (a b : ρ) : Prop := hi a = lo b ∧ tag a = tag b

/-- No two neighbours can be made one. -/
def Separated (l : List ρ) : Prop := l.IsChain fun a b => ¬Joins lo hi tag a b

/-- One table comes from another by joining neighbours, one pair after the other. -/
inductive Merges : List ρ → List ρ → Prop where
  | done {l : List ρ} : Merges l l
  | step {x y c : ρ} {a b m : List ρ} : Joins lo hi tag x y → lo c = lo x → hi c = hi y → tag c = tag x →
      Merges (a ++ c :: b) m → Merges (a ++ x :: y :: b) m

variable {lo hi tag} {l m a b : List ρ} {r x y c : ρ} {z : ℕ} {t t' : τ}

@[simp]
theorem tagged_nil : ¬Tagged lo hi tag [] z t := by
  simp [Tagged]

@[simp]
theorem tagged_cons :
    Tagged lo hi tag (r :: l) z t ↔ (lo r ≤ z ∧ z < hi r ∧ tag r = t) ∨ Tagged lo hi tag l z t := by
  simp [Tagged]

@[simp]
theorem tagged_append :
    Tagged lo hi tag (l ++ m) z t ↔ Tagged lo hi tag l z t ∨ Tagged lo hi tag m z t := by
  simp only [Tagged, List.mem_append]
  constructor
  · rintro ⟨r, hr | hr, hz⟩
    · exact Or.inl ⟨r, hr, hz⟩
    · exact Or.inr ⟨r, hr, hz⟩
  · rintro (⟨r, hr, hz⟩ | ⟨r, hr, hz⟩)
    · exact ⟨r, Or.inl hr, hz⟩
    · exact ⟨r, Or.inr hr, hz⟩

@[simp]
theorem ascending_nil : Ascending lo hi ([] : List ρ) := by
  constructor
  · simp
  · exact List.Pairwise.nil

theorem ascending_cons :
    Ascending lo hi (r :: l) ↔ lo r ≤ hi r ∧ (∀ s ∈ l, hi r ≤ lo s) ∧ Ascending lo hi l := by
  constructor
  · intro h
    obtain ⟨hr, hl⟩ := List.pairwise_cons.mp h.apart
    exact ⟨h.ordered r (by simp), hr, fun s hs => h.ordered s (by simp [hs]), hl⟩
  · rintro ⟨hr, hrl, hl⟩
    constructor
    · intro s hs
      rcases List.mem_cons.mp hs with rfl | hs
      · exact hr
      · exact hl.ordered s hs
    · exact List.pairwise_cons.mpr ⟨hrl, hl.apart⟩

theorem ascending_append :
    Ascending lo hi (l ++ m) ↔
      Ascending lo hi l ∧ Ascending lo hi m ∧ ∀ u ∈ l, ∀ v ∈ m, hi u ≤ lo v := by
  constructor
  · intro h
    obtain ⟨hl, hm, hlm⟩ := List.pairwise_append.mp h.apart
    refine ⟨⟨?_, hl⟩, ⟨?_, hm⟩, hlm⟩
    · intro r hr
      exact h.ordered r (List.mem_append_left m hr)
    · intro r hr
      exact h.ordered r (List.mem_append_right l hr)
  · rintro ⟨hl, hm, hlm⟩
    constructor
    · intro r hr
      rcases List.mem_append.mp hr with hr | hr
      · exact hl.ordered r hr
      · exact hm.ordered r hr
    · exact List.pairwise_append.mpr ⟨hl.apart, hm.apart, hlm⟩

/-- Of two regions of the table, one comes first. -/
theorem Ascending.cases (h : Ascending lo hi l) (hx : x ∈ l) (hy : y ∈ l) :
    x = y ∨ hi x ≤ lo y ∨ hi y ≤ lo x := by
  let R : ρ → ρ → Prop := fun u v => u = v ∨ hi u ≤ lo v ∨ hi v ≤ lo u
  have hsymm : Std.Symm R := by
    constructor
    rintro u v (heq | hle | hle)
    · exact Or.inl heq.symm
    · exact Or.inr (Or.inr hle)
    · exact Or.inr (Or.inl hle)
  have hpair : l.Pairwise R := h.apart.imp fun huv => Or.inr (Or.inl huv)
  have hrefl : ∀ u ∈ l, R u u := fun u _ => Or.inl rfl
  exact hpair.forall_of_forall hrefl hx hy

theorem Ascending.tagged_unique (h : Ascending lo hi l) (ht : Tagged lo hi tag l z t)
    (ht' : Tagged lo hi tag l z t') : t = t' := by
  obtain ⟨u, hu, hlo, hhi, rfl⟩ := ht
  obtain ⟨v, hv, hlo', hhi', rfl⟩ := ht'
  rcases h.cases hu hv with rfl | hle | hle
  · rfl
  · omega
  · omega

/-- The pieces `m` of the region `x` can stand in its place. -/
theorem Ascending.replace (h : Ascending lo hi (a ++ x :: b)) (hm : Ascending lo hi m)
    (hin : ∀ r ∈ m, lo x ≤ lo r ∧ hi r ≤ hi x) : Ascending lo hi (a ++ (m ++ b)) := by
  obtain ⟨ha, hxb, hab⟩ := ascending_append.mp h
  obtain ⟨-, hxb, hb⟩ := ascending_cons.mp hxb
  refine ascending_append.mpr ⟨ha, ascending_append.mpr ⟨hm, hb, ?_⟩, ?_⟩
  · intro u hu v hv
    have hv := hxb v hv
    have hu := (hin u hu).2
    omega
  · intro u hu v hv
    rcases List.mem_append.mp hv with hv | hv
    · have hx := hab u hu x (by simp)
      have hv := (hin v hv).1
      omega
    · exact hab u hu v (by simp [hv])

/-- Only the addresses of the region `x` see the difference. -/
theorem tagged_replace (hz : ¬(lo x ≤ z ∧ z < hi x))
    (hin : ∀ r ∈ m, lo x ≤ lo r ∧ hi r ≤ hi x) :
    Tagged lo hi tag (a ++ (m ++ b)) z t ↔ Tagged lo hi tag (a ++ x :: b) z t := by
  have hm : ¬Tagged lo hi tag m z t := by
    rintro ⟨r, hr, hlo, hhi, -⟩
    have hr := hin r hr
    exact hz ⟨by omega, by omega⟩
  have hx : ¬(lo x ≤ z ∧ z < hi x ∧ tag x = t) := fun hx => hz ⟨hx.1, hx.2.1⟩
  simp only [tagged_append, tagged_cons, hm, hx, false_or]

/-- An address of the region `x` sees only the pieces. -/
theorem Ascending.tagged_inside (h : Ascending lo hi (a ++ x :: b)) (hz : lo x ≤ z ∧ z < hi x) :
    Tagged lo hi tag (a ++ (m ++ b)) z t ↔ Tagged lo hi tag m z t := by
  obtain ⟨-, hxb, hab⟩ := ascending_append.mp h
  obtain ⟨-, hxb, -⟩ := ascending_cons.mp hxb
  have ha : ¬Tagged lo hi tag a z t := by
    rintro ⟨r, hr, hlo, hhi, -⟩
    have hr := hab r hr x (by simp)
    omega
  have hb : ¬Tagged lo hi tag b z t := by
    rintro ⟨r, hr, hlo, hhi, -⟩
    have hr := hxb r hr
    omega
  simp only [tagged_append, ha, hb, false_or, or_false]

/-- Two regions that join can be made one. -/
theorem Ascending.join (h : Ascending lo hi (a ++ x :: y :: b)) (hj : Joins lo hi tag x y)
    (hlo : lo c = lo x) (hhi : hi c = hi y) : Ascending lo hi (a ++ c :: b) := by
  obtain ⟨ha, hxyb, hab⟩ := ascending_append.mp h
  obtain ⟨hx, hxb, hyb⟩ := ascending_cons.mp hxyb
  obtain ⟨hy, hyb, hb⟩ := ascending_cons.mp hyb
  have htouch : hi x = lo y := hj.1
  refine ascending_append.mpr ⟨ha, ascending_cons.mpr ⟨by omega, ?_, hb⟩, ?_⟩
  · intro v hv
    rw [hhi]
    exact hyb v hv
  · intro u hu v hv
    rcases List.mem_cons.mp hv with rfl | hv
    · rw [hlo]
      exact hab u hu x (by simp)
    · exact hab u hu v (by simp [hv])

theorem Ascending.tagged_join (h : Ascending lo hi (a ++ x :: y :: b)) (hj : Joins lo hi tag x y)
    (hlo : lo c = lo x) (hhi : hi c = hi y) (htag : tag c = tag x) :
    Tagged lo hi tag (a ++ c :: b) z t ↔ Tagged lo hi tag (a ++ x :: y :: b) z t := by
  have hx : lo x ≤ hi x := h.ordered x (by simp)
  have hy : lo y ≤ hi y := h.ordered y (by simp)
  obtain ⟨htouch, hsame⟩ := hj
  have hcover : (lo c ≤ z ∧ z < hi c ∧ tag c = t) ↔
      (lo x ≤ z ∧ z < hi x ∧ tag x = t) ∨ (lo y ≤ z ∧ z < hi y ∧ tag y = t) := by
    rw [hlo, hhi, htag, ← hsame]
    constructor
    · rintro ⟨hz, hz', ht⟩
      rcases Nat.lt_or_ge z (hi x) with hlt | hge
      · exact Or.inl ⟨hz, hlt, ht⟩
      · exact Or.inr ⟨by omega, hz', ht⟩
    · rintro (⟨hz, hz', ht⟩ | ⟨hz, hz', ht⟩)
      · exact ⟨hz, by omega, ht⟩
      · exact ⟨by omega, hz', ht⟩
  simp only [tagged_append, tagged_cons, hcover, or_assoc]

/-- The merged region meets what is before it as its first half did. -/
theorem Separated.join (h : Separated lo hi tag (a ++ [x])) (hlo : lo c = lo x)
    (htag : tag c = tag x) : Separated lo hi tag (a ++ [c]) := by
  have hc : ∀ u, Joins lo hi tag u c ↔ Joins lo hi tag u x := by
    intro u
    rw [Joins, Joins, hlo, htag]
  rw [Separated, List.isChain_append] at h ⊢
  refine ⟨h.1, List.isChain_singleton c, ?_⟩
  intro u hu v hv
  simp only [List.head?_cons, Option.mem_some_iff] at hv
  subst hv
  rw [hc]
  exact h.2.2 u hu x (by simp)

theorem Separated.next (h : Separated lo hi tag (a ++ [x])) (hxy : ¬Joins lo hi tag x y) :
    Separated lo hi tag (a ++ [x] ++ [y]) := by
  rw [Separated, List.isChain_append]
  refine ⟨h, List.isChain_singleton y, ?_⟩
  intro u hu v hv
  simp only [List.getLast?_append, List.getLast?_singleton, Option.some_or, Option.mem_some_iff,
    List.head?_cons] at hu hv
  subst hu hv
  exact hxy

/-- Where no two regions start together, touching regions are neighbours. -/
theorem Separated.pairwise (h : Separated lo hi tag l) (hl : Ascending lo hi l)
    (hstrict : l.Pairwise fun u v => lo u < lo v) : l.Pairwise fun u v => ¬Joins lo hi tag u v := by
  induction l with
  | nil => exact List.Pairwise.nil
  | cons r l ih =>
      obtain ⟨-, hrl, hl'⟩ := ascending_cons.mp hl
      obtain ⟨hlt, hstrict'⟩ := List.pairwise_cons.mp hstrict
      refine List.pairwise_cons.mpr ⟨?_, ih (List.IsChain.tail h) hl' hstrict'⟩
      intro v hv
      cases l with
      | nil => simp at hv
      | cons s l =>
          rcases List.mem_cons.mp hv with rfl | hv
          · exact (List.isChain_cons_cons.mp h).1
          · intro hj
            have hs := hrl s (by simp)
            have hsv := (List.pairwise_cons.mp hstrict').1 v hv
            have htouch := hj.1
            omega

theorem Ascending.merges (h : Ascending lo hi l) (hm : Merges lo hi tag l m) :
    Ascending lo hi m := by
  induction hm with
  | done => exact h
  | step hj hlo hhi _ _ ih => exact ih (h.join hj hlo hhi)

theorem Ascending.tagged_merges (h : Ascending lo hi l) (hm : Merges lo hi tag l m) :
    Tagged lo hi tag m z t ↔ Tagged lo hi tag l z t := by
  induction hm with
  | done => exact Iff.rfl
  | step hj hlo hhi htag _ ih => exact (ih (h.join hj hlo hhi)).trans (h.tagged_join hj hlo hhi htag)

theorem Merges.length_le (hm : Merges lo hi tag l m) : m.length ≤ l.length := by
  induction hm with
  | done => exact Nat.le_refl _
  | step _ _ _ _ _ ih =>
      simp only [List.length_append, List.length_cons] at ih ⊢
      omega

theorem Merges.forall_hi (hm : Merges lo hi tag l m) {P : ℕ → Prop} (h : ∀ r ∈ l, P (hi r)) :
    ∀ r ∈ m, P (hi r) := by
  induction hm with
  | done => exact h
  | @step x y c a b m _ _ hhi _ _ ih =>
      refine ih ?_
      intro r hr
      simp only [List.mem_append, List.mem_cons] at hr
      rcases hr with hr | rfl | hr
      · exact h r (by simp [hr])
      · rw [hhi]
        exact h y (by simp)
      · exact h r (by simp [hr])

theorem Merges.pairwise_lo (hm : Merges lo hi tag l m) (h : l.Pairwise fun u v => lo u < lo v) :
    m.Pairwise fun u v => lo u < lo v := by
  induction hm with
  | done => exact h
  | @step x y c a b m _ hlo _ _ _ ih =>
      refine ih ?_
      simp only [List.pairwise_append, List.pairwise_cons, List.mem_cons] at h ⊢
      obtain ⟨ha, ⟨hx, hy, hb⟩, hab⟩ := h
      refine ⟨ha, ⟨?_, hb⟩, ?_⟩
      · intro v hv
        rw [hlo]
        exact hx v (Or.inr hv)
      · rintro u hu v (rfl | hv)
        · rw [hlo]
          exact hab u hu x (Or.inl rfl)
        · exact hab u hu v (Or.inr (Or.inr hv))

/-- Joining adds no region that is picked out by its end and its tag. -/
theorem Merges.countP_le (hm : Merges lo hi tag l m) (p : ℕ → τ → Bool) :
    m.countP (fun r => p (hi r) (tag r)) ≤ l.countP (fun r => p (hi r) (tag r)) := by
  induction hm with
  | done => exact Nat.le_refl _
  | step hj _ hhi htag _ ih =>
      refine Nat.le_trans ih ?_
      simp only [List.countP_append, List.countP_cons, hhi, htag, hj.2]
      omega

end Regions
