import Mathlib

/-!
# The boot-time allocator (`xen/common/page_alloc.c`)

Before there is a heap, the free memory is a table of regions, which fills one page. The first page that is
handed over is the one that the table is put in. Pages on the list of bad ones are cut out of the regions,
and allocations are cut off their upper ends.

A region may be empty. The place for an allocation is computed in `unsigned long`, so that it wraps in a
region that ends below the number of pages that are asked for.
-/

namespace PageAlloc.Boot

/-- `struct bootmem_region`: the frames from `s` on that are below `e` are free. -/
structure Region where
  s : Nat
  e : Nat
  deriving DecidableEq

/-- The table of regions; `table` is the page that `bootmem_region_list` lies in. -/
structure Bootmem where
  table : Option Nat
  regions : List Region
  deriving DecidableEq

/-- `BOOT_BUG_ON` panics; `endless` is a loop without end. -/
inductive Halt where
  | panic | endless
  deriving DecidableEq

/-- `PAGE_SIZE / sizeof(struct bootmem_region)`. -/
def tableSize : Nat := 4096 / 16

/-! ## The functions -/

def bootmemRegionAdd (b : Bootmem) (s e : Nat) : Except Halt Bootmem :=
  let (b, s) : Bootmem × Nat := if b.table = none ∧ s < e then ({ b with table := some s }, s + 1) else (b, s)
  if s ≥ e then .ok b
  else
    let i := b.regions.findIdx fun r => decide (s < r.e)
    if (b.regions[i]?).any fun r => decide (e > r.s) then .error .panic
    else if b.regions.length = tableSize then .error .panic
    else .ok { b with regions := b.regions.take i ++ ⟨s, e⟩ :: b.regions.drop i }

/-- The loop of `bootmem_region_zap`, at region `i`. -/
def zapLoop (s e : Nat) : (fuel i : Nat) → Bootmem → Except Halt Bootmem
  | 0, i, b => if i < b.regions.length then .error .endless else .ok b
  | fuel + 1, i, b =>
    match b.regions[i]? with
    | none => .ok b
    | some r =>
      if e ≤ r.s then .ok b
      else if s ≥ r.e then zapLoop s e fuel (i + 1) b
      else if s ≤ r.s then
        zapLoop s e fuel (i + 1) { b with regions := b.regions.set i { r with s := min e r.e } }
      else if e ≥ r.e then zapLoop s e fuel (i + 1) { b with regions := b.regions.set i { r with e := s } }
      else
        match bootmemRegionAdd { b with regions := b.regions.set i { r with e := s } } e r.e with
        | .error h => .error h
        | .ok b => zapLoop s e fuel (i + 1) b

def bootmemRegionZap (b : Bootmem) (s e : Nat) : Except Halt Bootmem := zapLoop s e (b.regions.length + 1) 0 b

/-- A bad page, or a range of them. -/
structure BadPages where
  spfn : BitVec 64
  epfn : Option (BitVec 64)

/-- The frames `[bad_spfn, bad_epfn+1)`. -/
def BadPages.range (p : BadPages) : Nat × Nat :=
  let epfn :=
    match p.epfn with
    | none => p.spfn
    | some epfn => if epfn < p.spfn then p.spfn else epfn
  (p.spfn.toNat, (epfn + 1).toNat)

/-- The loop over the bad-page list. -/
def zapAll : List BadPages → Bootmem → Except Halt Bootmem
  | [], b => .ok b
  | p :: rest, b =>
    match bootmemRegionZap b p.range.1 p.range.2 with
    | .error h => .error h
    | .ok b => zapAll rest b

/-- The frames of `init_boot_pages`: `ps` rounded up and `pe` rounded down. -/
def pageRange (ps pe : BitVec 64) : Nat × Nat :=
  ((((ps + 4095) &&& ~~~4095) >>> 12).toNat, ((pe &&& ~~~4095) >>> 12).toNat)

def initBootPages (b : Bootmem) (ps pe : BitVec 64) (bad : List BadPages) : Except Halt Bootmem :=
  if pe &&& ~~~4095 ≤ (ps + 4095) &&& ~~~4095 then .ok b
  else
    match bootmemRegionAdd b (pageRange ps pe).1 (pageRange ps pe).2 with
    | .error h => .error h
    | .ok b => zapAll bad b

/-- `(r->e - nr_pfns) & ~(pfn_align - 1)`. -/
def placement (e : Nat) (nrPfns pfnAlign : BitVec 64) : Nat :=
  ((BitVec.ofNat 64 e - nrPfns) &&& ~~~(pfnAlign - 1)).toNat

/-- The loop of `alloc_boot_pages`, with `i` regions to go. -/
def allocLoop (nrPfns pfnAlign : BitVec 64) (b : Bootmem) : Nat → Except Halt (Nat × Bootmem)
  | 0 => .error .panic
  | i + 1 =>
    match b.regions[i]? with
    | none => .error .panic
    | some r =>
      let pg := placement r.e nrPfns pfnAlign
      if pg < r.s then allocLoop nrPfns pfnAlign b i
      else
        match bootmemRegionAdd { b with regions := b.regions.set i { r with e := pg } }
            ((pg + nrPfns.toNat) % 2 ^ 64) r.e with
        | .error h => .error h
        | .ok b => .ok (pg, b)

def allocBootPages (b : Bootmem) (nrPfns pfnAlign : BitVec 64) : Except Halt (Nat × Bootmem) :=
  allocLoop nrPfns pfnAlign b b.regions.length

/-! ## Masks -/

/-- Clearing the low bits rounds down. -/
theorem toNat_and_not (x a : BitVec 64) {k : Nat} (hk : k < 64) (ha : a.toNat = 2 ^ k) :
    (x &&& ~~~(a - 1)).toNat = x.toNat - x.toNat % 2 ^ k := by
  have hpos := Nat.two_pow_pos k
  have hsub : (a - 1).toNat = 2 ^ k - 1 := by
    rw [BitVec.toNat_sub, ha, show (1 : BitVec 64).toNat = 1 from rfl]
    omega
  have hmul : x.toNat - x.toNat % 2 ^ k = 2 ^ k * (x.toNat / 2 ^ k) := by
    have := Nat.div_add_mod x.toNat (2 ^ k)
    omega
  rw [hmul]
  apply Nat.eq_of_testBit_eq
  intro i
  rw [BitVec.testBit_toNat, BitVec.getLsbD_and, BitVec.getLsbD_not, ← BitVec.testBit_toNat (a - 1), hsub,
    Nat.testBit_two_pow_sub_one, Nat.testBit_two_pow_mul, Nat.testBit_div_two_pow, ← BitVec.testBit_toNat]
  by_cases hi : k ≤ i
  · rw [Nat.sub_add_cancel hi]
    by_cases h64 : i < 64
    · simp [hi, h64]
    · have hlow : x.toNat.testBit i = false :=
        Nat.testBit_lt_two_pow (x.isLt.trans_le (Nat.pow_le_pow_right (by decide) (by omega)))
      simp [hlow]
  · simp [hi, Nat.not_le.mp hi]

/-! ## The regions -/

/-- The frames of the regions. -/
def free (l : List Region) : Set Nat := {p | ∃ r ∈ l, r.s ≤ p ∧ p < r.e}

/-- Ascending and disjoint. -/
structure Sorted (l : List Region) : Prop where
  ordered : ∀ r ∈ l, r.s ≤ r.e ∧ r.e < 2 ^ 64
  apart : l.Pairwise fun a b => a.e ≤ b.s

variable {l a c : List Region} {b b' : Bootmem} {r : Region} {s e p : Nat}

theorem mem_free : p ∈ free l ↔ ∃ r ∈ l, r.s ≤ p ∧ p < r.e := Iff.rfl

theorem mem_free_append : p ∈ free (a ++ c) ↔ p ∈ free a ∨ p ∈ free c := by
  simp only [mem_free, List.mem_append]
  constructor
  · rintro ⟨r, hr | hr, hp⟩
    · exact .inl ⟨r, hr, hp⟩
    · exact .inr ⟨r, hr, hp⟩
  · rintro (⟨r, hr, hp⟩ | ⟨r, hr, hp⟩)
    · exact ⟨r, .inl hr, hp⟩
    · exact ⟨r, .inr hr, hp⟩

theorem mem_free_cons : p ∈ free (r :: l) ↔ (r.s ≤ p ∧ p < r.e) ∨ p ∈ free l := by
  simp only [mem_free, List.mem_cons]
  constructor
  · rintro ⟨x, rfl | hx, hp⟩
    · exact .inl hp
    · exact .inr ⟨x, hx, hp⟩
  · rintro (hp | ⟨x, hx, hp⟩)
    · exact ⟨r, .inl rfl, hp⟩
    · exact ⟨x, .inr hx, hp⟩

theorem sorted_split : Sorted (a ++ r :: c) ↔
    Sorted a ∧ Sorted c ∧ r.s ≤ r.e ∧ r.e < 2 ^ 64 ∧ (∀ x ∈ a, x.e ≤ r.s) ∧ (∀ x ∈ c, r.e ≤ x.s) ∧
      ∀ x ∈ a, ∀ y ∈ c, x.e ≤ y.s := by
  constructor
  · rintro ⟨hord, hap⟩
    rcases List.pairwise_append.mp hap with ⟨ha, hrc, hcross⟩
    rcases List.pairwise_cons.mp hrc with ⟨hr, hc⟩
    refine ⟨⟨fun x hx => hord x (List.mem_append_left _ hx), ha⟩,
      ⟨fun x hx => hord x (List.mem_append_right _ (List.mem_cons_of_mem _ hx)), hc⟩, ?_, ?_, ?_, hr, ?_⟩
    · exact (hord r (List.mem_append_right _ List.mem_cons_self)).1
    · exact (hord r (List.mem_append_right _ List.mem_cons_self)).2
    · exact fun x hx => hcross x hx r List.mem_cons_self
    · exact fun x hx y hy => hcross x hx y (List.mem_cons_of_mem _ hy)
  · rintro ⟨ha, hc, hle, hlt, har, hrc, hac⟩
    constructor
    · intro x hx
      rcases List.mem_append.mp hx with hx | hx
      · exact ha.ordered x hx
      · rcases List.mem_cons.mp hx with rfl | hx
        · exact ⟨hle, hlt⟩
        · exact hc.ordered x hx
    · refine List.pairwise_append.mpr ⟨ha.apart, List.pairwise_cons.mpr ⟨hrc, hc.apart⟩, ?_⟩
      intro x hx y hy
      rcases List.mem_cons.mp hy with rfl | hy
      · exact har x hx
      · exact hac x hx y hy

/-- A region is put into the gap that it fits in, or the function panics. -/
theorem add_cases (hs : Sorted b.regions) (htable : b.table ≠ none) (hse : s < e) :
    bootmemRegionAdd b s e = .error .panic ∨
      ∃ a c, b.regions = a ++ c ∧ (∀ x ∈ a, x.e ≤ s) ∧ (∀ x ∈ c, e ≤ x.s) ∧
        bootmemRegionAdd b s e = .ok { b with regions := a ++ ⟨s, e⟩ :: c } := by
  unfold bootmemRegionAdd
  rw [if_neg (fun h => htable h.1)]
  dsimp only
  rw [if_neg (Nat.not_le.mpr hse)]
  generalize hi : b.regions.findIdx (fun r => decide (s < r.e)) = i
  by_cases hbug : (b.regions[i]?).any (fun r => decide (e > r.s)) = true
  · rw [if_pos hbug]
    exact .inl rfl
  · rw [if_neg hbug]
    by_cases hfull : b.regions.length = tableSize
    · rw [if_pos hfull]
      exact .inl rfl
    · rw [if_neg hfull]
      right
      refine ⟨b.regions.take i, b.regions.drop i, (List.take_append_drop i _).symm, ?_, ?_, rfl⟩
      · intro x hx
        rcases List.mem_take_iff_getElem.mp hx with ⟨k, hk, rfl⟩
        have hno := @List.not_of_lt_findIdx _ (fun r : Region => decide (s < r.e)) b.regions k (by omega)
        simpa using hno
      · intro x hx
        cases hd : b.regions.drop i with
        | nil =>
          rw [hd] at hx
          exact absurd hx List.not_mem_nil
        | cons y rest =>
          have hy : b.regions[i]? = some y := by
            rw [← List.head?_drop, hd]
            rfl
          rw [hy] at hbug
          have hle : e ≤ y.s := by simpa using hbug
          rw [hd] at hx
          -- the regions behind the first one start even higher
          rcases List.mem_cons.mp hx with rfl | hx
          · exact hle
          · have hsplit : Sorted (b.regions.take i ++ y :: rest) := by
              rw [← hd, List.take_append_drop]
              exact hs
            rcases sorted_split.mp hsplit with ⟨-, -, hyle, -, -, hafter, -⟩
            have := hafter x hx
            omega

/-- The place for a region that fits between `a` and `c`. -/
theorem findIdx_split (ha : ∀ x ∈ a, x.e ≤ s) (hc : ∀ x ∈ c, s < x.e) :
    (a ++ c).findIdx (fun r => decide (s < r.e)) = a.length := by
  induction a with
  | nil =>
    cases c with
    | nil => rfl
    | cons y c =>
      have hy : s < y.e := hc y List.mem_cons_self
      simp [List.findIdx_cons, hy]
  | cons y a ih =>
    have hy : ¬s < y.e := Nat.not_lt.mpr (ha y List.mem_cons_self)
    rw [List.cons_append, List.findIdx_cons, decide_eq_false hy,
      ih fun x hx => ha x (List.mem_cons_of_mem _ hx)]
    rfl

theorem add_at {t : Option Nat} (htable : t ≠ none) (hse : s < e) (ha : ∀ x ∈ a, x.e ≤ s)
    (hc : ∀ x ∈ c, e ≤ x.s ∧ x.s ≤ x.e) :
    bootmemRegionAdd ⟨t, a ++ c⟩ s e =
      if (a ++ c).length = tableSize then .error .panic else .ok ⟨t, a ++ ⟨s, e⟩ :: c⟩ := by
  have hidx : (a ++ c).findIdx (fun r => decide (s < r.e)) = a.length := by
    apply findIdx_split ha
    intro x hx
    have := hc x hx
    omega
  have hbug : ¬((a ++ c)[a.length]?).any (fun r => decide (e > r.s)) = true := by
    rw [List.getElem?_append_right (Nat.le_refl _), Nat.sub_self]
    cases c with
    | nil => simp
    | cons y c =>
      have hy := (hc y List.mem_cons_self).1
      simp
      omega
  unfold bootmemRegionAdd
  rw [if_neg (fun h => htable h.1)]
  dsimp only
  rw [if_neg (Nat.not_le.mpr hse), hidx, if_neg hbug]
  simp only [List.take_left, List.drop_left]

/-! ## Zapping -/

theorem set_split (r' : Region) : (a ++ r :: c).set a.length r' = a ++ r' :: c := by
  rw [List.set_append_right _ _ (Nat.le_refl _), Nat.sub_self]
  rfl

theorem getElem?_split : (a ++ r :: c)[a.length]? = some r := by
  rw [List.getElem?_append_right (Nat.le_refl _), Nat.sub_self]
  rfl

/-- What a zap leaves: the table may be full, else the pages are gone and no others. -/
def Zapped (s e : Nat) (t : Option Nat) (l : List Region) (out : Except Halt Bootmem) : Prop :=
  out = .error .panic ∨ ∃ l', out = .ok ⟨t, l'⟩ ∧ Sorted l' ∧
    ∀ p, p ∈ free l' ↔ p ∈ free l ∧ ¬(s ≤ p ∧ p < e)

theorem Zapped.cut {t : Option Nat} (r' : Region) {out : Except Halt Bootmem}
    (h : Zapped s e t (a ++ r' :: c) out)
    (hr : ∀ p, (r'.s ≤ p ∧ p < r'.e) ∧ ¬(s ≤ p ∧ p < e) ↔ (r.s ≤ p ∧ p < r.e) ∧ ¬(s ≤ p ∧ p < e)) :
    Zapped s e t (a ++ r :: c) out := by
  rcases h with hpanic | ⟨l', hout, hsorted, hfree⟩
  · exact .inl hpanic
  · refine .inr ⟨l', hout, hsorted, ?_⟩
    intro p
    rw [hfree, mem_free_append, mem_free_append, mem_free_cons, mem_free_cons]
    constructor
    · rintro ⟨hp | hp | hp, hno⟩
      · exact ⟨.inl hp, hno⟩
      · exact ⟨.inr (.inl ((hr p).mp ⟨hp, hno⟩).1), hno⟩
      · exact ⟨.inr (.inr hp), hno⟩
    · rintro ⟨hp | hp | hp, hno⟩
      · exact ⟨.inl hp, hno⟩
      · exact ⟨.inr (.inl ((hr p).mpr ⟨hp, hno⟩).1), hno⟩
      · exact ⟨.inr (.inr hp), hno⟩

/-- The range lies inside a region: the new region starts where the range ends, so the loop ends there. -/
theorem Zapped.split {t : Option Nat} (hs : Sorted (a ++ r :: c)) (hbefore : ∀ p ∈ free a, ¬(s ≤ p ∧ p < e))
    (hlo : r.s < s) (hse : s < e) (hhi : e < r.e) (fuel : Nat) :
    Zapped s e t (a ++ r :: c)
      (zapLoop s e (fuel + 1) (a.length + 1) ⟨t, a ++ [{ r with e := s }] ++ ⟨e, r.e⟩ :: c⟩) := by
  rcases sorted_split.mp hs with ⟨ha, hc, hle, hlt, har, hrc, hac⟩
  have hat := getElem?_split (a := a ++ [{ r with e := s }]) (r := ⟨e, r.e⟩) (c := c)
  rw [List.length_append, List.length_singleton] at hat
  unfold zapLoop
  rw [hat]
  dsimp only
  rw [if_pos (Nat.le_refl e), List.append_assoc, List.singleton_append]
  refine .inr ⟨_, rfl, ?_, ?_⟩
  · refine sorted_split.mpr ⟨ha, ?_, hlo.le, hse.trans (hhi.trans hlt), har, ?_, ?_⟩
    · exact (sorted_split (a := []) (r := ⟨e, r.e⟩)).mpr
        ⟨⟨nofun, .nil⟩, hc, hhi.le, hlt, nofun, hrc, nofun⟩
    · intro x hx
      rcases List.mem_cons.mp hx with rfl | hx
      · exact hse.le
      · exact (hse.trans hhi).le.trans (hrc x hx)
    · intro x hx y hy
      rcases List.mem_cons.mp hy with rfl | hy
      · exact (har x hx).trans (hlo.trans hse).le
      · exact hac x hx y hy
  · intro p
    rw [mem_free_append, mem_free_append, mem_free_cons, mem_free_cons, mem_free_cons]
    have hlow := hbefore p
    have hhigh : p ∈ free c → r.e ≤ p := by
      rintro ⟨x, hx, hp⟩
      exact (hrc x hx).trans hp.1
    dsimp only
    clear hbefore har hrc hac hs ha hc hat
    constructor
    · rintro (hp | hp | hp | hp)
      · exact ⟨.inl hp, hlow hp⟩
      · exact ⟨.inr (.inl (by omega)), by omega⟩
      · exact ⟨.inr (.inl (by omega)), by omega⟩
      · have := hhigh hp
        exact ⟨.inr (.inr hp), by omega⟩
    · rintro ⟨hp | hp | hp, hno⟩
      · exact .inl hp
      · by_cases hps : p < s
        · exact .inr (.inl (by omega))
        · exact .inr (.inr (.inl (by omega)))
      · exact .inr (.inr (.inr hp))

theorem zapLoop_spec {t : Option Nat} (htable : t ≠ none) (hse : s < e ∨ e = 0) (fuel : Nat)
    (hfuel : c.length + 1 ≤ fuel) (hs : Sorted (a ++ c)) (hbefore : ∀ p ∈ free a, ¬(s ≤ p ∧ p < e)) :
    Zapped s e t (a ++ c) (zapLoop s e fuel a.length ⟨t, a ++ c⟩) := by
  -- where the rest of the regions lies behind the range, they stay as they are
  have hstop : ∀ a c : List Region, Sorted (a ++ c) → (∀ p ∈ free a, ¬(s ≤ p ∧ p < e)) →
      (∀ x ∈ c, e ≤ x.s) → Zapped s e t (a ++ c) (.ok ⟨t, a ++ c⟩) := by
    intro a c hs hbefore hbehind
    refine .inr ⟨_, rfl, hs, ?_⟩
    intro p
    refine (and_iff_left_of_imp ?_).symm
    intro hp hin
    rcases mem_free_append.mp hp with hp | ⟨x, hx, hp⟩
    · exact hbefore p hp hin
    · have := hbehind x hx
      omega
  induction fuel generalizing a c with
  | zero => omega
  | succ fuel ih =>
    unfold zapLoop
    cases c with
    | nil =>
      rw [List.append_nil, List.getElem?_eq_none (Nat.le_refl _)]
      rw [List.append_nil] at hs
      have h := hstop a [] (by rwa [List.append_nil]) hbefore nofun
      rw [List.append_nil] at h
      exact h
    | cons r c =>
      rw [getElem?_split]
      dsimp only
      rcases sorted_split.mp hs with ⟨ha, hc, hle, hlt, har, hrc, hac⟩
      have hlen : c.length + 1 ≤ fuel := by
        rw [List.length_cons] at hfuel
        omega
      -- the next region is looked at, and this one is `r'`
      have hnext : ∀ r' : Region, r.s ≤ r'.s → r'.s ≤ r'.e → r'.e ≤ r.e →
          (∀ p, (r'.s ≤ p ∧ p < r'.e) ∧ ¬(s ≤ p ∧ p < e) ↔ (r.s ≤ p ∧ p < r.e) ∧ ¬(s ≤ p ∧ p < e)) →
          (∀ p, r'.s ≤ p ∧ p < r'.e → ¬(s ≤ p ∧ p < e)) →
          Zapped s e t (a ++ r :: c) (zapLoop s e fuel (a.length + 1) ⟨t, a ++ r' :: c⟩) := by
        intro r' hlo hord hhi hsame hout
        refine Zapped.cut r' ?_ hsame
        have h := @ih (a ++ [r']) c hlen ?_ ?_
        · rw [List.append_assoc, List.singleton_append, List.length_append, List.length_singleton] at h
          exact h
        · rw [List.append_assoc, List.singleton_append]
          refine sorted_split.mpr ⟨ha, hc, hord, by omega, ?_, ?_, hac⟩
          · exact fun x hx => Nat.le_trans (har x hx) hlo
          · exact fun x hx => Nat.le_trans hhi (hrc x hx)
        · intro p hp
          rcases mem_free_append.mp hp with hp | hp
          · exact hbefore p hp
          · rcases mem_free_cons.mp hp with hp | ⟨x, hx, -⟩
            · exact hout p hp
            · exact absurd hx List.not_mem_nil
      by_cases h₁ : e ≤ r.s
      · rw [if_pos h₁]
        apply hstop a (r :: c) hs hbefore
        intro x hx
        rcases List.mem_cons.mp hx with rfl | hx
        · exact h₁
        · have := hrc x hx
          omega
      · rw [if_neg h₁]
        by_cases h₂ : s ≥ r.e
        · rw [if_pos h₂]
          exact hnext r (Nat.le_refl _) hle (Nat.le_refl _) (fun p => Iff.rfl) (fun p hp => by omega)
        · rw [if_neg h₂]
          by_cases h₃ : s ≤ r.s
          · rw [if_pos h₃, set_split]
            exact hnext { r with s := min e r.e } (by dsimp only; omega) (by dsimp only; omega)
              (Nat.le_refl _) (fun p => by dsimp only; omega) (fun p hp => by dsimp only at hp; omega)
          · rw [if_neg h₃]
            by_cases h₄ : e ≥ r.e
            · rw [if_pos h₄, set_split]
              exact hnext { r with e := s } (Nat.le_refl _) (by dsimp only; omega) (by dsimp only; omega)
                (fun p => by dsimp only; omega) (fun p hp => by dsimp only at hp; omega)
            · -- the range lies inside the region, which is split
              rw [if_neg h₄, set_split]
              have hadd := add_at (a := a ++ [{ r with e := s }]) (c := c) (s := e) (e := r.e) htable (by omega)
                (by
                  intro x hx
                  rcases List.mem_append.mp hx with hx | hx
                  · have := har x hx
                    omega
                  · rw [List.mem_singleton.mp hx]
                    dsimp only
                    omega)
                (fun x hx => ⟨hrc x hx, (hc.ordered x hx).1⟩)
              rw [List.append_assoc, List.singleton_append] at hadd
              rw [hadd]
              by_cases hfull : (a ++ ({ r with e := s } : Region) :: c).length = tableSize
              · rw [if_pos hfull]
                exact .inl rfl
              · rw [if_neg hfull]
                cases fuel with
                | zero => omega
                | succ fuel =>
                  exact Zapped.split hs hbefore (Nat.not_le.mp h₃) (by omega) (Nat.not_le.mp h₄) fuel

/-! ## Handing over -/

/-- The frames of a bad page end behind its last one, or wrap around. -/
theorem BadPages.range_le (q : BadPages) : q.range.1 < q.range.2 ∨ q.range.2 = 0 := by
  unfold BadPages.range
  have hle : ∀ x : BitVec 64, q.spfn.toNat ≤ x.toNat →
      q.spfn.toNat < (x + 1).toNat ∨ (x + 1).toNat = 0 := by
    intro x hx
    have := x.isLt
    rw [BitVec.toNat_add, show (1 : BitVec 64).toNat = 1 from rfl]
    omega
  cases q.epfn with
  | none => exact hle q.spfn (Nat.le_refl _)
  | some epfn =>
    dsimp only
    split
    · exact hle q.spfn (Nat.le_refl _)
    · next h => exact hle epfn (Nat.not_lt.mp h)

/-- The frames of the bad-page list. -/
def bad (l : List BadPages) : Set Nat := {p | ∃ q ∈ l, q.range.1 ≤ p ∧ p < q.range.2}

theorem zapAll_spec {t : Option Nat} (htable : t ≠ none) (qs : List BadPages) (hs : Sorted l) :
    zapAll qs ⟨t, l⟩ = .error .panic ∨ ∃ l', zapAll qs ⟨t, l⟩ = .ok ⟨t, l'⟩ ∧ Sorted l' ∧
      ∀ p, p ∈ free l' ↔ p ∈ free l ∧ p ∉ bad qs := by
  induction qs generalizing l with
  | nil =>
    refine .inr ⟨l, rfl, hs, ?_⟩
    intro p
    refine (and_iff_left ?_).symm
    rintro ⟨q, hq, -⟩
    exact absurd hq List.not_mem_nil
  | cons q qs ih =>
    unfold zapAll bootmemRegionZap
    have hzap := zapLoop_spec (a := []) (c := l) htable q.range_le (l.length + 1) (Nat.le_refl _) hs
      (fun p hp => by
        rcases hp with ⟨x, hx, -⟩
        exact absurd hx List.not_mem_nil)
    rw [List.nil_append, List.length_nil] at hzap
    rcases hzap with hpanic | ⟨l', hout, hs', hfree⟩
    · rw [hpanic]
      exact .inl rfl
    · rw [hout]
      rcases ih hs' with hpanic | ⟨l'', hout', hs'', hfree'⟩
      · exact .inl hpanic
      · refine .inr ⟨l'', hout', hs'', ?_⟩
        intro p
        rw [hfree', hfree, and_assoc]
        refine and_congr_right fun _ => ?_
        constructor
        · rintro ⟨hno, hrest⟩ ⟨x, hx, hp⟩
          rcases List.mem_cons.mp hx with rfl | hx
          · exact hno hp
          · exact hrest ⟨x, hx, hp⟩
        · intro hno
          exact ⟨fun hp => hno ⟨q, List.mem_cons_self, hp⟩,
            fun ⟨x, hx, hp⟩ => hno ⟨x, List.mem_cons_of_mem _ hx, hp⟩⟩

/-- The state between two calls: the regions are sorted, and there are none before there is a table. -/
structure Bootmem.Ok (b : Bootmem) : Prop where
  sorted : Sorted b.regions
  table : b.table = none → b.regions = []

/-- Nothing happens for an empty range. Else its frames become free but for the bad ones, and but for the
one that the table is put in. -/
def HandedOver (b : Bootmem) (ps pe : BitVec 64) (qs : List BadPages) (b' : Bootmem) : Prop :=
  let s := if b.table = none then (pageRange ps pe).1 + 1 else (pageRange ps pe).1
  if pe &&& ~~~4095 ≤ (ps + 4095) &&& ~~~4095 then b' = b
  else b'.table ≠ none ∧
    ∀ p, p ∈ free b'.regions ↔ (p ∈ free b.regions ∨ (s ≤ p ∧ p < (pageRange ps pe).2)) ∧ p ∉ bad qs

/-- A range that is not empty has a frame. -/
theorem pageRange_lt {ps pe : BitVec 64} (h : ¬pe &&& ~~~4095 ≤ (ps + 4095) &&& ~~~4095) :
    (pageRange ps pe).1 < (pageRange ps pe).2 ∧ (pageRange ps pe).2 < 2 ^ 64 := by
  have hlt : ((ps + 4095) &&& ~~~4095).toNat < (pe &&& ~~~4095).toNat := Nat.not_le.mp h
  have hmask := toNat_and_not pe 4096 (k := 12) (by decide) rfl
  rw [show (4096 : BitVec 64) - 1 = 4095 by decide] at hmask
  unfold pageRange
  rw [BitVec.toNat_ushiftRight, BitVec.toNat_ushiftRight, Nat.shiftRight_eq_div_pow, Nat.shiftRight_eq_div_pow]
  omega

theorem Bootmem.Ok.add (hb : b.Ok) (hse : s < e) (hmax : e < 2 ^ 64) :
    bootmemRegionAdd b s e = .error .panic ∨ ∃ b', bootmemRegionAdd b s e = .ok b' ∧ Sorted b'.regions ∧
      b'.table ≠ none ∧
      ∀ p, p ∈ free b'.regions ↔
        p ∈ free b.regions ∨ ((if b.table = none then s + 1 else s) ≤ p ∧ p < e) := by
  rcases b with ⟨t, l⟩
  cases t with
  | none =>
    -- the first page is for the table
    have hl : l = [] := hb.table rfl
    subst hl
    right
    unfold bootmemRegionAdd
    rw [if_pos ⟨rfl, hse⟩]
    dsimp only
    by_cases hone : s + 1 ≥ e
    · rw [if_pos hone]
      refine ⟨_, rfl, ⟨nofun, .nil⟩, nofun, ?_⟩
      intro p
      rw [if_pos rfl]
      constructor
      · exact .inl
      · rintro (hp | hp)
        · exact hp
        · omega
    · rw [if_neg hone]
      refine ⟨_, rfl, ?_, nofun, ?_⟩
      · exact ⟨fun x hx => by
          rw [List.mem_singleton.mp hx]
          exact ⟨by dsimp only; omega, hmax⟩, List.pairwise_singleton _ _⟩
      · intro p
        rw [if_pos rfl]
        exact (mem_free_cons (r := ⟨s + 1, e⟩) (l := [])).trans or_comm
  | some pg =>
    rcases add_cases (b := ⟨some pg, l⟩) hb.sorted nofun hse with hpanic | ⟨a, c, hl, ha, hc, hadd⟩
    · exact .inl hpanic
    · right
      have hsorted := hb.sorted
      subst hl
      refine ⟨_, hadd, ?_, nofun, ?_⟩
      · rcases List.pairwise_append.mp hsorted.apart with ⟨hpa, hpc, hcross⟩
        refine sorted_split.mpr ⟨⟨fun x hx => hsorted.ordered x (List.mem_append_left _ hx), hpa⟩,
          ⟨fun x hx => hsorted.ordered x (List.mem_append_right _ hx), hpc⟩, hse.le, hmax, ha, hc, hcross⟩
      · intro p
        rw [if_neg nofun, mem_free_append, mem_free_append, mem_free_cons]
        constructor
        · rintro (hp | hp | hp)
          · exact .inl (.inl hp)
          · exact .inr hp
          · exact .inl (.inr hp)
        · rintro ((hp | hp) | hp)
          · exact .inl hp
          · exact .inr (.inr hp)
          · exact .inr (.inl hp)

theorem initBootPages_spec (hb : b.Ok) (ps pe : BitVec 64) (qs : List BadPages) :
    initBootPages b ps pe qs = .error .panic ∨
      ∃ b', initBootPages b ps pe qs = .ok b' ∧ b'.Ok ∧ HandedOver b ps pe qs b' := by
  unfold initBootPages HandedOver
  by_cases hempty : pe &&& ~~~4095 ≤ (ps + 4095) &&& ~~~4095
  · rw [if_pos hempty]
    refine .inr ⟨b, rfl, hb, ?_⟩
    rw [if_pos hempty]
  · rw [if_neg hempty]
    rcases pageRange_lt hempty with ⟨hlt, hmax⟩
    rcases hb.add hlt hmax with hpanic | ⟨b₁, hadd, hsorted, htable, hfree⟩
    · rw [hpanic]
      exact .inl rfl
    · rw [hadd]
      rcases zapAll_spec htable qs hsorted with hpanic | ⟨l', hzap, hs', hfree'⟩
      · exact .inl hpanic
      · refine .inr ⟨⟨b₁.table, l'⟩, hzap, ⟨hs', fun h => absurd h htable⟩, ?_⟩
        rw [if_neg hempty]
        refine ⟨htable, ?_⟩
        intro p
        rw [hfree', hfree]

/-! ## Allocating -/

/-- The run is placed in the region, and does not wrap. -/
def Fits (nrPfns pfnAlign : BitVec 64) (r : Region) : Prop :=
  nrPfns.toNat ≤ r.e ∧ r.s ≤ placement r.e nrPfns pfnAlign

/-- No region with fewer frames below its end than are asked for is taken, as one above it has room; and
there is room in the table for what is left above the run. -/
structure Placeable (b : Bootmem) (nrPfns pfnAlign : BitVec 64) : Prop where
  noWrap : ∀ a r c, b.regions = a ++ r :: c → r.e < nrPfns.toNat → r.s ≤ placement r.e nrPfns pfnAlign →
    ∃ x ∈ c, Fits nrPfns pfnAlign x
  room : ∀ a r c, b.regions = a ++ r :: c → Fits nrPfns pfnAlign r → (∀ x ∈ c, ¬Fits nrPfns pfnAlign x) →
    b.regions.length = tableSize → placement r.e nrPfns pfnAlign + nrPfns.toNat = r.e

/-- The run is aligned, lies in one region and is taken out of the free frames; the function panics only
where no region can hold it. -/
def Allocates (b : Bootmem) (nrPfns pfnAlign : BitVec 64) : Except Halt (Nat × Bootmem) → Prop
  | .ok (pg, b') => pfnAlign.toNat ∣ pg ∧ (∃ r ∈ b.regions, r.s ≤ pg ∧ pg + nrPfns.toNat ≤ r.e) ∧ b'.Ok ∧
      ∀ p, p ∈ free b'.regions ↔ p ∈ free b.regions ∧ ¬(pg ≤ p ∧ p < pg + nrPfns.toNat)
  | .error h => h = .panic ∧
      ∀ r ∈ b.regions, ∀ p, pfnAlign.toNat ∣ p → r.s ≤ p → ¬p + nrPfns.toNat ≤ r.e

variable {nrPfns pfnAlign : BitVec 64} {k : Nat}

theorem placement_eq (hk : k < 64) (hal : pfnAlign.toNat = 2 ^ k) (he : e < 2 ^ 64) (hnr : nrPfns.toNat ≤ e) :
    placement e nrPfns pfnAlign = (e - nrPfns.toNat) - (e - nrPfns.toNat) % 2 ^ k := by
  unfold placement
  rw [toNat_and_not _ _ hk hal, BitVec.toNat_sub, BitVec.toNat_ofNat, Nat.mod_eq_of_lt he]
  have := nrPfns.isLt
  rw [show (2 ^ 64 - nrPfns.toNat + e) % 2 ^ 64 = e - nrPfns.toNat by omega]

/-- A region where the run is not placed cannot hold it. -/
theorem not_fits (hk : k < 64) (hal : pfnAlign.toNat = 2 ^ k) (he : r.e < 2 ^ 64)
    (h : placement r.e nrPfns pfnAlign < r.s) {p : Nat} (hp : pfnAlign.toNat ∣ p) (hs : r.s ≤ p) :
    ¬p + nrPfns.toNat ≤ r.e := by
  intro hend
  rw [placement_eq hk hal he (by omega)] at h
  rw [hal] at hp
  -- an aligned frame is not above the highest one that is
  have hle : p / 2 ^ k ≤ (r.e - nrPfns.toNat) / 2 ^ k := Nat.div_le_div_right (by omega)
  have hmul := Nat.mul_le_mul_left (2 ^ k) hle
  rw [Nat.mul_div_cancel' hp] at hmul
  have := Nat.div_add_mod (r.e - nrPfns.toNat) (2 ^ k)
  omega

/-- What is left of a region when its upper part is taken, with the rest above the run. -/
theorem add_rest {t : Option Nat} (htable : t ≠ none) (hs : Sorted (a ++ r :: c)) {pg n : Nat} (hlo : r.s ≤ pg)
    (hhi : pg + n ≤ r.e) (hroom : (a ++ r :: c).length = tableSize → pg + n = r.e) :
    ∃ b', bootmemRegionAdd ⟨t, a ++ { r with e := pg } :: c⟩ (pg + n) r.e = .ok b' ∧ b'.Ok ∧
      ∀ p, p ∈ free b'.regions ↔ p ∈ free (a ++ r :: c) ∧ ¬(pg ≤ p ∧ p < pg + n) := by
  rcases sorted_split.mp hs with ⟨ha, hc, hle, hlt, har, hrc, hac⟩
  have hlow : ∀ p ∈ free a, p < r.s := by
    rintro p ⟨x, hx, hp⟩
    exact hp.2.trans_le (har x hx)
  have hhigh : ∀ p ∈ free c, r.e ≤ p := by
    rintro p ⟨x, hx, hp⟩
    exact (hrc x hx).trans hp.1
  by_cases hrest : pg + n < r.e
  · have hadd := add_at (a := a ++ [{ r with e := pg }]) (c := c) (s := pg + n) (e := r.e) htable hrest
      (by
        intro x hx
        rcases List.mem_append.mp hx with hx | hx
        · exact (har x hx).trans (hlo.trans (Nat.le_add_right ..))
        · rw [List.mem_singleton.mp hx]
          exact Nat.le_add_right ..)
      (fun x hx => ⟨hrc x hx, (hc.ordered x hx).1⟩)
    rw [List.append_assoc, List.append_assoc, List.singleton_append, List.singleton_append] at hadd
    have hlen : (a ++ ({ r with e := pg } : Region) :: c).length = (a ++ r :: c).length := by simp
    rw [hlen, if_neg (fun h => hrest.ne (hroom h))] at hadd
    refine ⟨_, hadd, ⟨?_, fun h => absurd h htable⟩, ?_⟩
    · refine sorted_split.mpr ⟨ha, ?_, hlo, by dsimp only; omega, har, ?_, ?_⟩
      · exact (sorted_split (a := []) (r := ⟨pg + n, r.e⟩)).mpr
          ⟨⟨nofun, .nil⟩, hc, hrest.le, hlt, nofun, hrc, nofun⟩
      · intro x hx
        rcases List.mem_cons.mp hx with rfl | hx
        · exact Nat.le_add_right ..
        · have := hrc x hx
          dsimp only
          omega
      · intro x hx y hy
        rcases List.mem_cons.mp hy with rfl | hy
        · exact (har x hx).trans (hlo.trans (Nat.le_add_right ..))
        · exact hac x hx y hy
    · intro p
      rw [mem_free_append, mem_free_append, mem_free_cons, mem_free_cons, mem_free_cons]
      have hl := hlow p
      have hh := hhigh p
      dsimp only
      constructor
      · rintro (hp | hp | hp | hp)
        · have := hl hp
          exact ⟨.inl hp, by omega⟩
        · exact ⟨.inr (.inl (by omega)), by omega⟩
        · exact ⟨.inr (.inl (by omega)), by omega⟩
        · have := hh hp
          exact ⟨.inr (.inr hp), by omega⟩
      · rintro ⟨hp | hp | hp, hno⟩
        · exact .inl hp
        · by_cases hps : p < pg
          · exact .inr (.inl (by omega))
          · exact .inr (.inr (.inl (by omega)))
        · exact .inr (.inr (.inr hp))
  · -- the run is the end of the region
    refine ⟨⟨t, a ++ { r with e := pg } :: c⟩, ?_, ⟨?_, fun h => absurd h htable⟩, ?_⟩
    · unfold bootmemRegionAdd
      rw [if_neg (fun h => htable h.1)]
      dsimp only
      rw [if_pos (Nat.not_lt.mp hrest)]
    · refine sorted_split.mpr ⟨ha, hc, hlo, by dsimp only; omega, har, ?_, hac⟩
      intro x hx
      have := hrc x hx
      dsimp only
      omega
    · intro p
      rw [mem_free_append, mem_free_append, mem_free_cons, mem_free_cons]
      have hl := hlow p
      have hh := hhigh p
      dsimp only
      constructor
      · rintro (hp | hp | hp)
        · have := hl hp
          exact ⟨.inl hp, by omega⟩
        · exact ⟨.inr (.inl (by omega)), by omega⟩
        · have := hh hp
          exact ⟨.inr (.inr hp), by omega⟩
      · rintro ⟨hp | hp | hp, hno⟩
        · exact .inl hp
        · exact .inr (.inl (by omega))
        · exact .inr (.inr hp)

theorem allocLoop_spec (hb : b.Ok) (hk : k < 64) (hal : pfnAlign.toNat = 2 ^ k)
    (hplace : Placeable b nrPfns pfnAlign) (hsplit : b.regions = a ++ c)
    (hno : ∀ r ∈ c, placement r.e nrPfns pfnAlign < r.s) :
    Allocates b nrPfns pfnAlign (allocLoop nrPfns pfnAlign b a.length) := by
  induction a using List.reverseRecOn generalizing c with
  | nil =>
    refine ⟨rfl, ?_⟩
    intro r hr p hp hs
    rw [List.nil_append] at hsplit
    rw [hsplit] at hr
    exact not_fits hk hal (hb.sorted.ordered r (hsplit ▸ hr)).2 (hno r hr) hp hs
  | append_singleton a r ih =>
    have hat : b.regions = a ++ r :: c := by
      rw [hsplit, List.append_assoc, List.singleton_append]
    have hsorted := hb.sorted
    rw [hat] at hsorted
    rcases sorted_split.mp hsorted with ⟨-, -, -, hmax, -⟩
    rw [List.length_append, List.length_singleton]
    unfold allocLoop
    rw [hat, getElem?_split]
    dsimp only
    by_cases hlow : placement r.e nrPfns pfnAlign < r.s
    · rw [if_pos hlow]
      apply ih hat
      intro x hx
      rcases List.mem_cons.mp hx with rfl | hx
      · exact hlow
      · exact hno x hx
    · rw [if_neg hlow, set_split]
      have hrej : ∀ x ∈ c, ¬Fits nrPfns pfnAlign x := fun x hx hfit =>
        Nat.lt_irrefl _ ((hno x hx).trans_le hfit.2)
      have hnr : nrPfns.toNat ≤ r.e := by
        by_contra hwrap
        rcases hplace.noWrap a r c hat (Nat.not_le.mp hwrap) (Nat.not_lt.mp hlow) with ⟨x, hx, hfit⟩
        exact hrej x hx hfit
      have hroom := hplace.room a r c hat ⟨hnr, Nat.not_lt.mp hlow⟩ hrej
      have heq := placement_eq hk hal hmax hnr
      have hend : placement r.e nrPfns pfnAlign + nrPfns.toNat ≤ r.e := by omega
      rw [Nat.mod_eq_of_lt (by omega)]
      have htable : b.table ≠ none := by
        intro h
        have hnil := hb.table h
        rw [hat] at hnil
        exact List.append_ne_nil_of_right_ne_nil a (List.cons_ne_nil r c) hnil
      rcases add_rest htable hsorted (Nat.not_lt.mp hlow) hend (by rw [← hat]; exact hroom) with
        ⟨b', hadd, hb', hfree⟩
      rw [hadd]
      refine ⟨?_, ⟨r, ?_, Nat.not_lt.mp hlow, hend⟩, hb', ?_⟩
      · rw [hal, heq]
        exact Nat.dvd_sub_mod _
      · rw [hat]
        exact List.mem_append_right _ List.mem_cons_self
      · rw [hat]
        exact hfree

theorem allocBootPages_spec (hb : b.Ok) (hk : k < 64) (hal : pfnAlign.toNat = 2 ^ k)
    (hplace : Placeable b nrPfns pfnAlign) : Allocates b nrPfns pfnAlign (allocBootPages b nrPfns pfnAlign) :=
  allocLoop_spec hb hk hal hplace (a := b.regions) (c := []) (List.append_nil _).symm nofun

/-! ## Runs -/

inductive Step where
  | init (ps pe : BitVec 64) (bad : List BadPages)
  | alloc (nrPfns pfnAlign : BitVec 64)

/-- The state after a step, unless it panics. -/
def Step.next : Step → Bootmem → Except Halt Bootmem
  | .init ps pe bad, b => initBootPages b ps pe bad
  | .alloc nrPfns pfnAlign, b => (allocBootPages b nrPfns pfnAlign).map Prod.snd

/-- Nothing has been handed over. -/
def Bootmem.init : Bootmem := ⟨none, []⟩

/-- What is asked for is a power of two as the alignment; and the place does not wrap. -/
def Step.Ok (b : Bootmem) : Step → Prop
  | .init .. => True
  | .alloc nrPfns pfnAlign => (∃ k, k < 64 ∧ pfnAlign.toNat = 2 ^ k) ∧ Placeable b nrPfns pfnAlign

/-- What a step does. -/
def Step.Does (b : Bootmem) : Step → Prop
  | .init ps pe bad => initBootPages b ps pe bad = .error .panic ∨
      ∃ b', initBootPages b ps pe bad = .ok b' ∧ HandedOver b ps pe bad b'
  | .alloc nrPfns pfnAlign => Allocates b nrPfns pfnAlign (allocBootPages b nrPfns pfnAlign)

/-- A run ends where a step panics. -/
def EachOk : List Step → Bootmem → Prop
  | [], _ => True
  | step :: rest, b => step.Ok b ∧ ∀ b', step.next b = .ok b' → EachOk rest b'

/-- In every state of the run the regions are sorted, and every step does what it is to. -/
def EachDoes : List Step → Bootmem → Prop
  | [], b => Sorted b.regions
  | step :: rest, b => Sorted b.regions ∧ step.Does b ∧ ∀ b', step.next b = .ok b' → EachDoes rest b'

theorem Bootmem.Ok.step (hb : b.Ok) {step : Step} (hok : step.Ok b) :
    step.Does b ∧ ∀ b', step.next b = .ok b' → b'.Ok := by
  cases step with
  | init ps pe bad =>
    rcases initBootPages_spec hb ps pe bad with hpanic | ⟨b', hout, hb', hdone⟩
    · refine ⟨.inl hpanic, ?_⟩
      intro b' h
      exact absurd (hpanic.symm.trans h) nofun
    · refine ⟨.inr ⟨b', hout, hdone⟩, ?_⟩
      intro b'' h
      cases hout.symm.trans h
      exact hb'
  | alloc nrPfns pfnAlign =>
    rcases hok with ⟨⟨k, hk, hal⟩, hplace⟩
    have hspec := allocBootPages_spec hb hk hal hplace
    refine ⟨hspec, ?_⟩
    intro b' h
    unfold Step.next at h
    dsimp only at h
    cases hout : allocBootPages b nrPfns pfnAlign with
    | error e =>
      rw [hout] at h
      cases h
    | ok out =>
      rw [hout] at h hspec
      cases h
      exact hspec.2.2.1

theorem Bootmem.Ok.run (hb : b.Ok) {steps : List Step} (hok : EachOk steps b) : EachDoes steps b := by
  induction steps generalizing b with
  | nil => exact hb.sorted
  | cons step rest ih =>
    rcases hb.step hok.1 with ⟨hdoes, hnext⟩
    refine ⟨hb.sorted, hdoes, ?_⟩
    intro b' h
    exact ih (hnext b' h) (hok.2 b' h)

theorem Bootmem.init_ok : Bootmem.init.Ok := ⟨⟨nofun, .nil⟩, fun _ => rfl⟩

/-- In every run of the boot-time allocator where no place wraps around and the table is large enough, the
regions stay sorted, and every allocation is an aligned run of free frames. -/
theorem run_bootAllocates (steps : List Step) (hok : EachOk steps .init) : EachDoes steps .init :=
  Bootmem.init_ok.run hok

/-- Three frames are handed over, of which the first one is for the table, and one is asked for. -/
def threeFrames : List Step := [.init 0x1000 0x4000 [], .alloc 1 1]

theorem run_bootAllocates_threeFrames : EachDoes threeFrames .init := by
  apply run_bootAllocates
  refine ⟨trivial, ?_⟩
  intro b' h
  have hb : b' = ⟨some 1, [⟨2, 4⟩]⟩ := by
    have hrun : initBootPages .init 0x1000 0x4000 [] = .ok ⟨some 1, [⟨2, 4⟩]⟩ := by decide +kernel
    exact Except.ok.inj (h.symm.trans hrun)
  subst hb
  have hone : ∀ (a : List Region) r c, [⟨2, 4⟩] = a ++ r :: c → r = ⟨2, 4⟩ := by
    intro a r c heq
    have hmem : r ∈ [(⟨2, 4⟩ : Region)] := by
      rw [heq]
      exact List.mem_append_right _ List.mem_cons_self
    exact List.mem_singleton.mp hmem
  refine ⟨⟨⟨0, by decide, rfl⟩, ?_, ?_⟩, fun _ _ => trivial⟩
  · intro a r c heq hlt
    rw [hone a r c heq] at hlt
    exact absurd hlt (by decide)
  · intro a r c heq hfit hno hfull
    exact absurd hfull (by decide)

/-- Four frames are asked for where only frames 2 and 3 are left: the place is in front of frame 0. -/
theorem allocBootPages_wraps :
    ∃ b, initBootPages .init 0x1000 0x3000 [] = .ok b ∧ b = ⟨some 1, [⟨2, 3⟩]⟩ ∧
      ¬Allocates b 4 1 (allocBootPages b 4 1) := by
  refine ⟨_, by decide +kernel, rfl, ?_⟩
  have hrun : allocBootPages ⟨some 1, [⟨2, 3⟩]⟩ 4 1 = .ok (2 ^ 64 - 1, ⟨some 1, [⟨2, 2 ^ 64 - 1⟩]⟩) := by
    decide +kernel
  rw [hrun]
  rintro ⟨-, ⟨r, hr, -, hend⟩, -⟩
  rw [List.mem_singleton.mp hr] at hend
  exact absurd hend (by decide)

end PageAlloc.Boot
