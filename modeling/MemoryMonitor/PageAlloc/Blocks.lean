import MemoryMonitor.Lib.Totals
import MemoryMonitor.PageAlloc.Heap

/-!
# The free blocks

`Good` is what holds of the lists of free blocks. Two sets of pages take part in it
while an operation is under way. The pages of `H` are in hand: they belong to no
block, as they are about to be listed or given away. The pages of `D` are offlined
already, but still in a block or in hand.

`Counts` is about the counters, which include `k` pages in hand of one node and zone.
-/

open Finset

namespace PageAlloc

/-- A page that can be in the heap. -/
structure HeapPage (m : Machine) (x : Nat) : Prop where
  valid : m.valid x = true
  ne_zero : x ≠ 0
  lt : x < 2 ^ nrZones

/-- The page counts as free. -/
def Inside (page : Nat → Page) (D : Nat → Prop) (x : Nat) : Prop :=
  (page x).state = .free ∨ D x

/-- The block of order `o` at `h` is a block of node `n` and zone `z`. -/
structure IsBlock (m : Machine) (page : Nat → Page) (D H : Nat → Prop) (n z o h : Nat) : Prop where
  le : o ≤ maxOrder
  aligned : 2 ^ o ∣ h
  order : (page h).order = o
  inside : ∀ x, Buddy.Mem h o x → Inside page D x ∧ ¬H x ∧ m.nid x = n ∧ Nat.log 2 x = z

structure Good (m : Machine) (page : Nat → Page) (heap : Lists) (D H : Nat → Prop) : Prop where
  dirty : ∀ x, D x → (page x).state = .offlined
  hand : ∀ x, H x → Inside page D x
  block : ∀ n z o h, h ∈ heap n z o → IsBlock m page D H n z o h
  cover : ∀ x, Inside page D x → ¬H x →
    ∃ o h, h ∈ heap (m.nid x) (Nat.log 2 x) o ∧ Buddy.Mem h o x
  apart : ∀ n z o h n' z' o' h' x, h ∈ heap n z o → h' ∈ heap n' z' o' → Buddy.Mem h o x →
    Buddy.Mem h' o' x → o = o' ∧ h = h'
  nodup : ∀ n z o, (heap n z o).Nodup
  clean : ∀ x, (page x).state = .free → (page x).isFree = true
  heapPage : ∀ x, Inside page D x → HeapPage m x

/-! ## Lists -/

section Lists

variable {l : Lists} {n z o n' z' o' : Nat} {v : List Nat}

@[simp] theorem Lists.set_self : l.set n z o v n z o = v := by
  simp [Lists.set]

theorem Lists.set_of_ne (h : ¬(n' = n ∧ z' = z ∧ o' = o)) :
    l.set n z o v n' z' o' = l n' z' o' := by
  unfold Lists.set
  by_cases hn : n' = n
  · subst hn
    by_cases hz : z' = z
    · subst hz
      have ho : o' ≠ o := fun ho => h ⟨rfl, rfl, ho⟩
      simp [ho]
    · simp [hz]
  · simp [hn]

/-- What is on a list after another page has been added to one. -/
theorem Lists.mem_append {h x : Nat} :
    x ∈ l.set n z o (l n z o ++ [h]) n' z' o' ↔
      x ∈ l n' z' o' ∨ (n' = n ∧ z' = z ∧ o' = o ∧ x = h) := by
  by_cases hs : n' = n ∧ z' = z ∧ o' = o
  · rcases hs with ⟨rfl, rfl, rfl⟩
    simp
  · rw [Lists.set_of_ne hs]
    refine (or_iff_left fun hx => hs ?_).symm
    exact ⟨hx.1, hx.2.1, hx.2.2.1⟩

theorem Lists.mem_erase {h x : Nat} (hnd : (l n z o).Nodup) :
    x ∈ l.set n z o ((l n z o).erase h) n' z' o' ↔
      x ∈ l n' z' o' ∧ ¬(n' = n ∧ z' = z ∧ o' = o ∧ x = h) := by
  by_cases hs : n' = n ∧ z' = z ∧ o' = o
  · rcases hs with ⟨rfl, rfl, rfl⟩
    rw [Lists.set_self, hnd.mem_erase_iff]
    simp [and_comm]
  · rw [Lists.set_of_ne hs]
    refine (and_iff_left fun hx => hs ?_).symm
    exact ⟨hx.1, hx.2.1, hx.2.2.1⟩

end Lists

/-! ## Blocks that leave a list and enter it -/

namespace Good

variable {m : Machine} {page : Nat → Page} {heap : Lists} {D H : Nat → Prop} {n z o h : Nat}

theorem congr_hand {H' : Nat → Prop} (g : Good m page heap D H) (hH : ∀ x, H x ↔ H' x) :
    Good m page heap D H' := by
  have : H = H' := funext fun x => propext (hH x)
  rw [← this]
  exact g

/-- A block is taken off its list. -/
theorem unlist (g : Good m page heap D H) (hh : h ∈ heap n z o) :
    Good m page (heap.set n z o ((heap n z o).erase h)) D
      (fun x => H x ∨ Buddy.Mem h o x) := by
  have hb := g.block n z o h hh
  have hmem {n' z' o' x : Nat} : x ∈ heap.set n z o ((heap n z o).erase h) n' z' o' ↔
      x ∈ heap n' z' o' ∧ ¬(n' = n ∧ z' = z ∧ o' = o ∧ x = h) := Lists.mem_erase (g.nodup n z o)
  refine ⟨g.dirty, ?_, ?_, ?_, ?_, ?_, g.clean, g.heapPage⟩
  · rintro x (hx | hx)
    · exact g.hand x hx
    · exact (hb.inside x hx).1
  · intro n' z' o' h' hh'
    rcases hmem.mp hh' with ⟨hh', hne⟩
    have hb' := g.block n' z' o' h' hh'
    refine ⟨hb'.le, hb'.aligned, hb'.order, fun x hx => ?_⟩
    rcases hb'.inside x hx with ⟨hin, hH, hn, hz⟩
    refine ⟨hin, ?_, hn, hz⟩
    rintro (hx' | hx')
    · exact hH hx'
    · -- another block with the same page would be the same block
      have hs := g.apart _ _ _ _ _ _ _ _ x hh' hh hx hx'
      rcases hb.inside x hx' with ⟨-, -, hn', hz'⟩
      exact hne ⟨hn.symm.trans hn', hz.symm.trans hz', hs.1, hs.2⟩
  · intro x hin hx
    rcases g.cover x hin fun hH => hx (.inl hH) with ⟨o', h', hh', hxm⟩
    refine ⟨o', h', hmem.mpr ⟨hh', ?_⟩, hxm⟩
    rintro ⟨-, -, rfl, rfl⟩
    exact hx (.inr hxm)
  · intro n₁ z₁ o₁ h₁ n₂ z₂ o₂ h₂ x hh₁ hh₂
    exact g.apart _ _ _ _ _ _ _ _ x (hmem.mp hh₁).1 (hmem.mp hh₂).1
  · intro n' z' o'
    by_cases hs : n' = n ∧ z' = z ∧ o' = o
    · rcases hs with ⟨rfl, rfl, rfl⟩
      rw [Lists.set_self]
      exact (g.nodup n' z' o').erase h
    · rw [Lists.set_of_ne hs]
      exact g.nodup n' z' o'

/-- Only `PFN_ORDER` of a page in hand is set. -/
theorem setOrder (g : Good m page heap D H) (hh : H h) (v : Nat) :
    Good m (Function.update page h { page h with order := v }) heap D H := by
  have hpage (x : Nat) : (Function.update page h { page h with order := v } x).state
      = (page x).state ∧ (Function.update page h { page h with order := v } x).isFree
      = (page x).isFree := by
    by_cases hx : x = h
    · subst hx
      rw [Function.update_self]
      exact ⟨rfl, rfl⟩
    · rw [Function.update_of_ne hx]
      exact ⟨rfl, rfl⟩
  have hinside (x : Nat) :
      Inside (Function.update page h { page h with order := v }) D x ↔ Inside page D x := by
    unfold Inside
    rw [(hpage x).1]
  refine ⟨?_, ?_, ?_, ?_, g.apart, g.nodup, ?_, ?_⟩
  · intro x hx
    rw [(hpage x).1]
    exact g.dirty x hx
  · intro x hx
    exact (hinside x).mpr (g.hand x hx)
  · intro n z o h' hh'
    have hb := g.block n z o h' hh'
    have hne : h' ≠ h := by
      rintro rfl
      exact (hb.inside h' Buddy.Mem.self).2.1 hh
    refine ⟨hb.le, hb.aligned, ?_, fun x hx => ?_⟩
    · rw [Function.update_of_ne hne]
      exact hb.order
    · rw [hinside]
      exact hb.inside x hx
  · intro x hin
    exact g.cover x ((hinside x).mp hin)
  · intro x hx
    rw [(hpage x).1] at hx
    rw [(hpage x).2]
    exact g.clean x hx
  · intro x hx
    exact g.heapPage x ((hinside x).mp hx)

/-- A block in hand is put on its list. -/
theorem list (g : Good m page heap D H) (ho : o ≤ maxOrder) (ha : 2 ^ o ∣ h)
    (hH : ∀ x, Buddy.Mem h o x → H x) (hnz : ∀ x, Buddy.Mem h o x → m.nid x = n ∧ Nat.log 2 x = z) :
    Good m (Function.update page h { page h with order := o })
      (heap.set n z o (heap n z o ++ [h])) D (fun x => H x ∧ ¬Buddy.Mem h o x) := by
  have g' := g.setOrder (hH h Buddy.Mem.self) o
  have hmem {n' z' o' x : Nat} : x ∈ heap.set n z o (heap n z o ++ [h]) n' z' o' ↔
      x ∈ heap n' z' o' ∨ (n' = n ∧ z' = z ∧ o' = o ∧ x = h) := Lists.mem_append
  -- no block that is listed already meets the new one
  have hnew {n' z' o' h' x : Nat} (hh' : h' ∈ heap n' z' o') (hx : Buddy.Mem h o x) :
      ¬Buddy.Mem h' o' x := fun hx' => ((g.block n' z' o' h' hh').inside x hx').2.1 (hH x hx)
  refine ⟨g'.dirty, fun x hx => g'.hand x hx.1, ?_, ?_, ?_, ?_, g'.clean, g'.heapPage⟩
  · intro n' z' o' h' hh'
    rcases hmem.mp hh' with hh' | ⟨rfl, rfl, rfl, rfl⟩
    · have hb := g'.block n' z' o' h' hh'
      refine ⟨hb.le, hb.aligned, hb.order, fun x hx => ?_⟩
      rcases hb.inside x hx with ⟨hin, hnot, hn, hz⟩
      exact ⟨hin, fun hx' => hnot hx'.1, hn, hz⟩
    · refine ⟨ho, ha, by rw [Function.update_self], fun x hx => ?_⟩
      rcases hnz x hx with ⟨hn, hz⟩
      exact ⟨g'.hand x (hH x hx), fun hx' => hx'.2 hx, hn, hz⟩
  · intro x hin hx
    by_cases hxm : Buddy.Mem h o x
    · rcases hnz x hxm with ⟨rfl, rfl⟩
      exact ⟨o, h, hmem.mpr (.inr ⟨rfl, rfl, rfl, rfl⟩), hxm⟩
    · rcases g'.cover x hin fun hx' => hx ⟨hx', hxm⟩ with ⟨o', h', hh', hx'⟩
      exact ⟨o', h', hmem.mpr (.inl hh'), hx'⟩
  · intro n₁ z₁ o₁ h₁ n₂ z₂ o₂ h₂ x hh₁ hh₂ hx₁ hx₂
    rcases hmem.mp hh₁ with hk₁ | ⟨-, -, rfl, rfl⟩
    · rcases hmem.mp hh₂ with hk₂ | ⟨-, -, rfl, rfl⟩
      · exact g.apart _ _ _ _ _ _ _ _ x hk₁ hk₂ hx₁ hx₂
      · exact absurd hx₁ (hnew hk₁ hx₂)
    · rcases hmem.mp hh₂ with hk₂ | ⟨-, -, rfl, rfl⟩
      · exact absurd hx₂ (hnew hk₂ hx₁)
      · exact ⟨rfl, rfl⟩
  · intro n' z' o'
    by_cases hs : n' = n ∧ z' = z ∧ o' = o
    · rcases hs with ⟨rfl, rfl, rfl⟩
      rw [Lists.set_self]
      refine List.nodup_append.mpr ⟨g.nodup n' z' o', List.nodup_singleton h, ?_⟩
      rintro a ha' b hb rfl
      rw [List.mem_singleton] at hb
      subst hb
      exact hnew ha' Buddy.Mem.self Buddy.Mem.self
    · rw [Lists.set_of_ne hs]
      exact g.nodup n' z' o'

end Good

/-! ## Counters -/

/-- The pages on the lists of a node and zone. -/
def weight (heap : Lists) (n z : Nat) : Int :=
  ∑ o ∈ range (maxOrder + 1), 2 ^ o * ((heap n z o).length : Int)

section Weight

variable {heap : Lists} {n z o : Nat} {v : List Nat}

theorem weight_set (ho : o ≤ maxOrder) :
    weight (heap.set n z o v) n z
      = weight heap n z + 2 ^ o * (v.length : Int) - 2 ^ o * ((heap n z o).length : Int) := by
  have h := Totals.sum_update (s := range (maxOrder + 1)) (i := o)
    (mem_range.mpr (Nat.lt_succ_of_le ho)) (heap n z) v fun j l => 2 ^ j * (l.length : Int)
  have hset : heap.set n z o v n z = Function.update (heap n z) o v := by simp [Lists.set]
  unfold weight
  rw [hset]
  omega

theorem weight_set_of_ne {n' z' : Nat} (h : ¬(n' = n ∧ z' = z)) :
    weight (heap.set n z o v) n' z' = weight heap n' z' := by
  unfold weight
  refine sum_congr rfl fun j _ => ?_
  rw [Lists.set_of_ne fun hs => h ⟨hs.1, hs.2.1⟩]

end Weight

structure Counts (heap : Lists) (avail : Nat → Nat → Int) (total : Int) (n₀ z₀ : Nat) (k : Int) :
    Prop where
  each : ∀ n z, avail n z = weight heap n z + if n = n₀ ∧ z = z₀ then k else 0
  sum : total = ∑ n ∈ range maxNumnodes, ∑ z ∈ range nrZones, avail n z

namespace Counts

variable {heap : Lists} {avail : Nat → Nat → Int} {total : Int} {n z o h : Nat} {k : Int}

/-- With no pages in hand, it does not matter where. -/
theorem zero (c : Counts heap avail total n z 0) (n' z' : Nat) : Counts heap avail total n' z' 0 := by
  refine ⟨fun a b => ?_, c.sum⟩
  rw [c.each a b]
  simp

theorem set {v : List Nat} (c : Counts heap avail total n z k) (ho : o ≤ maxOrder) :
    Counts (heap.set n z o v) avail total n z
      (k + 2 ^ o * ((heap n z o).length : Int) - 2 ^ o * (v.length : Int)) := by
  refine ⟨fun a b => ?_, c.sum⟩
  rw [c.each a b]
  by_cases hs : a = n ∧ b = z
  · rcases hs with ⟨rfl, rfl⟩
    rw [weight_set ho]
    simp only [and_self, if_true]
    omega
  · rw [weight_set_of_ne hs, if_neg hs, if_neg hs]

theorem list (c : Counts heap avail total n z k) (ho : o ≤ maxOrder) :
    Counts (heap.set n z o (heap n z o ++ [h])) avail total n z (k - 2 ^ o) := by
  have hlen : k - 2 ^ o = k + 2 ^ o * ((heap n z o).length : Int)
      - 2 ^ o * ((heap n z o ++ [h]).length : Int) := by
    rw [List.length_append, List.length_singleton]
    push_cast
    ring
  rw [hlen]
  exact c.set ho

theorem unlist (c : Counts heap avail total n z k) (ho : o ≤ maxOrder) (hh : h ∈ heap n z o) :
    Counts (heap.set n z o ((heap n z o).erase h)) avail total n z (k + 2 ^ o) := by
  have hpos := List.length_pos_of_mem hh
  have hlen : k + 2 ^ o = k + 2 ^ o * ((heap n z o).length : Int)
      - 2 ^ o * (((heap n z o).erase h).length : Int) := by
    rw [List.length_erase_of_mem hh]
    push_cast [hpos]
    ring
  rw [hlen]
  exact c.set ho

/-- The counters are moved together. -/
theorem count (c : Counts heap avail total n z k) (hn : n < maxNumnodes) (hz : z < nrZones)
    (d : Int) :
    Counts heap (Function.update avail n (Function.update (avail n) z (avail n z + d))) (total + d) n z
      (k + d) := by
  refine ⟨fun a b => ?_, ?_⟩
  · by_cases ha : a = n
    · subst ha
      rw [Function.update_self]
      by_cases hb : b = z
      · subst hb
        rw [Function.update_self, c.each a b]
        simp only [and_self, if_true]
        omega
      · rw [Function.update_of_ne hb, c.each a b]
        simp [hb]
    · rw [Function.update_of_ne ha, c.each a b]
      simp [ha]
  · have hrow := Totals.sum_update (s := range nrZones) (mem_range.mpr hz) (avail n)
      (avail n z + d) fun _ x => x
    have hall := Totals.sum_update (s := range maxNumnodes) (mem_range.mpr hn) avail
      (Function.update (avail n) z (avail n z + d)) fun _ f => ∑ b ∈ range nrZones, f b
    rw [c.sum]
    omega

end Counts

end PageAlloc
