import Mathlib

/-!
# Free lists linked through the cells they manage

A pool of cells keeps its unused cells in a list that is stored in the cells
themselves: `next` is the link of a cell, `head` the first unused one and
`last` a cell that ends the list and is never handed out. `FreeList` says that
`l` is that list. The operations take a cell from the front, put one back at
the front, and append a fresh run of cells at the end.
-/

variable {α : Type*}

/-- `l` is the path of `next` from `head` to `last`, without repetition. -/
structure FreeList (next : α → α) (head last : α) (l : List α) : Prop where
  head_eq : l.head? = some head
  last_eq : l.getLast? = some last
  nodup : l.Nodup
  links : l.IsChain fun a b => next a = b

namespace FreeList

variable {next next' : α → α} {head last : α} {l : List α}

theorem last_mem (h : FreeList next head last l) : last ∈ l :=
  List.mem_of_getLast? h.last_eq

theorem head_mem (h : FreeList next head last l) : head ∈ l :=
  List.mem_of_head? h.head_eq

/-- The links determine the list. -/
theorem unique {l' : List α} (h : FreeList next head last l) (h' : FreeList next head last l') :
    l = l' := by
  induction l generalizing head l' with
  | nil => cases h.head_eq
  | cons a rest ih =>
      obtain ⟨hhead, hlast, hnodup, hlinks⟩ := h
      obtain ⟨hhead', hlast', hnodup', hlinks'⟩ := h'
      cases l' with
      | nil => cases hhead'
      | cons a' rest' =>
          obtain rfl : a = head := Option.some.inj hhead
          obtain rfl : a' = a := Option.some.inj hhead'
          -- a list of one cell ends at its head, a longer one does not
          cases rest with
          | nil =>
              cases rest' with
              | nil => rfl
              | cons b' rest' =>
                  obtain rfl : a' = last := Option.some.inj hlast
                  rw [List.getLast?_cons_cons] at hlast'
                  exact absurd (List.mem_of_getLast? hlast') (List.nodup_cons.mp hnodup').1
          | cons b rest =>
              cases rest' with
              | nil =>
                  obtain rfl : a' = last := Option.some.inj hlast'
                  rw [List.getLast?_cons_cons] at hlast
                  exact absurd (List.mem_of_getLast? hlast) (List.nodup_cons.mp hnodup).1
              | cons b' rest' =>
                  rw [List.isChain_cons_cons] at hlinks hlinks'
                  rw [List.getLast?_cons_cons] at hlast hlast'
                  obtain rfl : b = b' := hlinks.1.symm.trans hlinks'.1
                  have htail : FreeList next b last (b :: rest) :=
                    ⟨rfl, hlast, (List.nodup_cons.mp hnodup).2, hlinks.2⟩
                  have htail' : FreeList next b last (b :: rest') :=
                    ⟨rfl, hlast', (List.nodup_cons.mp hnodup').2, hlinks'.2⟩
                  rw [ih htail htail']

/-- Only the links of the listed cells matter, and not that of the last one. -/
theorem congr (h : FreeList next head last l) (hnext : ∀ a ∈ l, a ≠ last → next' a = next a) :
    FreeList next' head last l := by
  obtain ⟨hhead, hlast, hnodup, hlinks⟩ := h
  refine ⟨hhead, hlast, hnodup, ?_⟩
  clear hhead
  induction l with
  | nil => exact List.IsChain.nil
  | cons a rest ih =>
      cases rest with
      | nil => exact List.IsChain.singleton a
      | cons b rest =>
          rw [List.isChain_cons_cons] at hlinks ⊢
          obtain ⟨hanot, hnodup'⟩ := List.nodup_cons.mp hnodup
          have hlast' : (b :: rest).getLast? = some last := by
            rw [List.getLast?_cons_cons] at hlast
            exact hlast
          have hane : a ≠ last := by
            rintro rfl
            exact hanot (List.mem_of_getLast? hlast')
          constructor
          · rw [hnext a (List.mem_cons_self ..) hane]
            exact hlinks.1
          · exact ih (fun c hc hne => hnext c (List.mem_cons_of_mem _ hc) hne) hlast' hnodup'
              hlinks.2

/-- Taking the first cell. -/
theorem pop (h : FreeList next head last l) (hne : head ≠ last) :
    ∃ rest, l = head :: rest ∧ FreeList next (next head) last rest := by
  obtain ⟨hhead, hlast, hnodup, hlinks⟩ := h
  cases l with
  | nil => cases hhead
  | cons a rest =>
      have ha : a = head := Option.some.inj hhead
      subst ha
      cases rest with
      | nil => exact absurd (Option.some.inj hlast) hne
      | cons b rest =>
          rw [List.isChain_cons_cons] at hlinks
          refine ⟨b :: rest, rfl, ?_, ?_, (List.nodup_cons.mp hnodup).2, hlinks.2⟩
          · rw [hlinks.1]
            rfl
          · rw [List.getLast?_cons_cons] at hlast
            exact hlast

/-- Putting a cell back. -/
theorem push [DecidableEq α] (h : FreeList next head last l) {a : α} (ha : a ∉ l) :
    FreeList (Function.update next a head) a last (a :: l) := by
  have hkeep : FreeList (Function.update next a head) head last l := by
    refine h.congr fun b hb _ => Function.update_of_ne ?_ _ _
    rintro rfl
    exact ha hb
  cases l with
  | nil => cases h.head_eq
  | cons b rest =>
      have hb : b = head := Option.some.inj h.head_eq
      refine ⟨rfl, ?_, List.nodup_cons.mpr ⟨ha, h.nodup⟩, ?_⟩
      · rw [List.getLast?_cons_cons]
        exact h.last_eq
      · rw [List.isChain_cons_cons]
        refine ⟨?_, hkeep.links⟩
        rw [Function.update_self, hb]

/-- Appending a second list where the first one ends. -/
theorem append {last' : α} {l' : List α} (h : FreeList next head last l)
    (h' : FreeList next (next last) last' l') (hdisj : l.Disjoint l') :
    FreeList next head last' (l ++ l') := by
  refine ⟨?_, ?_, List.Nodup.append h.nodup h'.nodup hdisj, ?_⟩
  · rw [List.head?_append, h.head_eq]
    rfl
  · rw [List.getLast?_append, h'.last_eq]
    rfl
  · rw [List.isChain_append]
    refine ⟨h.links, h'.links, ?_⟩
    intro a ha b hb
    rw [h.last_eq] at ha
    rw [h'.head_eq] at hb
    rw [← Option.some.inj ha, ← Option.some.inj hb]

/-- A fresh run of cells, each linked to its successor. -/
theorem range' {next : Nat → Nat} {lo n : Nat} (hn : 0 < n)
    (hnext : ∀ a, lo ≤ a → a + 1 < lo + n → next a = a + 1) :
    FreeList next lo (lo + n - 1) (List.range' lo n) := by
  induction n generalizing lo with
  | zero => omega
  | succ n ih =>
      rcases Nat.eq_zero_or_pos n with rfl | hpos
      · refine ⟨rfl, rfl, List.nodup_range', ?_⟩
        exact List.IsChain.singleton lo
      · have hnext' : ∀ a, lo + 1 ≤ a → a + 1 < lo + 1 + n → next a = a + 1 :=
          fun a ha hlt => hnext a (by omega) (by omega)
        have hrest := ih hpos hnext'
        obtain ⟨m, rfl⟩ : ∃ m, n = m + 1 := ⟨n - 1, by omega⟩
        rw [List.range'_succ, List.range'_succ] at *
        refine ⟨rfl, ?_, ?_, ?_⟩
        · rw [List.getLast?_cons_cons, hrest.last_eq]
          congr 1
          omega
        · refine List.nodup_cons.mpr ⟨?_, hrest.nodup⟩
          rw [← List.range'_succ, List.mem_range'_1]
          omega
        · rw [List.isChain_cons_cons]
          exact ⟨hnext lo (le_refl lo) (by omega), hrest.links⟩

end FreeList
