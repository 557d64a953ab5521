import Mathlib

/-!
# Doubly linked lists

Nodes are numbers, `0` is the end of a list, and `next` and `prev` hold the
pointers of every node. `DList next prev head l` says that the nodes from `head`
on are `l`, without repetition, and that `prev` leads back.
-/

namespace DList

variable {next prev next' prev' : Nat → Nat} {b h b' h' p : Nat} {l l₁ l₂ : List Nat}

/-- From `h`, reached from `b`, through the nodes of `l` to `h'`, reached from `b'`. -/
def Path (next prev : Nat → Nat) : Nat → Nat → List Nat → Nat → Nat → Prop
  | b, h, [], b', h' => b = b' ∧ h = h'
  | b, h, p :: l, b', h' => h = p ∧ p ≠ 0 ∧ prev p = b ∧ Path next prev p (next p) l b' h'

theorem Path.append :
    Path next prev b h (l₁ ++ l₂) b' h' ↔
      ∃ b₁ h₁, Path next prev b h l₁ b₁ h₁ ∧ Path next prev b₁ h₁ l₂ b' h' := by
  induction l₁ generalizing b h with
  | nil =>
    constructor
    · intro hp
      exact ⟨b, h, ⟨rfl, rfl⟩, hp⟩
    · rintro ⟨b₁, h₁, ⟨rfl, rfl⟩, hp⟩
      exact hp
  | cons p l₁ ih =>
    constructor
    · rintro ⟨hh, h0, hb, hp⟩
      obtain ⟨b₁, h₁, hp₁, hp₂⟩ := ih.mp hp
      exact ⟨b₁, h₁, ⟨hh, h0, hb, hp₁⟩, hp₂⟩
    · rintro ⟨b₁, h₁, ⟨hh, h0, hb, hp₁⟩, hp₂⟩
      exact ⟨hh, h0, hb, ih.mpr ⟨b₁, h₁, hp₁, hp₂⟩⟩

/-- A path depends on the pointers of its own nodes only. -/
theorem Path.congr (hn : ∀ p ∈ l, next' p = next p) (hp : ∀ p ∈ l, prev' p = prev p)
    (h₀ : Path next prev b h l b' h') : Path next' prev' b h l b' h' := by
  induction l generalizing b h with
  | nil => exact h₀
  | cons p l ih =>
    obtain ⟨hh, h0, hb, hrest⟩ := h₀
    refine ⟨hh, h0, (hp p List.mem_cons_self).trans hb, ?_⟩
    rw [hn p List.mem_cons_self]
    exact ih (fun q hq => hn q (List.mem_cons_of_mem p hq))
      (fun q hq => hp q (List.mem_cons_of_mem p hq)) hrest

theorem Path.ne_zero (h₀ : Path next prev b h l b' h') : ∀ p ∈ l, p ≠ 0 := by
  induction l generalizing b h with
  | nil => simp
  | cons q l ih =>
    obtain ⟨-, h0, -, hrest⟩ := h₀
    intro p hp
    rcases List.mem_cons.mp hp with rfl | hp
    · exact h0
    · exact ih hrest p hp

/-- The node a path comes from last is its own, unless it has none. -/
theorem Path.last (h₀ : Path next prev b h l b' h') :
    (l = [] ∧ b = b' ∧ h = h') ∨ (b' ∈ l ∧ next b' = h') := by
  induction l generalizing b h with
  | nil => exact .inl ⟨rfl, h₀⟩
  | cons p l ih =>
    obtain ⟨-, -, -, hrest⟩ := h₀
    rcases ih hrest with ⟨rfl, rfl, hn⟩ | ⟨hm, hn⟩
    · exact .inr ⟨List.mem_cons_self, hn⟩
    · exact .inr ⟨List.mem_cons_of_mem p hm, hn⟩

/-- The last node of a path is made to point elsewhere. -/
theorem Path.update_last {n : Nat} (hnd : l.Nodup) (hm : b' ∈ l)
    (h₀ : Path next prev b h l b' h') : Path (Function.update next b' n) prev b h l b' n := by
  induction l generalizing b h with
  | nil => cases hm
  | cons p l ih =>
    obtain ⟨hh, h0, hb, hrest⟩ := h₀
    obtain ⟨hpl, hnd'⟩ := List.nodup_cons.mp hnd
    refine ⟨hh, h0, hb, ?_⟩
    rcases hrest.last with ⟨rfl, rfl, -⟩ | ⟨hm', -⟩
    · exact ⟨rfl, Function.update_self ..⟩
    · have hne : p ≠ b' := by
        rintro rfl
        exact hpl hm'
      rw [Function.update_of_ne hne]
      exact ih hnd' hm' hrest

/-- The first node of a path is reached from elsewhere. -/
theorem Path.update_first (b₀ : Nat) {q : Nat} (hnd : (q :: l).Nodup)
    (h₀ : Path next prev b h (q :: l) b' h') :
    Path next (Function.update prev q b₀) b₀ h (q :: l) b' h' := by
  obtain ⟨hh, h0, -, hrest⟩ := h₀
  refine ⟨hh, h0, Function.update_self .., hrest.congr (fun _ _ => rfl) ?_⟩
  intro p hp
  have hne : p ≠ q := by
    rintro rfl
    exact (List.nodup_cons.mp hnd).1 hp
  exact Function.update_of_ne hne ..

end DList

open DList in
/-- The nodes from `head` on. -/
structure DList (next prev : Nat → Nat) (head : Nat) (l : List Nat) : Prop where
  path : ∃ b', Path next prev 0 head l b' 0
  nodup : l.Nodup

namespace DList

variable {next prev next' prev' : Nat → Nat} {head p : Nat} {l : List Nat}

theorem nil : DList next prev 0 [] := ⟨⟨0, rfl, rfl⟩, List.nodup_nil⟩

theorem congr (hn : ∀ p ∈ l, next' p = next p) (hp : ∀ p ∈ l, prev' p = prev p)
    (h : DList next prev head l) : DList next' prev' head l := by
  obtain ⟨⟨b', hpath⟩, hnd⟩ := h
  exact ⟨⟨b', hpath.congr hn hp⟩, hnd⟩

/-- The list is empty or starts with its head. -/
theorem head_eq (h : DList next prev head l) :
    (l = [] ∧ head = 0) ∨ ∃ l', l = head :: l' := by
  obtain ⟨b', hpath⟩ := h.path
  cases l with
  | nil => exact .inl ⟨rfl, hpath.2⟩
  | cons p l =>
    obtain ⟨rfl, -⟩ := hpath
    exact .inr ⟨l, rfl⟩

theorem head_mem (h : DList next prev head l) (h0 : head ≠ 0) : head ∈ l := by
  rcases h.head_eq with ⟨-, hz⟩ | ⟨l', rfl⟩
  · exact absurd hz h0
  · exact List.mem_cons_self

/-- A node is put in front: its pointers are `head` and `0`, and the old head
points back to it. -/
theorem push (h : DList next prev head l) (hp : p ≠ 0) (hpl : p ∉ l)
    (hn : ∀ q ∈ l, next' q = next q) (hpr : ∀ q ∈ l, q ≠ head → prev' q = prev q)
    (hnp : next' p = head) (hpp : prev' p = 0) (hhead : head ≠ 0 → prev' head = p) :
    DList next' prev' p (p :: l) := by
  have hnd := h.nodup
  obtain ⟨b', hpath⟩ := h.path
  refine ⟨?_, List.nodup_cons.mpr ⟨hpl, hnd⟩⟩
  rcases h.head_eq with ⟨rfl, rfl⟩ | ⟨l', rfl⟩
  · exact ⟨p, rfl, hp, hpp, rfl, hnp⟩
  · refine ⟨b', rfl, hp, hpp, ?_⟩
    rw [hnp]
    have hfirst := Path.update_first p hnd hpath
    refine hfirst.congr hn ?_
    intro q hq
    by_cases hqh : q = head
    · subst hqh
      rw [Function.update_self]
      exact hhead (hpath.ne_zero q hq)
    · rw [Function.update_of_ne hqh]
      exact hpr q hq hqh

/-- Where a node's pointers lead. -/
theorem neighbours (h : DList next prev head l) (hp : p ∈ l) :
    (prev p = 0 → head = p) ∧ (prev p ≠ 0 → prev p ∈ l ∧ prev p ≠ p) ∧
      (next p ≠ 0 → next p ∈ l ∧ next p ≠ p) := by
  obtain ⟨b', hpath⟩ := h.path
  obtain ⟨l₁, l₂, rfl⟩ := List.append_of_mem hp
  obtain ⟨b₁, h₁, hpath₁, hh₁, h0, hb, hpath₂⟩ := Path.append.mp hpath
  subst h₁
  obtain ⟨-, hnd₂, hdisj⟩ := List.nodup_append.mp h.nodup
  have hnp : p ∉ l₂ := (List.nodup_cons.mp hnd₂).1
  rw [hb]
  refine ⟨?_, ?_, ?_⟩
  · intro hz
    rcases hpath₁.last with ⟨-, -, hh⟩ | ⟨hm, -⟩
    · exact hh
    · exact absurd hz (hpath₁.ne_zero _ hm)
  · intro hz
    rcases hpath₁.last with ⟨-, hb', -⟩ | ⟨hm, -⟩
    · exact absurd hb'.symm hz
    · exact ⟨List.mem_append_left _ hm, hdisj _ hm _ List.mem_cons_self⟩
  · intro hz
    cases l₂ with
    | nil => exact absurd hpath₂.2 hz
    | cons q l₂ =>
      obtain ⟨hq, -⟩ := hpath₂
      rw [hq]
      refine ⟨by simp, ?_⟩
      rintro rfl
      exact hnp List.mem_cons_self

/-- A node is taken out: its neighbours point to each other. -/
theorem erase {head' : Nat} (h : DList next prev head l) (hp : p ∈ l)
    (hn : ∀ q ∈ l, q ≠ p → q ≠ prev p → next' q = next q)
    (hpr : ∀ q ∈ l, q ≠ p → q ≠ next p → prev' q = prev q)
    (hprev : prev p ≠ 0 → head' = head ∧ next' (prev p) = next p)
    (hhead : prev p = 0 → head' = next p) (hnext : next p ≠ 0 → prev' (next p) = prev p) :
    DList next' prev' head' (l.erase p) := by
  obtain ⟨b', hpath⟩ := h.path
  obtain ⟨l₁, l₂, rfl⟩ := List.append_of_mem hp
  obtain ⟨hnd₁, hnd₂, hdisj⟩ := List.nodup_append.mp h.nodup
  obtain ⟨hp₂, hnd₂'⟩ := List.nodup_cons.mp hnd₂
  have hp₁ : p ∉ l₁ := fun hm => hdisj p hm p List.mem_cons_self rfl
  have herase : (l₁ ++ p :: l₂).erase p = l₁ ++ l₂ := by
    rw [List.erase_append_right _ hp₁, List.erase_cons_head]
  rw [herase]
  refine ⟨?_, List.nodup_append.mpr ⟨hnd₁, hnd₂', fun a ha c hc =>
    hdisj a ha c (List.mem_cons_of_mem p hc)⟩⟩
  obtain ⟨b₁, h₁, hpath₁, hh₁, h0, hb, hpath₂⟩ := Path.append.mp hpath
  subst h₁
  -- the part before the node now leads to the one after it
  have hfst : Path next' prev' 0 head' l₁ b₁ (next p) := by
    rcases hpath₁.last with ⟨rfl, rfl, rfl⟩ | ⟨hm, -⟩
    · exact ⟨rfl, hhead hb⟩
    · have hz : prev p ≠ 0 := by
        rw [hb]
        exact hpath₁.ne_zero _ hm
      rw [(hprev hz).1]
      refine (Path.update_last (n := next p) hnd₁ hm hpath₁).congr ?_ ?_
      · intro q hq
        by_cases hqb : q = b₁
        · subst hqb
          rw [Function.update_self, ← (hprev hz).2, hb]
        · rw [Function.update_of_ne hqb]
          refine hn q (List.mem_append_left _ hq) ?_ (hb ▸ hqb)
          rintro rfl
          exact hp₁ hq
      · intro q hq
        refine hpr q (List.mem_append_left _ hq) ?_ ?_
        · rintro rfl
          exact hp₁ hq
        · -- the next node is in the other part
          cases l₂ with
          | nil =>
            rw [hpath₂.2]
            exact hpath₁.ne_zero q hq
          | cons r l₂ =>
            rw [hpath₂.1]
            exact hdisj q hq r (by simp)
  have hsnd : ∃ b'', Path next' prev' b₁ (next p) l₂ b'' 0 := by
    cases l₂ with
    | nil => exact ⟨b₁, rfl, hpath₂.2⟩
    | cons r l₂ =>
      have hr : next p = r := hpath₂.1
      have hnz : next p ≠ 0 := by
        rw [hr]
        exact hpath₂.2.1
      refine ⟨b', (Path.update_first b₁ hnd₂' hpath₂).congr ?_ ?_⟩
      · intro q hq
        refine hn q (by simp [List.mem_cons.mp hq]) ?_ ?_
        · rintro rfl
          exact hp₂ hq
        · -- the node before is in the other part
          rw [hb]
          rcases hpath₁.last with ⟨-, rfl, -⟩ | ⟨hm, -⟩
          · exact hpath₂.ne_zero q hq
          · exact fun hqb => hdisj b₁ hm q (List.mem_cons_of_mem p hq) hqb.symm
      · intro q hq
        by_cases hqr : q = r
        · subst hqr
          rw [Function.update_self, ← hb, ← hnext hnz, hr]
        · rw [Function.update_of_ne hqr]
          refine hpr q (by simp [List.mem_cons.mp hq]) ?_ (hr ▸ hqr)
          rintro rfl
          exact hp₂ hq
  obtain ⟨b'', hsnd⟩ := hsnd
  exact ⟨b'', Path.append.mpr ⟨b₁, next p, hfst, hsnd⟩⟩

end DList
