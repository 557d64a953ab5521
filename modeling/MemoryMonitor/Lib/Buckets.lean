import MemoryMonitor.Lib.Totals

/-!
# Chained hash tables

A table of `n` chains. An entry is in the chain of its key modulo `n`, new ones in front. The table
is well formed if every entry is in its chain and no key is there twice; it is then the finite map
`lookup`, and the operations are those of the map. `total` adds up a weight over all entries.
-/

open Finset

namespace Buckets

variable {E : Type} (n : Nat) (key : E → Nat)

/-- The entry of a chain that has the key. -/
def find (k : Nat) (chain : List E) : Option E :=
  chain.find? (fun e => key e = k)

/-- Change the entry of a chain that has the key. -/
def adjust (k : Nat) (f : E → E) : List E → List E
  | [] => []
  | e :: rest => if key e = k then f e :: rest else e :: adjust k f rest

/-- Take the entry of a chain that has the key out of it. -/
def unlink (k : Nat) : List E → List E
  | [] => []
  | e :: rest => if key e = k then rest else e :: unlink k rest

def lookup (t : Nat → List E) (k : Nat) : Option E :=
  find key k (t (k % n))

def insert (t : Nat → List E) (e : E) : Nat → List E :=
  Function.update t (key e % n) (e :: t (key e % n))

def modify (t : Nat → List E) (k : Nat) (f : E → E) : Nat → List E :=
  Function.update t (k % n) (adjust key k f (t (k % n)))

def delete (t : Nat → List E) (k : Nat) : Nat → List E :=
  Function.update t (k % n) (unlink key k (t (k % n)))

structure WF (t : Nat → List E) : Prop where
  placed : ∀ i, ∀ e ∈ t i, i = key e % n
  nodup : ∀ i, ((t i).map key).Nodup

variable {n key} {t : Nat → List E}

/-! ## Chains -/

section Chains

variable {chain : List E} {k k' : Nat} {e : E} {f : E → E}

theorem find_some (h : find key k chain = some e) : e ∈ chain ∧ key e = k := by
  constructor
  · exact List.mem_of_find?_eq_some h
  · have hp := List.find?_some (p := fun e => decide (key e = k)) h
    exact of_decide_eq_true hp

theorem find_cons (e' : E) : find key k (e' :: chain) = if key e' = k then some e' else find key k chain := by
  unfold find
  rw [List.find?_cons]
  by_cases h : key e' = k
  · rw [if_pos h, decide_eq_true h]
  · rw [if_neg h, decide_eq_false h]

theorem find_of_mem (hnodup : (chain.map key).Nodup) (h : e ∈ chain) : find key (key e) chain = some e := by
  induction chain with
  | nil => exact nomatch h
  | cons e' rest ih =>
    rw [find_cons]
    rw [List.map_cons, List.nodup_cons] at hnodup
    rcases List.mem_cons.1 h with heq | hrest
    · rw [heq, if_pos rfl]
    · have hne : key e' ≠ key e := by
        intro heq
        rw [heq] at hnodup
        exact hnodup.1 (List.mem_map_of_mem hrest)
      rw [if_neg hne]
      exact ih hnodup.2 hrest

theorem find_none_iff : find key k chain = none ↔ k ∉ chain.map key := by
  unfold find
  rw [List.find?_eq_none]
  simp only [decide_eq_true_eq, List.mem_map, not_exists, not_and]

theorem find_adjust (hf : ∀ e, key (f e) = key e) :
    find key k' (adjust key k f chain) = if k' = k then (find key k chain).map f else find key k' chain := by
  induction chain with
  | nil =>
    unfold adjust find
    split <;> rfl
  | cons e rest ih =>
    unfold adjust
    by_cases hk : key e = k
    · rw [if_pos hk, find_cons, find_cons, find_cons, hf, hk, if_pos rfl]
      by_cases heq : k' = k
      · rw [heq, if_pos rfl, if_pos rfl]
        rfl
      · rw [if_neg heq, if_neg (Ne.symm heq), if_neg (Ne.symm heq)]
    · rw [if_neg hk, find_cons, find_cons, find_cons, if_neg hk, ih]
      by_cases heq : k' = k
      · rw [heq, if_neg hk, if_pos rfl, if_pos rfl]
      · rw [if_neg heq, if_neg heq]

theorem map_adjust (hf : ∀ e, key (f e) = key e) : (adjust key k f chain).map key = chain.map key := by
  induction chain with
  | nil => rfl
  | cons e rest ih =>
    unfold adjust
    split
    · rw [List.map_cons, List.map_cons, hf]
    · rw [List.map_cons, List.map_cons, ih]

theorem mem_adjust (h : e ∈ adjust key k f chain) : e ∈ chain ∨ ∃ e' ∈ chain, e = f e' := by
  induction chain with
  | nil => exact nomatch h
  | cons e' rest ih =>
    unfold adjust at h
    split at h
    · rcases List.mem_cons.1 h with heq | hrest
      · exact .inr ⟨e', List.mem_cons_self, heq⟩
      · exact .inl (List.mem_cons_of_mem _ hrest)
    · rcases List.mem_cons.1 h with heq | hrest
      · rw [heq]
        exact .inl List.mem_cons_self
      · rcases ih hrest with hold | ⟨e'', hold, heq⟩
        · exact .inl (List.mem_cons_of_mem _ hold)
        · exact .inr ⟨e'', List.mem_cons_of_mem _ hold, heq⟩

theorem unlink_sublist : (unlink key k chain).Sublist chain := by
  induction chain with
  | nil => exact List.Sublist.refl _
  | cons e rest ih =>
    unfold unlink
    split
    · exact List.sublist_cons_self _ _
    · exact ih.cons_cons _

theorem find_unlink (hnodup : (chain.map key).Nodup) :
    find key k' (unlink key k chain) = if k' = k then none else find key k' chain := by
  induction chain with
  | nil =>
    unfold unlink find
    split <;> rfl
  | cons e rest ih =>
    rw [List.map_cons, List.nodup_cons] at hnodup
    unfold unlink
    by_cases hk : key e = k
    · rw [if_pos hk, find_cons]
      by_cases heq : k' = k
      · rw [if_pos heq, heq, ← hk]
        exact find_none_iff.2 hnodup.1
      · rw [if_neg heq, hk, if_neg (Ne.symm heq)]
    · rw [if_neg hk, find_cons, find_cons, ih hnodup.2]
      by_cases heq : k' = k
      · rw [heq, if_neg hk, if_pos rfl, if_pos rfl]
      · rw [if_neg heq, if_neg heq]

variable {M : Type} [AddCommMonoid M]

theorem sum_adjust (weight : E → M) (h : find key k chain = some e) :
    ((adjust key k f chain).map weight).sum + weight e = (chain.map weight).sum + weight (f e) := by
  induction chain with
  | nil => exact nomatch h
  | cons e' rest ih =>
    rw [find_cons] at h
    unfold adjust
    split
    · rename_i hk
      rw [if_pos hk] at h
      cases h
      rw [List.map_cons, List.map_cons, List.sum_cons, List.sum_cons]
      rw [add_right_comm, add_comm (weight (f e)), add_right_comm, add_comm (weight e), add_assoc]
    · rename_i hk
      rw [if_neg hk] at h
      rw [List.map_cons, List.map_cons, List.sum_cons, List.sum_cons, add_assoc, ih h, add_assoc]

theorem sum_unlink (weight : E → M) (h : find key k chain = some e) :
    ((unlink key k chain).map weight).sum + weight e = (chain.map weight).sum := by
  induction chain with
  | nil => exact nomatch h
  | cons e' rest ih =>
    rw [find_cons] at h
    unfold unlink
    split
    · rename_i hk
      rw [if_pos hk] at h
      cases h
      rw [List.map_cons, List.sum_cons, add_comm]
    · rename_i hk
      rw [if_neg hk] at h
      rw [List.map_cons, List.map_cons, List.sum_cons, List.sum_cons, add_assoc, ih h]

end Chains

/-! ## The table as a map -/

theorem lookup_mem {k : Nat} {e : E} (h : lookup n key t k = some e) : e ∈ t (k % n) :=
  (find_some h).1

/-- The entries of the chains are those that are found. -/
theorem WF.lookup_of_mem (h : WF n key t) {i : Nat} {e : E} (he : e ∈ t i) : lookup n key t (key e) = some e := by
  have hi := h.placed i e he
  rw [hi] at he
  exact find_of_mem (h.nodup _) he

theorem lookup_insert (e : E) (k : Nat) :
    lookup n key (insert n key t e) k = if k = key e then some e else lookup n key t k := by
  unfold lookup insert
  by_cases hk : k = key e
  · rw [if_pos hk, hk, Function.update_self, find_cons, if_pos rfl]
  · rw [if_neg hk, Function.update_apply]
    split
    · rename_i hslot
      rw [find_cons, if_neg (Ne.symm hk), hslot]
    · rfl

theorem lookup_modify {f : E → E} (hf : ∀ e, key (f e) = key e) (k k' : Nat) :
    lookup n key (modify n key t k f) k' = if k' = k then (lookup n key t k).map f else lookup n key t k' := by
  unfold lookup modify
  rw [Function.update_apply]
  split
  · rename_i hslot
    rw [find_adjust hf, hslot]
  · rename_i hslot
    have hne : k' ≠ k := by
      intro heq
      rw [heq] at hslot
      exact hslot rfl
    rw [if_neg hne]

theorem WF.lookup_delete (h : WF n key t) (k k' : Nat) :
    lookup n key (delete n key t k) k' = if k' = k then none else lookup n key t k' := by
  unfold lookup delete
  rw [Function.update_apply]
  split
  · rename_i hslot
    rw [find_unlink (h.nodup _), hslot]
  · rename_i hslot
    have hne : k' ≠ k := by
      intro heq
      rw [heq] at hslot
      exact hslot rfl
    rw [if_neg hne]

theorem WF.insert (h : WF n key t) {e : E} (hnew : lookup n key t (key e) = none) : WF n key (insert n key t e) := by
  constructor
  · intro i e' he'
    unfold Buckets.insert at he'
    rw [Function.update_apply] at he'
    split at he'
    · rename_i hi
      rcases List.mem_cons.1 he' with heq | hold
      · rw [heq]
        exact hi
      · rw [hi]
        exact h.placed _ e' hold
    · exact h.placed i e' he'
  · intro i
    unfold Buckets.insert
    rw [Function.update_apply]
    split
    · rw [List.map_cons, List.nodup_cons]
      exact ⟨find_none_iff.1 hnew, h.nodup _⟩
    · exact h.nodup i

theorem WF.modify (h : WF n key t) {f : E → E} (hf : ∀ e, key (f e) = key e) (k : Nat) :
    WF n key (modify n key t k f) := by
  constructor
  · intro i e he
    unfold Buckets.modify at he
    rw [Function.update_apply] at he
    split at he
    · rename_i hi
      rcases mem_adjust he with hold | ⟨e', hold, heq⟩
      · rw [hi]
        exact h.placed _ e hold
      · rw [hi, heq, hf]
        exact h.placed _ e' hold
    · exact h.placed i e he
  · intro i
    unfold Buckets.modify
    rw [Function.update_apply]
    split
    · rw [map_adjust hf]
      exact h.nodup _
    · exact h.nodup i

theorem WF.delete (h : WF n key t) (k : Nat) : WF n key (delete n key t k) := by
  constructor
  · intro i e he
    unfold Buckets.delete at he
    rw [Function.update_apply] at he
    split at he
    · rename_i hi
      rw [hi]
      exact h.placed _ e (unlink_sublist.subset he)
    · exact h.placed i e he
  · intro i
    unfold Buckets.delete
    rw [Function.update_apply]
    split
    · exact (h.nodup _).sublist (unlink_sublist.map key)
    · exact h.nodup i

/-! ## Totals -/

section Totals

variable {M : Type} [AddCancelCommMonoid M]

/-- The weight of all entries. -/
def total (n : Nat) (t : Nat → List E) (weight : E → M) : M :=
  ∑ i ∈ range n, ((t i).map weight).sum

/-- The chain of a slot is exchanged. -/
theorem total_update {i : Nat} (hi : i < n) (t : Nat → List E) (chain : List E) (weight : E → M) :
    total n (Function.update t i chain) weight + ((t i).map weight).sum =
      total n t weight + (chain.map weight).sum :=
  Totals.sum_update (mem_range.2 hi) t chain (fun _ chain => (chain.map weight).sum)

theorem total_insert (hn : 0 < n) (t : Nat → List E) (weight : E → M) (e : E) :
    total n (insert n key t e) weight = total n t weight + weight e := by
  have h := total_update (Nat.mod_lt (key e) hn) t (e :: t (key e % n)) weight
  rw [List.map_cons, List.sum_cons, ← add_assoc] at h
  exact add_right_cancel h

theorem total_modify (hn : 0 < n) {k : Nat} {e : E} (h : lookup n key t k = some e) (f : E → E) (weight : E → M) :
    total n (modify n key t k f) weight + weight e = total n t weight + weight (f e) := by
  have hupdate := total_update (Nat.mod_lt k hn) t (adjust key k f (t (k % n))) weight
  have hchain := sum_adjust (f := f) weight h
  apply add_right_cancel (b := ((t (k % n)).map weight).sum)
  calc total n (modify n key t k f) weight + weight e + ((t (k % n)).map weight).sum
      = total n (modify n key t k f) weight + ((t (k % n)).map weight).sum + weight e := add_right_comm ..
    _ = total n t weight + (((adjust key k f (t (k % n))).map weight).sum + weight e) := by
        rw [← add_assoc]
        exact congrArg (· + weight e) hupdate
    _ = total n t weight + weight (f e) + ((t (k % n)).map weight).sum := by
        rw [hchain, add_comm _ (weight (f e)), add_assoc]

theorem total_delete (hn : 0 < n) {k : Nat} {e : E} (h : lookup n key t k = some e) (weight : E → M) :
    total n (delete n key t k) weight + weight e = total n t weight := by
  have hupdate := total_update (Nat.mod_lt k hn) t (unlink key k (t (k % n))) weight
  have hchain := sum_unlink weight h
  apply add_right_cancel (b := ((t (k % n)).map weight).sum)
  calc total n (delete n key t k) weight + weight e + ((t (k % n)).map weight).sum
      = total n (delete n key t k) weight + ((t (k % n)).map weight).sum + weight e := add_right_comm ..
    _ = total n t weight + (((unlink key k (t (k % n))).map weight).sum + weight e) := by
        rw [← add_assoc]
        exact congrArg (· + weight e) hupdate
    _ = total n t weight + ((t (k % n)).map weight).sum := by
        rw [hchain]

end Totals

end Buckets
