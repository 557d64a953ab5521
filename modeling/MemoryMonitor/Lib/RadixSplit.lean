import MemoryMonitor.Lib.Radix

/-!
# Radix trees that are split at once

Another way to write a slot of a radix tree. A leaf that is met above the slot is split into leaves of
the level that is written before anything is put into the tree, and if a page is missing, all the tables
that have been made go back to the pool. Leaves that are not `opens` are overwritten by an empty table.

`setEager_lookup` says what is found afterwards, and `setEager_pages` where the pages are.
-/

namespace Radix

section Eager

variable {α β : Type} (S : Shape α β) (opens : Nat → α → Bool)

/-- The slots of a table are made one after the other, until one fails. -/
def fill (f : Nat → Mem → Tree α × Mem × Bool) : Nat → Mem → (Nat → Tree α) × Mem × Bool
  | 0, m => (fun _ => .empty, m, true)
  | n + 1, m =>
      let r := fill f n m
      if r.2.2 then
        let c := f n r.2.1
        (Function.update r.1 n c.1, c.2)
      else r

/-- A leaf at level `k` is split into leaves of level `l`. -/
def splitTo (l : Nat) : (k : Nat) → α → Mem → Tree α × Mem × Bool
  | 0, a, m => (.leaf a, m, true)
  | k + 1, a, m =>
      if k + 1 = l then (.leaf a, m, true)
      else
        match m.alloc with
        | none => (.leaf a, m, false)
        | some (p, m) =>
            let r := fill (fun i m => splitTo l k (S.split (k + 1) a i) m) S.W m
            (.node p r.1, r.2)

/-- A slot at level `l` is written, below tables that are there. -/
def putAt (l key : Nat) (new : Tree α) : (k : Nat) → Tree α → Tree α
  | 0, t => if l = 0 then new else t
  | k + 1, t =>
      if k + 1 = l then new
      else
        match t with
        | .node p slots =>
            .node p (Function.update slots (S.digit k key) (putAt l key new k (slots (S.digit k key))))
        | t => t

/-- The leaf that has to be split to get below it. -/
def opened (k : Nat) : Tree α → Option α
  | .leaf a => if opens k a then some a else none
  | _ => none

/-- The table below, which may have to be allocated. -/
def table (t : Tree α) (m : Mem) : Option (Nat × (Nat → Tree α) × Mem) :=
  match t with
  | .node p slots => some (p, slots, m)
  | _ => m.alloc.map fun r => (r.1, fun _ => .empty, r.2)

/-- Writing a slot at level `l` from a slot at level `k`: `new`, or `newSplit` if a leaf had to be split. -/
def setEager (l key : Nat) (new newSplit : Tree α) : (k : Nat) → Tree α → Mem → Tree α × Mem × Bool
  | 0, t, m => if l = 0 then (new, m.free (pages S 0 t), true) else (t, m, false)
  | k + 1, t, m =>
      if k + 1 = l then (new, m.free (pages S (k + 1) t), true)
      else
        match opened opens (k + 1) t with
        | some a =>
            let r := splitTo S l (k + 1) a m
            if r.2.2 then (putAt S l key newSplit (k + 1) r.1, r.2)
            else (t, r.2.1.free (pages S (k + 1) r.1), false)
        | none =>
            match table t m with
            | none => (t, m, false)
            | some (p, slots, m) =>
                let r := setEager l key new newSplit k (slots (S.digit k key)) m
                (.node p (Function.update slots (S.digit k key) r.1), r.2)

/-- Whether a leaf has to be split. -/
def splits (l key : Nat) : (k : Nat) → Tree α → Bool
  | 0, _ => false
  | k + 1, t =>
      if k + 1 = l then false
      else if (opened opens (k + 1) t).isSome then true
      else
        match t with
        | .node _ slots => splits l key k (slots (S.digit k key))
        | _ => false

/-- All the leaves are at level `l`. -/
def Level (l : Nat) : (k : Nat) → Tree α → Prop
  | 0, t => l = 0 ∧ ∃ a, t = .leaf a
  | k + 1, t =>
      if k + 1 = l then ∃ a, t = .leaf a
      else
        match t with
        | .node _ slots => ∀ i < S.W, Level l k (slots i)
        | _ => False

variable {S opens} {k l key n : Nat} {t t' new newSplit : Tree α} {m m' : Mem} {ok : Bool} {a : α}

/-! ## Splitting -/

section Fill

variable {f : Nat → Mem → Tree α × Mem × Bool}

theorem fill_above {i : Nat} (hi : n ≤ i) : (fill f n m).1 i = .empty := by
  induction n with
  | zero => rfl
  | succ n ih =>
    unfold fill
    dsimp only
    split
    · dsimp only
      rw [Function.update_of_ne (by omega)]
      exact ih (by omega)
    · exact ih (by omega)

/-- What is true of each slot that is made is true of all of them, if none fails. -/
theorem fill_slots {P : Nat → Tree α → Prop} (hf : ∀ i m, i < n → (f i m).2.2 = true → P i (f i m).1)
    (hok : (fill f n m).2.2 = true) : ∀ i < n, P i ((fill f n m).1 i) := by
  induction n with
  | zero =>
    intro i hi
    exact absurd hi (Nat.not_lt_zero i)
  | succ n ih =>
    intro i hi
    unfold fill at hok ⊢
    dsimp only at hok ⊢
    split at hok
    · rename_i hr
      rw [if_pos hr]
      dsimp only
      by_cases hin : i = n
      · rw [hin, Function.update_self]
        exact hf n _ (Nat.lt_succ_self n) hok
      · rw [Function.update_of_ne hin]
        exact ih (fun i m hi => hf i m (Nat.lt_succ_of_lt hi)) hr i (by omega)
    · exact absurd hok ‹_›

theorem fill_pages (q : Nat)
    (hf : ∀ i m, (pages S k (f i m).1).count q + m.pages.count q = (f i m).2.1.pages.count q ∧
      (f i m).2.1.pages.count q + (f i m).2.1.pool.count q = m.pages.count q + m.pool.count q) :
    (∑ i ∈ Finset.range n, (pages S k ((fill f n m).1 i)).count q) + m.pages.count q =
      (fill f n m).2.1.pages.count q ∧
    (fill f n m).2.1.pages.count q + (fill f n m).2.1.pool.count q = m.pages.count q + m.pool.count q := by
  induction n with
  | zero => exact ⟨Nat.zero_add _, rfl⟩
  | succ n ih =>
    rw [Finset.sum_range_succ]
    have habove : (fill f n m).1 n = .empty := fill_above (Nat.le_refl n)
    unfold fill
    dsimp only
    split
    · obtain ⟨hc1, hc2⟩ := hf n (fill f n m).2.1
      dsimp only
      have hsum : ∑ i ∈ Finset.range n,
          (pages S k (Function.update (fill f n m).1 n (f n (fill f n m).2.1).1 i)).count q =
          ∑ i ∈ Finset.range n, (pages S k ((fill f n m).1 i)).count q := by
        apply Finset.sum_congr rfl
        intro i hi
        rw [Function.update_of_ne (Nat.ne_of_lt (Finset.mem_range.1 hi))]
      rw [hsum, Function.update_self]
      omega
    · have hnone : pages S k (.empty : Tree α) = [] := by cases k <;> rfl
      rw [habove, hnone, List.count_nil]
      omega

end Fill

theorem splitTo_pages (q : Nat) (l k : Nat) (a : α) (m : Mem) :
    (pages S k (splitTo S l k a m).1).count q + m.pages.count q = (splitTo S l k a m).2.1.pages.count q ∧
    (splitTo S l k a m).2.1.pages.count q + (splitTo S l k a m).2.1.pool.count q =
      m.pages.count q + m.pool.count q := by
  induction k generalizing a m with
  | zero => exact ⟨Nat.zero_add _, rfl⟩
  | succ k ih =>
    unfold splitTo
    split
    · exact ⟨Nat.zero_add _, rfl⟩
    · split
      · exact ⟨Nat.zero_add _, rfl⟩
      · rename_i p m₁ halloc
        obtain ⟨h1, h2⟩ := Mem.alloc_count halloc q
        obtain ⟨hf1, hf2⟩ := @fill_pages α β S k S.W m₁
          (fun i m => splitTo S l k (S.split (k + 1) a i) m) q fun i m => ih (S.split (k + 1) a i) m
        dsimp only at h1 h2 ⊢
        rw [count_pages_node]
        omega

/-- Splitting changes nothing that is found. -/
theorem splitTo_lookup (hl : l ≤ k) (hfits : S.fits k a) (hok : (splitTo S l k a m).2.2 = true) :
    Fits S k (splitTo S l k a m).1 ∧ Level S l k (splitTo S l k a m).1 ∧
      ∀ key, lookup S k (splitTo S l k a m).1 key = S.read k a key := by
  induction k generalizing a m with
  | zero => exact ⟨hfits, ⟨Nat.le_zero.1 hl, a, rfl⟩, fun key => rfl⟩
  | succ k ih =>
    unfold splitTo at hok ⊢
    split at hok
    · rename_i heq
      rw [if_pos heq]
      refine ⟨hfits, ?_, fun key => rfl⟩
      unfold Level
      rw [if_pos heq]
      exact ⟨a, rfl⟩
    · rename_i hne
      rw [if_neg hne]
      split at hok
      · exact absurd hok Bool.false_ne_true
      · rename_i p m₁ halloc
        dsimp only at hok ⊢
        have hslots := fill_slots (P := fun i t => Fits S k t ∧ Level S l k t ∧
          ∀ key, lookup S k t key = S.read k (S.split (k + 1) a i) key)
          (fun i m hi hc => ih (by omega) (S.split_fits hfits hi) hc) hok
        refine ⟨fun i hi => (hslots i hi).1, ?_, fun key => ?_⟩
        · unfold Level
          rw [if_neg hne]
          exact fun i hi => (hslots i hi).2.1
        · rw [← S.split_read key hfits]
          exact (hslots _ (digit_lt k key)).2.2 key

/-! ## Writing a slot -/

/-- A slot at level `l` has been written, or nothing that is found has changed. -/
structure Wrote (S : Shape α β) (l key k : Nat) (new t t' : Tree α) (ok : Bool) : Prop where
  fits : Fits S k t'
  same : ok = true → ∀ key', Same S l k key' key → lookup S k t' key' = lookup S l new key'
  other : ok = true → ∀ key', ¬ Same S l k key' key → lookup S k t' key' = lookup S k t key'
  failed : ok = false → ∀ key', lookup S k t' key' = lookup S k t key'

namespace Wrote

/-- The slot itself is written. -/
theorem here (hnew : Fits S l new) : Wrote S l key l new t new true where
  fits := hnew
  same := fun _ _ _ => rfl
  other := fun _ _ hne => absurd (fun _ hlj hj => absurd hj (Nat.not_lt.2 hlj)) hne
  failed := fun h => Bool.noConfusion h

theorem congr {t₂ : Tree α} (h : Wrote S l key k new t t' ok)
    (hsame : ∀ key', lookup S k t key' = lookup S k t₂ key') : Wrote S l key k new t₂ t' ok where
  fits := h.fits
  same := h.same
  other := fun hok key' hne => (h.other hok key' hne).trans (hsame key')
  failed := fun hno key' => (h.failed hno key').trans (hsame key')

theorem below {p : Nat} {slots : Nat → Tree α} {c : Tree α} (hlk : l ≤ k)
    (hslots : ∀ i < S.W, Fits S k (slots i)) (h : Wrote S l key k new (slots (S.digit k key)) c ok) :
    Wrote S l key (k + 1) new (.node p slots) (.node p (Function.update slots (S.digit k key) c)) ok := by
  have hnode : ∀ key', lookup S (k + 1) (.node p (Function.update slots (S.digit k key) c)) key' =
      if S.digit k key' = S.digit k key then lookup S k c key' else lookup S k (slots (S.digit k key')) key' := by
    intro key'
    change lookup S k (Function.update slots (S.digit k key) c (S.digit k key')) key' = _
    split
    · rename_i hd
      rw [hd, Function.update_self]
    · rename_i hd
      rw [Function.update_of_ne hd]
  constructor
  · intro i hi
    by_cases hd : i = S.digit k key
    · rw [hd, Function.update_self]
      exact h.fits
    · rw [Function.update_of_ne hd]
      exact hslots i hi
  · intro hok key' hS
    rw [hnode, if_pos (hS k hlk (Nat.lt_succ_self k))]
    exact h.same hok key' fun j hlj hj => hS j hlj (Nat.lt_succ_of_lt hj)
  · intro hok key' hS
    rw [hnode]
    split
    · rename_i hd
      have hS' : ¬ Same S l k key' key := by
        intro hS'
        refine hS fun j hlj hj => ?_
        rcases Nat.lt_succ_iff_lt_or_eq.1 hj with hj | hj
        · exact hS' j hlj hj
        · rw [hj]
          exact hd
      rw [h.other hok key' hS', ← hd]
      rfl
    · rfl
  · intro hno key'
    rw [hnode]
    split
    · rename_i hd
      rw [h.failed hno key', ← hd]
      rfl
    · rfl

end Wrote

theorem putAt_wrote (hl : l ≤ k) (h : Fits S k t) (hlevel : Level S l k t) (hnew : Fits S l new) :
    Wrote S l key k new t (putAt S l key new k t) true := by
  induction k generalizing t with
  | zero =>
    have h0 : l = 0 := Nat.le_zero.1 hl
    subst h0
    exact Wrote.here hnew
  | succ k ih =>
    unfold putAt
    split
    · rename_i heq
      subst heq
      exact Wrote.here hnew
    · rename_i hne
      unfold Level at hlevel
      rw [if_neg hne] at hlevel
      cases t with
      | empty => exact hlevel.elim
      | leaf a => exact hlevel.elim
      | node p slots =>
        have hd := digit_lt (S := S) k key
        exact Wrote.below (by omega) h (ih (by omega) (h _ hd) (hlevel _ hd))

theorem putAt_pages (hl : l ≤ k) (hlevel : Level S l k t) (hnew : pages S l new = []) (q : Nat) :
    (pages S k (putAt S l key new k t)).count q = (pages S k t).count q := by
  induction k generalizing t with
  | zero =>
    have h0 : l = 0 := Nat.le_zero.1 hl
    subst h0
    rfl
  | succ k ih =>
    unfold putAt
    unfold Level at hlevel
    split
    · rename_i heq
      rw [if_pos heq] at hlevel
      obtain ⟨a, rfl⟩ := hlevel
      subst heq
      rw [hnew, pages_leaf]
    · rename_i hne
      rw [if_neg hne] at hlevel
      cases t with
      | empty => exact hlevel.elim
      | leaf a => exact hlevel.elim
      | node p slots =>
        have hslot := ih (by omega) (hlevel _ (digit_lt (S := S) k key))
        have hupdate := pages_update S k q p slots (putAt S l key new k (slots (S.digit k key))) key
        dsimp only
        omega

theorem opened_leaf (k : Nat) (a : α) : opened opens k (.leaf a) = if opens k a then some a else none := rfl

theorem eq_leaf_of_opened (h : opened opens k t = some a) : t = .leaf a := by
  cases t with
  | leaf b =>
    rw [opened_leaf] at h
    split at h
    · injection h with h
      rw [h]
    · exact absurd h (Option.some_ne_none a).symm
  | empty => exact absurd h (Option.some_ne_none a).symm
  | node p slots => exact absurd h (Option.some_ne_none a).symm

theorem splits_empty (k : Nat) : splits S opens l key k (.empty : Tree α) = false := by
  cases k with
  | zero => rfl
  | succ k =>
    unfold splits
    split <;> rfl

theorem splits_of_opened (hne : ¬ k + 1 = l) (h : opened opens (k + 1) t = some a) :
    splits S opens l key (k + 1) t = true := by
  unfold splits
  rw [if_neg hne, h]
  rfl

theorem splits_of_table {p : Nat} {slots : Nat → Tree α} (hne : ¬ k + 1 = l)
    (h : opened opens (k + 1) t = none) (htable : table t m = some (p, slots, m')) :
    splits S opens l key (k + 1) t = splits S opens l key k (slots (S.digit k key)) := by
  unfold table at htable
  cases t with
  | node p slots =>
    cases htable
    change (if k + 1 = l then false else if (opened opens (k + 1) (.node p slots)).isSome then true else
      splits S opens l key k (slots (S.digit k key))) = _
    rw [if_neg hne, h]
    rfl
  | empty =>
    obtain ⟨r, -, hr⟩ := Option.map_eq_some_iff.1 htable
    cases hr
    rw [splits_empty, splits_empty]
  | leaf a =>
    obtain ⟨r, -, hr⟩ := Option.map_eq_some_iff.1 htable
    cases hr
    change (if k + 1 = l then false else if (opened opens (k + 1) (.leaf a)).isSome then true else false) = _
    rw [if_neg hne, h, splits_empty]
    rfl

variable (S opens) in
/-- Leaves that are not opened have nothing to be found. -/
def Closed : Prop := ∀ {k a}, S.fits (k + 1) a → opens (k + 1) a = false → ∀ key, S.read (k + 1) a key = S.none

/-- The table below has what is found. -/
theorem table_lookup {p : Nat} {slots : Nat → Tree α} (hclosed : Closed S opens) (h : Fits S (k + 1) t)
    (hopened : opened opens (k + 1) t = none) (htable : table t m = some (p, slots, m')) :
    (∀ key, lookup S (k + 1) (.node p slots) key = lookup S (k + 1) t key) ∧ ∀ i < S.W, Fits S k (slots i) := by
  unfold table at htable
  cases t with
  | node p slots =>
    cases htable
    exact ⟨fun _ => rfl, h⟩
  | empty =>
    obtain ⟨r, -, hr⟩ := Option.map_eq_some_iff.1 htable
    cases hr
    exact ⟨fun key => lookup_empty k key, fun i _ => fits_empty k⟩
  | leaf a =>
    obtain ⟨r, -, hr⟩ := Option.map_eq_some_iff.1 htable
    cases hr
    have hclose : opens (k + 1) a = false := by
      rw [opened_leaf] at hopened
      split at hopened
      · exact absurd hopened (Option.some_ne_none a)
      · exact Bool.eq_false_iff.2 ‹_›
    refine ⟨fun key => ?_, fun i _ => fits_empty k⟩
    rw [lookup_leaf, hclosed h hclose key]
    exact lookup_empty k key

/-- What is found after a slot is written. -/
theorem setEager_wrote (hclosed : Closed S opens) (hl : l ≤ k) (h : Fits S k t)
    (hnew : Fits S l (if splits S opens l key k t then newSplit else new)) (hs : setEager S opens l key new newSplit k t m = (t', m', ok)) :
    Wrote S l key k (if splits S opens l key k t then newSplit else new) t t' ok := by
  induction k generalizing t m t' m' ok with
  | zero =>
    have h0 : l = 0 := Nat.le_zero.1 hl
    subst h0
    unfold setEager at hs
    rw [if_pos rfl] at hs
    cases hs
    exact Wrote.here hnew
  | succ k ih =>
    unfold setEager at hs
    split at hs
    · rename_i heq
      cases hs
      unfold splits at hnew ⊢
      rw [if_pos heq] at hnew ⊢
      subst heq
      exact Wrote.here hnew
    · rename_i hne
      split at hs
      · -- a leaf is split
        rename_i a hopened
        rw [splits_of_opened hne hopened, if_pos rfl] at hnew ⊢
        have hleaf := eq_leaf_of_opened hopened
        subst hleaf
        have hlook := @splitTo_lookup α β S (k + 1) l m a hl h
        generalize splitTo S l (k + 1) a m = r at hs hlook
        obtain ⟨t₁, m₁, ok₁⟩ := r
        dsimp only at hs hlook
        split at hs
        · rename_i hok
          cases hs
          obtain ⟨hfits, hlevel, hlook⟩ := hlook hok
          rw [hok]
          refine (putAt_wrote hl hfits hlevel hnew).congr ?_
          intro key'
          rw [hlook key', lookup_leaf]
        · cases hs
          exact ⟨h, fun hf => Bool.noConfusion hf, fun hf => Bool.noConfusion hf, fun _ _ => rfl⟩
      · rename_i hopened
        split at hs
        · cases hs
          exact ⟨h, fun hf => Bool.noConfusion hf, fun hf => Bool.noConfusion hf, fun _ _ => rfl⟩
        · rename_i p slots m₂ htable
          obtain ⟨hlook, hslots⟩ := table_lookup hclosed h hopened htable
          generalize hr : setEager S opens l key new newSplit k (slots (S.digit k key)) m₂ = r at hs
          obtain ⟨c, m₃, ok₃⟩ := r
          rw [splits_of_table hne hopened htable] at hnew ⊢
          have hwrote := ih (by omega) (hslots _ (digit_lt (S := S) k key)) hnew hr
          cases hs
          exact (Wrote.below (by omega) hslots hwrote).congr hlook

theorem table_pages {p : Nat} {slots : Nat → Tree α} (htable : table t m = some (p, slots, m')) (q : Nat) :
    (pages S (k + 1) (.node p slots)).count q + m.pages.count q =
      (pages S (k + 1) t).count q + m'.pages.count q ∧
    m'.pages.count q + m'.pool.count q = m.pages.count q + m.pool.count q := by
  unfold table at htable
  cases t with
  | node p slots =>
    cases htable
    exact ⟨rfl, rfl⟩
  | empty =>
    obtain ⟨r, hr, hr'⟩ := Option.map_eq_some_iff.1 htable
    cases hr'
    rw [pages_empty, List.count_nil]
    exact ⟨alloc_pages hr (fun _ => pages_empty k) q, (Mem.alloc_count hr q).2⟩
  | leaf a =>
    obtain ⟨r, hr, hr'⟩ := Option.map_eq_some_iff.1 htable
    cases hr'
    rw [pages_leaf, List.count_nil]
    exact ⟨alloc_pages hr (fun _ => pages_empty k) q, (Mem.alloc_count hr q).2⟩

/-- The pages below a slot are used as before, or were taken from the pool, or have gone back to it. -/
theorem setEager_pages (hclosed : Closed S opens) (h : Fits S k t) (hnew : pages S l new = [])
    (hsplit : pages S l newSplit = []) (hl : l ≤ k) (q : Nat) (hsub : (pages S k t).count q ≤ m.pages.count q)
    (hs : setEager S opens l key new newSplit k t m = (t', m', ok)) :
    (pages S k t').count q + m.pages.count q = (pages S k t).count q + m'.pages.count q ∧
    m'.pages.count q + m'.pool.count q = m.pages.count q + m.pool.count q := by
  induction k generalizing t m t' m' ok with
  | zero =>
    have h0 : l = 0 := Nat.le_zero.1 hl
    subst h0
    unfold setEager at hs
    rw [if_pos rfl] at hs
    cases hs
    exact free_pages hnew q hsub
  | succ k ih =>
    unfold setEager at hs
    split at hs
    · rename_i heq
      subst heq
      cases hs
      exact free_pages hnew q hsub
    · rename_i hne
      split at hs
      · rename_i a hopened
        have hleaf := eq_leaf_of_opened hopened
        subst hleaf
        obtain ⟨h1, h2⟩ := splitTo_pages (S := S) q l (k + 1) a m
        have hlook := @splitTo_lookup α β S (k + 1) l m a hl h
        rw [pages_leaf, List.count_nil]
        generalize splitTo S l (k + 1) a m = r at hs h1 h2 hlook
        obtain ⟨t₁, m₁, ok₁⟩ := r
        dsimp only at hs h1 h2 hlook
        split at hs
        · rename_i hok
          cases hs
          rw [putAt_pages hl (hlook hok).2.1 hsplit]
          omega
        · cases hs
          unfold Mem.free
          dsimp only
          rw [pages_leaf, List.count_nil, List.count_diff, List.count_append]
          omega
      · rename_i hopened
        split at hs
        · cases hs
          exact ⟨rfl, rfl⟩
        · rename_i p slots m₂ htable
          obtain ⟨hg1, hg2⟩ := table_pages (S := S) (k := k) htable q
          obtain ⟨-, hslots⟩ := table_lookup hclosed h hopened htable
          generalize hr : setEager S opens l key new newSplit k (slots (S.digit k key)) m₂ = r at hs
          obtain ⟨c, m₃, ok₃⟩ := r
          have hd := digit_lt (S := S) k key
          have hle := pages_slot_le (S := S) (k := k) q p slots key
          obtain ⟨hc1, hc2⟩ := ih (hslots _ hd) (by omega) (by omega) hr
          cases hs
          have hupdate := pages_update S k q p slots c key
          dsimp only
          omega

end Eager

end Radix
