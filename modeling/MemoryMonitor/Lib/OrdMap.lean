import Mathlib

/-!
# Ordered maps with iteration

A map whose entries are kept in strictly increasing key order, the way a
balanced search tree presents them to an iterator. The order is a field of
the structure, so a map with a repeated or misplaced key cannot be built.

* `get?`, `set`, `insert`, `erase` are the point operations; `insert` keeps
  an existing entry, `set` overwrites it.
* `first?` and `next?` are the iterator: the least key, and the least key
  above a given one, both read off the *current* map.
* `mapAccum` is the loop that visits every entry in order and may rewrite
  its value while threading a state.
* `Forall₂` relates two maps with the same keys, value by value; it is the
  relation two lockstep runs maintain.
-/

/-- Entries in strictly increasing key order. -/
structure OrdMap (K V : Type) [LinearOrder K] where
  entries : List (K × V)
  sorted : entries.Pairwise fun a b => a.1 < b.1

namespace OrdMap

variable {K V W S T : Type} [LinearOrder K]

/-! ## Entry lists -/

/-- The value stored under `k` in an entry list. -/
def lookup (k : K) : List (K × V) → Option V
  | [] => none
  | (k', v) :: rest => if k = k' then some v else lookup k rest

/-- Sorted insertion, replacing the value of an existing key. -/
def put (k : K) (v : V) : List (K × V) → List (K × V)
  | [] => [(k, v)]
  | (k', v') :: rest =>
      if k < k' then (k, v) :: (k', v') :: rest
      else if k = k' then (k, v) :: rest
      else (k', v') :: put k v rest

theorem mem_put {k : K} {v : V} {e : K × V} :
    ∀ {l : List (K × V)}, e ∈ put k v l → e = (k, v) ∨ e ∈ l
  | [], h => Or.inl (by simpa [put] using h)
  | (k', v') :: rest, h => by
      unfold put at h
      split at h
      · simpa using h
      · split at h
        · rcases List.mem_cons.mp h with h | h
          · exact Or.inl h
          · exact Or.inr (List.mem_cons_of_mem _ h)
        · rcases List.mem_cons.mp h with h | h
          · exact Or.inr (by simp [h])
          · rcases mem_put h with h | h
            · exact Or.inl h
            · exact Or.inr (List.mem_cons_of_mem _ h)

theorem pairwise_put (k : K) (v : V) :
    ∀ {l : List (K × V)}, (l.Pairwise fun a b => a.1 < b.1) →
      (put k v l).Pairwise fun a b => a.1 < b.1
  | [], _ => by simp [put]
  | (k', v') :: rest, h => by
      have hrest := List.pairwise_cons.mp h
      unfold put
      split
      · rename_i hlt
        refine List.pairwise_cons.mpr ⟨?_, h⟩
        intro e he
        rcases List.mem_cons.mp he with rfl | he
        · exact hlt
        · exact lt_trans hlt (hrest.1 e he)
      · rename_i hnlt
        split
        · rename_i heq
          subst heq
          exact List.pairwise_cons.mpr ⟨hrest.1, hrest.2⟩
        · rename_i hne
          refine List.pairwise_cons.mpr ⟨?_, pairwise_put k v hrest.2⟩
          intro e he
          rcases mem_put he with rfl | he
          · exact lt_of_le_of_ne (not_lt.mp hnlt) (Ne.symm hne)
          · exact hrest.1 e he

theorem lookup_put_self (k : K) (v : V) :
    ∀ l : List (K × V), lookup k (put k v l) = some v
  | [] => by simp [put, lookup]
  | (k', v') :: rest => by
      unfold put
      split
      · simp [lookup]
      · split
        · simp [lookup]
        · rename_i hne
          simp [lookup, hne, lookup_put_self k v rest]

theorem lookup_put_of_ne {k k' : K} (v : V) (h : k' ≠ k) :
    ∀ l : List (K × V), lookup k' (put k v l) = lookup k' l
  | [] => by simp [put, lookup, h]
  | (k₀, v₀) :: rest => by
      unfold put
      split
      · simp [lookup, h]
      · split
        · rename_i heq
          subst heq
          simp [lookup, h]
        · simp [lookup, lookup_put_of_ne v h rest]

/-- Membership in a sorted entry list is lookup. -/
theorem mem_iff_lookup {k : K} {v : V} :
    ∀ {l : List (K × V)}, (l.Pairwise fun a b => a.1 < b.1) →
      ((k, v) ∈ l ↔ lookup k l = some v)
  | [], _ => by simp [lookup]
  | (k', v') :: rest, h => by
      have hrest := List.pairwise_cons.mp h
      by_cases hk : k = k'
      · subst hk
        have hnot : (k, v) ∉ rest := fun hm => lt_irrefl k (hrest.1 (k, v) hm)
        simp [lookup, hnot, eq_comm]
      · simp [lookup, hk, mem_iff_lookup hrest.2]

/-! ## Point operations -/

/-- The map without entries. -/
def empty : OrdMap K V := ⟨[], List.Pairwise.nil⟩

/-- The value stored under `k`. -/
def get? (m : OrdMap K V) (k : K) : Option V := lookup k m.entries

/-- Store `v` under `k`, overwriting. -/
def set (m : OrdMap K V) (k : K) (v : V) : OrdMap K V :=
  ⟨put k v m.entries, pairwise_put k v m.sorted⟩

/-- Store `v` under `k` unless `k` is present. -/
def insert (m : OrdMap K V) (k : K) (v : V) : OrdMap K V :=
  match m.get? k with
  | some _ => m
  | none => m.set k v

/-- Remove `k`. -/
def erase (m : OrdMap K V) (k : K) : OrdMap K V :=
  ⟨m.entries.filter fun e => !decide (e.1 = k), m.sorted.filter _⟩

/-- The keys in iteration order. -/
def keys (m : OrdMap K V) : List K := m.entries.map Prod.fst

/-- The values in iteration order. -/
def values (m : OrdMap K V) : List V := m.entries.map Prod.snd

@[simp] theorem get?_empty (k : K) : (empty : OrdMap K V).get? k = none := rfl

@[simp] theorem get?_set_self (m : OrdMap K V) (k : K) (v : V) :
    (m.set k v).get? k = some v :=
  lookup_put_self k v m.entries

theorem get?_set_of_ne (m : OrdMap K V) {k k' : K} (v : V) (h : k' ≠ k) :
    (m.set k v).get? k' = m.get? k' :=
  lookup_put_of_ne v h m.entries

theorem get?_set (m : OrdMap K V) (k k' : K) (v : V) :
    (m.set k v).get? k' = if k' = k then some v else m.get? k' := by
  by_cases h : k' = k
  · simp [h]
  · simp [h, get?_set_of_ne]

theorem insert_of_none {m : OrdMap K V} {k : K} (v : V) (h : m.get? k = none) :
    m.insert k v = m.set k v := by
  simp only [insert, h]

theorem get?_insert (m : OrdMap K V) (k k' : K) (v : V) :
    (m.insert k v).get? k' =
      if k' = k then some ((m.get? k).getD v) else m.get? k' := by
  unfold insert
  cases hk : m.get? k with
  | none => simp [get?_set]
  | some w =>
      by_cases h : k' = k
      · simp [h, hk]
      · simp [h]

theorem mem_entries_iff (m : OrdMap K V) {k : K} {v : V} :
    (k, v) ∈ m.entries ↔ m.get? k = some v :=
  mem_iff_lookup m.sorted

/-- Lookup in a map that kept the entries whose value satisfies `p`. -/
theorem get?_of_filter {m m' : OrdMap K V} {p : V → Bool}
    (h : m'.entries = m.entries.filter fun e => p e.2) (k : K) :
    m'.get? k = (m.get? k).filter p := by
  apply Option.ext
  intro v
  rw [← mem_entries_iff, h, List.mem_filter, mem_entries_iff, Option.filter_eq_some_iff]

theorem keys_pairwise (m : OrdMap K V) : m.keys.Pairwise (· < ·) :=
  List.pairwise_map.mpr m.sorted

theorem keys_nodup (m : OrdMap K V) : m.keys.Nodup :=
  m.keys_pairwise.imp ne_of_lt

/-! ## Iteration -/

/-- The least key. -/
def first? (m : OrdMap K V) : Option K := m.entries.head?.map Prod.fst

/-- The least key above `k`. -/
def next? (m : OrdMap K V) (k : K) : Option K :=
  (m.entries.find? fun e => decide (k < e.1)).map Prod.fst

theorem next?_of_entries {m : OrdMap K V} {pre suf : List (K × V)} {k : K} {v : V}
    (h : m.entries = pre ++ (k, v) :: suf) : m.next? k = suf.head?.map Prod.fst := by
  have hsort := m.sorted
  rw [h, List.pairwise_append] at hsort
  have hpre : pre.find? (fun e => decide (k < e.1)) = none := by
    rw [List.find?_eq_none]
    intro e he
    have := hsort.2.2 e he (k, v) (by simp)
    simpa using le_of_lt this
  have hsuf := (List.pairwise_cons.mp hsort.2.1).1
  rw [next?, h, List.find?_append, hpre]
  cases suf with
  | nil => simp
  | cons e rest => simp [hsuf e (by simp)]

/-- Erasing an entry leaves the entries on either side of it in place. -/
theorem erase_entries {m : OrdMap K V} {pre suf : List (K × V)} {k : K} {v : V}
    (h : m.entries = pre ++ (k, v) :: suf) : (m.erase k).entries = pre ++ suf := by
  have hsort := m.sorted
  rw [h, List.pairwise_append] at hsort
  have hpre : pre.filter (fun e => !decide (e.1 = k)) = pre := by
    rw [List.filter_eq_self]
    intro e he
    have := hsort.2.2 e he (k, v) (by simp)
    simpa using ne_of_lt this
  have hsuf : suf.filter (fun e => !decide (e.1 = k)) = suf := by
    rw [List.filter_eq_self]
    intro e he
    have := (List.pairwise_cons.mp hsort.2.1).1 e he
    simpa using ne_of_gt this
  simp [erase, h, hpre, hsuf]

/-- The value stored at a split point of the entries. -/
theorem get?_of_entries {m : OrdMap K V} {pre suf : List (K × V)} {k : K} {v : V}
    (h : m.entries = pre ++ (k, v) :: suf) : m.get? k = some v := by
  rw [← mem_entries_iff, h]
  simp

/-- The entries an iterator still has to visit, standing on `it`. -/
def remaining (m : OrdMap K V) : Option K → Nat
  | none => 0
  | some k => (m.entries.filter fun e => decide (k ≤ e.1)).length

theorem entries_split {m : OrdMap K V} {k : K} {v : V} (h : m.get? k = some v) :
    ∃ pre suf, m.entries = pre ++ (k, v) :: suf :=
  List.append_of_mem (m.mem_entries_iff.mpr h)

/-- Moving on from a stored key leaves less to visit, also when the key is erased. -/
theorem remaining_next_lt {m : OrdMap K V} {k : K} {v : V} (h : m.get? k = some v) :
    m.remaining (m.next? k) < m.remaining (some k) ∧
      (m.erase k).remaining (m.next? k) < m.remaining (some k) := by
  obtain ⟨pre, suf, hm⟩ := entries_split h
  have hsort := m.sorted
  rw [hm, List.pairwise_append] at hsort
  have hsuf := List.pairwise_cons.mp hsort.2.1
  have hkeep : suf.filter (fun e => decide (k ≤ e.1)) = suf := by
    rw [List.filter_eq_self]
    intro e he
    simpa using le_of_lt (hsuf.1 e he)
  have hthis : suf.length < m.remaining (some k) := by
    rw [remaining, hm, List.filter_append, List.filter_cons_of_pos (by simp), hkeep,
      List.length_append, List.length_cons]
    omega
  rw [next?_of_entries hm]
  cases suf with
  | nil => exact ⟨Nat.lt_of_le_of_lt (Nat.zero_le _) hthis, Nat.lt_of_le_of_lt (Nat.zero_le _) hthis⟩
  | cons e rest =>
      -- nothing before the next entry is counted again
      have hpre : pre.filter (fun e' => decide (e.1 ≤ e'.1)) = [] := by
        rw [List.filter_eq_nil_iff]
        intro e' he'
        have := hsort.2.2 e' he' e (by simp)
        simpa using this
      have hk : ¬ e.1 ≤ k := not_le.mpr (hsuf.1 e (by simp))
      constructor
      · refine Nat.lt_of_le_of_lt ?_ hthis
        rw [List.head?_cons, Option.map_some, remaining, hm, List.filter_append, hpre,
          List.filter_cons_of_neg (by simpa using hk), List.nil_append]
        exact List.length_filter_le _ _
      · refine Nat.lt_of_le_of_lt ?_ hthis
        rw [List.head?_cons, Option.map_some, remaining, erase_entries hm, List.filter_append,
          hpre, List.nil_append]
        exact List.length_filter_le _ _

/-- Visit the entries in order, threading a state and rewriting each value. -/
def accum (f : S → K → V → S × W) : S → List (K × V) → S × List (K × W)
  | s, [] => (s, [])
  | s, (k, v) :: rest =>
      let r := f s k v
      let t := accum f r.1 rest
      (t.1, (k, r.2) :: t.2)

omit [LinearOrder K] in
theorem accum_keys (f : S → K → V → S × W) :
    ∀ (s : S) (l : List (K × V)), (accum f s l).2.map Prod.fst = l.map Prod.fst
  | _, [] => rfl
  | s, (k, v) :: rest => by simp [accum, accum_keys f (f s k v).1 rest]

/-- The loop over all entries of a map. -/
def mapAccum (f : S → K → V → S × W) (s : S) (m : OrdMap K V) : S × OrdMap K W :=
  ((accum f s m.entries).1, ⟨(accum f s m.entries).2, by
    rw [← List.pairwise_map, accum_keys, List.pairwise_map]
    exact m.sorted⟩)

/-- What the loop does not change of the values can still be looked up. -/
theorem get?_mapAccum {U : Type} (f : S → K → V → S × W) (obs : V → U) (obs' : W → U)
    (hobs : ∀ s k v, obs' (f s k v).2 = obs v) (s : S) (m : OrdMap K V) (k : K) :
    ((m.mapAccum f s).2.get? k).map obs' = (m.get? k).map obs := by
  have key : ∀ (s : S) (l : List (K × V)),
      (lookup k (accum f s l).2).map obs' = (lookup k l).map obs := by
    intro s l
    induction l generalizing s with
    | nil => rfl
    | cons e rest ih =>
        obtain ⟨k', v⟩ := e
        by_cases hk : k = k'
        · simp [accum, lookup, hk, hobs]
        · simp [accum, lookup, hk, ih]
  exact key s m.entries

/-! ## Building and renaming -/

/-- The map of an association list; earlier entries win. -/
def ofList : List (K × V) → OrdMap K V
  | [] => empty
  | (k, v) :: rest => (ofList rest).set k v

/-- The same values under renamed keys. -/
def rename (f : K → K) (m : OrdMap K V) : OrdMap K V :=
  ofList (m.entries.map fun e => (f e.1, e.2))

theorem put_perm (k : K) (v : V) :
    ∀ {l : List (K × V)}, k ∉ l.map Prod.fst → (put k v l).Perm ((k, v) :: l)
  | [], _ => List.Perm.refl _
  | (k', v') :: rest, h => by
      have hne : k ≠ k' := fun heq => h (by simp [heq])
      have hrest : k ∉ rest.map Prod.fst := fun hm => h (List.mem_cons_of_mem _ hm)
      unfold put
      split
      · exact List.Perm.refl _
      · exact ((put_perm k v hrest).cons (k', v')).trans (List.Perm.swap _ _ _)

theorem ofList_perm :
    ∀ {l : List (K × V)}, (l.map Prod.fst).Nodup → (ofList l).entries.Perm l
  | [], _ => List.Perm.refl _
  | (k, v) :: rest, h => by
      obtain ⟨hk, hrest⟩ := List.nodup_cons.mp h
      have ih := ofList_perm hrest
      have hk' : k ∉ (ofList rest).entries.map Prod.fst := by
        rw [(ih.map Prod.fst).mem_iff]
        exact hk
      exact (put_perm k v hk').trans (ih.cons (k, v))

theorem rename_values_perm {f : K → K} {m : OrdMap K V}
    (hf : ∀ k ∈ m.keys, ∀ k' ∈ m.keys, f k = f k' → k = k') :
    (m.rename f).values.Perm m.values := by
  have hnodup : ((m.entries.map fun e => (f e.1, e.2)).map Prod.fst).Nodup := by
    rw [List.map_map]
    change (m.entries.map (f ∘ Prod.fst)).Nodup
    rw [← List.map_map]
    exact List.Nodup.map_on hf m.keys_nodup
  have hperm := (ofList_perm hnodup).map Prod.snd
  rw [List.map_map] at hperm
  exact hperm

/-! ## Two maps in lockstep -/

/-- The two maps have the same keys, with related values. -/
def Forall₂ (R : K → V → W → Prop) (m : OrdMap K V) (m' : OrdMap K W) : Prop :=
  List.Forall₂ (fun a b => a.1 = b.1 ∧ R a.1 a.2 b.2) m.entries m'.entries

theorem Forall₂.empty {R : K → V → W → Prop} :
    Forall₂ R (empty : OrdMap K V) (OrdMap.empty : OrdMap K W) :=
  List.Forall₂.nil

theorem Forall₂.lookup {R : K → V → W → Prop} {l : List (K × V)} {l' : List (K × W)}
    (h : List.Forall₂ (fun a b => a.1 = b.1 ∧ R a.1 a.2 b.2) l l') (k : K) :
    Option.Rel (R k) (OrdMap.lookup k l) (OrdMap.lookup k l') := by
  induction h with
  | nil => exact Option.Rel.none
  | @cons a b l l' hab _ ih =>
      obtain ⟨k₁, v⟩ := a
      obtain ⟨k₂, w⟩ := b
      obtain ⟨hk, hR⟩ := hab
      have hk' : k₁ = k₂ := hk
      subst hk'
      by_cases h : k = k₁
      · subst h
        simpa [OrdMap.lookup] using Option.Rel.some hR
      · simpa [OrdMap.lookup, h] using ih

theorem Forall₂.get? {R : K → V → W → Prop} {m : OrdMap K V} {m' : OrdMap K W}
    (h : Forall₂ R m m') (k : K) : Option.Rel (R k) (m.get? k) (m'.get? k) :=
  Forall₂.lookup h k

/-- A key is missing on both sides, or stored with related values. -/
theorem Forall₂.get?_cases {R : K → V → W → Prop} {m : OrdMap K V} {m' : OrdMap K W}
    (h : Forall₂ R m m') (k : K) :
    (m.get? k = none ∧ m'.get? k = none) ∨
      ∃ v w, m.get? k = some v ∧ m'.get? k = some w ∧ R k v w := by
  have hk := h.get? k
  generalize m.get? k = o at hk ⊢
  generalize m'.get? k = o' at hk ⊢
  cases hk with
  | none => exact Or.inl ⟨rfl, rfl⟩
  | some hR => exact Or.inr ⟨_, _, rfl, rfl, hR⟩

theorem Forall₂.set {R : K → V → W → Prop} {m : OrdMap K V} {m' : OrdMap K W}
    (h : Forall₂ R m m') {k : K} {v : V} {w : W} (hR : R k v w) :
    Forall₂ R (m.set k v) (m'.set k w) := by
  have key : ∀ {l : List (K × V)} {l' : List (K × W)},
      List.Forall₂ (fun a b => a.1 = b.1 ∧ R a.1 a.2 b.2) l l' →
      List.Forall₂ (fun a b => a.1 = b.1 ∧ R a.1 a.2 b.2) (put k v l) (put k w l') := by
    intro l l' hl
    induction hl with
    | nil => exact List.Forall₂.cons ⟨rfl, hR⟩ List.Forall₂.nil
    | @cons a b l l' hab htail ih =>
        obtain ⟨k₁, v₁⟩ := a
        obtain ⟨k₂, w₂⟩ := b
        have hk' : k₁ = k₂ := hab.1
        subst hk'
        unfold put
        split
        · exact List.Forall₂.cons ⟨rfl, hR⟩ (List.Forall₂.cons hab htail)
        · split
          · exact List.Forall₂.cons ⟨rfl, hR⟩ htail
          · exact List.Forall₂.cons hab ih
  exact key h

theorem Forall₂.imp {R R' : K → V → W → Prop} (hR : ∀ k v w, R k v w → R' k v w)
    {m : OrdMap K V} {m' : OrdMap K W} (h : Forall₂ R m m') : Forall₂ R' m m' :=
  List.Forall₂.imp (fun _ _ hab => ⟨hab.1, hR _ _ _ hab.2⟩) h

/-- A relation that also knows where its values are stored. -/
theorem Forall₂.with_get? {R : K → V → W → Prop} {m : OrdMap K V} {m' : OrdMap K W}
    (h : Forall₂ R m m') :
    Forall₂ (fun k v w => R k v w ∧ m.get? k = some v ∧ m'.get? k = some w) m m' := by
  unfold Forall₂ at h ⊢
  rw [List.forall₂_iff_get] at h ⊢
  refine ⟨h.1, fun i hi hi' => ?_⟩
  obtain ⟨hk, hR⟩ := h.2 i hi hi'
  refine ⟨hk, hR, ?_, ?_⟩
  · rw [← mem_entries_iff]
    exact List.get_mem _ _
  · rw [hk, ← mem_entries_iff]
    exact List.get_mem _ _

/-- Storing related values under `k`, where the relation changes for every other key. -/
theorem Forall₂.update {R R' : K → V → W → Prop} {m : OrdMap K V} {m' : OrdMap K W}
    (h : Forall₂ R m m') {k : K} {v : V} {w : W}
    (hne : ∀ k₁ v₁ w₁, k₁ ≠ k → R k₁ v₁ w₁ → R' k₁ v₁ w₁) (hk : R' k v w) :
    Forall₂ R' (m.set k v) (m'.set k w) := by
  have hrest : Forall₂ (fun k₁ v₁ w₁ => k₁ ≠ k → R' k₁ v₁ w₁) (m.set k v) (m'.set k w) :=
    Forall₂.set (h.imp fun k₁ v₁ w₁ hR h₁ => hne k₁ v₁ w₁ h₁ hR) fun h₁ => absurd rfl h₁
  refine hrest.with_get?.imp fun k₁ v₁ w₁ h₁ => ?_
  obtain ⟨hR, hv, hw⟩ := h₁
  by_cases hkk : k₁ = k
  · subst hkk
    rw [get?_set_self] at hv hw
    rw [← Option.some.inj hv, ← Option.some.inj hw]
    exact hk
  · exact hR hkk

/-- Keeping the entries that pass a test both sides agree on. -/
theorem Forall₂.filter {R : K → V → W → Prop} {m m₁ : OrdMap K V} {m' m₁' : OrdMap K W}
    (p : V → Bool) (q : W → Bool) (hpq : ∀ k v w, R k v w → p v = q w)
    (hm : m₁.entries = m.entries.filter fun e => p e.2)
    (hm' : m₁'.entries = m'.entries.filter fun e => q e.2) (h : Forall₂ R m m') :
    Forall₂ R m₁ m₁' := by
  have key : ∀ {l : List (K × V)} {l' : List (K × W)},
      List.Forall₂ (fun a b => a.1 = b.1 ∧ R a.1 a.2 b.2) l l' →
      List.Forall₂ (fun a b => a.1 = b.1 ∧ R a.1 a.2 b.2)
        (l.filter fun e => p e.2) (l'.filter fun e => q e.2) := by
    intro l l' hl
    induction hl with
    | nil => exact List.Forall₂.nil
    | @cons a b l l' hab _ ih =>
        have hp : p a.2 = q b.2 := hpq _ _ _ hab.2
        by_cases ha : p a.2 = true
        · rw [List.filter_cons_of_pos (by simpa using ha),
            List.filter_cons_of_pos (by simpa [← hp] using ha)]
          exact List.Forall₂.cons hab ih
        · rw [List.filter_cons_of_neg (by simpa using ha),
            List.filter_cons_of_neg (by simpa [← hp] using ha)]
          exact ih
  unfold Forall₂
  rw [hm, hm']
  exact key h

/-- Lockstep loops end in related states with related maps. -/
theorem Forall₂.mapAccum {R : K → V → W → Prop} {Q : S → T → Prop}
    {V' W' : Type} {R' : K → V' → W' → Prop}
    {f : S → K → V → S × V'} {g : T → K → W → T × W'}
    (hstep : ∀ s t k v w, Q s t → R k v w →
      Q (f s k v).1 (g t k w).1 ∧ R' k (f s k v).2 (g t k w).2)
    {m : OrdMap K V} {m' : OrdMap K W} (h : Forall₂ R m m') {s : S} {t : T} (hQ : Q s t) :
    Q (m.mapAccum f s).1 (m'.mapAccum g t).1 ∧
      Forall₂ R' (m.mapAccum f s).2 (m'.mapAccum g t).2 := by
  have key : ∀ {l : List (K × V)} {l' : List (K × W)},
      List.Forall₂ (fun a b => a.1 = b.1 ∧ R a.1 a.2 b.2) l l' → ∀ {s : S} {t : T}, Q s t →
      Q (accum f s l).1 (accum g t l').1 ∧
        List.Forall₂ (fun a b => a.1 = b.1 ∧ R' a.1 a.2 b.2) (accum f s l).2 (accum g t l').2 := by
    intro l l' hl
    induction hl with
    | nil => exact fun hQ => ⟨hQ, List.Forall₂.nil⟩
    | @cons a b l l' hab _ ih =>
        intro s t hQ
        obtain ⟨k₁, v₁⟩ := a
        obtain ⟨k₂, w₂⟩ := b
        have hk' : k₁ = k₂ := hab.1
        subst hk'
        obtain ⟨hQ', hR'⟩ := hstep s t k₁ v₁ w₂ hQ hab.2
        obtain ⟨hQ'', hrest⟩ := ih hQ'
        exact ⟨hQ'', List.Forall₂.cons ⟨rfl, hR'⟩ hrest⟩
  exact key h hQ

end OrdMap
