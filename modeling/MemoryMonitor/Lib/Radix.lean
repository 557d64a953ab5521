import MemoryMonitor.Lib.Totals

/-!
# Radix trees

A map from numbers as a tree of tables with `W` slots each, which is walked from the highest
digit down. A leaf can stand at any level and then is read for all the keys below it; on the
way to a lower level it is split. Each table has a page: pages are taken from a pool on the way
down, and go back to it when a subtree is replaced.

`Shape` says how leaves are read and split, and which leaf may stand at which level. `setAt`
writes a slot; `setAt_lookup` says what is found afterwards, and `setAt_pages` where the pages
are.
-/

namespace Radix

inductive Tree (α : Type) where
  | empty
  | leaf (a : α)
  | node (page : Nat) (slots : Nat → Tree α)

/-- The leaves. -/
structure Shape (α β : Type) where
  W : Nat
  none : β
  /-- What a leaf at a level says about a key. -/
  read : Nat → α → Nat → β
  /-- The leaf for slot `i` when the leaf at a level is split. -/
  split : Nat → α → Nat → α
  /-- The leaf may stand at the level. -/
  fits : Nat → α → Prop
  pos : 0 < W
  split_fits : ∀ {k a i}, fits (k + 1) a → i < W → fits k (split (k + 1) a i)
  split_read : ∀ {k a} key, fits (k + 1) a →
    read k (split (k + 1) a (key / W ^ k % W)) key = read (k + 1) a key

/-- The pages that are used for tables, and those that can be taken. -/
structure Mem where
  pages : List Nat
  pool : List Nat

namespace Mem

def alloc (m : Mem) : Option (Nat × Mem) :=
  match m.pool with
  | [] => .none
  | p :: rest => some (p, ⟨m.pages ++ [p], rest⟩)

def free (m : Mem) (ps : List Nat) : Mem := ⟨m.pages.diff ps, m.pool ++ ps⟩

end Mem

section Trees

variable {α β : Type} (S : Shape α β)

def Shape.digit (k key : Nat) : Nat := key / S.W ^ k % S.W

/-- What is found for a key in a slot at level `k`. -/
def lookup : (k : Nat) → Tree α → (key : Nat) → β
  | _, .empty, _ => S.none
  | k, .leaf a, key => S.read k a key
  | 0, .node .., _ => S.none
  | k + 1, .node _ slots, key => lookup k (slots (S.digit k key)) key

/-- The pages of the tables below a slot, from the bottom up. -/
def pages : (k : Nat) → Tree α → List Nat
  | k + 1, .node page slots => ((List.range S.W).flatMap fun i => pages k (slots i)) ++ [page]
  | _, _ => []

/-- A table for a slot at level `k`, which may have to be allocated. -/
def grow (k : Nat) (t : Tree α) (m : Mem) : Option (Nat × (Nat → Tree α) × Mem) :=
  match t with
  | .node p slots => some (p, slots, m)
  | .empty => m.alloc.map fun r => (r.1, fun _ => .empty, r.2)
  | .leaf a => m.alloc.map fun r => (r.1, fun i => .leaf (S.split k a i), r.2)

/-- Writing a slot at level `l` from a slot at level `k`. What was done on the way down stays
even if it fails. -/
def setAt (l key : Nat) (new : Tree α) : (k : Nat) → Tree α → Mem → Tree α × Mem × Bool
  | k, t, m =>
      if k = l then (new, m.free (pages S k t), true)
      else
        match k with
        | 0 => (t, m, false)
        | k + 1 =>
            match grow S (k + 1) t m with
            | .none => (t, m, false)
            | some (p, slots, m) =>
                let r := setAt l key new k (slots (S.digit k key)) m
                (.node p (Function.update slots (S.digit k key) r.1), r.2)

/-- Leaves stand only where they may, and tables above them. -/
def Fits : Nat → Tree α → Prop
  | _, .empty => True
  | k, .leaf a => S.fits k a
  | 0, .node .. => False
  | k + 1, .node _ slots => ∀ i < S.W, Fits k (slots i)

variable {S} {k l key : Nat} {t t' new : Tree α} {m m' : Mem} {ok : Bool}

theorem digit_lt (k key : Nat) : S.digit k key < S.W := Nat.mod_lt _ S.pos

/-! ## What is found -/

theorem lookup_empty (k key : Nat) : lookup S k .empty key = S.none := by cases k <;> rfl

theorem lookup_leaf (k : Nat) (a : α) (key : Nat) : lookup S k (.leaf a) key = S.read k a key := by
  cases k <;> rfl

theorem fits_empty (k : Nat) : Fits S k .empty := by cases k <;> trivial

theorem fits_leaf (k : Nat) (a : α) : Fits S k (.leaf a) ↔ S.fits k a := by cases k <;> rfl

/-- Making room changes nothing that is found. -/
theorem grow_lookup {p : Nat} {slots : Nat → Tree α} (h : Fits S (k + 1) t)
    (hg : grow S (k + 1) t m = some (p, slots, m')) :
    (∀ key, lookup S (k + 1) (.node p slots) key = lookup S (k + 1) t key) ∧ ∀ i < S.W, Fits S k (slots i) := by
  unfold grow at hg
  cases t with
  | node p slots =>
    cases hg
    exact ⟨fun _ => rfl, h⟩
  | empty =>
    rcases Option.map_eq_some_iff.1 hg with ⟨r, -, hr⟩
    cases hr
    refine ⟨fun key => ?_, fun i _ => ?_⟩
    · exact lookup_empty k key
    · exact fits_empty k
  | leaf a =>
    have hfits : S.fits (k + 1) a := h
    rcases Option.map_eq_some_iff.1 hg with ⟨r, -, hr⟩
    cases hr
    refine ⟨fun key => ?_, fun i hi => ?_⟩
    · show lookup S k (.leaf (S.split (k + 1) a (S.digit k key))) key = S.read (k + 1) a key
      rw [← S.split_read key hfits, lookup_leaf]
      rfl
    · exact (fits_leaf k _).2 (S.split_fits hfits hi)

/-- Two keys are in the same slot of level `l` below a slot of level `k`. -/
def Same (S : Shape α β) (l k key key' : Nat) : Prop := ∀ j, l ≤ j → j < k → S.digit j key = S.digit j key'

/-- What is found after a slot is written. -/
theorem setAt_lookup (hl : l ≤ k) (h : Fits S k t) (hnew : Fits S l new)
    (hs : setAt S l key new k t m = (t', m', ok)) :
    Fits S k t' ∧
    (ok = true → ∀ key', (Same S l k key' key → lookup S k t' key' = lookup S l new key') ∧
      (¬Same S l k key' key → lookup S k t' key' = lookup S k t key')) ∧
    (ok = false → ∀ key', lookup S k t' key' = lookup S k t key') := by
  induction k generalizing t m t' m' ok with
  | zero =>
    have h0 : l = 0 := Nat.le_zero.1 hl
    subst h0
    unfold setAt at hs
    rw [if_pos rfl] at hs
    cases hs
    refine ⟨hnew, fun _ key' => ⟨fun _ => rfl, fun hne => absurd ?_ hne⟩, fun hf => Bool.noConfusion hf⟩
    exact fun j _ hj => absurd hj (Nat.not_lt_zero j)
  | succ k ih =>
    unfold setAt at hs
    split at hs
    · rename_i heq
      subst heq
      cases hs
      refine ⟨hnew, fun _ key' => ⟨fun _ => rfl, fun hne => absurd ?_ hne⟩, fun hf => Bool.noConfusion hf⟩
      exact fun j hlj hj => absurd hj (Nat.not_lt.2 hlj)
    · rename_i hne
      have hlk : l ≤ k := by omega
      dsimp only at hs
      split at hs
      · cases hs
        exact ⟨h, fun hf => Bool.noConfusion hf, fun _ _ => rfl⟩
      · rename_i p slots m₂ hgr
        rcases grow_lookup h hgr with ⟨hsame, hfits⟩
        have hchild : Fits S k (slots (S.digit k key)) := hfits _ (digit_lt k key)
        generalize hr : setAt S l key new k (slots (S.digit k key)) m₂ = r at hs
        rcases r with ⟨c, m₃, ok₃⟩
        rcases ih hlk hchild hr with ⟨hcf, hcok, hcno⟩
        cases hs
        have hnode : ∀ key', lookup S (k + 1) (.node p (Function.update slots (S.digit k key) c)) key' =
            if S.digit k key' = S.digit k key then lookup S k c key' else lookup S (k + 1) t key' := by
          intro key'
          show lookup S k (Function.update slots (S.digit k key) c (S.digit k key')) key' = _
          split
          · rename_i hd
            rw [hd, Function.update_self]
          · rename_i hd
            rw [Function.update_of_ne hd, ← hsame key']
            rfl
        -- where the path is the same, the child was found before
        have hold : ∀ key', S.digit k key' = S.digit k key →
            lookup S k (slots (S.digit k key)) key' = lookup S (k + 1) t key' := by
          intro key' hd
          rw [← hsame key', ← hd]
          rfl
        refine ⟨fun i hi => ?_, fun hok key' => ⟨fun hS => ?_, fun hS => ?_⟩, fun hok key' => ?_⟩
        · by_cases hd : i = S.digit k key
          · rw [hd, Function.update_self]
            exact hcf
          · rw [Function.update_of_ne hd]
            exact hfits i hi
        · rw [hnode, if_pos (hS k hlk (Nat.lt_succ_self k))]
          exact (hcok hok key').1 fun j hlj hj => hS j hlj (Nat.lt_succ_of_lt hj)
        · rw [hnode]
          split
          · rename_i hd
            refine ((hcok hok key').2 fun hS' => hS fun j hlj hj => ?_).trans (hold key' hd)
            rcases Nat.lt_succ_iff_lt_or_eq.1 hj with hj | hj
            · exact hS' j hlj hj
            · rw [hj]
              exact hd
          · rfl
        · rw [hnode]
          split
          · rename_i hd
            exact (hcno hok key').trans (hold key' hd)
          · rfl

/-! ## Where the pages are -/

/-- How often a page occurs below a table. -/
theorem count_pages_node (q p : Nat) (slots : Nat → Tree α) :
    (pages S (k + 1) (.node p slots)).count q =
      (∑ i ∈ Finset.range S.W, (pages S k (slots i)).count q) + [p].count q := by
  have hsum : ∀ n (g : Nat → List Nat), ((List.range n).flatMap g).count q =
      ∑ i ∈ Finset.range n, (g i).count q := by
    intro n g
    induction n with
    | zero => rfl
    | succ n ih =>
      rw [List.range_succ, List.flatMap_append, List.count_append, ih, Finset.sum_range_succ,
        List.flatMap_singleton]
  show (((List.range S.W).flatMap fun i => pages S k (slots i)) ++ [p]).count q = _
  rw [List.count_append, hsum]

theorem Mem.alloc_count {r : Nat × Mem} (h : m.alloc = some r) (q : Nat) :
    r.2.pages.count q = m.pages.count q + [r.1].count q ∧
    r.2.pages.count q + r.2.pool.count q = m.pages.count q + m.pool.count q := by
  unfold Mem.alloc at h
  split at h
  · exact absurd h (Option.some_ne_none r).symm
  · rename_i p' rest hpool
    cases h
    rw [hpool]
    dsimp only
    rw [List.count_append]
    refine ⟨rfl, ?_⟩
    rw [List.count_cons (l := rest), List.count_singleton]
    omega

theorem pages_leaf (k : Nat) (a : α) : pages S k (.leaf a) = [] := by cases k <;> rfl

theorem pages_empty (k : Nat) : pages S k (.empty : Tree α) = [] := by cases k <;> rfl

/-- The pages below a table, one slot of which is replaced. -/
theorem pages_update (S : Shape α β) (k q p : Nat) (slots : Nat → Tree α) (c : Tree α) (key : Nat) :
    (pages S (k + 1) (.node p (Function.update slots (S.digit k key) c))).count q +
        (pages S k (slots (S.digit k key))).count q =
      (pages S (k + 1) (.node p slots)).count q + (pages S k c).count q := by
  have hd := Finset.mem_range.mpr (digit_lt (S := S) k key)
  have hsum := Totals.sum_update hd slots c fun _ t => (pages S k t).count q
  rw [count_pages_node, count_pages_node]
  omega

theorem pages_slot_le (q p : Nat) (slots : Nat → Tree α) (key : Nat) :
    (pages S k (slots (S.digit k key))).count q ≤ (pages S (k + 1) (.node p slots)).count q := by
  rw [count_pages_node]
  exact Nat.le_trans (Finset.single_le_sum (f := fun i => (pages S k (slots i)).count q)
    (fun _ _ => Nat.zero_le _) (Finset.mem_range.mpr (digit_lt k key))) (Nat.le_add_right _ _)

/-- A table that is new has no tables below it. -/
theorem alloc_pages {r : Nat × Mem} {slots : Nat → Tree α} (hr : m.alloc = some r)
    (hs : ∀ i, pages S k (slots i) = []) (q : Nat) :
    (pages S (k + 1) (.node r.1 slots)).count q + m.pages.count q = 0 + r.2.pages.count q := by
  rw [count_pages_node, (Mem.alloc_count hr q).1, Finset.sum_eq_zero fun i _ => ?_]
  · omega
  · rw [hs i]
    rfl

theorem grow_pages {p : Nat} {slots : Nat → Tree α} (hg : grow S (k + 1) t m = some (p, slots, m')) (q : Nat) :
    (pages S (k + 1) (.node p slots)).count q + m.pages.count q =
      (pages S (k + 1) t).count q + m'.pages.count q ∧
    m'.pages.count q + m'.pool.count q = m.pages.count q + m.pool.count q := by
  unfold grow at hg
  cases t with
  | node p slots =>
    cases hg
    exact ⟨rfl, rfl⟩
  | empty =>
    rcases Option.map_eq_some_iff.1 hg with ⟨r, hr, hr'⟩
    cases hr'
    exact ⟨alloc_pages hr (fun _ => pages_empty k) q, (Mem.alloc_count hr q).2⟩
  | leaf a =>
    rcases Option.map_eq_some_iff.1 hg with ⟨r, hr, hr'⟩
    cases hr'
    exact ⟨alloc_pages hr (fun _ => pages_leaf k _) q, (Mem.alloc_count hr q).2⟩

/-- The pages below a slot that is overwritten go back to the pool. -/
theorem free_pages (hnew : pages S k new = []) (q : Nat) (hsub : (pages S k t).count q ≤ m.pages.count q) :
    (pages S k new).count q + m.pages.count q =
      (pages S k t).count q + (m.free (pages S k t)).pages.count q ∧
    (m.free (pages S k t)).pages.count q + (m.free (pages S k t)).pool.count q =
      m.pages.count q + m.pool.count q := by
  unfold Mem.free
  dsimp only
  rw [hnew, List.count_diff, List.count_append, List.count_nil]
  omega

/-- The pages below a slot are used as before, or were taken from the pool, or have gone back
to it. -/
theorem setAt_pages (hnew : pages S l new = []) (hl : l ≤ k) (q : Nat)
    (hsub : (pages S k t).count q ≤ m.pages.count q) (hs : setAt S l key new k t m = (t', m', ok)) :
    (pages S k t').count q + m.pages.count q = (pages S k t).count q + m'.pages.count q ∧
    m'.pages.count q + m'.pool.count q = m.pages.count q + m.pool.count q := by
  induction k generalizing t m t' m' ok with
  | zero =>
    have h0 : l = 0 := Nat.le_zero.1 hl
    subst h0
    unfold setAt at hs
    rw [if_pos rfl] at hs
    cases hs
    exact free_pages hnew q hsub
  | succ k ih =>
    unfold setAt at hs
    split at hs
    · rename_i heq
      subst heq
      cases hs
      exact free_pages hnew q hsub
    · rename_i hne
      dsimp only at hs
      split at hs
      · cases hs
        exact ⟨rfl, rfl⟩
      · rename_i p slots m₂ hgr
        rcases grow_pages hgr q with ⟨hg1, hg2⟩
        generalize hr : setAt S l key new k (slots (S.digit k key)) m₂ = r at hs
        rcases r with ⟨c, m₃, ok₃⟩
        have hle := pages_slot_le (S := S) (k := k) q p slots key
        rcases ih (by omega) (by omega) hr with ⟨hc1, hc2⟩
        cases hs
        have hupdate := pages_update S k q p slots c key
        dsimp only
        omega

/-! ## Up to a bound -/

/-- A lookup that stops at `top`. -/
def seek (S : Shape α β) (k : Nat) (t : Tree α) (top key : Nat) : β :=
  if top < key then S.none else lookup S k t key

/-- The tree is well formed, has nothing where lookups do not go, and each table has a page of its own. -/
structure Below (S : Shape α β) (k limit : Nat) (t : Tree α) (m : Mem) (top : Nat) : Prop where
  fits : Fits S k t
  hidden : ∀ key < limit, top < key → lookup S k t key = S.none
  bound : top < limit
  pages : ∀ q, (pages S k t).count q = m.pages.count q ∧ m.pages.count q + m.pool.count q ≤ 1

namespace Below

variable {limit top first n : Nat}

theorem seek_eq (h : Below S k limit t m top) (key : Nat) :
    seek S k t top key = if key < limit then lookup S k t key else S.none := by
  unfold seek
  have hb := h.bound
  split
  · rename_i hlt
    split
    · rename_i hkey
      exact (h.hidden key hkey hlt).symm
    · rfl
  · rename_i hle
    rw [if_pos (by omega)]

theorem init {p : Nat} {pool : List Nat} (hlimit : 0 < limit) (hnodup : (p :: pool).Nodup) :
    Below S (k + 1) limit (.node p fun _ => .empty : Tree α) ⟨[p], pool⟩ 0 := by
  refine ⟨fun i _ => fits_empty k, fun key _ _ => lookup_empty k key, hlimit, fun q => ⟨?_, ?_⟩⟩
  · have hz : ∑ i ∈ Finset.range S.W, (Radix.pages S k (.empty : Tree α)).count q = 0 :=
      Finset.sum_eq_zero fun i _ => by rw [pages_empty, List.count_nil]
    rw [count_pages_node, hz, Nat.zero_add]
  · have hone := List.nodup_iff_count_le_one.1 hnodup q
    show [p].count q + pool.count q ≤ 1
    rw [← List.count_append]
    exact hone

theorem setPool (h : Below S k limit t m top) {pool : List Nat} (hnodup : (m.pages ++ pool).Nodup) :
    Below S k limit t ⟨m.pages, pool⟩ top := by
  refine ⟨h.fits, h.hidden, h.bound, fun q => ⟨(h.pages q).1, ?_⟩⟩
  have hone := List.nodup_iff_count_le_one.1 hnodup q
  rw [List.count_append] at hone
  exact hone

/-- The tree is rebuilt, and nothing else is found in it. -/
theorem keep (h : Below S k limit t m top) (hfits : Fits S k t') (hlook : ∀ key, lookup S k t' key = lookup S k t key)
    (hpages : ∀ q, (Radix.pages S k t').count q = m'.pages.count q ∧ m'.pages.count q + m'.pool.count q ≤ 1) :
    Below S k limit t' m' top ∧ ∀ key, seek S k t' top key = seek S k t top key := by
  refine ⟨⟨hfits, fun key hkey htop => (hlook key).trans (h.hidden key hkey htop), h.bound, hpages⟩, fun key => ?_⟩
  unfold seek
  rw [hlook key]

/-- A range is set. The bound is raised to its end under `p`; else nothing new is above it. -/
theorem set {f : Nat → β} {p : Prop} [Decidable p] (h : Below S k limit t m top) (hfits : Fits S k t')
    (hlook : ∀ key < limit, lookup S k t' key =
      if first ≤ key ∧ key < first + n then f key else lookup S k t key)
    (hpages : ∀ q, (Radix.pages S k t').count q = m'.pages.count q ∧ m'.pages.count q + m'.pool.count q ≤ 1)
    (hend : first + n ≤ limit) (hcovered : p ∨ first + n - 1 ≤ top ∨ ∀ key, f key = S.none) :
    Below S k limit t' m' (if p ∧ top < first + n - 1 then first + n - 1 else top) ∧
      ∀ key, seek S k t' (if p ∧ top < first + n - 1 then first + n - 1 else top) key =
        if first ≤ key ∧ key < first + n then f key else seek S k t top key := by
  have hb := h.bound
  have hbelow : Below S k limit t' m' (if p ∧ top < first + n - 1 then first + n - 1 else top) := by
    refine ⟨hfits, fun key hkey htop => ?_, by split <;> omega, hpages⟩
    have hold : top < key := by split at htop <;> omega
    rw [hlook key hkey]
    split
    · rename_i hin
      rcases hcovered with hp | hle | hnone
      · split at htop
        · omega
        · rename_i hnot
          rw [not_and] at hnot
          have := hnot hp
          omega
      · omega
      · exact hnone key
    · exact h.hidden key hkey hold
  refine ⟨hbelow, fun key => ?_⟩
  rw [hbelow.seek_eq, h.seek_eq]
  split
  · rename_i hkey
    exact hlook key hkey
  · rw [if_neg (by omega)]

end Below

end Trees

end Radix
