import MemoryMonitor.Lib.Radix
import MemoryMonitor.Lib.Runs
import MemoryMonitor.P2m.Map

/-!
# The p2m table

`p2m_next_level`, `p2m_free_entry`, `p2m_set_entry` and `p2m_gfn_to_mfn` with `p2m_query`
(`xen/arch/x86/mm/p2m.c`, four levels): a radix tree of page tables whose leaves stand at three
levels. The table is meant to be a map from frames to entries, and `Implements` says what that
means for one `p2m_set_entry`.

A lookup does not go beyond `max_mapped_pfn`, which moves only when a valid frame is set; a
superpage with an odd frame number is split as if it had the flag `_PAGE_PSE_PAT`; and the index
into the top level is cut to 32 bits. Calls for which one of these matters are not `fine`.
-/

namespace P2m

namespace P2mType

/-- `p2m_is_valid`: RAM or MMIO. -/
def isValid (t : P2mType) : Bool := t.isRam || decide (t = .mmioDm) || decide (t = .mmioDirect)

end P2mType

namespace Table

/-- A leaf: the frame, and the type that is in the flags. -/
structure Leaf where
  mfn : Nat
  type : P2mType
  deriving DecidableEq

/-- What `p2m_gfn_to_mfn` makes of a leaf in a table of level `k + 1`. -/
def Leaf.read (k : Nat) (e : Leaf) (gfn : Nat) : Entry :=
  if e.type.present then
    if k = 0 then ⟨if e.type.isValid || e.type.isGrant then e.mfn else invalidMfn, e.type⟩
    else ⟨if e.type.isValid then e.mfn + gfn % 512 ^ k else invalidMfn, e.type⟩
  else if e.type = .populateOnDemand then ⟨invalidMfn, .populateOnDemand⟩
  else .unmapped

/-- `p2m_next_level` splits a superpage. -/
def Leaf.split (k : Nat) (e : Leaf) (i : Nat) : Leaf :=
  if k = 1 then ⟨(if e.mfn % 2 = 1 then e.mfn - 1 else e.mfn) + i, e.type⟩
  else ⟨e.mfn + i * 512, e.type⟩

/-- The leaf can be split without harm, and stands at most at level 2 (1GB). -/
def Leaf.Fits (k : Nat) (e : Leaf) : Prop :=
  k ≤ 2 ∧ (0 < k → e.type.present = true → e.mfn % 2 = 0 ∧ e.type.isGrant = false)

theorem present_valid {t : P2mType} (hp : t.present = true) (hg : t.isGrant = false) : t.isValid = true := by
  cases t <;> first | rfl | exact absurd hp (by decide) | exact absurd hg (by decide)

theorem Leaf.split_fits {k : Nat} {e : Leaf} {i : Nat} (h : e.Fits (k + 1)) (_ : i < 512) :
    (e.split (k + 1) i).Fits k := by
  rcases h with ⟨hk, heven⟩
  unfold Leaf.split
  split
  · rename_i h1
    exact ⟨by omega, fun hpos => by omega⟩
  · refine ⟨by omega, fun _ hp => ?_⟩
    rcases heven (Nat.succ_pos k) hp with ⟨h2, hg⟩
    exact ⟨by dsimp only; omega, hg⟩

theorem Leaf.split_read {k : Nat} {e : Leaf} (gfn : Nat) (h : e.Fits (k + 1)) :
    (e.split (k + 1) (gfn / 512 ^ k % 512)).read k gfn = e.read (k + 1) gfn := by
  rcases h with ⟨hk, heven⟩
  have htype : ∀ i, (e.split (k + 1) i).type = e.type := by
    intro i
    unfold Leaf.split
    split <;> rfl
  unfold Leaf.read
  rw [htype]
  split
  · rename_i hp
    rcases heven (Nat.succ_pos k) hp with ⟨h2, hg⟩
    have hv := present_valid hp hg
    rw [hv, if_neg (Nat.succ_ne_zero k), if_pos rfl]
    have hcase : k = 0 ∨ k = 1 := by omega
    rcases hcase with rfl | rfl
    · have hs : (e.split 1 (gfn / 512 ^ 0 % 512)).mfn = e.mfn + gfn % 512 ^ 1 := by
        unfold Leaf.split
        rw [if_pos rfl, if_neg (by omega)]
        simp
      rw [if_pos rfl, hs]
      rfl
    · have hs : (e.split 2 (gfn / 512 ^ 1 % 512)).mfn + gfn % 512 ^ 1 = e.mfn + gfn % 512 ^ 2 := by
        unfold Leaf.split
        rw [if_neg (by decide)]
        dsimp only
        omega
      rw [if_neg (by decide), if_pos rfl, hs]
  · rfl

/-- The p2m as a tree of tables with 512 slots. -/
def shape : Radix.Shape Leaf Entry where
  W := 512
  none := .unmapped
  read := Leaf.read
  split := Leaf.split
  fits := Leaf.Fits
  pos := by decide
  split_fits := Leaf.split_fits
  split_read := Leaf.split_read

end Table

/-- A p2m table: the tree with its root table, `p2m->pages` with the pool they come from, and
`max_mapped_pfn`. -/
structure Table where
  root : Radix.Tree Table.Leaf
  mem : Radix.Mem
  maxMapped : Nat
  mfnValid : Nat → Bool

namespace Table

/-- `p2m_gfn_to_mfn`. -/
def gfnToMfn (s : Table) (gfn : Nat) : Entry :=
  if s.maxMapped < gfn then .unmapped else Radix.lookup shape 4 s.root gfn

/-- The entry of a level is written, and is not emptied. -/
def stores (s : Table) (mfn level : Nat) (t : P2mType) : Bool :=
  s.mfnValid mfn || (decide (level = 0) && decide (t = .mmioDirect)) ||
    (decide (level = 1) && decide (t = .populateOnDemand))

/-- What is written. -/
def content (s : Table) (mfn level : Nat) (t : P2mType) : Radix.Tree Leaf :=
  if s.stores mfn level t then .leaf ⟨mfn, t⟩ else .empty

/-- `p2m_set_entry` for the order `9 * level`. The index into the top level is a `u32`. -/
def setEntry (s : Table) (gfn mfn level : Nat) (t : P2mType) : Table × Bool :=
  if 512 ≤ gfn / 2 ^ 27 % 2 ^ 32 then (s, false)
  else
    let r := Radix.setAt shape level gfn (s.content mfn level t) 4 s.root s.mem
    if r.2.2 then
      ({ s with
        root := r.1, mem := r.2.1
        maxMapped :=
          if s.mfnValid mfn ∧ s.maxMapped < gfn + 512 ^ level - 1 then gfn + 512 ^ level - 1
          else s.maxMapped },
       true)
    else ({ s with root := r.1, mem := r.2.1 }, false)

/-- A table with nothing but its root, and a pool of pages. -/
structure Fresh where
  page : Nat
  pool : List Nat
  nodup : (page :: pool).Nodup

def init (f : Fresh) (mfnValid : Nat → Bool) : Table where
  root := .node f.page fun _ => .empty
  mem := ⟨[f.page], f.pool⟩
  maxMapped := 0
  mfnValid := mfnValid

/-- An entry is set, or the pool changes between calls. -/
inductive Step where
  | setEntry (gfn mfn : Nat) (level : Fin 3) (t : P2mType)
  | setPool (pool : List Nat)

def act (step : Step) (s : Table) : Table :=
  match step with
  | .setEntry gfn mfn level t => (s.setEntry gfn mfn level t).1
  | .setPool pool =>
      if (s.mem.pages ++ pool).Nodup then { s with mem := ⟨s.mem.pages, pool⟩ } else s

/-! ## The property -/

/-- A call that succeeds maps the range, and one that fails maps nothing. -/
def Implements (step : Step) (s : Table) : Prop :=
  match step with
  | .setEntry gfn mfn level t =>
      ((s.setEntry gfn mfn level t).2 = true → ∀ g, (s.setEntry gfn mfn level t).1.gfnToMfn g =
        if gfn ≤ g ∧ g < gfn + 512 ^ level.val then .of (mfn + (g - gfn)) t else s.gfnToMfn g) ∧
      ((s.setEntry gfn mfn level t).2 = false → ∀ g,
        (s.setEntry gfn mfn level t).1.gfnToMfn g = s.gfnToMfn g)
  | .setPool pool => ∀ g, (act (.setPool pool) s).gfnToMfn g = s.gfnToMfn g

/-- Every table that can be reached has a page of its own, and those are the pages that are
allocated. -/
def Allocated (s : Table) : Prop :=
  ∀ q, (Radix.pages shape 4 s.root).count q = s.mem.pages.count q ∧
    s.mem.pages.count q + s.mem.pool.count q ≤ 1

/-- The call is for an aligned frame that has an index; its entry is stored, unless nothing is
mapped anyway, and lies where lookups go; and a superpage has an even frame and is no grant. -/
def Fine (step : Step) (s : Table) : Prop :=
  match step with
  | .setEntry gfn mfn level t =>
      gfn % 512 ^ level.val = 0 ∧ (gfn < maxGfn ∨ 512 ≤ gfn / 2 ^ 27 % 2 ^ 32) ∧
      ((t.present = false ∧ t ≠ .populateOnDemand) ∨
        s.stores mfn level t = true ∧ (s.mfnValid mfn = true ∨ gfn + 512 ^ level.val - 1 ≤ s.maxMapped)) ∧
      (0 < level.val → t.present = true → mfn % 2 = 0 ∧ t.isGrant = false)
  | .setPool _ => True

/-! ## The invariant -/

/-- The tree is well formed below its root, and has nothing where lookups do not go. -/
abbrev Inv (s : Table) : Prop := Radix.Below shape 4 maxGfn s.root s.mem s.maxMapped

variable {s : Table} {gfn mfn : Nat} {level : Fin 3} {t : P2mType}

theorem digit_eq (k g : Nat) : shape.digit k g = g / 512 ^ k % 512 := rfl

/-- Two frames are in the same slot if they differ only below its level. -/
theorem same_iff (level : Fin 3) {g : Nat} (hg : g < maxGfn) (hgfn : gfn < maxGfn) (halign : gfn % 512 ^ level.val = 0) :
    Radix.Same shape level.val 4 g gfn ↔ gfn ≤ g ∧ g < gfn + 512 ^ level.val := by
  unfold Radix.Same
  unfold maxGfn at hg hgfn
  simp only [digit_eq]
  rcases level with ⟨l, hl⟩
  have hcase : l = 0 ∨ l = 1 ∨ l = 2 := by omega
  constructor
  · intro h
    have h3 := h 3 (by dsimp only; omega) (by decide)
    have h2 := h 2 (by dsimp only; omega) (by decide)
    rcases hcase with rfl | rfl | rfl
    · have h1 := h 1 (Nat.zero_le 1) (by decide)
      have h0 := h 0 (Nat.le_refl 0) (by decide)
      dsimp only at halign ⊢
      omega
    · have h1 := h 1 (Nat.le_refl 1) (by decide)
      dsimp only at halign ⊢
      omega
    · dsimp only at halign ⊢
      omega
  · intro h j hlj hj
    have hjcase : j = 0 ∨ j = 1 ∨ j = 2 ∨ j = 3 := by omega
    rcases hcase with rfl | rfl | rfl <;> dsimp only at h halign hlj <;>
      rcases hjcase with rfl | rfl | rfl | rfl <;> omega

theorem content_read (hfine : Fine (.setEntry gfn mfn level t) s) {g : Nat} (hin : gfn ≤ g ∧ g < gfn + 512 ^ level.val) :
    Radix.lookup shape level.val (s.content mfn level t) g = .of (mfn + (g - gfn)) t := by
  rcases hfine with ⟨halign, -, hkept, heven⟩
  unfold content
  by_cases hnone : t.present = false ∧ t ≠ .populateOnDemand
  · -- nothing is mapped, whether it is stored or not
    have hof : Entry.of (mfn + (g - gfn)) t = .unmapped := by
      unfold Entry.of
      rw [hnone.1, if_neg Bool.false_ne_true, if_neg hnone.2]
    rw [hof]
    split
    · rw [Radix.lookup_leaf]
      show Leaf.read _ _ _ = _
      unfold Leaf.read
      rw [hnone.1, if_neg Bool.false_ne_true, if_neg hnone.2]
    · exact Radix.lookup_empty ..
  · rw [if_pos (hkept.resolve_left hnone).1, Radix.lookup_leaf]
    show Leaf.read _ _ _ = _
    unfold Leaf.read Entry.of
    dsimp only
    split
    · rename_i hp
      split
      · rename_i h0
        have hvalid : (t.isValid || t.isGrant) = true := by
          cases hg : t.isGrant with
          | true => exact Bool.or_true _
          | false => rw [present_valid hp hg, Bool.true_or]
        have hg : g = gfn := by
          rw [h0] at hin
          omega
        rw [if_pos hvalid, hg, Nat.sub_self, Nat.add_zero]
      · rename_i h0
        rcases heven (Nat.pos_of_ne_zero h0) hp with ⟨-, hgr⟩
        have hrest : g % 512 ^ level.val = g - gfn := by
          rcases Nat.exists_eq_add_of_le hin.1 with ⟨d, hd⟩
          rw [hd, Nat.add_mod, halign, Nat.zero_add, Nat.mod_mod, Nat.mod_eq_of_lt (by omega)]
          omega
        rw [if_pos (present_valid hp hgr), hrest]
    · rfl

theorem content_fits (hfine : Fine (.setEntry gfn mfn level t) s) :
    Radix.Fits shape level.val (s.content mfn level t) := by
  unfold content
  split
  · exact (Radix.fits_leaf ..).2 ⟨by omega, hfine.2.2.2⟩
  · exact Radix.fits_empty _

theorem content_pages : Radix.pages shape level.val (s.content mfn level t) = [] := by
  unfold content
  rcases level with ⟨l, hl⟩
  split <;> cases l <;> rfl

theorem Inv.setAt (h : Inv s) (hfine : Fine (.setEntry gfn mfn level t) s) (hgfn : gfn < maxGfn)
    {root : Radix.Tree Leaf} {mem : Radix.Mem} {ok : Bool}
    (hs : Radix.setAt shape level.val gfn (s.content mfn level t) 4 s.root s.mem = (root, mem, ok)) :
    Radix.Fits shape 4 root ∧
    (ok = true → ∀ g < maxGfn, Radix.lookup shape 4 root g =
      if gfn ≤ g ∧ g < gfn + 512 ^ level.val then .of (mfn + (g - gfn)) t
      else Radix.lookup shape 4 s.root g) ∧
    (ok = false → ∀ g, Radix.lookup shape 4 root g = Radix.lookup shape 4 s.root g) ∧
    ∀ q, (Radix.pages shape 4 root).count q = mem.pages.count q ∧ mem.pages.count q + mem.pool.count q ≤ 1 := by
  have hl : level.val ≤ 4 := by omega
  rcases Radix.setAt_lookup hl h.fits (content_fits hfine) hs with ⟨hfits, hok, hno⟩
  refine ⟨hfits, fun htrue g hg => ?_, hno, fun q => ?_⟩
  · have hsame := same_iff level hg hgfn hfine.1
    split
    · rename_i hin
      rw [(hok htrue g).1 (hsame.2 hin)]
      exact content_read hfine hin
    · rename_i hout
      exact (hok htrue g).2 fun hS => hout (hsame.1 hS)
  · rcases h.pages q with ⟨hcount, hone⟩
    rcases Radix.setAt_pages content_pages hl q (Nat.le_of_eq hcount) hs with ⟨h1, h2⟩
    omega

/-- The range ends where the lookups go. -/
theorem range_lt (hgfn : gfn < maxGfn) (halign : gfn % 512 ^ level.val = 0) : gfn + 512 ^ level.val ≤ maxGfn := by
  unfold maxGfn at hgfn ⊢
  rcases level with ⟨l, hl⟩
  have hcase : l = 0 ∨ l = 1 ∨ l = 2 := by omega
  rcases hcase with rfl | rfl | rfl <;> dsimp only at halign ⊢ <;> omega

theorem Inv.setEntry (h : Inv s) (hfine : Fine (.setEntry gfn mfn level t) s) :
    Inv (act (.setEntry gfn mfn level t) s) ∧ Implements (.setEntry gfn mfn level t) s := by
  unfold Implements Table.act Table.setEntry
  dsimp only
  split
  · exact ⟨h, fun hf => absurd hf Bool.false_ne_true, fun _ _ => rfl⟩
  · rename_i hindex
    have hgfn : gfn < maxGfn := hfine.2.1.resolve_right hindex
    generalize hr : Radix.setAt shape level.val gfn (s.content mfn level t) 4 s.root s.mem = r
    rcases r with ⟨root, mem, ok⟩
    rcases h.setAt hfine hgfn hr with ⟨hfits, hok, hno, hpages⟩
    dsimp only
    split
    · rename_i htrue
      -- what is mapped is not above `max_mapped_pfn`
      have hcovered : s.mfnValid mfn = true ∨ gfn + 512 ^ level.val - 1 ≤ s.maxMapped ∨
          ∀ g, Entry.of (mfn + (g - gfn)) t = .unmapped := by
        rcases hfine.2.2.1 with ⟨hp, hpod⟩ | ⟨-, hv | hle⟩
        · refine .inr (.inr fun g => ?_)
          unfold Entry.of
          rw [hp, if_neg Bool.false_ne_true, if_neg hpod]
        · exact .inl hv
        · exact .inr (.inl hle)
      rcases h.set hfits (hok htrue) hpages (range_lt hgfn hfine.1) hcovered with ⟨hinv, hseek⟩
      exact ⟨hinv, fun _ => hseek, fun hf => absurd hf.symm Bool.false_ne_true⟩
    · rename_i hfalse
      rcases h.keep hfits (hno (Bool.eq_false_iff.2 hfalse)) hpages with ⟨hinv, hseek⟩
      exact ⟨hinv, fun hf => absurd hf Bool.false_ne_true, fun _ => hseek⟩

theorem Inv.setPool (h : Inv s) (pool : List Nat) : Inv (act (.setPool pool) s) := by
  unfold act
  dsimp only
  split
  · rename_i hnodup
    exact Radix.Below.setPool h hnodup
  · exact h

theorem Inv.act (step : Step) (s : Table) (hfine : Fine step s) (h : Inv s) :
    Inv (act step s) ∧ Implements step s := by
  cases step with
  | setEntry gfn mfn level t => exact h.setEntry hfine
  | setPool pool =>
    refine ⟨h.setPool pool, fun g => ?_⟩
    unfold Table.act
    dsimp only
    split <;> rfl

theorem Inv.init (f : Fresh) (mfnValid : Nat → Bool) : Inv (init f mfnValid) :=
  Radix.Below.init (by decide) f.nodup

/-- In every run of fine calls, each call does to the map what it should, and every table is
allocated once. -/
theorem run_implements (f : Fresh) (mfnValid : Nat → Bool) (steps : List Step)
    (h : Runs.Each act Fine steps (init f mfnValid)) :
    Runs.Each act Implements steps (init f mfnValid) ∧ Allocated (Runs.run act steps (init f mfnValid)) := by
  have hstep : ∀ step s, Fine step s → Inv s → Inv (Table.act step s) := fun step s hf hi => (Inv.act step s hf hi).1
  refine ⟨h.of_inv hstep (fun step s hf hi => (Inv.act step s hf hi).2) (Inv.init f mfnValid), ?_⟩
  exact (h.inv hstep (Inv.init f mfnValid)).pages

def fourPages : Fresh where
  page := 9
  pool := [10, 11, 12]
  nodup := by decide

local instance neZero_levels : NeZero 3 := ⟨by decide⟩

/-- A superpage is mapped, and then one frame in it is mapped anew. -/
def splitUp : List Step :=
  [.setEntry 512 1024 1 .ramRw, .setEntry 515 7 0 .ramRo]

theorem run_implements_splitUp :
    ((Runs.run act splitUp (init fourPages (· < 4096))).gfnToMfn 514,
      (Runs.run act splitUp (init fourPages (· < 4096))).gfnToMfn 515) = (⟨1026, .ramRw⟩, ⟨7, .ramRo⟩) ∧
    Allocated (Runs.run act splitUp (init fourPages (· < 4096))) := by
  refine ⟨by decide +kernel, (run_implements fourPages _ splitUp ⟨?_, ?_, trivial⟩).2⟩
  · exact ⟨by decide, .inl (by decide), .inr ⟨by decide, .inl (by decide)⟩, fun _ _ => by decide⟩
  · exact ⟨by decide, .inl (by decide), .inr ⟨by decide +kernel, .inl (by decide +kernel)⟩,
      fun h => absurd h (by decide)⟩

/-- A populate-on-demand entry has no frame. -/
theorem populateOnDemand_no_frame :
    ((init fourPages (· < 4096)).setEntry 0 512 1 .populateOnDemand).2 = true ∧
    ((init fourPages (· < 4096)).setEntry 0 512 1 .populateOnDemand).1.gfnToMfn 0 ≠
      ⟨512, .populateOnDemand⟩ := by
  decide +kernel

/-- A frame of a device is set, but not found, as `max_mapped_pfn` has not moved; it is found when a frame of
RAM is set above it. -/
theorem device_frame_not_found :
    ((init fourPages (· < 4096)).setEntry 5 9000 0 .mmioDirect).2 = true ∧
    ((init fourPages (· < 4096)).setEntry 5 9000 0 .mmioDirect).1.gfnToMfn 5 = .unmapped ∧
    (Runs.run act [.setEntry 5 9000 0 .mmioDirect, .setEntry 6 7 0 .ramRw]
      (init fourPages (· < 4096))).gfnToMfn 5 = ⟨9000, .mmioDirect⟩ := by
  decide +kernel

end Table

end P2m
