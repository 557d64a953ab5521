import MemoryMonitor.Lib.RadixSplit
import MemoryMonitor.P2m.Table

/-!
# The p2m in an extended page table

`ept_next_level`, `ept_split_super_page`, `ept_free_entry`, `ept_set_entry` and `ept_get_entry` with
`p2m_query` (`xen/arch/x86/mm/hap/p2m-ept.c`, four levels). An entry has a frame of 40 bits, a type, an
access restriction, and the permissions that follow from these. `Implements` says what one
`ept_set_entry` is meant to do to the map that lookups see.

Above the lowest level an entry without any permission is taken for one that is not there, unless it is
populate on demand. In the branch that splits a superpage an invalid frame is entered like a valid one. And a
lookup does not go beyond `max_mapped_pfn`, which moves only when a valid frame is set. Calls for which
one of these matters are not `Fine`.
-/

namespace P2m.Ept

/-- `p2m_access_t`. -/
inductive Access where
  | n | r | w | rw | x | rx | wx | rwx | rx2rw
  deriving DecidableEq

/-- The bits `r`, `w` and `x`. -/
structure Flags where
  r : Bool
  w : Bool
  x : Bool
  deriving DecidableEq

/-- An entry that is not a table. -/
structure Leaf where
  mfn : Nat
  type : P2mType
  access : Access
  deriving DecidableEq

variable (ro : Nat → Bool)

namespace Leaf

/-- The type's part of `ept_p2m_type_to_flags`; `ro` is `mmio_ro_ranges`. -/
def typeFlags (e : Leaf) : Flags :=
  match e.type with
  | .ramRw => ⟨true, true, true⟩
  | .mmioDirect => ⟨true, !ro e.mfn, true⟩
  | .ramLogdirty | .ramRo | .ramShared => ⟨true, false, true⟩
  | .grantMapRw => ⟨true, true, false⟩
  | .grantMapRo => ⟨true, false, false⟩
  | _ => ⟨false, false, false⟩

/-- `ept_p2m_type_to_flags`. -/
def flags (e : Leaf) : Flags :=
  let f := e.typeFlags ro
  match e.access with
  | .n => ⟨false, false, false⟩
  | .r => { f with w := false, x := false }
  | .w => { f with r := false, x := false }
  | .x => { f with r := false, w := false }
  | .rx | .rx2rw => { f with w := false }
  | .wx => { f with r := false }
  | .rw => { f with x := false }
  | .rwx => f

/-- `is_epte_present`. -/
def present (e : Leaf) : Bool := (e.flags ro).r || (e.flags ro).w || (e.flags ro).x

/-- One of the entries that `ept_split_super_page` makes of an entry at a level. -/
def split (k : Nat) (e : Leaf) (i : Nat) : Leaf :=
  { e with mfn := (e.mfn + i * 512 ^ (k - 1)) % 2 ^ 40 }

end Leaf

/-- What a lookup returns: the frame, the type and the access. -/
structure Seen where
  mfn : Nat
  type : P2mType
  access : Access
  deriving DecidableEq

/-- Nothing is mapped, or it is to be populated. -/
def Seen.unmapped : Seen := ⟨invalidMfn, .mmioDm, .n⟩
def Seen.pod : Seen := ⟨invalidMfn, .populateOnDemand, .n⟩

/-- What there is to be seen of a frame. An entry that is populate on demand has none, and `p2m_invalid` is
nothing mapped. -/
def Seen.of (mfn : Nat) (type : P2mType) (access : Access) : Seen :=
  if type = .populateOnDemand then .pod
  else if type = .invalid then .unmapped
  else ⟨mfn, type, access⟩

/-- What `ept_get_entry` makes of an entry at a level. -/
def Leaf.read (k : Nat) (e : Leaf) (gfn : Nat) : Seen :=
  if 0 < k && !e.present ro then
    if e.type = .populateOnDemand then .pod else .unmapped
  else .of (e.mfn + gfn % 512 ^ k) e.type e.access

/-- `ept_next_level` finds a superpage, or populate on demand. -/
def opens (_ : Nat) (e : Leaf) : Bool := e.present ro || e.type = .populateOnDemand

/-- An entry that looks like what it is, also when it is split. -/
def Leaf.Shown (k : Nat) (e : Leaf) : Prop :=
  e.type = .populateOnDemand ∨ e.type = .invalid ∨
    ∀ j < 512 ^ (k - 1), Leaf.present ro { e with mfn := e.mfn + j * 512 } = true

/-- An entry that can stand at the level. -/
structure Leaf.Fits (k : Nat) (e : Leaf) : Prop where
  level : k ≤ 2
  aligned : 512 ^ k ∣ e.mfn
  lt : e.mfn < 2 ^ 40
  shown : 0 < k → e.Shown ro k

/-! ## The tree -/

section Leaves

variable {ro} {k i : Nat} {e : Leaf}

/-- Some types have no permissions at all. -/
theorem Leaf.present_of_type (h : e.type = .populateOnDemand ∨ e.type = .invalid) : e.present ro = false := by
  obtain ⟨mfn, type, access⟩ := e
  unfold present flags typeFlags
  rcases h with h | h <;> dsimp only at h <;> subst h <;> cases access <;> rfl

/-- The frame of an entry that a superpage is split into. -/
theorem Leaf.split_mfn (h : e.Fits ro (k + 1)) (hi : i < 512) : (e.split (k + 1) i).mfn = e.mfn + i * 512 ^ k := by
  have hlevel := h.level
  have hlt := h.lt
  have haligned := h.aligned
  unfold Leaf.split
  dsimp only
  have hk : k = 0 ∨ k = 1 := by omega
  rcases hk with rfl | rfl
  · simp only [Nat.zero_add, Nat.pow_one] at haligned
    simp only [Nat.zero_add, Nat.sub_self, Nat.pow_zero]
    exact Nat.mod_eq_of_lt (by omega)
  · simp only [Nat.reduceAdd, Nat.reducePow] at haligned
    simp only [Nat.reduceAdd, Nat.reduceSub, Nat.pow_one]
    exact Nat.mod_eq_of_lt (by omega)

theorem Leaf.split_fits (h : e.Fits ro (k + 1)) (hi : i < 512) : (e.split (k + 1) i).Fits ro k := by
  have hlevel := h.level
  have haligned := h.aligned
  have hmfn := Leaf.split_mfn h hi
  have hk : k = 0 ∨ k = 1 := by omega
  refine ⟨by omega, ?_, Nat.mod_lt _ (by decide), fun hpos => ?_⟩
  · rw [hmfn]
    rcases hk with rfl | rfl
    · simp
    · simp only [Nat.reduceAdd, Nat.reducePow, Nat.pow_one] at haligned ⊢
      omega
  · have hk1 : k = 1 := by omega
    subst hk1
    rcases h.shown (by omega) with hpod | hinv | hall
    · exact .inl hpod
    · exact .inr (.inl hinv)
    · refine .inr (.inr fun j hj => ?_)
      have hj0 : j = 0 := by simpa using hj
      have := hall i (by simpa using hi)
      subst hj0
      rw [Nat.zero_mul, Nat.add_zero, hmfn]
      rw [Nat.pow_one]
      exact this

theorem Leaf.split_read (gfn : Nat) (h : e.Fits ro (k + 1)) :
    (e.split (k + 1) (gfn / 512 ^ k % 512)).read ro k gfn = e.read ro (k + 1) gfn := by
  have hi : gfn / 512 ^ k % 512 < 512 := Nat.mod_lt _ (by decide)
  have hmfn := Leaf.split_mfn h hi
  have hfits := Leaf.split_fits h hi
  have hoffset : gfn / 512 ^ k % 512 * 512 ^ k + gfn % 512 ^ k = gfn % 512 ^ (k + 1) := by
    rw [Nat.pow_succ, Nat.mod_mul, Nat.mul_comm (512 ^ k)]
    omega
  have htype : (e.split (k + 1) (gfn / 512 ^ k % 512)).type = e.type := rfl
  have haccess : (e.split (k + 1) (gfn / 512 ^ k % 512)).access = e.access := rfl
  unfold Leaf.read
  rw [hmfn, Nat.add_assoc, hoffset, htype, haccess]
  rcases h.shown (Nat.succ_pos k) with hpod | hinv | hall
  · -- it is populate on demand at any level
    unfold Seen.of
    rw [Leaf.present_of_type (e := e) (.inl hpod), hpod]
    simp
  · unfold Seen.of
    rw [Leaf.present_of_type (e := e) (.inr hinv), hinv]
    simp
  · have hpresent : e.present ro = true := by
      have := hall 0 (Nat.pow_pos (by decide))
      simpa using this
    have hchild : (decide (0 < k) && !(e.split (k + 1) (gfn / 512 ^ k % 512)).present ro) = false := by
      by_cases hk : 0 < k
      · rcases hfits.shown hk with hpod | hinv | hall'
        · rw [Leaf.present_of_type (e := e) (.inl hpod)] at hpresent
          exact absurd hpresent Bool.false_ne_true
        · rw [Leaf.present_of_type (e := e) (.inr hinv)] at hpresent
          exact absurd hpresent Bool.false_ne_true
        · have := hall' 0 (Nat.pow_pos (by decide))
          simp only [Nat.zero_mul, Nat.add_zero] at this
          rw [this]
          simp
      · rw [decide_eq_false hk, Bool.false_and]
    rw [hchild, hpresent]
    simp

end Leaves

/-- The p2m as a tree of tables with 512 slots. -/
def shape : Radix.Shape Leaf Seen where
  W := 512
  none := .unmapped
  read := Leaf.read ro
  split := Leaf.split
  fits := Leaf.Fits ro
  pos := Table.shape.pos
  split_fits := Leaf.split_fits
  split_read := Leaf.split_read

theorem closed : Radix.Closed (shape ro) (opens ro) := by
  intro k e _ hclosed gfn
  unfold opens at hclosed
  rw [Bool.or_eq_false_iff, decide_eq_false_iff_not] at hclosed
  change Leaf.read ro (k + 1) e gfn = .unmapped
  unfold Leaf.read
  rw [hclosed.1, if_pos (by simp), if_neg hclosed.2]


/-! ## The operations -/

end P2m.Ept

namespace P2m

/-- The extended page table of a domain, `p2m->pages` with the pool they come from, and `max_mapped_pfn`. -/
structure Ept where
  root : Radix.Tree Ept.Leaf
  mem : Radix.Mem
  maxMapped : Nat
  mfnValid : Nat → Bool

namespace Ept

section Operations

variable (ro : Nat → Bool)

/-- `ept_get_entry` with `p2m_query`. -/
def getEntry (s : Ept) (gfn : Nat) : Seen :=
  if s.maxMapped < gfn then .unmapped else Radix.lookup (shape ro) 4 s.root gfn

/-- Frames for which an entry is made. -/
def stores (s : Ept) (mfn : Nat) (t : P2mType) : Bool :=
  s.mfnValid mfn || t = .mmioDirect || t = .ramPaged || t = .ramPagingInStart

/-- A new entry; it has room for 40 bits of the frame. -/
def newEntry (mfn : Nat) (t : P2mType) (a : Access) : Leaf := ⟨mfn % 2 ^ 40, t, a⟩

/-- What is written at the level of the call, if no superpage had to be split. -/
def content (s : Ept) (mfn : Nat) (t : P2mType) (a : Access) : Radix.Tree Leaf :=
  if s.stores mfn t then .leaf (newEntry mfn t a) else .empty

/-- The call passes the checks of `ept_set_entry`: frames at the order's boundary, and not too wide. -/
def accepts (gfn mfn level : Nat) : Bool :=
  gfn % 512 ^ level = 0 && mfn % 512 ^ level = 0 && gfn < maxGfn

/-- `ept_set_entry` for the order `9 * level`. -/
def setEntry (s : Ept) (gfn mfn level : Nat) (t : P2mType) (a : Access) : Ept × Bool :=
  if accepts gfn mfn level then
    let r := Radix.setEager (shape ro) (opens ro) level gfn (s.content mfn t a) (.leaf (newEntry mfn t a))
      4 s.root s.mem
    if r.2.2 then
      ({ s with
        root := r.1, mem := r.2.1
        maxMapped :=
          if s.mfnValid mfn ∧ s.maxMapped < gfn + 512 ^ level - 1 then gfn + 512 ^ level - 1
          else s.maxMapped },
       true)
    else ({ s with root := r.1, mem := r.2.1 }, false)
  else (s, false)

/-- A table with nothing but its root, and a pool of pages. -/
def init (f : Table.Fresh) (mfnValid : Nat → Bool) : Ept where
  root := .node f.page fun _ => .empty
  mem := ⟨[f.page], f.pool⟩
  maxMapped := 0
  mfnValid := mfnValid

/-- An entry is set, or the pool changes between calls. -/
inductive Step where
  | setEntry (gfn mfn : Nat) (level : Fin 3) (t : P2mType) (a : Access)
  | setPool (pool : List Nat)

def act (step : Step) (s : Ept) : Ept :=
  match step with
  | .setEntry gfn mfn level t a => (s.setEntry ro gfn mfn level t a).1
  | .setPool pool =>
      if (s.mem.pages ++ pool).Nodup then { s with mem := ⟨s.mem.pages, pool⟩ } else s

/-! ## The property -/

/-- What a call is to map the frame at an offset of its range to. -/
def meant (s : Ept) (mfn i : Nat) (t : P2mType) (a : Access) : Seen :=
  if s.stores mfn t then .of ((mfn + i) % 2 ^ 40) t a else .unmapped

/-- A call that succeeds maps the range, and one that fails maps nothing. -/
def Implements (step : Step) (s : Ept) : Prop :=
  match step with
  | .setEntry gfn mfn level t a =>
      ((s.setEntry ro gfn mfn level t a).2 = true → ∀ g, (s.setEntry ro gfn mfn level t a).1.getEntry ro g =
        if gfn ≤ g ∧ g < gfn + 512 ^ level.val then s.meant mfn (g - gfn) t a else s.getEntry ro g) ∧
      ((s.setEntry ro gfn mfn level t a).2 = false → ∀ g,
        (s.setEntry ro gfn mfn level t a).1.getEntry ro g = s.getEntry ro g)
  | .setPool pool => ∀ g, (act ro (.setPool pool) s).getEntry ro g = s.getEntry ro g

/-- Every table that can be reached has a page of its own, and those are the pages that are
allocated. -/
def Allocated (s : Ept) : Prop :=
  ∀ q, (Radix.pages (shape ro) 4 s.root).count q = s.mem.pages.count q ∧
    s.mem.pages.count q + s.mem.pool.count q ≤ 1

/-- The call is refused. Or a superpage it sets has permissions, if they are needed; an invalid frame is not
entered by splitting a superpage, unless its type is `p2m_invalid`; and what it maps lies where lookups go. -/
def Fine (step : Step) (s : Ept) : Prop :=
  match step with
  | .setEntry gfn mfn level t a =>
      accepts gfn mfn level = true →
        (0 < level.val → s.stores mfn t = true → (newEntry mfn t a).Shown ro level) ∧
        (Radix.splits (shape ro) (opens ro) level gfn 4 s.root = true →
          s.stores mfn t = true ∨ t = .invalid) ∧
        (s.stores mfn t = true → t ≠ .invalid → s.mfnValid mfn = true ∨ gfn + 512 ^ level.val - 1 ≤ s.maxMapped)
  | .setPool _ => True

/-! ## The invariant -/

/-- The tree is well formed below its root, and has nothing where lookups do not go. -/
abbrev Inv (s : Ept) : Prop := Radix.Below (shape ro) 4 maxGfn s.root s.mem s.maxMapped

variable {ro} {s : Ept} {gfn mfn : Nat} {level : Fin 3} {t : P2mType} {a : Access}

theorem accepts_iff : accepts gfn mfn level.val = true ↔
    gfn % 512 ^ level.val = 0 ∧ mfn % 512 ^ level.val = 0 ∧ gfn < maxGfn := by
  unfold accepts
  simp only [Bool.and_eq_true, decide_eq_true_eq, and_assoc]

variable (ro) in
/-- The slots of the two kinds of p2m are the same. -/
theorem same_iff {g : Nat} (hg : g < maxGfn) (hacc : accepts gfn mfn level.val = true) :
    Radix.Same (shape ro) level.val 4 g gfn ↔ gfn ≤ g ∧ g < gfn + 512 ^ level.val := by
  obtain ⟨halign, -, hgfn⟩ := accepts_iff.1 hacc
  exact Table.same_iff level hg hgfn halign

theorem newEntry_fits (hacc : accepts gfn mfn level.val = true)
    (hshown : 0 < level.val → (newEntry mfn t a).Shown ro level) : (newEntry mfn t a).Fits ro level := by
  obtain ⟨-, halign, -⟩ := accepts_iff.1 hacc
  refine ⟨by omega, ?_, Nat.mod_lt _ (by decide), hshown⟩
  have hdvd : ∀ l : Fin 3, 512 ^ l.val ∣ 2 ^ 40 := by decide
  exact (Nat.dvd_mod_iff (hdvd level)).2 (Nat.dvd_of_mod_eq_zero halign)

/-- The frame at an offset of the range. -/
theorem newEntry_mfn {g : Nat} (hacc : accepts gfn mfn level.val = true) (hin : gfn ≤ g ∧ g < gfn + 512 ^ level.val) :
    mfn % 2 ^ 40 + g % 512 ^ level.val = (mfn + (g - gfn)) % 2 ^ 40 := by
  obtain ⟨hgfn, hmfn, -⟩ := accepts_iff.1 hacc
  rcases level with ⟨l, hl⟩
  have hcase : l = 0 ∨ l = 1 ∨ l = 2 := by omega
  rcases hcase with rfl | rfl | rfl <;> dsimp only at hgfn hmfn hin ⊢ <;> omega

variable (ro t a) in
theorem newEntry_read {g : Nat} (hacc : accepts gfn mfn level.val = true)
    (hin : gfn ≤ g ∧ g < gfn + 512 ^ level.val) (hshown : 0 < level.val → (newEntry mfn t a).Shown ro level) :
    (newEntry mfn t a).read ro level g = .of ((mfn + (g - gfn)) % 2 ^ 40) t a := by
  rw [← newEntry_mfn hacc hin]
  unfold Leaf.read
  split
  · -- a superpage that looks absent has nothing to be seen
    rename_i habsent
    simp only [Bool.and_eq_true, decide_eq_true_eq, Bool.not_eq_true'] at habsent
    have htype : (newEntry mfn t a).type = t := rfl
    unfold Seen.of
    rcases hshown habsent.1 with hpod | hinv | hall
    · rw [htype] at hpod ⊢
      rw [if_pos hpod, if_pos hpod]
    · rw [htype] at hinv ⊢
      have hne : t ≠ .populateOnDemand := by
        rw [hinv]
        decide
      rw [if_neg hne, if_neg hne, if_pos hinv]
    · have hpresent := hall 0 (Nat.pow_pos (by decide))
      rw [Nat.zero_mul, Nat.add_zero] at hpresent
      rw [habsent.2] at hpresent
      exact absurd hpresent Bool.false_ne_true
  · rfl

/-- The entry that a call writes. -/
def written (ro : Nat → Bool) (s : Ept) (gfn mfn level : Nat) (t : P2mType) (a : Access) : Radix.Tree Leaf :=
  if Radix.splits (shape ro) (opens ro) level gfn 4 s.root then .leaf (newEntry mfn t a) else s.content mfn t a

theorem written_read (hfine : Fine ro (.setEntry gfn mfn level t a) s) {g : Nat}
    (hacc : accepts gfn mfn level.val = true) (hin : gfn ≤ g ∧ g < gfn + 512 ^ level.val) :
    Radix.lookup (shape ro) level.val (written ro s gfn mfn level t a) g = s.meant mfn (g - gfn) t a := by
  obtain ⟨hshown, hsplit, -⟩ := hfine hacc
  unfold written content meant
  by_cases hstores : s.stores mfn t = true
  · have hleaf := newEntry_read ro t a hacc hin fun hpos => hshown hpos hstores
    rw [if_pos hstores, if_pos hstores, ← hleaf]
    split <;> exact Radix.lookup_leaf ..
  · rw [if_neg hstores, if_neg hstores]
    split
    · -- only `p2m_invalid` is entered by a split
      rename_i hs
      have hinv : t = .invalid := (hsplit hs).resolve_left hstores
      have hleaf := newEntry_read ro t a hacc hin fun _ => .inr (.inl hinv)
      rw [Radix.lookup_leaf]
      refine hleaf.trans ?_
      unfold Seen.of
      rw [hinv]
      rfl
    · exact Radix.lookup_empty ..

theorem written_fits (hfine : Fine ro (.setEntry gfn mfn level t a) s) (hacc : accepts gfn mfn level.val = true) :
    Radix.Fits (shape ro) level.val (written ro s gfn mfn level t a) := by
  obtain ⟨hshown, hsplit, -⟩ := hfine hacc
  have hleaf : s.stores mfn t = true ∨ t = .invalid →
      Radix.Fits (shape ro) level.val (.leaf (newEntry mfn t a)) := by
    intro h
    refine (Radix.fits_leaf ..).2 (newEntry_fits hacc fun hpos => ?_)
    rcases h with h | h
    · exact hshown hpos h
    · exact .inr (.inl h)
  unfold written content
  split
  · exact hleaf (hsplit ‹_›)
  · split
    · exact hleaf (.inl ‹_›)
    · exact Radix.fits_empty _

/-- Nothing is to be seen. -/
theorem meant_unmapped {i : Nat} (h : s.stores mfn t = true → ¬ t ≠ .invalid) : s.meant mfn i t a = .unmapped := by
  unfold meant
  split
  · rename_i hstores
    have hinv : t = .invalid := Decidable.not_not.1 (h hstores)
    unfold Seen.of
    rw [hinv]
    rfl
  · rfl

theorem content_pages : Radix.pages (shape ro) level.val (s.content mfn t a) = [] := by
  unfold content
  split
  · exact Radix.pages_leaf ..
  · exact Radix.pages_empty ..

theorem Inv.setEager (h : Inv ro s) (hfine : Fine ro (.setEntry gfn mfn level t a) s)
    (hacc : accepts gfn mfn level.val = true) {root : Radix.Tree Leaf} {mem : Radix.Mem} {ok : Bool}
    (hs : Radix.setEager (shape ro) (opens ro) level.val gfn (s.content mfn t a) (.leaf (newEntry mfn t a)) 4
      s.root s.mem = (root, mem, ok)) :
    Radix.Fits (shape ro) 4 root ∧
    (ok = true → ∀ g < maxGfn, Radix.lookup (shape ro) 4 root g =
      if gfn ≤ g ∧ g < gfn + 512 ^ level.val then s.meant mfn (g - gfn) t a
      else Radix.lookup (shape ro) 4 s.root g) ∧
    (ok = false → ∀ g, Radix.lookup (shape ro) 4 root g = Radix.lookup (shape ro) 4 s.root g) ∧
    ∀ q, (Radix.pages (shape ro) 4 root).count q = mem.pages.count q ∧ mem.pages.count q + mem.pool.count q ≤ 1 := by
  have hl : level.val ≤ 4 := by omega
  have hwrote := Radix.setEager_wrote (closed ro) hl h.fits (written_fits hfine hacc) hs
  refine ⟨hwrote.fits, fun htrue g hg => ?_, hwrote.failed, fun q => ?_⟩
  · have hsame := same_iff ro hg hacc
    split
    · rename_i hin
      refine (hwrote.same htrue g (hsame.2 hin)).trans ?_
      exact written_read hfine hacc hin
    · rename_i hout
      exact hwrote.other htrue g fun hS => hout (hsame.1 hS)
  · obtain ⟨hcount, hone⟩ := h.pages q
    obtain ⟨h1, h2⟩ := Radix.setEager_pages (closed ro) h.fits content_pages (Radix.pages_leaf ..) hl q
      (Nat.le_of_eq hcount) hs
    omega

theorem Inv.setEntry (h : Inv ro s) (hfine : Fine ro (.setEntry gfn mfn level t a) s) :
    Inv ro (act ro (.setEntry gfn mfn level t a) s) ∧ Implements ro (.setEntry gfn mfn level t a) s := by
  unfold Implements Ept.act Ept.setEntry
  dsimp only
  split
  · rename_i hacc
    obtain ⟨halign, -, hgfn⟩ := accepts_iff.1 hacc
    generalize hr : Radix.setEager (shape ro) (opens ro) level.val gfn (s.content mfn t a)
      (.leaf (newEntry mfn t a)) 4 s.root s.mem = r
    obtain ⟨root, mem, ok⟩ := r
    obtain ⟨hfits, hok, hno, hpages⟩ := h.setEager hfine hacc hr
    dsimp only
    split
    · rename_i htrue
      -- what is mapped is not above `max_mapped_pfn`
      have hcovered : s.mfnValid mfn = true ∨ gfn + 512 ^ level.val - 1 ≤ s.maxMapped ∨
          ∀ g, s.meant mfn (g - gfn) t a = .unmapped := by
        by_cases hmaps : s.stores mfn t = true → ¬t ≠ .invalid
        · exact .inr (.inr fun g => meant_unmapped hmaps)
        · obtain ⟨hstores, hne⟩ := Classical.not_imp.1 hmaps
          exact ((hfine hacc).2.2 hstores (not_not.1 hne)).imp_right .inl
      obtain ⟨hinv, hseek⟩ := h.set hfits (hok htrue) hpages (Table.range_lt hgfn halign) hcovered
      exact ⟨hinv, fun _ => hseek, fun hf => absurd hf.symm Bool.false_ne_true⟩
    · rename_i hfalse
      obtain ⟨hinv, hseek⟩ := h.keep hfits (hno (Bool.eq_false_iff.2 hfalse)) hpages
      exact ⟨hinv, fun hf => absurd hf Bool.false_ne_true, fun _ => hseek⟩
  · exact ⟨h, fun hf => absurd hf Bool.false_ne_true, fun _ _ => rfl⟩

theorem Inv.setPool (h : Inv ro s) (pool : List Nat) : Inv ro (act ro (.setPool pool) s) := by
  unfold act
  dsimp only
  split
  · rename_i hnodup
    exact Radix.Below.setPool h hnodup
  · exact h

theorem Inv.act (step : Step) (s : Ept) (hfine : Fine ro step s) (h : Inv ro s) :
    Inv ro (act ro step s) ∧ Implements ro step s := by
  cases step with
  | setEntry gfn mfn level t a => exact h.setEntry hfine
  | setPool pool =>
    refine ⟨h.setPool pool, fun g => ?_⟩
    unfold Ept.act
    dsimp only
    split <;> rfl

theorem Inv.init (f : Table.Fresh) (mfnValid : Nat → Bool) : Inv ro (init f mfnValid) :=
  Radix.Below.init (by decide) f.nodup

/-- In every run of fine calls, each call does to the map what it should, and every table is
allocated once. -/
theorem run_implements_access (ro : Nat → Bool) (f : Table.Fresh) (mfnValid : Nat → Bool) (steps : List Step)
    (h : Runs.Each (act ro) (Fine ro) steps (init f mfnValid)) :
    Runs.Each (act ro) (Implements ro) steps (init f mfnValid) ∧
      Allocated ro (Runs.run (act ro) steps (init f mfnValid)) := by
  have hstep : ∀ step s, Fine ro step s → Inv ro s → Inv ro (Ept.act ro step s) :=
    fun step s hf hi => (Inv.act step s hf hi).1
  refine ⟨h.of_inv hstep (fun step s hf hi => (Inv.act step s hf hi).2) (Inv.init f mfnValid), ?_⟩
  exact (h.inv hstep (Inv.init f mfnValid)).pages

local instance neZero_levels : NeZero 3 := ⟨by decide⟩

/-- A superpage is mapped, and then one frame in it is mapped anew and another is removed. -/
def splitUp : List Step :=
  [.setEntry 512 1024 1 .ramRw .rwx, .setEntry 515 7 0 .ramRo .n, .setEntry 516 invalidMfn 0 .invalid .n]

theorem run_implements_access_splitUp :
    (getEntry (fun _ => false) (Runs.run (act fun _ => false) splitUp (init Table.fourPages (· < 4096))) 514,
      getEntry (fun _ => false) (Runs.run (act fun _ => false) splitUp (init Table.fourPages (· < 4096))) 515,
      getEntry (fun _ => false) (Runs.run (act fun _ => false) splitUp (init Table.fourPages (· < 4096))) 516) =
      (⟨1026, .ramRw, .rwx⟩, ⟨7, .ramRo, .n⟩, .unmapped) ∧
    Allocated (fun _ => false) (Runs.run (act fun _ => false) splitUp (init Table.fourPages (· < 4096))) := by
  refine ⟨by decide +kernel, (run_implements_access _ Table.fourPages _ splitUp ⟨?_, ?_, ?_, trivial⟩).2⟩
  · exact fun _ => ⟨fun _ _ => .inr (.inr fun _ _ => rfl), fun h => absurd h (by decide +kernel),
      fun _ _ => .inl (by decide)⟩
  · exact fun _ => ⟨fun h => absurd h (by decide), fun _ => .inl (by decide +kernel),
      fun _ _ => .inl (by decide +kernel)⟩
  · exact fun _ => ⟨fun h => absurd h (by decide), fun _ => .inr rfl, fun _ h => absurd rfl h⟩

/-- A populate-on-demand entry has no frame and no access. -/
theorem populateOnDemand_no_access :
    let s := init Table.fourPages (· < 4096)
    (s.setEntry (fun _ => false) 0 512 1 .populateOnDemand .rwx).2 = true ∧
      (s.setEntry (fun _ => false) 0 512 1 .populateOnDemand .rwx).1.getEntry (fun _ => false) 0 ≠
        ⟨512, .populateOnDemand, .rwx⟩ := by
  decide +kernel

/-- A superpage without permissions is set, but not found. An invalid frame is found if a superpage was split for
it. And a frame of a device is set, but not found until some RAM is set above it. -/
theorem inaccessible_superpage_not_found :
    (let s := init Table.fourPages (· < 4096)
     (s.setEntry (fun _ => false) 0 512 1 .ramRw .n).2 = true ∧
     (s.setEntry (fun _ => false) 0 512 1 .ramRw .n).1.getEntry (fun _ => false) 0 = .unmapped) ∧
    (let s := (init Table.fourPages (· < 4096)).setEntry (fun _ => false) 0 512 1 .ramRw .rwx |>.1
     (s.setEntry (fun _ => false) 3 5000 0 .ramRw .rwx).2 = true ∧
     (s.setEntry (fun _ => false) 3 5000 0 .ramRw .rwx).1.getEntry (fun _ => false) 3 = ⟨5000, .ramRw, .rwx⟩) ∧
    (let s := init Table.fourPages (· < 4096)
     (s.setEntry (fun _ => false) 5 9000 0 .mmioDirect .rwx).2 = true ∧
     (s.setEntry (fun _ => false) 5 9000 0 .mmioDirect .rwx).1.getEntry (fun _ => false) 5 = .unmapped ∧
     (Runs.run (act fun _ => false) [.setEntry 5 9000 0 .mmioDirect .rwx, .setEntry 6 7 0 .ramRw .rwx] s).getEntry
       (fun _ => false) 5 = ⟨9000, .mmioDirect, .rwx⟩) := by
  decide +kernel

end Operations

end Ept

end P2m
