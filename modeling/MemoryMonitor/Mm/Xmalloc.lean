import Mathlib

/-!
# `_xmalloc` and `xfree` (`xen/common/xmalloc_tlsf.c`)

The size word of a header tells `xfree` what it has got: bit 0 stands for padding in front of the
pointer, and a size of a page or more for whole pages. A block of the pool has bit 0 clear and is
smaller than a page. The pool and the page allocator are parameters; `Mem` is the size word of the
header at each address.

`_xmalloc` adds the alignment to the size without looking for a wrap.
-/

namespace Xmalloc

def pageSize : Nat := 4096

/-- `MEM_ALIGN`. -/
def memAlign : Nat := 16

/-- `BHDR_OVERHEAD`, the part of `struct bhdr` in front of the pointer. -/
def bhdrOverhead : Nat := 16

/-- `MAX_ORDER`. -/
def maxOrder : Nat := 18

/-- The field `size` of the header at an address. -/
abbrev Mem := Nat → Nat

/-- What is obtained: a block of the pool with its length, or `2^order` pages that begin with a
header. -/
inductive Block where
  | pool (p len : Nat)
  | pages (b order : Nat)
  deriving DecidableEq

/-- What is released. -/
inductive Release where
  | pool (p : Nat)
  | pages (b order : Nat)
  deriving DecidableEq

namespace Block

def header : Block → Nat
  | pool p _ => p - bhdrOverhead
  | pages b _ => b

/-- The address that the allocator has returned, and the end. -/
def start : Block → Nat
  | pool p _ => p
  | pages b _ => b + bhdrOverhead

def finish : Block → Nat
  | pool p len => p + len
  | pages b order => b + pageSize * 2 ^ order

def release : Block → Release
  | pool p _ => .pool p
  | pages b order => .pages b order

end Block

/-! ## The source -/

/-- `for ( order = 0; size; order++ ) size >>= 1;` with at most as many turns as there are bits. -/
def orderLoop : Nat → Nat → Nat
  | 0, _ => 0
  | fuel + 1, size => if size = 0 then 0 else orderLoop fuel (size >>> 1) + 1

/-- `get_order_from_bytes`; the size is a 64-bit word. -/
def getOrderFromBytes (size : Nat) : Nat :=
  orderLoop 64 (((size + (2 ^ 64 - 1)) % 2 ^ 64) >>> 12)

/-- `xmalloc_whole_pages`. The left operand of the shift is an `int`, the count is taken modulo 32. -/
def xmallocWholePages (allocXenheapPages : Nat → Option Nat) (size : Nat) (m : Mem) :
    Option (Block × Mem) :=
  let pageorder := getOrderFromBytes ((size + bhdrOverhead) % 2 ^ 64)
  match allocXenheapPages pageorder with
  | none => none
  | some b =>
      some (.pages b pageorder, Function.update m b (1 <<< ((pageorder + 12) % 32) % 2 ^ 32))

/-- The block of `_xmalloc`, before it is aligned. -/
def xmallocBlock (xmemPoolAlloc : Nat → Mem → Option (Nat × Nat × Mem))
    (allocXenheapPages : Nat → Option Nat) (size : Nat) (m : Mem) : Option (Block × Mem) :=
  if size < pageSize then
    match xmemPoolAlloc size m with
    | some (p, len, m) => some (.pool p len, m)
    | none => xmallocWholePages allocXenheapPages size m
  else xmallocWholePages allocXenheapPages size m

/-- `_xmalloc`: the block, the pointer and the headers. -/
def xmalloc (xmemPoolAlloc : Nat → Mem → Option (Nat × Nat × Mem))
    (allocXenheapPages : Nat → Option Nat) (size align : Nat) (m : Mem) :
    Option (Block × Nat × Mem) :=
  let align := if align < memAlign then memAlign else align
  let size := (size + (align - memAlign)) % 2 ^ 64
  match xmallocBlock xmemPoolAlloc allocXenheapPages size m with
  | none => none
  | some (b, m) =>
      let p := b.start
      let pad := ((2 ^ 64 - p) &&& (align - 1)) % 2 ^ 32
      if pad ≠ 0 then some (b, p + pad, Function.update m (p + pad - bhdrOverhead) (pad ||| 1))
      else some (b, p, m)

/-- `xfree` of a pointer that is not `NULL`; `none` is a failed assertion. -/
def xfree (m : Mem) (p : Nat) : Option Release :=
  let release (p : Nat) : Release :=
    let b := p - bhdrOverhead
    if pageSize ≤ m b then .pages b (getOrderFromBytes (m b)) else .pool p
  let b := p - bhdrOverhead
  if m b &&& 1 ≠ 0 then
    let p := p - (m b &&& (2 ^ 32 - 2))
    if m (p - bhdrOverhead) &&& 1 ≠ 0 then none else some (release p)
  else some (release p)

/-! ## What the callers rely on -/

/-- `xmem_pool_alloc`: the block is in a page of its own region, and bit 0 of its size is clear. Bit 1
says whether the block in front of it is free. -/
def PoolOk (xmemPoolAlloc : Nat → Mem → Option (Nat × Nat × Mem)) : Prop :=
  ∀ size m p len m', xmemPoolAlloc size m = some (p, len, m') →
    p % memAlign = 0 ∧ bhdrOverhead ≤ p ∧ p < 2 ^ 64 ∧ size ≤ len ∧ len % memAlign = 0 ∧
      len + 2 * bhdrOverhead ≤ pageSize ∧ (m' (p - bhdrOverhead) = len ∨ m' (p - bhdrOverhead) = len + 2)

/-- `alloc_xenheap_pages`. -/
def PagesOk (allocXenheapPages : Nat → Option Nat) : Prop :=
  ∀ order b, allocXenheapPages order = some b →
    b % pageSize = 0 ∧ b + pageSize * 2 ^ order < 2 ^ 64 ∧ order ≤ maxOrder

/-- The headers when the block is released: a neighbour in the pool may have changed bit 1. -/
structure Kept (b : Block) (p : Nat) (m m' : Mem) : Prop where
  pool : ∀ q len, b = .pool q len →
    m' b.header / 4 = m b.header / 4 ∧ m' b.header % 2 = m b.header % 2
  pages : ∀ q order, b = .pages q order → m' b.header = m b.header
  padding : p ≠ b.start → m' (p - bhdrOverhead) = m (p - bhdrOverhead)

/-- The pointer `p` into the block is right, and it leads `xfree` back to the block. -/
structure RoundTrip (size align : Nat) (b : Block) (p : Nat) (m : Mem) : Prop where
  aligned : align ∣ p
  start_le : b.start ≤ p
  fits : p + size ≤ b.finish
  padding : p ≠ b.start → b.start ≤ p - bhdrOverhead
  frees : ∀ m', Kept b p m m' → xfree m' p = some b.release

/-! ## Orders -/

theorem lt_two_pow_orderLoop {fuel size : Nat} (h : size < 2 ^ fuel) :
    size < 2 ^ orderLoop fuel size := by
  induction fuel generalizing size with
  | zero =>
    rw [pow_zero] at h
    unfold orderLoop
    omega
  | succ fuel ih =>
    unfold orderLoop
    split
    · omega
    · have hhalf := @ih (size >>> 1) (by
        rw [Nat.shiftRight_one]
        omega)
      rw [Nat.shiftRight_one] at hhalf ⊢
      rw [pow_succ]
      omega

theorem orderLoop_pred_two_pow {fuel order : Nat} (h : order ≤ fuel) :
    orderLoop fuel (2 ^ order - 1) = order := by
  induction fuel generalizing order with
  | zero =>
    obtain rfl : order = 0 := by omega
    rfl
  | succ fuel ih =>
    cases order with
    | zero => rfl
    | succ order =>
      have hpos := Nat.two_pow_pos order
      unfold orderLoop
      rw [if_neg (by rw [pow_succ]; omega), Nat.shiftRight_one,
        show (2 ^ (order + 1) - 1) / 2 = 2 ^ order - 1 by rw [pow_succ]; omega, ih (by omega)]

theorem le_pages_getOrderFromBytes {size : Nat} (hpos : 0 < size) (hlt : size < 2 ^ 64) :
    size ≤ pageSize * 2 ^ getOrderFromBytes size := by
  unfold getOrderFromBytes pageSize
  have hpred : (size + (2 ^ 64 - 1)) % 2 ^ 64 = size - 1 := by omega
  rw [hpred, Nat.shiftRight_eq_div_pow]
  have hloop := @lt_two_pow_orderLoop 64 ((size - 1) / 2 ^ 12) (by omega)
  omega

theorem getOrderFromBytes_pages {order : Nat} (h : order ≤ maxOrder) :
    getOrderFromBytes (pageSize * 2 ^ order) = order := by
  unfold maxOrder at h
  have hpow : 2 ^ order ≤ 2 ^ 18 := Nat.pow_le_pow_right (by decide) h
  have hpos := Nat.two_pow_pos order
  unfold getOrderFromBytes pageSize
  have hpred : ((4096 * 2 ^ order + (2 ^ 64 - 1)) % 2 ^ 64) >>> 12 = 2 ^ order - 1 := by
    rw [Nat.shiftRight_eq_div_pow]
    omega
  rw [hpred]
  exact orderLoop_pred_two_pow (by omega)

/-! ## The bits of a size word -/

theorem or_one_of_even {n : Nat} (h : n % 2 = 0) : n ||| 1 = n + 1 := by
  have hdiv : (n ||| 1) / 2 = n / 2 := by
    rw [Nat.or_div_two]
    exact Nat.or_zero _
  have hmod : (n ||| 1) % 2 = 1 := by
    rw [Nat.or_mod_two_eq_one]
    exact .inr rfl
  omega

theorem and_not_one {n : Nat} (h : n < 2 ^ 32) : n &&& (2 ^ 32 - 2) = n / 2 * 2 := by
  have hdiv : (n &&& (2 ^ 32 - 2)) / 2 = n / 2 := by
    rw [Nat.and_div_two, show (2 ^ 32 - 2) / 2 = 2 ^ 31 - 1 from rfl, Nat.and_two_pow_sub_one_eq_mod]
    omega
  have hmod : ¬(n &&& (2 ^ 32 - 2)) % 2 = 1 := by
    rw [Nat.and_mod_two_eq_one]
    rintro ⟨-, h1⟩
    exact absurd h1 (by decide)
  omega

/-- The low bits of `-p`. -/
theorem neg_and_mask {p k : Nat} (hp : p < 2 ^ 64) (hk : k < 64) :
    (2 ^ 64 - p) &&& (2 ^ k - 1) = (2 ^ k - p % 2 ^ k) % 2 ^ k := by
  rw [Nat.and_two_pow_sub_one_eq_mod]
  obtain ⟨c, hc⟩ : (2 : Nat) ^ k ∣ 2 ^ 64 := pow_dvd_pow 2 hk.le
  have hpos := Nat.two_pow_pos k
  rw [hc] at hp ⊢
  generalize 2 ^ k = a at hp hpos ⊢
  have hdiv := Nat.div_add_mod p a
  have hlt := Nat.mod_lt p hpos
  have hq : p / a < c := Nat.div_lt_of_lt_mul hp
  obtain ⟨e, rfl⟩ : ∃ e, c = p / a + 1 + e := ⟨c - (p / a + 1), by omega⟩
  have hsum : a * (p / a + 1 + e) - p = (a - p % a) + a * e := by
    rw [Nat.mul_add, Nat.mul_add]
    omega
  rw [hsum, Nat.add_mul_mod_self_left]

/-! ## The block -/

variable {xmemPoolAlloc : Nat → Mem → Option (Nat × Nat × Mem)} {allocXenheapPages : Nat → Option Nat}
variable {size align k p : Nat} {m m' : Mem} {b : Block}

/-- What is known of a block that has been obtained for `size` bytes. -/
structure Obtained (size : Nat) (b : Block) (m : Mem) : Prop where
  aligned : b.start % memAlign = 0
  header : b.header + bhdrOverhead = b.start
  start_lt : b.start < 2 ^ 64
  fits : size + bhdrOverhead < 2 ^ 64 → b.start + size ≤ b.finish
  small : b.finish ≤ b.start + 2 ^ 30
  even : m b.header % 2 = 0
  pool : ∀ q len, b = .pool q len → m b.header / 4 < pageSize / 4
  pages : ∀ q order, b = .pages q order → m b.header = pageSize * 2 ^ order ∧ order ≤ maxOrder

theorem xmallocWholePages_obtained (hpages : PagesOk allocXenheapPages) (hsize : size < 2 ^ 64)
    (h : xmallocWholePages allocXenheapPages size m = some (b, m')) : Obtained size b m' := by
  unfold xmallocWholePages at h
  dsimp only at h
  split at h
  · nomatch h
  · rename_i q hq
    injection h with h
    injection h with hb hm
    subst hb hm
    obtain ⟨hmod, hend, horder⟩ := hpages _ _ hq
    generalize hgen : getOrderFromBytes ((size + bhdrOverhead) % 2 ^ 64) = order at *
    have hpow : 2 ^ order ≤ 2 ^ 18 := Nat.pow_le_pow_right (by decide) horder
    have hpos := Nat.two_pow_pos order
    have hword : 1 <<< ((order + 12) % 32) % 2 ^ 32 = pageSize * 2 ^ order := by
      unfold maxOrder at horder
      rw [Nat.mod_eq_of_lt (by omega : order + 12 < 32), Nat.one_shiftLeft, pow_add, Nat.mul_comm]
      unfold pageSize
      omega
    unfold pageSize at hmod hend
    refine ⟨?_, rfl, ?_, fun hfit => ?_, ?_, ?_, nofun, fun q' order' he => ?_⟩
    · show (q + bhdrOverhead) % memAlign = 0
      unfold bhdrOverhead memAlign
      omega
    · show q + bhdrOverhead < 2 ^ 64
      unfold bhdrOverhead
      omega
    · show q + bhdrOverhead + size ≤ q + pageSize * 2 ^ order
      rw [Nat.mod_eq_of_lt hfit] at hgen
      have hle := @le_pages_getOrderFromBytes (size + bhdrOverhead)
        (by unfold bhdrOverhead; omega) hfit
      rw [hgen] at hle
      omega
    · show q + pageSize * 2 ^ order ≤ q + bhdrOverhead + 2 ^ 30
      unfold pageSize
      omega
    · show Function.update m q _ q % 2 = 0
      rw [Function.update_self, hword]
      unfold pageSize
      omega
    · injection he with hq' horder'
      subst hq' horder'
      refine ⟨?_, horder⟩
      show Function.update m q _ q = _
      rw [Function.update_self, hword]

theorem xmallocBlock_obtained (hpool : PoolOk xmemPoolAlloc) (hpages : PagesOk allocXenheapPages)
    (hsize : size < 2 ^ 64)
    (h : xmallocBlock xmemPoolAlloc allocXenheapPages size m = some (b, m')) : Obtained size b m' := by
  unfold xmallocBlock at h
  split at h
  · split at h
    · rename_i q len m₁ hq
      injection h with h
      injection h with hb hm
      subst hb hm
      obtain ⟨hmod, hhdr, hlt, hle, hlen, hpage, hword⟩ := hpool _ _ _ _ _ hq
      unfold memAlign at hmod hlen
      unfold bhdrOverhead at hhdr hpage hword
      unfold pageSize at hpage
      refine ⟨hmod, ?_, hlt, fun _ => ?_, ?_, ?_, fun q' len' _ => ?_, nofun⟩
      · show q - bhdrOverhead + bhdrOverhead = q
        unfold bhdrOverhead
        omega
      · show q + size ≤ q + len
        omega
      · show q + len ≤ q + 2 ^ 30
        omega
      · show m₁ (q - 16) % 2 = 0
        omega
      · show m₁ (q - 16) / 4 < 4096 / 4
        omega
    · exact xmallocWholePages_obtained hpages hsize h
  · exact xmallocWholePages_obtained hpages hsize h

/-! ## The round trip -/

/-- The block's own header is recognised, also when a neighbour has changed its bit 1. -/
theorem Obtained.release_eq (h : Obtained size b m) (hk : Kept b p m m') :
    m' b.header % 2 = 0 ∧
      (if pageSize ≤ m' b.header then Release.pages b.header (getOrderFromBytes (m' b.header))
        else .pool b.start) = b.release := by
  have heven := h.even
  cases hb : b with
  | pool q len =>
    obtain ⟨hdiv, hmod⟩ := hk.pool q len hb
    have hsmall := h.pool q len hb
    rw [hb] at heven hdiv hmod hsmall
    unfold pageSize at hsmall
    refine ⟨by omega, if_neg ?_⟩
    unfold pageSize
    omega
  | pages q order =>
    have hsame := hk.pages q order hb
    obtain ⟨hword, horder⟩ := h.pages q order hb
    rw [hb] at heven hsame hword
    refine ⟨by omega, ?_⟩
    have hpos := Nat.two_pow_pos order
    rw [hsame, hword, getOrderFromBytes_pages horder, if_pos (Nat.le_mul_of_pos_right _ hpos)]
    rfl

theorem Obtained.xfree_start (h : Obtained size b m) (hk : Kept b b.start m m') :
    xfree m' b.start = some b.release := by
  obtain ⟨heven, hrel⟩ := h.release_eq hk
  have hhdr : b.start - bhdrOverhead = b.header := by
    rw [← h.header, Nat.add_sub_cancel]
  unfold xfree
  dsimp only
  rw [hhdr, Nat.and_one_is_mod, if_neg (by omega), hrel]

theorem Obtained.xfree_padded {pad : Nat} (h : Obtained size b m) (hpos : pad ≠ 0)
    (hpad : pad % memAlign = 0) (hlt : pad < 2 ^ 32)
    (hk : Kept b (b.start + pad) (Function.update m (b.start + pad - bhdrOverhead) (pad ||| 1)) m') :
    xfree m' (b.start + pad) = some b.release := by
  unfold memAlign at hpad
  have hhdr : b.start - bhdrOverhead = b.header := by
    rw [← h.header, Nat.add_sub_cancel]
  have hne : b.header ≠ b.start + pad - bhdrOverhead := by
    have := h.header
    unfold bhdrOverhead at this ⊢
    omega
  -- the padding word
  have hword : m' (b.start + pad - bhdrOverhead) = pad + 1 := by
    rw [hk.padding (by omega), Function.update_self, or_one_of_even (by omega)]
  have hown : Kept b b.start m m' := by
    refine ⟨fun q len hb => ?_, fun q order hb => ?_, fun hself => absurd rfl hself⟩
    · have := hk.pool q len hb
      rwa [Function.update_of_ne hne] at this
    · have := hk.pages q order hb
      rwa [Function.update_of_ne hne] at this
  obtain ⟨heven, hrel⟩ := h.release_eq hown
  have hstrip : b.start + pad - (pad + 1) / 2 * 2 = b.start := by omega
  unfold xfree
  dsimp only
  rw [hword, Nat.and_one_is_mod, if_pos (by omega), and_not_one (by omega), hstrip, hhdr,
    Nat.and_one_is_mod, if_neg (by omega), hrel]

/-- The padding up to the next multiple of `2^k`. -/
theorem pad_spec {a p : Nat} (ha : 0 < a) (hdvd : memAlign ∣ a) (hp : p % memAlign = 0) :
    a ∣ p + (a - p % a) % a ∧ (a - p % a) % a % memAlign = 0 ∧ (a - p % a) % a + memAlign ≤ a := by
  obtain ⟨c, rfl⟩ := hdvd
  unfold memAlign at hp ha ⊢
  have hlt := Nat.mod_lt p ha
  have hrem : p % (16 * c) % 16 = 0 := by
    rw [Nat.mod_mul_right_mod]
    exact hp
  by_cases hzero : p % (16 * c) = 0
  · rw [hzero, Nat.sub_zero, Nat.mod_self]
    exact ⟨Nat.dvd_of_mod_eq_zero hzero, rfl, by omega⟩
  · rw [Nat.mod_eq_of_lt (by omega : 16 * c - p % (16 * c) < 16 * c)]
    refine ⟨?_, by omega, by omega⟩
    rw [Nat.dvd_iff_mod_eq_zero, Nat.add_mod, Nat.mod_eq_of_lt (by omega : 16 * c - p % (16 * c) < 16 * c),
      Nat.add_sub_cancel' hlt.le, Nat.mod_self]

/-- A pointer that is returned is right, and leads back to its block, exactly if the size with the
alignment does not wrap. -/
theorem xmalloc_roundTrip_iff (hpool : PoolOk xmemPoolAlloc) (hpages : PagesOk allocXenheapPages)
    (hk : k < 64) (hsize : size < 2 ^ 64)
    (h : xmalloc xmemPoolAlloc allocXenheapPages size (2 ^ k) m = some (b, p, m')) :
    RoundTrip size (2 ^ k) b p m' ↔ size + max (2 ^ k) memAlign < 2 ^ 64 := by
  -- an alignment below `MEM_ALIGN` is raised to it
  have h16 : memAlign = 2 ^ 4 := rfl
  obtain ⟨j, hj, hkj, h4, hmax⟩ : ∃ j, j < 64 ∧ k ≤ j ∧ 4 ≤ j ∧ max (2 ^ k) memAlign = 2 ^ j := by
    rw [h16]
    rcases le_total 4 k with h4 | h4
    · exact ⟨k, hk, le_rfl, h4, max_eq_left (Nat.pow_le_pow_right Nat.two_pos h4)⟩
    · exact ⟨4, by decide, h4, le_rfl, max_eq_right (Nat.pow_le_pow_right Nat.two_pos h4)⟩
  have hraise : (if 2 ^ k < memAlign then memAlign else 2 ^ k) = 2 ^ j := by
    rw [← hmax, max_def]
    split <;> split <;> omega
  have hdvd : memAlign ∣ 2 ^ j := pow_dvd_pow 2 h4
  have hpos := Nat.two_pow_pos j
  have hle : 16 ≤ 2 ^ j := Nat.le_of_dvd hpos hdvd
  have hhalf : 2 ^ j ≤ 2 ^ 63 := Nat.pow_le_pow_right (by decide) (by omega)
  rw [hmax]
  unfold xmalloc at h
  dsimp only at h
  rw [hraise] at h
  split at h
  · nomatch h
  · rename_i b₁ m₁ hb
    have hob := xmallocBlock_obtained hpool hpages (Nat.mod_lt _ (Nat.two_pow_pos 64)) hb
    constructor
    · intro hr
      by_contra hwrap
      obtain rfl : b₁ = b := by
        split at h <;> (injection h with h; injection h)
      have hfits := hr.fits
      have hstart := hr.start_le
      have hsmall := hob.small
      omega
    · intro hfit
      have heff : (size + (2 ^ j - memAlign)) % 2 ^ 64 = size + 2 ^ j - 16 := by
        unfold memAlign
        omega
      rw [heff] at hob
      have hroom := hob.fits (by unfold bhdrOverhead; omega)
      have hsmall := hob.small
      obtain ⟨hdiv, hmul, hbelow⟩ := pad_spec hpos hdvd hob.aligned
      have haligned : 2 ^ k ∣ b₁.start + (2 ^ j - b₁.start % 2 ^ j) % 2 ^ j :=
        (pow_dvd_pow 2 hkj).trans hdiv
      rw [neg_and_mask hob.start_lt hj] at h
      generalize (2 ^ j - b₁.start % 2 ^ j) % 2 ^ j = pad at h hmul hbelow haligned
      unfold memAlign at hbelow
      rw [Nat.mod_eq_of_lt (by omega : pad < 2 ^ 32)] at h
      split at h
      · rename_i hne
        injection h with h
        injection h with hb' h
        injection h with hp hm
        subst hb' hp hm
        refine ⟨haligned, Nat.le_add_right .., by omega, fun _ => ?_, fun m'' hk => ?_⟩
        · unfold memAlign at hmul
          unfold bhdrOverhead
          omega
        · exact hob.xfree_padded hne hmul (by omega) hk
      · rename_i hzero
        injection h with h
        injection h with hb' h
        injection h with hp hm
        subst hb' hp hm
        have hpad : pad = 0 := not_not.mp hzero
        rw [hpad] at haligned
        refine ⟨haligned, le_rfl, by omega, fun hself => absurd rfl hself, fun m'' hk => ?_⟩
        exact hob.xfree_start hk

/-- A pool with one free block and 4GB for pages. -/
def onePool (size : Nat) (m : Mem) : Option (Nat × Nat × Mem) :=
  if size ≤ 1024 then some (0x1010, 1024, Function.update m 0x1000 1026) else none

def lowPages (order : Nat) : Option Nat := if order ≤ maxOrder then some (2 ^ 32) else none

theorem onePool_ok : PoolOk onePool := by
  intro size m p len m' h
  unfold onePool at h
  split at h
  · injection h with h
    injection h with hp h
    injection h with hlen hm
    subst hp hlen hm
    exact ⟨rfl, by decide, by decide, by omega, rfl, by decide, .inr (Function.update_self ..)⟩
  · nomatch h

theorem lowPages_ok : PagesOk lowPages := by
  intro order b h
  unfold lowPages at h
  split at h
  · rename_i hle
    injection h with h
    subst h
    have hpow : 2 ^ order ≤ 2 ^ 18 := Nat.pow_le_pow_right (by decide) hle
    refine ⟨rfl, ?_, hle⟩
    unfold pageSize
    omega
  · cases h

theorem xmalloc_roundTrip_cacheLine :
    ∃ p m', xmalloc onePool lowPages 100 128 (fun _ => 0) = some (.pool 0x1010 1024, p, m') ∧
      100 + max (2 ^ 7) memAlign < 2 ^ 64 ∧ RoundTrip 100 (2 ^ 7) (.pool 0x1010 1024) p m' :=
  ⟨_, _, rfl, by decide, (xmalloc_roundTrip_iff onePool_ok lowPages_ok (k := 7) (by decide) (by decide)
    rfl).mpr (by decide)⟩

/-- For the largest size one page is returned. -/
theorem xmalloc_wraps :
    ∃ p m', xmalloc onePool lowPages (2 ^ 64 - 1) 1 (fun _ => 0) = some (.pages (2 ^ 32) 0, p, m') ∧
      ¬RoundTrip (2 ^ 64 - 1) 1 (.pages (2 ^ 32) 0) p m' := by
  refine ⟨_, _, rfl, fun h => ?_⟩
  exact absurd h.fits (by decide)

end Xmalloc
