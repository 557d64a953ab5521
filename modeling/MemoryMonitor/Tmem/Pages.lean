import Mathlib.Data.List.Basic

/-!
# Contents of pages

Transcendent memory keeps a page as it is, or compressed, or without the zeroes at its end
(`tmh_tze_pfp_scan`, `tmh_tze_copy_from_pfp` and `tmh_copy_tze_to_client`, `xen/include/xen/tmem_xen.h`
and `xen/common/tmem_xen.c`).
-/

namespace Tmem

def pageSize : Nat := 4096

/-- What is in a page. -/
structure Page where
  bytes : List UInt8
  length : bytes.length = pageSize
  deriving DecidableEq

namespace Page

theorem ext_bytes {p q : Page} (h : p.bytes = q.bytes) : p = q := by
  cases p
  cases q
  cases h
  rfl

/-- A word of eight bytes. -/
def wordIsZero (p : Page) (i : Nat) : Bool := ((p.bytes.drop (8 * i)).take 8).all (· == 0)

/-- The loop of `tmh_tze_pfp_scan`, with `n` words to go. -/
def scanFrom (p : Page) : Nat → Nat
  | 0 => 0
  | n + 1 => if p.wordIsZero n then scanFrom p n else 8 * (n + 1)

/-- `tmh_tze_pfp_scan`: the size without trailing zeroes, in whole words. -/
def tzePfpScan (p : Page) : Nat := p.scanFrom (pageSize / 8)

/-- `tmh_tze_copy_from_pfp`. -/
def head (p : Page) (len : Nat) : List UInt8 := p.bytes.take len

/-- `tmh_copy_tze_to_client`: what is not there is zero. -/
def ofTze (b : List UInt8) : Page where
  bytes := (b ++ List.replicate pageSize 0).take pageSize
  length := by
    rw [List.length_take, List.length_append, List.length_replicate]
    omega

variable (p : Page)

theorem scanFrom_le (n : Nat) : p.scanFrom n ≤ 8 * n := by
  induction n with
  | zero => exact Nat.le_refl 0
  | succ n ih =>
    unfold scanFrom
    split
    · omega
    · exact Nat.le_refl _

theorem tzePfpScan_le : p.tzePfpScan ≤ pageSize := p.scanFrom_le (pageSize / 8)

theorem byte_of_wordIsZero {p : Page} {n j : Nat} (h : p.wordIsZero n = true) (hlo : 8 * n ≤ j) (hhi : j < 8 * (n + 1))
    (hj : j < p.bytes.length) : p.bytes[j] = 0 := by
  unfold wordIsZero at h
  rw [List.all_eq_true] at h
  have hmem : p.bytes[j] ∈ (p.bytes.drop (8 * n)).take 8 := by
    rw [List.mem_take_iff_getElem]
    refine ⟨j - 8 * n, ?_, ?_⟩
    · rw [List.length_drop]
      omega
    · rw [List.getElem_drop]
      congr 1
      omega
  exact eq_of_beq (h _ hmem)

/-- What the scan leaves out is zero. -/
theorem byte_of_scanFrom {n j : Nat} (hlo : p.scanFrom n ≤ j) (hhi : j < 8 * n) (hj : j < p.bytes.length) :
    p.bytes[j] = 0 := by
  induction n with
  | zero => omega
  | succ n ih =>
    unfold scanFrom at hlo
    split at hlo
    · rename_i hzero
      by_cases hlast : 8 * n ≤ j
      · exact byte_of_wordIsZero hzero hlast hhi hj
      · exact ih hlo (by omega)
    · omega

/-- A page comes back from what its scan keeps. -/
theorem ofTze_head : ofTze (p.head p.tzePfpScan) = p := by
  apply ext_bytes
  have hlen := p.length
  have hle := p.tzePfpScan_le
  change (p.bytes.take p.tzePfpScan ++ List.replicate pageSize 0).take pageSize = p.bytes
  apply List.ext_getElem
  · rw [List.length_take, List.length_append, List.length_replicate, hlen]
    omega
  · intro j h1 h2
    rw [List.getElem_take, List.getElem_append]
    split
    · rw [List.getElem_take]
    · rename_i hlt
      rw [List.getElem_replicate]
      rw [List.length_take] at hlt
      have hscan : p.scanFrom (pageSize / 8) ≤ j := by
        change p.tzePfpScan ≤ j
        omega
      have hj : j < 8 * (pageSize / 8) := by
        rw [hlen] at h2
        exact h2
      exact (p.byte_of_scanFrom hscan hj h2).symm

/-- The first byte chooses the tree of contents. -/
def firstByte : Nat := (p.bytes.head?.getD 0).toNat

end Page

end Tmem
