import MemoryMonitor.Lib.Word
import Mathlib.Tactic.IntervalCases

/-!
# The packed page record (`Monitor_tools/analyze.h`)

A page record keeps three fields in one `unsigned long`: the frame number in
bits 63..28, the swap id in bits 27..1 and the huge bit in bit 0. Readers and
savers are built from `get_bit` and `clear_bit`, whose masks come from loops.

Every helper is described by the bits of its result, and the field laws follow
bit by bit. Two constants of the source do not match the layout: the swap
saver masks with `0xeffffff` and the swap reader takes 63 bits. The round trip
therefore fails in part, and `field_round_trip_iff` says exactly when it holds.
-/

namespace Monitor

/-- `unsigned long`, `uint64_t`, `addr_t`. -/
abbrev ULong := BitVec 64

/-! ## Bit helpers -/

/-- The mask loop of `get_bit`: `mask <<= 1; mask += 1`. -/
def getBitMask : Nat → ULong → ULong
  | 0, mask => mask
  | n + 1, mask => getBitMask n (mask <<< 1 + 1)

def getBit (entry : ULong) (num position : Nat) : ULong :=
  (entry &&& (getBitMask num 0 <<< position)) >>> position

/-- The mask loop of `clear_bit`: `mask <<= 1; mask |= 1`. -/
def clearBitMask : Nat → ULong → ULong
  | 0, mask => mask
  | n + 1, mask => clearBitMask n (mask <<< 1 ||| 1)

def clearBit (addr : ULong) (start last : Nat) : ULong :=
  addr &&& ((clearBitMask (last + 1 - start) 0 <<< start) ^^^ BitVec.allOnes 64)

theorem getBitMask_eq : ∀ (n : Nat) (m : ULong), getBitMask n m = Word.shiftOnes n m
  | 0, _ => rfl
  | n + 1, m => by
      rw [getBitMask, Word.shiftOnes, getBitMask_eq n]
      exact congrArg _ (Word.shiftLeft_add_one m)

theorem clearBitMask_eq : ∀ (n : Nat) (m : ULong), clearBitMask n m = Word.shiftOnes n m
  | 0, _ => rfl
  | n + 1, m => by rw [clearBitMask, Word.shiftOnes, clearBitMask_eq n]; rfl

/-- A field read: the `num` bits from `position` up, moved down to bit 0. -/
theorem getLsbD_getBit (entry : ULong) (num position i : Nat) (h : num + position ≤ 64) :
    (getBit entry num position).getLsbD i = (decide (i < num) && entry.getLsbD (position + i)) := by
  by_cases hp : position + i < 64
  · have hones : (Word.shiftOnes num (0#64)).getLsbD i = decide (i < num) :=
      Word.getLsbD_ones num i (by omega)
    rw [getBit, getBitMask_eq, BitVec.getLsbD_ushiftRight, BitVec.getLsbD_and,
      BitVec.getLsbD_shiftLeft, Nat.add_sub_cancel_left]
    change (_ && (_ && _ && (Word.shiftOnes num (0#64)).getLsbD i)) = _
    rw [hones, decide_eq_true hp, decide_eq_false (by omega : ¬ position + i < position)]
    simp only [Bool.not_false, Bool.true_and]
    rw [Bool.and_comm]
  · have hi : ¬ i < num := by omega
    rw [getBit, BitVec.getLsbD_ushiftRight, BitVec.getLsbD_of_ge _ _ (by omega),
      decide_eq_false hi, Bool.false_and]

/-- Clearing `start..last` keeps every other bit. -/
theorem getLsbD_clearBit (addr : ULong) (start last : Nat) {i : Nat} (hi : i < 64) :
    (clearBit addr start last).getLsbD i =
      (addr.getLsbD i && !(decide (start ≤ i) && decide (i ≤ last))) := by
  rw [clearBit, clearBitMask_eq, BitVec.getLsbD_and, BitVec.getLsbD_xor, BitVec.getLsbD_allOnes,
    BitVec.getLsbD_shiftLeft, decide_eq_true hi, Bool.xor_true]
  by_cases hs : start ≤ i
  · have hones : (Word.shiftOnes (last + 1 - start) (0#64)).getLsbD (i - start) =
        decide (i - start < last + 1 - start) := Word.getLsbD_ones _ _ (by omega)
    have hiff : (i - start < last + 1 - start) ↔ i ≤ last := by omega
    change (_ && !(_ && _ && (Word.shiftOnes (last + 1 - start) (0#64)).getLsbD (i - start))) = _
    rw [hones, decide_eq_true hs, decide_eq_false (Nat.not_lt.mpr hs)]
    simp only [hiff, Bool.not_false, Bool.true_and]
  · rw [decide_eq_false hs, decide_eq_true (Nat.lt_of_not_le hs)]
    simp only [Bool.not_true, Bool.true_and, Bool.false_and]

/-! ## Readers and savers -/

def pageSizeFlag (entry : ULong) : BitVec 32 := (getBit entry 1 7).setWidth 32

def entryPresent (entry : ULong) : BitVec 32 := (getBit entry 1 0).setWidth 32

def getHugeBit (entry : ULong) : BitVec 32 := (getBit entry 1 0).setWidth 32

def getPaddr (addr : ULong) : ULong := getBit addr 36 28

def getSwapId (addr : ULong) : ULong := getBit addr 63 1

def savePaddr (addr val : ULong) : ULong :=
  clearBit addr 28 63 ||| (val <<< 28)

def saveSwapPaddr (addr val : ULong) : ULong :=
  clearBit addr 1 27 ||| ((val &&& 0xeffffff) <<< 1)

def saveHugeBit (addr val : ULong) : ULong :=
  clearBit addr 0 0 ||| (val &&& 0x1)

theorem getLsbD_getHugeBit (entry : ULong) (i : Nat) :
    (getHugeBit entry).getLsbD i = (decide (i = 0) && entry.getLsbD 0) := by
  rw [getHugeBit, BitVec.getLsbD_setWidth, getLsbD_getBit entry 1 0 i (by omega)]
  by_cases h : i = 0
  · subst h
    rfl
  · rw [decide_eq_false h, decide_eq_false (by omega : ¬ i < 1)]
    simp only [Bool.false_and, Bool.and_false]

theorem getLsbD_getPaddr (addr : ULong) (i : Nat) :
    (getPaddr addr).getLsbD i = (decide (i < 36) && addr.getLsbD (28 + i)) :=
  getLsbD_getBit addr _ _ i (by omega)

theorem getLsbD_getSwapId (addr : ULong) (i : Nat) :
    (getSwapId addr).getLsbD i = (decide (i < 63) && addr.getLsbD (1 + i)) :=
  getLsbD_getBit addr _ _ i (by omega)

theorem getLsbD_savePaddr (addr val : ULong) {i : Nat} (hi : i < 64) :
    (savePaddr addr val).getLsbD i =
      if 28 ≤ i then val.getLsbD (i - 28) else addr.getLsbD i := by
  rw [savePaddr, BitVec.getLsbD_or, getLsbD_clearBit addr _ _ hi, BitVec.getLsbD_shiftLeft,
    decide_eq_true hi, decide_eq_true (by omega : i ≤ 63)]
  by_cases h : 28 ≤ i
  · rw [if_pos h, decide_eq_true h, decide_eq_false (Nat.not_lt.mpr h)]
    simp only [Bool.and_true, Bool.not_true, Bool.and_false, Bool.not_false, Bool.true_and,
      Bool.false_or]
  · rw [if_neg h, decide_eq_false h, decide_eq_true (Nat.lt_of_not_le h)]
    simp only [Bool.and_true, Bool.not_true, Bool.and_false, Bool.not_false, Bool.false_and,
      Bool.or_false]

/-- The bits of the saver's mask: 28 ones with bit 24 missing. -/
theorem getLsbD_swapMask (i : Nat) :
    (0xeffffff#64).getLsbD i = (decide (i < 28) && !decide (i = 24)) := by
  by_cases h : i < 64
  · interval_cases i <;> decide
  · rw [BitVec.getLsbD_of_ge _ _ (by omega)]
    simp [show ¬ i < 28 by omega]

theorem getLsbD_saveSwapPaddr (addr val : ULong) {i : Nat} (hi : i < 64) :
    (saveSwapPaddr addr val).getLsbD i =
      ((addr.getLsbD i && !(decide (1 ≤ i) && decide (i ≤ 27))) ||
        (decide (1 ≤ i) && decide (i ≤ 28) && !decide (i = 25) && val.getLsbD (i - 1))) := by
  rw [saveSwapPaddr, BitVec.getLsbD_or, getLsbD_clearBit addr _ _ hi,
    BitVec.getLsbD_shiftLeft, BitVec.getLsbD_and]
  congr 1
  change (decide (i < 64) && !decide (i < 1) && (val.getLsbD (i - 1) &&
    (0xeffffff#64).getLsbD (i - 1))) = _
  rw [getLsbD_swapMask]
  by_cases h0 : i = 0
  · simp [h0]
  · have h1 : i - 1 < 28 ↔ i ≤ 28 := by omega
    have h2 : i - 1 = 24 ↔ i = 25 := by omega
    have h3 : 1 ≤ i := by omega
    simp only [hi, h1, h2, h3, Nat.not_lt.mpr h3, decide_true, decide_false, Bool.not_false,
      Bool.true_and]
    rw [Bool.and_comm]

theorem getLsbD_saveHugeBit (addr val : ULong) {i : Nat} (hi : i < 64) :
    (saveHugeBit addr val).getLsbD i =
      if i = 0 then val.getLsbD 0 else addr.getLsbD i := by
  have hone : (0x1 : ULong).getLsbD i = decide (i = 0) := by
    change (1#64).getLsbD i = _
    rw [BitVec.getLsbD_one]
    simp
  rw [saveHugeBit, BitVec.getLsbD_or, getLsbD_clearBit addr _ _ hi, BitVec.getLsbD_and, hone]
  by_cases h : i = 0
  · simp [h]
  · simp [h]

/-! ## Round trips -/

/-- Saving a swap id and the huge bit: both are read back, the frame field is kept. -/
def SwapRoundTrip (w : ULong) (s : BitVec 27) (h : BitVec 1) : Prop :=
  let w' := saveHugeBit (saveSwapPaddr w (s.setWidth 64)) (h.setWidth 64)
  getSwapId w' = s.setWidth 64 ∧ getHugeBit w' = h.setWidth 32 ∧
    w'.extractLsb' 28 36 = w.extractLsb' 28 36

/-- Saving a frame number and the huge bit: both are read back, the swap field is kept. -/
def FrameRoundTrip (w : ULong) (p : BitVec 36) (h : BitVec 1) : Prop :=
  let w' := saveHugeBit (savePaddr w (p.setWidth 64)) (h.setWidth 64)
  getPaddr w' = p.setWidth 64 ∧ getHugeBit w' = h.setWidth 32 ∧
    w'.extractLsb' 1 27 = w.extractLsb' 1 27

theorem getHugeBit_saveHugeBit (w : ULong) (h : BitVec 1) :
    getHugeBit (saveHugeBit w (h.setWidth 64)) = h.setWidth 32 := by
  apply BitVec.eq_of_getLsbD_eq
  intro i hi
  rw [getLsbD_getHugeBit, getLsbD_saveHugeBit _ _ (by omega), if_pos rfl, BitVec.getLsbD_setWidth,
    BitVec.getLsbD_setWidth, decide_eq_true hi]
  by_cases h0 : i = 0
  · subst h0
    rfl
  · rw [decide_eq_false h0, BitVec.getLsbD_of_ge h i (by omega)]
    rfl

/-- The frame half of the codec has no exception. -/
theorem frame_round_trip (w : ULong) (p : BitVec 36) (h : BitVec 1) : FrameRoundTrip w p h := by
  refine ⟨?_, getHugeBit_saveHugeBit _ h, ?_⟩
  · apply BitVec.eq_of_getLsbD_eq
    intro i hi
    rw [getLsbD_getPaddr, BitVec.getLsbD_setWidth, decide_eq_true hi, Bool.true_and]
    by_cases h36 : i < 36
    · rw [getLsbD_saveHugeBit _ _ (by omega), if_neg (by omega), getLsbD_savePaddr _ _ (by omega),
        if_pos (by omega), BitVec.getLsbD_setWidth, Nat.add_sub_cancel_left, decide_eq_true h36,
        decide_eq_true hi, Bool.true_and, Bool.true_and]
    · rw [decide_eq_false h36, BitVec.getLsbD_of_ge p i (by omega), Bool.false_and]
  · apply BitVec.eq_of_getLsbD_eq
    intro i hi
    rw [BitVec.getLsbD_extractLsb', BitVec.getLsbD_extractLsb',
      getLsbD_saveHugeBit _ _ (by omega), if_neg (by omega), getLsbD_savePaddr _ _ (by omega),
      if_neg (by omega)]

/-- The bits of a saved swap id: bit 25 of the word (bit 24 of the id) is lost. -/
theorem getLsbD_saved_swap (w : ULong) (s : BitVec 27) (h : BitVec 1) {i : Nat} (hi : i < 64)
    (h0 : i ≠ 0) :
    (saveHugeBit (saveSwapPaddr w (s.setWidth 64)) (h.setWidth 64)).getLsbD i =
      if i ≤ 27 then !decide (i = 25) && s.getLsbD (i - 1) else w.getLsbD i := by
  rw [getLsbD_saveHugeBit _ _ hi, if_neg h0, getLsbD_saveSwapPaddr _ _ hi,
    BitVec.getLsbD_setWidth, decide_eq_true (by omega : i - 1 < 64),
    decide_eq_true (by omega : 1 ≤ i)]
  by_cases h27 : i ≤ 27
  · rw [if_pos h27, decide_eq_true h27, decide_eq_true (by omega : i ≤ 28)]
    simp
  · rw [if_neg h27, decide_eq_false h27, BitVec.getLsbD_of_ge s (i - 1) (by omega)]
    simp

/-- The swap half holds exactly when bit 24 of the id is clear and the frame
field is empty: the reader takes the frame bits as part of the id. -/
theorem swap_round_trip_iff (w : ULong) (s : BitVec 27) (h : BitVec 1) :
    SwapRoundTrip w s h ↔ s.getLsbD 24 = false ∧ w.extractLsb' 28 36 = 0 := by
  constructor
  · rintro ⟨hswap, -, -⟩
    have hbit : ∀ i, i < 63 →
        (if i + 1 ≤ 27 then !decide (i + 1 = 25) && s.getLsbD i else w.getLsbD (i + 1)) =
          s.getLsbD i := by
      intro i hi
      have hget := congrArg (fun x : ULong => x.getLsbD i) hswap
      simp only [getLsbD_getSwapId, decide_eq_true hi, Bool.true_and] at hget
      rw [Nat.add_comm 1 i, getLsbD_saved_swap w s h (by omega) (by omega),
        BitVec.getLsbD_setWidth, decide_eq_true (by omega : i < 64), Bool.true_and] at hget
      simpa using hget
    refine ⟨by simpa using (hbit 24 (by omega)).symm, ?_⟩
    apply BitVec.eq_of_getLsbD_eq
    intro i hi
    have h27 : ¬ 27 + i + 1 ≤ 27 := by omega
    have hframe := hbit (27 + i) (by omega)
    rw [if_neg h27, BitVec.getLsbD_of_ge s _ (by omega)] at hframe
    rw [BitVec.getLsbD_extractLsb', decide_eq_true hi, Bool.true_and,
      show 28 + i = 27 + i + 1 by omega, hframe]
    simp
  · rintro ⟨h24, hframe⟩
    refine ⟨?_, getHugeBit_saveHugeBit _ h, ?_⟩
    · apply BitVec.eq_of_getLsbD_eq
      intro i hi
      rw [getLsbD_getSwapId, BitVec.getLsbD_setWidth, decide_eq_true hi, Bool.true_and]
      by_cases h63 : i < 63
      · rw [decide_eq_true h63, Nat.add_comm 1 i, getLsbD_saved_swap w s h (by omega) (by omega),
          Bool.true_and]
        by_cases h27 : i + 1 ≤ 27
        · rw [if_pos h27, Nat.add_sub_cancel]
          by_cases h25 : i = 24
          · subst h25
            rw [h24]
            rfl
          · simp [h25]
        · have hzero := congrArg (fun x : BitVec 36 => x.getLsbD (i - 27)) hframe
          simp only [BitVec.getLsbD_extractLsb'] at hzero
          rw [decide_eq_true (by omega : i - 27 < 36), Bool.true_and,
            show 28 + (i - 27) = i + 1 by omega] at hzero
          rw [if_neg h27, hzero, BitVec.getLsbD_of_ge s i (by omega)]
          simp
      · rw [decide_eq_false h63, BitVec.getLsbD_of_ge s i (by omega), Bool.false_and]
    · apply BitVec.eq_of_getLsbD_eq
      intro i hi
      rw [BitVec.getLsbD_extractLsb', BitVec.getLsbD_extractLsb',
        getLsbD_saved_swap w s h (by omega) (by omega), if_neg (by omega)]

/-- The whole codec: when a record word round-trips. -/
theorem field_round_trip_iff (w : ULong) (s : BitVec 27) (p : BitVec 36) (h : BitVec 1) :
    (SwapRoundTrip w s h ∧ FrameRoundTrip w p h) ↔
      (s.getLsbD 24 = false ∧ w.extractLsb' 28 36 = 0) := by
  rw [swap_round_trip_iff]
  exact ⟨fun hw => hw.1, fun hw => ⟨hw, frame_round_trip w p h⟩⟩

/-- Swap id `2 ^ 24`, saved into a zero word, is read back as `0`. -/
theorem field_round_trip_fails :
    ¬ ∀ (w : ULong) (s : BitVec 27) (p : BitVec 36) (h : BitVec 1),
      SwapRoundTrip w s h ∧ FrameRoundTrip w p h := by
  intro hall
  have hread := (hall 0 (BitVec.ofNat 27 (2 ^ 24)) 0 0).1.1
  revert hread
  decide +kernel

end Monitor
