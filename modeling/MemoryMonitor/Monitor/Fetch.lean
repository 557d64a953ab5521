import MemoryMonitor.Monitor.Codec
import MemoryMonitor.Sched.RecentCr3

/-!
# Fetching the CR3 values (`Monitor_tools/analyze.h`)

`get_cr3_hypercall` clears the array of `main`, has the hypervisor fill it (the number of values in slot
0, the values behind it), moves the values down by one slot and ends the list with a zero. `list_size` is
the caller's: what it holds at the first call is up to the stack, afterwards it is what the last call has
left there.

An access outside the array is a fault.
-/

namespace Monitor.Fetch

open Sched.RecentCr3 (ULong Fault load store load_eq store_eq)

/-- `RECENT_CR3_SIZE`. -/
def recentCr3Size : Nat := 50

/-- `for(i=0; i<list_size; i++) cr3_list[i] = 0;`, with `left` turns to go. -/
def clear : (left i : Nat) → List ULong → Except Fault (List ULong)
  | 0, _, cr3List => .ok cr3List
  | left + 1, i, cr3List => do
    let cr3List ← store cr3List i 0
    clear left (i + 1) cr3List

/-- `for(i=1; i<=list_size; i++) cr3_list[i-1] = cr3_list[i];`, with `left` turns to go: the array, and the
`i` that the loop ends with. -/
def moveDown : (left i : Nat) → List ULong → Except Fault (List ULong × Nat)
  | 0, i, cr3List => .ok (cr3List, i)
  | left + 1, i, cr3List => do
    let x ← load cr3List i
    let cr3List ← store cr3List (i - 1) x
    moveDown left (i + 1) cr3List

/-- What the hypercall leaves in the array: the number of values and the values, as far as they fit. -/
def fill (values cr3List : List ULong) : List ULong :=
  ((BitVec.ofNat 64 values.length :: values) ++ cr3List.drop (values.length + 1)).take cr3List.length

/-- The array and `list_size` on return. -/
def getCr3Hypercall (values cr3List : List ULong) (listSize : Int) : Except Fault (List ULong × Int) := do
  let cr3List ← clear listSize.toNat 0 cr3List
  -- `ret` is not looked at
  let cr3List := fill values cr3List
  let count ← load cr3List 0
  let listSize := (count.truncate 32).toInt
  let (cr3List, i) ← moveDown listSize.toNat 1 cr3List
  let cr3List ← store cr3List (i + 1) 0
  return (cr3List, listSize)

/-! ## The loops -/

variable {cr3List cr3List' values : List ULong}

theorem of_bind {α β : Type} {x : Except Fault α} {f : α → Except Fault β} {r : β} (h : x >>= f = .ok r) :
    ∃ a, x = .ok a ∧ f a = .ok r := by
  cases x with
  | error e => cases h
  | ok a => exact ⟨a, rfl, h⟩

theorem of_store {i : Nat} {x : ULong} (h : store cr3List i x = .ok cr3List') :
    i < cr3List.length ∧ cr3List' = cr3List.set i x := by
  unfold store at h
  split at h
  · next hi =>
    cases h
    exact ⟨hi, rfl⟩
  · cases h

theorem length_clear (left i : Nat) (h : clear left i cr3List = .ok cr3List') :
    cr3List'.length = cr3List.length ∧ (left = 0 ∨ i + left ≤ cr3List.length) := by
  induction left generalizing i cr3List with
  | zero =>
    cases h
    exact ⟨rfl, Or.inl rfl⟩
  | succ left ih =>
    unfold clear at h
    rcases of_bind h with ⟨arr, hs, h⟩
    rcases of_store hs with ⟨hi, rfl⟩
    rcases ih (i + 1) h with ⟨hlen, hleft⟩
    rw [List.length_set] at hlen hleft
    exact ⟨hlen, Or.inr (by omega)⟩

theorem clear_eq (cr3List : List ULong) (left i : Nat) (h : left = 0 ∨ i + left ≤ cr3List.length) :
    ∃ cr3List', clear left i cr3List = .ok cr3List' := by
  induction left generalizing i cr3List with
  | zero => exact ⟨cr3List, rfl⟩
  | succ left ih =>
    have hi : i < cr3List.length := by omega
    rcases @ih (cr3List.set i 0) (i + 1) (Or.inr (by simp; omega)) with ⟨arr, harr⟩
    refine ⟨arr, ?_⟩
    unfold clear
    rw [store_eq _ hi]
    exact harr

/-- The slots from `i - 1` on take what was in the slot above. -/
theorem moveDown_eq (cr3List : List ULong) (left i : Nat) (hi : 1 ≤ i) (h : i + left ≤ cr3List.length) :
    ∃ cr3List', moveDown left i cr3List = .ok (cr3List', i + left) ∧ cr3List'.length = cr3List.length ∧
      ∀ j, cr3List'[j]? = if i ≤ j + 1 ∧ j + 1 < i + left then cr3List[j + 1]? else cr3List[j]? := by
  induction left generalizing i cr3List with
  | zero =>
    refine ⟨cr3List, rfl, rfl, ?_⟩
    intro j
    rw [if_neg (by omega)]
  | succ left ih =>
    have hlt : i < cr3List.length := by omega
    rcases @ih (cr3List.set (i - 1) cr3List[i]) (i + 1) (by omega) (by simp; omega)
      with ⟨arr, hmove, hlen, hget⟩
    refine ⟨arr, ?_, by simpa using hlen, ?_⟩
    · unfold moveDown
      rw [load_eq hlt]
      simp only [bind, Except.bind]
      rw [store_eq _ (by omega)]
      rw [show i + (left + 1) = i + 1 + left by omega]
      exact hmove
    · intro j
      rw [hget]
      simp only [List.getElem?_set]
      -- the slot below `i` has been written, the loop goes on above it
      by_cases hj : j + 1 = i
      · rw [if_neg (by omega), if_pos (by omega), if_pos (by omega), if_pos (by omega), hj,
          List.getElem?_eq_getElem hlt]
      · by_cases hin : i ≤ j + 1 ∧ j + 1 < i + (left + 1)
        · rw [if_pos (by omega), if_neg (by omega), if_pos hin]
        · rw [if_neg (by omega), if_neg (by omega), if_neg hin]

theorem length_moveDown (left i : Nat) {k : Nat} (h : moveDown left i cr3List = .ok (cr3List', k)) :
    cr3List'.length = cr3List.length ∧ k = i + left := by
  induction left generalizing i cr3List with
  | zero =>
    cases h
    exact ⟨rfl, rfl⟩
  | succ left ih =>
    unfold moveDown at h
    rcases of_bind h with ⟨x, -, h⟩
    rcases of_bind h with ⟨arr, hs, h⟩
    rcases of_store hs with ⟨-, rfl⟩
    rcases ih (i + 1) h with ⟨hlen, hk⟩
    rw [List.length_set] at hlen
    exact ⟨hlen, by omega⟩

/-! ## A call -/

theorem length_fill : (fill values cr3List).length = cr3List.length := by
  unfold fill
  simp
  omega

theorem getElem?_fill {j : Nat} (hj : j ≤ values.length) (hlt : j < cr3List.length) :
    (fill values cr3List)[j]? = (BitVec.ofNat 64 values.length :: values)[j]? := by
  unfold fill
  rw [List.getElem?_take_of_lt hlt, List.getElem?_append_left]
  simpa using Nat.lt_succ_of_le hj

/-- The number of values survives the conversion to `int`. -/
theorem toInt_count {n : Nat} (hn : n ≤ recentCr3Size) :
    ((BitVec.ofNat 64 n).truncate 32).toInt = n := by
  have hsmall : n ≤ 50 := hn
  rw [BitVec.toInt_eq_toNat_of_lt]
  · simp
    omega
  · simp
    omega

theorem load_fill (hlen : cr3List.length = recentCr3Size) :
    load (fill values cr3List) 0 = .ok (BitVec.ofNat 64 values.length) := by
  have hpos : 0 < cr3List.length := by
    rw [hlen]
    decide
  unfold load
  rw [getElem?_fill (Nat.zero_le _) hpos]
  simp

/-- No access is outside the array, and the values are where the caller looks for them. -/
structure Returns (values cr3List : List ULong) (listSize : Int) (cr3List' : List ULong) : Prop where
  returns : getCr3Hypercall values cr3List listSize = .ok (cr3List', values.length)
  values : cr3List'.take values.length = values
  length : cr3List'.length = cr3List.length

theorem getCr3Hypercall_returns (hn : values.length ≤ recentCr3Size) (hlen : cr3List.length = recentCr3Size)
    {listSize : Int} (hfit : values.length + 2 < recentCr3Size) (hsize : listSize ≤ recentCr3Size) :
    ∃ cr3List', Returns values cr3List listSize cr3List' := by
  rcases clear_eq cr3List listSize.toNat 0 (Or.inr (by omega)) with ⟨zeros, hclear⟩
  have hzeros : zeros.length = recentCr3Size := by
    rw [(length_clear _ _ hclear).1, hlen]
  have hfill : (fill values zeros).length = recentCr3Size := by
    rw [length_fill, hzeros]
  rcases moveDown_eq (fill values zeros) values.length 1 (Nat.le_refl 1) (by omega)
    with ⟨moved, hmove, hmoved, hget⟩
  have hlast : 1 + values.length + 1 < moved.length := by omega
  refine ⟨moved.set (1 + values.length + 1) 0, ?_, ?_, ?_⟩
  · unfold getCr3Hypercall
    rw [hclear]
    simp only [bind, Except.bind]
    rw [load_fill hzeros]
    simp only [toInt_count hn, Int.toNat_natCast]
    rw [hmove]
    simp only
    rw [store_eq _ hlast]
    rfl
  · rw [List.take_set_of_le (by omega)]
    apply List.ext_getElem?
    intro j
    by_cases hj : j < values.length
    · rw [List.getElem?_take_of_lt hj, hget, if_pos (by omega),
        getElem?_fill (by omega) (by omega), List.getElem?_cons_succ]
    · rw [List.getElem?_eq_none (by simp; omega), List.getElem?_eq_none (by omega)]
  · rw [List.length_set, hmoved, hfill, hlen]

theorem of_getCr3Hypercall (hn : values.length ≤ recentCr3Size) (hlen : cr3List.length = recentCr3Size)
    {listSize n : Int} (h : getCr3Hypercall values cr3List listSize = .ok (cr3List', n)) :
    values.length + 2 < recentCr3Size ∧ listSize ≤ recentCr3Size := by
  unfold getCr3Hypercall at h
  rcases of_bind h with ⟨zeros, hclear, h⟩
  rcases length_clear _ _ hclear with ⟨hzeros, hsize⟩
  rcases of_bind h with ⟨count, hload, h⟩
  rw [load_fill (hzeros.trans hlen)] at hload
  cases hload
  rcases of_bind h with ⟨⟨moved, i⟩, hmove, h⟩
  rw [toInt_count hn, Int.toNat_natCast] at hmove
  rcases length_moveDown _ _ hmove with ⟨hmoved, rfl⟩
  rcases of_bind h with ⟨arr, hlast, -⟩
  have hin := (of_store hlast).1
  rw [hmoved, length_fill, hzeros, hlen] at hin
  constructor
  · omega
  · omega

/-- A call stays in the array and hands the values on exactly when two slots behind the last of them are
free and the array is not cleared beyond its end. -/
theorem getCr3Hypercall_inBounds_iff (hn : values.length ≤ recentCr3Size)
    (hlen : cr3List.length = recentCr3Size) (listSize : Int) :
    (∃ cr3List', getCr3Hypercall values cr3List listSize = .ok (cr3List', values.length) ∧
        cr3List'.take values.length = values) ↔
      values.length + 2 < recentCr3Size ∧ listSize ≤ recentCr3Size := by
  constructor
  · rintro ⟨arr, h, -⟩
    exact of_getCr3Hypercall hn hlen h
  · rintro ⟨hfit, hsize⟩
    rcases getCr3Hypercall_returns hn hlen hfit hsize with ⟨arr, h⟩
    exact ⟨arr, h.returns, h.values⟩

/-- Two values, and an array that is full of old ones. -/
theorem getCr3Hypercall_inBounds_two :
    ∃ cr3List', getCr3Hypercall [0x1000, 0x2000] (List.replicate 50 7) 50 = .ok (cr3List', 2) ∧
      cr3List'.take 2 = [0x1000, 0x2000] :=
  (@getCr3Hypercall_inBounds_iff _ [0x1000, 0x2000] (by decide) (by decide) 50).mpr (by decide)

/-- With 48 values the zero behind the list is written past the end of the array. -/
theorem getCr3Hypercall_writesPastEnd :
    getCr3Hypercall (List.replicate 48 0x1000) (List.replicate 50 0) 0 = .error .outOfRange := by
  decide +kernel

end Monitor.Fetch
