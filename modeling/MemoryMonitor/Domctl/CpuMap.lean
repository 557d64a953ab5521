import Mathlib

/-!
# CPU maps of the control interface

`cpumask_to_xenctl_cpumap` and `xenctl_cpumap_to_cpumask` carry a set of CPUs between the words of
a `cpumask_t` and the bytes of a guest buffer, which is as long as the guest says. `NR_CPUS` is a
constant of the build and stays a parameter.
-/

namespace Domctl

variable {n : ℕ}

def eFault : Int := 14

/-- `BITS_TO_LONGS(NR_CPUS)`. -/
def bitsToLongs (n : ℕ) : ℕ := (n + 63) / 64

/-- The size of `bytemap`. -/
def mapBytes (n : ℕ) : ℕ := (n + 7) / 8

/-- `cpumask_t`: the array of words. The last word can have bits beyond `NR_CPUS`. -/
structure CpuMask (n : ℕ) where
  longs : List (BitVec 64)
  size : longs.length = bitsToLongs n

def CpuMask.long (m : CpuMask n) (j : ℕ) : BitVec 64 := m.longs.getD j 0

/-- The bit of a CPU, or one that pads the last word. -/
def CpuMask.bit (m : CpuMask n) (i : ℕ) : Bool := (m.long (i / 64)).getLsbD (i % 64)

/-- `bitmap_long_to_byte`: `memcpy` on a little-endian machine. -/
def bitmapLongToByte (m : CpuMask n) : List (BitVec 8) :=
  (List.range (mapBytes n)).map fun k => (m.long (k / 8) >>> (8 * (k % 8))).setWidth 8

/-- Bytes read as one number, the least significant first. -/
def littleEndian (f : ℕ → BitVec 8) : (len : ℕ) → BitVec (8 * len)
  | 0 => 0
  | len + 1 => littleEndian (fun k => f (k + 1)) len ++ f 0

/-- `bitmap_byte_to_long`. Where the bytes end, the last word is zero. -/
def bitmapByteToLong (n : ℕ) (bytes : List (BitVec 8)) : CpuMask n where
  longs := (List.range (bitsToLongs n)).map fun j => littleEndian (fun b => bytes.getD (8 * j + b) 0) 8
  size := by simp

/-- The buffer of the guest, from the handle on: an address that cannot be accessed holds no
byte. -/
abbrev Guest := ℕ → Option (BitVec 8)

/-- `copy_to_guest_offset`: the copy stops at a fault. -/
def copyToGuest (g : Guest) (i : ℕ) : List (BitVec 8) → Bool × Guest
  | [] => (true, g)
  | b :: bytes =>
      if (g i).isSome then copyToGuest (fun k => if k = i then some b else g k) (i + 1) bytes
      else (false, g)

/-- `copy_from_guest`. -/
def copyFromGuest (g : Guest) (i : ℕ) : ℕ → Option (List (BitVec 8))
  | 0 => some []
  | len + 1 => do
      let b ← g i
      let bytes ← copyFromGuest g (i + 1) len
      return b :: bytes

/-- The loop that clears the rest of the guest's bytes, one at a time. -/
def clearRest (g : Guest) (i : ℕ) : ℕ → Bool × Guest
  | 0 => (true, g)
  | left + 1 =>
      match copyToGuest g i [0] with
      | (true, g) => clearRest g (i + 1) left
      | (false, g) => (false, g)

/-- The bytes that the guest is taken to have, computed in 32 bits. -/
def guestBytes (nrCpus : BitVec 32) : ℕ := ((nrCpus + 7) / 8).toNat

/-- `cpumask_to_xenctl_cpumap`. -/
def cpumaskToXenctlCpumap (g : Guest) (nrCpus : BitVec 32) (m : CpuMask n) : Int × Guest :=
  let copyBytes := min (guestBytes nrCpus) (mapBytes n)
  let bytemap := bitmapLongToByte m
  match if copyBytes ≠ 0 then copyToGuest g 0 (bytemap.take copyBytes) else (true, g) with
  | (false, g) => (-eFault, g)
  | (true, g) =>
      match clearRest g copyBytes (guestBytes nrCpus - copyBytes) with
      | (true, g) => (0, g)
      | (false, g) => (-eFault, g)

/-- `xenctl_cpumap_to_cpumask`: the mask, or `-EFAULT`. -/
def xenctlCpumapToCpumask (n : ℕ) (g : Guest) (nrCpus : BitVec 32) : Except Int (CpuMask n) :=
  let copyBytes := min (guestBytes nrCpus) (mapBytes n)
  let zeroes := List.replicate (mapBytes n) 0
  if copyBytes ≠ 0 then
    match copyFromGuest g 0 copyBytes with
    | none => .error (-eFault)
    | some bytes =>
        let bytemap := bytes ++ zeroes.drop copyBytes
        -- the last byte may have bits that are no CPUs of the guest's
        if nrCpus &&& 7 ≠ 0 ∧ guestBytes nrCpus ≤ mapBytes n then
          let last := guestBytes nrCpus - 1
          let keep : BitVec 32 := ~~~(0xff#32 <<< (nrCpus &&& 7))
          .ok (bitmapByteToLong n (bytemap.set last (bytemap.getD last 0 &&& keep.setWidth 8)))
        else .ok (bitmapByteToLong n bytemap)
  else .ok (bitmapByteToLong n zeroes)

/-! ## What a transfer should do -/

/-- The bytes that hold `nr_cpus` bits. -/
def bytesFor (nrCpus : BitVec 32) : ℕ := (nrCpus.toNat + 7) / 8

/-- The bit `i` of the buffer. -/
def Guest.bit (g : Guest) (i : ℕ) : Option Bool := (g (i / 8)).map (·.getLsbD (i % 8))

/-- The guest can access all its bytes. -/
def Guest.Accessible (g : Guest) (nrCpus : BitVec 32) : Prop := ∀ i < bytesFor nrCpus, (g i).isSome

/-- The buffer shows the CPUs of the mask, and is as it was behind the last byte. -/
structure Shown (m : CpuMask n) (nrCpus : BitVec 32) (g g' : Guest) : Prop where
  bits : ∀ i < 8 * bytesFor nrCpus, g'.bit i = some (decide (i < n) && m.bit i)
  frame : ∀ i, bytesFor nrCpus ≤ i → g' i = g i

/-- The two directions agree on the CPUs below `nr_cpus`. -/
structure Transfers (m : CpuMask n) (nrCpus : BitVec 32) : Prop where
  succeeds : ∀ g : Guest, g.Accessible nrCpus → (cpumaskToXenctlCpumap g nrCpus m).1 = 0
  shown : ∀ g : Guest, (cpumaskToXenctlCpumap g nrCpus m).1 = 0 →
    Shown m nrCpus g (cpumaskToXenctlCpumap g nrCpus m).2
  back : ∀ g : Guest, (cpumaskToXenctlCpumap g nrCpus m).1 = 0 →
    ∃ m', xenctlCpumapToCpumask n (cpumaskToXenctlCpumap g nrCpus m).2 nrCpus = .ok m' ∧
      ∀ i < n, m'.bit i = (decide (i < nrCpus.toNat) && m.bit i)
  reads : ∀ g : Guest, g.Accessible nrCpus →
    ∃ m', xenctlCpumapToCpumask n g nrCpus = .ok m' ∧
      ∀ i < n, m'.bit i = (decide (i < nrCpus.toNat) && (g.bit i).getD false)

/-- No padding bit of the mask's last word lies in a byte that is copied. -/
def Unpadded (m : CpuMask n) (nrCpus : BitVec 32) : Prop :=
  ∀ i, n ≤ i → i < 8 * min (bytesFor nrCpus) (mapBytes n) → m.bit i = false

/-! ## Bits and bytes -/

theorem getLsbD_littleEndian (f : ℕ → BitVec 8) {len k t : ℕ} (hk : k < len) (ht : t < 8) :
    (littleEndian f len).getLsbD (8 * k + t) = (f k).getLsbD t := by
  induction len generalizing f k with
  | zero => omega
  | succ len ih =>
      rw [littleEndian, BitVec.getLsbD_append]
      cases k with
      | zero =>
          rw [Nat.mul_zero, Nat.zero_add, if_pos ht]
      | succ k =>
          have hsub : 8 * (k + 1) + t - 8 = 8 * k + t := by omega
          rw [if_neg (by omega), hsub]
          exact ih (fun k => f (k + 1)) (by omega)

theorem getD_longToByte (m : CpuMask n) {k : ℕ} (hk : k < mapBytes n) :
    (bitmapLongToByte m).getD k 0 = (m.long (k / 8) >>> (8 * (k % 8))).setWidth 8 := by
  rw [List.getD_eq_getElem?_getD, bitmapLongToByte, List.getElem?_map, List.getElem?_range hk]
  rfl

theorem bit_longToByte (m : CpuMask n) {i : ℕ} (hi : i / 8 < mapBytes n) :
    ((bitmapLongToByte m).getD (i / 8) 0).getLsbD (i % 8) = m.bit i := by
  have hword : i / 8 / 8 = i / 64 := Nat.div_div_eq_div_mul i 8 8
  have hpos : 8 * (i / 8 % 8) + i % 8 = i % 64 := by omega
  have hlt : i % 8 < 8 := by omega
  rw [getD_longToByte m hi, BitVec.getLsbD_setWidth, BitVec.getLsbD_ushiftRight, hword, hpos]
  simp only [hlt, decide_true, Bool.true_and]
  rfl

theorem bit_byteToLong (bytes : List (BitVec 8)) {i : ℕ} (hi : i < n) :
    (bitmapByteToLong n bytes).bit i = (bytes.getD (i / 8) 0).getLsbD (i % 8) := by
  have hj : i / 64 < bitsToLongs n := by
    unfold bitsToLongs
    omega
  have hlong : (bitmapByteToLong n bytes).long (i / 64) =
      littleEndian (fun b => bytes.getD (8 * (i / 64) + b) 0) 8 := by
    rw [CpuMask.long, List.getD_eq_getElem?_getD, bitmapByteToLong, List.getElem?_map,
      List.getElem?_range hj]
    rfl
  have hpos : i % 64 = 8 * (i / 8 % 8) + i % 8 := by omega
  have hbyte : 8 * (i / 64) + i / 8 % 8 = i / 8 := by omega
  rw [CpuMask.bit, hlong, hpos]
  exact (getLsbD_littleEndian _ (by omega) (by omega)).trans (by rw [hbyte])

theorem length_longToByte (m : CpuMask n) : (bitmapLongToByte m).length = mapBytes n := by
  simp [bitmapLongToByte]

/-! ## Copies -/

/-- The buffer after bytes are written from `i` on. -/
def Guest.put (g : Guest) (i : ℕ) (bytes : List (BitVec 8)) : Guest := fun k =>
  if i ≤ k ∧ k < i + bytes.length then bytes[k - i]? else g k

theorem copyToGuest_isSome (g : Guest) (i : ℕ) (bytes : List (BitVec 8)) (k : ℕ) :
    ((copyToGuest g i bytes).2 k).isSome = (g k).isSome := by
  induction bytes generalizing g i with
  | nil => rfl
  | cons b bytes ih =>
      rw [copyToGuest]
      by_cases hi : (g i).isSome
      · rw [if_pos hi, ih]
        by_cases hk : k = i
        · simp only [hk, if_true, hi, Option.isSome_some]
        · simp only [hk, if_false]
      · rw [if_neg hi]

theorem copyToGuest_ok {g : Guest} {i : ℕ} {bytes : List (BitVec 8)}
    (h : (copyToGuest g i bytes).1 = true) : (copyToGuest g i bytes).2 = g.put i bytes := by
  induction bytes generalizing g i with
  | nil =>
      funext k
      have hk : ¬(i ≤ k ∧ k < i + ([] : List (BitVec 8)).length) := by
        simp only [List.length_nil]
        omega
      rw [Guest.put, if_neg hk]
      rfl
  | cons b bytes ih =>
      rw [copyToGuest] at h ⊢
      by_cases hi : (g i).isSome
      · rw [if_pos hi] at h ⊢
        rw [ih h]
        funext k
        unfold Guest.put
        simp only [List.length_cons]
        rcases Nat.lt_trichotomy k i with hlt | rfl | hgt
        · rw [if_neg (by omega), if_neg (by omega), if_neg (by omega)]
        · rw [if_neg (by omega), if_pos rfl, if_pos (by omega), Nat.sub_self]
          rfl
        · have hsub : k - i = (k - (i + 1)) + 1 := by omega
          rw [hsub, List.getElem?_cons_succ]
          by_cases hk : k < i + 1 + bytes.length
          · rw [if_pos (by omega), if_pos (by omega)]
          · rw [if_neg (by omega), if_neg (by omega), if_neg (by omega)]
      · rw [if_neg hi] at h
        exact absurd h Bool.false_ne_true

theorem copyToGuest_iff {g : Guest} {i : ℕ} {bytes : List (BitVec 8)} :
    (copyToGuest g i bytes).1 = true ↔ ∀ k < bytes.length, (g (i + k)).isSome := by
  induction bytes generalizing g i with
  | nil => simp [copyToGuest]
  | cons b bytes ih =>
      rw [copyToGuest]
      constructor
      · intro h k hk
        by_cases hi : (g i).isSome
        · rw [if_pos hi] at h
          cases k with
          | zero => exact hi
          | succ k =>
              have hk' : k < bytes.length := Nat.lt_of_succ_lt_succ hk
              have hk' := ih.mp h k hk'
              have hne : i + 1 + k ≠ i := by omega
              simp only [hne, if_false] at hk'
              rw [Nat.add_right_comm] at hk'
              exact hk'
        · rw [if_neg hi] at h
          exact absurd h Bool.false_ne_true
      · intro h
        have hi : (g i).isSome := h 0 (by simp)
        rw [if_pos hi]
        refine ih.mpr ?_
        intro k hk
        have hne : i + 1 + k ≠ i := by omega
        have hk' := h (k + 1) (by simpa using hk)
        simp only [hne, if_false]
        rw [Nat.add_right_comm]
        exact hk'

theorem clearRest_eq (g : Guest) (i left : ℕ) :
    clearRest g i left = copyToGuest g i (List.replicate left 0) := by
  induction left generalizing g i with
  | zero => rfl
  | succ left ih =>
      by_cases hi : (g i).isSome
      · simp only [clearRest, List.replicate_succ, copyToGuest, hi, if_true]
        exact ih _ _
      · simp only [clearRest, List.replicate_succ, copyToGuest, hi, if_false, Bool.false_eq_true]

theorem copyFromGuest_some {g : Guest} {i len : ℕ} (h : ∀ k < len, (g (i + k)).isSome) :
    ∃ bytes, copyFromGuest g i len = some bytes ∧ bytes.length = len ∧
      ∀ k < len, bytes[k]? = g (i + k) := by
  induction len generalizing i with
  | zero => exact ⟨[], rfl, rfl, fun k hk => absurd hk (Nat.not_lt_zero k)⟩
  | succ len ih =>
      obtain ⟨b, hb⟩ := Option.isSome_iff_exists.mp (h 0 (by omega))
      have hrest : ∀ k < len, (g (i + 1 + k)).isSome := by
        intro k hk
        have hk' := h (k + 1) (by omega)
        rw [Nat.add_right_comm]
        exact hk'
      obtain ⟨bytes, hcopy, hlen, hget⟩ := ih hrest
      refine ⟨b :: bytes, ?_, by simp [hlen], ?_⟩
      · rw [Nat.add_zero] at hb
        simp [copyFromGuest, hb, hcopy]
      · intro k hk
        cases k with
        | zero => exact hb.symm
        | succ k =>
            rw [List.getElem?_cons_succ, hget k (by omega), Nat.add_right_comm]
            rfl

/-! ## The two directions -/

theorem guestBytes_eq {nrCpus : BitVec 32} (h : nrCpus.toNat + 7 < 2 ^ 32) :
    guestBytes nrCpus = bytesFor nrCpus := by
  unfold guestBytes bytesFor
  rw [BitVec.toNat_udiv, BitVec.toNat_add]
  have h7 : (7 : BitVec 32).toNat = 7 := rfl
  have h8 : (8 : BitVec 32).toNat = 8 := rfl
  rw [h7, h8, Nat.mod_eq_of_lt h]

/-- From `2 ^ 32 - 7` CPUs on, no byte is left. -/
theorem guestBytes_wrapped {nrCpus : BitVec 32} (h : ¬nrCpus.toNat + 7 < 2 ^ 32) :
    guestBytes nrCpus = 0 := by
  unfold guestBytes
  rw [BitVec.toNat_udiv, BitVec.toNat_add]
  have h7 : (7 : BitVec 32).toNat = 7 := rfl
  have h8 : (8 : BitVec 32).toNat = 8 := rfl
  rw [h7, h8]
  omega

/-- All the bytes that a call writes. -/
def exported (m : CpuMask n) (nrCpus : BitVec 32) : List (BitVec 8) :=
  (bitmapLongToByte m).take (min (guestBytes nrCpus) (mapBytes n)) ++
    List.replicate (guestBytes nrCpus - min (guestBytes nrCpus) (mapBytes n)) 0

theorem length_exported (m : CpuMask n) (nrCpus : BitVec 32) :
    (exported m nrCpus).length = guestBytes nrCpus := by
  simp only [exported, List.length_append, List.length_take, length_longToByte, List.length_replicate]
  omega

theorem copyToGuest_append (g : Guest) (i : ℕ) (a b : List (BitVec 8)) :
    copyToGuest g i (a ++ b) =
      if (copyToGuest g i a).1 then copyToGuest (copyToGuest g i a).2 (i + a.length) b
      else copyToGuest g i a := by
  induction a generalizing g i with
  | nil => rfl
  | cons x a ih =>
      by_cases hi : (g i).isSome
      · simp only [List.cons_append, copyToGuest, hi, if_true]
        rw [ih, List.length_cons, Nat.add_assoc, Nat.add_comm 1]
      · simp only [List.cons_append, copyToGuest, hi, if_false, Bool.false_eq_true]

theorem cpumaskToXenctlCpumap_eq (g : Guest) (nrCpus : BitVec 32) (m : CpuMask n) :
    cpumaskToXenctlCpumap g nrCpus m =
      (if (copyToGuest g 0 (exported m nrCpus)).1 then 0 else -eFault,
        (copyToGuest g 0 (exported m nrCpus)).2) := by
  have hfirst : (if min (guestBytes nrCpus) (mapBytes n) ≠ 0 then
      copyToGuest g 0 ((bitmapLongToByte m).take (min (guestBytes nrCpus) (mapBytes n))) else (true, g)) =
      copyToGuest g 0 ((bitmapLongToByte m).take (min (guestBytes nrCpus) (mapBytes n))) := by
    by_cases hzero : min (guestBytes nrCpus) (mapBytes n) = 0
    · rw [hzero]
      rfl
    · rw [if_pos hzero]
  have hlen : ((bitmapLongToByte m).take (min (guestBytes nrCpus) (mapBytes n))).length =
      min (guestBytes nrCpus) (mapBytes n) := by
    rw [List.length_take, length_longToByte]
    omega
  unfold cpumaskToXenctlCpumap exported
  dsimp only
  rw [hfirst, copyToGuest_append, hlen, Nat.zero_add]
  simp only [clearRest_eq]
  generalize copyToGuest g 0 ((bitmapLongToByte m).take (min (guestBytes nrCpus) (mapBytes n))) = c
  rcases c with ⟨ok, g'⟩
  cases ok with
  | false => rfl
  | true =>
      simp only [if_true]
      generalize copyToGuest g' (min (guestBytes nrCpus) (mapBytes n)) _ = c'
      rcases c' with ⟨ok, g''⟩
      cases ok <;> rfl

theorem cpumaskToXenctlCpumap_zero {g : Guest} {nrCpus : BitVec 32} {m : CpuMask n}
    (h : (cpumaskToXenctlCpumap g nrCpus m).1 = 0) :
    (cpumaskToXenctlCpumap g nrCpus m).2 = g.put 0 (exported m nrCpus) ∧
      ∀ i < guestBytes nrCpus, (g i).isSome := by
  rw [cpumaskToXenctlCpumap_eq] at h ⊢
  have hok : (copyToGuest g 0 (exported m nrCpus)).1 = true := by
    by_contra hfail
    rw [if_neg hfail] at h
    exact absurd h (by decide : -eFault ≠ 0)
  refine ⟨copyToGuest_ok hok, ?_⟩
  intro i hi
  have hget := copyToGuest_iff.mp hok i (by rw [length_exported]; exact hi)
  rw [Nat.zero_add] at hget
  exact hget

/-- The bits that a call writes. -/
theorem exported_bit (g : Guest) (nrCpus : BitVec 32) (m : CpuMask n) {i : ℕ}
    (hi : i / 8 < guestBytes nrCpus) :
    (g.put 0 (exported m nrCpus)).bit i = some (decide (i / 8 < mapBytes n) && m.bit i) := by
  have hlen : ((bitmapLongToByte m).take (min (guestBytes nrCpus) (mapBytes n))).length =
      min (guestBytes nrCpus) (mapBytes n) := by
    rw [List.length_take, length_longToByte]
    omega
  have hput : g.put 0 (exported m nrCpus) (i / 8) = (exported m nrCpus)[i / 8]? := by
    unfold Guest.put
    rw [if_pos, Nat.sub_zero]
    rw [length_exported]
    omega
  rw [Guest.bit, hput, exported, List.getElem?_append, hlen]
  by_cases hmap : i / 8 < mapBytes n
  · have hmin : i / 8 < min (guestBytes nrCpus) (mapBytes n) := by omega
    have hget : ((bitmapLongToByte m).take (min (guestBytes nrCpus) (mapBytes n)))[i / 8]? =
        some ((bitmapLongToByte m).getD (i / 8) 0) := by
      rw [List.getElem?_take_of_lt hmin, List.getD_eq_getElem?_getD]
      rw [List.getElem?_eq_getElem (by rw [length_longToByte]; exact hmap)]
      rfl
    rw [if_pos hmin, hget, Option.map_some, bit_longToByte m hmap]
    simp only [hmap, decide_true, Bool.true_and]
  · have hmin : ¬i / 8 < min (guestBytes nrCpus) (mapBytes n) := by omega
    rw [if_neg hmin, List.getElem?_replicate, if_pos (by omega)]
    simp [hmap]

/-- What the mask of the last byte keeps. -/
theorem getLsbD_keep (nrCpus : BitVec 32) {t : ℕ} (ht : t < 8) :
    ((~~~(0xff#32 <<< (nrCpus &&& 7))).setWidth 8).getLsbD t = decide (t < nrCpus.toNat % 8) := by
  have hand : (nrCpus &&& 7).toNat = nrCpus.toNat % 8 := by
    rw [BitVec.toNat_and]
    exact Nat.and_two_pow_sub_one_eq_mod _ 3
  have hones : ∀ j : Fin 8, (0xff#32).getLsbD j.val = true := by decide
  rw [BitVec.getLsbD_setWidth, BitVec.getLsbD_not, BitVec.shiftLeft_eq', BitVec.getLsbD_shiftLeft, hand]
  have ht32 : t < 32 := by omega
  simp only [ht, ht32, decide_true, Bool.true_and]
  by_cases hk : t < nrCpus.toNat % 8
  · simp only [hk, decide_true, Bool.not_true, Bool.false_and, Bool.not_false]
  · have hone := hones ⟨t - nrCpus.toNat % 8, by omega⟩
    dsimp only at hone
    rw [hone]
    simp [hk]

theorem and7_ne_zero (nrCpus : BitVec 32) : nrCpus &&& 7 ≠ 0 ↔ nrCpus.toNat % 8 ≠ 0 := by
  have hand : (nrCpus &&& 7).toNat = nrCpus.toNat % 8 := by
    rw [BitVec.toNat_and]
    exact Nat.and_two_pow_sub_one_eq_mod _ 3
  rw [← hand, ne_eq, ne_eq, ← BitVec.toNat_inj]
  rfl

/-- The way back takes the bits below `nr_cpus`, of whatever bytes the guest has. -/
theorem xenctlCpumapToCpumask_reads (n : ℕ) {g : Guest} {nrCpus : BitVec 32}
    (hsize : nrCpus.toNat + 7 < 2 ^ 32) (hg : g.Accessible nrCpus) :
    ∃ m, xenctlCpumapToCpumask n g nrCpus = .ok m ∧
      ∀ i < n, m.bit i = (decide (i < nrCpus.toNat) && (g.bit i).getD false) := by
  have hbytes := guestBytes_eq hsize
  have hbelow : ∀ i < n, i / 8 < mapBytes n := by
    intro i hi
    unfold mapBytes
    omega
  unfold xenctlCpumapToCpumask
  rw [hbytes]
  dsimp only
  by_cases hzero : min (bytesFor nrCpus) (mapBytes n) = 0
  · rw [if_neg (fun h => h hzero)]
    refine ⟨_, rfl, ?_⟩
    intro i hi
    have hlt := hbelow i hi
    have hnone : ¬i < nrCpus.toNat := by
      unfold bytesFor at hzero
      omega
    rw [bit_byteToLong _ hi, List.getD_eq_getElem?_getD, List.getElem?_replicate, if_pos hlt]
    simp [hnone]
  · rw [if_pos hzero]
    have hread : ∀ k < min (bytesFor nrCpus) (mapBytes n), (g (0 + k)).isSome := by
      intro k hk
      rw [Nat.zero_add]
      exact hg k (by omega)
    obtain ⟨bytes, hcopy, hlen, hget⟩ := copyFromGuest_some hread
    simp only [hcopy]
    have hmap : ∀ k, (bytes ++ (List.replicate (mapBytes n) 0).drop (min (bytesFor nrCpus) (mapBytes n))).getD k 0 =
        if k < min (bytesFor nrCpus) (mapBytes n) then (g k).getD 0 else 0 := by
      intro k
      rw [List.getD_eq_getElem?_getD, List.getElem?_append, hlen]
      by_cases hk : k < min (bytesFor nrCpus) (mapBytes n)
      · rw [if_pos hk, if_pos hk, hget k hk, Nat.zero_add]
      · rw [if_neg hk, if_neg hk, List.getElem?_drop, List.getElem?_replicate]
        split <;> rfl
    have hbit : ∀ i, i / 8 < bytesFor nrCpus → ((g (i / 8)).getD 0).getLsbD (i % 8) = (g.bit i).getD false := by
      intro i hi
      obtain ⟨b, hb⟩ := Option.isSome_iff_exists.mp (hg (i / 8) hi)
      rw [Guest.bit, hb]
      rfl
    have hplain : ∀ i < n, (nrCpus.toNat % 8 = 0 ∨ i / 8 ≠ bytesFor nrCpus - 1) →
        ((if i / 8 < min (bytesFor nrCpus) (mapBytes n) then (g (i / 8)).getD 0 else 0).getLsbD (i % 8)) =
          (decide (i < nrCpus.toNat) && (g.bit i).getD false) := by
      intro i hi hlast
      have hlt := hbelow i hi
      by_cases hk : i / 8 < bytesFor nrCpus
      · have hin : i < nrCpus.toNat := by
          unfold bytesFor at hk hlast
          omega
        rw [if_pos (by omega), hbit i hk]
        simp [hin]
      · have hout : ¬i < nrCpus.toNat := by
          unfold bytesFor at hk
          omega
        rw [if_neg (by omega)]
        simp [hout]
    by_cases hmask : nrCpus &&& 7 ≠ 0 ∧ bytesFor nrCpus ≤ mapBytes n
    · rw [if_pos hmask]
      refine ⟨_, rfl, ?_⟩
      intro i hi
      have hrest := (and7_ne_zero nrCpus).mp hmask.1
      rw [bit_byteToLong _ hi, List.getD_eq_getElem?_getD, List.getElem?_set]
      by_cases hlast : bytesFor nrCpus - 1 = i / 8
      · have hlen' : i / 8 < (bytes ++ (List.replicate (mapBytes n) 0).drop
            (min (bytesFor nrCpus) (mapBytes n))).length := by
          have hlt := hbelow i hi
          simp only [List.length_append, hlen, List.length_drop, List.length_replicate]
          omega
        have hk : i / 8 < bytesFor nrCpus := by omega
        have hcut : decide (i < nrCpus.toNat) = decide (i % 8 < nrCpus.toNat % 8) := by
          refine decide_eq_decide.mpr ?_
          unfold bytesFor at hlast
          omega
        rw [if_pos hlast, if_pos (hlast ▸ hlen'), Option.getD_some, BitVec.getLsbD_and,
          getLsbD_keep _ (by omega), hmap, if_pos (by omega), hlast, hbit i hk, hcut, Bool.and_comm]
      · rw [if_neg hlast, ← List.getD_eq_getElem?_getD, hmap]
        exact hplain i hi (Or.inr (Ne.symm hlast))
    · rw [if_neg hmask]
      refine ⟨_, rfl, ?_⟩
      intro i hi
      rw [bit_byteToLong _ hi, hmap]
      refine hplain i hi ?_
      by_contra hnot
      push Not at hnot
      refine hmask ⟨(and7_ne_zero nrCpus).mpr hnot.1, ?_⟩
      have hlt := hbelow i hi
      omega

/-- The transfer is right if and only if rounding up does not overflow and no padding bit is
copied. -/
theorem transfers_iff (m : CpuMask n) (nrCpus : BitVec 32) :
    Transfers m nrCpus ↔ nrCpus.toNat + 7 < 2 ^ 32 ∧ Unpadded m nrCpus := by
  constructor
  · intro h
    have hsize : nrCpus.toNat + 7 < 2 ^ 32 := by
      by_contra hwrap
      have hnone := guestBytes_wrapped hwrap
      -- no byte is written, so what the buffer held before is what it shows
      let g : Guest := fun _ => some (if decide (0 < n) && m.bit 0 then 0 else 0xff)
      have hzero := h.succeeds g (fun _ _ => rfl)
      have hput := (cpumaskToXenctlCpumap_zero hzero).1
      have hexp : exported m nrCpus = [] := List.eq_nil_of_length_eq_zero ((length_exported m nrCpus).trans hnone)
      have hshown := (h.shown g hzero).bits 0 (by unfold bytesFor; omega)
      rw [hput, hexp] at hshown
      have hbit : (g.put 0 []).bit 0 = some (!(decide (0 < n) && m.bit 0)) := by
        show some ((if decide (0 < n) && m.bit 0 then (0 : BitVec 8) else 0xff).getLsbD 0) = _
        cases decide (0 < n) && m.bit 0 <;> rfl
      rw [hbit] at hshown
      have hcontra := Option.some.inj hshown
      cases hb : decide (0 < n) && m.bit 0 <;> rw [hb] at hcontra <;> exact absurd hcontra (by decide)
    refine ⟨hsize, ?_⟩
    intro i hn hi
    let g : Guest := fun _ => some 0
    have hzero := h.succeeds g (fun _ _ => rfl)
    have hput := (cpumaskToXenctlCpumap_zero hzero).1
    have hshown := (h.shown g hzero).bits i (by omega)
    have hmap : i / 8 < mapBytes n := by omega
    rw [hput, exported_bit g nrCpus m (by rw [guestBytes_eq hsize]; omega)] at hshown
    have hbit := Option.some.inj hshown
    have hout : ¬i < n := by omega
    simpa [hmap, hout] using hbit
  · rintro ⟨hsize, hpad⟩
    have hbytes := guestBytes_eq hsize
    have hshown : ∀ g : Guest, (cpumaskToXenctlCpumap g nrCpus m).1 = 0 →
        Shown m nrCpus g (cpumaskToXenctlCpumap g nrCpus m).2 := by
      intro g hzero
      rw [(cpumaskToXenctlCpumap_zero hzero).1]
      constructor
      · intro i hi
        rw [exported_bit g nrCpus m (by omega)]
        congr 1
        by_cases hin : i < n
        · have hmap : i / 8 < mapBytes n := by
            unfold mapBytes
            omega
          simp [hin, hmap]
        · by_cases hmap : i / 8 < mapBytes n
          · have hclear := hpad i (by omega) (by omega)
            simp [hclear]
          · simp [hin, hmap]
      · intro i hi
        rw [Guest.put, if_neg]
        rw [length_exported]
        omega
    constructor
    · intro g hg
      rw [cpumaskToXenctlCpumap_eq]
      refine if_pos (copyToGuest_iff.mpr ?_)
      intro k hk
      rw [length_exported, hbytes] at hk
      rw [Nat.zero_add]
      exact hg k hk
    · exact hshown
    · intro g hzero
      have hbits := (hshown g hzero).bits
      have hacc : Guest.Accessible (cpumaskToXenctlCpumap g nrCpus m).2 nrCpus := by
        intro i hi
        rw [cpumaskToXenctlCpumap_eq, copyToGuest_isSome]
        exact (cpumaskToXenctlCpumap_zero hzero).2 i (by omega)
      obtain ⟨m', hm', hback⟩ := xenctlCpumapToCpumask_reads n hsize hacc
      refine ⟨m', hm', ?_⟩
      intro i hi
      rw [hback i hi]
      by_cases hin : i < nrCpus.toNat
      · rw [hbits i (by unfold bytesFor; omega)]
        simp [hi]
      · simp [hin]
    · intro g hg
      exact xenctlCpumapToCpumask_reads n hsize hg

/-- All CPUs of a machine with 128. -/
def allCpus : CpuMask 128 := ⟨[BitVec.allOnes 64, BitVec.allOnes 64], rfl⟩

/-- A caller that says it has `2 ^ 32 - 1` CPUs is told nothing: no byte of its buffer is written,
though the call succeeds. -/
theorem transfer_wraps :
    ¬Transfers allCpus 0xFFFFFFFF ∧
      cpumaskToXenctlCpumap (fun _ => some 0) 0xFFFFFFFF allCpus = (0, fun _ => some 0) := by
  constructor
  · intro h
    have hzero : (cpumaskToXenctlCpumap (fun _ => some 0) 0xFFFFFFFF allCpus).1 = 0 := by decide
    have hshown := (h.shown _ hzero).bits 0 (by decide)
    exact absurd hshown (by decide)
  · rfl

end Domctl
