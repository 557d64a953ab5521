import Mathlib

/-!
# Counters that wrap

A register shows the low bits of a counter that goes on for ever. The difference of two readings, cut to
the width of the register, is how far the counter has gone, if that is less than one wrap.
-/

namespace Wrap

variable {n w : Nat}

theorem toNat_and_mask (x : BitVec n) {mask : BitVec n} (hmask : mask.toNat + 1 = 2 ^ w) :
    (x &&& mask).toNat = x.toNat % 2 ^ w := by
  have h : mask.toNat = 2 ^ w - 1 := by omega
  rw [BitVec.toNat_and, h, Nat.and_two_pow_sub_one_eq_mod]

theorem width_le {mask : BitVec n} (hmask : mask.toNat + 1 = 2 ^ w) : w ≤ n := by
  by_contra hn
  have hpow : 2 ^ (n + 1) ≤ 2 ^ w := Nat.pow_le_pow_right (by decide) (by omega)
  rw [Nat.pow_succ] at hpow
  have hpos : 0 < 2 ^ n := Nat.two_pow_pos n
  omega

/-- How far the counter has gone between two readings. -/
theorem toNat_sub_and_mask {mask : BitVec n} (hmask : mask.toNat + 1 = 2 ^ w) {count stamp : BitVec n}
    {t t₀ : Nat} (hcount : count.toNat % 2 ^ w = t % 2 ^ w) (hstamp : stamp.toNat % 2 ^ w = t₀ % 2 ^ w)
    (hle : t₀ ≤ t) (hlt : t - t₀ < 2 ^ w) : ((count - stamp) &&& mask).toNat = t - t₀ := by
  have hdvd : 2 ^ w ∣ 2 ^ n := Nat.pow_dvd_pow 2 (width_le hmask)
  have hsum : (count - stamp).toNat + stamp.toNat ≡ count.toNat [MOD 2 ^ w] := by
    apply Nat.ModEq.of_dvd hdvd
    have hback : (count - stamp) + stamp = count := BitVec.sub_add_cancel count stamp
    have htoNat := BitVec.toNat_add (count - stamp) stamp
    rw [hback] at htoNat
    unfold Nat.ModEq
    rw [← htoNat, Nat.mod_eq_of_lt count.isLt]
  rw [toNat_and_mask _ hmask]
  have hgone : (count - stamp).toNat ≡ t - t₀ [MOD 2 ^ w] := by
    apply Nat.ModEq.add_right_cancel (c := stamp.toNat) (d := t₀) hstamp
    rw [Nat.sub_add_cancel hle]
    exact hsum.trans hcount
  rw [hgone, Nat.mod_eq_of_lt hlt]

theorem ofNat_add_sub {a b : Nat} (x : BitVec n) (h : b ≤ a) :
    (x + BitVec.ofNat n a) - (x + BitVec.ofNat n b) = BitVec.ofNat n (a - b) := by
  have hsplit : BitVec.ofNat n a = BitVec.ofNat n (a - b) + BitVec.ofNat n b := by
    rw [← BitVec.ofNat_add, Nat.sub_add_cancel h]
  have hcomm : x + (BitVec.ofNat n (a - b) + BitVec.ofNat n b) =
      BitVec.ofNat n (a - b) + (x + BitVec.ofNat n b) := by
    rw [← BitVec.add_assoc, BitVec.add_comm x, BitVec.add_assoc]
  rw [hsplit, hcomm, BitVec.add_sub_cancel]

end Wrap
