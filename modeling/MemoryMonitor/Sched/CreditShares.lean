import MemoryMonitor.Sched.CreditWeights

/-!
# The credit scheduler: the share of a domain

What `csched_acct` computes for one domain, without a word size: the credits its vCPUs can use at most,
its part of the credits by weight, and what is left over for the domains that come after it. The values
of `csched_acct` are these as long as the numerators fit into 32 bits, which nothing checks: with 73 CPUs
the share of a single domain can be off by the factor 15.
-/

namespace Sched.Credit

variable {D : Type}

/-! ## The shares as numbers -/

/-- `credit_cap` of a domain. -/
def Sdom.capOf (x : Sdom D) : Nat :=
  (x.cap * creditsPerAcct) ⌈/⌉ 100

/-- `credit_peak`. -/
def Sdom.peakOf (x : Sdom D) (weightTotal : Nat) (balance : Int) : Nat :=
  let peak := x.activeVcpuCount * creditsPerAcct +
    if balance < 0 then (balance.natAbs * x.weight * x.activeVcpuCount) ⌈/⌉ weightTotal else 0
  if x.cap ≠ 0 then min x.capOf peak else peak

/-- `credit_fair`, of `total` credits. -/
def Sdom.fairOf (x : Sdom D) (weightTotal total : Nat) : Nat :=
  (total * x.weight * x.activeVcpuCount) ⌈/⌉ weightTotal

/-- The share of the domain, and of each of its active vCPUs. -/
def Sdom.shareOf (x : Sdom D) (weightTotal : Nat) (balance : Int) (total : Nat) : Nat :=
  min (x.fairOf weightTotal total) (x.peakOf weightTotal balance)

def Sdom.vcpuShareOf (x : Sdom D) (weightTotal : Nat) (balance : Int) (total : Nat) : Nat :=
  x.shareOf weightTotal balance total ⌈/⌉ x.activeVcpuCount

/-- The credits that the domain cannot use go to the domains of weight `left` that are still to come. -/
def Sdom.totalOf (x : Sdom D) (weightTotal left : Nat) (balance : Int) (total : Nat) : Nat :=
  if x.peakOf weightTotal balance ≤ x.fairOf weightTotal total ∧ left ≠ 0 then
    total + ((x.fairOf weightTotal total - x.peakOf weightTotal balance) * weightTotal) ⌈/⌉ left
  else total

/-- `csched_dom_cntl` takes 16 bits, and the assertions of the loop exclude 0. -/
structure Sdom.InRange (x : Sdom D) : Prop where
  count_pos : 0 < x.activeVcpuCount
  count_lt : x.activeVcpuCount < 2 ^ 16
  weight_pos : 0 < x.weight
  cap_lt : x.cap < 2 ^ 16

/-- The numerator of the part of `credit_peak` that the balance allows has 32 bits. -/
def Sdom.PeakFits (x : Sdom D) (weightTotal : Nat) (balance : Int) : Prop :=
  balance < 0 → balance.natAbs * x.weight * x.activeVcpuCount + (weightTotal - 1) < 2 ^ 32

def Sdom.FairFits (x : Sdom D) (weightTotal total : Nat) : Prop :=
  total * x.weight * x.activeVcpuCount + (weightTotal - 1) < 2 ^ 32

/-- And those of the credits handed on. -/
def Sdom.TotalFits (x : Sdom D) (weightTotal left : Nat) (balance : Int) (total : Nat) : Prop :=
  (x.fairOf weightTotal total - x.peakOf weightTotal balance) * weightTotal + (left - 1) < 2 ^ 32 ∧
    x.totalOf weightTotal left balance total < 2 ^ 32

/-! ## Division -/

theorem add_pred_div {b : Nat} (a : Nat) (hb : 0 < b) : (a + (b - 1)) / b = a ⌈/⌉ b := by
  rw [Nat.ceilDiv_eq_add_pred_div, Nat.add_sub_assoc hb]

theorem ceilDiv_mono {a a' : Nat} (b : Nat) (h : a ≤ a') : a ⌈/⌉ b ≤ a' ⌈/⌉ b := by
  rw [Nat.ceilDiv_eq_add_pred_div, Nat.ceilDiv_eq_add_pred_div]
  exact Nat.div_le_div_right (by omega)

/-- A quotient by a word is right exactly if nothing was cut off before. -/
theorem u32_div_eq_iff {n w : Nat} (hw : 0 < w) (hlt : w < 2 ^ 32) :
    u32 n / w = n / w ↔ n < 2 ^ 32 := by
  constructor
  · intro h
    by_contra hge
    have hcut : u32 n ≤ n - 2 ^ 32 := by
      unfold u32
      omega
    have hdiv : u32 n / w ≤ (n - 2 ^ 32) / w := Nat.div_le_div_right hcut
    have hnext : (n - 2 ^ 32) / w + 1 ≤ n / w := by
      rw [← Nat.add_div_right _ hw]
      exact Nat.div_le_div_right (by omega)
    omega
  · intro h
    rw [State.u32_natCast h]

/-- The products of the source, as numbers. -/
theorem cast_numerator {x y z w : Nat} (hw : 0 < w) :
    (x : Int) * y * z + ((w : Int) - 1) = ((x * y * z + (w - 1) : Nat) : Int) := by
  rw [Nat.cast_add, Nat.cast_sub hw, Nat.cast_mul, Nat.cast_mul, Nat.cast_one]

/-- A cap, if there is one, is an upper bound. -/
theorem capped (cap capOf peak : Nat) :
    (if cap ≠ 0 ∧ capOf < peak then capOf else peak) = if cap ≠ 0 then min capOf peak else peak := by
  by_cases hcap : cap ≠ 0
  · rw [if_pos hcap]
    by_cases hlt : capOf < peak
    · rw [if_pos ⟨hcap, hlt⟩, min_eq_left hlt.le]
    · rw [if_neg fun h => hlt h.2, min_eq_right (not_lt.mp hlt)]
  · rw [if_neg hcap, if_neg fun h => hcap h.1]

variable [DecidableEq D] {a : Acct D} {weightTotal : Nat} {d : D}

namespace Acct

/-- Only sizes that the assertions and the types of the source grant. -/
structure Visits (a : Acct D) (weightTotal : Nat) (d : D) : Prop where
  sdom : (a.state.sdom d).InRange
  share : a.share d ≤ a.weightLeft
  left : a.weightLeft ≤ weightTotal
  total : weightTotal < 2 ^ 32
  balance : -2 ^ 31 ≤ a.state.creditBalance

omit [DecidableEq D] in
theorem Visits.share_pos (h : a.Visits weightTotal d) : 0 < a.share d :=
  Nat.mul_pos h.sdom.weight_pos h.sdom.count_pos

theorem Visits.weightTotal_pos (h : a.Visits weightTotal d) : 0 < weightTotal :=
  (h.share_pos.trans_le h.share).trans_le h.left

theorem Visits.creditFair_eq_iff (h : a.Visits weightTotal d) :
    a.creditFair weightTotal d = (a.state.sdom d).fairOf weightTotal a.creditTotal ↔
      (a.state.sdom d).FairFits weightTotal a.creditTotal := by
  unfold creditFair Sdom.fairOf Sdom.FairFits
  dsimp only
  rw [cast_numerator h.weightTotal_pos, ← add_pred_div _ h.weightTotal_pos]
  exact u32_div_eq_iff h.weightTotal_pos h.total

omit [DecidableEq D] in
theorem Visits.creditCap_eq (a : Acct D) (d : D) : a.creditCap d = (a.state.sdom d).capOf := by
  unfold creditCap Sdom.capOf
  exact add_pred_div (b := 100) _ (Nat.succ_pos 99)

theorem Visits.balance_part (h : a.Visits weightTotal d) :
    (a.state.creditBalance.natAbs * (a.state.sdom d).weight * (a.state.sdom d).activeVcpuCount)
      ⌈/⌉ weightTotal ≤ a.state.creditBalance.natAbs := by
  rw [ceilDiv_le_iff_le_mul h.weightTotal_pos, Nat.mul_assoc, Nat.mul_comm]
  exact Nat.mul_le_mul_right _ (h.share.trans h.left)

theorem Visits.creditPeak_eq (h : a.Visits weightTotal d)
    (hfits : (a.state.sdom d).PeakFits weightTotal a.state.creditBalance) :
    a.creditPeak weightTotal d = (a.state.sdom d).peakOf weightTotal a.state.creditBalance := by
  have hbalance := h.balance
  have hcount := h.sdom.count_lt
  have hper : creditsPerAcct = 300 := rfl
  have hbase : u32 (((a.state.sdom d).activeVcpuCount : Int) * creditsPerAcct)
      = (a.state.sdom d).activeVcpuCount * creditsPerAcct := by
    rw [← Nat.cast_mul]
    exact State.u32_natCast (by rw [hper]; omega)
  unfold creditPeak Sdom.peakOf
  dsimp only
  rw [hbase, Visits.creditCap_eq]
  by_cases hneg : a.state.creditBalance < 0
  · have hpart := h.balance_part
    have habs : -a.state.creditBalance = (a.state.creditBalance.natAbs : Int) := by omega
    rw [if_pos hneg, if_pos hneg, habs, cast_numerator h.weightTotal_pos,
      State.u32_natCast (hfits hneg), ← Int.natCast_ediv, add_pred_div _ h.weightTotal_pos,
      ← Nat.cast_add, State.u32_natCast (by rw [hper]; omega)]
    exact capped ..
  · rw [if_neg hneg, if_neg hneg, Nat.add_zero]
    exact capped ..

theorem Visits.peakOf_lt (h : a.Visits weightTotal d) :
    (a.state.sdom d).peakOf weightTotal a.state.creditBalance + (a.state.sdom d).activeVcpuCount
      < 2 ^ 32 := by
  have hbalance := h.balance
  have hcount := h.sdom.count_lt
  have hper : creditsPerAcct = 300 := rfl
  have hpart := h.balance_part
  unfold Sdom.peakOf
  dsimp only
  rw [hper]
  generalize (a.state.creditBalance.natAbs * _ * _) ⌈/⌉ weightTotal = part at hpart
  split <;> split <;> omega

/-! ## The outer loop -/

theorem fairShare_snd (a : Acct D) (weightTotal : Nat) (d : D) :
    (a.fairShare weightTotal d).2
      = u32 ((min (a.creditFair weightTotal d) (a.creditPeak weightTotal d) : Nat) +
          ((a.state.sdom d).activeVcpuCount - 1)) / (a.state.sdom d).activeVcpuCount := by
  unfold fairShare
  dsimp only
  split
  · rename_i hlt
    change a.creditFair weightTotal d < a.creditPeak weightTotal d at hlt
    rw [min_eq_left hlt.le]
    rfl
  · rename_i hge
    change ¬ a.creditFair weightTotal d < a.creditPeak weightTotal d at hge
    rw [min_eq_right (not_lt.mp hge)]
    rfl

theorem fairShare_creditTotal (a : Acct D) (weightTotal : Nat) (d : D) :
    (a.fairShare weightTotal d).1.creditTotal
      = if a.creditPeak weightTotal d ≤ a.creditFair weightTotal d ∧ u32 (a.weightLeft - a.share d) ≠ 0
        then u32 (a.creditTotal + u32 ((a.creditFair weightTotal d - a.creditPeak weightTotal d)
          * weightTotal + (u32 (a.weightLeft - a.share d) - 1)) / u32 (a.weightLeft - a.share d))
        else a.creditTotal := by
  unfold fairShare
  dsimp only
  split
  · rename_i hlt
    change a.creditFair weightTotal d < a.creditPeak weightTotal d at hlt
    rw [if_neg fun h => absurd hlt (Nat.not_lt.mpr h.1)]
  · rename_i hge
    change ¬ a.creditFair weightTotal d < a.creditPeak weightTotal d at hge
    by_cases hleft : u32 (a.weightLeft - a.share d) ≠ 0
    · refine Eq.trans ?_ (if_pos ⟨Nat.not_lt.mp hge, hleft⟩).symm
      rw [if_pos hleft]
      split <;> rfl
    · refine Eq.trans ?_ (if_neg fun h => hleft h.2).symm
      rw [if_neg hleft]
      split <;> rfl

theorem Visits.fairShare_snd_eq (h : a.Visits weightTotal d)
    (hfits : (a.state.sdom d).PeakFits weightTotal a.state.creditBalance) :
    (a.fairShare weightTotal d).2 = min (a.creditFair weightTotal d)
      ((a.state.sdom d).peakOf weightTotal a.state.creditBalance) ⌈/⌉
        (a.state.sdom d).activeVcpuCount := by
  have hpos := h.sdom.count_pos
  have hlt := h.peakOf_lt
  rw [fairShare_snd, h.creditPeak_eq hfits]
  generalize hm : min (a.creditFair weightTotal d) _ = m
  have hle : m ≤ (a.state.sdom d).peakOf weightTotal a.state.creditBalance := hm ▸ min_le_right ..
  have hcast : (m : Int) + (((a.state.sdom d).activeVcpuCount : Int) - 1)
      = ((m + ((a.state.sdom d).activeVcpuCount - 1) : Nat) : Int) := by omega
  rw [hcast, State.u32_natCast (by omega), add_pred_div _ hpos]

theorem Visits.fairShare_creditTotal_eq (h : a.Visits weightTotal d)
    (hpeak : (a.state.sdom d).PeakFits weightTotal a.state.creditBalance)
    (hfair : (a.state.sdom d).FairFits weightTotal a.creditTotal)
    (htotal : (a.state.sdom d).TotalFits weightTotal (a.weightLeft - a.share d)
      a.state.creditBalance a.creditTotal) :
    (a.fairShare weightTotal d).1.creditTotal
      = (a.state.sdom d).totalOf weightTotal (a.weightLeft - a.share d) a.state.creditBalance
        a.creditTotal := by
  have hlt : a.weightLeft < 2 ^ 32 := h.left.trans_lt h.total
  obtain ⟨hnum, hsum⟩ := htotal
  rw [fairShare_creditTotal, h.creditPeak_eq hpeak, h.creditFair_eq_iff.mpr hfair,
    State.u32_sub h.share hlt]
  unfold Sdom.totalOf at hsum ⊢
  by_cases hc : (a.state.sdom d).peakOf weightTotal a.state.creditBalance
      ≤ (a.state.sdom d).fairOf weightTotal a.creditTotal ∧ a.weightLeft - a.share d ≠ 0
  · rw [if_pos hc] at hsum
    rw [if_pos hc, if_pos hc]
    obtain ⟨hle, hne⟩ := hc
    generalize (a.state.sdom d).fairOf weightTotal a.creditTotal = fair at hnum hsum hle ⊢
    generalize (a.state.sdom d).peakOf weightTotal a.state.creditBalance = peak at hnum hsum hle ⊢
    generalize a.weightLeft - a.share d = left at hnum hsum hne ⊢
    have hcast : ((fair : Int) - peak) * weightTotal + ((left : Int) - 1)
        = (((fair - peak) * weightTotal + (left - 1) : Nat) : Int) := by
      rw [Nat.cast_add, Nat.cast_mul, Nat.cast_sub hle, Nat.cast_sub (by omega), Nat.cast_one]
    rw [hcast, State.u32_natCast hnum, ← Int.natCast_ediv, add_pred_div _ (by omega), ← Nat.cast_add,
      State.u32_natCast hsum]
  · rw [if_neg hc, if_neg hc]

/-! ## The cap -/

theorem Visits.creditCapVcpu_eq (h : a.Visits weightTotal d) :
    a.creditCapVcpu d = (a.state.sdom d).capOf ⌈/⌉ (a.state.sdom d).activeVcpuCount := by
  have hpos := h.sdom.count_pos
  have hcount := h.sdom.count_lt
  have hcap := h.sdom.cap_lt
  have hle : (a.state.sdom d).capOf < 2 ^ 20 := by
    unfold Sdom.capOf
    rw [Nat.ceilDiv_eq_add_pred_div, show creditsPerAcct = 300 from rfl]
    omega
  unfold creditCapVcpu
  dsimp only
  rw [Visits.creditCap_eq]
  generalize (a.state.sdom d).capOf = cap at hle ⊢
  have hcast : (cap : Int) + (((a.state.sdom d).activeVcpuCount : Int) - 1)
      = ((cap + ((a.state.sdom d).activeVcpuCount - 1) : Nat) : Int) := by omega
  rw [hcast, State.u32_natCast (by omega), add_pred_div _ hpos]

/-- `credit < -credit_cap` compares an `int` with a `uint32_t`; it is the comparison of numbers as the
cap of a vCPU is not 0. -/
theorem Visits.below_cap_iff (h : a.Visits weightTotal d) (hcap : (a.state.sdom d).cap ≠ 0) {credit : Int}
    (hneg : credit < 0) (hint : -2 ^ 31 ≤ credit) :
    u32 credit < u32 (-a.creditCapVcpu d) ↔ credit < -a.creditCapVcpu d := by
  have hpos := h.sdom.count_pos
  have hlt := h.sdom.cap_lt
  have hcapOf : 0 < (a.state.sdom d).capOf ∧ (a.state.sdom d).capOf < 2 ^ 20 := by
    unfold Sdom.capOf
    rw [Nat.ceilDiv_eq_add_pred_div, show creditsPerAcct = 300 from rfl]
    omega
  have hvcpu : 0 < a.creditCapVcpu d ∧ a.creditCapVcpu d ≤ (a.state.sdom d).capOf := by
    rw [h.creditCapVcpu_eq]
    constructor
    · by_contra hzero
      have hle := (ceilDiv_le_iff_le_mul hpos).mp (Nat.le_of_not_lt hzero)
      omega
    · rw [ceilDiv_le_iff_le_mul hpos]
      exact Nat.le_mul_of_pos_left _ hpos
  unfold u32
  omega

/-! ## Two domains -/

omit [DecidableEq D] in
theorem vcpuShareOf_mono (x : Sdom D) (weightTotal : Nat) (balance : Int) {total total' : Nat}
    (h : total ≤ total') :
    x.vcpuShareOf weightTotal balance total ≤ x.vcpuShareOf weightTotal balance total' := by
  unfold Sdom.vcpuShareOf Sdom.shareOf Sdom.fairOf
  refine ceilDiv_mono _ (min_le_min_right _ (ceilDiv_mono _ ?_))
  exact Nat.mul_le_mul_right _ (Nat.mul_le_mul_right _ h)

/-- What `csched_acct` computes for the domain, when the credits of `total` are left. -/
structure SharesExact (a : Acct D) (weightTotal : Nat) (d : D) : Prop where
  peak : (a.state.sdom d).PeakFits weightTotal a.state.creditBalance →
    a.creditPeak weightTotal d = (a.state.sdom d).peakOf weightTotal a.state.creditBalance
  fair : a.creditFair weightTotal d = (a.state.sdom d).fairOf weightTotal a.creditTotal ↔
    (a.state.sdom d).FairFits weightTotal a.creditTotal
  total : (a.state.sdom d).PeakFits weightTotal a.state.creditBalance →
    (a.state.sdom d).FairFits weightTotal a.creditTotal →
    (a.state.sdom d).TotalFits weightTotal (a.weightLeft - a.share d) a.state.creditBalance
      a.creditTotal →
    (a.fairShare weightTotal d).1.creditTotal = (a.state.sdom d).totalOf weightTotal
      (a.weightLeft - a.share d) a.state.creditBalance a.creditTotal
  vcpu : (a.state.sdom d).PeakFits weightTotal a.state.creditBalance →
    (a.state.sdom d).FairFits weightTotal a.creditTotal →
    (a.fairShare weightTotal d).2
      = (a.state.sdom d).vcpuShareOf weightTotal a.state.creditBalance a.creditTotal
  /-- The share does not exceed the peak, but for the rounding. -/
  bounded : (a.state.sdom d).PeakFits weightTotal a.state.creditBalance →
    (a.fairShare weightTotal d).2 ≤ (a.state.sdom d).peakOf weightTotal a.state.creditBalance
      ⌈/⌉ (a.state.sdom d).activeVcpuCount
  capVcpu : a.creditCapVcpu d = (a.state.sdom d).capOf ⌈/⌉ (a.state.sdom d).activeVcpuCount
  below : (a.state.sdom d).cap ≠ 0 → ∀ credit : Int, -2 ^ 31 ≤ credit → credit < 0 →
    (u32 credit < u32 (-a.creditCapVcpu d) ↔ credit < -a.creditCapVcpu d)

theorem Visits.sharesExact (h : a.Visits weightTotal d) : a.SharesExact weightTotal d where
  peak := h.creditPeak_eq
  fair := h.creditFair_eq_iff
  total := h.fairShare_creditTotal_eq
  vcpu hpeak hfair := by
    rw [h.fairShare_snd_eq hpeak, h.creditFair_eq_iff.mpr hfair]
    rfl
  bounded hpeak := by
    rw [h.fairShare_snd_eq hpeak]
    exact ceilDiv_mono _ (min_le_right ..)
  capVcpu := h.creditCapVcpu_eq
  below hcap _ hint hneg := h.below_cap_iff hcap hneg hint

/-! ## What is handed on -/

/-- The vCPUs of a domain are credited without a change to what there is for the others. -/
theorem dom_kept (a : Acct D) (weightTotal : Nat) (d : D) :
    (a.dom weightTotal d).creditTotal = (a.fairShare weightTotal d).1.creditTotal ∧
      (a.dom weightTotal d).state.creditBalance = a.state.creditBalance := by
  have hfair : (a.fairShare weightTotal d).1.state.creditBalance = a.state.creditBalance := by
    obtain ⟨l, hstate, -⟩ := a.fairShare_cases weightTotal d
    rw [hstate]
    rfl
  have hstep (v : Vcpu D) (b : Acct D)
      (hb : b.creditTotal = (a.fairShare weightTotal d).1.creditTotal ∧
        b.state.creditBalance = a.state.creditBalance) :
      (b.vcpu d (a.fairShare weightTotal d).2 (a.creditCapVcpu d) v).creditTotal
          = (a.fairShare weightTotal d).1.creditTotal ∧
        (b.vcpu d (a.fairShare weightTotal d).2 (a.creditCapVcpu d) v).state.creditBalance
          = a.state.creditBalance := by
    refine ⟨hb.1, ?_⟩
    rw [← hb.2, vcpu_state]
    unfold credited
    dsimp only
    split_ifs <;> rfl
  exact SafeWalk.forEach_keeps hstep ⟨rfl, hfair⟩

/-- Rounds of the outer loop in which all numerators fit. -/
def Passes (weightTotal : Nat) : List D → Acct D → Prop
  | [], _ => True
  | d :: ds, a =>
    a.Visits weightTotal d ∧ (a.state.sdom d).PeakFits weightTotal a.state.creditBalance ∧
      (a.state.sdom d).FairFits weightTotal a.creditTotal ∧
      (a.state.sdom d).TotalFits weightTotal (a.weightLeft - a.share d) a.state.creditBalance a.creditTotal ∧
      Passes weightTotal ds (a.dom weightTotal d)

/-- Credits are only added to those that there are for the domains to come. -/
theorem Passes.creditTotal_le {ds : List D} (h : Passes weightTotal ds a) :
    a.creditTotal ≤ (ds.foldl (fun a d => a.dom weightTotal d) a).creditTotal ∧
      (ds.foldl (fun a d => a.dom weightTotal d) a).state.creditBalance = a.state.creditBalance := by
  induction ds generalizing a with
  | nil => exact ⟨Nat.le_refl _, rfl⟩
  | cons d ds ih =>
    obtain ⟨hvisits, hpeak, hfair, htotal, hrest⟩ := h
    obtain ⟨hkept, hbalance⟩ := dom_kept a weightTotal d
    obtain ⟨hle, hsame⟩ := ih hrest
    have hround : a.creditTotal ≤ (a.dom weightTotal d).creditTotal := by
      rw [hkept, hvisits.fairShare_creditTotal_eq hpeak hfair htotal]
      unfold Sdom.totalOf
      split
      · exact Nat.le_add_right ..
      · exact Nat.le_refl _
    exact ⟨hround.trans hle, hsame.trans hbalance⟩

/-- Domains that look alike when they are visited. -/
structure Alike (a : Acct D) (d : D) (a' : Acct D) (d' : D) : Prop where
  weight : (a'.state.sdom d').weight = (a.state.sdom d).weight
  cap : (a'.state.sdom d').cap = (a.state.sdom d).cap
  count : (a'.state.sdom d').activeVcpuCount = (a.state.sdom d).activeVcpuCount

theorem Visits.share_le (h : a.Visits weightTotal d) {a' : Acct D} {d' : D} (h' : a'.Visits weightTotal d')
    (halike : a.Alike d a' d') (hbalance : a'.state.creditBalance = a.state.creditBalance)
    (hpeak : (a.state.sdom d).PeakFits weightTotal a.state.creditBalance)
    (hfair : (a'.state.sdom d').FairFits weightTotal a'.creditTotal) (htotal : a.creditTotal ≤ a'.creditTotal) :
    (a.fairShare weightTotal d).2 ≤ (a'.fairShare weightTotal d').2 ∧
      (a'.creditTotal = a.creditTotal → (a'.fairShare weightTotal d').2 = (a.fairShare weightTotal d).2) := by
  obtain ⟨hweight, hcap, hcount⟩ := halike
  -- only the three numbers of the domain count
  have hpeak' : (a'.state.sdom d').PeakFits weightTotal a'.state.creditBalance := by
    unfold Sdom.PeakFits
    rw [hweight, hcount, hbalance]
    exact hpeak
  have hfair₀ : (a.state.sdom d).FairFits weightTotal a.creditTotal := by
    unfold Sdom.FairFits at hfair ⊢
    rw [hweight, hcount] at hfair
    refine lt_of_le_of_lt (Nat.add_le_add_right ?_ _) hfair
    exact Nat.mul_le_mul_right _ (Nat.mul_le_mul_right _ htotal)
  have hsame (total : Nat) : (a'.state.sdom d').vcpuShareOf weightTotal a'.state.creditBalance total
      = (a.state.sdom d).vcpuShareOf weightTotal a.state.creditBalance total := by
    unfold Sdom.vcpuShareOf Sdom.shareOf Sdom.fairOf Sdom.peakOf Sdom.capOf
    rw [hweight, hcount, hbalance, hcap]
  rw [h.sharesExact.vcpu hpeak hfair₀, h'.sharesExact.vcpu hpeak' hfair, hsame]
  refine ⟨vcpuShareOf_mono _ _ _ htotal, fun heq => ?_⟩
  rw [heq]

/-- The values are exact while the numerators fit. A domain with the same weight, cap and number of active
vCPUs gets as much at the same credits, and no less at more credits; so it does if it is visited later in
`csched_acct`, whatever has been handed on. -/
theorem fairShare_exact (h : a.Visits weightTotal d) :
    a.SharesExact weightTotal d ∧
      (∀ (a' : Acct D) (d' : D), a'.Visits weightTotal d' → a.Alike d a' d' →
        a'.state.creditBalance = a.state.creditBalance →
        (a.state.sdom d).PeakFits weightTotal a.state.creditBalance →
        (a'.state.sdom d').FairFits weightTotal a'.creditTotal → a.creditTotal ≤ a'.creditTotal →
        (a.fairShare weightTotal d).2 ≤ (a'.fairShare weightTotal d').2 ∧
          (a'.creditTotal = a.creditTotal →
            (a'.fairShare weightTotal d').2 = (a.fairShare weightTotal d).2)) ∧
      ∀ (ds : List D) (a' : Acct D) (d' : D), Passes weightTotal (d :: ds) a →
        a' = (d :: ds).foldl (fun a d => a.dom weightTotal d) a → a'.Visits weightTotal d' → a.Alike d a' d' →
        (a'.state.sdom d').FairFits weightTotal a'.creditTotal →
        (a.fairShare weightTotal d).2 ≤ (a'.fairShare weightTotal d').2 := by
  refine ⟨h.sharesExact, fun _ _ h' halike hbalance hpeak hfair htotal =>
    h.share_le h' halike hbalance hpeak hfair htotal, ?_⟩
  rintro ds a' d' hpasses rfl h' halike hfair
  obtain ⟨hle, hbalance⟩ := hpasses.creditTotal_le
  exact (h.share_le h' halike hbalance hpasses.2.1 hfair hle).1

/-- The first domain that `csched_acct` visits. -/
def first (s : State D) : Acct D where
  state := s
  creditTotal := if s.creditBalance < 0 then u32 (s.credit - s.creditBalance) else s.credit
  weightLeft := s.weight
  creditBalance := 0
  creditXtra := false
  visited := []

/-- `csched_acct` goes through the active domains in their order. -/
theorem acctWalk_eq {s : State D} (hs : s.Lists) :
    s.acctWalk = s.activeSdom.foldl (fun a d => a.dom s.weight d) (first s) :=
  hs.acctWalk_foldl

end Acct

/-- One vCPU of a domain of weight 512 that may use a tenth of a CPU. -/
def oneCapped : List (Step Nat) :=
  [.allocDomdata 0, .domCntl 0 512 10, .allocVdata ⟨0, 0⟩, .vcpuAcct ⟨0, 0⟩ 100]

theorem fairShare_exact_oneCapped :
    (Acct.first (Runs.run act oneCapped (init 2))).Visits 512 0 ∧
      (Acct.first (Runs.run act oneCapped (init 2))).SharesExact 512 0 ∧
      ((Acct.first (Runs.run act oneCapped (init 2))).fairShare 512 0).2 = 30 := by
  have h : (Acct.first (Runs.run act oneCapped (init 2))).Visits 512 0 :=
    ⟨⟨by decide, by decide, by decide, by decide⟩, by decide, by decide, by decide, by decide⟩
  exact ⟨h, (Acct.fairShare_exact h).1, by decide⟩

/-- Three active vCPUs of one domain, of the largest weight. -/
def heavy : List (Step Nat) :=
  [.allocDomdata 0, .domCntl 0 65535 65535, .allocVdata ⟨0, 0⟩, .allocVdata ⟨0, 1⟩, .allocVdata ⟨0, 2⟩,
    .vcpuAcct ⟨0, 0⟩ 0, .vcpuAcct ⟨0, 1⟩ 0, .vcpuAcct ⟨0, 2⟩ 0]

/-- Three equal domains, but for the cap of the second. -/
def capBetween : List (Step Nat) :=
  [.allocDomdata 0, .allocDomdata 1, .allocDomdata 2, .domCntl 1 256 1, .allocVdata ⟨0, 0⟩,
    .allocVdata ⟨1, 0⟩, .allocVdata ⟨2, 0⟩, .vcpuAcct ⟨2, 0⟩ 0, .vcpuAcct ⟨1, 0⟩ 0, .vcpuAcct ⟨0, 0⟩ 0]

/-- Of two equal domains the one behind a capped domain gets the credits that this one leaves. -/
theorem acct_handsOn :
    (Acct.first (Runs.run act capBetween (init 1))).Alike 0 (Acct.first (Runs.run act capBetween (init 1))) 2 ∧
      ((Runs.run act (capBetween ++ [.acct]) (init 1)).svc ⟨0, 0⟩).credit = 100 ∧
      ((Runs.run act (capBetween ++ [.acct]) (init 1)).svc ⟨2, 0⟩).credit = 197 :=
  ⟨⟨by decide +kernel, by decide +kernel, by decide +kernel⟩, by decide +kernel, by decide +kernel⟩

/-- With 73 CPUs a product wraps, and the vCPUs of the only domain get 19 credits each and not 300. -/
theorem acct_wraps :
    (Acct.first (Runs.run act heavy (init 73))).creditFair 196605 0 = 55 ∧
      ((Runs.run act heavy (init 73)).sdom 0).fairOf 196605 21900 = 21900 ∧
      ((Runs.run act (heavy ++ [.acct]) (init 73)).svc ⟨0, 0⟩).credit = 19 := by
  decide +kernel

end Sched.Credit
