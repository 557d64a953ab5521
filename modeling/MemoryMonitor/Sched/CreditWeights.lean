import MemoryMonitor.Sched.Credit

/-!
# The credit scheduler: the sum of the weights

`prv->weight` is the weight of all active vCPUs, and `active_vcpu_count` is their number in a domain.
That is what keeps the assertions of `csched_acct` and `__csched_vcpu_acct_stop_locked` from being hit:
what is left of the weight is what the domains that are left have.

`prv->weight` has 32 bits, and a vCPU that becomes active is not asked whether its weight fits.
-/

namespace Sched.Credit

variable {D : Type} [DecidableEq D]

namespace State

/-- The weight of the active vCPUs of a domain, and of all domains on the list. -/
def share (s : State D) (d : D) : Nat :=
  (s.sdom d).weight * (s.sdom d).activeVcpuCount

def total (s : State D) : Nat :=
  (s.activeSdom.map s.share).sum

variable {s s' : State D} {d : D} {v : Vcpu D}

structure Sums (s : State D) : Prop where
  weight : s.weight = s.total
  weight_lt : s.weight < 2 ^ 32
  count : ∀ d, (s.sdom d).activeVcpuCount = (s.sdom d).activeVcpu.length
  weight_pos : ∀ d, 0 < (s.sdom d).weight
  crashed : s.crashed = false

section

omit [DecidableEq D]

theorem Lists.length_le (hs : s.Lists) (d : D) : (s.sdom d).activeVcpu.length ≤ maxVirtCpus := by
  have hnodup : ((s.sdom d).activeVcpu.map Vcpu.id).Nodup := by
    refine (hs.vcpu_nodup d).map_on ?_
    intro v hv w hw hid
    obtain ⟨vd, vi⟩ := v
    obtain ⟨wd, wi⟩ := w
    have hvd : vd = d := hs.vcpu_dom d _ hv
    have hwd : wd = d := hs.vcpu_dom d _ hw
    dsimp only at hid
    rw [hvd, hwd, hid]
  have hcard := hnodup.length_le_card
  rwa [List.length_map, Fintype.card_fin] at hcard

/-- The sum over domains whose data has not changed. -/
theorem sum_share_congr {l : List D} (h : ∀ d ∈ l, s'.sdom d = s.sdom d) :
    (l.map s'.share).sum = (l.map s.share).sum := by
  rw [List.map_congr_left]
  intro d hd
  rw [share, share, h d hd]

end

theorem Sums.kept (hs : s.Sums) (h : Kept v s s') : s'.Sums := by
  constructor
  · rw [h.weight, hs.weight, total, total, h.activeSdom, sum_share_congr]
    intro d _
    rw [h.sdom]
  · rw [h.weight]
    exact hs.weight_lt
  · intro d
    rw [h.sdom]
    exact hs.count d
  · intro d
    rw [h.sdom]
    exact hs.weight_pos d
  · rw [h.crashed]
    exact hs.crashed

omit [DecidableEq D] in
/-- A list in another order. -/
theorem Sums.reorder {l : List D} (hs : s.Sums) (hl : s.activeSdom.Perm l) :
    Sums { s with activeSdom := l } := by
  refine ⟨?_, hs.weight_lt, hs.count, hs.weight_pos, hs.crashed⟩
  change s.weight = (l.map s.share).sum
  rw [hs.weight]
  exact (hl.map s.share).sum_eq

theorem u32_lt (x : Int) : u32 x < 2 ^ 32 := by
  unfold u32
  omega

theorem u32_natCast {n : Nat} (h : n < 2 ^ 32) : u32 n = n := by
  unfold u32
  omega

theorem u32_sub {m n : Nat} (hn : n ≤ m) (hm : m < 2 ^ 32) : u32 (m - n) = m - n := by
  unfold u32
  omega

/-- The share of one domain taken out of the sum; a domain that is not on the list has none. -/
theorem Lists.total_eq (hl : s.Lists) (hcount : (s.sdom d).activeVcpuCount = (s.sdom d).activeVcpu.length) :
    s.total = s.share d + ((s.activeSdom.erase d).map s.share).sum := by
  by_cases hd : d ∈ s.activeSdom
  · exact (List.sum_map_erase s.share hd).symm
  · have hnil : (s.sdom d).activeVcpu = [] := by
      by_contra hne
      exact hd ((hl.listed d).mpr hne)
    rw [List.erase_of_not_mem hd, share, hcount, hnil]
    exact (Nat.zero_add _).symm

/-- A step that changes the data of one domain only. -/
theorem Sums.change (hs : s.Sums) (hl : s.Lists) (hl' : s'.Lists) (d : D)
    (hother : ∀ d', d' ≠ d → s'.sdom d' = s.sdom d')
    (herase : s'.activeSdom.erase d = s.activeSdom.erase d)
    (hcount : (s'.sdom d).activeVcpuCount = (s'.sdom d).activeVcpu.length)
    (hpos : 0 < (s'.sdom d).weight) (hweight : s'.weight + s.share d = s.weight + s'.share d)
    (hlt : s'.weight < 2 ^ 32) (hcrashed : s'.crashed = false) : s'.Sums := by
  refine ⟨?_, hlt, ?_, ?_, hcrashed⟩
  · have hrest : ((s'.activeSdom.erase d).map s'.share).sum = ((s.activeSdom.erase d).map s.share).sum := by
      rw [herase]
      refine sum_share_congr fun d' hd' => hother d' ?_
      rintro rfl
      exact hl.sdom_nodup.not_mem_erase hd'
    have htotal := hl.total_eq (hs.count d)
    rw [hl'.total_eq hcount, hrest]
    have := hs.weight
    omega
  · intro d'
    by_cases hd : d' = d
    · rw [hd]
      exact hcount
    · rw [hother d' hd]
      exact hs.count d'
  · intro d'
    by_cases hd : d' = d
    · rw [hd]
      exact hpos
    · rw [hother d' hd]
      exact hs.weight_pos d'

/-- A vCPU becomes active, and its weight fits. -/
theorem Sums.acctStart (hs : s.Sums) (hl : s.Lists)
    (hroom : ¬ s.Active v → s.total + (s.sdom v.dom).weight < 2 ^ 32) : (s.acctStart v).Sums := by
  by_cases hv : s.Active v
  · rw [State.acctStart, if_pos hv]
    exact hs
  · have hlt := hroom hv
    have hlen : (s.sdom v.dom).activeVcpu.length + 1 ≤ maxVirtCpus := by
      have h := (hl.acctStart v).length_le v.dom
      rwa [acctStart_activeVcpu hv, if_pos rfl, List.length_cons] at h
    have hcount := hs.count v.dom
    have hmod : ((s.sdom v.dom).activeVcpuCount + 1) % 2 ^ 16 = (s.sdom v.dom).activeVcpuCount + 1 := by
      apply Nat.mod_eq_of_lt
      unfold maxVirtCpus at hlen
      omega
    have hself : (s.acctStart v).sdom v.dom = ⟨v :: (s.sdom v.dom).activeVcpu,
        (s.sdom v.dom).activeVcpuCount + 1, (s.sdom v.dom).weight, (s.sdom v.dom).cap⟩ := by
      simp only [State.acctStart, if_neg hv, setSdom, Function.update_self, hmod]
    have hweight : (s.acctStart v).weight = s.weight + (s.sdom v.dom).weight := by
      rw [State.acctStart, if_neg hv]
      exact u32_natCast (n := s.weight + (s.sdom v.dom).weight) (hs.weight ▸ hlt)
    refine hs.change hl (hl.acctStart v) v.dom ?_ ?_ ?_ ?_ ?_ ?_ ?_
    · intro d hd
      simp only [State.acctStart, if_neg hv, setSdom, Function.update_of_ne hd]
    · rw [acctStart_activeSdom hv]
      split
      · rfl
      · rename_i hd
        rw [List.erase_cons_head, List.erase_of_not_mem hd]
    · rw [hself, hcount]
      rfl
    · rw [hself]
      exact hs.weight_pos v.dom
    · rw [hweight, share, share, hself]
      dsimp only
      rw [Nat.mul_succ]
      omega
    · rw [hweight, hs.weight]
      exact hlt
    · rw [State.acctStart, if_neg hv]
      exact hs.crashed

/-- An active vCPU stops being active: no assertion is hit. -/
theorem Sums.acctStopLocked (hs : s.Sums) (hl : s.Lists) (hv : s.Active v) : (s.acctStopLocked v).Sums := by
  have hcount := hs.count v.dom
  have hlen : 0 < (s.sdom v.dom).activeVcpu.length := List.length_pos_of_mem hv
  have hle := hl.length_le v.dom
  unfold maxVirtCpus at hle
  have hshare : (s.sdom v.dom).weight ≤ s.share v.dom := by
    rw [share, hcount]
    exact Nat.le_mul_of_pos_right _ hlen
  have hweight_le : (s.sdom v.dom).weight ≤ s.weight := by
    have := hl.total_eq hcount
    have := hs.weight
    omega
  have hbug : s.bugOn (¬ s.Active v ∨ s.weight < (s.sdom v.dom).weight) = s := by
    have hnot : ¬ (¬ s.Active v ∨ s.weight < (s.sdom v.dom).weight) := by
      rintro (h | h)
      · exact h hv
      · omega
    simp only [bugOn, hnot, decide_false, Bool.or_false]
  have hweight : (s.acctStopLocked v).weight = s.weight - (s.sdom v.dom).weight :=
    u32_sub hweight_le hs.weight_lt
  have hself : (s.acctStopLocked v).sdom v.dom = ⟨(s.sdom v.dom).activeVcpu.erase v,
      (s.sdom v.dom).activeVcpuCount - 1, (s.sdom v.dom).weight, (s.sdom v.dom).cap⟩ := by
    have hmod : ((s.sdom v.dom).activeVcpuCount + (2 ^ 16 - 1)) % 2 ^ 16 =
        (s.sdom v.dom).activeVcpuCount - 1 := by omega
    simp only [State.acctStopLocked, setSdom, Function.update_self, hmod]
  refine hs.change hl (hl.acctStopLocked v) v.dom ?_ ?_ ?_ ?_ ?_ ?_ ?_
  · intro d hd
    simp only [State.acctStopLocked, setSdom, Function.update_of_ne hd, bugOn_sdom]
  · rw [acctStopLocked_activeSdom]
    split
    · exact List.erase_of_not_mem hl.sdom_nodup.not_mem_erase
    · rfl
  · rw [hself, List.length_erase_of_mem hv, hcount]
  · rw [hself]
    exact hs.weight_pos v.dom
  · have hmul : (s.sdom v.dom).weight * ((s.sdom v.dom).activeVcpuCount - 1) + (s.sdom v.dom).weight =
        (s.sdom v.dom).weight * (s.sdom v.dom).activeVcpuCount := by
      rw [← Nat.mul_succ, Nat.succ_eq_add_one, Nat.sub_add_cancel (by omega)]
    rw [hweight, share, share, hself]
    dsimp only
    omega
  · rw [hweight]
    exact Nat.lt_of_le_of_lt (Nat.sub_le ..) hs.weight_lt
  · change (s.bugOn _).crashed = false
    rw [hbug]
    exact hs.crashed

theorem Sums.setWeight (hs : s.Sums) (hl : s.Lists) (d : D) (weight : UInt16)
    (hroom : weight ≠ 0 → d ∈ s.activeSdom →
      s.total + weight.toNat * (s.sdom d).activeVcpuCount < 2 ^ 32 + s.share d) :
    (s.setWeight d weight).Sums := by
  by_cases hw : weight ≠ 0
  · have hself : (s.setWeight d weight).sdom d = { s.sdom d with weight := weight.toNat } := by
      rw [State.setWeight, if_pos hw]
      exact Function.update_self ..
    have htotal := hl.total_eq (hs.count d)
    have hsum := hs.weight
    have hweight : (s.setWeight d weight).weight + s.share d =
        s.weight + weight.toNat * (s.sdom d).activeVcpuCount ∧ (s.setWeight d weight).weight < 2 ^ 32 := by
      rw [State.setWeight, if_pos hw]
      by_cases hd : d ∈ s.activeSdom
      · have hlt := hroom hw hd
        have heq : u32 (s.weight - (s.sdom d).weight * (s.sdom d).activeVcpuCount
            + weight.toNat * (s.sdom d).activeVcpuCount) =
            s.weight + weight.toNat * (s.sdom d).activeVcpuCount - s.share d := by
          have hcast : (s.weight : Int) - (s.sdom d).weight * (s.sdom d).activeVcpuCount
              + weight.toNat * (s.sdom d).activeVcpuCount =
              (s.weight + weight.toNat * (s.sdom d).activeVcpuCount - s.share d : Nat) := by
            rw [Int.ofNat_sub (by omega)]
            simp only [share, Int.natCast_add, Int.natCast_mul]
            omega
          rw [hcast]
          exact u32_natCast (by omega)
        simp only [setSdom, if_pos hd, heq]
        omega
      · have hnil : (s.sdom d).activeVcpu = [] := by
          by_contra hne
          exact hd ((hl.listed d).mpr hne)
        have hzero : (s.sdom d).activeVcpuCount = 0 := by
          rw [hs.count, hnil]
          rfl
        simp only [setSdom, if_neg hd, share, hzero, Nat.mul_zero]
        exact ⟨trivial, hs.weight_lt⟩
    refine hs.change hl (hl.setWeight d weight) d ?_ ?_ ?_ ?_ ?_ hweight.2 ?_
    · intro d' hd'
      rw [State.setWeight, if_pos hw]
      exact Function.update_of_ne hd' ..
    · rw [setWeight_activeSdom]
    · rw [hself]
      exact hs.count d
    · rw [hself]
      have hne : weight.toNat ≠ 0 := fun h => hw (UInt16.toNat.inj h)
      exact Nat.pos_of_ne_zero hne
    · rw [hweight.1, share, hself]
    · rw [State.setWeight, if_pos hw]
      exact hs.crashed
  · rw [State.setWeight, if_neg hw]
    exact hs

theorem Sums.setCap (hs : s.Sums) (hl : s.Lists) (d : D) (cap : Nat) :
    (s.setSdom d { s.sdom d with cap := cap }).Sums := by
  have hself : (s.setSdom d { s.sdom d with cap := cap }).sdom d = { s.sdom d with cap := cap } :=
    Function.update_self ..
  refine hs.change hl (hl.congr rfl (setCap_activeVcpu s d cap)) d ?_ rfl ?_ ?_ ?_ hs.weight_lt hs.crashed
  · intro d' hd'
    exact Function.update_of_ne hd' ..
  · rw [hself]
    exact hs.count d
  · rw [hself]
    exact hs.weight_pos d
  · rw [share, share, hself]
    rfl

theorem Sums.allocDomdata (hs : s.Sums) (hl : s.Lists) (hd : (s.sdom d).activeVcpu = []) :
    (s.allocDomdata d).Sums := by
  have hself : (s.allocDomdata d).sdom d = ⟨[], 0, defaultWeight, 0⟩ := Function.update_self ..
  refine hs.change hl (hl.allocDomdata hd) d ?_ rfl ?_ ?_ ?_ hs.weight_lt hs.crashed
  · intro d' hd'
    exact Function.update_of_ne hd' ..
  · rw [hself]
    rfl
  · rw [hself]
    exact (by decide : 0 < defaultWeight)
  · rw [share, share, hself, hs.count, hd]
    rfl

theorem acctStopLocked_sdom_of_ne (s : State D) (hd : d ≠ v.dom) :
    (s.acctStopLocked v).sdom d = s.sdom d := by
  simp only [State.acctStopLocked, setSdom, Function.update_of_ne hd, bugOn_sdom]

/-- The domain that is visited passes the assertions of the loop. -/
theorem Sums.fairShare {a : Acct D} {weightTotal rest : Nat} (hs : a.state.Sums) (hl : a.state.Lists)
    (hd : d ∈ a.state.activeSdom) (hw : weightTotal ≠ 0) (hleft : a.weightLeft = a.state.share d + rest)
    (hlt : a.weightLeft < 2 ^ 32) :
    (a.fairShare weightTotal d).1.state.Sums ∧
      (∀ d', (a.fairShare weightTotal d).1.state.sdom d' = a.state.sdom d') ∧
      (a.fairShare weightTotal d).1.weightLeft = rest ∧
      (a.fairShare weightTotal d).1.visited = a.visited ++ [d] := by
  obtain ⟨l, hstate, hlist, hleft', hvis⟩ := a.fairShare_cases weightTotal d
  have hcount : (a.state.sdom d).activeVcpuCount ≠ 0 := by
    rw [hs.count]
    exact fun h => (hl.listed d).mp hd (List.length_eq_zero_iff.mp h)
  have hpos := hs.weight_pos d
  have hbug : a.state.bugOn ((a.state.sdom d).activeVcpuCount = 0 ∨ (a.state.sdom d).weight = 0 ∨
      a.weightLeft < a.share d ∨ weightTotal = 0) = a.state := by
    have hnot : ¬ ((a.state.sdom d).activeVcpuCount = 0 ∨ (a.state.sdom d).weight = 0 ∨
        a.weightLeft < a.share d ∨ weightTotal = 0) := by
      have hshare : a.share d = a.state.share d := rfl
      omega
    simp only [bugOn, hnot, decide_false, Bool.or_false]
  have hperm : a.state.activeSdom.Perm l := by
    rcases hlist with rfl | rfl
    · exact List.Perm.refl _
    · exact List.perm_cons_erase hd
  rw [hbug] at hstate
  refine ⟨?_, ?_, ?_, hvis⟩
  · rw [hstate]
    exact hs.reorder hperm
  · intro d'
    rw [hstate]
  · have hshare : a.share d = a.state.share d := rfl
    rw [hleft', hshare, u32_sub (by omega) hlt]
    omega

theorem Sums.vcpu {a : Acct D} (hs : a.state.Sums) (hl : a.state.Lists) (hv : v.dom = d)
    (hact : a.state.Active v) (fair cap : Nat) :
    (a.vcpu d fair cap v).state.Sums ∧
      ∀ d', d' ≠ d → (a.vcpu d fair cap v).state.sdom d' = a.state.sdom d' := by
  obtain ⟨s, hk, heq | ⟨-, c, heq⟩⟩ := a.credited_cases hv fair cap
  · rw [Acct.vcpu_state, heq]
    exact ⟨hs.kept hk, fun d' _ => by rw [hk.sdom]⟩
  · rw [Acct.vcpu_state, heq]
    constructor
    · exact ((hs.kept hk).acctStopLocked (hl.kept hk) ((hk.active_iff v).mpr hact)).kept (kept_setSvc rfl)
    · intro d' hd'
      change (s.acctStopLocked v).sdom d' = _
      rw [acctStopLocked_sdom_of_ne s (hv ▸ hd'), hk.sdom]

/-- `csched_acct` keeps the sums, and visits every active domain once. -/
theorem Sums.acctWalk (hs : s.Sums) (hl : s.Lists) (hw : s.weight ≠ 0) :
    s.acctWalk.state.Sums ∧ s.acctWalk.visited = s.activeSdom := by
  let P : List D → Acct D → Prop := fun rest a =>
    a.state.Sums ∧ a.weightLeft = (rest.map a.state.share).sum ∧ a.weightLeft < 2 ^ 32 ∧
      a.visited ++ rest = s.activeSdom
  have hwalk := (hl.acctWalk (P := P) ?_ ?_).2
  · refine ⟨hwalk.1, ?_⟩
    rw [← hwalk.2.2.2, List.append_nil]
  · rintro d rest a hla hd hrest ⟨hsa, hleft, hlt, hvis⟩
    have hleft' : a.weightLeft = a.state.share d + (rest.map a.state.share).sum := hleft
    obtain ⟨hsf, hsdf, hleftf, hvisf⟩ := hsa.fairShare hla hd hw hleft' hlt
    let Q : Acct D → Prop := fun a' =>
      a'.state.Sums ∧ (∀ d', d' ≠ d → a'.state.sdom d' = a.state.sdom d') ∧
        a'.weightLeft = (rest.map a.state.share).sum ∧ a'.visited = a.visited ++ [d]
    have hQ := (Acct.dom_rule (Q := Q) hla hd (w := s.weight)
      ⟨hsf, fun d' _ => hsdf d', hleftf, hvisf⟩ ?_).2
    · obtain ⟨hs', hsd', hleft'', hvis'⟩ := hQ
      refine ⟨hs', ?_, by omega, ?_⟩
      · rw [hleft'']
        refine (sum_share_congr fun d' hd' => hsd' d' ?_).symm
        rintro rfl
        exact hrest hd'
      · rw [hvis', List.append_assoc]
        exact hvis
    · rintro fair cap a' v hl' hv hact ⟨hs', hsd', hleft'', hvis'⟩
      obtain ⟨hsv, hsdv⟩ := hs'.vcpu hl' hv hact fair cap
      exact ⟨hsv, fun d' hd' => (hsdv d' hd').trans (hsd' d' hd'), hleft'', hvis'⟩
  · intro creditTotal
    exact ⟨hs, hs.weight, hs.weight_lt, rfl⟩

end State

/-- The books of a scheduler, outside its lock. -/
structure State.Consistent (s : State D) : Prop where
  weight : s.weight = s.total
  count : ∀ d, (s.sdom d).activeVcpuCount = (s.sdom d).activeVcpu.length
  listed : ∀ d, d ∈ s.activeSdom ↔ (s.sdom d).activeVcpu ≠ []
  crashed : s.crashed = false

/-- The domains that `csched_acct` visits. -/
def State.visits (s : State D) : List D :=
  if s.weight = 0 then [] else s.acctWalk.visited

/-- A step leaves the books consistent, and if it is `csched_acct` it visits each active domain once. -/
def Exact (step : Step D) (s : State D) : Prop :=
  (act step s).Consistent ∧
    match step with
    | .acct => s.visits = s.activeSdom ∧ s.visits.Nodup
    | _ => True

/-- The weights of the active vCPUs add up to less than 32 bits after the step. -/
def Room (step : Step D) (s : State D) : Prop :=
  match step with
  | .vcpuAcct v _ => ¬ s.Active v → s.total + (s.sdom v.dom).weight < 2 ^ 32
  | .domCntl d weight _ => weight ≠ 0 → d ∈ s.activeSdom →
      s.total + weight.toNat * (s.sdom d).activeVcpuCount < 2 ^ 32 + s.share d
  | _ => True

theorem Sums.act {step : Step D} {s : State D} (hcalled : Called step s) (hroom : Room step s)
    (hl : s.Lists) (hs : s.Sums) : (act step s).Sums := by
  cases step with
  | vcpuAcct v credits =>
    obtain ⟨s', hk, -, heq⟩ := s.vcpuAcct_cases v credits
    simp only [Credit.act, heq]
    refine (hs.kept hk).acctStart (hl.kept hk) fun hv => ?_
    have hlt := hroom fun h => hv ((hk.active_iff v).mpr h)
    rwa [← (hs.kept hk).weight, hk.weight, hk.sdom, hs.weight]
  | burnCredits v credits => exact hs.kept (State.kept_burnCredits s v credits)
  | acct =>
    simp only [Credit.act, State.acct]
    split
    · exact ⟨hs.weight, hs.weight_lt, hs.count, hs.weight_pos, hs.crashed⟩
    · rename_i hw
      have hwalk := (hs.acctWalk hl hw).1
      exact ⟨hwalk.weight, hwalk.weight_lt, hwalk.count, hwalk.weight_pos, hwalk.crashed⟩
  | vcpuRemove v =>
    simp only [Credit.act, State.vcpuRemove]
    split
    · rename_i hv
      exact hs.acctStopLocked hl hv
    · exact hs
  | domCntl d weight cap =>
    have hset := hs.setWeight hl d weight hroom
    simp only [Credit.act, State.domCntl_eq]
    split
    · exact hset.setCap (hl.setWeight d weight) d _
    · exact hset
  | allocVdata v => exact ⟨hs.weight, hs.weight_lt, hs.count, hs.weight_pos, hs.crashed⟩
  | allocDomdata d => exact hs.allocDomdata hl hcalled

omit [DecidableEq D] in
theorem Sums.init (ncpus : Nat) : (init ncpus : State D).Sums :=
  ⟨rfl, (by decide : 0 < 2 ^ 32), fun _ => rfl, fun _ => (by decide : 0 < defaultWeight), rfl⟩

theorem State.Sums.activeSdom_nil {s : State D} (hs : s.Sums) (hl : s.Lists) (hw : s.weight = 0) :
    s.activeSdom = [] := by
  apply List.eq_nil_iff_forall_not_mem.mpr
  intro d hd
  have hlen : 0 < (s.sdom d).activeVcpu.length := List.length_pos_iff.mpr ((hl.listed d).mp hd)
  have hshare : 0 < s.share d := by
    rw [State.share, hs.count]
    exact Nat.mul_pos (hs.weight_pos d) hlen
  have htotal := hl.total_eq (hs.count d)
  have := hs.weight
  omega

/-- In a run in which the weights of the active vCPUs fit into 32 bits, the books are always
consistent, no assertion is hit, and every walk visits each active domain once. -/
theorem run_weights_exact (ncpus : Nat) (steps : List (Step D))
    (hcalled : Runs.Each act Called steps (init ncpus)) (hroom : Runs.Each act Room steps (init ncpus)) :
    Runs.Each act Exact steps (init ncpus) := by
  refine Runs.Each.of_inv (I := fun s => s.Lists ∧ s.Sums) ?_ ?_ (hcalled.and hroom)
    ⟨Lists.init ncpus, Sums.init ncpus⟩
  · rintro step s ⟨hc, hr⟩ ⟨hl, hs⟩
    exact ⟨Lists.act hc hl, Sums.act hc hr hl hs⟩
  · rintro step s ⟨hc, hr⟩ ⟨hl, hs⟩
    have hl' := Lists.act hc hl
    have hs' := Sums.act hc hr hl hs
    refine ⟨⟨hs'.weight, hs'.count, hl'.listed, hs'.crashed⟩, ?_⟩
    cases step with
    | acct =>
      have hvis : s.visits = s.activeSdom := by
        unfold State.visits
        split
        · rename_i hw
          exact (hs.activeSdom_nil hl hw).symm
        · rename_i hw
          exact (hs.acctWalk hl hw).2
      refine ⟨hvis, ?_⟩
      rw [hvis]
      exact hl.sdom_nodup
    | _ => trivial

/-! ## A run with room, and one without -/

instance (step : Step D) (s : State D) : Decidable (Called step s) :=
  match step with
  | .allocVdata v => inferInstanceAs (Decidable (¬ s.Active v))
  | .allocDomdata d => inferInstanceAs (Decidable ((s.sdom d).activeVcpu = []))
  | .vcpuAcct .. | .burnCredits .. | .acct | .vcpuRemove .. | .domCntl .. => isTrue trivial

instance (step : Step D) (s : State D) : Decidable (Room step s) :=
  match step with
  | .vcpuAcct .. | .domCntl .. => inferInstanceAs (Decidable (_ → _))
  | .allocVdata .. | .allocDomdata .. | .burnCredits .. | .acct | .vcpuRemove .. => isTrue trivial

/-- Two domains, one of which is capped, and one vCPU that is removed. -/
def twoDomains : List (Step Nat) :=
  [.allocDomdata 0, .allocVdata ⟨0, 0⟩, .vcpuAcct ⟨0, 0⟩ 100, .vcpuAcct ⟨0, 1⟩ 500, .vcpuAcct ⟨1, 0⟩ 700,
    .domCntl 1 512 10, .acct, .vcpuRemove ⟨0, 1⟩, .acct]

theorem run_weights_exact_twoDomains :
    Runs.Each act Called twoDomains (init 1) ∧ Runs.Each act Room twoDomains (init 1) ∧
      Runs.Each act Exact twoDomains (init 1) := by
  have hcalled : Runs.Each act Called twoDomains (init 1) := by decide +kernel
  have hroom : Runs.Each act Room twoDomains (init 1) := by decide +kernel
  exact ⟨hcalled, hroom, run_weights_exact 1 twoDomains hcalled hroom⟩

namespace State

/-- All that is known of a state after a tick: the vCPU is active, and the others as before; weights of
domains do not change, and the sum has 32 bits. -/
structure Ticked (v : Vcpu D) (s s' : State D) : Prop where
  active : s'.Active v
  grows : ∀ w, s.Active w → s'.Active w
  weight : ∀ d, (s'.sdom d).weight = (s.sdom d).weight
  weight_lt : s.weight < 2 ^ 32 → s'.weight < 2 ^ 32

theorem ticked (s : State D) (v : Vcpu D) (credits : Nat) : Ticked v s (s.vcpuAcct v credits) := by
  obtain ⟨s', hk, -, heq⟩ := s.vcpuAcct_cases v credits
  rw [heq]
  by_cases hv : s'.Active v
  · rw [acctStart, if_pos hv]
    refine ⟨hv, fun w hw => (hk.active_iff w).mpr hw, fun d => by rw [hk.sdom], fun h => ?_⟩
    rwa [hk.weight]
  · refine ⟨?_, fun w hw => ?_, fun d => ?_, fun _ => ?_⟩
    · rw [Active, acctStart_activeVcpu hv, if_pos rfl]
      exact List.mem_cons_self
    · have hw' := (hk.active_iff w).mpr hw
      rw [Active, acctStart_activeVcpu hv]
      split
      · exact List.mem_cons_of_mem _ hw'
      · exact hw'
    · simp only [acctStart, if_neg hv, setSdom, Function.update_apply]
      split
      · rename_i hd
        rw [hd, hk.sdom]
      · rw [hk.sdom]
    · rw [acctStart, if_neg hv]
      dsimp only
      exact u32_lt _

theorem run_ticks (vs : List (Vcpu D)) (s : State D) (hs : s.weight < 2 ^ 32) :
    let s' := Runs.run act (vs.map fun v => .vcpuAcct v 0) s
    (∀ v ∈ vs, s'.Active v) ∧ (∀ w, s.Active w → s'.Active w) ∧
      (∀ d, (s'.sdom d).weight = (s.sdom d).weight) ∧ s'.weight < 2 ^ 32 := by
  induction vs generalizing s with
  | nil => exact ⟨fun _ h => (nomatch h), fun _ h => h, fun _ => rfl, hs⟩
  | cons v vs ih =>
    have ht := s.ticked v 0
    obtain ⟨hact, hgrow, hweight, hlt⟩ := ih (s.vcpuAcct v 0) (ht.weight_lt hs)
    refine ⟨fun w hw => ?_, fun w hw => hgrow w (ht.grows w hw), fun d => (hweight d).trans (ht.weight d), hlt⟩
    rcases List.mem_cons.mp hw with rfl | hw
    · exact hgrow _ ht.active
    · exact hact w hw

omit [DecidableEq D] in
/-- What is active is on the list of its domain, so a domain whose vCPUs are all active has a share of
that many weights. -/
theorem share_of_all_active {s : State D} (hs : s.Consistent) {d : D}
    (hall : ∀ i, s.Active ⟨d, i⟩) : (s.sdom d).weight * maxVirtCpus ≤ s.share d := by
  have hnodup : ((List.finRange maxVirtCpus).map (Vcpu.mk d)).Nodup := by
    refine (List.nodup_finRange _).map ?_
    intro i j h
    cases h
    rfl
  have hsub : (List.finRange maxVirtCpus).map (Vcpu.mk d) ⊆ (s.sdom d).activeVcpu := by
    intro v hv
    obtain ⟨i, -, rfl⟩ := List.mem_map.mp hv
    exact hall i
  have hlen := (hnodup.subperm hsub).length_le
  rw [List.length_map, List.length_finRange] at hlen
  rw [share, hs.count]
  exact Nat.mul_le_mul_left _ hlen

end State

/-- Nine domains of weight 65535, all of whose 8192 vCPUs are active, weigh more than 32 bits. -/
theorem State.Consistent.not_all_active {s : State Nat} (hs : s.Consistent) (hlt : s.weight < 2 ^ 32)
    (hweight : ∀ d ∈ List.range 9, (s.sdom d).weight = 65535)
    (hall : ∀ d ∈ List.range 9, ∀ i, s.Active ⟨d, i⟩) : False := by
  have hshare : ∀ x ∈ (List.range 9).map s.share, 65535 * maxVirtCpus ≤ x := by
    intro x hx
    obtain ⟨d, hd, rfl⟩ := List.mem_map.mp hx
    rw [← hweight d hd]
    exact State.share_of_all_active hs (hall d hd)
  have hlisted : List.range 9 ⊆ s.activeSdom := by
    intro d hd
    exact (hs.listed d).mpr (List.ne_nil_of_mem (hall d hd 0))
  have hsum : ((List.range 9).map s.share).sum ≤ s.total := by
    obtain ⟨l, hperm, hsub⟩ := List.nodup_range.subperm hlisted
    rw [← (hperm.map s.share).sum_eq]
    exact (hsub.map s.share).sum_le_sum fun _ _ => Nat.zero_le _
  have hnine : 9 * (65535 * maxVirtCpus) ≤ ((List.range 9).map s.share).sum :=
    List.card_nsmul_le_sum _ _ hshare
  have hw := hs.weight
  unfold maxVirtCpus at hnine
  omega

/-- The vCPUs of the first nine domains. -/
def vcpusOfNine : List (Vcpu Nat) :=
  (List.range 9).flatMap fun d => (List.finRange maxVirtCpus).map (Vcpu.mk d)

/-- The weights are set, and all vCPUs are found running. -/
def nineDomains : List (Step Nat) :=
  (List.range 9).map (fun d => .domCntl d 65535 65535) ++ vcpusOfNine.map fun v => .vcpuAcct v 0

/-- The weights of these vCPUs do not fit into `prv->weight`. -/
theorem nineDomains_overflow :
    Runs.Each act Called nineDomains (init 1) ∧ ¬ (Runs.run act nineDomains (init 1)).Consistent := by
  constructor
  · refine Runs.each_of_forall fun step hstep s => ?_
    rcases List.mem_append.mp hstep with h | h
    · obtain ⟨d, -, rfl⟩ := List.mem_map.mp h
      trivial
    · obtain ⟨v, -, rfl⟩ := List.mem_map.mp h
      trivial
  · intro hcons
    rw [nineDomains, Runs.run_append] at hcons
    have hset : ∀ d ∈ List.range 9, ((Runs.run act ((List.range 9).map fun d => .domCntl d 65535 65535)
        (init 1) : State Nat).sdom d).weight = 65535 := by decide +kernel
    have hzero : (Runs.run act ((List.range 9).map fun d => .domCntl d 65535 65535)
        (init 1) : State Nat).weight < 2 ^ 32 := by decide +kernel
    generalize Runs.run act ((List.range 9).map fun d => .domCntl d 65535 65535) (init 1) = s at *
    obtain ⟨hact, -, hweight, hlt⟩ := State.run_ticks vcpusOfNine s hzero
    refine hcons.not_all_active hlt (fun d hd => (hweight d).trans (hset d hd)) fun d hd i => hact _ ?_
    exact List.mem_flatMap.mpr ⟨d, hd, List.mem_map.mpr ⟨i, List.mem_finRange i, rfl⟩⟩

end Sched.Credit
