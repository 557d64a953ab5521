import Mathlib

/-!
# The choice of a domain id

`XEN_DOMCTL_createdomain` either takes the id that the caller gives or looks for one, from the id
after the last that was found. The loop compares with that id before it probes, and it wraps
around at the reserved ids inside its body.
-/

namespace Domctl

/-- `DOMID_FIRST_RESERVED`. -/
def domidFirstReserved : ℕ := 0x7FF0

inductive Errno where
  | EINVAL
  | ENOMEM
  | EFAULT
deriving DecidableEq, Repr

/-- `is_free_domid`. The domains are those of the hash of domains. -/
def isFreeDomid (used : ℕ → Bool) (dom : ℕ) : Bool :=
  if dom ≥ domidFirstReserved then false else !used dom

/-- The loop, with its variable before the test: the value it ends with. `domid_t` has 16 bits. -/
def probe (used : ℕ → Bool) (rover : ℕ) : ℕ → ℕ → Option ℕ
  | 0, _ => none
  | fuel + 1, dom =>
      if dom = rover then some dom
      else
        let dom := if dom = domidFirstReserved then 0 else dom
        if isFreeDomid used dom then some dom else probe used rover fuel ((dom + 1) % 2 ^ 16)

/-- What the loop finds. -/
def chooseDomid (used : ℕ → Bool) (rover fuel : ℕ) : Option (Except Errno ℕ) :=
  match probe used rover fuel ((rover + 1) % 2 ^ 16) with
  | none => none
  | some dom => if dom = rover then some (.error .ENOMEM) else some (.ok dom)

/-- The ids in use, and the variable that outlives the calls. -/
structure Ids where
  used : ℕ → Bool
  rover : ℕ

/-- The machine after boot: domain 0 exists. -/
def Ids.boot : Ids := ⟨fun dom => decide (dom = 0), 0⟩

/-- A call: the id it asks for, whether its flags pass, what comes of `domain_create` and of the
copy to the caller. -/
structure Create where
  domain : ℕ
  flagsOk : Bool
  created : Bool
  copied : Bool

/-- The end of the call, when the id is known. -/
def finishCreate (op : Create) (dom : ℕ) (s : Ids) : Except Errno ℕ × Ids :=
  if op.created then
    (if op.copied then .ok dom else .error .EFAULT, { s with used := Function.update s.used dom true })
  else (.error .ENOMEM, s)

/-- `XEN_DOMCTL_createdomain`. -/
def createdomain (fuel : ℕ) (op : Create) (s : Ids) : Option (Except Errno ℕ × Ids) :=
  if !op.flagsOk then some (.error .EINVAL, s)
  else if 0 < op.domain ∧ op.domain < domidFirstReserved then
    if !isFreeDomid s.used op.domain then some (.error .EINVAL, s)
    else some (finishCreate op op.domain s)
  else
    match chooseDomid s.used s.rover fuel with
    | none => none
    | some (.error e) => some (.error e, s)
    | some (.ok dom) => some (finishCreate op dom { s with rover := dom })

/-- The states that calls, and the end of domains other than domain 0, lead to. -/
inductive Ids.Reachable : Ids → Prop
  | boot : Reachable Ids.boot
  | create {s s' : Ids} {fuel : ℕ} {op : Create} {r : Except Errno ℕ} : Reachable s →
      createdomain fuel op s = some (r, s') → Reachable s'
  | destroy {s : Ids} {dom : ℕ} : Reachable s → dom ≠ 0 →
      Reachable { s with used := Function.update s.used dom false }

/-- The choice ends, with a free id, and fails only where there is none. -/
structure Selects (used : ℕ → Bool) (rover : ℕ) : Prop where
  ends : ∃ fuel r, chooseDomid used rover fuel = some r
  free : ∀ fuel dom, chooseDomid used rover fuel = some (.ok dom) →
    0 < dom ∧ dom < domidFirstReserved ∧ used dom = false
  fails : ∀ fuel e, chooseDomid used rover fuel = some (.error e) →
    e = .ENOMEM ∧ ∀ dom, 0 < dom → dom < domidFirstReserved → used dom = true

/-! ## The loop -/

variable {used : ℕ → Bool} {rover dom a b fuel : ℕ} {s s' : Ids}

/-- An id that the loop goes past. -/
def Passed (used : ℕ → Bool) (rover dom : ℕ) : Prop := dom ≠ rover ∧ used dom = true

theorem probe_pass (h : Passed used rover a) (ha : a < domidFirstReserved) :
    probe used rover (fuel + 1) a = probe used rover fuel (a + 1) := by
  have hne : a ≠ domidFirstReserved := Nat.ne_of_lt ha
  have hmod : (a + 1) % 2 ^ 16 = a + 1 := by
    unfold domidFirstReserved at ha
    omega
  have hfree : isFreeDomid used a = false := by
    rw [isFreeDomid, if_neg (Nat.not_le.mpr ha), h.2]
    rfl
  rw [probe, if_neg h.1]
  simp only [hne, if_false, hfree, Bool.false_eq_true]
  rw [hmod]

theorem probe_wrap (h0 : used 0 = true) (hrover : rover < domidFirstReserved) :
    probe used rover (fuel + 1) domidFirstReserved = probe used rover fuel 1 := by
  have hfree : isFreeDomid used 0 = false := by
    rw [isFreeDomid, if_neg (by decide), h0]
    rfl
  have hstep : probe used rover (fuel + 1) domidFirstReserved = probe used rover fuel ((0 + 1) % 2 ^ 16) := by
    rw [probe, if_neg (Nat.ne_of_gt hrover)]
    simp only [if_true, hfree, Bool.false_eq_true, if_false]
  exact hstep

theorem probe_found (hne : dom ≠ rover) (hdom : dom < domidFirstReserved) (hfree : used dom = false) :
    probe used rover (fuel + 1) dom = some dom := by
  have hne' : dom ≠ domidFirstReserved := Nat.ne_of_lt hdom
  have hfree' : isFreeDomid used dom = true := by
    rw [isFreeDomid, if_neg (Nat.not_le.mpr hdom), hfree]
    rfl
  rw [probe, if_neg hne]
  simp only [hne', if_false, hfree', if_true]

theorem probe_back : probe used rover (fuel + 1) rover = some rover := by
  rw [probe, if_pos rfl]

/-- The ids from `a` up to `b` are gone past. -/
theorem probe_passes (hb : b ≤ domidFirstReserved) (n : ℕ) (hn : a + n = b)
    (h : ∀ d, a ≤ d → d < b → Passed used rover d) :
    probe used rover (fuel + n) a = probe used rover fuel b := by
  induction n generalizing a with
  | zero =>
      rw [Nat.add_zero] at hn
      rw [hn, Nat.add_zero]
  | succ n ih =>
      rw [← Nat.add_assoc, probe_pass (h a (Nat.le_refl a) (by omega)) (by omega)]
      exact ih (by omega) fun d hd hd' => h d (by omega) hd'

/-- More fuel changes nothing. -/
theorem probe_mono (h : probe used rover fuel a = some b) (n : ℕ) :
    probe used rover (fuel + n) a = some b := by
  induction fuel generalizing a with
  | zero => exact absurd h nofun
  | succ fuel ih =>
      rw [Nat.add_right_comm]
      rw [probe] at h ⊢
      by_cases ha : a = rover
      · rw [if_pos ha] at h ⊢
        exact h
      · rw [if_neg ha] at h ⊢
        dsimp only at h ⊢
        generalize (if a = domidFirstReserved then 0 else a) = d at h ⊢
        by_cases hfree : isFreeDomid used d = true
        · rw [if_pos hfree] at h ⊢
          exact h
        · rw [if_neg hfree] at h ⊢
          exact ih h

theorem chooseDomid_mono {r : Except Errno ℕ} (h : chooseDomid used rover fuel = some r) (n : ℕ) :
    chooseDomid used rover (fuel + n) = some r := by
  unfold chooseDomid at h ⊢
  cases hp : probe used rover fuel ((rover + 1) % 2 ^ 16) with
  | none =>
      rw [hp] at h
      exact absurd h nofun
  | some dom =>
      rw [hp] at h
      rw [probe_mono hp]
      exact h

theorem chooseDomid_unique {r r' : Except Errno ℕ} {fuel' : ℕ} (h : chooseDomid used rover fuel = some r)
    (h' : chooseDomid used rover fuel' = some r') : r = r' := by
  have hleft := chooseDomid_mono h fuel'
  have hright := chooseDomid_mono h' fuel
  rw [Nat.add_comm] at hright
  exact Option.some.inj (hleft.symm.trans hright)

/-- Either all the ids from `a` up to `b` are gone past, or one of them is found. -/
theorem probe_scan (hb : b ≤ domidFirstReserved) (n : ℕ) (hn : a + n = b)
    (hrover : ∀ d, a ≤ d → d < b → d ≠ rover) :
    (∀ d, a ≤ d → d < b → used d = true) ∨
      ∃ fuel dom, probe used rover fuel a = some dom ∧ a ≤ dom ∧ dom < b ∧ used dom = false := by
  induction n generalizing a with
  | zero =>
      left
      intro d hd hd'
      omega
  | succ n ih =>
      cases ha : used a with
      | false =>
          right
          exact ⟨1, a, probe_found (hrover a (Nat.le_refl a) (by omega)) (by omega) ha, Nat.le_refl a,
            by omega, ha⟩
      | true =>
          rcases @ih (a + 1) (by omega) (fun d hd hd' => hrover d (by omega) hd') with
            hall | ⟨fuel, dom, hp, hlo, hhi, hfree⟩
          · left
            intro d hd hd'
            rcases Nat.eq_or_lt_of_le hd with rfl | hlt
            · exact ha
            · exact hall d hlt hd'
          · right
            refine ⟨fuel + 1, dom, ?_, by omega, hhi, hfree⟩
            rw [probe_pass ⟨hrover a (Nat.le_refl a) (by omega), ha⟩ (by omega)]
            exact hp

/-- With rover 0 the loop comes back to 0 inside its body only, where it is set to 1 before the
next test. -/
theorem probe_never (h : ∀ d, d < domidFirstReserved → used d = true) (ha : 0 < a)
    (hb : a ≤ domidFirstReserved) : probe used 0 fuel a = none := by
  induction fuel generalizing a with
  | zero => rfl
  | succ fuel ih =>
      rcases Nat.lt_or_ge a domidFirstReserved with hlt | hge
      · rw [probe_pass ⟨Nat.ne_of_gt ha, h a hlt⟩ hlt]
        exact ih (by omega) (by omega)
      · rw [Nat.le_antisymm hb hge, probe_wrap (h 0 (by decide)) (by decide)]
        exact ih (by decide) (by decide)

/-- The ids that the loop probes, and how it ends when none of them is free. -/
theorem chooseDomid_cases (h0 : used 0 = true) (hrover : rover < domidFirstReserved) :
    (∃ fuel dom, chooseDomid used rover fuel = some (.ok dom) ∧ 0 < dom ∧ dom < domidFirstReserved ∧
      dom ≠ rover ∧ used dom = false) ∨
    ((∀ dom, 0 < dom → dom < domidFirstReserved → dom ≠ rover → used dom = true) ∧
      ((rover = 0 ∧ ∀ fuel, chooseDomid used rover fuel = none) ∨
        (rover ≠ 0 ∧ ∃ fuel, chooseDomid used rover fuel = some (.error .ENOMEM)))) := by
  have hstart : (rover + 1) % 2 ^ 16 = rover + 1 := by
    unfold domidFirstReserved at hrover
    omega
  have hfound : ∀ {fuel dom : ℕ}, probe used rover fuel (rover + 1) = some dom → dom ≠ rover →
      chooseDomid used rover fuel = some (.ok dom) := by
    intro fuel dom hp hne
    rw [chooseDomid, hstart, hp]
    exact if_neg hne
  rcases @probe_scan used rover (rover + 1) domidFirstReserved (Nat.le_refl _)
      (domidFirstReserved - (rover + 1)) (by omega) (fun d hd _ => by omega) with
    hupper | ⟨fuel, dom, hp, hlo, hhi, hfree⟩
  · have hpass := fun fuel => @probe_passes used rover (rover + 1) domidFirstReserved fuel (Nat.le_refl _)
      (domidFirstReserved - (rover + 1)) (by omega) fun d hd hd' => ⟨by omega, hupper d hd hd'⟩
    rcases Nat.eq_zero_or_pos rover with rfl | hpos
    · right
      have hall : ∀ d, d < domidFirstReserved → used d = true := by
        intro d hd
        rcases Nat.eq_zero_or_pos d with rfl | hd'
        · exact h0
        · exact hupper d hd' hd
      refine ⟨fun d _ hd _ => hall d hd, Or.inl ⟨rfl, ?_⟩⟩
      intro fuel
      rw [chooseDomid, hstart, probe_never hall (by decide) (by decide)]
    · rcases @probe_scan used rover 1 rover (by omega) (rover - 1) (by omega) (fun d _ hd => by omega) with
        hlower | ⟨fuel, dom, hp, hlo, hhi, hfree⟩
      · right
        have hback := @probe_passes used rover 1 rover 1 (by omega) (rover - 1) (by omega)
          fun d hd hd' => ⟨by omega, hlower d hd hd'⟩
        rw [probe_back] at hback
        refine ⟨?_, Or.inr ⟨Nat.ne_of_gt hpos, 1 + (rover - 1) + 1 + (domidFirstReserved - (rover + 1)), ?_⟩⟩
        · intro d hd hd' hne
          rcases Nat.lt_or_gt_of_ne hne with hlt | hgt
          · exact hlower d hd hlt
          · exact hupper d hgt hd'
        · rw [chooseDomid, hstart, hpass, probe_wrap h0 hrover, hback]
          exact if_pos rfl
      · left
        refine ⟨fuel + 1 + (domidFirstReserved - (rover + 1)), dom, hfound ?_ (by omega), hlo, by omega,
          by omega, hfree⟩
        rw [hpass, probe_wrap h0 hrover, hp]
  · left
    exact ⟨fuel, dom, hfound hp (by omega), by omega, hhi, by omega, hfree⟩

/-- The choice is right if and only if some id other than the last that was found is free, or that
id is one and is in use. -/
theorem selects_iff (h0 : used 0 = true) (hrover : rover < domidFirstReserved) :
    Selects used rover ↔
      (∃ dom, 0 < dom ∧ dom < domidFirstReserved ∧ dom ≠ rover ∧ used dom = false) ∨
        (rover ≠ 0 ∧ used rover = true) := by
  rcases chooseDomid_cases h0 hrover with
    ⟨fuel, dom, hchoose, hpos, hlt, hne, hfree⟩ | ⟨hall, ⟨rfl, hnever⟩ | ⟨hpos, fuel, hchoose⟩⟩
  · constructor
    · intro _
      exact Or.inl ⟨dom, hpos, hlt, hne, hfree⟩
    · intro _
      refine ⟨⟨fuel, _, hchoose⟩, ?_, ?_⟩
      · intro fuel' dom' h'
        have heq := chooseDomid_unique hchoose h'
        obtain rfl := Except.ok.inj heq
        exact ⟨hpos, hlt, hfree⟩
      · intro fuel' e h'
        exact absurd (chooseDomid_unique hchoose h') nofun
  · constructor
    · intro h
      obtain ⟨fuel, r, hr⟩ := h.ends
      rw [hnever] at hr
      exact absurd hr nofun
    · rintro (⟨dom, hpos, hlt, hne, hfree⟩ | ⟨hne, -⟩)
      · rw [hall dom hpos hlt hne] at hfree
        exact absurd hfree nofun
      · exact absurd rfl hne
  · constructor
    · intro h
      exact Or.inr ⟨hpos, (h.fails fuel _ hchoose).2 rover (Nat.pos_of_ne_zero hpos) hrover⟩
    · intro hcond
      have hused : used rover = true := by
        rcases hcond with ⟨dom, hdom, hlt, hne, hfree⟩ | ⟨-, hused⟩
        · rw [hall dom hdom hlt hne] at hfree
          exact absurd hfree nofun
        · exact hused
      refine ⟨⟨fuel, _, hchoose⟩, ?_, ?_⟩
      · intro fuel' dom' h'
        exact absurd (chooseDomid_unique hchoose h') nofun
      · intro fuel' e h'
        obtain rfl := Except.error.inj (chooseDomid_unique hchoose h')
        refine ⟨rfl, ?_⟩
        intro dom hdom hlt
        by_cases hne : dom = rover
        · rw [hne]
          exact hused
        · exact hall dom hdom hlt hne

/-! ## Runs -/

/-- Domain 0 is there, and the last id found is no reserved one. -/
structure Ids.Inv (s : Ids) : Prop where
  zero : s.used 0 = true
  rover : s.rover < domidFirstReserved

theorem chooseDomid_ok (h0 : used 0 = true) (hrover : rover < domidFirstReserved)
    (h : chooseDomid used rover fuel = some (.ok dom)) : 0 < dom ∧ dom < domidFirstReserved := by
  rcases chooseDomid_cases h0 hrover with
    ⟨fuel', dom', hchoose, hpos, hlt, -, -⟩ | ⟨-, ⟨-, hnever⟩ | ⟨-, fuel', hchoose⟩⟩
  · obtain rfl := Except.ok.inj (chooseDomid_unique hchoose h)
    exact ⟨hpos, hlt⟩
  · rw [hnever] at h
    exact absurd h nofun
  · exact absurd (chooseDomid_unique hchoose h) nofun

theorem Ids.Inv.finish (h : s.Inv) (op : Create) (dom : ℕ) : (finishCreate op dom s).2.Inv := by
  unfold finishCreate
  cases op.created with
  | false => exact h
  | true =>
      constructor
      · show Function.update s.used dom true 0 = true
        by_cases hdom : 0 = dom
        · rw [hdom, Function.update_self]
        · rw [Function.update_of_ne hdom]
          exact h.zero
      · exact h.rover

theorem Ids.Inv.create {op : Create} {r : Except Errno ℕ} (h : s.Inv)
    (hstep : createdomain fuel op s = some (r, s')) : s'.Inv := by
  unfold createdomain at hstep
  cases hflags : op.flagsOk with
  | false =>
      rw [hflags] at hstep
      obtain ⟨-, rfl⟩ := Prod.mk.inj (Option.some.inj hstep)
      exact h
  | true =>
      simp only [hflags, Bool.not_true, Bool.false_eq_true, if_false] at hstep
      by_cases hdom : 0 < op.domain ∧ op.domain < domidFirstReserved
      · rw [if_pos hdom] at hstep
        cases hfree : isFreeDomid s.used op.domain with
        | false =>
            rw [hfree] at hstep
            obtain ⟨-, rfl⟩ := Prod.mk.inj (Option.some.inj hstep)
            exact h
        | true =>
            simp only [hfree, Bool.not_true, Bool.false_eq_true, if_false] at hstep
            have hs : (finishCreate op op.domain s).2 = s' := congrArg Prod.snd (Option.some.inj hstep)
            exact hs ▸ h.finish op op.domain
      · rw [if_neg hdom] at hstep
        cases hchoose : chooseDomid s.used s.rover fuel with
        | none =>
            rw [hchoose] at hstep
            exact absurd hstep nofun
        | some res =>
            rw [hchoose] at hstep
            cases res with
            | error e =>
                obtain ⟨-, rfl⟩ := Prod.mk.inj (Option.some.inj hstep)
                exact h
            | ok dom =>
                have hs : (finishCreate op dom { s with rover := dom }).2 = s' :=
                  congrArg Prod.snd (Option.some.inj hstep)
                have hinv : Ids.Inv { s with rover := dom } :=
                  ⟨h.zero, (chooseDomid_ok h.zero h.rover hchoose).2⟩
                exact hs ▸ hinv.finish op dom

theorem Ids.Reachable.inv (h : s.Reachable) : s.Inv := by
  induction h with
  | boot => exact ⟨rfl, by decide⟩
  | create _ hstep ih => exact ih.create hstep
  | @destroy s dom _ hdom ih =>
      constructor
      · show Function.update s.used dom false 0 = true
        rw [Function.update_of_ne (Ne.symm hdom)]
        exact ih.zero
      · exact ih.rover

/-- For every set of ids in use with domain 0, and every rover that calls lead to, the choice is
right exactly if an id other than the rover is free, or the rover is an id in use. -/
theorem createdomain_selects_iff (used : ℕ → Bool) (h0 : used 0 = true) (s : Ids) (hs : s.Reachable) :
    Selects used s.rover ↔
      (∃ dom, 0 < dom ∧ dom < domidFirstReserved ∧ dom ≠ s.rover ∧ used dom = false) ∨
        (s.rover ≠ 0 ∧ used s.rover = true) :=
  selects_iff h0 hs.inv.rover

theorem createdomain_selects_iff_boot :
    Selects Ids.boot.used Ids.boot.rover ↔
      (∃ dom, 0 < dom ∧ dom < domidFirstReserved ∧ dom ≠ Ids.boot.rover ∧ Ids.boot.used dom = false) ∨
        (Ids.boot.rover ≠ 0 ∧ Ids.boot.used Ids.boot.rover = true) :=
  createdomain_selects_iff Ids.boot.used rfl Ids.boot Ids.Reachable.boot

/-- Domains with the ids 1, 2 and so on, each given by its caller. -/
theorem reachable_upTo (k : ℕ) (hk : k < domidFirstReserved) :
    Ids.Reachable ⟨fun dom => decide (dom ≤ k), 0⟩ := by
  induction k with
  | zero =>
      have hboot : (fun dom => decide (dom ≤ 0)) = Ids.boot.used := by
        funext dom
        simp [Ids.boot]
      rw [hboot]
      exact Ids.Reachable.boot
  | succ k ih =>
      have hfree : isFreeDomid (fun dom => decide (dom ≤ k)) (k + 1) = true := by
        rw [isFreeDomid, if_neg (Nat.not_le.mpr hk)]
        simp
      have hcall : createdomain 0 ⟨k + 1, true, true, true⟩ ⟨fun dom => decide (dom ≤ k), 0⟩ =
          some (.ok (k + 1), ⟨Function.update (fun dom => decide (dom ≤ k)) (k + 1) true, 0⟩) := by
        unfold createdomain
        simp only [Bool.not_true, Bool.false_eq_true, if_false]
        rw [if_pos ⟨Nat.succ_pos k, hk⟩]
        simp only [hfree, Bool.not_true, Bool.false_eq_true, if_false]
        rfl
      have hused : Function.update (fun dom => decide (dom ≤ k)) (k + 1) true =
          fun dom => decide (dom ≤ k + 1) := by
        funext dom
        by_cases hdom : dom = k + 1
        · rw [hdom, Function.update_self]
          simp
        · rw [Function.update_of_ne hdom]
          exact decide_eq_decide.mpr (by omega)
      rw [hused] at hcall
      exact (ih (by omega)).create hcall

/-- When all the ids were given by the callers, the search for one does not end. -/
theorem selects_neverEnds :
    Ids.Reachable ⟨fun dom => decide (dom ≤ 0x7FEF), 0⟩ ∧
      (∀ fuel, chooseDomid (fun dom => decide (dom ≤ 0x7FEF)) 0 fuel = none) ∧
      ¬Selects (fun dom => decide (dom ≤ 0x7FEF)) 0 := by
  have hall : ∀ d, d < domidFirstReserved → (fun dom => decide (dom ≤ 0x7FEF)) d = true := by
    intro d hd
    exact decide_eq_true (by unfold domidFirstReserved at hd; omega)
  have hnever : ∀ fuel, chooseDomid (fun dom => decide (dom ≤ 0x7FEF)) 0 fuel = none := by
    intro fuel
    have hprobe : probe (fun dom => decide (dom ≤ 0x7FEF)) 0 fuel ((0 + 1) % 2 ^ 16) = none :=
      probe_never hall (by decide) (by decide)
    rw [chooseDomid, hprobe]
  refine ⟨reachable_upTo 0x7FEF (by decide), hnever, ?_⟩
  intro h
  obtain ⟨fuel, r, hr⟩ := h.ends
  rw [hnever] at hr
  exact absurd hr nofun

end Domctl
