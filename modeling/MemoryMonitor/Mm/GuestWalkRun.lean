import MemoryMonitor.Lib.Masks
import MemoryMonitor.Mm.GuestWalk

/-!
# What a walk of the guest's page tables returns

The processor reads entries from the root down (`Env.loc`) until one is not
present or maps a page. The access is `Accessible` by the RW, USER and NX bits of
all of them, and the entries must have no reserved bits (`NoReserved`). Xen's
walk checks the former, but not the latter: `_PAGE_INVALID_BITS` is 0
(`pageInvalidBits_eq_zero`). It takes an entry of the third level for a table
always; a processor may map 1GB by it (`Env.huge`).
-/

namespace Mm.GuestWalk

open Masks

/-! ## The processor's walk -/

section Architecture

variable (E : Env) (mem : Memory) (va : BitVec 64) (pfec : BitVec 32) (topMfn : Nat)

/-- The place of the entry that is read at depth `d`. -/
def Env.loc : Nat → Loc
  | 0 => (topMfn, tableOffset 3 va)
  | d + 1 => ((E.gfnToMfn (getGfn (mem (Env.loc d)))).mfn, tableOffset (2 - d) va)

/-- The entry at depth `d`. -/
def Env.entry (d : Nat) : Pte := mem (E.loc mem va topMfn d)

/-- An entry of the third level that maps 1GB. -/
def Env.huge : Bool :=
  E.gigabytePages && (E.entry mem va topMfn 0).getLsbD 0 && (E.entry mem va topMfn 1).getLsbD 0 &&
    (E.entry mem va topMfn 1).getLsbD 7

/-- An entry of the second level that maps 2MB. -/
def Env.large : Bool := !E.huge mem va topMfn && (E.supportsSuperpages && (E.entry mem va topMfn 2).getLsbD 7)

/-- How many entries are read. -/
def Env.reads : Nat :=
  if (E.entry mem va topMfn 0).getLsbD 0 = false then 1
  else if (E.entry mem va topMfn 1).getLsbD 0 = false ∨ E.huge mem va topMfn = true then 2
  else if (E.entry mem va topMfn 2).getLsbD 0 = false ∨ E.large mem va topMfn = true then 3
  else 4

/-- What an access asks of every entry. -/
structure Demand where
  write : Bool
  user : Bool
  fetch : Bool

/-- The access in `pfec`: writes of the supervisor are restricted under CR0.WP
only, and fetches where NX is supported. -/
def Env.demand : Demand where
  write := pfec.getLsbD 1 && !(E.isHvm && !E.wpEnabled && !pfec.getLsbD 2)
  user := pfec.getLsbD 2
  fetch := pfec.getLsbD 4 && E.supportsNx

/-- A present entry whose RW, USER and NX bits permit the access. -/
def Demand.Granted (D : Demand) (e : Pte) : Prop :=
  e.getLsbD 0 = true ∧ (D.write = true → e.getLsbD 1 = true) ∧ (D.user = true → e.getLsbD 2 = true) ∧
    (D.fetch = true → e.getLsbD 63 = false)

/-- Every entry is present and permits the access. Under SMEP the supervisor may
not fetch from a page that all entries give to the user. -/
def Env.Accessible : Prop :=
  (∀ d < E.reads mem va topMfn, (E.demand pfec).Granted (E.entry mem va topMfn d)) ∧
    (E.smep pfec = true → ∃ d < E.reads mem va topMfn, (E.entry mem va topMfn d).getLsbD 2 = false)

/-- The reserved bits of an entry at depth `d`: address bits that the processor does not have, NX where
it is not enabled, and bit 7 where an entry can only name a table. -/
def Env.ReservedBit (d b : Nat) : Prop :=
  E.paddrBits ≤ b ∧ b < 52 ∨ b = 63 ∧ E.supportsNx = false ∨
    b = 7 ∧ (d = 0 ∨ d = 1 ∧ E.gigabytePages = false)

/-- No entry has a reserved bit, and the frame of a page of 1GB or 2MB is aligned. -/
def Env.NoReserved : Prop :=
  (∀ d < E.reads mem va topMfn, ∀ b, E.ReservedBit d b → (E.entry mem va topMfn d).getLsbD b = false) ∧
    (E.huge mem va topMfn = true → ∀ b, 13 ≤ b → b < 30 → (E.entry mem va topMfn 1).getLsbD b = false) ∧
    (E.large mem va topMfn = true → ∀ b, 13 ≤ b → b < 21 → (E.entry mem va topMfn 2).getLsbD b = false)

/-- The frame the address lies in. -/
def Env.pageFrame : BitVec 64 :=
  if E.huge mem va topMfn then ((E.entry mem va topMfn 1).extractLsb' 30 22 ++ va.extractLsb' 12 18).setWidth 64
  else if E.large mem va topMfn then
    ((E.entry mem va topMfn 2).extractLsb' 21 31 ++ va.extractLsb' 12 9).setWidth 64
  else ((E.entry mem va topMfn 3).extractLsb' 12 40).setWidth 64

/-- The tables on the path are ordinary RAM. -/
def Env.TablesOrdinary : Prop :=
  ∀ d, d + 1 < E.reads mem va topMfn →
    (E.gfnToMfn (getGfn (E.entry mem va topMfn d))).type ∈ [P2m.P2mType.ramRw, .ramLogdirty, .ramRo]

end Architecture

/-- The accessed bit is set in the entries at `uppers` and at `leaf`, the dirty bit
at `leaf` for a write. Where the leaf is an upper entry as well (a table that
refers to itself) the dirty bit may be left for the next walk. -/
structure Marked (mem mem' : Memory) (uppers : List Loc) (leaf : Loc) (write : Bool) : Prop where
  other : ∀ loc ∉ uppers, loc ≠ leaf → mem' loc = mem loc
  upper : ∀ loc ∈ uppers, loc ≠ leaf → mem' loc = mem loc ||| 0x20#64
  last : leaf ∉ uppers → mem' leaf = mem leaf ||| 0x20#64 ||| if write then 0x40#64 else 0
  both : leaf ∈ uppers → mem' leaf = mem leaf ||| 0x20#64 ∨ (write = true ∧ mem' leaf = mem leaf ||| 0x20#64 ||| 0x40#64)

/-! ## Flags -/

variable {E : Env} {mem : Memory} {va : BitVec 64} {pfec : BitVec 32} {topMfn : Nat}

theorem getLsbD_getPteFlags (e : Pte) (b : Nat) :
    (getPteFlags e).getLsbD b =
      ((decide (b < 12) && e.getLsbD b) || (decide (12 ≤ b) && decide (b < 24) && e.getLsbD (b + 40))) := by
  have hlow : (0xFFF#32) = 1#32 <<< 12 - 1#32 := rfl
  unfold getPteFlags
  rw [BitVec.getLsbD_or, BitVec.getLsbD_and, BitVec.getLsbD_and, BitVec.getLsbD_not, hlow,
    getLsbD_low (by decide), BitVec.getLsbD_setWidth, BitVec.getLsbD_setWidth, BitVec.getLsbD_ushiftRight,
    Nat.add_comm 40 b]
  rcases Nat.lt_or_ge b 12 with h12 | h12
  · simp [h12, show b < 32 by omega]
  · rcases Nat.lt_or_ge b 24 with h24 | h24
    · simp [h12, h24, show ¬ b < 12 by omega, show b < 32 by omega]
    · simp [show ¬ b < 12 by omega, show ¬ b < 24 by omega, BitVec.getLsbD_of_ge e (b + 40) (by omega)]

/-- The address bits a processor does not have lie below bit 52, and `get_pte_flags`
drops them. -/
theorem pageInvalidBits_eq_zero (E : Env) : E.pageInvalidBits = 0#32 := by
  have hp := E.paddr
  have h52 : ∀ b, (1#64 <<< 52 - 1#64).getLsbD b = decide (b < 52) := getLsbD_low (by decide)
  have hpaddr : ∀ b, (1#64 <<< E.paddrBits - 1#64).getLsbD b = decide (b < E.paddrBits) := getLsbD_low (by omega)
  ext b hb
  unfold Env.pageInvalidBits
  rw [← BitVec.getLsbD_eq_getElem, getLsbD_getPteFlags, BitVec.getElem_zero, BitVec.getLsbD_and, BitVec.getLsbD_and,
    BitVec.getLsbD_not, BitVec.getLsbD_not, h52, h52, hpaddr, hpaddr]
  rcases Nat.lt_or_ge b 12 with h12 | h12
  · simp [h12, show b < E.paddrBits by omega, show b < 64 by omega]
  · simp [show ¬ b < 12 by omega, show ¬ b + 40 < 52 by omega]

/-- The table of `mandatory_flags`, by the bits of its index. -/
theorem flagsTable_getD : ∀ i < 16, flagsTable.getD i 0 =
    pagePresent ||| (if i.testBit 0 then pageRw else 0) ||| (if i.testBit 1 then pageUser else 0) |||
      (if i.testBit 3 then pageNxBit else 0) := by
  decide

/-- The flags that are demanded of each entry. -/
def Demand.flags (D : Demand) : BitVec 32 :=
  pagePresent ||| (if D.write then pageRw else 0) ||| (if D.user then pageUser else 0) ||| (if D.fetch then pageNxBit else 0)

theorem mandatoryFlags_eq (E : Env) (pfec : BitVec 32) : E.mandatoryFlags pfec = (E.demand pfec).flags := by
  have hindex (p : BitVec 32) (k : Nat) (hk : k < 4) : ((p &&& 0x1f) >>> 1).toNat.testBit k = p.getLsbD (k + 1) := by
    show ((p &&& 0x1f) >>> 1).getLsbD k = _
    have hlow : (0x1f : BitVec 32) = 1#32 <<< 5 - 1#32 := rfl
    rw [BitVec.getLsbD_ushiftRight, BitVec.getLsbD_and, hlow, getLsbD_low (by decide), Nat.add_comm 1 k,
      decide_eq_true (by omega), Bool.and_true]
  have hlt (p : BitVec 32) : ((p &&& 0x1f) >>> 1).toNat < 16 := by
    rw [BitVec.toNat_ushiftRight, BitVec.toNat_and, Nat.shiftRight_eq_div_pow]
    have hle : p.toNat &&& (0x1f : BitVec 32).toNat ≤ 31 := Nat.and_le_right
    omega
  have hclear (p : BitVec 32) (k b : Nat) : (p &&& ~~~(1#32 <<< k)).getLsbD b = (p.getLsbD b && decide (b ≠ k)) := by
    rw [← BitVec.twoPow_eq, BitVec.getLsbD_and, BitVec.getLsbD_not, BitVec.getLsbD_twoPow]
    rcases Nat.lt_or_ge b 32 with hb | hb
    · by_cases hkb : b = k
      · simp [hkb ▸ hb, hkb]
      · simp [hb, hkb, Ne.symm hkb]
    · simp [BitVec.getLsbD_of_ge p b hb]
  have huser (p : BitVec 32) : p &&& pfecUserMode = 0 ↔ p.getLsbD 2 = false := by
    rw [← not_iff_not, Bool.not_eq_false]
    exact and_bit_ne_zero p (by decide)
  unfold Env.mandatoryFlags Demand.flags Env.demand
  rw [pageInvalidBits_eq_zero, BitVec.or_zero, flagsTable_getD _ (hlt _), hindex _ 0 (by decide),
    hindex _ 1 (by decide), hindex _ 3 (by decide)]
  have hnx : ∀ b, (if ¬ E.supportsNx = true then pfec &&& ~~~pfecInsnFetch else pfec).getLsbD b =
      (pfec.getLsbD b && (E.supportsNx || decide (b ≠ 4))) := by
    intro b
    cases E.supportsNx with
    | true => simp
    | false =>
      rw [if_pos Bool.false_ne_true, Bool.false_or]
      exact hclear pfec 4 b
  generalize (if ¬ E.supportsNx = true then pfec &&& ~~~pfecInsnFetch else pfec) = p at hnx
  have hwp : ∀ b, (if E.isHvm = true ∧ ¬ E.wpEnabled = true ∧ p &&& pfecUserMode = 0 then p &&& ~~~pfecWriteAccess else p).getLsbD b =
      (p.getLsbD b && !(E.isHvm && !E.wpEnabled && !p.getLsbD 2 && decide (b = 1))) := by
    intro b
    by_cases hcond : E.isHvm = true ∧ ¬ E.wpEnabled = true ∧ p &&& pfecUserMode = 0
    · rw [if_pos hcond]
      refine (hclear p 1 b).trans ?_
      rw [hcond.1, Bool.eq_false_iff.mpr hcond.2.1, (huser p).mp hcond.2.2]
      simp
    · rw [if_neg hcond]
      rw [huser] at hcond
      cases hh : E.isHvm <;> cases hw : E.wpEnabled <;> cases h2 : p.getLsbD 2 <;> simp_all
  rw [hwp, hwp, hwp, hnx, hnx, hnx]
  simp

theorem Demand.getLsbD_flags (D : Demand) {b : Nat} (hb : b < 32) :
    D.flags.getLsbD b = true ↔ b = 0 ∨ (b = 1 ∧ D.write = true) ∨ (b = 2 ∧ D.user = true) ∨ (b = 23 ∧ D.fetch = true) := by
  rcases D with ⟨write, user, fetch⟩
  unfold Demand.flags
  dsimp only
  revert b write user fetch
  decide

/-- A flag is missing if it is asked for and the entry does not have it, NX being
inverted. -/
theorem getLsbD_missing (E : Env) (mflags : BitVec 32) (e : Pte) (b : Nat) :
    (E.missing mflags e).getLsbD b = (mflags.getLsbD b && (if b = 23 then e.getLsbD 63 else !(getPteFlags e).getLsbD b)) := by
  have hnx : pageNxBit.getLsbD b = decide (b = 23) := by
    show (1#32 <<< 23).getLsbD b = _
    rw [← BitVec.twoPow_eq, BitVec.getLsbD_twoPow, decide_eq_true (by decide : 23 < 32), Bool.true_and]
    simp only [eq_comm]
  unfold Env.missing
  rw [pageInvalidBits_eq_zero, BitVec.or_zero, BitVec.getLsbD_xor, BitVec.getLsbD_and, BitVec.getLsbD_xor, hnx]
  by_cases h23 : b = 23
  · rw [h23, getLsbD_getPteFlags]
    cases mflags.getLsbD 23 <;> cases e.getLsbD 63 <;> rfl
  · rw [decide_eq_false h23, if_neg h23]
    cases mflags.getLsbD b <;> cases (getPteFlags e).getLsbD b <;> rfl

theorem Demand.missing_iff (D : Demand) (E : Env) (e : Pte) {b : Nat} (hb : b < 32) :
    (E.missing D.flags e).getLsbD b = true ↔
      (b = 0 ∧ e.getLsbD 0 = false) ∨ (b = 1 ∧ D.write = true ∧ e.getLsbD 1 = false) ∨
        (b = 2 ∧ D.user = true ∧ e.getLsbD 2 = false) ∨ (b = 23 ∧ D.fetch = true ∧ e.getLsbD 63 = true) := by
  have hlow : ∀ b < 12, (if b = 23 then e.getLsbD 63 else !(getPteFlags e).getLsbD b) = !e.getLsbD b := by
    intro b hb
    rw [if_neg (by omega), getLsbD_getPteFlags, decide_eq_true hb, decide_eq_false (Nat.not_le.mpr hb)]
    simp
  rw [getLsbD_missing, Bool.and_eq_true, D.getLsbD_flags hb]
  constructor
  · rintro ⟨rfl | ⟨rfl, h⟩ | ⟨rfl, h⟩ | ⟨rfl, h⟩, hmiss⟩
    · rw [hlow 0 (by decide)] at hmiss
      exact .inl ⟨rfl, by simpa using hmiss⟩
    · rw [hlow 1 (by decide)] at hmiss
      exact .inr (.inl ⟨rfl, h, by simpa using hmiss⟩)
    · rw [hlow 2 (by decide)] at hmiss
      exact .inr (.inr (.inl ⟨rfl, h, by simpa using hmiss⟩))
    · rw [if_pos rfl] at hmiss
      exact .inr (.inr (.inr ⟨rfl, h, hmiss⟩))
  · rintro (⟨rfl, he⟩ | ⟨rfl, h, he⟩ | ⟨rfl, h, he⟩ | ⟨rfl, h, he⟩)
    · rw [hlow 0 (by decide), he]
      exact ⟨.inl rfl, rfl⟩
    · rw [hlow 1 (by decide), he]
      exact ⟨.inr (.inl ⟨rfl, h⟩), rfl⟩
    · rw [hlow 2 (by decide), he]
      exact ⟨.inr (.inr (.inl ⟨rfl, h⟩)), rfl⟩
    · rw [if_pos rfl]
      exact ⟨.inr (.inr (.inr ⟨rfl, h⟩)), he⟩

/-- Nothing is missing from an entry that grants the access. -/
theorem Demand.granted_iff (D : Demand) (E : Env) (e : Pte) :
    D.Granted e ↔ ∀ b < 32, ¬ (E.missing D.flags e).getLsbD b = true := by
  constructor
  · rintro ⟨hp, hw, hu, hf⟩ b hb hmiss
    rcases (D.missing_iff E e hb).mp hmiss with ⟨-, he⟩ | ⟨-, h, he⟩ | ⟨-, h, he⟩ | ⟨-, h, he⟩
    · exact Bool.false_ne_true (he.symm.trans hp)
    · exact Bool.false_ne_true (he.symm.trans (hw h))
    · exact Bool.false_ne_true (he.symm.trans (hu h))
    · exact Bool.false_ne_true ((hf h).symm.trans he)
  · intro hnone
    refine ⟨?_, fun hw => ?_, fun hu => ?_, fun hf => ?_⟩
    · refine Bool.not_eq_false _ ▸ fun he => ?_
      exact hnone 0 (by decide) ((D.missing_iff E e (by decide)).mpr (.inl ⟨rfl, he⟩))
    · refine Bool.not_eq_false _ ▸ fun he => ?_
      exact hnone 1 (by decide) ((D.missing_iff E e (by decide)).mpr (.inr (.inl ⟨rfl, hw, he⟩)))
    · refine Bool.not_eq_false _ ▸ fun he => ?_
      exact hnone 2 (by decide) ((D.missing_iff E e (by decide)).mpr (.inr (.inr (.inl ⟨rfl, hu, he⟩))))
    · refine Bool.eq_false_iff.mpr fun he => ?_
      exact hnone 23 (by decide) ((D.missing_iff E e (by decide)).mpr (.inr (.inr (.inr ⟨rfl, hf, he⟩))))

/-! ## The flags that are missing on the path -/

/-- `rc` holds what is missing from the first `n` entries. -/
def Collects (E : Env) (mem : Memory) (va : BitVec 64) (topMfn : Nat) (mflags : BitVec 32) (n : Nat) (rc : BitVec 32) : Prop :=
  ∀ b < 32, rc.getLsbD b = true ↔ ∃ d < n, (E.missing mflags (E.entry mem va topMfn d)).getLsbD b = true

theorem collects_one (mflags : BitVec 32) :
    Collects E mem va topMfn mflags 1 (E.missing mflags (E.entry mem va topMfn 0)) := by
  intro b _
  constructor
  · intro h
    exact ⟨0, Nat.one_pos, h⟩
  · rintro ⟨d, hd, h⟩
    rw [Nat.lt_one_iff.mp hd] at h
    exact h

theorem Collects.next {mflags rc : BitVec 32} {n : Nat} (h : Collects E mem va topMfn mflags n rc) :
    Collects E mem va topMfn mflags (n + 1) (rc ||| E.missing mflags (E.entry mem va topMfn n)) := by
  intro b hb
  rw [BitVec.getLsbD_or, Bool.or_eq_true, h b hb]
  constructor
  · rintro (⟨d, hd, hmiss⟩ | hmiss)
    · exact ⟨d, Nat.lt_succ_of_lt hd, hmiss⟩
    · exact ⟨n, Nat.lt_succ_self n, hmiss⟩
  · rintro ⟨d, hd, hmiss⟩
    rcases Nat.lt_succ_iff_lt_or_eq.mp hd with hlt | rfl
    · exact .inl ⟨d, hlt, hmiss⟩
    · exact .inr hmiss

/-- `mflags` in the walk. -/
def Env.walkFlags (E : Env) (pfec : BitVec 32) : BitVec 32 :=
  if E.smep pfec then E.mandatoryFlags pfec ||| pageUser else E.mandatoryFlags pfec

theorem walkFlags_eq (E : Env) (pfec : BitVec 32) :
    E.walkFlags pfec = { E.demand pfec with user := E.smep pfec || (E.demand pfec).user : Demand }.flags := by
  unfold Env.walkFlags
  rw [mandatoryFlags_eq]
  cases E.smep pfec with
  | false => rfl
  | true =>
    rw [if_pos rfl, Bool.true_or]
    rcases E.demand pfec with ⟨write, user, fetch⟩
    unfold Demand.flags
    revert write user fetch
    decide

/-- The supervisor's fetch under SMEP does not ask for USER. -/
theorem smep_not_user (h : E.smep pfec = true) : (E.demand pfec).user = false := by
  unfold Env.smep at h
  simp only [Bool.and_eq_true, decide_eq_true_eq] at h
  have hbit := (and_bit_ne_zero pfec (b := 2) (by decide)).not
  rw [not_ne_iff] at hbit
  exact Bool.eq_false_iff.mpr (hbit.mp h.2)

/-- `rc` at the end of a walk is 0 for accesses that all entries permit. -/
theorem Collects.eq_zero_iff {rc : BitVec 32} {n : Nat} (h : Collects E mem va topMfn (E.walkFlags pfec) n rc) :
    (if E.smep pfec then rc ^^^ pageUser else rc) = 0 ↔
      (∀ d < n, (E.demand pfec).Granted (E.entry mem va topMfn d)) ∧
        (E.smep pfec = true → ∃ d < n, (E.entry mem va topMfn d).getLsbD 2 = false) := by
  let D := E.demand pfec
  have hflags : E.walkFlags pfec = { D with user := E.smep pfec || D.user : Demand }.flags := walkFlags_eq E pfec
  -- Apart from USER under SMEP the same is missing as without.
  have hsame : ∀ d b, b < 32 → (b = 2 → E.smep pfec = false) →
      ((E.missing (E.walkFlags pfec) (E.entry mem va topMfn d)).getLsbD b = true ↔
        (E.missing D.flags (E.entry mem va topMfn d)).getLsbD b = true) := by
    intro d b hb h2
    rw [hflags, Demand.missing_iff _ E _ hb, Demand.missing_iff _ E _ hb]
    dsimp only
    refine or_congr_right (or_congr_right (or_congr_left (and_congr_right fun heq => ?_)))
    rw [h2 heq, Bool.false_or]
  have hzero (x : BitVec 32) : x = 0#32 ↔ ∀ b < 32, ¬ x.getLsbD b = true := by
    constructor
    · rintro rfl b - hbit
      simp at hbit
    · intro hnone
      ext b hb
      rw [← BitVec.getLsbD_eq_getElem, BitVec.getElem_zero]
      exact Bool.eq_false_iff.mpr (hnone b hb)
  simp only [Demand.granted_iff _ E]
  cases hsmep : E.smep pfec with
  | false =>
    refine (hzero rc).trans ⟨fun hnone => ⟨?_, fun hno => (Bool.false_ne_true hno).elim⟩, fun hall b hb hbit => ?_⟩
    · intro d hd b hb hmiss
      exact hnone b hb ((h b hb).mpr ⟨d, hd, (hsame d b hb fun _ => hsmep).mpr hmiss⟩)
    · rcases (h b hb).mp hbit with ⟨d, hd, hmiss⟩
      exact hall.1 d hd b hb ((hsame d b hb fun _ => hsmep).mp hmiss)
  | true =>
    have huser : D.user = false := smep_not_user hsmep
    have hbit2 : ∀ d, (E.missing (E.walkFlags pfec) (E.entry mem va topMfn d)).getLsbD 2 = true ↔
        (E.entry mem va topMfn d).getLsbD 2 = false := by
      intro d
      rw [hflags, Demand.missing_iff _ E _ (by decide), hsmep]
      simp
    have hxor : ∀ b < 32, (rc ^^^ pageUser).getLsbD b = (rc.getLsbD b ^^ decide (b = 2)) := by
      intro b hb
      rw [BitVec.getLsbD_xor]
      congr 1
      revert b
      decide
    rw [if_pos rfl]
    refine (hzero _).trans ⟨fun hnone => ⟨?_, fun _ => ?_⟩, fun hall b hb hbit => ?_⟩
    · intro d hd b hb hmiss
      by_cases h2 : b = 2
      · rw [h2] at hmiss
        have := (Demand.missing_iff D E _ (by decide)).mp hmiss
        simp [huser] at this
      · refine hnone b hb ?_
        rw [hxor b hb, (h b hb).mpr ⟨d, hd, (hsame d b hb fun heq => (h2 heq).elim).mpr hmiss⟩, decide_eq_false h2]
        rfl
    · have hset : rc.getLsbD 2 = true := by
        have hno := hnone 2 (by decide)
        rw [hxor 2 (by decide)] at hno
        simpa using hno
      rcases (h 2 (by decide)).mp hset with ⟨d, hd, hmiss⟩
      exact ⟨d, hd, (hbit2 d).mp hmiss⟩
    · rw [hxor b hb] at hbit
      by_cases h2 : b = 2
      · rcases hall.2 rfl with ⟨d, hd, he⟩
        rw [h2, (h 2 (by decide)).mpr ⟨d, hd, (hbit2 d).mpr he⟩] at hbit
        cases hbit
      · rw [decide_eq_false h2, Bool.xor_false] at hbit
        rcases (h b hb).mp hbit with ⟨d, hd, hmiss⟩
        exact hall.1 d hd b hb ((hsame d b hb fun heq => (h2 heq).elim).mp hmiss)

theorem Collects.present_iff {mflags rc : BitVec 32} {n : Nat} (h : Collects E mem va topMfn mflags n rc)
    (hmflags : mflags.getLsbD 0 = true) :
    rc &&& pagePresent ≠ 0 ↔ ∃ d < n, (E.entry mem va topMfn d).getLsbD 0 = false := by
  have hmiss : ∀ e : Pte, (E.missing mflags e).getLsbD 0 = true ↔ e.getLsbD 0 = false := by
    intro e
    rw [getLsbD_missing, hmflags, Bool.true_and, if_neg (by decide), getLsbD_getPteFlags]
    simp
  refine (and_bit_ne_zero rc (b := 0) (by decide)).trans ?_
  rw [h 0 (by decide)]
  simp only [hmiss]

theorem walkFlags_present (E : Env) (pfec : BitVec 32) : (E.walkFlags pfec).getLsbD 0 = true := by
  rw [walkFlags_eq, Demand.getLsbD_flags _ (by decide)]
  exact .inl rfl

/-! ## Accessed and dirty bits -/

/-- The entries at `locs` have been accessed. -/
def Touched (mem mem' : Memory) (locs : List Loc) : Prop :=
  ∀ loc, mem' loc = if loc ∈ locs then mem loc ||| 0x20#64 else mem loc

theorem setAdBits_fst (mem : Memory) (loc : Loc) (old : Pte) (dirty : Bool) :
    (setAdBits mem loc old dirty).1 =
      if mem loc = old then Function.update mem loc (old ||| 0x20#64 ||| if dirty then 0x40#64 else 0) else mem := by
  unfold setAdBits
  generalize hnew : (old ||| pageAccessed.setWidth 64 ||| if dirty then pageDirty.setWidth 64 else 0) = new
  rw [show (old ||| 0x20#64 ||| if dirty then 0x40#64 else 0) = new from hnew]
  dsimp only
  split
  · rfl
  · next hsame =>
      rw [← not_ne_iff.mp hsame]
      split
      · next heq => rw [← heq, Function.update_eq_self]
      · rfl

theorem setAdBits_snd (mem : Memory) (loc : Loc) (old : Pte) (dirty : Bool) :
    (setAdBits mem loc old dirty).2 = old ||| 0x20#64 ||| if dirty then 0x40#64 else 0 := by
  unfold setAdBits
  generalize hnew : (old ||| pageAccessed.setWidth 64 ||| if dirty then pageDirty.setWidth 64 else 0) = new
  rw [show (old ||| 0x20#64 ||| if dirty then 0x40#64 else 0) = new from hnew]
  dsimp only
  split
  · rfl
  · next hsame => exact not_ne_iff.mp hsame

/-- An entry that is used once more keeps its accessed bit: the swap fails, or
writes what is there. -/
theorem Touched.next {mem' : Memory} {locs : List Loc} (h : Touched mem mem' locs) (loc : Loc) :
    Touched mem (setAdBits mem' loc (mem loc) false).1 (locs ++ [loc]) := by
  intro loc'
  rw [setAdBits_fst]
  by_cases heq : loc' = loc
  · rw [heq, if_pos (List.mem_append_right _ List.mem_cons_self)]
    split
    · rw [Function.update_self]
      exact BitVec.or_zero
    · next hne =>
        rw [h loc] at hne ⊢
        split at hne
        · next hmem => rw [if_pos hmem]
        · exact (hne rfl).elim
  · have hmem : loc' ∈ locs ++ [loc] ↔ loc' ∈ locs := by simp [heq]
    simp only [hmem]
    rw [← h loc']
    split
    · exact Function.update_of_ne heq _ _
    · rfl

theorem Touched.last {mem' : Memory} {locs : List Loc} (h : Touched mem mem' locs) (leaf : Loc) (write : Bool) :
    Marked mem (setAdBits mem' leaf (mem leaf) write).1 locs leaf write := by
  have hne : ∀ loc, loc ≠ leaf → (setAdBits mem' leaf (mem leaf) write).1 loc = mem' loc := by
    intro loc hloc
    rw [setAdBits_fst]
    split
    · exact Function.update_of_ne hloc _ _
    · rfl
  refine ⟨fun loc hmem hloc => ?_, fun loc hmem hloc => ?_, fun hmem => ?_, fun hmem => ?_⟩
  · rw [hne loc hloc, h loc, if_neg hmem]
  · rw [hne loc hloc, h loc, if_pos hmem]
  · have hold : mem' leaf = mem leaf := by rw [h leaf, if_neg hmem]
    rw [setAdBits_fst, if_pos hold, Function.update_self]
  · rw [setAdBits_fst]
    split
    · rw [Function.update_self]
      cases write with
      | true => exact .inr ⟨rfl, rfl⟩
      | false => exact .inl BitVec.or_zero
    · exact .inl (by rw [h leaf, if_pos hmem])

/-! ## The walk -/

theorem mapDomainGfn_ordinary {gfn : BitVec 64} (h : (E.gfnToMfn gfn).type ∈ [P2m.P2mType.ramRw, .ramLogdirty, .ramRo])
    (rc : BitVec 32) : E.mapDomainGfn gfn rc = ((E.gfnToMfn gfn).mfn, true, rc) := by
  unfold Env.mapDomainGfn
  dsimp only
  have hcases : (E.gfnToMfn gfn).type = .ramRw ∨ (E.gfnToMfn gfn).type = .ramLogdirty ∨ (E.gfnToMfn gfn).type = .ramRo := by
    simpa using h
  rcases hcases with h | h | h <;> rw [h] <;> rfl

/-- The walk has read the entry at depth `d` in frame `mfn`. -/
def Read (E : Env) (mem : Memory) (va : BitVec 64) (topMfn d : Nat) (mfn : Nat) (e : Pte) : Prop :=
  (mfn, tableOffset (3 - d) va) = E.loc mem va topMfn d ∧ e = E.entry mem va topMfn d

/-- The next entry is read from the frame that the last one refers to. -/
theorem Read.next {d mfn : Nat} {e : Pte} (h : Read E mem va topMfn d mfn e) :
    Read E mem va topMfn (d + 1) (E.gfnToMfn (getGfn e)).mfn
      (mem ((E.gfnToMfn (getGfn e)).mfn, tableOffset (2 - d) va)) := by
  have hloc : ((E.gfnToMfn (getGfn e)).mfn, tableOffset (2 - d) va) = E.loc mem va topMfn (d + 1) := by
    rw [h.2]
    rfl
  refine ⟨?_, congrArg mem hloc⟩
  rw [← hloc, Nat.succ_sub_succ]

/-- A walk stops at an entry that is not present, or it reads all entries of the path
and finishes. -/
def Outcome (E : Env) (mem : Memory) (va : BitVec 64) (pfec : BitVec 32) (topMfn : Nat) (R : Result) : Prop :=
  (R.rc ≠ 0 ∧ R.mem = mem ∧ ∃ d < E.reads mem va topMfn, (E.entry mem va topMfn d).getLsbD 0 = false) ∨
    ∃ gw rc, R = E.finish mem pfec gw (E.large mem va topMfn) rc ∧
      Collects E mem va topMfn (E.walkFlags pfec) (E.reads mem va topMfn) rc ∧ gw.va = va ∧
      Read E mem va topMfn 0 gw.l4mfn gw.l4e ∧ Read E mem va topMfn 1 gw.l3mfn gw.l3e ∧
      Read E mem va topMfn 2 gw.l2mfn gw.l2e ∧
      if E.large mem va topMfn then
        E.reads mem va topMfn = 3 ∧ gw.l1e = (superpageL1e (E.entry mem va topMfn 2) va).1
      else E.reads mem va topMfn = 4 ∧ Read E mem va topMfn 3 gw.l1mfn gw.l1e

section Levels

variable {gw : Walk} {rc : BitVec 32}

theorem Collects.stops_iff {n : Nat} (h : Collects E mem va topMfn (E.walkFlags pfec) (n + 1) rc)
    (hbefore : ∀ d < n, (E.entry mem va topMfn d).getLsbD 0 = true) :
    rc &&& pagePresent ≠ 0 ↔ (E.entry mem va topMfn n).getLsbD 0 = false := by
  rw [h.present_iff (walkFlags_present E pfec)]
  constructor
  · rintro ⟨d, hd, he⟩
    rcases Nat.lt_succ_iff_lt_or_eq.mp hd with hlt | rfl
    · exact (Bool.false_ne_true (he.symm.trans (hbefore d hlt))).elim
    · exact he
  · intro he
    exact ⟨n, Nat.lt_succ_self n, he⟩

theorem Outcome.stopped (hrc : rc &&& pagePresent ≠ 0) {d : Nat} (hd : d < E.reads mem va topMfn)
    (he : (E.entry mem va topMfn d).getLsbD 0 = false) (gw : Walk) :
    Outcome E mem va pfec topMfn ⟨rc, gw, mem⟩ := by
  refine .inl ⟨?_, rfl, d, hd, he⟩
  rintro (rfl : rc = 0)
  exact hrc BitVec.zero_and

theorem Outcome.finished {n : Nat} (hc : Collects E mem va topMfn (E.walkFlags pfec) n rc)
    (hn : E.reads mem va topMfn = n) (hva : gw.va = va) (h4 : Read E mem va topMfn 0 gw.l4mfn gw.l4e)
    (h3 : Read E mem va topMfn 1 gw.l3mfn gw.l3e) (h2 : Read E mem va topMfn 2 gw.l2mfn gw.l2e)
    (hlast : if E.large mem va topMfn then n = 3 ∧ gw.l1e = (superpageL1e (E.entry mem va topMfn 2) va).1
      else n = 4 ∧ Read E mem va topMfn 3 gw.l1mfn gw.l1e) :
    Outcome E mem va pfec topMfn (E.finish mem pfec gw (E.large mem va topMfn) rc) := by
  rw [← hn] at hc hlast
  exact .inr ⟨gw, rc, rfl, hc, hva, h4, h3, h2, hlast⟩

theorem walkL1_outcome (hram : E.TablesOrdinary mem va topMfn) (hn : E.reads mem va topMfn = 4)
    (hlarge : E.large mem va topMfn = false) (hva : gw.va = va) (h4 : Read E mem va topMfn 0 gw.l4mfn gw.l4e)
    (h3 : Read E mem va topMfn 1 gw.l3mfn gw.l3e) (h2 : Read E mem va topMfn 2 gw.l2mfn gw.l2e)
    (hrc : Collects E mem va topMfn (E.walkFlags pfec) 3 rc) :
    Outcome E mem va pfec topMfn (E.walkL1 mem pfec (E.walkFlags pfec) gw rc) := by
  have hord := hram 2 (by omega)
  rw [← h2.2] at hord
  have h1 := h2.next
  unfold Env.walkL1
  rw [mapDomainGfn_ordinary hord, hva]
  dsimp only
  rw [if_neg (by simp), ← hlarge]
  have hnext := hrc.next
  rw [← h1.2] at hnext
  refine Outcome.finished hnext hn rfl h4 h3 h2 ?_
  rw [hlarge]
  exact ⟨rfl, h1⟩

theorem walkL2_outcome (hram : E.TablesOrdinary mem va topMfn) (hhuge : E.huge mem va topMfn = false) (hva : gw.va = va)
    (h4 : Read E mem va topMfn 0 gw.l4mfn gw.l4e) (h3 : Read E mem va topMfn 1 gw.l3mfn gw.l3e)
    (hbefore : ∀ d < 2, (E.entry mem va topMfn d).getLsbD 0 = true)
    (hrc : Collects E mem va topMfn (E.walkFlags pfec) 2 rc) :
    Outcome E mem va pfec topMfn (E.walkL2 mem pfec (E.walkFlags pfec) gw rc) := by
  have hn : E.reads mem va topMfn = if (E.entry mem va topMfn 2).getLsbD 0 = false ∨ E.large mem va topMfn = true then 3 else 4 := by
    unfold Env.reads
    rw [hbefore 0 (by decide), hbefore 1 (by decide), hhuge]
    rfl
  have hlt : 2 < E.reads mem va topMfn := by
    rw [hn]
    split <;> decide
  have hord := hram 1 (by omega)
  rw [← h3.2] at hord
  have h2 := h3.next
  have hnext := hrc.next
  rw [← h2.2] at hnext
  unfold Env.walkL2
  rw [mapDomainGfn_ordinary hord, hva]
  dsimp only
  rw [if_neg (by simp)]
  by_cases he : (E.entry mem va topMfn 2).getLsbD 0 = false
  · have hstop := (hnext.stops_iff hbefore).mpr he
    rw [if_pos hstop]
    exact .stopped hstop hlt he _
  · rw [if_neg ((hnext.stops_iff hbefore).not.mpr he)]
    have hpse : (E.supportsSuperpages = true ∧ getPteFlags (mem ((E.gfnToMfn (getGfn gw.l3e)).mfn, tableOffset 1 va)) &&& pagePse ≠ 0) ↔
        E.large mem va topMfn = true := by
      rw [h2.2, Env.large, hhuge, Bool.not_false, Bool.true_and, Bool.and_eq_true]
      refine and_congr_right fun _ => (and_bit_ne_zero _ (b := 7) (by decide)).trans ?_
      rw [getLsbD_getPteFlags]
      simp
    by_cases hlarge : E.large mem va topMfn = true
    · rw [if_pos (Or.inr hlarge)] at hn
      rw [if_pos (hpse.mpr hlarge), pageInvalidBits_eq_zero, BitVec.or_zero, ite_self, ← hlarge]
      refine Outcome.finished hnext hn rfl h4 h3 h2 ?_
      rw [if_pos hlarge, ← h2.2]
      exact ⟨rfl, rfl⟩
    · rw [if_neg (not_or.mpr ⟨he, hlarge⟩)] at hn
      rw [if_neg (hpse.not.mpr hlarge)]
      exact walkL1_outcome hram hn (Bool.eq_false_iff.mpr hlarge) rfl h4 h3 h2 hnext

theorem walkL3_outcome (hram : E.TablesOrdinary mem va topMfn) (hhuge : E.huge mem va topMfn = false) (hva : gw.va = va)
    (h4 : Read E mem va topMfn 0 gw.l4mfn gw.l4e) (h0 : (E.entry mem va topMfn 0).getLsbD 0 = true)
    (hrc : Collects E mem va topMfn (E.walkFlags pfec) 1 rc) :
    Outcome E mem va pfec topMfn (E.walkL3 mem pfec (E.walkFlags pfec) gw rc) := by
  have hlt : 1 < E.reads mem va topMfn := by
    unfold Env.reads
    rw [h0, if_neg Bool.true_eq_false_eq_False]
    split
    · decide
    · split <;> decide
  have hbefore : ∀ d < 1, (E.entry mem va topMfn d).getLsbD 0 = true := by
    intro d hd
    rw [Nat.lt_one_iff.mp hd]
    exact h0
  have hord := hram 0 (by omega)
  rw [← h4.2] at hord
  have h3 := h4.next
  have hnext := hrc.next
  rw [← h3.2] at hnext
  unfold Env.walkL3
  rw [mapDomainGfn_ordinary hord, hva]
  dsimp only
  rw [if_neg (by simp)]
  by_cases he : (E.entry mem va topMfn 1).getLsbD 0 = false
  · have hstop := (hnext.stops_iff hbefore).mpr he
    rw [if_pos hstop]
    exact .stopped hstop hlt he _
  · rw [if_neg ((hnext.stops_iff hbefore).not.mpr he)]
    refine walkL2_outcome hram hhuge rfl h4 h3 ?_ hnext
    intro d hd
    rcases Nat.lt_succ_iff_lt_or_eq.mp hd with hlt' | rfl
    · exact hbefore d hlt'
    · exact Bool.not_eq_false _ ▸ he

theorem guestWalkTables_outcome (hram : E.TablesOrdinary mem va topMfn) (hhuge : E.huge mem va topMfn = false)
    (pfec : BitVec 32) :
    Outcome E mem va pfec topMfn (E.guestWalkTables mem va pfec topMfn) := by
  have hc : Collects E mem va topMfn (E.walkFlags pfec) 1 _ := collects_one _
  have hstops := hc.stops_iff (n := 0) (fun d hd => (Nat.not_lt_zero d hd).elim)
  by_cases he : (E.entry mem va topMfn 0).getLsbD 0 = false
  · have hstop := hstops.mpr he
    have hn : E.reads mem va topMfn = 1 := if_pos he
    have hR : E.guestWalkTables mem va pfec topMfn = _ := if_pos hstop
    rw [hR]
    exact .stopped hstop (hn ▸ Nat.one_pos) he _
  · have hR : E.guestWalkTables mem va pfec topMfn = _ := if_neg (hstops.not.mpr he)
    rw [hR]
    exact walkL3_outcome hram hhuge rfl ⟨rfl, rfl⟩ (Bool.not_eq_false _ ▸ he) hc

end Levels

end Mm.GuestWalk
