import Mathlib

/-!
# The physmap of a translated domain

The p2m of a domain as the map that lookups see (`p2m_gfn_to_mfn` with `p2m_query`), the
M2P, and `set_p2m_entry` (`xen/arch/x86/mm/p2m.c`), which cuts a range into the chunks that
`p2m->set_entry` takes. Any of the chunks can fail, and then its frames stay as they are.
-/

namespace P2m

/-- `p2m_type_t`. -/
inductive P2mType where
  | invalid | ramRw | ramLogdirty | ramRo | mmioDm | mmioDirect | populateOnDemand
  | grantMapRw | grantMapRo | ramPagingOut | ramPaged | ramPagingIn | ramPagingInStart
  | ramShared | ramBroken
  deriving DecidableEq

namespace P2mType

/-- `p2m_is_ram`. -/
def isRam : P2mType → Bool
  | .ramRw | .ramLogdirty | .ramRo | .ramPagingOut | .ramPaged | .ramPagingInStart
  | .ramPagingIn | .ramShared => true
  | _ => false

/-- `p2m_is_grant`. -/
def isGrant : P2mType → Bool
  | .grantMapRw | .grantMapRo => true
  | _ => false

/-- `p2m_type_to_flags` has `_PAGE_PRESENT`. -/
def present : P2mType → Bool
  | .ramRw | .ramLogdirty | .ramRo | .ramShared | .grantMapRw | .grantMapRo | .mmioDirect => true
  | _ => false

end P2mType

/-- `INVALID_MFN`, `INVALID_M2P_ENTRY`, `SHARED_M2P_ENTRY`, and what an M2P entry is before
it is set. -/
def invalidMfn : Nat := 2 ^ 64 - 1
def invalidM2pEntry : Nat := 2 ^ 64 - 1
def sharedM2pEntry : Nat := 2 ^ 64 - 2
def unsetM2pEntry : Nat := 0x5555555555555555

/-- What a lookup returns. -/
structure Entry where
  mfn : Nat
  type : P2mType
  deriving DecidableEq

/-- Nothing is mapped: the lookup says that it is emulated. -/
def Entry.unmapped : Entry := ⟨invalidMfn, .mmioDm⟩

/-- What is found where `mfn` was set with the type `t`. -/
def Entry.of (mfn : Nat) (t : P2mType) : Entry :=
  if t.present then ⟨mfn, t⟩
  else if t = .populateOnDemand then ⟨invalidMfn, .populateOnDemand⟩
  else .unmapped

/-- Whose a frame is. -/
inductive Owner where
  | self | domCow | other
  deriving DecidableEq

structure State where
  /-- `hap_enabled`, and whether superpages of 1GB and of 2MB are used. -/
  hapEnabled : Bool
  hap1gb : Bool
  hap2mb : Bool
  /-- `mfn_valid`, and the owner of a frame. -/
  mfnValid : Nat → Bool
  owner : Nat → Owner
  p2m : Nat → Entry
  m2p : Nat → Nat
  /-- `pod.entry_count`. -/
  entryCount : Int
  /-- `domain_crash`, and a `BUG_ON`. -/
  crashed : Bool
  bug : Bool

/-- The frames that the p2m has entries for: four levels of 512. -/
def maxGfn : Nat := 2 ^ 36

namespace State

/-- `set_gpfn_from_mfn`. -/
def setGpfn (s : State) (mfn pfn : Nat) : State :=
  { s with m2p := Function.update s.m2p mfn (if s.owner mfn = .domCow then sharedM2pEntry else pfn) }

/-- `p2m_set_entry` writes an entry, and does not empty it. -/
def stores (s : State) (mfn order : Nat) (t : P2mType) : Bool :=
  s.mfnValid mfn || (order = 0 && t = .mmioDirect) || (order = 9 && t = .populateOnDemand)

/-- `p2m->set_entry` at an aligned `gfn`, and whether it succeeds; `ok` is whether the tables
could be allocated. -/
def setEntry (s : State) (gfn mfn order : Nat) (t : P2mType) (ok : Bool) : State × Bool :=
  if ok && gfn < maxGfn then
    ({ s with
      p2m := fun g =>
        if gfn ≤ g ∧ g < gfn + 2 ^ order then
          if s.stores mfn order t then .of (mfn + (g - gfn)) t else .unmapped
        else s.p2m g },
     true)
  else (s, false)

/-- The order of the next chunk. -/
def chunkOrder (s : State) (gfn mfn todo : Nat) : Nat :=
  if s.hapEnabled then
    if (gfn ||| mfn ||| todo) % 2 ^ 18 = 0 && s.hap1gb then 18
    else if (gfn ||| mfn ||| todo) % 2 ^ 9 = 0 && s.hap2mb then 9
    else 0
  else 0

/-- The loop of `set_p2m_entry` with `todo` frames left; `ok` says at which `gfn` the entry
can be set. -/
def setLoop (ok : Nat → Bool) (t : P2mType) :
    (fuel : Nat) → State → (gfn mfn todo : Nat) → (rc : Bool) → State × Bool
  | 0, s, _, _, _, rc => (s, rc)
  | fuel + 1, s, gfn, mfn, todo, rc =>
      if todo = 0 then (s, rc)
      else
        let order := s.chunkOrder gfn mfn todo
        let r := s.setEntry gfn mfn order t (ok gfn)
        setLoop ok t fuel r.1 (gfn + 2 ^ order)
          (if mfn ≠ invalidMfn then mfn + 2 ^ order else mfn) (todo - 2 ^ order) (rc && r.2)

/-- `set_p2m_entry`. -/
def setP2mEntry (s : State) (gfn mfn order : Nat) (t : P2mType) (ok : Nat → Bool) : State × Bool :=
  setLoop ok t (2 ^ order) s gfn mfn (2 ^ order) true

end State

/-! ## The chunks -/

section Chunks

variable {s : State} {ok : Nat → Bool} {t : P2mType} {gfn mfn todo order : Nat}

theorem or_mod_eq_zero {a b k : Nat} (h : (a ||| b) % 2 ^ k = 0) : a % 2 ^ k = 0 ∧ b % 2 ^ k = 0 := by
  rw [Nat.or_mod_two_pow] at h
  exact Nat.or_eq_zero_iff.1 h

theorem chunk_le (htodo : 0 < todo) : 2 ^ s.chunkOrder gfn mfn todo ≤ todo := by
  have hle : ∀ k, (gfn ||| mfn ||| todo) % 2 ^ k = 0 → 2 ^ k ≤ todo := by
    intro k hk
    exact Nat.le_of_dvd htodo (Nat.dvd_of_mod_eq_zero (or_mod_eq_zero hk).2)
  unfold State.chunkOrder
  split
  · split
    · rename_i h
      rw [Bool.and_eq_true, decide_eq_true_iff] at h
      exact hle 18 h.1
    · split
      · rename_i h
        rw [Bool.and_eq_true, decide_eq_true_iff] at h
        exact hle 9 h.1
      · exact htodo
  · exact htodo

/-- What `set_p2m_entry` does when no chunk fails: the frames are in order, or nothing is
mapped. -/
theorem setLoop_spec (hok : ∀ g, ok g = true) {fuel : Nat} {rc : Bool} (hfuel : todo ≤ fuel)
    (hmax : gfn + todo ≤ maxGfn)
    (hframes : (∀ m, Entry.of m t = .unmapped) ∨
      ∀ i < todo, mfn + i ≠ invalidMfn ∧ s.mfnValid (mfn + i) = true) :
    State.setLoop ok t fuel s gfn mfn todo rc =
      ({ s with
        p2m := fun g => if gfn ≤ g ∧ g < gfn + todo then .of (mfn + (g - gfn)) t else s.p2m g }, rc) := by
  induction fuel generalizing s gfn mfn todo rc with
  | zero =>
    have hp : (fun g => if gfn ≤ g ∧ g < gfn + todo then Entry.of (mfn + (g - gfn)) t else s.p2m g) =
        s.p2m := by
      funext g
      rw [if_neg (by omega)]
    rw [hp]
    rfl
  | succ fuel ih =>
    unfold State.setLoop
    split
    · rename_i h0
      have hp : (fun g => if gfn ≤ g ∧ g < gfn + todo then Entry.of (mfn + (g - gfn)) t else s.p2m g) =
          s.p2m := by
        funext g
        rw [if_neg (by omega)]
      rw [hp]
    · rename_i h0
      have hpos : 0 < todo := Nat.pos_of_ne_zero h0
      have hle : 2 ^ s.chunkOrder gfn mfn todo ≤ todo := chunk_le hpos
      have hone := Nat.one_le_two_pow (n := s.chunkOrder gfn mfn todo)
      -- the chunk itself
      have hset : s.setEntry gfn mfn (s.chunkOrder gfn mfn todo) t (ok gfn) =
          ({ s with
            p2m := fun g => if gfn ≤ g ∧ g < gfn + 2 ^ s.chunkOrder gfn mfn todo then
              .of (mfn + (g - gfn)) t else s.p2m g }, true) := by
        unfold State.setEntry
        rw [hok gfn, if_pos (by simp; omega)]
        refine congrArg (fun p2m => (({ s with p2m := p2m } : State), true)) (funext fun g => ?_)
        split
        · split
          · rfl
          · rename_i hst
            rcases hframes with hun | hval
            · exact (hun _).symm
            · have hv : s.mfnValid mfn = true := (hval 0 hpos).2
              refine absurd ?_ hst
              unfold State.stores
              rw [hv]
              rfl
        · rfl
      dsimp only
      rw [hset]
      dsimp only
      rw [Bool.and_true]
      generalize hk : 2 ^ s.chunkOrder gfn mfn todo = k at hle hone
      rcases hframes with hun | hval
      · -- nothing is mapped, whatever the frame
        rw [ih (by omega) (by omega) (.inl hun)]
        refine congrArg (fun p2m => (({ s with p2m := p2m } : State), rc)) (funext fun g => ?_)
        dsimp only
        simp only [hun]
        by_cases h1 : gfn + k ≤ g ∧ g < gfn + k + (todo - k)
        · rw [if_pos h1, if_pos (by omega)]
        · rw [if_neg h1]
          by_cases h2 : gfn ≤ g ∧ g < gfn + k
          · rw [if_pos h2, if_pos (by omega)]
          · rw [if_neg h2, if_neg (by omega)]
      · have hne : mfn ≠ invalidMfn := (hval 0 hpos).1
        rw [if_pos hne, ih (by omega) (by omega) (.inr fun i hi => ?_)]
        · refine congrArg (fun p2m => (({ s with p2m := p2m } : State), rc)) (funext fun g => ?_)
          dsimp only
          by_cases h1 : gfn + k ≤ g ∧ g < gfn + k + (todo - k)
          · rw [if_pos h1, if_pos (by omega)]
            exact congrArg (Entry.of · t) (by omega)
          · rw [if_neg h1]
            by_cases h2 : gfn ≤ g ∧ g < gfn + k
            · rw [if_pos h2, if_pos (by omega)]
            · rw [if_neg h2, if_neg (by omega)]
        · rw [Nat.add_assoc]
          exact hval (k + i) (by omega)

theorem setP2mEntry_spec (hok : ∀ g, ok g = true) (hmax : gfn + 2 ^ order ≤ maxGfn)
    (hframes : (∀ m, Entry.of m t = .unmapped) ∨
      ∀ i < 2 ^ order, mfn + i ≠ invalidMfn ∧ s.mfnValid (mfn + i) = true) :
    s.setP2mEntry gfn mfn order t ok =
      ({ s with
        p2m := fun g =>
          if gfn ≤ g ∧ g < gfn + 2 ^ order then .of (mfn + (g - gfn)) t else s.p2m g }, true) :=
  setLoop_spec hok (Nat.le_refl _) hmax hframes

end Chunks

end P2m
