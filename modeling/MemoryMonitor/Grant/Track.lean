import MemoryMonitor.Grant.Map
import MemoryMonitor.Lib.FreeList
import MemoryMonitor.Lib.Totals

/-!
# Pins and mappings, as a ledger

`Track` is what the map and unmap operations are for, with everything else left
out: the pin words, the maptrack entries and their free lists. Its operations
take a handle and record a mapping under it, take down one half of a mapping,
and give a handle back.

`Track.Inv` is the bookkeeping they keep: each counter of each pin word is the
number of live maptrack entries it stands for, and the free list of each domain
holds the handles that are neither in use nor *withheld*. A handle is withheld
between the two halves of its unmap, and from the release of its domain on.
-/

namespace Grant

open Finset

/-! ## Flags of a mapping -/

section Flags

variable {n : Nat}

/-- The half of a mapping a pin stands for. -/
def hasHalf (device : Bool) (flags : BitVec n) : Bool :=
  if device then isDevice flags else isHost flags

/-- The mapping has this half with this access. -/
def holds (device readonly : Bool) (flags : BitVec n) : Bool :=
  hasHalf device flags && (isReadonly flags == readonly)

/-- Some half is there. -/
def Live (flags : BitVec n) : Prop := isDevice flags = true ∨ isHost flags = true

instance (flags : BitVec n) : Decidable (Live flags) :=
  inferInstanceAs (Decidable (_ ∨ _))

/-- `flags` without one half. -/
def clearHalf (device : Bool) (flags : BitVec 16) : BitVec 16 :=
  if device then clearDevice flags else clearHost flags

theorem hasHalf_clearHalf (device device' : Bool) (flags : BitVec 16) :
    hasHalf device' (clearHalf device flags) = (hasHalf device' flags && device' != device) := by
  cases device <;> cases device' <;>
    simp [hasHalf, clearHalf, clearDevice, clearHost, isDevice, isHost]

theorem isReadonly_clearHalf (device : Bool) (flags : BitVec 16) :
    isReadonly (clearHalf device flags) = isReadonly flags := by
  cases device <;> simp [clearHalf, clearDevice, clearHost, isReadonly]

theorem live_iff (flags : BitVec n) : Live flags ↔ ∃ device, hasHalf device flags = true := by
  constructor
  · rintro (h | h)
    · exact ⟨true, h⟩
    · exact ⟨false, h⟩
  · rintro ⟨_ | _, h⟩
    · exact Or.inr h
    · exact Or.inl h

theorem not_live_iff (flags : BitVec n) :
    ¬ Live flags ↔ isDevice flags = false ∧ isHost flags = false := by
  simp [Live, not_or]

theorem not_live_zero : ¬ Live (0#16) := by decide

theorem holds_of_not_live {flags : BitVec n} (h : ¬ Live flags) (device readonly : Bool) :
    holds device readonly flags = false := by
  rw [not_live_iff] at h
  cases device <;> simp [holds, hasHalf, h]

theorem pinLane_injective {device device' readonly readonly' : Bool}
    (h : pinLane device readonly = pinLane device' readonly') :
    device = device' ∧ readonly = readonly' := by
  revert device device' readonly readonly'
  decide

/-- Pinning moves the counters of the halves that are there. -/
theorem lane_addPin {flags : BitVec n} {pin : BitVec 32} (hroom : ∀ i, Lanes.lane pin i < 254)
    (device readonly : Bool) :
    Lanes.lane (addPin flags pin) (pinLane device readonly) =
      Lanes.lane pin (pinLane device readonly) +
        if holds device readonly flags then 1 else 0 := by
  have hinc : ∀ (p : BitVec 32) (d : Bool), (∀ i, Lanes.lane p i < 255) →
      Lanes.lane (p + pinInc d (isReadonly flags)) (pinLane device readonly) =
        Lanes.lane p (pinLane device readonly) +
          if d = device ∧ isReadonly flags = readonly then 1 else 0 := by
    intro p d hp
    rw [pinInc, Lanes.lane_add (hp _)]
    by_cases heq : d = device ∧ isReadonly flags = readonly
    · rw [if_pos (by rw [heq.1, heq.2]), if_pos heq]
    · rw [if_neg, if_neg heq]
      intro hlane
      obtain ⟨h1, h2⟩ := pinLane_injective hlane
      exact heq ⟨h1.symm, h2.symm⟩
  have hroom' : ∀ i, Lanes.lane pin i < 255 := fun i => (hroom i).trans (by decide)
  have hmid : ∀ i, Lanes.lane (pin + pinInc true (isReadonly flags)) i < 255 := by
    intro i
    rw [pinInc, Lanes.lane_add (hroom' _)]
    have := hroom i
    split <;> omega
  have hholds : (if holds device readonly flags = true then 1 else 0) =
      (if isDevice flags = true ∧ true = device ∧ isReadonly flags = readonly then 1 else 0) +
        if isHost flags = true ∧ false = device ∧ isReadonly flags = readonly then 1 else 0 := by
    cases device <;> simp [holds, hasHalf]
  rw [hholds]
  unfold addPin
  cases hd : isDevice flags <;> cases hh : isHost flags
  · simp only [Bool.false_eq_true, if_false, false_and, Nat.add_zero]
  · simp only [Bool.false_eq_true, if_true, if_false, true_and, false_and, Nat.zero_add]
    rw [hinc _ _ hroom']
  · simp only [Bool.false_eq_true, if_true, if_false, true_and, false_and, Nat.add_zero]
    rw [hinc _ _ hroom']
  · simp only [if_true, true_and]
    rw [hinc _ _ hmid, hinc _ _ hroom']
    omega

end Flags

/-! ## The ledger -/

/-- Pins, mappings and free lists. -/
structure Track where
  pin : EntryKey → BitVec 32
  maptrack : Domid × Nat → GrantMapping
  head : Domid → Nat
  limit : Domid → Nat

/-- The ledger of a state of the grant code. -/
def World.track (w : World) : Track :=
  ⟨fun k => (w.active k).pin, w.maptrack, w.maptrackHead, w.maptrackLimit⟩

/-- The entry a mapping is of. -/
def GrantMapping.key (m : GrantMapping) : EntryKey := (m.domid, m.ref)

def GrantMapping.withFlags (m : GrantMapping) (flags : BitVec 16) : GrantMapping :=
  { m with flags }

def GrantMapping.withRef (m : GrantMapping) (ref : Nat) : GrantMapping :=
  { m with ref }

namespace Track

def setPin (t : Track) (k : EntryKey) (pin : BitVec 32) : Track :=
  { t with pin := Function.update t.pin k pin }

def setMapping (t : Track) (s : Domid × Nat) (m : GrantMapping) : Track :=
  { t with maptrack := Function.update t.maptrack s m }

@[simp] theorem pin_setPin_self (t : Track) (k : EntryKey) (pin : BitVec 32) :
    (t.setPin k pin).pin k = pin :=
  Function.update_self _ _ _

/-- Take the first free handle of `d`. -/
def pop (t : Track) (d : Domid) : Track :=
  { t with head := Function.update t.head d (t.maptrack (d, t.head d)).ref }

/-- Put a handle in front of the free list of `d`. -/
def put (t : Track) (d : Domid) (h : Nat) : Track :=
  { t.setMapping (d, h) ((t.maptrack (d, h)).withRef (t.head d)) with
    head := Function.update t.head d h }

/-- A further page of handles. -/
def grow (t : Track) (d : Domid) : Track :=
  { t with
    maptrack := fun s =>
      if s.1 = d ∧ t.limit d ≤ s.2 ∧ s.2 < t.limit d + maptrackPerPage then ⟨s.2 + 1, 0, 0⟩
      else t.maptrack s
    limit := Function.update t.limit d (t.limit d + maptrackPerPage) }

/-- Record a mapping under the first free handle and pin its entry. -/
def record (t : Track) (d : Domid) (m : GrantMapping) : Track :=
  ((t.pop d).setPin m.key (addPin m.flags (t.pin m.key))).setMapping (d, t.head d) m

/-- Take down one half of the mapping of a handle. -/
def drop (t : Track) (device : Bool) (d : Domid) (h : Nat) : Track :=
  let m := t.maptrack (d, h)
  (t.setMapping (d, h) (m.withFlags (clearHalf device m.flags))).setPin m.key
    (t.pin m.key - pinInc device (isReadonly m.flags))

/-- Forget what is left of the mapping of a handle. -/
def blank (t : Track) (d : Domid) (h : Nat) : Track :=
  t.setMapping (d, h) ((t.maptrack (d, h)).withFlags 0)

/-- Taking a handle and putting it back leaves no trace. -/
theorem put_pop (t : Track) (d : Domid) : (t.pop d).put d (t.head d) = t := by
  simp only [put, pop, setMapping, GrantMapping.withRef, Function.update_self,
    Function.update_idem, Function.update_eq_self]

/-! ## Counting -/

/-- The handles of all domains. -/
def slots (P : Platform) (t : Track) : Finset (Domid × Nat) :=
  P.domains.biUnion fun d => (range (t.limit d)).image (Prod.mk d)

theorem mem_slots {P : Platform} {t : Track} {d : Domid} {h : Nat} :
    (d, h) ∈ t.slots P ↔ d ∈ P.domains ∧ h < t.limit d := by
  unfold slots
  rw [mem_biUnion]
  constructor
  · rintro ⟨d', hd', himg⟩
    rw [mem_image] at himg
    obtain ⟨h', hh', heq⟩ := himg
    obtain ⟨rfl, rfl⟩ := Prod.mk.inj heq
    exact ⟨hd', mem_range.mp hh'⟩
  · rintro ⟨hd, hh⟩
    exact ⟨d, hd, mem_image.mpr ⟨h, mem_range.mpr hh, rfl⟩⟩

/-- Live maptrack entries that name `k` with this half and access. -/
def liveCount (P : Platform) (t : Track) (device readonly : Bool) (k : EntryKey) : Nat :=
  ((t.slots P).filter fun s =>
    holds device readonly (t.maptrack s).flags = true ∧ (t.maptrack s).key = k).card

/-- What one maptrack entry counts for. -/
def weight (device readonly : Bool) (k : EntryKey) (m : GrantMapping) : Nat :=
  if holds device readonly m.flags = true ∧ m.key = k then 1 else 0

theorem liveCount_eq_sum (P : Platform) (t : Track) (device readonly : Bool) (k : EntryKey) :
    t.liveCount P device readonly k = ∑ s ∈ t.slots P, weight device readonly k (t.maptrack s) := by
  unfold liveCount weight
  rw [card_filter]

theorem weight_of_not_live {m : GrantMapping} (h : ¬ Live m.flags) (device readonly : Bool)
    (k : EntryKey) : weight device readonly k m = 0 := by
  rw [weight, holds_of_not_live h]
  simp

theorem liveCount_setMapping {P : Platform} {t : Track} {s : Domid × Nat} (hs : s ∈ t.slots P)
    (m : GrantMapping) (device readonly : Bool) (k : EntryKey) :
    (t.setMapping s m).liveCount P device readonly k +
        weight device readonly k (t.maptrack s) =
      t.liveCount P device readonly k + weight device readonly k m := by
  rw [liveCount_eq_sum, liveCount_eq_sum]
  exact Totals.sum_update hs t.maptrack m fun _ => weight device readonly k

/-! ## The invariant -/

/-- The link of a maptrack entry in the free list of its domain. -/
def link (t : Track) (d : Domid) (h : Nat) : Nat := (t.maptrack (d, h)).ref

/-- The bookkeeping, with the handles in `held` withheld from their free lists. -/
structure Inv (P : Platform) (held : Domid → Nat → Prop) (t : Track) : Prop where
  pins : ∀ k, k.1 ∈ P.domains → ∀ device readonly,
    Lanes.lane (t.pin k) (pinLane device readonly) = t.liveCount P device readonly k
  free : ∀ d ∈ P.domains, ∃ l, FreeList (t.link d) (t.head d) (t.limit d - 1) l ∧
    ∀ h, h ∈ l ↔ h < t.limit d ∧ (t.maptrack (d, h)).flags = 0 ∧ ¬ held d h
  last : ∀ d ∈ P.domains, 0 < t.limit d ∧ t.link d (t.limit d - 1) = t.limit d
  used : ∀ d ∈ P.domains, ∀ h < t.limit d, (t.maptrack (d, h)).flags ≠ 0 →
    Live (t.maptrack (d, h)).flags ∨ held d h
  named : ∀ d ∈ P.domains, ∀ h < t.limit d, Live (t.maptrack (d, h)).flags →
    (t.maptrack (d, h)).domid ∈ P.domains ∧ P.gtVersion (t.maptrack (d, h)).domid ≠ .unset
  withheld : ∀ d h, held d h → h < t.limit d ∧ ¬ Live (t.maptrack (d, h)).flags

variable {P : Platform} {held : Domid → Nat → Prop} {t : Track}

theorem Inv.congr {held' : Domid → Nat → Prop} (inv : Inv P held t)
    (h : ∀ d h, held d h ↔ held' d h) : Inv P held' t := by
  have heq : held = held' := by
    funext d h'
    exact propext (h d h')
  subst heq
  exact inv

/-- The first free handle, when it can be handed out. -/
theorem Inv.head_free (inv : Inv P held t) {d : Domid} (hd : d ∈ P.domains) :
    t.head d < t.limit d ∧ (t.maptrack (d, t.head d)).flags = 0 ∧ ¬ held d (t.head d) := by
  obtain ⟨l, hl, hmem⟩ := inv.free d hd
  exact (hmem _).mp hl.head_mem

/-- A live entry counts for its own pin. -/
theorem Inv.lane_pos (inv : Inv P held t) {d : Domid} (hd : d ∈ P.domains) {h : Nat}
    (hh : h < t.limit d) {device : Bool}
    (hhalf : hasHalf device (t.maptrack (d, h)).flags = true) :
    0 < Lanes.lane (t.pin (t.maptrack (d, h)).key)
      (pinLane device (isReadonly (t.maptrack (d, h)).flags)) := by
  have hlive : Live (t.maptrack (d, h)).flags := (live_iff _).mpr ⟨device, hhalf⟩
  rw [inv.pins _ (inv.named d hd h hh hlive).1, liveCount, card_pos]
  refine ⟨(d, h), mem_filter.mpr ⟨mem_slots.mpr ⟨hd, hh⟩, ?_, rfl⟩⟩
  simp [holds, hhalf]

/-- A handle that is not free is not in the free list, so it does not end it. -/
theorem Inv.ne_last (inv : Inv P held t) {d : Domid} (hd : d ∈ P.domains) {h : Nat}
    (hh : (t.maptrack (d, h)).flags ≠ 0 ∨ held d h) : h ≠ t.limit d - 1 := by
  obtain ⟨l, hl, hmem⟩ := inv.free d hd
  rintro rfl
  obtain ⟨-, hflags, hheld⟩ := (hmem _).mp hl.last_mem
  rcases hh with hh | hh
  · exact hh hflags
  · exact hheld hh

/-- The other handles do not see an update of the entry `(d, h)`. -/
theorem maptrack_setMapping_of_ne (t : Track) {s s' : Domid × Nat} (m : GrantMapping)
    (hne : s' ≠ s) : (t.setMapping s m).maptrack s' = t.maptrack s' :=
  Function.update_of_ne hne _ _

@[simp] theorem maptrack_setMapping_self (t : Track) (s : Domid × Nat) (m : GrantMapping) :
    (t.setMapping s m).maptrack s = m :=
  Function.update_self _ _ _

theorem maptrack_put_blank_of_ne (t : Track) {d : Domid} {h : Nat} {s : Domid × Nat}
    (hne : s ≠ (d, h)) : ((t.blank d h).put d h).maptrack s = t.maptrack s :=
  (maptrack_setMapping_of_ne _ _ hne).trans (maptrack_setMapping_of_ne _ _ hne)

/-- The free list of a domain is kept by an update that frees nothing and takes
nothing out of it. -/
theorem Inv.free_of_setMapping (inv : Inv P held t) {d : Domid} {h : Nat} {m : GrantMapping}
    {held' : Domid → Nat → Prop} (hd : d ∈ P.domains)
    (hold : (t.maptrack (d, h)).flags ≠ 0 ∨ held d h) (hnew : m.flags ≠ 0 ∨ held' d h)
    (hheld : ∀ d' h', (d', h') ≠ (d, h) → (held' d' h' ↔ held d' h')) :
    ∀ d' ∈ P.domains, ∃ l,
      FreeList ((t.setMapping (d, h) m).link d') (t.head d') (t.limit d' - 1) l ∧
        ∀ h', h' ∈ l ↔ h' < t.limit d' ∧ ((t.setMapping (d, h) m).maptrack (d', h')).flags = 0 ∧
          ¬ held' d' h' := by
  intro d' hd'
  obtain ⟨l, hl, hmem⟩ := inv.free d' hd'
  refine ⟨l, ?_, ?_⟩
  · refine hl.congr fun h' hh' _ => ?_
    unfold link
    rw [maptrack_setMapping_of_ne]
    rintro heq
    obtain ⟨rfl, rfl⟩ := Prod.mk.inj heq
    obtain ⟨-, hflags, hnot⟩ := (hmem _).mp hh'
    rcases hold with hold | hold
    · exact hold hflags
    · exact hnot hold
  · intro h'
    by_cases heq : (d', h') = (d, h)
    · obtain ⟨rfl, rfl⟩ := Prod.mk.inj heq
      rw [maptrack_setMapping_self, hmem]
      constructor
      · rintro ⟨-, hflags, hnot⟩
        rcases hold with hold | hold
        · exact absurd hflags hold
        · exact absurd hold hnot
      · rintro ⟨-, hflags, hnot⟩
        rcases hnew with hnew | hnew
        · exact absurd hflags hnew
        · exact absurd hnew hnot
    · rw [maptrack_setMapping_of_ne _ _ heq, hmem, hheld d' h' heq]

theorem Inv.last_of_setMapping (inv : Inv P held t) {d : Domid} {h : Nat} {m : GrantMapping}
    (hd : d ∈ P.domains) (hold : (t.maptrack (d, h)).flags ≠ 0 ∨ held d h) :
    ∀ d' ∈ P.domains, 0 < t.limit d' ∧
      (t.setMapping (d, h) m).link d' (t.limit d' - 1) = t.limit d' := by
  intro d' hd'
  refine ⟨(inv.last d' hd').1, ?_⟩
  unfold link
  rw [maptrack_setMapping_of_ne]
  · exact (inv.last d' hd').2
  · intro heq
    obtain ⟨rfl, hlast⟩ := Prod.mk.inj heq
    exact inv.ne_last hd hold hlast.symm

/-! ## What the operations keep -/

/-- The handle becomes withheld once neither half is left. -/
def heldAfter (held : Domid → Nat → Prop) (t : Track) (d : Domid) (h : Nat) :
    Domid → Nat → Prop :=
  fun d' h' => held d' h' ∨ ((d', h') = (d, h) ∧ ¬ Live (t.maptrack (d, h)).flags)

/-- Taking down a half moves its counter and nothing else. -/
theorem Inv.pins_of_drop (inv : Inv P held t) {d : Domid} (hd : d ∈ P.domains) {h : Nat}
    (hh : h < t.limit d) {device : Bool}
    (hhalf : hasHalf device (t.maptrack (d, h)).flags = true) :
    ∀ k, k.1 ∈ P.domains → ∀ device' readonly,
      Lanes.lane ((t.drop device d h).pin k) (pinLane device' readonly) =
        (t.drop device d h).liveCount P device' readonly k := by
  intro k hk device' readonly
  have hslot : (d, h) ∈ t.slots P := mem_slots.mpr ⟨hd, hh⟩
  have hcount := liveCount_setMapping hslot
    ((t.maptrack (d, h)).withFlags (clearHalf device (t.maptrack (d, h)).flags)) device' readonly k
  have hpos := inv.lane_pos hd hh hhalf
  have hpins := inv.pins k hk device' readonly
  change Lanes.lane (Function.update t.pin _ _ k) _ = liveCount P (t.setMapping (d, h) _) _ _ _
  generalize t.maptrack (d, h) = m at *
  -- the weight changes for the half taken down, with its access, on its entry
  have hold : weight device' readonly k m =
      weight device' readonly k (m.withFlags (clearHalf device m.flags)) +
        if m.key = k ∧ device' = device ∧ isReadonly m.flags = readonly then 1 else 0 := by
    unfold weight
    have hkey : (m.withFlags (clearHalf device m.flags)).key = m.key := rfl
    have hflags : (m.withFlags (clearHalf device m.flags)).flags = clearHalf device m.flags := rfl
    rw [hkey, hflags]
    simp only [holds, hasHalf_clearHalf, isReadonly_clearHalf]
    by_cases hkk : m.key = k
    · by_cases hdev : device' = device
      · subst hdev
        simp [hkk, hhalf]
      · simp [hkk, hdev]
    · simp [hkk]
  by_cases hkk : m.key = k
  · subst hkk
    rw [Function.update_self, pinInc, Lanes.lane_sub hpos, hpins]
    by_cases hsame : device' = device ∧ isReadonly m.flags = readonly
    · have hlane : pinLane device' readonly = pinLane device (isReadonly m.flags) := by
        rw [hsame.1, hsame.2]
      rw [if_pos hlane]
      rw [if_pos ⟨rfl, hsame⟩] at hold
      omega
    · have hlane : pinLane device' readonly ≠ pinLane device (isReadonly m.flags) := by
        intro heq
        obtain ⟨h1, h2⟩ := pinLane_injective heq
        exact hsame ⟨h1, h2.symm⟩
      rw [if_neg hlane]
      rw [if_neg (fun hall => hsame hall.2)] at hold
      omega
  · rw [Function.update_of_ne (Ne.symm hkk), hpins]
    rw [if_neg (fun hall => hkk hall.1)] at hold
    omega

theorem Inv.drop (inv : Inv P held t) {d : Domid} (hd : d ∈ P.domains) {h : Nat}
    (hh : h < t.limit d) {device : Bool}
    (hhalf : hasHalf device (t.maptrack (d, h)).flags = true) :
    Inv P (heldAfter held (t.drop device d h) d h) (t.drop device d h) := by
  have hlive : Live (t.maptrack (d, h)).flags := (live_iff _).mpr ⟨device, hhalf⟩
  have hused : (t.maptrack (d, h)).flags ≠ 0 := by
    intro h0
    rw [h0] at hlive
    exact not_live_zero hlive
  have hself : (t.drop device d h).maptrack (d, h) =
      (t.maptrack (d, h)).withFlags (clearHalf device (t.maptrack (d, h)).flags) :=
    maptrack_setMapping_self _ _ _
  have hother : ∀ s, s ≠ (d, h) → (t.drop device d h).maptrack s = t.maptrack s :=
    fun s hs => maptrack_setMapping_of_ne _ _ hs
  have hnew : clearHalf device (t.maptrack (d, h)).flags ≠ 0 ∨
      heldAfter held (t.drop device d h) d h d h := by
    by_cases h0 : clearHalf device (t.maptrack (d, h)).flags = 0
    · refine Or.inr (Or.inr ⟨rfl, ?_⟩)
      rw [hself, h0]
      exact not_live_zero
    · exact Or.inl h0
  constructor
  · exact inv.pins_of_drop hd hh hhalf
  · refine inv.free_of_setMapping hd (Or.inl hused) hnew fun d' h' hne => ?_
    constructor
    · rintro (hheld | ⟨heq, -⟩)
      · exact hheld
      · exact absurd heq hne
    · exact Or.inl
  · exact inv.last_of_setMapping hd (Or.inl hused)
  · intro d' hd' h' hh' hflags
    by_cases heq : (d', h') = (d, h)
    · by_cases hl : Live ((t.drop device d h).maptrack (d', h')).flags
      · exact Or.inl hl
      · refine Or.inr (Or.inr ⟨heq, ?_⟩)
        rw [heq] at hl
        exact hl
    · rw [hother _ heq] at hflags ⊢
      rcases inv.used d' hd' h' hh' hflags with hl | hl
      · exact Or.inl hl
      · exact Or.inr (Or.inl hl)
  · intro d' hd' h' hh' hl
    by_cases heq : (d', h') = (d, h)
    · rw [heq, hself]
      exact inv.named d hd h hh hlive
    · rw [hother _ heq] at hl ⊢
      exact inv.named d' hd' h' hh' hl
  · rintro d' h' (hheld | ⟨heq, hnot⟩)
    · obtain ⟨hlt, hnot⟩ := inv.withheld d' h' hheld
      have hne : (d', h') ≠ (d, h) := by
        intro heq
        rw [heq] at hnot
        exact hnot hlive
      rw [hother _ hne]
      exact ⟨hlt, hnot⟩
    · obtain ⟨rfl, rfl⟩ := Prod.mk.inj heq
      exact ⟨hh, hnot⟩

/-- Clearing what is left of a withheld entry. -/
theorem Inv.blank (inv : Inv P held t) {d : Domid} (hd : d ∈ P.domains) {h : Nat}
    (hheld : held d h) : Inv P held (t.blank d h) := by
  obtain ⟨hh, hnot⟩ := inv.withheld d h hheld
  have hself : ((t.blank d h).maptrack (d, h)).flags = 0 := by
    unfold Track.blank
    rw [maptrack_setMapping_self]
    rfl
  have hother : ∀ s, s ≠ (d, h) → (t.blank d h).maptrack s = t.maptrack s :=
    fun s hs => maptrack_setMapping_of_ne _ _ hs
  constructor
  · intro k hk device readonly
    have hcount := liveCount_setMapping (mem_slots.mpr ⟨hd, hh⟩)
      ((t.maptrack (d, h)).withFlags 0) device readonly k
    have hblank : ¬ Live ((t.maptrack (d, h)).withFlags 0).flags := not_live_zero
    rw [weight_of_not_live hnot, weight_of_not_live hblank] at hcount
    exact (inv.pins k hk device readonly).trans hcount.symm
  · exact inv.free_of_setMapping hd (Or.inr hheld) (Or.inr hheld) fun _ _ _ => Iff.rfl
  · exact inv.last_of_setMapping hd (Or.inr hheld)
  · intro d' hd' h' hh' hflags
    by_cases heq : (d', h') = (d, h)
    · rw [heq] at hflags
      exact absurd hself hflags
    · rw [hother _ heq] at hflags ⊢
      exact inv.used d' hd' h' hh' hflags
  · intro d' hd' h' hh' hl
    by_cases heq : (d', h') = (d, h)
    · rw [heq, hself] at hl
      exact absurd hl not_live_zero
    · rw [hother _ heq] at hl ⊢
      exact inv.named d' hd' h' hh' hl
  · intro d' h' hheld'
    by_cases heq : (d', h') = (d, h)
    · obtain ⟨rfl, rfl⟩ := Prod.mk.inj heq
      rw [hself]
      exact ⟨hh, not_live_zero⟩
    · rw [hother _ heq]
      exact inv.withheld d' h' hheld'

/-- Giving a withheld handle back. -/
theorem Inv.put (inv : Inv P held t) {d : Domid} (hd : d ∈ P.domains) {h : Nat}
    (hheld : held d h) (hflags : (t.maptrack (d, h)).flags = 0) :
    Inv P (fun d' h' => held d' h' ∧ (d', h') ≠ (d, h)) (t.put d h) := by
  obtain ⟨hh, hnot⟩ := inv.withheld d h hheld
  have hself : (t.put d h).maptrack (d, h) = (t.maptrack (d, h)).withRef (t.head d) :=
    maptrack_setMapping_self _ _ _
  have hother : ∀ s, s ≠ (d, h) → (t.put d h).maptrack s = t.maptrack s :=
    fun s hs => maptrack_setMapping_of_ne _ _ hs
  have hflags' : ∀ s, ((t.put d h).maptrack s).flags = (t.maptrack s).flags := by
    intro s
    by_cases hs : s = (d, h)
    · rw [hs, hself]
      rfl
    · rw [hother s hs]
  have hdomid : ∀ s, ((t.put d h).maptrack s).domid = (t.maptrack s).domid := by
    intro s
    by_cases hs : s = (d, h)
    · rw [hs, hself]
      rfl
    · rw [hother s hs]
  constructor
  · intro k hk device readonly
    have hcount := liveCount_setMapping (mem_slots.mpr ⟨hd, hh⟩)
      ((t.maptrack (d, h)).withRef (t.head d)) device readonly k
    have hput : ¬ Live ((t.maptrack (d, h)).withRef (t.head d)).flags := hnot
    rw [weight_of_not_live hnot, weight_of_not_live hput] at hcount
    exact (inv.pins k hk device readonly).trans hcount.symm
  · intro d' hd'
    obtain ⟨l, hl, hmem⟩ := inv.free d' hd'
    by_cases hdd : d' = d
    · subst hdd
      have hnotmem : h ∉ l := fun hin => ((hmem h).mp hin).2.2 hheld
      refine ⟨h :: l, ?_, ?_⟩
      · have hpush := hl.push hnotmem
        have hlink : (t.put d' h).link d' = Function.update (t.link d') h (t.head d') := by
          funext x
          unfold link
          by_cases hx : x = h
          · rw [hx, hself, Function.update_self]
            rfl
          · rw [hother _ (by simp [hx]), Function.update_of_ne hx]
        have hhead : (t.put d' h).head d' = h := Function.update_self _ _ _
        rw [hlink, hhead]
        exact hpush
      · intro x
        rw [hflags', List.mem_cons, hmem]
        constructor
        · rintro (rfl | ⟨hlt, h0, hno⟩)
          · exact ⟨hh, hflags, fun hc => hc.2 rfl⟩
          · exact ⟨hlt, h0, fun hc => hno hc.1⟩
        · rintro ⟨hlt, h0, hno⟩
          by_cases hx : x = h
          · exact Or.inl hx
          · exact Or.inr ⟨hlt, h0, fun hc => hno ⟨hc, by simp [hx]⟩⟩
    · have hhead : (t.put d h).head d' = t.head d' := Function.update_of_ne hdd _ _
      have hne : ∀ x, (d', x) ≠ (d, h) := fun x heq => hdd (Prod.mk.inj heq).1
      refine ⟨l, ?_, ?_⟩
      · rw [hhead]
        refine hl.congr fun x _ _ => ?_
        unfold link
        rw [hother _ (hne x)]
      · intro x
        rw [hflags', hmem]
        constructor
        · rintro ⟨hlt, h0, hno⟩
          exact ⟨hlt, h0, fun hc => hno hc.1⟩
        · rintro ⟨hlt, h0, hno⟩
          exact ⟨hlt, h0, fun hc => hno ⟨hc, hne x⟩⟩
  · exact inv.last_of_setMapping hd (Or.inr hheld)
  · intro d' hd' h' hh' hf
    rw [hflags'] at hf ⊢
    rcases inv.used d' hd' h' hh' hf with hl | hl
    · exact Or.inl hl
    · refine Or.inr ⟨hl, ?_⟩
      rintro heq
      rw [heq] at hf
      exact hf hflags
  · intro d' hd' h' hh' hl
    rw [hflags'] at hl
    rw [hdomid]
    exact inv.named d' hd' h' hh' hl
  · rintro d' h' ⟨hheld', -⟩
    rw [hflags']
    exact inv.withheld d' h' hheld'

/-- Recording a mapping under the first free handle. -/
theorem Inv.record (inv : Inv P held t) {d : Domid} (hd : d ∈ P.domains)
    (hne : t.head d ≠ t.limit d - 1) {m : GrantMapping} (hlive : Live m.flags)
    (hdom : m.domid ∈ P.domains) (hversion : P.gtVersion m.domid ≠ .unset)
    (hroom : ∀ i, Lanes.lane (t.pin m.key) i < 254) : Inv P held (t.record d m) := by
  obtain ⟨hh, hflags, hnotheld⟩ := inv.head_free hd
  have hself : (t.record d m).maptrack (d, t.head d) = m := maptrack_setMapping_self _ _ _
  have hother : ∀ s, s ≠ (d, t.head d) → (t.record d m).maptrack s = t.maptrack s :=
    fun s hs => maptrack_setMapping_of_ne _ _ hs
  have hold : ¬ Live (t.maptrack (d, t.head d)).flags := by
    rw [hflags]
    exact not_live_zero
  constructor
  · intro k hk device readonly
    have hcount := liveCount_setMapping (mem_slots.mpr ⟨hd, hh⟩) m device readonly k
    rw [weight_of_not_live hold, Nat.add_zero] at hcount
    change Lanes.lane (Function.update t.pin m.key _ k) _ =
      liveCount P (t.setMapping (d, t.head d) m) _ _ _
    rw [hcount, ← inv.pins k hk device readonly]
    by_cases hkk : k = m.key
    · subst hkk
      rw [Function.update_self, lane_addPin hroom, weight]
      simp
    · rw [Function.update_of_ne hkk, weight, if_neg fun hall => hkk hall.2.symm, Nat.add_zero]
  · intro d' hd'
    obtain ⟨l, hl, hmem⟩ := inv.free d' hd'
    by_cases hdd : d' = d
    · subst hdd
      obtain ⟨rest, rfl, hrest⟩ := hl.pop hne
      have hnotmem : t.head d' ∉ rest := (List.nodup_cons.mp hl.nodup).1
      have hhead : (t.record d' m).head d' = t.link d' (t.head d') := Function.update_self _ _ _
      refine ⟨rest, ?_, ?_⟩
      · rw [hhead]
        refine hrest.congr fun x hx _ => ?_
        unfold link
        rw [hother]
        rintro heq
        rw [(Prod.mk.inj heq).2] at hx
        exact hnotmem hx
      · intro x
        by_cases hx : x = t.head d'
        · subst hx
          rw [hself]
          constructor
          · exact fun hin => absurd hin hnotmem
          · rintro ⟨-, h0, -⟩
            rw [h0] at hlive
            exact absurd hlive not_live_zero
        · rw [hother _ (by simp [hx])]
          have hx' := hmem x
          rw [List.mem_cons] at hx'
          constructor
          · exact fun hin => hx'.mp (Or.inr hin)
          · intro hall
            rcases hx'.mpr hall with heq | hin
            · exact absurd heq hx
            · exact hin
    · have hhead : (t.record d m).head d' = t.head d' := Function.update_of_ne hdd _ _
      have hne' : ∀ x, (d', x) ≠ (d, t.head d) := fun x heq => hdd (Prod.mk.inj heq).1
      refine ⟨l, ?_, ?_⟩
      · rw [hhead]
        refine hl.congr fun x _ _ => ?_
        unfold link
        rw [hother _ (hne' x)]
      · intro x
        rw [hother _ (hne' x)]
        exact hmem x
  · intro d' hd'
    refine ⟨(inv.last d' hd').1, ?_⟩
    unfold link
    rw [show (t.record d m).limit = t.limit from rfl, hother]
    · exact (inv.last d' hd').2
    · intro heq
      obtain ⟨rfl, hlast⟩ := Prod.mk.inj heq
      exact hne hlast.symm
  · intro d' hd' h' hh' hf
    by_cases heq : (d', h') = (d, t.head d)
    · rw [heq, hself]
      exact Or.inl hlive
    · rw [hother _ heq] at hf ⊢
      exact inv.used d' hd' h' hh' hf
  · intro d' hd' h' hh' hl
    by_cases heq : (d', h') = (d, t.head d)
    · rw [heq, hself]
      exact ⟨hdom, hversion⟩
    · rw [hother _ heq] at hl ⊢
      exact inv.named d' hd' h' hh' hl
  · intro d' h' hheld'
    have heq : (d', h') ≠ (d, t.head d) := by
      intro heq
      obtain ⟨rfl, rfl⟩ := Prod.mk.inj heq
      exact hnotheld hheld'
    rw [hother _ heq]
    exact inv.withheld d' h' hheld'

/-! ### A further page of handles -/

theorem grow_limit_self (t : Track) (d : Domid) :
    (t.grow d).limit d = t.limit d + maptrackPerPage :=
  Function.update_self _ _ _

theorem limit_le_grow (t : Track) (d d' : Domid) : t.limit d' ≤ (t.grow d).limit d' := by
  by_cases h : d' = d
  · rw [h, grow_limit_self]
    exact Nat.le_add_right _ _
  · exact le_of_eq (Function.update_of_ne h _ _).symm

theorem grow_maptrack_of_lt (t : Track) (d : Domid) {d' : Domid} {h : Nat}
    (hlt : h < t.limit d') : (t.grow d).maptrack (d', h) = t.maptrack (d', h) := by
  refine if_neg ?_
  rintro ⟨hd, hle, -⟩
  have hd' : d' = d := hd
  rw [hd'] at hlt
  exact absurd hlt (Nat.not_lt.mpr hle)

/-- An entry of the new page is blank and linked to the next one. -/
theorem grow_maptrack_new (t : Track) (d : Domid) {d' : Domid} {h : Nat}
    (hlt : h < (t.grow d).limit d') (hge : t.limit d' ≤ h) :
    d' = d ∧ (t.grow d).maptrack (d', h) = ⟨h + 1, 0, 0⟩ := by
  have hd : d' = d := by
    by_contra hne
    have hlim : (t.grow d).limit d' = t.limit d' := Function.update_of_ne hne _ _
    omega
  subst hd
  rw [grow_limit_self] at hlt
  exact ⟨rfl, if_pos ⟨rfl, hge, hlt⟩⟩

/-- The new page does not count, whatever is counted. -/
theorem sum_grow {M : Type*} [AddCommMonoid M] (P : Platform) (t : Track) (d : Domid)
    {count : Domid × Nat → GrantMapping → M} (hdead : ∀ s m, ¬ Live m.flags → count s m = 0) :
    ∑ s ∈ (t.grow d).slots P, count s ((t.grow d).maptrack s) =
      ∑ s ∈ t.slots P, count s (t.maptrack s) := by
  have hsub : t.slots P ⊆ (t.grow d).slots P := by
    rintro ⟨d', h⟩ hs
    rw [mem_slots] at hs ⊢
    exact ⟨hs.1, hs.2.trans_le (limit_le_grow t d d')⟩
  have hnew : ∀ s ∈ (t.grow d).slots P, s ∉ t.slots P →
      count s ((t.grow d).maptrack s) = 0 := by
    rintro ⟨d', h⟩ hs hnot
    rw [mem_slots] at hs
    have hge : t.limit d' ≤ h := by
      by_contra hlt
      exact hnot (mem_slots.mpr ⟨hs.1, Nat.lt_of_not_le hlt⟩)
    rw [(grow_maptrack_new t d hs.2 hge).2]
    exact hdead _ _ not_live_zero
  rw [← sum_subset hsub hnew]
  refine sum_congr rfl ?_
  rintro ⟨d', h⟩ hs
  rw [grow_maptrack_of_lt t d (mem_slots.mp hs).2]

theorem liveCount_grow (P : Platform) (t : Track) (d : Domid) (device readonly : Bool)
    (k : EntryKey) : (t.grow d).liveCount P device readonly k = t.liveCount P device readonly k := by
  rw [liveCount_eq_sum, liveCount_eq_sum]
  exact sum_grow P t d fun _ _ hdead => weight_of_not_live hdead _ _ _

theorem Inv.grow (inv : Inv P held t) (d : Domid) : Inv P held (t.grow d) := by
  constructor
  · intro k hk device readonly
    rw [liveCount_grow]
    exact inv.pins k hk device readonly
  · intro d' hd'
    obtain ⟨l, hl, hmem⟩ := inv.free d' hd'
    have hkeep : FreeList ((t.grow d).link d') (t.head d') (t.limit d' - 1) l := by
      refine hl.congr fun h hh _ => ?_
      unfold link
      rw [grow_maptrack_of_lt t d ((hmem h).mp hh).1]
    by_cases hdd : d' = d
    · -- the old list ends where the new page begins
      subst hdd
      obtain ⟨hpos, hlast⟩ := inv.last d' hd'
      have hnext : (t.grow d').link d' (t.limit d' - 1) = t.limit d' := by
        unfold link
        rw [grow_maptrack_of_lt t d' (by omega)]
        exact hlast
      have hpage : FreeList ((t.grow d').link d') (t.limit d')
          (t.limit d' + maptrackPerPage - 1) (List.range' (t.limit d') maptrackPerPage) := by
        refine FreeList.range' (by decide) fun h hge hlt => ?_
        unfold link
        rw [(grow_maptrack_new t d' (by rw [grow_limit_self]; omega) hge).2]
      refine ⟨l ++ List.range' (t.limit d') maptrackPerPage, ?_, ?_⟩
      · rw [grow_limit_self]
        refine hkeep.append (by rw [hnext]; exact hpage) ?_
        intro h hh hh'
        rw [List.mem_range'_1] at hh'
        exact absurd ((hmem h).mp hh).1 (Nat.not_lt.mpr hh'.1)
      · intro h
        rw [List.mem_append, hmem, List.mem_range'_1, grow_limit_self]
        constructor
        · rintro (⟨hlt, h0, hno⟩ | ⟨hge, hlt⟩)
          · rw [grow_maptrack_of_lt t d' hlt]
            exact ⟨by omega, h0, hno⟩
          · rw [(grow_maptrack_new t d' (by rw [grow_limit_self]; omega) hge).2]
            refine ⟨hlt, rfl, fun hc => ?_⟩
            exact absurd (inv.withheld d' h hc).1 (Nat.not_lt.mpr hge)
        · rintro ⟨hlt, h0, hno⟩
          by_cases hold : h < t.limit d'
          · rw [grow_maptrack_of_lt t d' hold] at h0
            exact Or.inl ⟨hold, h0, hno⟩
          · exact Or.inr ⟨Nat.le_of_not_lt hold, hlt⟩
    · have hlim : (t.grow d).limit d' = t.limit d' := Function.update_of_ne hdd _ _
      refine ⟨l, ?_, ?_⟩
      · rw [hlim]
        exact hkeep
      · intro h
        rw [hmem, hlim]
        constructor
        · rintro ⟨hlt, h0, hno⟩
          exact ⟨hlt, by rw [grow_maptrack_of_lt t d hlt]; exact h0, hno⟩
        · rintro ⟨hlt, h0, hno⟩
          exact ⟨hlt, by rw [grow_maptrack_of_lt t d hlt] at h0; exact h0, hno⟩
  · intro d' hd'
    obtain ⟨hpos, hlast⟩ := inv.last d' hd'
    refine ⟨hpos.trans_le (limit_le_grow t d d'), ?_⟩
    by_cases hdd : d' = d
    · subst hdd
      unfold link
      have hper : 0 < maptrackPerPage := by decide
      rw [(grow_maptrack_new t d' (h := (t.grow d').limit d' - 1)
        (by rw [grow_limit_self]; omega) (by rw [grow_limit_self]; omega)).2]
      rw [grow_limit_self]
      exact Nat.sub_add_cancel (by omega)
    · have hlim : (t.grow d).limit d' = t.limit d' := Function.update_of_ne hdd _ _
      unfold link
      rw [hlim, grow_maptrack_of_lt t d (by omega)]
      exact hlast
  · intro d' hd' h hh hf
    by_cases hold : h < t.limit d'
    · rw [grow_maptrack_of_lt t d hold] at hf ⊢
      exact inv.used d' hd' h hold hf
    · rw [(grow_maptrack_new t d hh (Nat.le_of_not_lt hold)).2] at hf
      exact absurd rfl hf
  · intro d' hd' h hh hl
    by_cases hold : h < t.limit d'
    · rw [grow_maptrack_of_lt t d hold] at hl ⊢
      exact inv.named d' hd' h hold hl
    · rw [(grow_maptrack_new t d hh (Nat.le_of_not_lt hold)).2] at hl
      exact absurd hl not_live_zero
  · intro d' h hheld
    obtain ⟨hlt, hnot⟩ := inv.withheld d' h hheld
    rw [grow_maptrack_of_lt t d hlt]
    exact ⟨hlt.trans_le (limit_le_grow t d d'), hnot⟩

/-- The ledger after `grant_table_create` of every domain. -/
theorem Inv.initial (P : Platform) (hpin : ∀ k, t.pin k = 0)
    (hmap : ∀ d, ∀ h < maptrackPerPage, t.maptrack (d, h) = ⟨h + 1, 0, 0⟩)
    (hhead : ∀ d, t.head d = 0) (hlimit : ∀ d, t.limit d = maptrackPerPage) :
    Inv P (fun _ _ => False) t := by
  have hflags : ∀ d, ∀ h < t.limit d, (t.maptrack (d, h)).flags = 0 := by
    intro d h hh
    rw [hlimit] at hh
    rw [hmap d h hh]
  constructor
  · intro k hk device readonly
    have hcount : t.liveCount P device readonly k = 0 := by
      rw [liveCount_eq_sum]
      refine sum_eq_zero fun s hs => weight_of_not_live ?_ _ _ _
      rw [hflags s.1 s.2 (mem_slots.mp hs).2]
      exact not_live_zero
    rw [hcount, hpin]
    exact Lanes.lane_zero _
  · intro d hd
    refine ⟨List.range' 0 maptrackPerPage, ?_, ?_⟩
    · have hrange : FreeList (t.link d) 0 (0 + maptrackPerPage - 1)
          (List.range' 0 maptrackPerPage) := by
        refine FreeList.range' (by decide) fun h _ hlt => ?_
        unfold link
        rw [hmap d h (by omega)]
      rw [hhead, hlimit]
      simpa using hrange
    · intro h
      rw [List.mem_range'_1]
      constructor
      · rintro ⟨-, hlt⟩
        have hlt' : h < t.limit d := by
          rw [hlimit]
          omega
        exact ⟨hlt', hflags d h hlt', fun hno => hno⟩
      · rintro ⟨hlt, -, -⟩
        rw [hlimit] at hlt
        omega
  · intro d hd
    unfold link
    rw [hlimit, hmap d _ (by decide)]
    exact ⟨by decide, rfl⟩
  · intro d _ h hh hf
    exact absurd (hflags d h hh) hf
  · intro d _ h hh hl
    rw [hflags d h hh] at hl
    exact absurd hl not_live_zero
  · intro d h hheld
    exact hheld.elim

end Track

end Grant
