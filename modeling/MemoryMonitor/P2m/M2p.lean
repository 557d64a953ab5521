import MemoryMonitor.Lib.Runs
import MemoryMonitor.P2m.Map

/-!
# The p2m and the M2P

`guest_physmap_add_entry` and `guest_physmap_remove_entry` (`xen/arch/x86/mm/p2m.c`) keep
two maps that should be inverse to each other. Adding a range first takes the old frames of
the range out of the M2P, then the new frames out of wherever they are mapped, and then sets
both maps. It does not look whether the p2m could be set before it sets the M2P, and
`p2m_remove_page` does not look at all.
-/

namespace P2m

namespace State

/-- The loop of `p2m_remove_page` over the M2P. -/
def forget (gfn mfn : Nat) : (todo i : Nat) → State → State
  | 0, _, s => s
  | todo + 1, i, s =>
      if (s.p2m (gfn + i)).type.isGrant then forget gfn mfn todo (i + 1) s
      else forget gfn mfn todo (i + 1) (s.setGpfn (mfn + i) invalidM2pEntry)

/-- `p2m_remove_page`, and with it `guest_physmap_remove_entry`. -/
def removePage (s : State) (gfn mfn order : Nat) (ok : Nat → Bool) : State :=
  let s := if s.mfnValid mfn then forget gfn mfn (2 ^ order) 0 s else s
  (s.setP2mEntry gfn invalidMfn order .invalid ok).1

/-- The first loop of `guest_physmap_add_entry`: the frames of the range leave the M2P, and
PoD entries are counted. It stops with an error at a grant mapping. -/
def retire (gfn : Nat) : (todo i : Nat) → (podCount : Nat) → State → Except State (State × Nat)
  | 0, _, podCount, s => .ok (s, podCount)
  | todo + 1, i, podCount, s =>
      let e := s.p2m (gfn + i)
      if e.type.isGrant then .error { s with crashed := true }
      else if e.type.isRam then retire gfn todo (i + 1) podCount (s.setGpfn e.mfn invalidM2pEntry)
      else if e.type = .populateOnDemand then retire gfn todo (i + 1) (podCount + 1) s
      else retire gfn todo (i + 1) podCount s

/-- An M2P entry that is a frame number. -/
def names (pfn : Nat) : Bool :=
  pfn ≠ invalidM2pEntry && pfn ≠ sharedM2pEntry && pfn ≠ unsetM2pEntry

/-- The second loop: the new frames leave the p2m. -/
def unalias (gfn mfn : Nat) (ok : Nat → Bool) : (todo i : Nat) → State → State
  | 0, _, s => s
  | todo + 1, i, s =>
      if s.owner (mfn + i) ≠ .self then unalias gfn mfn ok todo (i + 1) s
      else
        let ogfn := s.m2p (mfn + i)
        if ogfn ≠ unsetM2pEntry ∧ ogfn ≠ invalidM2pEntry ∧ ogfn ≠ gfn + i then
          if (s.p2m ogfn).type.isRam ∧ (s.p2m ogfn).mfn = mfn + i then
            unalias gfn mfn ok todo (i + 1) (s.removePage ogfn (mfn + i) 0 ok)
          else unalias gfn mfn ok todo (i + 1) s
        else unalias gfn mfn ok todo (i + 1) s

/-- The last loop sets the M2P. -/
def nameFrames (gfn mfn : Nat) : (todo i : Nat) → State → State
  | 0, _, s => s
  | todo + 1, i, s => nameFrames gfn mfn todo (i + 1) (s.setGpfn (mfn + i) (gfn + i))

/-- `guest_physmap_add_entry`, and whether it returns 0. -/
def addEntry (s : State) (gfn mfn order : Nat) (t : P2mType) (ok : Nat → Bool) : State × Bool :=
  match retire gfn (2 ^ order) 0 0 s with
  | .error s => (s, false)
  | .ok (s, podCount) =>
      let s := unalias gfn mfn ok (2 ^ order) 0 s
      if s.mfnValid mfn then
        let r := s.setP2mEntry gfn mfn order t ok
        (if t.isGrant then r.1 else nameFrames gfn mfn (2 ^ order) 0 r.1, r.2)
      else
        let r := s.setP2mEntry gfn invalidMfn order .invalid ok
        if r.2 then
          ({ r.1 with
            entryCount := r.1.entryCount - podCount
            bug := r.1.bug || r.1.entryCount - podCount < 0 }, true)
        else (r.1, false)

end State

inductive Step where
  | addEntry (gfn mfn order : Nat) (t : P2mType) (ok : Nat → Bool)
  | removeEntry (gfn mfn order : Nat) (ok : Nat → Bool)

def act (step : Step) (s : State) : State :=
  match step with
  | .addEntry gfn mfn order t ok => (s.addEntry gfn mfn order t ok).1
  | .removeEntry gfn mfn order ok => s.removePage gfn mfn order ok

/-- A new domain on a machine: nothing is mapped and no frame is named. -/
def State.init (hapEnabled hap1gb hap2mb : Bool) (mfnValid : Nat → Bool) (owner : Nat → Owner) :
    State where
  hapEnabled := hapEnabled
  hap1gb := hap1gb
  hap2mb := hap2mb
  mfnValid := mfnValid
  owner := owner
  p2m _ := .unmapped
  m2p _ := invalidM2pEntry
  entryCount := 0
  crashed := false
  bug := false

/-! ## The property -/

structure Agrees (s : State) : Prop where
  /-- A frame that is mapped as RAM is named for where it is mapped. -/
  forth : ∀ g m, s.p2m g = ⟨m, .ramRw⟩ → s.m2p m = g
  /-- A frame that is named is mapped there. -/
  back : ∀ m, State.names (s.m2p m) = true → (s.p2m (s.m2p m)).mfn = m

/-- Nothing names `gfn`. -/
def State.Unnamed (s : State) (gfn : Nat) : Prop := ∀ m, s.m2p m ≠ gfn

/-- Taking `mfn` out of the M2P, if it is `known`, takes away what is named for `gfn` and
nothing else. -/
def State.Removable (s : State) (gfn mfn : Nat) (known : Bool) : Prop :=
  (s.p2m gfn).type.isGrant = true ∨ (known = true ∧ s.m2p mfn = gfn) ∨
    (s.Unnamed gfn ∧ (known = true → State.names (s.m2p mfn) = false))

/-- No entry fails to be set. A range that is added over holds RAM, or frames that the M2P
does not know, and no grant mapping; new frames are the domain's own, unless they are
granted to it, and of a type that the p2m keeps. What is removed is the frame that is named
for the place. -/
def Fine (step : Step) (s : State) : Prop :=
  match step with
  | .addEntry gfn mfn order t ok =>
      (∀ g, ok g = true) ∧ gfn + 2 ^ order ≤ maxGfn ∧
      (∀ i < 2 ^ order, (s.p2m (gfn + i)).type.isGrant = false ∧
        ((s.p2m (gfn + i)).type.isRam = true ∨ s.Unnamed (gfn + i))) ∧
      (∀ i < 2 ^ order, s.owner (mfn + i) = .self → s.mfnValid (mfn + i) = true) ∧
      (s.mfnValid mfn = true → t.present = true ∧ ∀ i < 2 ^ order,
        mfn + i ≠ invalidMfn ∧ s.mfnValid (mfn + i) = true ∧
        (t.isGrant = true ∨ s.owner (mfn + i) = .self))
  | .removeEntry gfn mfn order ok =>
      (∀ g, ok g = true) ∧ gfn + 2 ^ order ≤ maxGfn ∧
      ∀ i < 2 ^ order, s.Removable (gfn + i) (mfn + i) (s.mfnValid mfn)

/-! ## The invariant -/

/-- The two maps agree outside the range `R`, and no frame is named for a place in it. -/
structure Apart (R : Nat → Prop) (s : State) : Prop where
  forth : ∀ g, ¬R g → (s.p2m g).type.isRam = true → s.m2p (s.p2m g).mfn = g
  back : ∀ m, State.names (s.m2p m) = true → ¬R (s.m2p m) ∧ (s.p2m (s.m2p m)).mfn = m ∧
    (s.p2m (s.m2p m)).type.isGrant = false
  bound : ∀ g, maxGfn ≤ g → s.p2m g = .unmapped

/-- They agree everywhere. -/
def Inv (s : State) : Prop := Apart (fun _ => False) s

variable {s s' : State} {gfn mfn order n : Nat} {t : P2mType} {ok : Nat → Bool} {R : Nat → Prop}

theorem Inv.agrees (h : Inv s) : Agrees s := by
  constructor
  · intro g m hg
    have := h.forth g id (by rw [hg]; rfl)
    rw [hg] at this
    exact this
  · exact fun m hm => (h.back m hm).2.1

theorem names_of_lt {g : Nat} (h : g < maxGfn) : State.names g = true := by
  unfold maxGfn at h
  unfold State.names invalidM2pEntry sharedM2pEntry unsetM2pEntry
  simp only [ne_eq, Bool.and_eq_true, decide_eq_true_eq]
  omega

theorem setGpfn_self (m pfn : Nat) :
    (s.setGpfn m pfn).m2p m = if s.owner m = .domCow then sharedM2pEntry else pfn :=
  Function.update_self ..

theorem setGpfn_of_ne {m m' : Nat} (pfn : Nat) (h : m' ≠ m) : (s.setGpfn m pfn).m2p m' = s.m2p m' :=
  Function.update_of_ne h ..

/-- A frame that leaves the M2P has no name. -/
theorem names_setGpfn {m m' : Nat} (h : State.names ((s.setGpfn m invalidM2pEntry).m2p m') = true) :
    m' ≠ m ∧ (s.setGpfn m invalidM2pEntry).m2p m' = s.m2p m' := by
  by_cases hm : m' = m
  · rw [hm, setGpfn_self] at h
    split at h
    · exact absurd h (by decide)
    · exact absurd h (by decide)
  · exact ⟨hm, setGpfn_of_ne _ hm⟩

/-- RAM is mapped only where the p2m has entries. -/
theorem Apart.lt_of_ram (h : Apart R s) {g : Nat} (hg : (s.p2m g).type.isRam = true) : g < maxGfn := by
  by_contra hge
  rw [h.bound g (Nat.le_of_not_lt hge)] at hg
  exact absurd hg (by decide)

/-! ## The old frames -/

/-- One frame of the range leaves the M2P. -/
theorem Apart.retireOne (h : Apart R s) {g : Nat} (hg : ¬R g) (hram : (s.p2m g).type.isRam = true) :
    Apart (fun g' => g' = g ∨ R g') (s.setGpfn (s.p2m g).mfn invalidM2pEntry) := by
  refine ⟨fun g' hR hram' => ?_, fun m hm => ?_, h.bound⟩
  · have hne : (s.p2m g').mfn ≠ (s.p2m g).mfn := by
      intro heq
      have h1 := h.forth g' (fun hr => hR (.inr hr)) hram'
      have h2 := h.forth g hg hram
      rw [heq, h2] at h1
      exact hR (.inl h1.symm)
    exact (setGpfn_of_ne _ hne).trans (h.forth g' (fun hr => hR (.inr hr)) hram')
  · rcases names_setGpfn hm with ⟨hne, heq⟩
    rw [heq] at hm ⊢
    rcases h.back m hm with ⟨hr, hmfn, hgr⟩
    refine ⟨fun hor => ?_, hmfn, hgr⟩
    rcases hor with hor | hor
    · rw [hor] at hmfn
      exact hne hmfn.symm
    · exact hr hor

/-- A place that nothing is named for can join the range. -/
theorem Apart.skip (h : Apart R s) {g : Nat} (hg : s.Unnamed g) : Apart (fun g' => g' = g ∨ R g') s := by
  refine ⟨fun g' hR => h.forth g' fun hr => hR (.inr hr), fun m hm => ?_, h.bound⟩
  rcases h.back m hm with ⟨hr, hrest⟩
  exact ⟨fun hor => hor.elim (hg m) hr, hrest⟩

theorem Apart.congr {R' : Nat → Prop} (h : Apart R s) (hR : ∀ g, R' g ↔ R g) : Apart R' s :=
  ⟨fun g hg => h.forth g fun hr => hg ((hR g).2 hr),
    fun m hm => ⟨fun hr => (h.back m hm).1 ((hR _).1 hr), (h.back m hm).2⟩, h.bound⟩

/-- The range of a call. -/
def Range (gfn n g : Nat) : Prop := gfn ≤ g ∧ g < gfn + n

/-- What the first loop does to a range without grant mappings. -/
theorem retire_spec (todo podCount : Nat) {i : Nat} (h : Apart (Range gfn i) s)
    (hmax : gfn + (i + todo) ≤ maxGfn)
    (hrange : ∀ j, i ≤ j → j < i + todo → (s.p2m (gfn + j)).type.isGrant = false ∧
      ((s.p2m (gfn + j)).type.isRam = true ∨ s.Unnamed (gfn + j))) :
    ∃ s' pod, State.retire gfn todo i podCount s = .ok (s', pod) ∧
      Apart (Range gfn (i + todo)) s' ∧ (s'.p2m, s'.owner, s'.mfnValid) = (s.p2m, s.owner, s.mfnValid) := by
  induction todo generalizing i podCount s with
  | zero => exact ⟨s, podCount, rfl, h, rfl⟩
  | succ todo ih =>
    rcases hrange i (Nat.le_refl i) (by omega) with ⟨hgr, hcase⟩
    have hnot : ¬Range gfn i (gfn + i) := fun hr => Nat.lt_irrefl _ hr.2
    have hR : ∀ g, Range gfn (i + 1) g ↔ g = gfn + i ∨ Range gfn i g := by
      intro g
      unfold Range
      omega
    have hlen : i + 1 + todo = i + (todo + 1) := by omega
    unfold State.retire
    dsimp only
    rw [hgr, if_neg Bool.false_ne_true, ← hlen]
    split
    · rename_i hram
      refine ih podCount (s := s.setGpfn (s.p2m (gfn + i)).mfn invalidM2pEntry) ((h.retireOne hnot hram).congr hR)
        (by omega) fun j hij hj => ?_
      rcases hrange j (by omega) (by omega) with ⟨hgr', hcase'⟩
      refine ⟨hgr', hcase'.imp_right fun hun m hm => ?_⟩
      have hn : State.names ((s.setGpfn (s.p2m (gfn + i)).mfn invalidM2pEntry).m2p m) = true := by
        rw [hm]
        exact names_of_lt (by omega)
      exact hun m ((names_setGpfn hn).2.symm.trans hm)
    · rename_i hram
      have hskip := (h.skip (hcase.resolve_left hram)).congr hR
      have hrest : ∀ j, i + 1 ≤ j → j < i + 1 + todo → _ := fun j hij hj => hrange j (by omega) (by omega)
      split
      · exact ih (podCount + 1) hskip (by omega) hrest
      · exact ih podCount hskip (by omega) hrest

/-! ## Removing a range -/

/-- The frames that are not mapped as grants have left the M2P. -/
theorem forget_spec (s : State) (gfn mfn todo i : Nat) :
    ((State.forget gfn mfn todo i s).p2m, (State.forget gfn mfn todo i s).owner,
      (State.forget gfn mfn todo i s).mfnValid) = (s.p2m, s.owner, s.mfnValid) ∧
    (∀ m, State.names ((State.forget gfn mfn todo i s).m2p m) = true →
      (State.forget gfn mfn todo i s).m2p m = s.m2p m ∧
      ∀ j, i ≤ j → j < i + todo → m = mfn + j → (s.p2m (gfn + j)).type.isGrant = true) ∧
    (∀ m, (∀ j, i ≤ j → j < i + todo → m = mfn + j → (s.p2m (gfn + j)).type.isGrant = true) →
      (State.forget gfn mfn todo i s).m2p m = s.m2p m) := by
  induction todo generalizing i s with
  | zero => exact ⟨rfl, fun m _ => ⟨rfl, fun j hij hj => by omega⟩, fun m _ => rfl⟩
  | succ todo ih =>
    unfold State.forget
    split
    · rename_i hgr
      rcases ih s (i + 1) with ⟨hsame, hnames, hkeep⟩
      refine ⟨hsame, fun m hm => ⟨(hnames m hm).1, fun j hij hj hmj => ?_⟩, fun m hm => hkeep m ?_⟩
      · by_cases hji : j = i
        · rw [hji]
          exact hgr
        · exact (hnames m hm).2 j (by omega) (by omega) hmj
      · exact fun j hij hj => hm j (by omega) (by omega)
    · rename_i hgr
      rcases ih (s.setGpfn (mfn + i) invalidM2pEntry) (i + 1) with ⟨hsame, hnames, hkeep⟩
      refine ⟨hsame, fun m hm => ?_, fun m hm => ?_⟩
      · rcases hnames m hm with ⟨heq, hlater⟩
        rw [heq] at hm
        rcases names_setGpfn hm with ⟨hne, hold⟩
        refine ⟨heq.trans hold, fun j hij hj hmj => ?_⟩
        by_cases hji : j = i
        · rw [hji] at hmj
          exact absurd hmj hne
        · exact hlater j (by omega) (by omega) hmj
      · have hne : m ≠ mfn + i := fun heq => hgr (hm i (Nat.le_refl i) (by omega) heq)
        rw [hkeep m fun j hij hj => hm j (by omega) (by omega)]
        exact setGpfn_of_ne _ hne

theorem Entry.of_invalid (m : Nat) : Entry.of m .invalid = .unmapped := rfl

/-- What `p2m_remove_page` does when the entries can be set. -/
theorem removePage_spec (mfn : Nat) (hok : ∀ g, ok g = true) (hmax : gfn + 2 ^ order ≤ maxGfn) :
    ((s.removePage gfn mfn order ok).owner, (s.removePage gfn mfn order ok).mfnValid) =
      (s.owner, s.mfnValid) ∧
    (∀ g, (s.removePage gfn mfn order ok).p2m g =
      if gfn ≤ g ∧ g < gfn + 2 ^ order then .unmapped else s.p2m g) ∧
    (s.removePage gfn mfn order ok).m2p =
      (if s.mfnValid mfn then State.forget gfn mfn (2 ^ order) 0 s else s).m2p := by
  unfold State.removePage
  dsimp only
  rw [setP2mEntry_spec hok hmax (.inl Entry.of_invalid)]
  split
  · rcases forget_spec s gfn mfn (2 ^ order) 0 with ⟨hsame, -, -⟩
    simp only [Prod.mk.injEq] at hsame
    refine ⟨?_, fun g => ?_, rfl⟩
    · dsimp only
      rw [hsame.2.1, hsame.2.2]
    · dsimp only
      rw [hsame.1, Entry.of_invalid]
  · exact ⟨rfl, fun g => rfl, rfl⟩

theorem Apart.removePage (h : Apart R s) (hok : ∀ g, ok g = true) (hmax : gfn + 2 ^ order ≤ maxGfn)
    (hfine : ∀ i < 2 ^ order, s.Removable (gfn + i) (mfn + i) (s.mfnValid mfn)) :
    Apart R (s.removePage gfn mfn order ok) := by
  rcases removePage_spec (s := s) mfn hok hmax with ⟨-, hp, hm2p⟩
  -- what the M2P says of a frame afterwards it has said before, and the frame is not removed
  have hnames : ∀ m, State.names ((s.removePage gfn mfn order ok).m2p m) = true →
      (s.removePage gfn mfn order ok).m2p m = s.m2p m ∧
      ∀ i < 2 ^ order, s.mfnValid mfn = true → m = mfn + i → (s.p2m (gfn + i)).type.isGrant = true := by
    intro m hm
    rw [hm2p] at hm ⊢
    split at hm
    · rename_i hv
      rw [if_pos hv]
      rcases forget_spec s gfn mfn (2 ^ order) 0 with ⟨-, hold, -⟩
      refine ⟨(hold m hm).1, fun i hi _ => (hold m hm).2 i (Nat.zero_le i) ?_⟩
      omega
    · rename_i hv
      rw [if_neg hv]
      exact ⟨rfl, fun i _ hv' => absurd hv' hv⟩
  have hkeep : ∀ m, (∀ i < 2 ^ order, s.mfnValid mfn = true → m = mfn + i →
      (s.p2m (gfn + i)).type.isGrant = true) → (s.removePage gfn mfn order ok).m2p m = s.m2p m := by
    intro m hm
    rw [hm2p]
    split
    · rename_i hv
      exact (forget_spec s gfn mfn (2 ^ order) 0).2.2 m fun j _ hj hmj => hm j (by omega) hv hmj
    · rfl
  refine ⟨fun g hR hram => ?_, fun m hm => ?_, fun g hg => ?_⟩
  · rw [hp g] at hram ⊢
    split at hram
    · exact absurd hram (by decide)
    · rename_i hout
      rw [if_neg hout]
      have hg := h.forth g hR hram
      refine (hkeep _ fun i hi hv hmi => ?_).trans hg
      rcases hfine i hi with hgr | ⟨-, hnamed⟩ | ⟨-, hnone⟩
      · exact hgr
      · rw [← hmi, hg] at hnamed
        exact absurd ⟨by omega, by omega⟩ hout
      · have hnot := hnone hv
        rw [← hmi, hg, names_of_lt (h.lt_of_ram hram)] at hnot
        exact absurd hnot.symm Bool.false_ne_true
  · rcases hnames m hm with ⟨heq, hother⟩
    rw [heq] at hm ⊢
    rcases h.back m hm with ⟨hR, hmfn, hgr⟩
    have hout : ¬(gfn ≤ s.m2p m ∧ s.m2p m < gfn + 2 ^ order) := by
      intro hin
      rcases Nat.exists_eq_add_of_le hin.1 with ⟨i, hi⟩
      have hlt : i < 2 ^ order := by omega
      rw [hi] at hmfn hgr
      rcases hfine i hlt with hgr' | ⟨hv, hnamed⟩ | ⟨hun, -⟩
      · rw [hgr] at hgr'
        exact absurd hgr' Bool.false_ne_true
      · -- the frame that is removed is the only one that is named for the place
        have hmi := (h.back (mfn + i) (by rw [hnamed, ← hi]; exact hm)).2.1
        rw [hnamed, hmfn] at hmi
        rw [hother i hlt hv hmi] at hgr
        exact absurd hgr.symm Bool.false_ne_true
      · exact hun m hi
    rw [hp, if_neg hout]
    exact ⟨hR, hmfn, hgr⟩
  · rw [hp g]
    split
    · rfl
    · exact h.bound g hg

/-! ## The old places -/

/-- What the second loop does: frames of the domain are RAM nowhere outside the range. -/
theorem unalias_spec (mfn todo : Nat) {i : Nat} (h : Apart (Range gfn n) s) (hok : ∀ g, ok g = true)
    (hn : i + todo ≤ n)
    (hvalid : ∀ j, i ≤ j → j < i + todo → s.owner (mfn + j) = .self → s.mfnValid (mfn + j) = true) :
    Apart (Range gfn n) (State.unalias gfn mfn ok todo i s) ∧
    ((State.unalias gfn mfn ok todo i s).owner, (State.unalias gfn mfn ok todo i s).mfnValid) =
      (s.owner, s.mfnValid) ∧
    (∀ g, ((State.unalias gfn mfn ok todo i s).p2m g).type.isRam = true →
      (State.unalias gfn mfn ok todo i s).p2m g = s.p2m g) ∧
    ∀ j, i ≤ j → j < i + todo → s.owner (mfn + j) = .self → ∀ g, ¬Range gfn n g →
      ((State.unalias gfn mfn ok todo i s).p2m g).type.isRam = true →
      ((State.unalias gfn mfn ok todo i s).p2m g).mfn ≠ mfn + j := by
  induction todo generalizing i s with
  | zero => exact ⟨h, rfl, fun g _ => rfl, fun j hij hj => by omega⟩
  | succ todo ih =>
    -- one frame: `s₁` is the state it leaves
    have hrest : ∀ s₁ : State, Apart (Range gfn n) s₁ → (s₁.owner, s₁.mfnValid) = (s.owner, s.mfnValid) →
        (∀ g, (s₁.p2m g).type.isRam = true → s₁.p2m g = s.p2m g) →
        (s.owner (mfn + i) = .self → ∀ g, ¬Range gfn n g → (s₁.p2m g).type.isRam = true →
          (s₁.p2m g).mfn ≠ mfn + i) →
        Apart (Range gfn n) (State.unalias gfn mfn ok todo (i + 1) s₁) ∧
        ((State.unalias gfn mfn ok todo (i + 1) s₁).owner,
          (State.unalias gfn mfn ok todo (i + 1) s₁).mfnValid) = (s.owner, s.mfnValid) ∧
        (∀ g, ((State.unalias gfn mfn ok todo (i + 1) s₁).p2m g).type.isRam = true →
          (State.unalias gfn mfn ok todo (i + 1) s₁).p2m g = s.p2m g) ∧
        ∀ j, i ≤ j → j < i + (todo + 1) → s.owner (mfn + j) = .self → ∀ g, ¬Range gfn n g →
          ((State.unalias gfn mfn ok todo (i + 1) s₁).p2m g).type.isRam = true →
          ((State.unalias gfn mfn ok todo (i + 1) s₁).p2m g).mfn ≠ mfn + j := by
      intro s₁ h₁ hsame hram hnot
      simp only [Prod.mk.injEq] at hsame
      rcases ih (i := i + 1) h₁ (by omega) (fun j hij hj hown => by
        rw [hsame.1] at hown
        rw [hsame.2]
        exact hvalid j (by omega) (by omega) hown) with ⟨ha, hs, hr, hj⟩
      rw [hsame.1, hsame.2] at hs
      refine ⟨ha, hs, fun g hg => ?_, fun j hij hj' hown g hR hg => ?_⟩
      · have heq := hr g hg
        rw [heq] at hg ⊢
        exact hram g hg
      · by_cases hji : j = i
        · have heq := hr g hg
          rw [hji] at hown ⊢
          rw [heq] at hg ⊢
          exact hnot hown g hR hg
        · refine hj j (by omega) (by omega) ?_ g hR hg
          rw [hsame.1]
          exact hown
    unfold State.unalias
    split
    · rename_i hown
      exact hrest s h rfl (fun g _ => rfl) fun hself => absurd hself hown
    · rename_i hown
      have hself : s.owner (mfn + i) = .self := Decidable.not_not.1 hown
      have hin : Range gfn n (gfn + i) := ⟨by omega, by omega⟩
      dsimp only
      split
      · rename_i hnamed
        split
        · rename_i hthere
          have hlt : s.m2p (mfn + i) + 2 ^ 0 ≤ maxGfn := h.lt_of_ram hthere.1
          have hv := hvalid i (Nat.le_refl i) (by omega) hself
          rcases removePage_spec (s := s) (mfn + i) hok hlt with ⟨hsame, hp, -⟩
          refine hrest _ (h.removePage hok hlt fun j hj => ?_) hsame (fun g hg => ?_) fun _ g hR hg heq => ?_
          · have h0 : j = 0 := by omega
            rw [h0]
            exact .inr (.inl ⟨hv, rfl⟩)
          · rw [hp g] at hg ⊢
            split at hg
            · exact absurd hg (by decide)
            · rename_i hout
              rw [if_neg hout]
          · rw [hp g] at hg heq
            split at hg
            · exact absurd hg (by decide)
            · rename_i hout
              rw [if_neg hout] at heq
              have hg' := h.forth g hR hg
              rw [heq] at hg'
              omega
        · rename_i hthere
          refine hrest s h rfl (fun g _ => rfl) fun _ g hR hg heq => hthere ?_
          have hg' := h.forth g hR hg
          rw [heq] at hg'
          rw [hg']
          exact ⟨hg, heq⟩
      · rename_i hnamed
        refine hrest s h rfl (fun g _ => rfl) fun _ g hR hg heq => hnamed ?_
        have hg' := h.forth g hR hg
        rw [heq] at hg'
        rw [hg']
        have hlt := h.lt_of_ram hg
        unfold maxGfn at hlt
        unfold unsetM2pEntry invalidM2pEntry
        refine ⟨by omega, by omega, fun hgi => ?_⟩
        rw [hgi] at hR
        exact hR hin

/-! ## The new frames -/

theorem nameFrames_spec (gfn : Nat) {todo i : Nat} (hown : ∀ j, i ≤ j → j < i + todo → s.owner (mfn + j) = .self) :
    (State.nameFrames gfn mfn todo i s).p2m = s.p2m ∧
    ∀ m, (State.nameFrames gfn mfn todo i s).m2p m =
      if mfn + i ≤ m ∧ m < mfn + (i + todo) then gfn + (m - mfn) else s.m2p m := by
  induction todo generalizing i s with
  | zero =>
    refine ⟨rfl, fun m => ?_⟩
    rw [if_neg (by omega)]
    rfl
  | succ todo ih =>
    unfold State.nameFrames
    rcases ih (s := s.setGpfn (mfn + i) (gfn + i)) (i := i + 1)
      (fun j hij hj => hown j (by omega) (by omega)) with ⟨hp, hm⟩
    refine ⟨hp, fun m => ?_⟩
    rw [hm m]
    by_cases h1 : mfn + (i + 1) ≤ m ∧ m < mfn + (i + 1 + todo)
    · rw [if_pos h1, if_pos (by omega)]
    · rw [if_neg h1]
      by_cases h2 : m = mfn + i
      · rw [h2, setGpfn_self, hown i (Nat.le_refl i) (by omega), if_neg (by decide), if_pos (by omega)]
        omega
      · rw [setGpfn_of_ne _ h2, if_neg (by omega)]

theorem Entry.of_present {m : Nat} (h : t.present = true) : Entry.of m t = ⟨m, t⟩ := by
  unfold Entry.of
  rw [h, if_pos rfl]

theorem Apart.fillOther (h : Apart (Range gfn n) s) {e : Nat → Entry} (hmax : gfn + n ≤ maxGfn)
    (he : ∀ g, (e g).type.isRam = false)
    (hs : ∀ g, s'.p2m g = if gfn ≤ g ∧ g < gfn + n then e g else s.p2m g) (hm : s'.m2p = s.m2p) :
    Inv s' := by
  refine ⟨fun g _ hram => ?_, fun m hnm => ?_, fun g hg => ?_⟩
  · rw [hs] at hram ⊢
    by_cases hR : gfn ≤ g ∧ g < gfn + n
    · rw [if_pos hR, he g] at hram
      exact absurd hram Bool.false_ne_true
    · rw [if_neg hR] at hram ⊢
      rw [hm]
      exact h.forth g hR hram
  · rw [hm] at hnm ⊢
    rcases h.back m hnm with ⟨hR, hmfn, hgr⟩
    have hout : ¬(gfn ≤ s.m2p m ∧ s.m2p m < gfn + n) := hR
    rw [hs, if_neg hout]
    exact ⟨id, hmfn, hgr⟩
  · rw [hs, if_neg (by omega)]
    exact h.bound g hg

/-- The range gets frames that are mapped nowhere else, and both maps know it. -/
theorem Apart.fillOwn (h : Apart (Range gfn n) s) (hmax : gfn + n ≤ maxGfn) (hgr : t.isGrant = false)
    (halone : ∀ j < n, ∀ g, ¬Range gfn n g → (s.p2m g).type.isRam = true → (s.p2m g).mfn ≠ mfn + j)
    (hs : ∀ g, s'.p2m g = if gfn ≤ g ∧ g < gfn + n then ⟨mfn + (g - gfn), t⟩ else s.p2m g)
    (hm : ∀ m, s'.m2p m = if mfn ≤ m ∧ m < mfn + n then gfn + (m - mfn) else s.m2p m) : Inv s' := by
  refine ⟨fun g _ hram => ?_, fun m hnm => ?_, fun g hg => ?_⟩
  · rw [hs] at hram ⊢
    by_cases hR : gfn ≤ g ∧ g < gfn + n
    · rw [if_pos hR, hm, if_pos (by dsimp only; omega)]
      dsimp only
      omega
    · rw [if_neg hR] at hram ⊢
      rw [hm, if_neg]
      · exact h.forth g hR hram
      · intro hin
        refine halone ((s.p2m g).mfn - mfn) (by omega) g hR hram ?_
        omega
  · by_cases hin : mfn ≤ m ∧ m < mfn + n
    · rw [hm, if_pos hin, hs, if_pos (by omega)]
      refine ⟨id, ?_, hgr⟩
      dsimp only
      omega
    · rw [hm, if_neg hin] at hnm ⊢
      rcases h.back m hnm with ⟨hR, hmfn, hgr'⟩
      have hout : ¬(gfn ≤ s.m2p m ∧ s.m2p m < gfn + n) := hR
      rw [hs, if_neg hout]
      exact ⟨id, hmfn, hgr'⟩
  · rw [hs, if_neg (by omega)]
    exact h.bound g hg

/-! ## The calls -/

theorem Inv.removeEntry (h : Inv s) (hfine : Fine (.removeEntry gfn mfn order ok) s) :
    Inv (act (.removeEntry gfn mfn order ok) s) :=
  Apart.removePage h hfine.1 hfine.2.1 hfine.2.2

theorem Inv.addEntry (h : Inv s) (hfine : Fine (.addEntry gfn mfn order t ok) s) :
    Inv (act (.addEntry gfn mfn order t ok) s) := by
  rcases hfine with ⟨hok, hmax, hrange, hself, hnew⟩
  -- the old frames of the range
  have h0 : Apart (Range gfn 0) s := Apart.congr h fun g => ⟨fun hr => by unfold Range at hr; omega, False.elim⟩
  rcases retire_spec (2 ^ order) 0 h0 (by omega) (fun j _ hj => hrange j (by omega)) with
    ⟨s₁, pod, hret, h₁, hsame₁⟩
  simp only [Prod.mk.injEq] at hsame₁
  rw [Nat.zero_add] at h₁
  -- the old places of the frames
  rcases unalias_spec mfn (2 ^ order) (i := 0) h₁ hok (by omega) (fun j _ hj hown => by
    rw [hsame₁.2.1] at hown
    rw [hsame₁.2.2]
    exact hself j (by omega) hown) with ⟨h₂, hsame₂, -, halone⟩
  simp only [Prod.mk.injEq] at hsame₂
  unfold act State.addEntry
  dsimp only
  rw [hret]
  dsimp only
  generalize State.unalias gfn mfn ok (2 ^ order) 0 s₁ = s₂ at *
  split
  · rename_i hv
    rw [hsame₂.2, hsame₁.2.2] at hv
    rcases hnew hv with ⟨hpres, hframes⟩
    have hval : ∀ i < 2 ^ order, mfn + i ≠ invalidMfn ∧ s₂.mfnValid (mfn + i) = true := by
      intro i hi
      rw [hsame₂.2, hsame₁.2.2]
      exact ⟨(hframes i hi).1, (hframes i hi).2.1⟩
    rw [setP2mEntry_spec hok hmax (.inr hval)]
    simp only [Entry.of_present hpres]
    split
    · rename_i hgr
      refine h₂.fillOther (e := fun g => ⟨mfn + (g - gfn), t⟩) hmax (fun g => ?_) (fun g => rfl) rfl
      cases t
      case grantMapRw => rfl
      case grantMapRo => rfl
      all_goals exact absurd hgr (by decide)
    · rename_i hgr
      have hown : ∀ j < 2 ^ order, s₂.owner (mfn + j) = .self := by
        intro j hj
        rw [hsame₂.1, hsame₁.2.1]
        exact (hframes j hj).2.2.resolve_left hgr
      generalize hs₃ : ({ s₂ with
        p2m := fun g => if gfn ≤ g ∧ g < gfn + 2 ^ order then ⟨mfn + (g - gfn), t⟩ else s₂.p2m g } : State) = s₃
      have hown₃ : ∀ j, 0 ≤ j → j < 0 + 2 ^ order → s₃.owner (mfn + j) = .self := by
        intro j _ hj
        rw [← hs₃]
        exact hown j (by omega)
      rcases nameFrames_spec gfn hown₃ with ⟨hp, hm⟩
      refine h₂.fillOwn hmax (Bool.eq_false_iff.2 hgr) (fun j hj => ?_)
        (fun g => by rw [hp, ← hs₃]) fun m => ?_
      · refine halone j (Nat.zero_le j) (by omega) ?_
        rw [← hsame₂.1]
        exact hown j hj
      · rw [hm m, ← hs₃, Nat.zero_add, Nat.add_zero]
  · rw [setP2mEntry_spec hok hmax (.inl Entry.of_invalid)]
    exact h₂.fillOther (e := fun _ => .unmapped) hmax (fun _ => rfl) (fun g => rfl) rfl

theorem Inv.act (h : Inv s) (step : Step) (hfine : Fine step s) : Inv (act step s) := by
  cases step with
  | addEntry gfn mfn order t ok => exact h.addEntry hfine
  | removeEntry gfn mfn order ok => exact h.removeEntry hfine

theorem Inv.init (hapEnabled hap1gb hap2mb : Bool) (mfnValid : Nat → Bool) (owner : Nat → Owner) :
    Inv (.init hapEnabled hap1gb hap2mb mfnValid owner) := by
  refine ⟨fun g _ hram => ?_, fun m hm => ?_, fun g _ => rfl⟩
  · exact absurd hram (by decide : P2mType.isRam .mmioDm ≠ true)
  · exact absurd hm (by decide : State.names invalidM2pEntry ≠ true)

/-- In every run of fine calls the two maps agree. -/
theorem run_maps_agree (hapEnabled hap1gb hap2mb : Bool) (mfnValid : Nat → Bool) (owner : Nat → Owner)
    (steps : List Step)
    (h : Runs.Each act Fine steps (State.init hapEnabled hap1gb hap2mb mfnValid owner)) :
    Agrees (Runs.run act steps (State.init hapEnabled hap1gb hap2mb mfnValid owner)) :=
  (h.inv (fun step _ hfine hs => Inv.act hs step hfine) (Inv.init ..)).agrees

/-- A domain on a machine where it owns every frame that there is. -/
def State.owning (frames : Nat) : State :=
  .init true true true (· < frames) fun m => if m < frames then .self else .other

/-- Two frames are mapped, one of them is moved over the other, and then removed. -/
def moved : List Step :=
  [.addEntry 0 4 1 .ramRw fun _ => true, .addEntry 1 4 0 .ramRw fun _ => true,
   .removeEntry 1 4 0 fun _ => true]

theorem run_maps_agree_moved :
    ((Runs.run act (moved.take 2) (State.owning 8)).p2m 1, (Runs.run act (moved.take 2) (State.owning 8)).m2p 4) =
      (⟨4, .ramRw⟩, 1) ∧
    Agrees (Runs.run act moved (State.owning 8)) := by
  refine ⟨by decide +kernel, run_maps_agree true true true _ _ _ ⟨?_, ?_, ?_, trivial⟩⟩
  · refine ⟨fun _ => rfl, by decide, fun i hi => ⟨rfl, .inr fun m hm => ?_⟩, by decide, by decide⟩
    have hinv : invalidM2pEntry = 0 + i := hm
    unfold invalidM2pEntry at hinv
    omega
  · refine ⟨fun _ => rfl, by decide, fun i hi => ?_, by decide +kernel, by decide +kernel⟩
    have h0 : i = 0 := by omega
    rw [h0]
    exact ⟨by decide +kernel, .inl (by decide +kernel)⟩
  · refine ⟨fun _ => rfl, by decide, fun i hi => .inr (.inl ?_)⟩
    have h0 : i = 0 := by omega
    rw [h0]
    decide +kernel

/-- A superpage is mapped, and then a frame over its first one: the superpage would have to
be split, and there is no memory for the table. -/
def refused : List Step :=
  [.addEntry 0 512 9 .ramRw fun _ => true, .addEntry 0 1024 0 .ramRw fun _ => false]

/-- The old frame is still mapped and has lost its name, which the new one has got. -/
theorem refused_entry_disagrees :
    ¬Agrees (Runs.run act refused (State.owning 2048)) := by
  intro h
  have hp : (Runs.run act refused (State.owning 2048)).p2m 0 = ⟨512, .ramRw⟩ := by decide +kernel
  have hm : (Runs.run act refused (State.owning 2048)).m2p 512 = invalidM2pEntry := by decide +kernel
  have hforth := h.forth 0 512 hp
  rw [hm] at hforth
  exact absurd hforth (by decide)

end P2m
