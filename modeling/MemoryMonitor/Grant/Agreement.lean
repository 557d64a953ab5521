import MemoryMonitor.Grant.Batch

/-!
# Pins, mappings and free lists in every run

The runs of map requests, batches of unmap requests and releases of dying
domains, in any order and by any domains. `Step.Clean` is what a run has to
respect for the ledger to stay right: it excludes the two cases of a batch that
`CleanBatch` describes. A release takes mappings down without giving their
handles back, since the whole maptrack table goes with the domain; these handles
are `Abandoned`.
-/

namespace Grant

open World

/-! ## Releasing the mappings of a domain -/

namespace Track

variable {P : Platform} {held : Domid → Nat → Prop} {t : Track} {d : Domid} {h : Nat}

/-- Take down the whole mapping of a handle. -/
def release (t : Track) (d : Domid) (h : Nat) : Track :=
  let m := t.maptrack (d, h)
  (t.setPin m.key (subPin m.flags (t.pin m.key))).blank d h

theorem drop_maptrack_self (t : Track) (device : Bool) (d : Domid) (h : Nat) :
    (t.drop device d h).maptrack (d, h) =
      (t.maptrack (d, h)).withFlags (clearHalf device (t.maptrack (d, h)).flags) :=
  maptrack_setMapping_self _ _ _

theorem release_one {device : Bool} (hone : hasHalf device (t.maptrack (d, h)).flags = true)
    (hno : hasHalf (!device) (t.maptrack (d, h)).flags = false) :
    t.release d h = (t.drop device d h).blank d h := by
  have hpin : subPin (t.maptrack (d, h)).flags (t.pin (t.maptrack (d, h)).key) =
      t.pin (t.maptrack (d, h)).key - pinInc device (isReadonly (t.maptrack (d, h)).flags) := by
    unfold subPin
    cases device
    · have h1 : isHost (t.maptrack (d, h)).flags = true := hone
      have h2 : isDevice (t.maptrack (d, h)).flags = false := hno
      simp only [h1, h2, Bool.false_eq_true, if_true, if_false]
    · have h1 : isDevice (t.maptrack (d, h)).flags = true := hone
      have h2 : isHost (t.maptrack (d, h)).flags = false := hno
      simp only [h1, h2, Bool.false_eq_true, if_true, if_false]
  unfold release drop blank
  dsimp only
  rw [hpin]
  simp only [setPin, setMapping, Function.update_self, Function.update_idem,
    GrantMapping.withFlags]

/-- One with both halves by taking down one after the other. -/
theorem release_both (hdev : isDevice (t.maptrack (d, h)).flags = true)
    (hhost : isHost (t.maptrack (d, h)).flags = true) :
    t.release d h = ((t.drop true d h).drop false d h).blank d h := by
  have hro := isReadonly_clearHalf true (t.maptrack (d, h)).flags
  unfold release subPin
  simp only [hdev, hhost, if_true]
  unfold drop blank
  simp only [setPin, setMapping, Function.update_self, Function.update_idem,
    GrantMapping.withFlags, GrantMapping.key, hro]

theorem Inv.release (inv : Inv P held t) (hd : d ∈ P.domains) (hh : h < t.limit d)
    (hlive : Live (t.maptrack (d, h)).flags) :
    Inv P (fun d' h' => held d' h' ∨ (d', h') = (d, h)) (t.release d h) := by
  -- once neither half is left, the handle is withheld and can be blanked
  have hfinish : ∀ {t' : Track}, Inv P (heldAfter held t' d h) t' →
      ¬ Live (t'.maptrack (d, h)).flags →
      Inv P (fun d' h' => held d' h' ∨ (d', h') = (d, h)) (t'.blank d h) := by
    intro t' inv' hdead
    have hheld : heldAfter held t' d h d h := Or.inr ⟨rfl, hdead⟩
    refine (inv'.blank hd hheld).congr fun d' h' => ?_
    constructor
    · rintro (hold | ⟨heq, -⟩)
      · exact Or.inl hold
      · exact Or.inr heq
    · rintro (hold | heq)
      · exact Or.inl hold
      · exact Or.inr ⟨heq, hdead⟩
  have hone : ∀ device, hasHalf device (t.maptrack (d, h)).flags = true →
      hasHalf (!device) (t.maptrack (d, h)).flags = false →
      Inv P (fun d' h' => held d' h' ∨ (d', h') = (d, h)) (t.release d h) := by
    intro device hhalf hno
    rw [release_one hhalf hno]
    refine hfinish (inv.drop hd hh hhalf) ?_
    rw [drop_maptrack_self, live_iff]
    rintro ⟨device', hleft⟩
    change hasHalf device' (clearHalf device _) = true at hleft
    rw [hasHalf_clearHalf] at hleft
    cases device <;> cases device' <;> simp_all
  cases hdev : isDevice (t.maptrack (d, h)).flags <;>
    cases hhost : isHost (t.maptrack (d, h)).flags
  · exact absurd hlive ((not_live_iff _).mpr ⟨hdev, hhost⟩)
  · exact hone false hhost hdev
  · exact hone true hdev hhost
  · rw [release_both hdev hhost]
    have hfirst : (t.drop true d h).maptrack (d, h) = _ := drop_maptrack_self t true d h
    have hhalf : hasHalf false ((t.drop true d h).maptrack (d, h)).flags = true := by
      rw [hfirst]
      change hasHalf false (clearHalf true _) = true
      rw [hasHalf_clearHalf, Bool.and_eq_true]
      exact ⟨hhost, rfl⟩
    have hstill : Live ((t.drop true d h).maptrack (d, h)).flags := (live_iff _).mpr ⟨false, hhalf⟩
    have hdev' : hasHalf true (t.maptrack (d, h)).flags = true := hdev
    have inv₁ : Inv P held (t.drop true d h) := by
      refine (inv.drop hd hh hdev').congr fun d' h' => ?_
      constructor
      · rintro (hold | ⟨-, hdead⟩)
        · exact hold
        · exact absurd hstill hdead
      · exact Or.inl
    refine hfinish (inv₁.drop hd hh hhalf) ?_
    rw [drop_maptrack_self, hfirst, live_iff]
    rintro ⟨device', hleft⟩
    change hasHalf device' (clearHalf false (clearHalf true _)) = true at hleft
    rw [hasHalf_clearHalf, hasHalf_clearHalf] at hleft
    cases device' <;> simp at hleft

end Track

section Release

variable {P : Platform} {held : Domid → Nat → Prop} {w w' : World} {d : Domid}

theorem onlyRefs_releaseRefs (d : Domid) (m : GrantMapping) (frame : Frame) (w : World) :
    OnlyRefs w (releaseRefs P d m frame w) := by
  have hrefl := OnlyRefs.refl w
  have hdevice : OnlyRefs w (if isDevice m.flags ∧ P.isIomemPage frame = false then
      (if isReadonly m.flags then w else w.moveType frame (-1)).movePage frame (-1) else w) :=
    .ite ((OnlyRefs.ite hrefl (hrefl.moveType frame (-1))).movePage frame (-1)) hrefl
  exact .ite ((OnlyRefs.ite (hdevice.moveType frame (-1)) hdevice).movePage frame (-1)) hdevice

theorem track_releaseHandle {h : Nat} (hlive : Live (w.maptrack (d, h)).flags)
    (hdom : (w.maptrack (d, h)).domid ∈ P.domains) :
    (releaseHandle P d w h).track = w.track.release d h := by
  unfold releaseHandle
  dsimp only
  rw [if_neg fun hdead => (not_live_iff _).mpr hdead hlive, if_neg (not_not.mpr hdom),
    track_setMapping]
  split_ifs <;> simp only [track_clearStatus, (onlyRefs_releaseRefs ..).track, track_setPin] <;> rfl

theorem releaseHandle_of_not_live {h : Nat} (hdead : ¬ Live (w.maptrack (d, h)).flags) :
    releaseHandle P d w h = w :=
  if_pos ((not_live_iff _).mp hdead)

/-- The loop of a release after the handles below `n`: those of them that were
live have been taken down and are withheld. -/
structure Releasing (P : Platform) (held : Domid → Nat → Prop) (d : Domid) (n : Nat)
    (w w' : World) : Prop where
  inv : w'.track.Inv P fun d' h => held d' h ∨ (d' = d ∧ h < n ∧ Live (w.maptrack (d, h)).flags)
  limit : w'.maptrackLimit = w.maptrackLimit
  rest : ∀ s, s.1 = d → s.2 < n → (w'.maptrack s).flags = 0 ∨ w'.maptrack s = w.maptrack s
  taken : ∀ h < n, Live (w.maptrack (d, h)).flags → (w'.maptrack (d, h)).flags = 0
  kept : ∀ s, s.1 ≠ d ∨ n ≤ s.2 → w'.maptrack s = w.maptrack s

theorem Releasing.step {n : Nat} (h : Releasing P held d n w w') (hd : d ∈ P.domains)
    (hn : n < w.maptrackLimit d) : Releasing P held d (n + 1) w (releaseHandle P d w' n) := by
  have hsame : w'.maptrack (d, n) = w.maptrack (d, n) := h.kept _ (Or.inr (Nat.le_refl n))
  by_cases hlive : Live (w.maptrack (d, n)).flags
  · have hlive' : Live (w'.track.maptrack (d, n)).flags := by
      change Live (w'.maptrack (d, n)).flags
      rw [hsame]
      exact hlive
    have hn' : n < w'.track.limit d := by
      change n < w'.maptrackLimit d
      rw [h.limit]
      exact hn
    have hnamed := h.inv.named d hd n hn' hlive'
    have htrack := track_releaseHandle (P := P) hlive' hnamed.1
    have hmap : (releaseHandle P d w' n).maptrack = (w'.track.release d n).maptrack :=
      congrArg Track.maptrack htrack
    have hself : ((releaseHandle P d w' n).maptrack (d, n)).flags = 0 := by
      rw [hmap]
      unfold Track.release Track.blank
      rw [Track.maptrack_setMapping_self]
      rfl
    have hother : ∀ s, s ≠ (d, n) → (releaseHandle P d w' n).maptrack s = w'.maptrack s := by
      intro s hs
      rw [hmap]
      exact Track.maptrack_setMapping_of_ne _ _ hs
    constructor
    · rw [htrack]
      refine (h.inv.release hd hn' hlive').congr fun d' x => ?_
      constructor
      · rintro ((hheld | ⟨rfl, hx, hl⟩) | heq)
        · exact Or.inl hheld
        · exact Or.inr ⟨rfl, by omega, hl⟩
        · obtain ⟨rfl, rfl⟩ := Prod.mk.inj heq
          exact Or.inr ⟨rfl, by omega, hlive⟩
      · rintro (hheld | ⟨rfl, hx, hl⟩)
        · exact Or.inl (Or.inl hheld)
        · by_cases hxn : x = n
          · exact Or.inr (by rw [hxn])
          · exact Or.inl (Or.inr ⟨rfl, by omega, hl⟩)
    · have hlimit : (releaseHandle P d w' n).maptrackLimit = w'.maptrackLimit :=
        congrArg Track.limit htrack
      rw [hlimit]
      exact h.limit
    · rintro ⟨d', x⟩ rfl hx
      by_cases hxn : x = n
      · rw [hxn]
        exact Or.inl hself
      · rw [hother _ fun heq => hxn (Prod.mk.inj heq).2]
        exact h.rest _ rfl (by change x < n; change x < n + 1 at hx; omega)
    · intro x hx hl
      by_cases hxn : x = n
      · rw [hxn]
        exact hself
      · rw [hother _ fun heq => hxn (Prod.mk.inj heq).2]
        exact h.taken x (by omega) hl
    · rintro ⟨d', x⟩ hs
      have hne : (d', x) ≠ (d, n) := by
        intro heq
        obtain ⟨rfl, rfl⟩ := Prod.mk.inj heq
        rcases hs with hs | hs
        · exact hs rfl
        · exact absurd hs (by change ¬ x + 1 ≤ x; omega)
      rw [hother _ hne]
      refine h.kept _ (hs.imp_right fun hle => ?_)
      change n ≤ x
      change n + 1 ≤ x at hle
      omega
  · have hdead : ¬ Live (w'.maptrack (d, n)).flags := by
      rw [hsame]
      exact hlive
    rw [releaseHandle_of_not_live hdead]
    constructor
    · refine h.inv.congr fun d' x => ?_
      constructor
      · rintro (hheld | ⟨rfl, hx, hl⟩)
        · exact Or.inl hheld
        · exact Or.inr ⟨rfl, by omega, hl⟩
      · rintro (hheld | ⟨rfl, hx, hl⟩)
        · exact Or.inl hheld
        · have hxn : x ≠ n := by
            rintro rfl
            exact hlive hl
          exact Or.inr ⟨rfl, by omega, hl⟩
    · exact h.limit
    · rintro ⟨d', x⟩ rfl hx
      by_cases hxn : x = n
      · rw [hxn]
        exact Or.inr hsame
      · exact h.rest _ rfl (by change x < n; change x < n + 1 at hx; omega)
    · intro x hx hl
      have hxn : x ≠ n := by
        rintro rfl
        exact hlive hl
      exact h.taken x (by omega) hl
    · rintro ⟨d', x⟩ hs
      refine h.kept _ (hs.imp_right fun hle => ?_)
      change n ≤ x
      change n + 1 ≤ x at hle
      omega

theorem Releasing.run (inv : w.track.Inv P held) (hd : d ∈ P.domains) :
    ∀ n ≤ w.maptrackLimit d,
      Releasing P held d n w ((List.range n).foldl (releaseHandle P d) w)
  | 0, _ => by
      refine ⟨inv.congr fun d' h => ?_, rfl, ?_, ?_, fun _ _ => rfl⟩
      · simp
      · exact fun s _ hs => absurd hs (Nat.not_lt_zero _)
      · exact fun h hh => absurd hh (Nat.not_lt_zero _)
  | n + 1, hn => by
      rw [List.range_succ, List.foldl_append]
      exact (Releasing.run inv hd n (by omega)).step hd (by omega)

/-- A release withholds the handles that were live. -/
theorem releaseMappings_releasing (inv : w.track.Inv P held) (hd : d ∈ P.domains) :
    Releasing P held d (w.maptrackLimit d) w (releaseMappings P d w) :=
  Releasing.run inv hd _ (Nat.le_refl _)

end Release

/-! ## Runs -/

/-- What can happen to the grant tables: a guest stores into its own shared
entries, a map request, a batch of unmap requests by `ld`, the release of the
mappings of a dying domain. A hypercall with more requests than a batch holds is
several batches. -/
inductive Step where
  | store (k : EntryKey) (entry : SharedEntry)
  | map (env : MapEnv) (ld : Domid) (op : MapGrantRef)
  | unmap (ld : Domid) (ops : List (UnmapEnv × UnmapOp)) (hsize : ops.length ≤ unmapBatchSize)
  | release (d : Domid)

def Step.run (P : Platform) : Step → World → World
  | .store k entry, w => { w with shared := Function.update w.shared k entry }
  | .map env ld op, w => (mapGrantRef P env ld op w).2
  | .unmap ld ops _, w => unmapBatch P ld ops w
  | .release d, w => releaseMappings P d w

/-- The step is by a domain that exists, and a batch is clean. -/
def Step.Clean (P : Platform) : Step → World → Prop
  | .store .., _ => True
  | .map _ ld _, _ => ld ∈ P.domains
  | .unmap ld ops _, w => ld ∈ P.domains ∧ CleanBatch P ld ops w
  | .release d, _ => d ∈ P.domains

/-- The handles a step takes down without giving them back. -/
def Step.Abandons : Step → World → Domid → Nat → Prop
  | .release d, w => fun d' h => d' = d ∧ h < w.maptrackLimit d ∧ Live (w.maptrack (d, h)).flags
  | _, _ => fun _ _ => False

/-- The handles a run has abandoned. -/
def Abandoned (P : Platform) : List Step → World → Domid → Nat → Prop
  | [], _ => fun _ _ => False
  | s :: rest, w => fun d h => s.Abandons w d h ∨ Abandoned P rest (s.run P w) d h

/-- The ledger is right, with the handles in `held` withheld and blank. -/
structure Ledger (P : Platform) (held : Domid → Nat → Prop) (w : World) : Prop where
  inv : w.track.Inv P held
  blank : ∀ d h, held d h → (w.maptrack (d, h)).flags = 0

section Ledger

variable {P : Platform} {held : Domid → Nat → Prop} {w : World}

theorem Ledger.map (l : Ledger P held w) (env : MapEnv) {ld : Domid} (op : MapGrantRef)
    (hld : ld ∈ P.domains) : Ledger P held (mapGrantRef P env ld op w).2 := by
  obtain ⟨t, ht, hout⟩ := (mapGrantRef_cases (P := P) env ld op w).track
  have inv : t.Inv P held := by
    rcases ht with rfl | rfl
    · exact l.inv
    · exact l.inv.grow ld
  have hblank : ∀ d h, held d h → (t.maptrack (d, h)).flags = 0 := by
    intro d h hheld
    rcases ht with rfl | rfl
    · exact l.blank d h hheld
    · rw [Track.grow_maptrack_of_lt _ ld (l.inv.withheld d h hheld).1]
      exact l.blank d h hheld
  rcases hout with ⟨-, hsame⟩ | ⟨-, hne, hlive, hdom, hversion, hroom, hrec⟩
  · constructor
    · rw [hsame]
      exact inv
    · have hmap := congrArg Track.maptrack hsame
      intro d h hheld
      exact (congrArg GrantMapping.flags (congrFun hmap (d, h))).trans (hblank d h hheld)
  · have hlive' : Live (op.flags.setWidth 16) := by
      simpa [Live, isDevice, isHost] using hlive
    constructor
    · rw [hrec]
      exact inv.record hld hne hlive' hdom hversion hroom
    · have hmap := congrArg Track.maptrack hrec
      intro d h hheld
      have hother : (d, h) ≠ (ld, t.head ld) := by
        intro heq
        obtain ⟨rfl, rfl⟩ := Prod.mk.inj heq
        exact (inv.head_free hld).2.2 hheld
      refine (congrArg GrantMapping.flags (congrFun hmap (d, h))).trans ?_
      rw [Track.record, Track.maptrack_setMapping_of_ne _ _ hother]
      exact hblank d h hheld

theorem Ledger.unmap (l : Ledger P held w) {ld : Domid} {ops : List (UnmapEnv × UnmapOp)}
    (hld : ld ∈ P.domains) (clean : CleanBatch P ld ops w) :
    Ledger P held (unmapBatch P ld ops w) := by
  have hdone := (clean.completing l.inv hld l.blank).run _ hld
  constructor
  · refine hdone.inv.congr fun d h => ?_
    simp [heldMid]
  · exact hdone.blank

theorem Ledger.release (l : Ledger P held w) {d : Domid} (hd : d ∈ P.domains) :
    Ledger P (fun d' h => held d' h ∨ (Step.release d).Abandons w d' h)
      (releaseMappings P d w) := by
  have hrel := releaseMappings_releasing l.inv hd
  constructor
  · exact hrel.inv
  · rintro d' h (hheld | ⟨rfl, hlt, hlive⟩)
    · by_cases hd' : d' = d
      · subst hd'
        rcases hrel.rest (d', h) rfl (l.inv.withheld d' h hheld).1 with h0 | hsame
        · exact h0
        · rw [hsame]
          exact l.blank d' h hheld
      · rw [hrel.kept _ (Or.inl hd')]
        exact l.blank d' h hheld
    · exact hrel.taken h hlt hlive

theorem Ledger.step (l : Ledger P held w) {s : Step} (clean : s.Clean P w) :
    Ledger P (fun d h => held d h ∨ s.Abandons w d h) (s.run P w) := by
  have hnone : ∀ {w' : World}, Ledger P held w' →
      Ledger P (fun d h => held d h ∨ False) w' := by
    intro w' l'
    refine ⟨l'.inv.congr fun d h => by simp, fun d h hheld => l'.blank d h ?_⟩
    simpa using hheld
  cases s with
  | store k entry => exact hnone ⟨l.inv, l.blank⟩
  | map env ld op => exact hnone (l.map env op clean)
  | unmap ld ops hsize => exact hnone (l.unmap clean.1 clean.2)
  | release d => exact l.release clean

theorem Ledger.run {steps : List Step} {held : Domid → Nat → Prop} {w : World}
    (l : Ledger P held w) (clean : Runs.Each (Step.run P) (Step.Clean P) steps w) :
    Ledger P (fun d h => held d h ∨ Abandoned P steps w d h) (Runs.run (Step.run P) steps w) := by
  induction steps generalizing held w with
  | nil =>
      refine ⟨l.inv.congr fun d h => by simp [Abandoned], fun d h hheld => l.blank d h ?_⟩
      simpa [Abandoned] using hheld
  | cons s rest ih =>
      have hrest := ih (l.step clean.1) clean.2
      have hor : ∀ d h, ((held d h ∨ s.Abandons w d h) ∨ Abandoned P rest (s.run P w) d h) ↔
          (held d h ∨ Abandoned P (s :: rest) w d h) := fun d h => or_assoc
      exact ⟨hrest.inv.congr hor, fun d h hheld => hrest.blank d h ((hor d h).mpr hheld)⟩

end Ledger

/-! ## Agreement -/

/-- The tables as `grant_table_create` leaves them, with no page referenced yet. -/
structure Created (w : World) : Prop where
  pin : ∀ k, (w.active k).pin = 0
  maptrack : ∀ d, ∀ h < maptrackPerPage, w.maptrack (d, h) = ⟨h + 1, 0, 0⟩
  head : ∀ d, w.maptrackHead d = 0
  limit : ∀ d, w.maptrackLimit d = maptrackPerPage
  pageRefs : ∀ f, w.pageRefs f = 0
  typeRefs : ∀ f, w.typeRefs f = 0

/-- Two domains with tables of version 1, as they are created. -/
def twoDomains : Platform where
  domains := {0, 1}
  gtVersion _ := .v1
  nrGrantFrames _ := 1
  pagingModeExternal _ := false
  isHvmDomain _ := false
  needIommu _ := false
  isIomemPage _ := false
  mfnValid _ := true
  maxNrGrantFrames := 32

def createdWorld : World where
  shared _ := ⟨⟨0, 0⟩, 0, 0, 0⟩
  status _ := 0
  active _ := ⟨0, 0, 0, 0, 0, 0, false, 0, 0⟩
  maptrack s := ⟨s.2 + 1, 0, 0⟩
  maptrackHead _ := 0
  maptrackLimit _ := maptrackPerPage
  pageRefs _ := 0
  typeRefs _ := 0

/-- Calls that all succeed. -/
def smoothMap : MapEnv :=
  ⟨true, true, [], fun gfn _ => .ok gfn, .granting, true, true, .okay, true, true, true⟩

def smoothUnmap : UnmapEnv :=
  ⟨true, fun _ _ _ _ => .okay, true, .okay⟩

/-- Entry 5 of domain 0, granted to domain 1. -/
def grantFive : Step := .store (0, 5) ⟨⟨gtfPermitAccess, 1⟩, 0, 0, 7⟩

/-- Domain 1 maps it with these flags. -/
def mapFive (flags : BitVec 32) : Step := .map smoothMap 1 ⟨4096, flags, 5, 0⟩

theorem Created.ledger {P : Platform} {w : World} (h : Created w) :
    Ledger P (fun _ _ => False) w :=
  ⟨Track.Inv.initial P h.pin h.maptrack h.head h.limit, fun _ _ hheld => hheld.elim⟩

/-- Pins, mappings and free lists agree, with the handles in `lost` in neither
use nor list. -/
structure Agrees (P : Platform) (lost : Domid → Nat → Prop) (w : World) : Prop where
  /-- Each counter of each pin word counts the live mappings it stands for. -/
  pins : ∀ k, k.1 ∈ P.domains → ∀ device readonly,
    Lanes.lane (w.active k).pin (pinLane device readonly) =
      w.track.liveCount P device readonly k
  /-- The free list runs from the head to the last handle, without repetition,
  through the unused handles. -/
  free : ∀ d ∈ P.domains, ∃ l,
    FreeList (fun h => (w.maptrack (d, h)).ref) (w.maptrackHead d) (w.maptrackLimit d - 1) l ∧
      ∀ h, h ∈ l ↔ h < w.maptrackLimit d ∧ (w.maptrack (d, h)).flags = 0 ∧ ¬ lost d h
  /-- A handle in use has a half that is mapped. -/
  used : ∀ d ∈ P.domains, ∀ h < w.maptrackLimit d, (w.maptrack (d, h)).flags ≠ 0 →
    Live (w.maptrack (d, h)).flags

theorem Ledger.agrees {P : Platform} {held : Domid → Nat → Prop} {w : World}
    (l : Ledger P held w) : Agrees P held w := by
  constructor
  · exact l.inv.pins
  · exact l.inv.free
  · intro d hd h hh hflags
    rcases l.inv.used d hd h hh hflags with hlive | hheld
    · exact hlive
    · exact absurd (l.blank d h hheld) hflags

/-- A withheld handle is missing from the free list. -/
theorem Ledger.not_agrees {P : Platform} {held : Domid → Nat → Prop} {w : World} {d : Domid}
    {h : Nat} (l : Ledger P held w) (hd : d ∈ P.domains) (hheld : held d h) :
    ¬ Agrees P (fun _ _ => False) w := by
  intro agrees
  obtain ⟨xs, hxs, hmem⟩ := agrees.free d hd
  obtain ⟨ys, hys, hmem'⟩ := l.inv.free d hd
  -- both are the path from the head, and only one of them has the handle
  have hsame : xs = ys := hxs.unique hys
  have hin : h ∈ xs :=
    (hmem h).mpr ⟨(l.inv.withheld d h hheld).1, l.blank d h hheld, fun hno => hno⟩
  rw [hsame] at hin
  exact ((hmem' h).mp hin).2.2 hheld

/-- In every run of clean steps pins, mappings and free lists agree, up to the
handles abandoned by releases. -/
theorem run_agrees {P : Platform} {w : World} {steps : List Step} (created : Created w)
    (clean : Runs.Each (Step.run P) (Step.Clean P) steps w) :
    Agrees P (Abandoned P steps w) (Runs.run (Step.run P) steps w) := by
  have l := created.ledger.run clean
  refine (Ledger.agrees ⟨l.inv.congr fun d h => ?_, fun d h hheld => l.blank d h ?_⟩)
  · exact false_or _ ▸ Iff.rfl
  · exact Or.inr hheld

theorem one_mem_domains : (1 : Domid) ∈ twoDomains.domains := by
  decide

theorem createdWorld_created : Created createdWorld :=
  ⟨fun _ => rfl, fun _ _ _ => rfl, fun _ => rfl, fun _ => rfl, fun _ => rfl, fun _ => rfl⟩

/-- A mapping that comes and goes. -/
theorem run_agrees_map_unmap :
    Agrees twoDomains
      (Abandoned twoDomains
        [grantFive, mapFive 2, .unmap 1 [(smoothUnmap, .unmapGrantRef 4096 0 0)] (by decide)]
        createdWorld)
      (Runs.run (Step.run twoDomains)
        [grantFive, mapFive 2, .unmap 1 [(smoothUnmap, .unmapGrantRef 4096 0 0)] (by decide)]
        createdWorld) := by
  refine run_agrees createdWorld_created
    ⟨trivial, one_mem_domains, ⟨one_mem_domains, ?_, ?_⟩, trivial⟩
  · exact List.pairwise_singleton _ _
  · exact ⟨fun _ _ _ => rfl, trivial⟩

/-- After a release the handle of a mapping is in neither use nor list. -/
theorem released_handle_lost :
    Created createdWorld ∧
      ¬ Agrees twoDomains (fun _ _ => False)
        (Runs.run (Step.run twoDomains) [grantFive, mapFive 2, .release 1] createdWorld) := by
  refine ⟨createdWorld_created, fun agrees => ?_⟩
  have clean : Runs.Each (Step.run twoDomains) (Step.Clean twoDomains)
      [grantFive, mapFive 2, .release 1] createdWorld :=
    ⟨trivial, one_mem_domains, one_mem_domains, trivial⟩
  have l := createdWorld_created.ledger.run clean
  have hlost : Abandoned twoDomains [grantFive, mapFive 2, .release 1] createdWorld 1 0 := by
    refine Or.inr (Or.inr (Or.inl ⟨rfl, by decide, ?_⟩))
    decide
  exact l.not_agrees one_mem_domains (Or.inr hlost) agrees

end Grant
