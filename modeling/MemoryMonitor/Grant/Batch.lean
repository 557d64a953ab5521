import MemoryMonitor.Grant.Pins
import MemoryMonitor.Lib.Runs

/-!
# Batches of unmap requests

A batch runs the first halves of its requests, in order, and then their second
halves, in order. The second half reads the maptrack entry again. That is sound
as long as no handle is accepted twice by a batch that leaves it with neither
half (`SplitFree`): then every handle that is taken down completely is freed by
the one request that did it.

`FirstHalf` lists everything a first half can do. `Completing` is the invariant
of the second phase: what the requests still to be completed know about their
maptrack entries.
-/

namespace Grant

open World

variable {P : Platform} {w w' : World}

/-! ## The first half -/

/-- The request names a live maptrack entry of a domain that exists. -/
structure Accepted (P : Platform) (ld : Domid) (op : UnmapOp) (w : World) : Prop where
  bound : op.handle < w.maptrackLimit ld
  flags : (w.maptrack (ld, op.handle)).flags ≠ 0
  domain : (w.maptrack (ld, op.handle)).domid ∈ P.domains

/-- The frame of the bus address. -/
def UnmapOp.busFrame (op : UnmapOp) : Frame := op.devBusAddr >>> 12

/-- The mapping a request names. -/
def UnmapOp.mapping (op : UnmapOp) (ld : Domid) (w : World) : GrantMapping :=
  w.maptrack (ld, op.handle)

/-- The frame of the entry it is of. -/
def UnmapOp.frame (op : UnmapOp) (ld : Domid) (w : World) : Frame :=
  (w.active (op.mapping ld w).key).frame

/-- The device half goes when the bus address is given. -/
def UnmapOp.TakesDevice (op : UnmapOp) (ld : Domid) (w : World) : Prop :=
  op.busFrame ≠ 0 ∧ isDevice (op.mapping ld w).flags = true

/-- The host half goes when the host address is given. -/
def UnmapOp.TakesHost (op : UnmapOp) (ld : Domid) (w : World) : Prop :=
  op.hostAddr ≠ 0 ∧ isHost (op.mapping ld w).flags = true

instance (op : UnmapOp) (ld : Domid) (w : World) : Decidable (op.TakesDevice ld w) :=
  inferInstanceAs (Decidable (_ ∧ _))

instance (op : UnmapOp) (ld : Domid) (w : World) : Decidable (op.TakesHost ld w) :=
  inferInstanceAs (Decidable (_ ∧ _))

def dropDevice (op : UnmapOp) (ld : Domid) (w : World) : World :=
  if op.TakesDevice ld w then dropHalf true ld op.handle (op.mapping ld w).flags w else w

def dropHost (op : UnmapOp) (ld : Domid) (w v : World) : World :=
  if op.TakesHost ld w then dropHalf false ld op.handle (op.mapping ld w).flags v else v

/-- Everything the first half of an unmap can do. -/
inductive FirstHalf (P : Platform) (env : UnmapEnv) (ld : Domid) (op : UnmapOp) (w : World) :
    UnmapCommon × World → Prop
  | rejected (c : UnmapCommon) (hop : c.op = op) (hrd : c.rd = none) :
      FirstHalf P env ld op w (c, w)
  | denied (acc : Accepted P ld op w) (hxsm : env.xsm = false) :
      FirstHalf P env ld op w
        (⟨op, .permissionDenied, (op.mapping ld w).flags, op.busFrame,
          some (op.mapping ld w).domid⟩, w)
  | mismatch (acc : Accepted P ld op w) (hxsm : env.xsm = true)
      (hbus : op.busFrame ≠ 0) (hne : op.busFrame ≠ op.frame ld w) :
      FirstHalf P env ld op w
        (⟨op, .generalError, (op.mapping ld w).flags, op.busFrame,
          some (op.mapping ld w).domid⟩, w)
  | replaceFailed (acc : Accepted P ld op w) (hxsm : env.xsm = true)
      (hbus : op.busFrame ≠ 0 → op.busFrame = op.frame ld w)
      (hhost : op.TakesHost ld w) (rc : Gntst) (hrc : rc ≠ .okay) :
      FirstHalf P env ld op w
        (⟨op, rc, (op.mapping ld w).flags, op.frame ld w, some (op.mapping ld w).domid⟩,
          dropDevice op ld w)
  | done (acc : Accepted P ld op w) (hxsm : env.xsm = true)
      (hbus : op.busFrame ≠ 0 → op.busFrame = op.frame ld w) (status : Gntst)
      (hstatus : status = .okay ∨ (P.isHvmDomain ld = false ∧ P.needIommu ld = true ∧
        env.iommu = false)) :
      FirstHalf P env ld op w
        (⟨op, status, (op.mapping ld w).flags, op.frame ld w, some (op.mapping ld w).domid⟩,
          dropHost op ld w (dropDevice op ld w))

theorem unmapIommuFails_of {env : UnmapEnv} {ld : Domid} {frame : Frame}
    (h : unmapIommuFails P env ld frame w = true) :
    P.isHvmDomain ld = false ∧ P.needIommu ld = true ∧ env.iommu = false := by
  unfold unmapIommuFails at h
  split at h
  · next hio =>
      refine ⟨hio.1, hio.2, ?_⟩
      dsimp only at h
      split at h
      · simpa using h
      · split at h
        · simpa using h
        · cases h
  · cases h

theorem unmapCommon_cases (env : UnmapEnv) (ld : Domid) (op : UnmapOp) (w : World) :
    FirstHalf P env ld op w (unmapCommon P env ld op w) := by
  unfold unmapCommon
  dsimp only
  split
  · exact .rejected _ rfl rfl
  · next hbound =>
      split
      · exact .rejected _ rfl rfl
      · next hflags =>
          split
          · exact .rejected _ rfl rfl
          · next hdomain =>
              have acc : Accepted P ld op w :=
                ⟨Nat.lt_of_not_le hbound, hflags, not_not.mp hdomain⟩
              split
              · next hxsm => exact .denied acc hxsm
              · next hxsm =>
                  have hxsm' : env.xsm = true := by simpa using hxsm
                  have hdev : (if op.devBusAddr >>> 12 ≠ 0 ∧
                        isDevice (w.maptrack (ld, op.handle)).flags = true then
                      dropHalf true ld op.handle (w.maptrack (ld, op.handle)).flags w else w) =
                      dropDevice op ld w := rfl
                  unfold unmapLocked
                  dsimp only
                  rw [hdev]
                  split
                  · next hmis => exact .mismatch acc hxsm' hmis.1 hmis.2
                  · next hmis =>
                      have hbus : op.busFrame ≠ 0 → op.busFrame = op.frame ld w := by
                        intro hne
                        by_contra hdiff
                        exact hmis ⟨hne, hdiff⟩
                      by_cases hhost : op.TakesHost ld w
                      · have hdrop : dropHost op ld w (dropDevice op ld w) =
                            dropHalf false ld op.handle (w.maptrack (ld, op.handle)).flags
                              (dropDevice op ld w) := if_pos hhost
                        have hhost' : op.hostAddr ≠ 0 ∧
                          isHost (w.maptrack (ld, op.handle)).flags = true := hhost
                        simp only [if_pos hhost', ← hdrop]
                        split
                        · next hrc => exact .replaceFailed acc hxsm' hbus hhost _ hrc
                        · split
                          · next hio =>
                              exact .done acc hxsm' hbus _ (Or.inr (unmapIommuFails_of hio))
                          · exact .done acc hxsm' hbus _ (Or.inl rfl)
                      · have hdrop : dropHost op ld w (dropDevice op ld w) = dropDevice op ld w :=
                          if_neg hhost
                        have hhost' : ¬ (op.hostAddr ≠ 0 ∧
                          isHost (w.maptrack (ld, op.handle)).flags = true) := hhost
                        simp only [if_neg hhost', ne_eq, not_true_eq_false, if_false]
                        rw [← hdrop]
                        split
                        · next hio =>
                            exact .done acc hxsm' hbus _ (Or.inr (unmapIommuFails_of hio))
                        · exact .done acc hxsm' hbus _ (Or.inl rfl)

/-! ## What a first half leaves alone -/

/-- `w'` differs from `w` in pins and in halves of mappings only. -/
structure Halved (w w' : World) : Prop where
  limit : w'.maptrackLimit = w.maptrackLimit
  head : w'.maptrackHead = w.maptrackHead
  key : ∀ s, (w'.maptrack s).key = (w.maptrack s).key
  live : ∀ s, Live (w'.maptrack s).flags → Live (w.maptrack s).flags
  entry : ∀ k, { w'.active k with pin := (w.active k).pin } = w.active k
  shared : w'.shared = w.shared
  status : w'.status = w.status
  pageRefs : w'.pageRefs = w.pageRefs
  typeRefs : w'.typeRefs = w.typeRefs

theorem Halved.refl (w : World) : Halved w w :=
  ⟨rfl, rfl, fun _ => rfl, fun _ h => h, fun _ => rfl, rfl, rfl, rfl, rfl⟩

theorem Halved.trans {w₁ w₂ w₃ : World} (h : Halved w₁ w₂) (h' : Halved w₂ w₃) :
    Halved w₁ w₃ := by
  refine ⟨h'.limit.trans h.limit, h'.head.trans h.head, fun s => (h'.key s).trans (h.key s),
    fun s hs => h.live s (h'.live s hs), fun k => ?_, h'.shared.trans h.shared,
    h'.status.trans h.status, h'.pageRefs.trans h.pageRefs, h'.typeRefs.trans h.typeRefs⟩
  rw [← h.entry k, ← h'.entry k]

theorem Halved.frame (h : Halved w w') (k : EntryKey) :
    (w'.active k).frame = (w.active k).frame := by
  rw [← h.entry k]

theorem live_of_clearHalf {device : Bool} {flags : BitVec 16} (h : Live (clearHalf device flags)) :
    Live flags := by
  rw [live_iff] at h ⊢
  obtain ⟨device', h⟩ := h
  rw [hasHalf_clearHalf, Bool.and_eq_true] at h
  exact ⟨device', h.1⟩

theorem dropHalf_maptrack_of_ne (device : Bool) (ld : Domid) (h : Nat) (flags : BitVec 16)
    (w : World) {s : Domid × Nat} (hne : s ≠ (ld, h)) :
    (dropHalf device ld h flags w).maptrack s = w.maptrack s :=
  Function.update_of_ne hne _ _

theorem dropHalf_maptrack_self (device : Bool) (ld : Domid) (h : Nat) (flags : BitVec 16)
    (w : World) : (dropHalf device ld h flags w).maptrack (ld, h) =
      (w.maptrack (ld, h)).withFlags (clearHalf device (w.maptrack (ld, h)).flags) :=
  Function.update_self _ _ _

theorem dropHalf_halved (device : Bool) (ld : Domid) (h : Nat) (flags : BitVec 16) (w : World) :
    Halved w (dropHalf device ld h flags w) := by
  refine ⟨rfl, rfl, fun s => ?_, fun s hs => ?_, fun k => ?_, rfl, rfl, rfl, rfl⟩
  · by_cases hs : s = (ld, h)
    · rw [hs, dropHalf_maptrack_self]
      rfl
    · rw [dropHalf_maptrack_of_ne _ _ _ _ _ hs]
  · by_cases hsh : s = (ld, h)
    · rw [hsh, dropHalf_maptrack_self] at hs
      rw [hsh]
      exact live_of_clearHalf hs
    · rw [dropHalf_maptrack_of_ne _ _ _ _ _ hsh] at hs
      exact hs
  · change { Function.update w.active _ _ k with pin := (w.active k).pin } = w.active k
    by_cases hk : k = ((w.maptrack (ld, h)).domid, (w.maptrack (ld, h)).ref)
    · rw [hk, Function.update_self]
      rfl
    · rw [Function.update_of_ne hk]

theorem dropDevice_halved (op : UnmapOp) (ld : Domid) (w : World) :
    Halved w (dropDevice op ld w) := by
  unfold dropDevice
  split
  · exact dropHalf_halved _ _ _ _ _
  · exact Halved.refl w

theorem dropHost_halved (op : UnmapOp) (ld : Domid) (w v : World) :
    Halved v (dropHost op ld w v) := by
  unfold dropHost
  split
  · exact dropHalf_halved _ _ _ _ _
  · exact Halved.refl v

theorem dropDevice_maptrack_of_ne (op : UnmapOp) (ld : Domid) (w : World) {s : Domid × Nat}
    (hne : s ≠ (ld, op.handle)) : (dropDevice op ld w).maptrack s = w.maptrack s := by
  unfold dropDevice
  split
  · exact dropHalf_maptrack_of_ne _ _ _ _ _ hne
  · rfl

theorem dropHost_maptrack_of_ne (op : UnmapOp) (ld : Domid) (w v : World) {s : Domid × Nat}
    (hne : s ≠ (ld, op.handle)) : (dropHost op ld w v).maptrack s = v.maptrack s := by
  unfold dropHost
  split
  · exact dropHalf_maptrack_of_ne _ _ _ _ _ hne
  · rfl

theorem dropDevice_host {op : UnmapOp} {ld : Domid} (htakes : op.TakesHost ld w) :
    hasHalf false ((dropDevice op ld w).maptrack (ld, op.handle)).flags = true ∧
      isReadonly ((dropDevice op ld w).maptrack (ld, op.handle)).flags =
        isReadonly (op.mapping ld w).flags := by
  unfold dropDevice
  split
  · rw [dropHalf_maptrack_self]
    refine ⟨?_, isReadonly_clearHalf _ _⟩
    change hasHalf false (clearHalf true _) = true
    rw [hasHalf_clearHalf, Bool.and_eq_true]
    exact ⟨htakes.2, rfl⟩
  · exact ⟨htakes.2, rfl⟩

section

variable {env : UnmapEnv} {ld : Domid} {op : UnmapOp} {c : UnmapCommon}

theorem FirstHalf.op_eq (h : FirstHalf P env ld op w (c, w')) : c.op = op := by
  cases h with
  | rejected _ hop hrd => exact hop
  | denied | mismatch | replaceFailed | done => rfl

theorem FirstHalf.halved (h : FirstHalf P env ld op w (c, w')) : Halved w w' := by
  cases h with
  | rejected | denied | mismatch => exact Halved.refl w
  | replaceFailed => exact dropDevice_halved op ld w
  | done => exact (dropDevice_halved op ld w).trans (dropHost_halved op ld w _)

theorem FirstHalf.maptrack_of_ne (h : FirstHalf P env ld op w (c, w')) {s : Domid × Nat}
    (hne : s ≠ (ld, op.handle)) : w'.maptrack s = w.maptrack s := by
  cases h with
  | rejected | denied | mismatch => rfl
  | replaceFailed => exact dropDevice_maptrack_of_ne op ld w hne
  | done =>
      rw [dropHost_maptrack_of_ne op ld w _ hne]
      exact dropDevice_maptrack_of_ne op ld w hne

/-- A request that got as far as the granting domain. -/
theorem FirstHalf.accepted (h : FirstHalf P env ld op w (c, w')) {r : Domid}
    (hrd : c.rd = some r) :
    Accepted P ld op w ∧ r = (op.mapping ld w).domid ∧ c.flags = (op.mapping ld w).flags := by
  cases h with
  | rejected _ hop hnone =>
      rw [hnone] at hrd
      cases hrd
  | denied acc => exact ⟨acc, (Option.some.inj hrd).symm, rfl⟩
  | mismatch acc => exact ⟨acc, (Option.some.inj hrd).symm, rfl⟩
  | replaceFailed acc => exact ⟨acc, (Option.some.inj hrd).symm, rfl⟩
  | done acc => exact ⟨acc, (Option.some.inj hrd).symm, rfl⟩

/-- One that did not has changed nothing. -/
theorem FirstHalf.rejected_eq (h : FirstHalf P env ld op w (c, w')) (hrd : c.rd = none) :
    w' = w := by
  cases h with
  | rejected => rfl
  | denied | mismatch | replaceFailed | done => cases hrd

/-- Blank handles are not accepted, so they stay blank. -/
theorem FirstHalf.blank {held : Domid → Nat → Prop} (h : FirstHalf P env ld op w (c, w'))
    (hblank : ∀ d x, held d x → (w.maptrack (d, x)).flags = 0) :
    ∀ d x, held d x → (w'.maptrack (d, x)).flags = 0 := by
  intro d x hheld
  by_cases heq : (d, x) = (ld, op.handle)
  · rcases hrd : c.rd with _ | r
    · rw [h.rejected_eq hrd]
      exact hblank d x hheld
    · obtain ⟨acc, -, -⟩ := h.accepted hrd
      obtain ⟨rfl, rfl⟩ := Prod.mk.inj heq
      exact absurd (hblank d _ hheld) acc.flags
  · rw [h.maptrack_of_ne heq]
    exact hblank d x hheld

end

/-! ## First halves on the ledger -/

theorem track_dropHalf {device : Bool} {ld : Domid} {h : Nat} {flags : BitVec 16}
    (hro : isReadonly flags = isReadonly (w.maptrack (ld, h)).flags) :
    (dropHalf device ld h flags w).track = w.track.drop device ld h := by
  unfold dropHalf
  rw [track_setPin, track_setMapping, hro]
  rfl

/-- Withheld handles during the first phase of a batch: those that were, and
those of `ld` the batch has touched and left with neither half. -/
def heldMid (held : Domid → Nat → Prop) (ld : Domid) (touched : Nat → Prop) (t : Track) :
    Domid → Nat → Prop :=
  fun d h => held d h ∨ (d = ld ∧ touched h ∧ ¬ Live (t.maptrack (ld, h)).flags)

variable {held : Domid → Nat → Prop} {ld : Domid} {touched : Nat → Prop}

theorem drop_mid {t : Track} (inv : t.Inv P (heldMid held ld touched t)) (hld : ld ∈ P.domains)
    {h : Nat} (hh : h < t.limit ld) (ht : touched h) {device : Bool}
    (hhalf : hasHalf device (t.maptrack (ld, h)).flags = true) :
    (t.drop device ld h).Inv P (heldMid held ld touched (t.drop device ld h)) := by
  have hlive : Live (t.maptrack (ld, h)).flags := (live_iff _).mpr ⟨device, hhalf⟩
  refine (inv.drop hld hh hhalf).congr fun d h' => ?_
  by_cases heq : (d, h') = (ld, h)
  · obtain ⟨rfl, rfl⟩ := Prod.mk.inj heq
    constructor
    · rintro (hmid | ⟨-, hdead⟩)
      · exact absurd hlive (inv.withheld d h' hmid).2
      · exact Or.inr ⟨rfl, ht, hdead⟩
    · rintro (hheld | ⟨-, -, hdead⟩)
      · exact Or.inl (Or.inl hheld)
      · exact Or.inr ⟨rfl, hdead⟩
  · have hother : ∀ x, (ld, x) ≠ (ld, h) →
        (t.drop device ld h).maptrack (ld, x) = t.maptrack (ld, x) :=
      fun x hx => Track.maptrack_setMapping_of_ne _ _ hx
    constructor
    · rintro ((hheld | ⟨rfl, htouch, hdead⟩) | ⟨hc, -⟩)
      · exact Or.inl hheld
      · refine Or.inr ⟨rfl, htouch, ?_⟩
        rw [hother h' heq]
        exact hdead
      · exact absurd hc heq
    · rintro (hheld | ⟨rfl, htouch, hdead⟩)
      · exact Or.inl (Or.inl hheld)
      · rw [hother h' heq] at hdead
        exact Or.inl (Or.inr ⟨rfl, htouch, hdead⟩)

/-- The handles a request adds to the touched ones. -/
def UnmapCommon.Touches (c : UnmapCommon) (h : Nat) : Prop := c.rd ≠ none ∧ c.op.handle = h

/-- Touching a handle that is in use withholds nothing new. -/
theorem touch_mid {t : Track} (inv : t.Inv P (heldMid held ld touched t)) (hld : ld ∈ P.domains)
    {h : Nat} (hh : h < t.limit ld) (hflags : (t.maptrack (ld, h)).flags ≠ 0)
    {touches : Nat → Prop} (htouches : ∀ x, touches x → x = h) :
    t.Inv P (heldMid held ld (fun x => touched x ∨ touches x) t) := by
  refine inv.congr fun d h' => ?_
  constructor
  · rintro (hheld | ⟨rfl, htouch, hdead⟩)
    · exact Or.inl hheld
    · exact Or.inr ⟨rfl, Or.inl htouch, hdead⟩
  · rintro (hheld | ⟨rfl, htouch | htouch, hdead⟩)
    · exact Or.inl hheld
    · exact Or.inr ⟨rfl, htouch, hdead⟩
    · have hx := htouches h' htouch
      subst hx
      exact (inv.used d hld h' hh hflags).resolve_left hdead

theorem FirstHalf.inv {env : UnmapEnv} {op : UnmapOp} {c : UnmapCommon}
    (h : FirstHalf P env ld op w (c, w'))
    (inv : w.track.Inv P (heldMid held ld touched w.track)) (hld : ld ∈ P.domains) :
    w'.track.Inv P (heldMid held ld (fun x => touched x ∨ c.Touches x) w'.track) := by
  have htouches : ∀ x, c.Touches x → x = op.handle := fun x hx => by
    rw [← hx.2, h.op_eq]
  -- a device half, when the request takes it
  have hdevice : Accepted P ld op w → c.Touches op.handle →
      (dropDevice op ld w).track.Inv P
        (heldMid held ld (fun x => touched x ∨ c.Touches x) (dropDevice op ld w).track) := by
    intro acc ht
    have hmid := touch_mid inv hld acc.bound acc.flags htouches
    unfold dropDevice
    split
    · next htakes =>
        have htrack : (dropHalf true ld op.handle (op.mapping ld w).flags w).track =
            w.track.drop true ld op.handle := track_dropHalf rfl
        rw [htrack]
        exact drop_mid hmid hld acc.bound (Or.inr ht) htakes.2
    · exact hmid
  cases h with
  | rejected _ hop hrd =>
      refine inv.congr fun d h' => ?_
      constructor
      · rintro (hheld | ⟨rfl, htouch, hdead⟩)
        · exact Or.inl hheld
        · exact Or.inr ⟨rfl, Or.inl htouch, hdead⟩
      · rintro (hheld | ⟨rfl, htouch | htouch, hdead⟩)
        · exact Or.inl hheld
        · exact Or.inr ⟨rfl, htouch, hdead⟩
        · exact absurd hrd htouch.1
  | denied acc => exact touch_mid inv hld acc.bound acc.flags htouches
  | mismatch acc => exact touch_mid inv hld acc.bound acc.flags htouches
  | replaceFailed acc =>
      exact hdevice acc ⟨Option.some_ne_none _, rfl⟩
  | done acc hxsm hbus status hstatus =>
      have ht : UnmapCommon.Touches ⟨op, status, (op.mapping ld w).flags, op.frame ld w,
          some (op.mapping ld w).domid⟩ op.handle := ⟨Option.some_ne_none _, rfl⟩
      have hmid := hdevice acc ht
      unfold dropHost
      split
      · next htakes =>
          have hkeep := dropDevice_host htakes
          rw [track_dropHalf hkeep.2.symm]
          refine drop_mid hmid hld ?_ (Or.inr ht) hkeep.1
          change op.handle < (dropDevice op ld w).maptrackLimit ld
          rw [(dropDevice_halved op ld w).limit]
          exact acc.bound
      · exact hmid

/-! ## The first phase of a clean batch -/

/-- Every request of the batch meets `Q` in the state it finds. -/
def EachRequest (P : Platform) (ld : Domid) (Q : UnmapEnv → UnmapOp → World → Prop)
    (ops : List (UnmapEnv × UnmapOp)) (w : World) : Prop :=
  Runs.Each (fun e w => (unmapCommon P e.1 ld e.2 w).2) (fun e w => Q e.1 e.2 w) ops w

/-- The IOMMU update of a request that takes down a host half succeeds. -/
def IommuOk (P : Platform) (ld : Domid) (env : UnmapEnv) (op : UnmapOp) (w : World) : Prop :=
  op.TakesHost ld w → P.isHvmDomain ld = false → P.needIommu ld = true → env.iommu = true

/-- No handle is accepted twice by a batch that leaves it with neither half. -/
def SplitFree (ld : Domid) (cs : List UnmapCommon) (w : World) : Prop :=
  cs.Pairwise fun c c' => c.rd ≠ none → c'.rd ≠ none → c.op.handle = c'.op.handle →
    Live (w.maptrack (ld, c.op.handle)).flags

/-- The first phase, request by request: what held in the state each of them
found. An accepted request has found its mapping live. -/
inductive FirstPhase (P : Platform) (held : Domid → Nat → Prop) (ld : Domid)
    (Q : UnmapEnv → UnmapOp → World → Prop) :
    (Nat → Prop) → World → List UnmapCommon → World → Prop
  | nil {touched : Nat → Prop} {w : World}
      (inv : w.track.Inv P (heldMid held ld touched w.track)) :
      FirstPhase P held ld Q touched w [] w
  | cons {touched : Nat → Prop} {w w' w'' : World} {env : UnmapEnv} {op : UnmapOp}
      {c : UnmapCommon} {cs : List UnmapCommon} (half : FirstHalf P env ld op w (c, w'))
      (hQ : Q env op w) (inv : w.track.Inv P (heldMid held ld touched w.track))
      (hlive : c.rd ≠ none → Live (op.mapping ld w).flags)
      (rest : FirstPhase P held ld Q (fun x => touched x ∨ c.Touches x) w' cs w'') :
      FirstPhase P held ld Q touched w (c :: cs) w''

section

variable {Q : UnmapEnv → UnmapOp → World → Prop} {cs : List UnmapCommon}

theorem unmapFirst_halved (ops : List (UnmapEnv × UnmapOp)) (w : World) :
    Halved w (unmapFirst P ld ops w).2 := by
  induction ops generalizing w with
  | nil => exact Halved.refl w
  | cons e rest ih =>
      obtain ⟨env, op⟩ := e
      exact (unmapCommon_cases env ld op w).halved.trans (ih _)

/-- A batch without a handle that is accepted twice and left with neither half
goes through its first phase request by request. -/
theorem firstPhase_of_splitFree (hld : ld ∈ P.domains) (ops : List (UnmapEnv × UnmapOp)) :
    ∀ {touched : Nat → Prop} {w : World},
      w.track.Inv P (heldMid held ld touched w.track) →
      (∀ d h, held d h → (w.maptrack (d, h)).flags = 0) → EachRequest P ld Q ops w →
      SplitFree ld (unmapFirst P ld ops w).1 (unmapFirst P ld ops w).2 →
      (∀ c ∈ (unmapFirst P ld ops w).1, c.rd ≠ none → touched c.op.handle →
        Live ((unmapFirst P ld ops w).2.maptrack (ld, c.op.handle)).flags) →
      FirstPhase P held ld Q touched w (unmapFirst P ld ops w).1 (unmapFirst P ld ops w).2 := by
  induction ops with
  | nil => exact fun inv _ _ _ _ => .nil inv
  | cons e rest ih =>
      obtain ⟨env, op⟩ := e
      intro touched w inv hblank hQ hsplit htouched
      have half := unmapCommon_cases (P := P) env ld op w
      rcases hout : unmapCommon P env ld op w with ⟨c, w'⟩
      rw [hout] at half
      simp only [unmapFirst, EachRequest, Runs.Each, hout, SplitFree, List.pairwise_cons]
        at hQ hsplit htouched ⊢
      have hkept : Halved w' (unmapFirst P ld rest w').2 := unmapFirst_halved rest w'
      have hlive : c.rd ≠ none → Live (op.mapping ld w).flags := by
        intro hrd
        obtain ⟨r, hr⟩ := Option.ne_none_iff_exists'.mp hrd
        obtain ⟨acc, -, -⟩ := half.accepted hr
        rcases inv.used ld hld op.handle acc.bound acc.flags with hl | hheld | ⟨-, ht, -⟩
        · exact hl
        · exact absurd (hblank ld op.handle hheld) acc.flags
        · -- touched before, so it is live at the end of the phase, and was all along
          have hend := htouched c (List.mem_cons_self ..) hrd (by rw [half.op_eq]; exact ht)
          rw [half.op_eq] at hend
          exact half.halved.live _ (hkept.live _ hend)
      refine .cons half hQ.1 inv hlive
        (ih (half.inv inv hld) (half.blank hblank) hQ.2 hsplit.2 ?_)
      · rintro c' hc' hrd' (ht | ⟨hrd, hsame⟩)
        · exact htouched c' (List.mem_cons_of_mem _ hc') hrd' ht
        · have hl := hsplit.1 c' hc' hrd hrd' hsame
          rw [hsame] at hl
          exact hl

theorem FirstPhase.inv (h : FirstPhase P held ld Q touched w cs w') :
    w'.track.Inv P (heldMid held ld (fun x => touched x ∨ ∃ c ∈ cs, c.Touches x) w'.track) := by
  induction h with
  | nil inv =>
      refine inv.congr fun d h => ?_
      simp [heldMid]
  | cons half hQ inv hlive rest ih =>
      refine ih.congr fun d h => ?_
      simp [heldMid, or_assoc]

theorem FirstPhase.halved (h : FirstPhase P held ld Q touched w cs w') : Halved w w' := by
  induction h with
  | nil inv => exact Halved.refl _
  | cons half hQ inv hlive rest ih => exact half.halved.trans ih

/-- A handle no accepted request names keeps its mapping. -/
theorem FirstPhase.maptrack_of_untouched (h : FirstPhase P held ld Q touched w cs w') {x : Nat}
    (hx : ∀ c ∈ cs, ¬ c.Touches x) : w'.maptrack (ld, x) = w.maptrack (ld, x) := by
  induction h with
  | nil inv => rfl
  | @cons touched w w' w'' env op c cs half hQ inv hlive rest ih =>
      rw [ih fun c' hc' => hx c' (List.mem_cons_of_mem _ hc')]
      by_cases heq : x = op.handle
      · rcases hrd : c.rd with _ | r
        · rw [half.rejected_eq hrd]
        · exfalso
          refine hx c (List.mem_cons_self ..) ⟨?_, ?_⟩
          · rw [hrd]
            exact Option.some_ne_none r
          · rw [half.op_eq, heq]
      · exact half.maptrack_of_ne fun hp => heq (Prod.mk.inj hp).2

/-- An accepted request is about a handle that was not withheld before the batch. -/
theorem FirstPhase.fresh (h : FirstPhase P held ld Q touched w cs w') :
    ∀ c ∈ cs, c.rd ≠ none → ¬ held ld c.op.handle := by
  induction h with
  | nil inv => exact fun c hc => absurd hc List.not_mem_nil
  | @cons touched w w' w'' env op c cs half hQ inv hlive rest ih =>
      intro c' hc' hrd hheld
      rcases List.mem_cons.mp hc' with rfl | hc'
      · rw [half.op_eq] at hheld
        exact (inv.withheld ld op.handle (Or.inl hheld)).2 (hlive hrd)
      · exact ih c' hc' hrd hheld

/-- The withheld handles stay blank. -/
theorem FirstPhase.blank (h : FirstPhase P held ld Q touched w cs w')
    (hblank : ∀ d x, held d x → (w.maptrack (d, x)).flags = 0) :
    ∀ d x, held d x → (w'.maptrack (d, x)).flags = 0 := by
  induction h with
  | nil inv => exact hblank
  | @cons touched w w' w'' env op c cs half hQ inv hlive rest ih =>
      exact ih (half.blank hblank)

/-- A request that leaves its live mapping with neither half has taken down all
of it, and will be completed. -/
theorem FirstHalf.finishes {env : UnmapEnv} {op : UnmapOp} {c : UnmapCommon}
    (h : FirstHalf P env ld op w (c, w')) (hrd : c.rd ≠ none)
    (hlive : Live (op.mapping ld w).flags) (hdead : ¬ Live (w'.maptrack (ld, op.handle)).flags)
    (hiommu : IommuOk P ld env op w) :
    c.frame = op.frame ld w ∧ (c.op.hostAddr ≠ 0 → isHost c.flags = true → c.status = .okay) := by
  cases h with
  | rejected _ hop hnone => exact absurd hnone hrd
  | denied | mismatch => exact absurd hlive hdead
  | replaceFailed acc hxsm hbus hhost rc hrc =>
      exfalso
      apply hdead
      unfold dropDevice
      split
      · rw [dropHalf_maptrack_self, live_iff]
        refine ⟨false, ?_⟩
        change hasHalf false (clearHalf true _) = true
        rw [hasHalf_clearHalf, Bool.and_eq_true]
        exact ⟨hhost.2, rfl⟩
      · exact hlive
  | done acc hxsm hbus status hstatus =>
      refine ⟨rfl, fun haddr hhost => ?_⟩
      rcases hstatus with hok | ⟨h1, h2, h3⟩
      · exact hok
      · rw [hiommu ⟨haddr, hhost⟩ h1 h2] at h3
        cases h3

/-! ## The second phase -/

/-- What a request that is still to be completed knows about its maptrack entry. -/
structure Known (P : Platform) (ld : Domid) (c : UnmapCommon) (r : Domid) (w : World) : Prop where
  bound : c.op.handle < w.maptrackLimit ld
  domid : (w.maptrack (ld, c.op.handle)).domid = r
  version : P.gtVersion r ≠ .unset
  finishes : ¬ Live (w.maptrack (ld, c.op.handle)).flags →
    c.frame = (w.active (w.maptrack (ld, c.op.handle)).key).frame ∧
      (c.op.hostAddr ≠ 0 → isHost c.flags = true → c.status = .okay)

/-- The invariant of the second phase, with the requests `cs` to be completed. -/
structure Completing (P : Platform) (held : Domid → Nat → Prop) (ld : Domid)
    (cs : List UnmapCommon) (w : World) : Prop where
  inv : w.track.Inv P (heldMid held ld (fun x => ∃ c ∈ cs, c.Touches x) w.track)
  split : SplitFree ld cs w
  known : ∀ c ∈ cs, ∀ r, c.rd = some r → Known P ld c r w
  fresh : ∀ c ∈ cs, c.rd ≠ none → ¬ held ld c.op.handle
  blank : ∀ d x, held d x → (w.maptrack (d, x)).flags = 0

/-- What an accepted request knows, as long as later first halves keep its mapping. -/
theorem FirstPhase.known (h : FirstPhase P held ld Q touched w cs w') (hld : ld ∈ P.domains)
    (hQ : ∀ env op w, Q env op w → IommuOk P ld env op w) (hsplit : SplitFree ld cs w') :
    ∀ c ∈ cs, ∀ r, c.rd = some r → Known P ld c r w' := by
  induction h with
  | nil inv => exact fun c hc => absurd hc List.not_mem_nil
  | @cons touched w w' w'' env op c cs half hq inv hlive rest ih =>
      rw [SplitFree, List.pairwise_cons] at hsplit
      intro c' hc' r hr
      rcases List.mem_cons.mp hc' with rfl | hc'
      · have hrd : c'.rd ≠ none := by rw [hr]; exact Option.some_ne_none r
        obtain ⟨acc, hdom, -⟩ := half.accepted hr
        have hkept := half.halved.trans rest.halved
        have hop := half.op_eq
        have hkey := hkept.key (ld, op.handle)
        constructor
        · rw [hop, hkept.limit]
          exact acc.bound
        · rw [hop, hdom]
          exact congrArg Prod.fst hkey
        · rw [hdom]
          exact (inv.named ld hld op.handle acc.bound (hlive hrd)).2
        · intro hdead
          rw [hop] at hdead ⊢
          -- nobody else has touched the handle, so this request took it down
          have huntouched : ∀ c ∈ cs, ¬ c.Touches op.handle := by
            rintro c hc ⟨hcrd, hsame⟩
            have hl := hsplit.1 c hc hrd hcrd (by rw [hop, hsame])
            rw [hop] at hl
            exact hdead hl
          have hsame := rest.maptrack_of_untouched huntouched
          rw [hsame] at hdead
          obtain ⟨hframe, hstatus⟩ := half.finishes hrd (hlive hrd) hdead (hQ _ _ _ hq)
          rw [hop] at hstatus
          refine ⟨?_, hstatus⟩
          rw [hkey, hkept.frame]
          exact hframe
      · exact ih hsplit.2 c' hc' r hr

end

theorem onlyRefs_completeDevice (c : UnmapCommon) (act : ActiveGrantEntry) (w : World) :
    OnlyRefs w (completeDevice P c act w) := by
  have hrefl := OnlyRefs.refl w
  exact .ite ((OnlyRefs.ite hrefl (hrefl.moveType c.frame (-1))).movePage c.frame (-1)) hrefl

theorem onlyRefs_completeHost (ld rd : Domid) (c : UnmapCommon) (w : World) :
    OnlyRefs w (completeHost P ld rd c w) := by
  have hrefl := OnlyRefs.refl w
  exact .ite ((OnlyRefs.ite (hrefl.moveType c.frame (-1)) hrefl).movePage c.frame (-1)) hrefl

@[simp] theorem track_completeStatus (k : EntryKey) (c : UnmapCommon) (w : World) :
    (completeStatus P k c w).track = w.track := by
  unfold completeStatus
  dsimp only
  split_ifs <;> simp only [track_clearStatus]

/-- Freeing the handle on the ledger, when neither half is left. -/
theorem track_completeHandle (ld : Domid) (c : UnmapCommon) (w : World) :
    (completeHandle ld c w).track =
      if Live (w.maptrack (ld, c.op.handle)).flags then w.track
      else (w.track.blank ld c.op.handle).put ld c.op.handle := by
  unfold completeHandle
  by_cases hlive : Live (w.maptrack (ld, c.op.handle)).flags
  · rw [if_pos hlive, if_neg]
    exact fun hdead => (not_live_iff _).mpr hdead hlive
  · rw [if_neg hlive, if_pos ((not_live_iff _).mp hlive)]
    rfl

/-- The entry the second half looks at. -/
def UnmapCommon.entry (c : UnmapCommon) (ld r : Domid) (w : World) : EntryKey :=
  (r, (w.maptrack (ld, c.op.handle)).ref)

/-- Everything the second half of an unmap can do. -/
inductive SecondHalf (P : Platform) (ld : Domid) (c : UnmapCommon) (w : World) : World → Prop
  | skipped (hrd : c.rd = none ∨ ∃ r, c.rd = some r ∧
      (P.gtVersion r = .unset ∨ c.frame ≠ (w.active (c.entry ld r w)).frame)) :
      SecondHalf P ld c w w
  | stopped (r : Domid) (hrd : c.rd = some r) (hversion : P.gtVersion r ≠ .unset)
      (hframe : c.frame = (w.active (c.entry ld r w)).frame)
      (hhost : c.op.hostAddr ≠ 0 ∧ isHost c.flags = true) (hstatus : c.status ≠ .okay) :
      SecondHalf P ld c w (completeDevice P c (w.active (c.entry ld r w)) w)
  | withHost (r : Domid) (hrd : c.rd = some r) (hversion : P.gtVersion r ≠ .unset)
      (hframe : c.frame = (w.active (c.entry ld r w)).frame)
      (hhost : c.op.hostAddr ≠ 0 ∧ isHost c.flags = true) (hstatus : c.status = .okay) :
      SecondHalf P ld c w (completeStatus P (c.entry ld r w) c (completeHandle ld c
        (completeHost P ld r c (completeDevice P c (w.active (c.entry ld r w)) w))))
  | withoutHost (r : Domid) (hrd : c.rd = some r) (hversion : P.gtVersion r ≠ .unset)
      (hframe : c.frame = (w.active (c.entry ld r w)).frame)
      (hhost : ¬ (c.op.hostAddr ≠ 0 ∧ isHost c.flags = true)) :
      SecondHalf P ld c w (completeStatus P (c.entry ld r w) c (completeHandle ld c
        (completeDevice P c (w.active (c.entry ld r w)) w)))

theorem unmapCommonComplete_cases (ld : Domid) (c : UnmapCommon) (w : World) :
    SecondHalf P ld c w (unmapCommonComplete P ld c w) := by
  unfold unmapCommonComplete
  split
  · next hrd => exact .skipped (Or.inl hrd)
  · next r hrd =>
      split
      · next hversion => exact .skipped (Or.inr ⟨r, hrd, Or.inl hversion⟩)
      · next hversion =>
        dsimp only
        split
        · next hframe => exact .skipped (Or.inr ⟨r, hrd, Or.inr hframe⟩)
        · next hframe =>
            have hframe' := not_not.mp hframe
            split
            · next hhost =>
                split
                · next hstatus => exact .stopped r hrd hversion hframe' hhost hstatus
                · next hstatus => exact .withHost r hrd hversion hframe' hhost (not_not.mp hstatus)
            · next hhost => exact .withoutHost r hrd hversion hframe' hhost

theorem SecondHalf.track_of_live {c : UnmapCommon} (h : SecondHalf P ld c w w')
    (hlive : Live (w.maptrack (ld, c.op.handle)).flags) : w'.track = w.track := by
  cases h with
  | skipped => rfl
  | stopped => exact (onlyRefs_completeDevice _ _ _).track
  | withHost =>
      rw [track_completeStatus, track_completeHandle, if_pos, (onlyRefs_completeHost ..).track,
        (onlyRefs_completeDevice ..).track]
      rw [(onlyRefs_completeHost ..).maptrack, (onlyRefs_completeDevice ..).maptrack]
      exact hlive
  | withoutHost =>
      rw [track_completeStatus, track_completeHandle, if_pos, (onlyRefs_completeDevice ..).track]
      rw [(onlyRefs_completeDevice ..).maptrack]
      exact hlive

/-- For a mapping with neither half it gives the handle back. -/
theorem SecondHalf.track_of_known {c : UnmapCommon} {r : Domid} (h : SecondHalf P ld c w w')
    (hrd : c.rd = some r) (hknown : Known P ld c r w)
    (hdead : ¬ Live (w.maptrack (ld, c.op.handle)).flags) :
    w'.track = (w.track.blank ld c.op.handle).put ld c.op.handle := by
  obtain ⟨hframe, hstatus⟩ := hknown.finishes hdead
  have hentry : c.entry ld r w = (w.maptrack (ld, c.op.handle)).key := by
    rw [UnmapCommon.entry, ← hknown.domid]
    rfl
  cases h with
  | skipped hno =>
      exfalso
      rcases hno with hno | ⟨r', hr', hno | hno⟩
      · rw [hno] at hrd
        cases hrd
      · rw [hrd] at hr'
        rw [← Option.some.inj hr'] at hno
        exact hknown.version hno
      · rw [hrd] at hr'
        rw [← Option.some.inj hr', hentry] at hno
        exact hno hframe
  | stopped r' hr' _ _ hhost hbad => exact absurd (hstatus hhost.1 hhost.2) hbad
  | withHost =>
      rw [track_completeStatus, track_completeHandle, if_neg, (onlyRefs_completeHost ..).track,
        (onlyRefs_completeDevice ..).track]
      rw [(onlyRefs_completeHost ..).maptrack, (onlyRefs_completeDevice ..).maptrack]
      exact hdead
  | withoutHost =>
      rw [track_completeStatus, track_completeHandle, if_neg, (onlyRefs_completeDevice ..).track]
      rw [(onlyRefs_completeDevice ..).maptrack]
      exact hdead

theorem completeHandle_active (ld : Domid) (c : UnmapCommon) (w : World) :
    (completeHandle ld c w).active = w.active := by
  unfold completeHandle
  dsimp only
  split_ifs <;> rfl

theorem completeStatus_active (k : EntryKey) (c : UnmapCommon) (w : World) :
    (completeStatus P k c w).active = w.active := by
  unfold completeStatus
  dsimp only
  split_ifs <;> simp only [active_clearStatus]

theorem SecondHalf.active {c : UnmapCommon} (h : SecondHalf P ld c w w') :
    w'.active = w.active := by
  cases h with
  | skipped => rfl
  | stopped => exact (onlyRefs_completeDevice _ _ _).active
  | withHost =>
      rw [completeStatus_active, completeHandle_active, (onlyRefs_completeHost ..).active,
        (onlyRefs_completeDevice ..).active]
  | withoutHost =>
      rw [completeStatus_active, completeHandle_active, (onlyRefs_completeDevice ..).active]

/-- A request that was not accepted is not completed. -/
theorem SecondHalf.eq_of_none {c : UnmapCommon} (h : SecondHalf P ld c w w')
    (hrd : c.rd = none) : w' = w := by
  cases h with
  | skipped => rfl
  | stopped r hr | withHost r hr | withoutHost r hr =>
      rw [hrd] at hr
      cases hr

section

variable {c : UnmapCommon} {cs : List UnmapCommon}

/-- Nothing is left to do for a request whose handle stays in use, or that was
never accepted. -/
theorem Completing.tail_of_track (h : Completing P held ld (c :: cs) w)
    (htrack : w'.track = w.track) (hactive : w'.active = w.active)
    (hkeep : c.rd ≠ none → Live (w.maptrack (ld, c.op.handle)).flags) :
    Completing P held ld cs w' := by
  have hmap : w'.maptrack = w.maptrack := congrArg Track.maptrack htrack
  have hlimit : w'.maptrackLimit = w.maptrackLimit := congrArg Track.limit htrack
  constructor
  · rw [htrack]
    refine h.inv.congr fun d x => ?_
    constructor
    · rintro (hheld | ⟨rfl, ⟨c', hc', ht⟩, hdead⟩)
      · exact Or.inl hheld
      · rcases List.mem_cons.mp hc' with rfl | hc'
        · have hlive := hkeep ht.1
          rw [ht.2] at hlive
          exact absurd hlive hdead
        · exact Or.inr ⟨rfl, ⟨c', hc', ht⟩, hdead⟩
    · rintro (hheld | ⟨rfl, ⟨c', hc', ht⟩, hdead⟩)
      · exact Or.inl hheld
      · exact Or.inr ⟨rfl, ⟨c', List.mem_cons_of_mem _ hc', ht⟩, hdead⟩
  · have hsplit := (List.pairwise_cons.mp h.split).2
    rw [SplitFree, hmap]
    exact hsplit
  · intro c' hc' r hr
    obtain ⟨hb, hd, hv, hf⟩ := h.known c' (List.mem_cons_of_mem _ hc') r hr
    constructor
    · rw [hlimit]
      exact hb
    · rw [hmap]
      exact hd
    · exact hv
    · rw [hmap, hactive]
      exact hf
  · exact fun c' hc' => h.fresh c' (List.mem_cons_of_mem _ hc')
  · rw [hmap]
    exact h.blank

/-- The handle of a request that left it with neither half goes back. -/
theorem Completing.tail_of_put (h : Completing P held ld (c :: cs) w) (hld : ld ∈ P.domains)
    (hrd : c.rd ≠ none) (hdead : ¬ Live (w.maptrack (ld, c.op.handle)).flags)
    (htrack : w'.track = (w.track.blank ld c.op.handle).put ld c.op.handle)
    (hactive : w'.active = w.active) : Completing P held ld cs w' := by
  have hlimit : w'.maptrackLimit = w.maptrackLimit := congrArg Track.limit htrack
  have hother : ∀ s, s ≠ (ld, c.op.handle) → w'.maptrack s = w.maptrack s := by
    intro s hs
    have hmap : w'.maptrack = _ := congrArg Track.maptrack htrack
    rw [hmap]
    exact Track.maptrack_put_blank_of_ne _ hs
  -- the other requests are about other handles
  have hsplit := List.pairwise_cons.mp h.split
  have hne : ∀ c' ∈ cs, c'.rd ≠ none → c'.op.handle ≠ c.op.handle :=
    fun c' hc' hrd' hsame => hdead (hsplit.1 c' hc' hrd hrd' hsame.symm)
  have hkept : ∀ c' ∈ cs, c'.rd ≠ none →
      w'.maptrack (ld, c'.op.handle) = w.maptrack (ld, c'.op.handle) :=
    fun c' hc' hrd' => hother _ fun heq => hne c' hc' hrd' (Prod.mk.inj heq).2
  have hfresh := h.fresh c (List.mem_cons_self ..) hrd
  have hmid : heldMid held ld (fun x => ∃ c' ∈ c :: cs, c'.Touches x) w.track ld c.op.handle :=
    Or.inr ⟨rfl, ⟨c, List.mem_cons_self .., hrd, rfl⟩, hdead⟩
  constructor
  · have hblank := h.inv.blank hld hmid
    have hput := hblank.put hld hmid (by
      unfold Track.blank
      rw [Track.maptrack_setMapping_self]
      rfl)
    rw [htrack]
    refine hput.congr fun d x => ?_
    have hsame : ∀ x, x ≠ c.op.handle →
        ((w.track.blank ld c.op.handle).put ld c.op.handle).maptrack (ld, x) =
          w.track.maptrack (ld, x) := by
      intro x hx
      rw [← htrack]
      exact hother _ fun heq => hx (Prod.mk.inj heq).2
    constructor
    · rintro ⟨hheld | ⟨rfl, ⟨c', hc', ht⟩, hd⟩, hx⟩
      · exact Or.inl hheld
      · have hx' : x ≠ c.op.handle := fun heq => hx (by rw [heq])
        rcases List.mem_cons.mp hc' with rfl | hc'
        · exact absurd ht.2.symm hx'
        · refine Or.inr ⟨rfl, ⟨c', hc', ht⟩, ?_⟩
          rw [hsame x hx']
          exact hd
    · rintro (hheld | ⟨rfl, ⟨c', hc', ht⟩, hd⟩)
      · refine ⟨Or.inl hheld, fun heq => hfresh ?_⟩
        rw [(Prod.mk.inj heq).1, (Prod.mk.inj heq).2] at hheld
        exact hheld
      · have hx' : x ≠ c.op.handle := by
          rw [← ht.2]
          exact hne c' hc' ht.1
        rw [hsame x hx'] at hd
        exact ⟨Or.inr ⟨rfl, ⟨c', List.mem_cons_of_mem _ hc', ht⟩, hd⟩,
          fun heq => hx' (Prod.mk.inj heq).2⟩
  · refine hsplit.2.imp_of_mem fun {a b} ha _ hab hra hrb hsame => ?_
    rw [hkept a ha hra]
    exact hab hra hrb hsame
  · intro c' hc' r hr
    obtain ⟨hb, hd, hv, hf⟩ := h.known c' (List.mem_cons_of_mem _ hc') r hr
    have hmap := hkept c' hc' (by rw [hr]; exact Option.some_ne_none r)
    constructor
    · rw [hlimit]
      exact hb
    · rw [hmap]
      exact hd
    · exact hv
    · rw [hmap, hactive]
      exact hf
  · exact fun c' hc' => h.fresh c' (List.mem_cons_of_mem _ hc')
  · intro d x hheld
    rw [hother]
    · exact h.blank d x hheld
    · intro heq
      rw [(Prod.mk.inj heq).1, (Prod.mk.inj heq).2] at hheld
      exact hfresh hheld

/-- On the ledger, completing a request does nothing or gives its handle back. -/
theorem Completing.track_cases (h : Completing P held ld (c :: cs) w) :
    ((unmapCommonComplete P ld c w).track = w.track ∧
        (c.rd ≠ none → Live (w.maptrack (ld, c.op.handle)).flags)) ∨
      (c.rd ≠ none ∧ ¬ Live (w.maptrack (ld, c.op.handle)).flags ∧
        (unmapCommonComplete P ld c w).track =
          (w.track.blank ld c.op.handle).put ld c.op.handle) := by
  have half := unmapCommonComplete_cases (P := P) ld c w
  rcases hrd : c.rd with _ | r
  · left
    rw [half.eq_of_none hrd]
    exact ⟨rfl, fun hne => absurd rfl hne⟩
  · by_cases hlive : Live (w.maptrack (ld, c.op.handle)).flags
    · exact Or.inl ⟨half.track_of_live hlive, fun _ => hlive⟩
    · have hknown := h.known c (List.mem_cons_self ..) r hrd
      exact Or.inr ⟨Option.some_ne_none r, hlive, half.track_of_known hrd hknown hlive⟩

/-- The mappings of the requests still to be completed stay as they are. -/
theorem Completing.maptrack_of_mem (h : Completing P held ld (c :: cs) w) {c' : UnmapCommon}
    (hc' : c' ∈ cs) (hrd' : c'.rd ≠ none) :
    (unmapCommonComplete P ld c w).maptrack (ld, c'.op.handle) =
      w.maptrack (ld, c'.op.handle) := by
  rcases h.track_cases with ⟨htrack, -⟩ | ⟨hrd, hdead, htrack⟩
  · exact congrFun (congrArg Track.maptrack htrack) _
  · refine (congrFun (congrArg Track.maptrack htrack) _).trans ?_
    refine Track.maptrack_put_blank_of_ne _ fun heq => hdead ?_
    exact (List.pairwise_cons.mp h.split).1 c' hc' hrd hrd' (Prod.mk.inj heq).2.symm

theorem Completing.step (h : Completing P held ld (c :: cs) w) (hld : ld ∈ P.domains) :
    Completing P held ld cs (unmapCommonComplete P ld c w) := by
  have hactive := (unmapCommonComplete_cases (P := P) ld c w).active
  rcases h.track_cases with ⟨htrack, hlive⟩ | ⟨hrd, hdead, htrack⟩
  · exact h.tail_of_track htrack hactive hlive
  · exact h.tail_of_put hld hrd hdead htrack hactive

theorem Completing.run (cs : List UnmapCommon) (hld : ld ∈ P.domains) :
    ∀ {w : World}, Completing P held ld cs w →
      Completing P held ld [] (unmapComplete P ld cs w) := by
  induction cs with
  | nil => exact fun h => h
  | cons c cs ih => exact fun h => ih (h.step hld)

end

/-! ## A clean batch -/

/-- What a request needs of the batch it is in: no handle is accepted twice and
left with neither half, and no IOMMU update fails after a host half is gone. -/
structure CleanBatch (P : Platform) (ld : Domid) (ops : List (UnmapEnv × UnmapOp))
    (w : World) : Prop where
  split : SplitFree ld (unmapFirst P ld ops w).1 (unmapFirst P ld ops w).2
  iommu : EachRequest P ld (IommuOk P ld) ops w

theorem CleanBatch.firstPhase {ops : List (UnmapEnv × UnmapOp)}
    {Q : UnmapEnv → UnmapOp → World → Prop} (clean : CleanBatch P ld ops w)
    (inv : w.track.Inv P held) (hld : ld ∈ P.domains)
    (hblank : ∀ d x, held d x → (w.maptrack (d, x)).flags = 0) (hQ : EachRequest P ld Q ops w) :
    FirstPhase P held ld (fun env op w => IommuOk P ld env op w ∧ Q env op w) (fun _ => False) w
      (unmapFirst P ld ops w).1 (unmapFirst P ld ops w).2 := by
  have inv' : w.track.Inv P (heldMid held ld (fun _ => False) w.track) := by
    refine inv.congr fun d x => ?_
    simp [heldMid]
  exact firstPhase_of_splitFree hld ops inv' hblank (Runs.Each.and clean.iommu hQ) clean.split
    fun c _ _ hfalse => hfalse.elim

/-- A clean batch is ready for its second phase. -/
theorem CleanBatch.completing {ops : List (UnmapEnv × UnmapOp)}
    (clean : CleanBatch P ld ops w) (inv : w.track.Inv P held) (hld : ld ∈ P.domains)
    (hblank : ∀ d x, held d x → (w.maptrack (d, x)).flags = 0) :
    Completing P held ld (unmapFirst P ld ops w).1 (unmapFirst P ld ops w).2 := by
  have phase := clean.firstPhase inv hld hblank clean.iommu
  refine ⟨?_, clean.split, phase.known hld (fun _ _ _ hq => hq.1) clean.split, ?_, ?_⟩
  · refine phase.inv.congr fun d x => ?_
    simp [heldMid]
  · exact fun c hc hrd hheld => phase.fresh c hc hrd hheld
  · exact phase.blank hblank

end Grant
