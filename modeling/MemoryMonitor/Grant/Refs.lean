import MemoryMonitor.Grant.Agreement

/-!
# Page references

The grant code holds a page reference for each half of each mapping, and a
writable type reference for the halves that take one. `tally` is what the
mappings of a ledger call for on a frame; `RefsMatch` says that the references
held are exactly these.

An unmap takes halves down at once and drops their references when its batch is
completed, so between the two phases the references exceed the tally by what the
pending requests still owe (`UnmapCommon.owed`). What a request owes is computed
from the flags it saw first, and agrees with what it took down only under
`DeviceNamed`.
-/

namespace Grant

open Finset World

/-! ## What mappings call for -/

/-- The kinds of reference on a page. -/
inductive RefKind where
  | page | writable
  deriving DecidableEq

def World.refs (w : World) : RefKind → Frame → Int
  | .page => w.pageRefs
  | .writable => w.typeRefs

/-- A page reference, with a type reference or not. -/
def oneRef (typed : Bool) : RefKind → Int
  | .page => 1
  | .writable => if typed then 1 else 0

/-- Whether one half of a mapping by `d` of a grant of `rd` has a type reference. -/
def halfTyped (P : Platform) (d rd : Domid) (device readonly : Bool) : Bool :=
  if device then !readonly else hostMappingGetPageType P readonly d rd

/-- The references that go with it. -/
def halfRefs (P : Platform) (d rd : Domid) (device readonly : Bool) (kind : RefKind) : Int :=
  oneRef (halfTyped P d rd device readonly) kind

/-- Those of the halves that are there. -/
def mappingRefs (P : Platform) (d : Domid) (m : GrantMapping) (kind : RefKind) : Int :=
  (if isDevice m.flags then halfRefs P d m.domid true (isReadonly m.flags) kind else 0) +
    if isHost m.flags then halfRefs P d m.domid false (isReadonly m.flags) kind else 0

/-- What a mapping calls for on the frame `f`. -/
def refsOn (P : Platform) (frames : EntryKey → Frame) (kind : RefKind) (f : Frame)
    (s : Domid × Nat) (m : GrantMapping) : Int :=
  if frames m.key = f then mappingRefs P s.1 m kind else 0

/-- What all mappings call for. -/
def tally (P : Platform) (frames : EntryKey → Frame) (kind : RefKind) (f : Frame) (t : Track) :
    Int :=
  ∑ s ∈ t.slots P, refsOn P frames kind f s (t.maptrack s)

/-- The frames of the active entries. -/
def World.frames (w : World) (k : EntryKey) : Frame := (w.active k).frame

section Tally

variable {P : Platform} {frames frames' : EntryKey → Frame} {kind : RefKind} {f : Frame}
  {t : Track} {held : Domid → Nat → Prop}

theorem refsOn_of_not_live {m : GrantMapping} (h : ¬ Live m.flags) (s : Domid × Nat) :
    refsOn P frames kind f s m = 0 := by
  obtain ⟨hdev, hhost⟩ := (not_live_iff _).mp h
  simp [refsOn, mappingRefs, hdev, hhost]

/-- Overwriting a maptrack entry exchanges what it calls for. -/
theorem tally_setMapping (P : Platform) (frames : EntryKey → Frame) (kind : RefKind) (f : Frame)
    {s : Domid × Nat} (hs : s ∈ t.slots P) (m : GrantMapping) :
    tally P frames kind f (t.setMapping s m) + refsOn P frames kind f s (t.maptrack s) =
      tally P frames kind f t + refsOn P frames kind f s m :=
  Totals.sum_update hs t.maptrack m (refsOn P frames kind f)

/-- Taking down a half takes away what it calls for. -/
theorem tally_drop (P : Platform) (frames : EntryKey → Frame) (kind : RefKind) (f : Frame)
    {d : Domid} {h : Nat} (hs : (d, h) ∈ t.slots P) {device : Bool}
    (hhalf : hasHalf device (t.maptrack (d, h)).flags = true) :
    tally P frames kind f (t.drop device d h) +
        (if frames (t.maptrack (d, h)).key = f then
          halfRefs P d (t.maptrack (d, h)).domid device (isReadonly (t.maptrack (d, h)).flags) kind
        else 0) =
      tally P frames kind f t := by
  have hset := tally_setMapping P frames kind f hs
    ((t.maptrack (d, h)).withFlags (clearHalf device (t.maptrack (d, h)).flags))
  change tally P frames kind f (t.setMapping (d, h)
    ((t.maptrack (d, h)).withFlags (clearHalf device (t.maptrack (d, h)).flags))) + _ = _
  generalize t.maptrack (d, h) = m at *
  have hsplit : refsOn P frames kind f (d, h) m =
      refsOn P frames kind f (d, h) (m.withFlags (clearHalf device m.flags)) +
        if frames m.key = f then halfRefs P d m.domid device (isReadonly m.flags) kind else 0 := by
    have hdev := hasHalf_clearHalf device true m.flags
    have hhost := hasHalf_clearHalf device false m.flags
    have hro := isReadonly_clearHalf device m.flags
    unfold refsOn mappingRefs
    have hkey : (m.withFlags (clearHalf device m.flags)).key = m.key := rfl
    have hdomid : (m.withFlags (clearHalf device m.flags)).domid = m.domid := rfl
    have hflags : (m.withFlags (clearHalf device m.flags)).flags = clearHalf device m.flags := rfl
    rw [hkey, hdomid, hflags, hro]
    by_cases hf : frames m.key = f
    · simp only [if_pos hf]
      cases device
      · simp only [hasHalf, Bool.false_eq_true, if_true, if_false] at hdev hhost hhalf
        simp [hdev, hhost, hhalf]
      · simp only [hasHalf, Bool.false_eq_true, if_true, if_false] at hdev hhost hhalf
        simp [hdev, hhost, hhalf, add_comm]
    · simp only [if_neg hf, add_zero]
  omega

/-- Giving back a handle with neither half changes nothing. -/
theorem tally_put {d : Domid} {h : Nat} (hs : (d, h) ∈ t.slots P)
    (hdead : ¬ Live (t.maptrack (d, h)).flags) :
    tally P frames kind f ((t.blank d h).put d h) = tally P frames kind f t := by
  have hset := tally_setMapping P frames kind f hs
    (((t.maptrack (d, h)).withFlags 0).withRef (t.head d))
  have hdead' : ¬ Live (((t.maptrack (d, h)).withFlags 0).withRef (t.head d)).flags :=
    not_live_zero
  rw [refsOn_of_not_live hdead, refsOn_of_not_live hdead', add_zero, add_zero] at hset
  rw [← hset]
  unfold tally Track.put Track.blank
  simp only [Track.setMapping, Function.update_self, Function.update_idem]
  rfl

theorem tally_record (inv : t.Inv P held) {d : Domid} (hd : d ∈ P.domains) (m : GrantMapping) :
    tally P frames kind f (t.record d m) =
      tally P frames kind f t + if frames m.key = f then mappingRefs P d m kind else 0 := by
  obtain ⟨hh, hflags, -⟩ := inv.head_free hd
  have hset := tally_setMapping P frames kind f
    (Track.mem_slots.mpr ⟨hd, hh⟩) m
  have hdead : ¬ Live (t.maptrack (d, t.head d)).flags := by
    rw [hflags]
    exact not_live_zero
  rw [refsOn_of_not_live hdead, add_zero] at hset
  exact hset

theorem tally_grow (d : Domid) :
    tally P frames kind f (t.grow d) = tally P frames kind f t :=
  Track.sum_grow P t d fun _ _ hdead => refsOn_of_not_live hdead _

/-- Only the frames of pinned entries matter. -/
theorem tally_frames (inv : t.Inv P held) (h : ∀ k, t.pin k ≠ 0 → frames' k = frames k) :
    tally P frames' kind f t = tally P frames kind f t := by
  refine sum_congr rfl ?_
  rintro ⟨d, x⟩ hs
  rw [Track.mem_slots] at hs
  by_cases hlive : Live (t.maptrack (d, x)).flags
  · obtain ⟨device, hhalf⟩ := (live_iff _).mp hlive
    have hpos := inv.lane_pos hs.1 hs.2 hhalf
    unfold refsOn
    rw [h]
    intro h0
    rw [h0, (Lanes.eq_zero_iff 0).mp rfl] at hpos
    exact absurd hpos (lt_irrefl 0)
  · rw [refsOn_of_not_live hlive, refsOn_of_not_live hlive]

end Tally

/-! ## What a completed unmap drops -/

section Owed

variable {P : Platform} {w w' : World} {kind : RefKind} {f : Frame} {ld : Domid}
  {c : UnmapCommon}

theorem refs_movePage (w : World) (frame : Frame) (n : Int) (kind : RefKind) (f : Frame) :
    (w.movePage frame n).refs kind f =
      w.refs kind f + if kind = .page ∧ f = frame then n else 0 := by
  cases kind
  · change Function.update w.pageRefs frame _ f = w.pageRefs f + _
    by_cases h : f = frame
    · rw [h, Function.update_self, if_pos ⟨rfl, rfl⟩]
    · rw [Function.update_of_ne h, if_neg fun hall => h hall.2, add_zero]
  · rw [if_neg fun hall => RefKind.noConfusion hall.1, add_zero]
    rfl

theorem refs_moveType (w : World) (frame : Frame) (n : Int) (kind : RefKind) (f : Frame) :
    (w.moveType frame n).refs kind f =
      w.refs kind f + if kind = .writable ∧ f = frame then n else 0 := by
  cases kind
  · rw [if_neg fun hall => RefKind.noConfusion hall.1, add_zero]
    rfl
  · change Function.update w.typeRefs frame _ f = w.typeRefs f + _
    by_cases h : f = frame
    · rw [h, Function.update_self, if_pos ⟨rfl, rfl⟩]
    · rw [Function.update_of_ne h, if_neg fun hall => h hall.2, add_zero]

/-- Taking the references of one half. -/
theorem refs_get (typed : Bool) (frame : Frame) (w : World) (kind : RefKind) (f : Frame) :
    (if typed then (w.movePage frame 1).moveType frame 1 else w.movePage frame 1).refs kind f =
      w.refs kind f + if f = frame then oneRef typed kind else 0 := by
  by_cases heq : f = frame <;> cases typed <;> cases kind <;>
    simp [heq, refs_movePage, refs_moveType, oneRef]

/-- Dropping them. -/
theorem refs_put (typed : Bool) (frame : Frame) (w : World) (kind : RefKind) (f : Frame) :
    ((if typed then w.moveType frame (-1) else w).movePage frame (-1)).refs kind f =
      w.refs kind f - if f = frame then oneRef typed kind else 0 := by
  by_cases heq : f = frame <;> cases typed <;> cases kind <;>
    simp [heq, refs_movePage, refs_moveType, oneRef] <;> rfl

theorem refs_clearStatus (w : World) (k : EntryKey) (nr : Nat) :
    (w.clearStatus P k nr).refs = w.refs := by
  unfold World.clearStatus World.setStatusWord
  split <;> rfl

/-- What the second half of a request drops on the frame `f`. -/
def UnmapCommon.owed (P : Platform) (ld : Domid) (kind : RefKind) (f : Frame) (w : World)
    (c : UnmapCommon) : Int :=
  match c.rd with
  | none => 0
  | some r =>
      if P.gtVersion r ≠ .unset ∧ c.frame = w.frames (c.entry ld r w) ∧ c.frame = f then
        (if isDevice c.flags then halfRefs P ld r true (isReadonly c.flags) kind else 0) +
          if c.op.hostAddr ≠ 0 ∧ isHost c.flags = true ∧ c.status = .okay then
            halfRefs P ld r false (isReadonly c.flags) kind
          else 0
      else 0

/-- It depends on the entry of the mapping and its frame only. -/
theorem UnmapCommon.owed_congr
    (href : c.rd ≠ none → (w'.maptrack (ld, c.op.handle)).ref = (w.maptrack (ld, c.op.handle)).ref)
    (hframes : w'.frames = w.frames) : c.owed P ld kind f w' = c.owed P ld kind f w := by
  unfold owed
  rcases hrd : c.rd with _ | r
  · rfl
  · have hentry : c.entry ld r w' = c.entry ld r w := by
      unfold UnmapCommon.entry
      rw [href (by rw [hrd]; exact Option.some_ne_none r)]
    dsimp only
    rw [hentry, hframes]

/-- For a request that is completed. -/
theorem UnmapCommon.owed_eq {r : Domid} (hr : c.rd = some r) (hversion : P.gtVersion r ≠ .unset)
    (hframe : c.frame = w.frames (c.entry ld r w)) :
    c.owed P ld kind f w =
      if c.frame = f then
        (if isDevice c.flags then halfRefs P ld r true (isReadonly c.flags) kind else 0) +
          if c.op.hostAddr ≠ 0 ∧ isHost c.flags = true ∧ c.status = .okay then
            halfRefs P ld r false (isReadonly c.flags) kind
          else 0
      else 0 := by
  unfold owed
  rw [hr]
  by_cases heq : c.frame = f
  · rw [if_pos heq]
    exact if_pos ⟨hversion, hframe, heq⟩
  · rw [if_neg heq]
    exact if_neg fun hall => heq hall.2.2

theorem refs_completeDevice {act : ActiveGrantEntry} (hact : c.frame = act.frame)
    (hf : P.isIomemPage f = false) (ld r : Domid) :
    (completeDevice P c act w).refs kind f = w.refs kind f -
      if isDevice c.flags = true ∧ c.frame = f then
        halfRefs P ld r true (isReadonly c.flags) kind else 0 := by
  unfold completeDevice
  split
  · next hdev =>
      have hw : (if isReadonly c.flags = true then w else w.moveType c.frame (-1)) =
          if halfTyped P ld r true (isReadonly c.flags) = true then w.moveType c.frame (-1)
          else w := by
        cases isReadonly c.flags <;> rfl
      dsimp only
      rw [hw, refs_put, ← halfRefs]
      simp only [hdev.1, true_and, eq_comm]
  · next hdev =>
      rw [if_neg, sub_zero]
      rintro ⟨hd, rfl⟩
      rw [hact] at hf
      exact hdev ⟨hd, hf⟩

theorem refs_completeHost (hf : P.isIomemPage f = false) (r : Domid) :
    (completeHost P ld r c w).refs kind f = w.refs kind f -
      if c.frame = f then halfRefs P ld r false (isReadonly c.flags) kind else 0 := by
  unfold completeHost
  split
  · refine (refs_put (halfTyped P ld r false (isReadonly c.flags)) c.frame w kind f).trans ?_
    rw [← halfRefs]
    simp only [eq_comm]
  · next hio =>
      rw [if_neg, sub_zero]
      rintro rfl
      exact hio hf

theorem refs_completeHandle (ld : Domid) (c : UnmapCommon) (w : World) :
    (completeHandle ld c w).refs = w.refs := by
  unfold completeHandle
  dsimp only
  split_ifs <;> rfl

theorem refs_completeStatus (k : EntryKey) (c : UnmapCommon) (w : World) :
    (completeStatus P k c w).refs = w.refs := by
  unfold completeStatus
  dsimp only
  split_ifs <;> simp only [refs_clearStatus]

/-- The second half drops what the request owes. -/
theorem SecondHalf.refs (h : SecondHalf P ld c w w') (hf : P.isIomemPage f = false) :
    w'.refs kind f = w.refs kind f - c.owed P ld kind f w := by
  cases h with
  | skipped hno =>
      have hzero : c.owed P ld kind f w = 0 := by
        unfold UnmapCommon.owed
        rcases hno with hno | ⟨r, hr, hno⟩
        · rw [hno]
        · rw [hr]
          dsimp only
          rw [if_neg]
          rintro ⟨hversion, hframe, -⟩
          rcases hno with hno | hno
          · exact hversion hno
          · exact hno hframe
      rw [hzero, sub_zero]
  | stopped r hr hversion hframe hhost hstatus =>
      rw [refs_completeDevice hframe hf ld r, UnmapCommon.owed_eq hr hversion hframe]
      by_cases heq : c.frame = f <;> simp [heq, hstatus]
  | withHost r hr hversion hframe hhost hstatus =>
      rw [refs_completeStatus, refs_completeHandle, refs_completeHost hf,
        refs_completeDevice hframe hf ld r, UnmapCommon.owed_eq hr hversion hframe]
      have hall : c.op.hostAddr ≠ 0 ∧ isHost c.flags = true ∧ c.status = .okay :=
        ⟨hhost.1, hhost.2, hstatus⟩
      rw [if_pos hall]
      by_cases heq : c.frame = f <;> simp [heq, sub_sub]
  | withoutHost r hr hversion hframe hhost =>
      have hnot : ¬ (c.op.hostAddr ≠ 0 ∧ isHost c.flags = true ∧ c.status = .okay) :=
        fun hall => hhost ⟨hall.1, hall.2.1⟩
      rw [refs_completeStatus, refs_completeHandle, refs_completeDevice hframe hf ld r,
        UnmapCommon.owed_eq hr hversion hframe, if_neg hnot]
      by_cases heq : c.frame = f <;> simp [heq]

end Owed

/-! ## What an unmap takes down -/

/-- A request for a mapping with a device half gives its bus address, and one
that access control refuses does not. -/
def DeviceNamed (P : Platform) (ld : Domid) (env : UnmapEnv) (op : UnmapOp) (w : World) : Prop :=
  Accepted P ld op w → isDevice (op.mapping ld w).flags = true →
    if env.xsm then op.busFrame ≠ 0 else op.busFrame ≠ op.frame ld w

section Taken

variable {P : Platform} {held : Domid → Nat → Prop} {w w' : World} {kind : RefKind} {f : Frame}
  {ld : Domid}

theorem Halved.frames (h : Halved w w') : w'.frames = w.frames :=
  funext h.frame

theorem Halved.owed (h : Halved w w') (c : UnmapCommon) :
    c.owed P ld kind f w' = c.owed P ld kind f w :=
  UnmapCommon.owed_congr (fun _ => congrArg Prod.snd (h.key (ld, c.op.handle))) h.frames

variable {env : UnmapEnv} {op : UnmapOp} {c : UnmapCommon}

theorem tally_dropDevice (kind : RefKind) (f : Frame) (hld : ld ∈ P.domains)
    (hbound : op.handle < w.maptrackLimit ld) :
    tally P w.frames kind f (dropDevice op ld w).track +
        (if op.TakesDevice ld w ∧ op.frame ld w = f then
          halfRefs P ld (op.mapping ld w).domid true (isReadonly (op.mapping ld w).flags) kind
        else 0) =
      tally P w.frames kind f w.track := by
  unfold dropDevice
  by_cases htakes : op.TakesDevice ld w
  · have htrack : (dropHalf true ld op.handle (op.mapping ld w).flags w).track =
        w.track.drop true ld op.handle := track_dropHalf rfl
    have hhalf : hasHalf true (w.track.maptrack (ld, op.handle)).flags = true := htakes.2
    rw [if_pos htakes, htrack]
    simp only [htakes, true_and]
    exact tally_drop P w.frames kind f (Track.mem_slots.mpr ⟨hld, hbound⟩) hhalf
  · rw [if_neg htakes, if_neg fun hall => htakes hall.1, add_zero]

theorem tally_dropHost (kind : RefKind) (f : Frame) (hld : ld ∈ P.domains)
    (hbound : op.handle < w.maptrackLimit ld) :
    tally P w.frames kind f (dropHost op ld w (dropDevice op ld w)).track +
        (if op.TakesHost ld w ∧ op.frame ld w = f then
          halfRefs P ld (op.mapping ld w).domid false (isReadonly (op.mapping ld w).flags) kind
        else 0) =
      tally P w.frames kind f (dropDevice op ld w).track := by
  unfold dropHost
  by_cases htakes : op.TakesHost ld w
  · obtain ⟨hhalf, hro⟩ := dropDevice_host htakes
    have hkept := dropDevice_halved op ld w
    have hkey := hkept.key (ld, op.handle)
    have hdomid : ((dropDevice op ld w).maptrack (ld, op.handle)).domid =
      (w.maptrack (ld, op.handle)).domid := congrArg Prod.fst hkey
    have hslot : (ld, op.handle) ∈ (dropDevice op ld w).track.slots P := by
      refine Track.mem_slots.mpr ⟨hld, ?_⟩
      change op.handle < (dropDevice op ld w).maptrackLimit ld
      rw [hkept.limit]
      exact hbound
    have hdrop := tally_drop P w.frames kind f hslot hhalf
    have hmap : (dropDevice op ld w).track.maptrack (ld, op.handle) =
      (dropDevice op ld w).maptrack (ld, op.handle) := rfl
    rw [hmap, hkey, hro, hdomid] at hdrop
    rw [if_pos htakes, track_dropHalf hro.symm]
    simp only [htakes, true_and]
    exact hdrop
  · rw [if_neg htakes, if_neg fun hall => htakes hall.1, add_zero]

/-- What a first half takes down is what the request then owes. -/
theorem FirstHalf.tally (kind : RefKind) (f : Frame) (h : FirstHalf P env ld op w (c, w'))
    (hld : ld ∈ P.domains)
    (hversion : c.rd ≠ none → P.gtVersion (op.mapping ld w).domid ≠ .unset)
    (hiommu : IommuOk P ld env op w) (hnamed : DeviceNamed P ld env op w) :
    tally P w'.frames kind f w'.track + c.owed P ld kind f w' =
      tally P w.frames kind f w.track := by
  have hkept := h.halved
  rw [hkept.frames, hkept.owed]
  cases h with
  | rejected _ hop hrd =>
      unfold UnmapCommon.owed
      rw [hrd, add_zero]
  | denied acc hxsm =>
      have hzero : UnmapCommon.owed P ld kind f w ⟨op, .permissionDenied, (op.mapping ld w).flags,
          op.busFrame, some (op.mapping ld w).domid⟩ = 0 := by
        by_cases hframe : op.busFrame = op.frame ld w
        · have hdev : isDevice (op.mapping ld w).flags = false := by
            by_contra hdev
            have hbad := hnamed acc (by simpa using hdev)
            rw [hxsm] at hbad
            exact hbad hframe
          rw [UnmapCommon.owed_eq rfl (hversion (Option.some_ne_none _)) hframe]
          simp [hdev]
        · exact if_neg fun hall => hframe hall.2.1
      rw [hzero, add_zero]
  | mismatch acc hxsm hbus hne =>
      have hzero : UnmapCommon.owed P ld kind f w ⟨op, .generalError, (op.mapping ld w).flags,
          op.busFrame, some (op.mapping ld w).domid⟩ = 0 :=
        if_neg fun hall => hne hall.2.1
      rw [hzero, add_zero]
  | replaceFailed acc hxsm hbus hhost rc hrc =>
      have hdrop := tally_dropDevice kind f hld acc.bound
      have htakes : op.TakesDevice ld w ↔ isDevice (op.mapping ld w).flags = true :=
        ⟨fun ht => ht.2, fun hdev => ⟨by simpa [hxsm] using hnamed acc hdev, hdev⟩⟩
      rw [UnmapCommon.owed_eq rfl (hversion (Option.some_ne_none _)) rfl, ← hdrop]
      simp only [htakes, hrc, and_false, if_false, add_zero]
      by_cases heq : op.frame ld w = f <;> simp [heq]
  | done acc hxsm hbus status hstatus =>
      have hdrop := tally_dropDevice kind f hld acc.bound
      have hdrop' := tally_dropHost kind f hld acc.bound
      have htakes : op.TakesDevice ld w ↔ isDevice (op.mapping ld w).flags = true :=
        ⟨fun ht => ht.2, fun hdev => ⟨by simpa [hxsm] using hnamed acc hdev, hdev⟩⟩
      have hhost : op.TakesHost ld w ↔
          op.hostAddr ≠ 0 ∧ isHost (op.mapping ld w).flags = true ∧ status = .okay := by
        constructor
        · intro ht
          refine ⟨ht.1, ht.2, ?_⟩
          rcases hstatus with hok | ⟨h1, h2, h3⟩
          · exact hok
          · rw [hiommu ht h1 h2] at h3
            cases h3
        · exact fun hall => ⟨hall.1, hall.2.1⟩
      rw [UnmapCommon.owed_eq rfl (hversion (Option.some_ne_none _)) rfl, ← hdrop, ← hdrop']
      simp only [htakes, hhost]
      by_cases heq : op.frame ld w = f
      · simp only [heq, if_true, and_true]
        omega
      · simp [heq]

theorem FirstPhase.tally {touched : Nat → Prop} {cs : List UnmapCommon}
    (h : FirstPhase P held ld
      (fun env op w => IommuOk P ld env op w ∧ DeviceNamed P ld env op w) touched w cs w')
    (hld : ld ∈ P.domains) :
    Grant.tally P w'.frames kind f w'.track + (cs.map (UnmapCommon.owed P ld kind f w')).sum =
      Grant.tally P w.frames kind f w.track := by
  induction h with
  | nil inv => exact add_zero _
  | @cons touched w w' w'' env op c cs half hQ inv hlive rest ih =>
      have hversion : c.rd ≠ none → P.gtVersion (op.mapping ld w).domid ≠ .unset := by
        intro hrd
        obtain ⟨r, hr⟩ := Option.ne_none_iff_exists'.mp hrd
        obtain ⟨acc, -, -⟩ := half.accepted hr
        exact (inv.named ld hld op.handle acc.bound (hlive hrd)).2
      have hhalf := half.tally kind f hld hversion hQ.1 hQ.2
      rw [List.map_cons, List.sum_cons, rest.halved.owed, ← hhalf, ← ih]
      omega

/-- The references exceed the tally by what the requests `cs` still owe. -/
def OwedRefs (P : Platform) (ld : Domid) (cs : List UnmapCommon) (w : World) : Prop :=
  ∀ kind f, P.isIomemPage f = false →
    w.refs kind f = tally P w.frames kind f w.track +
      (cs.map (UnmapCommon.owed P ld kind f w)).sum

/-- Completing a request settles what it owes. -/
theorem OwedRefs.step {cs : List UnmapCommon} (h : OwedRefs P ld (c :: cs) w)
    (hc : Completing P held ld (c :: cs) w) (hld : ld ∈ P.domains) :
    OwedRefs P ld cs (unmapCommonComplete P ld c w) := by
  have half := unmapCommonComplete_cases (P := P) ld c w
  have hframes : (unmapCommonComplete P ld c w).frames = w.frames := by
    unfold World.frames
    rw [half.active]
  intro kind f hf
  have howed := h kind f hf
  rw [List.map_cons, List.sum_cons] at howed
  -- neither the tally nor what the others owe has changed
  have htally : tally P w.frames kind f (unmapCommonComplete P ld c w).track =
      tally P w.frames kind f w.track := by
    rcases hc.track_cases with ⟨htrack, -⟩ | ⟨hrd, hdead, htrack⟩
    · rw [htrack]
    · rw [htrack]
      obtain ⟨r, hr⟩ := Option.ne_none_iff_exists'.mp hrd
      have hbound := (hc.known c (List.mem_cons_self ..) r hr).bound
      exact tally_put (Track.mem_slots.mpr ⟨hld, hbound⟩) hdead
  have hothers : cs.map (UnmapCommon.owed P ld kind f (unmapCommonComplete P ld c w)) =
      cs.map (UnmapCommon.owed P ld kind f w) := by
    refine List.map_congr_left fun c' hc' => ?_
    refine UnmapCommon.owed_congr (fun hrd' => ?_) hframes
    rw [hc.maptrack_of_mem hc' hrd']
  rw [half.refs hf, hframes, htally, hothers, howed]
  omega

theorem OwedRefs.run (cs : List UnmapCommon) (hld : ld ∈ P.domains) :
    ∀ {w : World}, OwedRefs P ld cs w → Completing P held ld cs w →
      OwedRefs P ld [] (unmapComplete P ld cs w) := by
  induction cs with
  | nil => exact fun h _ => h
  | cons c cs ih => exact fun h hc => ih (h.step hc hld) (hc.step hld)

/-- The references held are those the mappings call for. -/
def RefsMatch (P : Platform) (w : World) : Prop :=
  ∀ kind f, P.isIomemPage f = false → w.refs kind f = tally P w.frames kind f w.track

theorem RefsMatch.unmap {ops : List (UnmapEnv × UnmapOp)} (h : RefsMatch P w)
    (l : Ledger P held w) (hld : ld ∈ P.domains) (clean : CleanBatch P ld ops w)
    (named : EachRequest P ld (DeviceNamed P ld) ops w) :
    RefsMatch P (unmapBatch P ld ops w) := by
  have phase := clean.firstPhase l.inv hld l.blank named
  have hkept := phase.halved
  have hmid : OwedRefs P ld (unmapFirst P ld ops w).1 (unmapFirst P ld ops w).2 := by
    intro kind f hf
    rw [phase.tally hld, ← h kind f hf]
    cases kind
    · exact congrFun hkept.pageRefs f
    · exact congrFun hkept.typeRefs f
  intro kind f hf
  have hdone := hmid.run _ hld (clean.completing l.inv hld l.blank) kind f hf
  rw [List.map_nil, List.sum_nil, add_zero] at hdone
  exact hdone

end Taken

/-! ## Mapping -/

/-- A device mapping takes the type reference that its unmap drops, and the
references of the second half of a mapping are obtained. -/
structure MapRefsOk (P : Platform) (env : MapEnv) (ld : Domid) (op : MapGrantRef) : Prop where
  device : isDevice op.flags = true → isHost op.flags = false → isReadonly op.flags = false →
    ld = op.dom ∨ P.pagingModeExternal op.dom = false
  again : isDevice op.flags = true → isHost op.flags = true → env.getPageAgain = true ∧
    (isReadonly op.flags = false → env.getTypeAgain = true)

/-- The references behind a count of `nr_gets`. -/
def gets (P : Platform) (ld : Domid) (op : MapGrantRef) (nrGets : Nat) (kind : RefKind) : Int :=
  (if 0 < nrGets then halfRefs P ld op.dom false (isReadonly op.flags) kind else 0) +
    if 1 < nrGets then halfRefs P ld op.dom true (isReadonly op.flags) kind else 0

section Mapped

variable {P : Platform} {held : Domid → Nat → Prop} {w w' : World} {kind : RefKind} {f : Frame}
  {env : MapEnv} {ld : Domid} {op : MapGrantRef}

theorem refs_mapOwned (ok : MapRefsOk P env ld op) (frame : Frame) (w : World) (kind : RefKind)
    (f : Frame) :
    (mapOwned P env ld op frame w).2.2.refs kind f = w.refs kind f +
      if f = frame then gets P ld op (mapOwned P env ld op frame w).2.1 kind else 0 := by
  have hzero : gets P ld op 0 kind = 0 := by simp [gets]
  have hone : gets P ld op 1 kind = halfRefs P ld op.dom false (isReadonly op.flags) kind := by
    simp [gets]
  have htwo : gets P ld op 2 kind =
      gets P ld op 1 kind + halfRefs P ld op.dom true (isReadonly op.flags) kind := by
    simp [gets]
  have hfirst := refs_get (halfTyped P ld op.dom false (isReadonly op.flags)) frame w kind f
  rw [← halfRefs, ← hone] at hfirst
  unfold mapOwned
  dsimp only
  split
  · -- the type reference is refused and the page reference dropped again
    rw [refs_movePage, refs_movePage, hzero]
    split <;> simp
  · have hw : (if hostMappingGetPageType P (isReadonly op.flags) ld op.dom = true then
        (w.movePage frame 1).moveType frame 1 else w.movePage frame 1) =
        if halfTyped P ld op.dom false (isReadonly op.flags) = true then
          (w.movePage frame 1).moveType frame 1 else w.movePage frame 1 := rfl
    rw [hw]
    generalize (if halfTyped P ld op.dom false (isReadonly op.flags) = true then
      (w.movePage frame 1).moveType frame 1 else w.movePage frame 1) = w₁ at hfirst ⊢
    split
    · next hhost =>
        split
        · exact hfirst
        · split
          · next hdev =>
              obtain ⟨hpage, htype⟩ := ok.again hdev hhost
              have hsecond := refs_get (halfTyped P ld op.dom true (isReadonly op.flags)) frame w₁
                kind f
              have hworld : (if isReadonly op.flags = false ∧ env.getTypeAgain = true then
                  (if env.getPageAgain = true then w₁.movePage frame 1 else w₁).moveType frame 1
                  else if env.getPageAgain = true then w₁.movePage frame 1 else w₁) =
                  if halfTyped P ld op.dom true (isReadonly op.flags) = true then
                    (w₁.movePage frame 1).moveType frame 1 else w₁.movePage frame 1 := by
                cases hro : isReadonly op.flags
                · simp [hpage, htype hro, halfTyped]
                · simp [hpage, halfTyped]
              rw [hworld, hsecond, hfirst, htwo, halfRefs]
              split <;> omega
          · exact hfirst
    · exact hfirst

/-- The references behind `nr_gets` are the ones taken. -/
theorem refs_mapRefs (ok : MapRefsOk P env ld op) (frame : Frame) (w : World) (kind : RefKind)
    (f : Frame) :
    (mapRefs P env ld op frame w).2.2.refs kind f = w.refs kind f +
      if f = frame then gets P ld op (mapRefs P env ld op frame w).2.1 kind else 0 := by
  have hzero : gets P ld op 0 kind = 0 := by simp [gets]
  unfold mapRefs
  split
  · split_ifs <;> simp [hzero]
  · split
    · simp [hzero]
    · rw [refs_movePage, refs_movePage, hzero]
      split <;> simp
    · exact refs_mapOwned ok frame w kind f
    · exact refs_mapOwned ok frame w kind f

/-- And the ones dropped when the map is undone. -/
theorem refs_undoRefs (frame : Frame) (nrGets : Nat) (w : World) (kind : RefKind) (f : Frame) :
    (undoRefs P ld op frame nrGets w).refs kind f = w.refs kind f -
      if f = frame then gets P ld op nrGets kind else 0 := by
  have hsecond := refs_put (halfTyped P ld op.dom true (isReadonly op.flags)) frame w kind f
  have hfirst := fun v => refs_put (halfTyped P ld op.dom false (isReadonly op.flags)) frame v kind f
  have hworld : (if isReadonly op.flags = false then w.moveType frame (-1) else w) =
      if halfTyped P ld op.dom true (isReadonly op.flags) = true then w.moveType frame (-1)
      else w := by
    cases isReadonly op.flags <;> rfl
  unfold undoRefs
  dsimp only
  rw [hworld]
  by_cases h1 : 1 < nrGets
  · have h0 : 0 < nrGets := by omega
    rw [if_pos h1, if_pos h0]
    refine (hfirst _).trans ?_
    rw [hsecond, gets, if_pos h0, if_pos h1, halfRefs, halfRefs]
    split <;> omega
  · rw [if_neg h1]
    by_cases h0 : 0 < nrGets
    · rw [if_pos h0, gets, if_pos h0, if_neg h1, add_zero]
      exact hfirst w
    · simp [gets, h0, h1]

/-- On success they are what the new mapping calls for. -/
theorem gets_of_mapped (ok : MapRefsOk P env ld op) (hlive : Live op.flags) {frame : Frame}
    (hf : P.isIomemPage frame = false) {nrGets : Nat}
    (hrefs : mapRefs P env ld op frame w = (none, nrGets, w')) (kind : RefKind) :
    gets P ld op nrGets kind = mappingRefs P ld ⟨op.ref, op.flags.setWidth 16, op.dom⟩ kind := by
  have howned : mapOwned P env ld op frame w = (none, nrGets, w') := by
    unfold mapRefs at hrefs
    rw [if_neg (by rw [hf]; exact Bool.false_ne_true)] at hrefs
    cases howner : env.owner <;> rw [howner] at hrefs
    · exact hrefs
    · exact hrefs
    · cases (Prod.mk.inj hrefs).1
    · cases (Prod.mk.inj hrefs).1
  have hflags : ∀ n, n < 16 → (op.flags.setWidth 16).getLsbD n = op.flags.getLsbD n := by
    intro n hn
    simp [hn]
  have hmap : mappingRefs P ld ⟨op.ref, op.flags.setWidth 16, op.dom⟩ kind =
      (if isDevice op.flags then halfRefs P ld op.dom true (isReadonly op.flags) kind else 0) +
        if isHost op.flags then halfRefs P ld op.dom false (isReadonly op.flags) kind else 0 := by
    unfold mappingRefs isDevice isHost isReadonly
    rw [hflags 0 (by decide), hflags 1 (by decide), hflags 2 (by decide)]
  rw [hmap]
  unfold mapOwned at howned
  dsimp only at howned
  split at howned
  · cases (Prod.mk.inj howned).1
  · split at howned
    · next hhost =>
        split at howned
        · cases (Prod.mk.inj howned).1
        · split at howned
          · next hdev =>
              obtain rfl : 2 = nrGets := (Prod.mk.inj (Prod.mk.inj howned).2).1
              simp [gets, hhost, hdev, add_comm]
          · next hdev =>
              obtain rfl : 1 = nrGets := (Prod.mk.inj (Prod.mk.inj howned).2).1
              simp [gets, hhost, hdev]
    · next hhost =>
        obtain rfl : 1 = nrGets := (Prod.mk.inj (Prod.mk.inj howned).2).1
        -- a device mapping alone: the type reference is taken as for a host mapping
        have hhost' : isHost op.flags = false := by simpa using hhost
        have hdev : isDevice op.flags = true := by
          rcases hlive with hd | hh
          · exact hd
          · exact absurd hh hhost
        have htyped : halfTyped P ld op.dom false (isReadonly op.flags) =
            halfTyped P ld op.dom true (isReadonly op.flags) := by
          cases hro : isReadonly op.flags
          · rcases ok.device hdev hhost' hro with heq | hext
            · simp [halfTyped, hostMappingGetPageType, heq]
            · simp [halfTyped, hostMappingGetPageType, hext]
          · simp [halfTyped, hostMappingGetPageType]
        simp [gets, hhost', hdev, halfRefs, htyped]

/-! ### Frames and references along a map -/

theorem refs_setStatus (raced : List Header) (k : EntryKey) (domid : Domid)
    (readonly mapflag : Bool) (w : World) :
    (setStatus P raced k domid readonly mapflag w).2.refs = w.refs := by
  unfold setStatus
  dsimp only
  split <;> rfl

theorem frames_setActive_of_ne (w : World) {k k' : EntryKey} (act : ActiveGrantEntry)
    (hne : k' ≠ k) : (w.setActive k act).frames k' = w.frames k' := by
  change (Function.update w.active k act k').frame = (w.active k').frame
  rw [Function.update_of_ne hne]

theorem frames_setPin (w : World) (k : EntryKey) (pin : BitVec 32) :
    (w.setPin k pin).frames = w.frames := by
  funext k'
  change (Function.update w.active k _ k').frame = (w.active k').frame
  by_cases hk : k' = k
  · rw [hk, Function.update_self]
  · rw [Function.update_of_ne hk]

theorem frames_undoPin (op : MapGrantRef) (w : World) :
    (undoPin P op w).frames = w.frames := by
  have hclear : ∀ (v : World) (k : EntryKey) (nr : Nat),
      (v.clearStatus P k nr).frames = v.frames := by
    intro v k nr
    unfold World.frames
    rw [active_clearStatus]
  unfold undoPin
  dsimp only
  split_ifs <;> simp only [hclear, frames_setPin]

theorem refs_undoPin (op : MapGrantRef) (w : World) : (undoPin P op w).refs = w.refs := by
  unfold undoPin
  dsimp only
  split_ifs <;> (try simp only [refs_clearStatus]) <;> rfl

/-- The locked section takes no reference, and gives a frame only to an entry
that was not pinned. -/
theorem MapPinned.refs {out : Except Gntst Pinned × World} (h : MapPinned P env ld op w out) :
    out.2.refs = w.refs ∧ ∀ k, (w.active k).pin ≠ 0 → out.2.frames k = w.frames k := by
  have hset : ∀ k, (setStatus P env.raced (op.dom, op.ref) ld (isReadonly op.flags) true w).2.frames k
      = w.frames k := by
    intro k
    unfold World.frames
    rw [setStatus_active]
  have hstatus := refs_setStatus (P := P) env.raced (op.dom, op.ref) ld (isReadonly op.flags) true w
  cases h with
  | refused rc => exact ⟨rfl, fun _ _ => rfl⟩
  | badStatus guard hs => exact ⟨hstatus, fun k _ => hset k⟩
  | badFrame guard hpin hs gfn rc hframe => exact ⟨hstatus, fun k _ => hset k⟩
  | fresh guard hpin hs gfn frame hframe out hout =>
      subst hout
      refine ⟨hstatus, fun k hk => ?_⟩
      have hne : k ≠ (op.dom, op.ref) := by
        rintro rfl
        exact hk hpin
      unfold mapAddPins
      rw [frames_setPin]
      exact (frames_setActive_of_ne _ _ hne).trans (hset k)
  | upgrade guard hpin hro hwrite hs out hout =>
      subst hout
      refine ⟨hstatus, fun k _ => ?_⟩
      unfold mapAddPins
      rw [frames_setPin]
      exact hset k
  | again guard hpin hro out hout =>
      subst hout
      refine ⟨rfl, fun k _ => ?_⟩
      unfold mapAddPins
      rw [frames_setPin]

theorem MapPinned.frame {p : Pinned} (h : MapPinned P env ld op w (.ok p, w')) :
    w'.frames (op.dom, op.ref) = p.frame := by
  cases h with
  | fresh guard hpin hs gfn frame hframe out hout =>
      subst hout
      unfold mapAddPins
      rw [frames_setPin]
      rfl
  | upgrade guard hpin hro hwrite hs out hout =>
      subst hout
      unfold mapAddPins
      rw [frames_setPin]
      rfl
  | again guard hpin hro out hout =>
      subst hout
      unfold mapAddPins
      rw [frames_setPin]
      rfl

theorem OnlyRefs.frames (h : OnlyRefs w w') : w'.frames = w.frames := by
  unfold World.frames
  rw [h.active]

/-- What a map does to frames and references: pinned entries keep their frame, a
failed map keeps the references, and one that succeeds adds what the new mapping
calls for. -/
structure MapRefs (P : Platform) (ld : Domid) (op : MapGrantRef) (w : World)
    (out : MapOut × World) : Prop where
  frames : ∀ k, (w.active k).pin ≠ 0 → out.2.frames k = w.frames k
  failed : out.1.mapped = none → out.2.refs = w.refs
  mapped : out.1.mapped ≠ none → ∀ kind f, P.isIomemPage f = false →
    out.2.refs kind f = w.refs kind f +
      if out.2.frames (op.dom, op.ref) = f then
        mappingRefs P ld ⟨op.ref, op.flags.setWidth 16, op.dom⟩ kind else 0

theorem MapDone.mapRefs {h : Nat} {out : MapOut × World} (hdone : MapDone P env ld op h w out)
    (ok : MapRefsOk P env ld op) (hlive : Live op.flags) : MapRefs P ld op w out := by
  cases hdone with
  | failed rc w₁ hpin =>
      exact ⟨hpin.refs.2, fun _ => hpin.refs.1, fun hsome => absurd rfl hsome⟩
  | undone p w₁ hpin rc? nrGets w₂ hrefs rc =>
      have honly := onlyRefs_mapRefs (P := P) env ld op p.frame w₁
      have htaken := refs_mapRefs ok p.frame w₁
      rw [hrefs] at honly htaken
      refine ⟨fun k hk => ?_, fun _ => ?_, fun hsome => absurd rfl hsome⟩
      · change (undoPin P op (undoRefs P ld op p.frame nrGets w₂)).frames k = _
        rw [frames_undoPin, (onlyRefs_undoRefs ..).frames, honly.frames]
        exact hpin.refs.2 k hk
      · funext kind f
        change (undoPin P op (undoRefs P ld op p.frame nrGets w₂)).refs kind f = _
        have htaken' : w₂.refs kind f = w₁.refs kind f +
          if f = p.frame then gets P ld op nrGets kind else 0 := htaken kind f
        have hpinned : w₁.refs = w.refs := hpin.refs.1
        rw [refs_undoPin, refs_undoRefs, htaken', hpinned]
        omega
  | mapped p w₁ hpin nrGets w₂ hrefs =>
      have honly := onlyRefs_mapRefs (P := P) env ld op p.frame w₁
      have htaken := refs_mapRefs ok p.frame w₁
      rw [hrefs] at honly htaken
      have hframes : w₂.frames = w₁.frames := honly.frames
      refine ⟨fun k hk => ?_, fun hnone => absurd hnone (Option.some_ne_none _),
        fun _ kind f hf => ?_⟩
      · change w₂.frames k = _
        rw [hframes]
        exact hpin.refs.2 k hk
      · change w₂.refs kind f = w.refs kind f + if w₂.frames (op.dom, op.ref) = f then _ else 0
        have htaken' : w₂.refs kind f = w₁.refs kind f +
          if f = p.frame then gets P ld op nrGets kind else 0 := htaken kind f
        have hpinned : w₁.refs = w.refs := hpin.refs.1
        rw [htaken', hpinned, hframes, hpin.frame]
        by_cases heq : p.frame = f
        · rw [if_pos heq, if_pos heq.symm,
            gets_of_mapped ok hlive (by rw [heq]; exact hf) hrefs kind]
        · rw [if_neg heq, if_neg (Ne.symm heq)]

/-- Obtaining a handle takes no reference. -/
theorem getMaptrackHandle_refs {alloc : Bool} {h : Nat}
    (hget : getMaptrackHandle P alloc ld w = some (h, w')) : w'.refs = w.refs := by
  obtain ⟨-, -, -, -, -, hw⟩ := getMaptrackHandle_track hget
  rw [hw]
  rfl

theorem MapResult.mapRefs {out : MapOut × World} (hres : MapResult P env ld op w out)
    (ok : MapRefsOk P env ld op) : MapRefs P ld op w out := by
  cases hres with
  | refused rc => exact ⟨fun _ _ => rfl, fun _ => rfl, fun hsome => absurd rfl hsome⟩
  | handled hlive hdom h w₁ hget out hdone =>
      have hactive := getMaptrackHandle_active hget
      have hrefs := getMaptrackHandle_refs hget
      obtain ⟨hframes, hfailed, hmapped⟩ := hdone.mapRefs ok hlive
      refine ⟨fun k hk => ?_, fun hnone => (hfailed hnone).trans hrefs, ?_⟩
      · have hk' : (w₁.active k).pin ≠ 0 := by
          rw [hactive]
          exact hk
        rw [hframes k hk']
        unfold World.frames
        rw [hactive]
      · rw [← hrefs]
        exact hmapped

theorem RefsMatch.map (hmatch : RefsMatch P w) (l : Ledger P held w) (hld : ld ∈ P.domains)
    (ok : MapRefsOk P env ld op) : RefsMatch P (mapGrantRef P env ld op w).2 := by
  have hres := mapGrantRef_cases (P := P) env ld op w
  generalize mapGrantRef P env ld op w = out at hres
  obtain ⟨t, ht, hout⟩ := hres.track
  obtain ⟨hframes, hfailed, hmapped⟩ := hres.mapRefs ok
  have inv : t.Inv P held := by
    rcases ht with rfl | rfl
    · exact l.inv
    · exact l.inv.grow ld
  have htally : ∀ kind f, tally P out.2.frames kind f t = tally P w.frames kind f w.track := by
    intro kind f
    have hgrow : tally P w.frames kind f t = tally P w.frames kind f w.track := by
      rcases ht with rfl | rfl
      · rfl
      · exact tally_grow ld
    rw [← hgrow]
    refine tally_frames inv fun k hk => hframes k ?_
    have hpin : t.pin = w.track.pin := by
      rcases ht with rfl | rfl <;> rfl
    rw [hpin] at hk
    exact hk
  intro kind f hf
  rcases hout with ⟨hnone, htrack⟩ | ⟨hsome, -, -, -, -, -, htrack⟩
  · rw [htrack, htally, hfailed hnone]
    exact hmatch kind f hf
  · rw [htrack, tally_record inv hld, htally, hmapped hsome kind f hf, hmatch kind f hf]
    rfl

end Mapped

/-! ## Runs -/

/-- A map that takes all its references, or a clean batch whose requests name
the device halves. -/
def Step.RefsClean (P : Platform) (s : Step) (w : World) : Prop :=
  s.Clean P w ∧
    match s with
    | .store .. => True
    | .map env ld op => MapRefsOk P env ld op
    | .unmap ld ops _ => EachRequest P ld (DeviceNamed P ld) ops w
    | .release _ => False

/-- The pins count the mappings, and the references held on each frame that is
not I/O memory are those the mappings of it call for. -/
structure Referenced (P : Platform) (w : World) : Prop where
  pins : ∀ k, k.1 ∈ P.domains → ∀ device readonly,
    Lanes.lane (w.active k).pin (pinLane device readonly) =
      w.track.liveCount P device readonly k
  refs : RefsMatch P w

/-- In every run of maps and unmaps, partial and failing ones included, that
meets `Step.RefsClean` the references match the mappings. -/
theorem run_referenced {P : Platform} {w : World} {steps : List Step} (created : Created w)
    (clean : Runs.Each (Step.run P) (Step.RefsClean P) steps w) :
    Referenced P (Runs.run (Step.run P) steps w) := by
  have hinit : RefsMatch P w := by
    intro kind f _
    have htally : tally P w.frames kind f w.track = 0 := by
      refine Finset.sum_eq_zero fun s hs => refsOn_of_not_live ?_ s
      have hlt := (Track.mem_slots.mp hs).2
      change s.2 < w.maptrackLimit s.1 at hlt
      rw [created.limit] at hlt
      change ¬ Live (w.maptrack (s.1, s.2)).flags
      rw [created.maptrack s.1 s.2 hlt]
      exact not_live_zero
    rw [htally]
    cases kind
    · exact created.pageRefs f
    · exact created.typeRefs f
  have hrun : Ledger P (fun _ _ => False) (Runs.run (Step.run P) steps w) ∧
      RefsMatch P (Runs.run (Step.run P) steps w) := by
    refine clean.inv (I := fun w => Ledger P (fun _ _ => False) w ∧ RefsMatch P w) ?_
      ⟨created.ledger, hinit⟩
    rintro s w ⟨hclean, hs⟩ ⟨l, hmatch⟩
    cases s with
    | store k entry => exact ⟨⟨l.inv, l.blank⟩, hmatch⟩
    | map env ld op => exact ⟨l.map env op hclean, hmatch.map l hclean hs⟩
    | unmap ld ops hsize =>
        exact ⟨l.unmap hclean.1 hclean.2, hmatch.unmap l hclean.1 hclean.2 hs⟩
    | release d => exact hs.elim
  exact ⟨hrun.1.inv.pins, hrun.2⟩

/-- A mapping with both halves, unmapped as a whole. -/
theorem run_referenced_both :
    Referenced twoDomains (Runs.run (Step.run twoDomains)
      [grantFive, mapFive 3, .unmap 1 [(smoothUnmap, .unmapGrantRef 4096 0x7000 0)] (by decide)]
      createdWorld) := by
  refine run_referenced createdWorld_created ⟨⟨trivial, trivial⟩, ⟨one_mem_domains, ?_, ?_⟩,
    ⟨⟨one_mem_domains, ?_, ?_⟩, ?_⟩, trivial⟩
  · exact fun _ _ _ => Or.inr rfl
  · exact fun _ _ => ⟨rfl, fun _ => rfl⟩
  · exact List.pairwise_singleton _ _
  · exact ⟨fun _ _ _ => rfl, trivial⟩
  · refine ⟨fun _ _ => ?_, trivial⟩
    change UnmapOp.busFrame (.unmapGrantRef 4096 0x7000 0) ≠ 0
    decide

theorem refsOn_nonneg (P : Platform) (frames : EntryKey → Frame) (kind : RefKind) (f : Frame)
    (s : Domid × Nat) (m : GrantMapping) : 0 ≤ refsOn P frames kind f s m := by
  have hone : ∀ typed, 0 ≤ oneRef typed kind := by
    intro typed
    cases kind <;> cases typed <;> decide
  unfold refsOn mappingRefs halfRefs
  split
  · refine add_nonneg ?_ ?_
    · split
      · exact hone _
      · exact le_refl 0
    · split
      · exact hone _
      · exact le_refl 0
  · exact le_refl 0

/-- Unmapping only the host half of such a mapping drops the reference of its
device half too. -/
theorem host_unmap_drops_device :
    Created createdWorld ∧
      ¬ RefsMatch twoDomains (Runs.run (Step.run twoDomains)
        [grantFive, mapFive 3, .unmap 1 [(smoothUnmap, .unmapGrantRef 4096 0 0)] (by decide)]
        createdWorld) := by
  refine ⟨createdWorld_created, fun hmatch => ?_⟩
  have hrefs := hmatch .page 7 rfl
  generalize hw : Runs.run (Step.run twoDomains)
    [grantFive, mapFive 3, .unmap 1 [(smoothUnmap, .unmapGrantRef 4096 0 0)] (by decide)]
    createdWorld = w at hrefs
  have hzero : w.refs .page 7 = 0 := by
    rw [← hw]
    decide
  have hslot : (1, 0) ∈ w.track.slots twoDomains := by
    refine Track.mem_slots.mpr ⟨one_mem_domains, ?_⟩
    rw [← hw]
    decide
  have hone : refsOn twoDomains w.frames .page 7 (1, 0) (w.track.maptrack (1, 0)) = 1 := by
    rw [← hw]
    decide
  have hle := Finset.single_le_sum
    (fun s _ => refsOn_nonneg twoDomains w.frames .page 7 s (w.track.maptrack s)) hslot
  rw [hone] at hle
  rw [hzero, tally] at hrefs
  omega

end Grant
