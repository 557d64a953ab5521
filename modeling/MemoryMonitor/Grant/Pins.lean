import MemoryMonitor.Grant.Track

/-!
# The grant code refines the ledger

Each operation of the grant code is followed on the ledger: a failed map leaves
it as it was (up to a further page of handles), a map that succeeds records one
mapping, the first half of an unmap takes down halves, the second gives handles
back. The invariant of the ledger then holds in every state between batches.
-/

namespace Grant

open World

variable {P : Platform} {w w' : World}

/-! ## Updates that do not show on the ledger -/

@[simp] theorem track_setStatusWord (w : World) (k : EntryKey) (word : BitVec 16) :
    (w.setStatusWord P k word).track = w.track := by
  unfold World.setStatusWord
  split <;> rfl

@[simp] theorem track_clearStatus (w : World) (k : EntryKey) (nr : Nat) :
    (w.clearStatus P k nr).track = w.track :=
  track_setStatusWord w k _

@[simp] theorem track_setStatus (raced : List Header) (k : EntryKey) (domid : Domid)
    (readonly mapflag : Bool) (w : World) :
    (setStatus P raced k domid readonly mapflag w).2.track = w.track := by
  unfold setStatus
  dsimp only
  split <;> rfl

theorem setStatus_active (raced : List Header) (k : EntryKey) (domid : Domid)
    (readonly mapflag : Bool) (w : World) :
    (setStatus P raced k domid readonly mapflag w).2.active = w.active := by
  unfold setStatus
  dsimp only
  split <;> rfl

theorem active_clearStatus (w : World) (k : EntryKey) (nr : Nat) :
    (w.clearStatus P k nr).active = w.active := by
  unfold World.clearStatus World.setStatusWord
  split <;> rfl

@[simp] theorem track_setPin (w : World) (k : EntryKey) (pin : BitVec 32) :
    (w.setPin k pin).track = w.track.setPin k pin := by
  have hpin : (fun k' => (Function.update w.active k { w.active k with pin } k').pin) =
      Function.update (fun k' => (w.active k').pin) k pin := by
    funext k'
    by_cases h : k' = k
    · rw [h, Function.update_self, Function.update_self]
    · rw [Function.update_of_ne h, Function.update_of_ne h]
  exact congrArg (fun f => (⟨f, w.maptrack, w.maptrackHead, w.maptrackLimit⟩ : Track)) hpin

/-- Overwriting an active entry without touching its pin word. -/
theorem track_setActive {k : EntryKey} {act : ActiveGrantEntry} (h : act.pin = (w.active k).pin) :
    (w.setActive k act).track = w.track := by
  have hpin : (fun k' => (Function.update w.active k act k').pin) =
      fun k' => (w.active k').pin := by
    funext k'
    by_cases hk : k' = k
    · rw [hk, Function.update_self, h]
    · rw [Function.update_of_ne hk]
  exact congrArg (fun f => (⟨f, w.maptrack, w.maptrackHead, w.maptrackLimit⟩ : Track)) hpin

@[simp] theorem track_setMapping (w : World) (s : Domid × Nat) (m : GrantMapping) :
    (w.setMapping s m).track = w.track.setMapping s m := rfl

/-! ## Moving references -/

/-- `w'` differs from `w` in the page references only. -/
structure OnlyRefs (w w' : World) : Prop where
  shared : w'.shared = w.shared
  status : w'.status = w.status
  active : w'.active = w.active
  maptrack : w'.maptrack = w.maptrack
  head : w'.maptrackHead = w.maptrackHead
  limit : w'.maptrackLimit = w.maptrackLimit

theorem OnlyRefs.refl (w : World) : OnlyRefs w w :=
  ⟨rfl, rfl, rfl, rfl, rfl, rfl⟩

theorem OnlyRefs.movePage (h : OnlyRefs w w') (f : Frame) (n : Int) :
    OnlyRefs w (w'.movePage f n) :=
  ⟨h.shared, h.status, h.active, h.maptrack, h.head, h.limit⟩

theorem OnlyRefs.moveType (h : OnlyRefs w w') (f : Frame) (n : Int) :
    OnlyRefs w (w'.moveType f n) :=
  ⟨h.shared, h.status, h.active, h.maptrack, h.head, h.limit⟩

theorem OnlyRefs.ite {p : Prop} [Decidable p] {v v' : World} (h : OnlyRefs w v)
    (h' : OnlyRefs w v') : OnlyRefs w (if p then v else v') := by
  split
  · exact h
  · exact h'

theorem OnlyRefs.track (h : OnlyRefs w w') : w'.track = w.track := by
  unfold World.track
  rw [h.active, h.maptrack, h.head, h.limit]

theorem onlyRefs_mapOwned (env : MapEnv) (ld : Domid) (op : MapGrantRef) (frame : Frame)
    (w : World) : OnlyRefs w (mapOwned P env ld op frame w).2.2 := by
  have hpage := (OnlyRefs.refl w).movePage frame 1
  have hfirst : OnlyRefs w (if hostMappingGetPageType P (isReadonly op.flags) ld op.dom = true then
      (w.movePage frame 1).moveType frame 1 else w.movePage frame 1) :=
    .ite (hpage.moveType frame 1) hpage
  unfold mapOwned
  dsimp only
  split
  · exact hpage.movePage frame (-1)
  · generalize (if hostMappingGetPageType P (isReadonly op.flags) ld op.dom = true then
      (w.movePage frame 1).moveType frame 1 else w.movePage frame 1) = w₁ at hfirst ⊢
    split
    · split
      · exact hfirst
      · split
        · have hagain : OnlyRefs w (if env.getPageAgain = true then w₁.movePage frame 1 else w₁) :=
            .ite (hfirst.movePage frame 1) hfirst
          exact .ite (hagain.moveType frame 1) hagain
        · exact hfirst
    · exact hfirst

theorem onlyRefs_mapRefs (env : MapEnv) (ld : Domid) (op : MapGrantRef) (frame : Frame)
    (w : World) : OnlyRefs w (mapRefs P env ld op frame w).2.2 := by
  unfold mapRefs
  split
  · split_ifs <;> exact .refl w
  · split
    · exact .refl w
    · exact ((OnlyRefs.refl w).movePage frame 1).movePage frame (-1)
    · exact onlyRefs_mapOwned env ld op frame w
    · exact onlyRefs_mapOwned env ld op frame w

theorem onlyRefs_undoRefs (ld : Domid) (op : MapGrantRef) (frame : Frame) (nrGets : Nat)
    (w : World) : OnlyRefs w (undoRefs P ld op frame nrGets w) := by
  have hput : ∀ {v : World} {p : Prop} [Decidable p], OnlyRefs w v →
      OnlyRefs w ((if p then v.moveType frame (-1) else v).movePage frame (-1)) :=
    fun h => (OnlyRefs.ite (h.moveType frame (-1)) h).movePage frame (-1)
  have hsecond : OnlyRefs w (if 1 < nrGets then
      (if isReadonly op.flags = false then w.moveType frame (-1) else w).movePage frame (-1)
      else w) :=
    .ite (hput (.refl w)) (.refl w)
  exact .ite (hput hsecond) hsecond

/-! ## Mapping -/

theorem addPin_setWidth (flags : BitVec 32) (pin : BitVec 32) :
    addPin (flags.setWidth 16) pin = addPin flags pin := by
  simp [addPin, isDevice, isHost, isReadonly]

theorem subPin_addPin {n : Nat} (flags : BitVec n) (pin : BitVec 32) :
    subPin flags (addPin flags pin) = pin := by
  unfold subPin addPin
  cases isDevice flags <;> cases isHost flags <;>
    simp only [Bool.false_eq_true, if_true, if_false]
  all_goals bv_omega

/-- A handle is the first free one, possibly after the list has grown. Nothing else changes. -/
theorem getMaptrackHandle_track {alloc : Bool} {ld : Domid} {h : Nat}
    (hget : getMaptrackHandle P alloc ld w = some (h, w')) :
    ∃ t, (t = w.track ∨ t = w.track.grow ld) ∧ h = t.head ld ∧
      t.head ld ≠ t.limit ld - 1 ∧ w'.track = t.pop ld ∧
      w' = { w with
        maptrack := w'.maptrack, maptrackHead := w'.maptrackHead, maptrackLimit := w'.maptrackLimit } := by
  have htake : ∀ {v : World}, takeMaptrackHandle ld v = some (h, w') →
      h = v.track.head ld ∧ v.track.head ld ≠ v.track.limit ld - 1 ∧ w'.track = v.track.pop ld ∧
        w' = { v with
          maptrack := w'.maptrack, maptrackHead := w'.maptrackHead, maptrackLimit := w'.maptrackLimit } := by
    intro v hv
    unfold takeMaptrackHandle at hv
    dsimp only at hv
    split at hv
    · cases hv
    · next hne =>
        obtain ⟨rfl, rfl⟩ := Prod.mk.inj (Option.some.inj hv)
        exact ⟨rfl, hne, rfl, rfl⟩
  unfold getMaptrackHandle at hget
  split at hget
  · next out hout =>
      rw [hget] at hout
      exact ⟨w.track, Or.inl rfl, htake hout⟩
  · split at hget
    · cases hget
    · split at hget
      · exact ⟨w.track.grow ld, Or.inr rfl, htake hget⟩
      · cases hget

/-- The checks a map request passes before it touches the entry. -/
structure MapGuard (P : Platform) (ld : Domid) (op : MapGrantRef) (w : World) : Prop where
  version : P.gtVersion op.dom ≠ .unset
  bound : op.ref < P.nrGrantEntries op.dom
  pinned : (w.active (op.dom, op.ref)).pin ≠ 0 →
    (w.active (op.dom, op.ref)).domid = ld ∧
      (w.active (op.dom, op.ref)).pin &&& Lanes.signs = 0

/-- The active entry as a first pin fills it in. -/
def freshEntry (ld : Domid) (gfn frame : Frame) (act : ActiveGrantEntry) : ActiveGrantEntry :=
  { act with gfn, domid := ld, frame, start := 0, length := 4096, isSubPage := false }

/-- Everything the locked section of a map can do. -/
inductive MapPinned (P : Platform) (env : MapEnv) (ld : Domid) (op : MapGrantRef) (w : World) :
    Except Gntst Pinned × World → Prop
  | refused (rc : Gntst) : MapPinned P env ld op w (.error rc, w)
  | badStatus (guard : MapGuard P ld op w)
      (hs : (setStatus P env.raced (op.dom, op.ref) ld (isReadonly op.flags) true w).1 ≠ .okay) :
      MapPinned P env ld op w
        (.error (setStatus P env.raced (op.dom, op.ref) ld (isReadonly op.flags) true w).1,
          (setStatus P env.raced (op.dom, op.ref) ld (isReadonly op.flags) true w).2)
  | badFrame (guard : MapGuard P ld op w) (hpin : (w.active (op.dom, op.ref)).pin = 0)
      (hs : (setStatus P env.raced (op.dom, op.ref) ld (isReadonly op.flags) true w).1 = .okay)
      (gfn : Frame) (rc : Gntst) (hframe : env.pagedFrame gfn (isReadonly op.flags) = .error rc) :
      MapPinned P env ld op w
        (.error rc, (setStatus P env.raced (op.dom, op.ref) ld (isReadonly op.flags) true w).2)
  | fresh (guard : MapGuard P ld op w) (hpin : (w.active (op.dom, op.ref)).pin = 0)
      (hs : (setStatus P env.raced (op.dom, op.ref) ld (isReadonly op.flags) true w).1 = .okay)
      (gfn frame : Frame) (hframe : env.pagedFrame gfn (isReadonly op.flags) = .ok frame)
      (out : Pinned × World)
      (hout : out = mapAddPins op
        ((setStatus P env.raced (op.dom, op.ref) ld (isReadonly op.flags) true w).2.setActive
          (op.dom, op.ref) (freshEntry ld gfn frame (w.active (op.dom, op.ref))))) :
      MapPinned P env ld op w (.ok out.1, out.2)
  | upgrade (guard : MapGuard P ld op w) (hpin : (w.active (op.dom, op.ref)).pin ≠ 0)
      (hro : isReadonly op.flags = false)
      (hwrite : (w.active (op.dom, op.ref)).pin &&& writeMask = 0)
      (hs : (setStatus P env.raced (op.dom, op.ref) ld (isReadonly op.flags) true w).1 = .okay)
      (out : Pinned × World)
      (hout : out = mapAddPins op
        (setStatus P env.raced (op.dom, op.ref) ld (isReadonly op.flags) true w).2) :
      MapPinned P env ld op w (.ok out.1, out.2)
  | again (guard : MapGuard P ld op w) (hpin : (w.active (op.dom, op.ref)).pin ≠ 0)
      (hro : isReadonly op.flags = false → (w.active (op.dom, op.ref)).pin &&& writeMask ≠ 0)
      (out : Pinned × World) (hout : out = mapAddPins op w) :
      MapPinned P env ld op w (.ok out.1, out.2)

theorem mapPin_cases (env : MapEnv) (ld : Domid) (op : MapGrantRef) (w : World) :
    MapPinned P env ld op w (mapPin P env ld op w) := by
  unfold mapPin
  dsimp only
  split
  · exact .refused _
  · next hversion =>
      split
      · exact .refused _
      · next hbound =>
          split
          · exact .refused _
          · next hpinned =>
              have guard : MapGuard P ld op w := by
                refine ⟨hversion, Nat.lt_of_not_le hbound, fun hpin => ?_⟩
                by_contra hbad
                refine hpinned ⟨hpin, ?_⟩
                by_cases hdom : (w.active (op.dom, op.ref)).domid = ld
                · exact Or.inr (Or.inl fun hsigns => hbad ⟨hdom, hsigns⟩)
                · exact Or.inl hdom
              split
              · next henter =>
                  split
                  · next hs => exact .badStatus guard hs
                  · next hs =>
                      have hs' := not_not.mp hs
                      split
                      · next hpin =>
                          split
                          · next rc hframe => exact .badFrame guard hpin hs' _ rc hframe
                          · next frame hframe => exact .fresh guard hpin hs' _ frame hframe _ rfl
                      · next hpin =>
                          obtain ⟨hro, hwrite⟩ := henter.resolve_left hpin
                          exact .upgrade guard hpin hro hwrite hs' _ rfl
              · next henter =>
                  have hpin := fun h => henter (Or.inl h)
                  exact .again guard hpin (fun hro hw => henter (Or.inr ⟨hro, hw⟩)) _ rfl

theorem track_mapAddPins (op : MapGrantRef) (w : World) :
    (mapAddPins op w).2.track = w.track.setPin (op.dom, op.ref)
      (addPin op.flags (w.track.pin (op.dom, op.ref))) := by
  unfold mapAddPins
  exact track_setPin w _ _

/-- A locked section that fails has not pinned anything. -/
theorem MapPinned.track_error {env : MapEnv} {ld : Domid} {op : MapGrantRef} {rc : Gntst}
    (h : MapPinned P env ld op w (.error rc, w')) : w'.track = w.track := by
  cases h with
  | refused => rfl
  | badStatus guard hs => exact track_setStatus _ _ _ _ _ _
  | badFrame guard hpin hs gfn _ hframe => exact track_setStatus _ _ _ _ _ _

/-- One that succeeds has passed the checks and added the pins. -/
theorem MapPinned.track_ok {env : MapEnv} {ld : Domid} {op : MapGrantRef} {p : Pinned}
    (h : MapPinned P env ld op w (.ok p, w')) :
    MapGuard P ld op w ∧ w'.track = w.track.setPin (op.dom, op.ref)
      (addPin op.flags (w.track.pin (op.dom, op.ref))) := by
  cases h with
  | fresh guard hpin hs gfn frame hframe out hout =>
      subst hout
      refine ⟨guard, ?_⟩
      have hset : ((setStatus P env.raced (op.dom, op.ref) ld (isReadonly op.flags) true w).2.setActive
          (op.dom, op.ref) (freshEntry ld gfn frame (w.active (op.dom, op.ref)))).track =
          w.track := by
        rw [track_setActive, track_setStatus]
        have htrack := congrArg (fun t => Track.pin t (op.dom, op.ref))
          (track_setStatus (P := P) env.raced (op.dom, op.ref) ld (isReadonly op.flags) true w)
        exact htrack.symm
      rw [track_mapAddPins, hset]
  | upgrade guard hpin hro hwrite hs out hout =>
      subst hout
      refine ⟨guard, ?_⟩
      rw [track_mapAddPins, track_setStatus]
  | again guard hpin hro out hout =>
      subst hout
      exact ⟨guard, track_mapAddPins op w⟩

@[simp] theorem track_undoPin (op : MapGrantRef) (w : World) :
    (undoPin P op w).track = w.track.setPin (op.dom, op.ref)
      (subPin op.flags (w.track.pin (op.dom, op.ref))) := by
  unfold undoPin
  dsimp only
  split_ifs <;> simp only [track_clearStatus, track_setPin] <;> rfl

/-- An entry that passes the checks has room in all its counters. -/
theorem MapGuard.room {ld : Domid} {op : MapGrantRef} (guard : MapGuard P ld op w) (i : Fin 4) :
    Lanes.lane (w.track.pin (op.dom, op.ref)) i < 254 := by
  change Lanes.lane (w.active (op.dom, op.ref)).pin i < 254
  by_cases hpin : (w.active (op.dom, op.ref)).pin = 0
  · rw [hpin, (Lanes.eq_zero_iff 0).mp rfl i]
    decide
  · exact (Lanes.lt_of_and_signs (guard.pinned hpin).2 i).trans (by decide)

/-- Everything a map request can do once it has a handle. -/
inductive MapDone (P : Platform) (env : MapEnv) (ld : Domid) (op : MapGrantRef) (h : Nat)
    (w : World) : MapOut × World → Prop
  | failed (rc : Gntst) (w₁ : World) (hpin : MapPinned P env ld op w (.error rc, w₁)) :
      MapDone P env ld op h w (.fail rc, putMaptrackHandle ld h w₁)
  | undone (p : Pinned) (w₁ : World) (hpin : MapPinned P env ld op w (.ok p, w₁))
      (rc? : Option Gntst) (nrGets : Nat) (w₂ : World)
      (hrefs : mapRefs P env ld op p.frame w₁ = (rc?, nrGets, w₂)) (rc : Gntst) :
      MapDone P env ld op h w
        (.fail rc, putMaptrackHandle ld h (undoPin P op (undoRefs P ld op p.frame nrGets w₂)))
  | mapped (p : Pinned) (w₁ : World) (hpin : MapPinned P env ld op w (.ok p, w₁))
      (nrGets : Nat) (w₂ : World) (hrefs : mapRefs P env ld op p.frame w₁ = (none, nrGets, w₂)) :
      MapDone P env ld op h w
        (⟨.okay, some (h, p.frame <<< 12)⟩,
          w₂.setMapping (ld, h) ⟨op.ref, op.flags.setWidth 16, op.dom⟩)

theorem mapWithHandle_cases (env : MapEnv) (ld : Domid) (op : MapGrantRef) (h : Nat)
    (w : World) : MapDone P env ld op h w (mapWithHandle P env ld op h w) := by
  have hcases := mapPin_cases (P := P) env ld op w
  unfold mapWithHandle
  rcases hpin : mapPin P env ld op w with ⟨rc | p, w₁⟩
  · rw [hpin] at hcases
    exact .failed rc w₁ hcases
  · rw [hpin] at hcases
    dsimp only
    rcases hrefs : mapRefs P env ld op p.frame w₁ with ⟨_ | rc, nrGets, w₂⟩
    · dsimp only
      split
      · exact .undone p w₁ hcases _ nrGets w₂ hrefs _
      · exact .mapped p w₁ hcases nrGets w₂ hrefs
    · exact .undone p w₁ hcases _ nrGets w₂ hrefs rc

/-- Everything a map request can do: it is refused, or obtains a handle. -/
inductive MapResult (P : Platform) (env : MapEnv) (ld : Domid) (op : MapGrantRef) (w : World) :
    MapOut × World → Prop
  | refused (rc : Gntst) : MapResult P env ld op w (.fail rc, w)
  | handled (hlive : Live op.flags) (hdom : op.dom ∈ P.domains) (h : Nat) (w₁ : World)
      (hget : getMaptrackHandle P env.alloc ld w = some (h, w₁)) (out : MapOut × World)
      (hdone : MapDone P env ld op h w₁ out) : MapResult P env ld op w out

theorem mapGrantRef_cases (env : MapEnv) (ld : Domid) (op : MapGrantRef) (w : World) :
    MapResult P env ld op w (mapGrantRef P env ld op w) := by
  unfold mapGrantRef
  split
  · exact .refused _
  · next hflags =>
      split
      · exact .refused _
      · split
        · exact .refused _
        · next hdom =>
            split
            · exact .refused _
            · split
              · exact .refused _
              · next h w₁ hget =>
                  have hlive : Live op.flags := by
                    by_contra hnot
                    exact hflags ((not_live_iff _).mp hnot)
                  exact .handled hlive (not_not.mp hdom) h w₁ hget _
                    (mapWithHandle_cases env ld op h w₁)

/-- Unpinning what a locked section has pinned. -/
theorem MapPinned.track_undone {env : MapEnv} {ld : Domid} {op : MapGrantRef} {p : Pinned}
    (hpin : MapPinned P env ld op w (.ok p, w')) {nrGets : Nat} {v : World}
    (hv : v.track = w'.track) :
    (undoPin P op (undoRefs P ld op p.frame nrGets v)).track = w.track := by
  have hset : (w.track.setPin (op.dom, op.ref)
      (addPin op.flags (w.track.pin (op.dom, op.ref)))).setPin (op.dom, op.ref)
      (w.track.pin (op.dom, op.ref)) = w.track := by
    simp [Track.setPin]
  rw [track_undoPin, (onlyRefs_undoRefs ld op p.frame nrGets v).track, hv, hpin.track_ok.2, Track.pin_setPin_self, subPin_addPin,
    hset]

/-- With a handle in hand: it is put back, or the mapping is recorded under it. -/
theorem MapDone.track {env : MapEnv} {ld : Domid} {op : MapGrantRef} {h : Nat}
    {out : MapOut × World} (hdone : MapDone P env ld op h w out) :
    (out.1.mapped = none ∧ out.2.track = w.track.put ld h) ∨
      (out.1.mapped ≠ none ∧ MapGuard P ld op w ∧ out.2.track =
        (w.track.setPin (op.dom, op.ref) (addPin op.flags (w.track.pin (op.dom, op.ref)))).setMapping
          (ld, h) ⟨op.ref, op.flags.setWidth 16, op.dom⟩) := by
  cases hdone with
  | failed rc w₁ hpin =>
      left
      exact ⟨rfl, congrArg (fun t => Track.put t ld h) hpin.track_error⟩
  | undone p w₁ hpin rc? nrGets w₂ hrefs rc =>
      left
      have hv := (onlyRefs_mapRefs (P := P) env ld op p.frame w₁).track
      rw [hrefs] at hv
      exact ⟨rfl, congrArg (fun t => Track.put t ld h) (hpin.track_undone hv)⟩
  | mapped p w₁ hpin nrGets w₂ hrefs =>
      right
      have hv := (onlyRefs_mapRefs (P := P) env ld op p.frame w₁).track
      rw [hrefs] at hv
      have hv' : w₂.track = w₁.track := hv
      obtain ⟨guard, htrack⟩ := hpin.track_ok
      refine ⟨Option.some_ne_none _, guard, ?_⟩
      rw [track_setMapping, hv', htrack]

/-- Taking a handle does not touch the entries. -/
theorem getMaptrackHandle_active {alloc : Bool} {ld : Domid} {h : Nat}
    (hget : getMaptrackHandle P alloc ld w = some (h, w')) : w'.active = w.active := by
  obtain ⟨-, -, -, -, -, hw⟩ := getMaptrackHandle_track hget
  rw [hw]

/-- A map either leaves the ledger alone or records one mapping, possibly after
a further page of handles. -/
theorem MapResult.track {env : MapEnv} {ld : Domid} {op : MapGrantRef}
    {out : MapOut × World} (hres : MapResult P env ld op w out) :
    ∃ t, (t = w.track ∨ t = w.track.grow ld) ∧
      ((out.1.mapped = none ∧ out.2.track = t) ∨
        (out.1.mapped ≠ none ∧ t.head ld ≠ t.limit ld - 1 ∧ Live op.flags ∧ op.dom ∈ P.domains ∧
          P.gtVersion op.dom ≠ .unset ∧ (∀ i, Lanes.lane (t.pin (op.dom, op.ref)) i < 254) ∧
          out.2.track = t.record ld ⟨op.ref, op.flags.setWidth 16, op.dom⟩)) := by
  cases hres with
  | refused rc => exact ⟨w.track, Or.inl rfl, Or.inl ⟨rfl, rfl⟩⟩
  | handled hlive hdom h w₁ hget _ hdone =>
      obtain ⟨t, ht, rfl, hne, hpop, -⟩ := getMaptrackHandle_track hget
      refine ⟨t, ht, ?_⟩
      have hpin : w₁.track.pin = t.pin := by
        rw [hpop]
        rfl
      rcases hdone.track with ⟨hnone, hput⟩ | ⟨hsome, guard, hrec⟩
      · left
        refine ⟨hnone, ?_⟩
        rw [hput, hpop, Track.put_pop]
      · right
        refine ⟨hsome, hne, hlive, hdom, guard.version, ?_, ?_⟩
        · intro i
          rw [← hpin]
          exact guard.room i
        · rw [hrec, hpop]
          unfold Track.record
          rw [addPin_setWidth]
          rfl

end Grant
