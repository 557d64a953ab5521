import MemoryMonitor.Grant.Request

/-!
# Whether a copy stays inside what was granted

A grant of part of a page gives access to the bytes from `page_off` on, `length`
of them; `__gnttab_copy` compares the offset of a request with the start and its
length with the granted length, each on its own, and `act->start` is a field of
15 bits. So a request can reach beyond the granted end, and `Reaches` says when
it does not.
-/

namespace Grant

open World

/-- `page_off` and `length` of what an entry grants. -/
structure Extent where
  start : Nat
  length : Nat

/-- The bytes of the page that lie in it. -/
def Extent.bytes (e : Extent) : Set Nat := Set.Ico e.start (e.start + e.length)

/-- What a grant that is not transitive gives access to: what was recorded when
the entry was pinned, else what stands in the shared entry. -/
def World.entryExtent (P : Platform) (w : World) (k : EntryKey) : Extent :=
  if (w.active k).pin ≠ 0 then ⟨(w.active k).start.toNat, (w.active k).length.toNat⟩
  else if P.gtVersion k.1 = .v1 ∨ (w.shared k).hdr.flags &&& gtfSubPage = 0 then ⟨0, 4096⟩
  else ⟨(w.shared k).pageOff.toNat, (w.shared k).length.toNat⟩

/-- The state in which an acquire reads the entry: the guest may have stored into
it up to then. -/
def World.settled (P : Platform) (raced : List Header) (k : EntryKey) (ld : Domid)
    (readonly : Bool) (w : World) : World :=
  if Unpinned readonly (w.active k).pin then (setStatus P raced k ld readonly false w).2 else w

/-- What a grant gives access to. A transitive grant that is not pinned yet gives
access to what its referent does. -/
def grantedExtent (P : Platform) (env : AcquireEnv) (k : EntryKey) (ld : Domid) (readonly : Bool)
    (w : World) : Extent :=
  let w := w.settled P env.raced k ld readonly
  if (w.active k).pin = 0 ∧ w.IsTransitive P k then
    (w.settled P env.racedReferent (w.referent k) k.1 readonly).entryExtent P (w.referent k)
  else w.entryExtent P k

/-- The extent an acquire works with is the granted one, up to the width of
`act->start`. -/
structure Acquired.Matches (a : Acquired) (e : Extent) : Prop where
  start : a.pageOff.toNat = e.start % 2 ^ 15
  length : a.length.toNat = e.length

section Acquire

variable {P : Platform} {env : AcquireEnv} {w w' : World} {k : EntryKey} {ld : Domid}
  {readonly : Bool} {a : Acquired}

theorem settled_active (raced : List Header) (k : EntryKey) (ld : Domid) (readonly : Bool)
    (w : World) : (w.settled P raced k ld readonly).active = w.active := by
  unfold World.settled
  split
  · exact setStatus_active _ _ _ _ _ _
  · rfl

/-- What is read back after the entry was filled: what was granted if this is the
first pin, else what was recorded. -/
theorem pinForCopy_matches {g : Granted} {e : Extent}
    (hfirst : (w.active k).pin = 0 →
      g.start.toNat % 2 ^ 15 = e.start % 2 ^ 15 ∧ g.length.toNat = e.length)
    (hlater : (w.active k).pin ≠ 0 →
      e = ⟨(w.active k).start.toNat, (w.active k).length.toNat⟩)
    (h : pinForCopy k readonly g.owner (w.setActive k (fillEntry ld g (w.active k))) =
      (.ok a, w')) : a.Matches e := by
  have ha : a = ⟨(fillEntry ld g (w.active k)).frame, (fillEntry ld g (w.active k)).start,
      (fillEntry ld g (w.active k)).length, g.owner⟩ := by
    have hfst := Except.ok.inj (congrArg Prod.fst h)
    rw [← hfst]
    simp only [World.setActive, Function.update_self]
  rw [ha]
  unfold fillEntry
  by_cases h0 : (w.active k).pin = 0
  · rcases hfirst h0 with ⟨hstart, hlength⟩
    rw [if_pos h0]
    refine ⟨?_, hlength⟩
    rw [← hstart]
    exact BitVec.toNat_setWidth 15 g.start
  · rw [if_neg h0, hlater h0]
    exact ⟨(Nat.mod_eq_of_lt (w.active k).start.isLt).symm, rfl⟩

/-- A pin that is not the first of its kind. -/
theorem pinForCopy_again (hno : ¬ Unpinned readonly (w.active k).pin) {owner : Domid}
    (h : pinForCopy k readonly owner w = (.ok a, w')) : a.Matches (w.entryExtent P k) := by
  have hpin : (w.active k).pin ≠ 0 := by
    intro h0
    rw [h0] at hno
    exact hno (unpinned_zero readonly)
  have ha := Except.ok.inj (congrArg Prod.fst h)
  rw [← ha]
  unfold World.entryExtent
  rw [if_pos hpin]
  exact ⟨(Nat.mod_eq_of_lt (w.active k).start.isLt).symm, rfl⟩

theorem readGrant_extent {onTransitive : EntryKey → World → Except Gntst Granted × World}
    {g : Granted} (ht : ¬ w.IsTransitive P k)
    (h : readGrant P env onTransitive k ld readonly w = (.ok g, w')) :
    w' = w ∧ ((w.active k).pin = 0 →
      g.start.toNat = (w.entryExtent P k).start ∧
        g.length.toNat = (w.entryExtent P k).length) := by
  have hrc := readGrant_cases (P := P) env onTransitive k ld readonly w
  rw [h] at hrc
  unfold World.entryExtent
  cases hrc with
  | transitive hbad => exact absurd hbad ht
  | full _ hfull =>
      refine ⟨rfl, fun h0 => ?_⟩
      rw [if_neg (not_not.mpr h0), if_pos hfull]
      exact ⟨rfl, rfl⟩
  | sub _ hversion hsub =>
      refine ⟨rfl, fun h0 => ?_⟩
      have hpart : ¬ (P.gtVersion k.1 = .v1 ∨ (w.shared k).hdr.flags &&& gtfSubPage = 0) := by
        rintro (hbad | hbad)
        · exact hversion hbad
        · exact hsub hbad
      rw [if_neg (not_not.mpr h0), if_neg hpart]
      exact ⟨rfl, rfl⟩

theorem entryExtent_of_pinned (h : (w.active k).pin ≠ 0) :
    w.entryExtent P k = ⟨(w.active k).start.toNat, (w.active k).length.toNat⟩ := by
  unfold World.entryExtent
  rw [if_pos h]

theorem acquireReferent_matches
    (h : acquireReferent P env k ld readonly w = (.ok a, w')) :
    a.Matches ((w.settled P env.racedReferent k ld readonly).entryExtent P k) := by
  have hcase := acquireEntry_cases (P := P) env env.racedReferent
    (fun _ w => (.error .generalError, w)) k ld readonly w
  unfold acquireReferent at h
  rw [h] at hcase
  unfold World.settled
  generalize hout : ((.ok a, w') : Except Gntst Acquired × World) = out at hcase
  cases hcase with
  | refused | badStatus | unread => cases hout
  | again guard hno =>
      rw [if_neg hno]
      exact pinForCopy_again hno hout.symm
  | read guard henter hs g w₁ hread =>
      rw [if_pos henter]
      have ht : ¬ (setStatus P env.racedReferent k ld readonly false w).2.IsTransitive P k := by
        intro hbad
        unfold readGrant at hread
        rw [if_pos hbad] at hread
        cases hread
      rcases readGrant_extent ht hread with ⟨rfl, hextent⟩
      refine pinForCopy_matches (fun h0 => ?_) entryExtent_of_pinned hout.symm
      rw [(hextent h0).1]
      exact ⟨rfl, (hextent h0).2⟩

theorem acquireGrantForCopy_matches
    (h : acquireGrantForCopy P env k ld readonly w = (.ok a, w')) :
    a.Matches (grantedExtent P env k ld readonly w) ∧ a.frame = (w'.active k).frame := by
  have hcase := acquireEntry_cases (P := P) env env.raced (acquireTransitive P env k readonly) k ld
    readonly w
  unfold acquireGrantForCopy at h
  rw [h] at hcase
  -- the frame is read from the entry in every case
  have hframe : ∀ {owner : Domid} {v : World}, pinForCopy k readonly owner v = (.ok a, w') →
      a.frame = (w'.active k).frame := by
    intro owner v hpin
    have ha := Except.ok.inj (congrArg Prod.fst hpin)
    have hw : (pinForCopy k readonly owner v).2 = w' := congrArg Prod.snd hpin
    rw [← ha, ← hw]
    simp only [pinForCopy, World.setPin, World.setActive, Function.update_self]
  unfold grantedExtent
  generalize hv : w.settled P env.raced k ld readonly = v
  have hactive : v.active = w.active := by
    rw [← hv]
    exact settled_active _ _ _ _ _
  generalize hout : ((.ok a, w') : Except Gntst Acquired × World) = out at hcase
  cases hcase with
  | refused | badStatus | unread => cases hout
  | again guard hno =>
      refine ⟨?_, hframe hout.symm⟩
      obtain rfl : w = v := by
        rw [← hv]
        exact (if_neg hno).symm
      have hpin : (w.active k).pin ≠ 0 := by
        intro h0
        rw [h0] at hno
        exact hno (unpinned_zero readonly)
      dsimp only
      rw [if_neg fun hbad => hpin hbad.1]
      exact pinForCopy_again hno hout.symm
  | read guard henter hs g w₁ hread =>
      refine ⟨?_, hframe hout.symm⟩
      obtain rfl : (setStatus P env.raced k ld readonly false w).2 = v := by
        rw [← hv]
        exact (if_pos henter).symm
      generalize (setStatus P env.raced k ld readonly false w).2 = v at hread hactive ⊢
      dsimp only
      by_cases ht : v.IsTransitive P k
      · unfold readGrant at hread
        rw [if_pos ht] at hread
        have hpin := acquireTransitive_pin (P := P) env k readonly (v.referent k) v
        have htc := acquireTransitive_cases (P := P) env k readonly (v.referent k) v
        rw [hread] at hpin htc
        refine pinForCopy_matches (fun h0 => ?_) (fun h0 => ?_) hout.symm
        · rw [hpin] at h0
          rw [if_pos ⟨h0, ht⟩]
          cases htc with
          | acquired hne hdom a' w₁ hacq =>
              have hmatch := acquireReferent_matches hacq
              refine ⟨?_, hmatch.length⟩
              change (a'.pageOff.setWidth 16).toNat % 2 ^ 15 = _
              rw [BitVec.toNat_setWidth, ← hmatch.start]
              have hlt := a'.pageOff.isLt
              omega
        · rw [hpin] at h0 ⊢
          rw [if_neg fun hbad => h0 hbad.1]
          exact entryExtent_of_pinned h0
      · rcases readGrant_extent ht hread with ⟨rfl, hextent⟩
        rw [if_neg fun hbad => ht hbad.2]
        refine pinForCopy_matches (fun h0 => ?_) entryExtent_of_pinned hout.symm
        rw [(hextent h0).1]
        exact ⟨rfl, (hextent h0).2⟩

end Acquire

/-! ## A request that succeeds -/

/-- The bytes of the source page that are read. -/
def Transfer.read (t : Transfer) : Set Nat :=
  Set.Ico t.srcOffset.toNat (t.srcOffset.toNat + t.len.toNat)

/-- The bytes of the destination page that are written. -/
def Transfer.written (t : Transfer) : Set Nat :=
  Set.Ico t.dstOffset.toNat (t.dstOffset.toNat + t.len.toNat)

/-- The bytes `used` of `frame` are bytes the grant `k` gives access to, in the
frame that is pinned for it. -/
def ThroughGrant (P : Platform) (env : AcquireEnv) (k : EntryKey) (ld : Domid) (readonly : Bool)
    (w : World) (frame : Frame) (used : Set Nat) : Prop :=
  frame = ((acquireGrantForCopy P env k ld readonly w).2.active k).frame ∧
    used ⊆ (grantedExtent P env k ld readonly w).bytes

/-- The state in which the destination is acquired. -/
def World.afterSource (P : Platform) (env : CopyEnv) (current : Domid) (op : GnttabCopy)
    (sd : Domid) (w : World) : World :=
  (acquireSide P env.source current op.srcIsGref sd op.source op.len true w).2.2

/-- The bytes moved stay inside what was granted, and inside a page. An entry the
source pins itself is there for the destination with its recorded extent; where
that is not the granted one, the source is outside already. -/
structure Confined (P : Platform) (env : CopyEnv) (current : Domid) (op : GnttabCopy)
    (sd dd : Domid) (w : World) (t : Transfer) : Prop where
  page : t.read ⊆ Set.Iio 4096 ∧ t.written ⊆ Set.Iio 4096
  source : op.srcIsGref = true →
    ThroughGrant P env.source (sd, op.source.ref) current true w t.srcFrame t.read
  dest : op.destIsGref = true →
    ThroughGrant P env.dest (dd, op.dest.ref) current false (w.afterSource P env current op sd)
      t.dstFrame t.written

/-- The request ends where the granted bytes end, or before; and their start fits
into the field it is kept in. -/
def Extent.EndsInside (e : Extent) (offset len : BitVec 16) : Prop :=
  e.start < 2 ^ 15 ∧ offset.toNat + len.toNat ≤ e.start + e.length

/-- Nothing is moved, or no side ends too late. -/
def GnttabCopy.Fits (P : Platform) (env : CopyEnv) (current : Domid) (op : GnttabCopy)
    (sd dd : Domid) (w : World) : Prop :=
  op.len = 0 ∨
    ((op.srcIsGref = true →
      (grantedExtent P env.source (sd, op.source.ref) current true w).EndsInside op.source.offset
        op.len) ∧
    (op.destIsGref = true →
      (grantedExtent P env.dest (dd, op.dest.ref) current false
        (w.afterSource P env current op sd)).EndsInside op.dest.offset op.len))

section Request

variable {P : Platform} {env : CopyEnv} {current : Domid} {op : GnttabCopy} {sd dd : Domid}
  {w w' : World} {t : Transfer} {n : Nat}

theorem acquireSide_confined {env : AcquireEnv} {isGref : Bool} {d : Domid} {ptr : CopyPtr}
    {len : BitVec 16} {readonly held : Bool} {frame : Frame}
    (h : acquireSide P env current isGref d ptr len readonly w = (.ok frame, held, w'))
    (hpage : ptr.offset.toNat + len.toNat ≤ 4096) (hgref : isGref = true) :
    ThroughGrant P env (d, ptr.ref) current readonly w frame
        (Set.Ico ptr.offset.toNat (ptr.offset.toNat + len.toNat)) ↔
      len = 0 ∨
        (grantedExtent P env (d, ptr.ref) current readonly w).EndsInside ptr.offset len := by
  have hcase := acquireSide_cases (P := P) env current isGref d ptr len readonly w
  rw [h] at hcase
  cases hcase with
  | byFrame hbad =>
      rw [hgref] at hbad
      cases hbad
  | usable _ a _ hacq hoff hlen =>
      rcases acquireGrantForCopy_matches hacq with ⟨⟨hstart, hlength⟩, hframe⟩
      unfold ThroughGrant Extent.bytes Extent.EndsInside
      rw [hacq, and_iff_right hframe]
      generalize grantedExtent P env (d, ptr.ref) current readonly w = e at hstart hlength ⊢
      rw [hstart] at hoff
      have hzero : len = 0 ↔ len.toNat = 0 := by
        rw [← BitVec.toNat_inj]
        exact Iff.rfl
      rw [hzero]
      constructor
      · intro hsub
        by_cases h0 : len.toNat = 0
        · exact Or.inl h0
        · have hbounds := (Set.Ico_subset_Ico_iff (by omega)).mp hsub
          exact Or.inr ⟨by omega, hbounds.2⟩
      · rintro (h0 | ⟨hlow, hhigh⟩)
        · rw [h0, add_zero, Set.Ico_self]
          exact Set.empty_subset _
        · rw [Nat.mod_eq_of_lt hlow] at hoff
          exact Set.Ico_subset_Ico hoff hhigh

/-- A request that moves bytes has passed the checks, and has both sides. -/
theorem gnttabCopy_moved {status : Gntst}
    (h : gnttabCopy P n env current op w = some (⟨status, some t⟩, w')) :
    ∃ sd dd, op.Starts P env current sd dd ∧ ∃ haveS haveD w₂,
      acquireSide P env.source current op.srcIsGref sd op.source op.len true w =
        (.ok t.srcFrame, haveS, w.afterSource P env current op sd) ∧
      acquireSide P env.dest current op.destIsGref dd op.dest op.len false
        (w.afterSource P env current op sd) = (.ok t.dstFrame, haveD, w₂) ∧
      t.srcOffset = op.source.offset ∧ t.dstOffset = op.dest.offset ∧ t.len = op.len := by
  by_cases hstarts : ∃ sd dd, op.Starts P env current sd dd
  · rcases hstarts with ⟨sd, dd, hs⟩
    refine ⟨sd, dd, hs, ?_⟩
    rw [gnttabCopy_of_starts hs] at h
    rcases Option.bind_eq_some_iff.mp h with ⟨w₃, -, h⟩
    rcases Option.map_eq_some_iff.mp h with ⟨w₄, -, h⟩
    have hbody : (copyBody P env current op sd dd w).1 = ⟨status, some t⟩ := congrArg Prod.fst h
    unfold World.afterSource
    unfold copyBody at hbody
    rcases hsrc : acquireSide P env.source current op.srcIsGref sd op.source op.len true w
      with ⟨rS, haveS, w₁⟩
    rw [hsrc] at hbody
    cases rS with
    | error rc => cases hbody
    | ok sFrame =>
        dsimp only at hbody ⊢
        rcases hdst : acquireSide P env.dest current op.destIsGref dd op.dest op.len false w₁
          with ⟨rD, haveD, w₂⟩
        rw [hdst] at hbody
        cases rD with
        | error rc => cases hbody
        | ok dFrame =>
            have ht := Option.some.inj (congrArg CopyOut.moved hbody)
            rw [← ht]
            exact ⟨haveS, haveD, w₂, rfl, rfl, rfl, rfl, rfl⟩
  · rcases gnttabCopy_of_not_starts (w := w) (fun sd dd hs => hstarts ⟨sd, dd, hs⟩) n
      with ⟨status', hnone⟩
    rw [hnone] at h
    cases h

/-- A request that succeeds stays inside what was granted exactly if it fits. -/
theorem copy_confined_iff (h : gnttabCopy P n env current op w = some (⟨.okay, some t⟩, w')) :
    ∃ sd dd, op.Starts P env current sd dd ∧
      (Confined P env current op sd dd w t ↔ op.Fits P env current sd dd w) := by
  rcases gnttabCopy_moved h with ⟨sd, dd, hs, haveS, haveD, w₂, hsrc, hdst, hso, hdo, hlen⟩
  have hread : t.read =
      Set.Ico op.source.offset.toNat (op.source.offset.toNat + op.len.toNat) := by
    unfold Transfer.read
    rw [hso, hlen]
  have hwritten : t.written =
      Set.Ico op.dest.offset.toNat (op.dest.offset.toNat + op.len.toNat) := by
    unfold Transfer.written
    rw [hdo, hlen]
  have hS := acquireSide_confined hsrc hs.inPage.1
  have hD := acquireSide_confined hdst hs.inPage.2
  rw [← hread] at hS
  rw [← hwritten] at hD
  refine ⟨sd, dd, hs, ?_⟩
  unfold GnttabCopy.Fits
  constructor
  · intro hconf
    by_cases h0 : op.len = 0
    · exact Or.inl h0
    · refine Or.inr ⟨fun hgref => ?_, fun hgref => ?_⟩
      · exact ((hS hgref).mp (hconf.source hgref)).resolve_left h0
      · exact ((hD hgref).mp (hconf.dest hgref)).resolve_left h0
  · intro hfits
    refine ⟨?_, fun hgref => ?_, fun hgref => ?_⟩
    · rw [hread, hwritten]
      constructor
      · intro b hb
        exact lt_of_lt_of_le hb.2 hs.inPage.1
      · intro b hb
        exact lt_of_lt_of_le hb.2 hs.inPage.2
    · exact (hS hgref).mpr (hfits.imp_right fun hall => hall.1 hgref)
    · exact (hD hgref).mpr (hfits.imp_right fun hall => hall.2 hgref)

end Request

/-- A request through a grant of a whole page. -/
theorem copy_confined_full :
    ∃ sd dd, copyFive.Starts twoDomains smoothCopy 0 sd dd ∧
      (Confined twoDomains smoothCopy 0 copyFive sd dd grantedWorld ⟨7, 0, 9, 0, 16⟩ ↔
        copyFive.Fits twoDomains smoothCopy 0 sd dd grantedWorld) := by
  have h : ∃ w', gnttabCopy twoDomains 1 smoothCopy 0 copyFive grantedWorld =
      some (⟨.okay, some ⟨7, 0, 9, 0, 16⟩⟩, w') := ⟨_, rfl⟩
  rcases h with ⟨w', h⟩
  exact copy_confined_iff h

/-- Domain 1 has granted the first 16 bytes of its frame 7. -/
def subPageWorld : World :=
  { createdWorld with
    shared := fun k =>
      if k = (1, 5) then ⟨⟨gtfPermitAccess ||| gtfSubPage, 0⟩, 0, 16, 7⟩ else ⟨⟨0, 0⟩, 0, 0, 0⟩ }

/-- Domain 0 asks for 16 bytes from offset 8 on. -/
def copyPast : GnttabCopy := ⟨⟨5, 1, 8⟩, ⟨9, domidSelf, 0⟩, 16, 1⟩

/-- It gets them, also the 8 bytes that were not granted. -/
theorem copy_reads_past_grant :
    (∃ w', gnttabCopy twoDomainsV2 2 smoothCopy 0 copyPast subPageWorld =
      some (⟨.okay, some ⟨7, 8, 9, 0, 16⟩⟩, w')) ∧
    copyPast.Starts twoDomainsV2 smoothCopy 0 1 0 ∧
    ¬ Confined twoDomainsV2 smoothCopy 0 copyPast 1 0 subPageWorld ⟨7, 8, 9, 0, 16⟩ := by
  refine ⟨⟨_, rfl⟩, ⟨by decide, by decide, rfl, rfl, rfl⟩, fun hconf => ?_⟩
  have hextent : grantedExtent twoDomainsV2 smoothAcquire (1, 5) 0 true subPageWorld = ⟨0, 16⟩ :=
    rfl
  have hsub : Set.Ico 8 24 ⊆ (grantedExtent twoDomainsV2 smoothAcquire (1, 5) 0 true
    subPageWorld).bytes := (hconf.source rfl).2
  rw [hextent] at hsub
  have hlast : (23 : Nat) ∈ Set.Ico 0 16 := hsub ⟨by decide, by decide⟩
  exact absurd hlast.2 (by decide)

end Grant
