import MemoryMonitor.Grant.Copy
import MemoryMonitor.Grant.Pins

/-!
# What an acquire can do

The cases of `__acquire_grant_for_copy`, for a grant and for the referent of a
transitive one, and the cases of one side of a copy. Everything said about
copies is derived from these.
-/

namespace Grant

open World

variable {P : Platform} {w w' : World} {k : EntryKey} {ld : Domid} {readonly : Bool}

/-- No access of this kind is pinned: the next pin is the first, and its release
the last. -/
def Unpinned (readonly : Bool) (pin : BitVec 32) : Prop :=
  if readonly then pin = 0 else pin &&& writeMask = 0

instance (readonly : Bool) (pin : BitVec 32) : Decidable (Unpinned readonly pin) :=
  inferInstanceAs (Decidable (if readonly = true then pin = 0 else pin &&& writeMask = 0))

theorem unpinned_zero (readonly : Bool) : Unpinned readonly 0 := by
  cases readonly <;> decide

theorem enter_iff (readonly : Bool) (pin : BitVec 32) :
    (pin = 0 ∨ (readonly = false ∧ pin &&& writeMask = 0)) ↔ Unpinned readonly pin := by
  constructor
  · rintro (h | ⟨hro, h⟩)
    · rw [h]
      exact unpinned_zero readonly
    · rw [hro]
      exact h
  · intro h
    cases readonly
    · exact Or.inr ⟨rfl, h⟩
    · exact Or.inl h

/-- The checks an acquire passes before it touches the entry. -/
structure AcquireGuard (P : Platform) (k : EntryKey) (ld : Domid) (w : World) : Prop where
  version : P.gtVersion k.1 ≠ .unset
  bound : k.2 < P.nrGrantEntries k.1
  pinned : (w.active k).pin ≠ 0 →
    (w.active k).domid = ld ∧ (w.active k).pin &&& Lanes.signs = 0

/-- Everything the body of an acquire can do. -/
inductive AcquireCase (P : Platform) (env : AcquireEnv) (raced : List Header)
    (onTransitive : EntryKey → World → Except Gntst Granted × World)
    (k : EntryKey) (ld : Domid) (readonly : Bool) (w : World) :
    Except Gntst Acquired × World → Prop
  | refused (rc : Gntst) :
      AcquireCase P env raced onTransitive k ld readonly w (.error rc, w)
  | badStatus (guard : AcquireGuard P k ld w) (henter : Unpinned readonly (w.active k).pin)
      (hs : (setStatus P raced k ld readonly false w).1 ≠ .okay) :
      AcquireCase P env raced onTransitive k ld readonly w
        (.error (setStatus P raced k ld readonly false w).1,
          (setStatus P raced k ld readonly false w).2)
  | unread (guard : AcquireGuard P k ld w) (henter : Unpinned readonly (w.active k).pin)
      (hs : (setStatus P raced k ld readonly false w).1 = .okay) (rc : Gntst) (w₁ : World)
      (hread : readGrant P env onTransitive k ld readonly
        (setStatus P raced k ld readonly false w).2 = (.error rc, w₁)) :
      AcquireCase P env raced onTransitive k ld readonly w (.error rc, w₁)
  | read (guard : AcquireGuard P k ld w) (henter : Unpinned readonly (w.active k).pin)
      (hs : (setStatus P raced k ld readonly false w).1 = .okay) (g : Granted) (w₁ : World)
      (hread : readGrant P env onTransitive k ld readonly
        (setStatus P raced k ld readonly false w).2 = (.ok g, w₁)) :
      AcquireCase P env raced onTransitive k ld readonly w
        (pinForCopy k readonly g.owner (w₁.setActive k (fillEntry ld g (w₁.active k))))
  | again (guard : AcquireGuard P k ld w) (hno : ¬ Unpinned readonly (w.active k).pin) :
      AcquireCase P env raced onTransitive k ld readonly w (pinForCopy k readonly k.1 w)

theorem acquireEntry_cases (env : AcquireEnv) (raced : List Header)
    (onTransitive : EntryKey → World → Except Gntst Granted × World)
    (k : EntryKey) (ld : Domid) (readonly : Bool) (w : World) :
    AcquireCase P env raced onTransitive k ld readonly w
      (acquireEntry P env raced onTransitive k ld readonly w) := by
  unfold acquireEntry
  dsimp only
  split
  · exact .refused _
  · next hversion =>
      split
      · exact .refused _
      · next hbound =>
          split
          · exact .refused _
          · next hpinned =>
              have guard : AcquireGuard P k ld w := by
                refine ⟨hversion, Nat.lt_of_not_le hbound, fun hpin => ?_⟩
                by_contra hbad
                refine hpinned ⟨hpin, ?_⟩
                by_cases hdom : (w.active k).domid = ld
                · exact Or.inr fun hsigns => hbad ⟨hdom, hsigns⟩
                · exact Or.inl hdom
              split
              · next henter =>
                  rw [enter_iff] at henter
                  split
                  · next hs => exact .badStatus guard henter hs
                  · next hs =>
                      have hs' := not_not.mp hs
                      split
                      · next rc w₁ hread => exact .unread guard henter hs' rc w₁ hread
                      · next g w₁ hread => exact .read guard henter hs' g w₁ hread
              · next henter =>
                  rw [enter_iff] at henter
                  exact .again guard henter

/-- Everything reading the grant can do. -/
inductive ReadCase (P : Platform) (env : AcquireEnv)
    (onTransitive : EntryKey → World → Except Gntst Granted × World)
    (k : EntryKey) (ld : Domid) (readonly : Bool) (w : World) :
    Except Gntst Granted × World → Prop
  | transitive (ht : w.IsTransitive P k) (out : Except Gntst Granted × World)
      (hout : onTransitive (w.referent k) w = out) :
      ReadCase P env onTransitive k ld readonly w out
  | notPaged (ht : ¬ w.IsTransitive P k) (rc : Gntst) :
      ReadCase P env onTransitive k ld readonly w (.error rc, w)
  | full (ht : ¬ w.IsTransitive P k)
      (hfull : P.gtVersion k.1 = .v1 ∨ (w.shared k).hdr.flags &&& gtfSubPage = 0)
      (gfn frame : Frame) :
      ReadCase P env onTransitive k ld readonly w
        (.ok ⟨gfn, false, 0, 4096, (ld, 0), frame, k.1⟩, w)
  | sub (ht : ¬ w.IsTransitive P k) (hversion : P.gtVersion k.1 ≠ .v1)
      (hsub : (w.shared k).hdr.flags &&& gtfSubPage ≠ 0) (gfn frame : Frame) :
      ReadCase P env onTransitive k ld readonly w
        (.ok ⟨gfn, true, (w.shared k).pageOff, (w.shared k).length, (ld, 0), frame, k.1⟩, w)

theorem readGrant_cases (env : AcquireEnv)
    (onTransitive : EntryKey → World → Except Gntst Granted × World)
    (k : EntryKey) (ld : Domid) (readonly : Bool) (w : World) :
    ReadCase P env onTransitive k ld readonly w
      (readGrant P env onTransitive k ld readonly w) := by
  unfold readGrant
  dsimp only
  split
  · next ht => exact .transitive ht _ rfl
  · next ht =>
      split
      · next hversion =>
          split
          · exact .notPaged ht _
          · exact .full ht (Or.inl hversion) _ _
      · next hversion =>
          split
          · next hfull =>
              split
              · exact .notPaged ht _
              · exact .full ht (Or.inr hfull) _ _
          · next hsub =>
              split
              · exact .notPaged ht _
              · exact .sub ht hversion hsub _ _

/-- Everything the transitive case can do. -/
inductive TransitiveCase (P : Platform) (env : AcquireEnv) (k : EntryKey) (readonly : Bool)
    (t : EntryKey) (w : World) : Except Gntst Granted × World → Prop
  | refused : TransitiveCase P env k readonly t w (.error .generalError, w)
  | failed (hne : t.1 ≠ k.1) (rc : Gntst) (w₁ : World)
      (hacq : acquireReferent P env t k.1 readonly w = (.error rc, w₁)) :
      TransitiveCase P env k readonly t w (.error rc, fixupStatusForPin P k w₁)
  | acquired (hne : t.1 ≠ k.1) (hdom : t.1 ∈ P.domains) (a : Acquired) (w₁ : World)
      (hacq : acquireReferent P env t k.1 readonly w = (.ok a, w₁)) :
      TransitiveCase P env k readonly t w
        (.ok ⟨BitVec.allOnes 64, true, a.pageOff.setWidth 16, a.length, t, a.frame, t.1⟩, w₁)

theorem acquireTransitive_cases (env : AcquireEnv) (k : EntryKey) (readonly : Bool)
    (t : EntryKey) (w : World) :
    TransitiveCase P env k readonly t w (acquireTransitive P env k readonly t w) := by
  unfold acquireTransitive
  split
  · exact .refused
  · next hne =>
      split
      · exact .refused
      · next hdom =>
          split
          · next rc w₁ hacq => exact .failed hne rc w₁ hacq
          · next a w₁ hacq => exact .acquired hne (not_not.mp hdom) a w₁ hacq

theorem acquireReferent_active (env : AcquireEnv) (t : EntryKey) (ld : Domid) (readonly : Bool)
    (w : World) {j : EntryKey} (hj : j ≠ t) :
    (acquireReferent P env t ld readonly w).2.active j = w.active j := by
  have hcase := acquireEntry_cases (P := P) env env.racedReferent
    (fun _ w => (.error .generalError, w)) t ld readonly w
  have hpin : ∀ (owner : Domid) (w : World), (pinForCopy t readonly owner w).2.active j =
      w.active j := fun _ _ => Function.update_of_ne hj _ _
  unfold acquireReferent
  generalize acquireEntry P env env.racedReferent (fun _ w => (.error .generalError, w)) t ld
    readonly w = out at hcase ⊢
  -- reading the grant changes nothing: a transitive referent is refused
  have hread : ∀ {g : Except Gntst Granted} {w₁ : World}, readGrant P env
      (fun _ w => (.error .generalError, w)) t ld readonly
      (setStatus P env.racedReferent t ld readonly false w).2 = (g, w₁) →
      w₁.active j = w.active j := by
    intro g w₁ hread
    have hrc := readGrant_cases (P := P) env
      (fun _ w => ((.error .generalError : Except Gntst Granted), w)) t ld readonly
      (setStatus P env.racedReferent t ld readonly false w).2
    rw [hread] at hrc
    have hsame : w₁ = (setStatus P env.racedReferent t ld readonly false w).2 := by
      cases hrc with
      | transitive ht _ hbad => exact (Prod.mk.inj hbad).2.symm
      | notPaged | full | sub => rfl
    rw [hsame, setStatus_active]
  cases hcase with
  | refused => rfl
  | badStatus => rw [setStatus_active]
  | unread guard henter hs rc w₁ h => exact hread h
  | read guard henter hs g w₁ h =>
      rw [hpin]
      exact (Function.update_of_ne hj _ _).trans (hread h)
  | again => exact hpin _ _

/-- So the pin word of a transitive grant is found as it was left. -/
theorem acquireTransitive_pin (env : AcquireEnv) (k : EntryKey) (readonly : Bool) (t : EntryKey)
    (w : World) : (acquireTransitive P env k readonly t w).2.active k = w.active k := by
  have hcase := acquireTransitive_cases (P := P) env k readonly t w
  generalize acquireTransitive P env k readonly t w = out at hcase ⊢
  have hreferent : t.1 ≠ k.1 → (acquireReferent P env t k.1 readonly w).2.active k = w.active k :=
    fun hne => acquireReferent_active env t k.1 readonly w fun heq => hne (by rw [heq])
  cases hcase with
  | refused => rfl
  | failed hne rc w₁ hacq =>
      have hactive := hreferent hne
      rw [hacq] at hactive
      refine Eq.trans ?_ hactive
      unfold fixupStatusForPin World.setStatusWord
      split <;> rfl
  | acquired hne hdom a w₁ hacq =>
      have hactive := hreferent hne
      rw [hacq] at hactive
      exact hactive

/-- Everything one side of a copy can do. -/
inductive SideCase (P : Platform) (env : AcquireEnv) (current : Domid) (isGref : Bool) (d : Domid)
    (ptr : CopyPtr) (len : BitVec 16) (readonly : Bool) (w : World) :
    Except Gntst Frame × Bool × World → Prop
  | byFrame (hgref : isGref = false) (rc : Except Gntst Frame) :
      SideCase P env current isGref d ptr len readonly w (rc, false, w)
  | failed (hgref : isGref = true) (rc : Gntst) (w₁ : World)
      (hacq : acquireGrantForCopy P env (d, ptr.ref) current readonly w = (.error rc, w₁)) :
      SideCase P env current isGref d ptr len readonly w (.error rc, false, w₁)
  | unusable (hgref : isGref = true) (a : Acquired) (w₁ : World)
      (hacq : acquireGrantForCopy P env (d, ptr.ref) current readonly w = (.ok a, w₁)) :
      SideCase P env current isGref d ptr len readonly w (.error .generalError, true, w₁)
  | usable (hgref : isGref = true) (a : Acquired) (w₁ : World)
      (hacq : acquireGrantForCopy P env (d, ptr.ref) current readonly w = (.ok a, w₁))
      (hoff : a.pageOff.toNat ≤ ptr.offset.toNat) (hlen : len.toNat ≤ a.length.toNat) :
      SideCase P env current isGref d ptr len readonly w (.ok a.frame, true, w₁)

theorem acquireSide_cases (env : AcquireEnv) (current : Domid) (isGref : Bool) (d : Domid)
    (ptr : CopyPtr) (len : BitVec 16) (readonly : Bool) (w : World) :
    SideCase P env current isGref d ptr len readonly w
      (acquireSide P env current isGref d ptr len readonly w) := by
  unfold acquireSide
  dsimp only
  split
  · next hgref =>
      split
      · next rc w₁ hacq => exact .failed hgref rc w₁ hacq
      · next a w₁ hacq =>
          split
          · exact .unusable hgref a w₁ hacq
          · next hbounds =>
              rw [not_or, Nat.not_lt, Nat.not_lt] at hbounds
              split
              · exact .unusable hgref a w₁ hacq
              · split
                · exact .unusable hgref a w₁ hacq
                · exact .usable hgref a w₁ hacq hbounds.1 hbounds.2
  · next hgref =>
      have hgref' : isGref = false := by simpa using hgref
      split
      · exact .byFrame hgref' _
      · exact .byFrame hgref' _

end Grant
