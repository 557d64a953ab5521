import MemoryMonitor.Grant.Acquire
import MemoryMonitor.Grant.Agreement

/-!
# The requests of a copy

A request passes the early checks (`GnttabCopy.Starts`) or changes nothing
(`gnttabCopy_of_not_starts`). One that passes them goes through the body of the
copy and the two releases (`gnttabCopy_of_starts`).
-/

namespace Grant

open World

/-- The checks a request passes before it acquires anything; `sd` and `dd` are
the domains it names. -/
structure GnttabCopy.Starts (P : Platform) (env : CopyEnv) (current : Domid) (op : GnttabCopy)
    (sd dd : Domid) : Prop where
  inPage : op.source.offset.toNat + op.len.toNat ≤ 4096 ∧
    op.dest.offset.toNat + op.len.toNat ≤ 4096
  named : (op.source.domid ≠ domidSelf → op.srcIsGref = true) ∧
    (op.dest.domid ≠ domidSelf → op.destIsGref = true)
  source : copyDomain P current op.source.domid = some sd
  dest : copyDomain P current op.dest.domid = some dd
  xsm : env.xsm = true

section Request

variable {P : Platform} {env : CopyEnv} {current : Domid} {op : GnttabCopy} {sd dd : Domid}
  {w : World}

/-- A request that stops at one of the early checks changes nothing. -/
theorem gnttabCopy_of_not_starts (hno : ∀ sd dd, ¬ op.Starts P env current sd dd) (n : Nat) :
    ∃ status, gnttabCopy P n env current op w = some (⟨status, none⟩, w) := by
  unfold gnttabCopy
  split
  · exact ⟨_, rfl⟩
  · next hpage =>
      split
      · exact ⟨_, rfl⟩
      · next hnamed =>
          split
          · next sd dd hsd hdd =>
              split
              · exact ⟨_, rfl⟩
              · next hxsm =>
                  rw [not_or, Nat.not_lt, Nat.not_lt] at hpage
                  rw [not_or] at hnamed
                  refine absurd ⟨hpage, ⟨?_, ?_⟩, hsd, hdd, by simpa using hxsm⟩ (hno sd dd)
                  · intro hself
                    by_contra hgref
                    exact hnamed.1 ⟨hself, by simpa using hgref⟩
                  · intro hself
                    by_contra hgref
                    exact hnamed.2 ⟨hself, by simpa using hgref⟩
          · exact ⟨_, rfl⟩

/-- One that passes them goes through the body and the two releases. -/
theorem gnttabCopy_of_starts (h : op.Starts P env current sd dd) (n : Nat) :
    gnttabCopy P n env current op w =
      let out := copyBody P env current op sd dd w
      (releaseHeld P n out.2.1 (sd, op.source.ref) true out.2.2.2).bind fun w =>
        (releaseHeld P n out.2.2.1 (dd, op.dest.ref) false w).map fun w => (out.1, w) := by
  rcases h with ⟨hpage, hnamed, hsd, hdd, hxsm⟩
  unfold gnttabCopy
  rw [if_neg, if_neg, hsd, hdd]
  · dsimp only
    rw [if_neg (by rw [hxsm]; simp)]
  · rintro (⟨hself, hgref⟩ | ⟨hself, hgref⟩)
    · rw [hnamed.1 hself] at hgref
      cases hgref
    · rw [hnamed.2 hself] at hgref
      cases hgref
  · omega

end Request

/-! ## A request from another domain's grant -/

/-- The two domains, with tables of version 2. -/
def twoDomainsV2 : Platform := { twoDomains with gtVersion := fun _ => .v2 }

/-- Domain 1 has granted its frame 7 to domain 0, by reference 5. -/
def grantedWorld : World :=
  { createdWorld with
    shared := fun k => if k = (1, 5) then ⟨⟨gtfPermitAccess, 0⟩, 0, 0, 7⟩ else ⟨⟨0, 0⟩, 0, 0, 0⟩ }

/-- Calls that all succeed, with no guest in the way. -/
def smoothAcquire : AcquireEnv := ⟨[], [], fun _ gfn _ => .ok gfn, true⟩

def smoothCopy : CopyEnv := ⟨true, smoothAcquire, smoothAcquire⟩

/-- Domain 0 copies 16 bytes from that grant into its frame 9. -/
def copyFive : GnttabCopy := ⟨⟨5, 1, 0⟩, ⟨9, domidSelf, 0⟩, 16, 1⟩

end Grant
