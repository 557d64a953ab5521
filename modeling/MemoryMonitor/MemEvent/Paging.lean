import Mathlib
import MemoryMonitor.Lib.Runs

/-!
# Paging of guest memory

`p2m_mem_paging_nominate`, `_evict`, `_populate`, `_prep` and `_resume` of `xen/arch/x86/mm/p2m.c`.
A pager nominates a gfn, saves the page and evicts it. An access to a gfn that is paged out, or is
on its way out, is recorded as a request to the pager, and a vCPU of the domain that made it is
paused. The pager prepares a frame, reads the page in and answers, which resumes the vCPU.

The type of an entry is read without the lock and the entry is written later under it. The calls of
the pager exclude each other, as the lock of the toolstack's operations is held around them, but a
populate can come between the two halves of one, and the other way round. A ring that has room is
assumed here; `MemEvent.Ring` is about the room.
-/

namespace MemEvent.Paging

/-- The types of the life cycle; `other` stands for those that are not of it. -/
inductive PType where
  | ramRw
  | ramPagingOut
  | ramPaged
  | ramPagingIn
  | ramPagingInStart
  | other
  deriving DecidableEq

/-- An entry of the p2m; `none` is a frame that is not valid, such as `PAGING_MFN`. -/
structure Entry (F : Type) where
  type : PType
  mfn : Option F
  deriving DecidableEq

/-- A request on the ring, with the vCPU that is paused for it. -/
structure Request (G V : Type) where
  gfn : G
  vcpu : Option V
  deriving DecidableEq

/-- A call of `p2m_mem_paging_populate` that has read the type. -/
structure Populate (G V : Type) where
  vcpu : V
  /-- The vCPU is of the domain. -/
  own : Bool
  gfn : G
  p2mt : PType
  /-- The entry has been written, if it was to be. -/
  written : Bool

/-- A call of the pager that has read the entry and has not written it: what it is about to do. -/
inductive Op (G F V : Type) where
  | nominate (gfn : G) (mfn : F)
  | evict (gfn : G) (mfn : F)
  | prep (gfn : G) (mfn : F)
  | resume (rsp : Request G V) (mfn : Option F)

structure State (G F V : Type) where
  p2m : G → Entry F
  /-- The frames that are allocated to the domain. -/
  owned : F → Bool
  /-- The requests that have not been answered. -/
  ring : List (Request G V)
  /-- How often each vCPU has been paused for a request and not unpaused. -/
  paused : V → Nat
  populates : List (Populate G V)
  pager : Option (Op G F V)
  /-- Nominated since it was last evicted, evicted before, and accessed since it was last nominated:
  these are not in the source. -/
  nominated : G → Bool
  evicted : G → Bool
  accessed : G → Bool

namespace State

variable {G F V : Type} [DecidableEq G] [DecidableEq F] [DecidableEq V] (s : State G F V)

/-- `set_p2m_entry`. -/
def setEntry (gfn : G) (type : PType) (mfn : Option F) : State G F V :=
  { s with p2m := Function.update s.p2m gfn ⟨type, mfn⟩ }

/-- The checks of `p2m_mem_paging_nominate`; `quiet` is the one of the page's count and type. -/
def nominate (gfn : G) (quiet : Bool) : State G F V :=
  match s.p2m gfn with
  | ⟨.ramRw, some mfn⟩ => if quiet then { s with pager := some (.nominate gfn mfn) } else s
  | _ => s

/-- The checks of `p2m_mem_paging_evict`; `got` is the result of `get_page`. -/
def evict (gfn : G) (got : Bool) : State G F V :=
  match (s.p2m gfn).mfn with
  | none => s
  | some mfn =>
      if (s.p2m gfn).type = .ramPaged ∨ (s.p2m gfn).type = .ramPagingIn ∨ (s.p2m gfn).type = .ramPagingInStart then s
      else if got then { s with pager := some (.evict gfn mfn) } else s

/-- `alloc_domheap_page` in `p2m_mem_paging_prep`; `mfn` is the frame that it finds. -/
def prep (gfn : G) (mfn : F) : State G F V :=
  if s.owned mfn then s
  else { s with owned := Function.update s.owned mfn true, pager := some (.prep gfn mfn) }

/-- `mem_event_get_response` and the read of the entry in `p2m_mem_paging_resume`: the pager has
answered the request `k`. -/
def resume (k : Nat) : State G F V :=
  match s.ring[k]? with
  | none => s
  | some rsp => { s with ring := s.ring.eraseIdx k, pager := some (.resume rsp (s.p2m rsp.gfn).mfn) }

/-- `vcpu_unpause`, if `MEM_EVENT_FLAG_VCPU_PAUSED`. -/
def unpause (vcpu : Option V) : State G F V :=
  match vcpu with
  | none => s
  | some v => { s with paused := Function.update s.paused v (s.paused v - 1) }

/-- The call of the pager takes the lock and comes to its end. -/
def finish : State G F V :=
  match s.pager with
  | none => s
  | some (.nominate gfn mfn) =>
      { s.setEntry gfn .ramPagingOut (some mfn) with
        pager := none
        nominated := Function.update s.nominated gfn true, accessed := Function.update s.accessed gfn false }
  | some (.evict gfn mfn) =>
      { s.setEntry gfn .ramPaged none with
        pager := none, owned := Function.update s.owned mfn false
        nominated := Function.update s.nominated gfn false, evicted := Function.update s.evicted gfn true }
  | some (.prep gfn mfn) => { s.setEntry gfn .ramPagingIn (some mfn) with pager := none }
  | some (.resume rsp mfn) => { (s.setEntry rsp.gfn .ramRw mfn).unpause rsp.vcpu with pager := none }

/-- `p2m_mem_paging_populate` up to the read of the type. -/
def populate (vcpu : V) (own : Bool) (gfn : G) : State G F V :=
  { s with populates := s.populates ++ [⟨vcpu, own, gfn, (s.p2m gfn).type, false⟩] }

/-- The call `k` has found the type `p2m_ram_paged`, and writes the entry. -/
def populateWrite (k : Nat) : State G F V :=
  match s.populates[k]? with
  | none => s
  | some call =>
      if call.p2mt = .ramPaged ∧ call.written = false then
        { s.setEntry call.gfn .ramPagingInStart none with populates := s.populates.set k { call with written := true } }
      else s

/-- `mem_event_put_request`. -/
def putRequest (gfn : G) (vcpu : Option V) : State G F V :=
  { s with ring := s.ring ++ [⟨gfn, vcpu⟩], accessed := Function.update s.accessed gfn true }

/-- The rest of the call `k`: the vCPU is paused, and the request is sent. -/
def populateEnd (k : Nat) : State G F V :=
  match s.populates[k]? with
  | none => s
  | some call =>
      if call.p2mt = .ramPaged ∧ call.written = false then s
      else
        let s := { s with populates := s.populates.eraseIdx k }
        if call.own then
          { s.putRequest call.gfn (some call.vcpu) with
            paused := Function.update s.paused call.vcpu (s.paused call.vcpu + 1) }
        else if call.p2mt ≠ .ramPagingOut ∧ call.p2mt ≠ .ramPaged then s
        else s.putRequest call.gfn none

end State

/-- The steps of the pager wait until its last call is through. -/
inductive Step (G F V : Type) where
  | nominate (gfn : G) (quiet : Bool)
  | evict (gfn : G) (got : Bool)
  | prep (gfn : G) (mfn : F)
  | resume (k : Nat)
  | finish
  | populate (vcpu : V) (own : Bool) (gfn : G)
  | populateWrite (k : Nat)
  | populateEnd (k : Nat)

variable {G F V : Type} [DecidableEq G] [DecidableEq F] [DecidableEq V]

def act (step : Step G F V) (s : State G F V) : State G F V :=
  match step with
  | .nominate gfn quiet => if s.pager.isNone then s.nominate gfn quiet else s
  | .evict gfn got => if s.pager.isNone then s.evict gfn got else s
  | .prep gfn mfn => if s.pager.isNone then s.prep gfn mfn else s
  | .resume k => if s.pager.isNone then s.resume k else s
  | .finish => s.finish
  | .populate vcpu own gfn => s.populate vcpu own gfn
  | .populateWrite k => s.populateWrite k
  | .populateEnd k => s.populateEnd k

/-- A domain before any paging: a gfn is RAM with a frame, or is not of the life cycle. -/
structure Start (G F : Type) where
  frame : G → Option F
  owned : F → Bool
  owned_iff : ∀ f, owned f = true ↔ ∃ g, frame g = some f
  inj : ∀ g g' f, frame g = some f → frame g' = some f → g = g'

def init (start : Start G F) : State G F V where
  p2m g := match start.frame g with
    | some f => ⟨.ramRw, some f⟩
    | none => ⟨.other, none⟩
  owned := start.owned
  ring := []
  paused _ := 0
  populates := []
  pager := none
  nominated _ := false
  evicted _ := false
  accessed _ := false

/-! ## The property -/

/-- The pager evicts what it has nominated, and prepares what it has evicted. -/
def Disciplined (step : Step G F V) (s : State G F V) : Prop :=
  match step with
  | .evict gfn _ => s.nominated gfn = true
  | .prep gfn _ => s.evicted gfn = true
  | _ => True

/-- The contents of a page are dropped only if it was not accessed since it was nominated. -/
def Kept (step : Step G F V) (s : State G F V) : Prop :=
  match step with
  | .finish => ∀ gfn mfn, s.pager = some (.evict gfn mfn) → s.accessed gfn = false
  | _ => True

/-- How many requests of the vCPU have not been answered. -/
def State.waiting (s : State G F V) (v : V) : Nat :=
  s.ring.countP (fun req => req.vcpu = some v) +
    match s.pager with
    | some (.resume rsp _) => if rsp.vcpu = some v then 1 else 0
    | _ => 0

structure State.Sound (s : State G F V) : Prop where
  /-- An entry that is in use has a frame of its own. -/
  mapped : ∀ g, (s.p2m g).type = .ramRw ∨ (s.p2m g).type = .ramPagingIn →
    ∃ f, (s.p2m g).mfn = some f ∧ s.owned f = true ∧ ∀ g', (s.p2m g').mfn = some f → g' = g
  /-- A frame of the domain is in its p2m, or is about to be. -/
  noLeak : ∀ f, s.owned f = true → (∃ g, (s.p2m g).mfn = some f) ∨ ∃ g, s.pager = some (.prep g f)
  /-- A vCPU is paused once for each of its requests. -/
  paused : ∀ v, s.paused v = s.waiting v

/-- Evict finds the page still on its way out and no request for it on the ring; a frame is prepared
where there is none; an answer finds a frame; and a populate that writes the entry finds it still
without a frame. -/
def Settled (step : Step G F V) (s : State G F V) : Prop :=
  match step with
  | .finish =>
      match s.pager with
      | some (.evict gfn _) => (s.p2m gfn).type = .ramPagingOut ∧ ∀ req ∈ s.ring, req.gfn ≠ gfn
      | some (.prep gfn _) => (s.p2m gfn).mfn = none
      | _ => True
  | .resume k => ∀ req ∈ s.ring[k]?, (s.p2m req.gfn).mfn ≠ none
  | .populateWrite k => ∀ call ∈ s.populates[k]?, call.p2mt = .ramPaged → call.written = false → (s.p2m call.gfn).mfn = none
  | _ => True

/-! ## Frames -/

namespace State

variable {s : State G F V}

/-- What the call of the pager has read still holds, and a frame that it has is its own. -/
def OpHolds (p2m : G → Entry F) (owned : F → Bool) : Option (Op G F V) → Prop
  | some (.nominate gfn mfn) => (p2m gfn).mfn = some mfn
  | some (.evict gfn mfn) => (p2m gfn).mfn = some mfn
  | some (.prep _ mfn) => owned mfn = true ∧ ∀ g, (p2m g).mfn ≠ some mfn
  | some (.resume rsp mfn) => (p2m rsp.gfn).mfn = mfn ∧ mfn ≠ none
  | none => True

omit [DecidableEq G] [DecidableEq F] [DecidableEq V] in
theorem OpHolds.congr {p2m p2m' : G → Entry F} {owned : F → Bool} {op : Option (Op G F V)}
    (h : OpHolds p2m owned op) (hsame : ∀ g, (p2m' g).mfn = (p2m g).mfn) : OpHolds p2m' owned op := by
  match op with
  | none => trivial
  | some (.nominate gfn mfn) => exact (hsame gfn).trans h
  | some (.evict gfn mfn) => exact (hsame gfn).trans h
  | some (.prep _ mfn) =>
    constructor
    · exact h.1
    · intro g
      rw [hsame]
      exact h.2 g
  | some (.resume rsp mfn) =>
    constructor
    · exact (hsame rsp.gfn).trans h.1
    · exact h.2

/-- Frames are in the p2m once, and belong to the domain. -/
structure Frames (s : State G F V) : Prop where
  owned : ∀ g f, (s.p2m g).mfn = some f → s.owned f = true
  inj : ∀ g g' f, (s.p2m g).mfn = some f → (s.p2m g').mfn = some f → g = g'
  framed : ∀ g, (s.p2m g).mfn = none →
    (s.p2m g).type ≠ .ramRw ∧ (s.p2m g).type ≠ .ramPagingIn ∧ (s.p2m g).type ≠ .ramPagingOut
  noLeak : ∀ f, s.owned f = true → (∃ g, (s.p2m g).mfn = some f) ∨ ∃ g, s.pager = some (.prep g f)
  op : OpHolds s.p2m s.owned s.pager

omit [DecidableEq F] [DecidableEq V] in
theorem setEntry_mfn {gfn : G} {mfn : Option F} (h : (s.p2m gfn).mfn = mfn) (type : PType) (g : G) :
    ((s.setEntry gfn type mfn).p2m g).mfn = (s.p2m g).mfn := by
  show (Function.update s.p2m gfn ⟨type, mfn⟩ g).mfn = _
  rw [Function.update_apply]
  split
  · rename_i hg
    rw [hg]
    exact h.symm
  · rfl

theorem Frames.retype (h : s.Frames) {s' : State G F V} {gfn : G} {type : PType} {mfn : Option F}
    (hp2m : s'.p2m = (s.setEntry gfn type mfn).p2m) (howned : s'.owned = s.owned) (hmfn : (s.p2m gfn).mfn = mfn)
    (htype : mfn = none → type ≠ .ramRw ∧ type ≠ .ramPagingIn ∧ type ≠ .ramPagingOut)
    (hprep : ∀ g f, s.pager = some (.prep g f) → s'.pager = some (.prep g f))
    (hop : OpHolds s'.p2m s'.owned s'.pager) : s'.Frames := by
  have hsame : ∀ g, (s'.p2m g).mfn = (s.p2m g).mfn := by
    intro g
    rw [hp2m]
    exact setEntry_mfn hmfn type g
  refine ⟨fun g f => ?_, fun g g' f => ?_, fun g hnone => ?_, fun f hf => ?_, hop⟩
  · rw [hsame, howned]
    exact h.owned g f
  · rw [hsame, hsame]
    exact h.inj g g' f
  · have hold := hnone
    rw [hsame] at hold
    have hentry : s'.p2m g = Function.update s.p2m gfn ⟨type, mfn⟩ g := congrFun hp2m g
    rw [hentry, Function.update_apply]
    split
    · rename_i hg
      rw [hg, hmfn] at hold
      exact htype hold
    · exact h.framed g hold
  · rw [howned] at hf
    rcases h.noLeak f hf with ⟨g, hg⟩ | ⟨g, hg⟩
    · exact .inl ⟨g, (hsame g).trans hg⟩
    · exact .inr ⟨g, hprep g f hg⟩

section

omit [DecidableEq G] [DecidableEq F] [DecidableEq V]

theorem Frames.idle (h : s.Frames) {s' : State G F V} (hp2m : s'.p2m = s.p2m) (howned : s'.owned = s.owned)
    (hidle : s.pager = none) (hop : OpHolds s'.p2m s'.owned s'.pager) : s'.Frames := by
  refine ⟨?_, ?_, ?_, fun f hf => ?_, hop⟩
  · rw [hp2m, howned]
    exact h.owned
  · rw [hp2m]
    exact h.inj
  · rw [hp2m]
    exact h.framed
  · rw [howned] at hf
    rw [hp2m]
    rcases h.noLeak f hf with hg | ⟨g, hg⟩
    · exact .inl hg
    · rw [hidle] at hg
      exact absurd hg (Option.some_ne_none _).symm

theorem Frames.same (h : s.Frames) {s' : State G F V} (hp2m : s'.p2m = s.p2m) (howned : s'.owned = s.owned)
    (hpager : s'.pager = s.pager) : s'.Frames := by
  rcases s' with ⟨_, _, _, _, _, _, _, _, _⟩
  cases hp2m
  cases howned
  cases hpager
  exact ⟨h.owned, h.inj, h.framed, h.noLeak, h.op⟩

end

theorem Frames.nominate (h : s.Frames) (hidle : s.pager = none) (gfn : G) (quiet : Bool) : (s.nominate gfn quiet).Frames := by
  unfold State.nominate
  split
  · rename_i mfn hentry
    split
    · refine h.idle rfl rfl hidle ?_
      show (s.p2m gfn).mfn = some mfn
      rw [hentry]
    · exact h
  · exact h

theorem Frames.evict (h : s.Frames) (hidle : s.pager = none) (gfn : G) (got : Bool) : (s.evict gfn got).Frames := by
  unfold State.evict
  split
  · exact h
  · rename_i mfn hmfn
    split
    · exact h
    · split
      · exact h.idle rfl rfl hidle hmfn
      · exact h

omit [DecidableEq G] [DecidableEq V] in
theorem Frames.prep (h : s.Frames) (hidle : s.pager = none) (gfn : G) (mfn : F) : (s.prep gfn mfn).Frames := by
  unfold State.prep
  split
  · exact h
  · rename_i hfree
    have hnot : ∀ g, (s.p2m g).mfn ≠ some mfn := fun g hg => hfree (h.owned g mfn hg)
    refine ⟨fun g f hg => ?_, h.inj, h.framed, fun f hf => ?_, Function.update_self .., hnot⟩
    · show Function.update s.owned mfn true f = true
      rw [Function.update_apply]
      split
      · rfl
      · exact h.owned g f hg
    · by_cases hfm : f = mfn
      · exact .inr ⟨gfn, by rw [hfm]⟩
      · have hf' : Function.update s.owned mfn true f = true := hf
        rw [Function.update_of_ne hfm] at hf'
        rcases h.noLeak f hf' with hg | ⟨g, hg⟩
        · exact .inl hg
        · rw [hidle] at hg
          exact absurd hg (Option.some_ne_none _).symm

theorem Frames.resume (h : s.Frames) (hidle : s.pager = none) (k : Nat)
    (hframe : ∀ req ∈ s.ring[k]?, (s.p2m req.gfn).mfn ≠ none) : (s.resume k).Frames := by
  unfold State.resume
  split
  · exact h
  · rename_i rsp hk
    exact h.idle rfl rfl hidle ⟨rfl, hframe rsp hk⟩

omit [DecidableEq F] [DecidableEq V] in
theorem setEntry_apply (s : State G F V) (gfn : G) (type : PType) (mfn : Option F) (g : G) :
    (s.setEntry gfn type mfn).p2m g = if g = gfn then ⟨type, mfn⟩ else s.p2m g := Function.update_apply ..

/-- A frame leaves the p2m and the domain. -/
theorem Frames.drop (h : s.Frames) {s' : State G F V} {gfn : G} {mfn : F} (hgfn : (s.p2m gfn).mfn = some mfn)
    (hpager : s.pager = some (.evict gfn mfn)) (hp2m : s'.p2m = (s.setEntry gfn .ramPaged none).p2m)
    (howned : s'.owned = Function.update s.owned mfn false) (hidle : s'.pager = none) : s'.Frames := by
  have hentry : ∀ g, s'.p2m g = if g = gfn then ⟨.ramPaged, none⟩ else s.p2m g := by
    intro g
    rw [hp2m, setEntry_apply]
  have hkept : ∀ g f, (s'.p2m g).mfn = some f → g ≠ gfn ∧ (s.p2m g).mfn = some f := by
    intro g f hf
    rw [hentry] at hf
    split at hf
    · exact nomatch hf
    · rename_i hg
      exact ⟨hg, hf⟩
  refine ⟨fun g f hf => ?_, fun g g' f hf hf' => ?_, fun g hnone => ?_, fun f hf => ?_, ?_⟩
  · rcases hkept g f hf with ⟨hg, hold⟩
    -- the frame was in the one entry only
    have hne : f ≠ mfn := by
      intro hfm
      rw [hfm] at hold
      exact hg (h.inj g gfn mfn hold hgfn)
    rw [howned, Function.update_of_ne hne]
    exact h.owned g f hold
  · exact h.inj g g' f (hkept g f hf).2 (hkept g' f hf').2
  · rw [hentry] at hnone ⊢
    split
    · exact ⟨PType.noConfusion, PType.noConfusion, PType.noConfusion⟩
    · rename_i hg
      rw [if_neg hg] at hnone
      exact h.framed g hnone
  · rw [howned, Function.update_apply] at hf
    split at hf
    · exact nomatch hf
    · rename_i hne
      rcases h.noLeak f hf with ⟨g, hg⟩ | ⟨g, hg⟩
      · refine .inl ⟨g, ?_⟩
        have hother : g ≠ gfn := by
          intro hc
          rw [hc, hgfn] at hg
          exact hne (Option.some.inj hg).symm
        rw [hentry, if_neg hother]
        exact hg
      · rw [hpager] at hg
        exact nomatch hg
  · rw [hidle]
    trivial

theorem Frames.fill (h : s.Frames) {s' : State G F V} {gfn : G} {mfn : F} (hgfn : (s.p2m gfn).mfn = none)
    (hpager : s.pager = some (.prep gfn mfn)) (hp2m : s'.p2m = (s.setEntry gfn .ramPagingIn (some mfn)).p2m)
    (howned : s'.owned = s.owned) (hidle : s'.pager = none) : s'.Frames := by
  have hop := h.op
  rw [hpager] at hop
  have hentry : ∀ g, s'.p2m g = if g = gfn then ⟨.ramPagingIn, some mfn⟩ else s.p2m g := by
    intro g
    rw [hp2m, setEntry_apply]
  have hcases : ∀ g f, (s'.p2m g).mfn = some f → (g = gfn ∧ f = mfn) ∨ (g ≠ gfn ∧ (s.p2m g).mfn = some f) := by
    intro g f hf
    rw [hentry] at hf
    split at hf
    · rename_i hg
      exact .inl ⟨hg, (Option.some.inj hf).symm⟩
    · rename_i hg
      exact .inr ⟨hg, hf⟩
  refine ⟨fun g f hf => ?_, fun g g' f hf hf' => ?_, fun g hnone => ?_, fun f hf => ?_, ?_⟩
  · rw [howned]
    rcases hcases g f hf with ⟨-, hfm⟩ | ⟨-, hold⟩
    · rw [hfm]
      exact hop.1
    · exact h.owned g f hold
  · rcases hcases g f hf with ⟨hg, hfm⟩ | ⟨-, hold⟩
    · rcases hcases g' f hf' with ⟨hg', -⟩ | ⟨-, hold'⟩
      · rw [hg, hg']
      · rw [hfm] at hold'
        exact absurd hold' (hop.2 g')
    · rcases hcases g' f hf' with ⟨-, hfm⟩ | ⟨-, hold'⟩
      · rw [hfm] at hold
        exact absurd hold (hop.2 g)
      · exact h.inj g g' f hold hold'
  · rw [hentry] at hnone ⊢
    split
    · rename_i hg
      rw [if_pos hg] at hnone
      exact nomatch hnone
    · rename_i hg
      rw [if_neg hg] at hnone
      exact h.framed g hnone
  · rw [howned] at hf
    refine .inl ?_
    rcases h.noLeak f hf with ⟨g, hg⟩ | ⟨g, hg⟩
    · refine ⟨g, ?_⟩
      have hother : g ≠ gfn := by
        intro hc
        rw [hc, hgfn] at hg
        exact nomatch hg
      rw [hentry, if_neg hother]
      exact hg
    · rw [hpager] at hg
      refine ⟨gfn, ?_⟩
      rw [hentry, if_pos rfl]
      cases hg
      rfl
  · rw [hidle]
    trivial

omit [DecidableEq G] [DecidableEq F] in
theorem unpause_same (s : State G F V) (vcpu : Option V) :
    (s.unpause vcpu).p2m = s.p2m ∧ (s.unpause vcpu).owned = s.owned ∧ (s.unpause vcpu).ring = s.ring ∧
    (s.unpause vcpu).accessed = s.accessed := by
  unfold State.unpause
  split <;> exact ⟨rfl, rfl, rfl, rfl⟩

theorem Frames.finish (h : s.Frames) (hsettled : Settled .finish s) : s.finish.Frames := by
  have hop := h.op
  unfold State.finish
  unfold Settled at hsettled
  split
  · exact h
  · rename_i gfn mfn hpager
    rw [hpager] at hop
    refine h.retype rfl rfl hop (fun hnone => nomatch hnone) (fun g f hg => ?_) trivial
    rw [hpager] at hg
    exact nomatch hg
  · rename_i gfn mfn hpager
    rw [hpager] at hop
    exact h.drop hop hpager rfl rfl rfl
  · rename_i gfn mfn hpager
    rw [hpager] at hsettled
    exact h.fill hsettled hpager rfl rfl rfl
  · rename_i rsp mfn hpager
    rw [hpager] at hop
    have hsame := (s.setEntry rsp.gfn .ramRw mfn).unpause_same rsp.vcpu
    refine h.retype hsame.1 hsame.2.1 hop.1 (fun hnone => absurd hnone hop.2) (fun g f hg => ?_) trivial
    rw [hpager] at hg
    exact nomatch hg

theorem Frames.populateWrite (h : s.Frames) (k : Nat) (hsettled : Settled (.populateWrite k) s) :
    (s.populateWrite k).Frames := by
  unfold State.populateWrite
  split
  · exact h
  · rename_i call hk
    split
    · rename_i hcond
      have hnone := hsettled call hk hcond.1 hcond.2
      refine h.retype rfl rfl hnone (fun _ => by decide) (fun g f hg => hg) ?_
      exact h.op.congr (setEntry_mfn (s := s) hnone .ramPagingInStart)
    · exact h

theorem Frames.populateEnd (h : s.Frames) (k : Nat) : (s.populateEnd k).Frames := by
  unfold State.populateEnd
  split
  · exact h
  · split
    · exact h
    · dsimp only
      split
      · exact h.same rfl rfl rfl
      · split
        · exact h.same rfl rfl rfl
        · exact h.same rfl rfl rfl

omit [DecidableEq G] [DecidableEq F] [DecidableEq V] in
/-- A call of the pager that waits for the last one. -/
theorem idle_keeps {I : State G F V → Prop} {s' : State G F V} (h : I s) (hidle : s.pager = none → I s') :
    I (if s.pager.isNone then s' else s) := by
  split
  · rename_i hnone
    exact hidle (Option.isNone_iff_eq_none.1 hnone)
  · exact h

theorem Frames.act (h : s.Frames) (step : Step G F V) (hstep : Settled step s) : (act step s).Frames := by
  cases step with
  | nominate gfn quiet => exact idle_keeps h (fun hidle => h.nominate hidle gfn quiet)
  | evict gfn got => exact idle_keeps h (fun hidle => h.evict hidle gfn got)
  | prep gfn mfn => exact idle_keeps h (fun hidle => h.prep hidle gfn mfn)
  | resume k => exact idle_keeps h (fun hidle => h.resume hidle k hstep)
  | finish => exact h.finish hstep
  | populate vcpu own gfn => exact h.same rfl rfl rfl
  | populateWrite k => exact h.populateWrite k hstep
  | populateEnd k => exact h.populateEnd k

omit [DecidableEq G] [DecidableEq F] [DecidableEq V] in
theorem frames_init (start : Start G F) : (init start : State G F V).Frames := by
  have hentry : ∀ g f, ((init start : State G F V).p2m g).mfn = some f ↔ start.frame g = some f := by
    intro g f
    show Entry.mfn (match start.frame g with | some f => ⟨.ramRw, some f⟩ | none => ⟨.other, none⟩) = some f ↔ _
    split
    · rename_i hg
      rw [hg]
    · rename_i hg
      rw [hg]
  constructor
  · intro g f hf
    exact (start.owned_iff f).2 ⟨g, (hentry g f).1 hf⟩
  · intro g g' f hf hf'
    exact start.inj g g' f ((hentry g f).1 hf) ((hentry g' f).1 hf')
  · intro g hnone
    have hg : start.frame g = none := by
      cases hf : start.frame g with
      | none => rfl
      | some f => rw [(hentry g f).2 hf] at hnone; exact nomatch hnone
    have htype : ((init start : State G F V).p2m g).type = .other := by
      simp only [init, hg]
    rw [htype]
    exact ⟨PType.noConfusion, PType.noConfusion, PType.noConfusion⟩
  · intro f hf
    rcases (start.owned_iff f).1 hf with ⟨g, hg⟩
    exact .inl ⟨g, (hentry g f).2 hg⟩
  · trivial

/-! ## Requests -/

/-- An access since the page was nominated still waits for its answer, as long as the page is on its
way out. -/
def Recorded (s : State G F V) : Prop :=
  ∀ g, s.accessed g = true → (s.p2m g).type = .ramPagingOut →
    (∃ req ∈ s.ring, req.gfn = g) ∨ ∃ rsp mfn, s.pager = some (.resume rsp mfn) ∧ rsp.gfn = g

omit [DecidableEq G] [DecidableEq F] [DecidableEq V] in
theorem Recorded.idle (h : s.Recorded) (hidle : s.pager = none) {s' : State G F V} (hp2m : s'.p2m = s.p2m)
    (hring : s'.ring = s.ring) (haccessed : s'.accessed = s.accessed) : s'.Recorded := by
  intro g hg htype
  rw [haccessed] at hg
  rw [hp2m] at htype
  rw [hring]
  rcases h g hg htype with hon | ⟨rsp, mfn, hpager, -⟩
  · exact .inl hon
  · rw [hidle] at hpager
    exact nomatch hpager

theorem Recorded.nominate (h : s.Recorded) (hidle : s.pager = none) (gfn : G) (quiet : Bool) :
    (s.nominate gfn quiet).Recorded := by
  unfold State.nominate
  split
  · split
    · exact h.idle hidle rfl rfl rfl
    · exact h
  · exact h

theorem Recorded.evict (h : s.Recorded) (hidle : s.pager = none) (gfn : G) (got : Bool) :
    (s.evict gfn got).Recorded := by
  unfold State.evict
  split
  · exact h
  · split
    · exact h
    · split
      · exact h.idle hidle rfl rfl rfl
      · exact h

theorem Recorded.prep (h : s.Recorded) (hidle : s.pager = none) (gfn : G) (mfn : F) :
    (s.prep gfn mfn).Recorded := by
  unfold State.prep
  split
  · exact h
  · exact h.idle hidle rfl rfl rfl

omit [DecidableEq G] [DecidableEq F] [DecidableEq V] in
/-- What is taken from the ring, and the rest. -/
theorem ring_perm {k : Nat} {rsp : Request G V} (hk : s.ring[k]? = some rsp) :
    (rsp :: s.ring.eraseIdx k).Perm s.ring := by
  rcases List.getElem?_eq_some_iff.1 hk with ⟨hlt, hget⟩
  rw [← hget]
  exact List.getElem_cons_eraseIdx_perm hlt

theorem Recorded.resume (h : s.Recorded) (hidle : s.pager = none) (k : Nat) : (s.resume k).Recorded := by
  unfold State.resume
  split
  · exact h
  · rename_i rsp hk
    intro g hg htype
    rcases h g hg htype with ⟨req, hreq, hgfn⟩ | ⟨rsp', mfn, hpager, -⟩
    · -- the request is the one that is answered, or stays where it is
      rcases List.mem_cons.1 ((ring_perm hk).mem_iff.2 hreq) with heq | hrest
      · refine .inr ⟨rsp, _, rfl, ?_⟩
        rw [← heq]
        exact hgfn
      · exact .inl ⟨req, hrest, hgfn⟩
    · rw [hidle] at hpager
      exact nomatch hpager

theorem Recorded.setEntry (h : s.Recorded) {s' : State G F V} {gfn : G} {type : PType} {mfn : Option F}
    (htype : type ≠ .ramPagingOut) (hp2m : s'.p2m = (s.setEntry gfn type mfn).p2m) (hring : s'.ring = s.ring)
    (haccessed : s'.accessed = s.accessed)
    (hpager : ∀ rsp mfn, s.pager = some (.resume rsp mfn) → rsp.gfn = gfn ∨ s'.pager = s.pager) : s'.Recorded := by
  intro g hg hout
  rw [hp2m, setEntry_apply] at hout
  rw [haccessed] at hg
  split at hout
  · exact absurd hout htype
  · rename_i hother
    rcases h g hg hout with ⟨req, hreq, hgfn⟩ | ⟨rsp, m, hresume, hgfn⟩
    · refine .inl ⟨req, ?_, hgfn⟩
      rw [hring]
      exact hreq
    · rcases hpager rsp m hresume with hsame | hkept
      · exact absurd (hgfn.symm.trans hsame) hother
      · refine .inr ⟨rsp, m, ?_, hgfn⟩
        rw [hkept]
        exact hresume

theorem Recorded.finish (h : s.Recorded) : s.finish.Recorded := by
  unfold State.finish
  split
  · exact h
  · rename_i gfn mfn hpager
    intro g hg hout
    have hg' : Function.update s.accessed gfn false g = true := hg
    have hout' : ((s.setEntry gfn .ramPagingOut (some mfn)).p2m g).type = .ramPagingOut := hout
    rw [Function.update_apply] at hg'
    rw [setEntry_apply] at hout'
    split at hg'
    · exact nomatch hg'
    · rename_i hother
      rw [if_neg hother] at hout'
      rcases h g hg' hout' with hon | ⟨rsp, m, hresume, -⟩
      · exact .inl hon
      · rw [hpager] at hresume
        exact nomatch hresume
  · rename_i gfn mfn hpager
    refine h.setEntry PType.noConfusion rfl rfl rfl (fun rsp m hresume => ?_)
    rw [hpager] at hresume
    exact nomatch hresume
  · rename_i gfn mfn hpager
    refine h.setEntry PType.noConfusion rfl rfl rfl (fun rsp m hresume => ?_)
    rw [hpager] at hresume
    exact nomatch hresume
  · rename_i rsp mfn hpager
    have hsame := (s.setEntry rsp.gfn .ramRw mfn).unpause_same rsp.vcpu
    refine h.setEntry PType.noConfusion hsame.1 hsame.2.2.1 hsame.2.2.2 (fun rsp' m hresume => ?_)
    rw [hpager] at hresume
    cases hresume
    exact .inl rfl

theorem Recorded.populateWrite (h : s.Recorded) (k : Nat) : (s.populateWrite k).Recorded := by
  unfold State.populateWrite
  split
  · exact h
  · split
    · exact h.setEntry PType.noConfusion rfl rfl rfl (fun rsp m _ => .inr rfl)
    · exact h

omit [DecidableEq F] [DecidableEq V] in
theorem Recorded.putRequest (h : s.Recorded) {s' : State G F V} (gfn : G) (vcpu : Option V) (hp2m : s'.p2m = s.p2m)
    (hring : s'.ring = (s.putRequest gfn vcpu).ring) (haccessed : s'.accessed = (s.putRequest gfn vcpu).accessed)
    (hpager : s'.pager = s.pager) : s'.Recorded := by
  intro g hg hout
  rw [hp2m] at hout
  rw [hring, hpager]
  have hg' : Function.update s.accessed gfn true g = true := by
    rw [haccessed] at hg
    exact hg
  rw [Function.update_apply] at hg'
  split at hg'
  · rename_i hgfn
    refine .inl ⟨⟨gfn, vcpu⟩, ?_, hgfn.symm⟩
    exact List.mem_append_right _ (List.mem_singleton_self _)
  · rcases h g hg' hout with ⟨req, hreq, hgfn⟩ | hresume
    · exact .inl ⟨req, List.mem_append_left _ hreq, hgfn⟩
    · exact .inr hresume

theorem Recorded.populateEnd (h : s.Recorded) (k : Nat) : (s.populateEnd k).Recorded := by
  unfold State.populateEnd
  split
  · exact h
  · rename_i call _
    split
    · exact h
    · dsimp only
      split
      · exact h.putRequest call.gfn (some call.vcpu) rfl rfl rfl rfl
      · split
        · exact h
        · exact h.putRequest call.gfn none rfl rfl rfl rfl

theorem Recorded.act (h : s.Recorded) (step : Step G F V) : (act step s).Recorded := by
  cases step with
  | nominate gfn quiet => exact idle_keeps h (fun hidle => h.nominate hidle gfn quiet)
  | evict gfn got => exact idle_keeps h (fun hidle => h.evict hidle gfn got)
  | prep gfn mfn => exact idle_keeps h (fun hidle => h.prep hidle gfn mfn)
  | resume k => exact idle_keeps h (fun hidle => h.resume hidle k)
  | finish => exact h.finish
  | populate vcpu own gfn => exact h
  | populateWrite k => exact h.populateWrite k
  | populateEnd k => exact h.populateEnd k

/-! ## Pauses -/

/-- Every vCPU is paused once for each of its requests that has not been answered. -/
def Balanced (s : State G F V) : Prop :=
  ∀ v, s.paused v = s.waiting v

/-- The answer that the pager is at is not one. -/
def NoAnswer : Option (Op G F V) → Prop
  | some (.resume _ _) => False
  | _ => True

section

omit [DecidableEq G] [DecidableEq F]

theorem waiting_eq (hpager : NoAnswer s.pager) (v : V) :
    s.waiting v = s.ring.countP (fun req => req.vcpu = some v) := by
  unfold State.waiting
  cases hop : s.pager with
  | none => rfl
  | some op =>
    cases op with
    | resume rsp mfn =>
      rw [hop] at hpager
      exact hpager.elim
    | nominate gfn mfn => rfl
    | evict gfn mfn => rfl
    | prep gfn mfn => rfl

theorem waiting_resume {rsp : Request G V} {mfn : Option F} (hpager : s.pager = some (.resume rsp mfn)) (v : V) :
    s.waiting v = s.ring.countP (fun req => req.vcpu = some v) + if rsp.vcpu = some v then 1 else 0 := by
  unfold State.waiting
  rw [hpager]

end

/-- No request is sent or answered. -/
theorem Balanced.same (h : s.Balanced) (hpager : NoAnswer s.pager) {s' : State G F V} (hpager' : NoAnswer s'.pager)
    (hring : s'.ring = s.ring) (hpaused : s'.paused = s.paused) : s'.Balanced := by
  intro v
  rw [waiting_eq hpager', hring, hpaused, h v, waiting_eq hpager]

theorem Balanced.nominate (h : s.Balanced) (hidle : s.pager = none) (gfn : G) (quiet : Bool) :
    (s.nominate gfn quiet).Balanced := by
  have hno : NoAnswer s.pager := by
    rw [hidle]
    trivial
  unfold State.nominate
  split
  · split
    · exact h.same hno trivial rfl rfl
    · exact h
  · exact h

theorem Balanced.evict (h : s.Balanced) (hidle : s.pager = none) (gfn : G) (got : Bool) :
    (s.evict gfn got).Balanced := by
  have hno : NoAnswer s.pager := by
    rw [hidle]
    trivial
  unfold State.evict
  split
  · exact h
  · split
    · exact h
    · split
      · exact h.same hno trivial rfl rfl
      · exact h

theorem Balanced.prep (h : s.Balanced) (hidle : s.pager = none) (gfn : G) (mfn : F) :
    (s.prep gfn mfn).Balanced := by
  have hno : NoAnswer s.pager := by
    rw [hidle]
    trivial
  unfold State.prep
  split
  · exact h
  · exact h.same hno trivial rfl rfl

theorem Balanced.resume (h : s.Balanced) (hidle : s.pager = none) (k : Nat) : (s.resume k).Balanced := by
  have hno : NoAnswer s.pager := by
    rw [hidle]
    trivial
  unfold State.resume
  split
  · exact h
  · rename_i rsp hk
    intro v
    -- the answered request is counted at the pager in place of the ring
    have hcount := (ring_perm hk).countP_eq (fun req => decide (req.vcpu = some v))
    rw [List.countP_cons] at hcount
    have hbefore := h v
    rw [waiting_eq hno, ← hcount] at hbefore
    rw [waiting_resume rfl]
    show s.paused v = (s.ring.eraseIdx k).countP _ + _
    simpa only [decide_eq_true_eq] using hbefore

theorem Balanced.finish (h : s.Balanced) : s.finish.Balanced := by
  unfold State.finish
  split
  · exact h
  · rename_i hpager
    refine h.same ?_ trivial rfl rfl
    rw [hpager]
    trivial
  · rename_i hpager
    refine h.same ?_ trivial rfl rfl
    rw [hpager]
    trivial
  · rename_i hpager
    refine h.same ?_ trivial rfl rfl
    rw [hpager]
    trivial
  · rename_i rsp mfn hpager
    intro v
    have hbefore := h v
    rw [waiting_resume hpager] at hbefore
    have hafter := waiting_eq (s := { (s.setEntry rsp.gfn .ramRw mfn).unpause rsp.vcpu with pager := none }) trivial v
    rw [hafter]
    show ((s.setEntry rsp.gfn .ramRw mfn).unpause rsp.vcpu).paused v =
      ((s.setEntry rsp.gfn .ramRw mfn).unpause rsp.vcpu).ring.countP _
    rw [(unpause_same _ _).2.2.1]
    show _ = s.ring.countP _
    cases hvcpu : rsp.vcpu with
    | none =>
      rw [hvcpu, if_neg (Option.some_ne_none v).symm] at hbefore
      exact hbefore
    | some w =>
      show Function.update s.paused w (s.paused w - 1) v = _
      rw [hvcpu] at hbefore
      by_cases hv : v = w
      · rw [hv] at hbefore ⊢
        rw [if_pos rfl] at hbefore
        rw [Function.update_self, hbefore]
        rfl
      · have hne : some w ≠ some v := fun heq => hv (Option.some.inj heq).symm
        rw [if_neg hne] at hbefore
        rw [Function.update_of_ne hv]
        exact hbefore

omit [DecidableEq G] [DecidableEq F] in
/-- The state differs in what does not count. -/
theorem Balanced.congr (h : s.Balanced) {s' : State G F V} (hring : s'.ring = s.ring) (hpager : s'.pager = s.pager)
    (hpaused : s'.paused = s.paused) : s'.Balanced := by
  intro v
  have hwaiting : s'.waiting v = s.waiting v := by
    unfold State.waiting
    rw [hring, hpager]
  rw [hwaiting, hpaused]
  exact h v

theorem Balanced.populateWrite (h : s.Balanced) (k : Nat) : (s.populateWrite k).Balanced := by
  unfold State.populateWrite
  split
  · exact h
  · split
    · exact h.congr rfl rfl rfl
    · exact h

omit [DecidableEq G] [DecidableEq F] in
theorem Balanced.sent (h : s.Balanced) {s' : State G F V} (gfn : G) (vcpu : Option V)
    (hring : s'.ring = s.ring ++ [⟨gfn, vcpu⟩]) (hpager : s'.pager = s.pager)
    (hpaused : ∀ v, s'.paused v = s.paused v + if vcpu = some v then 1 else 0) : s'.Balanced := by
  intro v
  have hwaiting : s'.waiting v = s.waiting v + if vcpu = some v then 1 else 0 := by
    unfold State.waiting
    rw [hring, hpager, List.countP_append, List.countP_singleton]
    simp only [decide_eq_true_eq]
    omega
  rw [hpaused, hwaiting, h v]

theorem Balanced.populateEnd (h : s.Balanced) (k : Nat) : (s.populateEnd k).Balanced := by
  unfold State.populateEnd
  split
  · exact h
  · rename_i call _
    split
    · exact h
    · dsimp only
      split
      · refine h.sent call.gfn (some call.vcpu) rfl rfl (fun v => ?_)
        show Function.update s.paused call.vcpu (s.paused call.vcpu + 1) v = _
        by_cases hv : v = call.vcpu
        · rw [hv, Function.update_self, if_pos rfl]
        · have hne : some call.vcpu ≠ some v := fun heq => hv (Option.some.inj heq).symm
          rw [Function.update_of_ne hv, if_neg hne]
          rfl
      · split
        · exact h.congr rfl rfl rfl
        · refine h.sent call.gfn none rfl rfl (fun v => ?_)
          rw [if_neg (Option.some_ne_none v).symm]
          rfl

theorem Balanced.act (h : s.Balanced) (step : Step G F V) : (act step s).Balanced := by
  cases step with
  | nominate gfn quiet => exact idle_keeps h (fun hidle => h.nominate hidle gfn quiet)
  | evict gfn got => exact idle_keeps h (fun hidle => h.evict hidle gfn got)
  | prep gfn mfn => exact idle_keeps h (fun hidle => h.prep hidle gfn mfn)
  | resume k => exact idle_keeps h (fun hidle => h.resume hidle k)
  | finish => exact h.finish
  | populate vcpu own gfn => exact h
  | populateWrite k => exact h.populateWrite k
  | populateEnd k => exact h.populateEnd k

/-! ## Runs -/

structure Inv (s : State G F V) : Prop where
  frames : s.Frames
  recorded : s.Recorded
  balanced : s.Balanced

theorem Inv.act (h : s.Inv) (step : Step G F V) (hstep : Settled step s) : (act step s).Inv := by
  constructor
  · exact h.frames.act step hstep
  · exact h.recorded.act step
  · exact h.balanced.act step

theorem inv_init (start : Start G F) : (init start : State G F V).Inv := by
  constructor
  · exact frames_init start
  · intro g hg
    exact nomatch hg
  · intro v
    rfl

section

omit [DecidableEq G] [DecidableEq F]

theorem Inv.sound (h : s.Inv) : s.Sound := by
  constructor
  · intro g hg
    cases hmfn : (s.p2m g).mfn with
    | none =>
      have hframed := h.frames.framed g hmfn
      rcases hg with hrw | hin
      · exact absurd hrw hframed.1
      · exact absurd hin hframed.2.1
    | some f =>
      exact ⟨f, rfl, h.frames.owned g f hmfn, fun g' hg' => h.frames.inj g' g f hg' hmfn⟩
  · exact h.frames.noLeak
  · exact h.balanced

theorem Inv.kept (h : s.Inv) (step : Step G F V) (hstep : Settled step s) : Kept step s := by
  cases step with
  | finish =>
    intro gfn mfn hpager
    unfold Settled at hstep
    simp only [hpager] at hstep
    by_contra hg
    -- the access left a request, which evict would have found
    rcases h.recorded gfn (Bool.of_not_eq_false hg) hstep.1 with ⟨req, hreq, hgfn⟩ | ⟨rsp, m, hresume, -⟩
    · exact hstep.2 req hreq hgfn
    · rw [hpager] at hresume
      exact nomatch hresume
  | nominate _ _ => trivial
  | evict _ _ => trivial
  | prep _ _ => trivial
  | resume _ => trivial
  | populate _ _ _ => trivial
  | populateWrite _ => trivial
  | populateEnd _ => trivial

end

end State

open Runs

/-- Where evict finds the page still on its way out and nothing asked for, and no entry is written
over, no contents are lost, every frame is where it belongs and every pause is paired. -/
theorem run_contents_kept (start : Start G F) (steps : List (Step G F V))
    (hsteps : Each act Settled steps (init start : State G F V)) :
    Each act Kept steps (init start : State G F V) ∧ (run act steps (init start : State G F V)).Sound := by
  have hkeep : ∀ (step : Step G F V) s, Settled step s → State.Inv s → State.Inv (act step s) := by
    intro step s hstep hinv
    exact hinv.act step hstep
  constructor
  · apply hsteps.of_inv (I := State.Inv) hkeep
    · intro step s hstep hinv
      exact hinv.kept step hstep
    · exact State.inv_init start
  · exact (hsteps.inv (I := State.Inv) hkeep (State.inv_init start)).sound

/-- One gfn, with one frame. -/
def oneGfn : Start Nat Nat where
  frame g := if g = 0 then some 0 else none
  owned f := f == 0
  owned_iff f := by
    constructor
    · intro hf
      exact ⟨0, by rw [if_pos rfl, beq_iff_eq.1 hf]⟩
    · intro ⟨g, hg⟩
      split at hg
      · exact beq_iff_eq.2 (Option.some.inj hg).symm
      · exact nomatch hg
  inj g g' f hg hg' := by
    split at hg
    · split at hg'
      · omega
      · exact nomatch hg'
    · exact nomatch hg

/-- A page goes out, is asked for by a vCPU of the domain, and comes in again. -/
def outAndIn : List (Step Nat Nat Nat) :=
  [.nominate 0 true, .finish, .evict 0 true, .finish, .populate 0 true 0, .populateWrite 0, .populateEnd 0, .prep 0 0,
    .finish, .resume 0, .finish]

theorem run_contents_kept_outAndIn : Each act Kept outAndIn (init oneGfn) ∧ (run act outAndIn (init oneGfn)).Sound ∧
    (run act outAndIn (init oneGfn)).p2m 0 = ⟨.ramRw, some 0⟩ ∧
    (run act (outAndIn.take 7) (init oneGfn)).paused 0 = 1 := by
  have hevict : Settled .finish (run act (outAndIn.take 3) (init oneGfn)) := by
    show PType.ramPagingOut = .ramPagingOut ∧ ∀ req ∈ ([] : List (Request Nat Nat)), req.gfn ≠ 0
    decide
  have hwrite : Settled (.populateWrite 0) (run act (outAndIn.take 5) (init oneGfn)) := by
    intro call hcall _ _
    cases hcall
    rfl
  have hprep : Settled .finish (run act (outAndIn.take 8) (init oneGfn)) := rfl
  have hresume : Settled (.resume 0) (run act (outAndIn.take 9) (init oneGfn)) := by
    intro req hreq
    cases hreq
    decide
  have hkept := run_contents_kept oneGfn outAndIn
    ⟨trivial, trivial, trivial, hevict, trivial, hwrite, trivial, trivial, hprep, hresume, trivial, trivial⟩
  exact ⟨hkept.1, hkept.2, by decide, by decide⟩

/-- The vCPU accesses the page after it was nominated; evict does not look at the request, and the
page goes. -/
theorem accessed_page_evicted :
    let steps : List (Step Nat Nat Nat) :=
      [.nominate 0 true, .finish, .populate 0 true 0, .populateEnd 0, .evict 0 true, .finish]
    Each act Disciplined steps (init oneGfn) ∧ ¬Each act Kept steps (init oneGfn) := by
  constructor
  · exact ⟨trivial, trivial, trivial, trivial, rfl, trivial, trivial⟩
  · intro hkept
    have hlast := hkept.2.2.2.2.2.1 0 0 rfl
    exact nomatch hlast

end MemEvent.Paging
