import Mathlib.Data.BitVec
import MemoryMonitor.Lib.Runs

/-!
# The ring of memory events

`xen/arch/x86/mm/mem_event.c`: vCPUs of the domain, and those of other domains that access its
memory, put requests on a ring that a listener in another domain takes them from. The listener
answers in the same slots, and `mem_event_get_response` takes the answers.

A producer calls `mem_event_check_ring`, and then `mem_event_put_request` if there was room. Each
holds the lock of the ring, but between the two the room is not kept for it. The check leaves a
few slots for producers that are in between.
-/

namespace MemEvent

/-- `RING_SIZE`: entries of 40 bytes in a page with a header of 64, rounded down to a power of two. -/
def ringSize : Nat := 64

/-- `MEM_EVENT_RING_THRESHOLD`. -/
def ringThreshold : Int := 4

/-- The ring, for producers `P` and messages `α`. The indices run freely, and a slot is found from
the index with `idx & (RING_SIZE - 1)`. -/
structure State (P α : Type) where
  /-- The entries of the shared ring; `none` is what was in the page before. -/
  ring : Nat → Option α
  reqProd : BitVec 32
  rspCons : BitVec 32
  /-- The indices of the listener. -/
  reqCons : BitVec 32
  rspProd : BitVec 32
  /-- The producers between their check and their request. -/
  passed : List P
  /-- `_VPF_mem_event`. -/
  paused : P → Bool
  /-- What has been put, and seen by the listener; what it has answered, and what was taken of that.
  These are not in the source. -/
  put : List α
  seen : List (Option α)
  answered : List α
  taken : List (Option α)

namespace State

variable {P α : Type} [DecidableEq P] (s : State P α)

/-- `RING_FREE_REQUESTS`. -/
def freeRequests : BitVec 32 := BitVec.ofNat 32 ringSize - (s.reqProd - s.rspCons)

def ringFull : Bool := s.freeRequests.toInt < ringThreshold

/-- `mem_event_check_ring`; `own` says whether the producer is of the domain. -/
def checkRing (p : P) (own : Bool) : State P α :=
  if s.ringFull then { s with paused := if own then Function.update s.paused p true else s.paused }
  else { s with passed := p :: s.passed }

/-- `mem_event_put_request`. -/
def putRequest (p : P) (req : α) : State P α :=
  if p ∈ s.passed then
    { s with
      ring := Function.update s.ring (s.reqProd.toNat % ringSize) (some req)
      reqProd := s.reqProd + 1
      passed := s.passed.erase p
      put := s.put ++ [req] }
  else s

/-- `mem_event_get_response`. -/
def getResponse : State P α :=
  { s with
    rspCons := s.rspCons + 1
    taken := s.taken ++ [s.ring (s.rspCons.toNat % ringSize)] }

/-- `mem_event_unpause_vcpus`. -/
def unpauseVcpus : State P α := { s with paused := fun _ => false }

/-- The listener takes the next request. -/
def takeRequest : State P α :=
  if s.reqCons = s.reqProd then s
  else
    { s with
      reqCons := s.reqCons + 1
      seen := s.seen ++ [s.ring (s.reqCons.toNat % ringSize)] }

/-- The listener answers a request that it has taken. -/
def putResponse (rsp : α) : State P α :=
  if s.rspProd = s.reqCons then s
  else
    { s with
      ring := Function.update s.ring (s.rspProd.toNat % ringSize) (some rsp)
      rspProd := s.rspProd + 1
      answered := s.answered ++ [rsp] }

end State

inductive Step (P α : Type) where
  | checkRing (p : P) (own : Bool)
  | putRequest (p : P) (req : α)
  /-- The producer has no request after all. -/
  | giveUp (p : P)
  | getResponse
  | unpauseVcpus
  | takeRequest
  | putResponse (rsp : α)

variable {P α : Type} [DecidableEq P]

def act (step : Step P α) (s : State P α) : State P α :=
  match step with
  | .checkRing p own => s.checkRing p own
  | .putRequest p req => s.putRequest p req
  | .giveUp p => { s with passed := s.passed.erase p }
  | .getResponse => s.getResponse
  | .unpauseVcpus => s.unpauseVcpus
  | .takeRequest => s.takeRequest
  | .putResponse rsp => s.putResponse rsp

/-- `FRONT_RING_INIT`. -/
def init : State P α where
  ring _ := none
  reqProd := 0
  rspCons := 0
  reqCons := 0
  rspProd := 0
  passed := []
  paused _ := false
  put := []
  seen := []
  answered := []
  taken := []

/-! ## The property -/

/-- Requests are seen once, in the order in which they were put, and all of them when the listener
has taken what is there; the same for the answers. -/
structure State.Lossless (s : State P α) : Prop where
  outstanding : s.put.length ≤ s.taken.length + ringSize
  seen : s.seen = (s.put.take s.seen.length).map some
  drained : s.reqCons = s.reqProd → s.seen = s.put.map some
  taken : s.taken = (s.answered.take s.taken.length).map some

/-- A request is put into a slot that is free: the answer to the request that was there has been
taken. -/
def Unused (step : Step P α) (s : State P α) : Prop :=
  match step with
  | .putRequest p _ => p ∈ s.passed → s.put.length < s.taken.length + ringSize
  | _ => True

/-- A check that passes finds fewer producers in between than there are free slots, and an answer
is taken only when there is one. -/
def Reserved (step : Step P α) (s : State P α) : Prop :=
  match step with
  | .checkRing _ _ => s.ringFull = false → s.passed.length < s.freeRequests.toNat
  | .getResponse => s.rspCons ≠ s.rspProd
  | _ => True

/-! ## Invariant -/

/-- The four indices follow each other around the ring, with room for the producers in between, and
the slots between them hold what was put there. -/
structure State.Inv (s : State P α) : Prop where
  reqProd : s.reqProd = BitVec.ofNat 32 s.put.length
  rspCons : s.rspCons = BitVec.ofNat 32 s.taken.length
  reqCons : s.reqCons = BitVec.ofNat 32 s.seen.length
  rspProd : s.rspProd = BitVec.ofNat 32 s.answered.length
  taken_le : s.taken.length ≤ s.answered.length
  answered_le : s.answered.length ≤ s.seen.length
  seen_le : s.seen.length ≤ s.put.length
  room : s.put.length + s.passed.length ≤ s.taken.length + ringSize
  requests : ∀ i, s.seen.length ≤ i → i < s.put.length → s.ring (i % ringSize) = s.put[i]?
  responses : ∀ i, s.taken.length ≤ i → i < s.answered.length → s.ring (i % ringSize) = s.answered[i]?
  seen : s.seen = (s.put.take s.seen.length).map some
  taken : s.taken = (s.answered.take s.taken.length).map some

/-- The slot of an index. -/
theorem toNat_mod_ringSize (n : Nat) : (BitVec.ofNat 32 n).toNat % ringSize = n % ringSize := by
  rw [BitVec.toNat_ofNat]
  exact Nat.mod_mod_of_dvd n (by decide)

/-- Indices that are less than a round apart have slots of their own. -/
theorem mod_ringSize_ne {i j : Nat} (hlt : i < j) (hnear : j < i + ringSize) : i % ringSize ≠ j % ringSize := by
  unfold ringSize at *
  omega

theorem ofNat_inj {a b : Nat} (hle : a ≤ b) (hnear : b ≤ a + ringSize) :
    BitVec.ofNat 32 a = BitVec.ofNat 32 b ↔ a = b := by
  constructor
  · intro h
    have hnat := congrArg BitVec.toNat h
    rw [BitVec.toNat_ofNat, BitVec.toNat_ofNat] at hnat
    unfold ringSize at hnear
    omega
  · intro h
    rw [h]

theorem ofNat_succ (n : Nat) : BitVec.ofNat 32 n + 1 = BitVec.ofNat 32 (n + 1) := (BitVec.ofNat_add n 1).symm

/-- The next element of a list after a part of it. -/
theorem take_succ_map {β : Type} {l : List β} {n : Nat} {l' : List (Option β)} {x : Option β} (hlen : l'.length = n)
    (hpart : l' = (l.take n).map some) (hlt : n < l.length) (hx : x = l[n]?) :
    l' ++ [x] = (l.take (l' ++ [x]).length).map some := by
  rw [List.length_append, List.length_singleton, hlen, hpart, hx, List.take_add_one, List.map_append,
    List.getElem?_eq_getElem hlt]
  rfl

namespace State

variable {s : State P α}

section

omit [DecidableEq P]

/-- The free slots, as a number. -/
theorem Inv.freeRequests (h : s.Inv) : s.freeRequests.toNat = s.taken.length + ringSize - s.put.length := by
  have hroom := h.room
  have hle : s.taken.length ≤ s.put.length := h.taken_le.trans (h.answered_le.trans h.seen_le)
  unfold State.freeRequests
  rw [h.reqProd, h.rspCons, BitVec.toNat_sub, BitVec.toNat_sub, BitVec.toNat_ofNat, BitVec.toNat_ofNat, BitVec.toNat_ofNat]
  unfold ringSize at *
  omega

theorem Inv.lossless (h : s.Inv) : s.Lossless where
  outstanding := (Nat.le_add_right _ _).trans h.room
  seen := h.seen
  drained heq := by
    have hroom := h.room
    have htaken := h.taken_le.trans h.answered_le
    rw [h.reqCons, h.reqProd, ofNat_inj h.seen_le (by omega)] at heq
    have hall := h.seen
    rw [heq, List.take_length] at hall
    exact hall
  taken := h.taken

end

theorem Inv.checkRing (h : s.Inv) {p : P} {own : Bool} (hres : s.ringFull = false → s.passed.length < s.freeRequests.toNat) :
    (s.checkRing p own).Inv := by
  unfold State.checkRing
  split
  · exact { h with }
  · rename_i hfull
    have hlt := hres (Bool.eq_false_of_not_eq_true hfull)
    rw [h.freeRequests] at hlt
    refine { h with room := ?_ }
    show s.put.length + (s.passed.length + 1) ≤ s.taken.length + ringSize
    omega

/-- A producer leaves the section between check and request. -/
theorem Inv.giveUp (h : s.Inv) (p : P) : Inv { s with passed := s.passed.erase p } := by
  have hle := List.length_erase_le (a := p) (l := s.passed)
  have hroom := h.room
  refine { h with room := ?_ }
  show s.put.length + (s.passed.erase p).length ≤ s.taken.length + ringSize
  omega

theorem Inv.putRequest (h : s.Inv) (p : P) (req : α) : (s.putRequest p req).Inv := by
  unfold State.putRequest
  split
  · rename_i hmem
    have hpassed := List.length_erase_of_mem hmem
    have hpos := List.length_pos_of_mem hmem
    have hroom := h.room
    have hseen := h.seen_le
    have htaken := h.taken_le
    have hanswered := h.answered_le
    rw [h.reqProd, toNat_mod_ringSize, ofNat_succ]
    -- the slots in use are not the one that is written
    have hother : ∀ i, s.taken.length ≤ i → i < s.put.length →
        Function.update s.ring (s.put.length % ringSize) (some req) (i % ringSize) = s.ring (i % ringSize) := by
      intro i hlow hlt
      exact Function.update_of_ne (mod_ringSize_ne hlt (by omega)) ..
    refine { h with
      reqProd := ?_, seen_le := ?_, room := ?_, requests := fun i hlow hlt => ?_, responses := fun i hlow hlt => ?_
      seen := ?_ }
    · show _ = BitVec.ofNat 32 (s.put ++ [req]).length
      rw [List.length_append, List.length_singleton]
    · exact hseen.trans (by simp)
    · show (s.put ++ [req]).length + (s.passed.erase p).length ≤ s.taken.length + ringSize
      rw [List.length_append, List.length_singleton]
      omega
    · rw [List.length_append, List.length_singleton] at hlt
      dsimp only at hlow ⊢
      by_cases hlast : i = s.put.length
      · rw [hlast, Function.update_self, List.getElem?_concat_length]
      · rw [hother i (by omega) (by omega), List.getElem?_append_left (by omega)]
        exact h.requests i hlow (by omega)
    · dsimp only at hlow hlt ⊢
      rw [hother i hlow (by omega)]
      exact h.responses i hlow hlt
    · show s.seen = ((s.put ++ [req]).take s.seen.length).map some
      rw [List.take_append_of_le_length hseen]
      exact h.seen
  · exact h

section

omit [DecidableEq P]

theorem Inv.getResponse (h : s.Inv) (hres : s.rspCons ≠ s.rspProd) : s.getResponse.Inv := by
  have hlt : s.taken.length < s.answered.length := by
    refine Nat.lt_of_le_of_ne h.taken_le fun heq => hres ?_
    rw [h.rspCons, h.rspProd, heq]
  have hslot : s.ring (s.rspCons.toNat % ringSize) = s.answered[s.taken.length]? := by
    rw [h.rspCons, toNat_mod_ringSize]
    exact h.responses _ (Nat.le_refl _) hlt
  have hroom := h.room
  unfold State.getResponse
  refine { h with
    rspCons := ?_, taken_le := ?_, room := ?_, responses := fun i hlow hi => ?_, taken := ?_ }
  · show s.rspCons + 1 = BitVec.ofNat 32 (s.taken ++ [_]).length
    rw [h.rspCons, ofNat_succ, List.length_append, List.length_singleton]
  · show (s.taken ++ [_]).length ≤ s.answered.length
    rw [List.length_append, List.length_singleton]
    exact hlt
  · show s.put.length + s.passed.length ≤ (s.taken ++ [_]).length + ringSize
    rw [List.length_append, List.length_singleton]
    omega
  · dsimp only at hlow
    rw [List.length_append, List.length_singleton] at hlow
    exact h.responses i (by omega) hi
  · exact take_succ_map rfl h.taken hlt hslot

theorem Inv.takeRequest (h : s.Inv) : s.takeRequest.Inv := by
  unfold State.takeRequest
  split
  · exact h
  · rename_i hne
    have hlt : s.seen.length < s.put.length := by
      refine Nat.lt_of_le_of_ne h.seen_le fun heq => hne ?_
      rw [h.reqCons, h.reqProd, heq]
    have hslot : s.ring (s.reqCons.toNat % ringSize) = s.put[s.seen.length]? := by
      rw [h.reqCons, toNat_mod_ringSize]
      exact h.requests _ (Nat.le_refl _) hlt
    have hanswered := h.answered_le
    refine { h with
      reqCons := ?_, answered_le := ?_, seen_le := ?_, requests := fun i hlow hi => ?_, seen := ?_ }
    · show s.reqCons + 1 = BitVec.ofNat 32 (s.seen ++ [_]).length
      rw [h.reqCons, ofNat_succ, List.length_append, List.length_singleton]
    · show s.answered.length ≤ (s.seen ++ [_]).length
      rw [List.length_append, List.length_singleton]
      omega
    · show (s.seen ++ [_]).length ≤ s.put.length
      rw [List.length_append, List.length_singleton]
      exact hlt
    · dsimp only at hlow
      rw [List.length_append, List.length_singleton] at hlow
      exact h.requests i (by omega) hi
    · exact take_succ_map rfl h.seen hlt hslot

theorem Inv.putResponse (h : s.Inv) (rsp : α) : (s.putResponse rsp).Inv := by
  unfold State.putResponse
  split
  · exact h
  · rename_i hne
    have hlt : s.answered.length < s.seen.length := by
      refine Nat.lt_of_le_of_ne h.answered_le fun heq => hne ?_
      rw [h.rspProd, h.reqCons, heq]
    have hroom := h.room
    have hseen := h.seen_le
    have htaken := h.taken_le
    rw [h.rspProd, toNat_mod_ringSize, ofNat_succ]
    refine { h with
      rspProd := ?_, taken_le := ?_, answered_le := ?_, requests := fun i hlow hi => ?_
      responses := fun i hlow hi => ?_, taken := ?_ }
    · show _ = BitVec.ofNat 32 (s.answered ++ [rsp]).length
      rw [List.length_append, List.length_singleton]
    · exact htaken.trans (by simp)
    · show (s.answered ++ [rsp]).length ≤ s.seen.length
      rw [List.length_append, List.length_singleton]
      exact hlt
    · dsimp only at hlow hi ⊢
      rw [Function.update_of_ne (Ne.symm (mod_ringSize_ne (by omega) (by omega)))]
      exact h.requests i hlow hi
    · rw [List.length_append, List.length_singleton] at hi
      dsimp only at hlow ⊢
      by_cases hlast : i = s.answered.length
      · rw [hlast, Function.update_self, List.getElem?_concat_length]
      · rw [Function.update_of_ne (mod_ringSize_ne (by omega) (by omega)), List.getElem?_append_left (by omega)]
        exact h.responses i hlow (by omega)
    · show s.taken = ((s.answered ++ [rsp]).take s.taken.length).map some
      rw [List.take_append_of_le_length htaken]
      exact h.taken

end

end State

theorem act_inv {step : Step P α} {s : State P α} (hres : Reserved step s) (h : s.Inv) : (act step s).Inv := by
  cases step with
  | checkRing p own => exact h.checkRing hres
  | putRequest p req => exact h.putRequest p req
  | giveUp p => exact h.giveUp p
  | getResponse => exact h.getResponse hres
  | unpauseVcpus => exact { h with }
  | takeRequest => exact h.takeRequest
  | putResponse rsp => exact h.putResponse rsp

section

omit [DecidableEq P]

theorem init_inv : (init : State P α).Inv where
  reqProd := rfl
  rspCons := rfl
  reqCons := rfl
  rspProd := rfl
  taken_le := Nat.le_refl 0
  answered_le := Nat.le_refl 0
  seen_le := Nat.le_refl 0
  room := Nat.zero_le _
  requests i _ hi := absurd hi (Nat.not_lt_zero i)
  responses i _ hi := absurd hi (Nat.not_lt_zero i)
  seen := rfl
  taken := rfl

/-- A producer that has passed the check has a slot. -/
theorem unused_of_inv {step : Step P α} {s : State P α} (h : s.Inv) : Unused step s := by
  cases step with
  | putRequest p req =>
    intro hmem
    have hpos := List.length_pos_of_mem hmem
    have hroom := h.room
    omega
  | _ => trivial

end

/-- In a run in which the free slots are enough for the producers in between, and answers are taken
when they are there, no request is put over one that is still needed, and none is lost. -/
theorem run_lossless (steps : List (Step P α)) (hsteps : Runs.Each act Reserved steps init) :
    Runs.Each act Unused steps init ∧ (Runs.run act steps init).Lossless := by
  constructor
  · exact hsteps.of_inv (I := State.Inv) (fun _ _ hok h => act_inv hok h) (fun _ _ _ h => unused_of_inv h) init_inv
  · have hinv : (Runs.run act steps init).Inv := hsteps.inv (I := State.Inv) (fun _ _ hok h => act_inv hok h) init_inv
    exact hinv.lossless

/-- Two producers pass the check before they put their requests, and both are answered. -/
def twoProducers : List (Step Nat Nat) :=
  [.checkRing 0 true, .checkRing 1 true, .putRequest 1 5, .putRequest 0 7, .takeRequest, .takeRequest, .putResponse 6,
    .getResponse, .putResponse 8, .getResponse]

theorem run_lossless_answer :
    (Runs.run act twoProducers init).Lossless ∧
      (Runs.run act twoProducers init).seen = [some 5, some 7] := by
  have hcheck (n : Nat) (h : n = 0 ∨ n = 1) :
      Reserved (.checkRing n true) (Runs.run act (twoProducers.take n) (init : State Nat Nat)) := by
    rcases h with rfl | rfl <;>
    · intro _
      decide
  have hget (n : Nat) (h : n = 7 ∨ n = 9) :
      Reserved .getResponse (Runs.run act (twoProducers.take n) (init : State Nat Nat)) := by
    rcases h with rfl | rfl <;>
    · intro heq
      revert heq
      decide
  refine ⟨(run_lossless twoProducers ?_).2, by decide⟩
  exact ⟨hcheck 0 (.inl rfl), hcheck 1 (.inr rfl), trivial, trivial, trivial, trivial, trivial, hget 7 (.inl rfl),
    trivial, hget 9 (.inr rfl), trivial⟩

/-- When four slots are left, five producers pass the check before they put their requests: the last
one is put over a request that the listener has not seen. -/
theorem fifth_request_overwrites :
    let steps : List (Step Nat Nat) := (List.replicate 60 [.checkRing 0 true, .putRequest 0 7]).flatten ++
      [.checkRing 0 true, .checkRing 1 true, .checkRing 2 true, .checkRing 3 true, .checkRing 4 true,
        .putRequest 0 7, .putRequest 1 7, .putRequest 2 7, .putRequest 3 7, .putRequest 4 9]
    ¬(Runs.run act steps init).Lossless ∧ (Runs.run act steps init).seen = [] ∧ (Runs.run act steps init).ring 0 = some 9 := by
  refine ⟨fun h => ?_, ?_, ?_⟩
  · have hout := h.outstanding
    revert hout
    decide +kernel
  · decide +kernel
  · decide +kernel

end MemEvent
