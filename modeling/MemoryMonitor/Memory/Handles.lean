import MemoryMonitor.Memory.Exchange
import MemoryMonitor.Memory.Reservation

/-!
# The lists of extents in guest memory

The operations of `xen/common/memory.c` copy the entries of the caller's lists without a check of their own
(`__copy_from_guest_offset`, `__copy_to_guest_offset`), so the range has to be checked before, with
`guest_handle_subrange_okay`. Here the calls of `Reservation` and `Exchange` are followed with a record of
what is checked and what is copied.
-/

namespace Memory.Handles

/-- A check of `bytes` bytes from `start` on, or a copy of the eight bytes at `addr`; `list` is the handle. -/
inductive Event where
  | checked (list start bytes : Nat) (okay : Bool)
  | copied (list addr : Nat)
  deriving DecidableEq

/-- Where the entry `i` of a list is. -/
def entry (list i : Nat) : Nat := (list + 8 * i) % 2 ^ 64

/-- The bytes are among those of a range that was found to be okay before. -/
def Allowed (events : List Event) (list addr : Nat) : Prop :=
  ∃ start bytes, .checked list start bytes true ∈ events ∧ ∃ k, k + 8 ≤ bytes ∧ addr = (start + k) % 2 ^ 64

/-- No copy touches anything else. -/
def Covered (events : List Event) : Prop :=
  ∀ n list addr, events[n]? = some (.copied list addr) → Allowed (events.take n) list addr

/-! ## Reservations -/

section Reservation

open Reservation

variable {σ : Type}

structure Traced (σ : Type) where
  state : σ
  events : List Event

namespace Traced

variable (c : Callees σ) (r : Request)

def copyToGuestOffset (i mfn : Nat) (t : Traced σ) : Traced σ × Bool :=
  let events := t.events ++ [.copied r.extentList (r.entryAddr i)]
  if r.reachable i then
    let out := c.copyTo i mfn t.state
    (⟨out.1, events⟩, out.2)
  else (⟨t.state, events⟩, false)

def copyFromGuestOffset (i : Nat) (t : Traced σ) : Traced σ × Option Nat :=
  let events := t.events ++ [.copied r.extentList (r.entryAddr i)]
  (⟨t.state, events⟩, if r.reachable i then c.copyFrom i t.state else none)

/-- The body of `increase_reservation`. -/
def increaseExtent (i : Nat) (t : Traced σ) : Traced σ × Bool :=
  match c.alloc r.extentOrder t.state with
  | (s, none) => (⟨s, t.events⟩, false)
  | (s, some mfn) =>
      if r.extentList = 0 then (⟨s, t.events⟩, true) else copyToGuestOffset c r i mfn ⟨s, t.events⟩

/-- The body of `populate_physmap`. -/
def populateExtent (i : Nat) (t : Traced σ) : Traced σ × Bool :=
  match copyFromGuestOffset c r i t with
  | (t, none) => (t, false)
  | (t, some gpfn) =>
      if r.populateOnDemand then
        let out := c.markPopulateOnDemand gpfn r.extentOrder t.state
        (⟨out.1, t.events⟩, out.2)
      else
        match c.alloc r.extentOrder t.state with
        | (s, none) => (⟨s, t.events⟩, false)
        | (s, some mfn) =>
            let s := c.addPage gpfn mfn r.extentOrder s
            if r.translate then (⟨s, t.events⟩, true)
            else copyToGuestOffset c r i mfn ⟨nameExtent c mfn gpfn (2 ^ r.extentOrder) 0 s, t.events⟩

/-- The body of `decrease_reservation`. -/
def decreaseExtent (i : Nat) (t : Traced σ) : Traced σ × Bool :=
  match copyFromGuestOffset c r i t with
  | (t, none) => (t, false)
  | (t, some gmfn) =>
      if r.hvm then
        let out := c.podDecreaseReservation gmfn r.extentOrder t.state
        if out.2 then (⟨out.1, t.events⟩, true)
        else
          let out := removeExtent c gmfn (2 ^ r.extentOrder) 0 out.1
          (⟨out.1, t.events⟩, out.2)
      else
        let out := removeExtent c gmfn (2 ^ r.extentOrder) 0 t.state
        (⟨out.1, t.events⟩, out.2)

def extent (i : Nat) (t : Traced σ) : Traced σ × Bool :=
  match r.op with
  | .increase => increaseExtent c r i t
  | .decrease => decreaseExtent c r i t
  | .populate => populateExtent c r i t

end Traced

/-- The check that the three functions begin with; `nr_extents - 1 - nr_done + 1` is an `unsigned int`. -/
def startCheck (r : Request) (nrDone nrExtents : Nat) : List Event :=
  if r.op = .increase ∧ r.extentList = 0 then []
  else
    [.checked r.extentList (r.entryAddr nrDone) (8 * ((nrExtents + 2 ^ 32 - nrDone) % 2 ^ 32))
      (r.subrangeOkay nrDone)]

/-- What `do_memory_op` checks and copies for one of the three operations. -/
def doMemoryOp (c : Callees σ) (r : Request) (preempt : Nat → Bool) (cmd : Nat) (s : σ) : List Event :=
  let startExtent := cmd >>> extentShift
  match r.refuses startExtent with
  | some _ => []
  | none =>
      let nrDone := startExtent % 2 ^ 32
      let nrExtents := r.nrExtents % 2 ^ 32
      let events := startCheck r nrDone nrExtents
      if r.startOkay nrDone then
        (loop (Traced.extent c r) preempt (nrExtents - nrDone) nrDone ⟨s, events⟩ []).state.events
      else events

end Reservation

/-! ## Exchanges -/

/-- The handles of the two lists; `translate` is `paging_mode_translate`. -/
structure Lists where
  input : Nat
  output : Nat
  translate : Bool

/-- What `memory_exchange` copies in its next step. -/
def copies (lists : Lists) (s : Exchange.State) : List Event :=
  match s.pc with
  | .extent i j =>
      if j < 2 ^ s.exch.inChunkOrder then
        [.copied lists.input (entry lists.input ((i <<< s.exch.inChunkOrder) + j))]
      else []
  | .assign i j =>
      match s.outChunk with
      | _ :: _ =>
          let copy := .copied lists.output (entry lists.output ((i <<< s.exch.outChunkOrder) + j))
          if s.isDying then [] else if lists.translate then [copy] else [copy, copy]
      | [] => []
  | _ => []

/-- A step of the call, or something that happens to the domain in between. -/
inductive Move where
  | next (a : Exchange.Answer)
  | die
  | relinquish (p : Nat)

/-- What is checked and copied from a state on. -/
def exchange (lists : Lists) : List Move → Exchange.State → List Event
  | [], _ => []
  | .next a :: rest, s => copies lists s ++ exchange lists rest (s.advance a)
  | .die :: rest, s => exchange lists rest { s with isDying := true }
  | .relinquish p :: rest, s => exchange lists rest (s.relinquish p)

/-! ## Checked copies -/

section Covered

variable {events : List Event} {list addr : Nat}

theorem Covered.nil : Covered [] := nofun

theorem Covered.checked (start bytes : Nat) (okay : Bool) : Covered [.checked list start bytes okay] := by
  intro n list' addr h
  cases n with
  | zero => cases h
  | succ n => cases h

theorem Covered.copied (h : Covered events) (hallowed : Allowed events list addr) :
    Covered (events ++ [.copied list addr]) := by
  intro n list' addr' hn
  rcases Nat.lt_trichotomy n events.length with hlt | heq | hgt
  · rw [List.getElem?_append_left hlt] at hn
    rw [List.take_append_of_le_length (Nat.le_of_lt hlt)]
    exact h n list' addr' hn
  · subst heq
    rw [List.getElem?_concat_length] at hn
    cases hn
    rwa [List.take_left]
  · rw [List.getElem?_eq_none (by
      rw [List.length_append]
      exact hgt)] at hn
    cases hn

/-- The first copy is one that nothing has been checked for. -/
theorem not_covered {rest : List Event} : ¬Covered (.copied list addr :: rest) := by
  intro h
  rcases h 0 list addr rfl with ⟨start, bytes, hmem, -⟩
  exact absurd hmem List.not_mem_nil

end Covered

section Reservation

open Reservation

variable {σ : Type} {c : Callees σ} {r : Request}

/-- With the range checked, or with a null handle, the copies are covered. -/
structure Good (r : Request) (lo hi : Nat) (t : Traced σ) : Prop where
  covered : Covered t.events
  checked : ¬(r.op = .increase ∧ r.extentList = 0) →
    .checked r.extentList (r.entryAddr lo) (8 * (hi - lo)) true ∈ t.events

variable {lo hi i : Nat}

theorem Good.allowed {t : Traced σ} (h : Good r lo hi t) (hnull : ¬(r.op = .increase ∧ r.extentList = 0))
    (hlo : lo ≤ i) (hhi : i < hi) : Allowed t.events r.extentList (r.entryAddr i) := by
  refine ⟨_, _, h.checked hnull, 8 * (i - lo), by omega, ?_⟩
  unfold Request.entryAddr
  rw [Nat.mod_add_mod]
  congr 1
  omega

theorem Good.state {t : Traced σ} (h : Good r lo hi t) (s : σ) : Good r lo hi ⟨s, t.events⟩ := ⟨h.covered, h.checked⟩

theorem Good.copied {t : Traced σ} (h : Good r lo hi t) (hnull : ¬(r.op = .increase ∧ r.extentList = 0))
    (hlo : lo ≤ i) (hhi : i < hi) (s : σ) :
    Good r lo hi ⟨s, t.events ++ [.copied r.extentList (r.entryAddr i)]⟩ where
  covered := h.covered.copied (h.allowed hnull hlo hhi)
  checked hnull := List.mem_append_left _ (h.checked hnull)

theorem Good.copyTo {t : Traced σ} (h : Good r lo hi t) (hnull : ¬(r.op = .increase ∧ r.extentList = 0))
    (hlo : lo ≤ i) (hhi : i < hi) (mfn : Nat) : Good r lo hi (Traced.copyToGuestOffset c r i mfn t).1 := by
  unfold Traced.copyToGuestOffset
  cases r.reachable i with
  | true => exact h.copied hnull hlo hhi _
  | false => exact h.copied hnull hlo hhi _

theorem Good.extent {t : Traced σ} (h : Good r lo hi t) (hlo : lo ≤ i) (hhi : i < hi) :
    Good r lo hi (Traced.extent c r i t).1 := by
  unfold Traced.extent
  cases hop : r.op with
  | increase =>
    dsimp only
    unfold Traced.increaseExtent
    rcases c.alloc r.extentOrder t.state with ⟨s, _ | mfn⟩
    · exact h.state s
    · dsimp only
      by_cases hz : r.extentList = 0
      · rw [if_pos hz]
        exact h.state s
      · rw [if_neg hz]
        exact (h.state s).copyTo (fun hnull => hz hnull.2) hlo hhi mfn
  | decrease =>
    have hnull : ¬(r.op = .increase ∧ r.extentList = 0) := fun h => absurd (hop.symm.trans h.1) nofun
    have hread := fun s => h.copied hnull hlo hhi s
    dsimp only
    unfold Traced.decreaseExtent Traced.copyFromGuestOffset
    dsimp only
    cases (if r.reachable i then c.copyFrom i t.state else none) with
    | none => exact hread _
    | some gmfn =>
      dsimp only
      split
      · split
        · exact hread _
        · exact hread _
      · exact hread _
  | populate =>
    have hnull : ¬(r.op = .increase ∧ r.extentList = 0) := fun h => absurd (hop.symm.trans h.1) nofun
    have hread := fun s => h.copied hnull hlo hhi s
    dsimp only
    unfold Traced.populateExtent Traced.copyFromGuestOffset
    dsimp only
    cases (if r.reachable i then c.copyFrom i t.state else none) with
    | none => exact hread _
    | some gpfn =>
      dsimp only
      split
      · exact hread _
      · rcases c.alloc r.extentOrder t.state with ⟨s, _ | mfn⟩
        · exact hread _
        · dsimp only
          split
          · exact hread _
          · exact (hread _).copyTo hnull hlo hhi mfn

/-- What the body keeps for the extents from `lo` to `hi`, the loop over them keeps. -/
theorem loop_keeps {τ : Type} {body : Nat → τ → τ × Bool} {good : τ → Prop} {preempt : Nat → Bool}
    (hbody : ∀ i t, lo ≤ i → i < hi → good t → good (body i t).1) {todo i : Nat} {t : τ} {log : List Nat}
    (hlo : lo ≤ i) (hhi : i + todo ≤ hi) (h : good t) : good (loop body preempt todo i t log).state := by
  induction todo generalizing i t log with
  | zero => exact h
  | succ todo ih =>
    unfold loop
    cases preempt i with
    | true => exact h
    | false =>
      have hnext := hbody i t hlo (by omega) h
      rw [if_neg Bool.false_ne_true]
      dsimp only
      split
      · exact ih (by omega) (by omega) hnext
      · exact hnext

theorem doMemoryOp_covered (c : Callees σ) (r : Request) (preempt : Nat → Bool) (cmd : Nat) (s : σ) :
    Covered (doMemoryOp c r preempt cmd s) := by
  unfold doMemoryOp
  dsimp only
  cases r.refuses (cmd >>> extentShift) with
  | some value => exact .nil
  | none =>
    dsimp only
    generalize cmd >>> extentShift % 2 ^ 32 = nrDone
    have hmax : r.nrExtents % 2 ^ 32 < 2 ^ 32 := Nat.mod_lt _ (by decide)
    generalize r.nrExtents % 2 ^ 32 = nrExtents at hmax
    have hcovered : Covered (startCheck r nrDone nrExtents) := by
      unfold startCheck
      split
      · exact .nil
      · exact .checked _ _ _
    cases hok : r.startOkay nrDone with
    | false => exact hcovered
    | true =>
      rw [if_pos rfl]
      by_cases hdone : nrExtents ≤ nrDone
      · rw [Nat.sub_eq_zero_of_le hdone]
        exact hcovered
      · have hgood : Good r nrDone nrExtents ⟨s, startCheck r nrDone nrExtents⟩ := by
          refine ⟨hcovered, ?_⟩
          intro hnull
          have hsub : r.subrangeOkay nrDone = true := by
            unfold Request.startOkay at hok
            cases hop : r.op with
            | increase =>
              have hlist : r.extentList ≠ 0 := fun hz => hnull ⟨hop, hz⟩
              rw [hop] at hok
              simpa [hlist] using (Bool.and_eq_true_iff.mp hok).1
            | decrease =>
              rw [hop] at hok
              exact hok
            | populate =>
              rw [hop] at hok
              exact (Bool.and_eq_true_iff.mp hok).1
          dsimp only
          unfold startCheck
          rw [if_neg hnull, hsub, show (nrExtents + 2 ^ 32 - nrDone) % 2 ^ 32 = nrExtents - nrDone by omega]
          exact List.mem_singleton_self _
        exact (loop_keeps (fun i t hlo hhi h => h.extent hlo hhi) le_rfl (by omega) hgood).covered

/-! ## The calls are those of `Reservation` -/

theorem Traced.extent_state (c : Callees σ) (r : Request) (i : Nat) (t : Traced σ) :
    ((Traced.extent c r i t).1.state, (Traced.extent c r i t).2) = Reservation.extent c r i t.state := by
  unfold Traced.extent Reservation.extent
  cases r.op with
  | increase =>
    dsimp only
    unfold Traced.increaseExtent Reservation.increaseExtent Traced.copyToGuestOffset
    rcases c.alloc r.extentOrder t.state with ⟨s, _ | mfn⟩
    · rfl
    · dsimp only
      split
      · rfl
      · split <;> rfl
  | decrease =>
    dsimp only
    unfold Traced.decreaseExtent Reservation.decreaseExtent Traced.copyFromGuestOffset
    cases r.reachable i with
    | false => rfl
    | true =>
      simp only [if_true]
      cases c.copyFrom i t.state with
      | none => rfl
      | some gmfn =>
        dsimp only
        split
        · split <;> rfl
        · rfl
  | populate =>
    dsimp only
    unfold Traced.populateExtent Reservation.populateExtent Traced.copyFromGuestOffset Traced.copyToGuestOffset
    cases r.reachable i with
    | false => rfl
    | true =>
      simp only [if_true]
      cases c.copyFrom i t.state with
      | none => rfl
      | some gpfn =>
        dsimp only
        split
        · rfl
        · rcases c.alloc r.extentOrder t.state with ⟨s, _ | mfn⟩
          · rfl
          · dsimp only
            split <;> rfl

theorem loop_traced (c : Callees σ) (r : Request) (preempt : Nat → Bool) (todo i : Nat) (t : Traced σ)
    (log : List Nat) :
    let e := loop (Traced.extent c r) preempt todo i t log
    (⟨e.reached, e.preempted, e.state.state, e.log⟩ : Ended σ)
      = loop (Reservation.extent c r) preempt todo i t.state log := by
  induction todo generalizing i t log with
  | zero => rfl
  | succ todo ih =>
    dsimp only
    unfold loop
    rw [← Traced.extent_state]
    cases preempt i with
    | true => rfl
    | false =>
      dsimp only
      rw [if_neg Bool.false_ne_true, if_neg Bool.false_ne_true]
      cases (Traced.extent c r i t).2 with
      | true => exact ih (i + 1) _ _
      | false => rfl

end Reservation

/-! ## Exchanges check nothing -/

section Exchange

open Exchange

variable {lists : Lists} {s : State} {i : Nat}

/-- The answers that the call is given. -/
def answers : List Move → List Answer
  | [] => []
  | .next a :: rest => a :: answers rest
  | .die :: rest | .relinquish _ :: rest => answers rest

theorem relinquish_pc (s : State) (p : Nat) : (s.relinquish p).pc = s.pc ∧ (s.relinquish p).exch = s.exch := by
  unfold State.relinquish
  split
  · exact ⟨rfl, rfl⟩
  · exact ⟨rfl, rfl⟩

/-- A call that has returned copies nothing. -/
theorem exchange_returned (moves : List Move) {rc : Rc} (h : s.pc = .returned rc) : exchange lists moves s = [] := by
  induction moves generalizing s with
  | nil => rfl
  | cons move rest ih =>
    cases move with
    | next a =>
      have hstay : s.advance a = s := by
        unfold State.advance
        rw [h]
      unfold exchange copies
      rw [hstay, h]
      exact ih h
    | die => exact ih (s := { s with isDying := true }) h
    | relinquish p => exact ih ((relinquish_pc s p).1.trans h)

theorem exchange_finish (moves : List Move) (rc : Rc) (written : Bool) :
    exchange lists moves (s.finish rc written) = [] := by
  unfold State.finish
  cases written with
  | true => exact exchange_returned moves rfl
  | false => exact exchange_returned moves rfl

/-- The first access to a chunk is a copy. -/
theorem exchange_extent (lists : Lists) (s : State) (moves : List Move) (h : s.pc = .extent i 0) :
    (answers moves = [] ∧ exchange lists moves s = []) ∨
      (answers moves ≠ [] ∧ ∃ addr rest, exchange lists moves s = .copied lists.input addr :: rest) := by
  induction moves generalizing s with
  | nil => exact .inl ⟨rfl, rfl⟩
  | cons move rest ih =>
    cases move with
    | next a =>
      refine .inr ⟨List.cons_ne_nil _ _, entry lists.input ((i <<< s.exch.inChunkOrder) + 0),
        exchange lists rest (s.advance a), ?_⟩
      show copies lists s ++ exchange lists rest (s.advance a) = _
      unfold copies
      rw [h]
      dsimp only
      rw [if_pos (Nat.two_pow_pos _)]
      rfl
    | die => exact ih { s with isDying := true } h
    | relinquish p => exact ih _ ((relinquish_pc s p).1.trans h)

theorem exchange_head (moves : List Move) (h : s.pc = .head i) :
    Covered (exchange lists moves s) ↔
      ¬(i < s.exch.input.nrExtents >>> s.exch.inChunkOrder ∧
        ∃ a a' rest, answers moves = a :: a' :: rest ∧ a.preempt = false) := by
  induction moves generalizing s with
  | nil =>
    refine ⟨?_, fun _ => .nil⟩
    rintro - ⟨-, a, a', rest, h, -⟩
    cases h
  | cons move rest ih =>
    cases move with
    | die => exact ih (s := { s with isDying := true }) h
    | relinquish p =>
      have hsame := relinquish_pc s p
      have := ih (s := s.relinquish p) (hsame.1.trans h)
      rw [hsame.2] at this
      exact this
    | next a =>
      have hquiet : copies lists s = [] := by
        unfold copies
        rw [h]
      show Covered (copies lists s ++ exchange lists rest (s.advance a)) ↔
        ¬(_ ∧ ∃ a₀ a' rest', a :: answers rest = a₀ :: a' :: rest' ∧ a₀.preempt = false)
      rw [hquiet, List.nil_append]
      unfold State.advance
      rw [h]
      dsimp only
      by_cases hi : i < s.exch.input.nrExtents >>> s.exch.inChunkOrder
      · rw [if_pos hi]
        cases hp : a.preempt with
        | true =>
          rw [if_pos rfl, exchange_finish]
          refine ⟨?_, fun _ => .nil⟩
          rintro - ⟨-, a₀, a', rest', hans, hno⟩
          rw [← (List.cons.inj hans).1, hp] at hno
          cases hno
        | false =>
          rw [if_neg Bool.false_ne_true]
          rcases exchange_extent lists { s with pc := .extent i 0 } rest rfl with
            ⟨hend, hnone⟩ | ⟨hgoes, addr, more, hcopy⟩
          · rw [hnone, hend]
            refine ⟨?_, fun _ => .nil⟩
            rintro - ⟨-, a₀, a', rest', hans, -⟩
            cases hans
          · rw [hcopy]
            refine ⟨fun hcov => absurd hcov not_covered, ?_⟩
            intro hno
            cases hans : answers rest with
            | nil => exact absurd hans hgoes
            | cons a' rest' => exact absurd ⟨hi, a, a', rest', by rw [hans], hp⟩ hno
      · rw [if_neg hi, exchange_finish]
        exact ⟨fun _ h => hi h.1, fun _ => .nil⟩

/-- The checks at the start pass, and a chunk is left to exchange. -/
structure Begins (x : Exch) (e : Entry) : Prop where
  copied : e.copied = true
  sane : x.sane = true
  permitted : e.permitted = true
  domFound : e.domFound = true
  privileged : e.privileged = true
  left : x.nrExchanged >>> x.inChunkOrder < x.input.nrExtents >>> x.inChunkOrder

/-- The call is not preempted before it gets to its first chunk. -/
def Reaches (moves : List Move) : Prop := ∃ a a' rest, answers moves = a :: a' :: rest ∧ a.preempt = false

/-- A check at the start: who is refused copies nothing. -/
theorem exchange_check {lists : Lists} {moves : List Move} {ok : Bool} {refused go : State} {p : Prop}
    (hrefused : exchange lists moves refused = []) (hok : p → ok = true)
    (hgo : ok = true → (Covered (exchange lists moves go) ↔ ¬p)) :
    Covered (exchange lists moves (if !ok then refused else go)) ↔ ¬p := by
  cases ok with
  | false =>
    simp only [Bool.not_false, if_true]
    rw [hrefused]
    exact ⟨fun _ h => Bool.false_ne_true (hok h), fun _ => .nil⟩
  | true =>
    simp only [Bool.not_true, Bool.false_eq_true, if_false]
    exact hgo rfl

theorem exchange_enter (lists : Lists) (moves : List Move) (s : State) (e : Entry) :
    Covered (exchange lists moves (s.enter e)) ↔ ¬(Begins s.guest e ∧ Reaches moves) := by
  unfold State.enter
  refine exchange_check (exchange_returned moves rfl) (fun h => h.1.copied) fun hcopied => ?_
  dsimp only
  refine exchange_check (exchange_finish moves _ _) (fun h => h.1.sane) fun hsane => ?_
  refine exchange_check (exchange_finish moves _ _) (fun h => h.1.permitted) fun hpermitted => ?_
  refine exchange_check (exchange_finish moves _ _) (fun h => h.1.domFound) fun hfound => ?_
  refine exchange_check (exchange_finish moves _ _) (fun h => h.1.privileged) fun hprivileged => ?_
  rw [exchange_head moves rfl]
  constructor
  · intro h hboth
    exact h ⟨hboth.1.left, hboth.2⟩
  · intro h hboth
    exact h ⟨⟨hcopied, hsane, hpermitted, hfound, hprivileged, hboth.1⟩, hboth.2⟩

end Exchange

/-! ## Only checked ranges are copied -/

/-- The reservation operations copy only what they have checked; `memory_exchange` does so if and only if it
ends before it copies anything. -/
theorem copies_checked_iff {σ : Type} (c : Reservation.Callees σ) (r : Reservation.Request)
    (preempt : Nat → Bool) (cmd : Nat) (s : σ) (lists : Lists) (moves : List Move) (t : Exchange.State)
    (e : Exchange.Entry) :
    Covered (doMemoryOp c r preempt cmd s) ∧
      (Covered (exchange lists moves (t.enter e)) ↔ ¬(Begins t.guest e ∧ Reaches moves)) :=
  ⟨doMemoryOp_covered c r preempt cmd s, exchange_enter lists moves t e⟩

/-- The lists are where the hypervisor has its own code. -/
def hypervisorLists : Lists := ⟨0xffff82c480000000, 0xffff82c480000000, false⟩

/-- One page is exchanged for one page. -/
def onePage : Exchange.Exch := ⟨⟨1, 0, 0⟩, ⟨1, 0, 0⟩, 0⟩

/-- The guest's own page 0 is found and stolen, and it gets page 2 of the heap. -/
def goesThrough : List Move := List.replicate 11 (.next (.good 0 2))

/-- The hypervisor's memory is read, and written where the output list is taken to be. -/
theorem exchange_hypervisorMemory :
    let s := (Exchange.State.init Exchange.twoPages).call onePage .good
    exchange hypervisorLists goesThrough s =
        [.copied 0xffff82c480000000 0xffff82c480000000, .copied 0xffff82c480000000 0xffff82c480000000,
          .copied 0xffff82c480000000 0xffff82c480000000] ∧
      Reservation.Request.addrOk 0xffff82c480000000 = false ∧
      ¬Covered (exchange hypervisorLists goesThrough s) := by
  intro s
  have hrun : exchange hypervisorLists goesThrough s =
      [.copied 0xffff82c480000000 0xffff82c480000000, .copied 0xffff82c480000000 0xffff82c480000000,
        .copied 0xffff82c480000000 0xffff82c480000000] := by
    decide +kernel
  refine ⟨hrun, by decide, ?_⟩
  rw [hrun]
  exact not_covered

end Memory.Handles
