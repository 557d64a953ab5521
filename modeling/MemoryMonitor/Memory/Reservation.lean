import Mathlib

/-!
# Changing a reservation

`do_memory_op` for `XENMEM_increase_reservation`, `XENMEM_decrease_reservation` and
`XENMEM_populate_physmap` (`xen/common/memory.c`). Each of the three is a loop over extents that
may stop before any of them and have the hypercall made again. How far it has got travels in the
command: `nr_done` becomes an `int`, is shifted left by 6 bits as such, and is passed on where an
`unsigned long` is expected. So the call goes on where it stopped only while `nr_done` is small.

What is done to an extent is left to the functions that are called for it (`Callees`).
-/

namespace Memory.Reservation

/-- The three operations. -/
inductive Op where
  | increase | decrease | populate
  deriving DecidableEq

/-- `XENMEM_increase_reservation`, `XENMEM_decrease_reservation`, `XENMEM_populate_physmap`. -/
def Op.code : Op → Nat
  | .increase => 0
  | .decrease => 1
  | .populate => 6

/-- `MEMOP_EXTENT_SHIFT`. -/
def extentShift : Nat := 6

/-- What the call reads and looks up before the extents. -/
structure Request where
  op : Op
  /-- `copy_from_guest` succeeds. -/
  readable : Bool
  nrExtents : Nat
  extentOrder : Nat
  /-- `extent_start`, and whether it is a null handle. -/
  extentList : Nat
  /-- Whether `address_bits` are enough for a page, as far as they are given. -/
  addressBitsOkay : Bool
  /-- `XENMEMF_populate_on_demand`. -/
  populateOnDemand : Bool
  /-- The domain is found, and the caller may act on it. -/
  found : Bool
  privileged : Bool
  /-- `xsm_memory_adjust_reservation`. -/
  xsm : Int
  /-- `paging_mode_external` of the caller, and whether it has any I/O resources. -/
  external : Bool
  hasIoCaps : Bool
  /-- The domain has `paging_mode_translate`, and is an HVM domain. -/
  translate : Bool
  hvm : Bool

/-- What is called for an extent. `copyFrom` and `copyTo` say whether the entry `i` of the list
can be read and written where it is mapped. -/
structure Callees (σ : Type) where
  alloc : Nat → σ → σ × Option Nat
  copyFrom : Nat → σ → Option Nat
  copyTo : Nat → Nat → σ → σ × Bool
  markPopulateOnDemand : Nat → Nat → σ → σ × Bool
  addPage : Nat → Nat → Nat → σ → σ
  setGpfn : Nat → Nat → σ → σ
  podDecreaseReservation : Nat → Nat → σ → σ × Bool
  removePage : Nat → σ → σ × Bool

/-! ## The list of extents -/

namespace Request

variable (r : Request)

/-- `HYPERVISOR_VIRT_END`. -/
def hypervisorVirtEnd : Nat := 0xffff880000000000

/-- `__addr_ok`. -/
def addrOk (addr : Nat) : Bool := addr < 2 ^ 48 || hypervisorVirtEnd ≤ addr

/-- An access to any other address faults. -/
def canonical (addr : Nat) : Bool := addr < 2 ^ 47 || 2 ^ 64 - 2 ^ 47 ≤ addr

/-- Where the entry `i` is. -/
def entryAddr (i : Nat) : Nat := (r.extentList + 8 * i) % 2 ^ 64

/-- `guest_handle_subrange_okay`. -/
def subrangeOkay (first : Nat) : Bool := r.external || addrOk (r.entryAddr first)

/-- The processor or the page tables of the guest take the address. -/
def reachable (i : Nat) : Bool := r.external || canonical (r.entryAddr i)

/-- `multipage_allocation_permitted`. -/
def multipagePermitted : Bool := r.extentOrder ≤ 9 || r.hasIoCaps

/-- The checks of `do_memory_op`, with what is returned if one of them fails. -/
def refuses (startExtent : Nat) : Option Int :=
  if !r.readable then some startExtent
  else if r.nrExtents > (2 ^ 64 - 1) >>> extentShift then some startExtent
  else if startExtent ≥ r.nrExtents then some startExtent
  else if !r.addressBitsOkay then some startExtent
  else if !r.found then some startExtent
  else if !r.privileged then some startExtent
  else if r.xsm ≠ 0 then some r.xsm
  else none

/-- The checks at the start of the three functions. -/
def startOkay (nrDone : Nat) : Bool :=
  match r.op with
  | .increase => (r.extentList = 0 || r.subrangeOkay nrDone) && r.multipagePermitted
  | .decrease => r.subrangeOkay nrDone
  | .populate => r.subrangeOkay nrDone && r.multipagePermitted

end Request

/-! ## One extent -/

section Extents

variable {σ : Type} (c : Callees σ) (r : Request)

/-- The body of `increase_reservation`, and whether the loop goes on. -/
def increaseExtent (i : Nat) (s : σ) : σ × Bool :=
  match c.alloc r.extentOrder s with
  | (s, none) => (s, false)
  | (s, some mfn) =>
      if r.extentList = 0 then (s, true)
      else if r.reachable i then c.copyTo i mfn s
      else (s, false)

/-- `set_gpfn_from_mfn` for a whole extent. -/
def nameExtent (mfn gpfn : Nat) : (todo j : Nat) → σ → σ
  | 0, _, s => s
  | todo + 1, j, s => nameExtent mfn gpfn todo (j + 1) (c.setGpfn (mfn + j) (gpfn + j) s)

/-- The body of `populate_physmap`. -/
def populateExtent (i : Nat) (s : σ) : σ × Bool :=
  if r.reachable i then
    match c.copyFrom i s with
    | none => (s, false)
    | some gpfn =>
        if r.populateOnDemand then c.markPopulateOnDemand gpfn r.extentOrder s
        else
          match c.alloc r.extentOrder s with
          | (s, none) => (s, false)
          | (s, some mfn) =>
              let s := c.addPage gpfn mfn r.extentOrder s
              if r.translate then (s, true)
              else c.copyTo i mfn (nameExtent c mfn gpfn (2 ^ r.extentOrder) 0 s)
  else (s, false)

/-- `guest_remove_page` for a whole extent. -/
def removeExtent (gmfn : Nat) : (todo j : Nat) → σ → σ × Bool
  | 0, _, s => (s, true)
  | todo + 1, j, s =>
      let p := c.removePage (gmfn + j) s
      if p.2 then removeExtent gmfn todo (j + 1) p.1 else (p.1, false)

/-- The body of `decrease_reservation`. -/
def decreaseExtent (i : Nat) (s : σ) : σ × Bool :=
  if r.reachable i then
    match c.copyFrom i s with
    | none => (s, false)
    | some gmfn =>
        if r.hvm then
          let p := c.podDecreaseReservation gmfn r.extentOrder s
          if p.2 then (p.1, true) else removeExtent c gmfn (2 ^ r.extentOrder) 0 p.1
        else removeExtent c gmfn (2 ^ r.extentOrder) 0 s
  else (s, false)

def extent (i : Nat) (s : σ) : σ × Bool :=
  match r.op with
  | .increase => increaseExtent c r i s
  | .decrease => decreaseExtent c r i s
  | .populate => populateExtent c r i s

end Extents

/-! ## The loop -/

/-- How a loop ended: at which extent, whether it was preempted there, and which extents have
been worked on so far. -/
structure Ended (σ : Type) where
  reached : Nat
  preempted : Bool
  state : σ
  log : List Nat

section Loop

variable {σ : Type} (body : Nat → σ → σ × Bool)

/-- The loop over the extents from `i` on; `preempt` is `hypercall_preempt_check`. -/
def loop (preempt : Nat → Bool) : (todo i : Nat) → σ → List Nat → Ended σ
  | 0, i, s, log => ⟨i, false, s, log⟩
  | todo + 1, i, s, log =>
      if preempt i then ⟨i, true, s, log⟩
      else
        let p := body i s
        if p.2 then loop preempt todo (i + 1) p.1 (log ++ [i]) else ⟨i, false, p.1, log ++ [i]⟩

/-- A check that never asks for preemption. -/
def never (_ : Nat) : Bool := false

end Loop

/-! ## The hypercall -/

/-- `rc`, an `int`, as a `long`. -/
def asLong (nrDone : Nat) : Int :=
  if nrDone % 2 ^ 32 < 2 ^ 31 then (nrDone % 2 ^ 32 : Nat) else (nrDone % 2 ^ 32 : Nat) - 2 ^ 32

/-- `op | (rc << MEMOP_EXTENT_SHIFT)` as the command of the next call. It is an `int`; the call
takes an `unsigned long` from the argument list, whose upper half then has copies of the sign, or
zeroes. -/
def continuation (signExtended : Bool) (op : Op) (nrDone : Nat) : Nat :=
  let low := op.code ||| (nrDone <<< extentShift % 2 ^ 32)
  if signExtended ∧ 2 ^ 31 ≤ low then low + (2 ^ 64 - 2 ^ 32) else low

/-- Either the hypercall returns, or it is made again with another command. -/
inductive Result (σ : Type) where
  | returns (value : Int) (state : σ) (log : List Nat)
  | again (cmd : Nat) (nrDone : Nat) (state : σ) (log : List Nat)

def Result.log {σ : Type} : Result σ → List Nat
  | .returns _ _ log => log
  | .again _ _ _ log => log

section Calls

variable {σ : Type} (c : Callees σ) (signExtended : Bool) (r : Request)

/-- `do_memory_op`. -/
def doMemoryOp (preempt : Nat → Bool) (cmd : Nat) (s : σ) (log : List Nat) : Result σ :=
  let startExtent := cmd >>> extentShift
  match r.refuses startExtent with
  | some value => .returns value s log
  | none =>
      -- `nr_extents` and `nr_done` are `unsigned int`
      let nrDone := startExtent % 2 ^ 32
      let nrExtents := r.nrExtents % 2 ^ 32
      if r.startOkay nrDone then
        let e := loop (extent c r) preempt (nrExtents - nrDone) nrDone s log
        if e.preempted then .again (continuation signExtended r.op e.reached) e.reached e.state e.log
        else .returns (asLong e.reached) e.state e.log
      else .returns (asLong nrDone) s log

/-- What has become of a hypercall in the end, and for each time it was made again how many
extents had been worked on by then and from which extent on the next call worked. -/
structure Final (σ : Type) where
  value : Int
  state : σ
  log : List Nat
  resumed : List (Nat × Nat)

/-- The hypercall and all its continuations; `preempts` has the preemption checks of the first
calls, and those after that are not preempted. -/
def calls : List (Nat → Bool) → (cmd : Nat) → σ → List Nat → Final σ
  | [], cmd, s, log =>
      match doMemoryOp c signExtended r never cmd s log with
      | .returns v s log => ⟨v, s, log, []⟩
      | .again _ _ s log => ⟨0, s, log, []⟩
  | p :: preempts, cmd, s, log =>
      match doMemoryOp c signExtended r p cmd s log with
      | .returns v s log => ⟨v, s, log, []⟩
      | .again cmd' _ s log =>
          let f := calls preempts cmd' s log
          ⟨f.value, f.state, f.log, (log.length, cmd' >>> extentShift) :: f.resumed⟩

end Calls

/-! ## The property -/

section Exactness

variable {σ : Type} (c : Callees σ) (signExtended : Bool) (r : Request)

/-- Each continuation works on from where the call before it stopped, no extent is worked on
twice or out of order, and in the end everything is as if the call had not been preempted. -/
def Exact (preempts : List (Nat → Bool)) (cmd : Nat) (s : σ) : Prop :=
  let f := calls c signExtended r preempts cmd s []
  let whole := calls c signExtended r [] cmd s []
  (∀ x ∈ f.resumed, x.2 = cmd >>> extentShift % 2 ^ 32 + x.1) ∧ f.log.Pairwise (· < ·) ∧
    (f.value, f.state, f.log) = (whole.value, whole.state, whole.log)

/-- From here on the command does not hold the number of extents. -/
def limit : Nat := if signExtended then 2 ^ 25 else 2 ^ 26

end Exactness

/-! ## The command -/

theorem Op.code_lt (op : Op) : op.code < 2 ^ extentShift := by
  cases op <;> decide

theorem continuation_shift (signExtended : Bool) (op : Op) {n : Nat} (hn : n < 2 ^ 32) :
    continuation signExtended op n >>> extentShift = n ↔ n < limit signExtended := by
  have hcode := op.code_lt
  have hlow : op.code ||| (n <<< extentShift % 2 ^ 32) = 2 ^ extentShift * (n % 2 ^ 26) + op.code := by
    have hmul : n <<< extentShift % 2 ^ 32 = 2 ^ extentShift * (n % 2 ^ 26) := by
      unfold extentShift
      rw [Nat.shiftLeft_eq]
      omega
    rw [hmul, Nat.or_comm, Nat.two_pow_add_eq_or_of_lt hcode]
  unfold continuation limit
  rw [hlow]
  generalize op.code = k at hcode
  unfold extentShift at *
  dsimp only
  rw [Nat.shiftRight_eq_div_pow]
  cases signExtended with
  | false =>
    rw [if_neg (fun h => Bool.false_ne_true h.1), if_neg Bool.false_ne_true]
    omega
  | true =>
    rw [if_pos rfl]
    split
    · omega
    · rename_i hsmall
      rw [not_and] at hsmall
      have := hsmall rfl
      omega

/-! ## The list -/

namespace Request

variable {r : Request} {i : Nat}

/-- After an address that could be accessed comes one that passes the check. -/
theorem subrangeOkay_succ (h : r.subrangeOkay i = true) (hr : r.reachable i = true) :
    r.subrangeOkay (i + 1) = true := by
  unfold subrangeOkay reachable at *
  cases hx : r.external with
  | true => rfl
  | false =>
    rw [hx, Bool.false_or] at h hr
    have hnext : r.entryAddr (i + 1) = (r.entryAddr i + 8) % 2 ^ 64 := by
      unfold entryAddr
      omega
    have hlt : r.entryAddr i < 2 ^ 64 := Nat.mod_lt _ (by decide)
    unfold addrOk canonical hypervisorVirtEnd at *
    rw [Bool.false_or, hnext]
    simp only [Bool.or_eq_true, decide_eq_true_eq] at *
    omega

end Request

section Body

variable {σ : Type} {c : Callees σ} {r : Request} {i : Nat} {s : σ}

/-- The loop goes on only if the entry could be accessed, if there is a list. -/
theorem extent_reachable (h : (extent c r i s).2 = true) :
    (r.op = .increase ∧ r.extentList = 0) ∨ r.reachable i = true := by
  by_contra hnot
  rw [not_or] at hnot
  rcases hnot with ⟨hlist, hr⟩
  unfold extent at h
  split at h
  · rename_i hop
    unfold increaseExtent at h
    split at h
    · exact Bool.false_ne_true h
    · rw [if_neg (fun h0 => hlist ⟨hop, h0⟩), if_neg hr] at h
      exact Bool.false_ne_true h
  · unfold decreaseExtent at h
    rw [if_neg hr] at h
    exact Bool.false_ne_true h
  · unfold populateExtent at h
    rw [if_neg hr] at h
    exact Bool.false_ne_true h

/-- A call that is made again passes the checks at the start. -/
theorem startOkay_succ (hs : r.startOkay i = true) (h : (extent c r i s).2 = true) :
    r.startOkay (i + 1) = true := by
  have hr := extent_reachable h
  unfold Request.startOkay at *
  split at hs
  · rename_i hop
    rw [Bool.and_eq_true, Bool.or_eq_true, decide_eq_true_eq] at hs ⊢
    rcases hs with ⟨hlist, hm⟩
    refine ⟨?_, hm⟩
    by_cases h0 : r.extentList = 0
    · exact .inl h0
    · exact .inr (Request.subrangeOkay_succ (hlist.resolve_left h0) (hr.resolve_left fun hn => h0 hn.2))
  · rename_i hop
    exact Request.subrangeOkay_succ hs (hr.resolve_left fun hn => by rw [hop] at hn; exact Op.noConfusion hn.1)
  · rename_i hop
    rw [Bool.and_eq_true] at hs ⊢
    refine ⟨Request.subrangeOkay_succ hs.1 (hr.resolve_left fun hn => ?_), hs.2⟩
    rw [hop] at hn
    exact Op.noConfusion hn.1

end Body

/-! ## Stopping and going on -/

section Split

variable {σ : Type} {body : Nat → σ → σ × Bool} {preempt : Nat → Bool}

theorem loop_never {todo i : Nat} {s : σ} {log : List Nat}
    (h : (loop body preempt todo i s log).preempted = false) :
    loop body never todo i s log = loop body preempt todo i s log := by
  induction todo generalizing i s log with
  | zero => rfl
  | succ todo ih =>
    unfold loop at h ⊢
    rw [if_neg (show ¬never i = true from Bool.false_ne_true)]
    split at h
    · exact absurd h.symm Bool.false_ne_true
    · rename_i hp
      rw [if_neg hp]
      dsimp only at h ⊢
      split at h
      · rename_i hb
        rw [if_pos hb, if_pos hb]
        exact ih h
      · rename_i hb
        rw [if_neg hb, if_neg hb]

/-- What a preempted loop leaves: the extents so far are worked on in order, `P` holds where it
stopped, and the rest of the loop is what was left to do. -/
theorem loop_preempted {P : Nat → Prop} (hP : ∀ i s, P i → (body i s).2 = true → P (i + 1))
    {todo i : Nat} {s : σ} {log : List Nat} (h0 : P i) {e : Ended σ}
    (he : loop body preempt todo i s log = e) (h : e.preempted = true) :
    i ≤ e.reached ∧ e.reached < i + todo ∧ P e.reached ∧ e.log.length + i = log.length + e.reached ∧
    loop body never todo i s log = loop body never (i + todo - e.reached) e.reached e.state e.log := by
  induction todo generalizing i s log with
  | zero =>
    rw [← he] at h
    exact absurd h Bool.false_ne_true
  | succ todo ih =>
    unfold loop at he
    split at he
    · -- preempted before the extent `i`
      rw [← he]
      refine ⟨Nat.le_refl i, by dsimp only; omega, h0, rfl, ?_⟩
      dsimp only
      rw [Nat.add_sub_cancel_left]
    · dsimp only at he
      split at he
      · rename_i hb
        rcases ih (hP i s h0 hb) he with ⟨hle, hlt, hp, hlen, hrest⟩
        rw [List.length_append, List.length_singleton] at hlen
        refine ⟨by omega, by omega, hp, by omega, ?_⟩
        have htodo : i + (todo + 1) - e.reached = i + 1 + todo - e.reached := by omega
        rw [htodo, ← hrest]
        rw [loop, if_neg (show ¬never i = true from Bool.false_ne_true)]
        dsimp only
        rw [if_pos hb]
      · rw [← he] at h
        exact absurd h Bool.false_ne_true

/-- The extents are worked on in order. -/
theorem loop_pairwise {todo i : Nat} {s : σ} {log : List Nat} (hlog : log.Pairwise (· < ·))
    (hlt : ∀ j ∈ log, j < i) : (loop body preempt todo i s log).log.Pairwise (· < ·) := by
  have happend : (log ++ [i]).Pairwise (· < ·) := by
    rw [List.pairwise_append]
    refine ⟨hlog, List.pairwise_singleton .., fun j hj k hk => ?_⟩
    rw [List.mem_singleton.1 hk]
    exact hlt j hj
  induction todo generalizing i s log with
  | zero => exact hlog
  | succ todo ih =>
    unfold loop
    split
    · exact hlog
    · dsimp only
      split
      · have hlt' : ∀ j ∈ log ++ [i], j < i + 1 := by
          intro j hj
          rcases List.mem_append.1 hj with hj | hj
          · exact Nat.lt_succ_of_lt (hlt j hj)
          · rw [List.mem_singleton.1 hj]
            exact Nat.lt_succ_self i
        refine ih happend hlt' ?_
        rw [List.pairwise_append]
        refine ⟨happend, List.pairwise_singleton .., fun j hj k hk => ?_⟩
        rw [List.mem_singleton.1 hk]
        exact hlt' j hj
      · exact happend

end Split

section Main

variable {σ : Type} {c : Callees σ} {signExtended : Bool} {r : Request} {preempt : Nat → Bool}
  {cmd : Nat} {s s' : σ} {log log' : List Nat}

/-- The checks do not depend on where the call starts, as long as it is inside. -/
theorem Request.refuses_of_lt {i j : Nat} (h : r.refuses i = none) (hj : j < r.nrExtents) : r.refuses j = none := by
  unfold Request.refuses at *
  split_ifs at h with h1 h2 h3 h4 h5 h6 h7
  rw [if_neg h1, if_neg h2, if_neg (Nat.not_le.2 hj), if_neg h4, if_neg h5, if_neg h6, if_neg h7]

theorem doMemoryOp_returns {v : Int} (h : doMemoryOp c signExtended r preempt cmd s log = .returns v s' log') :
    doMemoryOp c signExtended r never cmd s log = .returns v s' log' := by
  rw [← h]
  unfold doMemoryOp at h ⊢
  dsimp only at h ⊢
  split at h
  · rfl
  · split at h
    · rename_i hok
      rw [if_pos hok, if_pos hok]
      split at h
      · cases h
      · rename_i hp
        rw [loop_never (Bool.eq_false_iff.2 hp)]
    · rename_i hok
      rw [if_neg hok, if_neg hok]

/-- A call that is made again and starts where it has stopped does what was left to do. -/
theorem doMemoryOp_again {cmd' n : Nat}
    (h : doMemoryOp c signExtended r preempt cmd s log = .again cmd' n s' log') :
    cmd' = continuation signExtended r.op n ∧ n < 2 ^ 32 ∧
    log'.length + cmd >>> extentShift % 2 ^ 32 = log.length + n ∧
    ∀ next, next >>> extentShift = n →
      doMemoryOp c signExtended r never next s' log' = doMemoryOp c signExtended r never cmd s log := by
  unfold doMemoryOp at h
  dsimp only at h
  split at h
  · cases h
  · rename_i hnone
    split at h
    · rename_i hok
      generalize he : loop (extent c r) preempt _ _ s log = e at h
      split at h
      · rename_i hp
        rcases loop_preempted (P := fun i => r.startOkay i = true) (fun i s => startOkay_succ) hok he hp with
          ⟨hle, hlt, hok', hlen, hrest⟩
        injection h with hcmd hn hs hlog
        rw [← hcmd, ← hn, ← hs, ← hlog]
        have hlt' : e.reached < r.nrExtents % 2 ^ 32 := by omega
        have hmod : e.reached < 2 ^ 32 := Nat.lt_trans hlt' (Nat.mod_lt _ (by decide))
        refine ⟨rfl, hmod, hlen, fun next hnext => ?_⟩
        have hin : e.reached < r.nrExtents := Nat.lt_of_lt_of_le hlt' (Nat.mod_le _ _)
        unfold doMemoryOp
        dsimp only
        rw [hnext, Request.refuses_of_lt hnone hin, hnone, Nat.mod_eq_of_lt hmod]
        dsimp only
        rw [if_pos hok, if_pos hok', hrest]
        have htodo : cmd >>> extentShift % 2 ^ 32 + (r.nrExtents % 2 ^ 32 - cmd >>> extentShift % 2 ^ 32) - e.reached =
            r.nrExtents % 2 ^ 32 - e.reached := by omega
        rw [htodo]
      · cases h
    · cases h

variable (c signExtended r s) in
/-- The command is right as long as the number of extents is small, and then the calls end as one
that is not preempted. The induction is on the calls; `base` is where the first of them started. -/
theorem calls_resumed {base : Nat} (preempts : List (Nat → Bool))
    (hbase : cmd >>> extentShift % 2 ^ 32 = base + log.length) :
    ((∀ x ∈ (calls c signExtended r preempts cmd s log).resumed, x.2 = base + x.1) ↔
      ∀ x ∈ (calls c signExtended r preempts cmd s log).resumed, base + x.1 < limit signExtended) ∧
    ((∀ x ∈ (calls c signExtended r preempts cmd s log).resumed, x.2 = base + x.1) →
      ((calls c signExtended r preempts cmd s log).value, (calls c signExtended r preempts cmd s log).state,
        (calls c signExtended r preempts cmd s log).log) =
      ((calls c signExtended r [] cmd s log).value, (calls c signExtended r [] cmd s log).state,
        (calls c signExtended r [] cmd s log).log)) := by
  induction preempts generalizing cmd s log with
  | nil =>
    refine ⟨?_, fun _ => rfl⟩
    have hnil : (calls c signExtended r [] cmd s log).resumed = [] := by
      unfold calls
      split <;> rfl
    rw [hnil]
    exact ⟨fun _ x hx => absurd hx List.not_mem_nil, fun _ x hx => absurd hx List.not_mem_nil⟩
  | cons p preempts ih =>
    unfold calls
    cases h : doMemoryOp c signExtended r p cmd s log with
    | returns v s' log' =>
      rw [doMemoryOp_returns h]
      refine ⟨?_, fun _ => rfl⟩
      exact ⟨fun _ x hx => absurd hx List.not_mem_nil, fun _ x hx => absurd hx List.not_mem_nil⟩
    | again cmd' n s' log' =>
      rcases doMemoryOp_again h with ⟨hcmd, hn, hlen, hrest⟩
      have hdone : n = base + log'.length := by omega
      have hfirst : cmd' >>> extentShift = base + log'.length ↔ base + log'.length < limit signExtended := by
        rw [← hdone, hcmd]
        exact continuation_shift signExtended r.op hn
      have hnext : cmd' >>> extentShift = base + log'.length → cmd' >>> extentShift % 2 ^ 32 = base + log'.length := by
        intro heq
        rw [heq, Nat.mod_eq_of_lt (by omega)]
      dsimp only
      simp only [List.forall_mem_cons]
      refine ⟨⟨fun hall => ?_, fun hall => ?_⟩, fun hall => ?_⟩
      · exact ⟨hfirst.1 hall.1, (ih s' (hnext hall.1)).1.1 hall.2⟩
      · have hd := hfirst.2 hall.1
        exact ⟨hd, (ih s' (hnext hd)).1.2 hall.2⟩
      · rw [(ih s' (hnext hall.1)).2 hall.2]
        unfold calls
        rw [hrest cmd' (hall.1.trans hdone.symm)]

/-- A call works on the extents in order. -/
theorem doMemoryOp_pairwise (preempt : Nat → Bool) (cmd : Nat) (s : σ) :
    (doMemoryOp c signExtended r preempt cmd s []).log.Pairwise (· < ·) := by
  have hloop : ∀ todo i, (loop (extent c r) preempt todo i s []).log.Pairwise (· < ·) := by
    intro todo i
    exact loop_pairwise List.Pairwise.nil fun j hj => absurd hj List.not_mem_nil
  unfold doMemoryOp
  dsimp only
  split
  · exact List.Pairwise.nil
  · split
    · split
      · exact hloop ..
      · exact hloop ..
    · exact List.Pairwise.nil

theorem calls_nil_log (cmd : Nat) (s : σ) :
    (calls c signExtended r [] cmd s []).log = (doMemoryOp c signExtended r never cmd s []).log := by
  unfold calls
  split
  · rename_i h
    rw [h]
    rfl
  · rename_i h
    rw [h]
    rfl

end Main

/-- The hypercall goes on where it stopped if and only if it is never preempted with so many
extents done that the command does not hold their number. -/
theorem exact_iff {σ : Type} (c : Callees σ) (signExtended : Bool) (r : Request) (preempts : List (Nat → Bool))
    (cmd : Nat) (s : σ) :
    Exact c signExtended r preempts cmd s ↔
      ∀ x ∈ (calls c signExtended r preempts cmd s []).resumed,
        cmd >>> extentShift % 2 ^ 32 + x.1 < limit signExtended := by
  have hbase : cmd >>> extentShift % 2 ^ 32 = cmd >>> extentShift % 2 ^ 32 + ([] : List Nat).length := rfl
  have h := calls_resumed c signExtended r s preempts hbase
  unfold Exact
  dsimp only
  constructor
  · intro hexact
    exact h.1.1 hexact.1
  · intro hall
    have heq := h.2 (h.1.2 hall)
    refine ⟨h.1.2 hall, ?_, heq⟩
    simp only [Prod.mk.injEq] at heq
    rw [heq.2.2]
    rw [calls_nil_log]
    exact doMemoryOp_pairwise never cmd s

/-! ## A large reservation -/

/-- A loop whose extents all succeed gets as far as it is let. -/
theorem loop_reaches {σ : Type} {body : Nat → σ → σ × Bool} (hbody : ∀ i s, (body i s).2 = true)
    {preempt : Nat → Bool} (n : Nat) {todo i : Nat} (s : σ) (log : List Nat) (htodo : n < todo)
    (hfree : ∀ j < n, preempt (i + j) = false) (hstop : preempt (i + n) = true) :
    (loop body preempt todo i s log).preempted = true ∧
    (loop body preempt todo i s log).log.length = log.length + n := by
  induction n generalizing todo i s log with
  | zero =>
    rcases Nat.exists_eq_succ_of_ne_zero (Nat.ne_of_gt htodo) with ⟨todo, rfl⟩
    have hi : preempt i = true := hstop
    rw [loop, if_pos hi]
    exact ⟨rfl, rfl⟩
  | succ n ih =>
    rcases Nat.exists_eq_succ_of_ne_zero (Nat.ne_of_gt (Nat.lt_of_le_of_lt (Nat.zero_le _) htodo)) with ⟨todo, rfl⟩
    have hi : preempt i = false := hfree 0 (Nat.succ_pos n)
    rw [loop, hi, if_neg Bool.false_ne_true]
    dsimp only
    rw [if_pos (hbody i s)]
    have hfree' : ∀ j < n, preempt (i + 1 + j) = false := by
      intro j hj
      rw [Nat.add_assoc, Nat.add_comm 1 j]
      exact hfree (j + 1) (Nat.succ_lt_succ hj)
    have hstop' : preempt (i + 1 + n) = true := by
      rw [Nat.add_assoc, Nat.add_comm 1 n]
      exact hstop
    rcases ih (body i s).1 (log ++ [i]) (Nat.lt_of_succ_lt_succ htodo) hfree' hstop' with ⟨hp, hlen⟩
    refine ⟨hp, ?_⟩
    rw [hlen, List.length_append, List.length_singleton]
    omega

/-- A machine on which everything succeeds. -/
def plenty : Callees Unit where
  alloc _ _ := ((), some 0)
  copyFrom _ _ := some 0
  copyTo _ _ _ := ((), true)
  markPopulateOnDemand _ _ _ := ((), true)
  addPage _ _ _ _ := ()
  setGpfn _ _ _ := ()
  podDecreaseReservation _ _ _ := ((), true)
  removePage _ _ := ((), true)

/-- `n` pages and one more, with no list of where they are. -/
def large (n : Nat) : Request where
  op := .increase
  readable := true
  nrExtents := n + 1
  extentOrder := 0
  extentList := 0
  addressBitsOkay := true
  populateOnDemand := false
  found := true
  privileged := true
  xsm := 0
  external := false
  hasIoCaps := true
  translate := false
  hvm := false

/-- The call is preempted once, when `n` pages are done. -/
def lateCheck (n i : Nat) : Bool := i = n

theorem large_resumed (signExtended : Bool) {n : Nat} (hn : n + 1 < 2 ^ 32) :
    ∃ x ∈ (calls plenty signExtended (large n) [lateCheck n] 0 () []).resumed, x.1 = n := by
  have hbody : ∀ i s, (extent plenty (large n) i s).2 = true := fun i s => rfl
  have hstop : lateCheck n (0 + n) = true := decide_eq_true (Nat.zero_add _)
  have hfree : ∀ j < n, lateCheck n (0 + j) = false := by
    intro j hj
    exact decide_eq_false (by omega)
  rcases loop_reaches hbody n () [] (Nat.lt_succ_self n) hfree hstop with ⟨hp, hlen⟩
  have hop : ∃ cmd m s', doMemoryOp plenty signExtended (large n) (lateCheck n) 0 () [] =
      .again cmd m s' (loop (extent plenty (large n)) (lateCheck n) (n + 1) 0 () []).log := by
    have hrefuses : (large n).refuses (0 >>> extentShift) = none := by
      unfold Request.refuses large extentShift
      simp
      omega
    have hstart : (large n).startOkay (0 >>> extentShift % 2 ^ 32) = true := rfl
    have htodo : (large n).nrExtents % 2 ^ 32 - 0 >>> extentShift % 2 ^ 32 = n + 1 := Nat.mod_eq_of_lt hn
    have hfrom : 0 >>> extentShift % 2 ^ 32 = 0 := rfl
    unfold doMemoryOp
    dsimp only
    rw [hrefuses]
    dsimp only
    rw [if_pos hstart, htodo, hfrom, if_pos hp]
    exact ⟨_, _, _, rfl⟩
  rcases hop with ⟨cmd, m, s', hop⟩
  unfold calls
  rw [hop]
  refine ⟨_, List.mem_cons_self, ?_⟩
  dsimp only
  rw [hlen]
  exact Nat.zero_add n

theorem large_inexact (signExtended : Bool) {n : Nat} (hn : n + 1 < 2 ^ 32) (hlarge : 2 ^ 26 ≤ n) :
    ¬Exact plenty signExtended (large n) [lateCheck n] 0 () := by
  intro h
  rcases large_resumed signExtended hn with ⟨x, hx, heq⟩
  have hbase : 0 >>> extentShift % 2 ^ 32 = 0 + ([] : List Nat).length := rfl
  have hlt := (calls_resumed plenty signExtended (large n) () [lateCheck n] hbase).1.1 h.1 x hx
  rw [heq] at hlt
  unfold limit at hlt
  split at hlt <;> omega

/-- The command that is made of 256GB of extents is that of a call that starts from the first. -/
theorem large_increase_starts_over :
    ¬Exact plenty true (large (2 ^ 26)) [lateCheck (2 ^ 26)] 0 () ∧
    ¬Exact plenty false (large (2 ^ 26)) [lateCheck (2 ^ 26)] 0 () :=
  ⟨large_inexact true (by decide) (Nat.le_refl _), large_inexact false (by decide) (Nat.le_refl _)⟩

end Memory.Reservation
