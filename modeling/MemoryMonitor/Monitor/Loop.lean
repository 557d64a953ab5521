import MemoryMonitor.Monitor.Account
import MemoryMonitor.Monitor.Walk

/-!
# The analyser's main loop (`Monitor_tools/analyze.cpp`)

Every round takes the list of recently used CR3 values from the hypervisor,
inserts a table for each new one, accounts for the tables checked this round,
walks the page tables of all listed ones and finally drops the tables that
have not been listed for `MAX_ROUND_INTERVAL` rounds.

The two `struct`s the source leaves partly uninitialised (`tmp` in
`check_cr3_list`, `mapVal` in `compare_swap`) take their contents from an
`Unspecified` supply, so that a run is a function of the CR3 lists, the guest's
memory and what those words happened to hold.
-/

namespace Monitor

variable {D : Type} [CDouble D]

/-! ## `check_cr3_list` -/

def checkCr3 (list : DataMap D) (cr3 : ULong) : BitVec 32 :=
  match list.get? cr3 with
  | none => 0
  | some _ => 1

/-- `struct hash_table tmp; tmp.cr3 = cr3; tmp.change_page = 0;` over the
contents `uninit` of its memory; only the map member has a constructor. -/
def freshTable (uninit : HashTable D) (cr3 : ULong) : HashTable D :=
  { uninit with h := .empty, cr3, changePage := 0 }

/-- The loop of `check_cr3_list` from list position `i` on. -/
def checkCr3Loop (uninit : Nat → HashTable D) :
    Nat → List ULong → ULong × DataMap D → ULong × DataMap D
  | _, [], st => st
  | i, cr3 :: rest, (totalChangePage, list) =>
      match list.get? cr3 with
      | none =>
          checkCr3Loop uninit (i + 1) rest
            (totalChangePage, list.insert cr3 (freshTable (uninit i) cr3))
      | some h =>
          checkCr3Loop uninit (i + 1) rest
            (totalChangePage + h.changePage, list.set cr3 { h with check := 1 })

def checkCr3List (uninit : Nat → HashTable D) (list : DataMap D) (cr3List : List ULong) :
    ULong × DataMap D :=
  checkCr3Loop uninit 0 cr3List (0, list)

/-! ## `walk_cr3_list` -/

/-- The Windows kernel address space, which is not walked. -/
def kernelCr3 : ULong := 0x187000

/-- What `list[cr3]` creates when the key is missing: all fields zero. -/
def HashTable.zero : HashTable D :=
  ⟨.empty, 0, 0, 0, 0, (CDouble.ofInt 0, CDouble.ofInt 0), 0, 0⟩

/-- The body of `walk_cr3_list`. -/
def walkCr3 (mem : GuestMemory) (uninit : ULong → ULong) (round : ULong)
    (list : DataMap D) (gw : GuestPagetableWalk) (cr3 : ULong) :
    DataMap D × GuestPagetableWalk :=
  let h := { (list.get? cr3).getD .zero with cr3, check := 0, round }
  if cr3 = kernelCr3 then (list.set cr3 h, gw)
  else
    let out := pageWalkIa32e mem uninit cr3 h
    (list.set cr3 out.2.1, out.2.2)

def walkCr3Loop (mem : Nat → GuestMemory) (uninit : Nat → ULong → ULong) (round : ULong) :
    Nat → List ULong → DataMap D × GuestPagetableWalk → DataMap D × GuestPagetableWalk
  | _, [], st => st
  | i, cr3 :: rest, st =>
      walkCr3Loop mem uninit round (i + 1) rest
        (walkCr3 (mem i) (uninit i) round st.1 st.2 cr3)

/-! ## `retrieve_list` -/

/-- `MAX_ROUND_INTERVAL`. -/
def maxRoundInterval : BitVec 32 := 20

/-- The rounds since a table was last listed, as the source computes them: in
`unsigned long`, then stored in an `int`. -/
def interval (round hround : ULong) : BitVec 32 :=
  if hround < round then (round - hround).setWidth 32
  else ((0xffffffff : ULong) - hround + round).setWidth 32

def Expired (round : ULong) (h : HashTable D) : Prop :=
  maxRoundInterval.sle (interval round h.round) = true

instance (round : ULong) (h : HashTable D) : Decidable (Expired round h) :=
  inferInstanceAs (Decidable (_ = true))

/-- Return value and map of `retrieve_list`, with the nodes its iterator stood on. -/
structure Retrieved (D : Type) where
  number : BitVec 32
  list : DataMap D
  visited : List ULong

/-- The loop, with the iterator `it` standing on a node or at the end. The
iterator moves on before its node is erased. -/
def retrieveLoop (round : ULong) (it : Option ULong) (st : Retrieved D) : Retrieved D :=
  match it with
  | none => st
  | some k =>
      match _hk : st.list.get? k with
      | none => st
      | some h =>
          let next := st.list.next? k
          if Expired round h then
            retrieveLoop round next ⟨st.number + 1, st.list.erase k, st.visited ++ [k]⟩
          else retrieveLoop round next { st with visited := st.visited ++ [k] }
termination_by st.list.remaining it
decreasing_by
  · exact (OrdMap.remaining_next_lt _hk).2
  · exact (OrdMap.remaining_next_lt _hk).1

def retrieveList (list : DataMap D) (round : ULong) : Retrieved D :=
  retrieveLoop round list.first? ⟨0, list, []⟩

/-! ## Rounds -/

/-- What the environment delivers in one round: the CR3 list and, for the walk
of each of its entries, the guest's memory. -/
structure RoundInput where
  cr3List : List ULong
  memory : Nat → GuestMemory

/-- What the uninitialised structures of one round happen to hold: `tmp` for
each list position, and `mapVal.paddr` for each position and address. -/
structure Unspecified (D : Type) where
  table : Nat → HashTable D
  paddr : Nat → ULong → ULong

structure LoopState (D : Type) where
  dataMap : DataMap D
  globalRound : ULong
  gw : GuestPagetableWalk

/-- What a round prints, and what its `retrieve_list` did. -/
structure RoundOutput (D : Type) where
  result : Result D
  /-- The map `retrieve_list` was called on. -/
  before : DataMap D
  retrieved : Retrieved D

/-- The body of `while(1)`. -/
def mainRound (u : Unspecified D) (inp : RoundInput) (st : LoopState D) :
    LoopState D × RoundOutput D :=
  let listed := (checkCr3List u.table st.dataMap inp.cr3List).2
  let acct := calculateAllPage listed .cleared .zero
  let walked := walkCr3Loop inp.memory u.paddr st.globalRound 0 inp.cr3List (acct.2, st.gw)
  let globalRound := st.globalRound + 1
  let retrieved := retrieveList walked.1 globalRound
  (⟨retrieved.list, globalRound, walked.2⟩, ⟨acct.1.result, walked.1, retrieved⟩)

/-- The state in which `main` enters the loop; `gw` is not initialised. -/
def LoopState.start (gw : GuestPagetableWalk) : LoopState D := ⟨.empty, 0, gw⟩

/-- The state after `n` rounds of a run. -/
def stateAfter (u : Nat → Unspecified D) (inputs : Nat → RoundInput) (st : LoopState D) :
    Nat → LoopState D
  | 0 => st
  | n + 1 => (mainRound (u n) (inputs n) (stateAfter u inputs st n)).1

/-- The output of round `n` of a run. -/
def outputOf (u : Nat → Unspecified D) (inputs : Nat → RoundInput) (st : LoopState D)
    (n : Nat) : RoundOutput D :=
  (mainRound (u n) (inputs n) (stateAfter u inputs st n)).2

end Monitor
