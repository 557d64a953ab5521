import MemoryMonitor.Lib.Window
import MemoryMonitor.Lib.Word

/-!
# The sampled CR3 values

`do_vt_op` of `xen/arch/x86/mm/hap/p2m-ept.c` gives a domain an array for the CR3 values that its vCPUs
are scheduled with. `schedule()` of `xen/common/schedule.c` looks the value up in the array, and where it
is not there it moves the slots up by one and puts the value in front. The monitor in dom0 fetches what
the array holds and clears it.

The loops count in an `int` and compare with an `unsigned long`; an access outside the array or outside the
monitor's buffer and an overflow of the counter are faults. An array that has not been allocated is empty.
-/

namespace Sched.RecentCr3

/-- `unsigned long`. -/
abbrev ULong := BitVec 64

/-- `UINT_MAX`. -/
def uintMax : Nat := 2 ^ 32 - 1

/-- `INT_MAX`. -/
def intMax : Nat := 2 ^ 31 - 1

inductive Fault where
  | outOfRange
  | overflow
  deriving DecidableEq

/-- The fields of `struct domain`; `recentCr3` is what has been allocated. -/
structure Domain where
  sampleFlag : Int
  recentCr3Size : Nat
  recentCr3 : List ULong
  deriving DecidableEq

def load (arr : List ULong) (i : Nat) : Except Fault ULong :=
  match arr[i]? with
  | some x => .ok x
  | none => .error .outOfRange

def store (arr : List ULong) (i : Nat) (x : ULong) : Except Fault (List ULong) :=
  if i < arr.length then .ok (arr.set i x) else .error .outOfRange

/-- `for(i=0; i<recent_cr3_size; i++)`, with `left` turns to go: the `i` that the loop ends with. -/
def search (arr : List ULong) (tmpCr3 : ULong) : (left i : Nat) → Except Fault Nat
  | 0, i => .ok i
  | left + 1, i => do
    let x ← load arr i
    if tmpCr3 = x then return i
    if i = intMax then throw .overflow
    search arr tmpCr3 left (i + 1)

/-- `for(i=recent_cr3_size-1; i>0; i--) recent_cr3[i] = recent_cr3[i-1];` -/
def shift : (i : Nat) → List ULong → Except Fault (List ULong)
  | 0, arr => .ok arr
  | i + 1, arr => do
    let x ← load arr i
    let arr ← store arr (i + 1) x
    shift i arr

/-- `i = recent_cr3_size-1`, an `unsigned long` put into an `int`; a negative one ends the loop at once. -/
def lastSlot (size : Nat) : Nat := (Int.bmod ((size : Int) - 1) (2 ^ 32)).toNat

/-- What `schedule()` does with the CR3 of the vCPU that it has chosen. -/
def sample (d : Domain) (tmpCr3 : ULong) : Except Fault Domain :=
  if d.sampleFlag = 1 then do
    let i ← search d.recentCr3 tmpCr3 d.recentCr3Size 0
    if i = d.recentCr3Size then
      let arr ← shift (lastSlot d.recentCr3Size) d.recentCr3
      let arr ← store arr 0 tmpCr3
      return { d with recentCr3 := arr }
    else return d
  else .ok d

/-- The decisions of `schedule()` that choose vCPUs of the domain, with their CR3. -/
def sampleAll : Domain → List ULong → Except Fault Domain
  | d, [] => .ok d
  | d, c :: rest => do sampleAll (← sample d c) rest

/-- `do_vt_op`, case 1. `mem` is what `xmalloc_array` finds, which fails for more than `UINT_MAX` bytes. -/
def startSampling (d : Domain) (arg : Nat) (mem : Option (List ULong)) : Domain :=
  if d.recentCr3Size ≠ 0 then d
  else
    let d := { d with recentCr3Size := arg }
    if uintMax / 8 < arg then { d with recentCr3 := [] }
    else match mem with
      | none => { d with recentCr3 := [] }
      | some arr => { d with recentCr3 := arr.take arg, sampleFlag := 1 }

/-- `do_vt_op`, case 2. -/
def stopSampling : Domain where
  sampleFlag := 0
  recentCr3Size := 0
  recentCr3 := []

/-- `for(i=0; i<d->recent_cr3_size; i++)` of case 3, with `left` turns to go: the array and `longBuff`. -/
def fetchLoop : (left i : Nat) → (arr longBuff : List ULong) → Except Fault (List ULong × List ULong)
  | 0, _, arr, longBuff => .ok (arr, longBuff)
  | left + 1, i, arr, longBuff => do
    let x ← load arr i
    if x = 0 then
      if i = intMax then throw .overflow
      fetchLoop left (i + 1) arr longBuff
    else
      let n ← load longBuff 0
      let longBuff ← store longBuff 0 (n + 1)
      let longBuff ← store longBuff (n + 1).toNat x
      let arr ← store arr i 0
      if i = intMax then throw .overflow
      fetchLoop left (i + 1) arr longBuff

/-- `do_vt_op`, case 3: the monitor's buffer, and the domain with its slots cleared. -/
def fetch (d : Domain) (longBuff : List ULong) : Except Fault (List ULong × Domain) := do
  let longBuff ← store longBuff 0 0
  let (arr, longBuff) ← fetchLoop d.recentCr3Size 0 d.recentCr3 longBuff
  return (longBuff, { d with recentCr3 := arr })

/-- The values in a buffer: as many as the first word says. -/
def fetched : List ULong → List ULong
  | [] => []
  | n :: values => values.take n.toNat

/-- A domain that is being sampled: the array has the size that is noted, which `xmalloc_array` has
granted. -/
structure Domain.Sampled (d : Domain) : Prop where
  flag : d.sampleFlag = 1
  pos : 1 ≤ d.recentCr3Size
  length : d.recentCr3.length = d.recentCr3Size
  size_le : d.recentCr3Size ≤ uintMax / 8

/-! ## The loops -/

variable {arr : List ULong} {tmpCr3 : ULong}

theorem load_eq {i : Nat} (h : i < arr.length) : load arr i = .ok arr[i] := by
  unfold load
  rw [List.getElem?_eq_getElem h]

theorem store_eq {i : Nat} (x : ULong) (h : i < arr.length) : store arr i x = .ok (arr.set i x) := by
  unfold store
  rw [if_pos h]

/-- The search ends at the first slot with the value, and behind the last one if there is none. -/
theorem search_eq (arr : List ULong) (tmpCr3 : ULong) (hmax : arr.length ≤ intMax) (left i : Nat) (h : i + left = arr.length) :
    ∃ k, search arr tmpCr3 left i = .ok k ∧ (k = arr.length ↔ tmpCr3 ∉ arr.drop i) ∧ k ≤ arr.length := by
  induction left generalizing i with
  | zero =>
    refine ⟨i, rfl, ?_, by omega⟩
    rw [List.drop_eq_nil_of_le (by omega)]
    simp
    omega
  | succ left ih =>
    have hi : i < arr.length := by omega
    unfold search
    rw [load_eq hi, List.drop_eq_getElem_cons hi]
    by_cases heq : tmpCr3 = arr[i]
    · refine ⟨i, ?_, ?_, by omega⟩
      · simp only [bind, Except.bind, if_pos heq]
        rfl
      · rw [← heq]
        simp
        omega
    · obtain ⟨k, hk, hiff, hle⟩ := ih (i + 1) (by omega)
      have hnot : ¬ i = intMax := by omega
      refine ⟨k, ?_, ?_, hle⟩
      · simp only [bind, Except.bind, if_neg heq, if_neg hnot]
        exact hk
      · rw [hiff, List.mem_cons]
        simp [heq]

/-- The shift leaves slot 0 alone and moves every slot below `i` up by one. -/
theorem shift_eq (arr : List ULong) (i : Nat) (h : i < arr.length) :
    ∃ arr', shift i arr = .ok arr' ∧ arr'.length = arr.length ∧
      ∀ j, arr'[j]? = if 1 ≤ j ∧ j ≤ i then arr[j - 1]? else arr[j]? := by
  induction i generalizing arr with
  | zero =>
    refine ⟨arr, rfl, rfl, fun j => ?_⟩
    rw [if_neg (by omega)]
  | succ i ih =>
    have hi : i < arr.length := by omega
    obtain ⟨arr', hshift, hlen, hget⟩ := ih (arr.set (i + 1) arr[i]) (by simpa using hi)
    refine ⟨arr', ?_, by simpa using hlen, fun j => ?_⟩
    · unfold shift
      rw [load_eq hi]
      simp only [bind, Except.bind]
      rw [store_eq _ h]
      exact hshift
    · rw [hget]
      simp only [List.getElem?_set]
      -- slot `i + 1` has been written, the loop goes on below it
      by_cases hj : j = i + 1
      · rw [if_neg (by omega), if_pos hj.symm, if_pos (by omega), if_pos (by omega),
          show j - 1 = i by omega, List.getElem?_eq_getElem hi]
      · by_cases hlow : 1 ≤ j ∧ j ≤ i
        · rw [if_pos hlow, if_neg (by omega), if_pos (by omega)]
        · rw [if_neg hlow, if_neg (by omega), if_neg (by omega)]

theorem lastSlot_eq {size : Nat} (hpos : 1 ≤ size) (hle : size ≤ intMax) : lastSlot size = size - 1 := by
  unfold lastSlot intMax at *
  rw [Int.bmod_eq_of_le (by omega) (by omega)]
  omega

/-- The value goes in front of the others, the last of which is lost. -/
theorem shift_store (arr : List ULong) (tmpCr3 : ULong) (hpos : 1 ≤ arr.length) :
    (do store (← shift (arr.length - 1) arr) 0 tmpCr3) = .ok (tmpCr3 :: arr.dropLast) := by
  obtain ⟨arr', hshift, hlen, hget⟩ := shift_eq arr (arr.length - 1) (by omega)
  rw [hshift]
  simp only [bind, Except.bind]
  rw [store_eq _ (by omega)]
  congr 1
  apply List.ext_getElem?
  intro j
  rw [List.getElem?_set, hget]
  cases j with
  | zero =>
    rw [if_pos rfl, if_pos (by omega)]
    rfl
  | succ j =>
    rw [if_neg (by omega), List.getElem?_cons_succ, List.getElem?_dropLast]
    by_cases hj : j < arr.length - 1
    · rw [if_pos (by omega), if_pos hj]
      rfl
    · rw [if_neg (by omega), if_neg hj, List.getElem?_eq_none (by omega)]

/-- A decision: a value that is in the array changes nothing, another one is put in front. -/
theorem sample_eq {d : Domain} (hd : d.Sampled) (c : ULong) :
    sample d c = .ok { d with
      recentCr3 := if c ∈ d.recentCr3 then d.recentCr3 else c :: d.recentCr3.dropLast } := by
  have hmax : d.recentCr3Size ≤ intMax := Nat.le_trans hd.size_le (by decide)
  obtain ⟨k, hsearch, hiff, -⟩ := search_eq d.recentCr3 c
    (by rw [hd.length]; exact hmax) d.recentCr3Size 0 (by rw [hd.length]; omega)
  rw [hd.length, List.drop_zero] at hiff
  unfold sample
  rw [if_pos hd.flag, hsearch]
  simp only [bind, Except.bind]
  by_cases hmem : c ∈ d.recentCr3
  · have hk : ¬ k = d.recentCr3Size := fun hk => hiff.mp hk hmem
    rw [if_neg hk, if_pos hmem]
    rfl
  · have hput := shift_store d.recentCr3 c (by rw [hd.length]; exact hd.pos)
    rw [hd.length] at hput
    simp only [bind, Except.bind] at hput
    rw [if_pos (hiff.mpr hmem), if_neg hmem, lastSlot_eq hd.pos hmax]
    cases hshift : shift (d.recentCr3Size - 1) d.recentCr3 with
    | error e =>
      rw [hshift] at hput
      cases hput
    | ok arr =>
      rw [hshift] at hput
      simp only at hput ⊢
      rw [hput]
      rfl

theorem Domain.Sampled.sample {d d' : Domain} (hd : d.Sampled) {c : ULong} (h : sample d c = .ok d') :
    d'.Sampled := by
  rw [sample_eq hd] at h
  cases h
  refine ⟨hd.flag, hd.pos, ?_, hd.size_le⟩
  have hlen := hd.length
  have hpos := hd.pos
  dsimp only
  split
  · exact hlen
  · rw [List.length_cons, List.length_dropLast]
    omega

/-! ## The window -/

/-- The array shows the values that have been put in, the newest first. -/
structure Shows (d : Domain) (n : Nat) (ins : List ULong) : Prop where
  sampled : d.Sampled
  size : d.recentCr3Size = n
  slots : d.recentCr3 = Window.view 0 n ins

theorem Shows.sample {d : Domain} {n : Nat} {ins : List ULong} (h : Shows d n ins) (c : ULong) :
    ∃ d', sample d c = .ok d' ∧ Shows d' n (Window.takeIn 0 n ins c) ∧
      d'.recentCr3 = if c ∈ d.recentCr3 then d.recentCr3 else c :: d.recentCr3.dropLast := by
  have hn : 0 < n := h.size ▸ h.sampled.pos
  refine ⟨_, sample_eq h.sampled c, ⟨h.sampled.sample (sample_eq h.sampled c), h.size, ?_⟩, rfl⟩
  rw [Window.view_takeIn hn, ← h.slots]

theorem sampleAll_append (d : Domain) (cs : List ULong) (c : ULong) :
    sampleAll d (cs ++ [c]) = (do sample (← sampleAll d cs) c) := by
  induction cs generalizing d with
  | nil =>
    rw [List.nil_append]
    simp only [sampleAll, bind, Except.bind]
    cases sample d c with
    | error e => rfl
    | ok d' => rfl
  | cons c' rest ih =>
    rw [List.cons_append]
    simp only [sampleAll, bind, Except.bind]
    cases sample d c' with
    | error e => rfl
    | ok d' => exact ih d'

theorem shows_sampleAll {d : Domain} (hd : d.Sampled)
    (hzero : d.recentCr3 = List.replicate d.recentCr3Size 0) (cs : List ULong) :
    ∃ d', sampleAll d cs = .ok d' ∧ Shows d' d.recentCr3Size (Window.takeInAll 0 d.recentCr3Size cs) := by
  induction cs using List.reverseRecOn with
  | nil => exact ⟨d, rfl, hd, rfl, by rw [hzero]; exact (Window.view_nil _ _).symm⟩
  | append_singleton cs c ih =>
    obtain ⟨d', hall, hshows⟩ := ih
    obtain ⟨d'', hsample, hshows', -⟩ := hshows.sample c
    refine ⟨d'', ?_, ?_⟩
    · rw [sampleAll_append, hall]
      exact hsample
    · rw [Window.takeInAll_append]
      exact hshows'

/-- After every decision the value is in the array, the array has moved by one slot or not at all, and it
is a window of the values that have been put in, without repetition. -/
theorem sampleAll_window {d : Domain} (hd : d.Sampled)
    (hzero : d.recentCr3 = List.replicate d.recentCr3Size 0) (cs : List ULong) (c : ULong) :
    ∃ before after, sampleAll d cs = .ok before ∧ sampleAll d (cs ++ [c]) = .ok after ∧
      c ∈ after.recentCr3 ∧
      (Window.shown 0 after.recentCr3).Nodup ∧
      after.recentCr3 =
        (if c ∈ before.recentCr3 then before.recentCr3 else c :: before.recentCr3.dropLast) ∧
      after.recentCr3 = Window.view 0 d.recentCr3Size (Window.takeInAll 0 d.recentCr3Size (cs ++ [c])) ∧
      Window.shown 0 after.recentCr3 <+:
        Window.shown 0 (Window.takeInAll 0 d.recentCr3Size (cs ++ [c])) := by
  obtain ⟨before, hbefore, hshows⟩ := shows_sampleAll hd hzero cs
  obtain ⟨after, hsample, hshows', hmove⟩ := hshows.sample c
  rw [← Window.takeInAll_append] at hshows'
  refine ⟨before, after, hbefore, ?_, ?_, ?_, hmove, hshows'.slots, ?_⟩
  · rw [sampleAll_append, hbefore]
    exact hsample
  · rw [hshows'.slots, Window.takeInAll_append]
    exact Window.mem_view_takeIn hd.pos
  · rw [hshows'.slots]
    exact Window.nodup_takeInAll hd.pos _
  · rw [hshows'.slots]
    exact Window.shown_prefix ..

/-- Two slots, and three values of which one comes twice. -/
theorem sampleAll_window_two :
    ∃ before after : Domain,
      sampleAll ⟨1, 2, [0, 0]⟩ [0x1000, 0x2000, 0x1000] = .ok before ∧
      sampleAll ⟨1, 2, [0, 0]⟩ ([0x1000, 0x2000, 0x1000] ++ [0x3000]) = .ok after ∧
      (0x3000 : ULong) ∈ after.recentCr3 := by
  have h := sampleAll_window (d := ⟨1, 2, [0, 0]⟩) ⟨rfl, by decide, rfl, by decide⟩ rfl
    [0x1000, 0x2000, 0x1000] 0x3000
  obtain ⟨before, after, hbefore, hafter, hmem, -⟩ := h
  exact ⟨before, after, hbefore, hafter, hmem⟩

/-! ## Fetching -/

theorem load_append (a : List ULong) (x : ULong) (b : List ULong) : load (a ++ x :: b) a.length = .ok x := by
  rw [load_eq (by simp)]
  simp

theorem store_append (a : List ULong) (x y : ULong) (b : List ULong) :
    store (a ++ x :: b) a.length y = .ok (a ++ y :: b) := by
  rw [store_eq _ (by simp)]
  simp

/-- The loop clears what is left of the array, and its values go behind those that are in the buffer. -/
theorem fetchLoop_eq (done todo values room : List ULong) (hmax : done.length + todo.length ≤ intMax)
    (hroom : (todo.filter (· ≠ 0)).length ≤ room.length) (hword : values.length + todo.length < 2 ^ 64) :
    fetchLoop todo.length done.length (done ++ todo) (BitVec.ofNat 64 values.length :: (values ++ room)) =
      .ok (done ++ todo.map fun _ => 0,
        BitVec.ofNat 64 (values ++ todo.filter (· ≠ 0)).length ::
          (values ++ todo.filter (· ≠ 0) ++ room.drop (todo.filter (· ≠ 0)).length)) := by
  induction todo generalizing done values room with
  | nil => simp [fetchLoop]
  | cons x todo ih =>
    have hnot : ¬ done.length = intMax := by
      rw [List.length_cons] at hmax
      omega
    rw [List.length_cons]
    unfold fetchLoop
    rw [load_append]
    simp only [bind, Except.bind]
    by_cases hx : x = 0
    · have hfilter : (x :: todo).filter (· ≠ 0) = todo.filter (· ≠ 0) := List.filter_cons_of_neg (by simpa using hx)
      rw [hfilter] at hroom ⊢
      rw [if_pos hx, if_neg hnot]
      subst hx
      have hrest := ih (done ++ [0]) values room (by simp at hmax ⊢; omega) hroom (by simp at hword; omega)
      simp only [List.length_append, List.length_singleton, List.append_assoc, List.singleton_append] at hrest
      refine Eq.trans hrest ?_
      simp
    · have hfilter : (x :: todo).filter (· ≠ 0) = x :: todo.filter (· ≠ 0) := List.filter_cons_of_pos (by simpa using hx)
      rw [hfilter] at hroom ⊢
      obtain ⟨y, room, rfl⟩ := List.exists_cons_of_length_pos (Nat.lt_of_lt_of_le (Nat.succ_pos _) hroom)
      have hn : BitVec.ofNat 64 values.length + 1 = BitVec.ofNat 64 (values.length + 1) := (BitVec.ofNat_add ..).symm
      have hnat : (BitVec.ofNat 64 (values.length + 1)).toNat = values.length + 1 := by
        rw [BitVec.toNat_ofNat]
        exact Nat.mod_eq_of_lt (by simp at hword; omega)
      have hput := store_append (BitVec.ofNat 64 (values.length + 1) :: values) y x room
      rw [if_neg hx, load_eq (i := 0) (by simp), List.getElem_cons_zero]
      dsimp only
      rw [hn, store_eq _ (by simp), List.set_cons_zero]
      dsimp only
      rw [hnat]
      rw [List.length_cons, List.cons_append] at hput
      rw [hput]
      dsimp only
      rw [store_append]
      dsimp only
      rw [if_neg hnot]
      have hrest := ih (done ++ [0]) (values ++ [x]) room (by simp at hmax ⊢; omega) (by simpa using hroom)
        (by simp at hword ⊢; omega)
      simp only [List.length_append, List.length_singleton, List.append_assoc, List.singleton_append] at hrest
      refine Eq.trans hrest ?_
      simp

/-- A fetch leaves the values of an array in a buffer that has a word more than the array has slots, and clears the
slots. -/
theorem fetch_eq {d : Domain} {longBuff : List ULong} (hlen : d.recentCr3.length = d.recentCr3Size)
    (hle : d.recentCr3Size ≤ uintMax / 8) (hbuff : d.recentCr3Size < longBuff.length) :
    ∃ longBuff', fetch d longBuff = .ok (longBuff', { d with recentCr3 := List.replicate d.recentCr3Size 0 }) ∧
      fetched longBuff' = Window.shown 0 d.recentCr3 := by
  have hmax : uintMax / 8 ≤ intMax ∧ intMax < 2 ^ 64 := by decide
  obtain ⟨b, room, rfl⟩ := List.exists_cons_of_length_pos (Nat.lt_of_le_of_lt (Nat.zero_le _) hbuff)
  have hfit := List.length_filter_le (· ≠ 0) d.recentCr3
  rw [List.length_cons] at hbuff
  have hloop := fetchLoop_eq [] d.recentCr3 [] room (by simp; omega) (by omega) (by simp; omega)
  simp only [List.length_nil, List.nil_append, hlen, List.map_const'] at hloop
  refine ⟨BitVec.ofNat 64 (d.recentCr3.filter (· ≠ 0)).length ::
    (d.recentCr3.filter (· ≠ 0) ++ room.drop (d.recentCr3.filter (· ≠ 0)).length), ?_, ?_⟩
  · unfold fetch
    rw [store_eq _ (by simp), List.set_cons_zero]
    simp only [bind, Except.bind]
    rw [show (0 : ULong) = BitVec.ofNat 64 0 from rfl, hloop]
    rfl
  · unfold fetched
    dsimp only
    rw [BitVec.toNat_ofNat, Nat.mod_eq_of_lt (by omega), List.take_left]
    rfl

/-- What the monitor fetches is what the window shows, and the slots are empty afterwards. -/
theorem fetch_shows {d : Domain} {n : Nat} {ins longBuff : List ULong} (h : Shows d n ins) (hbuff : n < longBuff.length) :
    ∃ longBuff' d', fetch d longBuff = .ok (longBuff', d') ∧
      fetched longBuff' = Window.shown 0 (Window.view 0 n ins) ∧ Shows d' n [] := by
  obtain ⟨longBuff', hfetch, hvalues⟩ := fetch_eq h.sampled.length h.sampled.size_le (h.size.symm ▸ hbuff)
  refine ⟨longBuff', _, hfetch, ?_, ⟨h.sampled.flag, h.sampled.pos, ?_, h.sampled.size_le⟩, h.size, ?_⟩
  · rw [hvalues, h.slots]
  · exact List.length_replicate
  · rw [Window.view_nil]
    exact congrArg (List.replicate · 0) h.size

/-- After a start that has found no memory there are slots to fetch from, but no array. -/
theorem fetch_failedStart {d : Domain} {arg : Nat} (hd : d.recentCr3Size = 0) (harg : 1 ≤ arg) (b : ULong)
    (room : List ULong) : fetch (startSampling d arg none) (b :: room) = .error .outOfRange := by
  have hstart : startSampling d arg none = { d with recentCr3Size := arg, recentCr3 := [] } := by
    unfold startSampling
    rw [if_neg (not_not.mpr hd)]
    dsimp only
    split <;> rfl
  obtain ⟨left, rfl⟩ := Nat.exists_eq_add_of_le' harg
  rw [hstart]
  rfl

/-! ## Rounds -/

/-- Rounds of decisions, with a fetch into a buffer at the end of each. -/
def session : Domain → List (List ULong × List ULong) → Except Fault (List (List ULong) × Domain)
  | d, [] => .ok ([], d)
  | d, (cs, longBuff) :: rounds => do
    let d ← sampleAll d cs
    let (longBuff, d) ← fetch d longBuff
    let r ← session d rounds
    return (fetched longBuff :: r.1, r.2)

/-- What is fetched after a round: no value twice, the newest of those that were put in, and all values of
the round unless some were moved out. -/
structure Reports (n : Nat) (cs values : List ULong) : Prop where
  nodup : values.Nodup
  newest : values <+: Window.shown 0 (Window.takeInAll 0 n cs)
  complete : (Window.takeInAll 0 n cs).length ≤ n → ∀ c, c ∈ values ↔ c ≠ 0 ∧ c ∈ cs

theorem session_shows {d : Domain} {n : Nat} (h : Shows d n []) {rounds : List (List ULong × List ULong)}
    (hbuff : ∀ round ∈ rounds, n < round.2.length) :
    ∃ rs d', session d rounds = .ok (rs, d') ∧ List.Forall₂ (fun round => Reports n round.1) rounds rs := by
  induction rounds generalizing d with
  | nil => exact ⟨[], d, rfl, .nil⟩
  | cons round rounds ih =>
    obtain ⟨cs, longBuff⟩ := round
    have hpos : 0 < n := h.size ▸ h.sampled.pos
    have hzero : d.recentCr3 = List.replicate d.recentCr3Size 0 := by
      rw [h.slots, Window.view_nil, h.size]
    obtain ⟨d₁, hall, hshows⟩ := shows_sampleAll h.sampled hzero cs
    rw [h.size] at hshows
    obtain ⟨longBuff', d₂, hfetch, hfetched, hcleared⟩ := fetch_shows hshows (hbuff _ List.mem_cons_self)
    obtain ⟨rs, d', hrest, hreports⟩ := ih hcleared fun round hround => hbuff round (List.mem_cons_of_mem _ hround)
    refine ⟨fetched longBuff' :: rs, d', ?_, .cons ?_ hreports⟩
    · unfold session
      simp only [bind, Except.bind, hall, hfetch, hrest]
      rfl
    · rw [hfetched]
      exact ⟨Window.nodup_takeInAll hpos cs, Window.shown_prefix .., fun hlen _ => Window.mem_shown_takeInAll hlen⟩

/-- Sampling is started with an array of at least a slot that memory is found for, whatever that holds. Into buffers
with a word more than the array has slots, after a first fetch every fetch reports its own round, and nothing
faults. -/
theorem session_reports {d : Domain} {arg : Nat} {arr : List ULong} (hd : d.recentCr3Size = 0) (harg : 1 ≤ arg)
    (hle : arg ≤ uintMax / 8) (harr : arg ≤ arr.length) (first : List ULong) (hfirst : arg < first.length)
    (rounds : List (List ULong × List ULong)) (hbuff : ∀ round ∈ rounds, arg < round.2.length) :
    ∃ first' d₀ rs d', fetch (startSampling d arg (some arr)) first = .ok (first', d₀) ∧
      session d₀ rounds = .ok (rs, d') ∧ List.Forall₂ (fun round => Reports arg round.1) rounds rs := by
  have hlen : (arr.take arg).length = arg := List.length_take_of_le harr
  have hstart : startSampling d arg (some arr) = ⟨1, arg, arr.take arg⟩ := by
    unfold startSampling
    rw [if_neg (not_not.mpr hd)]
    dsimp only
    rw [if_neg (Nat.not_lt.mpr hle)]
  obtain ⟨first', hfetch, -⟩ := fetch_eq (d := ⟨1, arg, arr.take arg⟩) hlen hle hfirst
  have hcleared : Shows ⟨1, arg, List.replicate arg 0⟩ arg [] :=
    ⟨⟨rfl, harg, List.length_replicate, hle⟩, rfl, (Window.view_nil _ _).symm⟩
  obtain ⟨rs, d', hrest, hreports⟩ := session_shows hcleared hbuff
  rw [hstart]
  exact ⟨first', _, rs, d', hfetch, hrest, hreports⟩

/-- Two slots and two rounds. -/
theorem session_reports_two :
    let rounds : List (List ULong × List ULong) := [([0x1000], [5, 5, 5]), ([0x2000, 0x1000], [5, 5, 5])]
    ∃ first' d₀ rs d', fetch (startSampling ⟨0, 0, []⟩ 2 (some [7, 7])) [5, 5, 5] = .ok (first', d₀) ∧
      session d₀ rounds = .ok (rs, d') ∧ List.Forall₂ (fun round => Reports 2 round.1) rounds rs :=
  session_reports rfl (by decide) (by decide) (by decide) _ (by decide) _ (by decide)

end Sched.RecentCr3
