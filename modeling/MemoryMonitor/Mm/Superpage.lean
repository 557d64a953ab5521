import MemoryMonitor.Lib.Packed
import MemoryMonitor.Lib.Runs
import MemoryMonitor.Lib.Totals

/-!
# References to a superpage

`mark_superpage`, `unmark_superpage`, `clear_superpage_mark`, `get_superpage` and
`put_superpage` (`xen/arch/x86/mm.c`) on one superpage, by `n` CPUs in any order. The low
61 bits of `type_info` count the mappings and the mark, the top two are the type. The
references to the 512 pages are taken before the swap and dropped after it; a step is one
swap, or one get or put of the 512 pages.

`unmark_superpage` and `put_superpage` note in `do_pages` that they have found the last
reference, and do not take that back when they lose the swap and find another one on the
next attempt. They then drop the references to the pages of a superpage that is in use.
-/

namespace Mm.Superpage

/-- `SGT_mark`, `SGT_dynamic` and the masks; `SGT_none` is 0. -/
def sgtMark : BitVec 64 := 0x4000000000000000
def sgtDynamic : BitVec 64 := 0x8000000000000000
def sgtTypeMask : BitVec 64 := 0xC000000000000000
def sgtCountMask : BitVec 64 := 0x1FFFFFFFFFFFFFFF

/-- `(nx & ~SGT_type_mask) | type`. -/
def setType (nx type : BitVec 64) : BitVec 64 := (nx &&& ~~~sgtTypeMask) ||| type

/-- Where a CPU is: before the loop's body with the word that it has seen, or before the
swap of `x` for `nx`. -/
inductive Pc where
  | idle
  | mark (y : BitVec 64) (pagesDone : Bool)
  | markSwap (x : BitVec 64) (pagesDone : Bool)
  | get (y : BitVec 64) (pagesDone : Bool)
  | getSwap (x nx : BitVec 64) (pagesDone : Bool)
  /-- `clear_superpage_mark` has seen the mark and calls `unmark_superpage`. -/
  | unmarkRead
  | unmark (y : BitVec 64) (doPages : Bool)
  | put (y : BitVec 64) (doPages : Bool)
  /-- Before the last `put_spage_pages`. -/
  | putPages
  deriving DecidableEq

/-- `refs k` are the references of the superpage code to the page `k`, as it has taken and
dropped them. `maps` is how many calls of `get_superpage` wait for their `put_superpage`,
and `marked` whether the superpage was marked and not unmarked since. -/
structure State where
  /-- `opt_allow_superpage`. -/
  allow : Bool
  typeInfo : BitVec 64
  refs : Nat → Int
  pc : Nat → Pc
  maps : Nat
  marked : Bool

def State.init (allow : Bool) : State where
  allow := allow
  typeInfo := 0
  refs _ := 0
  pc _ := .idle
  maps := 0
  marked := false

/-! ## The pages -/

/-- `1 << PAGETABLE_ORDER`. -/
def spagePages : Nat := 512

/-- `while (--i >= 0) put_page_and_type(--page)`. -/
def putBack : Nat → (Nat → Int) → Nat → Int
  | 0, refs => refs
  | i + 1, refs => putBack i (Function.update refs i (refs i - 1))

/-- The loop of `get_spage_pages` with `todo` pages left; `ok k` is whether
`get_page_and_type` takes the reference to the page `k`. -/
def getLoop (ok : Nat → Bool) : (todo i : Nat) → (Nat → Int) → Bool × (Nat → Int)
  | 0, _, refs => (true, refs)
  | todo + 1, i, refs =>
      if ok i then getLoop ok todo (i + 1) (Function.update refs i (refs i + 1))
      else (false, putBack i refs)

def getSpagePages (ok : Nat → Bool) (refs : Nat → Int) : Bool × (Nat → Int) :=
  getLoop ok spagePages 0 refs

/-- The loop of `put_spage_pages`. -/
def putLoop : (todo i : Nat) → (Nat → Int) → Nat → Int
  | 0, _, refs => refs
  | todo + 1, i, refs => putLoop todo (i + 1) (Function.update refs i (refs i - 1))

def putSpagePages (refs : Nat → Int) : Nat → Int := putLoop spagePages 0 refs

/-! ## The calls -/

/-- The last reference goes: `(nx & SGT_count_mask) == 0` with `nx = x - 1`. -/
def last (x : BitVec 64) : Bool := (x - 1) &&& sgtCountMask = 0

/-- What `unmark_superpage` swaps in. -/
def unmarkNx (x : BitVec 64) : BitVec 64 :=
  if last x then setType (x - 1) 0 else setType (x - 1) sgtDynamic

/-- `put_superpage` has found the last mapping. -/
def putLast (x : BitVec 64) : Bool := x &&& sgtTypeMask = sgtDynamic && last x

/-- What `put_superpage` swaps in. -/
def putNx (x : BitVec 64) : BitVec 64 := if putLast x then setType (x - 1) 0 else x - 1

namespace State

def goto (s : State) (i : Nat) (p : Pc) : State := { s with pc := Function.update s.pc i p }

/-- `if ( pages_done ) put_spage_pages(...)`. -/
def undo (s : State) (pagesDone : Bool) : State :=
  { s with refs := if pagesDone then putSpagePages s.refs else s.refs }

/-- `get_spage_pages`, and where the CPU goes if it succeeds. -/
def getPages (s : State) (i : Nat) (ok : Nat → Bool) (p : Pc) : State :=
  match getSpagePages ok s.refs with
  | (true, refs) => { s with refs := refs }.goto i p
  | (false, refs) => { s with refs := refs }.goto i .idle

/-- The next operation of CPU `i`. -/
def advance (s : State) (i : Nat) (ok : Nat → Bool) : State :=
  match s.pc i with
  | .idle => s
  | .mark x pagesDone =>
      if x &&& sgtTypeMask = sgtMark then (s.undo pagesDone).goto i .idle
      else if x &&& sgtTypeMask = sgtDynamic then (s.undo pagesDone).goto i (.markSwap x false)
      else if pagesDone then s.goto i (.markSwap x true)
      else s.getPages i ok (.markSwap x true)
  | .markSwap x pagesDone =>
      if s.typeInfo = x then
        { s.goto i .idle with typeInfo := setType (x + 1) sgtMark, marked := true }
      else s.goto i (.mark s.typeInfo pagesDone)
  | .get x pagesDone =>
      if x &&& sgtTypeMask ≠ 0 then (s.undo pagesDone).goto i (.getSwap x (x + 1) false)
      else s.getPages i ok (.getSwap x (setType (x + 1) sgtDynamic) true)
  | .getSwap x nx pagesDone =>
      if s.typeInfo = x then { s.goto i .idle with typeInfo := nx, maps := s.maps + 1 }
      else s.goto i (.get s.typeInfo pagesDone)
  | .unmarkRead => s.goto i (.unmark s.typeInfo false)
  | .unmark x doPages =>
      if x &&& sgtTypeMask ≠ sgtMark then s.goto i .idle
      else
        let doPages := doPages || last x
        if s.typeInfo = x then
          { s.goto i (if doPages then .putPages else .idle) with
            typeInfo := unmarkNx x, marked := false }
        else s.goto i (.unmark s.typeInfo doPages)
  | .put x doPages =>
      let doPages := doPages || putLast x
      if s.typeInfo = x then
        { s.goto i (if doPages then .putPages else .idle) with typeInfo := putNx x }
      else s.goto i (.put s.typeInfo doPages)
  | .putPages => (s.undo true).goto i .idle

end State

inductive Step where
  | markSuperpage (i : Nat)
  | unmarkSuperpage (i : Nat)
  | clearSuperpageMark (i : Nat)
  | getSuperpage (i : Nat)
  | putSuperpage (i : Nat)
  /-- The next operation of the call under way; `ok` are the results of
  `get_page_and_type`. -/
  | next (i : Nat) (ok : Nat → Bool)

/-- One step of one of the `n` CPUs. Superpages are marked, unmarked and mapped only where
they are allowed, and a put gives back a mapping. -/
def act (n : Nat) (step : Step) (s : State) : State :=
  match step with
  | .markSuperpage i =>
      if i < n ∧ s.pc i = .idle ∧ s.allow then s.goto i (.mark s.typeInfo false) else s
  | .unmarkSuperpage i =>
      if i < n ∧ s.pc i = .idle ∧ s.allow then s.goto i (.unmark s.typeInfo false) else s
  | .clearSuperpageMark i =>
      if i < n ∧ s.pc i = .idle ∧ s.allow then
        if s.typeInfo &&& sgtTypeMask = sgtMark then s.goto i .unmarkRead else s
      else s
  | .getSuperpage i =>
      if i < n ∧ s.pc i = .idle ∧ s.allow then s.goto i (.get s.typeInfo false) else s
  | .putSuperpage i =>
      if i < n ∧ s.pc i = .idle ∧ 0 < s.maps then
        if s.allow then { s.goto i (.put s.typeInfo false) with maps := s.maps - 1 }
        else { s.goto i .putPages with maps := s.maps - 1 }
      else s
  | .next i ok => if i < n then s.advance i ok else s

/-- The swap does not succeed with a `do_pages` of an earlier attempt that this attempt does
not bear out, and the count has room for one more. -/
def Pc.fresh (typeInfo : BitVec 64) : Pc → Bool
  | .unmark x doPages => !(typeInfo = x && x &&& sgtTypeMask = sgtMark && doPages && !last x)
  | .put x doPages => !(typeInfo = x && doPages && !putLast x)
  | .markSwap x _ | .getSwap x _ _ => !(typeInfo = x && x &&& sgtCountMask = sgtCountMask)
  | _ => true

def fresh (step : Step) (s : State) : Prop :=
  match step with
  | .next i _ => (s.pc i).fresh s.typeInfo = true
  | _ => True

instance (step : Step) (s : State) : Decidable (fresh step s) :=
  match step with
  | .next i _ => inferInstanceAs (Decidable ((s.pc i).fresh s.typeInfo = true))
  | .markSuperpage _ | .unmarkSuperpage _ | .clearSuperpageMark _ | .getSuperpage _
  | .putSuperpage _ => inferInstanceAs (Decidable True)

/-! ## What a superpage at rest has -/

/-- With no call under way. -/
structure Balanced (s : State) : Prop where
  count : (s.typeInfo &&& sgtCountMask).toNat = s.maps + s.marked.toNat
  marked : s.typeInfo &&& sgtTypeMask = sgtMark ↔ s.marked = true
  none : s.typeInfo &&& sgtTypeMask = 0 ↔ s.typeInfo &&& sgtCountMask = 0
  /-- Each page has one reference exactly while the superpage has a type. -/
  pages : ∀ k < spagePages, s.refs k = if s.typeInfo &&& sgtTypeMask = 0 then 0 else 1

/-! ## What the loops over the pages do -/

section Pages

variable {ok : Nat → Bool} {refs : Nat → Int}

theorem putBack_apply (i : Nat) (refs : Nat → Int) (k : Nat) :
    putBack i refs k = if k < i then refs k - 1 else refs k := by
  induction i generalizing refs with
  | zero => rfl
  | succ i ih =>
    unfold putBack
    rw [ih]
    by_cases hki : k = i
    · rw [hki, Function.update_self, if_neg (Nat.lt_irrefl i), if_pos (Nat.lt_succ_self i)]
    · rw [Function.update_of_ne hki]
      by_cases hk : k < i
      · rw [if_pos hk, if_pos (Nat.lt_succ_of_lt hk)]
      · rw [if_neg hk, if_neg (by omega)]

/-- All pages from `i` on, or none at all. -/
theorem getLoop_apply (todo i : Nat) (refs : Nat → Int) (k : Nat) :
    (getLoop ok todo i refs).2 k =
      if (getLoop ok todo i refs).1 then if i ≤ k ∧ k < i + todo then refs k + 1 else refs k
      else if k < i then refs k - 1 else refs k := by
  induction todo generalizing i refs with
  | zero =>
    unfold getLoop
    rw [if_pos rfl, if_neg (by omega)]
  | succ todo ih =>
    unfold getLoop
    split
    · rw [ih]
      by_cases hki : k = i
      · subst hki
        have hin : k ≤ k ∧ k < k + (todo + 1) := by omega
        have hout : ¬(k + 1 ≤ k ∧ k < k + 1 + todo) := by omega
        rw [Function.update_self, if_neg hout, if_pos (Nat.lt_succ_self k), if_pos hin,
          if_neg (Nat.lt_irrefl k), Int.add_sub_cancel]
      · rw [Function.update_of_ne hki]
        split
        · by_cases hk : i + 1 ≤ k ∧ k < i + 1 + todo
          · rw [if_pos hk, if_pos (by omega)]
          · rw [if_neg hk, if_neg (by omega)]
        · by_cases hk : k < i
          · rw [if_pos hk, if_pos (by omega)]
          · rw [if_neg hk, if_neg (by omega)]
    · exact putBack_apply i refs k

theorem putLoop_apply (todo i : Nat) (refs : Nat → Int) (k : Nat) :
    putLoop todo i refs k = if i ≤ k ∧ k < i + todo then refs k - 1 else refs k := by
  induction todo generalizing i refs with
  | zero =>
    unfold putLoop
    rw [if_neg (by omega)]
  | succ todo ih =>
    unfold putLoop
    rw [ih]
    by_cases hki : k = i
    · rw [hki, Function.update_self, if_neg (by omega), if_pos (by omega)]
    · rw [Function.update_of_ne hki]
      by_cases hk : i + 1 ≤ k ∧ k < i + 1 + todo
      · rw [if_pos hk, if_pos (by omega)]
      · rw [if_neg hk, if_neg (by omega)]

theorem getSpagePages_apply {k : Nat} (hk : k < spagePages) :
    (getSpagePages ok refs).2 k = if (getSpagePages ok refs).1 then refs k + 1 else refs k := by
  unfold getSpagePages
  rw [getLoop_apply, if_neg (Nat.not_lt_zero k)]
  have hin : 0 ≤ k ∧ k < 0 + spagePages := by omega
  rw [if_pos hin]

theorem putSpagePages_apply {k : Nat} (hk : k < spagePages) : putSpagePages refs k = refs k - 1 := by
  unfold putSpagePages
  rw [putLoop_apply, if_pos (by omega)]

end Pages

-- from here on only what the loops do counts
attribute [irreducible] getSpagePages putSpagePages

/-! ## Words -/

/-- What `type_info` can be: there is a type exactly if there are references. -/
structure Word (x : BitVec 64) : Prop where
  room : Packed.count 62 x < 2 ^ 61
  type : Packed.flags 62 x ≤ 2
  none : Packed.flags 62 x = 0 ↔ Packed.count 62 x = 0

section Words

variable {x t : BitVec 64} {f : Nat}

theorem type_eq_iff (ht : t.toNat = 2 ^ 62 * f) : x &&& sgtTypeMask = t ↔ Packed.flags 62 x = f := by
  have hx : (x &&& sgtTypeMask).toNat = 2 ^ 62 * Packed.flags 62 x :=
    Packed.toNat_and_flags (by decide) rfl
  constructor
  · intro h
    rw [h, ht] at hx
    omega
  · intro h
    apply BitVec.eq_of_toNat_eq
    rw [hx, ht, h]

theorem type_none : x &&& sgtTypeMask = 0 ↔ Packed.flags 62 x = 0 := type_eq_iff rfl

theorem type_mark : x &&& sgtTypeMask = sgtMark ↔ Packed.flags 62 x = 1 := type_eq_iff rfl

theorem type_dynamic : x &&& sgtTypeMask = sgtDynamic ↔ Packed.flags 62 x = 2 := type_eq_iff rfl

theorem setType_spec (ht : t.toNat = 2 ^ 62 * f) :
    Packed.count 62 (setType x t) = Packed.count 62 x ∧ Packed.flags 62 (setType x t) = f :=
  Packed.set_flags (by decide) ht

theorem count_toNat (h : Packed.count 62 x < 2 ^ 61) : (x &&& sgtCountMask).toNat = Packed.count 62 x := by
  rw [Packed.toNat_and_mask (k := 61) rfl]
  unfold Packed.count at h ⊢
  omega

theorem count_zero (h : Packed.count 62 x < 2 ^ 61) : x &&& sgtCountMask = 0 ↔ Packed.count 62 x = 0 := by
  rw [← count_toNat h]
  exact ⟨fun h => by rw [h]; rfl, fun h => BitVec.eq_of_toNat_eq h⟩

theorem add_one (h : Packed.count 62 x < 2 ^ 61) :
    Packed.count 62 (x + 1) = Packed.count 62 x + 1 ∧ Packed.flags 62 (x + 1) = Packed.flags 62 x :=
  Packed.add_one (by decide) (by decide) (by omega)

theorem sub_one (h : 0 < Packed.count 62 x) :
    Packed.count 62 (x - 1) = Packed.count 62 x - 1 ∧ Packed.flags 62 (x - 1) = Packed.flags 62 x :=
  Packed.sub_one (by decide) h

theorem last_iff (h : Packed.count 62 x < 2 ^ 61) (hpos : 0 < Packed.count 62 x) :
    last x = true ↔ Packed.count 62 x = 1 := by
  have hs := (sub_one hpos).1
  unfold last
  rw [decide_eq_true_iff, count_zero (by omega), hs]
  omega

end Words

/-! ## The invariant -/

/-- A put that has not counted down yet. -/
def Pc.puts : Pc → Nat
  | .put .. => 1
  | _ => 0

/-- The references to the pages that a CPU has in hand. -/
def Pc.pages : Pc → Int
  | .mark _ true | .markSwap _ true | .get _ true | .getSwap _ _ true | .putPages => 1
  | _ => 0

/-- What a CPU knows of the word it has seen. -/
def Pc.Sane : Pc → Prop
  | .mark x pagesDone | .get x pagesDone => Word x ∧ (pagesDone = true → Packed.flags 62 x ≠ 0)
  | .markSwap x pagesDone =>
      Word x ∧ Packed.flags 62 x ≠ 1 ∧ (pagesDone = true ↔ Packed.flags 62 x = 0)
  | .getSwap x nx pagesDone =>
      Word x ∧ (pagesDone = true ↔ Packed.flags 62 x = 0) ∧
        nx = if Packed.flags 62 x = 0 then setType (x + 1) sgtDynamic else x + 1
  | _ => True

/-- The reference to each page of a superpage that is in use. -/
def live (x : BitVec 64) : Int := if Packed.flags 62 x = 0 then 0 else 1

structure Inv (n : Nat) (s : State) : Prop where
  word : Word s.typeInfo
  count : Packed.count 62 s.typeInfo =
    s.maps + s.marked.toNat + ∑ i ∈ Finset.range n, (s.pc i).puts
  marked : Packed.flags 62 s.typeInfo = 1 ↔ s.marked = true
  pages : ∀ k < spagePages,
    s.refs k = live s.typeInfo + ∑ i ∈ Finset.range n, (s.pc i).pages
  sane : ∀ i, (s.pc i).Sane
  /-- Where superpages are not allowed, nothing happens. -/
  off : s.allow = false → s.maps = 0 ∧ ∀ i, s.pc i = .idle

variable {n i : Nat} {s s' : State} {p : Pc}

theorem Word.zero : Word 0 := ⟨by decide, by decide, by decide⟩

theorem Inv.init (n : Nat) (allow : Bool) : Inv n (State.init allow) := by
  refine ⟨.zero, ?_, ?_, fun k _ => ?_, fun _ => trivial, fun _ => ⟨rfl, fun _ => rfl⟩⟩
  · have hsum : ∑ i ∈ Finset.range n, ((State.init allow).pc i).puts = 0 := Finset.sum_const_zero
    rw [hsum]
    rfl
  · show Packed.flags 62 (0 : BitVec 64) = 1 ↔ false = true
    decide
  · have hsum : ∑ i ∈ Finset.range n, ((State.init allow).pc i).pages = 0 := Finset.sum_const_zero
    rw [hsum]
    show 0 = live 0 + 0
    decide

/-- The invariant after CPU `i` has moved on, from what has changed. -/
theorem Inv.step (h : Inv n s) (hi : i < n) (hpc : s'.pc = Function.update s.pc i p) (hsane : p.Sane)
    (hword : Word s'.typeInfo) (hmarked : Packed.flags 62 s'.typeInfo = 1 ↔ s'.marked = true)
    (hcount : Packed.count 62 s'.typeInfo + (s.maps + s.marked.toNat + (s.pc i).puts) =
      Packed.count 62 s.typeInfo + (s'.maps + s'.marked.toNat + p.puts))
    (hpages : ∀ k < spagePages,
      s'.refs k + (live s.typeInfo + (s.pc i).pages) = s.refs k + (live s'.typeInfo + p.pages))
    (hallow : s'.allow = true) : Inv n s' := by
  have hi' := Finset.mem_range.mpr hi
  have hputs := Totals.sum_update hi' s.pc p fun _ q => q.puts
  have hpgs := Totals.sum_update hi' s.pc p fun _ q => q.pages
  refine ⟨hword, ?_, hmarked, fun k hk => ?_, fun j => ?_, fun hoff => ?_⟩
  · have := h.count
    rw [hpc]
    omega
  · have := h.pages k hk
    have := hpages k hk
    rw [hpc]
    omega
  · rw [hpc]
    by_cases hj : j = i
    · rw [hj, Function.update_self]
      exact hsane
    · rw [Function.update_of_ne hj]
      exact h.sane j
  · exact Bool.noConfusion (hallow.symm.trans hoff)

/-- A step that leaves the word alone. -/
theorem Inv.stay (h : Inv n s) (hi : i < n) (hpc : s'.pc = Function.update s.pc i p) (hsane : p.Sane)
    (hsame : (s'.typeInfo, s'.marked, s'.allow) = (s.typeInfo, s.marked, s.allow))
    (hmaps : s'.maps + p.puts = s.maps + (s.pc i).puts)
    (hpages : ∀ k < spagePages, s'.refs k + (s.pc i).pages = s.refs k + p.pages)
    (hallow : s.allow = true) : Inv n s' := by
  simp only [Prod.mk.injEq] at hsame
  rcases hsame with ⟨ht, hm, ha⟩
  refine h.step hi hpc hsane ?_ ?_ ?_ (fun k hk => ?_) (ha.trans hallow)
  · rw [ht]
    exact h.word
  · rw [ht, hm]
    exact h.marked
  · rw [ht, hm]
    omega
  · have := hpages k hk
    rw [ht]
    omega

/-! ## The steps -/

/-- A call is under way only where superpages are allowed. -/
theorem Inv.allow (h : Inv n s) (hpc : s.pc i = p) (hp : p ≠ .idle) : s.allow = true := by
  by_contra hoff
  exact hp (hpc.symm.trans ((h.off (Bool.eq_false_iff.2 hoff)).2 i))

theorem undo_refs {pagesDone : Bool} {k : Nat} (hk : k < spagePages) :
    (s.undo pagesDone).refs k + (if pagesDone then 1 else 0) = s.refs k := by
  unfold State.undo
  dsimp only
  split
  · rw [putSpagePages_apply hk]
    omega
  · exact Int.add_zero _

/-- The references to the pages go back, if there are any. -/
theorem Inv.undo (h : Inv n s) (hi : i < n) (pagesDone : Bool) (hputs : (s.pc i).puts = 0)
    (hold : (s.pc i).pages = if pagesDone then 1 else 0) (hallow : s.allow = true) (hsane : p.Sane)
    (hp : p.puts = 0) (hpages : p.pages = 0) : Inv n ((s.undo pagesDone).goto i p) := by
  refine h.stay hi (p := p) rfl hsane rfl ?_ (fun k hk => ?_) hallow
  · show s.maps + p.puts = _
    rw [hputs, hp]
  · show (s.undo pagesDone).refs k + _ = _
    rw [hold, undo_refs hk, hpages, Int.add_zero]

/-- The references to the pages are taken, all or none. -/
theorem Inv.getPages (h : Inv n s) (hi : i < n) (ok : Nat → Bool) (hputs : (s.pc i).puts = 0)
    (hold : (s.pc i).pages = 0) (hallow : s.allow = true) (hsane : p.Sane) (hp : p.puts = 0)
    (hpages : p.pages = 1) : Inv n (s.getPages i ok p) := by
  have hrefs : ∀ k < spagePages, (getSpagePages ok s.refs).2 k =
      if (getSpagePages ok s.refs).1 then s.refs k + 1 else s.refs k := fun k hk => getSpagePages_apply hk
  unfold State.getPages
  split
  · rename_i refs hget
    rw [hget] at hrefs
    refine h.stay hi rfl hsane rfl ?_ (fun k hk => ?_) hallow
    · rw [hputs, hp]
      rfl
    · show refs k + _ = _
      rw [hold, hpages, Int.add_zero]
      exact hrefs k hk
  · rename_i refs hget
    rw [hget] at hrefs
    refine h.stay hi rfl trivial rfl ?_ (fun k hk => ?_) hallow
    · rw [hputs]
      rfl
    · show refs k + _ = _
      rw [hold]
      exact congrArg (· + 0) (hrefs k hk)

/-- Two words without a type are the same. -/
theorem Word.eq_of_none {x y : BitVec 64} (hx : Word x) (hy : Word y) (hfx : Packed.flags 62 x = 0)
    (hfy : Packed.flags 62 y = 0) : x = y :=
  Packed.ext ((hx.none.1 hfx).trans (hy.none.1 hfy).symm) (hfx.trans hfy.symm)

theorem Inv.mark (h : Inv n s) (hi : i < n) (ok : Nat → Bool) {x : BitVec 64} {pagesDone : Bool}
    (hpc : s.pc i = .mark x pagesDone) : Inv n (s.advance i ok) := by
  have hsane := h.sane i
  rw [hpc] at hsane
  rcases hsane with ⟨hw, hdone⟩
  have hallow := h.allow hpc Pc.noConfusion
  have hputs : (s.pc i).puts = 0 := by rw [hpc]; rfl
  have hpages : (s.pc i).pages = if pagesDone then 1 else 0 := by
    rw [hpc]
    cases pagesDone <;> rfl
  unfold State.advance
  rw [hpc]
  dsimp only
  split
  · exact h.undo hi _ hputs hpages hallow trivial rfl rfl
  · rename_i hm
    rw [type_mark] at hm
    split
    · rename_i hd
      rw [type_dynamic] at hd
      refine h.undo hi _ hputs hpages hallow ⟨hw, hm, ?_⟩ rfl rfl
      rw [hd]
      decide
    · rename_i hd
      rw [type_dynamic] at hd
      have hnone : Packed.flags 62 x = 0 := by
        have := hw.type
        omega
      -- the pages cannot be in hand: the swap was lost to a word with a type
      split
      · rename_i hpd
        exact absurd hnone (hdone hpd)
      · rename_i hpd
        rw [if_neg hpd] at hpages
        refine h.getPages hi ok hputs hpages hallow ⟨hw, hm, ?_⟩ rfl rfl
        exact ⟨fun _ => hnone, fun _ => rfl⟩

theorem Inv.get (h : Inv n s) (hi : i < n) (ok : Nat → Bool) {x : BitVec 64} {pagesDone : Bool}
    (hpc : s.pc i = .get x pagesDone) : Inv n (s.advance i ok) := by
  have hsane := h.sane i
  rw [hpc] at hsane
  rcases hsane with ⟨hw, hdone⟩
  have hallow := h.allow hpc Pc.noConfusion
  have hputs : (s.pc i).puts = 0 := by rw [hpc]; rfl
  have hpages : (s.pc i).pages = if pagesDone then 1 else 0 := by
    rw [hpc]
    cases pagesDone <;> rfl
  unfold State.advance
  rw [hpc]
  dsimp only
  split
  · rename_i ht
    have hflags : Packed.flags 62 x ≠ 0 := fun h0 => ht (type_none.2 h0)
    refine h.undo hi _ hputs hpages hallow ⟨hw, ?_, ?_⟩ rfl rfl
    · exact ⟨fun hf => Bool.noConfusion hf, fun h0 => absurd h0 hflags⟩
    · rw [if_neg hflags]
  · rename_i ht
    have hnone : Packed.flags 62 x = 0 := type_none.1 (Decidable.not_not.1 ht)
    have hpd : ¬pagesDone = true := fun hpd => hdone hpd hnone
    rw [if_neg hpd] at hpages
    refine h.getPages hi ok hputs hpages hallow ⟨hw, ?_, ?_⟩ rfl rfl
    · exact ⟨fun _ => hnone, fun _ => rfl⟩
    · rw [if_pos hnone]

theorem Inv.lost (h : Inv n s) {x : BitVec 64} {pagesDone : Bool} (hw : Word x)
    (hdone : pagesDone = true ↔ Packed.flags 62 x = 0) (hne : s.typeInfo ≠ x) :
    Word s.typeInfo ∧ (pagesDone = true → Packed.flags 62 s.typeInfo ≠ 0) :=
  ⟨h.word, fun hpd h0 => hne (h.word.eq_of_none hw h0 (hdone.1 hpd))⟩

/-- What `fresh` says of a swap that counts up. -/
theorem room_of_fresh {x : BitVec 64} (hw : Word x) (h : ¬x &&& sgtCountMask = sgtCountMask) :
    Packed.count 62 x + 1 < 2 ^ 61 := by
  have hroom := hw.room
  have hne : Packed.count 62 x ≠ 2 ^ 61 - 1 := by
    intro heq
    apply h
    apply BitVec.eq_of_toNat_eq
    rw [count_toNat hroom, heq]
    rfl
  omega

theorem Inv.swapUp (h : Inv n s) (hi : i < n) {nx : BitVec 64} {maps : Nat} {marked pagesDone : Bool}
    (hputs : (s.pc i).puts = 0) (hpages : (s.pc i).pages = if pagesDone then 1 else 0)
    (hdone : pagesDone = true ↔ Packed.flags 62 s.typeInfo = 0)
    (hroom : Packed.count 62 s.typeInfo + 1 < 2 ^ 61)
    (hc : Packed.count 62 nx = Packed.count 62 s.typeInfo + 1) (hle : Packed.flags 62 nx ≤ 2)
    (hne : Packed.flags 62 nx ≠ 0) (hmarked : Packed.flags 62 nx = 1 ↔ marked = true)
    (hsum : maps + marked.toNat = s.maps + s.marked.toNat + 1) (hallow : s.allow = true) :
    Inv n { s.goto i .idle with typeInfo := nx, maps := maps, marked := marked } := by
  refine h.step hi (p := .idle) rfl trivial ⟨?_, hle, ?_⟩ hmarked ?_ (fun k _ => ?_) hallow
  · show Packed.count 62 nx < 2 ^ 61
    omega
  · show Packed.flags 62 nx = 0 ↔ Packed.count 62 nx = 0
    omega
  · show Packed.count 62 nx + (s.maps + s.marked.toNat + (s.pc i).puts) =
      Packed.count 62 s.typeInfo + (maps + marked.toNat + 0)
    omega
  · show s.refs k + (live s.typeInfo + _) = s.refs k + (live nx + 0)
    unfold live
    rw [if_neg hne, hpages]
    by_cases h0 : Packed.flags 62 s.typeInfo = 0
    · rw [if_pos h0, if_pos (hdone.2 h0)]
      rfl
    · rw [if_neg h0, if_neg fun hpd => h0 (hdone.1 hpd)]

theorem Inv.markSwap (h : Inv n s) (hi : i < n) (ok : Nat → Bool) {x : BitVec 64} {pagesDone : Bool}
    (hpc : s.pc i = .markSwap x pagesDone) (hfresh : (s.pc i).fresh s.typeInfo = true) :
    Inv n (s.advance i ok) := by
  have hsane := h.sane i
  rw [hpc] at hsane
  rcases hsane with ⟨hw, hne, hdone⟩
  have hallow := h.allow hpc Pc.noConfusion
  have hpages : (s.pc i).pages = if pagesDone then 1 else 0 := by
    rw [hpc]
    cases pagesDone <;> rfl
  unfold State.advance
  rw [hpc]
  dsimp only
  split
  · rename_i hx
    have hroom : Packed.count 62 x + 1 < 2 ^ 61 := by
      refine room_of_fresh hw fun hfull => ?_
      rw [hpc] at hfresh
      simp [Pc.fresh, hx, hfull] at hfresh
    rcases add_one hw.room with ⟨hc1, hf1⟩
    rcases setType_spec (x := x + 1) (t := sgtMark) (f := 1) rfl with ⟨hc, hf⟩
    have hm : s.marked = false := by
      rw [← Bool.not_eq_true]
      intro hm
      exact hne (hx ▸ h.marked.2 hm)
    subst hx
    refine h.swapUp hi (by rw [hpc]; rfl) hpages hdone hroom (hc.trans hc1) (by omega) (by omega)
      ⟨fun _ => rfl, fun _ => hf⟩ ?_ hallow
    rw [hm]
    rfl
  · rename_i hx
    refine h.stay hi rfl (h.lost hw hdone hx) rfl ?_ (fun k _ => ?_) hallow
    · rw [hpc]
      rfl
    · rw [hpages]
      cases pagesDone <;> rfl

theorem Inv.getSwap (h : Inv n s) (hi : i < n) (ok : Nat → Bool) {x nx : BitVec 64} {pagesDone : Bool}
    (hpc : s.pc i = .getSwap x nx pagesDone)
    (hfresh : (s.pc i).fresh s.typeInfo = true) : Inv n (s.advance i ok) := by
  have hsane := h.sane i
  rw [hpc] at hsane
  rcases hsane with ⟨hw, hdone, hnx⟩
  have hallow := h.allow hpc Pc.noConfusion
  have hpages : (s.pc i).pages = if pagesDone then 1 else 0 := by
    rw [hpc]
    cases pagesDone <;> rfl
  unfold State.advance
  rw [hpc]
  dsimp only
  split
  · rename_i hx
    have hroom : Packed.count 62 x + 1 < 2 ^ 61 := by
      refine room_of_fresh hw fun hfull => ?_
      rw [hpc] at hfresh
      simp [Pc.fresh, hx, hfull] at hfresh
    rcases add_one hw.room with ⟨hc1, hf1⟩
    rcases setType_spec (x := x + 1) (t := sgtDynamic) (f := 2) rfl with ⟨hcd, hfd⟩
    have hm : Packed.flags 62 x = 1 ↔ s.marked = true := hx ▸ h.marked
    -- the first mapping makes the superpage dynamic, the others leave the type alone
    have hnext : Packed.count 62 nx = Packed.count 62 x + 1 ∧
        Packed.flags 62 nx = if Packed.flags 62 x = 0 then 2 else Packed.flags 62 x := by
      rw [hnx]
      split
      · exact ⟨hcd.trans hc1, hfd⟩
      · exact ⟨hc1, hf1⟩
    rcases hnext with ⟨hc, hf⟩
    have hle := hw.type
    subst hx
    refine h.swapUp hi (by rw [hpc]; rfl) hpages hdone hroom hc ?_ ?_ ?_ (Nat.add_right_comm ..) hallow
    · rw [hf]
      split <;> omega
    · rw [hf]
      split <;> omega
    · show Packed.flags 62 nx = 1 ↔ s.marked = true
      rw [← hm, hf]
      split <;> omega
  · rename_i hx
    refine h.stay hi rfl (h.lost hw hdone hx) rfl ?_ (fun k _ => ?_) hallow
    · rw [hpc]
      rfl
    · rw [hpages]
      cases pagesDone <;> rfl

/-- A swap that counts down succeeds, and the last one takes the type away. -/
theorem Inv.swapDown (h : Inv n s) (hi : i < n) {nx : BitVec 64} {b marked : Bool} {f : Nat}
    (hpages : (s.pc i).pages = 0) (htyped : Packed.flags 62 s.typeInfo ≠ 0)
    (hc : Packed.count 62 nx + 1 = Packed.count 62 s.typeInfo) (hb : b = true ↔ Packed.count 62 nx = 0)
    (hf : Packed.flags 62 nx = if b then 0 else f) (hne : f ≠ 0) (hle : f ≤ 2)
    (hmarked : Packed.flags 62 nx = 1 ↔ marked = true)
    (hsum : marked.toNat + 1 = s.marked.toNat + (s.pc i).puts) (hallow : s.allow = true) :
    Inv n { s.goto i (if b then .putPages else .idle) with typeInfo := nx, marked := marked } := by
  have hroom := h.word.room
  refine h.step hi (p := if b then .putPages else .idle) rfl ?_ ⟨?_, ?_, ?_⟩ hmarked ?_ (fun k _ => ?_) hallow
  · split <;> trivial
  · show Packed.count 62 nx < 2 ^ 61
    omega
  · show Packed.flags 62 nx ≤ 2
    rw [hf]
    split <;> omega
  · show Packed.flags 62 nx = 0 ↔ Packed.count 62 nx = 0
    rw [hf, ← hb]
    split <;> simp_all
  · show Packed.count 62 nx + (s.maps + s.marked.toNat + (s.pc i).puts) =
      Packed.count 62 s.typeInfo + (s.maps + marked.toNat + _)
    have hputs : (if b then Pc.putPages else .idle).puts = 0 := by split <;> rfl
    rw [hputs]
    omega
  · show s.refs k + (live s.typeInfo + _) = s.refs k + (live nx + _)
    unfold live
    rw [if_neg htyped, hf, hpages]
    cases b with
    | true => rfl
    | false =>
      rw [if_neg Bool.false_ne_true, if_neg hne]
      rfl

/-- The swap of `unmark_superpage` succeeds. -/
theorem Inv.unmarkSwap (h : Inv n s) (hi : i < n) {doPages : Bool}
    (hpc : s.pc i = .unmark s.typeInfo doPages) (ht : Packed.flags 62 s.typeInfo = 1)
    (hfresh : doPages = true → last s.typeInfo = true) :
    Inv n { s.goto i (if doPages || last s.typeInfo then .putPages else .idle) with
      typeInfo := unmarkNx s.typeInfo, marked := false } := by
  have hm := h.marked.1 ht
  have hpos : 0 < Packed.count 62 s.typeInfo := by
    have := h.word.none
    omega
  have hroom := h.word.room
  rcases sub_one hpos with ⟨hc1, hf1⟩
  have hdo : (doPages || last s.typeInfo) = last s.typeInfo := by
    cases hd : doPages with
    | false => rfl
    | true => rw [hfresh hd]; rfl
  have hlast := last_iff hroom hpos
  rcases setType_spec (x := s.typeInfo - 1) (t := 0) (f := 0) rfl with ⟨hcn, hfn⟩
  rcases setType_spec (x := s.typeInfo - 1) (t := sgtDynamic) (f := 2) rfl with ⟨hcd, hfd⟩
  have hnx : Packed.count 62 (unmarkNx s.typeInfo) = Packed.count 62 s.typeInfo - 1 ∧
      Packed.flags 62 (unmarkNx s.typeInfo) = if last s.typeInfo then 0 else 2 := by
    unfold unmarkNx
    split
    · exact ⟨hcn.trans hc1, hfn⟩
    · exact ⟨hcd.trans hc1, hfd⟩
  rcases hnx with ⟨hc, hf⟩
  rw [hdo]
  refine h.swapDown hi (f := 2) (by rw [hpc]; rfl) (by omega) (by omega) ?_ hf (by decide) (Nat.le_refl 2) ?_ ?_
    (h.allow hpc Pc.noConfusion)
  · rw [hlast]
    omega
  · rw [hf]
    split <;> decide
  · rw [hm, hpc]
    rfl

/-- The swap of `put_superpage` succeeds. -/
theorem Inv.putSwap (h : Inv n s) (hi : i < n) {doPages : Bool}
    (hpc : s.pc i = .put s.typeInfo doPages)
    (hfresh : doPages = true → putLast s.typeInfo = true) :
    Inv n { s.goto i (if doPages || putLast s.typeInfo then .putPages else .idle) with
      typeInfo := putNx s.typeInfo } := by
  -- the mapping that is given back is still counted, and so is the mark
  have hone : 1 ≤ ∑ j ∈ Finset.range n, (s.pc j).puts := by
    have hle := Finset.single_le_sum (f := fun j => (s.pc j).puts) (fun j _ => Nat.zero_le _)
      (Finset.mem_range.mpr hi)
    have hself : (s.pc i).puts = 1 := by rw [hpc]; rfl
    exact hself ▸ hle
  have hcount := h.count
  have hpos : 0 < Packed.count 62 s.typeInfo := by omega
  have hflags : Packed.flags 62 s.typeInfo ≠ 0 := fun h0 => by
    have := h.word.none.1 h0
    omega
  have hmark : Packed.flags 62 s.typeInfo = 1 → 1 < Packed.count 62 s.typeInfo := by
    intro h1
    have hm : s.marked.toNat = 1 := by rw [h.marked.1 h1]; rfl
    omega
  have hroom := h.word.room
  have htype := h.word.type
  rcases sub_one hpos with ⟨hc1, hf1⟩
  have hdo : (doPages || putLast s.typeInfo) = putLast s.typeInfo := by
    cases hd : doPages with
    | false => rfl
    | true => rw [hfresh hd]; rfl
  have hlast : putLast s.typeInfo = true ↔
      Packed.flags 62 s.typeInfo = 2 ∧ Packed.count 62 s.typeInfo = 1 := by
    unfold putLast
    rw [Bool.and_eq_true, decide_eq_true_iff, type_dynamic, last_iff hroom hpos]
  rcases setType_spec (x := s.typeInfo - 1) (t := 0) (f := 0) rfl with ⟨hcn, hfn⟩
  have hnx : Packed.count 62 (putNx s.typeInfo) = Packed.count 62 s.typeInfo - 1 ∧
      Packed.flags 62 (putNx s.typeInfo) =
        if putLast s.typeInfo then 0 else Packed.flags 62 s.typeInfo := by
    unfold putNx
    split
    · exact ⟨hcn.trans hc1, hfn⟩
    · exact ⟨hc1, hf1⟩
  rcases hnx with ⟨hc, hf⟩
  rw [hdo]
  refine h.swapDown hi (by rw [hpc]; rfl) hflags (by omega) ?_ hf hflags htype ?_ ?_ (h.allow hpc Pc.noConfusion)
  · rw [hlast]
    omega
  · show Packed.flags 62 (putNx s.typeInfo) = 1 ↔ s.marked = true
    rw [← h.marked, hf]
    simp only [hlast]
    split <;> omega
  · rw [hpc]
    rfl

theorem Inv.unmark (h : Inv n s) (hi : i < n) (ok : Nat → Bool) {x : BitVec 64} {doPages : Bool}
    (hpc : s.pc i = .unmark x doPages) (hfresh : (s.pc i).fresh s.typeInfo = true) :
    Inv n (s.advance i ok) := by
  have hallow := h.allow hpc Pc.noConfusion
  unfold State.advance
  rw [hpc]
  dsimp only
  split
  · refine h.stay hi rfl trivial rfl ?_ (fun k _ => ?_) hallow
    · rw [hpc]
      rfl
    · rw [hpc]
      rfl
  · rename_i ht
    have ht' := Decidable.not_not.1 ht
    split
    · rename_i hx
      subst hx
      refine h.unmarkSwap hi hpc (type_mark.1 ht') fun hd => ?_
      rw [hpc] at hfresh
      simpa [Pc.fresh, ht', hd] using hfresh
    · refine h.stay hi rfl trivial rfl ?_ (fun k _ => ?_) hallow
      · rw [hpc]
        rfl
      · rw [hpc]
        rfl

theorem Inv.put (h : Inv n s) (hi : i < n) (ok : Nat → Bool) {x : BitVec 64} {doPages : Bool}
    (hpc : s.pc i = .put x doPages) (hfresh : (s.pc i).fresh s.typeInfo = true) :
    Inv n (s.advance i ok) := by
  have hallow := h.allow hpc Pc.noConfusion
  unfold State.advance
  rw [hpc]
  dsimp only
  split
  · rename_i hx
    subst hx
    refine h.putSwap hi hpc fun hd => ?_
    rw [hpc] at hfresh
    simpa [Pc.fresh, hd] using hfresh
  · refine h.stay hi rfl trivial rfl ?_ (fun k _ => ?_) hallow
    · rw [hpc]
      rfl
    · rw [hpc]
      rfl

/-! ## All steps -/

/-- A call begins, or goes on without touching anything. -/
theorem Inv.begin (h : Inv n s) (hi : i < n) {q : Pc} (hpc : s.pc i = q)
    (hq : q.puts = 0 ∧ q.pages = 0) (hsane : p.Sane) (hp : p.puts = 0 ∧ p.pages = 0)
    (hallow : s.allow = true) : Inv n (s.goto i p) := by
  refine h.stay hi rfl hsane rfl ?_ (fun k _ => ?_) hallow
  · rw [hpc, hq.1, hp.1]
    rfl
  · rw [hpc, hq.2, hp.2]
    rfl

theorem Inv.advance (h : Inv n s) (hi : i < n) (ok : Nat → Bool)
    (hfresh : (s.pc i).fresh s.typeInfo = true) : Inv n (s.advance i ok) := by
  cases hpc : s.pc i with
  | idle =>
    unfold State.advance
    rw [hpc]
    exact h
  | mark x pagesDone => exact h.mark hi ok hpc
  | markSwap x pagesDone => exact h.markSwap hi ok hpc hfresh
  | get x pagesDone => exact h.get hi ok hpc
  | getSwap x nx pagesDone => exact h.getSwap hi ok hpc hfresh
  | unmarkRead =>
    unfold State.advance
    rw [hpc]
    exact h.begin hi hpc ⟨rfl, rfl⟩ trivial ⟨rfl, rfl⟩ (h.allow hpc Pc.noConfusion)
  | unmark x doPages => exact h.unmark hi ok hpc hfresh
  | put x doPages => exact h.put hi ok hpc hfresh
  | putPages =>
    unfold State.advance
    rw [hpc]
    refine h.undo hi true ?_ ?_ (h.allow hpc Pc.noConfusion) trivial rfl rfl
    · rw [hpc]
      rfl
    · rw [hpc]
      rfl

theorem Inv.act (step : Step) (s : State) (hfresh : fresh step s) (h : Inv n s) :
    Inv n (act n step s) := by
  have hsane : Pc.Sane (.mark s.typeInfo false) := ⟨h.word, fun hf => Bool.noConfusion hf⟩
  unfold Superpage.act
  cases step with
  | markSuperpage i =>
    dsimp only
    split
    · rename_i hg
      exact h.begin hg.1 hg.2.1 ⟨rfl, rfl⟩ hsane ⟨rfl, rfl⟩ hg.2.2
    · exact h
  | unmarkSuperpage i =>
    dsimp only
    split
    · rename_i hg
      exact h.begin hg.1 hg.2.1 ⟨rfl, rfl⟩ trivial ⟨rfl, rfl⟩ hg.2.2
    · exact h
  | clearSuperpageMark i =>
    dsimp only
    split
    · rename_i hg
      split
      · exact h.begin hg.1 hg.2.1 ⟨rfl, rfl⟩ trivial ⟨rfl, rfl⟩ hg.2.2
      · exact h
    · exact h
  | getSuperpage i =>
    dsimp only
    split
    · rename_i hg
      exact h.begin hg.1 hg.2.1 ⟨rfl, rfl⟩ hsane ⟨rfl, rfl⟩ hg.2.2
    · exact h
  | putSuperpage i =>
    dsimp only
    split
    · rename_i hg
      rcases hg with ⟨hi, hpc, hpos⟩
      split
      · rename_i hallow
        refine h.stay hi (p := .put s.typeInfo false) rfl trivial rfl ?_ (fun k _ => ?_) hallow
        · rw [hpc]
          show s.maps - 1 + 1 = s.maps + 0
          omega
        · rw [hpc]
          rfl
      · rename_i hallow
        have := (h.off (Bool.eq_false_iff.2 hallow)).1
        omega
    · exact h
  | next i ok =>
    dsimp only
    split
    · exact h.advance ‹_› ok hfresh
    · exact h

theorem Inv.balanced (h : Inv n s) (hidle : ∀ i < n, s.pc i = .idle) : Balanced s := by
  have hputs : ∑ i ∈ Finset.range n, (s.pc i).puts = 0 :=
    Finset.sum_eq_zero fun i hi => by rw [hidle i (Finset.mem_range.mp hi)]; rfl
  have hpages : ∑ i ∈ Finset.range n, (s.pc i).pages = 0 :=
    Finset.sum_eq_zero fun i hi => by rw [hidle i (Finset.mem_range.mp hi)]; rfl
  constructor
  · rw [count_toNat h.word.room, h.count, hputs, Nat.add_zero]
  · rw [type_mark]
    exact h.marked
  · rw [type_none, count_zero h.word.room]
    exact h.word.none
  · intro k hk
    rw [h.pages k hk, hpages, Int.add_zero]
    unfold live
    by_cases h0 : Packed.flags 62 s.typeInfo = 0
    · rw [if_pos h0, if_pos (type_none.2 h0)]
    · rw [if_neg h0, if_neg fun ht => h0 (type_none.1 ht)]

/-- In every run whose swaps are fresh, the references are balanced whenever no call is
under way. -/
theorem run_balanced (n : Nat) (allow : Bool) (steps : List Step)
    (h : Runs.Each (act n) fresh steps (State.init allow))
    (hidle : ∀ i < n, (Runs.run (act n) steps (State.init allow)).pc i = .idle) :
    Balanced (Runs.run (act n) steps (State.init allow)) :=
  (h.inv Inv.act (Inv.init n allow)).balanced hidle

/-- A superpage is marked, mapped, unmarked and unmapped. -/
theorem run_balanced_unmapped :
    Balanced (Runs.run (act 2)
      [.markSuperpage 0, .next 0 fun _ => true, .next 0 fun _ => true,
       .getSuperpage 1, .next 1 fun _ => true, .next 1 fun _ => true,
       .unmarkSuperpage 0, .next 0 fun _ => true,
       .putSuperpage 1, .next 1 fun _ => true, .next 1 fun _ => true]
      (State.init true)) :=
  run_balanced 2 true _ (by decide +kernel) (by decide +kernel)

/-- CPU 0 unmaps the last mapping and loses the swap to CPU 1, which maps the superpage. -/
def lostSwap : List Step :=
  [.getSuperpage 0, .next 0 fun _ => true, .next 0 fun _ => true,
   .putSuperpage 0,
   .getSuperpage 1, .next 1 fun _ => true, .next 1 fun _ => true,
   .next 0 fun _ => true, .next 0 fun _ => true, .next 0 fun _ => true]

/-- On its next attempt it finds that mapping, and drops the pages all the same. -/
theorem lost_swap_drops_pages :
    (∀ i < 2, (Runs.run (act 2) lostSwap (State.init true)).pc i = .idle) ∧
      ¬Balanced (Runs.run (act 2) lostSwap (State.init true)) := by
  have hrefs : (Runs.run (act 2) lostSwap (State.init true)).refs 511 = 0 := by decide +kernel
  have htype : (Runs.run (act 2) lostSwap (State.init true)).typeInfo &&& sgtTypeMask ≠ 0 := by
    decide +kernel
  refine ⟨by decide +kernel, fun h => ?_⟩
  have hpage := h.pages 511 (by decide)
  rw [hrefs, if_neg htype] at hpage
  exact absurd hpage (by decide)

end Mm.Superpage
