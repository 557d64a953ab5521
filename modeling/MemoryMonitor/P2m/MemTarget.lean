import MemoryMonitor.P2m.Pod

/-!
# The target of a populate-on-demand domain

`p2m_pod_set_mem_target` turns a new target for a domain's memory into one for its cache. The cache
grows by superpages as long as these can be had, and it is looked after each step whether something
else is to be done.
-/

namespace P2m

/-- A domain with its page counts. Once a page is freed it counts until its last reference is gone. -/
structure PodDomain extends Pod where
  totPages : ℕ
  maxPages : ℕ
  held : ℕ → Bool
  /-- How often the allocator was asked, and `hypercall_preempt_check` called. -/
  allocs : ℕ
  checks : ℕ

/-- The answers to each request: the number of a block of the wanted size, and whether something
else is to be done. -/
structure Surroundings where
  block : ℕ → Option ℕ
  preempt : ℕ → Bool

namespace PodDomain

inductive Ret where
  | ok
  | EAGAIN
  | ENOMEM
  | EINVAL
deriving DecidableEq, Repr

open Pod (superpagePages)

/-- An `int` where an `unsigned int` or an `unsigned long` is wanted. -/
def asUint (n : ℤ) : ℕ := (n % 2 ^ 32).toNat

def asUlong (n : ℤ) : ℕ := (n % 2 ^ 64).toNat

/-- `alloc_domheap_pages`. Blocks are aligned to their size. -/
def allocDomheapPages (w : Surroundings) (order : ℕ) (s : PodDomain) : Option ℕ × PodDomain :=
  match w.block s.allocs with
  | none => (none, { s with allocs := s.allocs + 1 })
  | some k =>
      if s.isDying = true ∨ s.maxPages < (s.totPages + 2 ^ order) % 2 ^ 32 then
        (none, { s with allocs := s.allocs + 1 })
      else
        (some (k * 2 ^ order),
          { s with
            allocs := s.allocs + 1
            totPages := (s.totPages + 2 ^ order) % 2 ^ 32
            owner := fun m => if k * 2 ^ order ≤ m ∧ m < k * 2 ^ order + 2 ^ order then .self else s.owner m })

/-- The allocation with its `retry`: a single page if there is no superpage. -/
def allocRetry (w : Surroundings) (order : ℕ) (s : PodDomain) : Option (ℕ × ℕ) × PodDomain :=
  match s.allocDomheapPages w order with
  | (some page, s) => (some (page, order), s)
  | (none, s) =>
      if order = 9 then
        match s.allocDomheapPages w 0 with
        | (some page, s) => (some (page, 0), s)
        | (none, s) => (none, s)
      else (none, s)

/-- `p2m_pod_cache_add`. A debug build looks at the alignment and the owners. -/
def cacheAdd (page order : ℕ) (s : PodDomain) : PodDomain :=
  if s.debug = true ∧ (page % 2 ^ order ≠ 0 ∨ ∃ i < 2 ^ order, s.owner (page + i) ≠ .self) then s
  else if order = 9 then { s with super := s.super ++ [page], count := s.count + 2 ^ order }
  else { s with single := s.single ++ [page], count := s.count + 1 }

/-- The first loop of `p2m_pod_set_cache_target`. -/
def grow (w : Surroundings) (preemptible : Bool) (target : ℕ) : ℕ → PodDomain → Option (Ret × PodDomain)
  | 0, _ => none
  | fuel + 1, s =>
      if target > asUlong s.count then
        let order := if target - asUlong s.count ≥ superpagePages then 9 else 0
        match s.allocRetry w order with
        | (none, s) => some (.ENOMEM, s)
        | (some (page, order), s) =>
            let s := s.cacheAdd page order
            if w.preempt s.checks && preemptible then some (.EAGAIN, { s with checks := s.checks + 1 })
            else grow w preemptible target fuel { s with checks := s.checks + 1 }
      else some (.ok, s)

/-- The pages from the cache are freed one by one. -/
def freePages (w : Surroundings) (preemptible : Bool) (page : ℕ) : (todo i : ℕ) → PodDomain → Option Ret × PodDomain
  | 0, _, s => (none, s)
  | todo + 1, i, s =>
      if s.getPage (page + i) then
        let s := { s with totPages := if s.held (page + i) then s.totPages else s.totPages - 1 }
        if w.preempt s.checks && preemptible then (some .EAGAIN, { s with checks := s.checks + 1 })
        else freePages w preemptible page todo (i + 1) { s with checks := s.checks + 1 }
      else (some .EINVAL, s)

/-- The second loop. -/
def shrink (w : Surroundings) (preemptible : Bool) (target : ℕ) : ℕ → PodDomain → Option (Ret × PodDomain)
  | 0, _ => none
  | fuel + 1, s =>
      if target < asUlong s.count then
        let order := if asUlong s.count - target > superpagePages ∧ s.super ≠ [] then 9 else 0
        match s.toPod.cacheGet order with
        | none => some (.ok, { s with bug := true })
        | some (page, p) =>
            match freePages w preemptible page (2 ^ order) 0 { s with toPod := p } with
            | (some err, s) => some (err, s)
            | (none, s) => shrink w preemptible target fuel s
      else some (.ok, s)

/-- `p2m_pod_set_cache_target`. -/
def setCacheTarget (w : Surroundings) (preemptible : Bool) (target fuel : ℕ) (s : PodDomain) :
    Option (Ret × PodDomain) :=
  match grow w preemptible target fuel s with
  | some (.ok, s) => shrink w preemptible target fuel s
  | out => out

/-- What a call comes to, and the target for the cache that it has used. -/
structure Outcome where
  ret : Ret
  used : Option ℕ
  state : PodDomain

/-- `d->tot_pages - p2m->pod.count`. -/
def populated (s : PodDomain) : ℕ := asUint (s.totPages - s.count)

/-- The target for the cache, an `unsigned int`. -/
def podTarget (s : PodDomain) (target : ℕ) : ℕ :=
  let podTarget := (target + (2 ^ 64 - s.populated)) % 2 ^ 64 % 2 ^ 32
  if podTarget > asUint s.entryCount then asUint s.entryCount else podTarget

/-- `p2m_pod_set_mem_target`. -/
def setMemTarget (w : Surroundings) (target fuel : ℕ) (s : PodDomain) : Option Outcome :=
  if s.entryCount = 0 then some ⟨.ok, none, s⟩
  else if s.isDying then some ⟨.ok, none, s⟩
  else if target < s.totPages then some ⟨.ok, none, s⟩
  else
    match setCacheTarget w true (s.podTarget target) fuel s with
    | none => none
    | some (ret, s') => some ⟨ret, some (s.podTarget target), s'⟩

/-! ## What a call is for -/

/-- The equations that hold between calls, for `p` populated frames, a balloon that leaves `b` frames
and a maximum of `m`; the old target is what the domain has. Page counts are of type `int` or
`unsigned int`. -/
structure Equations (s : PodDomain) (p b m : ℕ) : Prop where
  count : 0 ≤ s.count
  oldTarget : p + s.count ≤ b
  balloon : b ≤ m
  entryCount : s.entryCount = b - p
  totPages : (s.totPages : ℤ) = p + s.count
  entryInt : s.entryCount < 2 ^ 31
  maxUint : m < 2 ^ 32
  maxPages : s.maxPages < 2 ^ 32

/-- The target that is wanted for the cache, if one is. -/
def wanted (s : PodDomain) (p target : ℕ) : Option ℕ :=
  if 0 < s.entryCount ∧ s.totPages ≤ target then some (min (target - p) s.entryCount.toNat) else none

/-- The cache has got superpages and single pages that were allocated for the domain, all of them
are counted, and nothing else of the domain differs. -/
structure Grown (s s' : PodDomain) : Prop where
  pages : ∃ super single, s'.super = s.super ++ super ∧ s'.single = s.single ++ single ∧
    s'.count = s.count + (512 * super.length + single.length : ℕ) ∧
    s'.totPages = s.totPages + (512 * super.length + single.length)
  p2m : s'.p2m = s.p2m
  m2p : s'.m2p = s.m2p
  entryCount : s'.entryCount = s.entryCount
  isDying : s'.isDying = s.isDying
  bug : s'.bug = s.bug
  maxPages : s'.maxPages = s.maxPages

/-- The call ends; it uses the wanted target, grows the cache towards it and says whether it got
there; without a target it does nothing. -/
structure Retargets (w : Surroundings) (target : ℕ) (wanted : Option ℕ) (s : PodDomain) : Prop where
  ends : ∃ fuel out, s.setMemTarget w target fuel = some out
  used : ∀ fuel out, s.setMemTarget w target fuel = some out → out.used = wanted
  idle : ∀ fuel out, s.setMemTarget w target fuel = some out → out.used = none → out.ret = .ok ∧ out.state = s
  grown : ∀ fuel out, s.setMemTarget w target fuel = some out → Grown s out.state
  stops : ∀ fuel out, s.setMemTarget w target fuel = some out → ∀ t, out.used = some t →
    out.state.count ≤ t ∧ (out.ret = .EAGAIN ∨ out.ret = .ENOMEM ∨ (out.ret = .ok ∧ out.state.count = t))

variable {s s' s'' : PodDomain} {w : Surroundings} {order page target fuel p b m : ℕ}

theorem asUlong_eq {n : ℤ} (h : 0 ≤ n) (h' : n < 2 ^ 31) : asUlong n = n.toNat := by
  unfold asUlong
  rw [Int.emod_eq_of_lt h (by omega)]

theorem asUint_eq {n : ℤ} (h : 0 ≤ n) (h' : n < 2 ^ 32) : asUint n = n.toNat := by
  unfold asUint
  rw [Int.emod_eq_of_lt h h']

/-! ## The cache grows -/

theorem Grown.refl (s : PodDomain) : Grown s s :=
  ⟨⟨[], [], by simp, by simp, by simp, by simp⟩, rfl, rfl, rfl, rfl, rfl, rfl⟩

theorem Grown.trans (h : Grown s s') (h' : Grown s' s'') : Grown s s'' := by
  obtain ⟨super, single, hsuper, hsingle, hcount, htot⟩ := h.pages
  obtain ⟨super', single', hsuper', hsingle', hcount', htot'⟩ := h'.pages
  refine ⟨⟨super ++ super', single ++ single', ?_, ?_, ?_, ?_⟩, h'.p2m.trans h.p2m, h'.m2p.trans h.m2p,
    h'.entryCount.trans h.entryCount, h'.isDying.trans h.isDying, h'.bug.trans h.bug,
    h'.maxPages.trans h.maxPages⟩
  · rw [hsuper', hsuper, List.append_assoc]
  · rw [hsingle', hsingle, List.append_assoc]
  · rw [hcount', hcount, List.length_append, List.length_append]
    omega
  · rw [htot', htot, List.length_append, List.length_append]
    omega

theorem Grown.le (h : Grown s s') : s.count ≤ s'.count := by
  obtain ⟨super, single, -, -, hcount, -⟩ := h.pages
  omega

theorem Grown.totPages (h : Grown s s') : (s'.totPages : ℤ) - s'.count = s.totPages - s.count := by
  obtain ⟨super, single, -, -, hcount, htot⟩ := h.pages
  omega

/-- What the allocator leaves alone. -/
structure Asked (s s' : PodDomain) : Prop where
  super : s'.super = s.super
  single : s'.single = s.single
  count : s'.count = s.count
  p2m : s'.p2m = s.p2m
  m2p : s'.m2p = s.m2p
  entryCount : s'.entryCount = s.entryCount
  isDying : s'.isDying = s.isDying
  bug : s'.bug = s.bug
  maxPages : s'.maxPages = s.maxPages

/-- A block is the domain's and counted; if there is none, nothing is. -/
theorem allocDomheapPages_spec (w : Surroundings) (order : ℕ) (s : PodDomain)
    (hroom : s.totPages + 2 ^ order < 2 ^ 32) :
    Asked s (s.allocDomheapPages w order).2 ∧
      match (s.allocDomheapPages w order).1 with
      | none => (s.allocDomheapPages w order).2.totPages = s.totPages
      | some page => (s.allocDomheapPages w order).2.totPages = s.totPages + 2 ^ order ∧ page % 2 ^ order = 0 ∧
          ∀ i < 2 ^ order, (s.allocDomheapPages w order).2.owner (page + i) = .self := by
  unfold allocDomheapPages
  cases hb : w.block s.allocs with
  | none => exact ⟨⟨rfl, rfl, rfl, rfl, rfl, rfl, rfl, rfl, rfl⟩, rfl⟩
  | some k =>
      dsimp only
      by_cases hfail : s.isDying = true ∨ s.maxPages < (s.totPages + 2 ^ order) % 2 ^ 32
      · rw [if_pos hfail]
        exact ⟨⟨rfl, rfl, rfl, rfl, rfl, rfl, rfl, rfl, rfl⟩, rfl⟩
      · rw [if_neg hfail]
        refine ⟨⟨rfl, rfl, rfl, rfl, rfl, rfl, rfl, rfl, rfl⟩, Nat.mod_eq_of_lt hroom, Nat.mul_mod_left k _, ?_⟩
        intro i hi
        exact if_pos ⟨Nat.le_add_right _ _, by omega⟩

theorem grown_cacheAdd {s₀ : PodDomain} (h : Asked s₀ s) (htot : s.totPages = s₀.totPages + 2 ^ order)
    (horder : order = 9 ∨ order = 0) (haligned : page % 2 ^ order = 0)
    (howner : ∀ i < 2 ^ order, s.owner (page + i) = .self) :
    Grown s₀ (s.cacheAdd page order) ∧ (s.cacheAdd page order).count = s₀.count + 2 ^ order := by
  have hpass : ¬(s.debug = true ∧ (page % 2 ^ order ≠ 0 ∨ ∃ i < 2 ^ order, s.owner (page + i) ≠ .self)) := by
    rintro ⟨-, hbad | ⟨i, hi, hbad⟩⟩
    · exact hbad haligned
    · exact hbad (howner i hi)
  unfold cacheAdd
  rw [if_neg hpass]
  rcases horder with rfl | rfl
  · rw [if_pos rfl]
    refine ⟨⟨⟨[page], [], ?_, ?_, ?_, ?_⟩, h.p2m, h.m2p, h.entryCount, h.isDying, h.bug, h.maxPages⟩, ?_⟩
    · show s.super ++ [page] = s₀.super ++ [page]
      rw [h.super]
    · show s.single = s₀.single ++ []
      rw [h.single, List.append_nil]
    · show s.count + 512 = s₀.count + 512
      rw [h.count]
    · exact htot
    · show s.count + 512 = s₀.count + 512
      rw [h.count]
  · rw [if_neg (by decide)]
    refine ⟨⟨⟨[], [page], ?_, ?_, ?_, ?_⟩, h.p2m, h.m2p, h.entryCount, h.isDying, h.bug, h.maxPages⟩, ?_⟩
    · show s.super = s₀.super ++ []
      rw [h.super, List.append_nil]
    · show s.single ++ [page] = s₀.single ++ [page]
      rw [h.single]
    · show s.count + 1 = s₀.count + 1
      rw [h.count]
    · exact htot
    · show s.count + 1 = s₀.count + 1
      rw [h.count]

theorem Asked.grown (h : Asked s s') (htot : s'.totPages = s.totPages) : Grown s s' :=
  ⟨⟨[], [], by rw [h.super, List.append_nil], by rw [h.single, List.append_nil], by simp [h.count], by simp [htot]⟩,
    h.p2m, h.m2p, h.entryCount, h.isDying, h.bug, h.maxPages⟩

theorem Asked.trans (h : Asked s s') (h' : Asked s' s'') : Asked s s'' :=
  ⟨h'.super.trans h.super, h'.single.trans h.single, h'.count.trans h.count, h'.p2m.trans h.p2m,
    h'.m2p.trans h.m2p, h'.entryCount.trans h.entryCount, h'.isDying.trans h.isDying, h'.bug.trans h.bug,
    h'.maxPages.trans h.maxPages⟩

/-- One step of the first loop: either no page can be had, or one or 512 go to the cache. -/
theorem allocRetry_spec (w : Surroundings) (order : ℕ) (s : PodDomain) (horder : order = 9 ∨ order = 0)
    (hroom : s.totPages + 2 ^ order < 2 ^ 32) :
    match s.allocRetry w order with
    | (none, s') => Grown s s' ∧ s'.count = s.count
    | (some (page, order'), s') => order' ≤ order ∧ Grown s (s'.cacheAdd page order') ∧
        (s'.cacheAdd page order').count = s.count + 2 ^ order' := by
  have hfirst := allocDomheapPages_spec w order s hroom
  unfold allocRetry
  rcases hrun : s.allocDomheapPages w order with ⟨_ | page, s₁⟩
  · rw [hrun] at hfirst
    obtain ⟨hasked, htot⟩ := hfirst
    dsimp only at hasked htot ⊢
    rcases horder with rfl | rfl
    · -- the superpage cannot be had: a single page
      have hsecond := allocDomheapPages_spec w 0 s₁ (by omega)
      rw [if_pos rfl]
      rcases hrun' : s₁.allocDomheapPages w 0 with ⟨_ | page, s₂⟩
      · rw [hrun'] at hsecond
        obtain ⟨hasked', htot'⟩ := hsecond
        dsimp only at hasked' htot' ⊢
        have hboth := hasked.trans hasked'
        exact ⟨hboth.grown (htot'.trans htot), hboth.count⟩
      · rw [hrun'] at hsecond
        obtain ⟨hasked', htot', haligned, howner⟩ := hsecond
        dsimp only at hasked' htot' howner ⊢
        refine ⟨by omega, grown_cacheAdd (hasked.trans hasked') ?_ (Or.inr rfl) haligned howner⟩
        rw [htot', htot]
    · rw [if_neg (by decide)]
      exact ⟨hasked.grown htot, hasked.count⟩
  · rw [hrun] at hfirst
    obtain ⟨hasked, htot, haligned, howner⟩ := hfirst
    exact ⟨Nat.le_refl order, grown_cacheAdd hasked htot horder haligned howner⟩

/-- How the first loop ends. -/
structure GrowEnd (target : ℕ) (s : PodDomain) (r : Ret × PodDomain) : Prop where
  grown : Grown s r.2
  le : r.2.count ≤ target
  ret : r.1 = .EAGAIN ∨ r.1 = .ENOMEM ∨ (r.1 = .ok ∧ r.2.count = target)

theorem GrowEnd.of_grown {r : Ret × PodDomain} (h : Grown s s') (h' : GrowEnd target s' r) : GrowEnd target s r :=
  ⟨h.trans h'.grown, h'.le, h'.ret⟩

theorem grow_spec (htarget : target < 2 ^ 31) (hcount : 0 ≤ s.count) (hle : s.count ≤ target)
    (hroom : (s.totPages : ℤ) - s.count + target < 2 ^ 32) :
    (∀ r, grow w true target fuel s = some r → GrowEnd target s r) ∧
      ((target : ℤ) - s.count < fuel → ∃ r, grow w true target fuel s = some r) := by
  induction fuel generalizing s with
  | zero =>
      constructor
      · intro r h
        exact absurd h nofun
      · intro hfuel
        omega
  | succ fuel ih =>
      have hulong : asUlong s.count = s.count.toNat := asUlong_eq hcount (by omega)
      rw [grow, hulong]
      by_cases hlt : target > s.count.toNat
      · rw [if_pos hlt]
        dsimp only
        generalize ho : (if target - s.count.toNat ≥ superpagePages then 9 else 0) = order
        have horder : (order = 9 ∧ 512 ≤ target - s.count.toNat) ∨ order = 0 := by
          by_cases hbig : target - s.count.toNat ≥ superpagePages
          · rw [if_pos hbig] at ho
            exact Or.inl ⟨ho.symm, hbig⟩
          · rw [if_neg hbig] at ho
            exact Or.inr ho.symm
        have hsize : 2 ^ order ≤ target - s.count.toNat := by
          rcases horder with ⟨rfl, hbig⟩ | rfl
          · exact hbig
          · omega
        have hstep := allocRetry_spec w order s (horder.imp_left And.left) (by omega)
        rcases hrun : s.allocRetry w order with ⟨_ | ⟨page, order'⟩, s₁⟩
        · rw [hrun] at hstep
          obtain ⟨hgrown, hsame⟩ := hstep
          dsimp only
          constructor
          · intro r h
            obtain rfl := Option.some.inj h
            have hle' : s₁.count ≤ target := by omega
            exact ⟨hgrown, hle', Or.inr (Or.inl rfl)⟩
          · intro _
            exact ⟨_, rfl⟩
        · rw [hrun] at hstep
          obtain ⟨hsmall, hgrown, hadded⟩ := hstep
          dsimp only at hgrown hadded ⊢
          have hpow : 2 ^ order' ≤ 2 ^ order := Nat.pow_le_pow_right (by decide) hsmall
          have hpos : 0 < 2 ^ order' := Nat.two_pow_pos order'
          have hcast : ((2 ^ order' : ℕ) : ℤ) = 2 ^ order' := by
            push_cast
            rfl
          have htot := hgrown.totPages
          generalize hs₂ : s₁.cacheAdd page order' = s₂ at hgrown hadded htot ⊢
          have hcounted : Grown s { s₂ with checks := s₂.checks + 1 } :=
            ⟨hgrown.pages, hgrown.p2m, hgrown.m2p, hgrown.entryCount, hgrown.isDying, hgrown.bug, hgrown.maxPages⟩
          by_cases hpre : (w.preempt s₂.checks && true) = true
          · rw [if_pos hpre]
            constructor
            · intro r h
              obtain rfl := Option.some.inj h
              refine ⟨hcounted, ?_, Or.inl rfl⟩
              show s₂.count ≤ target
              omega
            · intro _
              exact ⟨_, rfl⟩
          · rw [if_neg hpre]
            obtain ⟨hend, hends⟩ := @ih { s₂ with checks := s₂.checks + 1 }
              (show 0 ≤ s₂.count by omega) (show s₂.count ≤ target by omega)
              (show (s₂.totPages : ℤ) - s₂.count + target < 2 ^ 32 by omega)
            constructor
            · intro r h
              exact (hend r h).of_grown hcounted
            · intro hfuel
              exact hends (show (target : ℤ) - s₂.count < fuel by omega)
      · rw [if_neg hlt]
        constructor
        · intro r h
          obtain rfl := Option.some.inj h
          have hreached : s.count = target := by omega
          exact ⟨Grown.refl s, hle, Or.inr (Or.inr ⟨rfl, hreached⟩)⟩
        · intro _
          exact ⟨_, rfl⟩

/-- At its target the second loop has nothing to do. -/
theorem shrink_done (hcount : s.count = target) (htarget : target < 2 ^ 31) (hfuel : 0 < fuel) :
    shrink w true target fuel s = some (.ok, s) := by
  obtain ⟨n, rfl⟩ := Nat.exists_eq_succ_of_ne_zero (Nat.ne_of_gt hfuel)
  rw [Nat.succ_eq_add_one, shrink, asUlong_eq (by omega) (by omega), if_neg (by omega)]

theorem setCacheTarget_spec (htarget : target < 2 ^ 31) (hcount : 0 ≤ s.count) (hle : s.count ≤ target)
    (hroom : (s.totPages : ℤ) - s.count + target < 2 ^ 32) :
    (∀ r, setCacheTarget w true target fuel s = some r → GrowEnd target s r) ∧
      ((target : ℤ) - s.count < fuel → ∃ r, setCacheTarget w true target fuel s = some r) := by
  obtain ⟨hend, hends⟩ := @grow_spec s w target fuel htarget hcount hle hroom
  unfold setCacheTarget
  rcases hrun : grow w true target fuel s with _ | ⟨ret, s₁⟩
  · constructor
    · intro r h
      exact absurd h nofun
    · intro hfuel
      obtain ⟨r, hr⟩ := hends hfuel
      rw [hrun] at hr
      exact absurd hr nofun
  · have hgrow := hend _ hrun
    have hpos : 0 < fuel := by
      refine Nat.pos_of_ne_zero fun h0 => ?_
      rw [h0] at hrun
      exact absurd hrun nofun
    rcases hgrow.ret with hret | hret | ⟨hret, hreached⟩
    · dsimp only at hret
      subst hret
      exact ⟨fun r h => Option.some.inj h ▸ hgrow, fun _ => ⟨_, rfl⟩⟩
    · dsimp only at hret
      subst hret
      exact ⟨fun r h => Option.some.inj h ▸ hgrow, fun _ => ⟨_, rfl⟩⟩
    · dsimp only at hret hreached
      subst hret
      dsimp only
      rw [shrink_done hreached htarget hpos]
      exact ⟨fun r h => Option.some.inj h ▸ hgrow, fun _ => ⟨_, rfl⟩⟩

/-! ## The target -/

theorem Equations.populated (h : Equations s p b m) : s.populated = p := by
  have hp : (s.totPages : ℤ) - s.count = p := by
    have := h.totPages
    omega
  have hlt : (p : ℤ) < 2 ^ 32 := by
    have hold := h.oldTarget
    have hcount := h.count
    have hballoon := h.balloon
    have hm := h.maxUint
    omega
  unfold PodDomain.populated
  rw [hp, asUint_eq (Int.natCast_nonneg p) hlt, Int.toNat_natCast]

/-- If the difference fits 32 bits, the target is what is wanted. -/
theorem Equations.podTarget (h : Equations s p b m) (hle : s.totPages ≤ target) (hfit : target < p + 2 ^ 32) :
    s.podTarget target = min (target - p) s.entryCount.toNat := by
  have hentry : 0 ≤ s.entryCount := by
    have hold := h.oldTarget
    have hcount := h.count
    have he := h.entryCount
    omega
  have hp : p ≤ target := by
    have htot := h.totPages
    have hcount := h.count
    omega
  have hlt : p < 2 ^ 32 := by
    have hold := h.oldTarget
    have hcount := h.count
    have hballoon := h.balloon
    have hm := h.maxUint
    omega
  have hdiff : (target + (2 ^ 64 - p)) % 2 ^ 64 % 2 ^ 32 = target - p := by
    have hsum : target + (2 ^ 64 - p) = target - p + 2 ^ 64 := by omega
    rw [hsum, Nat.add_mod_right, Nat.mod_eq_of_lt (show target - p < 2 ^ 64 by omega),
      Nat.mod_eq_of_lt (show target - p < 2 ^ 32 by omega)]
  have hint := h.entryInt
  unfold PodDomain.podTarget
  dsimp only
  rw [h.populated, hdiff, asUint_eq hentry (by omega)]
  split <;> omega

theorem retargets_of_fits (h : Equations s p b m) (hfit : target < p + 2 ^ 32) :
    Retargets w target (if s.isDying then none else s.wanted p target) s := by
  have hold := h.oldTarget
  have hcount := h.count
  have hentry := h.entryCount
  have htot := h.totPages
  -- where there is nothing to do
  have hidle : (∀ fuel, s.setMemTarget w target fuel = some ⟨.ok, none, s⟩) →
      (if s.isDying then none else s.wanted p target) = none →
      Retargets w target (if s.isDying then none else s.wanted p target) s := by
    intro hrun hnone
    refine ⟨⟨0, _, hrun 0⟩, ?_, ?_, ?_, ?_⟩ <;> intro fuel out hout <;> rw [hrun fuel] at hout <;>
      obtain rfl := Option.some.inj hout
    · exact hnone.symm
    · intro _
      exact ⟨rfl, rfl⟩
    · exact Grown.refl s
    · intro t ht
      exact absurd ht nofun
  by_cases hzero : s.entryCount = 0
  · apply hidle
    · intro fuel
      exact if_pos hzero
    · unfold wanted
      have hnot : ¬(0 < s.entryCount ∧ s.totPages ≤ target) := fun hw => absurd hzero (Int.ne_of_gt hw.1)
      rw [if_neg hnot, ite_self]
  · by_cases hdying : s.isDying = true
    · apply hidle
      · intro fuel
        unfold setMemTarget
        rw [if_neg hzero, if_pos hdying]
      · rw [if_pos hdying]
    · by_cases hlow : target < s.totPages
      · apply hidle
        · intro fuel
          unfold setMemTarget
          rw [if_neg hzero, if_neg hdying, if_pos hlow]
        · unfold wanted
          rw [if_neg hdying, if_neg (fun hw => absurd hw.2 (Nat.not_le_of_lt hlow))]
      · have htarget := h.podTarget (Nat.le_of_not_lt hlow) hfit
        have hwanted : (if s.isDying then none else s.wanted p target) = some (s.podTarget target) := by
          unfold wanted
          rw [if_neg hdying, if_pos ⟨by omega, Nat.le_of_not_lt hlow⟩, htarget]
        have hint := h.entryInt
        have hballoon := h.balloon
        have hmax := h.maxUint
        have hrun : ∀ fuel, s.setMemTarget w target fuel =
            match setCacheTarget w true (s.podTarget target) fuel s with
            | none => none
            | some (ret, s') => some ⟨ret, some (s.podTarget target), s'⟩ := by
          intro fuel
          unfold setMemTarget
          rw [if_neg hzero, if_neg hdying, if_neg hlow]
        have hspec : ∀ fuel, _ := fun fuel => @setCacheTarget_spec s w (s.podTarget target) fuel
          (by omega) hcount (by omega) (by omega)
        have hout : ∀ fuel out, s.setMemTarget w target fuel = some out →
            out.used = some (s.podTarget target) ∧ GrowEnd (s.podTarget target) s (out.ret, out.state) := by
          intro fuel out hout
          rw [hrun fuel] at hout
          rcases hset : setCacheTarget w true (s.podTarget target) fuel s with _ | ⟨ret, s'⟩
          · rw [hset] at hout
            exact absurd hout nofun
          · rw [hset] at hout
            obtain rfl := Option.some.inj hout
            exact ⟨rfl, (hspec fuel).1 _ hset⟩
        rw [hwanted]
        refine ⟨?_, fun fuel out ho => (hout fuel out ho).1, ?_, fun fuel out ho => (hout fuel out ho).2.grown, ?_⟩
        · obtain ⟨r, hr⟩ := (hspec (s.podTarget target + 1)).2 (by omega)
          refine ⟨s.podTarget target + 1, ⟨r.1, some (s.podTarget target), r.2⟩, ?_⟩
          rw [hrun, hr]
        · intro fuel out ho hnone
          rw [(hout fuel out ho).1] at hnone
          exact absurd hnone nofun
        · intro fuel out ho t ht
          obtain ⟨hused, hend⟩ := hout fuel out ho
          obtain rfl := Option.some.inj (hused.symm.trans ht)
          exact ⟨hend.le, hend.ret⟩

/-! ## Calls one after the other -/

theorem Equations.grown (h : Equations s p b m) (hg : Grown s s') (hle : s'.count ≤ s.entryCount) :
    Equations s' p b m := by
  have htot := h.totPages
  have hcount := h.count
  have hentry := h.entryCount
  have hsum := hg.totPages
  have hmore := hg.le
  constructor
  · omega
  · omega
  · exact h.balloon
  · rw [hg.entryCount]
    exact hentry
  · omega
  · rw [hg.entryCount]
    exact h.entryInt
  · exact h.maxUint
  · rw [hg.maxPages]
    exact h.maxPages

theorem Retargets.equations (hdone : Retargets w target (if s.isDying then none else s.wanted p target) s)
    (h : Equations s p b m) {out : Outcome} (hrun : s.setMemTarget w target fuel = some out) :
    Equations out.state p b m := by
  have hgrown := hdone.grown fuel out hrun
  have hused := hdone.used fuel out hrun
  cases hout : out.used with
  | none =>
      rw [(hdone.idle fuel out hrun hout).2]
      exact h
  | some t =>
      have hle := (hdone.stops fuel out hrun t hout).1
      apply h.grown hgrown
      -- the target is not above the entries that wait for a page
      rw [hout] at hused
      by_cases hdying : s.isDying = true
      · rw [if_pos hdying] at hused
        exact absurd hused nofun
      · rw [if_neg hdying] at hused
        unfold wanted at hused
        by_cases hw : 0 < s.entryCount ∧ s.totPages ≤ target
        · rw [if_pos hw] at hused
          have ht := Option.some.inj hused
          omega
        · rw [if_neg hw] at hused
          exact absurd hused nofun

/-- Wherever the counts fulfil the equations and the difference between the target and what is
populated fits 32 bits, a call does what it is for, and they fulfil them after it. A domain that is
torn down is left alone. -/
theorem setMemTarget_retargets (h : Equations s p b m) (hfit : target < p + 2 ^ 32) :
    Retargets w target (if s.isDying then none else s.wanted p target) s ∧
      ∀ fuel out, s.setMemTarget w target fuel = some out → Equations out.state p b m := by
  have hdone := @retargets_of_fits s w target p b m h hfit
  refine ⟨hdone, ?_⟩
  intro fuel out hrun
  exact hdone.equations h hrun

/-- `XENMEM_set_pod_target`, which is also what a call that was stopped is started with again. -/
def setPodTarget (w : Surroundings) (targetPages fuel : ℕ) (s : PodDomain) : Option Outcome :=
  if targetPages > s.maxPages then some ⟨.EINVAL, none, s⟩ else s.setMemTarget w targetPages fuel

theorem setPodTarget_keeps (h : Equations s p b m) {out : Outcome} (hrun : s.setPodTarget w target fuel = some out) :
    Equations out.state p b m ∧ Grown s out.state := by
  unfold setPodTarget at hrun
  by_cases hmax : target > s.maxPages
  · rw [if_pos hmax] at hrun
    obtain rfl := Option.some.inj hrun
    exact ⟨h, Grown.refl s⟩
  · rw [if_neg hmax] at hrun
    have hpages := h.maxPages
    have hdone := @retargets_of_fits s w target p b m h (by omega)
    exact ⟨hdone.equations h hrun, hdone.grown fuel out hrun⟩

/-- Calls with any targets, each with its own surroundings. -/
def setPodTargets (fuel : ℕ) : List (Surroundings × ℕ) → PodDomain → Option PodDomain
  | [], s => some s
  | (w, targetPages) :: calls, s =>
      match s.setPodTarget w targetPages fuel with
      | none => none
      | some out => setPodTargets fuel calls out.state

/-- A call ends: the loop turns once for each page at most, and the target is an `int`. -/
theorem setPodTarget_ends (w : Surroundings) (target : ℕ) (h : Equations s p b m) :
    ∃ out, s.setPodTarget w target (2 ^ 31) = some out := by
  have hold := h.oldTarget
  have hcount := h.count
  have hentry := h.entryCount
  have htot := h.totPages
  have hint := h.entryInt
  have hballoon := h.balloon
  have hmax := h.maxUint
  have hpages := h.maxPages
  unfold setPodTarget setMemTarget
  split_ifs with hhigh hzero hdying hlow
  · exact ⟨_, rfl⟩
  · exact ⟨_, rfl⟩
  · exact ⟨_, rfl⟩
  · exact ⟨_, rfl⟩
  · have htarget := h.podTarget (Nat.le_of_not_lt hlow) (by omega)
    obtain ⟨r, hr⟩ := (@setCacheTarget_spec s w (s.podTarget target) (2 ^ 31) (by omega) hcount (by omega)
      (by omega)).2 (by omega)
    rw [hr]
    exact ⟨_, rfl⟩

/-- All calls end, the equations hold after them, and the cache has only grown. -/
theorem setPodTargets_keeps (calls : List (Surroundings × ℕ)) (h : Equations s p b m) :
    ∃ s', setPodTargets (2 ^ 31) calls s = some s' ∧ Equations s' p b m ∧ Grown s s' := by
  induction calls generalizing s with
  | nil => exact ⟨s, rfl, h, Grown.refl s⟩
  | cons call calls ih =>
      obtain ⟨w, targetPages⟩ := call
      obtain ⟨out, hcall⟩ := setPodTarget_ends w targetPages h
      obtain ⟨heq, hgrown⟩ := setPodTarget_keeps h hcall
      obtain ⟨s', hrun, heq', hgrown'⟩ := ih heq
      refine ⟨s', ?_, heq', hgrown.trans hgrown'⟩
      rw [setPodTargets, hcall]
      exact hrun

/-! ## A domain that is torn down -/

/-- A domain of 4 frames with a balloon over none of them; 2 are populated, and nothing is in the
cache. -/
def halfPopulated (isDying : Bool) : PodDomain where
  hapEnabled := true
  hap1gb := false
  hap2mb := true
  mfnValid := fun mfn => decide (mfn < 1024)
  owner := fun mfn => if mfn < 2 then .self else .other
  p2m := fun gfn => if gfn < 2 then ⟨gfn, .ramRw⟩ else if gfn < 4 then ⟨invalidMfn, .populateOnDemand⟩ else .unmapped
  m2p := fun mfn => if mfn < 2 then mfn else invalidM2pEntry
  entryCount := 2
  crashed := false
  bug := false
  count := 0
  super := []
  single := []
  isDying := isDying
  getPage := fun _ => true
  debug := true
  totPages := 2
  maxPages := 4
  held := fun _ => false
  allocs := 0
  checks := 0

theorem equations_halfPopulated (isDying : Bool) : Equations (halfPopulated isDying) 2 4 4 := by
  constructor <;> cases isDying <;> decide

/-- There is always memory, and never something else to do. -/
def plenty : Surroundings := ⟨fun n => some (n + 1), fun _ => false⟩

theorem setMemTarget_retargets_halfPopulated : Retargets plenty 3 (some 1) (halfPopulated false) ∧
    ∀ fuel out, (halfPopulated false).setMemTarget plenty 3 fuel = some out → Equations out.state 2 4 4 :=
  setMemTarget_retargets (equations_halfPopulated false) (by decide)

theorem setPodTargets_keeps_twice : ∃ s', setPodTargets (2 ^ 31) [(plenty, 3), (plenty, 4)] (halfPopulated false) = some s' ∧
    Equations s' 2 4 4 ∧ Grown (halfPopulated false) s' :=
  setPodTargets_keeps _ (equations_halfPopulated false)

/-- A domain that is torn down gets no page for its cache. -/
theorem setMemTarget_dying : Equations (halfPopulated true) 2 4 4 ∧
    ∀ w, ¬Retargets w 3 ((halfPopulated true).wanted 2 3) (halfPopulated true) := by
  refine ⟨equations_halfPopulated true, ?_⟩
  intro w h
  have hused : (none : Option ℕ) = some 1 := h.used 0 ⟨.ok, none, halfPopulated true⟩ rfl
  exact absurd hused nofun

end PodDomain

end P2m
