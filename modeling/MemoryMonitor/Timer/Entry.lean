import MemoryMonitor.Timer.Place

/-!
# Entries, and what is kept about them

`removeEntry_spec` and `addEntry_spec` say what the two functions do that everything
else is made of. `Safe` is the invariant of the timers; `p` is where they are, as in
`Stores`. Its part about the softirq is that no timer comes before the deadline
without `TIMER_SOFTIRQ` being raised: a timer that is added and does not come first
in its container finds one there that comes before it, and that one is announced.
-/

namespace Timer

/-- In a heap or in a list. -/
def Kind.Active (k : Kind) : Prop := k ≠ .inactive

/-- The number of active timers. -/
def Timers.load (ts : Timers) : Nat := ts.heap.size + ts.list.length

variable {w : World} {p : Place} {c : Nat} {t : Tid}

theorem removeEntry_spec {k : Kind} (h : Stores w p) (hc : w.cpu t = some c)
    (hs : w.status t = k.status) (hk : k.Active) (ht : p t = some (c, k)) :
    ∃ rc ts off, removeEntry t w = some (rc, (w.replace c ts off).setStatus t .invalid) ∧
      Stores (w.replace c ts off) (Function.update p t none) ∧
      ts.heap.limit = (w.ts c).heap.limit ∧ ts.load + 1 = (w.ts c).load := by
  unfold removeEntry
  rw [hc, hs]
  cases k with
  | heap =>
    have hm : Heap.Mem (w.ts c).heap t := ((h c).heap_mem t).mpr ht
    have hr := Heap.removeFromHeap_removed (h c).heap hm
    refine ⟨_, _, _, rfl, h.removeFromHeap ht, hr.limit, ?_⟩
    show (Heap.removeFromHeap _ _ _).2.1.size + (w.ts c).list.length + 1
      = (w.ts c).heap.size + (w.ts c).list.length
    rw [← hr.size]
    omega
  | list =>
    have hm : t ∈ (w.ts c).list := ((h c).list_mem t).mpr ht
    dsimp only [Kind.status]
    rw [removeFromList_eq hm]
    refine ⟨_, _, w.heapOffset, rfl, h.eraseList ht, rfl, ?_⟩
    have hlen := List.length_erase_of_mem hm
    have hpos := List.length_pos_of_mem hm
    unfold Timers.load
    dsimp only
    omega
  | inactive => exact absurd rfl hk

theorem World.setHeap_setList (off : Tid → Nat) (l : List Tid) :
    (w.setHeap c ((w.ts c).heap, off)).setList c l
      = w.replace c { w.ts c with list := l } off := by
  simp [World.setHeap, World.setList, World.setTs, World.replace]

theorem addEntry_spec (h : Stores w p) (hc : w.cpu t = some c) (ht : p t = none) :
    ∃ rc ts off k, addEntry t w = some (rc, (w.replace c ts off).setStatus t k.status) ∧
      k.Active ∧ Stores (w.replace c ts off) (Function.update p t (some (c, k))) ∧
      ts.heap.limit = (w.ts c).heap.limit ∧
      (rc = false → ∃ x k', p x = some (c, k') ∧ k'.Active ∧ w.expires x ≤ w.expires t) := by
  have hnot : ¬Heap.Mem (w.ts c).heap t := by
    rw [(h c).heap_mem, ht]
    nofun
  -- the offset of the timer itself is not looked at
  have hok : Heap.Ok w.expires ((w.ts c).heap, Function.update w.heapOffset t 0) := by
    refine (h c).heap.congr (fun _ _ => rfl) fun x hx => Function.update_of_ne ?_ ..
    rintro rfl
    exact hnot hx
  have hkeeps : Keeps w.expires (Function.update w.heapOffset t 0) p c (w.ts c) :=
    { h c with heap := hok }
  unfold addEntry
  rw [hc]
  dsimp only
  by_cases hfull : (w.ts c).heap.size = (w.ts c).heap.limit
  · rw [Heap.addToHeap_full hfull]
    dsimp only
    have hzero : ¬Function.update w.heapOffset t 0 t ≠ 0 := by simp
    rw [if_neg hzero, World.setHeap_setList]
    refine ⟨_, _, _, .list, rfl, nofun, ?_, rfl, fun hrc => ?_⟩
    · exact h.give ht ((h c).addToList ht 0) fun x hx _ => Function.update_of_ne hx ..
    · rcases firstInList_false hrc with ⟨x, hx, hle⟩
      exact ⟨x, .list, ((h c).list_mem x).mp hx, nofun, hle⟩
  · have ha := Heap.addToHeap_added hok hnot hfull
    have hoff : (Heap.addToHeap w.expires ((w.ts c).heap, Function.update w.heapOffset t 0) t).2.2 t
        ≠ 0 := by
      have := (ha.ok.mem_offset ((ha.mem t).mpr (.inl rfl))).1
      omega
    rw [if_pos hoff]
    refine ⟨_, _, _, .heap, rfl, nofun, ?_, ha.limit, fun hrc => ?_⟩
    · refine h.give ht (hkeeps.addToHeap ht ha) fun x hx hp => ?_
      rw [ha.frame x hx fun hm => hp (((h c).heap_mem x).mp hm)]
      exact Function.update_of_ne hx ..
    · rcases ha.top hrc with ⟨x, hx, hle⟩
      exact ⟨x, .heap, ((h c).heap_mem x).mp hx, nofun, hle⟩

/-! ## The invariant -/

/-- The hardware timer of CPU `c` has been set for a timer that expired no later
than `e`. -/
def Covered (timerSlop : Int) (w : World) (c : Nat) (e : Int) : Prop :=
  ∃ m, IsLeast {x | x ∈ w.lastExpires c} m ∧
    w.timerDeadline c = (if m = stimeMax then 0 else addTime m timerSlop) ∧ m ≤ e

/-- The limits of the heaps, one for each round of growing: `2^16 - 1` is not
exceeded, as the next limit has 16 bits as well. -/
def Limit (n : Nat) : Prop := n = 0 ∨ n = 15 ∨ n = 255 ∨ n = 4095 ∨ n = 65535

theorem World.limit_replace {ts : Timers} (off : Tid → Nat)
    (hlimit : ts.heap.limit = (w.ts c).heap.limit) (d : Nat) :
    ((w.replace c ts off).ts d).heap.limit = (w.ts d).heap.limit := by
  show (Function.update w.ts c ts d).heap.limit = (w.ts d).heap.limit
  by_cases hd : d = c
  · subst hd
    rw [Function.update_self]
    exact hlimit
  · rw [Function.update_of_ne hd]

/-- `R` is what is known of every expiry that is ever set. -/
structure Safe (R : Int → Prop) (timerSlop : Int) (w : World) (p : Place) : Prop where
  stores : Stores w p
  limit : ∀ c, Limit (w.ts c).heap.limit
  /-- Only its own softirq replaces the heap of a CPU. -/
  growing : ∀ c n, w.softirq c = some (.grow n) → (w.ts c).heap.limit = n
  announced : ∀ c, w.raised c = true ∨
    ∀ t k, p t = some (c, k) → k.Active → Covered timerSlop w c (w.expires t)
  expires : ∀ t, R (w.expires t)
  lastExpires : ∀ c, ∀ e ∈ w.lastExpires c, R e

namespace Safe

variable {R : Int → Prop} {timerSlop : Int}

theorem setStatus (h : Safe R timerSlop w p) (t : Tid) (s : Status) :
    Safe R timerSlop (w.setStatus t s) p :=
  ⟨h.stores, h.limit, h.growing, h.announced, h.expires, h.lastExpires⟩

theorem setCpu (h : Safe R timerSlop w p) (t : Tid) (c : Option Nat) :
    Safe R timerSlop (w.setCpu t c) p :=
  ⟨h.stores, h.limit, h.growing, h.announced, h.expires, h.lastExpires⟩

theorem raiseIf (h : Safe R timerSlop w p) (c : Nat) (b : Bool) :
    Safe R timerSlop (w.raiseIf c b) p := by
  refine ⟨h.stores, h.limit, h.growing, fun d => ?_, h.expires, h.lastExpires⟩
  rcases h.announced d with hr | hr
  · refine .inl ?_
    show Function.update w.raised c (w.raised c || b) d = true
    by_cases hd : d = c
    · subst hd
      simp [hr]
    · simpa [hd] using hr
  · exact .inr hr

/-- CPU `c` has lost timers, or has timers in other places. -/
theorem replace {p' : Place} {ts : Timers} {off : Tid → Nat} (h : Safe R timerSlop w p)
    (hs : Stores (w.replace c ts off) p') (hlimit : ts.heap.limit = (w.ts c).heap.limit)
    (hp : ∀ x d k, p' x = some (d, k) → k.Active → ∃ k', p x = some (d, k') ∧ k'.Active) :
    Safe R timerSlop (w.replace c ts off) p' := by
  have hd := World.limit_replace off hlimit
  refine ⟨hs, fun d => by rw [hd]; exact h.limit d, fun d n hn => by rw [hd]; exact h.growing d n hn,
    fun d => ?_, h.expires, h.lastExpires⟩
  refine (h.announced d).imp_right fun hcov x k hx hk => ?_
  rcases hp x d k hx hk with ⟨k', hx', hk'⟩
  exact hcov x k' hx' hk'

theorem update_none {x : Tid} {d : Nat} {k : Kind}
    (hx : Function.update p t none x = some (d, k)) (hk : k.Active) :
    ∃ k', p x = some (d, k') ∧ k'.Active :=
  ⟨k, (update_none_iff.mp hx).1, hk⟩

theorem update_inactive {x : Tid} {d : Nat} {k : Kind}
    (hx : Function.update p t (some (c, .inactive)) x = some (d, k)) (hk : k.Active) :
    ∃ k', p x = some (d, k') ∧ k'.Active := by
  by_cases hxt : x = t
  · subst hxt
    rw [Function.update_self] at hx
    injection hx with hx
    injection hx with _ hx
    exact absurd hx.symm hk
  · rw [Function.update_of_ne hxt] at hx
    exact ⟨k, hx, hk⟩

theorem addInactive (h : Safe R timerSlop w p) (c : Nat) (ht : p t = none) :
    Safe R timerSlop (w.addInactive c t) (Function.update p t (some (c, .inactive))) :=
  h.replace (h.stores.addInactive ht) rfl fun _ _ _ => update_inactive

theorem delInactive (h : Safe R timerSlop w p) (ht : p t = some (c, .inactive)) :
    Safe R timerSlop (w.delInactive c t) (Function.update p t none) :=
  h.replace (h.stores.delInactive ht) rfl fun _ _ _ => update_none

theorem removeEntry {k : Kind} (h : Safe R timerSlop w p) (hc : w.cpu t = some c)
    (hs : w.status t = k.status) (hk : k.Active) (ht : p t = some (c, k)) :
    ∃ rc ts off, removeEntry t w = some (rc, (w.replace c ts off).setStatus t .invalid) ∧
      Safe R timerSlop (w.replace c ts off) (Function.update p t none) := by
  rcases removeEntry_spec h.stores hc hs hk ht with ⟨rc, ts, off, he, hst, hlimit, -⟩
  exact ⟨rc, ts, off, he, h.replace hst hlimit fun _ _ _ => update_none⟩

/-- A timer that comes after a covered one is covered. -/
theorem added {rc : Bool} {ts : Timers} {off : Tid → Nat} {k : Kind} (h : Safe R timerSlop w p)
    (ht : p t = none) (hst : Stores (w.replace c ts off) (Function.update p t (some (c, k))))
    (hlimit : ts.heap.limit = (w.ts c).heap.limit)
    (hrc : rc = false → ∃ x k', p x = some (c, k') ∧ k'.Active ∧ w.expires x ≤ w.expires t) :
    Safe R timerSlop ((w.replace c ts off).raiseIf c rc) (Function.update p t (some (c, k))) := by
  have hd := World.limit_replace off hlimit
  refine ⟨hst, fun d => ?_, fun d n hn => ?_, fun d => ?_, h.expires, h.lastExpires⟩
  · show Limit ((w.replace c ts off).ts d).heap.limit
    rw [hd]
    exact h.limit d
  · show ((w.replace c ts off).ts d).heap.limit = n
    rw [hd]
    exact h.growing d n hn
  show Function.update w.raised c (w.raised c || rc) d = true ∨ _
  by_cases hd : d = c
  · subst hd
    rw [Function.update_self]
    cases rc with
    | true => exact .inl (Bool.or_true _)
    | false =>
      rw [Bool.or_false]
      refine (h.announced d).imp_right fun hcov x k' hx hk' => ?_
      rcases (update_some_iff ht).mp hx with ⟨rfl, -⟩ | hx
      · -- there is a timer that comes before it
        rcases hrc rfl with ⟨y, ky, hy, hky, hle⟩
        rcases hcov y ky hy hky with ⟨m, hm, hdl, hme⟩
        exact ⟨m, hm, hdl, hme.trans hle⟩
      · exact hcov x k' hx hk'
  · rw [Function.update_of_ne hd]
    refine (h.announced d).imp_right fun hcov x k' hx hk' => ?_
    rcases (update_some_iff ht).mp hx with ⟨-, he⟩ | hx
    · injection he with he
      exact absurd he.symm hd
    · exact hcov x k' hx hk'

theorem addEntry (h : Safe R timerSlop w p) (hc : w.cpu t = some c) (ht : p t = none) :
    ∃ rc ts off k, addEntry t w = some (rc, (w.replace c ts off).setStatus t k.status) ∧
      Safe R timerSlop ((w.replace c ts off).raiseIf c rc) (Function.update p t (some (c, k))) := by
  rcases addEntry_spec h.stores hc ht with ⟨rc, ts, off, k, he, -, hst, hlimit, hrc⟩
  exact ⟨rc, ts, off, k, he, h.added ht hst hlimit hrc⟩

/-- A timer that is not active gets another expiry. -/
theorem setExpires {e : Int} (h : Safe R timerSlop w p)
    (ht : ∀ d k, p t = some (d, k) → k = .inactive) (he : R e) :
    Safe R timerSlop { w with expires := Function.update w.expires t e } p := by
  have hother {x : Tid} (hx : x ≠ t) : Function.update w.expires t e x = w.expires x :=
    Function.update_of_ne hx ..
  refine ⟨h.stores.setExpires ht (fun x => hother) fun _ _ => rfl, h.limit, h.growing,
    fun d => ?_, fun x => ?_, h.lastExpires⟩
  · refine (h.announced d).imp_right fun hcov x k hx hk => ?_
    have hxt : x ≠ t := by
      rintro rfl
      exact hk (ht d k hx)
    show Covered timerSlop w d (Function.update w.expires t e x)
    rw [hother hxt]
    exact hcov x k hx hk
  · show R (Function.update w.expires t e x)
    by_cases hx : x = t
    · subst hx
      rw [Function.update_self]
      exact he
    · rw [hother hx]
      exact h.expires x

end Safe

/-- `Safe` between the operations, when each timer is where its fields say. -/
structure Inv (R : Int → Prop) (timerSlop : Int) (w : World) : Prop where
  safe : Safe R timerSlop w w.place
  settled : ∀ t c, w.cpu t = some c → ∃ k : Kind, w.status t = k.status

section Inv

variable {R : Int → Prop} {timerSlop : Int} {w' : World}

theorem World.place_update (hcpu : ∀ x ≠ t, w'.cpu x = w.cpu x)
    (hst : ∀ x ≠ t, w'.status x = w.status x) :
    w'.place = Function.update w.place t (w'.place t) := by
  funext x
  by_cases hx : x = t
  · subst hx
    rw [Function.update_self]
  · rw [Function.update_of_ne hx]
    unfold World.place
    rw [hcpu x hx, hst x hx]

/-- The fields of `t` agree with its new place. -/
theorem Inv.of_update {k : Kind} (h : Inv R timerSlop w) (hcpu : ∀ x ≠ t, w'.cpu x = w.cpu x)
    (hst : ∀ x ≠ t, w'.status x = w.status x) (hc : w'.cpu t = some c)
    (hs : w'.status t = k.status)
    (hsafe : Safe R timerSlop w' (Function.update w.place t (some (c, k)))) :
    Inv R timerSlop w' := by
  constructor
  · rw [World.place_update hcpu hst, World.place_eq_some.mpr ⟨hc, hs⟩]
    exact hsafe
  · intro x d hx
    by_cases hxt : x = t
    · subst hxt
      exact ⟨k, hs⟩
    · rw [hst x hxt]
      rw [hcpu x hxt] at hx
      exact h.settled x d hx

end Inv

end Timer
