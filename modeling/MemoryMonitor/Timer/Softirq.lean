import MemoryMonitor.Timer.Ops

/-!
# `timer_softirq_action` and CPU removal keep the invariant

While the list is moved to the heap its timers are in no container; `hide` takes
them out of `p`. At the end every active timer of the CPU comes no earlier than the
deadline, whatever was announced before.
-/

namespace Timer

variable {R : Int → Prop} {timerSlop : Int} {w : World} {p : Place} {c : Nat} {t : Tid}

/-! ## Callbacks -/

theorem Stores.setTs {f : Timers → Timers} (h : Stores w p)
    (hf : Keeps w.expires w.heapOffset p c (f (w.ts c))) : Stores (w.setTs c f) p := by
  intro d
  show Keeps w.expires w.heapOffset p d (Function.update w.ts c (f (w.ts c)) d)
  by_cases hd : d = c
  · subst hd
    rw [Function.update_self]
    exact hf
  · rw [Function.update_of_ne hd]
    exact h d

theorem Safe.setTs {f : Timers → Timers} (h : Safe R timerSlop w p)
    (hf : Keeps w.expires w.heapOffset p c (f (w.ts c))) (hlimit : Limit (f (w.ts c)).heap.limit)
    (hgrow : ∀ n, w.softirq c = some (.grow n) → (f (w.ts c)).heap.limit = n) :
    Safe R timerSlop (w.setTs c f) p := by
  refine ⟨h.stores.setTs hf, fun d => ?_, fun d n hn => ?_, h.announced, h.expires, h.lastExpires⟩
  · show Limit (Function.update w.ts c (f (w.ts c)) d).heap.limit
    by_cases hd : d = c
    · subst hd
      rw [Function.update_self]
      exact hlimit
    · rw [Function.update_of_ne hd]
      exact h.limit d
  · show (Function.update w.ts c (f (w.ts c)) d).heap.limit = n
    by_cases hd : d = c
    · subst hd
      rw [Function.update_self]
      exact hgrow n hn
    · rw [Function.update_of_ne hd]
      exact h.growing d n hn

theorem Safe.setRunning (h : Safe R timerSlop w p) (c : Nat) (r : Option Tid) :
    Safe R timerSlop (w.setTs c fun ts => { ts with running := r }) p :=
  h.setTs { h.stores c with } (h.limit c) (h.growing c)

theorem Safe.setSoftirq (h : Safe R timerSlop w p) (ph : Option Phase)
    (hph : ∀ n, ph = some (.grow n) → (w.ts c).heap.limit = n) :
    Safe R timerSlop (w.setSoftirq c ph) p := by
  refine ⟨h.stores, h.limit, fun d n hn => ?_, h.announced, h.expires, h.lastExpires⟩
  change Function.update w.softirq c ph d = some (.grow n) at hn
  by_cases hd : d = c
  · subst hd
    rw [Function.update_self] at hn
    exact hph n hn
  · rw [Function.update_of_ne hd] at hn
    exact h.growing d n hn

theorem Inv.executeTimer {w₁ : World} {ph : Phase} (h : Inv R timerSlop w)
    (hsafe : Safe R timerSlop w₁ (Function.update w.place t none)) (hcpu : w₁.cpu = w.cpu)
    (hst : w₁.status = w.status) (hc : w.cpu t = some c) (hph : ∀ n, ph ≠ .grow n) :
    Inv R timerSlop ((executeTimer c t w₁).setSoftirq c (some ph)) := by
  have hsafe' := (hsafe.setStatus t .inactive).addInactive c (Function.update_self ..)
  rw [Function.update_idem] at hsafe'
  have hsafe'' := (hsafe'.setRunning c (some t)).setSoftirq (c := c) (some ph) fun n hn => by
    injection hn with hn
    exact absurd hn (hph n)
  refine h.of_update (k := .inactive) (fun x _ => congrFun hcpu x) (fun x hx => ?_) ?_
    (Function.update_self ..) hsafe''
  · show Function.update w₁.status t .inactive x = w.status x
    rw [Function.update_of_ne hx, hst]
  · show w₁.cpu t = some c
    rw [hcpu]
    exact hc

/-! ## Growing -/

theorem Limit.newLimit {n : Nat} (h : Limit n) :
    n ≤ newLimit n % 2 ^ 16 ∧ Limit (newLimit n % 2 ^ 16) := by
  rcases h with rfl | rfl | rfl | rfl | rfl <;> simp [Timer.newLimit, Limit]

/-- The slots in use are copied. -/
theorem Keeps.grow {e : Tid → Int} {off : Tid → Nat} {ts : Timers} (h : Keeps e off p c ts)
    (hlimit : Limit ts.heap.limit) :
    Keeps e off p c { ts with heap := ts.heap.grow ts.heap.limit } := by
  have hsize := h.heap.size_le
  have hslot {i : Nat} (hi : i ≤ ts.heap.size) : (ts.heap.grow ts.heap.limit).slot i = ts.heap.slot i :=
    if_pos (hi.trans hsize)
  refine { h with heap := ⟨?_, ?_, ?_, ?_, ?_⟩, heap_mem := fun t => ?_ }
  · intro i hi hin
    show e ((ts.heap.grow ts.heap.limit).slot (i / 2)) ≤ e ((ts.heap.grow ts.heap.limit).slot i)
    change i ≤ ts.heap.size at hin
    rw [hslot (by omega), hslot hin]
    exact h.heap.ordered i hi hin
  · intro i hi hin
    show off ((ts.heap.grow ts.heap.limit).slot i) = i
    rw [hslot hin]
    exact h.heap.indexed i hi hin
  · exact hsize.trans hlimit.newLimit.1
  · exact Nat.lt_succ_of_le (Nat.mod_le ..)
  · exact Nat.mod_lt _ (by decide)
  · rw [← h.heap_mem t]
    constructor
    · rintro ⟨i, hi, hin, rfl⟩
      exact ⟨i, hi, hin, (hslot hin).symm⟩
    · rintro ⟨i, hi, hin, rfl⟩
      exact ⟨i, hi, hin, hslot hin⟩

theorem Inv.grow {n : Nat} (h : Inv R timerSlop w) (hn : w.softirq c = some (.grow n)) :
    Inv R timerSlop ((w.setTs c fun ts => { ts with heap := ts.heap.grow n }).setSoftirq c
      (some .ready)) := by
  have hlimit := h.safe.growing c n hn
  have hready := h.safe.setSoftirq (c := c) (some .ready) nofun
  refine ⟨?_, h.settled⟩
  refine hready.setTs (c := c) (f := fun ts => { ts with heap := ts.heap.grow n }) ?_ ?_ ?_
  · rw [← hlimit]
    exact (h.safe.stores c).grow (h.safe.limit c)
  · rw [← hlimit]
    exact (h.safe.limit c).newLimit.2
  · intro m hm
    rw [show (w.setSoftirq c (some .ready)).softirq c = _ from Function.update_self ..] at hm
    nomatch hm

/-! ## From the list to the heap -/

/-- The timers of `l` are nowhere. -/
def hide (l : List Tid) (p : Place) : Place := fun x => if x ∈ l then none else p x

theorem hide_eq_some {l : List Tid} {x : Tid} {a : Nat × Kind} :
    hide l p x = some a ↔ x ∉ l ∧ p x = some a := by
  unfold hide
  by_cases hx : x ∈ l <;> simp [hx]

theorem Stores.clearList (h : Stores w p) :
    Stores (w.setList c []) (hide (w.ts c).list p) := by
  intro d
  show Keeps w.expires w.heapOffset _ d (Function.update w.ts c { w.ts c with list := [] } d)
  have hl (x : Tid) : x ∈ (w.ts c).list ↔ p x = some (c, .list) := (h c).list_mem x
  by_cases hd : d = c
  · subst hd
    rw [Function.update_self]
    have hk := h d
    refine ⟨hk.heap, fun x => ?_, .nil, .nil, fun x => ?_, hk.inactive_nodup, fun x => ?_⟩
    · rw [hk.heap_mem, hide_eq_some, hl]
      refine (and_iff_right_of_imp fun hx => ?_).symm
      rw [hx]
      simp
    · rw [hide_eq_some, hl]
      exact iff_of_false (by simp) fun hx => hx.1 hx.2
    · rw [hk.inactive_mem, hide_eq_some, hl]
      refine (and_iff_right_of_imp fun hx => ?_).symm
      rw [hx]
      simp
  · rw [Function.update_of_ne hd]
    refine (h d).congr (fun x k => ?_) (fun _ _ _ _ => rfl) fun _ _ => rfl
    rw [hide_eq_some, hl]
    refine and_iff_right_of_imp fun hx => ?_
    rw [hx]
    simp [hd]

/-- Only the containers and the status of timers have changed. -/
structure Quiet (w w' : World) : Prop where
  expires : w'.expires = w.expires
  cpu : w'.cpu = w.cpu
  softirq : w'.softirq = w.softirq
  raised : w'.raised = w.raised
  timerDeadline : w'.timerDeadline = w.timerDeadline
  lastExpires : w'.lastExpires = w.lastExpires
  limit : ∀ c, (w'.ts c).heap.limit = (w.ts c).heap.limit

theorem Quiet.trans {w₁ w₂ w₃ : World} (h : Quiet w₁ w₂) (h' : Quiet w₂ w₃) : Quiet w₁ w₃ :=
  ⟨h'.expires.trans h.expires, h'.cpu.trans h.cpu, h'.softirq.trans h.softirq,
    h'.raised.trans h.raised, h'.timerDeadline.trans h.timerDeadline,
    h'.lastExpires.trans h.lastExpires, fun c => (h'.limit c).trans (h.limit c)⟩

theorem moveList_spec {l : List Tid} (hl : l.Nodup) (hc : ∀ x ∈ l, w.cpu x = some c)
    (h : Stores w (hide l w.place)) :
    ∃ w', moveList l w = some w' ∧ Stores w' w'.place ∧ Quiet w w' ∧
      (∀ x ∉ l, w'.status x = w.status x) ∧
      ∀ x ∈ l, ∃ k : Kind, k.Active ∧ w'.status x = k.status := by
  induction l generalizing w with
  | nil =>
    refine ⟨w, rfl, ?_, ⟨rfl, rfl, rfl, rfl, rfl, rfl, fun _ => rfl⟩, fun _ _ => rfl, nofun⟩
    have hnil : hide [] w.place = w.place := funext fun x => if_neg List.not_mem_nil
    rw [← hnil]
    exact h
  | cons t rest ih =>
    rcases List.nodup_cons.mp hl with ⟨ht, hrest⟩
    have hct := hc t List.mem_cons_self
    have hnone : hide (t :: rest) w.place t = none := if_pos List.mem_cons_self
    have h₀ : Stores (w.setStatus t .invalid) (hide (t :: rest) w.place) := h
    rcases addEntry_spec h₀ hct hnone with ⟨rc, ts, off, k, he, hk, hst, hlimit, -⟩
    unfold moveList
    rw [he]
    dsimp only
    generalize hw₁ : ((w.setStatus t .invalid).replace c ts off).setStatus t k.status = w₁
    -- the timer is where its fields say, the rest is still to come
    have hquiet : Quiet w w₁ := by
      subst hw₁
      exact ⟨rfl, rfl, rfl, rfl, rfl, rfl, World.limit_replace (w := w) off hlimit⟩
    have hstatus : ∀ x ≠ t, w₁.status x = w.status x := by
      subst hw₁
      intro x hx
      show Function.update (Function.update w.status t _) t _ x = _
      rw [Function.update_of_ne hx, Function.update_of_ne hx]
    have htk : w₁.status t = k.status := by
      subst hw₁
      exact Function.update_self ..
    have hplace : hide rest w₁.place
        = Function.update (hide (t :: rest) w.place) t (some (c, k)) := by
      funext x
      by_cases hx : x = t
      · subst hx
        rw [Function.update_self]
        refine (if_neg ht).trans (World.place_eq_some.mpr ⟨?_, htk⟩)
        rw [hquiet.cpu]
        exact hct
      · rw [Function.update_of_ne hx]
        unfold hide World.place
        rw [hquiet.cpu, hstatus x hx]
        simp [hx]
    have hst₁ : Stores w₁ (hide rest w₁.place) := by
      rw [hplace]
      subst hw₁
      exact hst
    rcases ih hrest (fun x hx => by
      rw [hquiet.cpu]
      exact hc x (List.mem_cons_of_mem _ hx)) hst₁ with ⟨w₂, he₂, hst₂, hq₂, hout, hin⟩
    refine ⟨w₂, he₂, hst₂, hquiet.trans hq₂, fun x hx => ?_, fun x hx => ?_⟩
    · rw [hout x fun hm => hx (List.mem_cons_of_mem _ hm)]
      exact hstatus x (List.ne_of_not_mem_cons hx)
    · rcases List.mem_cons.mp hx with rfl | hx
      · exact ⟨k, hk, (hout x ht).trans htk⟩
      · exact hin x hx

/-! ## The deadline -/

theorem mem_activeExpires {e : Int} (h : Stores w p) :
    e ∈ w.activeExpires c ↔ ∃ x k, p x = some (c, k) ∧ k.Active ∧ w.expires x = e := by
  unfold World.activeExpires
  simp only [List.mem_append, List.mem_map, List.mem_range'_1]
  constructor
  · rintro (⟨i, ⟨hi, hin⟩, he⟩ | ⟨x, hx, he⟩)
    · exact ⟨_, .heap, ((h c).heap_mem _).mp ⟨i, hi, by omega, rfl⟩, nofun, he⟩
    · exact ⟨x, .list, ((h c).list_mem x).mp hx, nofun, he⟩
  · rintro ⟨x, k, hx, hk, he⟩
    cases k with
    | heap =>
      rcases ((h c).heap_mem x).mpr hx with ⟨i, hi, hin, rfl⟩
      exact .inl ⟨i, ⟨hi, by omega⟩, he⟩
    | list => exact .inr ⟨x, ((h c).list_mem x).mpr hx, he⟩
    | inactive => exact absurd rfl hk

/-- No active timer comes before the deadline. -/
theorem earliest_le {k : Kind} (h : Stores w p) (ht : p t = some (c, k)) (hk : k.Active) :
    earliest w c ≤ w.expires t := by
  unfold earliest
  dsimp only
  cases k with
  | heap =>
    have hm := ((h c).heap_mem t).mpr ht
    have hroot := (h c).heap.ordered.root_le_of_mem hm
    rcases hm with ⟨i, hi, hin, -⟩
    have hne : (w.ts c).heap.size ≠ 0 := by omega
    rw [if_pos hne]
    split
    · exact hroot
    · split
      · next hlt => exact hlt.le.trans hroot
      · exact hroot
  | list =>
    have hm := ((h c).list_mem t).mpr ht
    have hsorted := (h c).sorted
    cases hl : (w.ts c).list with
    | nil =>
      rw [hl] at hm
      nomatch hm
    | cons x rest =>
      rw [hl] at hm hsorted
      have hle : w.expires x ≤ w.expires t := by
        rcases List.mem_cons.mp hm with rfl | hm
        · exact le_rfl
        · exact (List.pairwise_cons.mp hsorted).1 t hm
      dsimp only
      generalize (if (w.ts c).heap.size ≠ 0 then w.expires ((w.ts c).heap.slot 1) else stimeMax) = d
      split
      · exact hle
      · next hge => exact (not_lt.mp hge).trans hle
  | inactive => exact absurd rfl hk

/-- The deadline is that of an active timer. -/
theorem earliest_mem {k : Kind} (h : Stores w p) (ht : p t = some (c, k)) (hk : k.Active)
    (hmax : ∀ x, w.expires x ≤ stimeMax) : earliest w c ∈ w.activeExpires c := by
  have hslot (hne : (w.ts c).heap.size ≠ 0) :
      w.expires ((w.ts c).heap.slot 1) ∈ w.activeExpires c :=
    List.mem_append_left _ (List.mem_map.mpr ⟨1, List.mem_range'_1.mpr ⟨le_rfl, by omega⟩, rfl⟩)
  have hlist {x : Tid} (hx : x ∈ (w.ts c).list) : w.expires x ∈ w.activeExpires c :=
    List.mem_append_right _ (List.mem_map.mpr ⟨x, hx, rfl⟩)
  have hsome : (w.ts c).heap.size ≠ 0 ∨ (w.ts c).list ≠ [] := by
    cases k with
    | heap =>
      rcases ((h c).heap_mem t).mpr ht with ⟨i, hi, hin, -⟩
      exact .inl (by omega)
    | list => exact .inr (List.ne_nil_of_mem (((h c).list_mem t).mpr ht))
    | inactive => exact absurd rfl hk
  unfold earliest
  dsimp only
  cases hl : (w.ts c).list with
  | nil =>
    have hne : (w.ts c).heap.size ≠ 0 := hsome.resolve_right fun hn => hn hl
    rw [if_pos hne]
    exact hslot hne
  | cons x rest =>
    have hx : w.expires x ∈ w.activeExpires c := hlist (by rw [hl]; exact List.mem_cons_self)
    dsimp only
    by_cases hne : (w.ts c).heap.size ≠ 0
    · rw [if_pos hne]
      split
      · exact hx
      · exact hslot hne
    · -- only the list: its head may be at the last instant there is
      rw [if_neg hne]
      split
      · exact hx
      · next hge =>
        rw [← le_antisymm (hmax x) (not_lt.mp hge)]
        exact hx

/-- At the end of `timer_softirq_action`. -/
theorem finish_inv {reprogrammed : Bool} (h : Inv R timerSlop w) (hR : ∀ e, R e → e ≤ stimeMax) :
    ∃ w', finish timerSlop c reprogrammed w = some w' ∧ Inv R timerSlop w' ∧ w'.cpu = w.cpu := by
  have hst := h.safe.stores
  have hl (x : Tid) : x ∈ (w.ts c).list ↔ w.place x = some (c, .list) := (hst c).list_mem x
  have hcpu {x : Tid} (hx : x ∈ (w.ts c).list) : w.cpu x = some c :=
    (World.place_eq_some.mp ((hl x).mp hx)).1
  rcases moveList_spec (w := w.setList c []) (hst c).list_nodup (fun x => hcpu) hst.clearList with
    ⟨w₁, he, hst₁, hq, hout, hin⟩
  have hlimit : ∀ d, ((w.setList c []).ts d).heap.limit = (w.ts d).heap.limit :=
    World.limit_replace w.heapOffset rfl
  have hq₀ : Quiet w (w.setList c []) := ⟨rfl, rfl, rfl, rfl, rfl, rfl, hlimit⟩
  have hq' : Quiet w w₁ := hq₀.trans hq
  have hexp (x : Tid) : R (w₁.expires x) := by
    rw [hq'.expires]
    exact h.safe.expires x
  unfold finish
  rw [he]
  refine ⟨_, rfl, ⟨⟨hst₁, fun d => ?_, fun d n hn => ?_, fun d => ?_, hexp, fun d e he => ?_⟩,
    fun x d hx => ?_⟩, hq.cpu⟩
  · show Limit (w₁.ts d).heap.limit
    rw [hq'.limit d]
    exact h.safe.limit d
  · show (w₁.ts d).heap.limit = n
    change Function.update w₁.softirq c none d = some (.grow n) at hn
    by_cases hd : d = c
    · subst hd
      rw [Function.update_self] at hn
      nomatch hn
    · rw [Function.update_of_ne hd, hq'.softirq] at hn
      rw [hq'.limit d]
      exact h.safe.growing d n hn
  · by_cases hd : d = c
    · -- the new deadline covers every timer of the CPU
      subst hd
      refine .inr fun x k hx hk => ⟨earliest w₁ d, ?_, Function.update_self .., ?_⟩
      · show IsLeast {e | e ∈ Function.update w₁.lastExpires d (w₁.activeExpires d) d} _
        rw [Function.update_self]
        refine ⟨earliest_mem hst₁ hx hk fun y => hR _ (hexp y), fun e he => ?_⟩
        rcases (mem_activeExpires hst₁).mp he with ⟨y, ky, hy, hky, rfl⟩
        exact earliest_le hst₁ hy hky
      · exact earliest_le hst₁ hx hk
    · -- the other CPUs have their timers as before
      have hcov {e : Int} (he : Covered timerSlop w d e) : Covered timerSlop { w₁ with
          timerDeadline := Function.update w₁.timerDeadline c
            (if earliest w₁ c = stimeMax then 0 else addTime (earliest w₁ c) timerSlop)
          lastExpires := Function.update w₁.lastExpires c (w₁.activeExpires c)
          raised := Function.update w₁.raised c (!reprogrammed)
          softirq := Function.update w₁.softirq c none } d e := by
        unfold Covered
        dsimp only
        rw [Function.update_of_ne hd, Function.update_of_ne hd, hq'.timerDeadline, hq'.lastExpires]
        exact he
      refine (h.safe.announced d).imp (fun hr => ?_) fun hall x k hx hk => ?_
      · show Function.update w₁.raised c (!reprogrammed) d = true
        rw [Function.update_of_ne hd, hq'.raised]
        exact hr
      · refine hcov ?_
        rcases World.place_eq_some.mp hx with ⟨hxc, hxs⟩
        change w₁.cpu x = some d at hxc
        rw [hq'.cpu] at hxc
        have hxl : x ∉ (w.ts c).list := fun hm => by
          rw [hcpu hm] at hxc
          injection hxc with hxc
          exact hd hxc.symm
        show Covered timerSlop w d (w₁.expires x)
        rw [hq'.expires]
        exact hall x k (World.place_eq_some.mpr ⟨hxc, (hout x hxl).symm.trans hxs⟩) hk
  · change e ∈ Function.update w₁.lastExpires c (w₁.activeExpires c) d at he
    by_cases hd : d = c
    · subst hd
      rw [Function.update_self] at he
      rcases (mem_activeExpires hst₁).mp he with ⟨y, -, -, -, rfl⟩
      exact hexp y
    · rw [Function.update_of_ne hd, hq'.lastExpires] at he
      exact h.safe.lastExpires d e he
  · change w₁.cpu x = some d at hx
    show ∃ k : Kind, w₁.status x = k.status
    by_cases hxl : x ∈ (w.ts c).list
    · rcases hin x hxl with ⟨k, -, hk⟩
      exact ⟨k, hk⟩
    · rw [hout x hxl]
      rw [hq'.cpu] at hx
      exact h.settled x d hx

/-! ## The loops of `timer_softirq_action` -/

theorem listTimers_inv {now : Int} {reprogrammed : Bool} (h : Inv R timerSlop w)
    (hR : ∀ e, R e → e ≤ stimeMax) :
    ∃ w', listTimers timerSlop c now reprogrammed w = some w' ∧ Inv R timerSlop w' ∧
      w'.cpu = w.cpu := by
  unfold listTimers
  split
  · exact finish_inv h hR
  · next t rest hl =>
    split
    · have hm : t ∈ (w.ts c).list := by
        rw [hl]
        exact List.mem_cons_self
      have hplace := ((h.safe.stores c).list_mem t).mp hm
      have herase : (w.ts c).list.erase t = rest := by
        rw [hl]
        exact List.erase_cons_head ..
      have hst := h.safe.stores.eraseList hplace
      rw [herase] at hst
      have hsafe : Safe R timerSlop (w.setList c rest) (Function.update w.place t none) :=
        h.safe.replace hst rfl fun _ _ _ => Safe.update_none
      exact ⟨_, rfl, h.executeTimer hsafe rfl rfl (World.place_eq_some.mp hplace).1 nofun, rfl⟩
    · exact finish_inv h hR

theorem heapTimers_inv {now : Int} {reprogrammed : Bool} (h : Inv R timerSlop w)
    (hR : ∀ e, R e → e ≤ stimeMax) :
    ∃ w', heapTimers timerSlop c now reprogrammed w = some w' ∧ Inv R timerSlop w' ∧
      w'.cpu = w.cpu := by
  unfold heapTimers
  dsimp only
  split
  · next hc =>
    have hm : Heap.Mem (w.ts c).heap ((w.ts c).heap.slot 1) := ⟨1, le_rfl, by omega, rfl⟩
    have hplace := ((h.safe.stores c).heap_mem _).mp hm
    have hr := Heap.removeFromHeap_removed (h.safe.stores c).heap hm
    have hsafe := h.safe.replace (h.safe.stores.removeFromHeap hplace) hr.limit
      fun _ _ _ => Safe.update_none
    exact ⟨_, rfl, h.executeTimer hsafe rfl rfl (World.place_eq_some.mp hplace).1 nofun, rfl⟩
  · exact listTimers_inv h hR

theorem Inv.setRunning (h : Inv R timerSlop w) (c : Nat) (r : Option Tid) :
    Inv R timerSlop (w.setTs c fun ts => { ts with running := r }) :=
  ⟨h.safe.setRunning c r, h.settled⟩

theorem Phase.step_inv {now : Int} {reprogrammed : Bool} {ph : Phase} (h : Inv R timerSlop w)
    (hR : ∀ e, R e → e ≤ stimeMax) (hph : w.softirq c = some ph) :
    ∃ w', ph.step timerSlop c now reprogrammed w = some w' ∧ Inv R timerSlop w' ∧
      w'.cpu = w.cpu := by
  cases ph with
  | grow oldLimit => exact ⟨_, rfl, h.grow hph, rfl⟩
  | ready => exact heapTimers_inv h hR
  | heapTimer now => exact heapTimers_inv (h.setRunning c none) hR
  | listTimer now => exact listTimers_inv (h.setRunning c none) hR

/-! ## CPU removal -/

theorem World.raiseIf_raiseIf {a b : Bool} : (w.raiseIf c a).raiseIf c b = w.raiseIf c (a || b) := by
  simp [World.raiseIf, Bool.or_assoc]

theorem removeCpu_first {oldCpu : Nat} (h : Stores w p) (hload : (w.ts oldCpu).load ≠ 0) :
    ∃ t k, (if (w.ts oldCpu).heap.size ≠ 0 then some ((w.ts oldCpu).heap.slot 1)
      else (w.ts oldCpu).list.head?) = some t ∧ p t = some (oldCpu, k) ∧ k.Active := by
  by_cases hsize : (w.ts oldCpu).heap.size ≠ 0
  · rw [if_pos hsize]
    exact ⟨_, .heap, rfl, ((h oldCpu).heap_mem _).mp ⟨1, le_rfl, by omega, rfl⟩, nofun⟩
  · rw [if_neg hsize]
    cases hl : (w.ts oldCpu).list with
    | nil =>
      refine absurd ?_ hload
      unfold Timers.load
      rw [hl, List.length_nil]
      omega
    | cons t rest =>
      refine ⟨t, .list, rfl, ((h oldCpu).list_mem t).mp ?_, nofun⟩
      rw [hl]
      exact List.mem_cons_self

/-- Every round takes one timer off the old CPU. The softirq is raised at the end
only, so it is counted as raised on the way. -/
theorem moveActive_inv {oldCpu newCpu n : Nat} {notify : Bool} (hne : oldCpu ≠ newCpu)
    (h : Inv R timerSlop (w.raiseIf newCpu notify)) (hn : (w.ts oldCpu).load ≤ n) :
    ∃ notify' w', moveActive oldCpu newCpu n (notify, w) = some (notify', w') ∧
      Inv R timerSlop (w'.raiseIf newCpu notify') ∧ (w'.ts oldCpu).load = 0 ∧
      ∀ x, (w'.cpu x).isSome = (w.cpu x).isSome := by
  induction n generalizing w notify with
  | zero => exact ⟨notify, w, rfl, h, Nat.le_zero.mp hn, fun _ => rfl⟩
  | succ n ih =>
    unfold moveActive
    dsimp only
    by_cases hload : (w.ts oldCpu).load = 0
    · have hsize : ¬(w.ts oldCpu).heap.size ≠ 0 := by
        unfold Timers.load at hload
        omega
      have hlist : (w.ts oldCpu).list = [] := by
        unfold Timers.load at hload
        exact List.length_eq_zero_iff.mp (by omega)
      rw [if_neg hsize, hlist]
      exact ⟨notify, w, rfl, h, hload, fun _ => rfl⟩
    · rcases removeCpu_first h.safe.stores hload with ⟨t, k, hfirst, ht, hk⟩
      change (if (w.ts oldCpu).heap.size ≠ 0 then some ((w.ts oldCpu).heap.slot 1)
        else (w.ts oldCpu).list.head?) = some t at hfirst
      rw [hfirst]
      dsimp only
      rcases World.place_eq_some.mp ht with ⟨hc, hs⟩
      -- off the old CPU
      rcases removeEntry_spec (w := w) h.safe.stores hc hs hk ht with
        ⟨rc, ts, off, he, hst, hlimit, hload'⟩
      rw [he]
      dsimp only
      have hsafe := h.safe.replace hst hlimit fun _ _ _ => Safe.update_none
      -- and onto the new one
      generalize hw₁ : ((w.replace oldCpu ts off).setStatus t .invalid).setCpu t (some newCpu) = w₁
      have hsafe₁ : Safe R timerSlop (w₁.raiseIf newCpu notify) (Function.update w.place t none) := by
        subst hw₁
        exact (hsafe.setStatus t .invalid).setCpu t (some newCpu)
      have hc₁ : w₁.cpu = Function.update w.cpu t (some newCpu) := by
        subst hw₁
        rfl
      have hct : w₁.cpu t = some newCpu := by
        rw [hc₁, Function.update_self]
      have hs₁ (x : Tid) (hx : x ≠ t) : w₁.status x = w.status x := by
        subst hw₁
        exact Function.update_of_ne hx ..
      have hload₁ : (w₁.ts oldCpu).load + 1 = (w.ts oldCpu).load := by
        subst hw₁
        show (Function.update w.ts oldCpu ts oldCpu).load + 1 = _
        rw [Function.update_self]
        exact hload'
      rcases addEntry_spec (w := w₁) hsafe₁.stores hct (Function.update_self ..) with
        ⟨rc', ts', off', k', he', -, hst', hlimit', hrc'⟩
      rw [he']
      dsimp only
      have hsafe₂ := hsafe₁.added (Function.update_self ..) hst' hlimit' hrc'
      rw [Function.update_idem] at hsafe₂
      generalize hw₂ : (w₁.replace newCpu ts' off').setStatus t k'.status = w₂
      have hcpu₂ : w₂.cpu = w₁.cpu := by
        subst hw₂
        rfl
      have hraise : (w₂.raiseIf newCpu (notify || rc'))
          = (((w₁.raiseIf newCpu notify).replace newCpu ts' off').raiseIf newCpu rc').setStatus t
            k'.status := by
        subst hw₂
        rw [← World.raiseIf_raiseIf]
        rfl
      have hload₂ : (w₂.ts oldCpu).load = (w₁.ts oldCpu).load := by
        subst hw₂
        show (Function.update w₁.ts newCpu ts' oldCpu).load = _
        rw [Function.update_of_ne hne]
      have h₂ : Inv R timerSlop (w₂.raiseIf newCpu (notify || rc')) := by
        rw [hraise]
        refine h.of_update (k := k') (fun x hx => ?_) (fun x hx => ?_) hct
          (Function.update_self ..) (hsafe₂.setStatus t k'.status)
        · show w₁.cpu x = w.cpu x
          rw [hc₁, Function.update_of_ne hx]
        · show Function.update w₁.status t _ x = w.status x
          rw [Function.update_of_ne hx, hs₁ x hx]
      rcases ih h₂ (by omega) with ⟨notify', w', he'', h', hload', hsome⟩
      refine ⟨notify', w', he'', h', hload', fun x => ?_⟩
      rw [hsome x, hcpu₂, hc₁]
      by_cases hx : x = t
      · subst hx
        change w.cpu x = _ at hc
        rw [Function.update_self, hc]
        rfl
      · rw [Function.update_of_ne hx]

theorem moveInactive_raiseIf {oldCpu newCpu : Nat} {b : Bool} {l : List Tid} :
    (moveInactive oldCpu newCpu l w).raiseIf c b
      = moveInactive oldCpu newCpu l (w.raiseIf c b) := by
  induction l generalizing w with
  | nil => rfl
  | cons t rest ih => exact ih

theorem moveInactive_inv {oldCpu : Nat} (newCpu : Nat) {l : List Tid} (hl : l.Nodup)
    (h : Inv R timerSlop w) (hin : ∀ x ∈ l, w.place x = some (oldCpu, .inactive)) :
    Inv R timerSlop (moveInactive oldCpu newCpu l w) ∧
      (∀ x ∈ l, (moveInactive oldCpu newCpu l w).cpu x = some newCpu) ∧
      (∀ x ∉ l, (moveInactive oldCpu newCpu l w).cpu x = w.cpu x) := by
  induction l generalizing w with
  | nil => exact ⟨h, nofun, fun _ _ => rfl⟩
  | cons t rest ih =>
    rcases List.nodup_cons.mp hl with ⟨ht, hrest⟩
    rcases World.place_eq_some.mp (hin t List.mem_cons_self) with ⟨hc, hs⟩
    have h₁ := h.moveInactive newCpu hc hs
    have hother {x : Tid} (hx : x ≠ t) :
        (((w.delInactive oldCpu t).setCpu t (some newCpu)).addInactive newCpu t).cpu x = w.cpu x :=
      Function.update_of_ne hx ..
    rcases ih hrest h₁ (fun x hx => by
      have hxt : x ≠ t := fun he => ht (he ▸ hx)
      rcases World.place_eq_some.mp (hin x (List.mem_cons_of_mem _ hx)) with ⟨hxc, hxs⟩
      exact World.place_eq_some.mpr ⟨(hother hxt).trans hxc, hxs⟩) with ⟨h₂, hin₂, hout₂⟩
    refine ⟨h₂, fun x hx => ?_, fun x hx => ?_⟩
    · rcases List.mem_cons.mp hx with rfl | hx
      · exact (hout₂ x ht).trans (Function.update_self ..)
      · exact hin₂ x hx
    · exact (hout₂ x fun hm => hx (List.mem_cons_of_mem _ hm)).trans
        (hother (List.ne_of_not_mem_cons hx))

theorem migrateTimersFromCpu_inv {oldCpu newCpu : Nat} (h : Inv R timerSlop w)
    (hne : oldCpu ≠ newCpu) :
    ∃ w', migrateTimersFromCpu oldCpu newCpu w = some w' ∧ Inv R timerSlop w' ∧
      (∀ x, (w'.cpu x).isSome = (w.cpu x).isSome) ∧ ∀ x, w'.cpu x ≠ some oldCpu := by
  have h₀ : Inv R timerSlop (w.raiseIf newCpu false) := ⟨h.safe.raiseIf newCpu false, h.settled⟩
  rcases moveActive_inv hne h₀ le_rfl with ⟨notify, w₁, he, h₁, hload, hsome⟩
  unfold migrateTimersFromCpu
  dsimp only
  rw [show (w.ts oldCpu).heap.size + (w.ts oldCpu).list.length = (w.ts oldCpu).load from rfl, he]
  dsimp only
  rw [moveInactive_raiseIf]
  have hst : Keeps w₁.expires w₁.heapOffset w₁.place oldCpu (w₁.ts oldCpu) := h₁.safe.stores oldCpu
  rcases moveInactive_inv newCpu hst.inactive_nodup h₁ (fun x => (hst.inactive_mem x).mp) with
    ⟨h₂, hin, hout⟩
  refine ⟨_, rfl, h₂, fun x => ?_, fun x => ?_⟩
  · rw [← hsome x]
    by_cases hx : x ∈ (w₁.ts oldCpu).inactive
    · have hcx := (World.place_eq_some.mp ((hst.inactive_mem x).mp hx)).1
      change w₁.cpu x = some oldCpu at hcx
      rw [hin x hx, hcx]
      rfl
    · rw [hout x hx]
      rfl
  · by_cases hx : x ∈ (w₁.ts oldCpu).inactive
    · rw [hin x hx]
      simpa using hne.symm
    · rw [hout x hx]
      intro hc
      -- it would be an active timer, or an inactive one
      rcases h₁.settled x oldCpu hc with ⟨k, hk⟩
      have hplace := World.place_eq_some.mpr ⟨hc, hk⟩
      unfold Timers.load at hload
      cases k with
      | heap =>
        rcases (hst.heap_mem x).mpr hplace with ⟨i, hi, hin', -⟩
        change i ≤ (w₁.ts oldCpu).heap.size at hin'
        omega
      | list =>
        have hpos := List.length_pos_of_mem ((hst.list_mem x).mpr hplace)
        change 0 < (w₁.ts oldCpu).list.length at hpos
        omega
      | inactive => exact hx ((hst.inactive_mem x).mpr hplace)

theorem Inv.prepareCpu (h : Inv R timerSlop w) (hsoft : w.softirq c = none)
    (hsize : (w.ts c).heap.size = 0) :
    Inv R timerSlop (w.setTs c fun ts => { ts with heap := .dummy }) := by
  refine ⟨h.safe.setTs ?_ (.inl rfl) fun n hn => ?_, h.settled⟩
  · have hk := h.safe.stores c
    refine { hk with heap := ⟨?_, ?_, ?_, ?_, ?_⟩, heap_mem := fun t => ?_ }
    · intro i hi hin
      change i ≤ 0 at hin
      omega
    · intro i hi hin
      change i ≤ 0 at hin
      omega
    · exact le_rfl
    · exact Nat.zero_lt_one
    · exact Nat.two_pow_pos 16
    · rw [← hk.heap_mem t]
      refine iff_of_false ?_ ?_
      · rintro ⟨i, hi, hin, -⟩
        change i ≤ 0 at hin
        omega
      · rintro ⟨i, hi, hin, -⟩
        omega
  · rw [hsoft] at hn
    nomatch hn

end Timer
