import MemoryMonitor.Timer.Store

/-!
# Where the timers are

`Place` is the store in the abstract: the CPU and the container of each timer that
is in one. `Stores w p` says that the heaps and lists of `w` hold every timer where
`p` has it and nowhere else, each heap and each list in its order. It does not look
at the `cpu` and the `status` of a timer, which are behind in the middle of an
operation; between the operations `p` is `w.place`, which is made of them.

The rest of the module says what each operation on a container does to `p`.
-/

namespace Timer

/-- The containers of a CPU. -/
inductive Kind where
  | heap | list | inactive
  deriving DecidableEq

abbrev Place := Tid → Option (Nat × Kind)

def Kind.status : Kind → Status
  | .heap => .inHeap
  | .list => .inList
  | .inactive => .inactive

def Status.kind : Status → Option Kind
  | .inHeap => some .heap
  | .inList => some .list
  | .inactive => some .inactive
  | .invalid | .killed => none

theorem Status.kind_eq_some {s : Status} {k : Kind} : s.kind = some k ↔ s = k.status := by
  cases s <;> cases k <;> simp [Status.kind, Kind.status]

/-- Where the fields of a timer say that it is. -/
def World.place (w : World) : Place := fun t =>
  (w.cpu t).bind fun c => (w.status t).kind.map fun k => (c, k)

theorem World.place_eq_some {w : World} {t : Tid} {c : Nat} {k : Kind} :
    w.place t = some (c, k) ↔ w.cpu t = some c ∧ w.status t = k.status := by
  unfold World.place
  cases w.cpu t <;> simp [Status.kind_eq_some, and_comm]

theorem World.place_eq_none {w : World} {t : Tid} (h : w.cpu t = none) : w.place t = none := by
  unfold World.place
  rw [h]
  rfl

section Update

variable {p : Place} {t x : Tid} {a b : Nat × Kind}

theorem update_none_iff : Function.update p t none x = some b ↔ p x = some b ∧ x ≠ t := by
  by_cases hx : x = t
  · subst hx
    simp
  · simp [hx]

theorem update_none_of_ne (h : p t ≠ some b) :
    Function.update p t none x = some b ↔ p x = some b := by
  rw [update_none_iff]
  refine and_iff_left_of_imp fun hx he => h ?_
  rw [← he, hx]

theorem update_some_iff (h : p t = none) :
    Function.update p t (some a) x = some b ↔ (x = t ∧ a = b) ∨ p x = some b := by
  by_cases hx : x = t
  · subst hx
    simp [h]
  · simp [hx]

theorem update_some_of_ne (h : p t = none) (hab : a ≠ b) :
    Function.update p t (some a) x = some b ↔ p x = some b := by
  rw [update_some_iff h]
  simp [hab]

end Update

/-! ## One CPU -/

/-- `ts` holds the timers that `p` has on CPU `c`. -/
structure Keeps (expires : Tid → Int) (off : Tid → Nat) (p : Place) (c : Nat) (ts : Timers) :
    Prop where
  heap : Heap.Ok expires (ts.heap, off)
  heap_mem : ∀ t, Heap.Mem ts.heap t ↔ p t = some (c, .heap)
  sorted : ts.list.Pairwise fun a b => expires a ≤ expires b
  list_nodup : ts.list.Nodup
  list_mem : ∀ t, t ∈ ts.list ↔ p t = some (c, .list)
  inactive_nodup : ts.inactive.Nodup
  inactive_mem : ∀ t, t ∈ ts.inactive ↔ p t = some (c, .inactive)

/-- Only the fields of its own timers count for a heap. -/
theorem Heap.Ok.congr {e e' : Tid → Int} {h : Heap} {off off' : Tid → Nat}
    (hok : Heap.Ok e (h, off)) (he : ∀ t, Heap.Mem h t → e' t = e t)
    (hoff : ∀ t, Heap.Mem h t → off' t = off t) : Heap.Ok e' (h, off') := by
  have hmem {i : Nat} (hi : 1 ≤ i) (hin : i ≤ h.size) : Heap.Mem h (h.slot i) := ⟨i, hi, hin, rfl⟩
  refine ⟨?_, ?_, hok.size_le, hok.limit_lt, hok.limit_bits⟩
  · intro i hi hin
    change i ≤ h.size at hin
    rw [he _ (hmem (by omega) (by omega)), he _ (hmem (by omega) hin)]
    exact hok.ordered i hi hin
  · intro i hi hin
    exact (hoff _ (hmem hi hin)).trans (hok.indexed i hi hin)

namespace Keeps

variable {e e' : Tid → Int} {off off' : Tid → Nat} {p p' : Place} {c : Nat} {ts : Timers} {t : Tid}

theorem congr (h : Keeps e off p c ts) (hp : ∀ t k, p' t = some (c, k) ↔ p t = some (c, k))
    (he : ∀ t k, p t = some (c, k) → k ≠ .inactive → e' t = e t)
    (hoff : ∀ t, p t = some (c, .heap) → off' t = off t) : Keeps e' off' p' c ts where
  heap := h.heap.congr (fun t ht => he t _ ((h.heap_mem t).mp ht) nofun)
    fun t ht => hoff t ((h.heap_mem t).mp ht)
  heap_mem t := (h.heap_mem t).trans (hp t _).symm
  sorted := by
    refine h.sorted.imp_of_mem fun {a b} ha hb hab => ?_
    rw [he a _ ((h.list_mem a).mp ha) nofun, he b _ ((h.list_mem b).mp hb) nofun]
    exact hab
  list_nodup := h.list_nodup
  list_mem t := (h.list_mem t).trans (hp t _).symm
  inactive_nodup := h.inactive_nodup
  inactive_mem t := (h.inactive_mem t).trans (hp t _).symm

/-! ### The heap -/

theorem removeFromHeap (h : Keeps e off p c ts) (ht : p t = some (c, .heap)) :
    Keeps e (Heap.removeFromHeap e (ts.heap, off) t).2.2 (Function.update p t none) c
      { ts with heap := (Heap.removeFromHeap e (ts.heap, off) t).2.1 } := by
  have hr := Heap.removeFromHeap_removed h.heap ((h.heap_mem t).mpr ht)
  refine ⟨hr.ok, fun x => ?_, h.sorted, h.list_nodup, fun x => ?_, h.inactive_nodup, fun x => ?_⟩
  · rw [hr.mem, h.heap_mem, update_none_iff]
  · rw [update_none_of_ne (by rw [ht]; simp)]
    exact h.list_mem x
  · rw [update_none_of_ne (by rw [ht]; simp)]
    exact h.inactive_mem x

theorem removeFromHeap_off (h : Keeps e off p c ts) (ht : p t = some (c, .heap)) {x : Tid}
    (hx : p x ≠ some (c, .heap)) : (Heap.removeFromHeap e (ts.heap, off) t).2.2 x = off x :=
  (Heap.removeFromHeap_removed h.heap ((h.heap_mem t).mpr ht)).frame x
    fun hm => hx ((h.heap_mem x).mp hm)

theorem addToHeap {h' : Bool × Heap.Placed} (h : Keeps e off p c ts) (ht : p t = none)
    (ha : Heap.Added e (ts.heap, off) t h'.1 h'.2) :
    Keeps e h'.2.2 (Function.update p t (some (c, .heap))) c { ts with heap := h'.2.1 } := by
  refine ⟨ha.ok, fun x => ?_, h.sorted, h.list_nodup, fun x => ?_, h.inactive_nodup, fun x => ?_⟩
  · rw [ha.mem, h.heap_mem, update_some_iff ht]
    simp
  · rw [update_some_of_ne ht (by simp)]
    exact h.list_mem x
  · rw [update_some_of_ne ht (by simp)]
    exact h.inactive_mem x

/-! ### The list -/

end Keeps

theorem removeFromList_eq {t : Tid} {l : List Tid} (ht : t ∈ l) :
    removeFromList t l = some (l.erase t) := by
  induction l with
  | nil => nomatch ht
  | cons curr rest ih =>
    unfold removeFromList
    by_cases hc : curr = t
    · subst hc
      simp
    · rw [if_neg hc, ih (by simpa [Ne.symm hc] using ht), List.erase_cons_tail (by simpa using hc)]
      rfl

theorem addToList_perm (e : Tid → Int) (t : Tid) (l : List Tid) : (addToList e t l).Perm (t :: l) := by
  induction l with
  | nil => exact .refl _
  | cons curr rest ih =>
    unfold addToList
    split
    · exact (ih.cons curr).trans (.swap ..)
    · exact .refl _

theorem addToList_sorted {e : Tid → Int} {l : List Tid} (t : Tid)
    (h : l.Pairwise fun a b => e a ≤ e b) : (addToList e t l).Pairwise fun a b => e a ≤ e b := by
  induction l with
  | nil => exact List.pairwise_singleton ..
  | cons curr rest ih =>
    rcases List.pairwise_cons.mp h with ⟨hcurr, hrest⟩
    unfold addToList
    split
    · next hle =>
      refine List.pairwise_cons.mpr ⟨fun x hx => ?_, ih hrest⟩
      rcases List.mem_cons.mp ((addToList_perm e t rest).mem_iff.mp hx) with rfl | hx
      · exact hle
      · exact hcurr x hx
    · next hlt =>
      refine List.pairwise_cons.mpr ⟨fun x hx => ?_, h⟩
      rcases List.mem_cons.mp hx with rfl | hx
      · exact (not_le.mp hlt).le
      · exact (not_le.mp hlt).le.trans (hcurr x hx)

/-- If `add_to_list` says that the timer does not come first, the first one does. -/
theorem firstInList_false {e : Tid → Int} {t : Tid} {l : List Tid}
    (h : firstInList e t l = false) : ∃ x ∈ l, e x ≤ e t := by
  cases l with
  | nil => nomatch h
  | cons curr rest =>
    refine ⟨curr, List.mem_cons_self, ?_⟩
    simpa [firstInList] using h

namespace Keeps

variable {e e' : Tid → Int} {off off' : Tid → Nat} {p p' : Place} {c : Nat} {ts : Timers} {t : Tid}

theorem eraseList (h : Keeps e off p c ts) (ht : p t = some (c, .list)) :
    Keeps e off (Function.update p t none) c { ts with list := ts.list.erase t } := by
  refine ⟨h.heap, fun x => ?_, h.sorted.sublist List.erase_sublist, h.list_nodup.erase t,
    fun x => ?_, h.inactive_nodup, fun x => ?_⟩
  · rw [update_none_of_ne (by rw [ht]; simp)]
    exact h.heap_mem x
  · rw [h.list_nodup.mem_erase_iff, h.list_mem, update_none_iff, and_comm]
  · rw [update_none_of_ne (by rw [ht]; simp)]
    exact h.inactive_mem x

/-- The timer had a `heap_offset` of 0 when the heap was found full. -/
theorem addToList (h : Keeps e off p c ts) (ht : p t = none) (v : Nat) :
    Keeps e (Function.update off t v) (Function.update p t (some (c, .list))) c
      { ts with list := Timer.addToList e t ts.list } := by
  have hperm := addToList_perm e t ts.list
  have hnot : t ∉ ts.list := fun hm => by
    have := (h.list_mem t).mp hm
    rw [ht] at this
    nomatch this
  refine ⟨h.heap.congr (fun _ _ => rfl) fun x hx => ?_, fun x => ?_, addToList_sorted t h.sorted,
    hperm.nodup_iff.mpr (List.nodup_cons.mpr ⟨hnot, h.list_nodup⟩), fun x => ?_,
    h.inactive_nodup, fun x => ?_⟩
  · refine Function.update_of_ne ?_ ..
    rintro rfl
    rw [h.heap_mem, ht] at hx
    nomatch hx
  · rw [update_some_of_ne ht (by simp)]
    exact h.heap_mem x
  · rw [hperm.mem_iff, List.mem_cons, h.list_mem, update_some_iff ht]
    simp
  · rw [update_some_of_ne ht (by simp)]
    exact h.inactive_mem x

/-! ### The inactive timers -/

theorem addInactive (h : Keeps e off p c ts) (ht : p t = none) :
    Keeps e off (Function.update p t (some (c, .inactive))) c
      { ts with inactive := t :: ts.inactive } := by
  have hnot : t ∉ ts.inactive := fun hm => by
    have := (h.inactive_mem t).mp hm
    rw [ht] at this
    nomatch this
  refine ⟨h.heap, fun x => ?_, h.sorted, h.list_nodup, fun x => ?_,
    List.nodup_cons.mpr ⟨hnot, h.inactive_nodup⟩, fun x => ?_⟩
  · rw [update_some_of_ne ht (by simp)]
    exact h.heap_mem x
  · rw [update_some_of_ne ht (by simp)]
    exact h.list_mem x
  · rw [List.mem_cons, h.inactive_mem, update_some_iff ht]
    simp

theorem delInactive (h : Keeps e off p c ts) (ht : p t = some (c, .inactive)) :
    Keeps e off (Function.update p t none) c { ts with inactive := ts.inactive.erase t } := by
  refine ⟨h.heap, fun x => ?_, h.sorted, h.list_nodup, fun x => ?_, h.inactive_nodup.erase t,
    fun x => ?_⟩
  · rw [update_none_of_ne (by rw [ht]; simp)]
    exact h.heap_mem x
  · rw [update_none_of_ne (by rw [ht]; simp)]
    exact h.list_mem x
  · rw [h.inactive_nodup.mem_erase_iff, h.inactive_mem, update_none_iff, and_comm]

end Keeps

/-! ## All CPUs -/

def Stores (w : World) (p : Place) : Prop :=
  ∀ c, Keeps w.expires w.heapOffset p c (w.ts c)

/-- CPU `c` has other timers now. -/
def World.replace (w : World) (c : Nat) (ts : Timers) (off : Tid → Nat) : World :=
  { w with ts := Function.update w.ts c ts, heapOffset := off }

namespace Stores

variable {w : World} {p : Place} {c : Nat} {t : Tid}

/-- Only CPU `c` and the timer `t` are touched. -/
theorem replace {ts : Timers} {off : Tid → Nat} {q : Option (Nat × Kind)} (h : Stores w p)
    (ht : ∀ d ≠ c, ∀ k, p t ≠ some (d, k)) (hq : ∀ d ≠ c, ∀ k, q ≠ some (d, k))
    (hts : Keeps w.expires off (Function.update p t q) c ts)
    (hoff : ∀ x, x ≠ t → p x ≠ some (c, .heap) → off x = w.heapOffset x) :
    Stores (w.replace c ts off) (Function.update p t q) := by
  intro d
  show Keeps w.expires off (Function.update p t q) d (Function.update w.ts c ts d)
  by_cases hd : d = c
  · subst hd
    rw [Function.update_self]
    exact hts
  · rw [Function.update_of_ne hd]
    refine (h d).congr (fun x k => ?_) (fun _ _ _ _ => rfl) fun x hx => hoff x ?_ ?_
    · by_cases hx : x = t
      · subst hx
        rw [Function.update_self]
        exact iff_of_false (hq d hd k) (ht d hd k)
      · rw [Function.update_of_ne hx]
    · rintro rfl
      exact ht d hd _ hx
    · rw [hx]
      simpa using hd

/-- The case of a timer that leaves a container of the CPU. -/
theorem take {k : Kind} {ts : Timers} {off : Tid → Nat} (h : Stores w p) (ht : p t = some (c, k))
    (hts : Keeps w.expires off (Function.update p t none) c ts)
    (hoff : ∀ x, x ≠ t → p x ≠ some (c, .heap) → off x = w.heapOffset x) :
    Stores (w.replace c ts off) (Function.update p t none) := by
  refine h.replace (fun d hd k' => ?_) (fun _ _ _ => nofun) hts hoff
  rw [ht]
  simp [Ne.symm hd]

/-- The case of a timer that enters a container of the CPU. -/
theorem give {k : Kind} {ts : Timers} {off : Tid → Nat} (h : Stores w p) (ht : p t = none)
    (hts : Keeps w.expires off (Function.update p t (some (c, k))) c ts)
    (hoff : ∀ x, x ≠ t → p x ≠ some (c, .heap) → off x = w.heapOffset x) :
    Stores (w.replace c ts off) (Function.update p t (some (c, k))) := by
  refine h.replace (fun d hd k' => ?_) (fun d hd k' => ?_) hts hoff
  · rw [ht]
    nofun
  · simp [Ne.symm hd]

theorem removeFromHeap (h : Stores w p) (ht : p t = some (c, .heap)) :
    Stores (w.setHeap c (Heap.removeFromHeap w.expires ((w.ts c).heap, w.heapOffset) t).2)
      (Function.update p t none) :=
  h.take ht ((h c).removeFromHeap ht) fun _ _ hx => (h c).removeFromHeap_off ht hx

theorem eraseList (h : Stores w p) (ht : p t = some (c, .list)) :
    Stores (w.setList c ((w.ts c).list.erase t)) (Function.update p t none) :=
  h.take ht ((h c).eraseList ht) fun _ _ _ => rfl

theorem addInactive (h : Stores w p) (ht : p t = none) :
    Stores (w.addInactive c t) (Function.update p t (some (c, .inactive))) :=
  h.give ht ((h c).addInactive ht) fun _ _ _ => rfl

theorem delInactive (h : Stores w p) (ht : p t = some (c, .inactive)) :
    Stores (w.delInactive c t) (Function.update p t none) :=
  h.take ht ((h c).delInactive ht) fun _ _ _ => rfl

/-- A timer that is not active can be given another expiry and offset. -/
theorem setExpires {e : Tid → Int} {off : Tid → Nat} (h : Stores w p)
    (ht : ∀ d k, p t = some (d, k) → k = .inactive) (he : ∀ x ≠ t, e x = w.expires x)
    (hoff : ∀ x ≠ t, off x = w.heapOffset x) :
    Stores { w with expires := e, heapOffset := off } p := by
  intro d
  refine (h d).congr (fun _ _ => .rfl) (fun x k hx hk => he x ?_) fun x hx => hoff x ?_
  · rintro rfl
    exact hk (ht d k hx)
  · rintro rfl
    nomatch ht d _ hx

end Stores

end Timer
