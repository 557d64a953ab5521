import Mathlib

/-!
# Circular lists

`struct list_head`: a head and the nodes of a list point to each other in a circle.
`Circular q head l` says that the nodes between the head and itself are `l`, without
repetition.
-/

namespace Circular

variable {α : Type} [DecidableEq α]

/-- The pointers of every node. -/
structure Links (α : Type) where
  next : α → α
  prev : α → α

/-- `a` and `b` are made neighbours. -/
def Links.link (q : Links α) (a b : α) : Links α :=
  ⟨Function.update q.next a b, Function.update q.prev b a⟩

/-- `list_del`, which leaves poison in the pointers of the node; `none` is a failed assertion. -/
def Links.listDel (q poison : Links α) (e : α) : Option (Links α) :=
  if q.prev (q.next e) = e ∧ q.next (q.prev e) = e then
    let q := q.link (q.prev e) (q.next e)
    some ⟨Function.update q.next e (poison.next e), Function.update q.prev e (poison.prev e)⟩
  else none

/-- `list_add`: behind `a`. -/
def Links.listAdd (q : Links α) (e a : α) : Links α :=
  (q.link e (q.next a)).link a e

/-! ## From node to node -/

/-- From `a` through the nodes of `l` to `b`. -/
def Linked (q : Links α) : α → List α → α → Prop
  | a, [], b => q.next a = b ∧ q.prev b = a
  | a, x :: l, b => (q.next a = x ∧ q.prev x = a) ∧ Linked q x l b

variable {q q' : Links α} {a b c e : α} {l l₁ l₂ : List α}

section

omit [DecidableEq α]

theorem Linked.append {x : α} : Linked q a (l₁ ++ x :: l₂) b ↔ Linked q a l₁ x ∧ Linked q x l₂ b := by
  induction l₁ generalizing a with
  | nil => exact Iff.rfl
  | cons y l₁ ih => exact (and_congr_right fun _ => ih).trans and_assoc.symm

/-- A path depends on the pointers from its nodes forward, and from its nodes back. -/
theorem Linked.congr (hn : ∀ x ∈ a :: l, q'.next x = q.next x) (hp : ∀ x ∈ l ++ [b], q'.prev x = q.prev x)
    (h : Linked q a l b) : Linked q' a l b := by
  induction l generalizing a with
  | nil =>
    exact ⟨(hn a List.mem_cons_self).trans h.1, (hp b List.mem_cons_self).trans h.2⟩
  | cons x l ih =>
    refine ⟨⟨(hn a List.mem_cons_self).trans h.1.1, (hp x List.mem_cons_self).trans h.1.2⟩, ?_⟩
    exact ih (fun y hy => hn y (List.mem_cons_of_mem a hy)) (fun y hy => hp y (List.mem_cons_of_mem x hy)) h.2

theorem Linked.prev_last (h : Linked q a l b) : q.prev b = l.getLastD a := by
  induction l generalizing a with
  | nil => exact h.2
  | cons x l ih =>
    rw [List.getLastD_cons]
    exact ih h.2

theorem Linked.next_last (h : Linked q a l b) : q.next (l.getLastD a) = b := by
  induction l generalizing a with
  | nil => exact h.1
  | cons x l ih =>
    rw [List.getLastD_cons]
    exact ih h.2

theorem Linked.next_first (h : Linked q a l b) : q.next a = l.headD b := by
  cases l with
  | nil => exact h.1
  | cons x l => exact h.1.1

theorem getLastD_mem (a : α) (l : List α) : l.getLastD a ∈ a :: l := by
  induction l generalizing a with
  | nil => exact List.mem_cons_self
  | cons x l ih =>
    rw [List.getLastD_cons]
    exact List.mem_cons_of_mem a (ih x)

theorem getLastD_append (a : α) (l₁ l₂ : List α) : (l₁ ++ l₂).getLastD a = l₂.getLastD (l₁.getLastD a) := by
  induction l₁ generalizing a with
  | nil => rfl
  | cons x l₁ ih =>
    rw [List.cons_append, List.getLastD_cons, List.getLastD_cons]
    exact ih x

end

/-- The last node of a path is made to lead elsewhere. -/
theorem Linked.link_last (hnd : (a :: l).Nodup) (hc : c ∉ l) (h : Linked q a l b) :
    Linked (q.link (l.getLastD a) c) a l c := by
  induction l generalizing a with
  | nil => exact ⟨Function.update_self .., Function.update_self ..⟩
  | cons x l ih =>
    rw [List.getLastD_cons]
    obtain ⟨ha, hx⟩ := List.nodup_cons.mp hnd
    have hne : a ≠ l.getLastD x := by
      intro h
      exact ha (h ▸ getLastD_mem x l)
    have hxc : x ≠ c := by
      rintro rfl
      exact hc List.mem_cons_self
    refine ⟨⟨(Function.update_of_ne hne ..).trans h.1.1, (Function.update_of_ne hxc ..).trans h.1.2⟩, ?_⟩
    exact ih hx (fun hm => hc (List.mem_cons_of_mem x hm)) h.2

/-- A link from a node that is not on the path to one that is not reached on it. -/
theorem Linked.link_apart {u v : α} (hu : u ∉ a :: l) (hv : v ∉ l ++ [b]) (h : Linked q a l b) :
    Linked (q.link u v) a l b := by
  refine h.congr (fun x hx => Function.update_of_ne ?_ ..) fun x hx => Function.update_of_ne ?_ ..
  · rintro rfl
    exact hu hx
  · rintro rfl
    exact hv hx

/-- The node between two paths is taken out. -/
theorem Linked.unlink (hnd : (l₁ ++ e :: l₂).Nodup) (ha : a ∉ l₁ ++ e :: l₂) (hb : b ∉ l₁ ++ e :: l₂)
    (h₁ : Linked q a l₁ e) (h₂ : Linked q e l₂ b) :
    Linked (q.link (q.prev e) (q.next e)) a (l₁ ++ l₂) b := by
  obtain ⟨hnd₁, hnd₂, hdisj⟩ := List.nodup_append.mp hnd
  have hnda : (a :: l₁).Nodup := List.nodup_cons.mpr ⟨fun h => ha (List.mem_append_left _ h), hnd₁⟩
  rw [h₁.prev_last, h₂.next_first]
  cases l₂ with
  | nil =>
    rw [List.append_nil]
    exact h₁.link_last hnda fun h => hb (List.mem_append_left _ h)
  | cons y l₂ =>
    obtain ⟨-, hnd₂⟩ := List.nodup_cons.mp hnd₂
    have hy : y ∉ l₁ := fun h => hdisj y h y (by simp) rfl
    refine Linked.append.mpr ⟨h₁.link_last hnda hy, h₂.2.link_apart ?_ ?_⟩
    · intro h
      rcases List.mem_cons.mp (getLastD_mem a l₁) with hl | hl
      · rw [hl] at h
        exact ha (List.mem_append_right _ (List.mem_cons_of_mem e h))
      · exact hdisj _ hl _ (List.mem_cons_of_mem e h) rfl
    · intro h
      change y ∈ l₂ ++ [b] at h
      rcases List.mem_append.mp h with h | h
      · exact (List.nodup_cons.mp hnd₂).1 h
      · rw [List.mem_singleton.mp h] at hb
        exact hb (by simp)

/-- A node is put between two parts of a path. -/
theorem Linked.insert (hnd : (l₁ ++ l₂).Nodup) (ha : a ∉ l₁ ++ l₂) (hb : b ∉ l₁ ++ l₂) (he : e ∉ l₁ ++ l₂)
    (hea : e ≠ a) (heb : e ≠ b) (h : Linked q a (l₁ ++ l₂) b) :
    Linked (q.listAdd e (l₁.getLastD a)) a (l₁ ++ e :: l₂) b := by
  obtain ⟨hnd₁, hnd₂, hdisj⟩ := List.nodup_append.mp hnd
  have hnda : (a :: l₁).Nodup := List.nodup_cons.mpr ⟨fun h => ha (List.mem_append_left _ h), hnd₁⟩
  have he₁ : e ∉ a :: l₁ := by
    rintro (_ | ⟨_, h⟩)
    · exact hea rfl
    · exact he (List.mem_append_left _ h)
  -- The end of the first part, and where it leads.
  obtain ⟨c, hc₁, hc₂⟩ : ∃ c, Linked q a l₁ c ∧ c = l₂.headD b := by
    cases l₂ with
    | nil => exact ⟨b, by simpa using h, rfl⟩
    | cons y l₂ => exact ⟨y, (Linked.append.mp h).1, rfl⟩
  have hcl : c ∈ l₂ ++ [b] := by
    rw [hc₂]
    cases l₂ <;> simp
  have hec : e ≠ c := by
    rintro rfl
    rcases List.mem_append.mp hcl with h | h
    · exact he (List.mem_append_right _ h)
    · exact heb (List.mem_singleton.mp h)
  have hcl₁ : c ∉ l₁ := by
    intro h
    rcases List.mem_append.mp hcl with h' | h'
    · exact hdisj c h c h' rfl
    · rw [List.mem_singleton.mp h'] at h
      exact hb (List.mem_append_left _ h)
  have hlast : l₁.getLastD a ≠ e := by
    intro h
    exact he₁ (h ▸ getLastD_mem a l₁)
  -- The two links touch different pointers.
  have hcomm : q.listAdd e (l₁.getLastD a) = (q.link (l₁.getLastD a) e).link e c := by
    unfold Links.listAdd Links.link
    rw [hc₁.next_last, Function.update_comm hlast.symm, Function.update_comm hec.symm]
  rw [hcomm]
  refine Linked.append.mpr ⟨?_, ?_⟩
  · refine (hc₁.link_last hnda fun h => he₁ (List.mem_cons_of_mem a h)).link_apart he₁ fun h => ?_
    rcases List.mem_append.mp h with h | h
    · exact hcl₁ h
    · exact hec (List.mem_singleton.mp h).symm
  · cases l₂ with
    | nil =>
      subst hc₂
      exact ⟨Function.update_self .., Function.update_self ..⟩
    | cons y l₂ =>
      obtain rfl : c = y := hc₂
      refine ⟨⟨Function.update_self .., Function.update_self ..⟩, ?_⟩
      have hcnd := List.nodup_cons.mp hnd₂
      have hc : c ∉ l₂ ++ [b] := by
        intro h
        rcases List.mem_append.mp h with h | h
        · exact hcnd.1 h
        · rw [List.mem_singleton.mp h] at hb
          exact hb (by simp)
      have hel : e ∉ c :: l₂ := fun h => he (List.mem_append_right _ h)
      have hel' : e ∉ l₂ ++ [b] := by
        intro h
        rcases List.mem_append.mp h with h | h
        · exact hel (List.mem_cons_of_mem c h)
        · exact heb (List.mem_singleton.mp h)
      refine Linked.link_apart hel hc (((Linked.append.mp h).2).link_apart (fun hm => ?_) hel')
      rcases List.mem_cons.mp (getLastD_mem a l₁) with hl | hl
      · rw [hl] at hm
        exact ha (List.mem_append_right _ hm)
      · exact hdisj _ hl _ hm rfl

end Circular

open Circular in
/-- The head, and the nodes of its list. -/
structure Circular {α : Type} (q : Links α) (head : α) (l : List α) : Prop where
  path : Linked q head l head
  nodup : (head :: l).Nodup

namespace Circular

variable {α : Type} [DecidableEq α] {q : Links α} {head e : α} {l₁ l₂ : List α}

/-- A node is taken out. -/
theorem listDel (poison : Links α) (h : Circular q head (l₁ ++ e :: l₂)) :
    ∃ q', q.listDel poison e = some q' ∧ Circular q' head (l₁ ++ l₂) := by
  obtain ⟨hhead, hnd⟩ := List.nodup_cons.mp h.nodup
  obtain ⟨h₁, h₂⟩ := Linked.append.mp h.path
  have hsub : (l₁ ++ l₂).Sublist (l₁ ++ e :: l₂) := (List.Sublist.refl l₁).append (List.sublist_cons_self e l₂)
  have hassert : q.prev (q.next e) = e ∧ q.next (q.prev e) = e := by
    constructor
    · cases l₂ with
      | nil => rw [h₂.1]; exact h₂.2
      | cons y l₂ => rw [h₂.1.1]; exact h₂.1.2
    · rw [h₁.prev_last]
      exact h₁.next_last
  unfold Links.listDel
  rw [if_pos hassert]
  refine ⟨_, rfl, ?_, List.nodup_cons.mpr ⟨fun hm => hhead (hsub.subset hm), hsub.nodup hnd⟩⟩
  have hne : ∀ x ∈ head :: (l₁ ++ l₂), x ≠ e := by
    rintro x hx rfl
    obtain ⟨hnd₁, hnd₂, hdisj⟩ := List.nodup_append.mp hnd
    rcases List.mem_cons.mp hx with rfl | hx
    · exact hhead (by simp)
    · rcases List.mem_append.mp hx with hx | hx
      · exact hdisj x hx x (by simp) rfl
      · exact (List.nodup_cons.mp hnd₂).1 hx
  refine (Linked.unlink hnd hhead hhead h₁ h₂).congr (fun x hx => ?_) fun x hx => ?_
  · exact Function.update_of_ne (hne x hx) ..
  · refine Function.update_of_ne (hne x ?_) ..
    rcases List.mem_append.mp hx with hx | hx
    · exact List.mem_cons_of_mem _ hx
    · exact List.mem_cons.mpr (.inl (List.mem_singleton.mp hx))

/-- A node is put behind the first part. -/
theorem listAdd (h : Circular q head (l₁ ++ l₂)) (he : e ∉ l₁ ++ l₂) (hne : e ≠ head) :
    Circular (q.listAdd e (l₁.getLastD head)) head (l₁ ++ e :: l₂) := by
  obtain ⟨hhead, hnd⟩ := List.nodup_cons.mp h.nodup
  refine ⟨h.path.insert hnd hhead hhead he hne hne, ?_⟩
  have hperm : (head :: (l₁ ++ e :: l₂)).Perm (e :: head :: (l₁ ++ l₂)) :=
    (List.perm_middle.cons head).trans (.swap ..)
  rw [hperm.nodup_iff, List.nodup_cons]
  refine ⟨?_, h.nodup⟩
  rintro (_ | ⟨_, hm⟩)
  · exact hne rfl
  · exact he hm

end Circular
