import MemoryMonitor.Lib.Totals
import MemoryMonitor.Tmem.State

/-!
# Data of transcendent memory

What is true of pages, contents and the data of descriptors, at every point of an operation: `Stored`. And what
an operation does to the data of one descriptor leaves the others what they have: `Changes`.
-/

namespace Tmem

variable {P : Settings} {s s' : State} {i j q f : Nat} {g : Pgp} {c : Pcd} {d : Data} {p : Page}

/-- A content descriptor whose size says what its data is. -/
def Pcd.Wf (c : Pcd) : Prop :=
  match c.data with
  | .null => c.size = 0
  | .pfp _ => c.size = pageSize
  | .buf b => c.size = b.length ∧ b.length < pageSize
  | .pcd _ => False

/-- A descriptor whose size and first byte say what its data is. -/
def Pgp.Wf (P : Settings) (g : Pgp) : Prop :=
  match g.data with
  | .null => g.firstbyte = none
  | .pfp _ => g.firstbyte = none ∧ g.size = 0
  | .buf _ => g.firstbyte = none ∧ g.size ≠ 0
  | .pcd _ => g.firstbyte.isSome = true ∧ P.dedup = true ∧ P.persistent g.key.obj.pool = false

/-- Who may have a page. -/
inductive Owner where
  | pgp (i : Nat)
  | pcd (q : Nat)

def State.Owns (s : State) : Owner → Nat → Prop
  | .pgp i, f => ∃ g, s.pgps i = some g ∧ g.data = .pfp f
  | .pcd q, f => ∃ c, s.pcds q = some c ∧ c.data = .pfp f

/-- Numbers are not used twice; descriptors and contents know each other; and every page has one owner. -/
structure Stored (P : Settings) (s : State) : Prop where
  pgp_lt : ∀ {i g}, s.pgps i = some g → i < s.nextPgp
  pcd_lt : ∀ {q c}, s.pcds q = some c → q < s.nextPcd
  page_lt : ∀ {f p}, s.pages f = some p → f < s.nextPage
  wf : ∀ {i g}, s.pgps i = some g → g.Wf P
  content : ∀ {q c}, s.pcds q = some c → c.Wf
  member : ∀ {i g q}, s.pgps i = some g → g.data = .pcd q → ∃ c, s.pcds q = some c ∧ i ∈ c.pgpList
  sibling : ∀ {q c i}, s.pcds q = some c → i ∈ c.pgpList → ∃ g, s.pgps i = some g ∧ g.data = .pcd q
  nodup : ∀ {q c}, s.pcds q = some c → c.pgpList.Nodup
  count : ∀ {q c}, s.pcds q = some c → c.refCount = c.pgpList.length
  owned : ∀ {o f}, s.Owns o f → ∃ p, s.pages f = some p
  unique : ∀ {o o' f}, s.Owns o f → s.Owns o' f → o = o'
  pages : s.pageCount = ∑ f ∈ Finset.range s.nextPage, if (s.pages f).isSome then 1 else 0

/-! ## What a descriptor has -/

/-- The content is a page, for descriptors of a size. -/
def Pcd.Holds (P : Settings) (pages : Nat → Option Page) (size : Nat) (p : Page) (c : Pcd) : Prop :=
  match c.data with
  | .null => P.tzeEnabled = true ∧ size = 0 ∧ c.size = 0 ∧ .ofTze [] = p
  | .pfp f => size = 0 ∧ c.size = pageSize ∧ pages f = some p
  | .buf b =>
      (size = b.length ∧ c.size = b.length ∧ 0 < b.length ∧ b.length < pageSize ∧ b = P.lzoCompress p) ∨
      (P.tzeEnabled = true ∧ size = 0 ∧ c.size = b.length ∧ b.length < pageSize ∧ .ofTze b = p)
  | .pcd _ => False

/-- The descriptor has a page. -/
def State.Holds (P : Settings) (s : State) (i : Nat) (p : Page) : Prop :=
  ∃ g, s.pgps i = some g ∧
    match g.data with
    | .null => False
    | .pfp f => s.pages f = some p
    | .buf b => b = P.lzoCompress p
    | .pcd q => ∃ c, s.pcds q = some c ∧ c.Holds P s.pages g.size p

theorem State.pgp_of (h : s.pgps i = some g) : s.pgp i = g := by
  unfold State.pgp
  rw [h]
  rfl

theorem State.pcd_of (h : s.pcds q = some c) : s.pcd q = c := by
  unfold State.pcd
  rw [h]
  rfl

/-- A descriptor that has a page gives it to the client. -/
theorem Stored.copyToClient (h : Stored P s) (hlzo : P.Invertible) (hp : s.Holds P i p) :
    s.copyToClient P i (.whole true) = some p := by
  obtain ⟨g, hg, hdata⟩ := hp
  have hwf := h.wf hg
  unfold State.copyToClient
  rw [State.pgp_of hg]
  unfold Pgp.Wf at hwf
  cases hd : g.data with
  | null =>
    rw [hd] at hdata
    exact hdata.elim
  | pfp f =>
    rw [hd] at hdata hwf
    rw [hwf.1, hwf.2]
    simp only [Option.isSome_none, Bool.false_eq_true, and_false, if_false, ne_eq, not_true]
    change (s.pages f).map id = some p
    rw [hdata]
    rfl
  | buf b =>
    rw [hd] at hdata hwf
    rw [hwf.1, if_neg (by simp), if_pos hwf.2]
    dsimp only at hdata ⊢
    rw [hdata, hlzo p]
  | pcd q =>
    rw [hd] at hdata hwf
    obtain ⟨c, hc, hhold⟩ := hdata
    rw [if_pos (by simp [hwf])]
    unfold State.pcdCopyToClient
    rw [State.pgp_of hg, hd]
    dsimp only
    rw [State.pcd_of hc]
    unfold Pcd.Holds at hhold
    cases hcd : c.data with
    | null =>
      rw [hcd] at hhold
      obtain ⟨htze, hsize, hcsize, hpage⟩ := hhold
      rw [if_neg (by simp [hsize]), if_pos ⟨htze, by rw [hcsize]; decide⟩]
      rw [hpage]
    | pfp f =>
      rw [hcd] at hhold
      obtain ⟨hsize, hcsize, hpage⟩ := hhold
      rw [if_neg (by simp [hsize]), if_neg (by simp [hcsize])]
      exact hpage
    | buf b =>
      rw [hcd] at hhold
      rcases hhold with ⟨hsize, hcsize, hpos, hlt, hb⟩ | ⟨htze, hsize, hcsize, hlt, hb⟩
      · rw [if_pos ⟨by omega, by omega, by omega, by omega⟩]
        dsimp only
        rw [hb, hlzo p]
      · rw [if_neg (by simp [hsize]), if_pos ⟨htze, by omega⟩]
        dsimp only
        rw [hb]
    | pcd q' =>
      rw [hcd] at hhold
      exact hhold.elim

/-! ## Pages come and go -/

theorem Stored.pageAlloc (h : Stored P s) (p : Page) : Stored P (s.pageAlloc p) where
  pgp_lt := h.pgp_lt
  pcd_lt := h.pcd_lt
  page_lt := by
    intro f p' hp
    change Function.update s.pages s.nextPage (some p) f = some p' at hp
    change f < s.nextPage + 1
    by_cases hf : f = s.nextPage
    · omega
    · rw [Function.update_of_ne hf] at hp
      exact Nat.lt_succ_of_lt (h.page_lt hp)
  wf := h.wf
  content := h.content
  member := h.member
  sibling := h.sibling
  nodup := h.nodup
  count := h.count
  owned := by
    intro o f ho
    obtain ⟨p', hp⟩ := h.owned (o := o) ho
    refine ⟨p', ?_⟩
    change Function.update s.pages s.nextPage (some p) f = some p'
    rw [Function.update_of_ne (Nat.ne_of_lt (h.page_lt hp))]
    exact hp
  unique := by
    intro o o' f ho ho'
    exact h.unique (show s.Owns o f from ho) ho'
  pages := by
    change s.pageCount + 1 = ∑ f ∈ Finset.range (s.nextPage + 1),
      if (Function.update s.pages s.nextPage (some p) f).isSome then 1 else 0
    rw [Finset.sum_range_succ, Function.update_self, h.pages]
    congr 1
    apply Finset.sum_congr rfl
    intro f hf
    rw [Function.update_of_ne (Nat.ne_of_lt (Finset.mem_range.1 hf))]

theorem Stored.pageFree (h : Stored P s) (hp : s.pages f = some p) (hfree : ∀ o, ¬ s.Owns o f) :
    Stored P (s.pageFree (.pfp f)) where
  pgp_lt := h.pgp_lt
  pcd_lt := h.pcd_lt
  page_lt := by
    intro f' p' hp'
    change Function.update s.pages f none f' = some p' at hp'
    by_cases hf : f' = f
    · rw [hf, Function.update_self] at hp'
      exact absurd hp' (Option.some_ne_none p').symm
    · rw [Function.update_of_ne hf] at hp'
      exact h.page_lt hp'
  wf := h.wf
  content := h.content
  member := h.member
  sibling := h.sibling
  nodup := h.nodup
  count := h.count
  owned := by
    intro o f' ho
    obtain ⟨p', hp'⟩ := h.owned (o := o) ho
    refine ⟨p', ?_⟩
    change Function.update s.pages f none f' = some p'
    rw [Function.update_of_ne]
    · exact hp'
    · rintro rfl
      exact hfree o ho
  unique := by
    intro o o' f ho ho'
    exact h.unique (show s.Owns o f from ho) ho'
  pages := by
    change s.pageCount - 1 = ∑ f' ∈ Finset.range s.nextPage, if (Function.update s.pages f none f').isSome then 1 else 0
    have hsum := Totals.sum_update (Finset.mem_range.2 (h.page_lt hp)) s.pages none
      fun _ (v : Option Page) => if v.isSome then (1 : Int) else 0
    have hpages := h.pages
    simp only [hp, Option.isSome_some, if_true, Option.isSome_none, Bool.false_eq_true, if_false, add_zero] at hsum
    omega

/-! ## Data of descriptors -/

theorem Stored.setData {n : Nat} (h : Stored P s) (hg : s.pgps i = some g) (hfb : g.firstbyte = none)
    (hwf : Pgp.Wf P { g with data := d, size := n })
    (hown : ∀ f, d = .pfp f → (∃ p, s.pages f = some p) ∧ ∀ o, s.Owns o f → o = .pgp i) :
    Stored P (s.setData i d n) := by
  have hgwf := h.wf hg
  have hold : ∀ q, g.data ≠ .pcd q := by
    intro q hd
    unfold Pgp.Wf at hgwf
    rw [hd] at hgwf
    rw [hfb] at hgwf
    exact absurd hgwf.1 (by decide)
  have hnew : ∀ q, d ≠ .pcd q := by
    intro q hd
    subst hd
    exact absurd (hfb ▸ hwf.1) (by simp)
  have hpgps : ∀ j, (s.setData i d n).pgps j = if j = i then some { g with data := d, size := n } else s.pgps j := by
    intro j
    change Function.update s.pgps i (some { s.pgp i with data := d, size := n }) j = _
    rw [State.pgp_of hg, Function.update_apply]
  have howns : ∀ o f, (s.setData i d n).Owns o f → (o = .pgp i ∧ d = .pfp f) ∨ (o ≠ .pgp i ∧ s.Owns o f) := by
    intro o f ho
    cases o with
    | pgp j =>
      obtain ⟨g', hg', hd'⟩ := ho
      rw [hpgps] at hg'
      split at hg'
      · rename_i hj
        cases hg'
        exact .inl ⟨by rw [hj], hd'⟩
      · rename_i hj
        refine .inr ⟨?_, g', hg', hd'⟩
        rintro ⟨⟩
        exact hj rfl
    | pcd q => exact .inr ⟨Owner.noConfusion, ho⟩
  constructor
  · intro j g' hg'
    rw [hpgps] at hg'
    split at hg'
    · rename_i hj
      rw [hj]
      exact h.pgp_lt hg
    · exact h.pgp_lt hg'
  · exact h.pcd_lt
  · exact h.page_lt
  · intro j g' hg'
    rw [hpgps] at hg'
    split at hg'
    · cases hg'
      exact hwf
    · exact h.wf hg'
  · exact h.content
  · intro j g' q hg' hd'
    rw [hpgps] at hg'
    split at hg'
    · cases hg'
      exact absurd hd' (hnew q)
    · exact h.member hg' hd'
  · intro q c j hc hj
    obtain ⟨g', hg', hd'⟩ := h.sibling hc hj
    refine ⟨g', ?_, hd'⟩
    rw [hpgps, if_neg]
    · exact hg'
    · rintro rfl
      rw [hg] at hg'
      cases hg'
      exact hold q hd'
  · exact h.nodup
  · exact h.count
  · intro o f ho
    rcases howns o f ho with ⟨-, hd'⟩ | ⟨-, ho'⟩
    · exact (hown f hd').1
    · exact h.owned ho'
  · intro o o' f ho ho'
    rcases howns o f ho with ⟨ho1, hd1⟩ | ⟨hne1, ho1⟩
    · rcases howns o' f ho' with ⟨ho2, -⟩ | ⟨hne2, ho2⟩
      · rw [ho1, ho2]
      · exact absurd ((hown f hd1).2 o' ho2) hne2
    · rcases howns o' f ho' with ⟨-, hd2⟩ | ⟨hne2, ho2⟩
      · exact absurd ((hown f hd2).2 o ho1) hne1
      · exact h.unique ho1 ho2
  · exact h.pages

/-- Other fields of a descriptor with a content are set. -/
theorem Stored.retag {g' : Pgp} (h : Stored P s) (hg : s.pgps i = some g) (hd : g.data = .pcd q) (hd' : g'.data = .pcd q)
    (hwf : g'.Wf P) : Stored P { s with pgps := Function.update s.pgps i (some g') } := by
  -- the data is the same for every descriptor
  have hback : ∀ {j g₁}, Function.update s.pgps i (some g') j = some g₁ →
      ∃ g₀, s.pgps j = some g₀ ∧ g₀.data = g₁.data ∧ (g₀.Wf P → g₁.Wf P) := by
    intro j g₁ hg₁
    rw [Function.update_apply] at hg₁
    split at hg₁
    · rename_i hj
      cases hg₁
      exact ⟨g, by rw [hj, hg], hd.trans hd'.symm, fun _ => hwf⟩
    · exact ⟨g₁, hg₁, rfl, id⟩
  have howns : ∀ o f, State.Owns { s with pgps := Function.update s.pgps i (some g') } o f → s.Owns o f := by
    intro o f ho
    cases o with
    | pgp j =>
      obtain ⟨g₁, hg₁, hd₁⟩ := ho
      obtain ⟨g₀, hg₀, hdata, -⟩ := hback hg₁
      exact ⟨g₀, hg₀, hdata.trans hd₁⟩
    | pcd q => exact ho
  constructor
  · intro j g₁ hg₁
    obtain ⟨g₀, hg₀, -⟩ := hback hg₁
    exact h.pgp_lt hg₀
  · exact h.pcd_lt
  · exact h.page_lt
  · intro j g₁ hg₁
    obtain ⟨g₀, hg₀, -, hwf₁⟩ := hback hg₁
    exact hwf₁ (h.wf hg₀)
  · exact h.content
  · intro j g₁ q' hg₁ hd₁
    obtain ⟨g₀, hg₀, hdata, -⟩ := hback hg₁
    exact h.member hg₀ (hdata.trans hd₁)
  · intro q' c j hc hj
    obtain ⟨g₁, hg₁, hd₁⟩ := h.sibling hc hj
    dsimp only
    rw [Function.update_apply]
    split
    · rename_i hji
      rw [hji, hg] at hg₁
      cases hg₁
      exact ⟨g', rfl, hd'.trans (hd.symm.trans hd₁)⟩
    · exact ⟨g₁, hg₁, hd₁⟩
  · exact h.nodup
  · exact h.count
  · intro o f ho
    exact h.owned (howns o f ho)
  · intro o o' f ho ho'
    exact h.unique (howns o f ho) (howns o' f ho')
  · exact h.pages

theorem Stored.setSize (h : Stored P s) (hg : s.pgps i = some g) (hd : g.data = .pcd q) (n : Nat) :
    Stored P (s.setData i (.pcd q) n) := by
  have hwf := h.wf hg
  unfold Pgp.Wf at hwf
  rw [hd] at hwf
  unfold State.setData
  rw [State.pgp_of hg]
  exact h.retag hg hd rfl hwf

/-- An eviction has been tried. -/
theorem Stored.attempted (h : Stored P s) (hg : s.pgps i = some g) (hd : g.data = .pcd q) : Stored P (s.attempted i) := by
  have hwf := h.wf hg
  unfold Pgp.Wf at hwf
  rw [hd] at hwf
  unfold State.attempted
  rw [State.pgp_of hg]
  refine h.retag hg hd hd ?_
  unfold Pgp.Wf
  rw [hd]
  exact hwf

/-! ## Contents -/

/-- A descriptor and a content are changed together; the content stays what it is, and the descriptor has no
page. -/
theorem Stored.relink {g' : Pgp} {c' : Pcd} (h : Stored P s) (hg : s.pgps i = some g) (hc : s.pcds q = some c)
    (hold : ∀ q', g.data = .pcd q' → q' = q) (hnew : ∀ q', g'.data = .pcd q' → q' = q)
    (hpage : ∀ f, g'.data ≠ .pfp f) (hwf : g'.Wf P) (hdata : c'.data = c.data) (hsize : c'.size = c.size)
    (hmem : ∀ j, j ∈ c'.pgpList ↔ if j = i then g'.data = .pcd q else j ∈ c.pgpList) (hnodup : c'.pgpList.Nodup)
    (hcount : c'.refCount = c'.pgpList.length) :
    Stored P { s with
      pcds := Function.update s.pcds q (some c')
      pgps := Function.update s.pgps i (some g') } := by
  have howns : ∀ o f, State.Owns { s with
      pcds := Function.update s.pcds q (some c')
      pgps := Function.update s.pgps i (some g') } o f → s.Owns o f := by
    intro o f ho
    cases o with
    | pgp j =>
      obtain ⟨g₁, hg₁, hd₁⟩ := ho
      dsimp only at hg₁
      rw [Function.update_apply] at hg₁
      split at hg₁
      · cases hg₁
        exact absurd hd₁ (hpage f)
      · exact ⟨g₁, hg₁, hd₁⟩
    | pcd q' =>
      obtain ⟨c₁, hc₁, hd₁⟩ := ho
      dsimp only at hc₁
      rw [Function.update_apply] at hc₁
      split at hc₁
      · rename_i hq
        cases hc₁
        exact ⟨c, by rw [hq, hc], hdata.symm.trans hd₁⟩
      · exact ⟨c₁, hc₁, hd₁⟩
  constructor
  · intro j g₁ hg₁
    dsimp only at hg₁
    rw [Function.update_apply] at hg₁
    split at hg₁
    · rename_i hj
      rw [hj]
      exact h.pgp_lt hg
    · exact h.pgp_lt hg₁
  · intro q' c₁ hc₁
    dsimp only at hc₁
    rw [Function.update_apply] at hc₁
    split at hc₁
    · rename_i hq
      rw [hq]
      exact h.pcd_lt hc
    · exact h.pcd_lt hc₁
  · exact h.page_lt
  · intro j g₁ hg₁
    dsimp only at hg₁
    rw [Function.update_apply] at hg₁
    split at hg₁
    · cases hg₁
      exact hwf
    · exact h.wf hg₁
  · intro q' c₁ hc₁
    dsimp only at hc₁
    rw [Function.update_apply] at hc₁
    split at hc₁
    · cases hc₁
      have hcwf := h.content hc
      unfold Pcd.Wf at hcwf ⊢
      rw [hdata, hsize]
      exact hcwf
    · exact h.content hc₁
  · intro j g₁ q' hg₁ hd₁
    dsimp only at hg₁ ⊢
    rw [Function.update_apply] at hg₁ ⊢
    split at hg₁
    · rename_i hj
      cases hg₁
      have hq := hnew q' hd₁
      rw [if_pos hq]
      refine ⟨c', rfl, (hmem j).2 ?_⟩
      rw [if_pos hj, ← hq]
      exact hd₁
    · rename_i hj
      obtain ⟨c₁, hc₁, hin⟩ := h.member hg₁ hd₁
      split
      · rename_i hq
        rw [hq, hc] at hc₁
        cases hc₁
        refine ⟨c', rfl, (hmem j).2 ?_⟩
        rw [if_neg hj]
        exact hin
      · exact ⟨c₁, hc₁, hin⟩
  · intro q' c₁ j hc₁ hj
    dsimp only at hc₁ ⊢
    rw [Function.update_apply] at hc₁ ⊢
    split at hc₁
    · rename_i hq
      cases hc₁
      have hj' := (hmem j).1 hj
      split
      · rename_i hji
        rw [if_pos hji] at hj'
        exact ⟨g', rfl, by rw [hq]; exact hj'⟩
      · rename_i hji
        rw [if_neg hji] at hj'
        rw [hq]
        exact h.sibling hc hj'
    · rename_i hq
      obtain ⟨g₁, hg₁, hd₁⟩ := h.sibling hc₁ hj
      split
      · rename_i hji
        rw [hji, hg] at hg₁
        cases hg₁
        exact absurd (hold q' hd₁) hq
      · exact ⟨g₁, hg₁, hd₁⟩
  · intro q' c₁ hc₁
    dsimp only at hc₁
    rw [Function.update_apply] at hc₁
    split at hc₁
    · cases hc₁
      exact hnodup
    · exact h.nodup hc₁
  · intro q' c₁ hc₁
    dsimp only at hc₁
    rw [Function.update_apply] at hc₁
    split at hc₁
    · cases hc₁
      exact hcount
    · exact h.count hc₁
  · intro o f ho
    exact h.owned (howns o f ho)
  · intro o o' f ho ho'
    exact h.unique (howns o f ho) (howns o' f ho')
  · exact h.pages

theorem Stored.unlink (h : Stored P s) (hg : s.pgps i = some g) (hd : g.data = .pcd q) : Stored P (s.unlink i q) := by
  obtain ⟨c, hc, hin⟩ := h.member hg hd
  have hnodup := h.nodup hc
  unfold State.unlink State.clear
  rw [State.pgp_of hg, State.pcd_of hc]
  refine h.relink hg hc ?_ ?_ ?_ ?_ rfl rfl ?_ ?_ ?_
  · intro q' hd'
    exact Data.pcd.inj (hd'.symm.trans hd)
  · intro q' hd'
    exact Data.noConfusion hd'
  · intro f hd'
    exact Data.noConfusion hd'
  · rfl
  · intro j
    split
    · rename_i hj
      rw [hj]
      exact iff_of_false hnodup.not_mem_erase Data.noConfusion
    · rename_i hj
      exact List.mem_erase_of_ne hj
  · exact hnodup.erase i
  · have hlen := List.length_erase_of_mem hin
    have hpos := List.length_pos_of_mem hin
    have hcount := h.count hc
    dsimp only
    omega

theorem Stored.link (h : Stored P s) (hg : s.pgps i = some g) (hfb : g.firstbyte = none) (hc : s.pcds q = some c)
    (hdedup : P.dedup = true) (hpers : P.persistent g.key.obj.pool = false) : Stored P (s.link i q) := by
  have hold : ∀ q', g.data ≠ .pcd q' := by
    intro q' hd
    have hwf := h.wf hg
    unfold Pgp.Wf at hwf
    rw [hd] at hwf
    rw [hfb] at hwf
    exact absurd hwf.1 (by decide)
  have hout : i ∉ c.pgpList := by
    intro hin
    obtain ⟨g', hg', hd'⟩ := h.sibling hc hin
    rw [hg] at hg'
    cases hg'
    exact hold q hd'
  unfold State.link
  rw [State.pgp_of hg, State.pcd_of hc]
  refine h.relink hg hc ?_ ?_ ?_ ?_ rfl rfl ?_ ?_ ?_
  · intro q' hd'
    exact absurd hd' (hold q')
  · intro q' hd'
    exact (Data.pcd.inj hd').symm
  · intro f hd'
    exact Data.noConfusion hd'
  · exact ⟨rfl, hdedup, hpers⟩
  · intro j
    rw [List.mem_cons]
    split
    · rename_i hj
      exact iff_of_true (.inl hj) rfl
    · rename_i hj
      exact ⟨fun hor => hor.resolve_left hj, .inr⟩
  · exact List.nodup_cons.2 ⟨hout, h.nodup hc⟩
  · have hcount := h.count hc
    rw [List.length_cons]
    dsimp only
    omega

/-- A content that nobody has goes. -/
theorem Stored.dropPcd (h : Stored P s) (hc : s.pcds q = some c) (hnone : c.pgpList = []) : Stored P (s.dropPcd q) := by
  have hback : ∀ {q' c'}, (s.dropPcd q).pcds q' = some c' → q' ≠ q ∧ s.pcds q' = some c' := by
    intro q' c' hc'
    change Function.update s.pcds q none q' = some c' at hc'
    rw [Function.update_apply] at hc'
    split at hc'
    · exact absurd hc' (Option.some_ne_none c').symm
    · exact ⟨‹_›, hc'⟩
  have howns : ∀ o f, (s.dropPcd q).Owns o f → s.Owns o f := by
    intro o f ho
    cases o with
    | pgp j => exact ho
    | pcd q' =>
      obtain ⟨c', hc', hd'⟩ := ho
      exact ⟨c', (hback hc').2, hd'⟩
  constructor
  · exact h.pgp_lt
  · intro q' c' hc'
    exact h.pcd_lt (hback hc').2
  · exact h.page_lt
  · exact h.wf
  · intro q' c' hc'
    exact h.content (hback hc').2
  · intro j g' q' hg' hd'
    obtain ⟨c', hc', hin⟩ := h.member hg' hd'
    refine ⟨c', ?_, hin⟩
    change Function.update s.pcds q none q' = some c'
    rw [Function.update_of_ne]
    · exact hc'
    · rintro rfl
      rw [hc] at hc'
      cases hc'
      rw [hnone] at hin
      exact absurd hin List.not_mem_nil
  · intro q' c' j hc' hj
    exact h.sibling (hback hc').2 hj
  · intro q' c' hc'
    exact h.nodup (hback hc').2
  · intro q' c' hc'
    exact h.count (hback hc').2
  · intro o f ho
    exact h.owned (howns o f ho)
  · intro o o' f ho ho'
    exact h.unique (howns o f ho) (howns o' f ho')
  · exact h.pages

/-- A new content, with a page that nobody has. -/
theorem Stored.newPcd {firstbyte size : Nat} (h : Stored P s) (hwf : Pcd.Wf ⟨firstbyte, size, d, 0, []⟩)
    (hown : ∀ f, d = .pfp f → (∃ p, s.pages f = some p) ∧ ∀ o, ¬ s.Owns o f) :
    Stored P (s.newPcd firstbyte size d) := by
  have hback : ∀ {q' c'}, (s.newPcd firstbyte size d).pcds q' = some c' →
      (q' = s.nextPcd ∧ c' = ⟨firstbyte, size, d, 0, []⟩) ∨ (q' ≠ s.nextPcd ∧ s.pcds q' = some c') := by
    intro q' c' hc'
    change Function.update s.pcds s.nextPcd (some ⟨firstbyte, size, d, 0, []⟩) q' = some c' at hc'
    rw [Function.update_apply] at hc'
    split at hc'
    · cases hc'
      exact .inl ⟨‹_›, rfl⟩
    · exact .inr ⟨‹_›, hc'⟩
  have howns : ∀ o f, (s.newPcd firstbyte size d).Owns o f → (o = .pcd s.nextPcd ∧ d = .pfp f) ∨ s.Owns o f := by
    intro o f ho
    cases o with
    | pgp j => exact .inr ho
    | pcd q' =>
      obtain ⟨c', hc', hd'⟩ := ho
      rcases hback hc' with ⟨rfl, rfl⟩ | ⟨-, hc'⟩
      · exact .inl ⟨rfl, hd'⟩
      · exact .inr ⟨c', hc', hd'⟩
  constructor
  · exact h.pgp_lt
  · intro q' c' hc'
    change q' < s.nextPcd + 1
    rcases hback hc' with ⟨rfl, -⟩ | ⟨-, hc'⟩
    · exact Nat.lt_succ_self _
    · exact Nat.lt_succ_of_lt (h.pcd_lt hc')
  · exact h.page_lt
  · exact h.wf
  · intro q' c' hc'
    rcases hback hc' with ⟨-, rfl⟩ | ⟨-, hc'⟩
    · exact hwf
    · exact h.content hc'
  · intro j g' q' hg' hd'
    obtain ⟨c', hc', hin⟩ := h.member hg' hd'
    refine ⟨c', ?_, hin⟩
    change Function.update s.pcds s.nextPcd _ q' = some c'
    rw [Function.update_of_ne (Nat.ne_of_lt (h.pcd_lt hc'))]
    exact hc'
  · intro q' c' j hc' hj
    rcases hback hc' with ⟨-, rfl⟩ | ⟨-, hc'⟩
    · exact absurd hj List.not_mem_nil
    · exact h.sibling hc' hj
  · intro q' c' hc'
    rcases hback hc' with ⟨-, rfl⟩ | ⟨-, hc'⟩
    · exact List.nodup_nil
    · exact h.nodup hc'
  · intro q' c' hc'
    rcases hback hc' with ⟨-, rfl⟩ | ⟨-, hc'⟩
    · rfl
    · exact h.count hc'
  · intro o f ho
    rcases howns o f ho with ⟨-, hd'⟩ | ho
    · exact (hown f hd').1
    · exact h.owned ho
  · intro o o' f ho ho'
    rcases howns o f ho with ⟨ho1, hd1⟩ | ho1
    · rcases howns o' f ho' with ⟨ho2, -⟩ | ho2
      · rw [ho1, ho2]
      · exact absurd ho2 ((hown f hd1).2 o')
    · rcases howns o' f ho' with ⟨-, hd2⟩ | ho2
      · exact absurd ho1 ((hown f hd2).2 o)
      · exact h.unique ho1 ho2
  · exact h.pages

/-! ## What the other descriptors have -/

/-- Where the descriptors are, and the locks. -/
structure SameIndex (s s' : State) : Prop where
  objs : s'.objs = s.objs
  locked : s'.locked = s.locked
  tree : s'.tree = s.tree
  nextPgp : s'.nextPgp = s.nextPgp
  eph : s'.eph = s.eph
  clientEph : s'.clientEph = s.clientEph
  globalEphCount : s'.globalEphCount = s.globalEphCount
  ephCount : s'.ephCount = s.ephCount
  poolCount : s'.poolCount = s.poolCount

/-- Only the data of one descriptor changes. -/
structure Changes (P : Settings) (i : Nat) (s s' : State) : Prop where
  stored : Stored P s'
  holds : ∀ j, j ≠ i → ∀ p, s.Holds P j p → s'.Holds P j p
  other : ∀ j, j ≠ i → s'.pgps j = s.pgps j
  key : ∀ {g}, s.pgps i = some g → ∃ g', s'.pgps i = some g' ∧ g'.key = g.key
  index : SameIndex s s'

theorem Changes.refl (h : Stored P s) : Changes P i s s where
  stored := h
  holds := fun _ _ _ hp => hp
  other := fun _ _ => rfl
  key := fun hg => ⟨_, hg, rfl⟩
  index := ⟨rfl, rfl, rfl, rfl, rfl, rfl, rfl, rfl, rfl⟩

theorem Changes.trans {s₁ s₂ s₃ : State} (h : Changes P i s₁ s₂) (h' : Changes P i s₂ s₃) : Changes P i s₁ s₃ where
  stored := h'.stored
  holds := fun j hj p hp => h'.holds j hj p (h.holds j hj p hp)
  other := fun j hj => (h'.other j hj).trans (h.other j hj)
  key := by
    intro g hg
    obtain ⟨g₂, hg₂, hk₂⟩ := h.key hg
    obtain ⟨g₃, hg₃, hk₃⟩ := h'.key hg₂
    exact ⟨g₃, hg₃, hk₃.trans hk₂⟩
  index :=
    ⟨h'.index.objs.trans h.index.objs, h'.index.locked.trans h.index.locked, h'.index.tree.trans h.index.tree,
      h'.index.nextPgp.trans h.index.nextPgp, h'.index.eph.trans h.index.eph,
      h'.index.clientEph.trans h.index.clientEph, h'.index.globalEphCount.trans h.index.globalEphCount,
      h'.index.ephCount.trans h.index.ephCount, h'.index.poolCount.trans h.index.poolCount⟩

/-- A descriptor has what it had, if its contents and all pages with an owner are the same. -/
theorem Stored.holds_congr (h : Stored P s) (hp : s.Holds P j p) (hpgp : s'.pgps j = s.pgps j)
    (hpcd : ∀ q c, s.pcds q = some c → j ∈ c.pgpList → ∃ c', s'.pcds q = some c' ∧ c'.data = c.data ∧ c'.size = c.size)
    (hpage : ∀ f p, s.pages f = some p → (∃ o, s.Owns o f) → s'.pages f = some p) : s'.Holds P j p := by
  obtain ⟨g, hg, hdata⟩ := hp
  refine ⟨g, hpgp.trans hg, ?_⟩
  cases hd : g.data with
  | null =>
    rw [hd] at hdata
    exact hdata
  | pfp f =>
    rw [hd] at hdata
    exact hpage f p hdata ⟨.pgp j, g, hg, hd⟩
  | buf b =>
    rw [hd] at hdata
    exact hdata
  | pcd q =>
    rw [hd] at hdata
    obtain ⟨c, hc, hhold⟩ := hdata
    obtain ⟨c₀, hc₀, hin⟩ := h.member hg hd
    rw [hc] at hc₀
    cases hc₀
    obtain ⟨c', hc', hd', hsize'⟩ := hpcd q c hc hin
    refine ⟨c', hc', ?_⟩
    unfold Pcd.Holds at hhold ⊢
    rw [hd', hsize']
    cases hcd : c.data with
    | pfp f =>
      rw [hcd] at hhold
      exact ⟨hhold.1, hhold.2.1, hpage f p hhold.2.2 ⟨.pcd q, c, hc, hcd⟩⟩
    | _ =>
      rw [hcd] at hhold
      exact hhold

theorem Stored.changes_pageAlloc (h : Stored P s) (p : Page) : Changes P i s (s.pageAlloc p) where
  stored := h.pageAlloc p
  holds := by
    intro j _ p' hp'
    refine h.holds_congr hp' rfl (fun q c hc _ => ⟨c, hc, rfl, rfl⟩) ?_
    intro f p'' hp'' _
    change Function.update s.pages s.nextPage (some p) f = some p''
    rw [Function.update_of_ne (Nat.ne_of_lt (h.page_lt hp''))]
    exact hp''
  other := fun _ _ => rfl
  key := fun hg => ⟨_, hg, rfl⟩
  index := ⟨rfl, rfl, rfl, rfl, rfl, rfl, rfl, rfl, rfl⟩

theorem Stored.changes_pageFree (h : Stored P s) (hp : s.pages f = some p) (hfree : ∀ o, ¬ s.Owns o f) :
    Changes P i s (s.pageFree (.pfp f)) where
  stored := h.pageFree hp hfree
  holds := by
    intro j _ p' hp'
    refine h.holds_congr hp' rfl (fun q c hc _ => ⟨c, hc, rfl, rfl⟩) ?_
    rintro f' p'' hp'' ⟨o, ho⟩
    change Function.update s.pages f none f' = some p''
    rw [Function.update_of_ne]
    · exact hp''
    · rintro rfl
      exact hfree o ho
  other := fun _ _ => rfl
  key := fun hg => ⟨_, hg, rfl⟩
  index := ⟨rfl, rfl, rfl, rfl, rfl, rfl, rfl, rfl, rfl⟩

theorem Stored.changes_setData {n : Nat} (h : Stored P s) (hs : Stored P (s.setData i d n)) :
    Changes P i s (s.setData i d n) where
  stored := hs
  holds := by
    intro j hj p' hp'
    exact h.holds_congr hp' (Function.update_of_ne hj _ _) (fun q c hc _ => ⟨c, hc, rfl, rfl⟩) fun f p hp _ => hp
  other := fun j hj => Function.update_of_ne hj _ _
  key := by
    intro g' hg'
    refine ⟨_, Function.update_self .., ?_⟩
    rw [State.pgp_of hg']
  index := ⟨rfl, rfl, rfl, rfl, rfl, rfl, rfl, rfl, rfl⟩

/-- A descriptor and a content have been changed together. -/
theorem Stored.changes_relink {g' : Pgp} {c' : Pcd} (h : Stored P s) (hkey : g'.key = (s.pgp i).key)
    (hdata : c'.data = (s.pcd q).data) (hsize : c'.size = (s.pcd q).size)
    (hs : Stored P { s with
      pcds := Function.update s.pcds q (some c')
      pgps := Function.update s.pgps i (some g') }) :
    Changes P i s { s with
      pcds := Function.update s.pcds q (some c')
      pgps := Function.update s.pgps i (some g') } where
  stored := hs
  holds := by
    intro j hj p' hp'
    refine h.holds_congr hp' (Function.update_of_ne hj _ _) ?_ fun f p hp _ => hp
    intro q' c hc hin
    by_cases hq : q' = q
    · subst hq
      rw [State.pcd_of hc] at hdata hsize
      exact ⟨c', Function.update_self .., hdata, hsize⟩
    · exact ⟨c, (Function.update_of_ne hq _ _).trans hc, rfl, rfl⟩
  other := fun j hj => Function.update_of_ne hj _ _
  key := by
    intro g hg
    rw [State.pgp_of hg] at hkey
    exact ⟨g', Function.update_self .., hkey⟩
  index := ⟨rfl, rfl, rfl, rfl, rfl, rfl, rfl, rfl, rfl⟩

theorem Stored.changes_unlink (h : Stored P s) (hg : s.pgps i = some g) (hd : g.data = .pcd q) :
    Changes P i s (s.unlink i q) :=
  h.changes_relink rfl rfl rfl (h.unlink hg hd)

theorem Stored.changes_link (h : Stored P s) (hs : Stored P (s.link i q)) : Changes P i s (s.link i q) :=
  h.changes_relink rfl rfl rfl hs

theorem Stored.changes_dropPcd (h : Stored P s) (hc : s.pcds q = some c) (hnone : c.pgpList = []) :
    Changes P i s (s.dropPcd q) where
  stored := h.dropPcd hc hnone
  holds := by
    intro j _ p' hp'
    refine h.holds_congr hp' rfl ?_ fun f p hp _ => hp
    intro q' c' hc' hin
    refine ⟨c', ?_, rfl, rfl⟩
    refine (Function.update_of_ne ?_ _ _).trans hc'
    rintro rfl
    rw [hc] at hc'
    cases hc'
    rw [hnone] at hin
    exact absurd hin List.not_mem_nil
  other := fun _ _ => rfl
  key := fun hg => ⟨_, hg, rfl⟩
  index := ⟨rfl, rfl, rfl, rfl, rfl, rfl, rfl, rfl, rfl⟩

theorem Stored.changes_newPcd {firstbyte size : Nat} (h : Stored P s) (hs : Stored P (s.newPcd firstbyte size d)) :
    Changes P i s (s.newPcd firstbyte size d) where
  stored := hs
  holds := by
    intro j _ p' hp'
    refine h.holds_congr hp' rfl ?_ fun f p hp _ => hp
    intro q c hc _
    exact ⟨c, (Function.update_of_ne (Nat.ne_of_lt (h.pcd_lt hc)) _ _).trans hc, rfl, rfl⟩
  other := fun _ _ => rfl
  key := fun hg => ⟨_, hg, rfl⟩
  index := ⟨rfl, rfl, rfl, rfl, rfl, rfl, rfl, rfl, rfl⟩

/-! ## Descriptors come and go -/

/-- The data is the same. -/
structure SameData (s s' : State) : Prop where
  pgps : s'.pgps = s.pgps
  pcds : s'.pcds = s.pcds
  pages : s'.pages = s.pages
  nextPgp : s'.nextPgp = s.nextPgp
  nextPcd : s'.nextPcd = s.nextPcd
  nextPage : s'.nextPage = s.nextPage
  pageCount : s'.pageCount = s.pageCount
  compressedPages : s'.compressedPages = s.compressedPages
  compressedSum : s'.compressedSum = s.compressedSum

theorem SameData.owns (h : SameData s s') (o : Owner) (f : Nat) : s'.Owns o f ↔ s.Owns o f := by
  cases o with
  | pgp i =>
    unfold State.Owns
    rw [h.pgps]
  | pcd q =>
    unfold State.Owns
    rw [h.pcds]

theorem SameData.holds (h : SameData s s') (i : Nat) (p : Page) : s'.Holds P i p ↔ s.Holds P i p := by
  unfold State.Holds
  rw [h.pgps, h.pcds, h.pages]

theorem Stored.congr (h : Stored P s) (hs : SameData s s') : Stored P s' where
  pgp_lt := by
    rw [hs.pgps, hs.nextPgp]
    exact h.pgp_lt
  pcd_lt := by
    rw [hs.pcds, hs.nextPcd]
    exact h.pcd_lt
  page_lt := by
    rw [hs.pages, hs.nextPage]
    exact h.page_lt
  wf := by
    rw [hs.pgps]
    exact h.wf
  content := by
    rw [hs.pcds]
    exact h.content
  member := by
    rw [hs.pgps, hs.pcds]
    exact h.member
  sibling := by
    rw [hs.pgps, hs.pcds]
    exact h.sibling
  nodup := by
    rw [hs.pcds]
    exact h.nodup
  count := by
    rw [hs.pcds]
    exact h.count
  owned := by
    intro o f ho
    rw [hs.pages]
    exact h.owned ((hs.owns o f).1 ho)
  unique := by
    intro o o' f ho ho'
    exact h.unique ((hs.owns o f).1 ho) ((hs.owns o' f).1 ho')
  pages := by
    rw [hs.pages, hs.nextPage, hs.pageCount]
    exact h.pages

/-- A descriptor comes, or goes, that has no data. -/
theorem Stored.update_pgps {v : Option Pgp} {n : Nat} (h : Stored P s) (hold : ∀ g, s.pgps i = some g → g.data = .null)
    (hnew : ∀ g, v = some g → g.data = .null ∧ g.Wf P ∧ i < n) (hn : s.nextPgp ≤ n) (poolCount : Nat → Int) :
    Stored P { s with pgps := Function.update s.pgps i v, nextPgp := n, poolCount := poolCount } := by
  have hback : ∀ {j g d}, Function.update s.pgps i v j = some g → g.data = d → d ≠ .null → s.pgps j = some g := by
    intro j g d hg hd hne
    rw [Function.update_apply] at hg
    split at hg
    · exact absurd (hd.symm.trans (hnew g hg).1) hne
    · exact hg
  have howns : ∀ o f, State.Owns { s with pgps := Function.update s.pgps i v, nextPgp := n, poolCount := poolCount } o f →
      s.Owns o f := by
    intro o f ho
    cases o with
    | pgp j =>
      obtain ⟨g, hg, hd⟩ := ho
      exact ⟨g, hback hg hd Data.noConfusion, hd⟩
    | pcd q => exact ho
  constructor
  · intro j g hg
    dsimp only at hg ⊢
    rw [Function.update_apply] at hg
    split at hg
    · rename_i hj
      rw [hj]
      exact (hnew g hg).2.2
    · exact Nat.lt_of_lt_of_le (h.pgp_lt hg) hn
  · exact h.pcd_lt
  · exact h.page_lt
  · intro j g hg
    dsimp only at hg
    rw [Function.update_apply] at hg
    split at hg
    · exact (hnew g hg).2.1
    · exact h.wf hg
  · exact h.content
  · intro j g q hg hd
    exact h.member (hback hg hd Data.noConfusion) hd
  · intro q c j hc hj
    obtain ⟨g, hg, hd⟩ := h.sibling hc hj
    refine ⟨g, ?_, hd⟩
    dsimp only
    rw [Function.update_of_ne]
    · exact hg
    · rintro rfl
      exact Data.noConfusion (hd.symm.trans (hold g hg))
  · exact h.nodup
  · exact h.count
  · intro o f ho
    exact h.owned (howns o f ho)
  · intro o o' f ho ho'
    exact h.unique (howns o f ho) (howns o' f ho')
  · exact h.pages

/-- What the others have is the same. -/
theorem Stored.update_holds {v : Option Pgp} {n : Nat} (h : Stored P s) (poolCount : Nat → Int) (hj : j ≠ i)
    (hp : s.Holds P j p) :
    State.Holds P { s with pgps := Function.update s.pgps i v, nextPgp := n, poolCount := poolCount } j p :=
  h.holds_congr hp (Function.update_of_ne hj _ _) (fun _ c hc _ => ⟨c, hc, rfl, rfl⟩) fun _ _ hp _ => hp

end Tmem
