import MemoryMonitor.Tmem.Stored

/-!
# Associating pages with contents

The specifications of `pcd_associate`, `pcd_disassociate`, `pgp_free_data` and of what a put does with the
client's page: what the descriptor has afterwards, and that only its data `Changes`.
-/

namespace Tmem

variable {P : Settings} {s s' : State} {i j q f : Nat} {g : Pgp} {c : Pcd} {d : Data} {p : Page}

/-- A descriptor without data. -/
def Pgp.bare (g : Pgp) : Pgp := { g with data := .null, size := noSize, firstbyte := none }

theorem Pgp.firstbyte_of_wf (h : g.Wf P) (hd : ∀ q, g.data ≠ .pcd q) : g.firstbyte = none := by
  unfold Pgp.Wf at h
  cases hcase : g.data with
  | null =>
    rw [hcase] at h
    exact h
  | pfp f =>
    rw [hcase] at h
    exact h.1
  | buf b =>
    rw [hcase] at h
    exact h.1
  | pcd q => exact absurd hcase (hd q)

theorem State.clear_eq (hg : s.pgps i = some g) (hfb : g.firstbyte = none) : s.clear i = s.setData i .null noSize := by
  unfold State.clear State.setData
  rw [State.pgp_of hg, ← hfb]

/-- A page whose descriptor has gone over to something else has no owner. -/
theorem Stored.not_owned (h : Stored P s) (hg : s.pgps i = some g) (hd : g.data = .pfp f)
    (hpcds : ∀ q c, s'.pcds q = some c → c.data = .pfp f → s.pcds q = some c)
    (hother : ∀ j, j ≠ i → s'.pgps j = s.pgps j) (hself : ∀ g', s'.pgps i = some g' → g'.data ≠ .pfp f) (o : Owner) :
    ¬ s'.Owns o f := by
  intro ho
  cases o with
  | pgp j =>
    obtain ⟨g', hg', hd'⟩ := ho
    by_cases hj : j = i
    · rw [hj] at hg'
      exact hself g' hg' hd'
    · rw [hother j hj] at hg'
      have heq := h.unique (o := .pgp j) (f := f) ⟨g', hg', hd'⟩ (show s.Owns (.pgp i) f from ⟨g, hg, hd⟩)
      exact hj (Owner.pgp.inj heq)
  | pcd q =>
    obtain ⟨c, hc, hd'⟩ := ho
    have heq := h.unique (o := .pcd q) (f := f) ⟨c, hpcds q c hc hd', hd'⟩ (show s.Owns (.pgp i) f from ⟨g, hg, hd⟩)
    exact Owner.noConfusion heq

/-! ## `pcd_disassociate` and `pgp_free_data` -/

theorem Stored.pcdDisassociate (h : Stored P s) (hg : s.pgps i = some g) (hd : g.data = .pcd q) :
    Changes P i s (s.pcdDisassociate i) ∧ (s.pcdDisassociate i).pgps i = some g.bare := by
  obtain ⟨c, hc, hin⟩ := h.member hg hd
  have hunlink := h.changes_unlink hg hd
  have hself : (s.unlink i q).pgps i = some g.bare := by
    refine (Function.update_self ..).trans ?_
    rw [State.pgp_of hg]
    rfl
  have hcontent : (s.unlink i q).pcds q = some { c with refCount := c.refCount - 1, pgpList := c.pgpList.erase i } := by
    refine (Function.update_self ..).trans ?_
    rw [State.pcd_of hc]
  unfold State.pcdDisassociate
  rw [State.pgp_of hg, hd]
  dsimp only
  rw [State.pcd_of hcontent, State.pcd_of hc]
  dsimp only
  split
  · exact ⟨hunlink, hself⟩
  · rename_i hcount
    -- it was the last one
    have hnone : c.pgpList.erase i = [] := by
      have hc' := hunlink.stored.count hcontent
      dsimp only at hc'
      rw [Decidable.not_not.1 hcount] at hc'
      exact List.length_eq_zero_iff.1 (by omega)
    have hdrop := hunlink.trans (hunlink.stored.changes_dropPcd (i := i) hcontent hnone)
    split
    · exact ⟨hdrop, hself⟩
    · split
      · exact ⟨hdrop, hself⟩
      · rename_i hsize
        have hwf := h.content hc
        unfold Pcd.Wf at hwf
        rw [Decidable.not_not.1 hsize] at hwf
        cases hcd : c.data with
        | null => exact ⟨hdrop, hself⟩
        | buf b => exact ⟨hdrop, hself⟩
        | pcd q' => exact ⟨hdrop, hself⟩
        | pfp f =>
          have hown : (s.unlink i q).Owns (.pcd q) f := ⟨_, hcontent, hcd⟩
          obtain ⟨p, hp⟩ := hunlink.stored.owned hown
          have hfree : ∀ o, ¬ ((s.unlink i q).dropPcd q).Owns o f := by
            intro o ho
            have hback : (s.unlink i q).Owns o f ∧ o ≠ .pcd q := by
              cases o with
              | pgp j => exact ⟨ho, Owner.noConfusion⟩
              | pcd q' =>
                obtain ⟨c', hc', hd'⟩ := ho
                change Function.update (s.unlink i q).pcds q none q' = some c' at hc'
                rw [Function.update_apply] at hc'
                split at hc'
                · exact absurd hc' (Option.some_ne_none c').symm
                · rename_i hq
                  refine ⟨⟨c', hc', hd'⟩, ?_⟩
                  rintro ⟨⟩
                  exact hq rfl
            exact hback.2 (hunlink.stored.unique hback.1 hown)
          exact ⟨hdrop.trans (hdrop.stored.changes_pageFree hp hfree), hself⟩

theorem Stored.changes_compressed (h : Stored P s) (client : Nat) (pages size : Int) :
    Changes P i s (s.compressed client pages size) where
  stored :=
    ⟨h.pgp_lt, h.pcd_lt, h.page_lt, h.wf, h.content, h.member, h.sibling, h.nodup, h.count,
      fun {o f} ho => h.owned (show s.Owns o f from ho), fun {o _ f} ho ho' => h.unique (show s.Owns o f from ho) ho',
      h.pages⟩
  holds := fun _ _ _ hp => hp
  other := fun _ _ => rfl
  key := fun hg => ⟨_, hg, rfl⟩
  index := ⟨rfl, rfl, rfl, rfl, rfl, rfl, rfl, rfl, rfl⟩

theorem Stored.changes_clear (h : Stored P s) (hg : s.pgps i = some g) (hd : ∀ q, g.data ≠ .pcd q) :
    Changes P i s (s.clear i) := by
  have hfb := Pgp.firstbyte_of_wf (h.wf hg) hd
  rw [State.clear_eq hg hfb]
  refine h.changes_setData (h.setData hg hfb hfb ?_)
  intro f hf
  exact Data.noConfusion hf

theorem State.clear_self (hg : s.pgps i = some g) : (s.clear i).pgps i = some g.bare := by
  refine (Function.update_self ..).trans ?_
  rw [State.pgp_of hg]
  rfl

theorem State.setData_self {n : Nat} (hg : s.pgps i = some g) :
    (s.setData i d n).pgps i = some { g with data := d, size := n } := by
  refine (Function.update_self ..).trans ?_
  rw [State.pgp_of hg]

theorem State.clear_pageFree (s : State) (i : Nat) (d : Data) : (s.pageFree d).clear i = (s.clear i).pageFree d := by
  cases d <;> rfl

theorem Stored.releaseData (h : Stored P s) (hg : s.pgps i = some g) (hdata : g.data ≠ .null) :
    Changes P i s ((s.releaseData P i).clear i) ∧ ((s.releaseData P i).clear i).pgps i = some g.bare := by
  have hwf := h.wf hg
  unfold Pgp.Wf at hwf
  unfold State.releaseData
  rw [State.pgp_of hg]
  cases hd : g.data with
  | null => exact absurd hd hdata
  | pcd q =>
    rw [hd] at hwf
    rw [if_pos ⟨hwf.2.1, hwf.1⟩]
    obtain ⟨hdis, hself⟩ := h.pcdDisassociate hg hd
    refine ⟨hdis.trans (hdis.stored.changes_clear hself ?_), State.clear_self (g := g.bare) hself⟩
    intro q' hq'
    exact Data.noConfusion hq'
  | buf b =>
    rw [hd] at hwf
    rw [hwf.1, if_neg (by simp), if_pos hwf.2]
    refine ⟨h.changes_clear hg ?_, State.clear_self hg⟩
    intro q hq
    exact Data.noConfusion (hd.symm.trans hq)
  | pfp f =>
    rw [hd] at hwf
    rw [hwf.1, if_neg (by simp), hwf.2, if_neg (by simp), State.clear_pageFree]
    have hclear : Changes P i s (s.clear i) := by
      apply h.changes_clear hg
      intro q hq
      exact Data.noConfusion (hd.symm.trans hq)
    obtain ⟨p, hp⟩ := h.owned (o := .pgp i) ⟨g, hg, hd⟩
    have hfree : ∀ o, ¬ (s.clear i).Owns o f := by
      refine h.not_owned hg hd (fun _ _ hc _ => hc) hclear.other ?_
      intro g' hg' hd'
      rw [State.clear_self hg] at hg'
      cases hg'
      exact Data.noConfusion hd'
    exact ⟨hclear.trans (hclear.stored.changes_pageFree hp hfree), State.clear_self hg⟩

theorem Stored.pgpFreeData (h : Stored P s) (hg : s.pgps i = some g) (hdata : g.data ≠ .null) :
    Changes P i s (s.pgpFreeData P i) ∧ (s.pgpFreeData P i).pgps i = some g.bare := by
  obtain ⟨hrelease, hself⟩ := h.releaseData hg hdata
  unfold State.pgpFreeData
  rw [State.pgp_of hg]
  dsimp only
  rw [if_neg hdata]
  split
  · -- the counters do not matter here
    exact ⟨hrelease.trans (hrelease.stored.changes_compressed _ _ _), hself⟩
  · exact ⟨hrelease, hself⟩

/-! ## `pcd_associate` -/

/-- What the walk through the tree of contents ends at. -/
theorem State.search_eq_some {firstbyte : Nat} {cdata : Option (List UInt8)} {found : Option Nat}
    (h : s.search P i firstbyte cdata found = some q) :
    ∃ c, s.pcds q = some c ∧ c.firstbyte = firstbyte ∧ s.sameContent P i cdata c = true := by
  unfold State.search at h
  rw [Option.filter_eq_some_iff] at h
  have hcond := h.2
  split at hcond
  · rename_i c hc
    rw [Bool.and_eq_true, decide_eq_true_eq] at hcond
    exact ⟨c, hc, hcond.1, hcond.2⟩
  · exact absurd hcond Bool.false_ne_true

/-- A descriptor is associated with a content. -/
theorem Stored.changes_linked (h : Stored P s) (hg : s.pgps i = some g) (hfb : g.firstbyte = none)
    (hc : s.pcds q = some c) (hdedup : P.dedup = true) (hpers : P.persistent g.key.obj.pool = false) :
    Changes P i s (s.link i q) :=
  h.changes_link (h.link hg hfb hc hdedup hpers)

theorem State.link_self (hg : s.pgps i = some g) (hc : s.pcds q = some c) : (s.link i q).pgps i =
    some { g with firstbyte := some c.firstbyte, evictionAttempted := false, data := .pcd q } := by
  refine (Function.update_self ..).trans ?_
  rw [State.pgp_of hg, State.pcd_of hc]

theorem State.link_holds (hg : s.pgps i = some g) (hc : s.pcds q = some c) (hold : c.Holds P s.pages g.size p) :
    (s.link i q).Holds P i p := by
  refine ⟨_, State.link_self hg hc, ?_⟩
  refine ⟨_, Function.update_self .., ?_⟩
  rw [State.pcd_of hc]
  exact hold

/-- A descriptor's data does not matter when it is associated. -/
theorem State.link_setData (hg : s.pgps i = some g) : (s.setData i .null g.size).link i q = s.link i q := by
  have hself : (s.setData i .null g.size).pgps i = some { g with data := .null } := State.setData_self hg
  unfold State.link
  rw [State.pgp_of hself, State.pgp_of hg]
  unfold State.setData State.pcd
  dsimp only
  rw [Function.update_idem]

/-- The state with the data pointer of a descriptor taken away. -/
theorem Stored.changes_take (h : Stored P s) (hg : s.pgps i = some g) (hd : g.data = .pfp f) :
    Changes P i s (s.setData i .null g.size) ∧
    (s.setData i .null g.size).pgps i = some { g with data := .null } ∧
    ∀ o, ¬ (s.setData i .null g.size).Owns o f := by
  have hfb : g.firstbyte = none := by
    apply Pgp.firstbyte_of_wf (h.wf hg)
    intro q hq
    exact Data.noConfusion (hd.symm.trans hq)
  have hself : (s.setData i .null g.size).pgps i = some { g with data := .null } := State.setData_self hg
  have hchange : Changes P i s (s.setData i .null g.size) := by
    refine h.changes_setData (h.setData hg hfb hfb ?_)
    intro f' hf'
    exact Data.noConfusion hf'
  refine ⟨hchange, hself, h.not_owned hg hd (fun _ _ hc _ => hc) hchange.other ?_⟩
  intro g' hg' hd'
  rw [hself] at hg'
  cases hg'
  exact Data.noConfusion hd'

theorem Stored.holds_of_sameContent (h : Stored P s) (hg : s.pgps i = some g) (hd : g.data = .pfp f)
    (hp : s.pages f = some p) (hc : s.pcds q = some c) (hsame : s.sameContent P i none c = true) :
    ∃ f', f' ≠ f ∧ c.data = .pfp f' ∧ c.size = pageSize ∧ s.pages f' = some p := by
  unfold State.sameContent at hsame
  rw [State.pgp_of hg, hd, show s.pageOf (.pfp f) = some p from hp] at hsame
  simp only [Bool.and_eq_true, Bool.not_eq_true', decide_eq_false_iff_not, decide_eq_true_eq] at hsame
  obtain ⟨hsize, -, hpage⟩ := hsame
  have hwf := h.content hc
  unfold Pcd.Wf at hwf
  cases hcd : c.data with
  | null =>
    rw [hcd] at hwf
    rw [hwf] at hsize
    exact absurd (by decide) hsize
  | buf b =>
    rw [hcd] at hwf
    exact absurd (hwf.1 ▸ hwf.2) hsize
  | pcd q' =>
    rw [hcd] at hwf
    exact hwf.elim
  | pfp f' =>
    rw [hcd] at hwf hpage
    refine ⟨f', ?_, rfl, hwf, hpage⟩
    rintro rfl
    have heq := h.unique (o := .pcd q) ⟨c, hc, hcd⟩ (show s.Owns (.pgp i) f' from ⟨g, hg, hd⟩)
    exact Owner.noConfusion heq

/-- What is kept of a page without its trailing zeroes. -/
theorem State.pfpSize_lt (h : State.pfpSize P p < pageSize) :
    P.tzeEnabled = true ∧ State.pfpSize P p = p.tzePfpScan := by
  unfold State.pfpSize at h ⊢
  split at h
  · rename_i htze
    rw [if_pos htze]
    split at h
    · exact absurd h (Nat.lt_irrefl _)
    · rename_i hmax
      exact ⟨htze, if_neg hmax⟩
  · exact absurd h (Nat.lt_irrefl _)

/-- A content takes the place of what a descriptor had. -/
theorem Changes.linked {r : State} (hg : r.pgps i = some g) (hfb : g.firstbyte = none) (hc : r.pcds q = some c)
    (hpers : P.persistent g.key.obj.pool = false) (hdedup : P.dedup = true)
    (hr : Changes P i s (r.setData i .null g.size)) (hold : c.Holds P r.pages g.size p) :
    Changes P i s (r.link i q) ∧ (r.link i q).Holds P i p := by
  have hself : (r.setData i .null g.size).pgps i = some { g with data := .null } := State.setData_self hg
  have hc' : (r.setData i .null g.size).pcds q = some c := hc
  rw [← State.link_setData hg]
  exact ⟨hr.trans (hr.stored.changes_linked hself hfb hc' hdedup hpers), State.link_holds hself hc' hold⟩

/-- `pcd_associate` for a page. -/
theorem Stored.associate_page (h : Stored P s) (hg : s.pgps i = some g) (hd : g.data = .pfp f)
    (hp : s.pages f = some p) (hpers : P.persistent g.key.obj.pool = false) (hdedup : P.dedup = true) (a : Answers) :
    Changes P i s (s.pcdAssociate P i none a).1 ∧
    ((s.pcdAssociate P i none a).2 = true → (s.pcdAssociate P i none a).1.Holds P i p) ∧
    ((s.pcdAssociate P i none a).2 = false → (s.pcdAssociate P i none a).1 = s) := by
  obtain ⟨htake, hself, hfree⟩ := h.changes_take hg hd
  have hwf := h.wf hg
  unfold Pgp.Wf at hwf
  rw [hd] at hwf
  obtain ⟨hfb, hsize⟩ := hwf
  have hpage : s.pageOf (s.pgp i).data = some p := by
    rw [State.pgp_of hg, hd]
    exact hp
  unfold State.pcdAssociate
  rw [hdedup, if_neg (by simp)]
  dsimp only
  rw [hpage, State.pgp_of hg, hd]
  split
  · -- the content is there already
    rename_i q hsearch
    obtain ⟨c, hc, -, hsame⟩ := State.search_eq_some hsearch
    obtain ⟨f', hne, hcd, hcsize, hp'⟩ := h.holds_of_sameContent hg hd hp hc hsame
    have hold : c.Holds P (s.pageFree (.pfp f)).pages g.size p := by
      unfold Pcd.Holds
      rw [hcd]
      exact ⟨hsize, hcsize, (Function.update_of_ne hne _ _).trans hp'⟩
    have hmain : Changes P i s ((s.pageFree (.pfp f)).link i q) ∧ ((s.pageFree (.pfp f)).link i q).Holds P i p :=
      Changes.linked hg hfb hc hpers hdedup (htake.trans (htake.stored.changes_pageFree hp hfree)) hold
    exact ⟨hmain.1, fun _ => hmain.2, fun hf => Bool.noConfusion hf⟩
  · split
    · exact ⟨Changes.refl h, fun hf => Bool.noConfusion hf, fun _ => rfl⟩
    · dsimp only
      -- a new content: its data is nothing, the head of the page, or the page itself
      have hnew : ∀ (size : Nat) (d : Data), Pcd.Wf ⟨s.entryByte i none, size, d, 0, []⟩ → (d = .pfp f ∨ ∀ f', d ≠ .pfp f') →
          Changes P i s ((s.newPcd (s.entryByte i none) size d).setData i .null g.size) := by
        intro size d hwf hd'
        refine htake.trans (htake.stored.changes_newPcd (htake.stored.newPcd hwf ?_))
        intro f' hf'
        rcases hd' with hd' | hd'
        · rw [hd'] at hf'
          cases hf'
          exact ⟨⟨p, hp⟩, hfree⟩
        · exact absurd hf' (hd' f')
      split
      · -- all of the page is zero
        rename_i hzero
        have hlt : State.pfpSize P p < pageSize := by
          rw [hzero]
          decide
        obtain ⟨htze, hscan⟩ := State.pfpSize_lt hlt
        have hempty : Page.ofTze [] = p := by
          have := p.ofTze_head
          rw [← hscan, hzero] at this
          exact this
        have hmain := Changes.linked (r := s.newPcd (s.entryByte i none) 0 .null) hg hfb (Function.update_self ..) hpers
          hdedup (hnew 0 .null rfl (.inr fun _ => Data.noConfusion)) ⟨htze, hsize, rfl, hempty⟩
        exact ⟨hmain.1, fun _ => hmain.2, fun hf => Bool.noConfusion hf⟩
      · split
        · -- the head of the page is copied
          rename_i hcond
          obtain ⟨htze, hscan⟩ := State.pfpSize_lt hcond.1
          have hlen : (p.head (State.pfpSize P p)).length = State.pfpSize P p := by
            unfold Page.head
            rw [List.length_take, p.length]
            omega
          have hpcd := hnew (State.pfpSize P p) (.buf (p.head (State.pfpSize P p)))
            ⟨hlen.symm, by rw [hlen]; exact hcond.1⟩ (.inr fun _ => Data.noConfusion)
          have hfree' : ∀ o, ¬ State.Owns ((s.newPcd (s.entryByte i none) (State.pfpSize P p)
              (.buf (p.head (State.pfpSize P p)))).setData i .null g.size) o f := by
            refine h.not_owned hg hd ?_ hpcd.other ?_
            · intro q c hc hcd
              change Function.update s.pcds s.nextPcd _ q = some c at hc
              rw [Function.update_apply] at hc
              split at hc
              · cases hc
                exact Data.noConfusion hcd
              · exact hc
            · intro g' hg' hd'
              cases hg'.symm.trans hself
              exact Data.noConfusion hd'
          have hmain := Changes.linked (r := (s.newPcd (s.entryByte i none) (State.pfpSize P p)
            (.buf (p.head (State.pfpSize P p)))).pageFree (.pfp f)) hg hfb (Function.update_self ..) hpers hdedup
            (hpcd.trans (hpcd.stored.changes_pageFree hp hfree')) (p := p)
            (.inr ⟨htze, hsize, hlen.symm, by rw [hlen]; exact hcond.1, by rw [hscan]; exact p.ofTze_head⟩)
          exact ⟨hmain.1, fun _ => hmain.2, fun hf => Bool.noConfusion hf⟩
        · -- the page becomes the content's
          have hmain := Changes.linked (r := s.newPcd (s.entryByte i none) pageSize (.pfp f)) hg hfb
            (Function.update_self ..) hpers hdedup (hnew pageSize (.pfp f) rfl (.inl rfl)) ⟨hsize, rfl, hp⟩
          exact ⟨hmain.1, fun _ => hmain.2, fun hf => Bool.noConfusion hf⟩

/-- `pcd_associate` for compressed data. -/
theorem Stored.associate_cdata {b : List UInt8} (h : Stored P s) (hg : s.pgps i = some g) (hd : g.data = .null)
    (hlt : b.length < pageSize) (hpers : P.persistent g.key.obj.pool = false) (hdedup : P.dedup = true) (a : Answers) :
    Changes P i s (s.pcdAssociate P i (some b) a).1 ∧
    ((s.pcdAssociate P i (some b) a).2 = true → ∃ g' q c, (s.pcdAssociate P i (some b) a).1.pgps i = some g' ∧
      g'.data = .pcd q ∧ (s.pcdAssociate P i (some b) a).1.pcds q = some c ∧ c.data = .buf b ∧ c.size = b.length) ∧
    ((s.pcdAssociate P i (some b) a).2 = false → (s.pcdAssociate P i (some b) a).1 = s) := by
  have hfb : g.firstbyte = none := by
    apply Pgp.firstbyte_of_wf (h.wf hg)
    intro q hq
    exact Data.noConfusion (hd.symm.trans hq)
  unfold State.pcdAssociate
  rw [hdedup, if_neg (by simp)]
  dsimp only
  split
  · rename_i q hsearch
    obtain ⟨c, hc, -, hsame⟩ := State.search_eq_some hsearch
    unfold State.sameContent at hsame
    simp only [Bool.and_eq_true, decide_eq_true_eq] at hsame
    rw [if_neg (by simp)]
    refine ⟨h.changes_linked hg hfb hc hdedup hpers, fun _ => ?_, fun hf => Bool.noConfusion hf⟩
    refine ⟨_, q, _, State.link_self hg hc, rfl, Function.update_self .., ?_, ?_⟩
    · rw [State.pcd_of hc]
      exact hsame.2
    · rw [State.pcd_of hc]
      exact hsame.1.2.symm
  · split
    · exact ⟨Changes.refl h, fun hf => Bool.noConfusion hf, fun _ => rfl⟩
    · split
      · have hwf : Pcd.Wf ⟨s.entryByte i (some b), b.length, .buf b, 0, []⟩ := ⟨rfl, hlt⟩
        have hnew := h.changes_newPcd (i := i) (h.newPcd hwf fun f hf => Data.noConfusion hf)
        have hc : (s.newPcd (s.entryByte i (some b)) b.length (.buf b)).pcds s.nextPcd =
            some ⟨s.entryByte i (some b), b.length, .buf b, 0, []⟩ := Function.update_self ..
        have hg' : (s.newPcd (s.entryByte i (some b)) b.length (.buf b)).pgps i = some g := hg
        refine ⟨hnew.trans (hnew.stored.changes_linked hg' hfb hc hdedup hpers), fun _ => ?_, fun hf => Bool.noConfusion hf⟩
        refine ⟨_, s.nextPcd, _, State.link_self hg' hc, rfl, Function.update_self .., ?_, ?_⟩
        · rw [State.pcd_of hc]
        · rw [State.pcd_of hc]
      · exact ⟨Changes.refl h, fun hf => Bool.noConfusion hf, fun _ => rfl⟩

/-! ## The data of a put -/

/-- What is compressed and fits is kept. -/
theorem Stored.doTmemPutCompress (h : Stored P s) (hg : s.pgps i = some g) (src : Source) (a : Answers) :
    Changes P i s (s.doTmemPutCompress P i src a).1 ∧
    ((s.doTmemPutCompress P i src a).2 = .stored →
      ∃ p, src.frame = some p ∧ (s.doTmemPutCompress P i src a).1.Holds P i p) ∧
    ((s.doTmemPutCompress P i src a).2 ≠ .stored →
      ∃ g', (s.doTmemPutCompress P i src a).1.pgps i = some g' ∧ g'.data = .null) := by
  -- the old data goes first
  obtain ⟨r, hr, hchange, g₁, hg₁, hd₁, hkey⟩ : ∃ r, (if (s.pgp i).data ≠ .null then s.pgpFreeData P i else s) = r ∧
      Changes P i s r ∧ ∃ g₁, r.pgps i = some g₁ ∧ g₁.data = .null ∧ g₁.key = g.key := by
    rw [State.pgp_of hg]
    split
    · rename_i hdata
      obtain ⟨hfree, hself⟩ := h.pgpFreeData hg hdata
      exact ⟨_, rfl, hfree, _, hself, rfl, rfl⟩
    · rename_i hnull
      exact ⟨_, rfl, Changes.refl h, g, hg, Decidable.not_not.1 hnull, rfl⟩
  have hnone : Changes P i s r ∧ ∃ g', r.pgps i = some g' ∧ g'.data = .null := ⟨hchange, g₁, hg₁, hd₁⟩
  unfold State.doTmemPutCompress
  dsimp only
  rw [hr]
  split
  · exact ⟨hnone.1, fun hf => absurd hf (by simp), fun _ => hnone.2⟩
  · split
    · exact ⟨hnone.1, fun hf => absurd hf (by simp), fun _ => hnone.2⟩
    · rename_i p hframe
      split
      · exact ⟨hnone.1, fun hf => absurd hf (by simp), fun _ => hnone.2⟩
      · rename_i hlen
        rw [not_or, not_le] at hlen
        have hlt : (P.lzoCompress p).length < pageSize := by
          have := hlen.2
          unfold subpageMaxsize pageSize at *
          omega
        split
        · rename_i hshare
          rw [State.pgp_of hg₁] at hshare
          obtain ⟨hassoc, htrue, hfalse⟩ := hchange.stored.associate_cdata hg₁ hd₁ hlt
            (Bool.eq_false_iff.2 hshare.2) hshare.1 a
          generalize r.pcdAssociate P i (some (P.lzoCompress p)) a = t at hassoc htrue hfalse ⊢
          split
          · rename_i hok
            obtain ⟨g', q, c, hg', hd', hc, hcd, hcsize⟩ := htrue hok
            rw [State.pgp_of hg', hd']
            have hsize := hassoc.stored.changes_setData (hassoc.stored.setSize hg' hd' (P.lzoCompress p).length)
            have hcount := hsize.stored.changes_compressed (i := i) (t.1.clientOf P i) 1 (P.lzoCompress p).length
            refine ⟨hchange.trans (hassoc.trans (hsize.trans hcount)), fun _ => ⟨p, hframe, ?_⟩, fun hf => absurd rfl hf⟩
            refine ⟨_, State.setData_self hg', ?_⟩
            refine ⟨c, hc, ?_⟩
            unfold Pcd.Holds
            rw [hcd]
            exact .inl ⟨rfl, hcsize, Nat.pos_of_ne_zero hlen.1, hlt, rfl⟩
          · rename_i hno
            have hsame := hfalse (Bool.eq_false_iff.2 hno)
            rw [hsame]
            exact ⟨hnone.1, fun hf => absurd hf (by simp), fun _ => hnone.2⟩
        · split
          · have hfb : g₁.firstbyte = none := by
              apply Pgp.firstbyte_of_wf (hchange.stored.wf hg₁)
              intro q hq
              exact Data.noConfusion (hd₁.symm.trans hq)
            have hset := hchange.stored.changes_setData (hchange.stored.setData (d := .buf (P.lzoCompress p))
              (n := (P.lzoCompress p).length) hg₁ hfb ⟨hfb, hlen.1⟩ fun f hf => Data.noConfusion hf)
            have hcount := hset.stored.changes_compressed (i := i) (r.clientOf P i) 1 (P.lzoCompress p).length
            refine ⟨hchange.trans (hset.trans hcount), fun _ => ⟨p, hframe, ?_⟩, fun hf => absurd rfl hf⟩
            exact ⟨_, State.setData_self hg₁, rfl⟩
          · exact ⟨hnone.1, fun hf => absurd hf (by simp), fun _ => hnone.2⟩

/-- A descriptor without data gets a new page. -/
theorem Stored.changes_page (h : Stored P s) (hg : s.pgps i = some g) (hd : g.data = .null) (p : Page) :
    Changes P i s ((s.pageAlloc p).setData i (.pfp s.nextPage) 0) := by
  have hfb : g.firstbyte = none := by
    apply Pgp.firstbyte_of_wf (h.wf hg)
    intro q hq
    exact Data.noConfusion (hd.symm.trans hq)
  have halloc := h.changes_pageAlloc (i := i) p
  have hg' : (s.pageAlloc p).pgps i = some g := hg
  refine halloc.trans (halloc.stored.changes_setData (halloc.stored.setData hg' hfb ⟨hfb, rfl⟩ ?_))
  rintro f ⟨⟩
  refine ⟨⟨p, Function.update_self ..⟩, fun o ho => ?_⟩
  obtain ⟨p', hp'⟩ := h.owned (show s.Owns o s.nextPage from ho)
  exact absurd (h.page_lt hp') (Nat.lt_irrefl _)

/-- A page that is copied is kept. -/
theorem Stored.copyUncompressed (h : Stored P s) (hg : s.pgps i = some g) (hd : g.data = .null) (src : Source)
    (a : Answers) :
    Changes P i s (s.copyUncompressed P i src a).1 ∧
    ((s.copyUncompressed P i src a).2 = .ok →
      ∃ junk p, a.page = some junk ∧ src.copy junk = some p ∧ (s.copyUncompressed P i src a).1.Holds P i p) := by
  have hset := h.changes_page hg hd
  unfold State.copyUncompressed
  split
  · exact ⟨Changes.refl h, fun hf => absurd hf (by simp)⟩
  · rename_i junk hjunk
    split
    · exact ⟨hset junk, fun hf => absurd hf (by simp)⟩
    · rename_i p hcopy
      dsimp only
      have hpage := hset p
      have hself : ((s.pageAlloc p).setData i (.pfp s.nextPage) 0).pgps i = some { g with data := .pfp s.nextPage, size := 0 } :=
        State.setData_self (s := s.pageAlloc p) hg
      have hp : ((s.pageAlloc p).setData i (.pfp s.nextPage) 0).pages s.nextPage = some p := Function.update_self ..
      split
      · rename_i hshare
        rw [State.pgp_of hself] at hshare
        obtain ⟨hassoc, htrue, -⟩ := hpage.stored.associate_page hself rfl hp (Bool.eq_false_iff.2 hshare.2) hshare.1 a
        generalize State.pcdAssociate P ((s.pageAlloc p).setData i (.pfp s.nextPage) 0) i none a = t at hassoc htrue ⊢
        refine ⟨hpage.trans hassoc, fun hok => ⟨junk, p, hjunk, hcopy, htrue ?_⟩⟩
        dsimp only at hok
        by_contra hno
        rw [if_neg hno] at hok
        exact absurd hok (by simp)
      · exact ⟨hpage, fun _ => ⟨junk, p, hjunk, hcopy, _, hself, hp⟩⟩

end Tmem
