import MemoryMonitor.Tmem.Contents

/-!
# Pages in use, and compressed pages

Every page that is allocated belongs to a descriptor or a content, and every content to a descriptor: `Tight`, with
at most one page and one content as exceptions during an operation. And the clients' counters of compressed pages
are right: `Zipped`.
-/

namespace Tmem

variable {P : Settings} {s s' : State} {i j q f : Nat} {g : Pgp} {c : Pcd} {d : Data} {p : Page} {x x' y y' : Option Nat}

structure Tight (x y : Option Nat) (s : State) : Prop where
  page : ∀ {f p}, s.pages f = some p → some f ≠ x → ∃ o, s.Owns o f
  content : ∀ {q c}, s.pcds q = some c → some q ≠ y → c.pgpList ≠ []

namespace Tight

theorem congr (h : Tight x y s) (hpgps : s'.pgps = s.pgps) (hpcds : s'.pcds = s.pcds) (hpages : s'.pages = s.pages) :
    Tight x y s' where
  page := by
    intro f p hp hne
    rw [hpages] at hp
    obtain ⟨o, ho⟩ := h.page hp hne
    refine ⟨o, ?_⟩
    cases o with
    | pgp i =>
      unfold State.Owns at ho ⊢
      rw [hpgps]
      exact ho
    | pcd q =>
      unfold State.Owns at ho ⊢
      rw [hpcds]
      exact ho
  content := by
    rw [hpcds]
    exact h.content

theorem pageAlloc (h : Tight none y s) (p : Page) : Tight (some s.nextPage) y (s.pageAlloc p) where
  page := by
    intro f p' hp' hne
    change Function.update s.pages s.nextPage (some p) f = some p' at hp'
    rw [Function.update_of_ne fun heq => hne (congrArg some heq)] at hp'
    exact h.page hp' (Option.some_ne_none f)
  content := h.content

theorem pageFree (h : Tight (some f) y s) : Tight none y (s.pageFree (.pfp f)) where
  page := by
    intro f' p' hp' _
    change Function.update s.pages f none f' = some p' at hp'
    rw [Function.update_apply] at hp'
    split at hp'
    · exact absurd hp' (Option.some_ne_none p').symm
    · rename_i hne
      exact h.page hp' fun heq => hne (Option.some.inj heq)
  content := h.content

theorem update_pgps {v : Option Pgp} (h : Tight x y s) (hpgps : s'.pgps = Function.update s.pgps i v)
    (hpcds : s'.pcds = s.pcds) (hpages : s'.pages = s.pages)
    (hold : ∀ g f, s.pgps i = some g → g.data = .pfp f → (∃ g', v = some g' ∧ g'.data = .pfp f) ∨ x' = some f)
    (hnew : ∀ f, x = some f → x' = some f ∨ ∃ g', v = some g' ∧ g'.data = .pfp f) : Tight x' y s' where
  page := by
    intro f p hp hne
    rw [hpages] at hp
    have hself : (∃ g', v = some g' ∧ g'.data = .pfp f) → ∃ o, s'.Owns o f := by
      rintro ⟨g', hv, hd⟩
      exact ⟨.pgp i, g', by rw [hpgps, Function.update_self, hv], hd⟩
    by_cases hx : some f = x
    · rcases hnew f hx.symm with hx' | hown
      · exact absurd hx'.symm hne
      · exact hself hown
    · obtain ⟨o, ho⟩ := h.page hp hx
      cases o with
      | pcd q =>
        obtain ⟨c, hc, hd⟩ := ho
        exact ⟨.pcd q, c, by rw [hpcds]; exact hc, hd⟩
      | pgp j =>
        obtain ⟨g, hg, hd⟩ := ho
        by_cases hj : j = i
        · rw [hj] at hg
          rcases hold g f hg hd with hown | hx'
          · exact hself hown
          · exact absurd hx'.symm hne
        · exact ⟨.pgp j, g, by rw [hpgps, Function.update_of_ne hj]; exact hg, hd⟩
  content := by
    rw [hpcds]
    exact h.content

/-- A descriptor without a page and a content are changed together. -/
theorem relink {g' : Pgp} {c' : Pcd} (h : Tight x y s) (hc : s.pcds q = some c) (hdata : c'.data = c.data)
    (hold : ∀ g f, s.pgps i = some g → g.data ≠ .pfp f) (hy : ∀ q', q' ≠ q → some q' ≠ y' → some q' ≠ y)
    (hlist : some q ≠ y' → c'.pgpList ≠ []) :
    Tight x y' { s with
      pcds := Function.update s.pcds q (some c')
      pgps := Function.update s.pgps i (some g') } where
  page := by
    intro f p hp hne
    obtain ⟨o, ho⟩ := h.page hp hne
    cases o with
    | pgp j =>
      obtain ⟨g, hg, hd⟩ := ho
      by_cases hj : j = i
      · rw [hj] at hg
        exact absurd hd (hold g f hg)
      · exact ⟨.pgp j, g, by dsimp only; rw [Function.update_of_ne hj]; exact hg, hd⟩
    | pcd q' =>
      obtain ⟨c₁, hc₁, hd₁⟩ := ho
      by_cases hq : q' = q
      · rw [hq, hc] at hc₁
        cases hc₁
        exact ⟨.pcd q, c', Function.update_self .., hdata.trans hd₁⟩
      · exact ⟨.pcd q', c₁, by dsimp only; rw [Function.update_of_ne hq]; exact hc₁, hd₁⟩
  content := by
    intro q' c₁ hc₁ hne
    dsimp only at hc₁
    rw [Function.update_apply] at hc₁
    split at hc₁
    · rename_i hq
      cases hc₁
      rw [hq] at hne
      exact hlist hne
    · rename_i hq
      exact h.content hc₁ (hy q' hq hne)

/-- A new content, which nobody has yet. -/
theorem newPcd {firstbyte size : Nat} (h : Tight x none s) (hs : Stored P s)
    (hx : ∀ f, x = some f → x' = some f ∨ d = .pfp f) : Tight x' (some s.nextPcd) (s.newPcd firstbyte size d) where
  page := by
    intro f p hp hne
    by_cases hf : some f = x
    · rcases hx f hf.symm with hx' | hd
      · exact absurd hx'.symm hne
      · exact ⟨.pcd s.nextPcd, _, Function.update_self .., hd⟩
    · obtain ⟨o, ho⟩ := h.page hp hf
      cases o with
      | pgp j => exact ⟨.pgp j, ho⟩
      | pcd q =>
        obtain ⟨c, hc, hd⟩ := ho
        refine ⟨.pcd q, c, ?_, hd⟩
        exact (Function.update_of_ne (Nat.ne_of_lt (hs.pcd_lt hc)) _ _).trans hc
  content := by
    intro q c hc hne
    change Function.update s.pcds s.nextPcd _ q = some c at hc
    rw [Function.update_of_ne fun heq => hne (congrArg some heq)] at hc
    exact h.content hc (Option.some_ne_none q)

/-- A content goes, and its page is left. -/
theorem dropPcd (h : Tight none (some q) s) (hc : s.pcds q = some c) (hx : ∀ f, c.data = .pfp f → x' = some f) :
    Tight x' none (s.dropPcd q) where
  page := by
    intro f p hp hne
    obtain ⟨o, ho⟩ := h.page hp (Option.some_ne_none f)
    cases o with
    | pgp j => exact ⟨.pgp j, ho⟩
    | pcd q' =>
      obtain ⟨c', hc', hd'⟩ := ho
      by_cases hq : q' = q
      · rw [hq, hc] at hc'
        cases hc'
        exact absurd (hx f hd').symm hne
      · exact ⟨.pcd q', c', (Function.update_of_ne hq _ _).trans hc', hd'⟩
  content := by
    intro q' c' hc' _
    change Function.update s.pcds q none q' = some c' at hc'
    rw [Function.update_apply] at hc'
    split at hc'
    · exact absurd hc' (Option.some_ne_none c').symm
    · rename_i hq
      exact h.content hc' fun heq => hq (Option.some.inj heq)

/-! ## `pcd_disassociate` and `pgp_free_data` -/

theorem clear (h : Tight none y s) (hg : s.pgps i = some g) (hd : ∀ f, g.data = .pfp f → x' = some f) :
    Tight x' y (s.clear i) := by
  have hpgps : (s.clear i).pgps = Function.update s.pgps i (some g.bare) := by
    unfold State.clear
    rw [State.pgp_of hg]
    rfl
  refine h.update_pgps hpgps rfl rfl ?_ ?_
  · intro g' f hg' hd'
    cases hg.symm.trans hg'
    exact .inr (hd f hd')
  · intro f hf
    exact absurd hf (Option.some_ne_none f).symm

theorem pcdDisassociate (h : Tight none none s) (hs : Stored P s) (hg : s.pgps i = some g) (hd : g.data = .pcd q) :
    Tight none none (s.pcdDisassociate i) := by
  obtain ⟨c, hc, hin⟩ := hs.member hg hd
  have hcontent : (s.unlink i q).pcds q = some { c with refCount := c.refCount - 1, pgpList := c.pgpList.erase i } := by
    refine (Function.update_self ..).trans ?_
    rw [State.pcd_of hc]
  have hcount := (hs.unlink hg hd).count hcontent
  -- the content may have lost its last descriptor
  have hunlink : ∀ y', (some q ≠ y' → c.pgpList.erase i ≠ []) → Tight none y' (s.unlink i q) := by
    intro y' hlist
    refine h.relink hc ?_ ?_ ?_ ?_
    · rw [State.pcd_of hc]
    · intro g' f hg' hd'
      cases hg.symm.trans hg'
      exact Data.noConfusion (hd.symm.trans hd')
    · intro q' _ _
      exact Option.some_ne_none q'
    · rw [State.pcd_of hc]
      exact hlist
  unfold State.pcdDisassociate
  rw [State.pgp_of hg, hd]
  dsimp only
  rw [State.pcd_of hcontent, State.pcd_of hc]
  dsimp only at hcount ⊢
  split
  · rename_i hne
    apply hunlink
    intro _ hnil
    rw [hnil] at hcount
    exact hne hcount
  · have hlast : Tight none (some q) (s.unlink i q) := hunlink (some q) fun hne => absurd rfl hne
    have hwf := hs.content hc
    unfold Pcd.Wf at hwf
    split
    · rename_i hsize
      apply hlast.dropPcd hcontent
      intro f hcd
      dsimp only at hcd
      rw [hcd] at hwf
      omega
    · split
      · rename_i hsize
        apply hlast.dropPcd hcontent
        intro f hcd
        dsimp only at hcd
        rw [hcd] at hwf
        exact absurd hwf hsize
      · rename_i hsize
        cases hcd : c.data with
        | pfp f =>
          refine (hlast.dropPcd hcontent ?_).pageFree
          intro f' hf'
          exact congrArg some (Data.pfp.inj (hcd.symm.trans hf'))
        | null =>
          apply hlast.dropPcd hcontent
          intro f hf
          exact Data.noConfusion (hcd.symm.trans hf)
        | buf b =>
          apply hlast.dropPcd hcontent
          intro f hf
          exact Data.noConfusion (hcd.symm.trans hf)
        | pcd q' =>
          apply hlast.dropPcd hcontent
          intro f hf
          exact Data.noConfusion (hcd.symm.trans hf)

theorem releaseData (h : Tight none none s) (hs : Stored P s) (hg : s.pgps i = some g) (hdata : g.data ≠ .null) :
    Tight none none ((s.releaseData P i).clear i) := by
  have hwf := hs.wf hg
  unfold Pgp.Wf at hwf
  unfold State.releaseData
  rw [State.pgp_of hg]
  cases hd : g.data with
  | null => exact absurd hd hdata
  | pcd q =>
    rw [hd] at hwf
    rw [if_pos ⟨hwf.2.1, hwf.1⟩]
    refine (h.pcdDisassociate hs hg hd).clear (hs.pcdDisassociate hg hd).2 ?_
    intro f hf
    exact Data.noConfusion hf
  | buf b =>
    rw [hd] at hwf
    rw [hwf.1, if_neg (by simp), if_pos hwf.2]
    apply h.clear hg
    intro f hf
    exact Data.noConfusion (hd.symm.trans hf)
  | pfp f =>
    rw [hd] at hwf
    rw [hwf.1, if_neg (by simp), hwf.2, if_neg (by simp), State.clear_pageFree]
    refine (h.clear hg ?_).pageFree
    intro f' hf'
    exact congrArg some (Data.pfp.inj (hf'.symm.trans hd)).symm

/-! ## `pcd_associate` -/

/-- A descriptor without a page is associated with a content. -/
theorem link (h : Tight x y s) (hold : ∀ g f, s.pgps i = some g → g.data ≠ .pfp f) (hc : s.pcds q = some c)
    (hy : ∀ q', q' ≠ q → some q' ≠ y) : Tight x none (s.link i q) := by
  refine h.relink hc ?_ hold (fun q' hq _ => hy q' hq) ?_
  · rw [State.pcd_of hc]
  · intro _ hnil
    exact List.cons_ne_nil _ _ hnil

/-- A content takes the place of a page. -/
theorem linked {r : State} (hg : r.pgps i = some g) (hc : r.pcds q = some c) (hr : Tight x y (r.setData i .null g.size))
    (hy : ∀ q', q' ≠ q → some q' ≠ y) : Tight x none (r.link i q) := by
  rw [← State.link_setData hg]
  refine hr.link ?_ hc hy
  intro g' f hg' hd'
  rw [State.setData_self hg] at hg'
  cases hg'
  exact Data.noConfusion hd'

theorem take (h : Tight none y s) (hg : s.pgps i = some g) (hd : g.data = .pfp f) :
    Tight (some f) y (s.setData i .null g.size) := by
  have hpgps : (s.setData i .null g.size).pgps = Function.update s.pgps i (some { g with data := .null }) := by
    unfold State.setData
    rw [State.pgp_of hg]
  refine h.update_pgps hpgps rfl rfl ?_ ?_
  · intro g' f' hg' hd'
    cases hg.symm.trans hg'
    exact .inr (congrArg some (Data.pfp.inj (hd.symm.trans hd')))
  · intro f' hf'
    exact absurd hf' (Option.some_ne_none f').symm

/-- A page that is not all zero, or is not associated without its trailing zeroes, is not lost. -/
theorem associate_page (h : Tight none none s) (hs : Stored P s) (hg : s.pgps i = some g) (hd : g.data = .pfp f)
    (hp : s.pages f = some p) (a : Answers) (hnonzero : a.content = true → State.pfpSize P p ≠ 0) :
    Tight none none (s.pcdAssociate P i none a).1 := by
  have hpage : s.pageOf (s.pgp i).data = some p := by
    rw [State.pgp_of hg, hd]
    exact hp
  have htake := h.take hg hd
  have hstored := (hs.changes_take hg hd).1.stored
  unfold State.pcdAssociate
  split
  · exact h
  · dsimp only
    rw [hpage, State.pgp_of hg, hd]
    split
    · rename_i q hsearch
      obtain ⟨c, hc, -, -⟩ := State.search_eq_some hsearch
      exact linked (r := s.pageFree (.pfp f)) hg hc htake.pageFree fun q' _ => Option.some_ne_none q'
    · split
      · exact h
      · next hcontent =>
        dsimp only
        rw [if_neg (hnonzero (by simpa using hcontent))]
        have hy : ∀ q', q' ≠ s.nextPcd → some q' ≠ some s.nextPcd := fun q' hne heq => hne (Option.some.inj heq)
        split
        · have hnew : Tight (some f) (some s.nextPcd) ((s.setData i .null g.size).newPcd (s.entryByte i none)
              (State.pfpSize P p) (.buf (p.head (State.pfpSize P p)))) := htake.newPcd hstored fun f hf => .inl hf
          exact linked (r := (s.newPcd (s.entryByte i none) (State.pfpSize P p)
            (.buf (p.head (State.pfpSize P p)))).pageFree (.pfp f)) hg (Function.update_self ..) hnew.pageFree hy
        · have hnew : Tight none (some s.nextPcd) ((s.setData i .null g.size).newPcd (s.entryByte i none) pageSize
              (.pfp f)) := htake.newPcd hstored fun f' hf' => .inr (congrArg Data.pfp (Option.some.inj hf'))
          exact linked (r := s.newPcd (s.entryByte i none) pageSize (.pfp f)) hg (Function.update_self ..) hnew hy

theorem associate_cdata {b : List UInt8} (h : Tight none none s) (hs : Stored P s) (hg : s.pgps i = some g)
    (hd : g.data = .null) (a : Answers) : Tight none none (s.pcdAssociate P i (some b) a).1 := by
  have hold : ∀ g' f, s.pgps i = some g' → g'.data ≠ .pfp f := by
    intro g' f hg' hd'
    cases hg.symm.trans hg'
    exact Data.noConfusion (hd.symm.trans hd')
  unfold State.pcdAssociate
  split
  · exact h
  · dsimp only
    split
    · rename_i q hsearch
      obtain ⟨c, hc, -, -⟩ := State.search_eq_some hsearch
      rw [if_neg (by simp)]
      exact h.link hold hc fun q' _ => Option.some_ne_none q'
    · split
      · exact h
      · split
        · have hnew : Tight none (some s.nextPcd) (s.newPcd (s.entryByte i (some b)) b.length (.buf b)) :=
            h.newPcd hs fun f hf => .inl hf
          exact hnew.link hold (Function.update_self ..) fun q' hne heq => hne (Option.some.inj heq)
        · exact h

end Tight

/-! ## Compressed pages -/

/-- What a descriptor counts for, if it is compressed and belongs to a client. -/
def zipped (P : Settings) (client : Nat) (w : Nat → Int) : Option Pgp → Int
  | some g => if P.client g.key.obj.pool = client ∧ g.data ≠ .null ∧ g.size ≠ 0 then w g.size else 0
  | none => 0

theorem zipped_some (P : Settings) (client : Nat) (w : Nat → Int) (g : Pgp) :
    zipped P client w (some g) =
      if P.client g.key.obj.pool = client ∧ g.data ≠ .null ∧ g.size ≠ 0 then w g.size else 0 := rfl

theorem zipped_null {client : Nat} {w : Nat → Int} (h : g.data = .null) : zipped P client w (some g) = 0 :=
  if_neg fun hin => hin.2.1 h

theorem zipped_zero {client : Nat} {w : Nat → Int} (h : g.size = 0) : zipped P client w (some g) = 0 :=
  if_neg fun hin => hin.2.2 h

structure Zipped (P : Settings) (s : State) : Prop where
  pages : ∀ c, s.compressedPages c = ∑ i ∈ Finset.range s.nextPgp, zipped P c (fun _ => 1) (s.pgps i)
  sum : ∀ c, s.compressedSum c = ∑ i ∈ Finset.range s.nextPgp, zipped P c (fun n => n) (s.pgps i)

namespace Zipped

/-- The counters follow the descriptor that changes. -/
theorem change (h : Zipped P s) (hi : i < s.nextPgp) (hnext : s'.nextPgp = s.nextPgp)
    (hother : ∀ j, j ≠ i → s'.pgps j = s.pgps j)
    (hpages : ∀ c, s'.compressedPages c + zipped P c (fun _ => 1) (s.pgps i) =
      s.compressedPages c + zipped P c (fun _ => 1) (s'.pgps i))
    (hsum : ∀ c, s'.compressedSum c + zipped P c (fun n => n) (s.pgps i) =
      s.compressedSum c + zipped P c (fun n => n) (s'.pgps i)) : Zipped P s' := by
  have htotal : ∀ c w, (∑ j ∈ Finset.range s.nextPgp, zipped P c w (s'.pgps j)) + zipped P c w (s.pgps i) =
      (∑ j ∈ Finset.range s.nextPgp, zipped P c w (s.pgps j)) + zipped P c w (s'.pgps i) := by
    intro c w
    apply Totals.sum_change (Finset.mem_range.2 hi)
    intro j hj
    rw [hother j hj]
  constructor
  · intro c
    have h1 := htotal c fun _ => 1
    have h2 := hpages c
    have h3 := h.pages c
    rw [hnext]
    omega
  · intro c
    have h1 := htotal c fun n => n
    have h2 := hsum c
    have h3 := h.sum c
    rw [hnext]
    omega

/-- The counters stay, and so does what the descriptor counts for. -/
theorem same (h : Zipped P s) (hi : i < s.nextPgp) (hnext : s'.nextPgp = s.nextPgp)
    (hother : ∀ j, j ≠ i → s'.pgps j = s.pgps j) (hpages : s'.compressedPages = s.compressedPages)
    (hsum : s'.compressedSum = s.compressedSum)
    (hself : ∀ c w, zipped P c w (s'.pgps i) = zipped P c w (s.pgps i)) : Zipped P s' := by
  refine h.change hi hnext hother ?_ ?_
  · intro c
    rw [hpages, hself]
  · intro c
    rw [hsum, hself]

end Zipped

/-- The counters of compressed pages are the same. -/
def SameZip (s s' : State) : Prop := s'.compressedPages = s.compressedPages ∧ s'.compressedSum = s.compressedSum

theorem SameZip.refl (s : State) : SameZip s s := ⟨rfl, rfl⟩

theorem SameZip.pageFree (s : State) (d : Data) : SameZip s (s.pageFree d) := by
  cases d <;> exact ⟨rfl, rfl⟩

theorem SameZip.pcdDisassociate (s : State) (i : Nat) : SameZip s (s.pcdDisassociate i) := by
  unfold State.pcdDisassociate
  split
  · dsimp only
    split
    · exact ⟨rfl, rfl⟩
    · split
      · exact ⟨rfl, rfl⟩
      · split
        · exact ⟨rfl, rfl⟩
        · exact SameZip.pageFree ((s.unlink i _).dropPcd _) _
  · exact ⟨rfl, rfl⟩

theorem SameZip.releaseData (s : State) (i : Nat) : SameZip s (s.releaseData P i) := by
  unfold State.releaseData
  split
  · exact SameZip.pcdDisassociate s i
  · split
    · exact ⟨rfl, rfl⟩
    · exact SameZip.pageFree s _

theorem SameZip.pcdAssociate (s : State) (i : Nat) (cdata : Option (List UInt8)) (a : Answers) :
    SameZip s (s.pcdAssociate P i cdata a).1 := by
  have hlink : ∀ (r : State) q, SameZip s r → SameZip s (r.link i q) := fun r q h => h
  unfold State.pcdAssociate
  split
  · exact ⟨rfl, rfl⟩
  · dsimp only
    split
    · apply hlink
      split
      · exact SameZip.pageFree s _
      · exact SameZip.refl s
    · split
      · exact ⟨rfl, rfl⟩
      · split
        · split <;> exact ⟨rfl, rfl⟩
        · split
          · exact ⟨rfl, rfl⟩
          · split
            · exact ⟨rfl, rfl⟩
            · split
              · exact SameZip.pageFree (s.newPcd _ _ _) _
              · exact ⟨rfl, rfl⟩

theorem State.link_size (s : State) (i q : Nat) : ((s.link i q).pgp i).size = (s.pgp i).size := by
  have hself : (s.link i q).pgps i = some { s.pgp i with
      firstbyte := some (s.pcd q).firstbyte
      evictionAttempted := false
      data := .pcd q } := Function.update_self ..
  rw [State.pgp_of hself]

/-- A content does not change the size of a descriptor. -/
theorem State.pcdAssociate_size (s : State) (i : Nat) (cdata : Option (List UInt8)) (a : Answers) :
    ((s.pcdAssociate P i cdata a).1.pgp i).size = (s.pgp i).size := by
  have hfree : ∀ (r : State) d, (r.pageFree d).pgp i = r.pgp i := by
    intro r d
    cases d <;> rfl
  have hlink : ∀ (r : State) q, r.pgp i = s.pgp i → ((r.link i q).pgp i).size = (s.pgp i).size := by
    intro r q hr
    rw [State.link_size, hr]
  unfold State.pcdAssociate
  split
  · rfl
  · dsimp only
    split
    · apply hlink
      split
      · exact hfree s _
      · rfl
    · split
      · rfl
      · split
        · split
          · exact hlink _ _ rfl
          · rfl
        · split
          · rfl
          · split
            · exact hlink _ _ rfl
            · split
              · exact hlink _ _ (hfree _ _)
              · exact hlink _ _ rfl

theorem update_add (e : Nat → Int) (client c : Nat) (m : Int) :
    Function.update e client (e client + m) c = e c + if client = c then m else 0 := by
  rw [Function.update_apply]
  split
  · rename_i hc
    rw [if_pos hc.symm, hc]
  · rename_i hc
    rw [if_neg fun heq => hc heq.symm, add_zero]

theorem Zipped.pgpFreeData (h : Zipped P s) (hs : Stored P s) (hg : s.pgps i = some g) (hdata : g.data ≠ .null) :
    Zipped P (s.pgpFreeData P i) := by
  obtain ⟨hchange, hself⟩ := hs.pgpFreeData hg hdata
  have hrelease := SameZip.releaseData (P := P) s i
  have hclient : s.clientOf P i = P.client g.key.obj.pool := by
    unfold State.clientOf
    rw [State.pgp_of hg]
  have hold : ∀ c w, zipped P c w (some g) =
      if g.size ≠ 0 then (if P.client g.key.obj.pool = c then w g.size else 0) else 0 := by
    intro c w
    rw [zipped_some]
    by_cases hsize : g.size ≠ 0 <;> by_cases hc : P.client g.key.obj.pool = c <;> simp [hsize, hc, hdata]
  -- the counters move with what the descriptor counts for
  have hmoved : ∀ c, (s.pgpFreeData P i).compressedPages c + zipped P c (fun _ => 1) (some g) = s.compressedPages c ∧
      (s.pgpFreeData P i).compressedSum c + zipped P c (fun n => n) (some g) = s.compressedSum c := by
    intro c
    rw [hold, hold]
    unfold State.pgpFreeData
    rw [State.pgp_of hg, hclient]
    dsimp only
    rw [if_neg hdata]
    split
    · have h1 := update_add (s.releaseData P i).compressedPages (P.client g.key.obj.pool) c (-1)
      have h2 := update_add (s.releaseData P i).compressedSum (P.client g.key.obj.pool) c (-g.size)
      rw [hrelease.1] at h1
      rw [hrelease.2] at h2
      unfold State.compressed State.clear
      dsimp only
      rw [hrelease.1, hrelease.2, h1, h2]
      constructor <;> split <;> omega
    · change (s.releaseData P i).compressedPages c + 0 = _ ∧ (s.releaseData P i).compressedSum c + 0 = _
      rw [hrelease.1, hrelease.2]
      constructor <;> omega
  refine h.change (hs.pgp_lt hg) hchange.index.nextPgp hchange.other ?_ ?_
  · intro c
    rw [hself, hg, zipped_null (g := g.bare) rfl, add_zero]
    exact (hmoved c).1
  · intro c
    rw [hself, hg, zipped_null (g := g.bare) rfl, add_zero]
    exact (hmoved c).2

theorem Zipped.setCompressed {r : State} {g' : Pgp} {n : Nat} (h : Zipped P s) (hi : i < s.nextPgp)
    (hg : s.pgps i = some g) (hd : g.data = .null) (hzip : SameZip s r) (hnext : r.nextPgp = s.nextPgp)
    (hother : ∀ j, j ≠ i → r.pgps j = s.pgps j) (hg' : r.pgps i = some g') (hkey : g'.key = g.key) (hd' : d ≠ .null)
    (hn : n ≠ 0) : Zipped P (r.setCompressed P i d n) := by
  have hclient : r.clientOf P i = P.client g.key.obj.pool := by
    unfold State.clientOf
    rw [State.pgp_of hg', hkey]
  have hself : (r.setCompressed P i d n).pgps i = some { g' with data := d, size := n } := State.setData_self hg'
  have hnew : ∀ c w, zipped P c w (some { g' with data := d, size := n }) =
      if P.client g.key.obj.pool = c then w n else 0 := by
    intro c w
    rw [zipped_some, hkey]
    by_cases hc : P.client g.key.obj.pool = c
    · rw [if_pos ⟨hc, hd', hn⟩, if_pos hc]
    · rw [if_neg fun hin => hc hin.1, if_neg hc]
  refine h.change hi hnext (fun j hj => (Function.update_of_ne hj _ _).trans (hother j hj)) ?_ ?_
  · intro c
    rw [hself, hg, zipped_null hd, hnew, add_zero]
    unfold State.setCompressed
    rw [hclient, ← hzip.1]
    exact update_add r.compressedPages _ c 1
  · intro c
    rw [hself, hg, zipped_null hd, hnew, add_zero]
    unfold State.setCompressed
    rw [hclient, ← hzip.2]
    exact update_add r.compressedSum _ c n

/-! ## The data of a put -/

structure Counts (P : Settings) (s : State) : Prop where
  tight : Tight none none s
  zipped : Zipped P s

namespace Counts

theorem congr (h : Counts P s) (hs : SameData s s') : Counts P s' where
  tight := h.tight.congr hs.pgps hs.pcds hs.pages
  zipped := by
    constructor
    · rw [hs.compressedPages, hs.nextPgp, hs.pgps]
      exact h.zipped.pages
    · rw [hs.compressedSum, hs.nextPgp, hs.pgps]
      exact h.zipped.sum

theorem pgpFreeData (h : Counts P s) (hs : Stored P s) (hg : s.pgps i = some g) (hdata : g.data ≠ .null) :
    Counts P (s.pgpFreeData P i) := by
  refine ⟨?_, h.zipped.pgpFreeData hs hg hdata⟩
  have hrelease := h.tight.releaseData hs hg hdata
  unfold State.pgpFreeData
  rw [State.pgp_of hg]
  dsimp only
  rw [if_neg hdata]
  split
  · exact hrelease.congr rfl rfl rfl
  · exact hrelease

/-- A descriptor that is not compressed loses its content. -/
theorem pcdDisassociate (h : Counts P s) (hs : Stored P s) (hg : s.pgps i = some g) (hd : g.data = .pcd q)
    (hsize : g.size = 0) : Counts P (s.pcdDisassociate i) := by
  obtain ⟨hchange, hself⟩ := hs.pcdDisassociate hg hd
  have hzip := SameZip.pcdDisassociate s i
  refine ⟨h.tight.pcdDisassociate hs hg hd, ?_⟩
  refine h.zipped.same (hs.pgp_lt hg) hchange.index.nextPgp hchange.other hzip.1 hzip.2 ?_
  intro c w
  rw [hself, hg, zipped_null rfl, zipped_zero hsize]

theorem doTmemPutCompress (h : Counts P s) (hs : Stored P s) (hg : s.pgps i = some g) (src : Source) (a : Answers) :
    Counts P (s.doTmemPutCompress P i src a).1 := by
  -- the old data goes first
  obtain ⟨r, hr, hchange, hcounts, g₁, hg₁, hd₁⟩ : ∃ r, (if (s.pgp i).data ≠ .null then s.pgpFreeData P i else s) = r ∧
      Changes P i s r ∧ Counts P r ∧ ∃ g₁, r.pgps i = some g₁ ∧ g₁.data = .null := by
    rw [State.pgp_of hg]
    split
    · rename_i hdata
      obtain ⟨hfree, hself⟩ := hs.pgpFreeData hg hdata
      exact ⟨_, rfl, hfree, h.pgpFreeData hs hg hdata, _, hself, rfl⟩
    · rename_i hnull
      exact ⟨_, rfl, Changes.refl hs, h, g, hg, Decidable.not_not.1 hnull⟩
  have hlt := hchange.stored.pgp_lt hg₁
  unfold State.doTmemPutCompress
  dsimp only
  rw [hr]
  split
  · exact hcounts
  · split
    · exact hcounts
    · split
      · exact hcounts
      · rename_i p _ hlen
        rw [not_or, not_le] at hlen
        have hsmall : (P.lzoCompress p).length < pageSize := by
          have := hlen.2
          unfold subpageMaxsize pageSize at *
          omega
        split
        · rename_i hshare
          rw [State.pgp_of hg₁] at hshare
          obtain ⟨hassoc, htrue, hfalse⟩ := hchange.stored.associate_cdata hg₁ hd₁ hsmall
            (Bool.eq_false_iff.2 hshare.2) hshare.1 a
          have htight := hcounts.tight.associate_cdata (b := P.lzoCompress p) hchange.stored hg₁ hd₁ a
          have hzip := SameZip.pcdAssociate (P := P) r i (some (P.lzoCompress p)) a
          generalize r.pcdAssociate P i (some (P.lzoCompress p)) a = t at hassoc htrue hfalse htight hzip ⊢
          split
          · rename_i hok
            obtain ⟨g', q, c, hg', hd', -⟩ := htrue hok
            obtain ⟨g₂, hg₂, hkey⟩ := hassoc.key hg₁
            cases hg'.symm.trans hg₂
            refine ⟨?_, hcounts.zipped.setCompressed hlt hg₁ hd₁ hzip hassoc.index.nextPgp hassoc.other hg' hkey ?_ hlen.1⟩
            · have hpgps : (t.1.setCompressed P i (t.1.pgp i).data (P.lzoCompress p).length).pgps =
                  Function.update t.1.pgps i (some { g' with size := (P.lzoCompress p).length }) := by
                unfold State.setCompressed State.setData
                rw [State.pgp_of hg']
                rfl
              refine htight.update_pgps hpgps rfl rfl ?_ fun f hf => .inl hf
              intro g₃ f hg₃ hd₃
              cases hg'.symm.trans hg₃
              exact Data.noConfusion (hd'.symm.trans hd₃)
            · rw [State.pgp_of hg', hd']
              exact Data.noConfusion
          · rename_i hno
            rw [hfalse (Bool.eq_false_iff.2 hno)]
            exact hcounts
        · split
          · refine ⟨?_, hcounts.zipped.setCompressed hlt hg₁ hd₁ (SameZip.refl r) rfl (fun _ _ => rfl) hg₁ rfl ?_ hlen.1⟩
            · have hpgps : (r.setCompressed P i (.buf (P.lzoCompress p)) (P.lzoCompress p).length).pgps =
                  Function.update r.pgps i
                    (some { g₁ with data := .buf (P.lzoCompress p), size := (P.lzoCompress p).length }) := by
                unfold State.setCompressed State.setData
                rw [State.pgp_of hg₁]
                rfl
              refine hcounts.tight.update_pgps hpgps rfl rfl ?_ fun f hf => .inl hf
              intro g₃ f hg₃ hd₃
              cases hg₁.symm.trans hg₃
              exact Data.noConfusion (hd₁.symm.trans hd₃)
            · exact Data.noConfusion
          · exact hcounts

/-- A page that is copied counts, unless it is all zero. -/
theorem copyUncompressed (h : Counts P s) (hs : Stored P s) (hg : s.pgps i = some g) (hd : g.data = .null) (src : Source)
    (a : Answers) (hnonzero : a.content = true → ∀ junk p, a.page = some junk → src.copy junk = some p → P.dedup = true →
      P.persistent g.key.obj.pool = false → State.pfpSize P p ≠ 0) :
    Counts P (s.copyUncompressed P i src a).1 := by
  have hlt := hs.pgp_lt hg
  have hset : ∀ p, Counts P ((s.pageAlloc p).setData i (.pfp s.nextPage) 0) := by
    intro p
    have hpgps : ((s.pageAlloc p).setData i (.pfp s.nextPage) 0).pgps =
        Function.update s.pgps i (some { g with data := .pfp s.nextPage, size := 0 }) := by
      unfold State.setData
      rw [State.pgp_of (s := s.pageAlloc p) hg]
      rfl
    constructor
    · refine (h.tight.pageAlloc p).update_pgps hpgps rfl rfl ?_ ?_
      · intro g' f hg' hd'
        cases hg.symm.trans hg'
        exact Data.noConfusion (hd.symm.trans hd')
      · rintro f ⟨⟩
        exact .inr ⟨_, rfl, rfl⟩
    · refine h.zipped.same hlt rfl ?_ rfl rfl ?_
      · intro j hj
        rw [hpgps, Function.update_of_ne hj]
      · intro c w
        rw [hpgps, Function.update_self, hg, zipped_null hd]
        exact zipped_zero rfl
  unfold State.copyUncompressed
  split
  · exact h
  · rename_i junk hjunk
    split
    · exact hset junk
    · rename_i p hcopy
      dsimp only
      have hself : ((s.pageAlloc p).setData i (.pfp s.nextPage) 0).pgps i = some { g with data := .pfp s.nextPage, size := 0 } :=
        State.setData_self (s := s.pageAlloc p) hg
      have hp : ((s.pageAlloc p).setData i (.pfp s.nextPage) 0).pages s.nextPage = some p := Function.update_self ..
      have hstored := (hs.changes_page hg hd p).stored
      split
      · rename_i hshare
        rw [State.pgp_of hself] at hshare
        have hpers := Bool.eq_false_iff.2 hshare.2
        have htight := (hset p).tight.associate_page hstored hself rfl hp a
          fun hcontent => hnonzero hcontent junk p hjunk hcopy hshare.1 hpers
        have hzip := SameZip.pcdAssociate (P := P) ((s.pageAlloc p).setData i (.pfp s.nextPage) 0) i none a
        have hassoc := (hstored.associate_page hself rfl hp hpers hshare.1 a).1
        have hsize := State.pcdAssociate_size (P := P) ((s.pageAlloc p).setData i (.pfp s.nextPage) 0) i none a
        rw [State.pgp_of hself] at hsize
        refine ⟨htight, (hset p).zipped.same (hstored.pgp_lt hself) hassoc.index.nextPgp hassoc.other hzip.1 hzip.2 ?_⟩
        intro c w
        obtain ⟨g', hg', -⟩ := hassoc.key hself
        rw [State.pgp_of hg'] at hsize
        rw [hg', hself, zipped_zero hsize]
        exact (zipped_zero rfl).symm
      · exact hset p

end Counts

end Tmem
