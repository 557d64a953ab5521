import MemoryMonitor.Mm.SharingRuns

/-!
# Statistics of the sharing code

`nr_saved_mfns` counts the pages that sharing saves, and `shr_pages` of a domain its gfns that share
a page. The first is right in every run. When a list of two loses a gfn the other one is alone, but
`mem_sharing_gfn_account` is not called for it, and `shr_pages` stays too high.
-/

namespace Mm.Sharing

variable {D G M : Type} [DecidableEq D] [DecidableEq G] [DecidableEq M]

/-- The pages that an entry saves. -/
def Entry.saved (e : Entry D G M) : Int :=
  e.gfns.length - 1

/-- The gfns of the domain that share the page of an entry with another. -/
def Entry.sharing (d : D) (e : Entry D G M) : Int :=
  if 1 < e.gfns.length then (e.gfns.countP (fun i => i.domain = d) : Int) else 0

namespace State

variable {s : State D G M}

def total (s : State D G M) (weight : Entry D G M → Int) : Int :=
  Buckets.total SHR_HASH_LENGTH s.shrHash weight

def SavedExact (s : State D G M) : Prop :=
  s.nrSavedMfns = s.total Entry.saved

def PagesExact (s : State D G M) : Prop :=
  ∀ d, s.shrPages d = s.total (Entry.sharing d)

theorem hash_pos : 0 < SHR_HASH_LENGTH := by decide

/-! ## Totals of the table -/

section Totals

variable {h : Nat} {e : Entry D G M} {i : GfnInfo D G} (weight : Entry D G M → Int)

omit [DecidableEq M] in
theorem total_listDel (he : s.hashLookup h = some e) :
    (s.listDel h i).total weight + weight e = s.total weight + weight { e with gfns := e.gfns.erase i } :=
  Buckets.total_modify hash_pos he (fun e => { e with gfns := e.gfns.erase i }) weight

section

omit [DecidableEq D] [DecidableEq G] [DecidableEq M]

theorem total_listAdd (he : s.hashLookup h = some e) :
    (s.listAdd h i).total weight + weight e = s.total weight + weight { e with gfns := i :: e.gfns } :=
  Buckets.total_modify hash_pos he (fun e => { e with gfns := i :: e.gfns }) weight

theorem total_hashDelete (he : s.hashLookup h = some e) : (s.hashDelete h).total weight + weight e = s.total weight :=
  Buckets.total_delete hash_pos he weight

theorem total_hashInsert (m : M) : (s.hashInsert h m).total weight = s.total weight + weight ⟨h, m, [], false⟩ :=
  Buckets.total_insert hash_pos s.shrHash weight _

end

theorem Good.total_nominated (m : M) (p : Page D) :
    (s.nominated i m p).total weight = s.total weight + weight ⟨s.nextHandle, m, [i], false⟩ := by
  have hfind : (s.hashInsert s.nextHandle m).hashLookup s.nextHandle = some ⟨s.nextHandle, m, [], false⟩ := by
    rw [hashLookup_hashInsert, if_pos rfl]
  have hadd := total_listAdd (i := i) weight hfind
  rw [total_hashInsert] at hadd
  dsimp only at hadd
  have hsame : (s.nominated i m p).total weight = ((s.hashInsert s.nextHandle m).listAdd s.nextHandle i).total weight := rfl
  rw [hsame]
  omega

theorem total_moved {sh ch : Nat} {se ce : Entry D G M} (hne : sh ≠ ch) (hse : s.hashLookup sh = some se)
    (hce : s.hashLookup ch = some ce) :
    (s.moved sh ch se.mfn ce.mfn i).total weight + weight se + weight ce =
      s.total weight + weight { se with gfns := i :: se.gfns } + weight { ce with gfns := ce.gfns.erase i } := by
  have hdel := total_listDel (i := i) weight hce
  have hse' : (s.listDel ch i).hashLookup sh = some se := by
    rw [hashLookup_listDel, if_neg hne]
    exact hse
  have hadd := total_listAdd (i := i) weight hse'
  have hsame : (s.moved sh ch se.mfn ce.mfn i).total weight = ((s.listDel ch i).listAdd sh i).total weight := rfl
  rw [hsame]
  omega

theorem Good.total_moveGfns {sh ch : Nat} {se ce : Entry D G M} {s' : State D G M} (hs : s.Good) (hne : sh ≠ ch)
    (hse : s.hashLookup sh = some se) (hce : s.hashLookup ch = some ce)
    (hrun : State.moveGfns sh ch se.mfn ce.mfn ce.gfns s = some s') :
    s'.total weight + weight se + weight ce =
      s.total weight + weight { se with gfns := ce.gfns.reverse ++ se.gfns } + weight { ce with gfns := [] } ∧
    s'.nrSavedMfns = s.nrSavedMfns ∧ s'.shrPages = s.shrPages := by
  induction hgfns : ce.gfns generalizing s se ce with
  | nil =>
    rw [hgfns] at hrun
    cases hrun
    have heq : ({ ce with gfns := [] } : Entry D G M) = ce := by
      rw [← hgfns]
    rw [heq]
    exact ⟨rfl, rfl, rfl⟩
  | cons i rest ih =>
    have hi : i ∈ ce.gfns := by
      rw [hgfns]
      exact List.mem_cons_self
    have herase : ce.gfns.erase i = rest := by
      rw [hgfns, List.erase_cons_head]
    have hmoved := total_moved (i := i) weight hne hse hce
    have hlookup := hashLookup_moved (i := i) hne hse hce
    rw [herase] at hlookup hmoved
    have hse' := hlookup sh
    have hce' := hlookup ch
    rw [if_pos rfl] at hse'
    rw [if_neg hne.symm, if_pos rfl] at hce'
    rw [hgfns] at hrun
    unfold State.moveGfns at hrun
    rw [hs.moveGfn_eq hne hse hce hi] at hrun
    rcases ih (hs.moved hne hse hce hi) hse' hce' hrun rfl with ⟨htotal, hsaved, hpages⟩
    refine ⟨?_, hsaved.trans rfl, hpages.trans rfl⟩
    rw [List.reverse_cons, List.append_assoc]
    rw [List.singleton_append]
    dsimp only at htotal
    omega

end Totals

/-! ## What the calls do to the counts -/

/-- The counts are those of the table after the call, if they were before. -/
structure Counts (s s' : State D G M) : Prop where
  saved : s.SavedExact → s'.SavedExact
  pages : s.PagesExact → s'.PagesExact

omit [DecidableEq G] [DecidableEq M] in
theorem Counts.of_same {s' : State D G M} (hhash : s'.shrHash = s.shrHash) (hsaved : s'.nrSavedMfns = s.nrSavedMfns)
    (hpages : s'.shrPages = s.shrPages) : s.Counts s' := by
  constructor
  · intro h
    unfold SavedExact State.total
    rw [hhash, hsaved]
    exact h
  · intro h d
    unfold State.total
    rw [hhash, hpages]
    exact h d

theorem counts_nominated (i : GfnInfo D G) (m : M) (p : Page D) : s.Counts (s.nominated i m p) := by
  constructor
  · intro h
    unfold SavedExact
    rw [Good.total_nominated]
    show s.nrSavedMfns = _ + 0
    rw [h, Int.add_zero]
  · intro h d
    rw [Good.total_nominated]
    show s.shrPages d = _ + 0
    rw [h d, Int.add_zero]

section

omit [DecidableEq G] [DecidableEq M]

/-- The accounting of a list before it is merged: its gfn counts from now on, if it was alone. -/
theorem gfnAccount_pages (e : Entry D G M) (hne : e.gfns ≠ []) (d : D) :
    (s.gfnAccount e.gfns).shrPages d = s.shrPages d + (e.gfns.countP (fun i => i.domain = d) - e.sharing d) := by
  unfold Entry.sharing
  cases hgfns : e.gfns with
  | nil => exact absurd hgfns hne
  | cons i rest =>
    cases rest with
    | nil =>
      show Function.update s.shrPages i.domain (s.shrPages i.domain + 1) d = _
      rw [if_neg (show ¬1 < [i].length from Nat.lt_irrefl 1), List.countP_singleton, Function.update_apply]
      by_cases hd : d = i.domain
      · rw [if_pos hd, if_pos (decide_eq_true hd.symm), hd]
        omega
      · rw [if_neg hd, if_neg (by rw [decide_eq_true_eq]; exact Ne.symm hd)]
        omega
    | cons j more =>
      show s.shrPages d = _
      rw [if_pos (by rw [List.length_cons, List.length_cons]; omega)]
      omega

theorem gfnAccount_saved (s : State D G M) (gfns : List (GfnInfo D G)) :
    (s.gfnAccount gfns).nrSavedMfns = s.nrSavedMfns := by
  unfold gfnAccount
  split <;> rfl

end

/-- A share of two handles saves a page, and all the gfns of the merged list share. -/
theorem Inv.counts_share (hs : s.Inv) {sh ch : Nat} (hne : sh = ch → s.hashLookup sh = none) {s' : State D G M}
    (hdone : s.sharePages sh ch = .done s') : s.Counts s' := by
  unfold State.sharePages at hdone
  cases hse : s.hashLookup sh with
  | none =>
    rw [hse] at hdone
    exact nomatch hdone
  | some se =>
    cases hce : s.hashLookup ch with
    | none =>
      rw [hse, hce] at hdone
      exact nomatch hdone
    | some ce =>
      rw [hse, hce] at hdone
      dsimp only at hdone
      have hneq : sh ≠ ch := by
        intro heq
        rw [hne heq] at hse
        exact nomatch hse
      have hsne : se.gfns ≠ [] := hs.filled sh se hse
      have hcne : ce.gfns ≠ [] := hs.filled ch ce hce
      let s0 := (s.gfnAccount ce.gfns).gfnAccount se.gfns
      have h1 := s.gfnAccount_same ce.gfns
      have h2 := (s.gfnAccount ce.gfns).gfnAccount_same se.gfns
      have hs0 : s0.Good := hs.good.congr (h2.1.trans h1.1) (h2.2.trans h1.2)
      have hlook : s0.hashLookup = s.hashLookup := congrArg View.entries (h2.1.trans h1.1)
      have hse0 : s0.hashLookup sh = some se := by rw [hlook]; exact hse
      have hce0 : s0.hashLookup ch = some ce := by rw [hlook]; exact hce
      rcases hs0.moveGfns hneq hse0 hce0 with ⟨s1, hrun, hgood, hfind⟩
      have hrun' : State.moveGfns sh ch se.mfn ce.mfn ce.gfns ((s.gfnAccount ce.gfns).gfnAccount se.gfns) = some s1 := hrun
      rw [hrun'] at hdone
      cases hdone
      have hempty : s1.hashLookup ch = some { ce with gfns := [] } := by
        rw [hfind, if_neg hneq.symm, if_pos rfl]
      -- the total after the loop, and without the client's entry
      have htotal : ∀ weight, (s1.hashDelete ch).total weight + weight se + weight ce =
          s.total weight + weight { se with gfns := ce.gfns.reverse ++ se.gfns } := by
        intro weight
        have hmove := (hs0.total_moveGfns weight hneq hse0 hce0 hrun).1
        have hdel := total_hashDelete weight hempty
        have hsame : s0.total weight = s.total weight := by
          unfold State.total
          rw [h2.2.trans h1.2]
        omega
      have hclear := clearAllocated_same ({ s1.hashDelete ch with nrSavedMfns := s1.nrSavedMfns + 1 }) ce.mfn
      have hcounts := (hs0.total_moveGfns Entry.saved hneq hse0 hce0 hrun).2
      have hslen := List.length_pos_of_ne_nil hsne
      have hclen := List.length_pos_of_ne_nil hcne
      constructor
      · intro h
        have hw := htotal Entry.saved
        unfold SavedExact State.total
        rw [hclear.1, hclear.2.1]
        show s1.nrSavedMfns + 1 = (s1.hashDelete ch).total Entry.saved
        have hsaved : s1.nrSavedMfns = s.nrSavedMfns := by
          rw [hcounts.1]
          exact (gfnAccount_saved _ _).trans (gfnAccount_saved _ _)
        unfold SavedExact at h
        unfold Entry.saved at hw
        rw [List.length_append, List.length_reverse] at hw
        unfold Entry.saved at h ⊢
        omega
      · intro h d
        have hw := htotal (Entry.sharing d)
        unfold State.total
        rw [hclear.1, hclear.2.2.1]
        show s1.shrPages d = (s1.hashDelete ch).total (Entry.sharing d)
        have hpages : s1.shrPages d = s.shrPages d + (ce.gfns.countP (fun i => i.domain = d) - ce.sharing d) +
            (se.gfns.countP (fun i => i.domain = d) - se.sharing d) := by
          rw [hcounts.2]
          show ((s.gfnAccount ce.gfns).gfnAccount se.gfns).shrPages d = _
          rw [gfnAccount_pages se hsne, gfnAccount_pages ce hcne]
        have hmerged : Entry.sharing d { se with gfns := ce.gfns.reverse ++ se.gfns } =
            ce.gfns.countP (fun i => i.domain = d) + se.gfns.countP (fun i => i.domain = d) := by
          unfold Entry.sharing
          rw [if_pos (by rw [List.length_append, List.length_reverse]; omega), List.countP_append, List.countP_reverse]
          exact Int.natCast_add _ _
        rw [hpages, h d]
        rw [hmerged] at hw
        omega

/-- A gfn that is not on a list of two. -/
def Uncoupled (s : State D G M) (i : GfnInfo D G) : Prop :=
  ∀ h e, s.hashLookup h = some e → i ∈ e.gfns → e.gfns.length ≠ 2

theorem Unshared.total {h : Nat} {e : Entry D G M} {i : GfnInfo D G} {s' : State D G M} (hu : s.Unshared s' h e i)
    (he : s.hashLookup h = some e) (weight : Entry D G M → Int) :
    s'.total weight + weight e =
      s.total weight + if e.gfns.erase i = [] then 0 else weight { e with gfns := e.gfns.erase i } := by
  have hdel := total_listDel (i := i) weight he
  unfold State.total
  rw [hu.hash]
  by_cases hlast : e.gfns.erase i = []
  · rw [if_pos hlast, if_pos hlast]
    have hfind : (s.listDel h i).hashLookup h = some { e with gfns := e.gfns.erase i } := by
      rw [hashLookup_listDel, if_pos rfl, he]
      rfl
    have hgone := total_hashDelete weight hfind
    unfold State.total at hdel hgone
    omega
  · rw [if_neg hlast, if_neg hlast]
    exact hdel

/-- Unsharing saves a page less; the gfn counts no more, and the ones left behind count as before
unless there is only one. -/
theorem Unshared.counts {h : Nat} {e : Entry D G M} {i : GfnInfo D G} {s' : State D G M} (hu : s.Unshared s' h e i)
    (he : s.hashLookup h = some e) (hi : i ∈ e.gfns) :
    (s.SavedExact → s'.SavedExact) ∧ (e.gfns.length ≠ 2 → s.PagesExact → s'.PagesExact) := by
  have hlen := List.length_erase_of_mem hi
  have hpos := List.length_pos_of_mem hi
  constructor
  · intro h
    have htotal := hu.total he Entry.saved
    unfold SavedExact at h ⊢
    rw [hu.saved, h]
    by_cases hlast : e.gfns.erase i = []
    · rw [if_pos hlast] at htotal ⊢
      rw [hlast, List.length_nil] at hlen
      unfold Entry.saved at htotal ⊢
      omega
    · rw [if_neg hlast] at htotal ⊢
      unfold Entry.saved at htotal ⊢
      dsimp only at htotal
      omega
  · intro htwo h d
    have htotal := hu.total he (Entry.sharing d)
    rw [hu.pages]
    by_cases hlast : e.gfns.erase i = []
    · rw [if_pos hlast] at htotal ⊢
      rw [hlast, List.length_nil] at hlen
      have halone : Entry.sharing d e = 0 := if_neg (by omega)
      rw [h d]
      omega
    · have hne := List.length_pos_of_ne_nil hlast
      rw [if_neg hlast] at htotal ⊢
      have hbefore : Entry.sharing d e = e.gfns.countP (fun i => i.domain = d) := if_pos (by omega)
      have hafter : Entry.sharing d { e with gfns := e.gfns.erase i } =
          (e.gfns.erase i).countP (fun i => i.domain = d) := if_pos (by dsimp only; omega)
      have hcount := (List.perm_cons_erase hi).countP_eq (fun i => decide (i.domain = d))
      rw [List.countP_cons] at hcount
      rw [Function.update_apply]
      by_cases hd : d = i.domain
      · rw [if_pos (decide_eq_true hd.symm)] at hcount
        rw [if_pos hd, ← hd, h d]
        omega
      · rw [if_neg (by rw [decide_eq_true_eq]; exact Ne.symm hd)] at hcount
        rw [if_neg hd, h d]
        omega

end State

/-! ## Runs -/

/-- No gfn leaves a list of two. -/
def Apart (step : Step D G M) (s : State D G M) : Prop :=
  match step with
  | .unshare i _ _ _ => s.Uncoupled i
  | _ => True

namespace State

variable {s : State D G M}

theorem total_put_back {h : Nat} {e : Entry D G M} {i : GfnInfo D G} (he : s.hashLookup h = some e)
    (weight : Entry D G M → Int) (hweight : weight { e with gfns := i :: e.gfns.erase i } = weight e) :
    ((s.listDel h i).listAdd h i).total weight = s.total weight := by
  have hdel := total_listDel (i := i) weight he
  have hfind : (s.listDel h i).hashLookup h = some { e with gfns := e.gfns.erase i } := by
    rw [hashLookup_listDel, if_pos rfl, he]
    rfl
  have hadd := total_listAdd (i := i) weight hfind
  dsimp only at hadd
  omega

theorem counts_put_back {h : Nat} {e : Entry D G M} {i : GfnInfo D G} (he : s.hashLookup h = some e) (hi : i ∈ e.gfns) :
    s.Counts ((s.listDel h i).listAdd h i) := by
  have hperm : (i :: e.gfns.erase i).Perm e.gfns := (List.perm_cons_erase hi).symm
  constructor
  · intro h
    unfold SavedExact
    rw [total_put_back he]
    · exact h
    · unfold Entry.saved
      rw [hperm.length_eq]
  · intro h d
    rw [total_put_back he]
    · exact h d
    · unfold Entry.sharing
      rw [hperm.length_eq, hperm.countP_eq]

theorem Inv.counts_call (hs : s.Inv) (step : Step D G M) (hstep : Regular step s) {s' : State D G M}
    (hr : s.call step = .done s' ∨ ∃ e, s.call step = .failed e s') :
    (s.SavedExact → s'.SavedExact) ∧ (Apart step s → s.PagesExact → s'.PagesExact) := by
  suffices hcounts : (∃ i destroy must frame, step = .unshare i destroy must frame) ∨ s.Counts s' by
    rcases hcounts with ⟨i, destroy, must, frame, rfl⟩ | hcounts
    · have hunshare := hs.good.unsharePage i destroy must frame
      have hcall : s.call (.unshare i destroy must frame) = s.unsharePage i destroy must frame := rfl
      rw [hcall] at hr
      rcases hunshare with hdone | ⟨hbug, -⟩ | ⟨h, e, he, hi, hfailed | ⟨s1, hdone, hu⟩⟩
      · rw [hdone] at hr
        rcases hr with hr | ⟨_, hr⟩
        · cases hr
          exact ⟨id, fun _ => id⟩
        · exact nomatch hr
      · rw [hbug] at hr
        rcases hr with hr | ⟨_, hr⟩
        · exact nomatch hr
        · exact nomatch hr
      · rw [hfailed] at hr
        rcases hr with hr | ⟨_, hr⟩
        · exact nomatch hr
        · cases hr
          have hback := counts_put_back (s := s) he hi
          exact ⟨hback.saved, fun _ => hback.pages⟩
      · rw [hdone] at hr
        rcases hr with hr | ⟨_, hr⟩
        · cases hr
          have hcounts := hu.counts he hi
          exact ⟨hcounts.1, fun hapart => hcounts.2 (hapart h e he hi)⟩
        · exact nomatch hr
    · exact ⟨hcounts.saved, fun _ => hcounts.pages⟩
  cases step with
  | unshare i destroy must frame => exact .inl ⟨i, destroy, must, frame, rfl⟩
  | nominate i n entry info set =>
    right
    rcases hstep with ⟨rfl, rfl, rfl⟩
    have hcall : s.call (.nominate i n true true true) = s.nominatePage i n true true true := rfl
    rw [hcall] at hr
    rcases nominatePage_cases i n (s := s) with hdone | hfailed | ⟨m, p, e, hp, hfailed⟩ | ⟨m, p, htype, hp, hdone⟩
    · rw [hdone] at hr
      rcases hr with hr | ⟨_, hr⟩
      · cases hr
        exact Counts.of_same rfl rfl rfl
      · exact nomatch hr
    · rw [hfailed] at hr
      rcases hr with hr | ⟨_, hr⟩
      · exact nomatch hr
      · cases hr
        exact Counts.of_same rfl rfl rfl
    · rw [hfailed] at hr
      rcases hr with hr | ⟨_, hr⟩
      · exact nomatch hr
      · cases hr
        exact Counts.of_same rfl rfl rfl
    · rw [hdone] at hr
      rcases hr with hr | ⟨_, hr⟩
      · cases hr
        exact counts_nominated i m p
      · exact nomatch hr
  | share sh ch =>
    right
    rcases hr with hr | ⟨e, hr⟩
    · exact hs.counts_share hstep hr
    · have hcall : s.sharePages sh ch = .failed e s' := hr
      rcases hs.good.sharePages hstep with ⟨e', hfailed⟩ | ⟨se, ce, s1, -, -, hdone, -⟩
      · rw [hfailed] at hcall
        cases hcall
        exact Counts.of_same rfl rfl rfl
      · rw [hdone] at hcall
        exact nomatch hcall
  | hold m =>
    right
    rcases hr with hr | ⟨_, hr⟩
    · cases hr
      unfold State.hold
      split <;> exact Counts.of_same rfl rfl rfl
    · exact nomatch hr
  | release m =>
    right
    rcases hr with hr | ⟨_, hr⟩
    · cases hr
      unfold State.release
      split <;> exact Counts.of_same rfl rfl rfl
    · exact nomatch hr

theorem Inv.counts_act (hs : s.Inv) (step : Step D G M) (hstep : Regular step s) :
    (s.SavedExact → (Sharing.act step s).SavedExact) ∧
    (Apart step s → s.PagesExact → (Sharing.act step s).PagesExact) := by
  unfold Sharing.act
  split
  · exact ⟨id, fun _ => id⟩
  · cases hr : s.call step with
    | done s' => exact hs.counts_call step hstep (.inl hr)
    | failed e s' => exact hs.counts_call step hstep (.inr ⟨e, hr⟩)
    | bug =>
      have hsame : s.Counts { s with crashed := true } := Counts.of_same rfl rfl rfl
      exact ⟨hsame.saved, fun _ => hsame.pages⟩

omit [DecidableEq D] [DecidableEq G] [DecidableEq M] in
theorem total_init (start : Start D G M) (weight : Entry D G M → Int) : (init start).total weight = 0 := by
  unfold State.total Buckets.total
  apply Finset.sum_eq_zero
  intro _ _
  rfl

end State

open Runs

/-- `nr_saved_mfns` is right after every run, and `shr_pages` after a run in which no gfn leaves a
list of two. -/
theorem run_statistics_exact (start : Start D G M) (steps : List (Step D G M))
    (hsteps : Each act Regular steps (init start)) :
    (run act steps (init start)).SavedExact ∧
    (Each act Apart steps (init start) → (run act steps (init start)).PagesExact) := by
  constructor
  · have hkeep : ∀ (step : Step D G M) s, Regular step s → (State.Inv s ∧ s.SavedExact) →
        State.Inv (act step s) ∧ (act step s).SavedExact := by
      intro step s hstep hinv
      exact ⟨hinv.1.act step hstep, (hinv.1.counts_act step hstep).1 hinv.2⟩
    refine (hsteps.inv (I := fun s => State.Inv s ∧ s.SavedExact) hkeep ⟨State.init_inv start, ?_⟩).2
    exact (State.total_init start _).symm
  · intro hapart
    have hkeep : ∀ (step : Step D G M) s, Regular step s ∧ Apart step s → (State.Inv s ∧ s.PagesExact) →
        State.Inv (act step s) ∧ (act step s).PagesExact := by
      intro step s hstep hinv
      exact ⟨hinv.1.act step hstep.1, (hinv.1.counts_act step hstep.1).2 hstep.2 hinv.2⟩
    refine ((hsteps.and hapart).inv (I := fun s => State.Inv s ∧ s.PagesExact) hkeep ⟨State.init_inv start, ?_⟩).2
    intro d
    exact (State.total_init start _).symm

/-- Three pages; all other frames are free. -/
def threePages : Start Nat Nat Nat where
  p2m i := if i.domain = 0 ∧ i.gfn < 3 then ⟨.ramRw, some i.gfn⟩ else ⟨.other, none⟩
  page m := if m < 3 then ⟨some (.dom 0), true, 1, .other, 0, 0⟩ else ⟨none, false, 0, .other, 0, 0⟩
  held _ := 0
  unshared i := by
    split
    · exact fun heq => nomatch heq
    · exact fun heq => nomatch heq
  untyped m := by
    split
    · exact fun heq => nomatch heq
    · exact fun heq => nomatch heq
  counted m := by
    split <;> rfl

/-- The three pages are shared, and one gfn is given a copy: the other two share still. -/
theorem run_statistics_exact_three :
    let steps : List (Step Nat Nat Nat) :=
      [.nominate ⟨0, 0⟩ 0 true true true, .nominate ⟨0, 1⟩ 0 true true true, .nominate ⟨0, 2⟩ 0 true true true,
        .share 1 2, .share 1 3, .unshare ⟨0, 0⟩ false false (some 5)]
    (run act steps (init threePages)).PagesExact ∧ (run act steps (init threePages)).shrPages 0 = 2 := by
  intro steps
  have hregular : Each act Regular steps (init threePages) := by
    refine ⟨⟨rfl, rfl, rfl⟩, ⟨rfl, rfl, rfl⟩, ⟨rfl, rfl, rfl⟩, ?_, ?_, trivial, trivial⟩
    · intro heq
      exact nomatch heq
    · intro heq
      exact nomatch heq
  have hapart : Each act Apart steps (init threePages) := by
    refine ⟨trivial, trivial, trivial, trivial, trivial, ?_, trivial⟩
    intro h e he _
    have hmem := Buckets.lookup_mem he
    generalize h % SHR_HASH_LENGTH = b at hmem
    match b with
    | 0 => exact nomatch hmem
    | 1 =>
      have hall : ∀ e ∈ (run act (steps.take 5) (init threePages)).shrHash 1, e.gfns.length ≠ 2 := by decide
      exact hall e hmem
    | 2 => exact nomatch hmem
    | 3 => exact nomatch hmem
    | n + 4 => exact nomatch hmem
  exact ⟨(run_statistics_exact threePages steps hregular).2 hapart, by decide⟩

/-- Two pages are shared and one gfn is given a copy: no gfn shares a page any more, but one is
counted. -/
theorem shr_pages_left_over :
    let steps : List (Step Nat Nat Nat) :=
      [.nominate ⟨0, 0⟩ 0 true true true, .nominate ⟨0, 1⟩ 0 true true true, .share 1 2,
        .unshare ⟨0, 0⟩ false false (some 5)]
    (run act steps (init twoPages)).shrPages 0 = 1 ∧ (run act steps (init twoPages)).total (Entry.sharing 0) = 0 := by
  intro steps
  constructor
  · decide
  · unfold State.total Buckets.total
    apply Finset.sum_eq_zero
    intro b _
    match b with
    | 0 => decide
    | 1 => decide
    | 2 => decide
    | n + 3 => rfl

end Mm.Sharing
