import MemoryMonitor.Mm.SharingStore

/-!
# Runs of the sharing code

Unsharing in its three forms, and what holds after any sequence of calls.
-/

namespace Mm.Sharing

variable {D G M : Type} [DecidableEq D] [DecidableEq G] [DecidableEq M]

namespace State

variable {s : State D G M}

/-! ## Unshare -/

section Unshare

variable {h : Nat} {e : Entry D G M} {i : GfnInfo D G}

omit [DecidableEq D] [DecidableEq G] [DecidableEq M] in
/-- What is known of a gfn on the list of an entry. -/
theorem Good.listed (hs : s.Good) (he : s.hashLookup h = some e) (hi : i ∈ e.gfns) :
    s.p2m i = ⟨.ramShared, some e.mfn⟩ ∧ s.destroyed i = false ∧ (s.page e.mfn).shrHandle = h := by
  have hmaps := (hs.linked.listed h e he i).1 hi
  refine ⟨?_, hmaps.1.2, (hs.linked.backed h e he).handle⟩
  have htype : (s.p2m i).type = .ramShared := hmaps.1.1
  have hmfn : (s.p2m i).mfn = some e.mfn := hmaps.2
  rw [← htype, ← hmfn]

/-- The gfn leaves the list, for another use. -/
def detached (s : State D G M) (h : Nat) (e : Entry D G M) (i : GfnInfo D G) (x : P2mEntry M) (b : Bool) : State D G M :=
  { (s.listDel h i).setPage e.mfn (s.page e.mfn).less with
    p2m := Function.update s.p2m i x, destroyed := Function.update s.destroyed i b }

theorem hashLookup_detached (he : s.hashLookup h = some e) (x : P2mEntry M) (b : Bool) (k : Nat) :
    (s.detached h e i x b).hashLookup k = if k = h then some { e with gfns := e.gfns.erase i } else s.hashLookup k := by
  refine (hashLookup_listDel (s := s) h i k).trans ?_
  rw [he]
  rfl

theorem Good.detached (hs : s.Good) (he : s.hashLookup h = some e) (hi : i ∈ e.gfns) {x : P2mEntry M} {b : Bool}
    (hx : ¬(x.type = .ramShared ∧ b = false)) (hb : b = true → x.type = .ramShared) : (s.detached h e i x b).Good := by
  constructor
  · exact hs.wf.modify (f := fun e => { e with gfns := e.gfns.erase i }) (fun _ => rfl) _
  · have hview : (s.detached h e i x b).view = s.view.detach h e i x b := by
      apply View.ext <;> try rfl
      funext k
      refine (hashLookup_detached he x b k).trans ?_
      show _ = Function.update s.view.entries h (some { e with gfns := e.gfns.erase i }) k
      rw [Function.update_apply]
      rfl
    rw [hview]
    exact hs.linked.detach he hi hx hb

/-- The last gfn has left the list: no other entry has its page. -/
theorem Good.dropped (hs : s.Good) (he : s.hashLookup h = some e) (hempty : e.gfns = []) :
    (s.hashDelete h).Good ∧ (∀ h' e', (s.hashDelete h).hashLookup h' = some e' → e'.mfn ≠ e.mfn) ∧
    (s.page e.mfn).shares = 0 := by
  refine ⟨hs.hashDelete he hempty, fun h' e' he' hmfn => ?_, ?_⟩
  · rw [hashLookup_hashDelete hs.wf] at he'
    split at he'
    · exact nomatch he'
    · rename_i hh
      exact hh (hs.linked.mfn_inj he' he hmfn)
  · have hb := hs.linked.backed h e he
    have hshares := hb.shares
    rw [hempty] at hshares
    exact hshares

/-- The references of a page whose entry has a gfn. -/
theorem Good.one_lt_count (hs : s.Good) (he : s.hashLookup h = some e) (hi : i ∈ e.gfns) : 1 < (s.page e.mfn).count := by
  have hcount : (s.page e.mfn).count = _ := hs.linked.count_eq he
  have hpos := List.length_pos_of_mem hi
  rw [hcount]
  omega

/-- The gfn is dropped, and was not the last one. -/
theorem Good.destroy_more (hs : s.Good) (he : s.hashLookup h = some e) (hi : i ∈ e.gfns) :
    (s.detached h e i (s.p2m i) true).Good := by
  apply hs.detached he hi
  · intro hx
    exact nomatch hx.2
  · intro _
    rw [(hs.listed he hi).1]

theorem Good.destroy_last (hs : s.Good) (he : s.hashLookup h = some e) (hi : i ∈ e.gfns)
    (hlast : e.gfns.erase i = []) : (((s.detached h e i (s.p2m i) true).hashDelete h).clearAllocated e.mfn).Good := by
  have hdet := hs.destroy_more he hi
  have hentry : (s.detached h e i (s.p2m i) true).hashLookup h = some { e with gfns := e.gfns.erase i } := by
    rw [hashLookup_detached he, if_pos rfl]
  rcases hdet.dropped hentry hlast with ⟨hgood, hno, hshares⟩
  exact hgood.clearAllocated hno hshares

/-- The last gfn keeps the page for itself. -/
theorem Good.private_last (hs : s.Good) (he : s.hashLookup h = some e) (hi : i ∈ e.gfns) (hlast : e.gfns.erase i = []) :
    (((s.detached h e i ⟨.ramRw, some e.mfn⟩ false).hashDelete h).setPage e.mfn
      { (s.page e.mfn).less with owner := some (.dom i.domain) }).Good := by
  have hdet : (s.detached h e i ⟨.ramRw, some e.mfn⟩ false).Good := by
    apply hs.detached he hi
    · intro hx
      exact nomatch hx.1
    · intro hb
      exact nomatch hb
  have hentry : (s.detached h e i ⟨.ramRw, some e.mfn⟩ false).hashLookup h = some { e with gfns := e.gfns.erase i } := by
    rw [hashLookup_detached he, if_pos rfl]
  rcases hdet.dropped hentry hlast with ⟨hgood, hno, hshares⟩
  have hpage : (s.detached h e i ⟨.ramRw, some e.mfn⟩ false).page e.mfn = (s.page e.mfn).less := Function.update_self ..
  have hcounted := hgood.linked.counted e.mfn
  have hpage' : ((s.detached h e i ⟨.ramRw, some e.mfn⟩ false).hashDelete h).view.page e.mfn = (s.page e.mfn).less := hpage
  rw [hpage] at hshares
  rw [hpage', hshares] at hcounted
  exact hgood.setPage _ hno hshares hcounted

/-- The gfn goes to a frame of its own, which was free. -/
theorem Good.copied (hs : s.Good) (he : s.hashLookup h = some e) (hi : i ∈ e.gfns) {new : M}
    (hfree : (s.page new).count = 0) :
    e.mfn ≠ new ∧
    ((s.setPage new ⟨some (.dom i.domain), true, 1, .other, 0, (s.page new).shrHandle⟩).detached h e i
      ⟨.ramRw, some new⟩ false).Good := by
  have hno : ∀ h' e', s.hashLookup h' = some e' → e'.mfn ≠ new := by
    intro h' e' he' hmfn
    have hcount : (s.page e'.mfn).count = _ := hs.linked.count_eq he'
    rw [hmfn, hfree] at hcount
    omega
  have hheld : s.held new = 0 := by
    have hcounted := hs.linked.counted new
    have hzero : (s.view.page new).count = 0 := hfree
    have hsame : s.view.held new = s.held new := rfl
    rw [hzero] at hcounted
    omega
  constructor
  · exact hno h e he
  · have hset : (s.setPage new ⟨some (.dom i.domain), true, 1, .other, 0, (s.page new).shrHandle⟩).Good := by
      apply hs.setPage _ hno rfl
      rw [hheld]
      rfl
    apply hset.detached he hi
    · intro hx
      exact nomatch hx.1
    · intro hb
      exact nomatch hb

/-- No memory for a copy: the gfn is put back, in front. -/
theorem Good.put_back (hs : s.Good) (he : s.hashLookup h = some e) (hi : i ∈ e.gfns) :
    ((s.listDel h i).listAdd h i).Good ∧ s.Same ((s.listDel h i).listAdd h i) := by
  have hlook : ∀ k, ((s.listDel h i).listAdd h i).hashLookup k =
      if k = h then some { e with gfns := i :: e.gfns.erase i } else s.hashLookup k := by
    intro k
    rw [hashLookup_listAdd, hashLookup_listDel, hashLookup_listDel, if_pos rfl, he]
    split
    · rfl
    · rfl
  have hperm : (i :: e.gfns.erase i).Perm e.gfns := (List.perm_cons_erase hi).symm
  constructor
  · constructor
    · have hdel : Buckets.WF SHR_HASH_LENGTH Entry.handle (s.listDel h i).shrHash :=
        hs.wf.modify (f := fun e => { e with gfns := e.gfns.erase i }) (fun _ => rfl) _
      exact hdel.modify (f := fun e => { e with gfns := i :: e.gfns }) (fun _ => rfl) _
    · have hlisted := hs.listed he hi
      have hview : ((s.listDel h i).listAdd h i).view =
          s.view.change h e (i :: e.gfns.erase i) (s.page e.mfn) i (s.p2m i) false := by
        apply View.ext
        · funext k
          refine (hlook k).trans ?_
          show _ = Function.update s.view.entries h (some { e with gfns := i :: e.gfns.erase i }) k
          rw [Function.update_apply]
          rfl
        · rfl
        · show s.p2m = Function.update s.p2m i (s.p2m i)
          rw [Function.update_eq_self]
        · show s.page = Function.update s.page e.mfn (s.page e.mfn)
          rw [Function.update_eq_self]
        · rfl
        · show s.destroyed = Function.update s.destroyed i false
          rw [← hlisted.2.1, Function.update_eq_self]
      rw [hview]
      have hb := hs.linked.backed h e he
      apply hs.linked.change he
      · exact hperm.nodup_iff.2 (hs.linked.nodup h e he)
      · refine ⟨hb.owner, hb.handle, hb.type, ?_, hb.allocated⟩
        exact hb.typeCount.trans hperm.length_eq.symm
      · rw [hperm.length_eq]
        exact hs.linked.count_eq he
      · intro h' e' he' hne
        exact hs.linked.not_listed he hi he' hne
      · rw [hlisted.1]
        exact ⟨fun _ => ⟨⟨rfl, rfl⟩, rfl⟩, fun _ => List.mem_cons_self⟩
      · intro j _
        exact hperm.mem_iff
      · intro _
        rw [hlisted.1]
      · intro hb
        exact nomatch hb
  · refine ⟨fun k => ?_, fun k e1 e2 h1 h2 => ?_, rfl, fun _ => rfl, fun _ => rfl, fun _ => rfl, rfl, rfl⟩
    · rw [hlook]
      split
      · rename_i hk
        rw [hk, he]
        rfl
      · rfl
    · rw [hlook] at h2
      split at h2
      · rename_i hk
        rw [hk, he] at h1
        cases h1
        cases h2
        exact ⟨rfl, hperm⟩
      · rw [h1] at h2
        cases h2
        exact ⟨rfl, List.Perm.refl _⟩

/-- A call that has taken the gfn off the list. -/
structure Unshared (s s' : State D G M) (h : Nat) (e : Entry D G M) (i : GfnInfo D G) : Prop where
  good : s'.Good
  hash : s'.shrHash = if e.gfns.erase i = [] then ((s.listDel h i).hashDelete h).shrHash else (s.listDel h i).shrHash
  saved : s'.nrSavedMfns = if e.gfns.erase i = [] then s.nrSavedMfns else s.nrSavedMfns - 1
  pages : s'.shrPages = if e.gfns.erase i = [] then s.shrPages
    else Function.update s.shrPages i.domain (s.shrPages i.domain - 1)

/-- The call once the gfn has been found. -/
def unshareFound (s : State D G M) (h : Nat) (e : Entry D G M) (i : GfnInfo D G) (destroy must : Bool)
    (frame : Option M) : Result (State D G M) :=
  let lastGfn := (e.gfns.erase i).isEmpty
  let s := s.listDel h i
  if destroy then
    let s := s.commitDestroy i h lastGfn
    let s := s.setPage e.mfn (s.page e.mfn).putAndType
    let s := if lastGfn then s.clearAllocated e.mfn else s
    .done { s with destroyed := Function.update s.destroyed i true }
  else
    match (s.page e.mfn).makePrivate i.domain with
    | (p, none) => .done (((s.setPage e.mfn p).commitDestroy i h lastGfn).setP2mEntry i .ramRw (some e.mfn))
    | (p, some _) =>
        if lastGfn then .bug
        else
          let s := s.setPage e.mfn p
          match frame.bind (fun new => (s.allocPage i.domain new).map (new, ·)) with
          | none => if must then .bug else .failed .ENOMEM (s.listAdd h i)
          | some (new, s) =>
              let s := s.setP2mEntry i .ramShared (some new)
              let s := s.setPage e.mfn (s.page e.mfn).putAndType
              .done ((s.commitDestroy i h lastGfn).setP2mEntry i .ramRw (some new))

/-- A gfn that is shared is found, unless it was dropped before. -/
theorem Good.unsharePage_eq (hs : s.Good) (i : GfnInfo D G) (destroy must : Bool) (frame : Option M) :
    s.unsharePage i destroy must frame = .done s ∨
    (s.unsharePage i destroy must frame = .bug ∧ s.destroyed i = true) ∨
    ∃ h e, s.hashLookup h = some e ∧ i ∈ e.gfns ∧
      s.unsharePage i destroy must frame = s.unshareFound h e i destroy must frame := by
  unfold State.unsharePage
  by_cases htype : (s.p2m i).type = .ramShared
  · rw [if_neg (not_not.2 htype)]
    right
    cases hd : s.destroyed i with
    | true =>
      left
      refine ⟨?_, rfl⟩
      split
      · rfl
      · dsimp only
        split
        · rfl
        · rename_i e he
          have hi : i ∉ e.gfns := by
            intro hmem
            rw [(hs.listed he hmem).2.1] at hd
            exact nomatch hd
          rw [if_pos hi]
    | false =>
      right
      rcases hs.linked.mapped i ⟨htype, hd⟩ with ⟨h, e, he, hmfn⟩
      have hi : i ∈ e.gfns := (hs.linked.listed h e he i).2 ⟨⟨htype, hd⟩, hmfn⟩
      have he' : s.hashLookup h = some e := he
      refine ⟨h, e, he', hi, ?_⟩
      rw [(hs.listed he' hi).1]
      dsimp only
      rw [(hs.listed he' hi).2.2, he']
      dsimp only
      rw [if_neg (not_not.2 hi)]
      rfl
  · rw [if_pos htype]
    exact .inl rfl

section

omit [DecidableEq D] [DecidableEq G]

theorem clearAllocated_destroyed (s : State D G M) (m : M) (d : GfnInfo D G → Bool) :
    { s.clearAllocated m with destroyed := d } = ({ s with destroyed := d } : State D G M).clearAllocated m := by
  unfold State.clearAllocated
  dsimp only
  split <;> rfl

theorem clearAllocated_same (s : State D G M) (m : M) :
    (s.clearAllocated m).shrHash = s.shrHash ∧ (s.clearAllocated m).nrSavedMfns = s.nrSavedMfns ∧
    (s.clearAllocated m).shrPages = s.shrPages ∧ (s.clearAllocated m).destroyed = s.destroyed := by
  unfold State.clearAllocated
  split <;> exact ⟨rfl, rfl, rfl, rfl⟩

end

/-- Dropping a gfn. -/
theorem Good.unshareFound_destroy (hs : s.Good) (he : s.hashLookup h = some e) (hi : i ∈ e.gfns) (must : Bool)
    (frame : Option M) : ∃ s', s.unshareFound h e i true must frame = .done s' ∧ s.Unshared s' h e i := by
  have hput := Page.putAndType_of_lt (hs.one_lt_count he hi)
  have hp2m : Function.update s.p2m i (s.p2m i) = s.p2m := Function.update_eq_self ..
  cases hgfns : e.gfns.erase i with
  | nil =>
    refine ⟨((s.detached h e i (s.p2m i) true).hashDelete h).clearAllocated e.mfn, ?_,
      hs.destroy_last he hi hgfns, ?_, ?_, ?_⟩
    · unfold unshareFound State.detached
      rw [hgfns, hp2m, ← hput]
      let s1 := ((s.listDel h i).hashDelete h).setPage e.mfn (s.page e.mfn).putAndType
      show Result.done { s1.clearAllocated e.mfn with
        destroyed := Function.update (s1.clearAllocated e.mfn).destroyed i true } = _
      rw [(clearAllocated_same s1 e.mfn).2.2.2, clearAllocated_destroyed]
      rfl
    all_goals
      rw [hgfns, if_pos rfl]
    · exact (clearAllocated_same _ _).1
    · exact (clearAllocated_same _ _).2.1
    · exact (clearAllocated_same _ _).2.2.1
  | cons j rest =>
    refine ⟨{ s.detached h e i (s.p2m i) true with
      nrSavedMfns := s.nrSavedMfns - 1
      shrPages := Function.update s.shrPages i.domain (s.shrPages i.domain - 1) }, ?_,
      (hs.destroy_more he hi).congr rfl rfl, ?_, ?_, ?_⟩
    · unfold unshareFound State.detached
      rw [hgfns, hp2m, ← hput]
      rfl
    all_goals
      rw [hgfns]
      exact (if_neg (List.cons_ne_nil _ _)).symm

/-- A private page for the gfn: its own if it is the last one, else a copy, if there is memory. -/
theorem Good.unshareFound_private (hs : s.Good) (he : s.hashLookup h = some e) (hi : i ∈ e.gfns) (must : Bool)
    (frame : Option M) :
    (s.unshareFound h e i false must frame = .bug ∧ must = true) ∨
    s.unshareFound h e i false must frame = .failed .ENOMEM ((s.listDel h i).listAdd h i) ∨
    ∃ s', s.unshareFound h e i false must frame = .done s' ∧ s.Unshared s' h e i := by
  have hb := hs.linked.backed h e he
  have hone := hs.one_lt_count he hi
  have hprivate := Page.makePrivate_eq (p := s.page e.mfn) i.domain hb.owner hone hb.type
  have htc : (s.page e.mfn).typeCount = e.gfns.length := hb.typeCount
  have hlen := List.length_erase_of_mem hi
  have hpos := List.length_pos_of_mem hi
  have hd : Function.update s.destroyed i false = s.destroyed := by
    rw [← (hs.listed he hi).2.1, Function.update_eq_self]
  cases hgfns : e.gfns.erase i with
  | nil =>
    have hlast : (s.page e.mfn).typeCount = 1 := by
      rw [htc]
      rw [hgfns] at hlen
      have hnil : ([] : List (GfnInfo D G)).length = 0 := rfl
      omega
    rw [if_pos hlast] at hprivate
    have hless : ({ s.page e.mfn with owner := some (.dom i.domain), typeCount := 0, count := (s.page e.mfn).count - 1 } :
        Page D) = { (s.page e.mfn).less with owner := some (.dom i.domain) } := by
      show _ = ({ s.page e.mfn with
        owner := _, typeCount := (s.page e.mfn).typeCount - 1, count := (s.page e.mfn).count - 1 } : Page D)
      rw [hlast]
    rw [hless] at hprivate
    have hpage : (s.listDel h i).page e.mfn = s.page e.mfn := rfl
    refine .inr (.inr ⟨(((s.listDel h i).setPage e.mfn { (s.page e.mfn).less with owner := some (.dom i.domain) }).hashDelete
      h).setP2mEntry i .ramRw (some e.mfn), ?_, (hs.private_last he hi hgfns).congr ?_ rfl, ?_, ?_, ?_⟩)
    · unfold unshareFound
      rw [hgfns]
      dsimp only
      rw [if_neg (fun h => nomatch h), hpage, hprivate]
      rfl
    · apply View.ext <;> try rfl
      · show Function.update s.page e.mfn _ = Function.update (Function.update s.page e.mfn _) e.mfn _
        rw [Function.update_idem]
      · exact hd.symm
    all_goals
      rw [hgfns]
      exact (if_pos rfl).symm
  | cons j rest =>
    have hmore : (s.page e.mfn).typeCount ≠ 1 := by
      rw [htc]
      rw [hgfns, List.length_cons] at hlen
      omega
    rw [if_neg hmore] at hprivate
    have hsame : (s.listDel h i).setPage e.mfn (s.page e.mfn) = s.listDel h i := by
      show ({ s.listDel h i with page := Function.update s.page e.mfn (s.page e.mfn) } : State D G M) = _
      rw [Function.update_eq_self]
      rfl
    have hpage : (s.listDel h i).page e.mfn = s.page e.mfn := rfl
    have hfound : s.unshareFound h e i false must frame =
        match frame.bind (fun new => ((s.listDel h i).allocPage i.domain new).map (new, ·)) with
        | none => if must then .bug else .failed .ENOMEM ((s.listDel h i).listAdd h i)
        | some (new, s') =>
            let s' := s'.setP2mEntry i .ramShared (some new)
            let s' := s'.setPage e.mfn (s'.page e.mfn).putAndType
            .done ((s'.commitDestroy i h false).setP2mEntry i .ramRw (some new)) := by
      unfold unshareFound
      rw [hgfns]
      dsimp only
      rw [if_neg (fun h => nomatch h), hpage, hprivate]
      dsimp only
      rw [hsame]
      rfl
    rw [hfound]
    cases hframe : frame.bind (fun new => ((s.listDel h i).allocPage i.domain new).map (new, ·)) with
    | none =>
      dsimp only
      cases must with
      | true => exact .inl ⟨rfl, rfl⟩
      | false => exact .inr (.inl rfl)
    | some found =>
      rcases found with ⟨new, s1⟩
      rcases Option.bind_eq_some_iff.1 hframe with ⟨m, hm, hmap⟩
      rcases Option.map_eq_some_iff.1 hmap with ⟨s2, halloc, hpair⟩
      cases hpair
      unfold State.allocPage at halloc
      split at halloc
      · rename_i hfree
        cases halloc
        rcases hs.copied he hi hfree with ⟨hne, hgood⟩
        have hput := Page.putAndType_of_lt hone
        let s1 := (s.listDel h i).setPage new ⟨some (.dom i.domain), true, 1, .other, 0, (s.page new).shrHandle⟩
        have hpage1 : s1.page e.mfn = s.page e.mfn := Function.update_of_ne hne ..
        refine .inr (.inr ⟨_, rfl, hgood.congr ?_ rfl, ?_, ?_, ?_⟩)
        · apply View.ext <;> try rfl
          · show Function.update (Function.update s.p2m i _) i _ = Function.update s.p2m i _
            rw [Function.update_idem]
          · show Function.update s1.page e.mfn (s1.page e.mfn).putAndType =
              Function.update s1.page e.mfn (s1.page e.mfn).less
            rw [hpage1, hput]
          · exact hd.symm
        all_goals
          rw [hgfns]
          exact (if_neg (List.cons_ne_nil _ _)).symm
      · exact nomatch halloc

/-- How `mem_sharing_unshare_page` ends. -/
theorem Good.unsharePage (hs : s.Good) (i : GfnInfo D G) (destroy must : Bool) (frame : Option M) :
    s.unsharePage i destroy must frame = .done s ∨
    (s.unsharePage i destroy must frame = .bug ∧ (s.destroyed i = true ∨ must = true)) ∨
    ∃ h e, s.hashLookup h = some e ∧ i ∈ e.gfns ∧
      (s.unsharePage i destroy must frame = .failed .ENOMEM ((s.listDel h i).listAdd h i) ∨
        ∃ s', s.unsharePage i destroy must frame = .done s' ∧ s.Unshared s' h e i) := by
  rcases hs.unsharePage_eq i destroy must frame with hdone | ⟨hbug, hd⟩ | ⟨h, e, he, hi, heq⟩
  · exact .inl hdone
  · exact .inr (.inl ⟨hbug, .inl hd⟩)
  · rw [heq]
    cases destroy with
    | true => exact .inr (.inr ⟨h, e, he, hi, .inr (hs.unshareFound_destroy he hi must frame)⟩)
    | false =>
      rcases hs.unshareFound_private he hi must frame with ⟨hbug, hmust⟩ | hres
      · exact .inr (.inl ⟨hbug, .inr hmust⟩)
      · exact .inr (.inr ⟨h, e, he, hi, hres⟩)

theorem Unshared.hashLookup (hs : s.Good) (he : s.hashLookup h = some e) {s' : State D G M} (hu : s.Unshared s' h e i)
    (k : Nat) : s'.hashLookup k =
      if k = h then (if e.gfns.erase i = [] then none else some { e with gfns := e.gfns.erase i })
      else s.hashLookup k := by
  have hdel := hashLookup_listDel (s := s) h i
  have hwf : Buckets.WF SHR_HASH_LENGTH Entry.handle (s.listDel h i).shrHash :=
    hs.wf.modify (f := fun e => { e with gfns := e.gfns.erase i }) (fun _ => rfl) _
  unfold State.hashLookup
  rw [hu.hash]
  by_cases hlast : e.gfns.erase i = []
  · rw [if_pos hlast, if_pos hlast]
    refine (hashLookup_hashDelete hwf h k).trans ?_
    split
    · rfl
    · rename_i hk
      rw [hdel, if_neg hk]
      rfl
  · rw [if_neg hlast, if_neg hlast]
    refine (hdel k).trans ?_
    rw [he]
    rfl

end Unshare

/-! ## References of others -/

omit [DecidableEq D] [DecidableEq G] in
/-- References to a page come and go; the page of an entry is not freed by that. -/
theorem Good.refs (hs : s.Good) {m : M} {p : Page D} {n : Nat} (hshares : p.shares = (s.page m).shares)
    (htype : p.type = (s.page m).type) (htypeCount : p.typeCount = (s.page m).typeCount)
    (hhandle : p.shrHandle = (s.page m).shrHandle) (halloc : p.allocated = (s.page m).allocated)
    (howner : ∀ h e, s.hashLookup h = some e → e.mfn = m → p.owner = some .cow)
    (hcount : p.count = (s.page m).allocated.toNat + (s.page m).shares + n) :
    ({ s.setPage m p with held := Function.update s.held m n } : State D G M).Good := by
  constructor
  · exact hs.wf
  · have hv := hs.linked
    have hpage : ∀ m', ({ s.setPage m p with held := Function.update s.held m n } : State D G M).view.page m' =
        if m' = m then p else s.page m' := fun m' => Function.update_apply ..
    constructor
    · exact hv.fresh
    · exact hv.nodup
    · exact hv.live
    · intro h e he
      rw [hpage]
      have hb := hv.backed h e he
      split
      · rename_i hm
        rw [hm] at hb
        exact ⟨howner h e he hm, hhandle.trans hb.handle, htype.trans hb.type, htypeCount.trans hb.typeCount,
          halloc.trans hb.allocated⟩
      · exact hb
    · exact hv.listed
    · exact hv.mapped
    · intro m' hm'
      rw [hpage] at hm'
      split at hm'
      · rename_i hm
        rw [hshares, ← hm] at hm'
        exact hv.typed m' hm'
      · exact hv.typed m' hm'
    · intro m'
      rw [hpage]
      show _ = _ + Function.update s.held m n m'
      rw [Function.update_apply]
      split
      · rw [hshares, halloc]
        exact hcount
      · exact hv.counted m'
    · exact hv.dropped

theorem Good.hold (hs : s.Good) (m : M) : (s.hold m).Good := by
  unfold State.hold
  split
  · exact hs
  · refine hs.refs rfl rfl rfl rfl rfl ?_ ?_
    · intro h e he hm
      have hb := hs.linked.backed h e he
      rw [hm] at hb
      exact hb.owner
    · have hcounted : (s.page m).count = _ := hs.linked.counted m
      show (s.page m).count + 1 = _
      rw [hcounted]
      rfl

theorem Good.release (hs : s.Good) (m : M) : (s.release m).Good := by
  unfold State.release
  split
  · exact hs
  · rename_i hheld
    have hcounted : (s.page m).count = (s.page m).allocated.toNat + (s.page m).shares + s.held m := hs.linked.counted m
    have hfields : (s.page m).put.type = (s.page m).type ∧ (s.page m).put.typeCount = (s.page m).typeCount ∧
        (s.page m).put.shrHandle = (s.page m).shrHandle := by
      unfold Page.put
      split <;> exact ⟨rfl, rfl, rfl⟩
    have hsame := Page.put_same (s.page m)
    apply hs.refs hsame.2 hfields.1 hfields.2.1 hfields.2.2 hsame.1
    · intro h e he hm
      have hb := hs.linked.backed h e he
      rw [hm] at hb
      have halloc : (s.page m).allocated = true := hb.allocated
      rw [halloc] at hcounted
      have hone : 1 < (s.page m).count := by
        rw [hcounted]
        show 1 < 1 + _ + _
        omega
      rw [Page.put_of_lt hone]
      exact hb.owner
    · rw [Page.put_count, hcounted]
      omega

end State

/-! ## Runs -/

/-- Two handles are shared that differ, and a nomination that gets as far as its entry finds memory
for it, for the gfn and for the p2m. -/
def Regular (step : Step D G M) (s : State D G M) : Prop :=
  match step with
  | .nominate _ _ entry info set => entry = true ∧ info = true ∧ set = true
  | .share sh ch => sh = ch → s.hashLookup sh = none
  | _ => True

/-- What a call that fails leaves as it was. -/
def Unchanged (step : Step D G M) (s : State D G M) : Prop :=
  ∀ e s', s.call step = .failed e s' → s.Same s'

/-- A `BUG` is hit only for a gfn that was dropped before, or when a copy must not fail and does. -/
def BugFree (step : Step D G M) (s : State D G M) : Prop :=
  s.call step = .bug → ∃ i destroy must frame, step = .unshare i destroy must frame ∧
    (s.destroyed i = true ∨ must = true)

/-- The six views of what is shared. -/
structure State.Stored (s : State D G M) : Prop where
  /-- No entry that is linked was freed, and each is in the bucket of its handle, once. -/
  live : ∀ b, ∀ e ∈ s.shrHash b, e.freed = false ∧ b = e.handle % SHR_HASH_LENGTH
  handles : ∀ b, ((s.shrHash b).map Entry.handle).Nodup
  mfns : ∀ b b', ∀ e ∈ s.shrHash b, ∀ e' ∈ s.shrHash b', e.mfn = e'.mfn → e = e'
  gfns : ∀ b, ∀ e ∈ s.shrHash b, e.gfns ≠ [] ∧ e.gfns.Nodup
  listed : ∀ b, ∀ e ∈ s.shrHash b, ∀ i, i ∈ e.gfns ↔ s.p2m i = ⟨.ramShared, some e.mfn⟩ ∧ s.destroyed i = false
  mapped : ∀ i, (s.p2m i).type = .ramShared → s.destroyed i = false → ∃ b, ∃ e ∈ s.shrHash b, i ∈ e.gfns
  pages : ∀ b, ∀ e ∈ s.shrHash b, (s.page e.mfn).owner = some .cow ∧ (s.page e.mfn).shrHandle = e.handle ∧
    (s.page e.mfn).type = .shared ∧ (s.page e.mfn).typeCount = e.gfns.length
  typed : ∀ m, (s.page m).type = .shared → (s.page m).typeCount ≠ 0 → ∃ b, ∃ e ∈ s.shrHash b, e.mfn = m

namespace State

variable {s : State D G M}

theorem Good.stored (hs : s.Good) (hfilled : s.Filled) : s.Stored := by
  have hv := hs.linked
  have hfound : ∀ b, ∀ e ∈ s.shrHash b, s.hashLookup e.handle = some e := fun b e he => hs.wf.lookup_of_mem he
  have hmem : ∀ h e, s.hashLookup h = some e → e ∈ s.shrHash (h % SHR_HASH_LENGTH) := fun h e he => Buckets.lookup_mem he
  constructor
  · intro b e he
    exact ⟨hv.live _ e (hfound b e he), hs.wf.placed b e he⟩
  · exact hs.wf.nodup
  · intro b b' e he e' he' hmfn
    have h1 := hfound b e he
    have h2 := hfound b' e' he'
    rw [hv.mfn_inj h1 h2 hmfn, h2] at h1
    exact (Option.some.inj h1).symm
  · intro b e he
    exact ⟨hfilled _ e (hfound b e he), hv.nodup _ e (hfound b e he)⟩
  · intro b e he i
    rw [hv.listed _ e (hfound b e he) i]
    constructor
    · intro ⟨hmaps, hmfn⟩
      have htype : (s.p2m i).type = .ramShared := hmaps.1
      have hmfn' : (s.p2m i).mfn = some e.mfn := hmfn
      refine ⟨?_, hmaps.2⟩
      rw [← htype, ← hmfn']
    · intro ⟨hp2m, hd⟩
      refine ⟨⟨?_, hd⟩, ?_⟩
      · show (s.p2m i).type = _
        rw [hp2m]
      · show (s.p2m i).mfn = _
        rw [hp2m]
  · intro i htype hd
    rcases hv.mapped i ⟨htype, hd⟩ with ⟨h, e, he, hmfn⟩
    exact ⟨_, e, hmem h e he, (hv.listed h e he i).2 ⟨⟨htype, hd⟩, hmfn⟩⟩
  · intro b e he
    have hb := hv.backed _ e (hfound b e he)
    exact ⟨hb.owner, hb.handle, hb.type, hb.typeCount⟩
  · intro m htype hcount
    have hshares : (s.view.page m).shares ≠ 0 := by
      show (s.page m).shares ≠ 0
      unfold Page.shares
      rw [if_pos htype]
      exact hcount
    rcases hv.typed m hshares with ⟨h, e, he, hmfn⟩
    exact ⟨_, e, hmem h e he, hmfn⟩

/-- The table is in order, and every entry has a gfn. -/
structure Inv (s : State D G M) : Prop where
  good : s.Good
  filled : s.Filled

/-- What a call does, if it is regular. -/
structure Outcome (s : State D G M) (step : Step D G M) (r : Result (State D G M)) : Prop where
  done : ∀ s', r = .done s' → s'.Inv
  failed : ∀ e s', r = .failed e s' → s'.Inv ∧ s.Same s'
  bug : r = .bug → ∃ i destroy must frame, step = .unshare i destroy must frame ∧ (s.destroyed i = true ∨ must = true)

section

omit [DecidableEq D] [DecidableEq G] [DecidableEq M]

theorem Outcome.of_done {step : Step D G M} {s' : State D G M} (h : s'.Inv) : s.Outcome step (.done s') := by
  constructor
  · intro s'' heq
    cases heq
    exact h
  · intro e s'' heq
    exact nomatch heq
  · intro heq
    exact nomatch heq

theorem Outcome.of_failed {step : Step D G M} {s' : State D G M} {e : Err} (h : s'.Inv) (hsame : s.Same s') :
    s.Outcome step (.failed e s') := by
  constructor
  · intro s'' heq
    exact nomatch heq
  · intro e s'' heq
    cases heq
    exact ⟨h, hsame⟩
  · intro heq
    exact nomatch heq

end

theorem Inv.nominate (hs : s.Inv) (i : GfnInfo D G) (n : Nat) :
    s.Outcome (.nominate i n true true true) (s.nominatePage i n true true true) := by
  rcases nominatePage_cases i n (s := s) with hdone | hfailed | ⟨m, p, e, hp, hfailed⟩ | ⟨m, p, htype, hp, hdone⟩
  · rw [hdone]
    exact Outcome.of_done hs
  · rw [hfailed]
    exact Outcome.of_failed hs (Same.refl s)
  · rw [hfailed]
    rcases hs.good.makeSharable_failed hp with ⟨hgood, hsame⟩
    exact Outcome.of_failed ⟨hgood, hs.filled⟩ hsame
  · rw [hdone]
    have hspec := Page.makeSharable_spec i.domain n (p := s.page m) hs.good.shares_eq
    rw [hp] at hspec
    have hne : (s.p2m i).type ≠ .ramShared := by
      rw [htype]
      exact fun heq => nomatch heq
    refine Outcome.of_done ⟨hs.good.nominated hne hspec.1 hspec.2.1 hspec.2.2, fun h e he => ?_⟩
    rw [hashLookup_nominated] at he
    split at he
    · cases he
      exact List.cons_ne_nil _ _
    · exact hs.filled h e he

theorem Inv.share (hs : s.Inv) {sh ch : Nat} (hne : sh = ch → s.hashLookup sh = none) :
    s.Outcome (.share sh ch) (s.sharePages sh ch) := by
  rcases hs.good.sharePages hne with ⟨e, hfailed⟩ | ⟨se, ce, s', hse, hce, hdone, hgood, hfind⟩
  · rw [hfailed]
    exact Outcome.of_failed hs (Same.refl s)
  · rw [hdone]
    refine Outcome.of_done ⟨hgood, fun h e he => ?_⟩
    rw [hfind] at he
    split at he
    · exact nomatch he
    · split at he
      · cases he
        intro hnil
        exact hs.filled sh se hse (List.append_eq_nil_iff.1 hnil).2
      · exact hs.filled h e he

theorem Inv.unshare (hs : s.Inv) (i : GfnInfo D G) (destroy must : Bool) (frame : Option M) :
    s.Outcome (.unshare i destroy must frame) (s.unsharePage i destroy must frame) := by
  rcases hs.good.unsharePage i destroy must frame with hdone | ⟨hbug, hwhy⟩ | ⟨h, e, he, hi, hfailed | ⟨s', hdone, hu⟩⟩
  · rw [hdone]
    exact Outcome.of_done hs
  · rw [hbug]
    constructor
    · intro s' heq
      exact nomatch heq
    · intro e s' heq
      exact nomatch heq
    · intro _
      exact ⟨i, destroy, must, frame, rfl, hwhy⟩
  · rw [hfailed]
    rcases hs.good.put_back he hi with ⟨hgood, hsame⟩
    refine Outcome.of_failed ⟨hgood, fun k e' he' => ?_⟩ hsame
    -- the lists are those of before, in another order
    have hsome := hsame.entries k
    rw [he', Option.isSome_some] at hsome
    rcases Option.isSome_iff_exists.1 hsome.symm with ⟨e0, he0⟩
    intro hnil
    have hperm := (hsame.gfns k e0 e' he0 he').2
    rw [hnil] at hperm
    exact hs.filled k e0 he0 hperm.nil_eq.symm
  · rw [hdone]
    refine Outcome.of_done ⟨hu.good, fun k e' he' => ?_⟩
    rw [hu.hashLookup hs.good he] at he'
    split at he'
    · split at he'
      · exact nomatch he'
      · rename_i hmore
        cases he'
        exact hmore
    · exact hs.filled k e' he'

theorem Inv.call (hs : s.Inv) (step : Step D G M) (hstep : Regular step s) : s.Outcome step (s.call step) := by
  cases step with
  | nominate i n entry info set =>
    rcases hstep with ⟨rfl, rfl, rfl⟩
    exact hs.nominate i n
  | share sh ch => exact hs.share hstep
  | unshare i destroy must frame => exact hs.unshare i destroy must frame
  | hold m =>
    refine Outcome.of_done ⟨hs.good.hold m, fun k e he => hs.filled k e ?_⟩
    unfold State.hold at he
    split at he <;> exact he
  | release m =>
    refine Outcome.of_done ⟨hs.good.release m, fun k e he => hs.filled k e ?_⟩
    unfold State.release at he
    split at he <;> exact he

theorem Inv.act (hs : s.Inv) (step : Step D G M) (hstep : Regular step s) : (act step s).Inv := by
  have hcall := hs.call step hstep
  unfold Sharing.act
  split
  · exact hs
  · cases hr : s.call step with
    | done s' => exact hcall.done s' hr
    | failed e s' => exact (hcall.failed e s' hr).1
    | bug => exact ⟨hs.good.congr rfl rfl, hs.filled⟩

omit [DecidableEq D] [DecidableEq G] [DecidableEq M] in
theorem init_inv (start : Start D G M) : (init start).Inv := by
  constructor
  · constructor
    · constructor
      · intro b e he
        exact nomatch he
      · intro b
        exact List.nodup_nil
    · constructor
      · intro h e he
        exact nomatch he
      · intro h e he
        exact nomatch he
      · intro h e he
        exact nomatch he
      · intro h e he
        exact nomatch he
      · intro h e he
        exact nomatch he
      · intro i hi
        exact absurd hi.1 (start.unshared i)
      · intro m hm
        have hshares : (start.page m).shares = 0 := by
          unfold Page.shares
          split
          · exact start.untyped m ‹_›
          · rfl
        exact absurd hshares hm
      · intro m
        have hshares : (start.page m).shares = 0 := by
          unfold Page.shares
          split
          · exact start.untyped m ‹_›
          · rfl
        show (start.page m).count = (start.page m).allocated.toNat + (start.page m).shares + start.held m
        rw [hshares]
        exact start.counted m
      · intro i hi
        exact nomatch hi
  · intro h e he
    exact nomatch he

end State

open Runs

/-- In a run of regular steps the six views agree, a call that fails changes none of them, and a `BUG`
is hit only for a gfn that has been dropped, or without memory where that must not be. -/
theorem run_views_agree (start : Start D G M) (steps : List (Step D G M))
    (hsteps : Each act Regular steps (init start)) :
    (run act steps (init start)).Stored ∧ Each act Unchanged steps (init start) ∧ Each act BugFree steps (init start) := by
  have hkeep : ∀ (step : Step D G M) s, Regular step s → State.Inv s → State.Inv (act step s) := by
    intro step s hstep hinv
    exact hinv.act step hstep
  refine ⟨?_, ?_, ?_⟩
  · have hinv := hsteps.inv (I := State.Inv) hkeep (State.init_inv start)
    exact hinv.good.stored hinv.filled
  · apply hsteps.of_inv (I := State.Inv) hkeep
    · intro step s hstep hinv e s' hr
      exact ((hinv.call step hstep).failed e s' hr).2
    · exact State.init_inv start
  · apply hsteps.of_inv (I := State.Inv) hkeep
    · intro step s hstep hinv hr
      exact (hinv.call step hstep).bug hr
    · exact State.init_inv start

/-- A domain with two pages; all other frames are free. -/
def twoPages : Start Nat Nat Nat where
  p2m i := if i.domain = 0 ∧ i.gfn < 2 then ⟨.ramRw, some i.gfn⟩ else ⟨.other, none⟩
  page m := if m < 2 then ⟨some (.dom 0), true, 1, .other, 0, 0⟩ else ⟨none, false, 0, .other, 0, 0⟩
  held _ := 0
  unshared i := by
    split
    · exact fun heq => nomatch heq
    · exact fun heq => nomatch heq
  untyped m := by
    split
    · exact fun heq => nomatch heq
    · exact fun heq => nomatch heq
  counted m := by
    split <;> rfl

/-- The two pages are shared, and one gfn is given a copy. -/
def shareAndCopy : List (Step Nat Nat Nat) :=
  [.nominate ⟨0, 0⟩ 0 true true true, .nominate ⟨0, 1⟩ 0 true true true, .share 1 2, .unshare ⟨0, 0⟩ false false (some 5)]

theorem run_views_agree_copy : (run act shareAndCopy (init twoPages)).Stored ∧
    (run act shareAndCopy (init twoPages)).hashLookup 1 = some ⟨1, 0, [⟨0, 1⟩], false⟩ ∧
    (run act shareAndCopy (init twoPages)).p2m ⟨0, 0⟩ = ⟨.ramRw, some 5⟩ := by
  have hsteps : Each act Regular shareAndCopy (init twoPages) := by
    refine ⟨⟨rfl, rfl, rfl⟩, ⟨rfl, rfl, rfl⟩, ?_, trivial, trivial⟩
    intro heq
    exact nomatch heq
  exact ⟨(run_views_agree twoPages shareAndCopy hsteps).1, by decide, by decide⟩

/-- `MEM_SHARING_DESTROY_GFN` leaves the entry of the p2m for the teardown: the gfn is shared there,
and is on no list. -/
theorem dropped_gfn_still_shared :
    let s := run act [.nominate ⟨0, 0⟩ 0 true true true, .unshare ⟨0, 0⟩ true false none] (init twoPages)
    ¬∀ i m, (∃ b, ∃ e ∈ s.shrHash b, e.mfn = m ∧ i ∈ e.gfns) ↔ s.p2m i = ⟨.ramShared, some m⟩ := by
  intro s hiff
  have hempty : ∀ b, s.shrHash b = [] := by
    intro b
    match b with
    | 0 => decide
    | 1 => decide
    | n + 2 => rfl
  rcases (hiff ⟨0, 0⟩ 0).2 (by decide) with ⟨b, e, he, -⟩
  rw [hempty b] at he
  exact nomatch he

end Mm.Sharing
