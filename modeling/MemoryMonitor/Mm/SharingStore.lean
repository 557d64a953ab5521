import MemoryMonitor.Mm.Sharing

/-!
# What the sharing code keeps

The table of the entries as a map, and the invariant that ties it to the p2m, the types and the
owners of the pages. Every call is a sequence of five changes of this view.
-/

namespace Mm.Sharing

variable {D G M : Type} [DecidableEq D] [DecidableEq G] [DecidableEq M]

/-- References of the type `PGT_shared_page`. -/
def Page.shares (p : Page D) : Nat :=
  if p.type = .shared then p.typeCount else 0

/-- A reference of a gfn more. -/
def Page.more (p : Page D) : Page D :=
  { p with typeCount := p.typeCount + 1, count := p.count + 1 }

/-- A reference of a gfn less. -/
def Page.less (p : Page D) : Page D :=
  { p with typeCount := p.typeCount - 1, count := p.count - 1 }

@[ext] structure View (D G M : Type) where
  entries : Nat → Option (Entry D G M)
  next : Nat
  p2m : GfnInfo D G → P2mEntry M
  page : M → Page D
  held : M → Nat
  destroyed : GfnInfo D G → Bool

namespace View

variable (v : View D G M)

def setEntry (h : Nat) (e : Option (Entry D G M)) : View D G M :=
  { v with entries := Function.update v.entries h e }

def setPage (m : M) (p : Page D) : View D G M :=
  { v with page := Function.update v.page m p }

/-- The gfn is in use as a shared one. -/
def Maps (i : GfnInfo D G) : Prop :=
  (v.p2m i).type = .ramShared ∧ v.destroyed i = false

/-- What holds of the page of an entry. -/
structure Backs (p : Page D) (h : Nat) (e : Entry D G M) : Prop where
  owner : p.owner = some .cow
  handle : p.shrHandle = h
  type : p.type = .shared
  typeCount : p.typeCount = e.gfns.length
  allocated : p.allocated = true

structure Linked : Prop where
  fresh : ∀ h e, v.entries h = some e → h < v.next
  nodup : ∀ h e, v.entries h = some e → e.gfns.Nodup
  live : ∀ h e, v.entries h = some e → e.freed = false
  backed : ∀ h e, v.entries h = some e → Backs (v.page e.mfn) h e
  listed : ∀ h e, v.entries h = some e → ∀ i, i ∈ e.gfns ↔ v.Maps i ∧ (v.p2m i).mfn = some e.mfn
  mapped : ∀ i, v.Maps i → ∃ h e, v.entries h = some e ∧ (v.p2m i).mfn = some e.mfn
  typed : ∀ m, (v.page m).shares ≠ 0 → ∃ h e, v.entries h = some e ∧ e.mfn = m
  counted : ∀ m, (v.page m).count = (v.page m).allocated.toNat + (v.page m).shares + v.held m
  dropped : ∀ i, v.destroyed i = true → (v.p2m i).type = .ramShared

variable {v}

section

omit [DecidableEq D] [DecidableEq G] [DecidableEq M]

/-- Two entries do not share a page. -/
theorem Linked.mfn_inj (hv : v.Linked) {h h' : Nat} {e e' : Entry D G M} (he : v.entries h = some e)
    (he' : v.entries h' = some e') (hmfn : e.mfn = e'.mfn) : h = h' := by
  rw [← (hv.backed h e he).handle, ← (hv.backed h' e' he').handle, hmfn]

theorem Backs.shares {p : Page D} {h : Nat} {e : Entry D G M} (hb : Backs p h e) : p.shares = e.gfns.length := by
  unfold Page.shares
  rw [if_pos hb.type, hb.typeCount]

end

theorem Linked.count_eq (hv : v.Linked) {h : Nat} {e : Entry D G M} (he : v.entries h = some e) :
    (v.page e.mfn).count = 1 + e.gfns.length + v.held e.mfn := by
  have hb := hv.backed h e he
  rw [hv.counted, hb.shares, hb.allocated]
  rfl

/-! ## A page that has no entry -/

omit [DecidableEq D] [DecidableEq G] in
theorem Linked.setPage (hv : v.Linked) {v' : View D G M} {m : M} (p : Page D)
    (hpage : v'.page = Function.update v.page m p) (hentries : v'.entries = v.entries) (hnext : v.next ≤ v'.next)
    (hp2m : v'.p2m = v.p2m) (hdestroyed : v'.destroyed = v.destroyed) (hheld : ∀ m', m' ≠ m → v'.held m' = v.held m')
    (hno : ∀ h e, v.entries h = some e → e.mfn ≠ m) (hshares : p.shares = 0)
    (hcount : p.count = p.allocated.toNat + v'.held m) : v'.Linked := by
  have hother : ∀ h e, v.entries h = some e → v'.page e.mfn = v.page e.mfn := by
    intro h e he
    rw [hpage, Function.update_of_ne (hno h e he)]
  constructor
  · intro h e he
    rw [hentries] at he
    exact Nat.lt_of_lt_of_le (hv.fresh h e he) hnext
  · intro h e he
    rw [hentries] at he
    exact hv.nodup h e he
  · intro h e he
    rw [hentries] at he
    exact hv.live h e he
  · intro h e he
    rw [hentries] at he
    rw [hother h e he]
    exact hv.backed h e he
  · intro h e he i
    rw [hentries] at he
    unfold Maps
    rw [hp2m, hdestroyed]
    exact hv.listed h e he i
  · intro i hi
    unfold Maps at hi
    rw [hp2m, hdestroyed] at hi
    rw [hp2m, hentries]
    exact hv.mapped i hi
  · intro m' hm'
    rw [hpage, Function.update_apply] at hm'
    rw [hentries]
    split at hm'
    · exact absurd hshares hm'
    · exact hv.typed m' hm'
  · intro m'
    rw [hpage, Function.update_apply]
    split
    · rename_i hm
      rw [hshares, hm]
      exact hcount
    · rename_i hm
      rw [hheld m' hm]
      exact hv.counted m'
  · intro i hi
    rw [hdestroyed] at hi
    rw [hp2m]
    exact hv.dropped i hi

/-! ## Entries -/

/-- A new entry, that has no gfns yet, for a page that has none. -/
theorem Linked.create (hv : v.Linked) {m : M} {p : Page D} (hno : ∀ h e, v.entries h = some e → e.mfn ≠ m)
    (hp : Backs p v.next (⟨v.next, m, [], false⟩ : Entry D G M)) (hcount : p.count = 1 + v.held m)
    (hfree : ∀ i, v.Maps i → (v.p2m i).mfn ≠ some m) :
    { (v.setPage m p).setEntry v.next (some ⟨v.next, m, [], false⟩) with next := v.next + 1 }.Linked := by
  have hcases : ∀ h e, Function.update v.entries v.next (some ⟨v.next, m, [], false⟩) h = some e →
      (h = v.next ∧ e = ⟨v.next, m, [], false⟩) ∨ v.entries h = some e := by
    intro h e he
    rw [Function.update_apply] at he
    split at he
    · rename_i hh
      exact .inl ⟨hh, (Option.some.inj he).symm⟩
    · exact .inr he
  have hkept : ∀ h e, v.entries h = some e →
      Function.update v.entries v.next (some ⟨v.next, m, [], false⟩) h = some e := by
    intro h e he
    rw [Function.update_of_ne (Nat.ne_of_lt (hv.fresh h e he))]
    exact he
  constructor
  · intro h e he
    rcases hcases h e he with ⟨hh, -⟩ | hold
    · rw [hh]
      exact Nat.lt_succ_self _
    · exact Nat.lt_succ_of_lt (hv.fresh h e hold)
  · intro h e he
    rcases hcases h e he with ⟨-, heq⟩ | hold
    · rw [heq]
      exact List.nodup_nil
    · exact hv.nodup h e hold
  · intro h e he
    rcases hcases h e he with ⟨-, heq⟩ | hold
    · rw [heq]
    · exact hv.live h e hold
  · intro h e he
    show Backs (Function.update v.page m p e.mfn) h e
    rcases hcases h e he with ⟨hh, heq⟩ | hold
    · rw [hh, heq, Function.update_self]
      exact hp
    · rw [Function.update_of_ne (hno h e hold)]
      exact hv.backed h e hold
  · intro h e he i
    rcases hcases h e he with ⟨hh, heq⟩ | hold
    · rw [heq]
      constructor
      · intro hi
        exact nomatch hi
      · intro hi
        exact absurd hi.2 (hfree i hi.1)
    · exact hv.listed h e hold i
  · intro i hi
    rcases hv.mapped i hi with ⟨h, e, he, hmfn⟩
    exact ⟨h, e, hkept h e he, hmfn⟩
  · intro m' hm'
    have hm'' : (Function.update v.page m p m').shares ≠ 0 := hm'
    rw [Function.update_apply] at hm''
    split at hm''
    · rw [hp.shares] at hm''
      exact absurd rfl hm''
    · rcases hv.typed m' hm'' with ⟨h, e, he, hmfn⟩
      exact ⟨h, e, hkept h e he, hmfn⟩
  · intro m'
    show (Function.update v.page m p m').count = (Function.update v.page m p m').allocated.toNat +
      (Function.update v.page m p m').shares + v.held m'
    rw [Function.update_apply]
    split
    · rename_i hm
      rw [hp.shares, hp.allocated, hm]
      exact hcount
    · exact hv.counted m'
  · exact hv.dropped

theorem Linked.drop (hv : v.Linked) {h : Nat} {e : Entry D G M} (he : v.entries h = some e) (hempty : e.gfns = []) :
    (v.setEntry h none).Linked := by
  have hcases : ∀ h' e', Function.update v.entries h none h' = some e' → h' ≠ h ∧ v.entries h' = some e' := by
    intro h' e' he'
    rw [Function.update_apply] at he'
    split at he'
    · exact nomatch he'
    · rename_i hne
      exact ⟨hne, he'⟩
  -- what points to an entry does not point to this one
  have hkept : ∀ h' e', v.entries h' = some e' → e'.gfns ≠ [] → Function.update v.entries h none h' = some e' := by
    intro h' e' he' hne
    have hother : h' ≠ h := by
      intro heq
      rw [heq, he] at he'
      cases he'
      exact hne hempty
    rw [Function.update_of_ne hother]
    exact he'
  constructor
  · intro h' e' he'
    exact hv.fresh h' e' (hcases h' e' he').2
  · intro h' e' he'
    exact hv.nodup h' e' (hcases h' e' he').2
  · intro h' e' he'
    exact hv.live h' e' (hcases h' e' he').2
  · intro h' e' he'
    exact hv.backed h' e' (hcases h' e' he').2
  · intro h' e' he' i
    exact hv.listed h' e' (hcases h' e' he').2 i
  · intro i hi
    rcases hv.mapped i hi with ⟨h', e', he', hmfn⟩
    refine ⟨h', e', hkept h' e' he' ?_, hmfn⟩
    exact List.ne_nil_of_mem ((hv.listed h' e' he' i).2 ⟨hi, hmfn⟩)
  · intro m hm
    rcases hv.typed m hm with ⟨h', e', he', hmfn⟩
    refine ⟨h', e', hkept h' e' he' ?_, hmfn⟩
    intro hnil
    have hm' : (v.page m).shares ≠ 0 := hm
    rw [← hmfn, (hv.backed h' e' he').shares, hnil] at hm'
    exact hm' rfl
  · exact hv.counted
  · exact hv.dropped

/-! ## Gfns of an entry -/

/-- The view after the gfns of an entry, its page and one gfn have changed. -/
def change (v : View D G M) (h : Nat) (e : Entry D G M) (gfns : List (GfnInfo D G)) (p : Page D) (i : GfnInfo D G)
    (x : P2mEntry M) (b : Bool) : View D G M :=
  { v with
    entries := Function.update v.entries h (some { e with gfns := gfns })
    page := Function.update v.page e.mfn p
    p2m := Function.update v.p2m i x
    destroyed := Function.update v.destroyed i b }

/-- A gfn that changes is on no other list, and is in use only if it is on the list of this entry. -/
theorem Linked.change (hv : v.Linked) {h : Nat} {e : Entry D G M} (he : v.entries h = some e)
    {gfns : List (GfnInfo D G)} {p : Page D} {i : GfnInfo D G} {x : P2mEntry M} {b : Bool} (hnodup : gfns.Nodup)
    (hp : Backs p h { e with gfns := gfns }) (hcount : p.count = 1 + gfns.length + v.held e.mfn)
    (hothers : ∀ h' e', v.entries h' = some e' → h' ≠ h → i ∉ e'.gfns)
    (hin : i ∈ gfns ↔ (x.type = .ramShared ∧ b = false) ∧ x.mfn = some e.mfn)
    (hrest : ∀ j, j ≠ i → (j ∈ gfns ↔ j ∈ e.gfns))
    (hmaps : x.type = .ramShared ∧ b = false → x.mfn = some e.mfn) (hb : b = true → x.type = .ramShared) :
    (v.change h e gfns p i x b).Linked := by
  have hcases : ∀ h' e', (v.change h e gfns p i x b).entries h' = some e' →
      (h' = h ∧ e' = { e with gfns := gfns }) ∨ (h' ≠ h ∧ v.entries h' = some e') := by
    intro h' e' he'
    have he'' : Function.update v.entries h (some { e with gfns := gfns }) h' = some e' := he'
    rw [Function.update_apply] at he''
    split at he''
    · rename_i hh
      exact .inl ⟨hh, (Option.some.inj he'').symm⟩
    · rename_i hh
      exact .inr ⟨hh, he''⟩
  -- an entry is still there, with the same frame
  have hkept : ∀ h' e', v.entries h' = some e' →
      ∃ e'', (v.change h e gfns p i x b).entries h' = some e'' ∧ e''.mfn = e'.mfn := by
    intro h' e' he'
    by_cases hh : h' = h
    · refine ⟨{ e with gfns := gfns }, ?_, ?_⟩
      · rw [hh]
        exact Function.update_self ..
      · rw [hh, he] at he'
        cases he'
        rfl
    · exact ⟨e', (Function.update_of_ne hh ..).trans he', rfl⟩
  have hself : (v.change h e gfns p i x b).Maps i ↔ x.type = .ramShared ∧ b = false := by
    show (Function.update v.p2m i x i).type = _ ∧ Function.update v.destroyed i b i = false ↔ _
    rw [Function.update_self, Function.update_self]
  have hp2m : ∀ j, j ≠ i → (v.change h e gfns p i x b).p2m j = v.p2m j := fun j hj => Function.update_of_ne hj ..
  have hp2mi : (v.change h e gfns p i x b).p2m i = x := Function.update_self ..
  have hother : ∀ j, j ≠ i → ((v.change h e gfns p i x b).Maps j ↔ v.Maps j) := by
    intro j hj
    show (Function.update v.p2m i x j).type = _ ∧ Function.update v.destroyed i b j = false ↔ _
    rw [Function.update_of_ne hj, Function.update_of_ne hj]
    rfl
  constructor
  · intro h' e' he'
    rcases hcases h' e' he' with ⟨hh, -⟩ | ⟨-, hold⟩
    · rw [hh]
      exact hv.fresh h e he
    · exact hv.fresh h' e' hold
  · intro h' e' he'
    rcases hcases h' e' he' with ⟨-, heq⟩ | ⟨-, hold⟩
    · rw [heq]
      exact hnodup
    · exact hv.nodup h' e' hold
  · intro h' e' he'
    rcases hcases h' e' he' with ⟨-, heq⟩ | ⟨-, hold⟩
    · rw [heq]
      exact hv.live h e he
    · exact hv.live h' e' hold
  · intro h' e' he'
    show Backs (Function.update v.page e.mfn p e'.mfn) h' e'
    rcases hcases h' e' he' with ⟨hh, heq⟩ | ⟨hh, hold⟩
    · rw [hh, heq, Function.update_self]
      exact hp
    · have hne : e'.mfn ≠ e.mfn := fun hmfn => hh (hv.mfn_inj hold he hmfn)
      rw [Function.update_of_ne hne]
      exact hv.backed h' e' hold
  · intro h' e' he' j
    by_cases hj : j = i
    · rw [hj, hself, hp2mi]
      rcases hcases h' e' he' with ⟨-, heq⟩ | ⟨hh, hold⟩
      · rw [heq]
        exact hin
      · constructor
        · intro hmem
          exact absurd hmem (hothers h' e' hold hh)
        · intro hmem
          have hmfn := hmaps hmem.1
          rw [hmem.2] at hmfn
          exact absurd (hv.mfn_inj hold he (Option.some.inj hmfn)) hh
    · rw [hother j hj, hp2m j hj]
      rcases hcases h' e' he' with ⟨-, heq⟩ | ⟨-, hold⟩
      · rw [heq]
        exact (hrest j hj).trans (hv.listed h e he j)
      · exact hv.listed h' e' hold j
  · intro j hj
    by_cases hji : j = i
    · rw [hji] at hj ⊢
      rw [hp2mi]
      refine ⟨h, { e with gfns := gfns }, Function.update_self .., ?_⟩
      exact hmaps (hself.1 hj)
    · rw [hp2m j hji]
      rcases hv.mapped j ((hother j hji).1 hj) with ⟨h', e', he', hmfn⟩
      rcases hkept h' e' he' with ⟨e'', he'', hsame⟩
      refine ⟨h', e'', he'', ?_⟩
      rw [hsame]
      exact hmfn
  · intro m hm
    have hm' : (Function.update v.page e.mfn p m).shares ≠ 0 := hm
    rw [Function.update_apply] at hm'
    split at hm'
    · rename_i hmfn
      exact ⟨h, { e with gfns := gfns }, Function.update_self .., hmfn.symm⟩
    · rcases hv.typed m hm' with ⟨h', e', he', hmfn⟩
      rcases hkept h' e' he' with ⟨e'', he'', hsame⟩
      exact ⟨h', e'', he'', hsame.trans hmfn⟩
  · intro m
    show (Function.update v.page e.mfn p m).count = (Function.update v.page e.mfn p m).allocated.toNat +
      (Function.update v.page e.mfn p m).shares + v.held m
    rw [Function.update_apply]
    split
    · rename_i hmfn
      rw [hp.shares, hp.allocated, hmfn]
      exact hcount
    · exact hv.counted m
  · intro j hj
    by_cases hji : j = i
    · rw [hji] at hj ⊢
      rw [hp2mi]
      apply hb
      have hj' : Function.update v.destroyed i b i = true := hj
      rw [Function.update_self] at hj'
      exact hj'
    · rw [hp2m j hji]
      apply hv.dropped j
      have hj' : Function.update v.destroyed i b j = true := hj
      rw [Function.update_of_ne hji] at hj'
      exact hj'

theorem Linked.not_listed (hv : v.Linked) {h h' : Nat} {e e' : Entry D G M} (he : v.entries h = some e)
    {i : GfnInfo D G} (hi : i ∈ e.gfns) (he' : v.entries h' = some e') (hne : h' ≠ h) : i ∉ e'.gfns := by
  intro hi'
  have hmfn := ((hv.listed h e he i).1 hi).2
  have hmfn' := ((hv.listed h' e' he' i).1 hi').2
  rw [hmfn] at hmfn'
  exact hne (hv.mfn_inj he' he (Option.some.inj hmfn').symm)

/-- A reference to the page of the entry more. -/
def attach (v : View D G M) (h : Nat) (e : Entry D G M) (i : GfnInfo D G) : View D G M :=
  v.change h e (i :: e.gfns) (v.page e.mfn).more i ⟨.ramShared, some e.mfn⟩ false

theorem Linked.attach (hv : v.Linked) {h : Nat} {e : Entry D G M} (he : v.entries h = some e) {i : GfnInfo D G}
    (hi : ¬v.Maps i) : (v.attach h e i).Linked := by
  have hb := hv.backed h e he
  have hnot : ∀ h' e', v.entries h' = some e' → i ∉ e'.gfns := by
    intro h' e' he' hmem
    exact hi ((hv.listed h' e' he' i).1 hmem).1
  apply hv.change he
  · exact List.nodup_cons.2 ⟨hnot h e he, hv.nodup h e he⟩
  · refine ⟨hb.owner, hb.handle, hb.type, ?_, hb.allocated⟩
    show (v.page e.mfn).typeCount + 1 = _
    rw [hb.typeCount]
    rfl
  · show (v.page e.mfn).count + 1 = _
    rw [hv.count_eq he, List.length_cons]
    omega
  · intro h' e' he' _
    exact hnot h' e' he'
  · exact ⟨fun _ => ⟨⟨rfl, rfl⟩, rfl⟩, fun _ => List.mem_cons_self⟩
  · intro j hj
    rw [List.mem_cons]
    exact ⟨fun hmem => hmem.resolve_left hj, Or.inr⟩
  · intro _
    rfl
  · intro _
    rfl

/-- A reference to the page of the entry less; the gfn is put to another use, or dropped. -/
def detach (v : View D G M) (h : Nat) (e : Entry D G M) (i : GfnInfo D G) (x : P2mEntry M) (b : Bool) : View D G M :=
  v.change h e (e.gfns.erase i) (v.page e.mfn).less i x b

theorem Linked.detach (hv : v.Linked) {h : Nat} {e : Entry D G M} (he : v.entries h = some e) {i : GfnInfo D G}
    (hi : i ∈ e.gfns) {x : P2mEntry M} {b : Bool} (hx : ¬(x.type = .ramShared ∧ b = false))
    (hb : b = true → x.type = .ramShared) : (v.detach h e i x b).Linked := by
  have hback := hv.backed h e he
  have hnodup := hv.nodup h e he
  have hlen := List.length_erase_of_mem hi
  have hpos := List.length_pos_of_mem hi
  apply hv.change he
  · exact hnodup.erase i
  · refine ⟨hback.owner, hback.handle, hback.type, ?_, hback.allocated⟩
    show (v.page e.mfn).typeCount - 1 = _
    rw [hback.typeCount]
    exact hlen.symm
  · show (v.page e.mfn).count - 1 = _
    rw [hv.count_eq he, hlen]
    omega
  · intro h' e' he' hne
    exact hv.not_listed he hi he' hne
  · constructor
    · intro hmem
      exact absurd hmem hnodup.not_mem_erase
    · intro hmem
      exact absurd hmem.1 hx
  · intro j hj
    exact List.mem_erase_of_ne hj
  · intro hshared
    exact absurd hshared hx
  · exact hb

end View

/-! ## References of a page -/

namespace Page

variable {p : Page D}

omit [DecidableEq D] in
theorem put_of_lt (h : 1 < p.count) : p.put = { p with count := p.count - 1 } :=
  if_neg (Nat.ne_of_gt h)

theorem putAndType_of_lt (h : 1 < p.count) : p.putAndType = p.less :=
  put_of_lt (p := { p with typeCount := p.typeCount - 1 }) h

theorem getAndType_cow (howner : p.owner = some .cow) (hcount : p.count ≠ 0) (htype : p.type = .shared) :
    p.getAndType .cow = some p.more := by
  rcases p with ⟨owner, allocated, count, type, typeCount, shrHandle⟩
  cases howner
  cases htype
  unfold getAndType get
  rw [if_pos ⟨rfl, hcount⟩]
  show getType _ = _
  unfold getType
  by_cases hzero : typeCount = 0
  · rw [if_pos hzero, hzero]
    rfl
  · rw [if_neg hzero, if_pos rfl]
    rfl

section

omit [DecidableEq D]

theorem put_count (p : Page D) : p.put.count = p.count - 1 := by
  unfold put
  split
  · rename_i hone
    rw [hone]
  · rfl

theorem put_same (p : Page D) : p.put.allocated = p.allocated ∧ p.put.shares = p.shares := by
  unfold put
  split <;> exact ⟨rfl, rfl⟩

end

/-- A page that is not shared yet: on a failure only the type of a page without type references is
another, on success it belongs to `dom_cow`, with one reference of the type. -/
theorem makeSharable_spec (d : D) (expectedRefcnt : Nat) (hshares : p.owner ≠ some .cow → p.shares = 0) :
    match p.makeSharable d expectedRefcnt with
    | (p', some _) => p'.owner = p.owner ∧ p'.shrHandle = p.shrHandle ∧ p'.allocated = p.allocated ∧
        p'.count = p.count ∧ (p' = p ∨ p.owner = some (.dom d)) ∧ p'.shares = p.shares
    | (p', none) => p.owner = some (.dom d) ∧ p.allocated = true ∧
        p' = { p with owner := some .cow, count := p.count + 1, type := .shared, typeCount := 1 } := by
  unfold makeSharable getAndType get
  by_cases hget : p.owner = some (.dom d) ∧ p.count ≠ 0
  · rw [if_pos hget]
    have hno : p.shares = 0 := by
      apply hshares
      rw [hget.1]
      exact fun heq => nomatch heq
    have hzero : p.type = .shared → p.typeCount = 0 := by
      intro htype
      unfold shares at hno
      rw [if_pos htype] at hno
      exact hno
    unfold getType
    dsimp only
    by_cases htc : p.typeCount = 0
    · rw [if_pos htc]
      dsimp only
      have hput : ({ p with count := p.count + 1, type := .shared, typeCount := 1 } : Page D).putAndType =
          { p with type := .shared, typeCount := 0 } := by
        apply putAndType_of_lt
        exact Nat.succ_lt_succ (Nat.pos_of_ne_zero hget.2)
      rw [if_neg (fun h => h rfl)]
      by_cases hok : p.allocated = false ∨ p.count + 1 ≠ 2 + expectedRefcnt
      · rw [if_pos hok, hput]
        exact ⟨rfl, rfl, rfl, rfl, .inr hget.1, hno.symm⟩
      · rw [if_neg hok]
        refine ⟨hget.1, ?_, rfl⟩
        cases halloc : p.allocated with
        | true => rfl
        | false => exact absurd (.inl halloc) hok
    · rw [if_neg htc]
      have htype : p.type ≠ .shared := fun h => htc (hzero h)
      rw [if_neg htype]
      exact ⟨rfl, rfl, rfl, rfl, .inl rfl, rfl⟩
  · rw [if_neg hget]
    exact ⟨rfl, rfl, rfl, rfl, .inl rfl, rfl⟩

/-- A shared page becomes private with its last reference of the type, and stays as it is before. -/
theorem makePrivate_eq (d : D) (howner : p.owner = some .cow) (hcount : 1 < p.count) (htype : p.type = .shared) :
    p.makePrivate d =
      if p.typeCount = 1 then ({ p with owner := some (.dom d), typeCount := 0, count := p.count - 1 }, none)
      else (p, some .EEXIST) := by
  unfold makePrivate get
  rw [if_pos ⟨howner, Nat.ne_of_gt (Nat.lt_of_succ_lt hcount)⟩]
  dsimp only
  by_cases hone : p.typeCount = 1
  · have hnot : ¬(p.type ≠ .shared ∨ p.typeCount ≠ 1) := by
      rw [htype, hone]
      decide
    rw [if_neg hnot, if_pos hone]
    have hput : ({ p with count := p.count + 1 } : Page D).putAndType = { p with typeCount := 0, count := p.count } := by
      rw [putAndType_of_lt (Nat.lt_succ_of_lt hcount)]
      show ({ p with typeCount := p.typeCount - 1, count := p.count + 1 - 1 } : Page D) = _
      rw [hone]
      rfl
    rw [hput, put_of_lt (p := { p with owner := some (.dom d), typeCount := 0 }) hcount]
  · rw [if_pos (.inr hone), if_neg hone]
    rw [put_of_lt (p := { p with count := p.count + 1 }) (Nat.lt_succ_of_lt hcount)]
    rfl

end Page

/-! ## The view of a state -/

namespace State

variable {s : State D G M}

def view (s : State D G M) : View D G M where
  entries := s.hashLookup
  next := s.nextHandle
  p2m := s.p2m
  page := s.page
  held := s.held
  destroyed := s.destroyed

/-- The table is well formed, and its entries agree with the rest. -/
structure Good (s : State D G M) : Prop where
  wf : Buckets.WF SHR_HASH_LENGTH Entry.handle s.shrHash
  linked : s.view.Linked

/-- Every entry has a gfn. -/
def Filled (s : State D G M) : Prop :=
  ∀ h e, s.hashLookup h = some e → e.gfns ≠ []

section

omit [DecidableEq D] [DecidableEq G] [DecidableEq M]

theorem hashLookup_modify {f : Entry D G M → Entry D G M} (hf : ∀ e, (f e).handle = e.handle) (h k : Nat) :
    (s.modify h f).hashLookup k = if k = h then (s.hashLookup h).map f else s.hashLookup k :=
  Buckets.lookup_modify hf h k

theorem hashLookup_hashInsert (handle : Nat) (mfn : M) (k : Nat) :
    (s.hashInsert handle mfn).hashLookup k = if k = handle then some ⟨handle, mfn, [], false⟩ else s.hashLookup k :=
  Buckets.lookup_insert _ k

theorem hashLookup_hashDelete (hwf : Buckets.WF SHR_HASH_LENGTH Entry.handle s.shrHash) (handle k : Nat) :
    (s.hashDelete handle).hashLookup k = if k = handle then none else s.hashLookup k :=
  hwf.lookup_delete handle k

end

theorem hashLookup_listAdd (h : Nat) (i : GfnInfo D G) (k : Nat) :
    (s.listAdd h i).hashLookup k =
      if k = h then (s.hashLookup h).map (fun e => { e with gfns := i :: e.gfns }) else s.hashLookup k :=
  hashLookup_modify (f := fun e => { e with gfns := i :: e.gfns }) (fun _ => rfl) h k

theorem hashLookup_listDel (h : Nat) (i : GfnInfo D G) (k : Nat) :
    (s.listDel h i).hashLookup k =
      if k = h then (s.hashLookup h).map (fun e => { e with gfns := e.gfns.erase i }) else s.hashLookup k :=
  hashLookup_modify (f := fun e => { e with gfns := e.gfns.erase i }) (fun _ => rfl) h k

omit [DecidableEq D] [DecidableEq G] [DecidableEq M] in
theorem Good.mfn_ne (hs : s.Good) {m : M} (howner : (s.page m).owner ≠ some .cow) (h : Nat) (e : Entry D G M)
    (he : s.view.entries h = some e) : e.mfn ≠ m := by
  intro hm
  have hb := hs.linked.backed h e he
  rw [hm] at hb
  exact howner hb.owner

/-- A page without an entry has no references of the type. -/
theorem Good.shares_eq (hs : s.Good) {m : M} (howner : (s.page m).owner ≠ some .cow) : (s.page m).shares = 0 := by
  by_contra hne
  rcases hs.linked.typed m hne with ⟨h, e, he, hm⟩
  exact hs.mfn_ne howner h e he hm

/-! ## Nominate -/

/-- What a failed call leaves as it was; the gfns of an entry may be in another order. -/
structure Same (s s' : State D G M) : Prop where
  entries : ∀ h, (s'.hashLookup h).isSome = (s.hashLookup h).isSome
  gfns : ∀ h e e', s.hashLookup h = some e → s'.hashLookup h = some e' → e'.mfn = e.mfn ∧ e'.gfns.Perm e.gfns
  p2m : s'.p2m = s.p2m
  owner : ∀ m, (s'.page m).owner = (s.page m).owner
  handle : ∀ m, (s'.page m).shrHandle = (s.page m).shrHandle
  shares : ∀ m, (s'.page m).shares = (s.page m).shares
  counts : s'.nrSavedMfns = s.nrSavedMfns ∧ s'.shrPages = s.shrPages

omit [DecidableEq D] [DecidableEq G] [DecidableEq M] in
theorem Same.refl (s : State D G M) : s.Same s := by
  refine ⟨fun _ => rfl, fun h e e' he he' => ?_, rfl, fun _ => rfl, fun _ => rfl, fun _ => rfl, rfl, rfl⟩
  rw [he] at he'
  cases he'
  exact ⟨rfl, List.Perm.refl _⟩

theorem Same.setPage (s : State D G M) {m : M} {p : Page D} (howner : p.owner = (s.page m).owner)
    (hhandle : p.shrHandle = (s.page m).shrHandle) (hshares : p.shares = (s.page m).shares) : s.Same (s.setPage m p) := by
  have hpage : ∀ m', (s.setPage m p).page m' = if m' = m then p else s.page m' := fun m' => Function.update_apply ..
  refine ⟨fun _ => rfl, (Same.refl s).gfns, rfl, fun m' => ?_, fun m' => ?_, fun m' => ?_, rfl, rfl⟩
  all_goals
    rw [hpage]
    split
    · rename_i hm
      rw [hm]
      assumption
    · rfl

theorem Good.makeSharable_failed (hs : s.Good) {m : M} {d : D} {n : Nat} {p : Page D} {e : Err}
    (hp : (s.page m).makeSharable d n = (p, some e)) : (s.setPage m p).Good ∧ s.Same (s.setPage m p) := by
  have hspec := Page.makeSharable_spec d n (p := s.page m) hs.shares_eq
  rw [hp] at hspec
  rcases hspec with ⟨howner, hhandle, hallocated, hcount, hcases, hshares⟩
  refine ⟨⟨hs.wf, ?_⟩, Same.setPage s howner hhandle hshares⟩
  rcases hcases with heq | hdom
  · have hsame : (s.setPage m p).view = s.view := by
      apply View.ext <;> try rfl
      show Function.update s.page m p = s.page
      rw [heq, Function.update_eq_self]
    rw [hsame]
    exact hs.linked
  · have hne : (s.page m).owner ≠ some .cow := by
      rw [hdom]
      exact fun heq => nomatch heq
    refine hs.linked.setPage p rfl rfl (Nat.le_refl _) rfl rfl (fun _ _ => rfl) (hs.mfn_ne hne) ?_ ?_
    · rw [hshares]
      exact hs.shares_eq hne
    · rw [hcount, hallocated]
      have hold := hs.linked.counted m
      have hzero : (s.view.page m).shares = 0 := hs.shares_eq hne
      rw [hzero] at hold
      exact hold

/-- The page has been made sharable, and has an entry with the one gfn. -/
def nominated (s : State D G M) (i : GfnInfo D G) (mfn : M) (p : Page D) : State D G M :=
  let s' := { s.setPage mfn p with nextHandle := s.nextHandle + 1 }.hashInsert s.nextHandle mfn
  let s' := (s'.setP2mEntry i .ramShared (some mfn)).listAdd s.nextHandle i
  s'.setPage mfn { p with shrHandle := s.nextHandle }

section

omit [DecidableEq D] [DecidableEq G] [DecidableEq M]

theorem Good.not_destroyed (hs : s.Good) {i : GfnInfo D G} (htype : (s.p2m i).type ≠ .ramShared) :
    s.destroyed i = false := by
  cases hd : s.destroyed i with
  | false => rfl
  | true => exact absurd (hs.linked.dropped i hd) htype

theorem Good.fresh_none (hs : s.Good) : s.hashLookup s.nextHandle = none := by
  cases he : s.hashLookup s.nextHandle with
  | none => rfl
  | some e => exact absurd (hs.linked.fresh _ e he) (Nat.lt_irrefl _)

end

theorem Good.wf_nominated (hs : s.Good) (i : GfnInfo D G) (mfn : M) (p : Page D) :
    Buckets.WF SHR_HASH_LENGTH Entry.handle (s.nominated i mfn p).shrHash := by
  have hinsert : Buckets.WF SHR_HASH_LENGTH Entry.handle (s.hashInsert s.nextHandle mfn).shrHash :=
    hs.wf.insert hs.fresh_none
  exact hinsert.modify (f := fun e => { e with gfns := i :: e.gfns }) (fun _ => rfl) _

theorem hashLookup_nominated (i : GfnInfo D G) (mfn : M) (p : Page D) (k : Nat) :
    (s.nominated i mfn p).hashLookup k =
      if k = s.nextHandle then some ⟨s.nextHandle, mfn, [i], false⟩ else s.hashLookup k := by
  have hadd := hashLookup_listAdd (s := ({ s.setPage mfn p with nextHandle := s.nextHandle + 1 }.hashInsert
    s.nextHandle mfn).setP2mEntry i .ramShared (some mfn)) s.nextHandle i k
  have hinsert := hashLookup_hashInsert (s := { s.setPage mfn p with nextHandle := s.nextHandle + 1 }) s.nextHandle mfn
  refine hadd.trans ?_
  split
  · show ((({ s.setPage mfn p with nextHandle := s.nextHandle + 1 }.hashInsert s.nextHandle mfn).hashLookup
      s.nextHandle).map _) = _
    rw [hinsert, if_pos rfl]
    rfl
  · rename_i hk
    exact (hinsert k).trans (if_neg hk)

theorem Good.view_nominated (hs : s.Good) {i : GfnInfo D G} {mfn : M} {p : Page D}
    (htype : (s.p2m i).type ≠ .ramShared) (hp : p.typeCount = 1) (hcount : p.count ≠ 0) :
    (s.nominated i mfn p).view =
      ({ (s.view.setPage mfn { p.less with shrHandle := s.nextHandle }).setEntry
          s.nextHandle (some ⟨s.nextHandle, mfn, [], false⟩) with next := s.nextHandle + 1 }).attach
        s.nextHandle ⟨s.nextHandle, mfn, [], false⟩ i := by
  apply View.ext
  · funext k
    refine (hashLookup_nominated i mfn p k).trans ?_
    show _ = Function.update (Function.update s.view.entries s.nextHandle _) s.nextHandle
      (some ⟨s.nextHandle, mfn, [i], false⟩) k
    rw [Function.update_idem, Function.update_apply]
    rfl
  · rfl
  · rfl
  · have hmore : ({ p.less with shrHandle := s.nextHandle } : Page D).more = { p with shrHandle := s.nextHandle } := by
      show ({ p with typeCount := p.typeCount - 1 + 1, count := p.count - 1 + 1, shrHandle := s.nextHandle } : Page D) = _
      rw [Nat.sub_add_cancel (Nat.pos_of_ne_zero hcount), hp]
    show Function.update (Function.update s.page mfn p) mfn { p with shrHandle := s.nextHandle } =
      Function.update (Function.update s.page mfn { p.less with shrHandle := s.nextHandle }) mfn
        (Function.update s.page mfn { p.less with shrHandle := s.nextHandle } mfn).more
    rw [Function.update_idem, Function.update_idem, Function.update_self, hmore]
  · rfl
  · show s.destroyed = Function.update s.destroyed i false
    rw [← hs.not_destroyed htype, Function.update_eq_self]

theorem Good.nominated (hs : s.Good) {i : GfnInfo D G} {mfn : M} {p : Page D} (htype : (s.p2m i).type ≠ .ramShared)
    (howner : (s.page mfn).owner = some (.dom i.domain)) (halloc : (s.page mfn).allocated = true)
    (hp : p = { s.page mfn with owner := some .cow, count := (s.page mfn).count + 1, type := .shared, typeCount := 1 }) :
    (s.nominated i mfn p).Good := by
  have hne : (s.page mfn).owner ≠ some .cow := by
    rw [howner]
    exact fun heq => nomatch heq
  constructor
  · exact hs.wf_nominated i mfn p
  · rw [hs.view_nominated htype (by rw [hp]) (by rw [hp]; exact Nat.succ_ne_zero _)]
    -- the entry is created, with the page as it was before the reference of the gfn
    have hcount : (s.page mfn).count = 1 + s.held mfn := by
      have hcounted := hs.linked.counted mfn
      have hzero : (s.view.page mfn).shares = 0 := hs.shares_eq hne
      have htrue : (s.view.page mfn).allocated = true := halloc
      rw [hzero, htrue] at hcounted
      exact hcounted
    have hfree : ∀ j, s.view.Maps j → (s.view.p2m j).mfn ≠ some mfn := by
      intro j hj hmfn
      rcases hs.linked.mapped j hj with ⟨h, e, he, hmfn'⟩
      rw [hmfn] at hmfn'
      exact hs.mfn_ne hne h e he (Option.some.inj hmfn').symm
    have hcreate := hs.linked.create (m := mfn) (p := { p.less with shrHandle := s.nextHandle }) (hs.mfn_ne hne)
      ⟨by rw [hp]; rfl, rfl, by rw [hp]; rfl, by rw [hp]; rfl, by rw [hp]; exact halloc⟩
      (by rw [hp]; exact hcount) hfree
    apply hcreate.attach (Function.update_self ..)
    intro hmaps
    exact htype hmaps.1

/-- What a nomination that finds memory does. -/
theorem nominatePage_cases (i : GfnInfo D G) (n : Nat) :
    s.nominatePage i n true true true = .done s ∨
    s.nominatePage i n true true true = .failed .EINVAL s ∨
    (∃ m p e, (s.page m).makeSharable i.domain n = (p, some e) ∧
      s.nominatePage i n true true true = .failed e (s.setPage m p)) ∨
    ∃ m p, (s.p2m i).type = .ramRw ∧ (s.page m).makeSharable i.domain n = (p, none) ∧
      s.nominatePage i n true true true = .done (s.nominated i m p) := by
  unfold nominatePage
  split
  · exact .inr (.inl rfl)
  · rename_i m _
    split
    · exact .inl rfl
    · split
      · exact .inr (.inl rfl)
      · rename_i _ hrw
        have htype : (s.p2m i).type = .ramRw := not_not.1 hrw
        split
        · rename_i p e hp
          exact .inr (.inr (.inl ⟨m, p, e, hp, rfl⟩))
        · rename_i p hp
          refine .inr (.inr (.inr ⟨m, p, htype, hp, ?_⟩))
          rw [if_neg (fun h => nomatch h), if_neg (fun h => nomatch h)]
          refine (if_neg hrw).trans ?_
          rw [if_pos rfl]
          have hpage : Function.update s.page m p m = p := Function.update_self ..
          show Result.done (State.setPage _ m { Function.update s.page m p m with shrHandle := s.nextHandle }) = _
          rw [hpage]
          rfl

/-! ## Share -/

/-- A gfn has been moved. -/
def moved (s : State D G M) (sh ch : Nat) (smfn cmfn : M) (i : GfnInfo D G) : State D G M :=
  let s' := (s.setPage smfn (s.page smfn).more).listDel ch i
  let s' := (s'.setP2mEntry i .ramShared (some smfn)).listAdd sh i
  s'.setPage cmfn (s.page cmfn).less

section Share

variable {sh ch : Nat} {se ce : Entry D G M} {i : GfnInfo D G}

theorem Good.mfn_ne_of_ne (hs : s.Good) (hne : sh ≠ ch) (hse : s.hashLookup sh = some se)
    (hce : s.hashLookup ch = some ce) : ce.mfn ≠ se.mfn := by
  intro hmfn
  exact hne (hs.linked.mfn_inj hse hce hmfn.symm)

theorem Good.moveGfn_eq (hs : s.Good) (hne : sh ≠ ch) (hse : s.hashLookup sh = some se)
    (hce : s.hashLookup ch = some ce) (hi : i ∈ ce.gfns) :
    s.moveGfn sh ch se.mfn ce.mfn i = some (s.moved sh ch se.mfn ce.mfn i) := by
  have hback := hs.linked.backed sh se hse
  have hcount : (s.page se.mfn).count = _ := hs.linked.count_eq hse
  have hget : (s.page se.mfn).getAndType .cow = some (s.page se.mfn).more := by
    have hpos : (s.page se.mfn).count ≠ 0 := by
      rw [hcount]
      omega
    exact Page.getAndType_cow hback.owner hpos hback.type
  have hmfn := hs.mfn_ne_of_ne hne hse hce
  have hput : (s.page ce.mfn).putAndType = (s.page ce.mfn).less := by
    apply Page.putAndType_of_lt
    have hc : (s.page ce.mfn).count = _ := hs.linked.count_eq hce
    have hpos := List.length_pos_of_mem hi
    rw [hc]
    omega
  unfold moveGfn
  rw [hget]
  show some (State.setPage _ ce.mfn (Function.update s.page se.mfn _ ce.mfn).putAndType) = _
  rw [Function.update_of_ne hmfn, hput]
  rfl

theorem hashLookup_moved (hne : sh ≠ ch) (hse : s.hashLookup sh = some se) (hce : s.hashLookup ch = some ce) (k : Nat) :
    (s.moved sh ch se.mfn ce.mfn i).hashLookup k =
      if k = sh then some { se with gfns := i :: se.gfns }
      else if k = ch then some { ce with gfns := ce.gfns.erase i } else s.hashLookup k := by
  have hadd := hashLookup_listAdd (s := ((s.setPage se.mfn (s.page se.mfn).more).listDel ch i).setP2mEntry i .ramShared
    (some se.mfn)) sh i k
  have hdel := hashLookup_listDel (s := s) ch i
  refine hadd.trans ?_
  show (if k = sh then ((s.listDel ch i).hashLookup sh).map _ else (s.listDel ch i).hashLookup k) = _
  rw [hdel, hdel, if_neg hne, hse, hce]
  rfl

theorem Good.view_moved (hs : s.Good) (hne : sh ≠ ch) (hse : s.hashLookup sh = some se)
    (hce : s.hashLookup ch = some ce) (hi : i ∈ ce.gfns) :
    (s.moved sh ch se.mfn ce.mfn i).view = (s.view.detach ch ce i ⟨.other, none⟩ false).attach sh se i := by
  have hmfn := hs.mfn_ne_of_ne hne hse hce
  have hd : s.destroyed i = false := ((hs.linked.listed ch ce hce i).1 hi).1.2
  apply View.ext
  · funext k
    refine (hashLookup_moved hne hse hce k).trans ?_
    show _ = Function.update (Function.update s.view.entries ch (some { ce with gfns := ce.gfns.erase i })) sh
      (some { se with gfns := i :: se.gfns }) k
    rw [Function.update_apply, Function.update_apply]
    rfl
  · rfl
  · show Function.update s.p2m i _ = Function.update (Function.update s.p2m i _) i _
    rw [Function.update_idem]
  · show Function.update (Function.update s.page se.mfn (s.page se.mfn).more) ce.mfn (s.page ce.mfn).less =
      Function.update (Function.update s.page ce.mfn (s.page ce.mfn).less) se.mfn
        (Function.update s.page ce.mfn (s.page ce.mfn).less se.mfn).more
    rw [Function.update_of_ne hmfn.symm, Function.update_comm hmfn]
  · rfl
  · show s.destroyed = Function.update (Function.update s.destroyed i false) i false
    rw [Function.update_idem, ← hd, Function.update_eq_self]

theorem Good.moved (hs : s.Good) (hne : sh ≠ ch) (hse : s.hashLookup sh = some se) (hce : s.hashLookup ch = some ce)
    (hi : i ∈ ce.gfns) : (s.moved sh ch se.mfn ce.mfn i).Good := by
  constructor
  · have hdel : Buckets.WF SHR_HASH_LENGTH Entry.handle (s.listDel ch i).shrHash :=
      hs.wf.modify (f := fun e => { e with gfns := e.gfns.erase i }) (fun _ => rfl) _
    exact hdel.modify (f := fun e => { e with gfns := i :: e.gfns }) (fun _ => rfl) _
  · rw [hs.view_moved hne hse hce hi]
    have hdetach : (s.view.detach ch ce i ⟨.other, none⟩ false).Linked := by
      apply hs.linked.detach hce hi
      · intro hx
        exact nomatch hx.1
      · intro hb
        exact nomatch hb
    apply hdetach.attach
    · show Function.update s.view.entries ch _ sh = some se
      rw [Function.update_of_ne hne]
      exact hse
    · intro hmaps
      have htype : (Function.update s.p2m i ⟨.other, none⟩ i).type = .ramShared := hmaps.1
      rw [Function.update_self] at htype
      exact nomatch htype

/-- The loop: all gfns of one entry go to the other. -/
theorem Good.moveGfns (hs : s.Good) (hne : sh ≠ ch) (hse : s.hashLookup sh = some se)
    (hce : s.hashLookup ch = some ce) :
    ∃ s', State.moveGfns sh ch se.mfn ce.mfn ce.gfns s = some s' ∧ s'.Good ∧
      ∀ k, s'.hashLookup k = if k = sh then some { se with gfns := ce.gfns.reverse ++ se.gfns }
        else if k = ch then some { ce with gfns := [] } else s.hashLookup k := by
  -- the list that is left is that of the entry, at every round
  induction hgfns : ce.gfns generalizing s se ce with
  | nil =>
    refine ⟨s, rfl, hs, fun k => ?_⟩
    by_cases hk : k = sh
    · rw [if_pos hk, hk]
      exact hse
    · by_cases hk' : k = ch
      · rw [if_neg hk, if_pos hk', hk', ← hgfns]
        exact hce
      · rw [if_neg hk, if_neg hk']
  | cons i rest ih =>
    have hi : i ∈ ce.gfns := by
      rw [hgfns]
      exact List.mem_cons_self
    have herase : ce.gfns.erase i = rest := by
      rw [hgfns, List.erase_cons_head]
    have hlookup := hashLookup_moved (i := i) hne hse hce
    rw [herase] at hlookup
    have hse' := hlookup sh
    have hce' := hlookup ch
    rw [if_pos rfl] at hse'
    rw [if_neg hne.symm, if_pos rfl] at hce'
    rcases ih (hs.moved hne hse hce hi) hse' hce' rfl with ⟨s', hrun, hgood, hfind⟩
    refine ⟨s', ?_, hgood, fun k => ?_⟩
    · unfold State.moveGfns
      rw [hs.moveGfn_eq hne hse hce hi]
      exact hrun
    · rw [hfind, hlookup, List.reverse_cons, List.append_assoc]
      split
      · rfl
      · split
        · rfl
        · rfl

end Share

omit [DecidableEq D] [DecidableEq G] [DecidableEq M] in
/-- A change that is not one of the view or the table. -/
theorem Good.congr (hs : s.Good) {s' : State D G M} (hview : s'.view = s.view) (hhash : s'.shrHash = s.shrHash) :
    s'.Good := by
  constructor
  · rw [hhash]
    exact hs.wf
  · rw [hview]
    exact hs.linked

omit [DecidableEq G] [DecidableEq M] in
theorem gfnAccount_same (s : State D G M) (gfns : List (GfnInfo D G)) :
    (s.gfnAccount gfns).view = s.view ∧ (s.gfnAccount gfns).shrHash = s.shrHash := by
  unfold gfnAccount
  split <;> exact ⟨rfl, rfl⟩

theorem Good.hashDelete (hs : s.Good) {h : Nat} {e : Entry D G M} (he : s.hashLookup h = some e)
    (hempty : e.gfns = []) : (s.hashDelete h).Good := by
  constructor
  · exact hs.wf.delete h
  · have hview : (s.hashDelete h).view = s.view.setEntry h none := by
      apply View.ext <;> try rfl
      funext k
      refine (hashLookup_hashDelete hs.wf h k).trans ?_
      show _ = Function.update s.view.entries h none k
      rw [Function.update_apply]
      rfl
    rw [hview]
    exact hs.linked.drop he hempty

/-- The page of no entry is changed, and keeps its count. -/
theorem Good.setPage (hs : s.Good) {m : M} (p : Page D) (hno : ∀ h e, s.hashLookup h = some e → e.mfn ≠ m)
    (hshares : p.shares = 0) (hcount : p.count = p.allocated.toNat + s.held m) : (s.setPage m p).Good := by
  constructor
  · exact hs.wf
  · exact hs.linked.setPage p rfl rfl (Nat.le_refl _) rfl rfl (fun _ _ => rfl) hno hshares hcount

theorem Good.clearAllocated (hs : s.Good) {m : M} (hno : ∀ h e, s.hashLookup h = some e → e.mfn ≠ m)
    (hshares : (s.page m).shares = 0) : (s.clearAllocated m).Good := by
  have hcount := hs.linked.counted m
  unfold State.clearAllocated
  split
  · rename_i halloc
    have htrue : (s.view.page m).allocated = true := halloc
    have hzero : (s.view.page m).shares = 0 := hshares
    rw [htrue, hzero] at hcount
    apply hs.setPage _ hno
    · rw [(Page.put_same _).2]
      exact hshares
    · rw [Page.put_count, (Page.put_same _).1]
      show (s.view.page m).count - 1 = 0 + s.view.held m
      rw [hcount]
      show 1 + 0 + _ - 1 = _
      omega
  · exact hs

omit [DecidableEq D] [DecidableEq G] in
theorem hashLookup_clearAllocated (s : State D G M) (m : M) (k : Nat) :
    (s.clearAllocated m).hashLookup k = s.hashLookup k := by
  unfold State.clearAllocated
  split <;> rfl

/-- What a share of two handles leaves in the table. -/
theorem Good.sharePages (hs : s.Good) {sh ch : Nat} (hne : sh = ch → s.hashLookup sh = none) :
    (∃ e, s.sharePages sh ch = .failed e s) ∨
    ∃ se ce s', s.hashLookup sh = some se ∧ s.hashLookup ch = some ce ∧ s.sharePages sh ch = .done s' ∧ s'.Good ∧
      ∀ k, s'.hashLookup k = if k = ch then none
        else if k = sh then some { se with gfns := ce.gfns.reverse ++ se.gfns } else s.hashLookup k := by
  unfold State.sharePages
  cases hse : s.hashLookup sh with
  | none => exact .inl ⟨_, rfl⟩
  | some se =>
    cases hce : s.hashLookup ch with
    | none => exact .inl ⟨_, rfl⟩
    | some ce =>
      have hneq : sh ≠ ch := by
        intro heq
        rw [hne heq] at hse
        exact nomatch hse
      have h1 := s.gfnAccount_same ce.gfns
      have h2 := (s.gfnAccount ce.gfns).gfnAccount_same se.gfns
      have hs' : ((s.gfnAccount ce.gfns).gfnAccount se.gfns).Good := hs.congr (h2.1.trans h1.1) (h2.2.trans h1.2)
      have hlook : ((s.gfnAccount ce.gfns).gfnAccount se.gfns).hashLookup = s.hashLookup :=
        congrArg View.entries (h2.1.trans h1.1)
      rcases hs'.moveGfns hneq (by rw [hlook]; exact hse) (by rw [hlook]; exact hce) with ⟨s1, hrun, hgood, hfind⟩
      refine .inr ⟨se, ce, State.clearAllocated { s1.hashDelete ch with nrSavedMfns := s1.nrSavedMfns + 1 } ce.mfn,
        rfl, rfl, ?_, ?_, fun k => ?_⟩
      · dsimp only
        rw [hrun]
      · -- the client's entry is empty, and its page is in no other
        have hempty : s1.hashLookup ch = some { ce with gfns := [] } := by
          rw [hfind, if_neg hneq.symm, if_pos rfl]
        have hdel := hgood.hashDelete hempty rfl
        have hdel' : ({ s1.hashDelete ch with nrSavedMfns := s1.nrSavedMfns + 1 }).Good := hdel.congr rfl rfl
        apply hdel'.clearAllocated
        · intro h e he hmfn
          have he' : (s1.hashDelete ch).hashLookup h = some e := he
          rw [hashLookup_hashDelete hgood.wf] at he'
          split at he'
          · exact nomatch he'
          · rename_i hh
            exact hh (hgood.linked.mfn_inj he' hempty hmfn)
        · have hb := hgood.linked.backed ch _ hempty
          exact hb.shares
      · rw [hashLookup_clearAllocated]
        show (s1.hashDelete ch).hashLookup k = _
        rw [hashLookup_hashDelete hgood.wf, hfind, hlook]
        by_cases hk : k = ch
        · rw [if_pos hk, if_pos hk]
        · rw [if_neg hk, if_neg hk, if_neg hk]

end State

end Mm.Sharing
