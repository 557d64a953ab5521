import Mathlib

/-!
# Puts and gets of parts of a page

`TMEM_WRITE` and `TMEM_READ` on one page of a persistent pool: `do_tmem_put`,
`do_tmem_dup_put` and `do_tmem_get` (`xen/common/tmem.c`) with the copies of
`tmem_xen.c`, on the bytes. A put replaces the stored page by one that was just
allocated, with whatever its last user left there, also when only a part of it is
written; compressed pages are put and got as a whole; and a request that does not
fit in the page is answered like any other.

A mapped page is an `Area`: the bytes from its start on, also those behind its
end. Deduplication is for ephemeral pools, and the tree of objects, the lists and
the counts are those of the whole of tmem; they are left out here.
-/

namespace Tmem.Partial

/-- `PAGE_SIZE`. -/
def pageBytes : Nat := 4096

abbrev Area (β : Type) := Nat → β

/-- LZO, with what it is for: `lzoSize` is the size of the compressed page. -/
structure Lzo (β γ : Type) where
  subpageMaxsize : Nat
  lzoCompress : Area β → γ
  lzoSize : γ → Nat
  lzoDecompress : γ → Area β
  inverse : ∀ a, ∀ i < pageBytes, lzoDecompress (lzoCompress a) i = a i

/-- The data of a descriptor: a page, or (`pgp->size != 0`) a compressed one. -/
inductive Data (β γ : Type)
  | page (pfp : Area β)
  | cdata (c : γ)

/-- The fields of a request. -/
structure Request where
  tmemOffset : BitVec 32
  pfnOffset : BitVec 32
  len : BitVec 32
  deriving DecidableEq

/-- What a put meets: the flags of the client of the pool, buffers to compress in, the
client's frame (`cli_get_page`), a page of the pool as it was left, memory for
compressed data, and for object and descriptor. -/
structure Answers (β : Type) where
  compress : Bool
  frozen : Bool
  liveMigrating : Bool
  buffers : Bool
  client : Option (Area β)
  page : Option (Area β)
  bytes : Bool
  nodes : Bool

inductive Rc
  | one | zero | eempty | efault | enospc | enomem | efrozen
  deriving DecidableEq

variable {β γ : Type} [Zero β]

/-! ## Copies -/

def memcpy (dst src : Area β) (dstOffset srcOffset len : Nat) : Area β :=
  fun i => if dstOffset ≤ i ∧ i < dstOffset + len then src (srcOffset + (i - dstOffset)) else dst i

/-- `tmh_copy_page`. -/
def tmhCopyPage (dst src : Area β) : Area β := memcpy dst src 0 0 pageBytes

/-- The two tests on the offsets, in 32 bits. -/
def Request.InBounds (q : Request) : Prop :=
  (q.tmemOffset + q.len).toNat ≤ pageBytes ∧ (q.pfnOffset + q.len).toNat ≤ pageBytes

instance (q : Request) : Decidable q.InBounds := inferInstanceAs (Decidable (_ ∧ _))

/-- `tmem_offset == 0 && pfn_offset == 0 && len == 0`. -/
def Request.zero : Request := ⟨0, 0, 0⟩

def Request.whole : Request := ⟨0, 0, 4096⟩

/-- `tmh_copy_from_client` into the page; `none` is `-EFAULT`. -/
def tmhCopyFromClient (pfp : Area β) (client : Option (Area β)) (q : Request) : Option (Area β) :=
  if q = .zero then some (memcpy pfp (fun _ => 0) 0 0 pageBytes)
  else client.map fun cli =>
    if q = .whole then tmhCopyPage pfp cli
    else if q.InBounds then memcpy pfp cli q.tmemOffset.toNat q.pfnOffset.toNat q.len.toNat
    else pfp

/-- `tmh_copy_to_client`. -/
def tmhCopyToClient (cli pfp : Area β) (q : Request) : Area β :=
  if q = .whole then tmhCopyPage cli pfp
  else if q.InBounds then memcpy cli pfp q.pfnOffset.toNat q.tmemOffset.toNat q.len.toNat
  else cli

/-! ## Puts and gets -/

inductive Compressed (γ : Type)
  | done (c : γ)
  | poor | nomem | fault

/-- `do_tmem_put_compress`, which takes the whole frame of the client. -/
def doTmemPutCompress (C : Lzo β γ) (A : Answers β) : Compressed γ :=
  if ¬ A.buffers then .poor
  else
    match A.client with
    | none => .fault
    | some cli =>
      let c := C.lzoCompress cli
      if C.lzoSize c = 0 ∨ C.lzoSize c ≥ C.subpageMaxsize then .poor
      else if ¬ A.bytes then .nomem
      else .done c

/-- From `copy_uncompressed` on: the page afterwards and what is returned. -/
def copyUncompressed (A : Answers β) (q : Request) (nomem : Rc) : Option (Data β γ) × Rc :=
  match A.page with
  | none => (none, nomem)
  | some pfp =>
    match tmhCopyFromClient pfp A.client q with
    | none => (none, .efault)
    | some pfp => (some (.page pfp), .one)

/-- Both puts from the test for compression on. -/
def putData (C : Lzo β γ) (A : Answers β) (q : Request) (compress : Bool) (nomem : Rc) : Option (Data β γ) × Rc :=
  if q.len ≠ 0 ∧ A.compress ∧ compress then
    match doTmemPutCompress C A with
    | .done c => (some (.cdata c), .one)
    | .poor => copyUncompressed A q nomem
    | .nomem => (none, nomem)
    | .fault => (none, .efault)
  else copyUncompressed A q nomem

/-- `pgp->size != 0`. -/
def Data.isCompressed : Data β γ → Bool
  | .page _ => false
  | .cdata _ => true

/-- `do_tmem_dup_put`: the old data goes, whether the put succeeds or not. -/
def doTmemDupPut (C : Lzo β γ) (A : Answers β) (pgp : Data β γ) (q : Request) : Option (Data β γ) × Rc :=
  if A.liveMigrating then (none, .enospc) else putData C A q pgp.isCompressed .enospc

/-- `do_tmem_put`. -/
def doTmemPut (C : Lzo β γ) (A : Answers β) (stored : Option (Data β γ)) (q : Request) : Option (Data β γ) × Rc :=
  match stored with
  | some pgp => doTmemDupPut C A pgp q
  | none =>
    if A.frozen then (none, .efrozen)
    else if ¬ A.nodes then (none, .enomem)
    else putData C A q true .enomem

/-- `do_tmem_get`: the client's frame afterwards. `poolEmpty` is that the pool has no
page at all. -/
def doTmemGet (C : Lzo β γ) (poolEmpty : Bool) (stored : Option (Data β γ)) (client : Option (Area β)) (q : Request) :
    Option (Area β) × Rc :=
  match stored with
  | none => (client, if poolEmpty then .eempty else .zero)
  | some pgp =>
    match client with
    | none => (none, .efault)
    | some cli =>
      match pgp with
      | .cdata c => (some (tmhCopyPage cli (C.lzoDecompress c)), .one)
      | .page pfp => (some (tmhCopyToClient cli pfp q), .one)

/-! ## What a request should do -/

/-- The contents of the stored page, zero if there is none. -/
def contents (C : Lzo β γ) : Option (Data β γ) → Area β
  | none => fun _ => 0
  | some (.page pfp) => pfp
  | some (.cdata c) => C.lzoDecompress c

/-- The request stays inside the page and the frame. -/
def Request.InPage (q : Request) : Prop :=
  q.tmemOffset.toNat + q.len.toNat ≤ pageBytes ∧ q.pfnOffset.toNat + q.len.toNat ≤ pageBytes

/-- A put that returns 1 stays inside the page, and changes the bytes of the request
and no others. -/
def WriteExact (C : Lzo β γ) (A : Answers β) (stored : Option (Data β γ)) (q : Request) : Prop :=
  (doTmemPut C A stored q).2 = .one → q.InPage ∧ ∀ i < pageBytes, contents C (doTmemPut C A stored q).1 i =
    memcpy (contents C stored) (A.client.getD fun _ => 0) q.tmemOffset.toNat q.pfnOffset.toNat q.len.toNat i

/-- A get that returns 1 stays inside the page, and changes the bytes of the request
in the client's frame and no others. -/
def ReadExact (C : Lzo β γ) (poolEmpty : Bool) (stored : Option (Data β γ)) (cli : Area β) (q : Request) : Prop :=
  (doTmemGet C poolEmpty stored (some cli) q).2 = .one → q.InPage ∧ ∀ i < pageBytes,
    ((doTmemGet C poolEmpty stored (some cli) q).1.getD cli) i =
      memcpy cli (contents C stored) q.pfnOffset.toNat q.tmemOffset.toNat q.len.toNat i

/-! ## When it does -/

/-- The put tries to compress. -/
def Tries (A : Answers β) (stored : Option (Data β γ)) (q : Request) : Prop :=
  q.len ≠ 0 ∧ A.compress = true ∧ ∀ pfp, stored ≠ some (.page pfp)

/-- Nothing stops the put before its data is copied. -/
def Starts (A : Answers β) (stored : Option (Data β γ)) : Prop :=
  match stored with
  | some _ => A.liveMigrating = false
  | none => A.frozen = false ∧ A.nodes = true

/-- The put stores the client's frame compressed. -/
def Packs (C : Lzo β γ) (A : Answers β) (stored : Option (Data β γ)) (q : Request) (cli : Area β) : Prop :=
  Tries A stored q ∧ A.client = some cli ∧ doTmemPutCompress C A = .done (C.lzoCompress cli)

/-- It copies into the page `pfp`. -/
def Copies (C : Lzo β γ) (A : Answers β) (stored : Option (Data β γ)) (q : Request) (pfp : Area β) : Prop :=
  (Tries A stored q → doTmemPutCompress C A = .poor) ∧ A.page = some pfp ∧ (q ≠ .zero → A.client.isSome = true)

/-- Byte `i` is outside the request. -/
def Request.Spares (q : Request) (i : Nat) : Prop := i < pageBytes ∧ ¬ (q.tmemOffset.toNat ≤ i ∧ i < q.tmemOffset.toNat + q.len.toNat)

/-- What a put needs to be exact: that the request is inside the page, and that what
it puts beside the client's bytes was there before. -/
structure WriteFits (C : Lzo β γ) (A : Answers β) (stored : Option (Data β γ)) (q : Request) : Prop where
  inPage : q.InPage
  packed : ∀ cli, Packs C A stored q cli → ∀ i < pageBytes,
    cli i = memcpy (contents C stored) cli q.tmemOffset.toNat q.pfnOffset.toNat q.len.toNat i
  zeroed : (∃ pfp, Copies C A stored q pfp) → q = .zero → ∀ i < pageBytes, contents C stored i = 0
  copied : ∀ pfp, Copies C A stored q pfp → q ≠ .zero → ∀ i, q.Spares i → pfp i = contents C stored i

/-- A put that fails stores nothing; one that is carried out fits. -/
def WriteSafe (C : Lzo β γ) (A : Answers β) (stored : Option (Data β γ)) (q : Request) : Prop :=
  Starts A stored → ((∃ cli, Packs C A stored q cli) ∨ ∃ pfp, Copies C A stored q pfp) → WriteFits C A stored q

/-- A get of a stored page stays inside the page, and hands out of a compressed page
no more than was asked for, or what the frame held anyway. -/
def ReadSafe (C : Lzo β γ) (stored : Option (Data β γ)) (cli : Area β) (q : Request) : Prop :=
  stored ≠ none → q.InPage ∧ ∀ c, stored = some (.cdata c) → ∀ i < pageBytes, contents C stored i =
    memcpy cli (contents C stored) q.pfnOffset.toNat q.tmemOffset.toNat q.len.toNat i

/-! ## Copies on the bytes of the page -/

section

omit [Zero β]

theorem memcpy_whole (dst src : Area β) {i : Nat} (hi : i < pageBytes) : memcpy dst src 0 0 pageBytes i = src i := by
  simp [memcpy, hi]

theorem memcpy_empty (dst src : Area β) (m n i : Nat) : memcpy dst src m n 0 i = dst i := by
  simp only [memcpy, Nat.add_zero]
  rw [if_neg (by omega)]

/-- Two copies of the same bytes agree where the areas do outside the request. -/
theorem memcpy_eq_iff (dst dst' src : Area β) (q : Request) :
    (∀ i < pageBytes, memcpy dst src q.tmemOffset.toNat q.pfnOffset.toNat q.len.toNat i =
      memcpy dst' src q.tmemOffset.toNat q.pfnOffset.toNat q.len.toNat i) ↔ ∀ i, q.Spares i → dst i = dst' i := by
  constructor
  · intro h i hi
    have := h i hi.1
    simpa [memcpy, hi.2] using this
  · intro h i hi
    by_cases hr : q.tmemOffset.toNat ≤ i ∧ i < q.tmemOffset.toNat + q.len.toNat
    · simp [memcpy, hr]
    · simpa [memcpy, hr] using h i ⟨hi, hr⟩

end

theorem Request.InPage.inBounds {q : Request} (h : q.InPage) : q.InBounds := by
  obtain ⟨ht, hp⟩ := h
  simp only [InBounds, pageBytes, BitVec.toNat_add] at ht hp ⊢
  omega

/-- On the page, a request inside it copies its bytes, also by the short way. -/
theorem tmhCopyFromClient_inPage (pfp cli : Area β) {q : Request} (hz : q ≠ .zero) (hq : q.InPage) :
    ∃ pfp', tmhCopyFromClient pfp (some cli) q = some pfp' ∧ ∀ i < pageBytes,
      pfp' i = memcpy pfp cli q.tmemOffset.toNat q.pfnOffset.toNat q.len.toNat i := by
  by_cases hw : q = .whole
  · subst hw
    exact ⟨_, rfl, fun i hi => rfl⟩
  · exact ⟨_, by simp [tmhCopyFromClient, hz, hw, hq.inBounds], fun i hi => rfl⟩

omit [Zero β] in
theorem tmhCopyToClient_inPage (cli pfp : Area β) {q : Request} (hq : q.InPage) :
    tmhCopyToClient cli pfp q = memcpy cli pfp q.pfnOffset.toNat q.tmemOffset.toNat q.len.toNat := by
  unfold tmhCopyToClient
  split_ifs with hw hb
  · subst hw
    rfl
  · rfl
  · exact absurd hq.inBounds hb

/-! ## Puts -/

/-- The ways a put ends that nothing stopped before its data. -/
inductive PutEnds (C : Lzo β γ) (A : Answers β) (stored : Option (Data β γ)) (q : Request) :
    Option (Data β γ) × Rc → Prop
  | packed {cli} (h : Packs C A stored q cli) : PutEnds C A stored q (some (.cdata (C.lzoCompress cli)), .one)
  | copied {pfp pfp'} (h : Copies C A stored q pfp) (hf : tmhCopyFromClient pfp A.client q = some pfp') :
      PutEnds C A stored q (some (.page pfp'), .one)
  | failed {rc} (hrc : rc ≠ .one) (hp : ∀ cli, ¬ Packs C A stored q cli) (hc : ∀ pfp, ¬ Copies C A stored q pfp) :
      PutEnds C A stored q (none, rc)

/-- The copy stops for want of a page, or of the client's frame. -/
theorem copyUncompressed_ends {C : Lzo β γ} {A : Answers β} {stored : Option (Data β γ)} {q : Request} {nomem : Rc}
    (hn : nomem ≠ .one) (hpoor : Tries A stored q → doTmemPutCompress C A = .poor) :
    PutEnds C A stored q (copyUncompressed A q nomem) := by
  have hpack : ∀ cli, ¬ Packs C A stored q cli := by
    intro cli hk
    have := hk.2.2
    rw [hpoor hk.1] at this
    cases this
  unfold copyUncompressed
  cases hp : A.page with
  | none => exact .failed hn hpack fun pfp hk => absurd (hp.symm.trans hk.2.1) (by simp)
  | some pfp =>
    dsimp only
    cases hf : tmhCopyFromClient pfp A.client q with
    | some pfp' =>
      refine .copied ⟨hpoor, hp, fun hz => ?_⟩ hf
      cases hc : A.client with
      | some cli => rfl
      | none => simp [tmhCopyFromClient, hz, hc] at hf
    | none =>
      refine .failed (by decide) hpack fun pfp'' hk => ?_
      by_cases hz : q = .zero
      · simp [tmhCopyFromClient, hz] at hf
      · obtain ⟨cli, hc⟩ := Option.isSome_iff_exists.1 (hk.2.2 hz)
        simp [tmhCopyFromClient, hz, hc] at hf

omit [Zero β] in
theorem doTmemPutCompress_done {C : Lzo β γ} {A : Answers β} {c : γ} (h : doTmemPutCompress C A = .done c) :
    ∃ cli, A.client = some cli ∧ c = C.lzoCompress cli := by
  unfold doTmemPutCompress at h
  cases hc : A.client with
  | none => split_ifs at h <;> simp [hc] at h
  | some cli =>
    simp only [hc] at h
    split_ifs at h
    exact ⟨cli, rfl, by simpa using h.symm⟩

/-- From the test for compression on: `compress` is that the put may try it. -/
theorem putData_ends {C : Lzo β γ} (A : Answers β) {stored : Option (Data β γ)} {q : Request} {compress : Bool}
    {nomem : Rc} (hn : nomem ≠ .one) (ht : compress = true ↔ ∀ pfp, stored ≠ some (.page pfp)) :
    PutEnds C A stored q (putData C A q compress nomem) := by
  unfold putData
  split_ifs with hif
  · have htry : Tries A stored q := ⟨hif.1, hif.2.1, ht.1 hif.2.2⟩
    -- Where compressing fails, nothing is packed, and nothing is copied either.
    have hno : doTmemPutCompress C A ≠ .poor → (∀ c, doTmemPutCompress C A ≠ .done c) →
        ∀ {rc : Rc}, rc ≠ .one → PutEnds C A stored q (none, rc) := fun hp hd rc hrc =>
      .failed hrc (fun cli hk => hd _ hk.2.2) fun pfp hk => hp (hk.1 htry)
    cases hd : doTmemPutCompress C A with
    | done c =>
      obtain ⟨cli, hcli, rfl⟩ := doTmemPutCompress_done hd
      exact .packed ⟨htry, hcli, hd⟩
    | poor => exact copyUncompressed_ends hn fun _ => hd
    | nomem => exact hno (by simp [hd]) (by simp [hd]) hn
    | fault => exact hno (by simp [hd]) (by simp [hd]) (by decide)
  · exact copyUncompressed_ends hn fun h => absurd ⟨h.1, h.2.1, ht.2 h.2.2⟩ hif

theorem doTmemPut_ends (C : Lzo β γ) {A : Answers β} {stored : Option (Data β γ)} (q : Request)
    (hs : Starts A stored) : PutEnds C A stored q (doTmemPut C A stored q) := by
  cases stored with
  | none =>
    have he : doTmemPut C A none q = putData C A q true .enomem := by simp [doTmemPut, hs.1, hs.2]
    rw [he]
    exact putData_ends A (by decide) (by simp)
  | some pgp =>
    have he : doTmemPut C A (some pgp) q = putData C A q pgp.isCompressed .enospc := by
      have hl : A.liveMigrating = false := hs
      simp [doTmemPut, doTmemDupPut, hl]
    rw [he]
    refine putData_ends A (by decide) ?_
    cases pgp with
    | page pfp => simp [Data.isCompressed]
    | cdata c => simp [Data.isCompressed]

theorem doTmemPut_stops {C : Lzo β γ} {A : Answers β} {stored : Option (Data β γ)} (q : Request)
    (hs : ¬ Starts A stored) : (doTmemPut C A stored q).1 = none ∧ (doTmemPut C A stored q).2 ≠ .one := by
  cases stored with
  | none =>
    by_cases hf : A.frozen = true
    · simp [doTmemPut, hf]
    · have hn : ¬ A.nodes = true := fun hn => hs ⟨by simpa using hf, hn⟩
      simp [doTmemPut, hf, hn]
  | some pgp =>
    have hl : A.liveMigrating = true := by simpa [Starts] using hs
    simp [doTmemPut, doTmemDupPut, hl]

/-- A put that fails leaves nothing behind. -/
theorem doTmemPut_fails {C : Lzo β γ} {A : Answers β} {stored : Option (Data β γ)} {q : Request}
    (h : (doTmemPut C A stored q).2 ≠ .one) : (doTmemPut C A stored q).1 = none := by
  by_cases hs : Starts A stored
  · have he := doTmemPut_ends C q hs
    generalize doTmemPut C A stored q = r at he h ⊢
    cases he with
    | packed hk => exact absurd rfl h
    | copied hk hf => exact absurd rfl h
    | failed hrc hp hc => rfl
  · exact (doTmemPut_stops q hs).1

omit [Zero β] in
theorem Packs.not_copies {C : Lzo β γ} {A : Answers β} {stored : Option (Data β γ)} {q : Request} {cli pfp : Area β}
    (h : Packs C A stored q cli) : ¬ Copies C A stored q pfp := by
  intro hk
  have := h.2.2
  rw [hk.1 h.1] at this
  cases this

/-- A put is exact if and only if what it stores beside the client's bytes was there
before. -/
theorem writeExact_iff (C : Lzo β γ) (A : Answers β) (stored : Option (Data β γ)) (q : Request) :
    WriteExact C A stored q ↔ WriteSafe C A stored q := by
  by_cases hs : Starts A stored
  · have he := doTmemPut_ends C q hs
    unfold WriteExact
    generalize doTmemPut C A stored q = r at he ⊢
    cases he with
    | failed hrc hp hc =>
      refine ⟨fun _ _ h => ?_, fun _ h => absurd h hrc⟩
      rcases h with ⟨cli, hk⟩ | ⟨pfp, hk⟩
      · exact absurd hk (hp cli)
      · exact absurd hk (hc pfp)
    | @packed cli hk =>
      have hget : A.client.getD (fun _ => 0) = cli := by rw [hk.2.1]; rfl
      constructor
      · intro h _ _
        obtain ⟨hq, hb⟩ := h rfl
        refine ⟨hq, fun cli' hk' i hi => ?_, fun ⟨pfp, hc⟩ => absurd hc hk.not_copies, fun pfp hc => absurd hc hk.not_copies⟩
        have hcli : cli' = cli := Option.some.inj (hk'.2.1.symm.trans hk.2.1)
        have := hb i hi
        rw [hget] at this
        rw [hcli, ← this]
        exact (C.inverse cli i hi).symm
      · intro h _
        have hw := h hs (.inl ⟨cli, hk⟩)
        refine ⟨hw.inPage, fun i hi => ?_⟩
        rw [hget, ← hw.packed cli hk i hi]
        exact C.inverse cli i hi
    | @copied pfp pfp' hk hf =>
      by_cases hz : q = .zero
      · -- The page is zeroed, and the request changes nothing.
        subst hz
        have hpfp : ∀ i < pageBytes, pfp' i = 0 := by
          intro i hi
          rw [← Option.some.inj ((if_pos rfl : tmhCopyFromClient pfp A.client .zero = _).symm.trans hf)]
          exact memcpy_whole pfp _ hi
        constructor
        · intro h _ _
          obtain ⟨hq, hb⟩ := h rfl
          refine ⟨hq, fun cli hp => absurd hk hp.not_copies, fun _ _ i hi => ?_, fun _ _ hz => absurd rfl hz⟩
          have := hb i hi
          rw [show Request.zero.len.toNat = 0 from rfl, memcpy_empty] at this
          exact this.symm.trans (hpfp i hi)
        · intro h _
          have hw := h hs (.inr ⟨pfp, hk⟩)
          refine ⟨hw.inPage, fun i hi => ?_⟩
          rw [show Request.zero.len.toNat = 0 from rfl, memcpy_empty, hw.zeroed ⟨pfp, hk⟩ rfl i hi]
          exact hpfp i hi
      · obtain ⟨cli, hcli⟩ := Option.isSome_iff_exists.1 (hk.2.2 hz)
        have hget : A.client.getD (fun _ => 0) = cli := by rw [hcli]; rfl
        rw [hcli] at hf
        -- Inside the page, the put is exact on the bytes of the request.
        have hpage : q.InPage → ((∀ i < pageBytes, pfp' i = memcpy (contents C stored) cli q.tmemOffset.toNat
            q.pfnOffset.toNat q.len.toNat i) ↔ ∀ i, q.Spares i → pfp i = contents C stored i) := by
          intro hq
          obtain ⟨pfp'', hf', hb⟩ := tmhCopyFromClient_inPage pfp cli hz hq
          cases hf.symm.trans hf'
          rw [← memcpy_eq_iff pfp (contents C stored) cli q]
          exact forall₂_congr fun i hi => by rw [hb i hi]
        rw [hget]
        constructor
        · intro h _ _
          obtain ⟨hq, hb⟩ := h rfl
          refine ⟨hq, fun cli hp => absurd hk hp.not_copies, fun _ h => absurd h hz, fun pfp₁ hk₁ _ => ?_⟩
          have hpfp : pfp₁ = pfp := Option.some.inj (hk₁.2.1.symm.trans hk.2.1)
          rw [hpfp]
          exact (hpage hq).1 hb
        · intro h _
          have hw := h hs (.inr ⟨pfp, hk⟩)
          exact ⟨hw.inPage, (hpage hw.inPage).2 (hw.copied pfp hk hz)⟩
  · have hw : WriteExact C A stored q := fun h => absurd h (doTmemPut_stops q hs).2
    exact ⟨fun _ h => absurd h hs, fun _ => hw⟩

/-! ## Gets -/

/-- A get is exact if and only if it stays inside the page, and no more of a compressed
page than was asked for changes the frame. -/
theorem readExact_iff (C : Lzo β γ) (poolEmpty : Bool) (stored : Option (Data β γ)) (cli : Area β) (q : Request) :
    ReadExact C poolEmpty stored cli q ↔ ReadSafe C stored cli q := by
  unfold ReadExact ReadSafe
  cases stored with
  | none =>
    have hrc : (doTmemGet C poolEmpty none (some cli) q).2 ≠ .one := by
      cases poolEmpty <;> simp [doTmemGet]
    exact ⟨fun _ h => absurd rfl h, fun _ h => absurd h hrc⟩
  | some pgp =>
    cases pgp with
    | page pfp =>
      constructor
      · intro h _
        exact ⟨(h rfl).1, fun c hc => by cases hc⟩
      · intro h _
        have hq := (h (by simp)).1
        refine ⟨hq, fun i _ => ?_⟩
        change tmhCopyToClient cli pfp q i = _
        rw [tmhCopyToClient_inPage cli pfp hq]
        rfl
    | cdata c =>
      -- The frame gets the whole page.
      have hget : ∀ i < pageBytes, ((doTmemGet C poolEmpty (some (.cdata c)) (some cli) q).1.getD cli) i =
          contents C (some (.cdata c)) i := fun i hi => memcpy_whole cli _ hi
      constructor
      · intro h _
        obtain ⟨hq, hb⟩ := h rfl
        exact ⟨hq, fun _ _ i hi => (hget i hi).symm.trans (hb i hi)⟩
      · intro h _
        obtain ⟨hq, hb⟩ := h (by simp)
        exact ⟨hq, fun i hi => (hget i hi).trans (hb c rfl i hi)⟩

/-! ## Runs -/

/-- What the clients of a pool do with one of its pages. -/
inductive Op (β : Type)
  | put (A : Answers β) (q : Request)
  | get (poolEmpty : Bool) (client : Option (Area β)) (q : Request)
  | flush

def Op.next (C : Lzo β γ) (stored : Option (Data β γ)) : Op β → Option (Data β γ)
  | .put A q => (doTmemPut C A stored q).1
  | .get _ _ _ => stored
  | .flush => none

def Op.Safe (C : Lzo β γ) (stored : Option (Data β γ)) : Op β → Prop
  | .put A q => WriteSafe C A stored q
  | .get _ client q => ∀ cli, client = some cli → ReadSafe C stored cli q
  | .flush => True

/-- The stored page after the steps. -/
def run (C : Lzo β γ) (stored : Option (Data β γ)) (ops : List (Op β)) : Option (Data β γ) :=
  ops.foldl (Op.next C) stored

/-- Every step is safe where it is taken. -/
def SafeRun (C : Lzo β γ) : Option (Data β γ) → List (Op β) → Prop
  | _, [] => True
  | stored, op :: ops => op.Safe C stored ∧ SafeRun C (op.next C stored) ops

/-- A client wrote the byte, or it is zero. -/
def Written (ops : List (Op β)) (b : β) : Prop :=
  b = 0 ∨ ∃ A q cli j, Op.put A q ∈ ops ∧ A.client = some cli ∧ j < pageBytes ∧
    q.pfnOffset.toNat ≤ j ∧ j < q.pfnOffset.toNat + q.len.toNat ∧ b = cli j

omit [Zero β] in
theorem memcpy_all {P : β → Prop} {dst src : Area β} {m n len i : Nat} (hd : P (dst i))
    (hs : ∀ j, n ≤ j → j < n + len → P (src j)) : P (memcpy dst src m n len i) := by
  unfold memcpy
  split_ifs with h
  · exact hs _ (by omega) (by omega)
  · exact hd

/-- A safe step leaves in the page what was there, and what the client wrote. -/
theorem next_written {C : Lzo β γ} {stored : Option (Data β γ)} {op : Op β} {P : β → Prop} (hsafe : op.Safe C stored)
    (hc : ∀ i < pageBytes, P (contents C stored i)) (hP : ∀ b, Written [op] b → P b) :
    ∀ i < pageBytes, P (contents C (op.next C stored) i) := by
  intro i hi
  cases op with
  | flush => exact hP 0 (.inl rfl)
  | get _ _ _ => exact hc i hi
  | put A q =>
    change P (contents C (doTmemPut C A stored q).1 i)
    by_cases hrc : (doTmemPut C A stored q).2 = .one
    · obtain ⟨hq, hb⟩ := (writeExact_iff C A stored q).2 hsafe hrc
      rw [hb i hi]
      refine memcpy_all (hc i hi) fun j hj hj' => ?_
      cases hcli : A.client with
      | none => exact hP 0 (.inl rfl)
      | some cli => exact hP _ (.inr ⟨A, q, cli, j, by simp, hcli, by have := hq.2; omega, hj, hj', rfl⟩)
    · rw [doTmemPut_fails hrc]
      exact hP 0 (.inl rfl)

theorem run_written {C : Lzo β γ} {stored : Option (Data β γ)} {ops : List (Op β)} {P : β → Prop}
    (hsafe : SafeRun C stored ops) (hc : ∀ i < pageBytes, P (contents C stored i)) (hP : ∀ b, Written ops b → P b) :
    ∀ i < pageBytes, P (contents C (run C stored ops) i) := by
  induction ops generalizing stored with
  | nil => exact hc
  | cons op ops ih =>
    refine ih hsafe.2 (next_written hsafe.1 hc fun b hb => hP b ?_) fun b hb => hP b ?_
    · rcases hb with h0 | ⟨A, q, cli, j, hm, h⟩
      · exact .inl h0
      · exact .inr ⟨A, q, cli, j, by simp_all, h⟩
    · rcases hb with h0 | ⟨A, q, cli, j, hm, h⟩
      · exact .inl h0
      · exact .inr ⟨A, q, cli, j, List.mem_cons_of_mem _ hm, h⟩

/-- Puts and gets are exact if and only if they are safe; and in a run of safe steps, a
get that returns 1 hands out no byte that no client wrote. -/
theorem doTmem_exact_iff (C : Lzo β γ) :
    (∀ A stored q, WriteExact C A stored q ↔ WriteSafe C A stored q) ∧
    (∀ poolEmpty stored cli q, ReadExact C poolEmpty stored cli q ↔ ReadSafe C stored cli q) ∧
    ∀ ops poolEmpty cli q, SafeRun C none ops → ReadSafe C (run C none ops) cli q →
      (doTmemGet C poolEmpty (run C none ops) (some cli) q).2 = .one → ∀ i < pageBytes,
        (doTmemGet C poolEmpty (run C none ops) (some cli) q).1.getD cli i = cli i ∨
          Written ops ((doTmemGet C poolEmpty (run C none ops) (some cli) q).1.getD cli i) := by
  refine ⟨writeExact_iff C, readExact_iff C, fun ops poolEmpty cli q hsafe hr hrc i hi => ?_⟩
  obtain ⟨hq, hb⟩ := (readExact_iff C poolEmpty _ cli q).2 hr hrc
  rw [hb i hi]
  have hw := run_written (P := Written ops) hsafe (fun _ _ => .inl rfl) fun b h => h
  by_cases h : q.pfnOffset.toNat ≤ i ∧ i < q.pfnOffset.toNat + q.len.toNat
  · right
    rw [memcpy, if_pos h]
    exact hw _ (by have := hq.1; omega)
  · left
    exact if_neg h

/-! A pool without compression: the page is all 1, and 16 bytes of it are written. -/

def plain : Lzo Nat (Area Nat) := ⟨2048, fun a => a, fun _ => 4096, fun a => a, fun _ _ _ => rfl⟩

/-- The new page is all 9. -/
def recycled : Answers Nat := ⟨false, false, false, true, some fun _ => 2, some fun _ => 9, true, true⟩

/-- The rest of the page is what the new page had in it. -/
theorem doTmemPut_recycled : ¬ WriteExact plain recycled (some (.page fun _ => 1)) ⟨0, 0, 16⟩ := by
  intro h
  have := (h rfl).2 16 (by decide)
  revert this
  decide

end Tmem.Partial
