import MemoryMonitor.Hvm.SaveOne

/-!
# The cursor of the save records

`_hvm_init_entry`, `_hvm_write_entry`, `_hvm_check_entry`, `_hvm_read_entry` and `hvm_load`
(`xen/common/hvm/save.c`) with the cursor as they move it, and with the end of the bytes that have been
read. The buffer is the first `size` bytes of a memory that goes on behind it.

A reader that accepts shorter records than it expects asks for the room of the record it expects, so that
it refuses a short one at the end of the buffer. The handler of the XSAVE state asks for the room of the
record, and reads all that it expects.
-/

namespace Hvm.Codec

open Save (Code Context Descriptor descriptor descriptorBytes field format hvmFileMagic hvmFileVersion)

/-! ## The buffer -/

/-- `data`, and what is behind it. -/
abbrev Memory := ℕ → BitVec 8

def bytes (data : Memory) (off n : ℕ) : List (BitVec 8) := (List.range n).map fun i => data (off + i)

def write (data : Memory) (off : ℕ) (src : List (BitVec 8)) : Memory := fun i =>
  if off ≤ i ∧ i < off + src.length then src.getD (i - off) 0 else data i

/-- The descriptor at an offset. -/
def desc (data : Memory) (off : ℕ) : Descriptor := descriptor (bytes data off 8)

/-- `h->size - h->cur`, a `uint32_t`. -/
def left (size cur : ℕ) : ℕ := (size + (2 ^ 32 - cur)) % 2 ^ 32

/-! ## Writing -/

/-- `_hvm_init_entry`. -/
def hvmInitEntry (size typecode inst len : ℕ) (h : Memory × ℕ) : Option (Memory × ℕ) :=
  if left size h.2 < len + 8 then none
  else some (write h.1 h.2 (descriptorBytes ⟨typecode, inst, len⟩), (h.2 + 8) % 2 ^ 32)

/-- `_hvm_write_entry`. -/
def hvmWriteEntry (src : List (BitVec 8)) (h : Memory × ℕ) : Memory × ℕ :=
  (write h.1 h.2 src, (h.2 + src.length) % 2 ^ 32)

structure Entry where
  typecode : ℕ
  inst : ℕ
  payload : List (BitVec 8)

/-- The entries are written one after the other. -/
def writeAll (size : ℕ) : List Entry → Memory × ℕ → Option (Memory × ℕ)
  | [], h => some h
  | e :: rest, h =>
      match hvmInitEntry size e.typecode e.inst e.payload.length h with
      | none => none
      | some h => writeAll size rest (hvmWriteEntry e.payload h)

/-! ## Reading -/

/-- The cursor, and the end of the bytes that have been read. -/
structure Cursor where
  cur : ℕ
  top : ℕ

namespace Cursor

/-- `n` bytes at an offset are read. -/
def touch (s : Cursor) (off n : ℕ) : Cursor := { s with top := max s.top (off + n) }

def advance (s : Cursor) (n : ℕ) : Cursor := { s with cur := (s.cur + n) % 2 ^ 32 }

/-- What has been read by `s`, and then by `r`. -/
def join (s r : Cursor) : Cursor := { r with top := max s.top r.top }

end Cursor

section Reading

variable (data : Memory) (size : ℕ)

/-- `_hvm_check_entry`. -/
def hvmCheckEntry (type len : ℕ) (strict : Bool) (s : Cursor) : Bool × Cursor :=
  if left size s.cur < len + 8 then (false, s)
  else
    let d := desc data s.cur
    let s := s.touch s.cur 8
    if type ≠ d.typecode ∨ len < d.length ∨ (strict ∧ len ≠ d.length) then (false, s)
    else (true, s.advance 8)

/-- `_hvm_read_entry`; `none` is its `BUG_ON`. -/
def hvmReadEntry (destLen : ℕ) (s : Cursor) : Option (List (BitVec 8) × Cursor) :=
  let n := (desc data (s.cur - 8)).length
  if destLen < n then none
  else some (bytes data s.cur n ++ List.replicate (destLen - n) 0, (s.touch s.cur n).advance n)

/-- The entries are read one after the other, each with the type and the length that is expected. -/
def readAll : List (ℕ × ℕ) → Cursor → Option (List (List (BitVec 8)) × Cursor)
  | [], s => some ([], s)
  | (type, len) :: rest, s =>
      match hvmCheckEntry data size type len false s with
      | (false, _) => none
      | (true, s) =>
          match hvmReadEntry data len s with
          | none => none
          | some (payload, s) => (readAll rest s).map fun r => (payload :: r.1, r.2)

/-- `_hvm_load_entry`, of a type that may have an older length. -/
def hvmLoadEntry (type len : ℕ) (compat : Option ℕ) (strict : Bool) (s : Cursor) : Bool × Cursor :=
  match hvmCheckEntry data size type len strict s with
  | (true, s) =>
      match hvmReadEntry data len s with
      | none => (false, s)
      | some r => (true, r.2)
  | (false, s) =>
      match compat with
      | none => (false, s)
      | some len =>
          match hvmCheckEntry data size type len strict s with
          | (true, s) =>
              match hvmReadEntry data len s with
              | none => (false, s)
              | some r => (true, r.2)
          | (false, s) => (false, s)

/-- The domain and the machine, as far as the handlers look at them. -/
structure Platform where
  isDying : Bool
  /-- Whether a handler goes on after it has looked at the instance. -/
  ready : Code → ℕ → Bool
  /-- What the handler answers in the end, for the record behind which the cursor is. -/
  accepts : ℕ → Bool
  /-- `xsave_enabled`. -/
  xsaveEnabled : ℕ → Bool
  xfeatureMask : ℕ
  xsaveCntxtSize : ℕ
  xsaveSmall : xsaveCntxtSize < 2 ^ 31

variable (pl : Platform)

/-- `hvm_load_cpu_xsave_states`, from `hvm_load_instance` on. -/
def hvmLoadCpuXsaveStates (s : Cursor) : Bool × Cursor :=
  let d := desc data s.cur
  let s := s.touch s.cur 4
  if !pl.ready .cpuXsave d.inst then (false, s)
  else if !pl.xsaveEnabled d.inst then (false, s)
  else if left size s.cur < 8 then (false, s)
  else
    let s := s.touch s.cur 8
    if left size s.cur < d.length + 8 then (false, s)
    else if d.typecode ≠ 16 ∨ Save.length pl.xsaveCntxtSize .cpuXsave < d.length then (false, s)
    else
      let ctxt := s.cur + 8
      let s := (s.advance 8).advance d.length
      let s := s.touch ctxt 8
      let mask := field (bytes data ctxt 8) 0 8
      if mask &&& pl.xfeatureMask ≠ mask then (false, s)
      else (true, s.touch ctxt (Save.length pl.xsaveCntxtSize .cpuXsave))

/-- `hpet_load`. -/
def hpetLoad (s : Cursor) : Bool × Cursor :=
  match hvmCheckEntry data size 12 1048 true s with
  | (false, s) => (false, s)
  | (true, s) => (true, (s.touch s.cur 1048).advance 1048)

/-- What the other handlers load. The CPU state has an older length, and the record of the vLAPIC may be
short. -/
def loadRecord (s : Cursor) : Code → Bool × Cursor
  | .hpet => hpetLoad data size s
  | .cpu => hvmLoadEntry data size 2 1024 (some 1016) true s
  | .lapic => hvmLoadEntry data size 5 24 none false s
  | c => hvmLoadEntry data size c.typecode (Save.length pl.xsaveCntxtSize c) none true s

/-- The handler of the next record. -/
def handler (cur : ℕ) : Bool × Cursor :=
  let s : Cursor := ⟨cur, 0⟩
  let d := desc data cur
  match Code.ofTypecode d.typecode with
  | none => (false, s)
  | some .cpuXsave => hvmLoadCpuXsaveStates data size pl s
  | some c =>
      let s := s.touch s.cur 4
      if !pl.ready c d.inst then (false, s)
      else
        let r := loadRecord data size pl s c
        (r.1 && pl.accepts r.2.cur, r.2)

/-- The loop of `hvm_load`, with at most `n` turns. -/
def loadEntries : ℕ → Cursor → Option (Bool × Cursor)
  | 0, _ => none
  | n + 1, s =>
      if left size s.cur < 8 then some (false, s)
      else
        let d := desc data s.cur
        let s := s.touch s.cur 8
        if d.typecode = 0 then some (true, s)
        else
          match handler data size pl s.cur with
          | (false, r) => some (false, s.join r)
          | (true, r) => loadEntries n (s.join r)

/-- `arch_hvm_load`. -/
def archHvmLoad (hdr : List (BitVec 8)) : Bool :=
  field hdr 0 4 == hvmFileMagic && field hdr 4 4 == hvmFileVersion

/-- What `hvm_load` does first. -/
def hvmLoadHeader (s : Cursor) : Bool × Cursor :=
  match hvmCheckEntry data size 1 24 true s with
  | (false, s) => (false, s)
  | (true, s) =>
      match hvmReadEntry data 24 s with
      | none => (false, s)
      | some (hdr, s) => (archHvmLoad hdr, s)

/-- `hvm_load`. -/
def hvmLoad : Option (Bool × Cursor) :=
  if pl.isDying then some (false, ⟨0, 0⟩)
  else
    match hvmLoadHeader data size ⟨0, 0⟩ with
    | (false, s) => some (false, s)
    | (true, s) => loadEntries data size pl (size / 8 + 1) s

end Reading

/-! ## Memory -/

variable {data data' : Memory} {size off n : ℕ}

theorem left_eq {cur : ℕ} (h : cur ≤ size) (hsize : size < 2 ^ 32) : left size cur = size - cur := by
  unfold left
  omega

theorem bytes_congr (h : ∀ i, off ≤ i → i < off + n → data' i = data i) :
    bytes data' off n = bytes data off n := by
  unfold bytes
  refine List.map_congr_left fun i hi => h _ (Nat.le_add_right ..) ?_
  exact Nat.add_lt_add_left (List.mem_range.mp hi) off

theorem bytes_write {src : List (BitVec 8)} (hn : src.length = n) :
    bytes (write data off src) off n = src := by
  subst hn
  apply List.ext_getElem
  · unfold bytes
    rw [List.length_map, List.length_range]
  · intro i hi hi'
    simp only [bytes, List.getElem_map, List.getElem_range]
    unfold write
    rw [if_pos ⟨Nat.le_add_right .., Nat.add_lt_add_left hi' off⟩,
      Nat.add_sub_cancel_left]
    exact (List.getElem_eq_getD 0).symm

theorem write_below {src : List (BitVec 8)} {i : ℕ} (h : i < off) : write data off src i = data i :=
  if_neg fun hi => Nat.not_le_of_lt h hi.1

theorem bytes_append (data : Memory) (off n k : ℕ) :
    bytes data off (n + k) = bytes data off n ++ bytes data (off + n) k := by
  unfold bytes
  rw [List.range_add, List.map_append, List.map_map]
  congr 1
  exact List.map_congr_left fun i _ => congrArg data (Nat.add_assoc ..).symm

/-! ## The contexts of the handlers -/

/-- The memory holds what has been written to a context, and the cursor is behind it. -/
structure Written (h : Context) (m : Memory × ℕ) : Prop where
  size : h.size < 2 ^ 32
  room : h.data.length ≤ h.size
  cur : m.2 = h.data.length
  data : bytes m.1 0 m.2 = h.data

/-- `hvm_save_entry` appends to the context what it writes to the memory. -/
theorem Written.saveEntry {h : Context} {m : Memory × ℕ} (hw : Written h m) (typecode inst : ℕ)
    (src : List (BitVec 8)) :
    (Save.hvmSaveEntry typecode inst h src = none ∧ hvmInitEntry h.size typecode inst src.length m = none) ∨
      ∃ h' m', Save.hvmSaveEntry typecode inst h src = some h' ∧
        hvmInitEntry h.size typecode inst src.length m = some m' ∧ h'.size = h.size ∧
        Written h' (hvmWriteEntry src m') := by
  obtain ⟨data, cur⟩ := m
  obtain ⟨hsize, hroom, hcur, hdata⟩ := hw
  dsimp only at hcur hdata
  have hlen : (descriptorBytes ⟨typecode, inst, src.length⟩).length = 8 := format.encode_length _
  unfold Save.hvmSaveEntry Save.hvmInitEntry hvmInitEntry
  rw [left_eq (by omega) hsize, hcur]
  by_cases hfull : h.size - h.data.length < src.length + 8
  · rw [if_pos hfull, if_pos hfull]
    exact .inl ⟨rfl, rfl⟩
  · rw [if_neg hfull, if_neg hfull]
    refine .inr ⟨_, _, rfl, rfl, rfl, hsize, ?_, ?_, ?_⟩
    · simp only [Save.hvmWriteEntry, List.length_append, hlen]
      omega
    · simp only [Save.hvmWriteEntry, hvmWriteEntry, List.length_append, hlen]
      omega
    · generalize descriptorBytes ⟨typecode, inst, src.length⟩ = d at hlen ⊢
      have hmod : (h.data.length + 8) % 2 ^ 32 = h.data.length + 8 := Nat.mod_eq_of_lt (by omega)
      have hmod' : (h.data.length + 8 + src.length) % 2 ^ 32 = h.data.length + 8 + src.length :=
        Nat.mod_eq_of_lt (by omega)
      unfold hvmWriteEntry Save.hvmWriteEntry
      dsimp only
      rw [hmod, hmod', bytes_append, bytes_append, Nat.zero_add, Nat.zero_add, bytes_write rfl]
      -- what is before is kept
      rw [@bytes_congr data _ _ _ fun i _ hi => by rw [write_below (by omega), write_below (by omega)]]
      rw [@bytes_congr (write data h.data.length d) _ _ _ fun i _ hi => write_below hi, bytes_write hlen]
      rw [← hcur, hdata]

theorem Written.saveEntries {h : Context} {m : Memory × ℕ} (hw : Written h m) (d : Save.Domain) (c : Code)
    (is : List ℕ) :
    (Save.saveEntries d c is h = none ∧
        writeAll h.size (is.map fun i => ⟨c.typecode, i, d.state c i⟩) m = none) ∨
      ∃ h' m', Save.saveEntries d c is h = some h' ∧
        writeAll h.size (is.map fun i => ⟨c.typecode, i, d.state c i⟩) m = some m' ∧ Written h' m' := by
  induction is generalizing h m with
  | nil => exact .inr ⟨h, m, rfl, rfl, hw⟩
  | cons i is ih =>
    rw [List.map_cons]
    unfold Save.saveEntries writeAll
    rcases hw.saveEntry c.typecode i (d.state c i) with ⟨hsave, hinit⟩ | ⟨h', m', hsave, hinit, hsize, hw'⟩
    · rw [hsave, hinit]
      exact .inl ⟨rfl, rfl⟩
    · rw [hsave, hinit]
      rw [← hsize]
      exact ih hw'

/-! ## The round trip -/

/-- A type, an instance and a length that fit their fields. -/
structure Entry.Ok (e : Entry) : Prop where
  typecode : e.typecode < 2 ^ 16
  inst : e.inst < 2 ^ 16
  payload : e.payload.length < 2 ^ 32

/-- The room that entries take. -/
def room (es : List Entry) : ℕ := (es.map fun e => 8 + e.payload.length).sum

theorem room_cons (e : Entry) (es : List Entry) : room (e :: es) = 8 + e.payload.length + room es := rfl

/-- The memory has the entries at an offset, one after the other. -/
def Holds (data : Memory) : ℕ → List Entry → Prop
  | _, [] => True
  | off, e :: es =>
      bytes data off 8 = descriptorBytes ⟨e.typecode, e.inst, e.payload.length⟩ ∧
        bytes data (off + 8) e.payload.length = e.payload ∧ Holds data (off + (8 + e.payload.length)) es

/-- The buffer has room for the record that is expected at each entry. -/
def Roomy (size : ℕ) : ℕ → List (Entry × ℕ) → Prop
  | _, [] => True
  | off, (e, expected) :: es => off + 8 + expected ≤ size ∧ Roomy size (off + (8 + e.payload.length)) es

theorem desc_of_bytes {e : Entry} (hok : e.Ok)
    (h : bytes data off 8 = descriptorBytes ⟨e.typecode, e.inst, e.payload.length⟩) :
    desc data off = ⟨e.typecode, e.inst, e.payload.length⟩ := by
  have hdecode := format.decode_encode ⟨e.typecode, e.inst, e.payload.length⟩ []
    ⟨hok.typecode, hok.inst, hok.payload⟩
  rw [List.append_nil] at hdecode
  unfold desc
  rw [h]
  exact hdecode

/-- What is written stays, as the cursor only goes up. -/
theorem writeAll_spec {es : List Entry} {cur : ℕ} (hsize : size < 2 ^ 32) (hfit : cur + room es ≤ size) :
    ∃ data', writeAll size es (data, cur) = some (data', cur + room es) ∧
      (∀ i < cur, data' i = data i) ∧ Holds data' cur es := by
  induction es generalizing data cur with
  | nil => exact ⟨data, rfl, fun _ _ => rfl, trivial⟩
  | cons e es ih =>
    rw [room_cons] at hfit ⊢
    have hroom : ¬left size cur < e.payload.length + 8 := by
      rw [left_eq (by omega) hsize]
      omega
    have hlen : (descriptorBytes ⟨e.typecode, e.inst, e.payload.length⟩).length = 8 :=
      format.encode_length _
    have hcur : (cur + 8) % 2 ^ 32 = cur + 8 := Nat.mod_eq_of_lt (by omega)
    have hcur' : (cur + 8 + e.payload.length) % 2 ^ 32 = cur + (8 + e.payload.length) := by
      rw [Nat.mod_eq_of_lt (by omega), Nat.add_assoc]
    generalize hd : descriptorBytes ⟨e.typecode, e.inst, e.payload.length⟩ = d at hlen
    rcases @ih (write (write data cur d) (cur + 8) e.payload) (cur + (8 + e.payload.length))
      (by omega) with ⟨data', hw, hbelow, hholds⟩
    refine ⟨data', ?_, fun i hi => ?_, ?_, ?_, hholds⟩
    · unfold writeAll hvmInitEntry
      rw [if_neg hroom, hd, hcur]
      unfold hvmWriteEntry
      dsimp only
      rw [hcur', hw, Nat.add_assoc]
    · rw [hbelow i (by omega), write_below (by omega), write_below hi]
    · -- the payload is behind the descriptor
      have hframe : bytes data' cur 8 = bytes (write data cur d) cur 8 := by
        refine bytes_congr fun i _ hi => ?_
        rw [hbelow i (by omega), write_below hi]
      rw [hframe, hd]
      exact bytes_write hlen
    · have hframe : bytes data' (cur + 8) e.payload.length
          = bytes (write (write data cur d) (cur + 8) e.payload) (cur + 8) e.payload.length :=
        bytes_congr fun i _ hi => hbelow i (by omega)
      rw [hframe]
      exact bytes_write rfl

theorem read_entry {e : Entry} {expected : ℕ} {s : Cursor} (hok : e.Ok) (hsize : size < 2 ^ 32)
    (hle : e.payload.length ≤ expected)
    (hdesc : bytes data s.cur 8 = descriptorBytes ⟨e.typecode, e.inst, e.payload.length⟩)
    (hpayload : bytes data (s.cur + 8) e.payload.length = e.payload)
    (hroom : s.cur + 8 + expected ≤ size) :
    ∃ s₁ s₂, hvmCheckEntry data size e.typecode expected false s = (true, s₁) ∧
      hvmReadEntry data expected s₁
        = some (e.payload ++ List.replicate (expected - e.payload.length) 0, s₂) ∧
      s₂.cur = s.cur + (8 + e.payload.length) := by
  have hd := desc_of_bytes hok hdesc
  have hcur : (s.cur + 8) % 2 ^ 32 = s.cur + 8 := Nat.mod_eq_of_lt (by omega)
  have hcur₁ : ((s.touch s.cur 8).advance 8).cur = s.cur + 8 := hcur
  refine ⟨(s.touch s.cur 8).advance 8, (((s.touch s.cur 8).advance 8).touch
    ((s.touch s.cur 8).advance 8).cur e.payload.length).advance e.payload.length, ?_, ?_, ?_⟩
  · have hmatch : ¬(e.typecode ≠ e.typecode ∨ expected < e.payload.length ∨
        (false = true ∧ expected ≠ e.payload.length)) := by
      rintro (h | h | ⟨h, -⟩)
      · exact h rfl
      · exact Nat.not_lt.mpr hle h
      · nomatch h
    unfold hvmCheckEntry
    rw [if_neg (by rw [left_eq (by omega) hsize]; omega)]
    rw [hd]
    exact if_neg hmatch
  · unfold hvmReadEntry
    rw [hcur₁, Nat.add_sub_cancel, hd]
    rw [if_neg (Nat.not_lt.mpr hle), hpayload]
  · show (((s.touch s.cur 8).advance 8).cur + e.payload.length) % 2 ^ 32 = _
    rw [hcur₁, Nat.mod_eq_of_lt (by omega), Nat.add_assoc]

theorem readAll_iff {es : List (Entry × ℕ)} {s : Cursor} (hsize : size < 2 ^ 32)
    (hok : ∀ e ∈ es, e.1.Ok ∧ e.1.payload.length ≤ e.2) (hholds : Holds data s.cur (es.map Prod.fst))
    (hfit : s.cur + room (es.map Prod.fst) ≤ size) :
    (readAll data size (es.map fun e => (e.1.typecode, e.2)) s).map (fun r => (r.1, r.2.cur))
        = some (es.map (fun e => e.1.payload ++ List.replicate (e.2 - e.1.payload.length) 0),
          s.cur + room (es.map Prod.fst)) ↔
      Roomy size s.cur es := by
  induction es generalizing s with
  | nil => exact iff_of_true rfl trivial
  | cons e es ih =>
    obtain ⟨e, expected⟩ := e
    obtain ⟨hdesc, hpayload, hrest⟩ := hholds
    obtain ⟨he, hle⟩ := hok (e, expected) List.mem_cons_self
    simp only [List.map_cons, room_cons] at hfit ⊢
    dsimp only at hdesc hpayload hrest he hle
    by_cases hroom : s.cur + 8 + expected ≤ size
    · rcases read_entry he hsize hle hdesc hpayload hroom with ⟨s₁, s₂, hcheck, hread, hcur⟩
      have hih := ih (s := s₂) (fun e' h' => hok e' (List.mem_cons_of_mem _ h'))
        (by rw [hcur]; exact hrest) (by rw [hcur]; omega)
      unfold readAll
      rw [hcheck]
      dsimp only
      rw [hread]
      rw [hcur] at hih
      refine Iff.trans ?_ (hih.trans (and_iff_right hroom).symm)
      rw [Option.map_map]
      cases readAll data size (es.map fun e => (e.1.typecode, e.2)) s₂ with
      | none => exact iff_of_false nofun nofun
      | some r => simp [Nat.add_assoc]
    · refine iff_of_false ?_ fun h => hroom h.1
      unfold readAll hvmCheckEntry
      dsimp only
      rw [if_pos (by rw [left_eq (by omega) hsize]; omega)]
      nofun

/-! ## What is read -/

/-- The record at the cursor is shorter than what the handler of the XSAVE state reads of it, and too close
to the end of the buffer. -/
def Overruns (data : Memory) (size : ℕ) (pl : Platform) (cur : ℕ) : Prop :=
  let d := desc data cur
  let mask := field (bytes data (cur + 8) 8) 0 8
  d.typecode = 16 ∧ pl.ready .cpuXsave d.inst = true ∧ pl.xsaveEnabled d.inst = true ∧
    cur + 8 + d.length ≤ size ∧ d.length ≤ Save.length pl.xsaveCntxtSize .cpuXsave ∧
    (size < cur + 16 ∨
      mask &&& pl.xfeatureMask = mask ∧ size < cur + 8 + Save.length pl.xsaveCntxtSize .cpuXsave)

/-- The record at `cur` is loaded, and the next one is at `cur'`. -/
def Next (data : Memory) (size : ℕ) (pl : Platform) (cur cur' : ℕ) : Prop :=
  cur + 8 ≤ size ∧ (desc data cur).typecode ≠ 0 ∧ (handler data size pl cur).1 = true ∧
    cur' = cur + 8 + (desc data cur).length

/-- What a handler that reads `n` bytes of its record leaves. -/
structure Reads (size : ℕ) (s : Cursor) (n : ℕ) (r : Bool × Cursor) : Prop where
  cur_le : r.2.cur ≤ size
  top_le : r.2.top ≤ max s.top size
  next : r.1 = true → r.2.cur = s.cur + 8 + n

variable {pl : Platform} {s : Cursor} {type len : ℕ} {strict : Bool}

theorem hvmCheckEntry_cases (hsize : size < 2 ^ 32) (hcur : s.cur ≤ size) (type len : ℕ) (strict : Bool) :
    (∃ s', hvmCheckEntry data size type len strict s = (false, s') ∧ s'.cur = s.cur ∧
      s'.top ≤ max s.top size) ∨
    ∃ s', hvmCheckEntry data size type len strict s = (true, s') ∧ s'.cur = s.cur + 8 ∧
      s'.top ≤ max s.top size ∧ s.cur + 8 + len ≤ size ∧ (desc data s.cur).length ≤ len ∧
      (strict = true → (desc data s.cur).length = len) := by
  unfold hvmCheckEntry
  rw [left_eq hcur hsize]
  split
  · exact .inl ⟨s, rfl, rfl, le_max_left ..⟩
  · dsimp only
    have htop : (s.touch s.cur 8).top ≤ max s.top size := max_le_max_left _ (by omega)
    split
    · exact .inl ⟨s.touch s.cur 8, rfl, rfl, htop⟩
    · rename_i hmatch
      push Not at hmatch
      obtain ⟨-, hle, hstrict⟩ := hmatch
      have hadd : (s.cur + 8) % 2 ^ 32 = s.cur + 8 := Nat.mod_eq_of_lt (by omega)
      exact .inr ⟨(s.touch s.cur 8).advance 8, rfl, hadd, htop, by omega, hle,
        fun hs => (hstrict hs).symm⟩

theorem hvmReadEntry_reads {s' : Cursor} (hsize : size < 2 ^ 32) (hcur : s'.cur = s.cur + 8)
    (htop : s'.top ≤ max s.top size) (hroom : s.cur + 8 + len ≤ size)
    (hle : (desc data s.cur).length ≤ len) :
    ∃ r, hvmReadEntry data len s' = some r ∧ Reads size s (desc data s.cur).length (true, r.2) := by
  unfold hvmReadEntry
  rw [hcur, Nat.add_sub_cancel, if_neg (Nat.not_lt.mpr hle)]
  generalize (desc data s.cur).length = n at hle ⊢
  have hadd : (s'.cur + n) % 2 ^ 32 = s.cur + 8 + n := by
    rw [hcur, Nat.mod_eq_of_lt (by omega)]
  refine ⟨_, rfl, ?_, ?_, fun _ => hadd⟩
  · show (s'.cur + n) % 2 ^ 32 ≤ size
    omega
  · exact max_le htop (le_max_of_le_right (by omega))

theorem hvmLoadEntry_reads (hsize : size < 2 ^ 32) (hcur : s.cur ≤ size) (type len : ℕ)
    (compat : Option ℕ) (strict : Bool) :
    Reads size s (desc data s.cur).length (hvmLoadEntry data size type len compat strict s) := by
  unfold hvmLoadEntry
  rcases @hvmCheckEntry_cases data size _ hsize hcur type len strict with
    ⟨s', he, hcur', htop⟩ | ⟨s', he, hcur', htop, hroom, hle, -⟩
  · rw [he]
    cases compat with
    | none => exact ⟨hcur'.trans_le hcur, htop, nofun⟩
    | some len =>
      dsimp only
      have hcur₁ : s'.cur ≤ size := hcur'.trans_le hcur
      rcases @hvmCheckEntry_cases data size _ hsize hcur₁ type len strict with
        ⟨s'', he', hcur'', htop'⟩ | ⟨s'', he', hcur'', htop', hroom, hle, -⟩
      · rw [he']
        exact ⟨hcur''.trans_le hcur₁, htop'.trans (max_le htop (le_max_right ..)), nofun⟩
      · rw [he']
        dsimp only
        rw [hcur'] at hcur'' hroom hle
        rcases hvmReadEntry_reads hsize hcur'' (htop'.trans (max_le htop (le_max_right ..))) hroom hle
          with ⟨r, hr, hreads⟩
        rw [hr]
        exact hreads
  · rw [he]
    dsimp only
    rcases hvmReadEntry_reads hsize hcur' htop hroom hle with ⟨r, hr, hreads⟩
    rw [hr]
    exact hreads

theorem hpetLoad_reads (hsize : size < 2 ^ 32) (hcur : s.cur ≤ size) :
    Reads size s (desc data s.cur).length (hpetLoad data size s) := by
  unfold hpetLoad
  rcases @hvmCheckEntry_cases data size _ hsize hcur 12 1048 true with
    ⟨s', he, hcur', htop⟩ | ⟨s', he, hcur', htop, hroom, -, hlen⟩
  · rw [he]
    exact ⟨hcur'.trans_le hcur, htop, nofun⟩
  · rw [he, hlen rfl]
    have hadd : (s'.cur + 1048) % 2 ^ 32 = s.cur + 8 + 1048 := by
      rw [hcur', Nat.mod_eq_of_lt (by omega)]
    refine ⟨?_, max_le htop (le_max_of_le_right (by omega)), fun _ => hadd⟩
    show (s'.cur + 1048) % 2 ^ 32 ≤ size
    omega

theorem hvmLoadCpuXsaveStates_eq {cur : ℕ} (hsize : size < 2 ^ 32) (hcur : cur + 8 ≤ size)
    (htype : (desc data cur).typecode = 16) :
    hvmLoadCpuXsaveStates data size pl ⟨cur, 0⟩ =
      if ¬(pl.ready .cpuXsave (desc data cur).inst = true ∧ pl.xsaveEnabled (desc data cur).inst = true)
      then (false, ⟨cur, cur + 4⟩)
      else if size < cur + 8 + (desc data cur).length ∨
        Save.length pl.xsaveCntxtSize .cpuXsave < (desc data cur).length then (false, ⟨cur, cur + 8⟩)
      else if field (bytes data (cur + 8) 8) 0 8 &&& pl.xfeatureMask
        ≠ field (bytes data (cur + 8) 8) 0 8 then
        (false, ⟨cur + 8 + (desc data cur).length, cur + 16⟩)
      else (true, ⟨cur + 8 + (desc data cur).length,
        cur + 8 + Save.length pl.xsaveCntxtSize .cpuXsave⟩) := by
  unfold hvmLoadCpuXsaveStates Cursor.touch Cursor.advance
  dsimp only
  rw [left_eq (by omega) hsize, htype]
  have hx : 24 ≤ Save.length pl.xsaveCntxtSize Code.cpuXsave := Nat.le_add_right ..
  generalize Save.length pl.xsaveCntxtSize Code.cpuXsave = x at hx ⊢
  generalize field (bytes data (cur + 8) 8) 0 8 = mask
  generalize desc data cur = d
  have h4 : max 0 (cur + 4) = cur + 4 := Nat.zero_max ..
  have h8 : max (cur + 4) (cur + 8) = cur + 8 := max_eq_right (by omega)
  have h16 : max (cur + 8) (cur + 8 + 8) = cur + 16 := max_eq_right (by omega)
  have hend : max (cur + 16) (cur + 8 + x) = cur + 8 + x := max_eq_right (by omega)
  rw [h4, h8, h16, hend]
  by_cases hready : pl.ready .cpuXsave d.inst = true
  · by_cases henabled : pl.xsaveEnabled d.inst = true
    · simp only [hready, henabled, Bool.not_true, Bool.false_eq_true, if_false, and_self,
        not_true_eq_false, ne_eq, false_or]
      have hadd : ((cur + 8) % 2 ^ 32 + d.length) % 2 ^ 32 = (cur + 8 + d.length) % 2 ^ 32 := by
        rw [Nat.mod_eq_of_lt (by omega : cur + 8 < 2 ^ 32)]
      rw [hadd, if_neg (by omega : ¬size - cur < 8)]
      by_cases hroom : size < cur + 8 + d.length
      · rw [if_pos (by omega : size - cur < d.length + 8), if_pos (Or.inl hroom)]
      · rw [if_neg (by omega : ¬size - cur < d.length + 8),
          Nat.mod_eq_of_lt (by omega : cur + 8 + d.length < 2 ^ 32)]
        by_cases hlen : x < d.length
        · rw [if_pos hlen, if_pos (Or.inr hlen)]
        · rw [if_neg hlen, if_neg (not_or.mpr ⟨hroom, hlen⟩)]
    · simp [hready, henabled]
  · simp [hready]

/-- The handler of the XSAVE state reads behind the buffer exactly if the record overruns it. -/
theorem hvmLoadCpuXsaveStates_reads {cur : ℕ} (hsize : size < 2 ^ 32) (hcur : cur + 8 ≤ size)
    (htype : (desc data cur).typecode = 16) :
    (hvmLoadCpuXsaveStates data size pl ⟨cur, 0⟩).2.cur ≤ size ∧
      ((hvmLoadCpuXsaveStates data size pl ⟨cur, 0⟩).1 = true →
        (hvmLoadCpuXsaveStates data size pl ⟨cur, 0⟩).2.cur = cur + 8 + (desc data cur).length) ∧
      (size < (hvmLoadCpuXsaveStates data size pl ⟨cur, 0⟩).2.top ↔ Overruns data size pl cur) := by
  rw [hvmLoadCpuXsaveStates_eq hsize hcur htype]
  unfold Overruns
  have hx : 24 ≤ Save.length pl.xsaveCntxtSize Code.cpuXsave := Nat.le_add_right ..
  generalize Save.length pl.xsaveCntxtSize Code.cpuXsave = x at hx ⊢
  generalize field (bytes data (cur + 8) 8) 0 8 = mask
  split
  · rename_i hno
    have hle : cur ≤ size := by omega
    refine ⟨hle, nofun, iff_of_false ?_ fun h => hno ⟨h.2.1, h.2.2.1⟩⟩
    show ¬size < cur + 4
    omega
  · rename_i hgo
    rw [not_not] at hgo
    split
    · rename_i hrefused
      have hle : cur ≤ size := by omega
      refine ⟨hle, nofun, iff_of_false ?_ fun h => ?_⟩
      · show ¬size < cur + 8
        omega
      · obtain ⟨-, -, -, hroom, hlen, -⟩ := h
        omega
    · rename_i hroom
      split
      · rename_i hmask
        refine ⟨?_, nofun, ?_⟩
        · dsimp only
          omega
        · constructor
          · intro htop
            exact ⟨htype, hgo.1, hgo.2, by omega, by omega, .inl htop⟩
          · rintro ⟨-, -, -, -, -, h | ⟨h, -⟩⟩
            · exact h
            · exact absurd h hmask
      · rename_i hmask
        rw [not_not] at hmask
        refine ⟨?_, fun _ => rfl, ?_⟩
        · dsimp only
          omega
        · constructor
          · intro htop
            exact ⟨htype, hgo.1, hgo.2, by omega, by omega, .inr ⟨hmask, htop⟩⟩
          · rintro ⟨-, -, -, -, -, h | ⟨-, h⟩⟩
            · dsimp only
              omega
            · exact h

theorem handler_reads {cur : ℕ} (hsize : size < 2 ^ 32) (hcur : cur + 8 ≤ size) :
    (handler data size pl cur).2.cur ≤ size ∧
      ((handler data size pl cur).1 = true →
        (handler data size pl cur).2.cur = cur + 8 + (desc data cur).length) ∧
      (size < (handler data size pl cur).2.top ↔ Overruns data size pl cur) := by
  unfold handler
  dsimp only
  split
  · rename_i hc
    have hle : cur ≤ size := by omega
    refine ⟨hle, nofun, iff_of_false (Nat.not_lt_zero _) fun h => ?_⟩
    rw [h.1] at hc
    nomatch hc
  · rename_i hc
    exact hvmLoadCpuXsaveStates_reads hsize hcur (Save.typecode_of hc)
  · rename_i c hother hc
    -- no other handler reads behind the buffer
    have hnot : ¬Overruns data size pl cur := by
      intro h
      rw [h.1] at hc
      injection hc with hc
      exact hother hc.symm
    have hread {r : Bool × Cursor}
        (h : Reads size (Cursor.touch ⟨cur, 0⟩ cur 4) (desc data cur).length r) :
        r.2.cur ≤ size ∧ ((r.1 && pl.accepts r.2.cur) = true →
          r.2.cur = cur + 8 + (desc data cur).length) ∧ (size < r.2.top ↔ Overruns data size pl cur) := by
      refine ⟨h.cur_le, fun hr => h.next (Bool.and_eq_true_iff.mp hr).1, iff_of_false ?_ hnot⟩
      refine Nat.not_lt.mpr (h.top_le.trans (max_le ?_ le_rfl))
      show max 0 (cur + 4) ≤ size
      omega
    have hle : (Cursor.touch ⟨cur, 0⟩ cur 4).cur ≤ size := by
      show cur ≤ size
      omega
    split
    · refine ⟨hle, nofun, iff_of_false ?_ hnot⟩
      show ¬size < max 0 (cur + 4)
      omega
    · refine hread (r := loadRecord data size pl (Cursor.touch ⟨cur, 0⟩ cur 4) c) ?_
      unfold loadRecord
      split
      · exact hpetLoad_reads hsize hle
      · exact hvmLoadEntry_reads hsize hle ..
      · exact hvmLoadEntry_reads hsize hle ..
      · exact hvmLoadEntry_reads hsize hle ..

/-! ## The loop -/

/-- Nothing is loaded behind `cur`. -/
theorem reached_of_not_next {cur p : ℕ} (hnot : ∀ c, ¬Next data size pl cur c)
    (hp : Relation.ReflTransGen (Next data size pl) cur p) : p = cur := by
  rcases hp.cases_head with he | ⟨c, hc, -⟩
  · exact he.symm
  · exact absurd hc (hnot c)

/-- Each turn takes eight bytes at least. A record of the rest that overruns the buffer is seen, or none
is there. -/
theorem loadEntries_spec (hsize : size < 2 ^ 32) {n : ℕ} (hcur : s.cur ≤ size)
    (hn : size < s.cur + 8 * n) :
    ∃ r, loadEntries data size pl n s = some r ∧ r.2.cur ≤ size ∧
      (r.2.top ≤ size ↔ s.top ≤ size ∧
        ∀ p, Relation.ReflTransGen (Next data size pl) s.cur p → ¬Overruns data size pl p) := by
  induction n generalizing s with
  | zero => omega
  | succ n ih =>
    unfold loadEntries
    rw [left_eq hcur hsize]
    by_cases hroom : size - s.cur < 8
    · rw [if_pos hroom]
      refine ⟨_, rfl, hcur, (and_iff_left fun p hp ho => ?_).symm⟩
      rw [reached_of_not_next (fun c hc => by have := hc.1; omega) hp] at ho
      have := ho.2.2.2.1
      omega
    · rw [if_neg hroom]
      have hroom' : s.cur + 8 ≤ size := by omega
      have htouch : (s.touch s.cur 8).top ≤ size ↔ s.top ≤ size := by
        show max s.top (s.cur + 8) ≤ size ↔ _
        omega
      by_cases hend : (desc data s.cur).typecode = 0
      · rw [if_pos hend]
        refine ⟨_, rfl, hcur, htouch.trans (and_iff_left fun p hp ho => ?_).symm⟩
        rw [reached_of_not_next (fun c hc => hc.2.1 hend) hp] at ho
        have := ho.1
        omega
      · rw [if_neg hend]
        obtain ⟨hle, hnext, hover⟩ := @handler_reads data size pl _ hsize hroom'
        have hsame : (s.touch s.cur 8).cur = s.cur := rfl
        rw [hsame]
        have hnextEq : (handler data size pl s.cur).1 = true → ∀ c, Next data size pl s.cur c ↔
            c = s.cur + 8 + (desc data s.cur).length :=
          fun ht c => ⟨fun hc => hc.2.2.2, fun hc => ⟨hroom', hend, ht, hc⟩⟩
        have hnone : (handler data size pl s.cur).1 = false → ∀ c, ¬Next data size pl s.cur c := by
          intro hf c hc
          have := hc.2.2.1
          rw [hf] at this
          nomatch this
        generalize handler data size pl s.cur = r at hle hnext hover hnextEq hnone
        obtain ⟨b, r⟩ := r
        dsimp only at hle hnext hover hnextEq hnone
        have hjoin : ((s.touch s.cur 8).join r).top ≤ size ↔ s.top ≤ size ∧ ¬Overruns data size pl s.cur := by
          rw [← hover, Nat.not_lt, ← htouch]
          exact max_le_iff
        cases b with
        | false =>
          refine ⟨_, rfl, hle, hjoin.trans (and_congr_right fun _ => ?_)⟩
          constructor
          · intro ho p hp
            rw [reached_of_not_next (hnone rfl) hp]
            exact ho
          · intro hall
            exact hall _ .refl
        | true =>
          have hcur' := hnext rfl
          rcases ih (s := (s.touch s.cur 8).join r) hle (by
            show size < r.cur + 8 * n
            omega) with ⟨r', he, hle', htop⟩
          refine ⟨r', he, hle', htop.trans ?_⟩
          rw [hjoin, and_assoc]
          refine and_congr_right fun _ => ⟨?_, fun hall => ⟨hall _ .refl, fun p hp => hall p ?_⟩⟩
          · rintro ⟨ho, hall⟩ p hp
            rcases hp.cases_head with he | ⟨c, hc, hp⟩
            · rw [← he]
              exact ho
            · rw [(hnextEq rfl c).mp hc, ← hcur'] at hp
              exact hall p hp
          · exact .head ((hnextEq rfl _).mpr hcur') hp

theorem hvmLoadHeader_spec (hsize : size < 2 ^ 32) (hcur : s.cur ≤ size) :
    (hvmLoadHeader data size s).2.cur ≤ size ∧ (hvmLoadHeader data size s).2.top ≤ max s.top size ∧
      ((hvmLoadHeader data size s).1 = true → (hvmLoadHeader data size s).2.cur = s.cur + 8 + 24) := by
  unfold hvmLoadHeader
  rcases @hvmCheckEntry_cases data size _ hsize hcur 1 24 true with
    ⟨s', he, hcur', htop⟩ | ⟨s', he, hcur', htop, hroom, hle, hlen⟩
  · rw [he]
    exact ⟨hcur'.trans_le hcur, htop, nofun⟩
  · rw [he]
    dsimp only
    rcases hvmReadEntry_reads hsize hcur' htop hroom hle with ⟨⟨hdr, r⟩, hr, hreads⟩
    rw [hr]
    rw [hlen rfl] at hreads
    exact ⟨hreads.cur_le, hreads.top_le, fun _ => hreads.next rfl⟩

/-- No record that the loop comes to overruns the buffer. -/
def Contained (data : Memory) (size : ℕ) (pl : Platform) : Prop :=
  pl.isDying = false → (hvmLoadHeader data size ⟨0, 0⟩).1 = true →
    ∀ p, Relation.ReflTransGen (Next data size pl) 32 p → ¬Overruns data size pl p

theorem hvmLoad_spec (hsize : size < 2 ^ 32) :
    ∃ r, hvmLoad data size pl = some r ∧ r.2.cur ≤ size ∧ (r.2.top ≤ size ↔ Contained data size pl) := by
  rw [hvmLoad.eq_1]
  unfold Contained
  by_cases hdying : pl.isDying = true
  · rw [if_pos hdying]
    refine ⟨_, rfl, Nat.zero_le _, iff_of_true (Nat.zero_le _) fun h => ?_⟩
    rw [hdying] at h
    nomatch h
  · rw [if_neg hdying]
    obtain ⟨hle, htop, hcur⟩ := @hvmLoadHeader_spec data size ⟨0, 0⟩ hsize (Nat.zero_le _)
    rw [max_eq_right (Nat.zero_le _)] at htop
    generalize hvmLoadHeader data size ⟨0, 0⟩ = h at hle htop hcur ⊢
    obtain ⟨b, s⟩ := h
    cases b with
    | false => exact ⟨_, rfl, hle, iff_of_true htop fun _ => nofun⟩
    | true =>
      rcases @loadEntries_spec data size pl s hsize (size / 8 + 1) hle (by omega) with
        ⟨r, he, hle', hiff⟩
      refine ⟨r, he, hle', hiff.trans ?_⟩
      rw [hcur rfl]
      refine ⟨fun h _ _ => h.2, fun h => ⟨htop, h ?_ rfl⟩⟩
      simpa using hdying

/-- Entries are read back exactly if the buffer has room for the record that is expected at each of them.
The cursor of `hvm_load` stays in the buffer, and no byte behind it is read exactly if no record overruns
it. -/
theorem codec_iff (data : Memory) (size : ℕ) :
    (∀ (cur : ℕ) (es : List (Entry × ℕ)), size < 2 ^ 32 →
      (∀ e ∈ es, e.1.Ok ∧ e.1.payload.length ≤ e.2) → cur + room (es.map Prod.fst) ≤ size →
      ∃ data', writeAll size (es.map Prod.fst) (data, cur) = some (data', cur + room (es.map Prod.fst)) ∧
        ((readAll data' size (es.map fun e => (e.1.typecode, e.2)) ⟨cur, 0⟩).map (fun r => (r.1, r.2.cur))
            = some (es.map (fun e => e.1.payload ++ List.replicate (e.2 - e.1.payload.length) 0),
              cur + room (es.map Prod.fst)) ↔
          Roomy size cur es)) ∧
    ∀ pl : Platform, size < 2 ^ 32 →
      ∃ r, hvmLoad data size pl = some r ∧ r.2.cur ≤ size ∧
        (r.2.top ≤ size ↔ Contained data size pl) := by
  constructor
  · intro cur es hsize hok hfit
    rcases @writeAll_spec data size _ cur hsize hfit with ⟨data', hw, -, hholds⟩
    exact ⟨data', hw, readAll_iff (s := ⟨cur, 0⟩) hsize hok hholds hfit⟩
  · intro pl hsize
    exact hvmLoad_spec hsize

/-- A header, and a XSAVE record of no length at the end of the buffer. -/
def emptyXsave : Memory := fun i =>
  (descriptorBytes ⟨1, 0, 24⟩ ++ Save.leBytes 4 hvmFileMagic ++ Save.leBytes 4 hvmFileVersion ++
    List.replicate 16 0 ++ descriptorBytes ⟨16, 0, 0⟩).getD i 0

def everything : Platform := ⟨false, fun _ _ => true, fun _ => true, fun _ => true, 7, 576, by decide⟩

/-- A short record at the end of the buffer is refused, and the XSAVE state is read behind it. -/
theorem codec_short :
    ((writeAll 24 [⟨5, 0, List.replicate 16 0⟩] (fun _ => 0, 0)).map fun h =>
      (h.2, (readAll h.1 24 [(5, 24)] ⟨0, 0⟩).isNone)) = some (24, true) ∧
    (hvmLoad emptyXsave 40 everything).map (fun r => (r.2.cur, r.2.top)) = some (40, 640) := by
  decide +kernel

end Hvm.Codec
