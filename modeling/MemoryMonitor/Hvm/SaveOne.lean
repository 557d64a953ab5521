import MemoryMonitor.Hvm.Save

/-!
# The record that is asked for

What a handler writes is a list of records, for the instances it chooses. `hvm_save` writes all of them
one after the other, and they can be read back. `hvm_save_one` takes the one at the position that is the
number of the instance.
-/

namespace Hvm.Save

variable {d : Domain} {c : Code} {h h' : Context} {is : List ℕ} {i inst typecode : ℕ}

/-! ## Descriptors -/

theorem leBytes_length (n x : ℕ) : (leBytes n x).length = n := by
  induction n generalizing x with
  | zero => rfl
  | succ n ih =>
      rw [leBytes, List.length_cons, ih]

theorem le_leBytes (n x : ℕ) (hx : x < 256 ^ n) : le (leBytes n x) = x := by
  induction n generalizing x with
  | zero =>
      rw [Nat.pow_zero] at hx
      have hzero : x = 0 := by omega
      rw [hzero]
      rfl
  | succ n ih =>
      have hdiv : x / 256 < 256 ^ n := by
        rw [Nat.pow_succ] at hx
        exact Nat.div_lt_of_lt_mul (by omega)
      rw [leBytes, le, ih _ hdiv, BitVec.toNat_ofNat]
      omega

theorem field_append (before after : List (BitVec 8)) (n x : ℕ) (hx : x < 256 ^ n) :
    field (before ++ (leBytes n x ++ after)) before.length n = x := by
  unfold field
  rw [List.drop_left]
  have htake : (leBytes n x ++ after).take n = leBytes n x := by
    have h : (leBytes n x ++ after).take (leBytes n x).length = leBytes n x := List.take_left
    rw [leBytes_length] at h
    exact h
  rw [htake, le_leBytes n x hx]

/-- Records with a `hvm_save_descriptor`, up to `END`. -/
def format : Tagged.Format (BitVec 8) Descriptor where
  width := 8
  encode := descriptorBytes
  decode := descriptor
  size := Descriptor.length
  last desc := desc.typecode = 0
  ok desc := desc.typecode < 2 ^ 16 ∧ desc.inst < 2 ^ 16 ∧ desc.length < 2 ^ 32
  encode_length desc := by
    unfold descriptorBytes
    rw [List.length_append, List.length_append, leBytes_length, leBytes_length, leBytes_length]
  decode_encode := by
    rintro ⟨typecode, inst, length⟩ bs ⟨htype, hinst, hlen⟩
    unfold descriptor descriptorBytes
    dsimp only at htype hinst hlen ⊢
    have h0 := field_append [] (leBytes 2 inst ++ (leBytes 4 length ++ bs)) 2 typecode htype
    have h2 := field_append (leBytes 2 typecode) (leBytes 4 length ++ bs) 2 inst hinst
    have h4 := field_append (leBytes 2 typecode ++ leBytes 2 inst) bs 4 length hlen
    rw [List.length_append, leBytes_length, leBytes_length] at h4
    rw [leBytes_length] at h2
    simp only [List.append_assoc, List.nil_append, List.length_nil] at h0 h2 h4 ⊢
    rw [h0, h2, h4]

/-- The records of a buffer, as `hvm_load` takes it apart. -/
def records (h : Context) : List (Descriptor × List (BitVec 8)) := Tagged.read format h.data.length h.data

/-! ## What a handler writes -/

/-- The instances that a handler writes. -/
def instances (d : Domain) : Code → List ℕ
  | .cpu => (d.vcpus.filter fun v => !v.down).map Vcpu.id
  | .pic => [0, 1]
  | .lapic | .lapicRegs | .mtrr => vcpuIds d
  | .viridian => if d.viridian then [0] else []
  | .cpuXsave => if d.cpuHasXsave then vcpuIds d else []
  | _ => [0]

theorem registration_save (d : Domain) (c : Code) (h : Context) :
    (registration d c).save h = saveEntries d c (instances d c) h := by
  cases c with
  | viridian =>
      show viridianSaveCpuCtxt d h = _
      unfold viridianSaveCpuCtxt instances
      cases d.viridian <;> rfl
  | cpuXsave =>
      show hvmSaveCpuXsaveStates d h = _
      unfold hvmSaveCpuXsaveStates instances
      cases d.cpuHasXsave <;> rfl
  | _ => rfl

/-- The record for an instance. -/
def entry (d : Domain) (c : Code) (i : ℕ) : Descriptor × List (BitVec 8) :=
  (⟨c.typecode, i, length d.xsaveCntxtSize c⟩, d.state c i)

def entries (d : Domain) (c : Code) (is : List ℕ) : List (Descriptor × List (BitVec 8)) := is.map (entry d c)

theorem entries_length (d : Domain) (c : Code) (is : List ℕ) :
    ∀ r ∈ entries d c is, r.2.length = length d.xsaveCntxtSize c := by
  intro r hr
  obtain ⟨i, -, rfl⟩ := List.mem_map.mp hr
  exact d.state_length c i

theorem entries_room (d : Domain) (c : Code) (is : List ℕ) :
    (Tagged.stream format (entries d c is)).length = is.length * (length d.xsaveCntxtSize c + 8) := by
  have hlen := Tagged.stream_length (F := format) (entries_length d c is)
  unfold entries at hlen ⊢
  rw [hlen, List.length_map]
  show is.length * (8 + _) = _
  rw [Nat.add_comm 8]

theorem hvmSaveEntry_spec {typecode : ℕ} {src : List (BitVec 8)} (hroom : h.data.length + (src.length + 8) ≤ h.size) :
    hvmSaveEntry typecode inst h src =
      some { h with data := h.data ++ Tagged.record format (⟨typecode, inst, src.length⟩, src) } := by
  unfold hvmSaveEntry hvmInitEntry
  rw [if_neg (by dsimp only; omega)]
  unfold Tagged.record
  rw [← List.append_assoc]
  rfl

/-- Where there is room, the records are written. -/
theorem saveEntries_spec (hroom : h.data.length + is.length * (length d.xsaveCntxtSize c + 8) ≤ h.size) :
    saveEntries d c is h = some { h with data := h.data ++ Tagged.stream format (entries d c is) } := by
  induction is generalizing h with
  | nil =>
      show some h = _
      rw [show Tagged.stream format (entries d c []) = [] from rfl, List.append_nil]
  | cons i is ih =>
      rw [List.length_cons, Nat.succ_mul] at hroom
      have hentry := @hvmSaveEntry_spec h i c.typecode (d.state c i) (by rw [d.state_length]; omega)
      rw [d.state_length] at hentry
      rw [saveEntries, hentry]
      dsimp only
      rw [ih]
      · dsimp only
        rw [List.append_assoc]
        rfl
      · dsimp only
        rw [List.length_append, Tagged.record_length]
        show h.data.length + (8 + (d.state c i).length) + _ ≤ _
        rw [d.state_length]
        omega

theorem typecode_of (hc : Code.ofTypecode typecode = some c) : typecode = c.typecode := by
  unfold Code.ofTypecode at hc
  split at hc <;> cases hc <;> rfl

theorem ofTypecode_typecode (c : Code) : Code.ofTypecode c.typecode = some c := by cases c <;> rfl

theorem typecode_pos (c : Code) : 1 < c.typecode := by cases c <;> decide

theorem typecode_le (c : Code) : c.typecode ≤ hvmSaveCodeMax := by cases c <;> decide

theorem typecode_inj {c' : Code} (h : c.typecode = c'.typecode) : c = c' := by
  have hc := ofTypecode_typecode c
  rw [h, ofTypecode_typecode] at hc
  exact (Option.some.inj hc).symm

theorem length_pos (n : ℕ) (c : Code) : 0 < length n c := by
  cases c with
  | cpuXsave =>
      show 0 < 3 * 8 + n
      omega
  | _ => exact Nat.succ_pos _

theorem length_lt (d : Domain) (c : Code) : length d.xsaveCntxtSize c < 2 ^ 32 := by
  have hsmall := d.xsaveSmall
  cases c with
  | cpuXsave =>
      show 3 * 8 + d.xsaveCntxtSize < 2 ^ 32
      omega
  | _ =>
      unfold length
      dsimp only
      omega

theorem vcpuIds_length (d : Domain) : (vcpuIds d).length = d.vcpus.length := by
  unfold vcpuIds
  rw [List.length_map]

theorem handler_of (d : Domain) (hc : Code.ofTypecode typecode = some c) : hvmSrHandlers d typecode =
    ⟨some (registration d c).save, (registration d c).num * (length d.xsaveCntxtSize c + 8),
      (registration d c).kind⟩ := by
  unfold hvmSrHandlers
  rw [hc]

/-- How often there is room for what a handler has registered for. -/
def Kind.shares (vcpus : ℕ) : Kind → ℕ
  | .perVcpu => vcpus
  | .perDom => 1

theorem roomFor_eq (d : Domain) (typecode : ℕ) : roomFor d typecode =
    (hvmSrHandlers d typecode).kind.shares d.vcpus.length * (hvmSrHandlers d typecode).size := by
  unfold roomFor
  cases (hvmSrHandlers d typecode).kind with
  | perVcpu => rfl
  | perDom => exact (Nat.one_mul _).symm

/-- A handler writes no more than it has registered for. -/
theorem instances_length (d : Domain) (c : Code) :
    (instances d c).length ≤ (registration d c).kind.shares d.vcpus.length * (registration d c).num := by
  cases c with
  | cpu =>
      show ((d.vcpus.filter _).map Vcpu.id).length ≤ d.vcpus.length * 1
      rw [List.length_map, Nat.mul_one]
      exact List.length_filter_le _ _
  | lapic | lapicRegs | mtrr =>
      show (vcpuIds d).length ≤ d.vcpus.length * 1
      rw [vcpuIds_length, Nat.mul_one]
  | viridian =>
      show (if d.viridian then [0] else []).length ≤ 1 * 1
      cases d.viridian <;> decide
  | cpuXsave =>
      show (if d.cpuHasXsave then vcpuIds d else []).length ≤ d.vcpus.length * 1
      cases d.cpuHasXsave with
      | true =>
          rw [if_pos rfl, vcpuIds_length, Nat.mul_one]
      | false => exact Nat.zero_le _
  | _ => exact Nat.le_refl _

theorem instances_room (d : Domain) (hc : Code.ofTypecode typecode = some c) :
    (instances d c).length * (length d.xsaveCntxtSize c + 8) ≤ roomFor d typecode := by
  rw [roomFor_eq, handler_of d hc, ← Nat.mul_assoc]
  exact Nat.mul_le_mul_right _ (instances_length d c)

theorem instances_lt (hi : i ∈ instances d c) : i < 2 ^ 16 := by
  have hids : ∀ i ∈ vcpuIds d, i < 2 ^ 16 := by
    intro i hi
    obtain ⟨v, hv, rfl⟩ := List.mem_map.mp hi
    exact d.small v hv
  have hzero : i ∈ [0] → i < 2 ^ 16 := by
    intro h
    rw [List.mem_singleton.mp h]
    decide
  cases c with
  | cpu =>
      obtain ⟨v, hv, rfl⟩ := List.mem_map.mp hi
      exact d.small v (List.mem_filter.mp hv).1
  | pic =>
      have hi' : i ∈ [0, 1] := hi
      rcases List.mem_cons.mp hi' with rfl | hi'
      · decide
      · rw [List.mem_singleton.mp hi']
        decide
  | lapic | lapicRegs | mtrr => exact hids i hi
  | viridian =>
      unfold instances at hi
      cases hv : d.viridian with
      | true =>
          rw [hv, if_pos rfl] at hi
          exact hzero hi
      | false =>
          rw [hv, if_neg Bool.false_ne_true] at hi
          exact absurd hi (List.not_mem_nil)
  | cpuXsave =>
      unfold instances at hi
      cases hx : d.cpuHasXsave with
      | true =>
          rw [hx, if_pos rfl] at hi
          exact hids i hi
      | false =>
          rw [hx, if_neg Bool.false_ne_true] at hi
          exact absurd hi (List.not_mem_nil)
  | _ => exact hzero hi

/-! ## The whole save -/

/-- The records of a type. -/
def entriesOf (d : Domain) (typecode : ℕ) : List (Descriptor × List (BitVec 8)) :=
  match Code.ofTypecode typecode with
  | some c => entries d c (instances d c)
  | none => []

theorem entriesOf_room (d : Domain) (typecode : ℕ) :
    (Tagged.stream format (entriesOf d typecode)).length ≤ roomFor d typecode := by
  unfold entriesOf
  cases hc : Code.ofTypecode typecode with
  | none => exact Nat.zero_le _
  | some c =>
      dsimp only
      rw [entries_room]
      exact instances_room d hc

theorem entriesOf_fits (d : Domain) (typecode : ℕ) : ∀ r ∈ entriesOf d typecode, Tagged.Fits format r := by
  intro r hr
  unfold entriesOf at hr
  cases hc : Code.ofTypecode typecode with
  | none =>
      rw [hc] at hr
      exact absurd hr List.not_mem_nil
  | some c =>
      rw [hc] at hr
      obtain ⟨i, hi, rfl⟩ := List.mem_map.mp hr
      have hpos := typecode_pos c
      have hle := typecode_le c
      unfold hvmSaveCodeMax at hle
      refine ⟨⟨?_, instances_lt hi, length_lt d c⟩, (d.state_length c i).symm, ?_⟩
      · show c.typecode < 2 ^ 16
        omega
      · show decide (c.typecode = 0) = false
        exact decide_eq_false (by omega)

theorem saveAll_spec (hroom : h.data.length + (is.map (roomFor d)).sum ≤ h.size) : saveAll d is h =
    some { h with data := h.data ++ Tagged.stream format (is.flatMap (entriesOf d)) } := by
  induction is generalizing h with
  | nil =>
      show some h = _
      rw [show Tagged.stream format ([].flatMap (entriesOf d)) = [] from rfl, List.append_nil]
  | cons i is ih =>
      rw [List.map_cons, List.sum_cons] at hroom
      have hfirst := entriesOf_room d i
      rw [List.flatMap_cons, Tagged.stream_append, ← List.append_assoc]
      have hnext : saveAll d (i :: is) h =
          saveAll d is { h with data := h.data ++ Tagged.stream format (entriesOf d i) } := by
        rw [saveAll]
        unfold entriesOf at hfirst ⊢
        cases hc : Code.ofTypecode i with
        | none =>
            unfold hvmSrHandlers
            rw [hc]
            dsimp only
            rw [show Tagged.stream format [] = [] from rfl, List.append_nil]
        | some c =>
            rw [hc] at hfirst
            dsimp only at hfirst ⊢
            rw [entries_room] at hfirst
            rw [handler_of d hc]
            dsimp only
            rw [registration_save, saveEntries_spec (by omega)]
      rw [hnext, ih]
      dsimp only
      rw [List.length_append]
      omega

/-- The header as a record. -/
def headerEntry (d : Domain) : Descriptor × List (BitVec 8) := (⟨1, 0, 24⟩, header d)

/-- The records of a whole save. -/
def allEntries (d : Domain) : List (Descriptor × List (BitVec 8)) :=
  headerEntry d :: (List.range (hvmSaveCodeMax + 1)).flatMap (entriesOf d)

theorem header_length (d : Domain) : (header d).length = 24 := by
  unfold header
  simp only [List.length_append, leBytes_length]

theorem headerEntry_fits (d : Domain) : Tagged.Fits format (headerEntry d) := by
  have hok : format.ok ⟨1, 0, 24⟩ := ⟨by decide, by decide, by decide⟩
  refine ⟨hok, ?_, rfl⟩
  show 24 = (header d).length
  rw [header_length]

theorem allEntries_fits (d : Domain) : ∀ r ∈ allEntries d, Tagged.Fits format r := by
  intro r hr
  rcases List.mem_cons.mp hr with rfl | hr
  · exact headerEntry_fits d
  · obtain ⟨i, -, hi⟩ := List.mem_flatMap.mp hr
    exact entriesOf_fits d i r hi

theorem allEntries_length (d : Domain) :
    (Tagged.stream format (allEntries d)).length ≤ 32 + ((List.range (hvmSaveCodeMax + 1)).map (roomFor d)).sum := by
  have hsum : ∀ is : List ℕ, (Tagged.stream format (is.flatMap (entriesOf d))).length ≤ (is.map (roomFor d)).sum := by
    intro is
    induction is with
    | nil => exact Nat.zero_le _
    | cons i is ih =>
        rw [List.flatMap_cons, Tagged.stream_append, List.length_append, List.map_cons, List.sum_cons]
        exact Nat.add_le_add (entriesOf_room d i) ih
  unfold allEntries
  rw [Tagged.stream_cons, List.length_append, Tagged.record_length]
  have hrest := hsum (List.range (hvmSaveCodeMax + 1))
  have hlen : (headerEntry d).2.length = 24 := header_length d
  have hwidth : format.width = 8 := rfl
  omega

/-- Each record takes at least its descriptor. -/
theorem stream_count (rs : List (Descriptor × List (BitVec 8))) :
    8 * rs.length ≤ (Tagged.stream format rs).length := by
  induction rs with
  | nil => exact Nat.zero_le _
  | cons r rs ih =>
      rw [Tagged.stream_cons, List.length_append, Tagged.record_length, List.length_cons]
      have hwidth : format.width = 8 := rfl
      omega

/-- A save that is given the size it asks for ends, and its records can be read back. -/
theorem hvmSave_spec (halive : d.isDying = false) :
    ∃ h, hvmSave d ⟨hvmSaveSize d, []⟩ = .ok h ∧ records h = allEntries d := by
  have hlen := allEntries_length d
  have hwritten : (Tagged.record format (headerEntry d)).length = 32 := by
    rw [Tagged.record_length]
    show 8 + (header d).length = 32
    rw [header_length]
  have hheader : hvmSaveEntry 1 0 ⟨hvmSaveSize d, []⟩ (header d) =
      some ⟨hvmSaveSize d, Tagged.record format (headerEntry d)⟩ := by
    rw [hvmSaveEntry_spec]
    · rw [header_length, List.nil_append]
      rfl
    · rw [header_length]
      unfold hvmSaveSize
      dsimp only [List.length_nil]
      omega
  have hall : saveAll d (List.range (hvmSaveCodeMax + 1)) ⟨hvmSaveSize d, Tagged.record format (headerEntry d)⟩ =
      some ⟨hvmSaveSize d, Tagged.stream format (allEntries d)⟩ := by
    rw [saveAll_spec]
    · unfold allEntries
      rw [Tagged.stream_cons]
    · dsimp only
      rw [hwritten]
      unfold hvmSaveSize
      omega
  have hend : hvmSaveEntry 0 0 ⟨hvmSaveSize d, Tagged.stream format (allEntries d)⟩ [] =
      some ⟨hvmSaveSize d, Tagged.stream format (allEntries d) ++ (format.encode ⟨0, 0, 0⟩ ++ [])⟩ := by
    rw [hvmSaveEntry_spec]
    · unfold Tagged.record
      rw [List.length_nil]
    · dsimp only [List.length_nil]
      unfold hvmSaveSize
      omega
  refine ⟨⟨hvmSaveSize d, Tagged.stream format (allEntries d) ++ (format.encode ⟨0, 0, 0⟩ ++ [])⟩, ?_, ?_⟩
  · unfold hvmSave
    rw [halive, if_neg Bool.false_ne_true, hheader]
    dsimp only
    rw [hall]
    dsimp only
    rw [hend]
  · have hcount := stream_count (allEntries d)
    unfold records
    apply Tagged.read_stream (allEntries_fits d)
    · exact ⟨by decide, by decide, by decide⟩
    · rfl
    · dsimp only
      rw [List.length_append, List.length_append, format.encode_length]
      have hwidth : format.width = 8 := rfl
      omega

/-! ## The record that is asked for -/

/-- A save of the whole domain has a record of the type for the instance. -/
def Saved (d : Domain) (typecode inst : ℕ) (payload : List (BitVec 8)) : Prop :=
  ∃ h len, hvmSave d ⟨hvmSaveSize d, []⟩ = .ok h ∧ ((⟨typecode, inst, len⟩, payload) : Descriptor × _) ∈ records h

theorem saved_iff {payload : List (BitVec 8)} (halive : d.isDying = false) (hc : Code.ofTypecode typecode = some c) :
    Saved d typecode inst payload ↔ inst ∈ instances d c ∧ payload = d.state c inst := by
  obtain ⟨h, hsave, hrecords⟩ := hvmSave_spec halive
  constructor
  · rintro ⟨h', len, hsave', hmem⟩
    rw [hsave] at hsave'
    injection hsave' with hh
    subst hh
    rw [hrecords] at hmem
    rcases List.mem_cons.mp hmem with heq | hmem
    · injection heq with hdesc _
      injection hdesc with htype _ _
      have hpos := typecode_pos c
      rw [← typecode_of hc] at hpos
      omega
    · obtain ⟨t, -, ht⟩ := List.mem_flatMap.mp hmem
      unfold entriesOf at ht
      cases hc' : Code.ofTypecode t with
      | none =>
          rw [hc'] at ht
          exact absurd ht List.not_mem_nil
      | some c' =>
          rw [hc'] at ht
          obtain ⟨i, hi, heq⟩ := List.mem_map.mp ht
          injection heq with hdesc hpayload
          injection hdesc with htype hinst _
          have hsame : c' = c := typecode_inj (htype.trans (typecode_of hc))
          subst hsame hinst
          exact ⟨hi, hpayload.symm⟩
  · rintro ⟨hi, rfl⟩
    refine ⟨h, length d.xsaveCntxtSize c, hsave, ?_⟩
    rw [hrecords]
    apply List.mem_cons_of_mem
    apply List.mem_flatMap.mpr
    refine ⟨typecode, ?_, ?_⟩
    · rw [List.mem_range, typecode_of hc]
      exact Nat.lt_succ_of_le (typecode_le c)
    · unfold entriesOf
      rw [hc]
      refine List.mem_map.mpr ⟨inst, hi, ?_⟩
      unfold entry
      rw [typecode_of hc]

/-- `hvm_sr_handlers[typecode].size`. -/
def Code.size (d : Domain) (c : Code) : ℕ := (registration d c).num * (length d.xsaveCntxtSize c + 8)

/-- The bytes that are taken from a buffer of some size, with everything that the handler writes. -/
def taken (d : Domain) (c : Code) (inst size : ℕ) : List (Option (BitVec 8)) :=
  ((Context.buffer ⟨size, Tagged.stream format (entries d c (instances d c))⟩).drop
    (inst * c.size d + 8)).take (c.size d - 8)

theorem size_le (d : Domain) (c : Code) : 8 < c.size d := by
  have hlen := length_pos d.xsaveCntxtSize c
  unfold Code.size
  have hnum : 1 ≤ (registration d c).num := by cases c <;> exact Nat.succ_pos _
  calc 8 < 1 * (length d.xsaveCntxtSize c + 8) := by omega
    _ ≤ _ := Nat.mul_le_mul_right _ hnum

theorem size_eq (hc : c ≠ .pic) : c.size d = length d.xsaveCntxtSize c + 8 := by
  unfold Code.size
  have hnum : (registration d c).num = 1 := by
    cases c with
    | pic => exact absurd rfl hc
    | _ => rfl
  rw [hnum, Nat.one_mul]

variable {bytes : List (Option (BitVec 8))} {memory copies : Bool}

/-- When `hvm_save_one` copies something, and what. -/
theorem hvmSaveOne_ok_iff (hc : Code.ofTypecode typecode = some c) :
    hvmSaveOne d typecode inst memory copies = .ok bytes ↔
      d.isDying = false ∧ (inst + 1) * c.size d ≤ roomFor d typecode ∧ memory = true ∧ copies = true ∧
        bytes = taken d c inst (roomFor d typecode) := by
  have hsize := size_le d c
  have hle := typecode_le c
  rw [← typecode_of hc] at hle
  have hwritten : (registration d c).save ⟨roomFor d typecode, []⟩ =
      some ⟨roomFor d typecode, Tagged.stream format (entries d c (instances d c))⟩ := by
    rw [registration_save, saveEntries_spec]
    · rfl
    · dsimp only [List.length_nil]
      have hroom := instances_room d hc
      omega
  have hhandler : hvmSrHandlers d typecode = ⟨some (registration d c).save, c.size d, (registration d c).kind⟩ :=
    handler_of d hc
  unfold hvmSaveOne
  rw [hhandler]
  dsimp only
  by_cases hdying : d.isDying = true
  · rw [if_pos (Or.inl hdying), hdying]
    simp
  · rw [if_neg (by rintro (h | h | h) <;> [exact hdying h; omega; omega]), hwritten]
    by_cases hroom : (inst + 1) * c.size d > roomFor d typecode
    · rw [if_pos hroom]
      constructor
      · intro h
        exact absurd h nofun
      · rintro ⟨-, hle, -⟩
        omega
    · rw [if_neg hroom, Bool.eq_false_iff.mpr hdying]
      have hle := Nat.le_of_not_lt hroom
      cases memory <;> cases copies <;> simp [hle, taken, eq_comm]

/-- The position of a record that is written. -/
theorem taken_written (hc : c ≠ .pic) (hi : (instances d c)[inst]? = some i) (size : ℕ) :
    taken d c inst size = (d.state c i).map some := by
  have hentry : (entries d c (instances d c))[inst]? = some (entry d c i) := by
    unfold entries
    rw [List.getElem?_map, hi]
    rfl
  have hbody := @Tagged.stream_body _ _ format (entry d c i) _ _ _ (entries_length d c (instances d c)) hentry
  have hroom := entries_room d c (instances d c)
  have hlt : inst < (instances d c).length := (List.getElem?_eq_some_iff.mp hi).1
  have hfits : (inst + 1) * (length d.xsaveCntxtSize c + 8) ≤
      (instances d c).length * (length d.xsaveCntxtSize c + 8) :=
    Nat.mul_le_mul_right _ hlt
  rw [Nat.succ_mul] at hfits
  unfold taken Context.buffer
  rw [size_eq hc, Nat.add_sub_cancel, List.drop_append_of_le_length, List.take_append_of_le_length, ← List.map_drop,
    ← List.map_take, Nat.add_comm (length d.xsaveCntxtSize c)]
  · exact congrArg (List.map some) hbody
  · rw [List.length_drop, List.length_map]
    dsimp only
    omega
  · rw [List.length_map]
    dsimp only
    omega

theorem taken_length {size : ℕ} (hroom : (instances d c).length * (length d.xsaveCntxtSize c + 8) ≤ size)
    (hsize : (inst + 1) * c.size d ≤ size) : (taken d c inst size).length = c.size d - 8 := by
  have hdata := entries_room d c (instances d c)
  have hpos := size_le d c
  rw [Nat.succ_mul] at hsize
  unfold taken Context.buffer
  rw [List.length_take, List.length_drop, List.length_append, List.length_map, List.length_replicate]
  dsimp only
  omega

/-- The position behind them. -/
theorem taken_unwritten (hc : c ≠ .pic) (hi : (instances d c).length ≤ inst) {size : ℕ}
    (hroom : (instances d c).length * (length d.xsaveCntxtSize c + 8) ≤ size)
    (hsize : (inst + 1) * c.size d ≤ size) :
    taken d c inst size = List.replicate (length d.xsaveCntxtSize c) none := by
  have hlen := taken_length hroom hsize
  rw [size_eq hc, Nat.add_sub_cancel] at hlen
  apply List.eq_replicate_iff.mpr
  refine ⟨hlen, ?_⟩
  intro b hb
  have hdata := entries_room d c (instances d c)
  have hbehind : (instances d c).length * (length d.xsaveCntxtSize c + 8) ≤ inst * (length d.xsaveCntxtSize c + 8) :=
    Nat.mul_le_mul_right _ hi
  unfold taken Context.buffer at hb
  have hb' := List.mem_of_mem_take hb
  rw [List.drop_append, List.drop_eq_nil_of_le, List.nil_append] at hb'
  · exact List.eq_of_mem_replicate (List.mem_of_mem_drop hb')
  · rw [List.length_map, size_eq hc]
    dsimp only
    omega

/-- What `hvm_save_one` copies is the record that it is asked for. -/
def Extracts (d : Domain) (typecode inst : ℕ) : Prop :=
  ∀ memory copies bytes, hvmSaveOne d typecode inst memory copies = .ok bytes →
    ∃ payload, Saved d typecode inst payload ∧ bytes = payload.map some

/-- The domain is dying, there is no room for such an instance, or the handler writes the record at the
position of its number. -/
def Located (d : Domain) (typecode inst : ℕ) : Prop :=
  ∀ c, Code.ofTypecode typecode = some c →
    d.isDying = true ∨ roomFor d typecode < (inst + 1) * c.size d ∨
      c ≠ .pic ∧ inst ∈ instances d c ∧ ∃ i, (instances d c)[inst]? = some i ∧ d.state c i = d.state c inst

theorem map_some_injective {bs bs' : List (BitVec 8)} (h : bs.map some = bs'.map some) : bs = bs' :=
  (List.map_inj_right fun _ _ => Option.some.inj).mp h

/-- `hvm_save_one` copies the record that it is asked for just where records are at their position. -/
theorem hvmSaveOne_extracts_iff (d : Domain) (typecode inst : ℕ) :
    Extracts d typecode inst ↔ Located d typecode inst := by
  constructor
  · intro hextracts c hc
    by_cases hdying : d.isDying = true
    · exact Or.inl hdying
    have halive := Bool.eq_false_iff.mpr hdying
    rcases Nat.lt_or_ge (roomFor d typecode) ((inst + 1) * c.size d) with hsmall | hsize
    · exact Or.inr (Or.inl hsmall)
    have hroom := instances_room d hc
    have hlen := taken_length hroom hsize
    obtain ⟨payload, hsaved, hbytes⟩ := hextracts true true _
      ((hvmSaveOne_ok_iff hc).mpr ⟨halive, hsize, rfl, rfl, rfl⟩)
    obtain ⟨hmem, rfl⟩ := (saved_iff halive hc).mp hsaved
    have hpayload := d.state_length c inst
    rw [hbytes, List.length_map] at hlen
    have hpic : c ≠ .pic := by
      rintro rfl
      -- two records with their descriptors, less one
      have hsize : Code.size d .pic = 32 := rfl
      have hshort : length d.xsaveCntxtSize .pic = 8 := rfl
      omega
    refine Or.inr (Or.inr ⟨hpic, hmem, ?_⟩)
    cases hi : (instances d c)[inst]? with
    | none =>
        rw [taken_unwritten hpic (List.getElem?_eq_none_iff.mp hi) hroom hsize] at hbytes
        have hpos := length_pos d.xsaveCntxtSize c
        have hnone : none ∈ (d.state c inst).map some := by
          rw [← hbytes]
          exact List.mem_replicate.mpr ⟨Nat.ne_of_gt hpos, rfl⟩
        obtain ⟨b, -, hb⟩ := List.mem_map.mp hnone
        exact absurd hb nofun
    | some i =>
        rw [taken_written hpic hi] at hbytes
        exact ⟨i, rfl, map_some_injective hbytes⟩
  · intro hlocated memory copies bytes hok
    cases hc : Code.ofTypecode typecode with
    | none =>
        unfold hvmSaveOne hvmSrHandlers at hok
        rw [hc] at hok
        have hsmall : (0 : ℕ) < 8 := by decide
        dsimp only at hok
        rw [if_pos (Or.inr (Or.inr hsmall))] at hok
        exact absurd hok nofun
    | some c =>
        obtain ⟨halive, hsize, -, -, rfl⟩ := (hvmSaveOne_ok_iff hc).mp hok
        rcases hlocated c hc with hdying | hsmall | ⟨hpic, hmem, i, hi, hsame⟩
        · rw [hdying] at halive
          exact absurd halive nofun
        · omega
        · refine ⟨d.state c inst, (saved_iff halive hc).mpr ⟨hmem, rfl⟩, ?_⟩
          rw [taken_written hpic hi, hsame]

/-- A domain with two vCPUs, of which the second is down. -/
def secondDown : Domain where
  isDying := false
  viridian := false
  vcpus := [⟨0, false⟩, ⟨1, true⟩]
  sorted := by decide
  small := by decide
  cpuHasXsave := false
  xsaveCntxtSize := 0
  xsaveSmall := by decide
  state c _ := List.replicate (length 0 c) 0
  state_length _ _ := List.length_replicate
  changeset := 0
  cpuid := 0
  gtscKhz := 0

/-- The vCPU that is down has no record, and what was in memory is copied. -/
theorem hvmSaveOne_secondDown :
    hvmSaveOne secondDown 2 1 true true = .ok (List.replicate 1024 none) ∧
      ∀ payload, ¬Saved secondDown 2 1 payload := by
  have hc : Code.ofTypecode 2 = some .cpu := rfl
  have hinstances : instances secondDown .cpu = [0] := rfl
  have hsize : Code.size secondDown .cpu = 1032 := rfl
  have hlen : length secondDown.xsaveCntxtSize .cpu = 1024 := rfl
  have hroom : roomFor secondDown 2 = 2064 := by
    rw [roomFor_eq, handler_of secondDown hc]
    rfl
  have hfits : (1 + 1) * Code.size secondDown .cpu ≤ roomFor secondDown 2 := by
    rw [hsize, hroom]
  constructor
  · rw [hvmSaveOne_ok_iff hc]
    refine ⟨rfl, hfits, rfl, rfl, ?_⟩
    rw [taken_unwritten (by decide) _ (instances_room secondDown hc) hfits, hlen]
    rw [hinstances]
    decide
  · intro payload hsaved
    have hmem := ((saved_iff rfl hc).mp hsaved).1
    rw [hinstances] at hmem
    exact absurd hmem (by decide)

end Hvm.Save
