import Mathlib.Data.List.Basic

/-!
# Strings of tagged records

A record is a head of fixed width and a body whose length the head tells. Reading the string of some
records gives the records back, up to one whose head ends the string. Where all the records have the
same length, the one at a position is found by multiplication.
-/

namespace Tagged

/-- How heads are written. -/
structure Format (β η : Type) where
  width : ℕ
  encode : η → List β
  decode : List β → η
  /-- The length of the body. -/
  size : η → ℕ
  /-- The head that ends a string. -/
  last : η → Bool
  /-- Heads that can be written. -/
  ok : η → Prop
  encode_length : ∀ h, (encode h).length = width
  decode_encode : ∀ h bs, ok h → decode (encode h ++ bs) = h

variable {β η : Type} (F : Format β η)

/-- A record as it is written. -/
def record (r : η × List β) : List β := F.encode r.1 ++ r.2

def stream (rs : List (η × List β)) : List β := rs.flatMap (record F)

/-- The records up to the end of the string. -/
def read : ℕ → List β → List (η × List β)
  | 0, _ => []
  | n + 1, bs =>
      if bs.length < F.width then []
      else if F.last (F.decode bs) then []
      else (F.decode bs, (bs.drop F.width).take (F.size (F.decode bs))) ::
        read n (bs.drop (F.width + F.size (F.decode bs)))

/-- A record that can be written, and is not taken for the end. -/
structure Fits (r : η × List β) : Prop where
  ok : F.ok r.1
  size : F.size r.1 = r.2.length
  notLast : F.last r.1 = false

variable {F} {r : η × List β} {rs : List (η × List β)} {bs : List β} {n m i : ℕ}

theorem record_length : (record F r).length = F.width + r.2.length := by
  unfold record
  rw [List.length_append, F.encode_length]

theorem stream_cons : stream F (r :: rs) = record F r ++ stream F rs := rfl

theorem stream_append (rs rs' : List (η × List β)) : stream F (rs ++ rs') = stream F rs ++ stream F rs' :=
  List.flatMap_append

theorem read_record (h : Fits F r) : read F (n + 1) (record F r ++ bs) = r :: read F n bs := by
  have hdecode : F.decode (record F r ++ bs) = r.1 := by
    unfold record
    rw [List.append_assoc]
    exact F.decode_encode _ _ h.ok
  have hbody : (record F r ++ bs).drop F.width = r.2 ++ bs := by
    unfold record
    rw [List.append_assoc, ← F.encode_length r.1, List.drop_left]
  have hrest : (record F r ++ bs).drop (F.width + F.size r.1) = bs := by
    rw [h.size, ← @record_length _ _ F r, List.drop_left]
  have hroom : ¬(record F r ++ bs).length < F.width := by
    rw [List.length_append, record_length]
    omega
  rw [read, if_neg hroom, hdecode, h.notLast, if_neg Bool.false_ne_true, hbody, hrest, h.size, List.take_left]

/-- The records are read back. -/
theorem read_stream {e : η} (hall : ∀ r ∈ rs, Fits F r) (he : F.ok e) (hlast : F.last e = true) (hn : rs.length < n) :
    read F n (stream F rs ++ (F.encode e ++ bs)) = rs := by
  induction rs generalizing n with
  | nil =>
      obtain ⟨n, rfl⟩ := Nat.exists_eq_add_of_lt hn
      have hroom : ¬(F.encode e ++ bs).length < F.width := by
        rw [List.length_append, F.encode_length]
        omega
      show read F (_ + 1) (F.encode e ++ bs) = []
      rw [read, if_neg hroom, F.decode_encode e bs he, hlast, if_pos rfl]
  | cons r rs ih =>
      obtain ⟨k, rfl⟩ : ∃ k, n = k + 1 := ⟨n - 1, by have := hn; omega⟩
      rw [stream_cons, List.append_assoc, read_record (hall r (List.mem_cons_self ..)),
        ih (fun r' h => hall r' (List.mem_cons_of_mem _ h)) (Nat.lt_of_succ_lt_succ hn)]

/-! ## Records of one length -/

theorem stream_length (hall : ∀ r ∈ rs, r.2.length = m) : (stream F rs).length = rs.length * (F.width + m) := by
  induction rs with
  | nil =>
      rw [List.length_nil, Nat.zero_mul]
      rfl
  | cons r rs ih =>
      rw [stream_cons, List.length_append, record_length, hall r (List.mem_cons_self ..),
        ih (fun r' h => hall r' (List.mem_cons_of_mem _ h)), List.length_cons, Nat.succ_mul, Nat.add_comm]

theorem stream_body (hall : ∀ r ∈ rs, r.2.length = m) (hr : rs[i]? = some r) :
    ((stream F rs).drop (i * (F.width + m) + F.width)).take m = r.2 := by
  induction rs generalizing i with
  | nil => exact absurd hr nofun
  | cons r' rs ih =>
      have hlen : r'.2.length = m := hall r' (List.mem_cons_self ..)
      rw [stream_cons]
      cases i with
      | zero =>
          obtain rfl : r' = r := by
            rw [List.getElem?_cons_zero] at hr
            exact Option.some.inj hr
          rw [Nat.zero_mul, Nat.zero_add]
          unfold record
          rw [List.append_assoc, ← F.encode_length r'.1, List.drop_left, ← hlen, List.take_left]
      | succ i =>
          rw [List.getElem?_cons_succ] at hr
          have hoffset : (i + 1) * (F.width + m) + F.width = (record F r').length + (i * (F.width + m) + F.width) := by
            rw [record_length, hlen, Nat.succ_mul]
            omega
          rw [hoffset, List.drop_append, List.drop_eq_nil_of_le (by omega), List.nil_append, Nat.add_sub_cancel_left]
          exact ih (fun r h => hall r (List.mem_cons_of_mem _ h)) hr

end Tagged
