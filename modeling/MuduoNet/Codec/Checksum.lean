import MuduoNet.Codec.RoundTrip

/-!
# One altered byte

The low half of `adler32` is one plus the sum of the bytes, modulo 65521. Another value for one
byte moves that sum by less than 256, so the checksum is another one; and the four bytes of a
checksum are read as that checksum only. `parse` looks at the checksum before anything else.
-/
namespace MuduoNet.ProtobufCodec

open Lib Lib.Outcome Lib.Words

/-- The sum of the bytes as numbers. -/
def byteSum (bytes : List UInt8) : Nat := (bytes.map UInt8.toNat).sum

@[simp] theorem byteSum_cons (x : UInt8) (bytes : List UInt8) :
    byteSum (x :: bytes) = x.toNat + byteSum bytes := rfl

theorem byteSum_set {bytes : List UInt8} {i : Nat} (hi : i < bytes.length) (x : UInt8) :
    byteSum (bytes.set i x) + bytes[i].toNat = byteSum bytes + x.toNat := by
  induction bytes generalizing i with
  | nil => cases hi
  | cons y bytes ih =>
    cases i with
    | zero =>
      simp only [List.set_cons_zero, byteSum_cons, List.getElem_cons_zero]
      omega
    | succ i =>
      have h := ih (Nat.lt_of_succ_lt_succ hi)
      simp only [List.set_cons_succ, byteSum_cons, List.getElem_cons_succ]
      omega

/-- The two sums of `adler32` after one more byte. -/
def adlerStep (sums : Nat × Nat) (x : UInt8) : Nat × Nat :=
  ((sums.1 + x.toNat) % 65521, (sums.2 + sums.1 + x.toNat) % 65521)

theorem adler32_eq (bytes : List UInt8) : adler32 bytes =
    (bytes.foldl adlerStep (1, 0)).2 * 65536 + (bytes.foldl adlerStep (1, 0)).1 := rfl

/-- Both sums stay below the modulus; the first one is that of the bytes. -/
theorem foldl_adlerStep (bytes : List UInt8) {a b : Nat} (ha : a < 65521) (hb : b < 65521) :
    (bytes.foldl adlerStep (a, b)).1 = (a + byteSum bytes) % 65521 ∧
      (bytes.foldl adlerStep (a, b)).2 < 65521 := by
  induction bytes generalizing a b with
  | nil => exact ⟨(Nat.mod_eq_of_lt ha).symm, hb⟩
  | cons x bytes ih =>
    obtain ⟨hlow, hhigh⟩ := ih (Nat.mod_lt (a + x.toNat) (by decide))
      (Nat.mod_lt (b + a + x.toNat) (by decide))
    refine ⟨?_, hhigh⟩
    rw [byteSum_cons, ← Nat.add_assoc, ← Nat.mod_add_mod]
    exact hlow

theorem adler32_low (bytes : List UInt8) : adler32 bytes % 65536 = (1 + byteSum bytes) % 65521 := by
  obtain ⟨hlow, _⟩ := foldl_adlerStep bytes (a := 1) (b := 0) (by decide) (by decide)
  rw [adler32_eq]
  omega

theorem adler32_lt (bytes : List UInt8) : adler32 bytes < 2 ^ 32 := by
  obtain ⟨hlow, hhigh⟩ := foldl_adlerStep bytes (a := 1) (b := 0) (by decide) (by decide)
  rw [adler32_eq]
  omega

/-- Another value for one byte gives another checksum. -/
theorem adler32_set_ne {bytes : List UInt8} {i : Nat} (hi : i < bytes.length) {x : UInt8}
    (hx : x ≠ bytes[i]) : adler32 (bytes.set i x) ≠ adler32 bytes := by
  intro h
  have hsum := byteSum_set hi x
  have hlow := adler32_low (bytes.set i x)
  rw [h, adler32_low] at hlow
  have hxlt := x.toNat_lt
  have hylt := bytes[i].toNat_lt
  have hne : x.toNat ≠ bytes[i].toNat := fun e => hx (UInt8.toNat_inj.mp e)
  omega

/-- A body whose last four bytes are not its checksum. -/
theorem parse_checkSumError (P : Protobuf) {summed check : List UInt8} (hcheck : check.length = 4)
    (hmax : (summed ++ check).length ≤ kMaxMessageLen)
    (hne : Buffer.int32Of check ≠ signed 32 (adler32 summed)) :
    parse P (summed ++ check) (summed ++ check).length = .ok (.kCheckSumError, none) := by
  have hlen : (summed ++ check).length = summed.length + 4 := by rw [List.length_append, hcheck]
  have hend : ((summed ++ check).length : Int) - kHeaderLen = (summed.length : Nat) := by
    rw [hlen]
    unfold kHeaderLen
    omega
  have hread : asInt32 (summed ++ check) (summed.length : Nat) = .ok (Buffer.int32Of check) := by
    rw [asInt32_eq (Nat.le_of_eq hlen.symm), ← hlen, List.take_length, List.drop_left]
  have hfront : slice (summed ++ check) 0 (summed.length : Nat) = .ok summed := by
    have h : slice (summed ++ check) (0 : Nat) (summed.length : Nat) =
        .ok (((summed ++ check).take summed.length).drop 0) :=
      slice_eq (Nat.zero_le _) (by omega)
    rwa [List.take_left, List.drop_zero] at h
  have hsmall : int32 (summed.length : Nat) = .ok ((summed.length : Nat) : Int) := by
    unfold kMaxMessageLen at hmax
    exact int32_eq ⟨by omega, by omega⟩
  unfold parse
  rw [hend, hread, ok_bind, hsmall, ok_bind, hfront, ok_bind]
  dsimp only
  rw [if_neg hne]
  rfl

variable {P : Protobuf} {m : P.Message}

/-- Every check of the encoder has passed. -/
theorem fillEmptyBuffer_checks {b₀ b : Buffer} (h : fillEmptyBuffer P b₀ m = .ok b) :
    b₀.readableBytes = 0 ∧ P.IsInitialized m = true ∧
      P.ByteSizeLong m = (P.SerializeWithCachedSizesToArray m).length := by
  unfold fillEmptyBuffer at h
  obtain ⟨_, hempty, h⟩ := bind_eq_ok h
  obtain ⟨b₁, _, h⟩ := bind_eq_ok h
  obtain ⟨b₂, _, h⟩ := bind_eq_ok h
  obtain ⟨_, hinit, h⟩ := bind_eq_ok h
  obtain ⟨⟨size, b₃⟩, hser, _⟩ := bind_eq_ok h
  refine ⟨demand_eq_ok hempty, demand_eq_ok hinit, ?_⟩
  unfold serialize ToIntSize at hser
  obtain ⟨s, hs, hser⟩ := bind_eq_ok hser
  obtain ⟨_, _, hs⟩ := bind_eq_ok hs
  cases hs
  obtain ⟨b₄, _, hser⟩ := bind_eq_ok hser
  obtain ⟨_, hsize, _⟩ := bind_eq_ok hser
  exact_mod_cast (demand_eq_ok hsize).symm

/-- A body of an allowed length that was written is the one of the message. -/
theorem fillEmptyBuffer_body {b₀ b : Buffer} (hwf : b₀.Wf) (h : fillEmptyBuffer P b₀ m = .ok b)
    (hmax : (body P m).length ≤ kMaxMessageLen) : b.readable.drop kHeaderLen = body P m := by
  obtain ⟨hempty, hinit, hsize⟩ := fillEmptyBuffer_checks h
  have hbody := length_body P m
  unfold kMaxMessageLen at hmax
  obtain ⟨b', hok, _, hread⟩ :=
    fillEmptyBuffer_eq ⟨by omega, by omega, hinit, hsize⟩ hwf hempty
  cases h.symm.trans hok
  rw [hread, drop_frame]

/-- Whatever byte of the body has another value, in the part that is summed or in the checksum
itself, the body is refused before anything is made of it. -/
theorem parse_corrupted {c : Buffer.Client} (hc : Reachable Buffer.honest Buffer.start c)
    {b : Buffer} (h : fillEmptyBuffer P c.buf m = .ok b)
    (hmax : (body P m).length ≤ kMaxMessageLen) :
    b.readable.drop kHeaderLen = body P m ∧
      ∀ (i : Nat) (hi : i < (body P m).length) (x : UInt8), x ≠ (body P m)[i] →
        parse P ((body P m).set i x) (body P m).length = .ok (.kCheckSumError, none) := by
  refine ⟨fillEmptyBuffer_body (Buffer.honest_wf hc) h hmax, ?_⟩
  intro i hi x hx
  have hlen : ((body P m).set i x).length = (body P m).length := List.length_set
  rw [← hlen] at hmax ⊢
  by_cases hfront : i < (summed P m).length
  · have hset : (body P m).set i x = (summed P m).set i x ++
        Buffer.int32Bytes (signed 32 (adler32 (summed P m))) := List.set_append_left i x hfront
    have hold : (body P m)[i] = (summed P m)[i] := List.getElem_append_left hfront
    rw [hold] at hx
    rw [hset] at hmax ⊢
    apply parse_checkSumError P (Buffer.length_int32Bytes _) hmax
    rw [Buffer.int32Of_int32Bytes]
    intro heq
    exact adler32_set_ne hfront hx ((signed_inj (adler32_lt _) (adler32_lt _)).mp heq).symm
  · have hback : (summed P m).length ≤ i := Nat.le_of_not_lt hfront
    let check := Buffer.int32Bytes (signed 32 (adler32 (summed P m)))
    have hset : (body P m).set i x = summed P m ++ check.set (i - (summed P m).length) x :=
      List.set_append_right i x hback
    have hlast : i - (summed P m).length < check.length := by
      have hcount : (body P m).length = (summed P m).length + check.length := List.length_append
      omega
    have hold : (body P m)[i] = check[i - (summed P m).length] := List.getElem_append_right hback
    rw [hold] at hx
    rw [hset] at hmax ⊢
    have hfour : (check.set (i - (summed P m).length) x).length = 4 := by
      rw [List.length_set, Buffer.length_int32Bytes]
    apply parse_checkSumError P hfour hmax
    intro heq
    rw [← Buffer.int32Of_int32Bytes, Buffer.int32Of_inj hfour (Buffer.length_int32Bytes _)] at heq
    have hget := List.getElem_set_self (a := x) (hlast.trans_eq List.length_set.symm)
    simp only [heq] at hget
    exact hx hget.symm

/-- The first byte of the checksum of an `Empty` message, in a buffer of its own. -/
theorem parse_corrupted_empty :
    let id : emptyMessages.Message := some (42 : Fin 128)
    ∃ b, fillEmptyBuffer emptyMessages Buffer.start.buf id = .ok b ∧
      parse emptyMessages ((b.readable.drop kHeaderLen).set 18 0) 22 = .ok (.kCheckSumError, none) := by
  intro id
  have hwrite : Writable emptyMessages id := by
    refine ⟨?_, ?_, rfl, rfl⟩
    · decide
    · decide
  obtain ⟨b, hok, _⟩ := fillEmptyBuffer_eq hwrite Buffer.wf_new (by decide +kernel)
  have hlen : (body emptyMessages id).length = 22 := by
    rw [length_body]
    rfl
  obtain ⟨hbody, hcorrupt⟩ := parse_corrupted .refl hok (by rw [hlen]; decide)
  refine ⟨b, hok, ?_⟩
  have hold : (body emptyMessages id)[18]? ≠ some 0 := by decide +kernel
  have hlast : 18 < (body emptyMessages id).length := by omega
  have h := hcorrupt 18 hlast 0 fun e => hold (List.getElem?_eq_some_iff.mpr ⟨hlast, e.symm⟩)
  rw [hlen] at h
  rw [hbody]
  exact h

end MuduoNet.ProtobufCodec
