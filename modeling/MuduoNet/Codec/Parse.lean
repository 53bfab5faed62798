import MuduoNet.Codec.Basic
import MuduoNet.Buffer.Spec
import MuduoNet.Lib.Framing

/-!
# What `parse` and one round of `onMessage` make of the bytes

Within the bounds that `onMessage` checks, `parse` reads only the body and overflows nowhere;
`parsed` is its result. `head` is what a round makes of the readable bytes: bytes that arrive
later change it only while it asks for more.
-/
namespace MuduoNet.ProtobufCodec

open Lib Lib.Outcome Lib.Words

variable (P : Protobuf)

/-- The result of `parse` on a body that holds at least `nameLen`, two bytes and the checksum. -/
def parsed (body : List UInt8) : ErrorCode × Option P.Message :=
  let nameLen := Buffer.int32Of (body.take 4)
  if Buffer.int32Of (body.drop (body.length - 4)) ≠
      signed 32 (adler32 (body.take (body.length - 4))) then
    (.kCheckSumError, none)
  else if ¬ (2 ≤ nameLen ∧ nameLen ≤ (body.length : Int) - 8) then
    (.kInvalidNameLen, none)
  else match createMessage P ((body.take (3 + nameLen.toNat)).drop 4) with
    | none => (.kUnknownMessageType, none)
    | some message =>
      let r := P.ParseFromArray message ((body.take (body.length - 4)).drop (4 + nameLen.toNat))
      (if r.1 then .kNoError else .kParseError, some r.2)

theorem slice_eq {bytes : List UInt8} {i j : Nat} (hij : i ≤ j) (hj : j ≤ bytes.length) :
    slice bytes i j = .ok ((bytes.take j).drop i) := by
  unfold slice
  rw [demand_true ⟨by omega, by omega, by omega⟩]
  rfl

theorem int32_eq {x : Int} (h : -2 ^ 31 ≤ x ∧ x < 2 ^ 31) : int32 x = .ok x := by
  unfold int32
  rw [demand_true h]
  rfl

theorem asInt32_eq {bytes : List UInt8} {i : Nat} (h : i + 4 ≤ bytes.length) :
    asInt32 bytes i = .ok (Buffer.int32Of ((bytes.take (i + 4)).drop i)) := by
  unfold asInt32
  rw [show (i : Int) + 4 = (i + 4 : Nat) by omega, slice_eq (Nat.le_add_right i 4) h]
  rfl

/-- The body up to the checksum, read as `parse` does for `adler32`. -/
theorem slice_summed {body : List UInt8} (hmin : kMinMessageLen ≤ body.length) :
    slice body 0 ((body.length : Int) - kHeaderLen) = .ok (body.take (body.length - 4)) := by
  unfold kMinMessageLen kHeaderLen at hmin
  unfold kHeaderLen
  rw [show (0 : Int) = (0 : Nat) by rfl,
    show (body.length : Int) - (4 : Nat) = (body.length - 4 : Nat) by omega,
    slice_eq (Nat.zero_le _) (by omega), List.drop_zero]

/-- The two pieces of a body whose `nameLen` is `k`. -/
theorem slice_typeName {body : List UInt8} {k : Nat} (hk : 2 ≤ k) (hroom : k + 8 ≤ body.length) :
    slice body kHeaderLen (kHeaderLen + (k : Int) - 1) = .ok ((body.take (3 + k)).drop 4) := by
  unfold kHeaderLen
  rw [show ((4 : Nat) : Int) + (k : Int) - 1 = (3 + k : Nat) by omega]
  exact slice_eq (by omega) (by omega)

theorem slice_data {body : List UInt8} {k : Nat} (hroom : k + 8 ≤ body.length) :
    slice body (kHeaderLen + (k : Int))
      (kHeaderLen + (k : Int) + ((body.length : Int) - 2 * kHeaderLen - k)) =
      .ok ((body.take (body.length - 4)).drop (4 + k)) := by
  unfold kHeaderLen
  rw [show ((4 : Nat) : Int) + (k : Int) = (4 + k : Nat) by omega,
    show ((4 + k : Nat) : Int) + ((body.length : Int) - 2 * (4 : Nat) - k) =
      (body.length - 4 : Nat) by omega]
  exact slice_eq (by omega) (by omega)

/-- No read of `parse` leaves the body, and no computation the range of `int32_t`, if `len`
is an `int`. -/
theorem parse_eq_of_int {body : List UInt8} (hmin : kMinMessageLen ≤ body.length)
    (hmax : body.length < 2 ^ 31) : parse P body body.length = .ok (parsed P body) := by
  have hsmall : ∀ x : Int, -8 ≤ x → x ≤ body.length → int32 x = .ok x := by
    intro x hlo hhi
    exact int32_eq ⟨by omega, by omega⟩
  have hten : 10 ≤ body.length := hmin
  have hheader : (kHeaderLen : Int) = 4 := rfl
  have hcheck : asInt32 body ((body.length : Int) - kHeaderLen) =
      .ok (Buffer.int32Of (body.drop (body.length - 4))) := by
    have h := asInt32_eq (show body.length - 4 + 4 ≤ body.length by omega)
    rw [show body.length - 4 + 4 = body.length by omega, List.take_length] at h
    rw [← h, hheader]
    congr 1
    omega
  have hname : asInt32 body 0 = .ok (Buffer.int32Of (body.take 4)) := by
    have h := asInt32_eq (show 0 + 4 ≤ body.length by omega)
    rw [List.drop_zero] at h
    exact h
  unfold parse parsed
  rw [hcheck, ok_bind, hsmall _ (by omega) (by omega), ok_bind, slice_summed hmin, ok_bind, hname,
    ok_bind, hsmall _ (by omega) (by omega), ok_bind]
  generalize Buffer.int32Of (body.take 4) = nameLen
  by_cases hsum : Buffer.int32Of (body.drop (body.length - 4)) =
      signed 32 (adler32 (body.take (body.length - 4)))
  · rw [if_pos hsum, if_neg (not_not.mpr hsum)]
    have hroom : (body.length : Int) - 2 * kHeaderLen = (body.length : Int) - 8 := by omega
    by_cases hlen : 2 ≤ nameLen ∧ nameLen ≤ (body.length : Int) - 8
    · rw [hroom, if_pos hlen, if_neg (not_not.mpr hlen), ← hroom]
      obtain ⟨k, rfl⟩ := Int.eq_ofNat_of_zero_le (show 0 ≤ nameLen by omega)
      rw [slice_typeName (by omega) (by omega)]
      simp only [ok_bind, Int.toNat_natCast]
      cases createMessage P ((body.take (3 + k)).drop 4) with
      | none => rfl
      | some message =>
        simp only
        rw [hsmall _ (by omega) (by omega)]
        simp only [ok_bind, slice_data (show k + 8 ≤ body.length by omega)]
        rfl
    · rw [hroom, if_neg hlen, if_pos hlen]
      rfl
  · rw [if_neg hsum, if_pos hsum]
    rfl

theorem parse_eq {body : List UInt8} (hmin : kMinMessageLen ≤ body.length)
    (hmax : body.length ≤ kMaxMessageLen) : parse P body body.length = .ok (parsed P body) :=
  parse_eq_of_int P hmin (Nat.lt_of_le_of_lt hmax (by decide))

/-- What a round of `onMessage` makes of the readable bytes. -/
def head (bs : List UInt8) : Verdict P.Message ErrorCode :=
  let len := Buffer.int32Of (bs.take 4)
  if bs.length < kMinMessageLen + kHeaderLen then .more
  else if kMaxMessageLen < len ∨ len < kMinMessageLen then .reject .kInvalidLength
  else if bs.length < kHeaderLen + len.toNat then .more
  else match parsed P ((bs.drop kHeaderLen).take len.toNat) with
    | (.kNoError, some m) => .frame m (kHeaderLen + len.toNat)
    | (errorcode, _) => .reject errorcode

theorem head_frame {bs : List UInt8} {m : P.Message} {n : Nat} (h : head P bs = .frame m n) :
    ∃ len : Nat, n = kHeaderLen + len ∧ n ≤ bs.length ∧ Buffer.int32Of (bs.take 4) = len ∧
      kMinMessageLen ≤ len ∧ len ≤ kMaxMessageLen ∧
      parsed P ((bs.drop kHeaderLen).take len) = (.kNoError, some m) := by
  unfold head at h
  dsimp only at h
  split at h
  · cases h
  · split at h
    · cases h
    · rename_i hrange
      rw [not_or] at hrange
      obtain ⟨len, hlen⟩ := Int.eq_ofNat_of_zero_le
        (show 0 ≤ Buffer.int32Of (bs.take 4) by omega)
      rw [hlen, Int.toNat_natCast] at h
      split at h
      · cases h
      · split at h
        · rename_i hparsed
          cases h
          exact ⟨len, rfl, by omega, hlen, by omega, by omega, hparsed⟩
        · cases h

/-- Bytes that arrive later change the verdict only if it asked for more. -/
theorem head_append {bs : List UInt8} (ys : List UInt8) (h : head P bs ≠ .more) :
    head P (bs ++ ys) = head P bs := by
  have hmin : kMinMessageLen + kHeaderLen ≤ bs.length := by
    apply Nat.le_of_not_lt
    intro hlt
    exact h (by unfold head; rw [if_pos hlt])
  have hfour : 4 ≤ bs.length := Nat.le_trans (by decide) hmin
  have htake : (bs ++ ys).take 4 = bs.take 4 := List.take_append_of_le_length hfour
  have hlong : ¬ (bs ++ ys).length < kMinMessageLen + kHeaderLen := by
    rw [List.length_append]
    omega
  unfold head at h ⊢
  dsimp only at h ⊢
  rw [htake, if_neg hlong]
  rw [if_neg (Nat.not_lt.mpr hmin)] at h ⊢
  by_cases hrange : kMaxMessageLen < Buffer.int32Of (bs.take 4) ∨
      Buffer.int32Of (bs.take 4) < kMinMessageLen
  · rw [if_pos hrange, if_pos hrange]
  · rw [if_neg hrange] at h ⊢
    rw [if_neg hrange]
    by_cases hpart : bs.length < kHeaderLen + (Buffer.int32Of (bs.take 4)).toNat
    · rw [if_pos hpart] at h
      exact absurd rfl h
    · have hpart' : ¬ (bs ++ ys).length < kHeaderLen + (Buffer.int32Of (bs.take 4)).toNat := by
        rw [List.length_append]
        omega
      rw [if_neg hpart, if_neg hpart', List.drop_append_of_le_length (by omega),
        List.take_append_of_le_length (by rw [List.length_drop]; omega)]

/-- The verdict on a frame is decided by the frame alone. -/
theorem head_take {bs : List UInt8} {m : P.Message} {n : Nat} (h : head P bs = .frame m n) :
    head P (bs.take n) = .frame m n := by
  obtain ⟨len, rfl, hle, hlen, hmin, hmax, hparsed⟩ := head_frame P h
  have htake : (bs.take (kHeaderLen + len)).take 4 = bs.take 4 := by
    have hfour : 4 ≤ kHeaderLen + len := Nat.le_add_right 4 len
    rw [List.take_take, Nat.min_eq_left hfour]
  have hbody : ((bs.take (kHeaderLen + len)).drop kHeaderLen).take len =
      (bs.drop kHeaderLen).take len := by
    rw [List.drop_take, Nat.add_sub_cancel_left, List.take_take, Nat.min_self]
  have hlength : (bs.take (kHeaderLen + len)).length = kHeaderLen + len := by
    rw [List.length_take, Nat.min_eq_left hle]
  unfold head
  dsimp only
  rw [htake, hlen, hlength, Int.toNat_natCast, if_neg (by omega), if_neg (by omega),
    if_neg (Nat.lt_irrefl _), hbody, hparsed]

/-- The codec as an incremental decoder. -/
def framing : Framing UInt8 P.Message ErrorCode where
  head := head P
  frame_bounds h := by
    obtain ⟨len, rfl, hle, _⟩ := head_frame P h
    exact ⟨Nat.add_pos_left (by decide) len, hle⟩
  frame_take h := head_take P h
  frame_append ys h := by
    rw [head_append P ys (by rw [h]; intro hmore; cases hmore), h]
  reject_append ys h := by
    rw [head_append P ys (by rw [h]; intro hmore; cases hmore), h]

/-- One round of `onMessage` acts on the verdict. -/
theorem onMessageLoop_succ {buf : Buffer} (hwf : buf.Wf) (budget : Nat) :
    onMessageLoop P (budget + 1) buf =
      match head P buf.readable with
      | .more => .ok ([], buf)
      | .reject errorcode => .ok ([.errorCallback errorcode], buf)
      | .frame m n => do
        let buf ← buf.retrieve n
        let (events, buf) ← onMessageLoop P budget buf
        return (.messageCallback m :: events, buf) := by
  have hlen := Buffer.length_readable hwf
  rw [onMessageLoop, head]
  dsimp only
  rw [← hlen]
  by_cases hmin : kMinMessageLen + kHeaderLen ≤ buf.readable.length
  · rw [if_pos hmin, if_neg (Nat.not_lt.mpr hmin)]
    have hfour : 4 ≤ buf.readableBytes := by
      rw [← hlen]
      exact Nat.le_trans (by decide) hmin
    have hpeek : buf.peekInt32 = .ok (Buffer.int32Of (buf.readable.take 4)) := by
      unfold Buffer.peekInt32
      rw [MuduoNet.assert, demand_true hfour]
      rfl
    rw [hpeek, ok_bind]
    generalize Buffer.int32Of (buf.readable.take 4) = len
    by_cases hrange : (kMaxMessageLen : Int) < len ∨ len < kMinMessageLen
    · rw [if_pos hrange, if_pos hrange]
      rfl
    · rw [if_neg hrange, if_neg hrange]
      rw [not_or] at hrange
      obtain ⟨k, rfl⟩ := Int.eq_ofNat_of_zero_le (show 0 ≤ len by omega)
      have hk : kHeaderLen + k < 2 ^ 31 := by
        obtain ⟨hmax, _⟩ := hrange
        unfold kMaxMessageLen at hmax
        unfold kHeaderLen
        omega
      rw [int32_eq (by omega), ok_bind, Int.toNat_natCast]
      rw [show (kHeaderLen : Int) + (k : Int) = (kHeaderLen + k : Nat) by omega,
        unsigned_natCast (show kHeaderLen + k < 2 ^ 64 by omega)]
      by_cases hpart : kHeaderLen + k ≤ buf.readable.length
      · rw [if_pos hpart, if_neg (Nat.not_lt.mpr hpart)]
        have hbody : ((buf.readable.drop kHeaderLen).take k).length = k := by
          rw [List.length_take, List.length_drop]
          omega
        have hlo : kMinMessageLen ≤ ((buf.readable.drop kHeaderLen).take k).length := by
          rw [hbody]
          omega
        have hhi : ((buf.readable.drop kHeaderLen).take k).length ≤ kMaxMessageLen := by
          rw [hbody]
          omega
        have hparse := parse_eq P hlo hhi
        rw [hbody] at hparse
        rw [hparse, ok_bind]
        rcases parsed P ((buf.readable.drop kHeaderLen).take k) with ⟨_ | _, _ | m⟩ <;> rfl
      · rw [if_neg hpart, if_pos (Nat.lt_of_not_le hpart)]
        rfl
  · rw [if_neg hmin, if_pos (Nat.lt_of_not_le hmin)]

end MuduoNet.ProtobufCodec
