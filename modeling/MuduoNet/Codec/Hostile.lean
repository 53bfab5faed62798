import MuduoNet.Codec.RoundTrip

/-!
# Whatever the bytes say

The header and `nameLen` are taken from the peer. `onMessage` bounds the one before it calls
`parse`, which bounds the other against the length of the body; then every read lies in the
body, the payload ends where the checksum begins, and a round takes off a whole frame or
nothing.
-/
namespace MuduoNet.ProtobufCodec

open Lib Lib.Outcome Lib.Words

/-- `nameLen` as `parse` reads it, of a body where it is in range. -/
def nameLen (bytes : List UInt8) : Nat := (Buffer.int32Of (bytes.take 4)).toNat

/-- The bytes that `ParseFromArray` is given. -/
def payload (bytes : List UInt8) : List UInt8 :=
  (bytes.take (bytes.length - 4)).drop (4 + nameLen bytes)

/-- What `parse` has checked of a body when it calls `ParseFromArray`, which returns `r`. -/
structure Passed (P : Protobuf) (bytes : List UInt8) (r : Bool × P.Message) : Prop where
  lo : 2 ≤ nameLen bytes
  hi : nameLen bytes + 8 ≤ bytes.length
  named : Buffer.int32Of (bytes.take 4) = nameLen bytes
  sum : Buffer.int32Of (bytes.drop (bytes.length - 4)) =
    signed 32 (adler32 (bytes.take (bytes.length - 4)))
  parses : ∃ m₀, createMessage P ((bytes.take (3 + nameLen bytes)).drop 4) = some m₀ ∧
    P.ParseFromArray m₀ (payload bytes) = r

/-- The error code that says how `ParseFromArray` ended. -/
def outcomeOf (ok : Bool) : ErrorCode := if ok then .kNoError else .kParseError

variable {P : Protobuf} {bytes : List UInt8} {m : P.Message} {code : ErrorCode}

/-- The payload stands between the name and the checksum. -/
theorem Passed.payload_end {r : Bool × P.Message} (h : Passed P bytes r) :
    (payload bytes).length = bytes.length - 8 - nameLen bytes ∧
      bytes.drop (4 + nameLen bytes) = payload bytes ++ bytes.drop (bytes.length - 4) := by
  have hhi := h.hi
  constructor
  · rw [payload, List.length_drop, List.length_take]
    omega
  · have hsplit := congrArg (List.drop (4 + nameLen bytes))
      (List.take_append_drop (bytes.length - 4) bytes).symm
    rwa [List.drop_append_of_le_length (by
      rw [List.length_take]
      omega)] at hsplit

theorem toNat_range {x : Int} {n : Nat} (h : 2 ≤ x ∧ x ≤ (n : Int) - 8) :
    2 ≤ x.toNat ∧ x.toNat + 8 ≤ n ∧ x = x.toNat := by
  omega

/-- A message is returned only after every check. -/
theorem parsed_passed (h : parsed P bytes = (code, some m)) :
    ∃ ok, code = outcomeOf ok ∧ Passed P bytes (ok, m) := by
  unfold parsed at h
  dsimp only at h
  split at h
  · cases h
  · rename_i hsum
    split at h
    · cases h
    · rename_i hrange
      obtain ⟨hlo, hhi, hnamed⟩ := toNat_range (not_not.mp hrange)
      split at h
      · cases h
      · rename_i m₀ hcreate
        obtain ⟨hcode, hmessage⟩ := Prod.mk.inj h
        exact ⟨(P.ParseFromArray m₀ (payload bytes)).1, hcode.symm, hlo, hhi, hnamed,
          not_not.mp hsum, m₀, hcreate, Prod.ext rfl (Option.some.inj hmessage)⟩

theorem outcomeOf_cases (ok : Bool) : outcomeOf ok = .kNoError ∨ outcomeOf ok = .kParseError := by
  cases ok with
  | false => exact .inr rfl
  | true => exact .inl rfl

/-- The other error codes come without a message. -/
theorem parsed_none (h : parsed P bytes = (code, none)) :
    ¬ (code = .kNoError ∨ code = .kParseError) := by
  unfold parsed at h
  dsimp only at h
  split at h
  · cases h
    decide
  · split at h
    · cases h
      decide
    · split at h
      · cases h
        decide
      · cases (Prod.mk.inj h).2

theorem parsed_isSome {message : Option P.Message} (h : parsed P bytes = (code, message)) :
    message.isSome ↔ code = .kNoError ∨ code = .kParseError := by
  cases message with
  | none => exact iff_of_false Bool.noConfusion (parsed_none h)
  | some m =>
    obtain ⟨ok, rfl, _⟩ := parsed_passed h
    exact iff_of_true rfl (outcomeOf_cases ok)

/-- The tests of `onMessage` that come before it calls `parse` with `len`. -/
structure CallsParse (buf : Buffer) (len : Int) : Prop where
  enough : kMinMessageLen + kHeaderLen ≤ buf.readableBytes
  peek : buf.peekInt32 = .ok len
  range : ¬ ((kMaxMessageLen : Int) < len ∨ len < kMinMessageLen)
  whole : unsigned 64 (kHeaderLen + len) ≤ buf.readableBytes

/-- The bytes that `len` counts. -/
def bodyAt (buf : Buffer) (len : Int) : List UInt8 := (buf.readable.drop kHeaderLen).take len.toNat

variable {buf : Buffer} {len : Int}

/-- The body is as long as the header says, and so is the frame. -/
theorem CallsParse.length (hwf : buf.Wf) (h : CallsParse buf len) :
    (bodyAt buf len).length = len.toNat ∧ kHeaderLen + len.toNat ≤ buf.readable.length := by
  obtain ⟨_, _, hrange, hwhole⟩ := h
  rw [not_or] at hrange
  obtain ⟨k, rfl⟩ := Int.eq_ofNat_of_zero_le (show 0 ≤ len by omega)
  have hk : kHeaderLen + k < 2 ^ 64 := by
    unfold kMaxMessageLen at hrange
    unfold kHeaderLen
    omega
  rw [← Nat.cast_add, unsigned_natCast hk, ← Buffer.length_readable hwf] at hwhole
  rw [bodyAt, Int.toNat_natCast, List.length_take, List.length_drop]
  omega

theorem CallsParse.parse_eq (hwf : buf.Wf) (h : CallsParse buf len) :
    parse P (bodyAt buf len) len = .ok (parsed P (bodyAt buf len)) := by
  have hrange := h.range
  rw [not_or] at hrange
  obtain ⟨hlength, _⟩ := h.length hwf
  have hmin : kMinMessageLen ≤ (bodyAt buf len).length := by omega
  have hparse := ProtobufCodec.parse_eq P hmin (by omega)
  rwa [hlength, Int.toNat_of_nonneg (by omega)] at hparse

/-- What a round makes of a buffer whose first frame is there. -/
theorem CallsParse.head_eq (hwf : buf.Wf) (h : CallsParse buf len) {message : Option P.Message}
    (hparsed : parsed P (bodyAt buf len) = (code, message)) :
    (∃ m, code = .kNoError ∧ message = some m ∧
      head P buf.readable = .frame m (kHeaderLen + len.toNat)) ∨
    (code ≠ .kNoError ∧ head P buf.readable = .reject code) := by
  obtain ⟨_, hfit⟩ := h.length hwf
  have hfour : 4 ≤ buf.readable.length := Nat.le_trans (Nat.le_add_right 4 _) hfit
  have hpeek : Buffer.int32Of (buf.readable.take 4) = len :=
    ((Buffer.peekInt32_sat hwf hfour).of_ok h.peek).symm
  have henough := h.enough
  rw [← Buffer.length_readable hwf] at henough
  have hsome := parsed_isSome hparsed
  unfold head
  dsimp only
  rw [hpeek, if_neg (Nat.not_lt.mpr henough), if_neg h.range, if_neg (Nat.not_lt.mpr hfit),
    ← bodyAt, hparsed]
  cases code with
  | kNoError =>
    obtain ⟨m, rfl⟩ := Option.isSome_iff_exists.mp (hsome.mpr (.inl rfl))
    exact .inl ⟨m, rfl, rfl, rfl⟩
  | _ => exact .inr ⟨ErrorCode.noConfusion, rfl⟩

/-- Whenever `onMessage` calls `parse`, no `int32_t` computation of the two overflows and no read
leaves the body, a message is returned exactly with the two codes that speak of one, its payload
ends where the checksum begins, and the round takes the whole frame off or nothing. -/
theorem parse_hostile {c : Buffer.Client} (hc : Reachable Buffer.honest Buffer.start c)
    (h : CallsParse c.buf len) (budget : Nat) :
    int32 (kHeaderLen + len) = .ok (kHeaderLen + len) ∧
    ((bodyAt c.buf len).length : Int) = len ∧
    ∃ code message, parse P (bodyAt c.buf len) len = .ok (code, message) ∧
      (message.isSome ↔ code = .kNoError ∨ code = .kParseError) ∧
      (∀ m, message = some m → ∃ ok, code = outcomeOf ok ∧ Passed P (bodyAt c.buf len) (ok, m) ∧
        (bodyAt c.buf len).drop (4 + nameLen (bodyAt c.buf len)) =
          payload (bodyAt c.buf len) ++
            (bodyAt c.buf len).drop ((bodyAt c.buf len).length - 4)) ∧
      ((∃ m buf, code = .kNoError ∧ message = some m ∧
          c.buf.retrieve (kHeaderLen + len.toNat) = .ok buf ∧
          buf.readable = c.buf.readable.drop (kHeaderLen + len.toNat) ∧
          onMessageLoop P (budget + 1) c.buf =
            (onMessageLoop P budget buf).map fun r => (.messageCallback m :: r.1, r.2)) ∨
        (code ≠ .kNoError ∧
          onMessageLoop P (budget + 1) c.buf = .ok ([.errorCallback code], c.buf))) := by
  have hwf := Buffer.honest_wf hc
  have hrange := h.range
  rw [not_or] at hrange
  unfold kMaxMessageLen at hrange
  obtain ⟨hlength, hfit⟩ := h.length hwf
  rcases hparsed : parsed P (bodyAt c.buf len) with ⟨code, message⟩
  have hparse := h.parse_eq (P := P) hwf
  rw [hparsed] at hparse
  refine ⟨int32_eq ?_, ?_, code, message, hparse, parsed_isSome hparsed, ?_, ?_⟩
  · unfold kHeaderLen
    omega
  · omega
  · rintro m rfl
    obtain ⟨ok, hcode, hpassed⟩ := parsed_passed hparsed
    exact ⟨ok, hcode, hpassed, hpassed.payload_end.2⟩
  · rw [onMessageLoop_succ P hwf]
    obtain ⟨m, hcode, hmessage, hhead⟩ | ⟨hcode, hhead⟩ := h.head_eq hwf hparsed
    · obtain ⟨buf, hok, _, hread⟩ := (Buffer.retrieve_sat hwf hfit).returns (fun _ => id)
      refine .inl ⟨m, buf, hcode, hmessage, hok, hread, ?_⟩
      rw [hhead]
      dsimp only
      rw [hok, ok_bind]
      cases onMessageLoop P budget buf <;> rfl
    · rw [hhead]
      exact .inr ⟨hcode, rfl⟩

/-- A frame with a negative `nameLen` and the right checksum. -/
theorem parse_hostile_negative :
    let bytes : List UInt8 := [0, 0, 0, 10, 255, 255, 255, 255, 97, 0, 18, 182, 4, 94]
    ∃ c, Run Buffer.honest Buffer.start [.append ⟨bytes, by decide⟩] c ∧
      ∃ code message, parse emptyMessages (bodyAt c.buf 10) 10 = .ok (code, message) ∧
        (message.isSome ↔ code = .kNoError ∨ code = .kParseError) := by
  intro bytes
  have hex : ∃ c, Run Buffer.honest Buffer.start [.append ⟨bytes, by decide⟩] c ∧
      (kMinMessageLen + kHeaderLen ≤ c.buf.readableBytes ∧ c.buf.peekInt32 = .ok 10 ∧
        unsigned 64 (kHeaderLen + 10) ≤ c.buf.readableBytes) :=
    exists_run_of_exec _ (by decide +kernel)
  obtain ⟨c, hr, henough, hpeek, hwhole⟩ := hex
  have hcalls : CallsParse c.buf 10 := ⟨henough, hpeek, by decide, hwhole⟩
  obtain ⟨_, _, code, message, hparse, hsome, _⟩ := parse_hostile (P := emptyMessages) ⟨_, hr⟩ hcalls 0
  exact ⟨c, hr, code, message, hparse, hsome⟩

end MuduoNet.ProtobufCodec
