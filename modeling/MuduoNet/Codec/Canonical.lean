import MuduoNet.Codec.Hostile

/-!
# The byte behind the type name

`parse` checks `nameLen`, the name, the payload and the checksum, but never reads the byte
between the name and the payload, where the encoder puts a NUL. That byte is covered by the
checksum only: bodies that differ there are all accepted, and give the same message.
-/
namespace MuduoNet

open Lib Lib.Outcome Lib.Words

/-- A descriptor that is found by a name describes the type of that name. -/
def Protobuf.Named (P : Protobuf) : Prop :=
  ∀ name m₀ data, ProtobufCodec.createMessage P name = some m₀ →
    P.GetTypeName (P.ParseFromArray m₀ data).2 = name

namespace ProtobufCodec

/-- A body of these pieces, with its checksum. -/
def bodyOf (name : List UInt8) (last : UInt8) (payload : List UInt8) : List UInt8 :=
  let summed := Buffer.int32Bytes (signed 32 (name.length + 1)) ++ (name ++ [last]) ++ payload
  summed ++ Buffer.int32Bytes (signed 32 (adler32 summed))

theorem body_eq_bodyOf (P : Protobuf) (m : P.Message) :
    body P m = bodyOf (P.GetTypeName m) 0 (P.SerializeWithCachedSizesToArray m) := rfl

theorem bodyOf_inj {name payload : List UInt8} {x y : UInt8} :
    bodyOf name x payload = bodyOf name y payload ↔ x = y := by
  constructor
  · intro h
    have hsummed := List.append_inj_left' h (by simp only [Buffer.length_int32Bytes])
    have hfront := List.append_cancel_right hsummed
    have hname := List.append_cancel_left hfront
    exact List.singleton_inj.mp (List.append_cancel_left hname)
  · intro h
    rw [h]

/-- The byte that follows the name. -/
def terminator (bytes : List UInt8) : Option UInt8 := bytes[3 + nameLen bytes]?

/-- A body that `parse` accepts, whose payload is what the message is serialized to; `len` is
an `int`. -/
structure Canonical (P : Protobuf) (bytes : List UInt8) (m : P.Message) : Prop where
  length : bytes.length < 2 ^ 31
  accepted : parse P bytes bytes.length = .ok (.kNoError, some m)
  serialized : payload bytes = P.SerializeWithCachedSizesToArray m

variable {P : Protobuf} {bytes : List UInt8} {m : P.Message}

/-- A body too short for a name is not accepted. -/
theorem accepted_min (h : parse P bytes bytes.length = .ok (.kNoError, some m)) :
    kMinMessageLen ≤ bytes.length := by
  unfold parse at h
  obtain ⟨check, _, h⟩ := bind_eq_ok h
  obtain ⟨stop, _, h⟩ := bind_eq_ok h
  obtain ⟨front, _, h⟩ := bind_eq_ok h
  dsimp only at h
  split at h
  · obtain ⟨len, _, h⟩ := bind_eq_ok h
    obtain ⟨room, hroom, h⟩ := bind_eq_ok h
    obtain ⟨_, hroom⟩ := demand_bind_eq_ok hroom
    cases hroom
    split at h
    · rename_i hrange
      unfold kMinMessageLen
      omega
    · cases h
  · cases h

/-- The `int32_t` and the four bytes determine each other. -/
theorem int32Bytes_nameLen (hlen : 4 ≤ bytes.length)
    (h : Buffer.int32Of (bytes.take 4) = nameLen bytes) :
    bytes.take 4 = Buffer.int32Bytes (signed 32 (nameLen bytes)) := by
  have hfour : (bytes.take 4).length = 4 := List.length_take_of_le hlen
  have hsigned : signed 32 (nameLen bytes : Int) = nameLen bytes := by
    rw [← h, Buffer.int32Of, ← signed_unsigned, unsigned_signed, signed_unsigned]
  rw [← Buffer.int32Of_inj hfour (Buffer.length_int32Bytes _), Buffer.int32Of_int32Bytes, hsigned, h]

/-- An accepted body consists of pieces that the checks determine, and of one byte. -/
theorem Passed.eq_bodyOf {r : Bool × P.Message} (h : Passed P bytes r) :
    ∃ last, terminator bytes = some last ∧
      bytes = bodyOf ((bytes.take (3 + nameLen bytes)).drop 4) last (payload bytes) := by
  have hlo := h.lo
  have hhi := h.hi
  have hat : 3 + nameLen bytes < bytes.length := by omega
  let name := (bytes.take (3 + nameLen bytes)).drop 4
  have hname : name.length = nameLen bytes - 1 := by
    rw [List.length_drop, List.length_take_of_le (Nat.le_of_lt hat)]
    omega
  refine ⟨bytes[3 + nameLen bytes], List.getElem?_eq_getElem hat, ?_⟩
  have hhead : bytes.take 4 = Buffer.int32Bytes (signed 32 (name.length + 1)) := by
    rw [int32Bytes_nameLen (by omega) h.named, hname, ← Int.natCast_succ]
    congr 3
    omega
  have hfront : bytes.take (3 + nameLen bytes) = bytes.take 4 ++ name := by
    have hsplit := (List.take_append_drop 4 (bytes.take (3 + nameLen bytes))).symm
    rwa [List.take_take, Nat.min_eq_left (by omega)] at hsplit
  have hnamed : bytes.take (4 + nameLen bytes) =
      bytes.take 4 ++ (name ++ [bytes[3 + nameLen bytes]]) := by
    rw [show 4 + nameLen bytes = 3 + nameLen bytes + 1 by omega, List.take_add_one,
      List.getElem?_eq_getElem hat, hfront, List.append_assoc]
    rfl
  have hsummed : bytes.take (bytes.length - 4) =
      bytes.take 4 ++ (name ++ [bytes[3 + nameLen bytes]]) ++ payload bytes := by
    have hsplit := (List.take_append_drop (4 + nameLen bytes) (bytes.take (bytes.length - 4))).symm
    rwa [List.take_take, Nat.min_eq_left (by omega), hnamed] at hsplit
  have hcheck : bytes.drop (bytes.length - 4) =
      Buffer.int32Bytes (signed 32 (adler32 (bytes.take (bytes.length - 4)))) := by
    have hfour : (bytes.drop (bytes.length - 4)).length = 4 := by
      rw [List.length_drop]
      omega
    rw [← Buffer.int32Of_inj hfour (Buffer.length_int32Bytes _), Buffer.int32Of_int32Bytes, h.sum]
  have hwhole := (List.take_append_drop (bytes.length - 4) bytes).symm
  rw [hcheck, hsummed, hhead] at hwhole
  exact hwhole

theorem Canonical.passed (h : Canonical P bytes m) : Passed P bytes (true, m) := by
  have haccepted := h.accepted
  rw [parse_eq_of_int P (accepted_min haccepted) h.length] at haccepted
  obtain ⟨ok, hcode, hpassed⟩ := parsed_passed (Except.ok.inj haccepted)
  cases ok with
  | false => cases hcode
  | true => exact hpassed

/-- A canonical body is that of the message, but for the byte behind the name. -/
theorem Canonical.eq_bodyOf (hN : P.Named) (h : Canonical P bytes m) :
    ∃ last, terminator bytes = some last ∧
      bytes = bodyOf (P.GetTypeName m) last (P.SerializeWithCachedSizesToArray m) := by
  obtain ⟨last, hlast, hbytes⟩ := h.passed.eq_bodyOf
  obtain ⟨m₀, hcreate, hparse⟩ := h.passed.parses
  have hname := hN _ m₀ (payload bytes) hcreate
  rw [hparse] at hname
  rw [h.serialized, ← hname] at hbytes
  exact ⟨last, hlast, hbytes⟩

/-- Its message can be encoded again. -/
theorem Canonical.encodable (hN : P.Named) (h : Canonical P bytes m) :
    ∃ m₀, Encodable P m m₀ := by
  have hlength := h.length
  have hlo := h.passed.lo
  have hhi := h.passed.hi
  obtain ⟨m₀, hcreate, hparse⟩ := h.passed.parses
  have hname := hN _ m₀ (payload bytes) hcreate
  rw [hparse] at hname
  refine ⟨m₀, ?_, ?_, ?_, ?_⟩
  · intro hnil
    have hpos := congrArg List.length (hname.symm.trans hnil)
    rw [List.length_drop, List.length_take_of_le (by omega), List.length_nil] at hpos
    omega
  · rw [hname, hcreate]
  · rw [← h.serialized, payload, List.length_drop, List.length_take]
    omega
  · rw [← h.serialized, hparse]

/-- Encoding the message of a canonical body gives that body back exactly if a NUL follows the
name, and two canonical bodies of one message are the same exactly if that byte is. -/
theorem canonical_iff (hP : P.Lawful) (hN : P.Named) {c : Buffer.Client}
    (hc : Reachable Buffer.honest Buffer.start c) (hempty : c.buf.readableBytes = 0)
    (h : Canonical P bytes m) :
    ((∃ b, fillEmptyBuffer P c.buf m = .ok b ∧ b.readable.drop kHeaderLen = bytes) ↔
      terminator bytes = some 0) ∧
    ∀ other, Canonical P other m → (other = bytes ↔ terminator other = terminator bytes) := by
  obtain ⟨last, hlast, hbytes⟩ := h.eq_bodyOf hN
  obtain ⟨m₀, henc⟩ := h.encodable hN
  obtain ⟨b, hok, _, hread⟩ :=
    fillEmptyBuffer_eq (henc.writable hP) (Buffer.honest_wf hc) hempty
  have hbody : b.readable.drop kHeaderLen =
      bodyOf (P.GetTypeName m) 0 (P.SerializeWithCachedSizesToArray m) := by
    rw [hread, drop_frame, body_eq_bodyOf]
  have hnul : b.readable.drop kHeaderLen = bytes ↔ last = 0 := by
    rw [hbody, hbytes, bodyOf_inj]
    exact eq_comm
  rw [hlast, Option.some_inj, ← hnul]
  refine ⟨?_, ?_⟩
  · constructor
    · intro hex
      obtain ⟨b', hok', hdrop⟩ := hex
      cases hok.symm.trans hok'
      exact hdrop
    · intro hdrop
      exact ⟨b, hok, hdrop⟩
  · intro other hother
    obtain ⟨last', hlast', hbytes'⟩ := hother.eq_bodyOf hN
    rw [hlast', Option.some_inj, hbytes, hbytes', bodyOf_inj]

instance : DecidableEq emptyMessages.Message := inferInstanceAs (DecidableEq (Option (Fin 128)))

theorem emptyMessages_named : emptyMessages.Named := by
  intro name m₀ data h
  by_contra hne
  unfold createMessage at h
  rw [show emptyMessages.FindMessageTypeByName name = none from if_neg fun e => hne e.symm] at h
  cases h

/-- The body of `Empty` with id 42, with the byte `last` behind the name. -/
def emptyBody (last : UInt8) : List UInt8 :=
  bodyOf [109, 117, 100, 117, 111, 46, 69, 109, 112, 116, 121] last [8, 42]

/-- A one in place of the NUL. -/
theorem emptyBody_one :
    let id : emptyMessages.Message := some (42 : Fin 128)
    Canonical emptyMessages (emptyBody 1) id ∧ Canonical emptyMessages (emptyBody 0) id ∧
      emptyBody 1 ≠ emptyBody 0 ∧
      ∃ b, fillEmptyBuffer emptyMessages Buffer.start.buf id = .ok b ∧
        b.readable.drop kHeaderLen ≠ emptyBody 1 := by
  intro id
  have hne : emptyBody 1 ≠ emptyBody 0 := bodyOf_inj.not.mpr (by decide)
  have hwrite : Writable emptyMessages id := by
    refine ⟨?_, ?_, rfl, rfl⟩
    · decide
    · decide
  obtain ⟨b, hok, _, hread⟩ := fillEmptyBuffer_eq hwrite Buffer.wf_new (by decide +kernel)
  refine ⟨?_, ?_, hne, b, hok, ?_⟩
  · exact ⟨by decide +kernel, by decide +kernel, by decide +kernel⟩
  · exact ⟨by decide +kernel, by decide +kernel, by decide +kernel⟩
  · rw [hread, drop_frame]
    exact hne.symm

/-- Both bodies: one is encoded again, the other is not. -/
theorem canonical_iff_empty :
    let id : emptyMessages.Message := some (42 : Fin 128)
    (∃ b, fillEmptyBuffer emptyMessages Buffer.start.buf id = .ok b ∧
      b.readable.drop kHeaderLen = emptyBody 0) ∧
    ∀ other, Canonical emptyMessages other id → terminator other = some 0 → other = emptyBody 0 := by
  intro id
  have hcanonical : Canonical emptyMessages (emptyBody 0) id :=
    ⟨by decide +kernel, by decide +kernel, by decide +kernel⟩
  obtain ⟨hiff, hunique⟩ := canonical_iff emptyMessages_lawful emptyMessages_named .refl
    (show Buffer.start.buf.readableBytes = 0 by decide +kernel) hcanonical
  refine ⟨hiff.mpr (by decide +kernel), ?_⟩
  intro other hother hlast
  exact (hunique other hother).mpr (hlast.trans (by decide +kernel))

end ProtobufCodec

end MuduoNet
