import MuduoNet.Codec.Stream
import MuduoNet.Buffer.Refine

/-!
# Decoding what was encoded

`fillEmptyBuffer` writes a frame into any empty buffer, used before or not. `onMessage` takes
it back if its length is one the decoder allows, and rejects it otherwise, also when the
length no longer fits an `int32_t`.
-/
namespace MuduoNet

open Lib Lib.Outcome Lib.Words

/-- What the protobuf library documents. -/
structure Protobuf.Lawful (P : Protobuf) : Prop where
  /-- As many bytes are written as computed, of a message that has been parsed. -/
  byteSize : ∀ m₀ data m, P.ParseFromArray m₀ data = (true, m) →
    P.ByteSizeLong m = (P.SerializeWithCachedSizesToArray m).length
  /-- A full name stands in a serialized file descriptor, of less than 2 GiB. -/
  registered : ∀ name d, P.FindMessageTypeByName name = some d → name.length + 10 ≤ 2 ^ 31
  /-- Parsing fails when a required field is missing. -/
  initialized : ∀ m₀ data m, P.ParseFromArray m₀ data = (true, m) → P.IsInitialized m = true

namespace Buffer

/-- An empty buffer that `bytes` were appended to: there is room to prepend. -/
structure Filled (b : Buffer) (bytes : List UInt8) : Prop where
  wf : b.Wf
  room : kCheapPrepend ≤ b.readerIndex_
  readable_eq : b.readable = bytes

theorem filled_of_empty {b : Buffer} (hwf : b.Wf) (h : b.readableBytes = 0) : b.Filled [] := by
  have hcheap := hwf.cheap_le
  have hread := hwf.reader_le
  have hlen := length_readable hwf
  rw [readableBytes_eq hwf] at h hlen
  refine ⟨hwf, by omega, List.eq_nil_of_length_eq_zero (by omega)⟩

variable {b : Buffer} {bytes data : List UInt8}

theorem Filled.readableBytes_eq (h : b.Filled bytes) : b.readableBytes = bytes.length := by
  rw [← length_readable h.wf, h.readable_eq]

theorem Filled.ensureWritableBytes (h : b.Filled bytes) {len : Nat}
    (hsmall : bytes.length + len ≤ 2 ^ 40) :
    ∃ b', b.ensureWritableBytes len = .ok b' ∧ b'.Filled bytes ∧ len ≤ b'.writableBytes := by
  have hend : b.writerIndex_ + len < 2 ^ 64 := span_end_lt h.wf (show len ≤ maxSize by
    unfold maxSize
    omega)
  have hfit : 2 * (b.readable.length + len) + kCheapPrepend ≤ maxSize + 1 := by
    rw [h.readable_eq]
    unfold kCheapPrepend maxSize
    omega
  obtain ⟨b', hok, hwf, hread, hroom⟩ := (ensureWritableBytes_sat h.wf hend).returns
    (not_exhausted hfit)
  exact ⟨b', hok, ⟨hwf, ensureWritableBytes_reader hok h.room, hread.trans h.readable_eq⟩, hroom⟩

theorem Filled.written (h : b.Filled bytes) (hroom : data.length ≤ b.writableBytes) :
    ((b.copyAt b.writerIndex_ data).hasWritten data.length).Filled (bytes ++ data) := by
  obtain ⟨hwf, hread⟩ := hasWritten_spec h.wf hroom
  rw [h.readable_eq] at hread
  exact ⟨hwf, h.room, hread⟩

theorem Filled.append (h : b.Filled bytes) (hsmall : bytes.length + data.length ≤ 2 ^ 40) :
    ∃ b', b.append data = .ok b' ∧ b'.Filled (bytes ++ data) := by
  obtain ⟨b', hok, hfilled, hroom⟩ := h.ensureWritableBytes hsmall
  refine ⟨_, ?_, hfilled.written hroom⟩
  unfold Buffer.append
  rw [hok]
  rfl

end Buffer

namespace ProtobufCodec

variable (P : Protobuf) (m : P.Message)

/-- What the checksum is taken of: `nameLen | typeName | NUL | payload`. -/
def summed : List UInt8 :=
  Buffer.int32Bytes (signed 32 ((P.GetTypeName m).length + 1)) ++ (P.GetTypeName m ++ [0]) ++
    P.SerializeWithCachedSizesToArray m

/-- What `len` counts. -/
def body : List UInt8 :=
  summed P m ++ Buffer.int32Bytes (signed 32 (adler32 (summed P m)))

/-- The bytes `len | nameLen | typeName | NUL | payload | adler32`. -/
def frame : List UInt8 := Buffer.int32Bytes (signed 32 (body P m).length) ++ body P m

theorem length_summed : (summed P m).length =
    5 + (P.GetTypeName m).length + (P.SerializeWithCachedSizesToArray m).length := by
  simp only [summed, List.length_append, Buffer.length_int32Bytes, List.length_singleton]
  omega

theorem length_body : (body P m).length =
    9 + (P.GetTypeName m).length + (P.SerializeWithCachedSizesToArray m).length := by
  simp only [body, List.length_append, Buffer.length_int32Bytes, length_summed]
  omega

/-- The assumptions on a message to be encoded. -/
structure Encodable (m₀ : P.Message) : Prop where
  named : P.GetTypeName m ≠ []
  created : createMessage P (P.GetTypeName m) = some m₀
  payload : (P.SerializeWithCachedSizesToArray m).length < 2 ^ 31
  parses : P.ParseFromArray m₀ (P.SerializeWithCachedSizesToArray m) = (true, m)

variable {P m} {m₀ : P.Message}

theorem Encodable.name_lt (h : Encodable P m m₀) (hP : P.Lawful) :
    (P.GetTypeName m).length + 10 ≤ 2 ^ 31 := by
  have hcreated := h.created
  unfold createMessage at hcreated
  cases hfind : P.FindMessageTypeByName (P.GetTypeName m) with
  | none =>
    rw [hfind] at hcreated
    cases hcreated
  | some d => exact hP.registered _ d hfind

variable (P m) in
/-- What the encoder needs: its lengths fit an `int32_t`, and its checks do not fail. -/
structure Writable : Prop where
  name : (P.GetTypeName m).length + 10 ≤ 2 ^ 31
  payload : (P.SerializeWithCachedSizesToArray m).length < 2 ^ 31
  initialized : P.IsInitialized m = true
  byteSize : P.ByteSizeLong m = (P.SerializeWithCachedSizesToArray m).length

theorem Encodable.writable (h : Encodable P m m₀) (hP : P.Lawful) : Writable P m where
  name := h.name_lt hP
  payload := h.payload
  initialized := hP.initialized _ _ _ h.parses
  byteSize := hP.byteSize _ _ _ h.parses

/-- The name and its NUL. -/
theorem appendFrom_name (h : Writable P m) {b : Buffer} {bytes : List UInt8}
    (hb : b.Filled bytes) (hsmall : bytes.length ≤ 4) :
    ∃ b', appendFrom b (P.GetTypeName m ++ [0])
        (unsigned 64 (signed 32 ((P.GetTypeName m).length + 1))) = .ok b' ∧
      b'.Filled (bytes ++ (P.GetTypeName m ++ [0])) := by
  have hname := h.name
  have hlen : (P.GetTypeName m ++ [0]).length = (P.GetTypeName m).length + 1 := by simp
  have hcast : unsigned 64 (signed 32 ((P.GetTypeName m).length + 1)) =
      (P.GetTypeName m ++ [0]).length := by
    rw [hlen, ← Int.natCast_succ, signed_of_lt (by omega), unsigned_natCast (by omega)]
  unfold appendFrom
  rw [hcast, demand_true (Nat.le_refl _), ok_bind, List.take_length]
  apply hb.append
  omega

theorem serialize_filled (h : Writable P m) {b : Buffer} {bytes : List UInt8}
    (hb : b.Filled bytes) (hsmall : bytes.length ≤ 2 ^ 32) :
    ∃ b', serialize P b m = .ok ((P.SerializeWithCachedSizesToArray m).length, b') ∧
      b'.Filled (bytes ++ P.SerializeWithCachedSizesToArray m) := by
  have hpayload := h.payload
  have hcast : unsigned 64 ((P.SerializeWithCachedSizesToArray m).length : Int) =
      (P.SerializeWithCachedSizesToArray m).length := unsigned_natCast (by omega)
  obtain ⟨b', hok, hfilled, hroom⟩ := hb.ensureWritableBytes
    (show bytes.length + (P.SerializeWithCachedSizesToArray m).length ≤ 2 ^ 40 by omega)
  refine ⟨_, ?_, hfilled.written hroom⟩
  unfold serialize ToIntSize
  rw [h.byteSize, demand_true hpayload]
  show (do
    let buf ← b.ensureWritableBytes (unsigned 64 _)
    _ : Except Fault (Int × Buffer)) = _
  rw [hcast, hok, ok_bind, demand_true rfl]
  rfl

/-- The encoder writes the frame, and none of its checks fails. -/
theorem fillEmptyBuffer_eq (h : Writable P m) {b : Buffer} (hwf : b.Wf) (hempty : b.readableBytes = 0) :
    ∃ b', fillEmptyBuffer P b m = .ok b' ∧ b'.Wf ∧ b'.readable = frame P m := by
  have hname := h.name
  have hpayload := h.payload
  have hsum := length_summed P m
  have hbody := length_body P m
  obtain ⟨b₁, hok₁, hf₁⟩ := (Buffer.filled_of_empty hwf hempty).append
    (show ([] : List UInt8).length +
      (Buffer.int32Bytes (signed 32 ((P.GetTypeName m).length + 1))).length ≤ 2 ^ 40 by simp)
  rw [List.nil_append] at hf₁
  obtain ⟨b₂, hok₂, hf₂⟩ := appendFrom_name h hf₁ (by simp)
  obtain ⟨b₃, hok₃, hf₃⟩ := serialize_filled h hf₂ (by
    simp only [List.length_append, Buffer.length_int32Bytes, List.length_singleton]
    omega)
  have hcount : b₃.readableBytes = (summed P m).length := hf₃.readableBytes_eq
  have hwhole : unsigned 32 (signed 32 b₃.readableBytes) = (summed P m).length := by
    rw [unsigned_signed, hcount, unsigned_natCast (by omega)]
  have hread₃ : b₃.readable = summed P m := hf₃.readable_eq
  obtain ⟨b₄, hok₄, hf₄⟩ := hf₃.append
    (show (summed P m).length + (Buffer.int32Bytes (signed 32 (adler32 (summed P m)))).length ≤
      2 ^ 40 by rw [Buffer.length_int32Bytes]; omega)
  have hcount₄ : b₄.readableBytes = (body P m).length := hf₄.readableBytes_eq
  have hlen : b₄.readableBytes = wrap 64 (4 + unsigned 64 (signed 32 ((P.GetTypeName m).length + 1)) +
      unsigned 64 ((P.SerializeWithCachedSizesToArray m).length : Int) + 4) := by
    rw [hcount₄, hbody, ← Int.natCast_succ, signed_of_lt (by omega), unsigned_natCast (by omega),
      unsigned_natCast (by omega), wrap_of_lt (by omega)]
    omega
  have hprepend : (Buffer.int32Bytes (signed 32 b₄.readableBytes)).length ≤ b₄.prependableBytes := by
    rw [Buffer.length_int32Bytes]
    exact Nat.le_trans (by decide) hf₄.room
  obtain ⟨b₅, hok₅, hwf₅, hread₅⟩ := (Buffer.prepend_sat hf₄.wf hprepend).returns (fun _ => id)
  refine ⟨b₅, ?_, hwf₅, ?_⟩
  · unfold fillEmptyBuffer
    rw [MuduoNet.assert, demand_true hempty, ok_bind]
    dsimp only
    rw [Buffer.appendInt32, hok₁, ok_bind, hok₂, ok_bind, demand_true h.initialized, ok_bind,
      hok₃, ok_bind]
    dsimp only
    rw [hwhole, hread₃, List.take_length, Buffer.appendInt32, hok₄, ok_bind, MuduoNet.assert,
      demand_true hlen, ok_bind, hok₅]
  · rw [hread₅, hf₄.readable_eq, hcount₄]
    rfl

/-- The header is read back as the `int32_t` it was cast to. -/
theorem header_frame : Buffer.int32Of ((frame P m).take 4) = signed 32 (body P m).length := by
  have htake : (frame P m).take 4 = Buffer.int32Bytes (signed 32 (body P m).length) :=
    List.take_left' (Buffer.length_int32Bytes _)
  rw [htake, Buffer.int32Of_int32Bytes]

theorem drop_frame : (frame P m).drop kHeaderLen = body P m :=
  List.drop_left' (Buffer.length_int32Bytes _)

/-- The decoder finds the checksum, the name and the payload where the encoder put them. -/
theorem parsed_body (h : Encodable P m m₀) (hP : P.Lawful) :
    parsed P (body P m) = (.kNoError, some m) := by
  have hname := h.name_lt hP
  have hsum := length_summed P m
  have hbody := length_body P m
  have hfour : (body P m).length - 4 = (summed P m).length := by omega
  have htail : (body P m).drop ((body P m).length - 4) =
      Buffer.int32Bytes (signed 32 (adler32 (summed P m))) := by
    rw [hfour]
    exact List.drop_left
  have hfront : (body P m).take ((body P m).length - 4) = summed P m := by
    rw [hfour]
    exact List.take_left
  have hnameLen : Buffer.int32Of ((body P m).take 4) = ((P.GetTypeName m).length + 1 : Nat) := by
    have htake : (body P m).take 4 =
        Buffer.int32Bytes (signed 32 ((P.GetTypeName m).length + 1)) := by
      rw [body, summed, List.append_assoc, List.append_assoc]
      exact List.take_left' (Buffer.length_int32Bytes _)
    rw [htake, Buffer.int32Of_int32Bytes, ← Int.natCast_succ, signed_of_lt (by omega)]
  have htype : ((body P m).take (3 + ((P.GetTypeName m).length + 1))).drop 4 = P.GetTypeName m := by
    have hpieces : body P m = (Buffer.int32Bytes (signed 32 ((P.GetTypeName m).length + 1)) ++
        P.GetTypeName m) ++ ([0] ++ P.SerializeWithCachedSizesToArray m ++
        Buffer.int32Bytes (signed 32 (adler32 (summed P m)))) := by
      simp only [body, summed, List.append_assoc]
    rw [hpieces, List.take_left' (by
      rw [List.length_append, Buffer.length_int32Bytes]
      omega)]
    exact List.drop_left' (Buffer.length_int32Bytes _)
  have hdata : ((body P m).take ((body P m).length - 4)).drop (4 + ((P.GetTypeName m).length + 1)) =
      P.SerializeWithCachedSizesToArray m := by
    rw [hfront, summed]
    apply List.drop_left'
    simp only [List.length_append, Buffer.length_int32Bytes, List.length_singleton]
  have hpos : 0 < (P.GetTypeName m).length := List.length_pos_of_ne_nil h.named
  unfold parsed
  rw [htail, hfront, Buffer.int32Of_int32Bytes, hnameLen, if_neg (not_not.mpr rfl)]
  dsimp only
  rw [if_neg (not_not.mpr ⟨by omega, by omega⟩), Int.toNat_natCast, htype, h.created]
  dsimp only
  rw [← hfront, hdata, h.parses]
  rfl

/-- A frame whose length is allowed is a valid one, for the message it was made of. -/
theorem frame_valid (h : Encodable P m m₀) (hP : P.Lawful)
    (hmax : (body P m).length ≤ kMaxMessageLen) : (framing P).Valid (frame P m) m := by
  have hbody := length_body P m
  have hlen : (frame P m).length = kHeaderLen + (body P m).length := by
    rw [frame, List.length_append, Buffer.length_int32Bytes, kHeaderLen]
  have hpos : 0 < (P.GetTypeName m).length := List.length_pos_of_ne_nil h.named
  have hrange : signed 32 (body P m).length = (body P m).length := by
    unfold kMaxMessageLen at hmax
    exact signed_of_lt (by omega)
  rw [← validFrame_iff]
  refine ⟨?_, ?_, ?_⟩
  · rw [header_frame, hrange, hlen]
    omega
  · rw [header_frame, hrange]
    unfold kMinMessageLen kHeaderLen
    omega
  · rw [header_frame, hrange, drop_frame, parse_eq P (by
      unfold kMinMessageLen kHeaderLen
      omega) hmax, parsed_body h hP]

/-- It is delivered and taken off. -/
theorem onMessage_frame (h : Encodable P m m₀) (hP : P.Lawful) {b : Buffer} (hwf : b.Wf)
    (hb : b.readable = frame P m) (hmax : (body P m).length ≤ kMaxMessageLen) :
    ∃ b', onMessage P b = .ok ([.messageCallback m], b') ∧ b'.readable = [] := by
  obtain ⟨r, hok, _, fs, hd, hevents⟩ := (onMessage_sat P hwf).returns (fun _ => id)
  rw [hb] at hd
  obtain ⟨rfl, hrest⟩ := hd.unique (frame_valid h hP hmax).decodes
  refine ⟨r.2, ?_, hrest⟩
  rw [hok, ← Prod.eta r, hevents, hrest]
  rfl

/-- A frame whose length is not allowed is rejected where it stands: a length above `2 ^ 31`
is read as a negative one. -/
theorem onMessage_too_long (h : Encodable P m m₀) (hP : P.Lawful) {b : Buffer} (hwf : b.Wf)
    (hb : b.readable = frame P m) (hmax : kMaxMessageLen < (body P m).length) :
    onMessage P b = .ok ([.errorCallback .kInvalidLength], b) := by
  have hname := h.name_lt hP
  have hpayload := h.payload
  have hbody := length_body P m
  have hlen : (frame P m).length = kHeaderLen + (body P m).length := by
    rw [frame, List.length_append, Buffer.length_int32Bytes, kHeaderLen]
  have hpos : 0 < (P.GetTypeName m).length := List.length_pos_of_ne_nil h.named
  have hinvalid : (kMaxMessageLen : Int) < signed 32 (body P m).length ∨
      signed 32 (body P m).length < kMinMessageLen := by
    by_cases hsmall : (body P m).length < 2 ^ 31
    · rw [signed_of_lt (by omega)]
      omega
    · rw [signed_neg_of_ge (by omega) (by omega)]
      omega
  have hhead : head P b.readable = .reject .kInvalidLength := by
    unfold head
    dsimp only
    rw [hb, header_frame, if_neg, if_pos hinvalid]
    rw [hlen]
    unfold kMinMessageLen kHeaderLen
    omega
  rw [onMessage, onMessageLoop_succ P hwf, hhead]

/-- Encoding into any reachable empty buffer writes exactly the frame, without a failing check,
and a decoder that finds those bytes, here or in a buffer of its own, delivers the message
once and takes the frame off, or rejects the length and keeps every byte. -/
theorem onMessage_fillEmptyBuffer (hP : P.Lawful) (h : Encodable P m m₀) {c : Buffer.Client}
    (hc : Reachable Buffer.honest Buffer.start c) (hempty : c.buf.readableBytes = 0) :
    ∃ b, fillEmptyBuffer P c.buf m = .ok b ∧ b.Wf ∧
      b.readable = Buffer.int32Bytes (signed 32 (body P m).length) ++
        Buffer.int32Bytes (signed 32 ((P.GetTypeName m).length + 1)) ++ P.GetTypeName m ++ [0] ++
        P.SerializeWithCachedSizesToArray m ++
        Buffer.int32Bytes (signed 32 (adler32 (summed P m))) ∧
      ∀ r : Buffer, r.Wf → r.readable = b.readable →
        ((body P m).length ≤ kMaxMessageLen →
          ∃ r', onMessage P r = .ok ([.messageCallback m], r') ∧ r'.readable = []) ∧
        (kMaxMessageLen < (body P m).length →
          onMessage P r = .ok ([.errorCallback .kInvalidLength], r)) := by
  obtain ⟨b, hok, hwf, hread⟩ := fillEmptyBuffer_eq (h.writable hP) (Buffer.honest_wf hc) hempty
  refine ⟨b, hok, hwf, ?_, ?_⟩
  · rw [hread]
    simp only [frame, body, summed, List.append_assoc]
  · intro r hr hbytes
    rw [hread] at hbytes
    exact ⟨onMessage_frame h hP hr hbytes, onMessage_too_long h hP hr hbytes⟩

/-- The library with `muduo.Empty` registered, a message with an optional `int32 id = 1`, of
which one byte is modelled. -/
def emptyMessages : Protobuf where
  Message := Option (Fin 128)
  Descriptor := Unit
  GetTypeName _ := [109, 117, 100, 117, 111, 46, 69, 109, 112, 116, 121]
  IsInitialized _ := true
  ByteSizeLong
    | none => 0
    | some _ => 2
  SerializeWithCachedSizesToArray
    | none => []
    | some id => [8, UInt8.ofNat id]
  FindMessageTypeByName name :=
    if name = [109, 117, 100, 117, 111, 46, 69, 109, 112, 116, 121] then some () else none
  GetPrototype _ := some none
  New _ := none
  ParseFromArray _
    | [] => (true, none)
    | [8, id] => if h : id.toNat < 128 then (true, some ⟨id.toNat, h⟩) else (false, none)
    | _ => (false, none)

theorem emptyMessages_lawful : emptyMessages.Lawful := by
  constructor
  · intro _ _ m _
    cases m <;> rfl
  · intro name d h
    have hname : name = [109, 117, 100, 117, 111, 46, 69, 109, 112, 116, 121] := by
      by_contra hne
      rw [show emptyMessages.FindMessageTypeByName name = none from if_neg hne] at h
      cases h
    rw [hname]
    decide
  · intro _ _ _ _
    rfl

/-- `Empty` with id 42, encoded into a buffer that has been used. -/
theorem onMessage_fillEmptyBuffer_empty :
    let ops : List Buffer.Op := [.append ⟨[1, 2, 3], by decide⟩, .retrieve 3]
    let id : emptyMessages.Message := some (42 : Fin 128)
    ∃ c b, Run Buffer.honest Buffer.start ops c ∧
      fillEmptyBuffer emptyMessages c.buf id = .ok b ∧ b.readable.length = 26 ∧
      ∃ r', onMessage emptyMessages b = .ok ([.messageCallback id], r') ∧ r'.readable = [] := by
  intro ops id
  have hex : ∃ c, Run Buffer.honest Buffer.start ops c ∧ c.buf.readableBytes = 0 :=
    exists_run_of_exec _ (by decide +kernel)
  obtain ⟨c, hr, hempty⟩ := hex
  have hid : Encodable emptyMessages id (none : Option (Fin 128)) := by
    refine ⟨?_, ?_, ?_, ?_⟩
    · decide
    · rfl
    · decide
    · rfl
  obtain ⟨b, hok, hwf, hread, hdecode⟩ :=
    onMessage_fillEmptyBuffer emptyMessages_lawful hid ⟨ops, hr⟩ hempty
  refine ⟨c, b, hr, hok, ?_, (hdecode b hwf rfl).1 ?_⟩
  · rw [hread]
    simp only [List.length_append, Buffer.length_int32Bytes, List.length_singleton]
    rfl
  · rw [length_body]
    decide

end ProtobufCodec

end MuduoNet
