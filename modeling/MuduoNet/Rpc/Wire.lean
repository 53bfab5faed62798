import MuduoNet.Rpc.Channel
import MuduoNet.Codec.RoundTrip
import MuduoNet.Lib.Fields

/-!
# `RpcMessage` in the protobuf library

The library is a parameter of the codec. What `RpcChannel` adds is that one of the message types
is `RpcMessage`; what is relied on is stated as laws. A library that writes these messages as the
wire format has it, and reads back what it writes, obeys them.
-/
namespace MuduoNet.Rpc

open Lib MuduoNet.ProtobufCodec

structure RpcProtobuf extends Protobuf where
  /-- `dynamic_cast<RpcMessage *>` -/
  asRpc : Message → Option RpcMessage
  ofRpc : RpcMessage → Message

namespace RpcProtobuf

/-- The payload of a frame. -/
def payload (P : RpcProtobuf) (m : RpcMessage) : List UInt8 :=
  P.SerializeWithCachedSizesToArray (P.ofRpc m)

/-- What the two ends of a link rely on. -/
structure Sound (P : RpcProtobuf) : Prop extends P.toProtobuf.Lawful where
  cast : ∀ m, P.asRpc (P.ofRpc m) = some m
  /-- What is serialized is parsed to the same message. -/
  roundTrip : ∀ m, (P.payload m).length < 2 ^ 31 → ∃ m₀, Encodable P.toProtobuf (P.ofRpc m) m₀

structure Lawful (P : RpcProtobuf) : Prop extends P.Sound where
  /-- Two bytes for the type, nine for the id, two for the error. -/
  length_error : ∀ id error, (P.payload (errorReply id error)).length = 13

/-- The bytes of a message in the stream. -/
def frame (P : RpcProtobuf) (m : RpcMessage) : List UInt8 :=
  ProtobufCodec.frame P.toProtobuf (P.ofRpc m)

/-- The decoder allows the length of the frame. -/
def Fits (P : RpcProtobuf) (m : RpcMessage) : Prop :=
  (body P.toProtobuf (P.ofRpc m)).length ≤ kMaxMessageLen

variable {P : RpcProtobuf} {m : RpcMessage}

theorem Sound.encodable (hP : P.Sound) (hfits : P.Fits m) :
    ∃ m₀, Encodable P.toProtobuf (P.ofRpc m) m₀ := by
  have hbody := length_body P.toProtobuf (P.ofRpc m)
  unfold Fits kMaxMessageLen at hfits
  apply hP.roundTrip
  unfold payload
  omega

theorem Sound.frame_valid (hP : P.Sound) (hfits : P.Fits m) :
    (framing P.toProtobuf).Valid (P.frame m) (P.ofRpc m) := by
  obtain ⟨m₀, henc⟩ := hP.encodable hfits
  exact ProtobufCodec.frame_valid henc hP.toLawful hfits

end RpcProtobuf

def MessageType.number : MessageType → UInt8
  | REQUEST => 1
  | RESPONSE => 2
  | ERROR => 3

def MessageType.ofNumber (n : UInt8) : Option MessageType :=
  [REQUEST, RESPONSE, ERROR].find? fun t => t.number = n

def ErrorCode.number : ErrorCode → UInt8
  | NO_ERROR => 0
  | WRONG_PROTO => 1
  | NO_SERVICE => 2
  | NO_METHOD => 3
  | INVALID_REQUEST => 4
  | INVALID_RESPONSE => 5
  | TIMEOUT => 6

def ErrorCode.ofNumber (n : UInt8) : Option ErrorCode :=
  [NO_ERROR, WRONG_PROTO, NO_SERVICE, NO_METHOD, INVALID_REQUEST, INVALID_RESPONSE, TIMEOUT].find?
    fun e => e.number = n

namespace RpcMessage

def typeCodec : FieldCodec MessageType :=
  .enumeration MessageType.number MessageType.ofNumber (by intro t; cases t <;> decide)

def errorCodec : FieldCodec ErrorCode :=
  .enumeration ErrorCode.number ErrorCode.ofNumber (by intro e; cases e <;> decide)

/-- The fields in the order of their numbers. -/
def encode (m : RpcMessage) : List UInt8 :=
  typeCodec.putField 0x08 (some m.type) ++ (FieldCodec.fixed64.putField 0x11 (some m.id) ++
    (FieldCodec.bytes.putField 0x1a m.service ++ (FieldCodec.bytes.putField 0x22 m.method ++
      (FieldCodec.bytes.putField 0x2a m.request ++ (FieldCodec.bytes.putField 0x32 m.response ++
        (errorCodec.putField 0x38 m.error ++ []))))))

/-- Fails if a required field is missing or a byte is left. -/
def decode (l : List UInt8) : Option RpcMessage := do
  let (type, l) ← typeCodec.takeField 0x08 l
  let (id, l) ← FieldCodec.fixed64.takeField 0x11 l
  let (service, l) ← FieldCodec.bytes.takeField 0x1a l
  let (method, l) ← FieldCodec.bytes.takeField 0x22 l
  let (request, l) ← FieldCodec.bytes.takeField 0x2a l
  let (response, l) ← FieldCodec.bytes.takeField 0x32 l
  let (error, l) ← errorCodec.takeField 0x38 l
  match type, id, l with
  | some type, some id, [] => return ⟨type, id, service, method, request, response, error⟩
  | _, _, _ => none

theorem decode_encode (m : RpcMessage) : decode m.encode = some m := by
  have hnil : ∀ t : UInt8, ([] : List UInt8).head? ≠ some t := by simp
  unfold decode encode
  simp only [Option.bind_eq_bind]
  -- what follows a field begins with a larger tag, or is empty
  iterate 7
    rw [FieldCodec.takeField_putField _ _ _ (by
      repeat apply FieldCodec.head_putField _ _ _ (by decide)
      exact hnil _), Option.bind_some]
    dsimp only
  rfl

end RpcMessage

/-- `muduo.RpcMessage` -/
def rpcTypeName : List UInt8 := "muduo.RpcMessage".toUTF8.toList

/-- The library with `RpcMessage` registered; a message whose required fields are not set is
`none`. -/
def rpcMessages : RpcProtobuf where
  Message := Option RpcMessage
  Descriptor := Unit
  GetTypeName _ := rpcTypeName
  IsInitialized m := m.isSome
  ByteSizeLong m := ((m.map RpcMessage.encode).getD []).length
  SerializeWithCachedSizesToArray m := (m.map RpcMessage.encode).getD []
  FindMessageTypeByName name := if name = rpcTypeName then some () else none
  GetPrototype _ := some none
  New _ := none
  ParseFromArray _ data := ((RpcMessage.decode data).isSome, RpcMessage.decode data)
  asRpc m := m
  ofRpc m := some m

theorem rpcMessages_lawful : rpcMessages.Lawful where
  byteSize _ _ _ _ := rfl
  registered name d h := by
    have hname : name = rpcTypeName := by
      by_contra hne
      rw [show rpcMessages.FindMessageTypeByName name = none from if_neg hne] at h
      cases h
    rw [hname]
    decide +kernel
  initialized m₀ data m h := by
    obtain ⟨hok, rfl⟩ := Prod.mk.inj h
    exact hok
  cast _ := rfl
  roundTrip m hlen := by
    refine ⟨(none : Option RpcMessage), ?_, ?_, hlen, ?_⟩
    · show rpcTypeName ≠ []
      decide +kernel
    · simp [createMessage, rpcMessages]
    · show ((RpcMessage.decode m.encode).isSome, RpcMessage.decode m.encode) = (true, some m)
      rw [RpcMessage.decode_encode]
      rfl
  length_error id error := by
    show (RpcMessage.encode (errorReply id error)).length = 13
    simp [RpcMessage.encode, errorReply, FieldCodec.putField, RpcMessage.typeCodec,
      RpcMessage.errorCodec, FieldCodec.enumeration, FieldCodec.fixed64]

theorem rpcMessages_fits {m : RpcMessage} (hlen : m.encode.length ≤ 2 ^ 20) : rpcMessages.Fits m := by
  have hname : rpcTypeName.length = 16 := by decide +kernel
  have hbody := length_body rpcMessages.toProtobuf (some m)
  change (body rpcMessages.toProtobuf (some m)).length = 9 + rpcTypeName.length + m.encode.length
    at hbody
  show (body rpcMessages.toProtobuf (some m)).length ≤ _
  unfold kMaxMessageLen
  omega

end MuduoNet.Rpc
