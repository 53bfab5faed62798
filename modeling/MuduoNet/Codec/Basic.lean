import MuduoNet.Buffer.Basic

/-!
# The functions of `ProtobufCodec`

A frame is `len | nameLen | typeName NUL | payload | adler32`, the lengths and the checksum
as big-endian `int32_t`. The protobuf library is a parameter. `onMessage` returns the calls
it makes to the two callbacks, in order; the connection and the time they are given along
with are left out.
-/
namespace MuduoNet

open Lib.Outcome Lib.Words

/-- What the codec uses of the protobuf library; `ParseFromArray` returns its result and the
message it was called on. -/
structure Protobuf where
  Message : Type
  Descriptor : Type
  GetTypeName : Message → List UInt8
  IsInitialized : Message → Bool
  ByteSizeLong : Message → Nat
  SerializeWithCachedSizesToArray : Message → List UInt8
  FindMessageTypeByName : List UInt8 → Option Descriptor
  GetPrototype : Descriptor → Option Message
  New : Message → Message
  ParseFromArray : Message → List UInt8 → Bool × Message

/-- `::adler32(1, bytes, len)`: two sums modulo the largest prime below 2^16. -/
def adler32 (bytes : List UInt8) : Nat :=
  let (a, b) := bytes.foldl (fun (a, b) x =>
    ((a + x.toNat) % 65521, (b + a + x.toNat) % 65521)) (1, 0)
  b * 65536 + a

/-- The result of an `int32_t` computation. -/
def int32 (x : Int) : Except Fault Int := do
  demand .overflow (-2 ^ 31 ≤ x ∧ x < 2 ^ 31)
  return x

namespace ProtobufCodec

inductive ErrorCode
  | kNoError | kInvalidLength | kCheckSumError | kInvalidNameLen | kUnknownMessageType | kParseError
  deriving DecidableEq, Repr

def kHeaderLen : Nat := 4
def kMinMessageLen : Nat := 2 * kHeaderLen + 2
def kMaxMessageLen : Nat := 64 * 1024 * 1024

/-- A call of one of the two callbacks. -/
inductive Event (μ : Type)
  | messageCallback (message : μ)
  | errorCallback (code : ErrorCode)
  deriving DecidableEq, Repr

/-- The message a call delivers. -/
def Event.message {μ : Type} : Event μ → Option μ
  | .messageCallback m => some m
  | .errorCallback _ => none

variable (P : Protobuf)

/-- `ToIntSize` of the protobuf library, with its check. -/
def ToIntSize (size : Nat) : Except Fault Int := do
  demand .fatal (size < 2 ^ 31)
  return size

/-- `buf->append(data, len)` for a pointer to the bytes `data`. -/
def appendFrom (buf : Buffer) (data : List UInt8) (len : Nat) : Except Fault Buffer := do
  demand .outOfBounds (len ≤ data.length)
  buf.append (data.take len)

/-- The message written at `beginWrite()`; a size that is not the one computed before ends in
`ByteSizeConsistencyError`. -/
def serialize (buf : Buffer) (message : P.Message) : Except Fault (Int × Buffer) := do
  let byte_size ← ToIntSize (P.ByteSizeLong message)
  let buf ← buf.ensureWritableBytes (unsigned 64 byte_size)
  let payload := P.SerializeWithCachedSizesToArray message
  demand .fatal ((payload.length : Int) = byte_size)
  return (byte_size, (buf.copyAt buf.writerIndex_ payload).hasWritten (unsigned 64 byte_size))

def fillEmptyBuffer (buf : Buffer) (message : P.Message) : Except Fault Buffer := do
  assert (buf.readableBytes = 0)
  let typeName := P.GetTypeName message
  let nameLen := signed 32 (typeName.length + 1)
  let buf ← buf.appendInt32 nameLen
  let buf ← appendFrom buf (typeName ++ [0]) (unsigned 64 nameLen)
  demand .fatal (P.IsInitialized message = true)
  let (byte_size, buf) ← serialize P buf message
  let checkSum := signed 32 (adler32 (buf.readable.take (unsigned 32 (signed 32 buf.readableBytes))))
  let buf ← buf.appendInt32 checkSum
  assert (buf.readableBytes = wrap 64 (4 + unsigned 64 nameLen + unsigned 64 byte_size + 4))
  let len := signed 32 buf.readableBytes
  buf.prepend (Buffer.int32Bytes len)

def createMessage (typeName : List UInt8) : Option P.Message := do
  let descriptor ← P.FindMessageTypeByName typeName
  let prototype ← P.GetPrototype descriptor
  return P.New prototype

/-- The bytes from offset `i` to offset `j` of the object `bytes`. -/
def slice (bytes : List UInt8) (i j : Int) : Except Fault (List UInt8) := do
  demand .outOfBounds (0 ≤ i ∧ i ≤ j ∧ j ≤ bytes.length)
  return (bytes.take j.toNat).drop i.toNat

def asInt32 (bytes : List UInt8) (i : Int) : Except Fault Int := do
  let be32 ← slice bytes i (i + 4)
  return Buffer.int32Of be32

/-- `buf` are the bytes behind the header that `len` counts: nothing else may be read. -/
def parse (buf : List UInt8) (len : Int) : Except Fault (ErrorCode × Option P.Message) := do
  let expectedCheckSum ← asInt32 buf (len - kHeaderLen)
  let summed ← int32 (len - kHeaderLen)
  let body ← slice buf 0 summed
  let checkSum := signed 32 (adler32 body)
  if expectedCheckSum = checkSum then
    let nameLen ← asInt32 buf 0
    let room ← int32 (len - 2 * kHeaderLen)
    if 2 ≤ nameLen ∧ nameLen ≤ room then
      let typeName ← slice buf kHeaderLen (kHeaderLen + nameLen - 1)
      match createMessage P typeName with
      | some message => do
        let dataLen ← int32 (len - 2 * kHeaderLen - nameLen)
        let data ← slice buf (kHeaderLen + nameLen) (kHeaderLen + nameLen + dataLen)
        let (parsed, message) := P.ParseFromArray message data
        return (if parsed then .kNoError else .kParseError, some message)
      | none => return (.kUnknownMessageType, none)
    else
      return (.kInvalidNameLen, none)
  else
    return (.kCheckSumError, none)

/-- The loop of `onMessage`, for at most `budget` rounds. -/
def onMessageLoop : Nat → Buffer → Except Fault (List (Event P.Message) × Buffer)
  | 0, _ => .error .budget
  | budget + 1, buf =>
    if kMinMessageLen + kHeaderLen ≤ buf.readableBytes then do
      let len ← buf.peekInt32
      if kMaxMessageLen < len ∨ len < kMinMessageLen then
        return ([.errorCallback .kInvalidLength], buf)
      else
        let frameLen ← int32 (kHeaderLen + len)
        if unsigned 64 frameLen ≤ buf.readableBytes then
          let (errorcode, message) ← parse P ((buf.readable.drop kHeaderLen).take len.toNat) len
          match errorcode, message with
          | .kNoError, some m => do
            let buf ← buf.retrieve (unsigned 64 frameLen)
            let (events, buf) ← onMessageLoop budget buf
            return (.messageCallback m :: events, buf)
          | _, _ => return ([.errorCallback errorcode], buf)
        else
          return ([], buf)
    else
      .ok ([], buf)

/-- Every round but the last takes a frame off the buffer. -/
def onMessage (buf : Buffer) : Except Fault (List (Event P.Message) × Buffer) :=
  onMessageLoop P (buf.readableBytes + 1) buf

end ProtobufCodec

end MuduoNet
