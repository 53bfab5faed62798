import MuduoNet.Base
import MuduoNet.Lib.Splice
import MuduoNet.Lib.Words

/-!
# The functions of `Buffer`

`buffer_` is the storage, the two indices are `size_t` values kept as `Nat` and wrapped at
64 bits where the source's arithmetic can wrap. A `Buffer` that calls outside their
preconditions have broken is a value like any other; `Buffer.Wf` says which are sound.
-/
namespace MuduoNet

open Lib.Outcome Lib.Splice Lib.Words

structure Buffer where
  buffer_ : List UInt8
  readerIndex_ : Nat
  writerIndex_ : Nat
  deriving DecidableEq, Repr

namespace Buffer

def kCheapPrepend : Nat := 8
def kInitialSize : Nat := 1024

/-- The constructor. -/
def new : Buffer where
  buffer_ := List.replicate (kCheapPrepend + kInitialSize) 0
  readerIndex_ := kCheapPrepend
  writerIndex_ := kCheapPrepend

def readableBytes (b : Buffer) : Nat := wsub 64 b.writerIndex_ b.readerIndex_
def writableBytes (b : Buffer) : Nat := wsub 64 b.buffer_.length b.writerIndex_
def prependableBytes (b : Buffer) : Nat := b.readerIndex_

/-- The bytes between `peek()` and `beginWrite()`. -/
def readable (b : Buffer) : List UInt8 := window b.readerIndex_ b.writerIndex_ b.buffer_

/-- `std::copy(data, data + len, begin() + i)`. -/
def copyAt (b : Buffer) (i : Nat) (data : List UInt8) : Buffer :=
  { b with buffer_ := overwrite b.buffer_ i data }

def retrieve (b : Buffer) (len : Nat) : Except Fault Buffer := do
  assert (len ≤ b.readableBytes)
  return { b with readerIndex_ := wrap 64 (b.readerIndex_ + len) }

/-- The pointer `stop` is given by its offset from `begin()`. -/
def retrieveUntil (b : Buffer) (stop : Nat) : Except Fault Buffer := do
  assert (b.readerIndex_ ≤ stop)
  assert (stop ≤ b.writerIndex_)
  b.retrieve (wsub 64 stop b.readerIndex_)

def retrieveAll (b : Buffer) : Buffer :=
  { b with readerIndex_ := kCheapPrepend, writerIndex_ := kCheapPrepend }

def retrieveAsString (b : Buffer) : List UInt8 × Buffer := (b.readable, b.retrieveAll)

/-- `buffer_.resize(n)`. -/
def resizeTo (b : Buffer) (n : Nat) : Except Fault Buffer := do
  demand .lengthError (n ≤ maxSize)
  return { b with buffer_ := resize 0 b.buffer_ n }

/-- The readable bytes moved down to `kCheapPrepend`, with both indices. -/
def compact (b : Buffer) : Buffer where
  buffer_ := overwrite b.buffer_ kCheapPrepend b.readable
  readerIndex_ := kCheapPrepend
  writerIndex_ := wrap 64 (kCheapPrepend + b.readableBytes)

def makeSpace (b : Buffer) (len : Nat) : Except Fault Buffer :=
  if wrap 64 (b.writableBytes + b.prependableBytes) < wrap 64 (len + kCheapPrepend) then
    b.resizeTo (wrap 64 (b.writerIndex_ + len))
  else do
    assert (kCheapPrepend < b.readerIndex_)
    assert (b.compact.readableBytes = b.readableBytes)
    return b.compact

def ensureWritableBytes (b : Buffer) (len : Nat) : Except Fault Buffer := do
  let b ← (if b.writableBytes < len then b.makeSpace len else pure b)
  assert (len ≤ b.writableBytes)
  return b

def hasWritten (b : Buffer) (len : Nat) : Buffer :=
  { b with writerIndex_ := wrap 64 (b.writerIndex_ + len) }

/-- All three overloads of `append`. -/
def append (b : Buffer) (data : List UInt8) : Except Fault Buffer := do
  let b ← b.ensureWritableBytes data.length
  return (b.copyAt b.writerIndex_ data).hasWritten data.length

def prepend (b : Buffer) (data : List UInt8) : Except Fault Buffer := do
  assert (data.length ≤ b.prependableBytes)
  let b := { b with readerIndex_ := wsub 64 b.readerIndex_ data.length }
  return b.copyAt b.readerIndex_ data

/-- The size of the new storage of `shrink`, a `size_t`. -/
def shrunkSize (b : Buffer) (reverse : Nat) : Nat :=
  wrap 64 (wrap 64 (kCheapPrepend + b.readableBytes) + reverse)

/-- The readable bytes are copied to `kCheapPrepend` in a new storage. -/
def shrink (b : Buffer) (reverse : Nat) : Except Fault Buffer := do
  let size := b.shrunkSize reverse
  demand .lengthError (size ≤ maxSize)
  demand .outOfBounds (kCheapPrepend + b.readable.length ≤ size)
  return { b with buffer_ := overwrite (List.replicate size 0) kCheapPrepend b.readable }

/-- The big-endian bytes of an `int32_t`: what `hostToNetwork32` leaves in memory. -/
def int32Bytes (x : Int) : List UInt8 := toBE 4 (unsigned 32 x)

/-- The `int32_t` that `networkToHost32` makes of four bytes in memory. -/
def int32Of (bytes : List UInt8) : Int := signed 32 (ofBE bytes)

def peekInt32 (b : Buffer) : Except Fault Int := do
  assert (4 ≤ b.readableBytes)
  return int32Of (b.readable.take 4)

def appendInt32 (b : Buffer) (x : Int) : Except Fault Buffer := b.append (int32Bytes x)

def readInt32 (b : Buffer) : Except Fault (Int × Buffer) := do
  let result ← b.peekInt32
  let b ← b.retrieve 4
  return (result, b)

/-- What `readv` does: it fails with an `errno`, or delivers bytes. -/
inductive ReadvResult
  | failed (errno : Int)
  | delivered (bytes : List UInt8)
  deriving DecidableEq, Repr

/-- `sizeof extrabuf`. -/
def kExtrabuf : Nat := 65536

/-- The result of `readFd`: the returned count, and `*savedError` if it is written. -/
structure ReadFdResult where
  n : Int
  savedError : Option Int
  deriving DecidableEq, Repr

/-- `readv` fills the tail of `buffer_` first and `extrabuf` with the rest. -/
def readFd (b : Buffer) (r : ReadvResult) : Except Fault (ReadFdResult × Buffer) :=
  match r with
  | .failed errno => .ok (⟨-1, some errno⟩, b)
  | .delivered bytes => do
    let writable := b.writableBytes
    let filled := b.copyAt b.writerIndex_ (bytes.take writable)
    if bytes.length ≤ filled.writableBytes then
      return (⟨bytes.length, none⟩, filled.hasWritten bytes.length)
    else
      let full := { filled with writerIndex_ := filled.buffer_.length }
      let b' ← full.append (bytes.drop writable)
      return (⟨bytes.length, none⟩, b')

end Buffer

end MuduoNet
