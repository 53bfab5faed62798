import MuduoNet.Buffer.Basic
import MuduoNet.Channel

/-!
# The functions of `TcpConnection`

They run on the connection's loop thread. `trace` records, oldest first, what a function
asks of the kernel, the loop and the user; the results of `readv` and `write` are arguments.
Log output is left out.
-/
namespace MuduoNet

inductive StateE
  | kConnecting | kConnected | kDisconnecting | kDisconnected
  deriving DecidableEq, Repr

/-- What `::write` does: it accepts the first `n` bytes, or fails with an `errno`. -/
inductive WriteResult
  | wrote (n : Nat)
  | failed (errno : Int)
  deriving DecidableEq, Repr

inductive Effect
  /-- `sendInLoop` was entered with these bytes. -/
  | sendInLoop (bytes : List UInt8)
  /-- `::write` returned a count; these are the bytes it accepted. -/
  | wrote (bytes : List UInt8)
  | writeFailed (errno : Int)
  /-- `channel_->update()` with this interest. -/
  | updateChannel (events : BitVec 32)
  | removeChannel
  /-- `writeCompleteCallback_` was queued in the loop. -/
  | queueWriteComplete
  | shutdownWrite
  | connectionCallback (up : Bool)
  | messageCallback
  | closeCallback
  deriving DecidableEq, Repr

structure TcpConnection where
  state_ : StateE
  channel_ : Channel
  inputBuffer_ : Buffer
  outputBuffer_ : Buffer
  /-- Whether `writeCompleteCallback_` is set. -/
  writeCompleteCallback_ : Bool
  trace : List Effect
  deriving DecidableEq, Repr

namespace TcpConnection

/-- The constructor. -/
def new (sockfd : Int) (writeCompleteCallback : Bool) : TcpConnection where
  state_ := .kConnecting
  channel_ := .new sockfd
  inputBuffer_ := .new
  outputBuffer_ := .new
  writeCompleteCallback_ := writeCompleteCallback
  trace := []

def emit (c : TcpConnection) (e : Effect) : TcpConnection := { c with trace := c.trace ++ [e] }

/-- The channel with a new interest, handed to the loop. -/
def update (c : TcpConnection) (channel : Channel) : TcpConnection :=
  { c with channel_ := channel }.emit (.updateChannel channel.events_)

def setState (c : TcpConnection) (s : StateE) : TcpConnection := { c with state_ := s }

def connected (c : TcpConnection) : Bool := c.state_ == .kConnected

def connectEstablished (c : TcpConnection) : Except Fault TcpConnection := do
  assert (c.state_ = .kConnecting)
  let c := c.setState .kConnected
  assert (c.connected)
  let c := c.update c.channel_.enableReading
  return c.emit (.connectionCallback true)

def connectDestroyed (c : TcpConnection) : Except Fault TcpConnection := do
  assert (c.state_ = .kConnected ∨ c.state_ = .kDisconnecting)
  let c := c.setState .kDisconnected
  let c := c.update c.channel_.disableAll
  let c := c.emit (.connectionCallback false)
  return c.emit .removeChannel

def handleClose (c : TcpConnection) : Except Fault TcpConnection := do
  assert (c.state_ = .kConnected ∨ c.state_ = .kDisconnecting)
  let c := c.update c.channel_.disableAll
  return c.emit .closeCallback

/-- `handleError` only logs. -/
def handleError (c : TcpConnection) : TcpConnection := c

def handleRead (c : TcpConnection) (r : Buffer.ReadvResult) : Except Fault TcpConnection := do
  let (res, input) ← c.inputBuffer_.readFd r
  let c := { c with inputBuffer_ := input }
  if 0 < res.n then
    return c.emit .messageCallback
  else if res.n = 0 then
    c.handleClose
  else
    return c.handleError

def shutdownInLoop (c : TcpConnection) : TcpConnection :=
  if c.channel_.isWriting then c else c.emit .shutdownWrite

/-- Called on the loop thread, where `runInLoop` runs its functor at once. -/
def shutdown (c : TcpConnection) : TcpConnection :=
  if c.state_ = .kConnected then (c.setState .kDisconnecting).shutdownInLoop else c

/-- `queueInLoop` of the write-complete callback, if it is set. -/
def notifyWriteComplete (c : TcpConnection) : TcpConnection :=
  if c.writeCompleteCallback_ then c.emit .queueWriteComplete else c

/-- What follows in `handleWrite` once the output buffer is empty. -/
def drained (c : TcpConnection) : TcpConnection :=
  let c := (c.update c.channel_.disableWriting).notifyWriteComplete
  if c.state_ = .kDisconnecting then c.shutdownInLoop else c

def handleWrite (c : TcpConnection) (w : WriteResult) : Except Fault TcpConnection :=
  if c.channel_.isWriting then
    match w with
    | .wrote n => do
      let c := c.emit (.wrote (c.outputBuffer_.readable.take n))
      if 0 < n then
        let output ← c.outputBuffer_.retrieve n
        let c := { c with outputBuffer_ := output }
        return if c.outputBuffer_.readableBytes = 0 then c.drained else c
      else
        return c
    | .failed errno => .ok (c.emit (.writeFailed errno))
  else .ok c

/-- `::write` of the whole message: the count, and the connection after it. -/
def directWrite (c : TcpConnection) (message : List UInt8) : WriteResult → Nat × TcpConnection
  | .wrote n =>
    let c := c.emit (.wrote (message.take n))
    (n, if n < message.length then c else c.notifyWriteComplete)
  | .failed errno => (0, c.emit (.writeFailed errno))

/-- The first half of `sendInLoop`: `nwrote`, and the connection. `nwrote` starts at 0 and is
reset to 0 after a failure, so `assert(nwrote >= 0)` is its type here. -/
def writeFirst (c : TcpConnection) (message : List UInt8) (w : WriteResult) :
    Nat × TcpConnection :=
  if ¬ c.channel_.isWriting ∧ c.outputBuffer_.readableBytes = 0 then c.directWrite message w
  else (0, c)

def sendInLoop (c : TcpConnection) (message : List UInt8) (w : WriteResult) :
    Except Fault TcpConnection := do
  let (nwrote, c) := (c.emit (.sendInLoop message)).writeFirst message w
  if nwrote < message.length then
    let output ← c.outputBuffer_.append (message.drop nwrote)
    let c := { c with outputBuffer_ := output }
    return if c.channel_.isWriting then c else c.update c.channel_.enableWriting
  else
    return c

/-- Called on the loop thread. -/
def send (c : TcpConnection) (message : List UInt8) (w : WriteResult) :
    Except Fault TcpConnection :=
  if c.state_ = .kConnected then c.sendInLoop message w else .ok c

end TcpConnection

end MuduoNet
