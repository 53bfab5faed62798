import MuduoNet.Net.Basic
import MuduoNet.Timer.Cancel

/-!
# `Connector` and its timers

Everything happens in the thread of the loop, whose timers are those of `TimerLoop`. The results
of system calls and the order of events are the environment's. A `Connector` is called by its
`TcpClient`, of which no more is modelled than what the calls depend on, or directly.
-/
namespace MuduoNet

open Lib Lib.Outcome Function

/-- A socket that `Connector::connect` has made. The program does not read the number, which
tells the sockets apart that had the same descriptor. -/
structure Socket where
  fd : Int
  number : Nat
  deriving DecidableEq

/-- What happens to a socket: it is added to the poller and removed again as the descriptor of a
channel, passed to `newConnectionCallback_`, closed by the connector. -/
inductive SocketEvent
  | created | added | removed | passed | closed
  deriving DecidableEq

structure Connector where
  connect_ : Bool
  state_ : ConnectorState
  /-- The socket of the channel. -/
  channel_ : Option Socket
  retryDelayMs_ : Nat
  timerId_ : TimerId
  deriving DecidableEq

namespace Connector

def kMaxRetryDelayMs : Nat := 30 * 1000
def kInitRetryDelayMs : Nat := 500

def new : Connector := ⟨false, .kDisconnected, none, kInitRetryDelayMs, ⟨0, 0⟩⟩

def EINTR : Int := 4
def EAGAIN : Int := 11
def EADDRINUSE : Int := 98
def EADDRNOTAVAIL : Int := 99
def ENETUNREACH : Int := 101
def EISCONN : Int := 106
def ECONNREFUSED : Int := 111
def EINPROGRESS : Int := 115

end Connector

/-- What the callback of a timer is bound to. -/
inductive TimerCallback
  /-- `Connector::startInLoop` with a bare `this`. -/
  | startInLoop
  /-- `detail::removeConnector` with a `ConnectorPtr`. -/
  | removeConnector
  | user
  deriving DecidableEq

/-- `TcpClient::connection_`. -/
inductive Delivered
  | none | established
  /-- It has been reset, and the connector has not been restarted. -/
  | closed
  deriving DecidableEq

/-- What the system answers in a step. -/
structure Answers where
  /-- `sockets::createNonblockingOrDie` -/
  sockfd : Int
  /-- `errno` after `sockets::connect`, or 0. -/
  saveError : Int
  /-- `sockets::getSocketError` -/
  err : Int
  /-- `sockets::isSelfConnect` -/
  selfConnect : Bool
  /-- The address of a new `Timer`. -/
  timer : TimerPtr
  now : Timestamp
  now' : Timestamp

/-- The program does not read the last two fields: what has happened to each socket so far, and
the number of sockets. -/
structure ConnectorLoop where
  timers : TimerLoop
  callback : TimerPtr → TimerCallback
  connector : Connector
  /-- The sockets of its channels that the poller has. -/
  registered : List Socket
  /-- How many functors `resetChannel` wait. -/
  resets : Nat
  /-- `retry_`, `connect_` and `connection_` of the `TcpClient`. -/
  retry_ : Bool
  connect_ : Bool
  connection_ : Delivered
  /-- `~TcpClient` has not run. -/
  client : Bool
  /-- `~Connector` has not run. -/
  alive : Bool
  history : Nat → List SocketEvent
  attempts : Nat

namespace ConnectorLoop

open Connector

/-- A `TcpClient` that has just been built, in a loop without timers. -/
def start : ConnectorLoop where
  timers := .start
  callback _ := .user
  connector := .new
  registered := []
  resets := 0
  retry_ := false
  connect_ := false
  connection_ := .none
  client := true
  alive := true
  history _ := []
  attempts := 0

def setState (s : ConnectorLoop) (state : ConnectorState) : ConnectorLoop :=
  { s with connector := { s.connector with state_ := state } }

def setConnect (s : ConnectorLoop) (connect : Bool) : ConnectorLoop :=
  { s with connector := { s.connector with connect_ := connect } }

def record (s : ConnectorLoop) (socket : Socket) (e : SocketEvent) : ConnectorLoop :=
  { s with history := update s.history socket.number (s.history socket.number ++ [e]) }

/-- `sockets::close` -/
def close (s : ConnectorLoop) (socket : Socket) : ConnectorLoop := s.record socket .closed

/-- `EventLoop::cancel(timerId_)` -/
def cancel (s : ConnectorLoop) (now : Timestamp) : Except Fault ConnectorLoop := do
  let timers ← s.timers.cancel true s.connector.timerId_ now
  return { s with timers }

/-- `TcpClient::newConnection`, as far as the connector is concerned. The callback is bound to a
bare `this`. -/
def newConnection (s : ConnectorLoop) (socket : Socket) : Except Fault ConnectorLoop := do
  demand .deletedObject (s.client = true)
  return { s.record socket .passed with connection_ := .established }

/-- `enableWriting` adds the new channel to the poller, which has none with its descriptor. -/
def connecting (s : ConnectorLoop) (socket : Socket) : Except Fault ConnectorLoop := do
  let s := s.setState .kConnecting
  assert (s.connector.channel_ = none)
  assert (∀ x ∈ s.registered, x.fd ≠ socket.fd)
  let s := s.record socket .added
  return { s with
    connector := { s.connector with channel_ := some socket }
    registered := socket :: s.registered }

/-- `disableAll` and `removeChannel`, which look the channel up in the poller. -/
def removeAndResetChannel (s : ConnectorLoop) : Except Fault (Socket × ConnectorLoop) :=
  match s.connector.channel_ with
  | none => .error .nullPointer
  | some socket => do
    assert (socket ∈ s.registered)
    let s := s.record socket .removed
    return (socket, { s with
      registered := s.registered.erase socket
      resets := s.resets + 1 })

def resetChannel (s : ConnectorLoop) : Except Fault ConnectorLoop := do
  demand .deletedObject (s.alive = true)
  return { s with
    connector := { s.connector with channel_ := none }
    resets := s.resets - 1 }

section

variable (addTime : Timestamp → ℚ → Timestamp)

/-- `EventLoop::runAfter` -/
def runAfter (s : ConnectorLoop) (delay : ℚ) (cb : TimerCallback) (a : Answers) :
    Except Fault (TimerId × ConnectorLoop) := do
  let timers ← s.timers.addTimer true a.timer (addTime a.now delay) 0 a.now'
  return (TimerQueue.timerId a.timer, { s with timers, callback := update s.callback a.timer cb })

def retry (s : ConnectorLoop) (socket : Socket) (a : Answers) : Except Fault ConnectorLoop := do
  let s := (s.close socket).setState .kDisconnected
  if s.connector.connect_ then
    let (timerId, s) ← s.runAfter addTime (s.connector.retryDelayMs_ / 1000) .startInLoop a
    return { s with connector := { s.connector with
      timerId_ := timerId
      retryDelayMs_ := min (s.connector.retryDelayMs_ * 2) kMaxRetryDelayMs } }
  else return s

/-- `sockets::createNonblockingOrDie` -/
def create (s : ConnectorLoop) (sockfd : Int) : Socket × ConnectorLoop :=
  let socket : Socket := ⟨sockfd, s.attempts⟩
  (socket, { s with attempts := s.attempts + 1 }.record socket .created)

def connect (s : ConnectorLoop) (a : Answers) : Except Fault ConnectorLoop :=
  let (socket, s) := s.create a.sockfd
  if a.saveError ∈ [0, EINPROGRESS, EINTR, EISCONN] then s.connecting socket
  else if a.saveError ∈ [EAGAIN, EADDRINUSE, EADDRNOTAVAIL, ECONNREFUSED, ENETUNREACH] then
    s.retry addTime socket a
  else .ok (s.close socket)

def startInLoop (s : ConnectorLoop) (a : Answers) : Except Fault ConnectorLoop := do
  assert (s.connector.state_ = .kDisconnected)
  if s.connector.connect_ then s.connect addTime a else return s

/-- `Connector::start`; `runInLoop` calls at once. -/
def callStart (s : ConnectorLoop) (a : Answers) : Except Fault ConnectorLoop :=
  (s.setConnect true).startInLoop addTime a

def restart (s : ConnectorLoop) (a : Answers) : Except Fault ConnectorLoop :=
  let s := s.setState .kDisconnected
  { s with connector := { s.connector with
    retryDelayMs_ := kInitRetryDelayMs, connect_ := true } }.startInLoop addTime a

def stop (s : ConnectorLoop) (now : Timestamp) : Except Fault ConnectorLoop :=
  (s.setConnect false).cancel now

/-- `TcpClient::connect` -/
def clientConnect (s : ConnectorLoop) (a : Answers) : Except Fault ConnectorLoop :=
  { s with connect_ := true }.callStart addTime a

/-- `TcpClient::disconnect`; the connection is shut down, which the connector does not notice. -/
def disconnect (s : ConnectorLoop) : ConnectorLoop := { s with connect_ := false }

/-- `TcpClient::stop` -/
def clientStop (s : ConnectorLoop) (now : Timestamp) : Except Fault ConnectorLoop :=
  { s with connect_ := false }.stop now

def enableRetry (s : ConnectorLoop) : ConnectorLoop := { s with retry_ := true }

/-- A connection that is closed is not the client's any more. -/
def forget (s : ConnectorLoop) : ConnectorLoop :=
  { s with connection_ := if s.connection_ = .established then .established else .none }

/-- `TcpClient::removeConnection` -/
def removeConnection (s : ConnectorLoop) (a : Answers) : Except Fault ConnectorLoop :=
  let s := { s with connection_ := .closed }
  if s.retry_ ∧ s.connect_ then s.forget.restart addTime a else .ok s

def handleWrite (s : ConnectorLoop) (a : Answers) : Except Fault ConnectorLoop := do
  if s.connector.state_ = .kConnecting then
    let (socket, s) ← s.removeAndResetChannel
    if a.err ≠ 0 then s.retry addTime socket a
    else if a.selfConnect then s.retry addTime socket a
    else
      let s := s.setState .kConnected
      if s.connector.connect_ then s.newConnection socket else return s.close socket
  else
    assert (s.connector.state_ = .kDisconnected)
    return s

/-- The condition of the `assert` is an assignment. -/
def handleError (s : ConnectorLoop) (a : Answers) : Except Fault ConnectorLoop := do
  let (socket, s) ← (s.setState .kConnecting).removeAndResetChannel
  s.retry addTime socket a

/-- The other two callbacks of the channel are not set. -/
def handle (a : Answers) (s : ConnectorLoop) : Handler → Except Fault ConnectorLoop
  | .error => do
    demand .deletedObject (s.alive = true)
    s.handleError addTime a
  | .write => do
    demand .deletedObject (s.alive = true)
    s.handleWrite addTime a
  | .close | .read => .ok s

def handleEvent (s : ConnectorLoop) (revents : BitVec 32) (a : Answers) :
    Except Fault ConnectorLoop :=
  (Channel.handleEvent revents).foldlM (handle addTime a) s

/-- The next callback of a batch of timers. -/
def runTimer (s : ConnectorLoop) (a : Answers) : Except Fault ConnectorLoop := do
  let timers ← s.timers.runTimer
  match s.timers.batch with
  | some ⟨_, _, it :: _⟩ =>
    match s.callback (ofLex it).2 with
    | .startInLoop =>
      demand .deletedObject (s.alive = true)
      { s with timers }.startInLoop addTime a
    | .removeConnector | .user => return { s with timers }
  | _ => return { s with timers }

/-- `~Connector` -/
def destroyConnector (s : ConnectorLoop) (now : Timestamp) : Except Fault ConnectorLoop := do
  demand .deletedObject (s.alive = true)
  let s ← s.cancel now
  assert (s.connector.channel_ = none)
  return { s with alive := false }

/-- The timers of the batch that are not put back are deleted, and with the one that holds the
last `ConnectorPtr` the connector. -/
def handleReadEnd (s : ConnectorLoop) (now : Timestamp) : Except Fault ConnectorLoop := do
  let timers ← s.timers.handleReadEnd addTime now
  if ∃ p ∈ TimerQueue.pointers s.timers.expiring,
      s.callback p = .removeConnector ∧ timers.queue.heap p = none then
    destroyConnector { s with timers } now
  else return { s with timers }

/-- `~TcpClient`, without a connection. -/
def destroyTcpClient (s : ConnectorLoop) (a : Answers) : Except Fault ConnectorLoop := do
  let s ← s.stop a.now
  let (_, s) ← s.runAfter addTime 1 .removeConnector a
  return { s with client := false }

end

/-- A new timer that the connector does not add is the user's. -/
def callbackAfter (s : ConnectorLoop) : TimerLoop.Label → TimerPtr → TimerCallback
  | .addTimer _ p _ _ _ => update s.callback p .user
  | _ => s.callback

/-- Any other step of the loop's timers. -/
def timersStep (addTime : Timestamp → ℚ → Timestamp) (s : ConnectorLoop) (l : TimerLoop.Label) :
    Except Fault ConnectorLoop := do
  let timers ← (TimerLoop.machine addTime).step s.timers l
  return { s with timers, callback := s.callbackAfter l }

inductive Label
  /-- Calls of the `Connector`. -/
  | start (a : Answers)
  | stop (now : Timestamp)
  | restart (a : Answers)
  /-- Calls of the `TcpClient`. -/
  | clientConnect (a : Answers)
  | disconnect
  | clientStop (now : Timestamp)
  | enableRetry
  | destroyTcpClient (a : Answers)
  /-- The connection that was delivered is closed. -/
  | removeConnection (a : Answers)
  | handleEvent (revents : BitVec 32) (a : Answers)
  | resetChannel
  | runTimer (a : Answers)
  | handleReadEnd (now : Timestamp)
  | timers (l : TimerLoop.Label)

/-- `new` and `socket` return what is not in use. -/
def Answered (s : ConnectorLoop) (a : Answers) : Prop :=
  s.timers.Fresh a.timer ∧ ∀ x ∈ s.registered, x.fd ≠ a.sockfd

instance (s : ConnectorLoop) (a : Answers) : Decidable (s.Answered a) :=
  inferInstanceAs (Decidable (s.timers.Fresh a.timer ∧ ∀ x ∈ s.registered, x.fd ≠ a.sockfd))

/-- Code of the user that runs in the loop thread can call the client. -/
def Calls (s : ConnectorLoop) : Prop := s.timers.Calls ∧ s.client = true

instance (s : ConnectorLoop) : Decidable s.Calls :=
  inferInstanceAs (Decidable (s.timers.Calls ∧ s.client = true))

/-- The steps of the timers that are not among those of the connector. -/
def Other : TimerLoop.Label → Prop
  | .runTimer | .handleReadEnd _ => False
  | _ => True

instance (l : TimerLoop.Label) : Decidable (Other l) :=
  match l with
  | .runTimer | .handleReadEnd _ => isFalse not_false
  | .addTimer .. | .cancel .. | .doPendingFunctors | .runFunctor _ | .handleRead .. =>
    isTrue trivial

/-- The channel of a connection is polled after the round of the loop in which it was made, and
that ends with `resetChannel`. -/
def Enabled (addTime : Timestamp → ℚ → Timestamp) (s : ConnectorLoop) : Label → Prop
  | .start a | .restart a | .clientConnect a => s.Calls ∧ s.Answered a
  | .stop _ | .disconnect | .clientStop _ | .enableRetry => s.Calls
  | .destroyTcpClient a => s.Calls ∧ s.connection_ ≠ .established ∧ s.Answered a
  | .removeConnection a =>
    s.timers.batch = none ∧ s.client = true ∧ s.connection_ = .established ∧ s.resets = 0 ∧
      s.Answered a
  | .handleEvent _ a => s.timers.batch = none ∧ s.registered ≠ [] ∧ s.Answered a
  | .resetChannel => s.timers.batch = none ∧ 0 < s.resets
  | .runTimer a => (TimerLoop.machine addTime).enabled s.timers .runTimer ∧ s.Answered a
  | .handleReadEnd now => (TimerLoop.machine addTime).enabled s.timers (.handleReadEnd now)
  | .timers l => Other l ∧ (TimerLoop.withHandles addTime).enabled s.timers l

def step (addTime : Timestamp → ℚ → Timestamp) (s : ConnectorLoop) :
    Label → Except Fault ConnectorLoop
  | .start a => s.callStart addTime a
  | .stop now => s.stop now
  | .restart a => s.forget.restart addTime a
  | .clientConnect a => s.clientConnect addTime a
  | .disconnect => .ok s.disconnect
  | .clientStop now => s.clientStop now
  | .enableRetry => .ok s.enableRetry
  | .destroyTcpClient a => s.destroyTcpClient addTime a
  | .removeConnection a => s.removeConnection addTime a
  | .handleEvent revents a => s.handleEvent addTime revents a
  | .resetChannel => s.resetChannel
  | .runTimer a => s.runTimer addTime a
  | .handleReadEnd now => s.handleReadEnd addTime now
  | .timers l => s.timersStep addTime l

def machine (addTime : Timestamp → ℚ → Timestamp) : Machine ConnectorLoop Label Fault :=
  ⟨Enabled addTime, step addTime⟩

instance (addTime : Timestamp → ℚ → Timestamp) (s : ConnectorLoop) (l : Label) :
    Decidable ((machine addTime).enabled s l) :=
  match l with
  | .start a | .restart a | .clientConnect a =>
    inferInstanceAs (Decidable (s.Calls ∧ s.Answered a))
  | .stop _ | .disconnect | .clientStop _ | .enableRetry => inferInstanceAs (Decidable s.Calls)
  | .destroyTcpClient a =>
    inferInstanceAs (Decidable (s.Calls ∧ s.connection_ ≠ .established ∧ s.Answered a))
  | .removeConnection a => inferInstanceAs (Decidable (s.timers.batch = none ∧ s.client = true ∧
      s.connection_ = .established ∧ s.resets = 0 ∧ s.Answered a))
  | .handleEvent _ a =>
    inferInstanceAs (Decidable (s.timers.batch = none ∧ s.registered ≠ [] ∧ s.Answered a))
  | .resetChannel => inferInstanceAs (Decidable (s.timers.batch = none ∧ 0 < s.resets))
  | .runTimer a => inferInstanceAs
      (Decidable ((TimerLoop.machine addTime).enabled s.timers .runTimer ∧ s.Answered a))
  | .handleReadEnd now =>
    inferInstanceAs (Decidable ((TimerLoop.machine addTime).enabled s.timers (.handleReadEnd now)))
  | .timers l =>
    inferInstanceAs (Decidable (Other l ∧ (TimerLoop.withHandles addTime).enabled s.timers l))

end ConnectorLoop

end MuduoNet
