import MuduoNet.EventLoop.Basic
import MuduoNet.Poller.Registry
import MuduoNet.Tcp.Connection
import Mathlib.Logic.Function.Basic

/-!
# Servers, clients and their connections

Any number of `TcpServer`s and `TcpClient`s share the loops, each loop with its thread and its
poller. A thread runs its loop's handlers and functors one by one; what user code does in a
callback, or in a thread without a loop, are steps of their own. A connection's functions run
as in `TcpConnection`, and their effects reach the poller, the queues and the owner here.
-/
namespace MuduoNet

open Lib Lib.Outcome

/-- A `TcpConnection *`. Its `channel_` goes by the same pointer. -/
abbrev ConnPtr := ChannelPtr

inductive Handler
  | error | close | read | write
  deriving DecidableEq, Repr

namespace Channel

def POLLERR : BitVec 32 := 0x008
def POLLHUP : BitVec 32 := 0x010
def POLLNVAL : BitVec 32 := 0x020
def POLLRDHUP : BitVec 32 := 0x2000

/-- The handlers that `handleEvent` calls, in this order. All four callbacks are set. -/
def handleEvent (revents : BitVec 32) : List Handler :=
  (if revents &&& (POLLERR ||| POLLNVAL) ≠ 0 then [.error] else []) ++
  (if revents &&& POLLHUP ≠ 0 ∧ revents &&& POLLIN = 0 then [.close] else []) ++
  (if revents &&& (POLLIN ||| POLLPRI ||| POLLRDHUP) ≠ 0 then [.read] else []) ++
  (if revents &&& POLLOUT ≠ 0 then [.write] else [])

end Channel

/-- The connection between two of its functions: their effects have been dealt with. -/
def TcpConnection.idle (c : TcpConnection) : TcpConnection := { c with trace := [] }

/-- Who set a connection's `closeCallback_`. -/
inductive OwnerPtr
  | server (k : Nat)
  | client (k : Nat)
  deriving DecidableEq

structure Connection where
  loop_ : ThreadId
  /-- The key in the server's map. A client's connection has a name that nothing reads. -/
  name_ : String
  owner : OwnerPtr
  /-- What the functions of `TcpConnection` work on. -/
  tcp : TcpConnection

structure EventLoopThreadPool where
  baseLoop_ : ThreadId
  loops_ : List ThreadId
  next_ : Nat

def EventLoopThreadPool.getNextLoop (t : EventLoopThreadPool) :
    Except Fault (ThreadId × EventLoopThreadPool) :=
  if t.loops_ = [] then .ok (t.baseLoop_, t)
  else
    match t.loops_[t.next_]? with
    | none => .error .outOfBounds
    | some loop =>
      let next := t.next_ + 1
      .ok (loop, { t with next_ := if t.loops_.length ≤ next then 0 else next })

structure TcpServer where
  loop_ : ThreadId
  name_ : String
  threadPool_ : EventLoopThreadPool
  writeCompleteCallback_ : Bool
  nextConnId_ : Int
  connections_ : String → Option ConnPtr

/-- The states of a `Connector`. -/
inductive ConnectorState
  | kDisconnected | kConnecting | kConnected
  deriving DecidableEq, Repr

structure TcpClient where
  loop_ : ThreadId
  connector_ : ConnectorState
  writeCompleteCallback_ : Bool
  retry_ : Bool
  connect_ : Bool
  connection_ : Option ConnPtr

/-- A functor in the queue of a loop. -/
inductive NetFunctor
  | connectEstablished (c : ConnPtr)
  | connectDestroyed (c : ConnPtr)
  | removeConnectionInLoop (k : Nat) (c : ConnPtr)
  | sendInLoop (c : ConnPtr) (message : Span)
  | shutdownInLoop (c : ConnPtr)
  /-- A callback, or anything else of the user. -/
  | user
  deriving DecidableEq

/-- The connection a functor is about. -/
def NetFunctor.conn : NetFunctor → Option ConnPtr
  | .connectEstablished c | .connectDestroyed c | .removeConnectionInLoop _ c | .sendInLoop c _
  | .shutdownInLoop c => some c
  | .user => none

/-- How far a thread has got in `send` or `shutdown`. -/
inductive NetCall
  | none
  /-- `send` has found `kConnected`. -/
  | send (c : ConnPtr) (message : Span)
  /-- `shutdown` has found `kConnected`. -/
  | shutdown (c : ConnPtr)
  /-- `shutdown` has set `kDisconnecting`. -/
  | disconnecting (c : ConnPtr)
  deriving DecidableEq

/-- What is left to hand to `runInLoop`. -/
def NetCall.functor : NetCall → Option NetFunctor
  | .send c message => some (.sendInLoop c message)
  | .disconnecting c => some (.shutdownInLoop c)
  | .none | .shutdown _ => Option.none

/-- The connection a call is about. -/
def NetCall.conn : NetCall → Option ConnPtr
  | .send c _ | .shutdown c | .disconnecting c => some c
  | .none => Option.none

/-- Where a thread is in `loop()`. -/
inductive Phase
  /-- Not in `loop()`; a thread without a loop is always here. -/
  | outside
  | polling
  /-- The handlers still to be called, for the rest of `activeChannels`. -/
  | handling (todo : List (ConnPtr × Handler))
  /-- What is left of the vector that `doPendingFunctors` has swapped out. -/
  | functors (batch : List NetFunctor)
  deriving DecidableEq

def Phase.todo : Phase → List (ConnPtr × Handler)
  | .handling todo => todo
  | _ => []

def Phase.batch : Phase → List NetFunctor
  | .functors batch => batch
  | _ => []

/-- The handlers of the channel `c`, which is none of a connection, are skipped. -/
def Phase.without (c : ChannelPtr) : Phase → Phase
  | .handling todo => .handling (todo.filter fun x => x.1 ≠ c)
  | phase => phase

/-- What happens to a connection. -/
inductive Event
  /-- Its owner has built it. -/
  | accepted
  | effect (e : Effect)
  /-- Its owner has dropped it. -/
  | removed
  deriving DecidableEq, Repr

/-- Where an assertion stands. -/
inductive Site
  | loop | poller | connection | owner | connector
  deriving DecidableEq, Repr

abbrev NetFault := Site × Fault

def failsAt {α : Type} (site : Site) (x : Except Fault α) : Except NetFault α :=
  x.mapError fun f => (site, f)

/-- The program does not read `history`: what happened to each connection, and in which
thread. -/
structure Net where
  poller : ThreadId → Poller
  pendingFunctors_ : ThreadId → List NetFunctor
  phase : ThreadId → Phase
  call : ThreadId → NetCall
  server : Nat → TcpServer
  client : Nat → TcpClient
  conn : ConnPtr → Connection
  /-- The registered channels of no connection, with their loops: those of the eventfd, the
  timerfd, an acceptor or a connector. -/
  other : ChannelPtr → Option ThreadId
  /-- The next pointer that `new` returns. -/
  allocated : ChannelPtr
  history : ConnPtr → List (Event × ThreadId)

namespace Net

def assertInLoopThread (i loop : ThreadId) : Except NetFault Unit :=
  failsAt .loop (demand .fatal (i = loop))

def record (s : Net) (i : ThreadId) (c : ConnPtr) (e : Event) : Net :=
  { s with history := Function.update s.history c (s.history c ++ [(e, i)]) }

def setPoller (s : Net) (i : ThreadId) (p : Poller) : Net :=
  { s with poller := Function.update s.poller i p }

def setPhase (s : Net) (i : ThreadId) (phase : Phase) : Net :=
  { s with phase := Function.update s.phase i phase }

def setCall (s : Net) (i : ThreadId) (call : NetCall) : Net :=
  { s with call := Function.update s.call i call }

def setServer (s : Net) (k : Nat) (server : TcpServer) : Net :=
  { s with server := Function.update s.server k server }

def setClient (s : Net) (k : Nat) (client : TcpClient) : Net :=
  { s with client := Function.update s.client k client }

def setTcp (s : Net) (c : ConnPtr) (tcp : TcpConnection) : Net :=
  { s with conn := Function.update s.conn c { s.conn c with tcp := tcp } }

def setOther (s : Net) (c : ChannelPtr) (loop : Option ThreadId) : Net :=
  { s with other := Function.update s.other c loop }

/-- `new TcpConnection`. -/
def create (s : Net) (i : ThreadId) (conn : Connection) : Net :=
  { s with
    conn := Function.update s.conn s.allocated conn
    allocated := s.allocated + 1 }.record i s.allocated .accepted

/-- The push of `queueInLoop`; what it does to the eventfd is left to `EventLoop`. -/
def queueInLoop (s : Net) (i : ThreadId) (cb : NetFunctor) : Net :=
  { s with pendingFunctors_ := Function.update s.pendingFunctors_ i (s.pendingFunctors_ i ++ [cb]) }

/-- `EventLoop::updateChannel`, for a channel that has stored its new interest. -/
def updateChannel (s : Net) (i : ThreadId) (c : ChannelPtr) (events : BitVec 32) :
    Except NetFault Net := do
  let p ← failsAt .poller ((s.poller i).setEvents c events)
  return s.setPoller i p

def removeChannel (s : Net) (i : ThreadId) (c : ChannelPtr) : Except NetFault Net := do
  let p ← failsAt .poller ((s.poller i).removeChannel c)
  return s.setPoller i p

/-- `TcpServer::removeConnectionInLoop`. -/
def removeConnectionInLoop (s : Net) (i : ThreadId) (k : Nat) (c : ConnPtr) :
    Except NetFault Net := do
  let server := s.server k
  let conn := s.conn c
  assertInLoopThread i server.loop_
  failsAt .owner (assert (server.connections_ conn.name_ ≠ none))
  let connections := Function.update server.connections_ conn.name_ none
  let s := (s.setServer k { server with connections_ := connections }).record i c .removed
  return s.queueInLoop conn.loop_ (.connectDestroyed c)

/-- `TcpServer::removeConnection`. -/
def serverRemoveConnection (s : Net) (i : ThreadId) (k : Nat) (c : ConnPtr) :
    Except NetFault Net :=
  let loop := (s.server k).loop_
  if i = loop then s.removeConnectionInLoop i k c
  else .ok (s.queueInLoop loop (.removeConnectionInLoop k c))

/-- `TcpClient::removeConnection`. Of `Connector::restart` only the first statement is here:
`startInLoop` follows as a step of its own. -/
def clientRemoveConnection (s : Net) (i : ThreadId) (k : Nat) (c : ConnPtr) :
    Except NetFault Net := do
  let client := s.client k
  assertInLoopThread i client.loop_
  failsAt .owner (assert (client.loop_ = (s.conn c).loop_))
  failsAt .owner (assert (client.connection_ = some c))
  let restarts := client.retry_ && client.connect_
  let client := { client with
    connection_ := none
    connector_ := if restarts then .kDisconnected else client.connector_ }
  let s := (s.setClient k client).record i c .removed
  return s.queueInLoop client.loop_ (.connectDestroyed c)

/-- An effect of the connection `c`, in the thread `i`. -/
def effect (i : ThreadId) (c : ConnPtr) (s : Net) (e : Effect) : Except NetFault Net :=
  let s := s.record i c (.effect e)
  match e with
  | .updateChannel events => s.updateChannel i c events
  | .removeChannel => s.removeChannel i c
  | .queueWriteComplete => .ok (s.queueInLoop i .user)
  | .closeCallback =>
    match (s.conn c).owner with
    | .server k => s.serverRemoveConnection i k c
    | .client k => s.clientRemoveConnection i k c
  | .sendInLoop _ | .wrote _ | .writeFailed _ | .shutdownWrite | .connectionCallback _
  | .messageCallback => .ok s

/-- A function of the connection `c`, called in the thread `i`. (`handleRead` and
`handleError` leave `assertInLoopThread` to what they call.) -/
def perform (s : Net) (i : ThreadId) (c : ConnPtr)
    (f : TcpConnection → Except Fault TcpConnection) : Except NetFault Net := do
  assertInLoopThread i (s.conn c).loop_
  let tcp ← failsAt .connection (f (s.conn c).tcp.idle)
  tcp.trace.foldlM (effect i c) (s.setTcp c tcp.idle)

/-- The body of a functor; `w` is the result of `::write`, where it is called. -/
def runFunctor (s : Net) (i : ThreadId) (w : WriteResult) : NetFunctor → Except NetFault Net
  | .connectEstablished c => s.perform i c (·.connectEstablished)
  | .connectDestroyed c => s.perform i c (·.connectDestroyed)
  | .removeConnectionInLoop k c => s.removeConnectionInLoop i k c
  | .sendInLoop c message => s.perform i c (·.sendInLoop message.bytes w)
  | .shutdownInLoop c => s.perform i c (fun tcp => .ok tcp.shutdownInLoop)
  | .user => .ok s

/-- `runInLoop` of the loop `j`, called in the thread `i`. -/
def runInLoop (s : Net) (i j : ThreadId) (w : WriteResult) (cb : NetFunctor) :
    Except NetFault Net :=
  if i = j then s.runFunctor i w cb else .ok (s.queueInLoop j cb)

/-- The name of a server's connection. -/
def connName (name : String) (nextConnId : Int) : String := name ++ ("#" ++ Int.repr nextConnId)

/-- `TcpServer::newConnection`. That an earlier `nextConnId_++` has left the range of `int` is
found out here, where the value is used. -/
def serverNewConnection (s : Net) (i : ThreadId) (k : Nat) (sockfd : Int) :
    Except NetFault Net := do
  let server := s.server k
  assertInLoopThread i server.loop_
  failsAt .owner (demand .overflow (server.nextConnId_ < 2 ^ 31))
  let name := connName server.name_ server.nextConnId_
  let (ioLoop, threadPool) ← failsAt .owner server.threadPool_.getNextLoop
  let c := s.allocated
  let tcp := TcpConnection.new sockfd server.writeCompleteCallback_
  let s := (s.create i ⟨ioLoop, name, .server k, tcp⟩).setServer k { server with
    nextConnId_ := server.nextConnId_ + 1
    threadPool_ := threadPool
    connections_ := Function.update server.connections_ name (some c) }
  s.runInLoop i ioLoop (.failed 0) (.connectEstablished c)

/-- `TcpClient::newConnection`, called by the connector once it is connected. -/
def clientNewConnection (s : Net) (i : ThreadId) (k : Nat) (sockfd : Int) :
    Except NetFault Net := do
  let client := s.client k
  assertInLoopThread i client.loop_
  let c := s.allocated
  let tcp := TcpConnection.new sockfd client.writeCompleteCallback_
  let s := (s.create i ⟨client.loop_, "", .client k, tcp⟩).setClient k { client with
    connector_ := .kConnected
    connection_ := some c }
  s.perform i c (·.connectEstablished)

/-- A handler of the channel `c`. The handlers of the other channels are left to the steps. -/
def handle (s : Net) (i : ThreadId) (r : Buffer.ReadvResult) (w : WriteResult) (c : ConnPtr)
    (h : Handler) : Except NetFault Net :=
  if s.other c ≠ none then .ok s
  else
    match h with
    | .error => s.perform i c (fun tcp => .ok tcp.handleError)
    | .close => s.perform i c (·.handleClose)
    | .read => s.perform i c (·.handleRead r)
    | .write => s.perform i c (·.handleWrite w)

/-- `poll`, and the handlers that the loop over `activeChannels` is going to call. -/
def poll (s : Net) (i : ThreadId) (numEvents : Int) (revents : List (BitVec 16)) :
    Except NetFault Net := do
  let (p, active) ← failsAt .poller ((s.poller i).poll numEvents revents)
  let todo := active.flatMap fun c =>
    (Channel.handleEvent (p.channel c).revents_).map fun h => (c, h)
  return (s.setPoller i p).setPhase i (.handling todo)

/-- `send`, up to the call of `runInLoop`. -/
def send (s : Net) (i : ThreadId) (c : ConnPtr) (message : Span) : Net :=
  if (s.conn c).tcp.state_ = .kConnected then s.setCall i (.send c message) else s

/-- The check of `shutdown`. -/
def shutdown (s : Net) (i : ThreadId) (c : ConnPtr) : Net :=
  if (s.conn c).tcp.state_ = .kConnected then s.setCall i (.shutdown c) else s

/-- `shutdown` sets `kDisconnecting`. -/
def setDisconnecting (s : Net) (i : ThreadId) : Net :=
  match s.call i with
  | .shutdown c =>
    (s.setTcp c ((s.conn c).tcp.setState .kDisconnecting)).setCall i (.disconnecting c)
  | _ => s

end Net

end MuduoNet
