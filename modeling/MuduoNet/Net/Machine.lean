import MuduoNet.Net.Basic
import MuduoNet.Poller.Consistent
import MuduoNet.Tcp.Effects

/-!
# The steps of servers, clients and connections

A label is one step of one thread. The results of `poll`, `readv` and `write`, the moments at
which connections are accepted, and the calls of `send` and `shutdown` are the environment's.
`fd` fixes in advance the descriptor of each channel.
-/
namespace MuduoNet

open Lib Lib.Outcome

/-- What a connector does besides `newConnectionCallback_`. -/
inductive ConnectorMove
  /-- `startInLoop`; the attempt is under way or has failed at once. -/
  | startInLoop (connecting : Bool)
  | retry
  /-- Connected, but `connect_` has been unset. -/
  | drop
  deriving DecidableEq, Repr

/-- `i` and `j` are threads, `k` is a server or a client. -/
inductive NetLabel
  /-- `loop()` is called. -/
  | loop (i : ThreadId)
  | poll (i : ThreadId) (numEvents : Int) (revents : List (BitVec 16))
  /-- The next handler. -/
  | handle (i : ThreadId) (r : Buffer.ReadvResult) (w : WriteResult)
  /-- `doPendingFunctors` swaps the vector out. -/
  | swap (i : ThreadId)
  /-- The next functor. -/
  | functor (i : ThreadId) (w : WriteResult)
  /-- The next iteration of `loop()`. -/
  | again (i : ThreadId)
  /-- `loop()` returns. -/
  | quit (i : ThreadId)
  /-- User code queues a functor in the loop `j`. -/
  | queueInLoop (i j : ThreadId)
  | send (i : ThreadId) (c : ConnPtr) (message : Span)
  | shutdown (i : ThreadId) (c : ConnPtr)
  | setDisconnecting (i : ThreadId)
  /-- The end of `send` or `shutdown`. -/
  | runInLoop (i : ThreadId) (w : WriteResult)
  /-- The acceptor of the server `k` has a connection. -/
  | accept (k : Nat)
  /-- The connector of the client `k` has one. -/
  | connected (k : Nat)
  | connector (k : Nat) (move : ConnectorMove)
  | enableRetry (k : Nat)
  /-- `connect`, `disconnect` or `stop` of the client `k`. -/
  | setConnect (k : Nat) (connect : Bool)
  /-- A channel of no connection is built and registered. -/
  | register (i : ThreadId) (events : BitVec 32)
  | change (i : ThreadId) (c : ChannelPtr) (events : BitVec 32)
  | unregister (i : ThreadId) (c : ChannelPtr)

/-- `::write` accepts at most what it is given. -/
def NetFunctor.CanWrite : NetFunctor → WriteResult → Prop
  | .sendInLoop _ message, .wrote n => n ≤ message.bytes.length
  | _, _ => True

/-- What `readv` and `::write` may return to a handler. -/
def Handler.Can (tcp : TcpConnection) (r : Buffer.ReadvResult) (w : WriteResult) : Handler → Prop
  | .read => tcp.CanRead r
  | .write =>
    match w with
    | .wrote n => n ≤ tcp.outputBuffer_.readableBytes
    | .failed _ => True
  | .error | .close => True

@[match_pattern] abbrev Event.established : Event := .effect (.connectionCallback true)
@[match_pattern] abbrev Event.closed : Event := .effect .closeCallback
@[match_pattern] abbrev Event.destroyed : Event := .effect (.connectionCallback false)

namespace Net

/-- The environment: descriptors, the servers and the clients, each with its loops and its name,
and whether it has a `writeCompleteCallback_`. -/
structure Setup where
  fd : ChannelPtr → Int
  serverLoop : Nat → ThreadId
  serverName : Nat → String
  /-- The I/O loops of a server; there may be none. -/
  ioLoops : Nat → List ThreadId
  serverWrites : Nat → Bool
  clientLoop : Nat → ThreadId
  clientWrites : Nat → Bool

/-- All servers are started, and nothing is connected. -/
def start (e : Setup) : Net where
  poller _ := ⟨[], fun _ => none, fun c => .new (e.fd c)⟩
  pendingFunctors_ _ := []
  phase _ := .outside
  call _ := .none
  server k := ⟨e.serverLoop k, e.serverName k, ⟨e.serverLoop k, e.ioLoops k, 0⟩, e.serverWrites k, 1,
    fun _ => none⟩
  client k := ⟨e.clientLoop k, .kDisconnected, e.clientWrites k, false, false, none⟩
  conn c := ⟨0, "", .client 0, .new (e.fd c) false⟩
  other _ := none
  allocated := 0
  history _ := []

/-- How often `e` has happened to `c`. -/
def times (s : Net) (c : ConnPtr) (e : Event) : Nat := ((s.history c).map Prod.fst).count e

/-- The functors that are queued, or swapped out and not yet run. -/
def functors (s : Net) (i : ThreadId) : List NetFunctor := (s.phase i).batch ++ s.pendingFunctors_ i

/-- `c` has an open descriptor: a connection that `connectDestroyed` has not reached, or a
registered channel of no connection. -/
def Open (s : Net) (c : ChannelPtr) : Prop :=
  0 < s.times c .accepted ∧ s.times c .destroyed = 0 ∨ s.other c ≠ none

instance (s : Net) (c : ChannelPtr) : Decidable (s.Open c) := inferInstanceAs (Decidable (_ ∨ _))

/-- The kernel can return the descriptor of the next channel. -/
def Free (fd : ChannelPtr → Int) (s : Net) : Prop :=
  0 ≤ fd s.allocated ∧ ∀ c < s.allocated, s.Open c → fd c ≠ fd s.allocated

/-- The thread can go on; in `send` or `shutdown` it ends that call first. -/
def Ready (s : Net) (i : ThreadId) : Prop := s.call i = .none ∧ s.phase i ≠ .polling

/-- The handlers run. -/
def Handling (s : Net) (i : ThreadId) : Prop :=
  s.call i = .none ∧ match s.phase i with | .handling _ => True | _ => False

def Enabled (fd : ChannelPtr → Int) (s : Net) : NetLabel → Prop
  | .loop i => s.call i = .none ∧ s.phase i = .outside
  | .poll i numEvents revents =>
    s.call i = .none ∧ s.phase i = .polling ∧ (s.poller i).SetsRevents numEvents revents
  | .handle i r w => s.call i = .none ∧
    match s.phase i with
    | .handling ((c, h) :: _) => h.Can (s.conn c).tcp r w
    | _ => False
  | .swap i => s.call i = .none ∧ s.phase i = .handling []
  | .functor i w => s.call i = .none ∧
    match s.phase i with
    | .functors (cb :: _) => cb.CanWrite w
    | _ => False
  | .again i | .quit i => s.call i = .none ∧ s.phase i = .functors []
  | .queueInLoop i _ => s.Ready i
  | .send i c _ | .shutdown i c => s.Ready i ∧ 0 < s.times c .accepted
  | .setDisconnecting i =>
    match s.call i with
    | .shutdown _ => True
    | _ => False
  | .runInLoop i w =>
    match (s.call i).functor with
    | some cb => cb.CanWrite w
    | none => False
  | .accept k => s.Handling (s.server k).loop_ ∧ s.Free fd
  | .connected k => s.Handling (s.client k).loop_ ∧ (s.client k).connector_ = .kConnecting ∧ s.Free fd
  | .connector k (.startInLoop _) => s.Ready (s.client k).loop_
  | .connector k .retry | .connector k .drop =>
    s.Handling (s.client k).loop_ ∧ (s.client k).connector_ = .kConnecting
  | .enableRetry _ | .setConnect _ _ => True
  | .register i _ => s.Ready i ∧ s.Free fd
  | .change i c _ => s.Ready i ∧ s.other c = some i
  | .unregister i c => s.Ready i ∧ s.other c = some i ∧
    ((s.poller i).channel c).events_ = Channel.kNoneEvent

/-- A move of the connector of the client `k`. -/
def moveConnector (s : Net) (k : Nat) (move : ConnectorMove) : Except NetFault Net := do
  let client := s.client k
  match move with
  | .startInLoop connecting =>
    failsAt .connector (assert (client.connector_ = .kDisconnected))
    return s.setClient k { client with
      connector_ := if connecting then .kConnecting else .kDisconnected }
  | .retry => return s.setClient k { client with connector_ := .kDisconnected }
  | .drop => return s.setClient k { client with connector_ := .kConnected }

def step (fd : ChannelPtr → Int) (s : Net) : NetLabel → Except NetFault Net
  | .loop i => .ok (s.setPhase i .polling)
  | .poll i numEvents revents => s.poll i numEvents revents
  | .handle i r w =>
    match s.phase i with
    | .handling ((c, h) :: todo) => (s.setPhase i (.handling todo)).handle i r w c h
    | _ => .ok s
  | .swap i => .ok { s.setPhase i (.functors (s.pendingFunctors_ i)) with
      pendingFunctors_ := Function.update s.pendingFunctors_ i [] }
  | .functor i w =>
    match s.phase i with
    | .functors (cb :: batch) => (s.setPhase i (.functors batch)).runFunctor i w cb
    | _ => .ok s
  | .again i => .ok (s.setPhase i .polling)
  | .quit i => .ok (s.setPhase i .outside)
  | .queueInLoop _ j => .ok (s.queueInLoop j .user)
  | .send i c message => .ok (s.send i c message)
  | .shutdown i c => .ok (s.shutdown i c)
  | .setDisconnecting i => .ok (s.setDisconnecting i)
  | .runInLoop i w =>
    match s.call i with
    | .send c message => (s.setCall i .none).runInLoop i (s.conn c).loop_ w (.sendInLoop c message)
    | .disconnecting c => (s.setCall i .none).runInLoop i (s.conn c).loop_ w (.shutdownInLoop c)
    | _ => .ok s
  | .accept k => s.serverNewConnection (s.server k).loop_ k (fd s.allocated)
  | .connected k => s.clientNewConnection (s.client k).loop_ k (fd s.allocated)
  | .connector k move => s.moveConnector k move
  | .enableRetry k => .ok (s.setClient k { s.client k with retry_ := true })
  | .setConnect k connect => .ok (s.setClient k { s.client k with connect_ := connect })
  | .register i events => do
    let s' ← s.updateChannel i s.allocated events
    return { s'.setOther s.allocated (some i) with allocated := s.allocated + 1 }
  | .change i c events => s.updateChannel i c events
  | .unregister i c => do
    let s' ← s.removeChannel i c
    return (s'.setOther c none).setPhase i ((s.phase i).without c)

def machine (fd : ChannelPtr → Int) : Machine Net NetLabel NetFault where
  enabled := Enabled fd
  step := step fd

instance (cb : NetFunctor) (w : WriteResult) : Decidable (cb.CanWrite w) :=
  match cb, w with
  | .sendInLoop _ message, .wrote n => inferInstanceAs (Decidable (n ≤ message.bytes.length))
  | .sendInLoop _ _, .failed _ | .connectEstablished _, _ | .connectDestroyed _, _
  | .removeConnectionInLoop _ _, _ | .shutdownInLoop _, _ | .user, _ => isTrue trivial

instance (tcp : TcpConnection) (r : Buffer.ReadvResult) (w : WriteResult) (h : Handler) :
    Decidable (h.Can tcp r w) :=
  match h, r, w with
  | .read, .delivered bytes, _ => inferInstanceAs (Decidable
      (bytes.length ≤ tcp.inputBuffer_.writableBytes + Buffer.kExtrabuf))
  | .read, .failed _, _ => isTrue trivial
  | .write, _, .wrote n => inferInstanceAs (Decidable (n ≤ tcp.outputBuffer_.readableBytes))
  | .write, _, .failed _ => isTrue trivial
  | .error, _, _ | .close, _, _ => isTrue trivial

instance (fd : ChannelPtr → Int) (s : Net) : Decidable (s.Free fd) :=
  inferInstanceAs (Decidable (_ ∧ ∀ c < s.allocated, s.Open c → fd c ≠ fd s.allocated))

instance (s : Net) (i : ThreadId) : Decidable (s.Ready i) := inferInstanceAs (Decidable (_ ∧ _))

instance (s : Net) (i : ThreadId) : Decidable (s.Handling i) :=
  match h : s.phase i with
  | .handling _ => decidable_of_iff (s.call i = .none) (by simp [Handling, h])
  | .outside | .polling | .functors _ => isFalse (by simp [Handling, h])

instance (fd : ChannelPtr → Int) (s : Net) (l : NetLabel) : Decidable ((machine fd).enabled s l) :=
  match l with
  | .loop _ => inferInstanceAs (Decidable (_ ∧ _))
  | .poll i numEvents revents => inferInstanceAs (Decidable (s.call i = .none ∧ s.phase i = .polling ∧
      (s.poller i).SetsRevents numEvents revents))
  | .handle i r w =>
    match h : s.phase i with
    | .handling ((c, x) :: _) => decidable_of_iff (s.call i = .none ∧ x.Can (s.conn c).tcp r w)
        (by simp [machine, Enabled, h])
    | .handling [] | .outside | .polling | .functors _ => isFalse (by simp [machine, Enabled, h])
  | .swap _ => inferInstanceAs (Decidable (_ ∧ _))
  | .functor i w =>
    match h : s.phase i with
    | .functors (cb :: _) => decidable_of_iff (s.call i = .none ∧ cb.CanWrite w)
        (by simp [machine, Enabled, h])
    | .functors [] | .outside | .polling | .handling _ => isFalse (by simp [machine, Enabled, h])
  | .again _ | .quit _ => inferInstanceAs (Decidable (_ ∧ _))
  | .queueInLoop i _ => inferInstanceAs (Decidable (s.Ready i))
  | .send i c _ | .shutdown i c => inferInstanceAs (Decidable (s.Ready i ∧ 0 < s.times c .accepted))
  | .setDisconnecting i =>
    match h : s.call i with
    | .shutdown _ => isTrue (by simp [machine, Enabled, h])
    | .none | .send _ _ | .disconnecting _ => isFalse (by simp [machine, Enabled, h])
  | .runInLoop i w =>
    match h : (s.call i).functor with
    | some cb => decidable_of_iff (cb.CanWrite w) (by simp [machine, Enabled, h])
    | none => isFalse (by simp [machine, Enabled, h])
  | .accept k => inferInstanceAs (Decidable (s.Handling (s.server k).loop_ ∧ s.Free fd))
  | .connected k => inferInstanceAs (Decidable (s.Handling (s.client k).loop_ ∧
      (s.client k).connector_ = .kConnecting ∧ s.Free fd))
  | .connector k (.startInLoop _) => inferInstanceAs (Decidable (s.Ready (s.client k).loop_))
  | .connector k .retry | .connector k .drop => inferInstanceAs (Decidable
      (s.Handling (s.client k).loop_ ∧ (s.client k).connector_ = .kConnecting))
  | .enableRetry _ | .setConnect _ _ => isTrue trivial
  | .register i _ => inferInstanceAs (Decidable (s.Ready i ∧ s.Free fd))
  | .change i c _ => inferInstanceAs (Decidable (s.Ready i ∧ s.other c = some i))
  | .unregister i c => inferInstanceAs (Decidable (s.Ready i ∧ s.other c = some i ∧
      ((s.poller i).channel c).events_ = Channel.kNoneEvent))

end Net

end MuduoNet
