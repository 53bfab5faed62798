import MuduoNet.Rpc.Message
import MuduoNet.Lib.Machine
import MuduoNet.Lib.Tickets

/-!
# The balancer

Each I/O thread has a session with every backend and hands the requests of its clients to them
in turn. A session replaces the ids of requests by its own and keeps the original until a message
of the backend bears the new one. Codecs carry messages as they are; what a session hands to them
and gets from them is recorded in `history`.
-/
namespace MuduoNet.Rpc

open Lib Lib.Outcome

/-- `clientConn` numbers the client's connection, of which a weak pointer is kept. -/
structure Request where
  origId : UInt64
  clientConn : Nat
  deriving DecidableEq, Repr

/-- What a session has seen and done. -/
inductive SessionEvent
  /-- The message `sent` went to the backend for the `request` of `client`. -/
  | sent (client : Nat) (request sent : RpcMessage)
  /-- `message` came from the backend; what it made go to a client. -/
  | arrived (message : RpcMessage) (forwarded : Option (Nat × RpcMessage))
  deriving DecidableEq, Repr

/-- `conn_` numbers the connection to the backend. -/
structure BackendSession where
  conn_ : Option Nat
  nextId_ : UInt64
  outstandings_ : UInt64 → Option Request
  history : List SessionEvent

namespace BackendSession

def new : BackendSession := ⟨none, 0, fun _ => none, []⟩

/-- Whether the request was sent, and the message it has become. -/
def send (b : BackendSession) (msg : RpcMessage) (clientConn : Nat) :
    Except Fault (Bool × RpcMessage × BackendSession) :=
  match b.conn_ with
  | none => .ok (false, msg, b)
  | some _ => do
    let id := b.nextId_ + 1
    let r : Request := ⟨msg.id, clientConn⟩
    assert (b.outstandings_ id = none)
    let sent := msg.set_id id
    return (true, sent, { b with
      nextId_ := id
      outstandings_ := Function.update b.outstandings_ id (some r)
      history := b.history ++ [.sent clientConn msg sent] })

/-- The pointer to the connection `conn`, which is up or down. -/
def onConnection (b : BackendSession) (conn : Nat) (connected : Bool) : BackendSession :=
  { b with conn_ := if connected then some conn else none }

/-- `alive` are the clients' connections that a weak pointer can still lock. -/
def onRpcMessage (alive : Nat → Bool) (b : BackendSession) (msg : RpcMessage) : BackendSession :=
  match b.outstandings_ msg.id with
  | some r =>
    let forwarded := if alive r.clientConn then some (r.clientConn, msg.set_id r.origId) else none
    { b with
      outstandings_ := Function.update b.outstandings_ msg.id none
      history := b.history ++ [.arrived msg forwarded] }
  | none => { b with history := b.history ++ [.arrived msg none] }

end BackendSession

structure PerThread where
  current : Nat
  backends : List BackendSession

/-- The loop of `onRpcMessage`, with `left` backends to try. -/
def PerThread.trySend : Nat → PerThread → RpcMessage → Nat → Except Fault PerThread
  | 0, t, _, _ => .ok t
  | left + 1, t, msg, conn =>
    match t.backends[t.current]? with
    | none => .error .outOfBounds
    | some b => do
      let (succeed, msg, b) ← b.send msg conn
      let t := ⟨(t.current + 1) % t.backends.length, t.backends.set t.current b⟩
      if succeed then return t else trySend left t msg conn

/-- A client's connection: on which thread, and whether it still exists. -/
inductive ClientState
  | new
  | alive (thread : Nat)
  | gone
  deriving DecidableEq, Repr

structure Balancer where
  t_backends_ : Nat → PerThread
  client : Nat → ClientState

inductive BalancerLabel
  /-- The server hands the new connection `conn` to a thread. -/
  | accept (conn thread : Nat)
  /-- The last pointer to a client's connection is dropped. -/
  | drop (conn : Nat)
  /-- A client sends a message. -/
  | request (conn : Nat) (msg : RpcMessage)
  /-- The connection of the session `i` of a thread goes up or down. -/
  | backend (thread i conn : Nat) (connected : Bool)
  /-- A backend sends a message. -/
  | reply (thread i : Nat) (msg : RpcMessage)
  deriving DecidableEq, Repr

namespace Balancer

/-- `initPerThread` has run in every thread, and took the number `count thread`. -/
def start (count : Nat → Nat) (backends : Nat) : Balancer where
  t_backends_ thread := ⟨count thread % backends, List.replicate backends .new⟩
  client _ := .new

def alive (s : Balancer) (conn : Nat) : Bool :=
  match s.client conn with
  | .alive _ => true
  | _ => false

def session (s : Balancer) (thread i : Nat) : Option BackendSession :=
  (s.t_backends_ thread).backends[i]?

def setThread (s : Balancer) (thread : Nat) (t : PerThread) : Balancer :=
  { s with t_backends_ := Function.update s.t_backends_ thread t }

def setSession (s : Balancer) (thread i : Nat) (b : BackendSession) : Balancer :=
  s.setThread thread { s.t_backends_ thread with backends := (s.t_backends_ thread).backends.set i b }

def onRpcMessage (s : Balancer) (conn thread : Nat) (msg : RpcMessage) : Except Fault Balancer := do
  let t := s.t_backends_ thread
  let t ← t.trySend t.backends.length msg conn
  return s.setThread thread t

def enabled (s : Balancer) : BalancerLabel → Prop
  | .accept conn _ => s.client conn = .new
  | .drop conn => s.alive conn
  | .request conn _ => s.alive conn
  | .backend thread i _ _ => (s.session thread i).isSome
  | .reply thread i _ => (s.session thread i).isSome

def step (s : Balancer) : BalancerLabel → Except Fault Balancer
  | .accept conn thread => .ok { s with client := Function.update s.client conn (.alive thread) }
  | .drop conn => .ok { s with client := Function.update s.client conn .gone }
  | .request conn msg =>
    match s.client conn with
    | .alive thread => s.onRpcMessage conn thread msg
    | _ => .ok s
  | .backend thread i conn connected =>
    match s.session thread i with
    | some b => .ok (s.setSession thread i (b.onConnection conn connected))
    | none => .ok s
  | .reply thread i msg =>
    match s.session thread i with
    | some b => .ok (s.setSession thread i (b.onRpcMessage s.alive msg))
    | none => .ok s

def machine : Machine Balancer BalancerLabel Fault := ⟨enabled, step⟩

instance (s : Balancer) : ∀ l, Decidable (machine.enabled s l)
  | .accept conn _ => inferInstanceAs (Decidable (s.client conn = .new))
  | .drop conn => inferInstanceAs (Decidable (s.alive conn = true))
  | .request conn _ => inferInstanceAs (Decidable (s.alive conn = true))
  | .backend thread i _ _ => inferInstanceAs (Decidable ((s.session thread i).isSome = true))
  | .reply thread i _ => inferInstanceAs (Decidable ((s.session thread i).isSome = true))

end Balancer

end MuduoNet.Rpc
