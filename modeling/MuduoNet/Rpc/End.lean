import MuduoNet.Rpc.Channel
import MuduoNet.Lib.Machine
import MuduoNet.Lib.Tickets

/-!
# One end of an RPC connection

Any number of threads are inside `CallMethod`, the loop thread hands one message after the other
to `onRpcMessage` and does what follows from it, and services run the closures of the requests
they have accepted in any order. The `n`-th call has the response and the closure with the number
`n`. Nothing is assumed of the messages that arrive.
-/
namespace MuduoNet.Rpc

open Lib Lib.Outcome

/-- Where a thread is in `CallMethod`. -/
inductive CallPc
  | idle
  /-- The id is taken, the entry is not yet made. -/
  | counted (id : Int64) (out : OutstandingCall) (message : RpcMessage)
  /-- The entry is made, the request not yet sent. -/
  | entered (message : RpcMessage)
  deriving DecidableEq, Repr

inductive RpcEvent
  /-- An entry is made for the call that sends `message`. -/
  | registered (id : Int64) (out : OutstandingCall) (message : RpcMessage)
  /-- A response arrives, and this call is found. -/
  | response (message : RpcMessage) (out : OutstandingCall)
  /-- A request arrives, and this is the result of the lookups. -/
  | request (message : RpcMessage) (error : ErrorCode)
  | did (action : Action)
  /-- The request of a call is sent. -/
  | sent (message : RpcMessage)
  /-- The response to a request is sent. -/
  | answered (request response : RpcMessage)
  deriving DecidableEq, Repr

structure RpcEnd where
  channel : RpcChannel
  threads : Nat → CallPc
  /-- How often `CallMethod` has been called. -/
  calls : Nat
  /-- What the loop thread has still to do for the message that came last. -/
  actions : List Action
  /-- The requests whose methods were invoked and whose closures have not been run. -/
  accepted : List RpcMessage
  history : List RpcEvent

inductive RpcLabel
  /-- `CallMethod` is entered; `hasDone` is whether there is a closure. -/
  | call (thread : Nat) (service method bytes : List UInt8) (hasDone : Bool)
  | register (thread : Nat)
  | send (thread : Nat)
  /-- The codec hands a message to `onRpcMessage`. -/
  | receive (message : RpcMessage)
  /-- The next action of the loop thread. -/
  | act
  /-- A service runs the closure of `message`, and its response is serialized to `bytes`. -/
  | done (message : RpcMessage) (bytes : List UInt8)
  deriving DecidableEq, Repr

namespace RpcEnd

def start (conn : Nat) (id : Int64) (services : Option Services) : RpcEnd where
  channel := ⟨some conn, id, fun _ => none, services⟩
  threads _ := .idle
  calls := 0
  actions := []
  accepted := []
  history := []

def log (s : RpcEnd) (e : RpcEvent) : RpcEnd := { s with history := s.history ++ [e] }

def setThread (s : RpcEnd) (thread : Nat) (pc : CallPc) : RpcEnd :=
  { s with threads := Function.update s.threads thread pc }

/-- The response and the closure of the next call. -/
def newCall (s : RpcEnd) (hasDone : Bool) : OutstandingCall :=
  ⟨some s.calls, if hasDone then some s.calls else none⟩

def call (s : RpcEnd) (thread : Nat) (service method bytes : List UInt8) (hasDone : Bool) : RpcEnd :=
  let (id, channel) := s.channel.incrementAndGet
  { s.setThread thread (.counted id (s.newCall hasDone) (request id service method bytes)) with
    channel := channel
    calls := s.calls + 1 }

/-- The thread makes the entry of its call. -/
def register (s : RpcEnd) (thread : Nat) (id : Int64) (out : OutstandingCall)
    (message : RpcMessage) : RpcEnd :=
  ({ s with channel := s.channel.registerCall id out }.setThread thread (.entered message)).log
    (.registered id out message)

/-- What a message is to this end, for the history. -/
def seen (s : RpcEnd) (message : RpcMessage) : List RpcEvent :=
  match message.type with
  | .RESPONSE => [.response message (s.channel.takeCall message.id.toInt64).1]
  | .REQUEST => [.request message (lookup s.channel.services_ message)]
  | .ERROR => []

def receive (s : RpcEnd) (conn : Nat) (message : RpcMessage) : Except Fault RpcEnd := do
  let (actions, channel) ← s.channel.onRpcMessage conn (some message)
  return { s with channel := channel, actions := actions, history := s.history ++ s.seen message }

def perform (s : RpcEnd) : Action → RpcEnd
  | .invoke message => { s with accepted := s.accepted ++ [message] }
  | .reject message error => s.log (.answered message (errorReply message.id error))
  | _ => s

def enabled (s : RpcEnd) : RpcLabel → Prop
  | .call thread .. => s.threads thread = .idle
  | .register thread => ∃ id out message, s.threads thread = .counted id out message
  | .send thread => ∃ message, s.threads thread = .entered message
  | .receive _ => s.actions = []
  | .act => s.actions ≠ []
  | .done message _ => message ∈ s.accepted

def step (conn : Nat) (s : RpcEnd) : RpcLabel → Except Fault RpcEnd
  | .call thread service method bytes hasDone => .ok (s.call thread service method bytes hasDone)
  | .register thread =>
    match s.threads thread with
    | .counted id out message => .ok (s.register thread id out message)
    | _ => .ok s
  | .send thread =>
    match s.threads thread with
    | .entered message => .ok ((s.setThread thread .idle).log (.sent message))
    | _ => .ok s
  | .receive message => s.receive conn message
  | .act =>
    match s.actions with
    | a :: rest => .ok (({ s with actions := rest }.log (.did a)).perform a)
    | [] => .ok s
  | .done message bytes =>
    .ok ({ s with accepted := s.accepted.erase message }.log
      (.answered message (doneReply message.id.toInt64 bytes)))

/-- `enabled` as it is computed. -/
instance (s : RpcEnd) (l : RpcLabel) : Decidable (s.enabled l) :=
  match l with
  | .call thread .. => inferInstanceAs (Decidable (s.threads thread = .idle))
  | .register thread =>
    match h : s.threads thread with
    | .counted id out message => .isTrue ⟨id, out, message, h⟩
    | .idle => .isFalse fun ⟨_, _, _, h'⟩ => CallPc.noConfusion (h.symm.trans h')
    | .entered _ => .isFalse fun ⟨_, _, _, h'⟩ => CallPc.noConfusion (h.symm.trans h')
  | .send thread =>
    match h : s.threads thread with
    | .entered message => .isTrue ⟨message, h⟩
    | .idle => .isFalse fun ⟨_, h'⟩ => CallPc.noConfusion (h.symm.trans h')
    | .counted .. => .isFalse fun ⟨_, h'⟩ => CallPc.noConfusion (h.symm.trans h')
  | .receive _ => inferInstanceAs (Decidable (s.actions = []))
  | .act => inferInstanceAs (Decidable (s.actions ≠ []))
  | .done message _ => inferInstanceAs (Decidable (message ∈ s.accepted))

def machine (conn : Nat) : Machine RpcEnd RpcLabel Fault := ⟨enabled, step conn⟩

instance (conn : Nat) (s : RpcEnd) (l : RpcLabel) : Decidable ((machine conn).enabled s l) :=
  inferInstanceAs (Decidable (s.enabled l))

end RpcEnd

end MuduoNet.Rpc
