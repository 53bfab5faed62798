import MuduoNet.Rpc.Wire
import MuduoNet.Net.Calls

/-!
# `RpcServer`

The connections of one server get a `RpcChannel` when they are up and lose it when they are down.
In between their message callback runs in it; services run the closures of accepted requests at
any time and in any thread. All else that threads, servers and clients do is as in `Net`, and
the messages that arrive are the environment's.
-/
namespace MuduoNet

/-- The thread whose loop goes on with the step. The other steps are the user's. -/
def NetLabel.runner (s : Net) : NetLabel → Option ThreadId
  | .loop i | .poll i _ _ | .handle i _ _ | .swap i | .functor i _ | .again i | .quit i => some i
  | .accept k => some (s.server k).loop_
  | .connected k | .connector k .retry | .connector k .drop => some (s.client k).loop_
  | _ => none

namespace Rpc

open Lib Lib.Outcome Function

/-- What ends a run. -/
inductive ServerFault
  | net (f : NetFault)
  | channel (f : Fault)
  /-- A function of the deleted `RpcChannel` of `c` is called. -/
  | deleted (c : ConnPtr)
  deriving DecidableEq

structure RpcServer where
  net : Net
  /-- The channel that the context of a connection owns. -/
  context_ : ConnPtr → Option RpcChannel
  /-- The connection whose message callback a thread is in, and what is left to do for the
  message that came last. -/
  within : ThreadId → Option (ConnPtr × List Action)
  /-- The requests of a connection whose methods were invoked and whose closures have not been
  run. -/
  accepted : ConnPtr → List RpcMessage

inductive ServerLabel
  | net (l : NetLabel)
  /-- The codec hands a message to `onRpcMessage`. -/
  | receive (i : ThreadId) (message : RpcMessage)
  /-- The next action for that message. -/
  | act (i : ThreadId)
  /-- The message callback returns. -/
  | leave (i : ThreadId)
  /-- In the thread `i` a service runs the closure of `message`, a request of `c`, and its
  response is serialized to `bytes`. -/
  | done (i : ThreadId) (c : ConnPtr) (message : RpcMessage) (bytes : List UInt8)

namespace RpcServer

def start (e : Net.Setup) : RpcServer where
  net := .start e
  context_ _ := none
  within _ := none
  accepted _ := []

/-- `onConnection`. The up callback comes from `connectEstablished`, where the connection is
`connected()`, and the other from `connectDestroyed`, where it is not. -/
def onConnection (services : Services) (s : RpcServer) (c : ConnPtr) (connected : Bool) : RpcServer :=
  let channel := if connected then some ⟨some c, 0, fun _ => none, some services⟩ else none
  { s with context_ := update s.context_ c channel }

/-- The thread is in `onMessage`. -/
def onMessage (s : RpcServer) (i : ThreadId) (c : ConnPtr) : RpcServer :=
  { s with within := update s.within i (some (c, [])) }

/-- The callback that an effect of `c` is. -/
def callback (services : Services) (i : ThreadId) (c : ConnPtr) (s : RpcServer) : Effect → RpcServer
  | .connectionCallback up => s.onConnection services c up
  | .messageCallback => s.onMessage i c
  | _ => s

/-- A step of the threads, with the callbacks of the connection it is about. -/
def netStep (fd : ChannelPtr → Int) (k : Nat) (services : Services) (s : RpcServer) (l : NetLabel) :
    Except ServerFault RpcServer := do
  let net ← (Net.step fd s.net l).mapError .net
  let s' := { s with net := net }
  return match s.net.called l with
    | some (i, c, _) =>
      if (net.conn c).owner = .server k then (s.net.news net c).foldl (callback services i c) s' else s'
    | none => s'

/-- The channel of `c`, for a function that was bound to its bare pointer. -/
def channel (s : RpcServer) (c : ConnPtr) : Except ServerFault RpcChannel :=
  match s.context_ c with
  | some channel => .ok channel
  | none => .error (.deleted c)

/-- `codec_.send(conn_, message)`, up to the end of `TcpConnection::send` in this thread. -/
def send (P : RpcProtobuf) (s : RpcServer) (i : ThreadId) (channel : RpcChannel)
    (message : RpcMessage) : Except ServerFault RpcServer := do
  let buf ← (ProtobufCodec.fillEmptyBuffer P.toProtobuf .new (P.ofRpc message)).mapError .channel
  match channel.conn_ with
  | none => .error (.channel .nullPointer)
  | some conn =>
    if h : buf.readable.length ≤ maxSize then
      return { s with net := s.net.send i conn ⟨buf.readable, h⟩ }
    else .error (.channel .lengthError)

def receive (s : RpcServer) (i : ThreadId) (c : ConnPtr) (message : RpcMessage) :
    Except ServerFault RpcServer := do
  let channel ← s.channel c
  let (actions, channel) ← (channel.onRpcMessage c (some message)).mapError .channel
  return { s with
    context_ := update s.context_ c (some channel)
    within := update s.within i (some (c, actions)) }

/-- An action for a message of `c`. -/
def perform (P : RpcProtobuf) (s : RpcServer) (i : ThreadId) (c : ConnPtr) :
    Action → Except ServerFault RpcServer
  | .invoke message => .ok { s with accepted := update s.accepted c (s.accepted c ++ [message]) }
  | .reject message error => do
    let channel ← s.channel c
    s.send P i channel (errorReply message.id error)
  | .parse _ _ | .run _ | .free _ => .ok s

/-- `doneCallback` -/
def done (P : RpcProtobuf) (s : RpcServer) (i : ThreadId) (c : ConnPtr) (message : RpcMessage)
    (bytes : List UInt8) : Except ServerFault RpcServer := do
  let channel ← s.channel c
  { s with accepted := update s.accepted c ((s.accepted c).erase message) }.send P i channel
    (doneReply message.id.toInt64 bytes)

/-- The loop does not go on while it is in a callback. -/
def Idle (s : RpcServer) (l : NetLabel) : Prop := ∀ i, l.runner s.net = some i → s.within i = none

def Enabled (fd : ChannelPtr → Int) (s : RpcServer) : ServerLabel → Prop
  | .net l => Net.Enabled fd s.net l ∧ s.Idle l
  | .receive i _ | .leave i => s.net.Ready i ∧ (s.within i).map Prod.snd = some []
  | .act i => s.net.Ready i ∧ ∃ c a rest, s.within i = some (c, a :: rest)
  | .done i c message _ => s.net.Ready i ∧ message ∈ s.accepted c

def step (P : RpcProtobuf) (fd : ChannelPtr → Int) (k : Nat) (services : Services) (s : RpcServer) :
    ServerLabel → Except ServerFault RpcServer
  | .net l => s.netStep fd k services l
  | .receive i message =>
    match s.within i with
    | some (c, _) => s.receive i c message
    | none => .ok s
  | .act i =>
    match s.within i with
    | some (c, a :: rest) => { s with within := update s.within i (some (c, rest)) }.perform P i c a
    | _ => .ok s
  | .leave i => .ok { s with within := update s.within i none }
  | .done i c message bytes => s.done P i c message bytes

def machine (P : RpcProtobuf) (fd : ChannelPtr → Int) (k : Nat) (services : Services) :
    Machine RpcServer ServerLabel ServerFault :=
  ⟨Enabled fd, step P fd k services⟩

end RpcServer

end Rpc

end MuduoNet
