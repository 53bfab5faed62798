import MuduoNet.Rpc.Message
import Mathlib.Logic.Function.Basic

/-!
# The functions of `RpcChannel`

A message that arrives changes the table of calls in one critical section; what the loop thread
does besides, to the response and the closure of a call, to a service or to the codec, is returned
as a list of actions, in order. Objects are numbered: a call has a response and a closure of its
own. The protobuf library and the services are parameters.
-/
namespace MuduoNet.Rpc

/-- A null pointer is `none`. -/
structure OutstandingCall where
  response : Option Nat
  done : Option Nat
  deriving DecidableEq, Repr

/-- What `ParseFromString` of the method's request type says of the bytes. -/
structure Method where
  parses : List UInt8 → Bool

structure Service where
  FindMethodByName : List UInt8 → Option Method

abbrev Services := List UInt8 → Option Service

structure RpcChannel where
  conn_ : Option Nat
  id_ : Int64
  outstandings_ : Int64 → Option OutstandingCall
  services_ : Option Services

/-- What a thread does in or after a call of `RpcChannel`. -/
inductive Action
  /-- `response->ParseFromString(bytes)` -/
  | parse (response : Nat) (bytes : List UInt8)
  | run (done : Nat)
  /-- The response is deleted. -/
  | free (response : Nat)
  /-- `service->CallMethod` for the request; the closure it is given has its id. -/
  | invoke (request : RpcMessage)
  /-- `codec_.send(conn_, response)`, where the response tells that the request has failed. -/
  | reject (request : RpcMessage) (error : ErrorCode)
  deriving DecidableEq, Repr

/-- The request of a call. -/
def request (id : Int64) (service method bytes : List UInt8) : RpcMessage where
  type := .REQUEST
  id := id.toUInt64
  service := some service
  method := some method
  request := some bytes

def errorReply (id : UInt64) (error : ErrorCode) : RpcMessage where
  type := .RESPONSE
  id := id
  error := some error

/-- What `doneCallback` sends, where `bytes` is the serialized response. -/
def doneReply (id : Int64) (bytes : List UInt8) : RpcMessage where
  type := .RESPONSE
  id := id.toUInt64
  response := some bytes

/-- The `error` with which a request is answered, or `NO_ERROR` if its method is invoked. -/
def lookup (services : Option Services) (message : RpcMessage) : ErrorCode :=
  match services with
  | none => .NO_SERVICE
  | some services =>
    match services (message.service.getD []) with
    | none => .NO_SERVICE
    | some service =>
      match service.FindMethodByName (message.method.getD []) with
      | none => .NO_METHOD
      | some method =>
        if method.parses (message.request.getD []) then .NO_ERROR else .INVALID_REQUEST

namespace RpcChannel

/-- `id_.incrementAndGet()` -/
def incrementAndGet (c : RpcChannel) : Int64 × RpcChannel := (c.id_ + 1, { c with id_ := c.id_ + 1 })

/-- The critical section of `CallMethod`. -/
def registerCall (c : RpcChannel) (id : Int64) (out : OutstandingCall) : RpcChannel :=
  { c with outstandings_ := Function.update c.outstandings_ id (some out) }

/-- The critical section of `onRpcMessage`: the call is copied and its entry erased. -/
def takeCall (c : RpcChannel) (id : Int64) : OutstandingCall × RpcChannel :=
  match c.outstandings_ id with
  | some out => (out, { c with outstandings_ := Function.update c.outstandings_ id none })
  | none => (⟨none, none⟩, c)

/-- What is done with the call that a response was for. -/
def complete (message : RpcMessage) (out : OutstandingCall) : List Action :=
  match out.response with
  | none => []
  | some response =>
    (message.response.map (Action.parse response)).toList ++ (out.done.map Action.run).toList ++
      [.free response]

/-- What is done with a request after the lookups. -/
def answer (message : RpcMessage) : ErrorCode → List Action
  | .NO_ERROR => [.invoke message]
  | error => [.reject message error]

/-- `onRpcMessage`, where `cast` is the message as an `RpcMessage` if it is one. -/
def onRpcMessage (c : RpcChannel) (conn : Nat) (cast : Option RpcMessage) :
    Except Fault (List Action × RpcChannel) := do
  assert (some conn = c.conn_)
  match cast with
  | none => .error .assertion
  | some message =>
    match message.type with
    | .RESPONSE => do
      assert (message.response.isSome ∨ message.error.isSome)
      let (out, c) := c.takeCall message.id.toInt64
      return (complete message out, c)
    | .REQUEST => return (answer message (lookup c.services_ message), c)
    | .ERROR => return ([], c)

end RpcChannel

end MuduoNet.Rpc
