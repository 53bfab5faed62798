import MuduoNet.Rpc.Channel
import MuduoNet.Codec.RoundTrip

/-!
# What the caller sees of a call that failed

`onRpcMessage` reads the payload of a response into the response object, whatever
`ParseFromString` returns, does not read the `error` of the message, and runs the closure. The
controller that the caller gave is stored nowhere. So a closure is run whether the call has failed or
not, and can only look at the object that it finds.
-/
namespace MuduoNet.Rpc

open Lib.Outcome
open ProtobufCodec (emptyMessages)

variable (P : Protobuf) (κ : Type)

/-- The objects of a call that its closure can look at. -/
structure Caller where
  response : P.Message
  controller : κ

variable {P κ}

/-- The message says that the request has failed. -/
def RpcMessage.HasFailed (message : RpcMessage) : Prop :=
  ∃ error, message.error = some error ∧ error ≠ .NO_ERROR

/-- A response without an error, whose payload is one of the response type. -/
structure Succeeds (s : Caller P κ) (message : RpcMessage) : Prop where
  type_eq : message.type = .RESPONSE
  not_failed : ¬ message.HasFailed
  parses : ∃ bytes, message.response = some bytes ∧
    (P.ParseFromArray s.response bytes).1 = true

/-- A response with an error, or whose payload is not one of the response type. -/
structure Fails (s : Caller P κ) (message : RpcMessage) : Prop where
  type_eq : message.type = .RESPONSE
  failed : message.HasFailed ∨ ∃ bytes, message.response = some bytes ∧
    (P.ParseFromArray s.response bytes).1 = false

variable {s : Caller P κ} {message : RpcMessage}

theorem Succeeds.present (h : Succeeds s message) :
    message.response.isSome ∨ message.error.isSome := by
  obtain ⟨bytes, hbytes, _⟩ := h.parses
  rw [hbytes]
  exact .inl rfl

theorem Fails.present (h : Fails s message) :
    message.response.isSome ∨ message.error.isSome := by
  obtain ⟨error, herror, _⟩ | ⟨bytes, hbytes, _⟩ := h.failed
  · rw [herror]
    exact .inr rfl
  · rw [hbytes]
    exact .inl rfl

variable {c : RpcChannel} {conn : Nat} {out : OutstandingCall}

def fresh : Caller emptyMessages Unit where
  response := (none : Option (Fin 128))
  controller := ()

end MuduoNet.Rpc
