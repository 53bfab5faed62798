import MuduoNet.Base

/-!
# The messages of the RPC protocol

Strings and byte fields are their bytes; an optional field is `none` until it is set.
-/
namespace MuduoNet.Rpc

inductive MessageType
  | REQUEST | RESPONSE | ERROR
  deriving DecidableEq, Repr

inductive ErrorCode
  | NO_ERROR | WRONG_PROTO | NO_SERVICE | NO_METHOD | INVALID_REQUEST | INVALID_RESPONSE | TIMEOUT
  deriving DecidableEq, Repr

structure RpcMessage where
  type : MessageType
  id : UInt64
  service : Option (List UInt8) := none
  method : Option (List UInt8) := none
  request : Option (List UInt8) := none
  response : Option (List UInt8) := none
  error : Option ErrorCode := none
  deriving DecidableEq, Repr

def RpcMessage.set_id (m : RpcMessage) (id : UInt64) : RpcMessage := { m with id := id }

end MuduoNet.Rpc
