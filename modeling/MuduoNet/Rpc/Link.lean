import MuduoNet.Rpc.Serving
import MuduoNet.Rpc.Input

/-!
# Two channels and the streams between them

What an end sends is appended to the stream towards the other end, frame by frame; bytes arrive in
any chunks. `onMessage` takes the frames off the buffer, and its messages are handed over one after
the other; between two of them the other threads run. The ends are those of `RpcEnd`.
-/
namespace MuduoNet.Rpc

open Lib Lib.Outcome MuduoNet.ProtobufCodec

structure Side (P : RpcProtobuf) where
  rpc : RpcEnd
  inputBuffer_ : Buffer
  /-- What `onMessage` has still to hand over. -/
  inbox : List (Event P.Message)
  /-- The bytes on their way to this side. -/
  incoming : List UInt8

abbrev Link (P : RpcProtobuf) := Bool → Side P

inductive LinkLabel
  /-- A step of this end that is not the arrival of a message. -/
  | own (x : Bool) (l : RpcLabel)
  | deliver (x : Bool) (chunk : Span)
  | hand (x : Bool)
  deriving DecidableEq

/-- The step of this end that it is. -/
def LinkLabel.ownOf (y : Bool) : LinkLabel → Option RpcLabel
  | own x l => if x = y then some l else none
  | _ => none

theorem LinkLabel.eq_own {y : Bool} {l : LinkLabel} {own : RpcLabel} (h : l.ownOf y = some own) :
    l = .own y own := by
  cases l with
  | own x l =>
    obtain ⟨rfl, hown⟩ := Option.ite_none_right_eq_some.mp h
    rw [Option.some.inj hown]
  | _ => cases h

namespace RpcEvent

/-- The message that is sent. -/
def emitted : RpcEvent → Option RpcMessage
  | sent m => some m
  | answered _ r => some r
  | _ => none

/-- The message that has arrived. -/
def handed : RpcEvent → Option RpcMessage
  | response m _ => some m
  | request m _ => some m
  | _ => none

end RpcEvent

namespace RpcEnd

def emitted (s : RpcEnd) : List RpcMessage := s.history.filterMap RpcEvent.emitted

def handed (s : RpcEnd) : List RpcMessage := s.history.filterMap RpcEvent.handed

/-- What is sent on the way from `s` to `t`. -/
def emits (s t : RpcEnd) : List RpcMessage :=
  (t.history.drop s.history.length).filterMap RpcEvent.emitted

end RpcEnd

namespace Link

variable {P : RpcProtobuf} (conn : Nat)

def start (P : RpcProtobuf) (first : Bool → Int64) (services : Bool → Option Services) : Link P :=
  fun x => ⟨.start conn (first x) (services x), Buffer.new, [], []⟩

def enabled (s : Link P) : LinkLabel → Prop
  | .own x l => l.receives = false ∧ (s x).rpc.enabled l
  | .deliver x chunk => (s x).inbox = [] ∧ (s x).rpc.actions = [] ∧ chunk.bytes <+: (s x).incoming
  | .hand x => (s x).inbox ≠ [] ∧ (s x).rpc.actions = []

def step (s : Link P) : LinkLabel → Except Fault (Link P)
  | .own x l => do
    let rpc ← (s x).rpc.step conn l
    let frames ← ((s x).rpc.emits rpc).mapM (Input.send P)
    let peer := s !x
    return Function.update (Function.update s x { s x with rpc := rpc }) (!x)
      { peer with incoming := peer.incoming ++ frames.flatten }
  | .deliver x chunk => do
    let buf ← (s x).inputBuffer_.append chunk.bytes
    let (events, buf) ← ProtobufCodec.onMessage P.toProtobuf buf
    return Function.update s x { s x with
      inputBuffer_ := buf
      inbox := events
      incoming := (s x).incoming.drop chunk.bytes.length }
  | .hand x =>
    match (s x).inbox with
    | [] => .ok s
    | .messageCallback message :: inbox =>
      match P.asRpc message with
      | none => .error .assertion
      | some message => do
        let rpc ← (s x).rpc.receive conn message
        return Function.update s x { s x with rpc := rpc, inbox := inbox }
    -- `defaultErrorCallback` shuts the connection down besides; no stream of frames that fit leads here
    | .errorCallback _ :: inbox => .ok (Function.update s x { s x with inbox := inbox })

def machine (P : RpcProtobuf) (conn : Nat) : Machine (Link P) LinkLabel Fault := ⟨enabled, step conn⟩

/-- `enabled` as it is computed. -/
instance (s : Link P) (l : LinkLabel) : Decidable ((machine P conn).enabled s l) :=
  match l with
  | .own x l => inferInstanceAs (Decidable (l.receives = false ∧ (s x).rpc.enabled l))
  | .deliver x chunk => inferInstanceAs (Decidable
      ((s x).inbox = [] ∧ (s x).rpc.actions = [] ∧ chunk.bytes <+: (s x).incoming))
  | .hand x => inferInstanceAs (Decidable ((s x).inbox ≠ [] ∧ (s x).rpc.actions = []))

end Link

end MuduoNet.Rpc
