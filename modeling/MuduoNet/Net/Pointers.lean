import MuduoNet.Net.Calls

/-!
# The pointers to a connection

A `TcpConnectionPtr` is held by the connection's owner, by a functor that was bound to one, which
is destroyed with the vector it was swapped out in, or by the user. `sendInLoop` and
`shutdownInLoop` are bound to a bare `this`. Steps are those of `Net`, and the user's with
pointers; `send` and `shutdown` are called through one.
-/
namespace MuduoNet

open Lib Lib.Outcome Function

/-- The connection of a functor that is bound to a bare `this`. -/
def NetFunctor.bare : NetFunctor → Option ConnPtr
  | .sendInLoop c _ | .shutdownInLoop c => some c
  | .connectEstablished _ | .connectDestroyed _ | .removeConnectionInLoop _ _ | .user => none

/-- The call of `send` or `shutdown` that begins with the step. -/
def NetLabel.through : NetLabel → Option (ThreadId × ConnPtr)
  | .send i c _ | .shutdown i c => some (i, c)
  | _ => none

instance (s : Net) (c : ConnPtr) : Decidable (s.Held c) :=
  match h : (s.conn c).owner with
  | .server k => decidable_of_iff ((s.server k).connections_ (s.conn c).name_ = some c)
      (by simp [Net.Held, h])
  | .client k => decidable_of_iff ((s.client k).connection_ = some c) (by simp [Net.Held, h])

structure PtrNet where
  net : Net
  /-- What each functor `user` of a loop is, in the order of the queue: `writeCompleteCallback_`
  with its connection, or a functor of the user. -/
  bound : ThreadId → List (Option ConnPtr)
  /-- The loops whose present vector has run a functor that holds a pointer to `c`: one entry for
  each functor. -/
  ran : ConnPtr → List ThreadId
  /-- The threads whose user code has a pointer to `c`: one entry for each pointer. What the user
  binds to a functor is among them. -/
  held : ConnPtr → List ThreadId

inductive PtrLabel
  /-- A step of a thread; the user's callbacks in it keep `copies` of their parameter. -/
  | net (l : NetLabel) (copies : Nat)
  /-- The thread `j` gives the thread `i` a copy of a pointer. -/
  | copy (i j : ThreadId) (c : ConnPtr)
  /-- `TcpClient::connection` -/
  | connection (i : ThreadId) (k : Nat)
  | drop (i : ThreadId) (c : ConnPtr)

namespace PtrNet

def start (e : Net.Setup) : PtrNet where
  net := .start e
  bound _ := []
  ran _ := []
  held _ := []

/-- The waiting functors of its life that hold a pointer to `c`. -/
def ofLife (s : PtrNet) (c : ConnPtr) : Nat :=
  (s.net.functors (s.net.conn c).loop_).count (.connectEstablished c) +
    (s.net.functors (s.net.conn c).loop_).count (.connectDestroyed c) + s.net.removing c

/-- `use_count()`. A connection's functors wait in its own loop, its removal in the owner's. -/
def useCount (s : PtrNet) (c : ConnPtr) : Nat :=
  (if s.net.Held c then 1 else 0) + s.ofLife c + (s.bound (s.net.conn c).loop_).count (some c) +
    (s.ran c).length + (s.held c).length

def copy (s : PtrNet) (i : ThreadId) (c : ConnPtr) (copies : Nat) : PtrNet :=
  { s with held := update s.held c (List.replicate copies i ++ s.held c) }

def drop (s : PtrNet) (i : ThreadId) (c : ConnPtr) : PtrNet :=
  { s with held := update s.held c ((s.held c).erase i) }

/-- A functor with a pointer to `c` has run; the vector still has it. -/
def keep (s : PtrNet) (i : ThreadId) (c : ConnPtr) : PtrNet :=
  { s with ran := update s.ran c (i :: s.ran c) }

/-- The vector of the loop is destroyed. -/
def clear (s : PtrNet) (i : ThreadId) : PtrNet :=
  { s with ran := fun c => (s.ran c).filter fun j => j ≠ i }

/-- The pointer of the functor that the loop runs. -/
def runFunctor (s : PtrNet) (i : ThreadId) (copies : Nat) : NetFunctor → PtrNet
  | .connectEstablished c | .connectDestroyed c | .removeConnectionInLoop _ c => s.keep i c
  | .sendInLoop _ _ | .shutdownInLoop _ => s
  | .user =>
    match s.bound i with
    | some c :: bound => ({ s with bound := update s.bound i bound }.keep i c).copy i c copies
    | none :: bound => { s with bound := update s.bound i bound }
    | [] => s

/-- What the step does to the pointers of functors. -/
def turn (s : PtrNet) (copies : Nat) : NetLabel → PtrNet
  | .functor i _ =>
    match s.net.phase i with
    | .functors (cb :: _) => s.runFunctor i copies cb
    | _ => s
  | .again i | .quit i => s.clear i
  | .queueInLoop _ j => { s with bound := update s.bound j (s.bound j ++ [none]) }
  | _ => s

/-- What an effect of `c` does to the pointers: a functor is bound to one, or a callback is given
one. -/
def react (i : ThreadId) (c : ConnPtr) (copies : Nat) (s : PtrNet) : Effect → PtrNet
  | .queueWriteComplete => { s with bound := update s.bound i (s.bound i ++ [some c]) }
  | .connectionCallback _ | .messageCallback => s.copy i c copies
  | _ => s

def netStep (fd : ChannelPtr → Int) (s : PtrNet) (l : NetLabel) (copies : Nat) :
    Except NetFault PtrNet := do
  let net ← Net.step fd s.net l
  let s' := { s.turn copies l with net := net }
  return match s.net.called l with
    | some (i, c, _) => (s.net.news net c).foldl (react i c copies) s'
    | none => s'

/-- A pointer that a call goes through is not dropped before the call ends. -/
def Enabled (fd : ChannelPtr → Int) (s : PtrNet) : PtrLabel → Prop
  | .net l _ => Net.Enabled fd s.net l ∧
    match l.through with
    | some (i, c) => i ∈ s.held c
    | none => True
  | .copy _ j c => j ∈ s.held c
  | .connection _ k => (s.net.client k).connection_ ≠ none
  | .drop i c => (if (s.net.call i).conn = some c then 1 else 0) < (s.held c).count i

def step (fd : ChannelPtr → Int) (s : PtrNet) : PtrLabel → Except NetFault PtrNet
  | .net l copies => s.netStep fd l copies
  | .copy i _ c => .ok (s.copy i c 1)
  | .connection i k =>
    match (s.net.client k).connection_ with
    | some c => .ok (s.copy i c 1)
    | none => .ok s
  | .drop i c => .ok (s.drop i c)

def machine (fd : ChannelPtr → Int) : Machine PtrNet PtrLabel NetFault := ⟨Enabled fd, step fd⟩

end PtrNet

end MuduoNet
