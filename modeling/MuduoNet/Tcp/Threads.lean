import MuduoNet.Tcp.Shutdown
import MuduoNet.EventLoop.Queue
import MuduoNet.Lib.Held

/-!
# A connection used by several threads

`send` and `shutdown` look at `state_` in the calling thread and hand the rest to
`runInLoop`. The checks, the store of the new state and the push are steps of their own. The
system is the loop with the threads that use it, together with the connection.
-/
namespace MuduoNet

open Lib Lib.Outcome

/-- A functor in the queue of the loop. -/
inductive ConnFunctor
  | sendInLoop (message : Span)
  | shutdownInLoop
  /-- Anything that is not about this connection, or a callback. -/
  | user
  deriving DecidableEq

/-- How far a thread has got in `send` or `shutdown`. -/
inductive ConnCall
  | none
  /-- `send` has found `kConnected`. -/
  | send (message : Span)
  /-- `shutdown` has found `kConnected`. -/
  | shutdown
  /-- `shutdown` has set `kDisconnecting`. -/
  | disconnecting
  deriving DecidableEq

/-- What is left to hand to `runInLoop`. -/
def ConnCall.functor : ConnCall → Option ConnFunctor
  | .send message => some (.sendInLoop message)
  | .disconnecting => some .shutdownInLoop
  | .none | .shutdown => Option.none

/-- The body of a functor; `w` is the result of `::write`, where it is called. -/
def ConnFunctor.run (c : TcpConnection) (w : WriteResult) : ConnFunctor → Except Fault TcpConnection
  | .sendInLoop message => c.sendInLoop message.bytes w
  | .shutdownInLoop => .ok c.shutdownInLoop
  | .user => .ok c

/-- `::write` accepts at most what it is given. -/
def ConnFunctor.CanWrite : ConnFunctor → WriteResult → Prop
  | .sendInLoop message, .wrote n => n ≤ message.bytes.length
  | _, _ => True

/-- The program does not read `admitted`: the messages of the calls of `send` that have found
`kConnected`. -/
structure ConnSystem where
  sys : LoopSystem ConnFunctor
  conn : TcpConnection
  threads : ThreadId → ConnCall
  admitted : List (List UInt8)

namespace ConnSystem

/-- The loop and its connection are built, in the thread `tid`. -/
def start (tid : ThreadId) (fd : Int) (wc : Bool) : ConnSystem :=
  ⟨.start tid, .new fd wc, fun _ => .none, []⟩

def setThread (s : ConnSystem) (tid : ThreadId) (c : ConnCall) : ConnSystem :=
  { s with threads := fun t => if t = tid then c else s.threads t }

def send (s : ConnSystem) (tid : ThreadId) (message : Span) : ConnSystem :=
  if s.conn.state_ = .kConnected then
    { s with admitted := s.admitted ++ [message.bytes] }.setThread tid (.send message)
  else s

def shutdown (s : ConnSystem) (tid : ThreadId) : ConnSystem :=
  if s.conn.state_ = .kConnected then s.setThread tid .shutdown else s

def setState (s : ConnSystem) (tid : ThreadId) : ConnSystem :=
  { s with conn := s.conn.setState .kDisconnecting }.setThread tid .disconnecting

/-- On the loop thread the functor runs at once, from another thread it is queued. -/
def runInLoop (s : ConnSystem) (tid : ThreadId) (w : WriteResult) : Except Fault ConnSystem :=
  match (s.threads tid).functor with
  | none => .ok s
  | some f => do
    let c ← (if s.sys.loop.isInLoopThread tid then f.run s.conn w else pure s.conn)
    return { s with sys := s.sys.runInLoop tid f, conn := c }.setThread tid .none

/-- The next functor of the batch. -/
def runFunctor (s : ConnSystem) (w : WriteResult) : Except Fault ConnSystem :=
  match s.sys.pc with
  | .running (f :: _) => do
    let c ← f.run s.conn w
    return { s with sys := s.sys.runFunctor, conn := c }
  | _ => .ok s

inductive Label
  /-- A step of the loop or of its users that is not about the connection. -/
  | loop (l : LoopSystem.Label ConnFunctor)
  | runFunctor (w : WriteResult)
  /-- `connectEstablished`, or a handler of the channel. -/
  | handle (l : TcpConnection.ConnLabel)
  | send (tid : ThreadId) (message : Span)
  | shutdown (tid : ThreadId)
  | setState (tid : ThreadId)
  | runInLoop (tid : ThreadId) (w : WriteResult)

/-- The thread is in no call, neither of the loop nor of the connection. -/
def Idle (s : ConnSystem) (tid : ThreadId) : Prop := s.sys.calls tid = .none ∧ s.threads tid = .none

/-- The functors of the connection are queued and run by steps of its own. -/
def OfUser : LoopSystem.Label ConnFunctor → Prop
  | .runFunctor => False
  | .runInLoop _ f | .queueInLoop _ f => f = .user
  | _ => True

/-- `connectEstablished` runs from `newConnection`, or as a functor. -/
def Handles (s : ConnSystem) : TcpConnection.ConnLabel → Prop
  | .connectEstablished => s.sys.pc.RunsUserCode
  | .handleRead _ | .handleWrite _ | .handleError => ∃ rest, s.sys.pc = .handler rest
  | .send _ _ | .shutdown => False

def Enabled (s : ConnSystem) : Label → Prop
  | .loop l => LoopSystem.machine.enabled s.sys l ∧ OfUser l ∧
    s.threads (l.caller.getD s.sys.loop.threadId_) = .none
  | .runFunctor w => ∃ f rest, s.sys.pc = .running (f :: rest) ∧ f.CanWrite w ∧
    s.Idle s.sys.loop.threadId_
  | .handle l => s.Handles l ∧ TcpConnection.connMachine.enabled s.conn l ∧
    s.Idle s.sys.loop.threadId_
  | .send tid _ | .shutdown tid => s.sys.Calls tid ∧ s.threads tid = .none
  | .setState tid => s.threads tid = .shutdown
  | .runInLoop tid w => ∃ f, (s.threads tid).functor = some f ∧ f.CanWrite w

def machine : Machine ConnSystem Label Fault where
  enabled := Enabled
  step s
    | .loop l => do
      let sys ← LoopSystem.machine.step s.sys l
      return { s with sys := sys }
    | .runFunctor w => s.runFunctor w
    | .handle l => do
      let c ← TcpConnection.connMachine.step s.conn l
      return { s with conn := c }
    | .send tid message => .ok (s.send tid message)
    | .shutdown tid => .ok (s.shutdown tid)
    | .setState tid => .ok (s.setState tid)
    | .runInLoop tid w => s.runInLoop tid w

/-- The functors that are queued, or swapped out and not yet run. -/
def waiting (s : LoopSystem ConnFunctor) : List ConnFunctor := s.pc.batch ++ s.loop.pendingFunctors_

/-- Some thread is between the check in `send` and the end of its `runInLoop`, or a `sendInLoop`
is in the queue. -/
def InFlight (s : ConnSystem) : Prop :=
  (∃ tid message, s.threads tid = .send message) ∨ ∃ message, .sendInLoop message ∈ waiting s.sys

/-- The loop moves the functors only to run them, and its other users add functors of theirs. -/
theorem waiting_loop {s t : LoopSystem ConnFunctor} {l : LoopSystem.Label ConnFunctor}
    (he : LoopSystem.machine.enabled s l) (hs : LoopSystem.machine.step s l = .ok t)
    (hl : OfUser l) : waiting t = waiting s ∨ waiting t = waiting s ++ [.user] := by
  cases hc : l.caller with
  | none =>
    left
    obtain ⟨_, hm⟩ := LoopSystem.step_moved hc he hs
    have horder := hm.order.1
    obtain ⟨l', pc, started, hm, rfl⟩ := hm
    have hnot : ∀ f rest, s.pc ≠ .running (f :: rest) := by
      intro f rest hpc
      cases l <;> simp_all [LoopSystem.machine, LoopSystem.Enabled, LoopSystem.At,
        LoopSystem.Label.caller, OfUser]
    have hstarted : started = [] := by
      cases hpc : s.pc <;> rw [hpc] at hm <;> cases hm <;> first | rfl | exact absurd hpc (hnot _ _)
    subst hstarted
    simpa [LoopSystem.order, waiting] using horder
  | some tid =>
    cases l with
    | runInLoop tid' f =>
      obtain rfl := Except.ok.inj hs
      obtain rfl := hl
      unfold LoopSystem.runInLoop
      split
      · exact Or.inl rfl
      · exact Or.inr (List.append_assoc _ _ _).symm
    | queueInLoop tid' f =>
      obtain rfl := Except.ok.inj hs
      obtain rfl := hl
      exact Or.inr (List.append_assoc _ _ _).symm
    | quit tid' =>
      obtain rfl := Except.ok.inj hs
      exact Or.inl rfl
    | callReturns tid' =>
      obtain rfl := Except.ok.inj hs
      obtain ⟨n, _, heq⟩ := s.callReturns_frame tid'
      rw [heq]
      exact Or.inl rfl
    | _ => cases hc

/-- What a step does: the queue, the connection or the progress of one thread. -/
inductive Happens (s : ConnSystem) : ConnSystem → Prop
  | loop {sys : LoopSystem ConnFunctor}
      (hq : waiting sys = waiting s.sys ∨ waiting sys = waiting s.sys ++ [.user]) :
      Happens s { s with sys := sys }
  | handled {c : TcpConnection} {l : TcpConnection.ConnLabel} (hl : s.Handles l)
      (he : TcpConnection.connMachine.enabled s.conn l)
      (hs : TcpConnection.connMachine.step s.conn l = .ok c) : Happens s { s with conn := c }
  | admitted {tid : ThreadId} (message : Span) (hidle : s.threads tid = .none)
      (hstate : s.conn.state_ = .kConnected) :
      Happens s
        ({ s with admitted := s.admitted ++ [message.bytes] }.setThread tid (.send message))
  | refused : Happens s s
  | checked {tid : ThreadId} (hidle : s.threads tid = .none) : Happens s (s.setThread tid .shutdown)
  | disconnected {tid : ThreadId} (hcall : s.threads tid = .shutdown) : Happens s (s.setState tid)
  | queued {tid : ThreadId} {f : ConnFunctor} {sys : LoopSystem ConnFunctor}
      (hf : (s.threads tid).functor = some f) (hq : waiting sys = waiting s.sys ++ [f]) :
      Happens s ({ s with sys := sys }.setThread tid .none)
  | called {tid : ThreadId} {f : ConnFunctor} {w : WriteResult} {c : TcpConnection}
      (hf : (s.threads tid).functor = some f) (hw : f.CanWrite w) (hr : f.run s.conn w = .ok c) :
      Happens s ({ s with conn := c }.setThread tid .none)
  | ran {f : ConnFunctor} {w : WriteResult} {sys : LoopSystem ConnFunctor} {c : TcpConnection}
      (hq : waiting s.sys = f :: waiting sys) (hw : f.CanWrite w) (hr : f.run s.conn w = .ok c) :
      Happens s { s with sys := sys, conn := c }

theorem step_happens {s t : ConnSystem} {l : Label} (he : machine.enabled s l)
    (hs : machine.step s l = .ok t) : Happens s t := by
  cases l with
  | loop l =>
    obtain ⟨sys, hsys, h⟩ := bind_eq_ok hs
    obtain rfl := Except.ok.inj h
    exact .loop (waiting_loop he.1 hsys he.2.1)
  | runFunctor w =>
    obtain ⟨f, rest, hpc, hw, _⟩ := he
    change s.runFunctor w = .ok t at hs
    unfold runFunctor at hs
    rw [hpc] at hs
    obtain ⟨c, hc, h⟩ := bind_eq_ok hs
    obtain rfl := Except.ok.inj h
    refine .ran ?_ hw hc
    simp [waiting, LoopSystem.runFunctor, hpc, Pc.batch]
  | handle l =>
    obtain ⟨c, hc, h⟩ := bind_eq_ok hs
    obtain rfl := Except.ok.inj h
    exact .handled he.1 he.2.1 hc
  | send tid message =>
    obtain rfl := Except.ok.inj hs
    unfold send
    split
    · exact .admitted message he.2 (by assumption)
    · exact .refused
  | shutdown tid =>
    obtain rfl := Except.ok.inj hs
    unfold shutdown
    split
    · exact .checked he.2
    · exact .refused
  | setState tid =>
    obtain rfl := Except.ok.inj hs
    exact .disconnected he
  | runInLoop tid w =>
    obtain ⟨f, hf, hw⟩ := he
    change s.runInLoop tid w = .ok t at hs
    unfold runInLoop at hs
    rw [hf] at hs
    obtain ⟨c, hc, h⟩ := bind_eq_ok hs
    obtain rfl := Except.ok.inj h
    unfold LoopSystem.runInLoop
    by_cases hloop : s.sys.loop.isInLoopThread tid = true
    · rw [if_pos hloop] at hc ⊢
      exact .called hf hw hc
    · rw [if_neg hloop] at hc ⊢
      obtain rfl := Except.ok.inj hc
      exact .queued hf (List.append_assoc _ _ _).symm

end ConnSystem

end MuduoNet
