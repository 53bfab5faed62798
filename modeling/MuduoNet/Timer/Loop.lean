import MuduoNet.Timer.Spec
import MuduoNet.Lib.Machine

/-!
# The loop that owns a `TimerQueue`

User code adds and cancels timers from other threads, from the loop between two batches, and
from the callbacks of a running batch. `handleRead` is therefore taken in pieces: up to the
first callback, one callback after the other, and from the return of the last one on. Other
channels, and what the callbacks compute, are left out.
-/
namespace MuduoNet

open Lib Lib.Outcome TimerQueue

/-- What is bound in a `Functor`. -/
inductive Functor
  | addTimerInLoop (timer : TimerPtr)
  | cancelInLoop (timerId : TimerId)
  deriving DecidableEq

/-- The timers that a functor holds. -/
def Functor.timers : Functor → List TimerPtr
  | .addTimerInLoop timer => [timer]
  | .cancelInLoop _ => []

/-- A `handleRead` in progress: the entries whose callbacks have started, and the others. -/
structure Batch where
  now : Timestamp
  ran : List Entry
  rest : List Entry
  deriving DecidableEq

/-- The vector `expired` of `handleRead`. -/
def Batch.expired (b : Batch) : List Entry := b.ran ++ b.rest

def TimerQueue.call (q : TimerQueue) (now : Timestamp) : Functor → Except Fault TimerQueue
  | .addTimerInLoop timer => q.addTimerInLoop timer now
  | .cancelInLoop timerId => q.cancelInLoop timerId

/-- The program does not read the last three fields: the number of batches so far, the batch and
the sequence number of each callback, and the sequence numbers for which each `TimerId` was
returned. -/
structure TimerLoop where
  queue : TimerQueue
  pendingFunctors_ : List Functor
  /-- What is left of the vector of `doPendingFunctors`. -/
  functors : List Functor
  batch : Option Batch
  batches : Nat
  fired : List (Nat × Nat)
  issued : List (TimerId × Nat)

namespace TimerLoop

def start : TimerLoop := ⟨.new, [], [], none, 0, [], []⟩

/-- The timers held by functors that have not run. -/
def queued (s : TimerLoop) : List TimerPtr :=
  (s.functors ++ s.pendingFunctors_).flatMap Functor.timers

/-- The entries of the running batch. -/
def expiring (s : TimerLoop) : List Entry :=
  match s.batch with
  | none => []
  | some b => b.expired

def runInLoop (s : TimerLoop) (inLoopThread : Bool) (now : Timestamp) (cb : Functor) :
    Except Fault TimerLoop :=
  if inLoopThread then do
    let q ← s.queue.call now cb
    return { s with queue := q }
  else
    return { s with pendingFunctors_ := s.pendingFunctors_ ++ [cb] }

/-- `addTimer`, with the new timer at the address `p`. -/
def addTimer (s : TimerLoop) (inLoopThread : Bool) (p : TimerPtr) (when' : Timestamp) (interval : ℚ)
    (now : Timestamp) : Except Fault TimerLoop :=
  let q := s.queue.newTimer p when' interval
  { s with queue := q, issued := (timerId p, q.numCreated) :: s.issued }.runInLoop
    inLoopThread now (.addTimerInLoop p)

def cancel (s : TimerLoop) (inLoopThread : Bool) (timerId : TimerId) (now : Timestamp) :
    Except Fault TimerLoop :=
  s.runInLoop inLoopThread now (.cancelInLoop timerId)

/-- The next round of the loop of `doPendingFunctors`. -/
def runFunctor (s : TimerLoop) (now : Timestamp) : Except Fault TimerLoop :=
  match s.functors with
  | [] => return s
  | cb :: functors => { s with functors }.runInLoop true now cb

def handleRead (s : TimerLoop) (now : Timestamp) (fired : Bool) : Except Fault TimerLoop := do
  let (expired, q) ← s.queue.handleReadBegin now fired
  return { s with queue := q, batch := some ⟨now, [], expired⟩, batches := s.batches + 1 }

/-- The next round of the loop of `handleRead`: `it->second->run()`. -/
def runTimer (s : TimerLoop) : Except Fault TimerLoop :=
  match s.batch with
  | some ⟨now, ran, it :: rest⟩ => do
    let timer ← s.queue.deref (ofLex it).2
    return { s with
      batch := some ⟨now, ran ++ [it], rest⟩
      fired := s.fired ++ [(s.batches, timer.sequence_)] }
  | _ => return s

def handleReadEnd (addTime : Timestamp → ℚ → Timestamp) (s : TimerLoop) (now' : Timestamp) :
    Except Fault TimerLoop :=
  match s.batch with
  | some b => do
    let q ← s.queue.handleReadEnd addTime b.expired b.now now'
    return { s with queue := q, batch := none }
  | none => return s

/-- A time in a label is what `Timestamp::now()` returns there. -/
inductive Label
  | addTimer (inLoopThread : Bool) (p : TimerPtr) (when' : Timestamp) (interval : ℚ) (now : Timestamp)
  | cancel (inLoopThread : Bool) (timerId : TimerId) (now : Timestamp)
  | doPendingFunctors
  | runFunctor (now : Timestamp)
  | handleRead (now : Timestamp) (fired : Bool)
  | runTimer
  | handleReadEnd (now : Timestamp)

/-- User code runs in the loop thread: between two batches, or in a callback of one. -/
def Calls (s : TimerLoop) : Prop := ∀ b ∈ s.batch, b.ran ≠ []

instance (s : TimerLoop) : Decidable s.Calls :=
  inferInstanceAs (Decidable (∀ b ∈ s.batch, b.ran ≠ []))

/-- `new` returns an address that is not in use. -/
def Fresh (s : TimerLoop) (p : TimerPtr) : Prop :=
  0 < p ∧ p < UINTPTR_MAX ∧ s.queue.heap p = none

instance (s : TimerLoop) (p : TimerPtr) : Decidable (s.Fresh p) :=
  inferInstanceAs (Decidable (0 < p ∧ p < UINTPTR_MAX ∧ s.queue.heap p = none))

def Enabled (s : TimerLoop) : Label → Prop
  | .addTimer inLoopThread p _ _ _ => (inLoopThread = true → s.Calls) ∧ s.Fresh p
  | .cancel inLoopThread _ _ => inLoopThread = true → s.Calls
  | .doPendingFunctors => s.batch = none ∧ s.functors = []
  | .runFunctor _ => s.batch = none ∧ s.functors ≠ []
  | .handleRead now _ => s.batch = none ∧ s.functors = [] ∧ 0 < now
  | .runTimer => ∃ b ∈ s.batch, b.rest ≠ []
  | .handleReadEnd _ => ∃ b ∈ s.batch, b.rest = []

def machine (addTime : Timestamp → ℚ → Timestamp) : Machine TimerLoop Label Fault where
  enabled := Enabled
  step s
    | .addTimer inLoopThread p when' interval now => s.addTimer inLoopThread p when' interval now
    | .cancel inLoopThread timerId now => s.cancel inLoopThread timerId now
    | .doPendingFunctors => .ok { s with pendingFunctors_ := [], functors := s.pendingFunctors_ }
    | .runFunctor now => s.runFunctor now
    | .handleRead now fired => s.handleRead now fired
    | .runTimer => s.runTimer
    | .handleReadEnd now => s.handleReadEnd addTime now

instance (addTime : Timestamp → ℚ → Timestamp) (s : TimerLoop) (l : Label) :
    Decidable ((machine addTime).enabled s l) :=
  match l with
  | .addTimer inLoopThread p _ _ _ =>
    inferInstanceAs (Decidable ((inLoopThread = true → s.Calls) ∧ s.Fresh p))
  | .cancel inLoopThread _ _ => inferInstanceAs (Decidable (inLoopThread = true → s.Calls))
  | .doPendingFunctors => inferInstanceAs (Decidable (s.batch = none ∧ s.functors = []))
  | .runFunctor _ => inferInstanceAs (Decidable (s.batch = none ∧ s.functors ≠ []))
  | .handleRead now _ => inferInstanceAs (Decidable (s.batch = none ∧ s.functors = [] ∧ 0 < now))
  | .runTimer => inferInstanceAs (Decidable (∃ b ∈ s.batch, b.rest ≠ []))
  | .handleReadEnd _ => inferInstanceAs (Decidable (∃ b ∈ s.batch, b.rest = []))

end TimerLoop

end MuduoNet
