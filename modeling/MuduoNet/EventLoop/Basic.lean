import MuduoNet.Base
import MuduoNet.Lib.Machine

/-!
# `EventLoop` and the threads that use it

The loop thread runs `loop()` statement by statement, other threads call `runInLoop`,
`queueInLoop` and `quit` at any time. Pushing a functor, swapping the vector, and reading or
writing the eventfd are atomic. A functor is any value: what its body does are the calls the
loop thread makes until the body returns.
-/
namespace MuduoNet

open Lib

/-- A thread, by what `CurrentThread::tid()` returns in it. -/
abbrev ThreadId := Nat

structure EventLoop (F : Type) where
  looping_ : Bool
  quit_ : Bool
  callingPendingFunctors_ : Bool
  threadId_ : ThreadId
  pendingFunctors_ : List F
  /-- The counter of the eventfd. -/
  wakeupFd_ : Nat
  deriving DecidableEq, Repr

namespace EventLoop

variable {F : Type}

/-- The constructor, run in the thread `tid`. -/
def new (tid : ThreadId) : EventLoop F where
  looping_ := false
  quit_ := false
  callingPendingFunctors_ := false
  threadId_ := tid
  pendingFunctors_ := []
  wakeupFd_ := 0

def isInLoopThread (l : EventLoop F) (tid : ThreadId) : Bool := l.threadId_ == tid

/-- `::write` of 1 to the eventfd; it fails where the counter would reach its limit. -/
def wakeup (l : EventLoop F) : EventLoop F :=
  { l with wakeupFd_ := if l.wakeupFd_ + 1 < 2 ^ 64 - 1 then l.wakeupFd_ + 1 else l.wakeupFd_ }

/-- `::read` takes the counter back to 0, or fails if it is 0. -/
def handleRead (l : EventLoop F) : EventLoop F := { l with wakeupFd_ := 0 }

/-- The locked part of `queueInLoop`. -/
def push (l : EventLoop F) (cb : F) : EventLoop F :=
  { l with pendingFunctors_ := l.pendingFunctors_ ++ [cb] }

/-- The rest of `queueInLoop`. -/
def wakeupAfterPush (l : EventLoop F) (tid : ThreadId) : EventLoop F :=
  if ¬ l.isInLoopThread tid ∨ l.callingPendingFunctors_ then l.wakeup else l

/-- The rest of `quit`, once `quit_` is set. -/
def wakeupAfterQuit (l : EventLoop F) (tid : ThreadId) : EventLoop F :=
  if ¬ l.isInLoopThread tid then l.wakeup else l

theorem wakeup_pos (l : EventLoop F) : 0 < l.wakeup.wakeupFd_ := by
  unfold wakeup
  dsimp only
  split <;> omega

theorem le_wakeup (l : EventLoop F) : l.wakeupFd_ ≤ l.wakeup.wakeupFd_ := by
  unfold wakeup
  dsimp only
  split <;> omega

theorem le_wakeupAfterPush (l : EventLoop F) (tid : ThreadId) :
    l.wakeupFd_ ≤ (l.wakeupAfterPush tid).wakeupFd_ := by
  unfold wakeupAfterPush
  split
  · exact le_wakeup l
  · exact Nat.le_refl _

theorem le_wakeupAfterQuit (l : EventLoop F) (tid : ThreadId) :
    l.wakeupFd_ ≤ (l.wakeupAfterQuit tid).wakeupFd_ := by
  unfold wakeupAfterQuit
  split
  · exact le_wakeup l
  · exact Nat.le_refl _

/-- Both ends of a call write to the eventfd and to nothing else. -/
theorem wakeupAfterPush_frame (l : EventLoop F) (tid : ThreadId) :
    l.wakeupAfterPush tid = { l with wakeupFd_ := (l.wakeupAfterPush tid).wakeupFd_ } := by
  unfold wakeupAfterPush
  split <;> rfl

theorem wakeupAfterQuit_frame (l : EventLoop F) (tid : ThreadId) :
    l.wakeupAfterQuit tid = { l with wakeupFd_ := (l.wakeupAfterQuit tid).wakeupFd_ } := by
  unfold wakeupAfterQuit
  split <;> rfl

end EventLoop

/-- An element of `activeChannels`. -/
inductive ActiveChannel
  | wakeupChannel_
  | other
  deriving DecidableEq, Repr

/-- Where the loop thread is. A list is what is left of `activeChannels`, or of the vector
swapped out by `doPendingFunctors`. -/
inductive Pc (F : Type)
  /-- The loop is built, and no other thread has it yet. -/
  | built
  /-- Before `loop()`. -/
  | outside
  /-- Before `quit_ = false`. -/
  | entered
  /-- At `while (!quit_)`. -/
  | testing
  /-- About to block in `poll`, or blocked there. -/
  | polling
  | handling (active : List ActiveChannel)
  /-- In a handler, or in a callback that it makes. -/
  | handler (active : List ActiveChannel)
  /-- `callingPendingFunctors_` is set, the vector not yet swapped. -/
  | swapping
  | running (functors : List F)
  /-- In the body of a functor. -/
  | functor (functors : List F)
  /-- `loop()` has returned. -/
  | returned
  deriving DecidableEq, Repr

/-- User code runs on the loop thread. -/
def Pc.RunsUserCode {F : Type} : Pc F → Prop
  | .handler _ | .functor _ => True
  | _ => False

/-- The loop thread is in `doPendingFunctors`. -/
def Pc.InPendingFunctors {F : Type} : Pc F → Prop
  | .swapping | .running _ | .functor _ => True
  | _ => False

/-- The functors swapped out that have not started. -/
def Pc.batch {F : Type} : Pc F → List F
  | .running functors | .functor functors => functors
  | _ => []

/-- What a thread has left to do of a call: the part behind the push, or behind the store to
`quit_`. -/
inductive Call
  | none
  | queueInLoop
  | quit
  deriving DecidableEq, Repr

/-- The program does not read the last two fields: the functors pushed and the functors started
by `doPendingFunctors`, both in order. -/
structure LoopSystem (F : Type) where
  loop : EventLoop F
  pc : Pc F
  calls : ThreadId → Call
  pushed : List F
  ran : List F

namespace LoopSystem

variable {F : Type}

def start (tid : ThreadId) : LoopSystem F := ⟨.new tid, .built, fun _ => .none, [], []⟩

def setCall (s : LoopSystem F) (tid : ThreadId) (c : Call) : LoopSystem F :=
  { s with calls := fun t => if t = tid then c else s.calls t }

/-- `queueInLoop` up to the release of the lock. -/
def queueInLoop (s : LoopSystem F) (tid : ThreadId) (cb : F) : LoopSystem F :=
  { s with loop := s.loop.push cb, pushed := s.pushed ++ [cb] }.setCall tid .queueInLoop

/-- On the loop thread `cb()` runs where it is: it takes no step of its own. -/
def runInLoop (s : LoopSystem F) (tid : ThreadId) (cb : F) : LoopSystem F :=
  if s.loop.isInLoopThread tid then s else s.queueInLoop tid cb

def quit (s : LoopSystem F) (tid : ThreadId) : LoopSystem F :=
  { s with loop := { s.loop with quit_ := true } }.setCall tid .quit

/-- The rest of the call that `tid` is in. -/
def callReturns (s : LoopSystem F) (tid : ThreadId) : LoopSystem F :=
  match s.calls tid with
  | .none => s
  | .queueInLoop => { s with loop := s.loop.wakeupAfterPush tid }.setCall tid .none
  | .quit => { s with loop := s.loop.wakeupAfterQuit tid }.setCall tid .none

inductive Label (F : Type)
  /-- `loop_ = &loop` in `threadFunc`. -/
  | publish
  | loop
  | resetQuit
  | test
  | pollReturns (active : List ActiveChannel)
  | handleEvent
  | handlerReturns
  | beginPendingFunctors
  | swap
  | runFunctor
  | functorReturns
  | endPendingFunctors
  | runInLoop (tid : ThreadId) (cb : F)
  | queueInLoop (tid : ThreadId) (cb : F)
  | quit (tid : ThreadId)
  | callReturns (tid : ThreadId)
  deriving DecidableEq, Repr

/-- The loop thread is at `pc`, and not in a call. -/
def At (s : LoopSystem F) (pc : Pc F) : Prop := s.pc = pc ∧ s.calls s.loop.threadId_ = .none

/-- The thread can make a call: other threads once they have the loop, the loop thread from user
code. -/
def Calls (s : LoopSystem F) (tid : ThreadId) : Prop :=
  s.calls tid = .none ∧ s.pc ≠ .built ∧ (tid = s.loop.threadId_ → s.pc.RunsUserCode)

/-- `poll` reports the wakeup channel exactly if its counter is positive. -/
def Reports (s : LoopSystem F) (active : List ActiveChannel) : Prop :=
  active.count .wakeupChannel_ = if 0 < s.loop.wakeupFd_ then 1 else 0

def Enabled (s : LoopSystem F) : Label F → Prop
  | .publish => s.At .built
  | .loop => s.At .outside ∨ s.At .returned
  | .resetQuit => s.At .entered
  | .test => s.At .testing
  | .pollReturns active => s.At .polling ∧ s.Reports active
  | .handleEvent => ∃ it rest, s.At (.handling (it :: rest))
  | .handlerReturns => ∃ rest, s.At (.handler rest)
  | .beginPendingFunctors => s.At (.handling [])
  | .swap => s.At .swapping
  | .runFunctor => ∃ cb rest, s.At (.running (cb :: rest))
  | .functorReturns => ∃ rest, s.At (.functor rest)
  | .endPendingFunctors => s.At (.running [])
  | .runInLoop tid _ | .queueInLoop tid _ | .quit tid => s.Calls tid
  | .callReturns tid => s.calls tid ≠ .none

/-- The next of `activeChannels`. -/
def handleEvent (s : LoopSystem F) : LoopSystem F :=
  match s.pc with
  | .handling (.wakeupChannel_ :: rest) => { s with loop := s.loop.handleRead, pc := .handling rest }
  | .handling (.other :: rest) => { s with pc := .handler rest }
  | _ => s

/-- `functors[i]()` begins. -/
def runFunctor (s : LoopSystem F) : LoopSystem F :=
  match s.pc with
  | .running (cb :: rest) => { s with pc := .functor rest, ran := s.ran ++ [cb] }
  | _ => s

/-- A handler or the body of a functor returns. -/
def userCodeReturns (s : LoopSystem F) : LoopSystem F :=
  match s.pc with
  | .handler rest => { s with pc := .handling rest }
  | .functor rest => { s with pc := .running rest }
  | _ => s

def machine : Machine (LoopSystem F) (Label F) Fault where
  enabled := Enabled
  step s
    | .publish => .ok { s with pc := .outside }
    | .loop => do
      assert (s.loop.looping_ = false)
      return { s with loop := { s.loop with looping_ := true }, pc := .entered }
    | .resetQuit => .ok { s with loop := { s.loop with quit_ := false }, pc := .testing }
    | .test => .ok (if s.loop.quit_ then
        { s with loop := { s.loop with looping_ := false }, pc := .returned }
      else { s with pc := .polling })
    | .pollReturns active => .ok { s with pc := .handling active }
    | .handleEvent => .ok s.handleEvent
    | .handlerReturns | .functorReturns => .ok s.userCodeReturns
    | .beginPendingFunctors =>
      .ok { s with loop := { s.loop with callingPendingFunctors_ := true }, pc := .swapping }
    | .swap => .ok { s with
        loop := { s.loop with pendingFunctors_ := [] }, pc := .running s.loop.pendingFunctors_ }
    | .runFunctor => .ok s.runFunctor
    | .endPendingFunctors =>
      .ok { s with loop := { s.loop with callingPendingFunctors_ := false }, pc := .testing }
    | .runInLoop tid cb => .ok (s.runInLoop tid cb)
    | .queueInLoop tid cb => .ok (s.queueInLoop tid cb)
    | .quit tid => .ok (s.quit tid)
    | .callReturns tid => .ok (s.callReturns tid)

instance (pc : Pc F) : Decidable pc.RunsUserCode :=
  decidable_of_iff ((match pc with | .handler _ | .functor _ => true | _ => false) = true)
    (by cases pc <;> simp [Pc.RunsUserCode])

instance (s : LoopSystem F) : Decidable (∃ it rest, s.At (.handling (it :: rest))) :=
  decidable_of_iff ((match s.pc with | .handling (_ :: _) => true | _ => false) = true ∧
    s.calls s.loop.threadId_ = .none) (by unfold At; split <;> simp_all)

instance (s : LoopSystem F) : Decidable (∃ cb rest, s.At (.running (cb :: rest))) :=
  decidable_of_iff ((match s.pc with | .running (_ :: _) => true | _ => false) = true ∧
    s.calls s.loop.threadId_ = .none) (by unfold At; split <;> simp_all)

instance (s : LoopSystem F) : Decidable (∃ rest, s.At (.handler rest)) :=
  decidable_of_iff ((match s.pc with | .handler _ => true | _ => false) = true ∧
    s.calls s.loop.threadId_ = .none) (by unfold At; split <;> simp_all)

instance (s : LoopSystem F) : Decidable (∃ rest, s.At (.functor rest)) :=
  decidable_of_iff ((match s.pc with | .functor _ => true | _ => false) = true ∧
    s.calls s.loop.threadId_ = .none) (by unfold At; split <;> simp_all)

instance [DecidableEq F] (s : LoopSystem F) (pc : Pc F) : Decidable (s.At pc) :=
  inferInstanceAs (Decidable (s.pc = pc ∧ s.calls s.loop.threadId_ = .none))

instance [DecidableEq F] (s : LoopSystem F) (l : Label F) : Decidable (machine.enabled s l) :=
  match l with
  | .publish => inferInstanceAs (Decidable (s.At .built))
  | .loop => inferInstanceAs (Decidable (s.At .outside ∨ s.At .returned))
  | .resetQuit => inferInstanceAs (Decidable (s.At .entered))
  | .test => inferInstanceAs (Decidable (s.At .testing))
  | .pollReturns active =>
    inferInstanceAs (Decidable (s.At .polling ∧
      active.count .wakeupChannel_ = if 0 < s.loop.wakeupFd_ then 1 else 0))
  | .handleEvent => inferInstanceAs (Decidable (∃ it rest, s.At (.handling (it :: rest))))
  | .handlerReturns => inferInstanceAs (Decidable (∃ rest, s.At (.handler rest)))
  | .beginPendingFunctors => inferInstanceAs (Decidable (s.At (.handling [])))
  | .swap => inferInstanceAs (Decidable (s.At .swapping))
  | .runFunctor => inferInstanceAs (Decidable (∃ cb rest, s.At (.running (cb :: rest))))
  | .functorReturns => inferInstanceAs (Decidable (∃ rest, s.At (.functor rest)))
  | .endPendingFunctors => inferInstanceAs (Decidable (s.At (.running [])))
  | .runInLoop tid _ | .queueInLoop tid _ | .quit tid =>
    inferInstanceAs (Decidable (s.calls tid = .none ∧ s.pc ≠ .built ∧
      (tid = s.loop.threadId_ → s.pc.RunsUserCode)))
  | .callReturns tid => inferInstanceAs (Decidable (s.calls tid ≠ .none))

end LoopSystem

end MuduoNet
