import MuduoNet.Base
import MuduoNet.Lib.OrdSet
import Mathlib.Data.Prod.Lex
import Mathlib.Data.Rat.Floor

/-!
# The functions of `TimerQueue`

`heap` holds the `Timer` objects by address. A `Timestamp` is its count of microseconds, valid
when positive; the difference of two is taken to fit 64 bits. A `double` is a rational number,
and `addTime` a parameter: its definition is not part of the sources. The callback of a timer
is left out; `sequence_` tells which one runs.
-/
namespace MuduoNet

open Lib Lib.Outcome

/-- A count of microseconds. -/
abbrev Timestamp := Int

/-- A `Timer *`. -/
abbrev TimerPtr := Nat

/-- `UINTPTR_MAX`. -/
def UINTPTR_MAX : TimerPtr := 2 ^ 64 - 1

structure Timer where
  expiration_ : Timestamp
  interval_ : ℚ
  repeat_ : Bool
  sequence_ : Nat
  deriving DecidableEq

namespace Timer

/-- The constructor, with the number `s_numCreated_.incrementAndGet()`. -/
def new (when' : Timestamp) (interval : ℚ) (sequence : Nat) : Timer where
  expiration_ := when'
  interval_ := interval
  repeat_ := 1 < interval
  sequence_ := sequence

/-- `Timestamp::invalid()` is 0. -/
def restart (addTime : Timestamp → ℚ → Timestamp) (t : Timer) (now : Timestamp) : Timer :=
  { t with expiration_ := if t.repeat_ then addTime now t.interval_ else 0 }

end Timer

structure TimerId where
  timer_ : TimerPtr
  sequence_ : Nat
  deriving DecidableEq, Repr

def kMicroSecondsPerSecond : Int := 1000 * 1000

structure Timespec where
  tv_sec : Int
  tv_nsec : Int
  deriving DecidableEq, Repr

/-- `/` and `%` of the source truncate toward zero. -/
def howMuchTimerFromNow (expiration now : Timestamp) : Timespec :=
  let microseconds := expiration - now
  let microseconds := if microseconds < 100 then 100 else microseconds
  { tv_sec := microseconds.tdiv kMicroSecondsPerSecond
    tv_nsec := microseconds.tmod kMicroSecondsPerSecond * 1000 }

/-- A call of `timerfd_settime`: when it was made, and for how long. -/
structure Arming where
  armedAt : Timestamp
  it_value : Timespec
  deriving DecidableEq, Repr

/-- When the timerfd fires, in microseconds. -/
def Arming.deadline (a : Arming) : Timestamp :=
  a.armedAt + a.it_value.tv_sec * kMicroSecondsPerSecond + a.it_value.tv_nsec / 1000

/-- An expiration and its timer, in the order of `std::pair`. -/
abbrev Entry := Timestamp ×ₗ TimerPtr

/-- A timer and its sequence number, in the order of `std::pair`. -/
abbrev ActiveTimer := TimerPtr ×ₗ Nat

structure TimerQueue where
  heap : TimerPtr → Option Timer
  /-- `Timer::s_numCreated_`. -/
  numCreated : Nat
  timers_ : OrdSet Entry
  activeTimers_ : OrdSet ActiveTimer
  cancelingTimers_ : OrdSet ActiveTimer
  callingExpiredTimers_ : Bool
  /-- The last `timerfd_settime` that has not been read back. -/
  timerfd : Option Arming
  /-- The sequence numbers of the deleted timers; the program does not read it. -/
  deleted : List Nat

namespace TimerQueue

def new : TimerQueue where
  heap _ := none
  numCreated := 0
  timers_ := .empty
  activeTimers_ := .empty
  cancelingTimers_ := .empty
  callingExpiredTimers_ := false
  timerfd := none
  deleted := []

/-- A store at an address. -/
def setTimer (q : TimerQueue) (p : TimerPtr) (t : Option Timer) : TimerQueue :=
  { q with heap := fun p' => if p' = p then t else q.heap p' }

/-- A load through a pointer. -/
def deref (q : TimerQueue) (p : TimerPtr) : Except Fault Timer :=
  match q.heap p with
  | some t => .ok t
  | none => .error .deletedObject

/-- `delete p`. -/
def delete (q : TimerQueue) (p : TimerPtr) : Except Fault TimerQueue := do
  let timer ← q.deref p
  return { q.setTimer p none with deleted := timer.sequence_ :: q.deleted }

/-- `new Timer(cb, when, interval)` at the address `p`. -/
def newTimer (q : TimerQueue) (p : TimerPtr) (when' : Timestamp) (interval : ℚ) : TimerQueue :=
  { q.setTimer p (some (.new when' interval (q.numCreated + 1))) with
    numCreated := q.numCreated + 1 }

def resetTimerfd (q : TimerQueue) (expiration now : Timestamp) : TimerQueue :=
  { q with timerfd := some ⟨now, howMuchTimerFromNow expiration now⟩ }

/-- Whether a timer that expires at `when'` comes before all in `timers_`. -/
def comesFirst (q : TimerQueue) (when' : Timestamp) : Bool :=
  match q.timers_.first with
  | none => true
  | some it => when' < (ofLex it).1

def insert (q : TimerQueue) (p : TimerPtr) : Except Fault (Bool × TimerQueue) := do
  assert (q.timers_.size = q.activeTimers_.size)
  let timer ← q.deref p
  let earliestChanged := q.comesFirst timer.expiration_
  let (inserted, timers) := q.timers_.insert (toLex (timer.expiration_, p))
  assert (inserted = true)
  let (inserted, activeTimers) := q.activeTimers_.insert (toLex (p, timer.sequence_))
  assert (inserted = true)
  let q := { q with timers_ := timers, activeTimers_ := activeTimers }
  assert (q.timers_.size = q.activeTimers_.size)
  return (earliestChanged, q)

/-- `now` is what `Timestamp::now()` returns in `howMuchTimerFromNow`. -/
def addTimerInLoop (q : TimerQueue) (p : TimerPtr) (now : Timestamp) : Except Fault TimerQueue := do
  let (earliestChanged, q) ← q.insert p
  if earliestChanged then
    let timer ← q.deref p
    return q.resetTimerfd timer.expiration_ now
  else
    return q

/-- What `addTimer` returns: the second argument of the constructor is left to its default. -/
def timerId (p : TimerPtr) : TimerId := ⟨p, 0⟩

def cancelInLoop (q : TimerQueue) (timerId : TimerId) : Except Fault TimerQueue := do
  assert (q.timers_.size = q.activeTimers_.size)
  let timer : ActiveTimer := toLex (timerId.timer_, timerId.sequence_)
  if timer ∈ q.activeTimers_ then
    let t ← q.deref timerId.timer_
    let (n, timers) := q.timers_.erase (toLex (t.expiration_, timerId.timer_))
    assert (n = 1)
    let q ← { q with timers_ := timers }.delete timerId.timer_
    let q := { q with activeTimers_ := (q.activeTimers_.erase timer).2 }
    assert (q.timers_.size = q.activeTimers_.size)
    return q
  else
    let q := if q.callingExpiredTimers_ then
      { q with cancelingTimers_ := (q.cancelingTimers_.insert timer).2 } else q
    assert (q.timers_.size = q.activeTimers_.size)
    return q

/-- The loop of `getExpired` over the expired entries. -/
def deactivate (q : TimerQueue) : List Entry → Except Fault TimerQueue
  | [] => .ok q
  | it :: expired => do
    let timer ← q.deref (ofLex it).2
    let (n, activeTimers) := q.activeTimers_.erase (toLex ((ofLex it).2, timer.sequence_))
    assert (n = 1)
    { q with activeTimers_ := activeTimers }.deactivate expired

def getExpired (q : TimerQueue) (now : Timestamp) : Except Fault (List Entry × TimerQueue) := do
  assert (q.timers_.size = q.activeTimers_.size)
  let sentry : Entry := toLex (now, UINTPTR_MAX)
  let expired := q.timers_.below sentry
  let rest := q.timers_.notBelow sentry
  assert (∀ it ∈ rest.first, now < (ofLex it).1)
  let q ← { q with timers_ := rest }.deactivate expired
  assert (q.activeTimers_.size = q.timers_.size)
  return (expired, q)

/-- The loop of `reset` over the expired entries. -/
def reinsert (addTime : Timestamp → ℚ → Timestamp) (q : TimerQueue) (now : Timestamp) :
    List Entry → Except Fault TimerQueue
  | [] => .ok q
  | it :: expired => do
    let p := (ofLex it).2
    let timer ← q.deref p
    if timer.repeat_ = true ∧ toLex (p, timer.sequence_) ∉ q.cancelingTimers_ then
      let (_, q) ← (q.setTimer p (some (timer.restart addTime now))).insert p
      q.reinsert addTime now expired
    else
      let q ← q.delete p
      q.reinsert addTime now expired

/-- `now` is the time at which the batch was taken, `now'` the one at the end of it. -/
def reset (addTime : Timestamp → ℚ → Timestamp) (q : TimerQueue) (expired : List Entry)
    (now now' : Timestamp) : Except Fault TimerQueue := do
  let q ← q.reinsert addTime now expired
  match q.timers_.first with
  | none => return q
  | some it =>
    let timer ← q.deref (ofLex it).2
    if 0 < timer.expiration_ then
      return q.resetTimerfd timer.expiration_ now'
    else
      return q

/-- `::read` takes the expiration off the timerfd if it has fired. -/
def readTimerfd (q : TimerQueue) (fired : Bool) : TimerQueue :=
  if fired then { q with timerfd := none } else q

/-- `handleRead` up to the first callback. -/
def handleReadBegin (q : TimerQueue) (now : Timestamp) (fired : Bool) :
    Except Fault (List Entry × TimerQueue) := do
  let (expired, q) ← (q.readTimerfd fired).getExpired now
  return (expired, { q with callingExpiredTimers_ := true, cancelingTimers_ := .empty })

/-- `handleRead` from the return of the last callback on. -/
def handleReadEnd (addTime : Timestamp → ℚ → Timestamp) (q : TimerQueue) (expired : List Entry)
    (now now' : Timestamp) : Except Fault TimerQueue :=
  { q with callingExpiredTimers_ := false }.reset addTime expired now now'

end TimerQueue

end MuduoNet
