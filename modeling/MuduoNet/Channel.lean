import MuduoNet.Base

/-!
# `Channel`: a descriptor and the events it wants

`events_` is the interest of the channel, `revents_` what `poll` last reported, `index_` its
place in the poller. `update()` hands the channel to the poller and is left to the callers.
-/
namespace MuduoNet

structure Channel where
  fd_ : Int
  events_ : BitVec 32
  revents_ : BitVec 32
  index_ : Int
  deriving DecidableEq, Repr

namespace Channel

def POLLIN : BitVec 32 := 0x001
def POLLPRI : BitVec 32 := 0x002
def POLLOUT : BitVec 32 := 0x004

def kNoneEvent : BitVec 32 := 0
def kReadEvent : BitVec 32 := POLLIN ||| POLLPRI
def kWriteEvent : BitVec 32 := POLLOUT

/-- The constructor. -/
def new (fd : Int) : Channel := ⟨fd, kNoneEvent, 0, -1⟩

def isNoneEvent (c : Channel) : Bool := c.events_ == kNoneEvent
def isWriting (c : Channel) : Bool := c.events_ &&& kWriteEvent != 0

def enableReading (c : Channel) : Channel := { c with events_ := c.events_ ||| kReadEvent }
def enableWriting (c : Channel) : Channel := { c with events_ := c.events_ ||| kWriteEvent }
def disableWriting (c : Channel) : Channel := { c with events_ := c.events_ &&& ~~~kWriteEvent }
def disableAll (c : Channel) : Channel := { c with events_ := kNoneEvent }

@[simp] theorem isWriting_new (fd : Int) : (new fd).isWriting = false := by
  simp [isWriting, new, kNoneEvent]

@[simp] theorem isWriting_enableWriting (c : Channel) : c.enableWriting.isWriting = true := by
  have h : (c.events_ ||| kWriteEvent) &&& kWriteEvent = kWriteEvent := by
    ext i
    simp only [BitVec.getElem_and, BitVec.getElem_or]
    cases c.events_[i] <;> cases kWriteEvent[i] <;> rfl
  rw [isWriting, enableWriting, h]
  rfl

@[simp] theorem isWriting_disableWriting (c : Channel) : c.disableWriting.isWriting = false := by
  have h : (c.events_ &&& ~~~kWriteEvent) &&& kWriteEvent = 0 := by
    rw [BitVec.and_assoc, show ~~~kWriteEvent &&& kWriteEvent = 0 from rfl]
    exact BitVec.and_zero
  rw [isWriting, disableWriting, h]
  rfl

/-- Reading interest leaves the writing flag alone. -/
@[simp] theorem isWriting_enableReading (c : Channel) :
    c.enableReading.isWriting = c.isWriting := by
  have h : (c.events_ ||| kReadEvent) &&& kWriteEvent = c.events_ &&& kWriteEvent := by
    rw [BitVec.and_or_distrib_right, show kReadEvent &&& kWriteEvent = 0 from rfl]
    exact BitVec.or_zero
  rw [isWriting, enableReading, h]
  rfl

end Channel

end MuduoNet
