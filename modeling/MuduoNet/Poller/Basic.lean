import MuduoNet.Channel
import MuduoNet.Lib.Slots

/-!
# The functions of `Poller`

`pollfds_` is the array given to `::poll`, `channels_` the map from descriptors to channels,
and `channel` the `Channel` objects themselves, by pointer. Sizes and indices that the
source casts to `int` are `Int`: the entries belong to distinct descriptors below `INT_MAX`.
-/
namespace MuduoNet

open Lib.Outcome Lib.Slots

/-- `struct pollfd`; `events` and `revents` are `short`. -/
structure Pollfd where
  fd : Int
  events : BitVec 16
  revents : BitVec 16
  deriving DecidableEq, Repr

/-- A `Channel *`. -/
abbrev ChannelPtr := Nat

structure Poller where
  pollfds_ : List Pollfd
  channels_ : Int → Option ChannelPtr
  channel : ChannelPtr → Channel

namespace Poller

/-- A store through a channel pointer. -/
def setChannel (p : Poller) (c : ChannelPtr) (ch : Channel) : Poller :=
  { p with channel := fun d => if d = c then ch else p.channel d }

/-- `channels_[fd] = c`, or `channels_.erase(fd)` for `none`. -/
def setEntry (p : Poller) (fd : Int) (c : Option ChannelPtr) : Poller :=
  { p with channels_ := fun f => if f = fd then c else p.channels_ f }

/-- The loop of `fillActiveChannels` over the entries not yet visited. -/
def fillFrom (p : Poller) (numEvents : Int) (active : List ChannelPtr) :
    List Pollfd → Except Fault (Poller × List ChannelPtr)
  | [] => .ok (p, active)
  | it :: rest =>
    if 0 < numEvents then
      if 0 < it.revents.toInt then
        match p.channels_ it.fd with
        | none => .error .assertion
        | some c => do
          assert ((p.channel c).fd_ = it.fd)
          let p := p.setChannel c { p.channel c with revents_ := it.revents.signExtend 32 }
          p.fillFrom (numEvents - 1) (active ++ [c]) rest
      else p.fillFrom numEvents active rest
    else .ok (p, active)

/-- The poller with the channels' `revents_` set, and the active channels. -/
def fillActiveChannels (p : Poller) (numEvents : Int) : Except Fault (Poller × List ChannelPtr) :=
  p.fillFrom numEvents [] p.pollfds_

/-- `poll`, with what `::poll` returned and the `revents` it stored in the entries. A failing
`::poll` stores nothing and is left out. -/
def poll (p : Poller) (numEvents : Int) (revents : List (BitVec 16)) :
    Except Fault (Poller × List ChannelPtr) :=
  let p := { p with
    pollfds_ := List.zipWith (fun pfd r => { pfd with revents := r }) p.pollfds_ revents }
  if 0 < numEvents then p.fillActiveChannels numEvents else .ok (p, [])

/-- The first branch of `updateChannel`: a channel without an index is entered. -/
def addEntry (p : Poller) (c : ChannelPtr) : Except Fault Poller := do
  let ch := p.channel c
  assert (p.channels_ ch.fd_ = none)
  let pfd : Pollfd := ⟨ch.fd_, ch.events_.setWidth 16, 0⟩
  let p := { p with pollfds_ := p.pollfds_ ++ [pfd] }
  let idx : Int := p.pollfds_.length - 1
  let p := p.setChannel c { ch with index_ := idx }
  return p.setEntry pfd.fd (some c)

/-- The second branch of `updateChannel`: the channel's entry is rewritten. -/
def changeEntry (p : Poller) (c : ChannelPtr) : Except Fault Poller := do
  let ch := p.channel c
  assert (p.channels_ ch.fd_ ≠ none)
  assert (p.channels_ ch.fd_ = some c)
  let idx := ch.index_
  assert (0 ≤ idx ∧ idx < p.pollfds_.length)
  match p.pollfds_[idx.toNat]? with
  | none => .error .outOfBounds
  | some pfd =>
    assert (pfd.fd = ch.fd_ ∨ pfd.fd = -ch.fd_ - 1)
    let pfd := { pfd with events := ch.events_.setWidth 16, revents := 0 }
    let pfd := if ch.isNoneEvent then { pfd with fd := -ch.fd_ - 1 } else pfd
    return { p with pollfds_ := p.pollfds_.set idx.toNat pfd }

def updateChannel (p : Poller) (c : ChannelPtr) : Except Fault Poller :=
  if (p.channel c).index_ < 0 then p.addEntry c else p.changeEntry c

/-- The end of `removeChannel` when the entry is not the last: the last one moves into the
hole, and the channel it belongs to is found by its descriptor, possibly negated. -/
def moveLast (p : Poller) (idx : Nat) (back : Pollfd) : Except Fault Poller := do
  let channelAtEnd := if back.fd < 0 then -(back.fd + 1) else back.fd
  let p := { p with pollfds_ := swapRemove p.pollfds_ idx }
  match p.channels_ channelAtEnd with
  | none => .error .nullPointer
  | some d => return p.setChannel d { p.channel d with index_ := idx }

def removeChannel (p : Poller) (c : ChannelPtr) : Except Fault Poller := do
  let ch := p.channel c
  assert (p.channels_ ch.fd_ ≠ none)
  assert (p.channels_ ch.fd_ = some c)
  assert (ch.isNoneEvent)
  let idx := ch.index_
  assert (0 ≤ idx ∧ idx < p.pollfds_.length)
  match p.pollfds_[idx.toNat]?, p.pollfds_.getLast? with
  | some pfd, some back =>
    assert (pfd.fd = ch.fd_ ∨ pfd.fd = -ch.fd_ - 1)
    let p := p.setEntry ch.fd_ none
    if idx.toNat = p.pollfds_.length - 1 then
      return { p with pollfds_ := p.pollfds_.dropLast }
    else
      p.moveLast idx.toNat back
  | _, _ => .error .outOfBounds

end Poller

end MuduoNet
