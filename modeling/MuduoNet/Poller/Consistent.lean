import MuduoNet.Poller.Spec
import MuduoNet.Lib.Machine

/-!
# The poller's indices

Channels register, change their interest, are polled, and leave once their interest is
empty. `live` and `removed` remember which are registered and which have left; the program
never reads them. `channels_` and `pollfds_` stay in one-to-one correspondence however
removals shuffle the entries.
-/
namespace MuduoNet

open Lib Lib.Outcome Lib.Slots

structure PollSession where
  poller : Poller
  live : List ChannelPtr
  removed : List ChannelPtr

namespace PollSession

/-- No channel is registered yet; `fd` gives each its descriptor. -/
def start (fd : ChannelPtr → Int) : PollSession where
  poller := ⟨[], fun _ => none, fun c => .new (fd c)⟩
  live := []
  removed := []

inductive Label
  | change (c : ChannelPtr) (op : ChannelOp)
  | remove (c : ChannelPtr)
  | poll (numEvents : Int) (revents : List (BitVec 16))

/-- A channel that has left is not used again. One that registers has a descriptor of its own.
It leaves when its events are empty. -/
def Enabled (s : PollSession) : Label → Prop
  | .change c _ => c ∉ s.removed ∧ (c ∈ s.live ∨ 0 ≤ (s.poller.channel c).fd_ ∧
      ∀ d ∈ s.live, (s.poller.channel d).fd_ ≠ (s.poller.channel c).fd_)
  | .remove c => c ∈ s.live ∧ (s.poller.channel c).isNoneEvent = true
  | .poll numEvents revents => s.poller.SetsRevents numEvents revents

def machine : Machine PollSession Label Fault where
  enabled := Enabled
  step s
    | .change c op => do
      let p ← s.poller.change c op
      return { s with poller := p, live := if c ∈ s.live then s.live else s.live ++ [c] }
    | .remove c => do
      let p ← s.poller.removeChannel c
      return ⟨p, s.live.filter (· ≠ c), c :: s.removed⟩
    | .poll numEvents revents => do
      let (p, _) ← s.poller.poll numEvents revents
      return { s with poller := p }

/-- `owners` are the live channels; those that never registered have no index. -/
structure Inv (fd : ChannelPtr → Int) (s : PollSession) (owners : List ChannelPtr) : Prop where
  owned : s.poller.Owned fd owners
  live : ∀ c, c ∈ s.live ↔ c ∈ owners
  unused : ∀ c, c ∉ s.live → c ∉ s.removed → (s.poller.channel c).index_ < 0

section

variable {fd : ChannelPtr → Int} {s : PollSession} {owners : List ChannelPtr}

theorem inv_start (fd : ChannelPtr → Int) : Inv fd (start fd) [] := by
  constructor
  · refine ⟨fun _ => rfl, ?_, .nil, .nil, ?_⟩
    · intro c hc
      cases hc
    · intro f c
      constructor
      · intro h
        cases h
      · intro ⟨h, _⟩
        cases h
  · intro c
    exact Iff.rfl
  · intro c _ _
    show (-1 : Int) < 0
    decide

theorem Inv.change_pre (h : Inv fd s owners) {c : ChannelPtr} (op : ChannelOp)
    (he : s.Enabled (.change c op)) :
    c ∈ owners ∨ ((s.poller.channel c).index_ < 0 ∧ 0 ≤ fd c ∧ ∀ d ∈ owners, fd d ≠ fd c) := by
  obtain ⟨hused, hc⟩ := he
  by_cases hmem : c ∈ s.live
  · exact Or.inl ((h.live c).mp hmem)
  · obtain ⟨hnonneg, hfree⟩ := hc.resolve_left hmem
    rw [h.owned.fd_eq] at hnonneg
    refine Or.inr ⟨h.unused c hmem hused, hnonneg, ?_⟩
    intro d hd
    have hne := hfree d ((h.live d).mpr hd)
    rw [h.owned.fd_eq, h.owned.fd_eq] at hne
    exact hne

theorem change_sat (h : Inv fd s owners) {c : ChannelPtr} {op : ChannelOp}
    (he : s.Enabled (.change c op)) :
    Sat Nothing (machine.step s (.change c op)) (fun t => ∃ owners', Inv fd t owners') := by
  obtain ⟨q, owners', hq, hown, hmem, _, hother⟩ := Poller.change_owned h.owned op (h.change_pre op he)
  have hlive : ∀ d, d ∈ (if c ∈ s.live then s.live else s.live ++ [c]) ↔ d ∈ owners' := by
    intro d
    rw [hmem, ← h.live]
    split
    · rename_i hc
      constructor
      · exact Or.inl
      · intro hd
        rcases hd with hd | rfl
        · exact hd
        · exact hc
    · rw [List.mem_append, List.mem_singleton]
  show Sat Nothing (s.poller.change c op >>= _) _
  rw [hq]
  refine ⟨owners', hown, hlive, ?_⟩
  intro d hd hrem
  have hd' : ¬ (d ∈ owners ∨ d = c) := by
    rw [← hmem, ← hlive]
    exact hd
  rw [not_or] at hd'
  show (q.channel d).index_ < 0
  rw [hother d hd'.2]
  apply h.unused d _ hrem
  rw [h.live]
  exact hd'.1

theorem remove_sat (h : Inv fd s owners) {c : ChannelPtr} (he : s.Enabled (.remove c)) :
    Sat Nothing (machine.step s (.remove c)) (fun t => ∃ owners', Inv fd t owners') := by
  obtain ⟨hc, hnone⟩ := he
  obtain ⟨q, owners', hq, hown, hmem, hkept, _⟩ :=
    Poller.removeChannel_owned h.owned ((h.live c).mp hc) hnone
  have hlive : ∀ d, d ∈ s.live.filter (· ≠ c) ↔ d ∈ owners' := by
    intro d
    rw [hmem, ← h.live, List.mem_filter, decide_eq_true_eq]
  show Sat Nothing (s.poller.removeChannel c >>= _) _
  rw [hq]
  refine ⟨owners', hown, hlive, ?_⟩
  intro d hd hrem
  obtain ⟨hdc, hrem⟩ := not_or.mp (fun hr => hrem (List.mem_cons.mpr hr))
  have hd' : d ∉ s.live := by
    intro hmem'
    exact hd (List.mem_filter.mpr ⟨hmem', decide_eq_true hdc⟩)
  show (q.channel d).index_ < 0
  rw [(hkept d).2 (fun ho => hd' ((h.live d).mpr ho))]
  exact h.unused d hd' hrem

theorem poll_sat (h : Inv fd s owners) {numEvents : Int} {revents : List (BitVec 16)}
    (he : s.Enabled (.poll numEvents revents)) :
    Sat Nothing (machine.step s (.poll numEvents revents)) (fun t => ∃ owners', Inv fd t owners') := by
  obtain ⟨q, hq, hown, _, _, hother, _⟩ := Poller.poll_owned h.owned he
  show Sat Nothing (s.poller.poll numEvents revents >>= _) _
  rw [hq]
  refine ⟨owners, hown, h.live, ?_⟩
  intro d hd hrem
  show (q.channel d).index_ < 0
  rw [hother d (fun ho => hd ((h.live d).mpr ho))]
  exact h.unused d hd hrem

/-- Every step keeps the list of owners, and no assertion can fail. -/
theorem step_sat {l : Label} (hi : ∃ owners, Inv fd s owners) (he : machine.enabled s l) :
    Sat Nothing (machine.step s l) (fun t => ∃ owners, Inv fd t owners) := by
  obtain ⟨owners, h⟩ := hi
  cases l with
  | change c op => exact change_sat h he
  | remove c => exact remove_sat h he
  | poll numEvents revents => exact poll_sat h he

/-- `channels_`, `pollfds_` and the channels' indices describe the same registrations. -/
structure OneToOne (s : PollSession) : Prop where
  entry : ∀ c ∈ s.live, ∃ (i : Nat) (pfd : Pollfd), (s.poller.channel c).index_ = i ∧
    s.poller.pollfds_[i]? = some pfd ∧
    (pfd.fd = (s.poller.channel c).fd_ ∨ pfd.fd = -(s.poller.channel c).fd_ - 1)
  distinct : ∀ c ∈ s.live, ∀ d ∈ s.live,
    (s.poller.channel c).index_ = (s.poller.channel d).index_ → c = d
  covered : ∀ i < s.poller.pollfds_.length, ∃ c ∈ s.live, (s.poller.channel c).index_ = (i : Nat)
  channels : ∀ f c, s.poller.channels_ f = some c ↔ c ∈ s.live ∧ (s.poller.channel c).fd_ = f

theorem Inv.oneToOne (h : Inv fd s owners) : OneToOne s := by
  constructor
  · intro c hc
    obtain ⟨i, pfd, hidx, _, _, hpfd, hfd⟩ := h.owned.cell ((h.live c).mp hc)
    rw [h.owned.fd_eq]
    exact ⟨i, pfd, hidx, hpfd, hfd⟩
  · intro c hc d hd hcd
    exact h.owned.backed.inj ((h.live c).mp hc) ((h.live d).mp hd) hcd
  · intro i hi
    rw [h.owned.length] at hi
    have hc := List.getElem?_eq_getElem hi
    exact ⟨owners[i], (h.live _).mpr (List.getElem_mem hi), h.owned.backed i _ hc⟩
  · intro f c
    rw [h.owned.channels, h.live, h.owned.fd_eq]

/-- `::poll` stored the events `r` in the entry of the live channel `c`. -/
def Reported (s : PollSession) (revents : List (BitVec 16)) (c : ChannelPtr) (r : BitVec 16) : Prop :=
  c ∈ s.live ∧ ∃ i : Nat, (s.poller.channel c).index_ = i ∧ revents[i]? = some r

theorem Inv.mem_reported_iff (h : Inv fd s owners) {revents : List (BitVec 16)} {c : ChannelPtr}
    {r : BitVec 16} :
    s.Reported revents c r ↔ ∃ (i : Nat) (it : Pollfd),
      (s.poller.polled revents)[i]? = some it ∧ owners[i]? = some c ∧ it.revents = r := by
  constructor
  · intro ⟨hc, i, hidx, hr⟩
    obtain ⟨j, pfd, hidx', _, hj, hpfd, _⟩ := h.owned.cell ((h.live c).mp hc)
    obtain rfl : i = j := by omega
    exact ⟨i, _, Poller.getElem?_polled.mpr ⟨pfd, r, hpfd, hr, rfl⟩, hj, rfl⟩
  · intro ⟨i, it, hit, hc, hr⟩
    obtain ⟨pfd, r', _, hr', rfl⟩ := Poller.getElem?_polled.mp hit
    obtain rfl : r' = r := hr
    exact ⟨(h.live c).mpr (List.mem_of_getElem? hc), i, h.owned.backed i c hc, hr'⟩

/-- In every reachable state the correspondence holds, no further operation fails an
assertion, and a `poll` returns exactly the channels whose entries have events, each once
and with its own events. -/
theorem poller_consistent (h : Reachable machine (start fd) s) :
    OneToOne s ∧ (∀ l, s.Enabled l → ∃ t, machine.step s l = .ok t) ∧
    ∀ numEvents revents, s.poller.SetsRevents numEvents revents →
      ∃ p active, s.poller.poll numEvents revents = .ok (p, active) ∧ active.Nodup ∧
        (active.length : Int) = numEvents ∧
        (∀ c, c ∈ active ↔ ∃ r, s.Reported revents c r ∧ 0 < r.toInt) ∧
        ∀ c r, s.Reported revents c r → 0 < r.toInt →
          (p.channel c).revents_ = r.signExtend 32 := by
  obtain ⟨⟨owners, hi⟩, hstep⟩ := h.sat_step (fun _ _ hi he => step_sat hi he) ⟨[], inv_start fd⟩
  refine ⟨hi.oneToOne, ?_, ?_⟩
  · intro l he
    obtain ⟨t, ht, _⟩ := (hstep l he).returns (fun _ hn => hn)
    exact ⟨t, ht⟩
  · intro numEvents revents hset
    obtain ⟨p, hp, _, _, _, _, hrev⟩ := Poller.poll_owned hi.owned hset
    obtain ⟨_, hcount, _⟩ := hset
    refine ⟨p, _, hp, ?_, ?_, ?_, ?_⟩
    · exact hi.owned.backed.nodup.sublist (Poller.reported_sublist _ _)
    · rw [Poller.length_reported hrev.length_eq, hcount]
    · intro c
      rw [Poller.mem_reported]
      constructor
      · intro ⟨i, it, hit, hc, hpos⟩
        exact ⟨it.revents, (hi.mem_reported_iff).mpr ⟨i, it, hit, hc, rfl⟩, hpos⟩
      · intro ⟨r, hr, hpos⟩
        obtain ⟨i, it, hit, hc, rfl⟩ := (hi.mem_reported_iff).mp hr
        exact ⟨i, it, hit, hc, hpos⟩
    · intro c r hr hpos
      obtain ⟨i, it, hit, hc, rfl⟩ := (hi.mem_reported_iff).mp hr
      exact (forall₂_iff_getElem?.mp hrev).2 i it c hit hc hpos

end

instance (p : Poller) (numEvents : Int) (revents : List (BitVec 16)) :
    Decidable (p.SetsRevents numEvents revents) :=
  inferInstanceAs (Decidable (revents.length = p.pollfds_.length ∧
    numEvents = (p.polled revents).countP (fun it => 0 < it.revents.toInt) ∧
    ∀ it ∈ p.polled revents, 0 < it.revents.toInt → 0 ≤ it.fd))

instance (s : PollSession) (l : Label) : Decidable (machine.enabled s l) :=
  match l with
  | .change c _ => inferInstanceAs (Decidable (c ∉ s.removed ∧
      (c ∈ s.live ∨ 0 ≤ (s.poller.channel c).fd_ ∧
        ∀ d ∈ s.live, (s.poller.channel d).fd_ ≠ (s.poller.channel c).fd_)))
  | .remove c => inferInstanceAs (Decidable (c ∈ s.live ∧ (s.poller.channel c).isNoneEvent = true))
  | .poll numEvents revents => inferInstanceAs (Decidable (s.poller.SetsRevents numEvents revents))

/-- Descriptor 0, muted in the last entry, moves into the hole that channel 2 leaves. -/
theorem poller_consistent_run :
    let ls : List Label := [.change 2 .enableReading, .change 1 .enableWriting,
      .change 0 .enableReading, .poll 1 [0, 4, 0], .change 0 .disableAll, .change 2 .disableAll,
      .remove 2]
    ∃ s, Run machine (start fun c => c) ls s ∧ OneToOne s ∧
      ∃ p active, s.poller.poll 1 [0, 5] = .ok (p, active) ∧ active.length = 1 := by
  intro ls
  have hex : ∃ s, Run machine (start fun c => c) ls s ∧ s.poller.SetsRevents 1 [0, 5] :=
    exists_run_of_exec _ (by decide +kernel)
  obtain ⟨s, hr, hset⟩ := hex
  obtain ⟨hone, _, hpoll⟩ := poller_consistent ⟨ls, hr⟩
  obtain ⟨p, active, hp, _, hlen, _⟩ := hpoll 1 [0, 5] hset
  exact ⟨s, hr, hone, p, active, hp, by omega⟩

end PollSession

end MuduoNet
