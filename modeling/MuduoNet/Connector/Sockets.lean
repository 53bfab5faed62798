import MuduoNet.Connector.Steps

/-!
# What becomes of every socket

A socket is the one that is being connected, or it was disposed of in one of three ways: closed
at once, or taken out of the poller and then passed on or closed. The channel is there from
`connecting` until `resetChannel` has run, so no second attempt gets a channel meanwhile. Nothing
is asked here of the callers of `start`, `stop` and `restart`, nor of the timers.
-/
namespace MuduoNet.ConnectorLoop

open Lib Lib.Outcome Function Connector

/-- How a socket can have come to its end. -/
inductive Disposed : List SocketEvent → Prop
  | rejected : Disposed [.created, .closed]
  | passed : Disposed [.created, .added, .removed, .passed]
  | closed : Disposed [.created, .added, .removed, .closed]

/-- The channel and the poller: nothing, an attempt under way, or a channel that waits for
`resetChannel`. -/
inductive Stage (s : ConnectorLoop) : Prop
  | idle (hreg : s.registered = []) (hchannel : s.connector.channel_ = none) (hresets : s.resets = 0)
  | current {k : Socket} (hreg : s.registered = [k]) (hchannel : s.connector.channel_ = some k)
      (hresets : s.resets = 0)
  | leaving {k : Socket} (hreg : s.registered = []) (hchannel : s.connector.channel_ = some k)
      (hresets : s.resets = 1)

structure Accounted (s : ConnectorLoop) : Prop where
  delay : kInitRetryDelayMs ≤ s.connector.retryDelayMs_ ∧
    s.connector.retryDelayMs_ ≤ kMaxRetryDelayMs
  stage : Stage s
  settled : ∀ n < s.attempts, (∃ k ∈ s.registered, k.number = n) ∨ Disposed (s.history n)
  unborn : ∀ n, s.attempts ≤ n → s.history n = []
  born : ∀ k ∈ s.registered, k.number < s.attempts ∧ s.history k.number = [.created, .added]

section

variable {addTime : Timestamp → ℚ → Timestamp} {s t : ConnectorLoop} {a : Answers} {k : Socket}

theorem accounted_start : Accounted start := by
  refine ⟨by decide, .idle rfl rfl rfl, ?_, fun _ _ => rfl, ?_⟩
  · intro n hn
    cases hn
  · intro k hk
    cases hk

theorem Stage.congr (h : Stage s) (hreg : t.registered = s.registered)
    (hchannel : t.connector.channel_ = s.connector.channel_) (hresets : t.resets = s.resets) :
    Stage t := by
  cases h with
  | idle h₁ h₂ h₃ => exact .idle (hreg.trans h₁) (hchannel.trans h₂) (hresets.trans h₃)
  | current h₁ h₂ h₃ => exact .current (hreg.trans h₁) (hchannel.trans h₂) (hresets.trans h₃)
  | leaving h₁ h₂ h₃ => exact .leaving (hreg.trans h₁) (hchannel.trans h₂) (hresets.trans h₃)

/-- The flags, the state and the timers do not matter. -/
theorem Accounted.congr (h : Accounted s) (hchannel : t.connector.channel_ = s.connector.channel_)
    (hreg : t.registered = s.registered) (hresets : t.resets = s.resets)
    (hhistory : t.history = s.history) (hattempts : t.attempts = s.attempts)
    (hdelay : kInitRetryDelayMs ≤ t.connector.retryDelayMs_ ∧
      t.connector.retryDelayMs_ ≤ kMaxRetryDelayMs) : Accounted t := by
  refine ⟨hdelay, h.stage.congr hreg hchannel hresets, ?_, ?_, ?_⟩
  · rw [hreg, hhistory, hattempts]
    exact h.settled
  · rw [hhistory, hattempts]
    exact h.unborn
  · rw [hreg, hhistory, hattempts]
    exact h.born

theorem Accounted.only (h : Accounted s) (ht : OnlyTimers s t) : Accounted t := by
  obtain ⟨_, _, _, _, rfl⟩ := ht
  exact h.congr rfl rfl rfl rfl rfl h.delay

/-- The channel in the poller is that of the only attempt. -/
theorem Accounted.current (h : Accounted s) (hmem : k ∈ s.registered) :
    s.registered = [k] ∧ s.connector.channel_ = some k ∧ s.resets = 0 := by
  cases h.stage with
  | idle hreg _ _ =>
    rw [hreg] at hmem
    cases hmem
  | current hreg hchannel hresets =>
    rw [hreg, List.mem_singleton] at hmem
    rw [hmem]
    exact ⟨hreg, hchannel, hresets⟩
  | leaving hreg _ _ =>
    rw [hreg] at hmem
    cases hmem

/-- Without a channel there is nothing in the poller and no functor that waits. -/
theorem Accounted.of_channel (h : Accounted s) (hchannel : s.connector.channel_ = none) :
    s.registered = [] ∧ s.resets = 0 := by
  cases h.stage with
  | idle hreg _ hresets => exact ⟨hreg, hresets⟩
  | current _ hc _ => cases hchannel.symm.trans hc
  | leaving _ hc _ => cases hchannel.symm.trans hc

/-- The retry delay doubles up to its bound. -/
theorem Accounted.delay_doubled (h : Accounted s) :
    kInitRetryDelayMs ≤ min (s.connector.retryDelayMs_ * 2) kMaxRetryDelayMs ∧
      min (s.connector.retryDelayMs_ * 2) kMaxRetryDelayMs ≤ kMaxRetryDelayMs := by
  have hlo := h.delay.1
  have hlt : kInitRetryDelayMs ≤ kMaxRetryDelayMs := by decide
  omega

/-- The attempt that was under way has ended with the event `e`. -/
theorem Accounted.disposed (h : Accounted s) (hchannel : s.connector.channel_ = some k)
    (hmem : k ∈ s.registered) {e : SocketEvent}
    (he : Disposed [.created, .added, .removed, e])
    (htchannel : t.connector.channel_ = s.connector.channel_)
    (hreg : t.registered = s.registered.erase k) (hresets : t.resets = s.resets + 1)
    (hhistory : t.history = ((s.taken k).record k e).history) (hattempts : t.attempts = s.attempts)
    (hdelay : kInitRetryDelayMs ≤ t.connector.retryDelayMs_ ∧
      t.connector.retryDelayMs_ ≤ kMaxRetryDelayMs) : Accounted t := by
  obtain ⟨hone, _, hzero⟩ := h.current hmem
  obtain ⟨hlt, hk⟩ := h.born k hmem
  have hnone : t.registered = [] := by rw [hreg, hone, List.erase_cons_head]
  have hmine : t.history k.number = [.created, .added, .removed, e] := by
    rw [hhistory]
    simp [taken, record, hk]
  have hother : ∀ n, n ≠ k.number → t.history n = s.history n := by
    intro n hn
    rw [hhistory]
    simp [taken, record, hn]
  refine ⟨hdelay, ?_, ?_, ?_, ?_⟩
  · exact .leaving hnone (htchannel.trans hchannel) (by rw [hresets, hzero])
  · intro n hn
    right
    by_cases hkn : n = k.number
    · rw [hkn, hmine]
      exact he
    · rw [hother n hkn]
      obtain ⟨x, hx, rfl⟩ | hdisposed := h.settled n (hattempts ▸ hn)
      · rw [hone, List.mem_singleton] at hx
        exact absurd (congrArg Socket.number hx) hkn
      · exact hdisposed
  · intro n hn
    rw [hattempts] at hn
    rw [hother n (by omega)]
    exact h.unborn n hn
  · rw [hnone]
    intro x hx
    cases hx

/-- The new socket is closed at once. -/
theorem Accounted.rejected (h : Accounted s) {sockfd : Int}
    (hchannel : t.connector.channel_ = s.connector.channel_) (hreg : t.registered = s.registered)
    (hresets : t.resets = s.resets)
    (hhistory : t.history = ((s.create sockfd).2.close ⟨sockfd, s.attempts⟩).history)
    (hattempts : t.attempts = s.attempts + 1)
    (hdelay : kInitRetryDelayMs ≤ t.connector.retryDelayMs_ ∧
      t.connector.retryDelayMs_ ≤ kMaxRetryDelayMs) : Accounted t := by
  have hmine : t.history s.attempts = [.created, .closed] := by
    rw [hhistory]
    simp [create, close, record, h.unborn s.attempts (Nat.le_refl _)]
  have hother : ∀ n, n ≠ s.attempts → t.history n = s.history n := by
    intro n hn
    rw [hhistory]
    simp [create, close, record, hn]
  refine ⟨hdelay, h.stage.congr hreg hchannel hresets, ?_, ?_, ?_⟩
  · intro n hn
    by_cases hnew : n = s.attempts
    · rw [hnew, hmine]
      exact .inr .rejected
    · rw [hreg, hother n hnew]
      exact h.settled n (by omega)
  · intro n hn
    rw [hother n (by omega)]
    exact h.unborn n (by omega)
  · intro x hx
    rw [hreg] at hx
    obtain ⟨hlt, hx⟩ := h.born x hx
    rw [hother _ (by omega), hattempts]
    exact ⟨by omega, hx⟩

theorem Accounted.began (h : Accounted s) (hchannel : s.connector.channel_ = none) (a : Answers) :
    Accounted (s.began a) := by
  obtain ⟨hnone, hzero⟩ := h.of_channel hchannel
  have hone : (s.began a).registered = [s.socketOf a] := by
    show s.socketOf a :: s.registered = _
    rw [hnone]
  have hmine : (s.began a).history s.attempts = [.created, .added] := by
    simp [ConnectorLoop.began, create, setState, record, socketOf,
      h.unborn s.attempts (Nat.le_refl _)]
  have hother : ∀ n, n ≠ s.attempts → (s.began a).history n = s.history n := by
    intro n hn
    simp [ConnectorLoop.began, create, setState, record, socketOf, hn]
  have hattempts : (s.began a).attempts = s.attempts + 1 := rfl
  refine ⟨h.delay, .current hone rfl hzero, ?_, ?_, ?_⟩
  · intro n hn
    by_cases hnew : n = s.attempts
    · left
      exact ⟨s.socketOf a, by rw [hone]; exact List.mem_singleton_self _, hnew.symm⟩
    · right
      rw [hother n hnew]
      obtain ⟨x, hx, _⟩ | hdisposed := h.settled n (by omega)
      · rw [hnone] at hx
        cases hx
      · exact hdisposed
  · intro n hn
    rw [hother n (by omega)]
    exact h.unborn n (by omega)
  · intro x hx
    rw [hone, List.mem_singleton] at hx
    rw [hx]
    exact ⟨Nat.lt_succ_self _, hmine⟩

theorem Accounted.attempted (h : Accounted s) (ht : Attempted addTime s a t) : Accounted t := by
  cases ht with
  | none hconnect => exact h
  | began hconnect hchannel => exact h.began hchannel a
  | refused hconnect ht =>
    cases ht with
    | silent _ => exact h.rejected rfl rfl rfl rfl rfl h.delay
    | scheduled _ _ => exact h.rejected rfl rfl rfl rfl rfl h.delay_doubled
  | abandoned hconnect => exact h.rejected rfl rfl rfl rfl rfl h.delay

theorem Accounted.ended (h : Accounted s) (ht : Ended addTime s a t) : Accounted t := by
  cases ht with
  | ignored => exact h
  | failed hchannel hmem ht =>
    cases ht with
    | silent _ => exact h.disposed hchannel hmem .closed rfl rfl rfl rfl rfl h.delay
    | scheduled _ _ =>
      exact h.disposed hchannel hmem .closed rfl rfl rfl rfl rfl h.delay_doubled
  | passed hchannel hmem _ _ => exact h.disposed hchannel hmem .passed rfl rfl rfl rfl rfl h.delay
  | closed hchannel hmem _ => exact h.disposed hchannel hmem .closed rfl rfl rfl rfl rfl h.delay

theorem Accounted.resetChannel (h : Accounted s) (hpos : 0 < s.resets) :
    Accounted { s with
      resets := s.resets - 1, connector := { s.connector with channel_ := none } } := by
  cases h.stage with
  | leaving hreg _ hresets =>
    refine ⟨h.delay, .idle hreg rfl ?_, h.settled, h.unborn, h.born⟩
    show s.resets - 1 = 0
    rw [hresets]
  | idle _ _ hresets => omega
  | current _ _ hresets => omega

theorem Accounted.startInLoop (h : Accounted s) (hs : s.startInLoop addTime a = .ok t) :
    Accounted t :=
  h.attempted (startInLoop_ok hs).2

theorem Accounted.stop {now : Timestamp} (h : Accounted s) (hs : s.stop now = .ok t) :
    Accounted t := by
  obtain ⟨timers, _, rfl⟩ := stop_ok hs
  exact h.congr rfl rfl rfl rfl rfl h.delay

/-- The delay starts anew. -/
theorem Accounted.restart (h : Accounted s) (hs : s.restart addTime a = .ok t) : Accounted t := by
  refine Accounted.startInLoop ?_ hs
  exact h.congr rfl rfl rfl rfl rfl accounted_start.delay

theorem Accounted.forget (h : Accounted s) : Accounted s.forget :=
  h.congr rfl rfl rfl rfl rfl h.delay

theorem step_accounted {l : Label} (h : Accounted s) (he : (machine addTime).enabled s l)
    (hs : (machine addTime).step s l = .ok t) : Accounted t := by
  cases l with
  | start a =>
    refine Accounted.startInLoop ?_ hs
    exact h.congr rfl rfl rfl rfl rfl h.delay
  | stop now => exact h.stop hs
  | restart a => exact h.forget.restart hs
  | clientConnect a =>
    refine Accounted.startInLoop ?_ hs
    exact h.congr rfl rfl rfl rfl rfl h.delay
  | disconnect =>
    cases hs
    exact h.congr rfl rfl rfl rfl rfl h.delay
  | clientStop now =>
    refine Accounted.stop ?_ hs
    exact h.congr rfl rfl rfl rfl rfl h.delay
  | enableRetry =>
    cases hs
    exact h.congr rfl rfl rfl rfl rfl h.delay
  | destroyTcpClient a =>
    obtain ⟨timers, callback, rfl⟩ := destroyTcpClient_ok hs
    exact h.congr rfl rfl rfl rfl rfl h.delay
  | removeConnection a =>
    have hclosed : Accounted { s with connection_ := .closed } :=
      h.congr rfl rfl rfl rfl rfl h.delay
    obtain ⟨_, hs⟩ | ⟨_, hs⟩ := removeConnection_ok hs
    · exact hclosed.forget.restart hs
    · rw [hs]
      exact hclosed
  | handleEvent revents a => exact h.ended (handleEvent_ok hs)
  | resetChannel =>
    obtain ⟨_, rfl⟩ := resetChannel_ok hs
    exact h.resetChannel he.2
  | runTimer a =>
    obtain ht | ⟨_, timers, hs⟩ := runTimer_ok hs
    · exact h.only ht
    · refine Accounted.startInLoop ?_ hs
      exact h.congr rfl rfl rfl rfl rfl h.delay
  | handleReadEnd now =>
    obtain ht | ⟨_, _, timers, rfl⟩ := handleReadEnd_ok hs
    · exact h.only ht
    · exact h.congr rfl rfl rfl rfl rfl h.delay
  | timers l => exact h.only (timersStep_ok hs)

end

/-- In every run, up to the first fault, each socket is the one that is being connected, with its
channel in the poller, or it has been rejected, passed on or closed, once; and the retry delay
stays within its bounds. -/
theorem sockets_accounted (addTime : Timestamp → ℚ → Timestamp) {s : ConnectorLoop}
    (h : Reachable (machine addTime) start s) :
    (∀ n < s.attempts,
      (∃ fd, s.registered = [⟨fd, n⟩] ∧ s.connector.channel_ = some ⟨fd, n⟩ ∧
        s.history n = [.created, .added]) ∨ Disposed (s.history n)) ∧
    500 ≤ s.connector.retryDelayMs_ ∧ s.connector.retryDelayMs_ ≤ 30000 := by
  have hi : Accounted s := h.invariant (fun _ _ _ => step_accounted) accounted_start
  refine ⟨?_, hi.delay⟩
  intro n hn
  obtain ⟨k, hk, rfl⟩ | hdisposed := hi.settled n hn
  · left
    obtain ⟨hreg, hchannel, _⟩ := hi.current hk
    exact ⟨k.fd, hreg, hchannel, (hi.born k hk).2⟩
  · exact .inr hdisposed

/-- An error and a write event at once, an attempt that is refused, and one that succeeds. -/
theorem sockets_accounted_run :
    let addTime : Timestamp → ℚ → Timestamp := fun now x => now + ⌊x * 1000000⌋
    let ls : List Label := [.clientConnect ⟨7, EINPROGRESS, 0, false, 1, 1, 2⟩,
      .handleEvent (Channel.POLLERR ||| Channel.POLLOUT) ⟨0, 0, ECONNREFUSED, false, 1, 1, 2⟩,
      .resetChannel, .timers (.handleRead 1000000 true),
      .runTimer ⟨7, ECONNREFUSED, 0, false, 2, 1000000, 1000001⟩, .handleReadEnd 1000001,
      .timers (.handleRead 3000000 true),
      .runTimer ⟨7, 0, 0, false, 3, 3000000, 3000001⟩, .handleReadEnd 3000001,
      .handleEvent Channel.POLLOUT ⟨0, 0, 0, false, 4, 3000002, 3000003⟩]
    ∃ s, Run (machine addTime) start ls s ∧ s.attempts = 3 ∧
      s.history 2 = [.created, .added, .removed, .passed] ∧
      Disposed (s.history 0) ∧ Disposed (s.history 1) ∧ s.connector.retryDelayMs_ ≤ 30000 := by
  intro addTime ls
  have hex : ∃ s, Run (machine addTime) start ls s ∧ s.attempts = 3 ∧ s.registered = [] ∧
      s.history 2 = [.created, .added, .removed, .passed] :=
    exists_run_of_exec _ (by decide +kernel)
  obtain ⟨s, hr, hattempts, hreg, hlast⟩ := hex
  obtain ⟨hall, _, hdelay⟩ := sockets_accounted addTime ⟨ls, hr⟩
  have hended : ∀ n < 3, Disposed (s.history n) := by
    intro n hn
    obtain ⟨fd, hcurrent, _⟩ | hdisposed := hall n (by omega)
    · rw [hreg] at hcurrent
      cases hcurrent
    · exact hdisposed
  exact ⟨s, hr, hattempts, hlast, hended 0 (by decide), hended 1 (by decide), hdelay⟩

end MuduoNet.ConnectorLoop
