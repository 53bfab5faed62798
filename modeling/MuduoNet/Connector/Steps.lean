import MuduoNet.Connector.Basic

/-!
# What the functions of a `Connector` do

Each function that returns has done one of a few things, and what it has made of the state is
written out. The later modules look at these outcomes only.
-/
namespace MuduoNet.ConnectorLoop

open Lib Lib.Outcome Function Connector

/-- Nothing but the timers and the handle of one of them is different in `t`, and no timer of
`~TcpClient` is new. -/
def OnlyTimers (s t : ConnectorLoop) : Prop :=
  ∃ timers callback timerId,
    (∀ p, callback p = .removeConnector → s.callback p = .removeConnector) ∧ t = { s with
      timers, callback, connector := { s.connector with timerId_ := timerId } }

/-- After `retry`, if the connector is not to connect. -/
def silenced (s : ConnectorLoop) (socket : Socket) : ConnectorLoop :=
  (s.close socket).setState .kDisconnected

/-- After `retry` with a new timer at the address of the answers. -/
def scheduled (s : ConnectorLoop) (socket : Socket) (a : Answers) (timers : TimerLoop) :
    ConnectorLoop :=
  { s.silenced socket with
    timers
    callback := update s.callback a.timer .startInLoop
    connector := { s.connector with
      state_ := .kDisconnected
      timerId_ := TimerQueue.timerId a.timer
      retryDelayMs_ := min (s.connector.retryDelayMs_ * 2) kMaxRetryDelayMs } }

/-- What `retry` has done. -/
inductive Retried (addTime : Timestamp → ℚ → Timestamp) (s : ConnectorLoop) (socket : Socket)
    (a : Answers) : ConnectorLoop → Prop
  | silent (hconnect : s.connector.connect_ = false) : Retried addTime s socket a (s.silenced socket)
  | scheduled (hconnect : s.connector.connect_ = true) {timers : TimerLoop}
      (hadd : s.timers.addTimer true a.timer
        (addTime a.now (s.connector.retryDelayMs_ / 1000)) 0 a.now' = .ok timers) :
      Retried addTime s socket a (s.scheduled socket a timers)

/-- The socket of the next attempt. -/
def socketOf (s : ConnectorLoop) (a : Answers) : Socket := ⟨a.sockfd, s.attempts⟩

/-- The attempt with the new socket is under way. -/
def began (s : ConnectorLoop) (a : Answers) : ConnectorLoop :=
  { ((s.create a.sockfd).2.setState .kConnecting).record (s.socketOf a) .added with
    connector := { s.connector with state_ := .kConnecting, channel_ := some (s.socketOf a) }
    registered := s.socketOf a :: s.registered }

/-- What `startInLoop` has done. -/
inductive Attempted (addTime : Timestamp → ℚ → Timestamp) (s : ConnectorLoop) (a : Answers) :
    ConnectorLoop → Prop
  | none (hconnect : s.connector.connect_ = false) : Attempted addTime s a s
  | began (hconnect : s.connector.connect_ = true) (hchannel : s.connector.channel_ = none) :
      Attempted addTime s a (s.began a)
  | refused {t : ConnectorLoop} (hconnect : s.connector.connect_ = true)
      (ht : Retried addTime (s.create a.sockfd).2 (s.socketOf a) a t) : Attempted addTime s a t
  | abandoned (hconnect : s.connector.connect_ = true) :
      Attempted addTime s a ((s.create a.sockfd).2.close (s.socketOf a))

/-- The channel of the attempt that was under way is out of the poller. -/
def taken (s : ConnectorLoop) (socket : Socket) : ConnectorLoop :=
  { s.record socket .removed with
    registered := s.registered.erase socket
    resets := s.resets + 1 }

/-- What `handleEvent` has done. -/
inductive Ended (addTime : Timestamp → ℚ → Timestamp) (s : ConnectorLoop) (a : Answers) :
    ConnectorLoop → Prop
  | ignored : Ended addTime s a s
  | failed {socket : Socket} {t : ConnectorLoop} (hchannel : s.connector.channel_ = some socket)
      (hmem : socket ∈ s.registered) (ht : Retried addTime (s.taken socket) socket a t) :
      Ended addTime s a t
  | passed {socket : Socket} (hchannel : s.connector.channel_ = some socket)
      (hmem : socket ∈ s.registered) (hconnect : s.connector.connect_ = true)
      (hclient : s.client = true) :
      Ended addTime s a { ((s.taken socket).setState .kConnected).record socket .passed with
        connection_ := .established }
  | closed {socket : Socket} (hchannel : s.connector.channel_ = some socket)
      (hmem : socket ∈ s.registered) (hconnect : s.connector.connect_ = false) :
      Ended addTime s a (((s.taken socket).setState .kConnected).close socket)

section

variable {addTime : Timestamp → ℚ → Timestamp} {s t u : ConnectorLoop} {a : Answers}
  {socket : Socket} {now : Timestamp}

theorem cancel_ok (h : s.cancel now = .ok t) : ∃ timers,
    s.timers.cancel true s.connector.timerId_ now = .ok timers ∧ t = { s with timers } := by
  obtain ⟨timers, htimers, h⟩ := bind_eq_ok h
  cases h
  exact ⟨timers, htimers, rfl⟩

theorem stop_ok (h : s.stop now = .ok t) : ∃ timers,
    s.timers.cancel true s.connector.timerId_ now = .ok timers ∧
      t = { s.setConnect false with timers } :=
  cancel_ok h

theorem runAfter_ok {delay : ℚ} {cb : TimerCallback} {r : TimerId × ConnectorLoop}
    (h : s.runAfter addTime delay cb a = .ok r) : ∃ timers,
      s.timers.addTimer true a.timer (addTime a.now delay) 0 a.now' = .ok timers ∧
      r = (TimerQueue.timerId a.timer,
        { s with timers, callback := update s.callback a.timer cb }) := by
  obtain ⟨timers, htimers, h⟩ := bind_eq_ok h
  cases h
  exact ⟨timers, htimers, rfl⟩

theorem retry_ok (h : s.retry addTime socket a = .ok t) : Retried addTime s socket a t := by
  unfold retry at h
  dsimp only at h
  split at h
  · rename_i hconnect
    obtain ⟨r, hrun, h⟩ := bind_eq_ok h
    obtain ⟨timers, hadd, rfl⟩ := runAfter_ok hrun
    obtain rfl : s.scheduled socket a timers = t := Except.ok.inj h
    exact Retried.scheduled (s := s) hconnect hadd
  · rename_i hconnect
    cases h
    exact .silent (Bool.eq_false_iff.mpr hconnect)

theorem connecting_ok (h : s.connecting socket = .ok t) : s.connector.channel_ = none ∧
    t = { (s.setState .kConnecting).record socket .added with
      connector := { s.connector with state_ := .kConnecting, channel_ := some socket }
      registered := socket :: s.registered } := by
  obtain ⟨hchannel, h⟩ := demand_bind_eq_ok h
  obtain ⟨_, h⟩ := demand_bind_eq_ok h
  cases h
  exact ⟨hchannel, rfl⟩

theorem startInLoop_ok (h : s.startInLoop addTime a = .ok t) :
    s.connector.state_ = .kDisconnected ∧ Attempted addTime s a t := by
  obtain ⟨hstate, h⟩ := demand_bind_eq_ok h
  refine ⟨hstate, ?_⟩
  split at h
  · rename_i hconnect
    unfold connect at h
    dsimp only at h
    split at h
    · obtain ⟨hchannel, rfl⟩ := connecting_ok h
      exact .began hconnect hchannel
    · split at h
      · exact .refused hconnect (retry_ok h)
      · cases h
        exact .abandoned hconnect
  · rename_i hconnect
    cases h
    exact .none (Bool.eq_false_iff.mpr hconnect)

theorem removeAndResetChannel_ok {r : Socket × ConnectorLoop}
    (h : s.removeAndResetChannel = .ok r) :
    s.connector.channel_ = some r.1 ∧ r.1 ∈ s.registered ∧ r.2 = s.taken r.1 := by
  unfold removeAndResetChannel at h
  split at h
  · cases h
  · rename_i socket hchannel
    obtain ⟨hmem, h⟩ := demand_bind_eq_ok h
    cases h
    exact ⟨hchannel, hmem, rfl⟩

/-- Only the socket and the state before matter to `retry`. -/
theorem Retried.of_setState {x : ConnectorState}
    (h : Retried addTime ((s.setState x).taken socket) socket a t) :
    Retried addTime (s.taken socket) socket a t := by
  cases h with
  | silent hconnect => exact Retried.silent (s := s.taken socket) hconnect
  | scheduled hconnect hadd => exact Retried.scheduled (s := s.taken socket) hconnect hadd

theorem Retried.state_eq (h : Retried addTime s socket a t) :
    t.connector.state_ = .kDisconnected := by
  cases h <;> rfl

theorem handleError_ok (h : s.handleError addTime a = .ok t) :
    Ended addTime s a t ∧ t.connector.state_ = .kDisconnected := by
  obtain ⟨r, hremove, h⟩ := bind_eq_ok h
  obtain ⟨hchannel, hmem, hr⟩ := removeAndResetChannel_ok hremove
  have hretried := retry_ok h
  rw [hr] at hretried
  exact ⟨.failed hchannel hmem hretried.of_setState, hretried.state_eq⟩

/-- In another state the assertion has held and nothing is done. -/
theorem handleWrite_other (hstate : s.connector.state_ ≠ .kConnecting)
    (h : s.handleWrite addTime a = .ok t) : t = s := by
  unfold handleWrite at h
  rw [if_neg hstate] at h
  obtain ⟨_, h⟩ := demand_bind_eq_ok h
  cases h
  rfl

theorem handleWrite_ok (h : s.handleWrite addTime a = .ok t) : Ended addTime s a t := by
  by_cases hstate : s.connector.state_ = .kConnecting
  · unfold handleWrite at h
    rw [if_pos hstate] at h
    obtain ⟨r, hremove, h⟩ := bind_eq_ok h
    obtain ⟨hchannel, hmem, hr⟩ := removeAndResetChannel_ok hremove
    dsimp only at h
    rw [hr] at h
    split at h
    · exact .failed hchannel hmem (retry_ok h)
    · split at h
      · exact .failed hchannel hmem (retry_ok h)
      · split at h
        · rename_i hconnect
          obtain ⟨hclient, h⟩ := demand_bind_eq_ok h
          cases h
          exact .passed hchannel hmem hconnect hclient
        · rename_i hconnect
          cases h
          exact .closed hchannel hmem (Bool.eq_false_iff.mpr hconnect)
  · rw [handleWrite_other hstate h]
    exact .ignored

/-- The two callbacks of the channel that are set. -/
theorem handleEvent_eq (revents : BitVec 32) : s.handleEvent addTime revents a =
    ((if revents &&& (Channel.POLLERR ||| Channel.POLLNVAL) ≠ 0 then handle addTime a s .error
      else .ok s) >>= fun s =>
      if revents &&& Channel.POLLOUT ≠ 0 then handle addTime a s .write else pure s) := by
  unfold handleEvent Channel.handleEvent
  simp only [List.foldlM_append]
  split <;> split <;> split <;> split <;> simp [List.foldlM, handle, pure, Except.pure]

theorem handle_error_ok (h : handle addTime a s .error = .ok t) :
    Ended addTime s a t ∧ t.connector.state_ = .kDisconnected := by
  obtain ⟨_, h⟩ := demand_bind_eq_ok h
  exact handleError_ok h

/-- If both callbacks run, the second one finds the attempt ended and does nothing. -/
theorem handleEvent_ok {revents : BitVec 32} (h : s.handleEvent addTime revents a = .ok t) :
    Ended addTime s a t := by
  rw [handleEvent_eq] at h
  obtain ⟨u, hfirst, h⟩ := bind_eq_ok h
  split at hfirst
  · obtain ⟨hended, hstate⟩ := handle_error_ok hfirst
    split at h
    · obtain ⟨_, h⟩ := demand_bind_eq_ok h
      rw [handleWrite_other (by rw [hstate]; decide) h]
      exact hended
    · cases h
      exact hended
  · cases hfirst
    split at h
    · obtain ⟨_, h⟩ := demand_bind_eq_ok h
      exact handleWrite_ok h
    · cases h
      exact .ignored

/-- The callback `c` was there before another one was set. -/
theorem callback_of_update {callback : TimerPtr → TimerCallback} {p q : TimerPtr}
    {c c' : TimerCallback} (hne : c' ≠ c) (h : update callback p c' q = c) : callback q = c := by
  by_cases hpq : q = p
  · rw [hpq, update_self] at h
    exact absurd h hne
  · rwa [update_of_ne hpq] at h

theorem onlyTimers_timers (timers : TimerLoop) : OnlyTimers s { s with timers } :=
  ⟨timers, s.callback, s.connector.timerId_, fun _ => id, rfl⟩

/-- The callback of a timer that is not `startInLoop` does nothing to the connector. -/
theorem runTimer_ok (h : s.runTimer addTime a = .ok t) : OnlyTimers s t ∨
    s.alive = true ∧ ∃ timers, { s with timers }.startInLoop addTime a = .ok t := by
  obtain ⟨timers, _, h⟩ := bind_eq_ok h
  split at h
  · split at h
    · obtain ⟨halive, h⟩ := demand_bind_eq_ok h
      exact .inr ⟨halive, timers, h⟩
    · cases h
      exact .inl (onlyTimers_timers timers)
    · cases h
      exact .inl (onlyTimers_timers timers)
  · cases h
    exact .inl (onlyTimers_timers timers)

theorem destroyConnector_ok (h : s.destroyConnector now = .ok t) : s.connector.channel_ = none ∧
    ∃ timers, t = { s with timers, alive := false } := by
  obtain ⟨_, h⟩ := demand_bind_eq_ok h
  obtain ⟨u, hcancel, h⟩ := bind_eq_ok h
  obtain ⟨timers, _, rfl⟩ := cancel_ok hcancel
  obtain ⟨hchannel, h⟩ := demand_bind_eq_ok h
  cases h
  exact ⟨hchannel, timers, rfl⟩

/-- The connector is destroyed with the timer of `~TcpClient`, and has no channel then. -/
theorem handleReadEnd_ok (h : s.handleReadEnd addTime now = .ok t) : OnlyTimers s t ∨
    s.connector.channel_ = none ∧ (∃ p, s.callback p = .removeConnector) ∧
      ∃ timers, t = { s with timers, alive := false } := by
  obtain ⟨timers, _, h⟩ := bind_eq_ok h
  split at h
  · rename_i hremoved
    obtain ⟨p, _, hp, _⟩ := hremoved
    obtain ⟨hchannel, timers', rfl⟩ := destroyConnector_ok h
    exact .inr ⟨hchannel, ⟨p, hp⟩, timers', rfl⟩
  · cases h
    exact .inl (onlyTimers_timers timers)

theorem destroyTcpClient_ok (h : s.destroyTcpClient addTime a = .ok t) :
    ∃ timers callback, t = { s.setConnect false with timers, callback, client := false } := by
  obtain ⟨u, hstop, h⟩ := bind_eq_ok h
  obtain ⟨timers, _, rfl⟩ := stop_ok hstop
  obtain ⟨r, hrun, h⟩ := bind_eq_ok h
  obtain ⟨timers', _, rfl⟩ := runAfter_ok hrun
  cases h
  exact ⟨timers', _, rfl⟩

theorem timersStep_ok {l : TimerLoop.Label} (h : s.timersStep addTime l = .ok t) :
    OnlyTimers s t := by
  obtain ⟨timers, _, h⟩ := bind_eq_ok h
  cases h
  refine ⟨timers, s.callbackAfter l, s.connector.timerId_, ?_, rfl⟩
  intro p hp
  cases l with
  | addTimer b p' x y now => exact callback_of_update (by decide) hp
  | cancel | doPendingFunctors | runFunctor | handleRead | runTimer | handleReadEnd => exact hp

theorem removeConnection_ok (h : s.removeConnection addTime a = .ok t) :
    ((s.retry_ = true ∧ s.connect_ = true) ∧
      { s with connection_ := .closed }.forget.restart addTime a = .ok t) ∨
    (¬(s.retry_ = true ∧ s.connect_ = true) ∧ t = { s with connection_ := .closed }) := by
  unfold removeConnection at h
  dsimp only at h
  split at h
  · rename_i hflags
    exact .inl ⟨hflags, h⟩
  · rename_i hflags
    cases h
    exact .inr ⟨hflags, rfl⟩

theorem resetChannel_ok (h : s.resetChannel = .ok t) : s.alive = true ∧ t = { s with
    resets := s.resets - 1, connector := { s.connector with channel_ := none } } := by
  obtain ⟨halive, h⟩ := demand_bind_eq_ok h
  cases h
  exact ⟨halive, rfl⟩

end

end MuduoNet.ConnectorLoop
