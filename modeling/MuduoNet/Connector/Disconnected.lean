import MuduoNet.Connector.Orderly

/-!
# After `TcpClient::disconnect`

`disconnect` clears the flag of the client, and not that of the connector. So nothing is begun
any more by a connection that closes, but what the connector has begun goes on: an attempt that is
under way, or one that a retry timer is to make. If there is neither, no connection comes up until
the client is told to connect again.
-/
namespace MuduoNet.ConnectorLoop

open Lib Lib.Outcome Function Connector TimerQueue

/-- The connector has been stopped, or it has nothing left that could lead to a connection: no
attempt is under way, and no retry timer would find it disconnected. -/
def Rests (s : ConnectorLoop) : Prop :=
  s.connector.connect_ = false ∨
    s.registered = [] ∧ (s.connector.state_ = .kDisconnected → s.retryTimers = [])

instance (s : ConnectorLoop) : Decidable s.Rests := inferInstanceAs (Decidable (_ ∨ _))

/-- The client is not to connect, and the connector has nothing to do. -/
structure Idle (s : ConnectorLoop) : Prop where
  client : s.connect_ = false
  registered : s.registered = []
  waiting : s.connector.state_ = .kDisconnected → ∀ p, ¬ Waits s .startInLoop p

variable {addTime : Timestamp → ℚ → Timestamp} {s t u : ConnectorLoop} {a : Answers}

theorem Idle.congr (h : Idle s) (hclient : t.connect_ = s.connect_)
    (hreg : t.registered = s.registered) (hstate : t.connector.state_ = s.connector.state_)
    (hwaits : ∀ p, Waits t .startInLoop p → Waits s .startInLoop p) : Idle t := by
  refine ⟨hclient.trans h.client, hreg.trans h.registered, ?_⟩
  intro hdisconnected p hp
  exact h.waiting (hstate.symm.trans hdisconnected) p (hwaits p hp)

/-- No step but a call of `connect` gives an idle connector anything to do. -/
theorem step_idle {l : Label} (h : Idle s) (htimed : Timed s) (he : (clients addTime).enabled s l)
    (hl : ∀ a, l ≠ .clientConnect a) (hs : (machine addTime).step s l = .ok t) :
    Idle t ∧ OnlyCloses s t := by
  cases l with
  | start a => exact he.2.elim
  | stop now => exact he.2.elim
  | restart a => exact he.2.elim
  | clientConnect a => exact absurd rfl (hl a)
  | disconnect =>
    cases hs
    exact ⟨⟨rfl, h.registered, h.waiting⟩, .of_eq rfl rfl⟩
  | clientStop now =>
    have hflag : Timed { s with connect_ := false } := htimed.congr rfl rfl rfl
    obtain ⟨timers, rfl, _, hheap, hbatch⟩ := hflag.stop he.1.1 hs
    refine ⟨h.congr h.client.symm rfl rfl ?_, .of_eq rfl rfl⟩
    rintro p ⟨hcallback, hw⟩
    exact ⟨hcallback, (TimerLoop.waits_congr hheap hbatch).mp hw⟩
  | enableRetry =>
    cases hs
    exact ⟨h.congr rfl rfl rfl fun _ hp => hp, .of_eq rfl rfl⟩
  | destroyTcpClient a =>
    obtain ⟨_, rfl, _, _, hwaits⟩ := htimed.destroyTcpClient he.1.1.1 he.1.2.2.1 hs
    refine ⟨h.congr rfl rfl rfl ?_, .of_eq rfl rfl⟩
    intro p hp
    exact (hwaits _ p hp).resolve_left (by simp)
  | removeConnection a =>
    -- the flag of the client keeps it from restarting the connector
    obtain ⟨⟨_, hconnect⟩, _⟩ | ⟨_, rfl⟩ := removeConnection_ok hs
    · cases h.client.symm.trans hconnect
    · exact ⟨h.congr rfl rfl rfl fun _ hp => hp, .of_eq rfl rfl⟩
  | handleEvent revents a => exact absurd h.registered he.1.2.1
  | resetChannel =>
    obtain ⟨_, rfl⟩ := resetChannel_ok hs
    exact ⟨h.congr rfl rfl rfl fun _ hp => hp, .of_eq rfl rfl⟩
  | runTimer a =>
    obtain ⟨timers, _, _, _, hwaits, rfl | ⟨⟨p, hp⟩, hs⟩⟩ := htimed.ran he.1.1 hs
    · exact ⟨h.congr rfl rfl rfl fun p => hwaits _ p (by decide), .of_eq rfl rfl⟩
    · -- a retry timer that runs finds an assertion that fails
      have hstate : s.connector.state_ = .kDisconnected := (startInLoop_ok hs).1
      exact absurd hp (h.waiting hstate p)
  | handleReadEnd now =>
    obtain ⟨_, hwaits⟩ := htimed.readEnd he.1 hs
    obtain ⟨timers, callback, timerId, _, rfl⟩ | ⟨_, _, timers, rfl⟩ := handleReadEnd_ok hs
    · exact ⟨h.congr rfl rfl rfl fun p => hwaits _ p (by decide), .of_eq rfl rfl⟩
    · exact ⟨h.congr rfl rfl rfl fun p => hwaits _ p (by decide), .of_eq rfl rfl⟩
  | timers l =>
    obtain ⟨timers, hstep, _, hwaits⟩ := htimed.timersStep he.1.1 he.1.2
    obtain rfl := Except.ok.inj (hstep.symm.trans hs)
    exact ⟨h.congr rfl rfl rfl fun p => hwaits _ p (by decide), .of_eq rfl rfl⟩

theorem run_idle {ls : List Label} (hr : Run (clients addTime) s ls t)
    (hls : ∀ a, Label.clientConnect a ∉ ls) (h : Idle s) (htimed : Timed s) :
    Idle t ∧ OnlyCloses s t := by
  induction hr with
  | nil s => exact ⟨h, .of_eq rfl rfl⟩
  | @cons s u t l ls he hs _ ih =>
    obtain ⟨hu, hcloses⟩ :=
      step_idle h htimed he (fun a ha => hls a (ha ▸ List.mem_cons_self)) hs
    obtain ⟨ht, hrest⟩ :=
      ih (fun a ha => hls a (List.mem_cons_of_mem _ ha)) hu (step_timed htimed he.1 hs)
    exact ⟨ht, hcloses.trans hrest⟩

theorem clients_timed (h : Reachable (clients addTime) start s) : Timed s := by
  refine h.invariant (I := Timed) ?_ timed_start
  intro s l t hi he hs
  exact step_timed hi he.1 hs

/-- If the connector rests when `disconnect` is called, no socket is made or passed on until
`connect` is called again: all that happens to one is that it is closed. `newConnection` could
only be called for an event of the channel, and then the flag of the connector is cleared. -/
theorem disconnect_final {ls : List Label} (h : Reachable (clients addTime) start s)
    (he : (clients addTime).enabled s .disconnect)
    (hs : (clients addTime).step s .disconnect = .ok t) (hrests : s.Rests)
    (hr : Run (clients addTime) t ls u) (hls : ∀ a, Label.clientConnect a ∉ ls) :
    u.attempts = t.attempts ∧
    (∀ n, u.history n = t.history n ∨ (t.history n = [.created, .added] ∧
      u.history n = [.created, .added, .removed, .closed])) ∧
    ∀ revents a, (clients addTime).enabled u (.handleEvent revents a) →
      u.connector.connect_ = false := by
  have hnext := h.next he hs
  cases hs
  obtain hstopped | ⟨hreg, hquiet⟩ := hrests
  · obtain ⟨hafter, _, hcloses⟩ := run_stopped hr hls ⟨rfl, hstopped⟩ (clients_inv hnext)
    exact ⟨hcloses.attempts, hcloses.history, fun _ _ _ => hafter.connector⟩
  · have htimed := clients_timed h
    have hidle : Idle s.disconnect := by
      refine ⟨rfl, hreg, ?_⟩
      intro hstate p hp
      have hmem := htimed.mem_retryTimers hp
      rw [hquiet hstate] at hmem
      cases hmem
    obtain ⟨hafter, hcloses⟩ := run_idle hr hls hidle (clients_timed hnext)
    exact ⟨hcloses.attempts, hcloses.history,
      fun _ _ hevent => absurd hafter.registered hevent.1.2.1⟩

/-- A client with a connection, which is to be renewed until the client disconnects. -/
theorem disconnect_final_run :
    let addTime : Timestamp → ℚ → Timestamp := fun now x => now + ⌊x * 1000000⌋
    let ls : List Label := [.enableRetry, .clientConnect ⟨7, 0, 0, false, 1, 1, 2⟩,
      .handleEvent Channel.POLLOUT ⟨0, 0, 0, false, 1, 3, 4⟩, .resetChannel]
    ∃ s t u, Run (clients addTime) start ls s ∧ s.connection_ = .established ∧
      (clients addTime).step s .disconnect = .ok t ∧
      Run (clients addTime) t [.removeConnection ⟨8, 0, 0, false, 1, 5, 6⟩] u ∧
      u.connection_ = .closed ∧ u.attempts = t.attempts := by
  intro addTime ls
  have hex : ∃ s, Run (clients addTime) start ls s ∧ s.connection_ = .established ∧ s.Rests ∧
      (clients addTime).enabled s .disconnect :=
    exists_run_of_exec _ (by decide +kernel)
  obtain ⟨s, hr, hestablished, hrests, he⟩ := hex
  have hex : ∃ u, Run (clients addTime) start
      (ls ++ [.disconnect, .removeConnection ⟨8, 0, 0, false, 1, 5, 6⟩]) u ∧
      u.connection_ = .closed :=
    exists_run_of_exec _ (by decide +kernel)
  obtain ⟨u, hrun, hclosed⟩ := hex
  obtain ⟨s', hs', hrest⟩ := hrun.split
  obtain rfl := hr.unique hs'
  cases hrest with
  | @cons _ t _ _ _ _ hs hlast =>
    obtain ⟨hattempts, _⟩ := disconnect_final ⟨ls, hr⟩ he hs hrests hlast (by simp)
    exact ⟨s, t, u, hr, hestablished, hs, hlast, hclosed, hattempts⟩

/-- A client that disconnects while an attempt is under way, and one that does so while it waits
for the next attempt: the connection comes up all the same. -/
theorem disconnect_delivers :
    let addTime : Timestamp → ℚ → Timestamp := fun now x => now + ⌊x * 1000000⌋
    let connecting : List Label := [.clientConnect ⟨7, EINPROGRESS, 0, false, 1, 1, 2⟩]
    let waiting : List Label := [.clientConnect ⟨7, ECONNREFUSED, 0, false, 1, 1, 2⟩]
    let attempt : List Label := [.timers (.handleRead 600000 true),
      .runTimer ⟨8, EINPROGRESS, 0, false, 2, 600001, 600002⟩, .handleReadEnd 600003]
    let event : Label := .handleEvent Channel.POLLOUT ⟨0, 0, 0, false, 3, 600004, 600005⟩
    (∃ u, Run (clients addTime) start (connecting ++ .disconnect :: [event]) u ∧
      u.connect_ = false ∧ u.history 0 = [.created, .added, .removed, .passed]) ∧
    ∃ u, Run (clients addTime) start (waiting ++ .disconnect :: attempt ++ [event]) u ∧
      u.connect_ = false ∧ u.history 1 = [.created, .added, .removed, .passed] := by
  intro addTime connecting waiting attempt event
  constructor
  · exact exists_run_of_exec _ (by decide +kernel)
  · exact exists_run_of_exec _ (by decide +kernel)

end MuduoNet.ConnectorLoop
