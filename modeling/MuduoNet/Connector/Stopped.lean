import MuduoNet.Connector.Sockets

/-!
# After `TcpClient::stop`

The connector is called by its client only. Both flags `connect_` are false until the client is
told to connect again, since `restart` looks at that of the client and every other way back at
that of the connector. The timers need not have been cancelled.
-/
namespace MuduoNet.ConnectorLoop

open Lib Lib.Outcome Function Connector

/-- A call of the connector is one that the client makes. -/
def ByClient : Label → Prop
  | .start _ | .stop _ | .restart _ => False
  | _ => True

instance (l : Label) : Decidable (ByClient l) :=
  match l with
  | .start _ | .stop _ | .restart _ => isFalse not_false
  | .clientConnect _ | .disconnect | .clientStop _ | .enableRetry | .destroyTcpClient _
  | .removeConnection _ | .handleEvent .. | .resetChannel | .runTimer _ | .handleReadEnd _
  | .timers _ => isTrue trivial

def clients (addTime : Timestamp → ℚ → Timestamp) : Machine ConnectorLoop Label Fault :=
  (machine addTime).restrict fun _ l => ByClient l

instance (addTime : Timestamp → ℚ → Timestamp) (s : ConnectorLoop) (l : Label) :
    Decidable ((clients addTime).enabled s l) :=
  inferInstanceAs (Decidable ((machine addTime).enabled s l ∧ ByClient l))

/-- `state_` agrees with the poller and with the client. -/
structure Agrees (s : ConnectorLoop) : Prop where
  connecting : s.registered ≠ [] → s.connector.state_ = .kConnecting
  established : s.connection_ = .established → s.connector.state_ = .kConnected

structure ClientInv (s : ConnectorLoop) : Prop where
  accounted : Accounted s
  agrees : Agrees s

section

variable {addTime : Timestamp → ℚ → Timestamp} {s t : ConnectorLoop} {a : Answers} {k : Socket}

theorem agrees_start : Agrees start :=
  ⟨fun h => absurd rfl h, fun h => by cases h⟩

theorem Agrees.congr (h : Agrees s) (hreg : t.registered = s.registered)
    (hstate : t.connector.state_ = s.connector.state_)
    (hconnection : t.connection_ = .established → s.connection_ = .established) : Agrees t := by
  constructor
  · rw [hreg, hstate]
    exact h.connecting
  · intro hest
    rw [hstate]
    exact h.established (hconnection hest)

theorem Agrees.only (h : Agrees s) (ht : OnlyTimers s t) : Agrees t := by
  obtain ⟨_, _, _, _, rfl⟩ := ht
  exact h.congr rfl rfl id

/-- Without an attempt and without a connection any state agrees. -/
theorem Agrees.idle (hreg : s.registered = []) (hconnection : s.connection_ ≠ .established) :
    Agrees s :=
  ⟨fun h => absurd hreg h, fun h => absurd h hconnection⟩

theorem Agrees.registered_nil (h : Agrees s) (hstate : s.connector.state_ ≠ .kConnecting) :
    s.registered = [] := by
  by_contra hreg
  exact hstate (h.connecting hreg)

theorem Agrees.of_disconnected (h : Agrees s) (hstate : s.connector.state_ = .kDisconnected) :
    s.registered = [] ∧ s.connection_ ≠ .established := by
  refine ⟨h.registered_nil (by rw [hstate]; decide), ?_⟩
  intro hest
  have hconnected := h.established hest
  rw [hstate] at hconnected
  cases hconnected

theorem Agrees.startInLoop (h : Agrees s) (hs : s.startInLoop addTime a = .ok t) : Agrees t := by
  obtain ⟨hstate, hattempted⟩ := startInLoop_ok hs
  obtain ⟨hreg, hconnection⟩ := h.of_disconnected hstate
  cases hattempted with
  | none _ => exact h
  | began _ _ => exact ⟨fun _ => rfl, fun hest => absurd hest hconnection⟩
  | refused _ ht =>
    cases ht with
    | silent _ => exact Agrees.idle hreg hconnection
    | scheduled _ _ => exact Agrees.idle hreg hconnection
  | abandoned _ => exact Agrees.idle hreg hconnection

theorem ClientInv.ended (h : ClientInv s) (ht : Ended addTime s a t) : Agrees t := by
  have hgone : ∀ {k : Socket}, s.connector.channel_ = some k → k ∈ s.registered →
      s.registered.erase k = [] ∧ s.connection_ ≠ .established := by
    intro k _ hmem
    obtain ⟨hone, _⟩ := h.accounted.current hmem
    refine ⟨by rw [hone, List.erase_cons_head], ?_⟩
    intro hest
    have hconnecting := h.agrees.connecting (List.ne_nil_of_mem hmem)
    rw [h.agrees.established hest] at hconnecting
    cases hconnecting
  cases ht with
  | ignored => exact h.agrees
  | failed hchannel hmem ht =>
    obtain ⟨hreg, hconnection⟩ := hgone hchannel hmem
    cases ht with
    | silent _ => exact Agrees.idle hreg hconnection
    | scheduled _ _ => exact Agrees.idle hreg hconnection
  | passed hchannel hmem _ _ =>
    exact ⟨fun hreg => absurd (hgone hchannel hmem).1 hreg, fun _ => rfl⟩
  | closed hchannel hmem _ =>
    obtain ⟨hreg, hconnection⟩ := hgone hchannel hmem
    exact Agrees.idle hreg hconnection

theorem step_agrees {l : Label} (h : ClientInv s) (he : (clients addTime).enabled s l)
    (hs : (machine addTime).step s l = .ok t) : Agrees t := by
  cases l with
  | start a => exact he.2.elim
  | stop now => exact he.2.elim
  | restart a => exact he.2.elim
  | clientConnect a =>
    refine Agrees.startInLoop ?_ hs
    exact h.agrees.congr rfl rfl id
  | disconnect =>
    cases hs
    exact h.agrees.congr rfl rfl id
  | clientStop now =>
    obtain ⟨timers, _, rfl⟩ := stop_ok hs
    exact h.agrees.congr rfl rfl id
  | enableRetry =>
    cases hs
    exact h.agrees.congr rfl rfl id
  | destroyTcpClient a =>
    obtain ⟨timers, callback, rfl⟩ := destroyTcpClient_ok hs
    exact h.agrees.congr rfl rfl id
  | removeConnection a =>
    have hconnected := h.agrees.established he.1.2.2.1
    have hreg := h.agrees.registered_nil (by rw [hconnected]; decide)
    obtain ⟨_, hs⟩ | ⟨_, hs⟩ := removeConnection_ok hs
    · refine Agrees.startInLoop ?_ hs
      have hforgotten : Delivered.none ≠ .established := by decide
      exact Agrees.idle hreg hforgotten
    · rw [hs]
      have hclosed : Delivered.closed ≠ .established := by decide
      exact Agrees.idle hreg hclosed
  | handleEvent revents a => exact h.ended (handleEvent_ok hs)
  | resetChannel =>
    obtain ⟨_, rfl⟩ := resetChannel_ok hs
    exact h.agrees.congr rfl rfl id
  | runTimer a =>
    obtain ht | ⟨_, timers, hs⟩ := runTimer_ok hs
    · exact h.agrees.only ht
    · refine Agrees.startInLoop ?_ hs
      exact h.agrees.congr rfl rfl id
  | handleReadEnd now =>
    obtain ht | ⟨_, _, timers, rfl⟩ := handleReadEnd_ok hs
    · exact h.agrees.only ht
    · exact h.agrees.congr rfl rfl id
  | timers l => exact h.agrees.only (timersStep_ok hs)

theorem clients_inv (h : Reachable (clients addTime) start s) : ClientInv s := by
  refine h.invariant (I := ClientInv) ?_ ⟨accounted_start, agrees_start⟩
  intro s l t hi he hs
  exact ⟨step_accounted hi.accounted he.1 hs, step_agrees hi he hs⟩

end

/-- While the client is there it holds the connector, and only `~TcpClient` gives that to a timer.
A connector that is gone has no channel in the poller. -/
structure Held (s : ConnectorLoop) : Prop where
  client : s.client = true → s.alive = true ∧ ∀ p, s.callback p ≠ .removeConnector
  registered : s.registered ≠ [] → s.alive = true

/-- Nobody is destroyed from `s` to `t`, and no timer of `~TcpClient` is new. -/
structure Keeps (s t : ConnectorLoop) : Prop where
  client : t.client = s.client
  alive : t.alive = s.alive
  callback : ∀ p, t.callback p = .removeConnector → s.callback p = .removeConnector

section

variable {addTime : Timestamp → ℚ → Timestamp} {s t : ConnectorLoop} {a : Answers} {k : Socket}

theorem held_start : Held start :=
  ⟨fun _ => ⟨rfl, fun p hp => by cases hp⟩, fun _ => rfl⟩

theorem Held.keeps (h : Held s) (ht : Keeps s t)
    (hreg : t.registered ≠ [] → s.registered ≠ [] ∨ s.alive = true) : Held t := by
  constructor
  · rw [ht.client, ht.alive]
    intro hopen
    obtain ⟨halive, hnone⟩ := h.client hopen
    exact ⟨halive, fun p hp => hnone p (ht.callback p hp)⟩
  · rw [ht.alive]
    intro hmem
    exact (hreg hmem).elim h.registered id

theorem Keeps.of_eq (hclient : t.client = s.client) (halive : t.alive = s.alive)
    (hcallback : t.callback = s.callback) : Keeps s t :=
  ⟨hclient, halive, fun p hp => by rwa [hcallback] at hp⟩

/-- A retry timer is not one of `~TcpClient`. -/
theorem Retried.keeps (h : Retried addTime s k a t) : Keeps s t := by
  cases h with
  | silent _ => exact .of_eq rfl rfl rfl
  | scheduled _ _ => exact ⟨rfl, rfl, fun p hp => callback_of_update (by decide) hp⟩

theorem OnlyTimers.keeps (h : OnlyTimers s t) : Keeps s t := by
  obtain ⟨timers, callback, _, hcallback, rfl⟩ := h
  exact ⟨rfl, rfl, hcallback⟩

theorem Attempted.keeps (h : Attempted addTime s a t) : Keeps s t := by
  cases h with
  | none _ => exact .of_eq rfl rfl rfl
  | began _ _ => exact .of_eq rfl rfl rfl
  | refused _ ht => exact ⟨ht.keeps.client, ht.keeps.alive, ht.keeps.callback⟩
  | abandoned _ => exact .of_eq rfl rfl rfl

theorem Ended.keeps (h : Ended addTime s a t) : Keeps s t := by
  cases h with
  | ignored => exact .of_eq rfl rfl rfl
  | failed _ _ ht => exact ⟨ht.keeps.client, ht.keeps.alive, ht.keeps.callback⟩
  | passed _ _ _ _ => exact .of_eq rfl rfl rfl
  | closed _ _ _ => exact .of_eq rfl rfl rfl

theorem Held.startInLoop (h : Held s) (halive : s.alive = true)
    (hs : s.startInLoop addTime a = .ok t) : Held t :=
  h.keeps (startInLoop_ok hs).2.keeps fun _ => .inr halive

theorem Held.congr (h : Held s) (hclient : t.client = s.client) (halive : t.alive = s.alive)
    (hcallback : t.callback = s.callback) (hreg : t.registered = s.registered) : Held t :=
  h.keeps (.of_eq hclient halive hcallback) (by rw [hreg]; exact .inl)

theorem Held.only (h : Held s) (ht : OnlyTimers s t) : Held t := by
  refine h.keeps ht.keeps ?_
  obtain ⟨_, _, _, _, rfl⟩ := ht
  exact .inl

theorem step_held {l : Label} (h : Held s) (ha : Accounted s) (he : (machine addTime).enabled s l)
    (hs : (machine addTime).step s l = .ok t) : Held t := by
  cases l with
  | start a =>
    refine Held.startInLoop ?_ ?_ hs
    · exact h.congr rfl rfl rfl rfl
    · exact (h.client he.1.2).1
  | stop now =>
    obtain ⟨timers, _, rfl⟩ := stop_ok hs
    exact h.congr rfl rfl rfl rfl
  | restart a =>
    refine Held.startInLoop ?_ ?_ hs
    · exact h.congr rfl rfl rfl rfl
    · exact (h.client he.1.2).1
  | clientConnect a =>
    refine Held.startInLoop ?_ ?_ hs
    · exact h.congr rfl rfl rfl rfl
    · exact (h.client he.1.2).1
  | disconnect =>
    cases hs
    exact h.congr rfl rfl rfl rfl
  | clientStop now =>
    obtain ⟨timers, _, rfl⟩ := stop_ok hs
    exact h.congr rfl rfl rfl rfl
  | enableRetry =>
    cases hs
    exact h.congr rfl rfl rfl rfl
  | destroyTcpClient a =>
    obtain ⟨timers, callback, rfl⟩ := destroyTcpClient_ok hs
    refine ⟨?_, h.registered⟩
    intro hopen
    cases hopen
  | removeConnection a =>
    obtain ⟨_, hs⟩ | ⟨_, hs⟩ := removeConnection_ok hs
    · refine Held.startInLoop ?_ ?_ hs
      · exact h.congr rfl rfl rfl rfl
      · exact (h.client he.2.1).1
    · rw [hs]
      exact h.congr rfl rfl rfl rfl
  | handleEvent revents a =>
    -- there is a channel in the poller, so the connector is alive
    exact h.keeps (handleEvent_ok hs).keeps fun _ => .inl he.2.1
  | resetChannel =>
    obtain ⟨_, rfl⟩ := resetChannel_ok hs
    exact h.congr rfl rfl rfl rfl
  | runTimer a =>
    obtain ht | ⟨halive, timers, hs⟩ := runTimer_ok hs
    · exact h.only ht
    · refine Held.startInLoop ?_ ?_ hs
      · exact h.congr rfl rfl rfl rfl
      · exact halive
  | handleReadEnd now =>
    obtain ht | ⟨hchannel, ⟨p, hp⟩, timers, rfl⟩ := handleReadEnd_ok hs
    · exact h.only ht
    · exact ⟨fun hopen => absurd hp ((h.client hopen).2 p),
        fun hreg => absurd (ha.of_channel hchannel).1 hreg⟩
  | timers l => exact h.only (timersStep_ok hs)

theorem clients_held (h : Reachable (clients addTime) start s) : Held s := by
  have hi : Accounted s ∧ Held s := by
    refine h.invariant (I := fun s => Accounted s ∧ Held s) ?_ ⟨accounted_start, held_start⟩
    intro s l t hi he hs
    exact ⟨step_accounted hi.1 he.1 hs, step_held hi.2 hi.1 he.1 hs⟩
  exact hi.2

end

/-- Neither the client nor the connector is to connect. -/
structure Stopped (s : ConnectorLoop) : Prop where
  client : s.connect_ = false
  connector : s.connector.connect_ = false

/-- From `s` to `t` no socket is made, and nothing happens to one but that it is closed when its
attempt has ended. -/
structure OnlyCloses (s t : ConnectorLoop) : Prop where
  attempts : t.attempts = s.attempts
  history : ∀ n, t.history n = s.history n ∨
    (s.history n = [.created, .added] ∧ t.history n = [.created, .added, .removed, .closed])

section

variable {addTime : Timestamp → ℚ → Timestamp} {s t u : ConnectorLoop} {a : Answers} {k : Socket}

theorem OnlyCloses.of_eq (hhistory : t.history = s.history) (hattempts : t.attempts = s.attempts) :
    OnlyCloses s t :=
  ⟨hattempts, fun n => .inl (congrFun hhistory n)⟩

theorem OnlyCloses.trans (h : OnlyCloses s t) (g : OnlyCloses t u) : OnlyCloses s u := by
  refine ⟨g.attempts.trans h.attempts, ?_⟩
  intro n
  obtain hsame | ⟨hbefore, hafter⟩ := g.history n
  · rw [hsame]
    exact h.history n
  · obtain hsame' | ⟨_, hclosed⟩ := h.history n
    · exact .inr ⟨hsame' ▸ hbefore, hafter⟩
    · rw [hclosed] at hbefore
      cases hbefore

theorem Stopped.only (h : Stopped s) (ht : OnlyTimers s t) : Stopped t ∧ OnlyCloses s t := by
  obtain ⟨_, _, _, _, rfl⟩ := ht
  exact ⟨⟨h.client, h.connector⟩, .of_eq rfl rfl⟩

/-- A timer that fires late finds the flag cleared. -/
theorem startInLoop_stopped (hconnect : s.connector.connect_ = false)
    (hs : s.startInLoop addTime a = .ok t) : t = s := by
  cases (startInLoop_ok hs).2 with
  | none _ => rfl
  | began h _ => cases hconnect.symm.trans h
  | refused h _ => cases hconnect.symm.trans h
  | abandoned h => cases hconnect.symm.trans h

theorem Stopped.ended (h : Stopped s) (ha : Accounted s) (ht : Ended addTime s a t) :
    Stopped t ∧ OnlyCloses s t := by
  have hcloses : ∀ {k : Socket}, k ∈ s.registered → ∀ n,
      ((s.taken k).close k).history n = s.history n ∨ (s.history n = [.created, .added] ∧
        ((s.taken k).close k).history n = [.created, .added, .removed, .closed]) := by
    intro k hmem n
    by_cases hn : n = k.number
    · right
      obtain ⟨_, hborn⟩ := ha.born k hmem
      rw [hn]
      exact ⟨hborn, by simp [taken, close, record, hborn]⟩
    · left
      simp [taken, close, record, hn]
  cases ht with
  | ignored => exact ⟨h, .of_eq rfl rfl⟩
  | failed hchannel hmem ht =>
    cases ht with
    | silent _ => exact ⟨⟨h.client, h.connector⟩, rfl, hcloses hmem⟩
    | scheduled hconnect _ => cases h.connector.symm.trans hconnect
  | passed _ _ hconnect _ => cases h.connector.symm.trans hconnect
  | closed hchannel hmem _ => exact ⟨⟨h.client, h.connector⟩, rfl, hcloses hmem⟩

theorem step_stopped {l : Label} (h : Stopped s) (ha : Accounted s)
    (he : (clients addTime).enabled s l) (hl : ∀ a, l ≠ .clientConnect a)
    (hs : (machine addTime).step s l = .ok t) : Stopped t ∧ OnlyCloses s t := by
  cases l with
  | start a => exact he.2.elim
  | stop now => exact he.2.elim
  | restart a => exact he.2.elim
  | clientConnect a => exact absurd rfl (hl a)
  | disconnect =>
    cases hs
    exact ⟨⟨rfl, h.connector⟩, .of_eq rfl rfl⟩
  | clientStop now =>
    obtain ⟨timers, _, rfl⟩ := stop_ok hs
    exact ⟨⟨rfl, rfl⟩, .of_eq rfl rfl⟩
  | enableRetry =>
    cases hs
    exact ⟨⟨h.client, h.connector⟩, .of_eq rfl rfl⟩
  | destroyTcpClient a =>
    obtain ⟨timers, callback, rfl⟩ := destroyTcpClient_ok hs
    exact ⟨⟨h.client, rfl⟩, .of_eq rfl rfl⟩
  | removeConnection a =>
    -- the flag of the client keeps it from restarting the connector
    obtain ⟨⟨_, hconnect⟩, _⟩ | ⟨_, rfl⟩ := removeConnection_ok hs
    · cases h.client.symm.trans hconnect
    · exact ⟨⟨h.client, h.connector⟩, .of_eq rfl rfl⟩
  | handleEvent revents a => exact h.ended ha (handleEvent_ok hs)
  | resetChannel =>
    obtain ⟨_, rfl⟩ := resetChannel_ok hs
    exact ⟨⟨h.client, h.connector⟩, .of_eq rfl rfl⟩
  | runTimer a =>
    obtain ht | ⟨_, timers, hs⟩ := runTimer_ok hs
    · exact h.only ht
    · obtain rfl := startInLoop_stopped (s := { s with timers }) h.connector hs
      exact ⟨⟨h.client, h.connector⟩, .of_eq rfl rfl⟩
  | handleReadEnd now =>
    obtain ht | ⟨_, _, timers, rfl⟩ := handleReadEnd_ok hs
    · exact h.only ht
    · exact ⟨⟨h.client, h.connector⟩, .of_eq rfl rfl⟩
  | timers l => exact h.only (timersStep_ok hs)

theorem removeAndResetChannel_eq (hchannel : s.connector.channel_ = some k)
    (hmem : k ∈ s.registered) : s.removeAndResetChannel = .ok (k, s.taken k) := by
  unfold removeAndResetChannel
  simp only [hchannel, assert, demand_true hmem, ok_bind]
  rfl

theorem retry_stopped (hconnect : s.connector.connect_ = false) :
    s.retry addTime k a = .ok (s.silenced k) := by
  have hflag : ¬((s.close k).setState .kDisconnected).connector.connect_ = true :=
    Bool.eq_false_iff.mp hconnect
  unfold retry
  exact if_neg hflag

theorem handleError_stopped (hchannel : s.connector.channel_ = some k) (hmem : k ∈ s.registered)
    (hconnect : s.connector.connect_ = false) :
    s.handleError addTime a = .ok (((s.setState .kConnecting).taken k).silenced k) := by
  unfold handleError
  rw [removeAndResetChannel_eq (s := s.setState .kConnecting) hchannel hmem]
  exact retry_stopped (s := (s.setState .kConnecting).taken k) hconnect

theorem handleWrite_stopped (hstate : s.connector.state_ = .kConnecting)
    (hchannel : s.connector.channel_ = some k) (hmem : k ∈ s.registered)
    (hconnect : s.connector.connect_ = false) : ∃ t, s.handleWrite addTime a = .ok t ∧
      t.history = ((s.taken k).close k).history := by
  unfold handleWrite
  rw [if_pos hstate, removeAndResetChannel_eq hchannel hmem]
  have hretry : (s.taken k).retry addTime k a = .ok ((s.taken k).silenced k) :=
    retry_stopped (s := s.taken k) hconnect
  dsimp only [ok_bind]
  split
  · exact ⟨_, hretry, rfl⟩
  · split
    · exact ⟨_, hretry, rfl⟩
    · split
      · rename_i h
        cases hconnect.symm.trans h
      · exact ⟨_, rfl, rfl⟩

theorem handle_error (halive : s.alive = true) :
    handle addTime a s .error = s.handleError addTime a :=
  demand_bind halive

theorem handle_write (halive : s.alive = true) :
    handle addTime a s .write = s.handleWrite addTime a :=
  demand_bind halive

theorem handleWrite_disconnected (hstate : s.connector.state_ = .kDisconnected) :
    s.handleWrite addTime a = .ok s := by
  unfold handleWrite
  rw [if_neg (by rw [hstate]; decide)]
  exact demand_bind hstate

variable (addTime a) in
/-- An event of the channel that is in the poller. -/
theorem handleEvent_stopped (h : ClientInv s) (hconnect : s.connector.connect_ = false)
    (halive : s.alive = true) (hmem : k ∈ s.registered) (revents : BitVec 32) :
    ∃ t, s.handleEvent addTime revents a = .ok t ∧ (revents &&& Channel.POLLOUT ≠ 0 →
      t.history k.number = [.created, .added, .removed, .closed]) := by
  have hstate := h.agrees.connecting (List.ne_nil_of_mem hmem)
  have hclosed : ((s.taken k).close k).history k.number =
      [.created, .added, .removed, .closed] := by
    simp [taken, close, record, (h.accounted.born k hmem).2]
  obtain ⟨_, hchannel, _⟩ := h.accounted.current hmem
  rw [handleEvent_eq]
  split
  · rw [handle_error halive, handleError_stopped hchannel hmem hconnect, ok_bind]
    split
    · have hlate : handle addTime a (((s.setState .kConnecting).taken k).silenced k) .write =
          .ok (((s.setState .kConnecting).taken k).silenced k) := by
        rw [handle_write (by exact halive), handleWrite_disconnected rfl]
      exact ⟨_, hlate, fun _ => hclosed⟩
    · exact ⟨_, rfl, fun _ => hclosed⟩
  · rw [ok_bind]
    split
    · rw [handle_write halive]
      obtain ⟨t, ht, hhistory⟩ := handleWrite_stopped hstate hchannel hmem hconnect
      exact ⟨t, ht, fun _ => by rw [hhistory, hclosed]⟩
    · rename_i hout
      exact ⟨s, rfl, fun h => absurd h hout⟩

theorem clientStop_stopped {now : Timestamp} (hs : s.clientStop now = .ok t) : Stopped t := by
  obtain ⟨timers, _, rfl⟩ := stop_ok hs
  exact ⟨rfl, rfl⟩

theorem run_stopped {ls : List Label} (hr : Run (clients addTime) s ls t)
    (hls : ∀ a, Label.clientConnect a ∉ ls) (h : Stopped s) (hi : ClientInv s) :
    Stopped t ∧ ClientInv t ∧ OnlyCloses s t := by
  induction hr with
  | nil s => exact ⟨h, hi, .of_eq rfl rfl⟩
  | @cons s u t l ls he hs _ ih =>
    obtain ⟨hu, hcloses⟩ := step_stopped h hi.accounted he
      (fun a ha => hls a (ha ▸ List.mem_cons_self)) hs
    have hiu : ClientInv u := ⟨step_accounted hi.accounted he.1 hs, step_agrees hi he hs⟩
    obtain ⟨ht, hit, hrest⟩ := ih (fun a ha => hls a (List.mem_cons_of_mem _ ha)) hu hiu
    exact ⟨ht, hit, hcloses.trans hrest⟩

/-- Once `stop` has returned, and until `connect` is called again, no socket is made or passed
on: all that happens to one is that it is closed. An event of the channel that is in the poller
calls nothing that is gone, and its socket is closed if it is writable. -/
theorem clientStop_final {now : Timestamp} {ls : List Label}
    (h : Reachable (clients addTime) start s) (he : (clients addTime).enabled s (.clientStop now))
    (hs : (clients addTime).step s (.clientStop now) = .ok t) (hr : Run (clients addTime) t ls u)
    (hls : ∀ a, Label.clientConnect a ∉ ls) :
    u.attempts = t.attempts ∧
    (∀ n, u.history n = t.history n ∨ (t.history n = [.created, .added] ∧
      u.history n = [.created, .added, .removed, .closed])) ∧
    ∀ revents a, (clients addTime).enabled u (.handleEvent revents a) →
      ∃ v, (clients addTime).step u (.handleEvent revents a) = .ok v ∧
        v.attempts = u.attempts ∧ (∀ n, .passed ∈ v.history n → .passed ∈ u.history n) ∧
        (revents &&& Channel.POLLOUT ≠ 0 → ∀ k ∈ u.registered,
          v.history k.number = [.created, .added, .removed, .closed]) := by
  have hi : ClientInv t := clients_inv (h.next he hs)
  obtain ⟨ls', ht⟩ := h.next he hs
  have hheld : Held u := clients_held ⟨_, ht.append hr⟩
  obtain ⟨hstopped, hiu, hcloses⟩ := run_stopped hr hls (clientStop_stopped hs) hi
  refine ⟨hcloses.attempts, hcloses.history, ?_⟩
  intro revents a hevent
  have halive := hheld.registered hevent.1.2.1
  obtain ⟨k, hk⟩ := List.exists_mem_of_ne_nil _ hevent.1.2.1
  obtain ⟨v, hv, _⟩ := handleEvent_stopped addTime a hiu hstopped.connector halive hk revents
  have hafter := (step_stopped hstopped hiu.accounted hevent (by intro a ha; cases ha) hv).2
  refine ⟨v, hv, hafter.attempts, ?_, ?_⟩
  · intro n hpassed
    obtain hsame | ⟨_, hclosed⟩ := hafter.history n
    · rwa [← hsame]
    · rw [hclosed] at hpassed
      exact absurd hpassed (by decide)
  · intro hout k hk
    obtain ⟨v', hv', hclosed⟩ := handleEvent_stopped addTime a hiu hstopped.connector
      halive hk revents
    obtain rfl := Except.ok.inj (hv.symm.trans hv')
    exact hclosed hout

end

/-- A client with a connection that is to be renewed and one whose attempt is under way. -/
theorem clientStop_final_run :
    let addTime : Timestamp → ℚ → Timestamp := fun now x => now + ⌊x * 1000000⌋
    let ls : List Label := [.enableRetry, .clientConnect ⟨7, 0, 0, false, 1, 1, 2⟩,
      .handleEvent Channel.POLLOUT ⟨0, 0, 0, false, 1, 3, 4⟩, .resetChannel,
      .removeConnection ⟨8, EINPROGRESS, 0, false, 1, 5, 6⟩]
    ∃ s t u v, Run (clients addTime) start ls s ∧
      (clients addTime).step s (.clientStop 7) = .ok t ∧
      Run (clients addTime) t [.enableRetry] u ∧
      (clients addTime).step u (.handleEvent Channel.POLLOUT ⟨0, 0, 0, false, 1, 8, 9⟩) = .ok v ∧
      u.history 0 = [.created, .added, .removed, .passed] ∧ u.attempts = t.attempts ∧
      v.attempts = u.attempts ∧ v.history 1 = [.created, .added, .removed, .closed] := by
  intro addTime ls
  have hex : ∃ u, Run (clients addTime) start (ls ++ [.clientStop 7, .enableRetry]) u ∧
      u.registered = [⟨8, 1⟩] ∧
      (clients addTime).enabled u (.handleEvent Channel.POLLOUT ⟨0, 0, 0, false, 1, 8, 9⟩) ∧
      u.history 0 = [.created, .added, .removed, .passed] :=
    exists_run_of_exec _ (by decide +kernel)
  obtain ⟨u, hr, hreg, hevent, hfirst⟩ := hex
  obtain ⟨s, hs, hrest⟩ := hr.split
  cases hrest with
  | @cons _ t _ _ _ he hstop hrun =>
    obtain ⟨hattempts, _, hlast⟩ :=
      clientStop_final ⟨ls, hs⟩ he hstop hrun (by intro a ha; simp at ha)
    obtain ⟨v, hv, hnew, _, hclosed⟩ := hlast _ _ hevent
    have hout : Channel.POLLOUT &&& Channel.POLLOUT ≠ 0 := by decide
    exact ⟨s, t, u, v, hs, hstop, hrun, hv, hfirst, hattempts, hnew,
      hclosed hout ⟨8, 1⟩ (by rw [hreg]; decide)⟩

end MuduoNet.ConnectorLoop
