import MuduoNet.Connector.Stopped
import MuduoNet.Connector.Timers

/-!
# Calls of a connector that are in order

`startInLoop` asserts that the connector is idle, but `stop` leaves a retry timer in place, and
nothing sets `state_` back when an attempt ends in a connection. So a call of `start` is in order
only while the connector is disconnected and no retry timer waits. Then no assertion fails, and
the call begins one attempt.
-/
namespace MuduoNet.ConnectorLoop

open Lib Lib.Outcome Function Connector TimerQueue

/-- The callback that `handleRead` calls next. -/
def nextCallback (s : ConnectorLoop) : Option TimerCallback :=
  match s.timers.batch with
  | some ⟨_, _, it :: _⟩ => some (s.callback (ofLex it).2)
  | _ => none

/-- The timers that are scheduled or in a batch and have yet to call `startInLoop`. -/
def retryTimers (s : ConnectorLoop) : List TimerPtr :=
  (pointers (s.timers.queue.timers_.elems ++ (s.timers.batch.elim [] Batch.rest))).filter
    fun p => s.callback p = .startInLoop

/-- An attempt would not find the channel of an earlier one, or is refused at once. -/
def Free (s : ConnectorLoop) (a : Answers) : Prop :=
  s.connector.channel_ = none ∨ a.saveError ∉ [0, EINPROGRESS, EINTR, EISCONN]

instance (s : ConnectorLoop) (a : Answers) : Decidable (s.Free a) :=
  inferInstanceAs (Decidable (_ ∨ _))

/-- `restart` is called once a connection has been closed, and the client is not destroyed. -/
def Orderly (s : ConnectorLoop) : Label → Prop
  | .start a | .clientConnect a =>
    s.connector.state_ = .kDisconnected ∧ s.retryTimers = [] ∧ s.Free a
  | .restart _ => s.connection_ = .closed
  | .runTimer a =>
    s.nextCallback = some .startInLoop → s.connector.connect_ = true → s.Free a
  | .destroyTcpClient _ => False
  | _ => True

instance (s : ConnectorLoop) (l : Label) : Decidable (s.Orderly l) :=
  match l with
  | .start a | .clientConnect a => inferInstanceAs
      (Decidable (s.connector.state_ = .kDisconnected ∧ s.retryTimers = [] ∧ s.Free a))
  | .restart _ => inferInstanceAs (Decidable (s.connection_ = .closed))
  | .runTimer a => inferInstanceAs (Decidable (s.nextCallback = some .startInLoop →
      s.connector.connect_ = true → s.Free a))
  | .destroyTcpClient _ => isFalse not_false
  | .stop _ | .disconnect | .clientStop _ | .enableRetry | .removeConnection _ | .handleEvent ..
  | .resetChannel | .handleReadEnd _ | .timers _ => isTrue trivial

def orderly (addTime : Timestamp → ℚ → Timestamp) : Machine ConnectorLoop Label Fault :=
  (machine addTime).restrict Orderly

instance (addTime : Timestamp → ℚ → Timestamp) (s : ConnectorLoop) (l : Label) :
    Decidable ((orderly addTime).enabled s l) :=
  inferInstanceAs (Decidable ((machine addTime).enabled s l ∧ s.Orderly l))

/-- A call that is to begin an attempt. -/
def Begins : Label → Prop
  | .start _ | .restart _ | .clientConnect _ => True
  | _ => False

/-- What holds of a live connector as long as the calls are in order. -/
structure Calm (s : ConnectorLoop) : Prop where
  timed : Timed s
  client : s.client = true
  alive : s.alive = true
  accounted : Accounted s
  agrees : Agrees s
  closed : s.connection_ = .closed →
    s.connector.state_ = .kConnected ∧ s.connector.channel_ = none
  callbacks : ∀ p, s.callback p ≠ .removeConnector
  waiting : ∀ p, Waits s .startInLoop p → s.connector.state_ = .kDisconnected
  unique : ∀ p p', Waits s .startInLoop p → Waits s .startInLoop p' → p = p'

variable {addTime : Timestamp → ℚ → Timestamp} {s t : ConnectorLoop} {a : Answers} {k : Socket}

theorem calm_start : Calm start := by
  have hnone : ∀ p, ¬ Waits start .startInLoop p := by
    rintro p ⟨h, _⟩
    cases h
  exact ⟨timed_start, rfl, rfl, accounted_start, agrees_start, (by intro h; cases h),
    (fun p h => by cases h), fun p h => absurd h (hnone p), fun p _ h => absurd h (hnone p)⟩

/-- A timer that is still to call `startInLoop` is found in the queue or in the batch. -/
theorem Timed.mem_retryTimers (h : Timed s) {p : TimerPtr} (hw : Waits s .startInLoop p) :
    p ∈ s.retryTimers := by
  obtain ⟨hcallback, ⟨τ, hτ⟩, hran⟩ := hw
  have hqueued : p ∉ s.timers.queued := by
    intro hq
    exact h.oneShots.queued p hq (by rw [hcallback]; decide)
  refine List.mem_filter.mpr ⟨?_, by simp [hcallback]⟩
  by_cases hexp : p ∈ pointers s.timers.expiring
  · cases hb : s.timers.batch with
    | none =>
      rw [TimerLoop.expiring_none hb] at hexp
      cases hexp
    | some b =>
      rw [TimerLoop.expiring_some hb] at hexp
      rw [Batch.expired, pointers_append, List.mem_append] at hexp
      rw [pointers_append]
      refine List.mem_append_right _ (hexp.resolve_left ?_)
      rw [hb] at hran
      exact hran b rfl
  · have hmem : toLex (τ.expiration_, p) ∈ s.timers.queue.timers_ := by
      refine (h.inv.owned.timers _ _).mpr ⟨?_, τ, hτ, rfl⟩
      rw [List.mem_append]
      exact not_or_intro hqueued hexp
    refine mem_pointers.mpr ⟨τ.expiration_, List.mem_append_left _ hmem⟩

/-- And nothing else is found there. -/
theorem Timed.waits_of_mem (h : Timed s) {p : TimerPtr} (hp : p ∈ s.retryTimers) :
    Waits s .startInLoop p := by
  obtain ⟨hmem, hcallback⟩ := List.mem_filter.mp hp
  refine ⟨of_decide_eq_true hcallback, ?_⟩
  rw [pointers_append, List.mem_append] at hmem
  obtain hmem | hmem := hmem
  · obtain ⟨w, hmem⟩ := mem_pointers.mp hmem
    obtain ⟨hothers, τ, hτ, _⟩ := (h.inv.owned.timers w p).mp hmem
    refine ⟨⟨τ, hτ⟩, ?_⟩
    intro b hb hran
    refine hothers (List.mem_append_right _ ?_)
    rw [TimerLoop.expiring_some hb, Batch.expired, pointers_append]
    exact List.mem_append_left _ hran
  · cases hb : s.timers.batch with
    | none =>
      rw [hb] at hmem
      cases hmem
    | some b =>
      rw [hb] at hmem
      have hexp : p ∈ pointers s.timers.expiring := by
        rw [TimerLoop.expiring_some hb, Batch.expired, pointers_append]
        exact List.mem_append_right _ hmem
      refine ⟨h.inv.owned.alive p (List.mem_append_right _ hexp), ?_⟩
      intro b' hb' hran
      obtain rfl := Option.some.inj (hb.symm.trans hb')
      exact (List.nodup_append.mp (h.inv.batch_nodup hb)).2.2 p hran p hmem rfl

/-- Flags may change. -/
theorem Calm.flags (h : Calm s) (retry_ connect_ connect' : Bool) : Calm { s with
    retry_, connect_, connector := { s.connector with connect_ := connect' } } where
  timed := h.timed.congr rfl rfl rfl
  client := h.client
  alive := h.alive
  accounted := h.accounted.congr rfl rfl rfl rfl rfl h.accounted.delay
  agrees := h.agrees.congr rfl rfl id
  closed := h.closed
  callbacks := h.callbacks
  waiting := h.waiting
  unique := h.unique

/-- Timers of others may come, and any may go. -/
theorem Calm.retimed (h : Calm s) {timers : TimerLoop} {callback : TimerPtr → TimerCallback}
    (htimed : Timed { s with timers, callback })
    (hcallbacks : ∀ p, callback p ≠ .removeConnector)
    (hwaits : ∀ p, Waits { s with timers, callback } .startInLoop p → Waits s .startInLoop p) :
    Calm { s with timers, callback } where
  timed := htimed
  client := h.client
  alive := h.alive
  accounted := h.accounted.congr rfl rfl rfl rfl rfl h.accounted.delay
  agrees := h.agrees.congr rfl rfl id
  closed := h.closed
  callbacks := hcallbacks
  waiting p hp := h.waiting p (hwaits p hp)
  unique p p' hp hp' := h.unique p p' (hwaits p hp) (hwaits p' hp')

theorem connecting_returns (hchannel : s.connector.channel_ = none)
    (hfd : ∀ x ∈ s.registered, x.fd ≠ k.fd) : ∃ t, s.connecting k = .ok t := by
  refine ⟨_, (demand_bind hchannel).trans ((demand_bind hfd).trans rfl)⟩

theorem Timed.connect (h : Timed s) (hcalls : s.timers.Calls) (ha : s.Answered a)
    (hfree : s.Free a) (addTime : Timestamp → ℚ → Timestamp) :
    ∃ t, s.connect addTime a = .ok t := by
  have hcreated : Timed (s.create a.sockfd).2 := h.congr rfl rfl rfl
  unfold ConnectorLoop.connect
  dsimp only
  split
  · rename_i herror
    have hchannel := hfree.resolve_right (not_not_intro herror)
    exact connecting_returns (s := (s.create a.sockfd).2) hchannel ha.2
  · split
    · exact hcreated.retry hcalls ha.1 addTime _
    · exact ⟨_, rfl⟩

/-- No timer waits. -/
theorem Calm.of_quiet (htimed : Timed t) (hclient : t.client = true) (halive : t.alive = true)
    (haccounted : Accounted t) (hagrees : Agrees t)
    (hclosed : t.connection_ = .closed →
      t.connector.state_ = .kConnected ∧ t.connector.channel_ = none)
    (hcallbacks : ∀ p, t.callback p ≠ .removeConnector)
    (hnone : ∀ p, ¬ Waits t .startInLoop p) : Calm t :=
  ⟨htimed, hclient, halive, haccounted, hagrees, hclosed, hcallbacks,
    fun p hp => absurd hp (hnone p), fun p _ hp => absurd hp (hnone p)⟩

/-- After `retry` the new timer is the only one that waits. -/
theorem Calm.of_retried (hs : Timed s) (hclient : s.client = true) (halive : s.alive = true)
    (hopen : s.connection_ ≠ .closed) (hcallbacks : ∀ p, s.callback p ≠ .removeConnector)
    (hnone : ∀ p, ¬ Waits s .startInLoop p) (hcalls : s.timers.Calls)
    (hfresh : s.timers.Fresh a.timer) (ht : Retried addTime s k a t) (haccounted : Accounted t)
    (hagrees : Agrees t) : Calm t := by
  obtain ⟨htimed, _, hwaits⟩ := hs.retried hcalls hfresh ht
  have honly : ∀ p, Waits t .startInLoop p → p = a.timer := by
    intro p hp
    obtain ⟨_, hnew⟩ | hold := hwaits _ p hp
    · exact hnew
    · exact absurd hold (hnone p)
  refine ⟨htimed, ?_, ?_, haccounted, hagrees, ?_, ?_, fun p _ => ht.state_eq,
    fun p p' hp hp' => (honly p hp).trans (honly p' hp').symm⟩
  · cases ht <;> exact hclient
  · cases ht <;> exact halive
  · intro hclosed
    refine absurd ?_ hopen
    cases ht <;> exact hclosed
  · intro p
    cases ht with
    | silent _ => exact hcallbacks p
    | scheduled _ _ =>
      show update s.callback a.timer .startInLoop p ≠ _
      by_cases hp : p = a.timer
      · rw [hp, update_self]
        decide
      · rw [update_of_ne hp]
        exact hcallbacks p

theorem Calm.attempted (h : Calm s) (hstate : s.connector.state_ = .kDisconnected)
    (hnone : ∀ p, ¬ Waits s .startInLoop p) (hcalls : s.timers.Calls) (ha : s.Answered a)
    (hs : s.startInLoop addTime a = .ok t) : Calm t := by
  have haccounted := h.accounted.startInLoop hs
  have hagrees := h.agrees.startInLoop hs
  have hopen : s.connection_ ≠ .closed := by
    intro hclosed
    have hconnected := (h.closed hclosed).1
    rw [hstate] at hconnected
    cases hconnected
  cases (startInLoop_ok hs).2 with
  | none _ => exact h
  | began _ _ =>
    exact .of_quiet (h.timed.congr rfl rfl rfl) h.client h.alive haccounted hagrees
      (fun hclosed => absurd hclosed hopen) h.callbacks hnone
  | abandoned _ =>
    exact .of_quiet (h.timed.congr rfl rfl rfl) h.client h.alive haccounted hagrees
      (fun hclosed => absurd hclosed hopen) h.callbacks hnone
  | refused _ ht =>
    have hcreated : Timed (s.create a.sockfd).2 := h.timed.congr rfl rfl rfl
    exact .of_retried hcreated h.client h.alive hopen h.callbacks hnone hcalls ha.1 ht haccounted
      hagrees

/-- `startInLoop` of an idle connector begins one attempt if it is to connect. -/
theorem Calm.startInLoop (h : Calm s) (hstate : s.connector.state_ = .kDisconnected)
    (hnone : ∀ p, ¬ Waits s .startInLoop p) (hcalls : s.timers.Calls) (ha : s.Answered a)
    (hfree : s.connector.connect_ = true → s.Free a) (addTime : Timestamp → ℚ → Timestamp) :
    ∃ t, s.startInLoop addTime a = .ok t ∧ Calm t ∧
      (s.connector.connect_ = true → t.attempts = s.attempts + 1) := by
  have hreturns : ∃ t, s.startInLoop addTime a = .ok t := by
    unfold ConnectorLoop.startInLoop
    rw [show assert _ >>= _ = _ from demand_bind hstate]
    split
    · rename_i hconnect
      exact h.timed.connect hcalls ha (hfree hconnect) addTime
    · exact ⟨s, rfl⟩
  obtain ⟨t, ht⟩ := hreturns
  refine ⟨t, ht, h.attempted hstate hnone hcalls ha ht, ?_⟩
  intro hconnect
  cases (startInLoop_ok ht).2 with
  | none hno => cases hconnect.symm.trans hno
  | began _ _ => rfl
  | abandoned _ => rfl
  | refused _ ht =>
    cases ht with
    | silent _ => rfl
    | scheduled _ _ => rfl

/-- A connection has been closed, and the client has forgotten it. -/
theorem Calm.restart (h : Calm s) (hstate : s.connector.state_ = .kConnected)
    (hchannel : s.connector.channel_ = none) (hconnection : s.connection_ ≠ .established)
    (hcalls : s.timers.Calls) (ha : s.Answered a) (addTime : Timestamp → ℚ → Timestamp) :
    ∃ t, s.forget.restart addTime a = .ok t ∧ Calm t ∧ t.attempts = s.attempts + 1 := by
  have hnone : ∀ p, ¬ Waits s .startInLoop p := by
    intro p hp
    have hdisconnected := h.waiting p hp
    rw [hstate] at hdisconnected
    cases hdisconnected
  have hforgotten : s.forget.connection_ = .none := if_neg hconnection
  have hreg := h.agrees.registered_nil (by rw [hstate]; decide)
  let u : ConnectorLoop := { s.forget.setState .kDisconnected with
    connector := { (s.forget.setState .kDisconnected).connector with
      retryDelayMs_ := kInitRetryDelayMs, connect_ := true } }
  have hu : Calm u := by
    refine .of_quiet (h.timed.congr rfl rfl rfl) h.client h.alive
      (h.accounted.congr rfl rfl rfl rfl rfl accounted_start.delay) (Agrees.idle hreg ?_) ?_
      h.callbacks hnone
    · show s.forget.connection_ ≠ _
      rw [hforgotten]
      decide
    · intro hclosed
      cases hforgotten.symm.trans hclosed
  obtain ⟨t, ht, hcalm, hattempts⟩ :=
    hu.startInLoop rfl hnone hcalls ha (fun _ => .inl hchannel) addTime
  exact ⟨t, ht, hcalm, hattempts rfl⟩

theorem Calm.stop (h : Calm s) (hcalls : s.timers.Calls) (now : Timestamp) :
    ∃ t, s.stop now = .ok t ∧ Calm t := by
  have hflags : Calm (s.setConnect false) := h.flags s.retry_ s.connect_ false
  obtain ⟨timers, hcancel, htimed, hheap, hbatch⟩ := hflags.timed.cancel hcalls now
  refine ⟨_, hcancel, hflags.retimed htimed h.callbacks ?_⟩
  rintro p ⟨hcallback, hp⟩
  exact ⟨hcallback, (TimerLoop.waits_congr hheap hbatch).mp hp⟩

/-- The attempt that has a channel in the poller. -/
theorem Calm.current (h : Calm s) (hreg : s.registered ≠ []) :
    ∃ k, s.connector.channel_ = some k ∧ k ∈ s.registered ∧
      s.connector.state_ = .kConnecting := by
  obtain ⟨k, hmem⟩ := List.exists_mem_of_ne_nil _ hreg
  obtain ⟨_, hchannel, _⟩ := h.accounted.current hmem
  exact ⟨k, hchannel, hmem, h.agrees.connecting hreg⟩

theorem Calm.handleError (h : Calm s) (hreg : s.registered ≠ []) (hcalls : s.timers.Calls)
    (ha : s.Answered a) (addTime : Timestamp → ℚ → Timestamp) :
    ∃ t, s.handleError addTime a = .ok t ∧ t.alive = true := by
  obtain ⟨k, hchannel, hmem, _⟩ := h.current hreg
  have htaken : Timed ((s.setState .kConnecting).taken k) := h.timed.congr rfl rfl rfl
  obtain ⟨t, ht⟩ := htaken.retry hcalls ha.1 addTime k
  refine ⟨t, ?_, ?_⟩
  · unfold ConnectorLoop.handleError
    rw [removeAndResetChannel_eq (s := s.setState .kConnecting) hchannel hmem]
    exact ht
  · cases retry_ok ht with
    | silent _ => exact h.alive
    | scheduled _ _ => exact h.alive

theorem Calm.handleWrite (h : Calm s) (hreg : s.registered ≠ []) (hcalls : s.timers.Calls)
    (ha : s.Answered a) (addTime : Timestamp → ℚ → Timestamp) :
    ∃ t, s.handleWrite addTime a = .ok t := by
  obtain ⟨k, hchannel, hmem, hstate⟩ := h.current hreg
  have htaken : Timed (s.taken k) := h.timed.congr rfl rfl rfl
  have hretry := htaken.retry hcalls ha.1 addTime k
  unfold ConnectorLoop.handleWrite
  rw [if_pos hstate, removeAndResetChannel_eq hchannel hmem]
  dsimp only [ok_bind]
  split
  · exact hretry
  · split
    · exact hretry
    · split
      · exact ⟨_, demand_bind h.client⟩
      · exact ⟨_, rfl⟩

theorem Calm.ended (h : Calm s) (hcalls : s.timers.Calls) (ha : s.Answered a)
    (ht : Ended addTime s a t) : Calm t := by
  have haccounted := h.accounted.ended ht
  have hagrees := ClientInv.ended ⟨h.accounted, h.agrees⟩ ht
  have hbusy : ∀ {k : Socket}, k ∈ s.registered →
      s.connection_ ≠ .closed ∧ ∀ p, ¬ Waits s .startInLoop p := by
    intro k hmem
    have hstate := h.agrees.connecting (List.ne_nil_of_mem hmem)
    constructor
    · intro hclosed
      have hconnected := (h.closed hclosed).1
      rw [hstate] at hconnected
      cases hconnected
    · intro p hp
      have hdisconnected := h.waiting p hp
      rw [hstate] at hdisconnected
      cases hdisconnected
  cases ht with
  | ignored => exact h
  | @failed k _ hchannel hmem ht =>
    obtain ⟨hopen, hnone⟩ := hbusy hmem
    have htaken : Timed (s.taken k) := h.timed.congr rfl rfl rfl
    exact .of_retried htaken h.client h.alive hopen h.callbacks hnone hcalls ha.1 ht haccounted
      hagrees
  | passed hchannel hmem _ _ =>
    exact .of_quiet (h.timed.congr rfl rfl rfl) h.client h.alive haccounted hagrees
      (fun hclosed => by cases hclosed) h.callbacks (hbusy hmem).2
  | closed hchannel hmem _ =>
    exact .of_quiet (h.timed.congr rfl rfl rfl) h.client h.alive haccounted hagrees
      (fun hclosed => absurd hclosed (hbusy hmem).1) h.callbacks (hbusy hmem).2

theorem Calm.handleEvent (h : Calm s) (hreg : s.registered ≠ []) (hcalls : s.timers.Calls)
    (ha : s.Answered a) (addTime : Timestamp → ℚ → Timestamp) (revents : BitVec 32) :
    ∃ t, s.handleEvent addTime revents a = .ok t ∧ Calm t := by
  have hreturns : ∃ t, s.handleEvent addTime revents a = .ok t := by
    rw [handleEvent_eq]
    split
    · obtain ⟨t, herror, halive⟩ := h.handleError hreg hcalls ha addTime
      rw [handle_error h.alive, herror, ok_bind]
      split
      · rw [handle_write halive, handleWrite_disconnected (handleError_ok herror).2]
        exact ⟨t, rfl⟩
      · exact ⟨t, rfl⟩
    · rw [ok_bind]
      split
      · rw [handle_write h.alive]
        exact h.handleWrite hreg hcalls ha addTime
      · exact ⟨s, rfl⟩
  obtain ⟨t, ht⟩ := hreturns
  exact ⟨t, ht, h.ended hcalls ha (handleEvent_ok ht)⟩

theorem Calm.resetChannel (h : Calm s) (hpos : 0 < s.resets) :
    ∃ t, s.resetChannel = .ok t ∧ Calm t := by
  refine ⟨_, demand_bind h.alive, ?_⟩
  exact ⟨h.timed.congr rfl rfl rfl, h.client, h.alive, h.accounted.resetChannel hpos,
    h.agrees.congr rfl rfl id, fun hclosed => ⟨(h.closed hclosed).1, rfl⟩, h.callbacks, h.waiting,
    h.unique⟩

/-- The retry timer that is called was the only one. -/
theorem Calm.runTimer (h : Calm s) (he : ∃ b ∈ s.timers.batch, b.rest ≠ []) (ha : s.Answered a)
    (hfree : s.nextCallback = some .startInLoop → s.connector.connect_ = true → s.Free a)
    (addTime : Timestamp → ℚ → Timestamp) : ∃ t, s.runTimer addTime a = .ok t ∧ Calm t := by
  obtain ⟨⟨now, ran, rest⟩, hb, hrest⟩ := he
  obtain ⟨it, rest, rfl⟩ := List.exists_cons_of_ne_nil hrest
  obtain ⟨timers, hrun, hcalls, hheap, htimed, hbefore, hafter, hwaits⟩ := h.timed.runTimer hb
  have hcalm : Calm { s with timers } :=
    h.retimed htimed h.callbacks fun p hp => hwaits _ p (by decide) hp
  have hnext : s.nextCallback = some (s.callback (ofLex it).2) := by
    unfold nextCallback
    rw [show s.timers.batch = some ⟨now, ran, it :: rest⟩ from hb]
  unfold ConnectorLoop.runTimer
  rw [hrun, ok_bind, show s.timers.batch = some ⟨now, ran, it :: rest⟩ from hb]
  dsimp only
  cases hcallback : s.callback (ofLex it).2 with
  | startInLoop =>
    have hmine : Waits s .startInLoop (ofLex it).2 := ⟨hcallback, hbefore⟩
    have hnone : ∀ p, ¬ Waits { s with timers } .startInLoop p := by
      intro p hp
      have hsame := h.unique p _ (hwaits _ p (by decide) hp) hmine
      exact hafter (hsame ▸ hp.2)
    have hfresh : Answered { s with timers } a :=
      ⟨⟨ha.1.1, ha.1.2.1, by rw [hheap]; exact ha.1.2.2⟩, ha.2⟩
    obtain ⟨t, ht, hcalm', _⟩ := hcalm.startInLoop (h.waiting _ hmine) hnone hcalls hfresh
      (hfree (by rw [hnext, hcallback])) addTime
    exact ⟨t, (demand_bind h.alive).trans ht, hcalm'⟩
  | removeConnector => exact ⟨_, rfl, hcalm⟩
  | user => exact ⟨_, rfl, hcalm⟩

theorem Calm.handleReadEnd (h : Calm s) (he : ∃ b ∈ s.timers.batch, b.rest = [])
    (addTime : Timestamp → ℚ → Timestamp) (now : Timestamp) :
    ∃ t, s.handleReadEnd addTime now = .ok t ∧ Calm t := by
  obtain ⟨b, hb, hrest⟩ := he
  obtain ⟨timers, hend, _, htimed, _, hwaits⟩ := h.timed.handleReadEnd hb hrest addTime now
  refine ⟨{ s with timers }, ?_, h.retimed htimed h.callbacks fun p hp => hwaits _ p (by decide) hp⟩
  unfold ConnectorLoop.handleReadEnd
  rw [hend, ok_bind]
  refine if_neg ?_
  rintro ⟨p, _, hremove, _⟩
  exact h.callbacks p hremove

theorem Calm.timersStep (h : Calm s) {l : TimerLoop.Label} (ho : Other l)
    (he : (TimerLoop.withHandles addTime).enabled s.timers l) :
    ∃ t, s.timersStep addTime l = .ok t ∧ Calm t := by
  obtain ⟨timers, hstep, htimed, hwaits⟩ := h.timed.timersStep ho he
  refine ⟨_, hstep, h.retimed htimed ?_ fun p hp => hwaits _ p (by decide) hp⟩
  intro p
  cases l with
  | addTimer b p' w x now =>
    show update s.callback p' .user p ≠ _
    by_cases hp : p = p'
    · rw [hp, update_self]
      decide
    · rw [update_of_ne hp]
      exact h.callbacks p
  | cancel | doPendingFunctors | runFunctor | handleRead | runTimer | handleReadEnd =>
    exact h.callbacks p

/-- The connection has closed; the client restarts the connector, or leaves it. -/
theorem Calm.removeConnection (h : Calm s) (hb : s.timers.batch = none)
    (hestablished : s.connection_ = .established) (hresets : s.resets = 0) (ha : s.Answered a)
    (addTime : Timestamp → ℚ → Timestamp) : ∃ t, s.removeConnection addTime a = .ok t ∧ Calm t := by
  have hcalls := TimerLoop.calls_of_idle hb
  have hstate := h.agrees.established hestablished
  have hreg := h.agrees.registered_nil (by rw [hstate]; decide)
  have hchannel : s.connector.channel_ = none := by
    cases h.accounted.stage with
    | idle _ hchannel _ => exact hchannel
    | current hone _ _ => cases hreg.symm.trans hone
    | leaving _ _ hone => cases hresets.symm.trans hone
  have hclosed : Delivered.closed ≠ .established := by decide
  have hcalm : Calm { s with connection_ := .closed } :=
    ⟨h.timed.congr rfl rfl rfl, h.client, h.alive,
      h.accounted.congr rfl rfl rfl rfl rfl h.accounted.delay, .idle hreg hclosed,
      fun _ => ⟨hstate, hchannel⟩, h.callbacks, h.waiting, h.unique⟩
  unfold ConnectorLoop.removeConnection
  dsimp only
  split
  · obtain ⟨t, ht, hafter, _⟩ := hcalm.restart hstate hchannel hclosed hcalls ha addTime
    exact ⟨t, ht, hafter⟩
  · exact ⟨_, rfl, hcalm⟩

/-- A step that is in order returns, and if it is to begin an attempt it begins one. -/
theorem step_calm (h : Calm s) {l : Label} (he : (orderly addTime).enabled s l) :
    ∃ t, (orderly addTime).step s l = .ok t ∧ Calm t ∧
      (Begins l → t.attempts = s.attempts + 1) := by
  obtain ⟨he, ho⟩ := he
  have hquiet : s.retryTimers = [] → ∀ p, ¬ Waits s .startInLoop p := by
    intro hnil p hp
    have hmem := h.timed.mem_retryTimers hp
    rw [hnil] at hmem
    cases hmem
  cases l with
  | start a =>
    obtain ⟨hstate, hnil, hfree⟩ := ho
    have hflags : Calm (s.setConnect true) := h.flags s.retry_ s.connect_ true
    obtain ⟨t, ht, hcalm, hattempts⟩ := hflags.startInLoop hstate (hquiet hnil) he.1.1 he.2
      (fun _ => hfree) addTime
    exact ⟨t, ht, hcalm, fun _ => hattempts rfl⟩
  | stop now =>
    obtain ⟨t, ht, hcalm⟩ := h.stop he.1 now
    exact ⟨t, ht, hcalm, False.elim⟩
  | restart a =>
    obtain ⟨hstate, hchannel⟩ := h.closed ho
    have hconnection : s.connection_ ≠ .established := by
      rw [show s.connection_ = .closed from ho]
      decide
    obtain ⟨t, ht, hcalm, hattempts⟩ :=
      h.restart hstate hchannel hconnection he.1.1 he.2 addTime
    exact ⟨t, ht, hcalm, fun _ => hattempts⟩
  | clientConnect a =>
    obtain ⟨hstate, hnil, hfree⟩ := ho
    have hflags : Calm ({ s with connect_ := true }.setConnect true) := h.flags s.retry_ true true
    obtain ⟨t, ht, hcalm, hattempts⟩ := hflags.startInLoop hstate (hquiet hnil) he.1.1 he.2
      (fun _ => hfree) addTime
    exact ⟨t, ht, hcalm, fun _ => hattempts rfl⟩
  | disconnect => exact ⟨_, rfl, h.flags s.retry_ false s.connector.connect_, False.elim⟩
  | clientStop now =>
    have hflags : Calm { s with connect_ := false } := h.flags s.retry_ false s.connector.connect_
    obtain ⟨t, ht, hcalm⟩ := hflags.stop he.1 now
    exact ⟨t, ht, hcalm, False.elim⟩
  | enableRetry => exact ⟨_, rfl, h.flags true s.connect_ s.connector.connect_, False.elim⟩
  | destroyTcpClient a => exact ho.elim
  | removeConnection a =>
    obtain ⟨hb, _, hestablished, hresets, ha⟩ := he
    obtain ⟨t, ht, hcalm⟩ := h.removeConnection hb hestablished hresets ha addTime
    exact ⟨t, ht, hcalm, False.elim⟩
  | handleEvent revents a =>
    have hcalls := TimerLoop.calls_of_idle he.1
    obtain ⟨t, ht, hcalm⟩ := h.handleEvent he.2.1 hcalls he.2.2 addTime revents
    exact ⟨t, ht, hcalm, False.elim⟩
  | resetChannel =>
    obtain ⟨t, ht, hcalm⟩ := h.resetChannel he.2
    exact ⟨t, ht, hcalm, False.elim⟩
  | runTimer a =>
    obtain ⟨t, ht, hcalm⟩ := h.runTimer he.1 he.2 ho addTime
    exact ⟨t, ht, hcalm, False.elim⟩
  | handleReadEnd now =>
    obtain ⟨t, ht, hcalm⟩ := h.handleReadEnd he addTime now
    exact ⟨t, ht, hcalm, False.elim⟩
  | timers l =>
    obtain ⟨t, ht, hcalm⟩ := h.timersStep he.1 he.2
    exact ⟨t, ht, hcalm, False.elim⟩

/-- In every run whose calls are in order one socket at most is being connected, and the run goes
on without a failed assertion: `startInLoop` finds the connector disconnected, and `connecting`
finds no channel. A call that is to begin an attempt begins one. -/
theorem orderly_attempts (addTime : Timestamp → ℚ → Timestamp) {s : ConnectorLoop}
    (h : Reachable (orderly addTime) start s) :
    s.registered.length ≤ 1 ∧
    ∀ l, (orderly addTime).enabled s l → ∃ t, (orderly addTime).step s l = .ok t ∧
      t.registered.length ≤ 1 ∧ (Begins l → t.attempts = s.attempts + 1) := by
  have hone : ∀ {s : ConnectorLoop}, Calm s → s.registered.length ≤ 1 := by
    intro s hs
    cases hs.accounted.stage with
    | idle hreg _ _ => simp [hreg]
    | current hreg _ _ => simp [hreg]
    | leaving hreg _ _ => simp [hreg]
  have hcalm : Calm s := by
    refine h.invariant (I := Calm) ?_ calm_start
    intro s l t hs he hstep
    obtain ⟨t', ht', hcalm, _⟩ := step_calm hs he
    obtain rfl := Except.ok.inj (ht'.symm.trans hstep)
    exact hcalm
  refine ⟨hone hcalm, ?_⟩
  intro l he
  obtain ⟨t, ht, hafter, hattempts⟩ := step_calm hcalm he
  exact ⟨t, ht, hone hafter, hattempts⟩

/-- A retry that is stopped when its timer has come due, and another call of `connect`. -/
theorem orderly_attempts_run :
    let addTime : Timestamp → ℚ → Timestamp := fun now x => now + ⌊x * 1000000⌋
    let ls : List Label := [.clientConnect ⟨7, EINPROGRESS, 0, false, 1, 1, 2⟩,
      .handleEvent Channel.POLLERR ⟨0, 0, ECONNREFUSED, false, 1, 3, 4⟩, .resetChannel,
      .clientStop 5, .timers (.handleRead 600000 true), .runTimer ⟨0, 0, 0, false, 2, 6, 7⟩,
      .handleReadEnd 600001]
    ∃ s t, Run (orderly addTime) start ls s ∧ s.attempts = 1 ∧ s.retryTimers = [] ∧
      (orderly addTime).step s (.clientConnect ⟨7, 0, 0, false, 2, 600002, 600003⟩) = .ok t ∧
      t.attempts = 2 ∧ t.registered.length ≤ 1 := by
  intro addTime ls
  have hex : ∃ s, Run (orderly addTime) start ls s ∧ s.attempts = 1 ∧ s.retryTimers = [] ∧
      (orderly addTime).enabled s (.clientConnect ⟨7, 0, 0, false, 2, 600002, 600003⟩) :=
    exists_run_of_exec _ (by decide +kernel)
  obtain ⟨s, hr, hattempts, hnil, he⟩ := hex
  obtain ⟨t, ht, hreg, hbegun⟩ := (orderly_attempts addTime ⟨ls, hr⟩).2 _ he
  exact ⟨s, t, hr, hattempts, hnil, ht, (hbegun trivial).trans (congrArg (· + 1) hattempts), hreg⟩

/-- Calls that are not in order: `stop` and `start` while a retry timer waits, whose callback
finds the second attempt; `start` after an attempt that succeeded when it had been stopped;
`connect` after the connection was closed. -/
theorem start_asserts :
    let addTime : Timestamp → ℚ → Timestamp := fun now x => now + ⌊x * 1000000⌋
    let a : Answers := ⟨7, EINPROGRESS, 0, false, 1, 1, 2⟩
    let a' : Answers := ⟨8, EINPROGRESS, 0, false, 1, 1, 2⟩
    let retrying : List Label := [.clientConnect a, .handleEvent Channel.POLLERR a',
      .resetChannel, .clientStop 5, .clientConnect ⟨7, EINPROGRESS, 0, false, 2, 6, 7⟩,
      .timers (.handleRead 600000 true)]
    let stopped : List Label :=
      [.clientConnect a, .clientStop 3, .handleEvent Channel.POLLOUT a', .resetChannel]
    let closed : List Label :=
      [.clientConnect a, .handleEvent Channel.POLLOUT a', .resetChannel, .removeConnection a]
    (∃ s, Run (machine addTime) start retrying s ∧
      (machine addTime).enabled s (.runTimer ⟨8, 0, 0, false, 3, 8, 9⟩) ∧
      (machine addTime).fault s (.runTimer ⟨8, 0, 0, false, 3, 8, 9⟩) = some .assertion) ∧
    (∃ s, Run (machine addTime) start stopped s ∧
      (machine addTime).enabled s (.clientConnect a) ∧
      (machine addTime).fault s (.clientConnect a) = some .assertion) ∧
    ∃ s, Run (machine addTime) start closed s ∧
      (machine addTime).enabled s (.clientConnect a) ∧
      (machine addTime).fault s (.clientConnect a) = some .assertion := by
  intro addTime a a' retrying stopped closed
  refine ⟨?_, ?_, ?_⟩
  · exact exists_run_of_exec _ (by decide +kernel)
  · exact exists_run_of_exec _ (by decide +kernel)
  · exact exists_run_of_exec _ (by decide +kernel)

end MuduoNet.ConnectorLoop
