import MuduoNet.Connector.Orderly

/-!
# The delay before the next attempt

Each retry doubles `retryDelayMs_`, up to a maximum, and only `restart` sets it back: not `start`,
and not a connection that comes up. So the delay of a retry timer is known from the number of
retries since the last restart.
-/
namespace MuduoNet.ConnectorLoop

open Lib Lib.Outcome Connector TimerQueue

/-- The delay of the retry after `n` retries, in milliseconds. -/
def backoff (n : Nat) : Nat := min (kInitRetryDelayMs * 2 ^ n) kMaxRetryDelayMs

theorem backoff_zero : backoff 0 = kInitRetryDelayMs := rfl

theorem backoff_succ (n : Nat) : backoff (n + 1) = min (backoff n * 2) kMaxRetryDelayMs := by
  unfold backoff kInitRetryDelayMs kMaxRetryDelayMs
  rw [pow_succ]
  omega

/-- What the system answers in the step. -/
def Label.answers : Label → Option Answers
  | .start a | .restart a | .clientConnect a | .destroyTcpClient a | .removeConnection a
  | .handleEvent _ a | .runTimer a => some a
  | .stop _ | .disconnect | .clientStop _ | .enableRetry | .resetChannel | .handleReadEnd _
  | .timers _ => none

/-- The step calls `restart`. -/
def Restarts (s : ConnectorLoop) : Label → Prop
  | .restart _ => True
  | .removeConnection _ => s.retry_ = true ∧ s.connect_ = true
  | _ => False

instance (s : ConnectorLoop) (l : Label) : Decidable (s.Restarts l) :=
  match l with
  | .restart _ => isTrue trivial
  | .removeConnection _ => inferInstanceAs (Decidable (s.retry_ = true ∧ s.connect_ = true))
  | .start _ | .stop _ | .clientConnect _ | .disconnect | .clientStop _ | .enableRetry
  | .destroyTcpClient _ | .handleEvent .. | .resetChannel | .runTimer _ | .handleReadEnd _
  | .timers _ => isFalse not_false

/-- The retries since the last restart, before the step makes one. -/
def retriesBefore (n : Nat) (s : ConnectorLoop) (l : Label) : Nat := if s.Restarts l then 0 else n

/-- A step has made a retry if it leaves a new timer for `startInLoop`. -/
def retriesAfter (addTime : Timestamp → ℚ → Timestamp) (n : Nat) (s : ConnectorLoop) (l : Label) :
    Nat :=
  match step addTime s l with
  | .ok t =>
    if ∃ p ∈ t.retryTimers, p ∉ s.retryTimers then retriesBefore n s l + 1
    else retriesBefore n s l
  | .error _ => retriesBefore n s l

/-- The retries since the last restart of the run. -/
def retries (addTime : Timestamp → ℚ → Timestamp) (ls : List Label) : Nat :=
  (machine addTime).track (retriesAfter addTime) 0 start ls

/-- No retry: the delay is `d`, and no new timer is to call `startInLoop`. -/
structure Kept (d : Nat) (s t : ConnectorLoop) : Prop where
  delay : t.connector.retryDelayMs_ = d
  waits : ∀ p, Waits t .startInLoop p → Waits s .startInLoop p

/-- A retry after the delay `d`, and the next one is to come after twice as long. -/
structure Doubled (addTime : Timestamp → ℚ → Timestamp) (a : Answers) (d : Nat)
    (s t : ConnectorLoop) : Prop where
  delay : t.connector.retryDelayMs_ = min (d * 2) kMaxRetryDelayMs
  fresh : s.timers.queue.heap a.timer = none
  waits : ∀ p, Waits t .startInLoop p → p = a.timer ∨ Waits s .startInLoop p
  timer : Waits t .startInLoop a.timer
  expires : (t.timers.queue.heap a.timer).map Timer.expiration_ = some (addTime a.now (d / 1000))

variable {addTime : Timestamp → ℚ → Timestamp} {s t u : ConnectorLoop} {a : Answers} {d : Nat}

/-- A retry timer is nowhere else than at its address. -/
theorem not_waits_of_fresh {c : TimerCallback} {p : TimerPtr}
    (h : s.timers.queue.heap p = none) : ¬ Waits s c p := by
  rintro ⟨_, ⟨τ, hτ⟩, _⟩
  rw [h] at hτ
  cases hτ

/-- Before a step, timers may have stopped to wait. -/
theorem Kept.from (h : Kept d u t)
    (hwaits : ∀ p, Waits u .startInLoop p → Waits s .startInLoop p) : Kept d s t :=
  ⟨h.delay, fun p hp => hwaits p (h.waits p hp)⟩

theorem Doubled.from (h : Doubled addTime a d u t)
    (hheap : u.timers.queue.heap = s.timers.queue.heap)
    (hwaits : ∀ p, Waits u .startInLoop p → Waits s .startInLoop p) : Doubled addTime a d s t :=
  ⟨h.delay, hheap ▸ h.fresh, fun p hp => (h.waits p hp).imp_right (hwaits p), h.timer, h.expires⟩

/-- Nothing that a retry timer depends on is different. -/
theorem Kept.of_eq (hdelay : t.connector.retryDelayMs_ = d) (htimers : t.timers = s.timers)
    (hcallback : t.callback = s.callback) : Kept d s t := by
  refine ⟨hdelay, ?_⟩
  rintro p ⟨hc, hw⟩
  exact ⟨hcallback ▸ hc, htimers ▸ hw⟩

/-- What a function that may retry has done with the delay and the timers. -/
def Paced (addTime : Timestamp → ℚ → Timestamp) (a : Answers) (d : Nat) (s t : ConnectorLoop) :
    Prop :=
  Kept d s t ∨ Doubled addTime a d s t

theorem Paced.from (h : Paced addTime a d u t)
    (hheap : u.timers.queue.heap = s.timers.queue.heap)
    (hwaits : ∀ p, Waits u .startInLoop p → Waits s .startInLoop p) : Paced addTime a d s t :=
  h.imp (fun h => h.from hwaits) (fun h => h.from hheap hwaits)

theorem Timed.retried_paced (h : Timed s) (hcalls : s.timers.Calls) (hp : s.timers.Fresh a.timer)
    {socket : Socket} (ht : Retried addTime s socket a t) :
    Paced addTime a s.connector.retryDelayMs_ s t := by
  obtain ⟨_, _, hwaits⟩ := h.retried hcalls hp ht
  cases ht with
  | silent _ => exact .inl (.of_eq rfl rfl rfl)
  | @scheduled _ timers hadd =>
    obtain ⟨hheap, hbatch, _⟩ := TimerLoop.addTimer_kept h.inv hp hadd
    have hnew := congrFun hheap a.timer
    rw [TimerQueue.newTimer, heap_setTimer_self] at hnew
    refine .inr ⟨rfl, hp.2.2, ?_, ⟨Function.update_self .., ⟨_, hnew⟩, ?_⟩, ?_⟩
    · intro p hw
      exact (hwaits _ p hw).imp_left And.right
    · -- the timers of the running batch are alive, and the new one was not
      intro b hb hran
      have hb' : s.timers.batch = some b := hbatch ▸ hb
      obtain ⟨τ, hτ⟩ := h.inv.owned.alive a.timer (List.mem_append_right _ (by
        rw [TimerLoop.expiring_some hb', Batch.expired, pointers_append]
        exact List.mem_append_left _ hran))
      rw [hp.2.2] at hτ
      cases hτ
    · show (timers.queue.heap a.timer).map Timer.expiration_ = _
      rw [hnew]
      rfl

theorem Timed.attempted_paced (h : Timed s) (hcalls : s.timers.Calls)
    (hp : s.timers.Fresh a.timer) (ht : Attempted addTime s a t) :
    Paced addTime a s.connector.retryDelayMs_ s t := by
  cases ht with
  | none _ => exact .inl (.of_eq rfl rfl rfl)
  | began _ _ => exact .inl (.of_eq rfl rfl rfl)
  | refused _ ht =>
    have hcreated : Timed (s.create a.sockfd).2 := h.congr rfl rfl rfl
    exact (hcreated.retried_paced hcalls hp ht).from rfl fun _ hw => hw
  | abandoned _ => exact .inl (.of_eq rfl rfl rfl)

theorem Timed.ended_paced (h : Timed s) (hcalls : s.timers.Calls) (hp : s.timers.Fresh a.timer)
    (ht : Ended addTime s a t) : Paced addTime a s.connector.retryDelayMs_ s t := by
  cases ht with
  | ignored => exact .inl (.of_eq rfl rfl rfl)
  | @failed socket _ _ _ ht =>
    have htaken : Timed (s.taken socket) := h.congr rfl rfl rfl
    exact (htaken.retried_paced hcalls hp ht).from rfl fun _ hw => hw
  | passed _ _ _ _ => exact .inl (.of_eq rfl rfl rfl)
  | closed _ _ _ => exact .inl (.of_eq rfl rfl rfl)

theorem Timed.restart_paced (h : Timed s) (hcalls : s.timers.Calls) (hp : s.timers.Fresh a.timer)
    (hs : s.restart addTime a = .ok t) : Paced addTime a kInitRetryDelayMs s t := by
  have hflags : Timed { s.setState .kDisconnected with
      connector := { (s.setState .kDisconnected).connector with
        retryDelayMs_ := kInitRetryDelayMs, connect_ := true } } := h.congr rfl rfl rfl
  exact (hflags.attempted_paced hcalls hp (startInLoop_ok hs).2).from rfl fun _ hw => hw

/-- The delay that a retry of the step would use. -/
def delayBefore (s : ConnectorLoop) (l : Label) : Nat :=
  if s.Restarts l then kInitRetryDelayMs else s.connector.retryDelayMs_

/-- Each step keeps the delay, or it makes one retry. -/
theorem step_paced (h : Timed s) {l : Label} (he : (machine addTime).enabled s l)
    (hs : (machine addTime).step s l = .ok t) :
    Kept (s.delayBefore l) s t ∨
      ∃ a, l.answers = some a ∧ Doubled addTime a (s.delayBefore l) s t := by
  have hpaced : ∀ {a : Answers} {d : Nat}, l.answers = some a → s.delayBefore l = d →
      Paced addTime a d s t → Kept (s.delayBefore l) s t ∨
        ∃ a, l.answers = some a ∧ Doubled addTime a (s.delayBefore l) s t := by
    rintro a d ha rfl hpaced
    exact hpaced.imp_right fun hdoubled => ⟨a, ha, hdoubled⟩
  have hsame : ∀ {timers : TimerLoop}, timers.queue.heap = s.timers.queue.heap →
      timers.batch = s.timers.batch → ∀ p, Waits { s with timers } .startInLoop p →
      Waits s .startInLoop p := by
    rintro timers hheap hbatch p ⟨hc, hw⟩
    exact ⟨hc, (TimerLoop.waits_congr hheap hbatch).mp hw⟩
  cases l with
  | start a =>
    have hflag : Timed (s.setConnect true) := h.congr rfl rfl rfl
    refine hpaced rfl (if_neg not_false) ?_
    exact (hflag.attempted_paced he.1.1 he.2.1 (startInLoop_ok hs).2).from rfl fun _ hw => hw
  | stop now =>
    obtain ⟨timers, rfl, _, hheap, hbatch⟩ := h.stop he.1 hs
    exact .inl ⟨rfl, fun p hp => hsame hheap hbatch p hp⟩
  | restart a =>
    have hforgotten : Timed s.forget := h.congr rfl rfl rfl
    refine hpaced rfl (if_pos trivial) ?_
    exact (hforgotten.restart_paced he.1.1 he.2.1 hs).from rfl fun _ hw => hw
  | clientConnect a =>
    have hflags : Timed ({ s with connect_ := true }.setConnect true) := h.congr rfl rfl rfl
    refine hpaced rfl (if_neg not_false) ?_
    exact (hflags.attempted_paced he.1.1 he.2.1 (startInLoop_ok hs).2).from rfl fun _ hw => hw
  | disconnect =>
    cases hs
    exact .inl (.of_eq rfl rfl rfl)
  | clientStop now =>
    have hflag : Timed { s with connect_ := false } := h.congr rfl rfl rfl
    obtain ⟨timers, rfl, _, hheap, hbatch⟩ := hflag.stop he.1 hs
    exact .inl ⟨rfl, fun p hp => hsame hheap hbatch p hp⟩
  | enableRetry =>
    cases hs
    exact .inl (.of_eq rfl rfl rfl)
  | destroyTcpClient a =>
    obtain ⟨_, rfl, _, _, hwaits⟩ := h.destroyTcpClient he.1.1 he.2.2.1 hs
    refine .inl ⟨rfl, ?_⟩
    intro p hp
    exact (hwaits _ p hp).resolve_left (by simp)
  | removeConnection a =>
    obtain ⟨hb, _, _, _, ha⟩ := he
    obtain ⟨hflags, hs⟩ | ⟨hflags, rfl⟩ := removeConnection_ok hs
    · have hforgotten : Timed { s with connection_ := .closed }.forget := h.congr rfl rfl rfl
      refine hpaced rfl (if_pos hflags) ?_
      exact (hforgotten.restart_paced (TimerLoop.calls_of_idle hb) ha.1 hs).from rfl fun _ hw => hw
    · exact .inl (.of_eq (if_neg hflags).symm rfl rfl)
  | handleEvent revents a =>
    refine hpaced rfl (if_neg not_false) ?_
    exact h.ended_paced (TimerLoop.calls_of_idle he.1) he.2.2.1 (handleEvent_ok hs)
  | resetChannel =>
    obtain ⟨_, rfl⟩ := resetChannel_ok hs
    exact .inl (.of_eq rfl rfl rfl)
  | runTimer a =>
    obtain ⟨timers, htimed, hcalls, hheap, hwaits, rfl | ⟨_, hs⟩⟩ := h.ran he.1 hs
    · exact .inl ⟨rfl, fun p => hwaits _ p (by decide)⟩
    · have hfresh : timers.Fresh a.timer := ⟨he.2.1.1, he.2.1.2.1, by rw [hheap]; exact he.2.1.2.2⟩
      refine hpaced rfl (if_neg not_false) ?_
      exact (htimed.attempted_paced hcalls hfresh (startInLoop_ok hs).2).from hheap
        fun p => hwaits _ p (by decide)
  | handleReadEnd now =>
    obtain ⟨_, hwaits⟩ := h.readEnd he hs
    refine .inl ⟨?_, fun p => hwaits _ p (by decide)⟩
    obtain ⟨timers, callback, timerId, _, rfl⟩ | ⟨_, _, timers, rfl⟩ := handleReadEnd_ok hs
    · rfl
    · rfl
  | timers l =>
    obtain ⟨timers, hstep, _, hwaits⟩ := h.timersStep he.1 he.2
    obtain rfl := Except.ok.inj (hstep.symm.trans hs)
    exact .inl ⟨rfl, fun p => hwaits _ p (by decide)⟩

/-- The delay after `n` retries since the last restart. -/
structure BacksOff (s : ConnectorLoop) (n : Nat) : Prop where
  timed : Timed s
  delay : s.connector.retryDelayMs_ = backoff n

theorem BacksOff.delayBefore {n : Nat} (h : BacksOff s n) (l : Label) :
    s.delayBefore l = backoff (retriesBefore n s l) := by
  unfold ConnectorLoop.delayBefore retriesBefore
  split
  · exact backoff_zero.symm
  · exact h.delay

theorem Kept.no_retry (h : Kept d s t) (hs : Timed s) (ht : Timed t) :
    ¬ ∃ p ∈ t.retryTimers, p ∉ s.retryTimers := by
  rintro ⟨p, hp, hnew⟩
  exact hnew (hs.mem_retryTimers (h.waits p (ht.waits_of_mem hp)))

theorem Doubled.retry (h : Doubled addTime a d s t) (hs : Timed s) (ht : Timed t) :
    ∃ p ∈ t.retryTimers, p ∉ s.retryTimers :=
  ⟨a.timer, ht.mem_retryTimers h.timer,
    fun hp => not_waits_of_fresh h.fresh (hs.waits_of_mem hp)⟩

theorem BacksOff.step {n : Nat} (h : BacksOff s n) {l : Label}
    (he : (machine addTime).enabled s l) (hs : (machine addTime).step s l = .ok t) :
    BacksOff t (retriesAfter addTime n s l) := by
  have htimed := step_timed h.timed he hs
  have hok : ConnectorLoop.step addTime s l = .ok t := hs
  refine ⟨htimed, ?_⟩
  unfold retriesAfter
  rw [hok]
  dsimp only
  obtain hkept | ⟨a, _, hdoubled⟩ := step_paced h.timed he hs
  · rw [if_neg (hkept.no_retry h.timed htimed), hkept.delay, h.delayBefore]
  · rw [if_pos (hdoubled.retry h.timed htimed), hdoubled.delay, h.delayBefore, backoff_succ]

theorem run_backsOff {ls : List Label} (hr : Run (machine addTime) start ls s) :
    BacksOff s (retries addTime ls) :=
  hr.tracks (fun _ _ _ _ h he hs => h.step he hs) ⟨timed_start, rfl⟩

/-- Whatever has happened, the first retry after a restart is made after half a second, each
further one after twice the delay of the one before, and none after more than half a minute. The
timer is the one that the step allocates, and no step makes two retries. -/
theorem retries_back_off {ls : List Label} (hr : Run (machine addTime) start ls s) {l : Label}
    (he : (machine addTime).enabled s l) (hs : (machine addTime).step s l = .ok t)
    {p : TimerPtr} (hp : p ∈ t.retryTimers) (hnew : p ∉ s.retryTimers) :
    ∃ a, l.answers = some a ∧ p = a.timer ∧ (t.timers.queue.heap p).map Timer.expiration_ =
      some (addTime a.now (backoff (retriesBefore (retries addTime ls) s l) / 1000)) := by
  have h := run_backsOff hr
  have htimed := step_timed h.timed he hs
  obtain hkept | ⟨a, ha, hdoubled⟩ := step_paced h.timed he hs
  · exact absurd ⟨p, hp, hnew⟩ (hkept.no_retry h.timed htimed)
  · obtain rfl | hold := hdoubled.waits p (htimed.waits_of_mem hp)
    · exact ⟨a, ha, rfl, by rw [hdoubled.expires, h.delayBefore]⟩
    · exact absurd (h.timed.mem_retryTimers hold) hnew

/-- A server that refuses the third attempt as well. -/
theorem retries_back_off_run :
    let addTime : Timestamp → ℚ → Timestamp := fun now x => now + ⌊x * 1000000⌋
    let ls : List Label := [.clientConnect ⟨7, ECONNREFUSED, 0, false, 1, 1, 2⟩,
      .timers (.handleRead 500001 true), .runTimer ⟨7, ECONNREFUSED, 0, false, 2, 500002, 500003⟩,
      .handleReadEnd 500004, .timers (.handleRead 1500002 true)]
    let l : Label := .runTimer ⟨7, ECONNREFUSED, 0, false, 3, 1500003, 1500004⟩
    ∃ s t, Run (machine addTime) start ls s ∧ (machine addTime).step s l = .ok t ∧
      3 ∈ t.retryTimers ∧ (t.timers.queue.heap 3).map Timer.expiration_ = some 3500003 := by
  intro addTime ls l
  have hex : ∃ s, Run (machine addTime) start ls s ∧ 3 ∉ s.retryTimers :=
    exists_run_of_exec _ (by decide +kernel)
  obtain ⟨s, hr, hnew⟩ := hex
  have hex : ∃ t, Run (machine addTime) start (ls ++ [l]) t ∧ 3 ∈ t.retryTimers :=
    exists_run_of_exec _ (by decide +kernel)
  obtain ⟨t, hrun, hp⟩ := hex
  obtain ⟨s', hs', hlast⟩ := hrun.split
  obtain rfl := hr.unique hs'
  cases hlast with
  | cons he hs hnil =>
    cases hnil
    obtain ⟨a, ha, _, hexpires⟩ := retries_back_off hr he hs hp hnew
    obtain rfl := Option.some.inj ha
    have hcount : retriesBefore (retries addTime ls) s l = 2 := by
      have hretries : retries addTime ls = 2 := by decide +kernel
      rw [hretries]
      rfl
    have hdelay : addTime 1500003 ((backoff 2 : Nat) / 1000) = 3500003 := by decide +kernel
    rw [hcount, hdelay] at hexpires
    exact ⟨s, t, hr, hs, hp, hexpires⟩

end MuduoNet.ConnectorLoop
