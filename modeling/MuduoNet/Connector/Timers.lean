import MuduoNet.Connector.Steps
import MuduoNet.Timer.OneShot

/-!
# The timers of a connector

A timer whose callback is not the user's was added by the connector or its client, with `runAfter`
and in the loop thread. So it runs once, and a functor never holds it. No cancel finds its timer,
and the callback runs whatever has been cancelled.
-/
namespace MuduoNet.ConnectorLoop

open Lib Lib.Outcome Function Connector TimerQueue
open TimerLoop (Handle Handled OneShots handled_step cancel_kept addTimer_kept waits_congr withHandles)

structure Timed (s : ConnectorLoop) : Prop where
  inv : s.timers.Inv
  handled : Handled s.timers
  handle : Handle s.connector.timerId_
  oneShots : OneShots (fun p => s.callback p ≠ .user) s.timers

/-- The callback `c` of the timer at `p` is still to come. -/
def Waits (s : ConnectorLoop) (c : TimerCallback) (p : TimerPtr) : Prop :=
  s.callback p = c ∧ s.timers.Waits p

variable {addTime : Timestamp → ℚ → Timestamp} {s t : ConnectorLoop} {a : Answers}

theorem timed_start : Timed start := by
  refine ⟨TimerLoop.inv_start, TimerLoop.handled_start, rfl, ?_, ?_⟩
  · intro p τ _ hp
    exact absurd rfl hp
  · intro p _ hp
    exact absurd rfl hp

theorem Timed.congr (h : Timed s) (htimers : t.timers = s.timers)
    (hcallback : t.callback = s.callback)
    (htimerId : t.connector.timerId_ = s.connector.timerId_) : Timed t := by
  refine ⟨?_, ?_, ?_, ?_⟩
  · rw [htimers]
    exact h.inv
  · rw [htimers]
    exact h.handled
  · rw [htimerId]
    exact h.handle
  · rw [htimers, hcallback]
    exact h.oneShots

/-- The cancel of the connector's timer misses it. -/
theorem Timed.cancel (h : Timed s) (hcalls : s.timers.Calls) (now : Timestamp) :
    ∃ timers, s.cancel now = .ok { s with timers } ∧ Timed { s with timers } ∧
      timers.queue.heap = s.timers.queue.heap ∧ timers.batch = s.timers.batch := by
  have he : (withHandles fun now _ => now).enabled s.timers
      (.cancel true s.connector.timerId_ now) := ⟨fun _ => hcalls, h.handle⟩
  obtain ⟨timers, htimers, hinv, hhandled⟩ := handled_step h.inv h.handled he
  have hcancel : s.timers.cancel true s.connector.timerId_ now = .ok timers := htimers
  obtain ⟨hheap, hbatch, hqueued⟩ := cancel_kept h.inv h.handle hcancel
  refine ⟨timers, ?_, ⟨hinv, hhandled, h.handle, h.oneShots.congr hheap hqueued⟩, hheap, hbatch⟩
  unfold ConnectorLoop.cancel
  rw [hcancel]
  rfl

variable (addTime) in
/-- `runAfter` adds one timer that waits. -/
theorem Timed.runAfter (h : Timed s) (hcalls : s.timers.Calls) (hp : s.timers.Fresh a.timer)
    (delay : ℚ) (cb : TimerCallback) :
    ∃ timers, s.timers.addTimer true a.timer (addTime a.now delay) 0 a.now' = .ok timers ∧
      timers.batch = s.timers.batch ∧
      (∀ p, p ≠ a.timer → timers.queue.heap p = s.timers.queue.heap p) ∧
      ∀ timerId, Handle timerId → Timed { s with
        timers, callback := update s.callback a.timer cb
        connector := { s.connector with timerId_ := timerId } } := by
  have he : (withHandles addTime).enabled s.timers
      (.addTimer true a.timer (addTime a.now delay) 0 a.now') := ⟨⟨fun _ => hcalls, hp⟩, trivial⟩
  obtain ⟨timers, htimers, hinv, hhandled⟩ := handled_step h.inv h.handled he
  have hadd : s.timers.addTimer true a.timer (addTime a.now delay) 0 a.now' = .ok timers := htimers
  obtain ⟨hheap, hbatch, hqueued⟩ := addTimer_kept h.inv hp hadd
  have hother : ∀ p, p ≠ a.timer → timers.queue.heap p = s.timers.queue.heap p := by
    intro p hne
    rw [hheap]
    exact heap_setTimer_ne _ _ hne
  have hnew : timers.queue.heap a.timer =
      some (.new (addTime a.now delay) 0 (s.timers.queue.numCreated + 1)) := by
    rw [hheap]
    exact heap_setTimer_self _ _ _
  have honce : OneShots (fun p => update s.callback a.timer cb p ≠ .user) timers := by
    constructor
    · intro p τ hτ hm
      by_cases hne : p = a.timer
      · subst hne
        obtain rfl := Option.some.inj (hnew.symm.trans hτ)
        have hinterval : ¬(1 : ℚ) < 0 := by norm_num
        exact decide_eq_false hinterval
      · rw [update_of_ne hne] at hm
        exact h.oneShots.once p τ ((hother p hne).symm.trans hτ) hm
    · intro p hqueue
      obtain hold | ⟨hthread, _⟩ := hqueued p hqueue
      · have hne : p ≠ a.timer := by
          rintro rfl
          obtain ⟨τ, hτ⟩ := h.inv.owned.alive _ (List.mem_append_left _ hold)
          rw [hp.2.2] at hτ
          cases hτ
        rw [update_of_ne hne]
        exact h.oneShots.queued p hold
      · cases hthread
  exact ⟨timers, hadd, hbatch, hother, fun timerId hid => ⟨hinv, hhandled, hid, honce⟩⟩

/-- A timer that waits after `runAfter` is the new one or waited before. -/
theorem waits_runAfter {cb c : TimerCallback} {timers : TimerLoop} {p : TimerPtr}
    (hbatch : timers.batch = s.timers.batch)
    (hother : ∀ p, p ≠ a.timer → timers.queue.heap p = s.timers.queue.heap p)
    (hcallback : t.callback = update s.callback a.timer cb) (htimers : t.timers = timers)
    (h : Waits t c p) : (c = cb ∧ p = a.timer) ∨ Waits s c p := by
  obtain ⟨hc, halive, hran⟩ := h
  rw [hcallback] at hc
  rw [htimers] at halive hran
  by_cases hp : p = a.timer
  · rw [hp, update_self] at hc
    exact .inl ⟨hc.symm, hp⟩
  · rw [update_of_ne hp] at hc
    rw [hother p hp] at halive
    rw [hbatch] at hran
    exact .inr ⟨hc, halive, hran⟩

/-- The steps that are not the connector's. -/
theorem Timed.timersStep (h : Timed s) {l : TimerLoop.Label} (ho : Other l)
    (he : (withHandles addTime).enabled s.timers l) :
    ∃ timers, s.timersStep addTime l = .ok { s with timers, callback := s.callbackAfter l } ∧
      Timed { s with timers, callback := s.callbackAfter l } ∧
      ∀ c p, c ≠ .user →
        Waits { s with timers, callback := s.callbackAfter l } c p → Waits s c p := by
  obtain ⟨timers, htimers, hinv, hhandled⟩ := handled_step h.inv h.handled he
  have hstep : s.timersStep addTime l =
      .ok { s with timers, callback := s.callbackAfter l } := by
    unfold ConnectorLoop.timersStep
    rw [htimers]
    rfl
  refine ⟨timers, hstep, ?_⟩
  by_cases hl : ∀ b p w x now, l ≠ .addTimer b p w x now
  · have hcallback : s.callbackAfter l = s.callback := by
      cases l with
      | addTimer b p w x now => exact absurd rfl (hl b p w x now)
      | cancel | doPendingFunctors | runFunctor | handleRead | runTimer | handleReadEnd => rfl
    obtain ⟨honce, hwaits⟩ := h.oneShots.step h.inv h.handled hl he htimers
    rw [hcallback]
    refine ⟨⟨hinv, hhandled, h.handle, honce⟩, ?_⟩
    rintro c p hc ⟨hcb, hp⟩
    exact ⟨hcb, hwaits p (by rw [hcb]; exact hc) hp⟩
  · push Not at hl
    obtain ⟨b, p', w, x, now, rfl⟩ := hl
    obtain ⟨⟨_, hp'⟩, _⟩ := he
    obtain ⟨hheap, hbatch, hqueued⟩ := addTimer_kept h.inv hp' htimers
    have hmark : ∀ p, update s.callback p' .user p ≠ .user →
        p ≠ p' ∧ s.callback p ≠ .user ∧ timers.queue.heap p = s.timers.queue.heap p := by
      intro p hp
      have hne : p ≠ p' := by
        rintro rfl
        exact hp (update_self _ _ _)
      rw [update_of_ne hne] at hp
      refine ⟨hne, hp, ?_⟩
      rw [hheap]
      exact heap_setTimer_ne _ _ hne
    refine ⟨⟨hinv, hhandled, h.handle, ?_, ?_⟩, ?_⟩
    · intro p τ hτ hm
      obtain ⟨_, hold, hsame⟩ := hmark p hm
      exact h.oneShots.once p τ (hsame.symm.trans hτ) hold
    · intro p hqueue hm
      obtain ⟨hne, hold, _⟩ := hmark p hm
      obtain hq | ⟨_, hq⟩ := hqueued p hqueue
      · exact h.oneShots.queued p hq hold
      · exact hne hq
    · rintro c p hc ⟨hcb, halive, hran⟩
      have hcb' : update s.callback p' .user p = c := hcb
      obtain ⟨hne, _, hsame⟩ := hmark p (by rw [hcb']; exact hc)
      rw [update_of_ne hne] at hcb'
      exact ⟨hcb', hsame ▸ halive, hbatch ▸ hran⟩

variable {k : Socket}

theorem Timed.retry (h : Timed s) (hcalls : s.timers.Calls) (hp : s.timers.Fresh a.timer)
    (addTime : Timestamp → ℚ → Timestamp) (k : Socket) : ∃ t, s.retry addTime k a = .ok t := by
  unfold ConnectorLoop.retry
  dsimp only
  split
  · obtain ⟨timers, hadd, _⟩ := h.runAfter addTime hcalls hp
      (((s.close k).setState .kDisconnected).connector.retryDelayMs_ / 1000) .startInLoop
    have hrun : ((s.close k).setState .kDisconnected).runAfter addTime
        (((s.close k).setState .kDisconnected).connector.retryDelayMs_ / 1000) .startInLoop a =
        .ok (timerId a.timer, { (s.close k).setState .kDisconnected with
          timers, callback := update s.callback a.timer .startInLoop }) := by
      unfold ConnectorLoop.runAfter
      show (s.timers.addTimer true a.timer _ 0 a.now' >>= _) = _
      rw [hadd]
      rfl
    rw [hrun]
    exact ⟨_, rfl⟩
  · exact ⟨_, rfl⟩

theorem Timed.retried (h : Timed s) (hcalls : s.timers.Calls) (hp : s.timers.Fresh a.timer)
    (ht : Retried addTime s k a t) : Timed t ∧ t.timers.batch = s.timers.batch ∧
      ∀ c p, Waits t c p → (c = .startInLoop ∧ p = a.timer) ∨ Waits s c p := by
  cases ht with
  | silent _ => exact ⟨h.congr rfl rfl rfl, rfl, fun c p hw => .inr hw⟩
  | scheduled _ hadd =>
    obtain ⟨timers, hadd', hbatch, hother, htimed⟩ := h.runAfter addTime hcalls hp
      (s.connector.retryDelayMs_ / 1000) .startInLoop
    obtain rfl := Except.ok.inj (hadd'.symm.trans hadd)
    refine ⟨(htimed (timerId a.timer) rfl).congr rfl rfl rfl, hbatch, ?_⟩
    intro c p hw
    exact waits_runAfter hbatch hother rfl rfl hw

/-- A timer that is taken to run waits; afterwards it does not. -/
theorem Timed.runTimer (h : Timed s) {now : Timestamp} {ran rest : List Entry} {it : Entry}
    (hb : s.timers.batch = some ⟨now, ran, it :: rest⟩) :
    ∃ timers, s.timers.runTimer = .ok timers ∧ timers.Calls ∧
      timers.queue.heap = s.timers.queue.heap ∧ Timed { s with timers } ∧
      s.timers.Waits (ofLex it).2 ∧ ¬ timers.Waits (ofLex it).2 ∧
      ∀ c p, c ≠ .user → Waits { s with timers } c p → Waits s c p := by
  have he : (withHandles fun now _ => now).enabled s.timers .runTimer :=
    ⟨⟨_, hb, List.cons_ne_nil _ _⟩, trivial⟩
  obtain ⟨timers, htimers, hinv, hhandled⟩ := handled_step h.inv h.handled he
  have hrun : s.timers.runTimer = .ok timers := htimers
  obtain ⟨honce, hwaits⟩ := h.oneShots.step h.inv h.handled (by intros; nofun) he htimers
  obtain ⟨hbefore, hafter⟩ := TimerLoop.runTimer_waits h.inv hb hrun
  obtain ⟨τ, _, hok, _⟩ := h.inv.runTimer hb
  obtain rfl := Except.ok.inj (hok.symm.trans hrun)
  refine ⟨_, hrun, ?_, rfl, ⟨hinv, hhandled, h.handle, honce⟩, hbefore, hafter, ?_⟩
  · intro b hb'
    obtain rfl := Option.some.inj hb'
    exact List.append_ne_nil_of_right_ne_nil _ (List.cons_ne_nil _ _)
  · rintro c p hc ⟨hcb, hw⟩
    have hcb' : s.callback p = c := hcb
    exact ⟨hcb', hwaits p (by rw [hcb']; exact hc) hw⟩

theorem Timed.handleReadEnd (h : Timed s) {b : Batch} (hb : s.timers.batch = some b)
    (hrest : b.rest = []) (addTime : Timestamp → ℚ → Timestamp) (now : Timestamp) :
    ∃ timers, s.timers.handleReadEnd addTime now = .ok timers ∧ timers.batch = none ∧
      Timed { s with timers } ∧
      (∀ p ∈ pointers b.expired, s.callback p ≠ .user → timers.queue.heap p = none) ∧
      ∀ c p, c ≠ .user → Waits { s with timers } c p → Waits s c p := by
  have he : (withHandles addTime).enabled s.timers (.handleReadEnd now) :=
    ⟨⟨_, hb, hrest⟩, trivial⟩
  obtain ⟨timers, htimers, hinv, hhandled⟩ := handled_step h.inv h.handled he
  have hend : s.timers.handleReadEnd addTime now = .ok timers := htimers
  obtain ⟨honce, hwaits⟩ := h.oneShots.step h.inv h.handled (by intros; nofun) he htimers
  obtain ⟨q, hok, _⟩ := h.inv.handleReadEnd addTime hb now
  refine ⟨timers, hend, ?_, ⟨hinv, hhandled, h.handle, honce⟩, ?_, ?_⟩
  · obtain rfl := Except.ok.inj (hok.symm.trans hend)
    rfl
  · intro p hp hm
    exact h.oneShots.deleted h.inv hb hend hp hm
  · rintro c p hc ⟨hcb, hw⟩
    have hcb' : s.callback p = c := hcb
    exact ⟨hcb', hwaits p (by rw [hcb']; exact hc) hw⟩

theorem Timed.attempted (h : Timed s) (hcalls : s.timers.Calls) (hp : s.timers.Fresh a.timer)
    (ht : Attempted addTime s a t) : Timed t := by
  cases ht with
  | none _ => exact h
  | began _ _ => exact h.congr rfl rfl rfl
  | abandoned _ => exact h.congr rfl rfl rfl
  | refused _ ht =>
    have hcreated : Timed (s.create a.sockfd).2 := h.congr rfl rfl rfl
    exact (hcreated.retried hcalls hp ht).1

theorem Timed.ended (h : Timed s) (hcalls : s.timers.Calls) (hp : s.timers.Fresh a.timer)
    (ht : Ended addTime s a t) : Timed t := by
  cases ht with
  | ignored => exact h
  | @failed k _ _ _ ht =>
    have htaken : Timed (s.taken k) := h.congr rfl rfl rfl
    exact (htaken.retried hcalls hp ht).1
  | passed _ _ _ _ => exact h.congr rfl rfl rfl
  | closed _ _ _ => exact h.congr rfl rfl rfl

/-- `stop` leaves the timers that wait. -/
theorem Timed.stop (h : Timed s) (hcalls : s.timers.Calls) {now : Timestamp}
    (hs : s.stop now = .ok t) : ∃ timers, t = { s.setConnect false with timers } ∧ Timed t ∧
      timers.queue.heap = s.timers.queue.heap ∧ timers.batch = s.timers.batch := by
  have hflag : Timed (s.setConnect false) := h.congr rfl rfl rfl
  obtain ⟨timers, hcancel, htimed, hheap, hbatch⟩ := hflag.cancel hcalls now
  obtain rfl := Except.ok.inj (hcancel.symm.trans hs)
  exact ⟨timers, rfl, htimed, hheap, hbatch⟩

/-- `~TcpClient` adds the timer that holds the connector, and no other. -/
theorem Timed.destroyTcpClient (h : Timed s) (hcalls : s.timers.Calls)
    (hp : s.timers.Fresh a.timer) (hs : s.destroyTcpClient addTime a = .ok t) :
    ∃ timers, t = { s.setConnect false with
        timers, callback := update s.callback a.timer .removeConnector, client := false } ∧
      Timed t ∧ timers.batch = s.timers.batch ∧
      ∀ c p, Waits t c p → (c = .removeConnector ∧ p = a.timer) ∨ Waits s c p := by
  obtain ⟨u, hstop, hs⟩ := bind_eq_ok hs
  obtain ⟨timers, rfl, htimed, hheap, hbatch⟩ := h.stop hcalls hstop
  obtain ⟨r, hrun, hs⟩ := bind_eq_ok hs
  obtain ⟨timers', hadd, rfl⟩ := runAfter_ok hrun
  have hcalls' : timers.Calls := by
    unfold TimerLoop.Calls
    rw [hbatch]
    exact hcalls
  have hfresh : timers.Fresh a.timer := ⟨hp.1, hp.2.1, by rw [hheap]; exact hp.2.2⟩
  obtain ⟨timers'', hadd', hbatch', hother, hadded⟩ :=
    htimed.runAfter addTime hcalls' hfresh 1 .removeConnector
  obtain rfl := Except.ok.inj (hadd'.symm.trans hadd)
  obtain rfl := Except.ok.inj hs
  refine ⟨timers'', rfl, (hadded s.connector.timerId_ h.handle).congr rfl rfl rfl,
    hbatch'.trans hbatch, ?_⟩
  intro c p hw
  refine (waits_runAfter hbatch' hother rfl rfl hw).imp_right ?_
  rintro ⟨hcallback, hw⟩
  exact ⟨hcallback, (TimerLoop.waits_congr hheap hbatch).mp hw⟩

/-- The end of a batch, with that of the connector if its last pointer goes with a timer. -/
theorem Timed.readEnd (h : Timed s) (he : ∃ b ∈ s.timers.batch, b.rest = []) {now : Timestamp}
    (hs : s.handleReadEnd addTime now = .ok t) :
    Timed t ∧ ∀ c p, c ≠ .user → Waits t c p → Waits s c p := by
  obtain ⟨b, hb, hrest⟩ := he
  obtain ⟨timers, hend, hbatch, htimed, _, hwaits⟩ := h.handleReadEnd hb hrest addTime now
  unfold ConnectorLoop.handleReadEnd at hs
  rw [hend, ok_bind] at hs
  split at hs
  · obtain ⟨_, hs⟩ := demand_bind_eq_ok hs
    obtain ⟨u, hcancel, hs⟩ := bind_eq_ok hs
    obtain ⟨_, hs⟩ := demand_bind_eq_ok hs
    obtain rfl := Except.ok.inj hs
    obtain ⟨timers', hok, htimed', hheap, hsame⟩ :=
      htimed.cancel (TimerLoop.calls_of_idle hbatch) now
    obtain rfl := Except.ok.inj (hok.symm.trans hcancel)
    refine ⟨htimed'.congr rfl rfl rfl, ?_⟩
    rintro c p hc ⟨hcallback, hw⟩
    exact hwaits c p hc ⟨hcallback, (TimerLoop.waits_congr hheap hsame).mp hw⟩
  · cases hs
    exact ⟨htimed, hwaits⟩

/-- What `runTimer` has done: the timer does not wait any more, and its callback has been called
if it is the connector's. -/
theorem Timed.ran (h : Timed s) (he : ∃ b ∈ s.timers.batch, b.rest ≠ [])
    (hs : s.runTimer addTime a = .ok t) :
    ∃ timers, Timed { s with timers } ∧ timers.Calls ∧
      timers.queue.heap = s.timers.queue.heap ∧
      (∀ c p, c ≠ .user → Waits { s with timers } c p → Waits s c p) ∧
      (t = { s with timers } ∨ (∃ p, Waits s .startInLoop p) ∧
        { s with timers }.startInLoop addTime a = .ok t) := by
  obtain ⟨⟨now, ran, rest⟩, hb, hrest⟩ := he
  obtain ⟨it, rest, rfl⟩ := List.exists_cons_of_ne_nil hrest
  obtain ⟨timers, hrun, hcalls, hheap, htimed, hbefore, _, hwaits⟩ := h.runTimer hb
  refine ⟨timers, htimed, hcalls, hheap, hwaits, ?_⟩
  unfold ConnectorLoop.runTimer at hs
  rw [hrun, ok_bind, show s.timers.batch = some ⟨now, ran, it :: rest⟩ from hb] at hs
  dsimp only at hs
  split at hs
  · rename_i hcallback
    obtain ⟨_, hs⟩ := demand_bind_eq_ok hs
    exact .inr ⟨⟨_, hcallback, hbefore⟩, hs⟩
  · cases hs
    exact .inl rfl
  · cases hs
    exact .inl rfl

theorem Timed.restart (h : Timed s) (hcalls : s.timers.Calls) (hp : s.timers.Fresh a.timer)
    (hs : s.restart addTime a = .ok t) : Timed t := by
  have hflags : Timed { s.setState .kDisconnected with
      connector := { (s.setState .kDisconnected).connector with
        retryDelayMs_ := kInitRetryDelayMs, connect_ := true } } := h.congr rfl rfl rfl
  exact hflags.attempted hcalls hp (startInLoop_ok hs).2

theorem step_timed (h : Timed s) {l : Label} (he : (machine addTime).enabled s l)
    (hs : (machine addTime).step s l = .ok t) : Timed t := by
  cases l with
  | start a =>
    have hflag : Timed (s.setConnect true) := h.congr rfl rfl rfl
    exact hflag.attempted he.1.1 he.2.1 (startInLoop_ok hs).2
  | stop now =>
    obtain ⟨_, _, htimed, _⟩ := h.stop he.1 hs
    exact htimed
  | restart a =>
    have hforgotten : Timed s.forget := h.congr rfl rfl rfl
    exact hforgotten.restart he.1.1 he.2.1 hs
  | clientConnect a =>
    have hflags : Timed ({ s with connect_ := true }.setConnect true) := h.congr rfl rfl rfl
    exact hflags.attempted he.1.1 he.2.1 (startInLoop_ok hs).2
  | disconnect =>
    cases hs
    exact h.congr rfl rfl rfl
  | clientStop now =>
    have hflag : Timed { s with connect_ := false } := h.congr rfl rfl rfl
    obtain ⟨_, _, htimed, _⟩ := hflag.stop he.1 hs
    exact htimed
  | enableRetry =>
    cases hs
    exact h.congr rfl rfl rfl
  | destroyTcpClient a =>
    obtain ⟨_, _, htimed, _⟩ := h.destroyTcpClient he.1.1 he.2.2.1 hs
    exact htimed
  | removeConnection a =>
    obtain ⟨hb, _, _, _, ha⟩ := he
    obtain ⟨_, hs⟩ | ⟨_, rfl⟩ := removeConnection_ok hs
    · have hforgotten : Timed { s with connection_ := .closed }.forget := h.congr rfl rfl rfl
      exact hforgotten.restart (TimerLoop.calls_of_idle hb) ha.1 hs
    · exact h.congr rfl rfl rfl
  | handleEvent revents a =>
    exact h.ended (TimerLoop.calls_of_idle he.1) he.2.2.1 (handleEvent_ok hs)
  | resetChannel =>
    obtain ⟨_, rfl⟩ := resetChannel_ok hs
    exact h.congr rfl rfl rfl
  | runTimer a =>
    obtain ⟨timers, htimed, hcalls, hheap, _, rfl | ⟨_, hs⟩⟩ := h.ran he.1 hs
    · exact htimed
    · have hfresh : timers.Fresh a.timer := ⟨he.2.1.1, he.2.1.2.1, by rw [hheap]; exact he.2.1.2.2⟩
      exact htimed.attempted hcalls hfresh (startInLoop_ok hs).2
  | handleReadEnd now => exact (h.readEnd he hs).1
  | timers l =>
    obtain ⟨_, hstep, htimed, _⟩ := h.timersStep he.1 he.2
    obtain rfl := Except.ok.inj (hstep.symm.trans hs)
    exact htimed

end MuduoNet.ConnectorLoop
