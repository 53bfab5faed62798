import MuduoNet.Connector.Orderly

/-!
# The end of a `TcpClient` and of its connector

`~TcpClient` leaves the connector to a timer of one second, and with that timer the connector is
destroyed. Its `stop` has cleared the flag, so that nothing new is begun; but an attempt that is
under way can take longer, and a retry timer that has not been cancelled can be due later. If
neither is the case when the timer is taken out of the queue, nothing of the connector is left.
-/
namespace MuduoNet.ConnectorLoop

open Lib Lib.Outcome Function Connector TimerQueue

/-- The timer of `~TcpClient` is due. -/
def Removes (s : ConnectorLoop) (now : Timestamp) : Prop :=
  ∃ p ∈ pointers (s.timers.queue.due now), s.callback p = .removeConnector

instance (s : ConnectorLoop) (now : Timestamp) : Decidable (s.Removes now) :=
  inferInstanceAs (Decidable (∃ p ∈ pointers (s.timers.queue.due now), _))

/-- With the timer of `~TcpClient` each retry timer is due, and there is no channel then. -/
def Timely (s : ConnectorLoop) : Label → Prop
  | .timers (.handleRead now _) => s.Removes now → s.connector.channel_ = none ∧
      ∀ p ∈ s.retryTimers, p ∈ pointers (s.timers.queue.due now)
  | _ => True

instance (s : ConnectorLoop) (l : Label) : Decidable (s.Timely l) :=
  match l with
  | .timers (.handleRead now _) => inferInstanceAs (Decidable (s.Removes now →
      s.connector.channel_ = none ∧ ∀ p ∈ s.retryTimers, p ∈ pointers (s.timers.queue.due now)))
  | .timers (.addTimer ..) | .timers (.cancel ..) | .timers .doPendingFunctors
  | .timers (.runFunctor _) | .timers .runTimer | .timers (.handleReadEnd _)
  | .start _ | .stop _ | .restart _ | .clientConnect _ | .disconnect | .clientStop _
  | .enableRetry | .destroyTcpClient _ | .removeConnection _ | .handleEvent .. | .resetChannel
  | .runTimer _ | .handleReadEnd _ => isTrue trivial

def timely (addTime : Timestamp → ℚ → Timestamp) : Machine ConnectorLoop Label Fault :=
  (clients addTime).restrict Timely

instance (addTime : Timestamp → ℚ → Timestamp) (s : ConnectorLoop) (l : Label) :
    Decidable ((timely addTime).enabled s l) :=
  inferInstanceAs (Decidable ((clients addTime).enabled s l ∧ s.Timely l))

/-- The timer of `~TcpClient` is in the running batch. -/
def Removing (s : ConnectorLoop) (b : Batch) : Prop :=
  ∃ p ∈ pointers b.expired, s.callback p = .removeConnector

/-- While the client is there, so is the connector. From then on nothing is begun, and once the
connector is destroyed nothing of it is left. -/
structure Tidy (s : ConnectorLoop) : Prop where
  timed : Timed s
  accounted : Accounted s
  before : s.client = true → s.alive = true ∧ (∀ p, ¬ Waits s .removeConnector p) ∧
    ∀ b ∈ s.timers.batch, ¬ Removing s b
  stopped : s.client = false → s.connector.connect_ = false
  unique : ∀ p p', Waits s .removeConnector p → Waits s .removeConnector p' → p = p'
  dead : s.alive = false →
    s.connector.channel_ = none ∧ ∀ c p, c ≠ .user → ¬ Waits s c p
  batch : ∀ b ∈ s.timers.batch, Removing s b → s.alive = true ∧ s.connector.channel_ = none ∧
    ∀ c p, c ≠ .user → Waits s c p → p ∈ pointers b.rest

variable {addTime : Timestamp → ℚ → Timestamp} {s t : ConnectorLoop} {a : Answers} {k : Socket}

theorem tidy_start : Tidy start := by
  have hnone : ∀ c p, c ≠ .user → ¬ Waits start c p := by
    rintro c p hc ⟨h, _⟩
    exact hc h.symm
  refine ⟨timed_start, accounted_start, ?_, ?_, ?_, ?_, ?_⟩
  · intro _
    refine ⟨rfl, fun p => hnone _ p (by decide), ?_⟩
    intro b hb
    cases hb
  · intro h
    cases h
  · intro p _ hp
    exact absurd hp (hnone _ p (by decide))
  · intro h
    cases h
  · intro b hb
    cases hb

/-- The address of a new timer is none of the batch. -/
theorem Timed.fresh_ne (h : Timed s) {p p' : TimerPtr} {b : Batch} (hb : s.timers.batch = some b)
    (hp : p ∈ pointers b.expired) (hfresh : s.timers.Fresh p') : p ≠ p' := by
  rintro rfl
  refine h.inv.not_expiring hfresh ?_
  rw [TimerLoop.expiring_some hb]
  exact hp

/-- A step in which the only timer that can begin to wait is a retry timer of a connector whose
client is there, and in which no batch begins or goes on. -/
theorem Tidy.keep (h : Tidy s) (htimed : Timed t) (haccounted : Accounted t)
    (hclient : t.client = s.client) (halive : t.alive = s.alive)
    (hconnect : s.client = false → t.connector.connect_ = false)
    (hchannel : s.connector.channel_ = none → s.client = false → t.connector.channel_ = none)
    (hbatch : t.timers.batch = none ∨ t.timers.batch = s.timers.batch ∧
      ∀ b ∈ s.timers.batch, ∀ p ∈ pointers b.expired, t.callback p = s.callback p)
    (hwaits : ∀ c p, c ≠ .user → Waits t c p →
      (c = .startInLoop ∧ s.client = true) ∨ Waits s c p) : Tidy t := by
  have hremove : ∀ p, Waits t .removeConnector p → Waits s .removeConnector p := by
    intro p hp
    obtain ⟨hc, _⟩ | hold := hwaits _ p (by decide) hp
    · cases hc
    · exact hold
  have hgone : s.client = false → ∀ c p, c ≠ .user → Waits t c p → Waits s c p := by
    intro hclosed c p hc hp
    refine (hwaits c p hc hp).resolve_left ?_
    rintro ⟨_, hopen⟩
    rw [hclosed] at hopen
    cases hopen
  have hremoving : ∀ b ∈ t.timers.batch, b ∈ s.timers.batch ∧ (Removing t b → Removing s b) := by
    intro b hb
    obtain hnone | ⟨hsame, hcallback⟩ := hbatch
    · rw [hnone] at hb
      cases hb
    · rw [hsame] at hb
      refine ⟨hb, ?_⟩
      rintro ⟨p, hp, hcb⟩
      exact ⟨p, hp, (hcallback b hb p hp).symm.trans hcb⟩
  refine ⟨htimed, haccounted, ?_, ?_, ?_, ?_, ?_⟩
  · rw [hclient, halive]
    intro hopen
    obtain ⟨hal, hnone, hnot⟩ := h.before hopen
    refine ⟨hal, fun p hp => hnone p (hremove p hp), ?_⟩
    intro b hb hr
    obtain ⟨hb', himp⟩ := hremoving b hb
    exact hnot b hb' (himp hr)
  · rw [hclient]
    exact hconnect
  · intro p p' hp hp'
    exact h.unique p p' (hremove p hp) (hremove p' hp')
  · rw [halive]
    intro hdead
    have hclosed : s.client = false := by
      by_contra hopen
      have hal := (h.before (Bool.eq_true_of_not_eq_false hopen)).1
      rw [hdead] at hal
      cases hal
    obtain ⟨hnone, hquiet⟩ := h.dead hdead
    exact ⟨hchannel hnone hclosed, fun c p hc hp => hquiet c p hc (hgone hclosed c p hc hp)⟩
  · intro b hb hr
    obtain ⟨hb', himp⟩ := hremoving b hb
    have hclosed : s.client = false := by
      by_contra hopen
      exact (h.before (Bool.eq_true_of_not_eq_false hopen)).2.2 b hb' (himp hr)
    obtain ⟨hal, hnone, hrest⟩ := h.batch b hb' (himp hr)
    exact ⟨halive.trans hal, hchannel hnone hclosed,
      fun c p hc hp => hrest c p hc (hgone hclosed c p hc hp)⟩

/-- A step that leaves the timers alone. -/
theorem Tidy.congr (h : Tidy s) (htimers : t.timers = s.timers) (hcallback : t.callback = s.callback)
    (hid : t.connector.timerId_ = s.connector.timerId_) (hclient : t.client = s.client)
    (halive : t.alive = s.alive) (haccounted : Accounted t)
    (hconnect : s.client = false → t.connector.connect_ = false)
    (hchannel : s.connector.channel_ = none → s.client = false → t.connector.channel_ = none) :
    Tidy t := by
  refine h.keep (h.timed.congr htimers hcallback hid) haccounted hclient halive hconnect hchannel
    (.inr ⟨by rw [htimers], fun b _ p _ => by rw [hcallback]⟩) ?_
  intro c p _ hp
  right
  unfold Waits at hp
  rwa [htimers, hcallback] at hp

theorem Tidy.flags (h : Tidy s) (retry_ connect_ connect' : Bool)
    (hconnect : s.client = false → connect' = false) : Tidy { s with
      retry_, connect_, connector := { s.connector with connect_ := connect' } } :=
  h.congr rfl rfl rfl rfl rfl (h.accounted.congr rfl rfl rfl rfl rfl h.accounted.delay) hconnect
    fun hn _ => hn

/-- The callbacks of a running batch are not touched by a new timer. -/
theorem Timed.callback_update (h : Timed s) (hfresh : s.timers.Fresh a.timer) (cb : TimerCallback) :
    ∀ b ∈ s.timers.batch, ∀ p ∈ pointers b.expired,
      update s.callback a.timer cb p = s.callback p := by
  intro b hb p hp
  exact update_of_ne (h.fresh_ne hb hp hfresh) _ _

theorem Tidy.attempted (h : Tidy s) (hopen : s.client = true) (hcalls : s.timers.Calls)
    (ha : s.Answered a) (ht : Attempted addTime s a t) : Tidy t := by
  have hno : ∀ {P : Prop}, s.client = false → P := by
    intro P hclosed
    rw [hopen] at hclosed
    cases hclosed
  have haccounted := h.accounted.attempted ht
  cases ht with
  | none _ => exact h
  | began _ _ =>
    exact h.congr rfl rfl rfl rfl rfl haccounted hno fun _ => hno
  | abandoned _ =>
    exact h.congr rfl rfl rfl rfl rfl haccounted hno fun _ => hno
  | refused _ ht =>
    have hcreated : Timed (s.create a.sockfd).2 := h.timed.congr rfl rfl rfl
    obtain ⟨htimed, hbatch, hwaits⟩ := hcreated.retried hcalls ha.1 ht
    have hall : ∀ c p, c ≠ .user → Waits t c p →
        (c = .startInLoop ∧ s.client = true) ∨ Waits s c p := by
      intro c p _ hp
      obtain ⟨hc, _⟩ | hold := hwaits c p hp
      · exact .inl ⟨hc, hopen⟩
      · exact .inr hold
    cases ht with
    | silent _ =>
      exact h.keep htimed haccounted rfl rfl hno (fun _ => hno)
        (.inr ⟨hbatch, fun _ _ _ _ => rfl⟩) hall
    | scheduled _ _ =>
      exact h.keep htimed haccounted rfl rfl hno (fun _ => hno)
        (.inr ⟨hbatch, h.timed.callback_update ha.1 _⟩) hall

theorem Tidy.startInLoop (h : Tidy s) (hcalls : s.timers.Calls) (ha : s.Answered a)
    (hs : s.startInLoop addTime a = .ok t) : Tidy t := by
  cases hopen : s.client with
  | true => exact h.attempted hopen hcalls ha (startInLoop_ok hs).2
  | false =>
    rw [startInLoop_stopped (h.stopped hopen) hs]
    exact h

/-- Without a client the connector is not to connect, and no timer is added. -/
theorem Tidy.ended (h : Tidy s) (hb : s.timers.batch = none) (ha : s.Answered a)
    (ht : Ended addTime s a t) : Tidy t := by
  have haccounted := h.accounted.ended ht
  have hcalls := TimerLoop.calls_of_idle hb
  cases ht with
  | ignored => exact h
  | @failed k _ hchannel hmem ht =>
    have htaken : Timed (s.taken k) := h.timed.congr rfl rfl rfl
    obtain ⟨htimed, hbatch, hwaits⟩ := htaken.retried hcalls ha.1 ht
    cases ht with
    | silent _ =>
      exact h.congr rfl rfl rfl rfl rfl haccounted h.stopped fun hn _ => hn
    | scheduled hconnect _ =>
      refine h.keep htimed haccounted rfl rfl h.stopped (fun hn _ => hn)
        (.inl (hbatch.trans hb)) ?_
      intro c p _ hp
      obtain ⟨hc, _⟩ | hold := hwaits c p hp
      · refine .inl ⟨hc, ?_⟩
        by_contra hclosed
        cases (h.stopped (Bool.eq_false_of_not_eq_true hclosed)).symm.trans hconnect
      · exact .inr hold
  | passed _ _ _ _ =>
    exact h.congr rfl rfl rfl rfl rfl haccounted h.stopped fun hn _ => hn
  | closed _ _ _ =>
    exact h.congr rfl rfl rfl rfl rfl haccounted h.stopped fun hn _ => hn

theorem Tidy.stop (h : Tidy s) (hcalls : s.timers.Calls) {now : Timestamp}
    (hs : s.stop now = .ok t) : Tidy t := by
  obtain ⟨timers, rfl, htimed, hheap, hbatch⟩ := h.timed.stop hcalls hs
  refine h.keep htimed (h.accounted.congr rfl rfl rfl rfl rfl h.accounted.delay) rfl rfl
    (fun _ => rfl) (fun hn _ => hn) (.inr ⟨hbatch, fun _ _ _ _ => rfl⟩) ?_
  rintro c p _ ⟨hcallback, hp⟩
  exact .inr ⟨hcallback, (TimerLoop.waits_congr hheap hbatch).mp hp⟩

/-- `~TcpClient` adds the only timer that holds the connector. -/
theorem Tidy.destroyTcpClient (h : Tidy s) (hopen : s.client = true) (hcalls : s.timers.Calls)
    (ha : s.Answered a) (hs : s.destroyTcpClient addTime a = .ok t) : Tidy t := by
  obtain ⟨halive, hnone, hnot⟩ := h.before hopen
  obtain ⟨timers, rfl, htimed, hbatch, hwaits⟩ := h.timed.destroyTcpClient hcalls ha.1 hs
  have honly : ∀ p, Waits { s.setConnect false with
      timers, callback := update s.callback a.timer .removeConnector, client := false }
      .removeConnector p → p = a.timer := by
    intro p hp
    obtain ⟨_, hnew⟩ | hold := hwaits _ p hp
    · exact hnew
    · exact absurd hold (hnone p)
  refine ⟨htimed, h.accounted.congr rfl rfl rfl rfl rfl h.accounted.delay, ?_, fun _ => rfl,
    fun p p' hp hp' => (honly p hp).trans (honly p' hp').symm, ?_, ?_⟩
  · intro hclosed
    cases hclosed
  · intro hdead
    cases halive.symm.trans hdead
  · rintro b hb ⟨p, hp, hcallback⟩
    have hb' : b ∈ s.timers.batch := by
      rw [← hbatch]
      exact hb
    have hold : s.callback p = .removeConnector := by
      rw [← h.timed.callback_update ha.1 .removeConnector b hb' p hp]
      exact hcallback
    exact absurd ⟨p, hp, hold⟩ (hnot b hb')

/-- A callback of the batch starts, which holds the same timers. -/
theorem Tidy.ran (h : Tidy s) {now : Timestamp} {ran rest : List Entry} {it : Entry}
    (hb : s.timers.batch = some ⟨now, ran, it :: rest⟩) {timers : TimerLoop}
    (hrun : s.timers.runTimer = .ok timers) :
    Tidy { s with timers } ∧ timers.Calls ∧ timers.queue.heap = s.timers.queue.heap := by
  obtain ⟨timers', hok, hcalls, hheap, htimed, _, hafter, hwaits⟩ := h.timed.runTimer hb
  obtain rfl := Except.ok.inj (hok.symm.trans hrun)
  have hbatch : timers'.batch = some ⟨now, ran ++ [it], rest⟩ := by
    obtain ⟨τ, _, hok', _⟩ := h.timed.inv.runTimer hb
    obtain rfl := Except.ok.inj (hok'.symm.trans hrun)
    rfl
  have hsame : ∀ b ∈ timers'.batch, b.rest = rest ∧
      (Removing { s with timers := timers' } b → Removing s ⟨now, ran, it :: rest⟩) := by
    intro b hb'
    rw [hbatch] at hb'
    obtain rfl := Option.some.inj hb'
    refine ⟨rfl, ?_⟩
    rintro ⟨p, hp, hcallback⟩
    refine ⟨p, ?_, hcallback⟩
    unfold Batch.expired at hp ⊢
    rw [List.append_assoc] at hp
    exact hp
  refine ⟨⟨htimed, h.accounted.congr rfl rfl rfl rfl rfl h.accounted.delay, ?_, h.stopped, ?_, ?_,
    ?_⟩, hcalls, hheap⟩
  · intro hopen
    obtain ⟨halive, hnone, hnot⟩ := h.before hopen
    refine ⟨halive, fun p hp => hnone p (hwaits _ p (by decide) hp), ?_⟩
    intro b hb' hr
    exact hnot _ hb ((hsame b hb').2 hr)
  · intro p p' hp hp'
    exact h.unique p p' (hwaits _ p (by decide) hp) (hwaits _ p' (by decide) hp')
  · intro hdead
    obtain ⟨hchannel, hquiet⟩ := h.dead hdead
    exact ⟨hchannel, fun c p hc hp => hquiet c p hc (hwaits c p hc hp)⟩
  · intro b hb' hr
    obtain ⟨hrest, himp⟩ := hsame b hb'
    obtain ⟨halive, hchannel, hall⟩ := h.batch _ hb (himp hr)
    refine ⟨halive, hchannel, ?_⟩
    intro c p hc hp
    rw [hrest]
    obtain heq | hmem := List.mem_cons.mp (hall c p hc (hwaits c p hc hp))
    · rw [heq] at hp
      exact absurd hp.2 hafter
    · exact hmem

theorem Tidy.runTimer (h : Tidy s) (he : ∃ b ∈ s.timers.batch, b.rest ≠ []) (ha : s.Answered a)
    (hs : s.runTimer addTime a = .ok t) : Tidy t := by
  obtain ⟨⟨now, ran, rest⟩, hb, hrest⟩ := he
  obtain ⟨it, rest, rfl⟩ := List.exists_cons_of_ne_nil hrest
  obtain ⟨timers, hrun, hs⟩ := bind_eq_ok hs
  obtain ⟨htidy, hcalls, hheap⟩ := h.ran hb hrun
  rw [show s.timers.batch = some ⟨now, ran, it :: rest⟩ from hb] at hs
  dsimp only at hs
  split at hs
  · obtain ⟨_, hs⟩ := demand_bind_eq_ok hs
    have hanswered : Answered { s with timers } a :=
      ⟨⟨ha.1.1, ha.1.2.1, by rw [hheap]; exact ha.1.2.2⟩, ha.2⟩
    exact htidy.startInLoop hcalls hanswered hs
  · cases hs
    exact htidy
  · cases hs
    exact htidy

/-- With its timer the connector is destroyed, and its assertion holds. -/
theorem Tidy.handleReadEnd (h : Tidy s) (he : ∃ b ∈ s.timers.batch, b.rest = [])
    (addTime : Timestamp → ℚ → Timestamp) (now : Timestamp) :
    ∃ t, s.handleReadEnd addTime now = .ok t ∧ Tidy t := by
  obtain ⟨b, hb, hrest⟩ := he
  obtain ⟨timers, hend, hbatch, htimed, _, hwaits⟩ :=
    h.timed.handleReadEnd hb hrest addTime now
  have haccounted : Accounted { s with timers } :=
    h.accounted.congr rfl rfl rfl rfl rfl h.accounted.delay
  have hkeep : Tidy { s with timers } :=
    h.keep htimed haccounted rfl rfl h.stopped (fun hn _ => hn) (.inl hbatch)
      (fun c p hc hp => .inr (hwaits c p hc hp))
  unfold ConnectorLoop.handleReadEnd
  rw [hend, ok_bind]
  split
  · rename_i hremove
    obtain ⟨p, hp, hcallback, _⟩ := hremove
    rw [TimerLoop.expiring_some hb] at hp
    have hremoving : Removing s b := ⟨p, hp, hcallback⟩
    obtain ⟨halive, hchannel, hall⟩ := h.batch b hb hremoving
    have hquiet : ∀ c p, c ≠ .user → ¬ Waits { s with timers } c p := by
      intro c p hc hp
      have hmem := hall c p hc (hwaits c p hc hp)
      rw [hrest] at hmem
      cases hmem
    have hcalls := TimerLoop.calls_of_idle hbatch
    obtain ⟨timers', hcancel, htimed', hheap, hbatch'⟩ := htimed.cancel hcalls now
    have hgone : ∀ c p, c ≠ .user →
        ¬ Waits { s with timers := timers', alive := false } c p := by
      rintro c p hc ⟨hcb, hp⟩
      exact hquiet c p hc ⟨hcb, (TimerLoop.waits_congr hheap hbatch').mp hp⟩
    refine ⟨{ s with timers := timers', alive := false }, ?_, ?_⟩
    · unfold destroyConnector
      rw [demand_bind halive, hcancel, ok_bind]
      exact demand_bind hchannel
    · refine ⟨htimed'.congr rfl rfl rfl,
        h.accounted.congr rfl rfl rfl rfl rfl h.accounted.delay, ?_, h.stopped,
        fun p _ hp => absurd hp (hgone _ p (by decide)), fun _ => ⟨hchannel, hgone⟩, ?_⟩
      · intro hopen
        exact absurd hremoving ((h.before hopen).2.2 b hb)
      · intro b' hb''
        rw [show timers'.batch = none from hbatch'.trans hbatch] at hb''
        cases hb''
  · exact ⟨_, rfl, hkeep⟩

/-- The batch begins with every timer that the connector has left, if with that of the client. -/
theorem Tidy.handleRead (h : Tidy s) {now : Timestamp} {fired : Bool}
    (he : (TimerLoop.withHandles addTime).enabled s.timers (.handleRead now fired))
    (ht : s.Timely (.timers (.handleRead now fired))) :
    ∃ t, s.timersStep addTime (.handleRead now fired) = .ok t ∧ Tidy t := by
  have ho : Other (.handleRead now fired) := trivial
  obtain ⟨timers, hstep, htimed, hwaits⟩ := h.timed.timersStep ho he
  obtain ⟨⟨hb, _, _⟩, _⟩ := he
  have hbatch : timers.batch = some ⟨now, [], s.timers.queue.due now⟩ := by
    obtain ⟨q, hok, _⟩ := h.timed.inv.handleRead hb now fired
    obtain ⟨timers', htimers, hstep'⟩ := bind_eq_ok hstep
    obtain rfl := Except.ok.inj (hok.symm.trans htimers)
    exact congrArg (fun u : ConnectorLoop => u.timers.batch) (Except.ok.inj hstep').symm
  have hdue : ∀ p ∈ pointers (s.timers.queue.due now), s.timers.Waits p := by
    intro p hp
    obtain ⟨_, τ, hτ, _⟩ := h.timed.inv.owned.mem_pointers_due.mp hp
    refine ⟨⟨τ, hτ⟩, ?_⟩
    rw [hb]
    intro b hb'
    cases hb'
  refine ⟨_, hstep, htimed, h.accounted.congr rfl rfl rfl rfl rfl h.accounted.delay, ?_, h.stopped,
    ?_, ?_, ?_⟩
  · intro hopen
    obtain ⟨halive, hnone, _⟩ := h.before hopen
    refine ⟨halive, fun p hp => hnone p (hwaits _ p (by decide) hp), ?_⟩
    rintro b hb' ⟨p, hp, hcallback⟩
    rw [hbatch] at hb'
    obtain rfl := Option.some.inj hb'
    exact hnone p ⟨hcallback, hdue p hp⟩
  · intro p p' hp hp'
    exact h.unique p p' (hwaits _ p (by decide) hp) (hwaits _ p' (by decide) hp')
  · intro hdead
    obtain ⟨hchannel, hquiet⟩ := h.dead hdead
    exact ⟨hchannel, fun c p hc hp => hquiet c p hc (hwaits c p hc hp)⟩
  · rintro b hb' ⟨p, hp, hcallback⟩
    rw [hbatch] at hb'
    obtain rfl := Option.some.inj hb'
    have hmine : Waits s .removeConnector p := ⟨hcallback, hdue p hp⟩
    obtain ⟨hchannel, hretry⟩ := ht ⟨p, hp, hcallback⟩
    refine ⟨?_, hchannel, ?_⟩
    · by_contra hdead
      exact (h.dead (Bool.eq_false_of_not_eq_true hdead)).2 _ p (by decide) hmine
    · intro c p' hc hp'
      have hold := hwaits c p' hc hp'
      cases c with
      | startInLoop => exact hretry p' (h.timed.mem_retryTimers hold)
      | removeConnector =>
        rw [h.unique p' p hold hmine]
        exact hp
      | user => exact absurd rfl hc

/-- The other steps of the timers leave the batch alone. -/
theorem Tidy.timersStep (h : Tidy s) {l : TimerLoop.Label} (ho : Other l)
    (he : (TimerLoop.withHandles addTime).enabled s.timers l)
    (ht : s.Timely (.timers l)) : ∃ t, s.timersStep addTime l = .ok t ∧ Tidy t := by
  obtain ⟨timers, hstep, htimed, hwaits⟩ := h.timed.timersStep ho he
  obtain ⟨timers', htimers, hstep'⟩ := bind_eq_ok hstep
  have hsame : timers' = timers :=
    congrArg (fun u : ConnectorLoop => u.timers) (Except.ok.inj hstep')
  rw [hsame] at htimers
  have hkeep : ∀ {callback : TimerPtr → TimerCallback}, callback = s.callbackAfter l →
      timers.batch = s.timers.batch →
      (∀ b ∈ s.timers.batch, ∀ p ∈ pointers b.expired, callback p = s.callback p) →
      ∃ t, s.timersStep addTime l = .ok t ∧ Tidy t := by
    rintro callback rfl hbatch hcallback
    exact ⟨_, hstep, h.keep htimed (h.accounted.congr rfl rfl rfl rfl rfl h.accounted.delay)
      rfl rfl h.stopped (fun hn _ => hn) (.inr ⟨hbatch, hcallback⟩)
      (fun c p hc hp => .inr (hwaits c p hc hp))⟩
  cases l with
  | addTimer b p w x now =>
    obtain ⟨_, hbatch, _⟩ := TimerLoop.addTimer_kept h.timed.inv he.1.2 htimers
    refine hkeep rfl hbatch ?_
    intro b' hb' p' hp'
    exact update_of_ne (h.timed.fresh_ne hb' hp' he.1.2) _ _
  | cancel b id now =>
    obtain ⟨_, hbatch, _⟩ := TimerLoop.cancel_kept h.timed.inv he.2 htimers
    exact hkeep rfl hbatch fun _ _ _ _ => rfl
  | doPendingFunctors =>
    obtain rfl := Except.ok.inj htimers
    exact hkeep rfl rfl fun _ _ _ _ => rfl
  | runFunctor now =>
    obtain ⟨_, hbatch, _⟩ := TimerLoop.runFunctor_kept h.timed.inv h.timed.handled htimers
    exact hkeep rfl hbatch fun _ _ _ _ => rfl
  | handleRead now fired => exact h.handleRead he ht
  | runTimer => exact ho.elim
  | handleReadEnd now => exact ho.elim

theorem step_tidy (h : Tidy s) {l : Label} (he : (timely addTime).enabled s l)
    (hs : (timely addTime).step s l = .ok t) : Tidy t := by
  obtain ⟨⟨he, hclient⟩, ht⟩ := he
  cases l with
  | start a => exact hclient.elim
  | stop now => exact hclient.elim
  | restart a => exact hclient.elim
  | clientConnect a =>
    have hflags : Tidy ({ s with connect_ := true }.setConnect true) := by
      refine h.flags s.retry_ true true ?_
      intro hclosed
      cases he.1.2.symm.trans hclosed
    exact hflags.startInLoop he.1.1 he.2 hs
  | disconnect =>
    cases hs
    exact h.flags s.retry_ false s.connector.connect_ h.stopped
  | clientStop now =>
    have hflags : Tidy { s with connect_ := false } :=
      h.flags s.retry_ false s.connector.connect_ h.stopped
    exact hflags.stop he.1 hs
  | enableRetry =>
    cases hs
    exact h.flags true s.connect_ s.connector.connect_ h.stopped
  | destroyTcpClient a => exact h.destroyTcpClient he.1.2 he.1.1 he.2.2 hs
  | removeConnection a =>
    obtain ⟨hb, hopen, _, _, ha⟩ := he
    have hcalls := TimerLoop.calls_of_idle hb
    have hno : ∀ {P : Prop}, s.client = false → P := by
      intro P hclosed
      cases hopen.symm.trans hclosed
    have hclosed : Tidy { s with connection_ := .closed } :=
      h.congr rfl rfl rfl rfl rfl (h.accounted.congr rfl rfl rfl rfl rfl h.accounted.delay) hno
        fun hn _ => hn
    obtain ⟨_, hs⟩ | ⟨_, rfl⟩ := removeConnection_ok hs
    · let u : ConnectorLoop := ({ s with connection_ := .closed }.forget).setState .kDisconnected
      have hu : Tidy { u with connector := { u.connector with
          retryDelayMs_ := kInitRetryDelayMs, connect_ := true } } :=
        h.congr rfl rfl rfl rfl rfl
          (h.accounted.congr rfl rfl rfl rfl rfl accounted_start.delay) hno fun hn _ => hn
      exact hu.startInLoop hcalls ha hs
    · exact hclosed
  | handleEvent revents a => exact h.ended he.1 he.2.2 (handleEvent_ok hs)
  | resetChannel =>
    obtain ⟨_, rfl⟩ := resetChannel_ok hs
    exact h.congr rfl rfl rfl rfl rfl (h.accounted.resetChannel he.2) h.stopped fun _ _ => rfl
  | runTimer a => exact h.runTimer he.1 he.2 hs
  | handleReadEnd now =>
    obtain ⟨t', ht', htidy⟩ := h.handleReadEnd he addTime now
    obtain rfl := Except.ok.inj (ht'.symm.trans hs)
    exact htidy
  | timers l =>
    obtain ⟨t', ht', htidy⟩ := h.timersStep he.1 he.2 ht
    obtain rfl := Except.ok.inj (ht'.symm.trans hs)
    exact htidy

/-- The step runs a callback that is bound to the connector. -/
def RunsCallback (s : ConnectorLoop) : Label → Prop
  | .handleEvent .. | .resetChannel => True
  | .runTimer _ => s.nextCallback = some .startInLoop
  | _ => False

theorem mem_retryTimers_of_next (h : s.nextCallback = some .startInLoop) :
    ∃ p, p ∈ s.retryTimers := by
  unfold nextCallback at h
  split at h
  · rename_i now ran it rest hb
    refine ⟨(ofLex it).2, List.mem_filter.mpr ⟨?_, decide_eq_true (Option.some.inj h)⟩⟩
    rw [hb]
    exact List.mem_map_of_mem (List.mem_append_right _ List.mem_cons_self)
  · cases h

/-- In every run in which the timer of `~TcpClient` comes in time, `~Connector` runs without a
failed assertion; and once it has run nothing is left that calls the connector: no channel in the
poller, no `resetChannel` that waits, and no retry timer. -/
theorem teardown_clean (addTime : Timestamp → ℚ → Timestamp) {s : ConnectorLoop}
    (h : Reachable (timely addTime) start s) :
    (s.alive = false → s.connector.channel_ = none ∧ s.registered = [] ∧ s.resets = 0 ∧
      s.retryTimers = [] ∧ ∀ l, (timely addTime).enabled s l → ¬ s.RunsCallback l) ∧
    ∀ now, (timely addTime).enabled s (.handleReadEnd now) →
      ∃ t, (timely addTime).step s (.handleReadEnd now) = .ok t := by
  have htidy : Tidy s :=
    h.invariant (I := Tidy) (fun _ _ _ hi he hs => step_tidy hi he hs) tidy_start
  constructor
  · intro hdead
    obtain ⟨hchannel, hquiet⟩ := htidy.dead hdead
    obtain ⟨hreg, hresets⟩ := htidy.accounted.of_channel hchannel
    have hnil : s.retryTimers = [] := by
      refine List.eq_nil_iff_forall_not_mem.mpr ?_
      intro p hp
      exact hquiet _ p (by decide) (htidy.timed.waits_of_mem hp)
    refine ⟨hchannel, hreg, hresets, hnil, ?_⟩
    intro l he hl
    cases l with
    | handleEvent revents a => exact he.1.1.2.1 hreg
    | resetChannel =>
      have hpos := he.1.1.2
      rw [hresets] at hpos
      cases hpos
    | runTimer a =>
      obtain ⟨p, hp⟩ := mem_retryTimers_of_next hl
      rw [hnil] at hp
      cases hp
    | _ => exact hl
  · intro now he
    obtain ⟨t, ht, _⟩ := htidy.handleReadEnd he.1.1 addTime now
    exact ⟨t, ht⟩

/-- A client that is destroyed during its attempt, which ends in time. -/
theorem teardown_clean_run :
    let addTime : Timestamp → ℚ → Timestamp := fun now x => now + ⌊x * 1000000⌋
    let a : Answers := ⟨7, EINPROGRESS, 0, false, 1, 1, 2⟩
    let ls : List Label := [.clientConnect a, .destroyTcpClient ⟨8, 0, 0, false, 1, 3, 4⟩,
      .handleEvent Channel.POLLOUT ⟨8, 0, 0, false, 2, 5, 6⟩, .resetChannel,
      .timers (.handleRead 1000003 true), .runTimer ⟨8, 0, 0, false, 2, 7, 8⟩]
    ∃ s t, Run (timely addTime) start ls s ∧
      (timely addTime).step s (.handleReadEnd 1000004) = .ok t ∧ t.alive = false ∧
      t.connector.channel_ = none ∧ t.registered = [] ∧ t.resets = 0 ∧ t.retryTimers = [] := by
  intro addTime a ls
  have hex : ∃ t, Run (timely addTime) start (ls ++ [.handleReadEnd 1000004]) t ∧
      t.alive = false := exists_run_of_exec _ (by decide +kernel)
  obtain ⟨t, hr, hdead⟩ := hex
  obtain ⟨s, hs, hrest⟩ := hr.split
  cases hrest with
  | cons he hend hnil =>
    cases hnil
    obtain ⟨hchannel, hreg, hresets, hnone, _⟩ := (teardown_clean addTime ⟨_, hr⟩).1 hdead
    exact ⟨s, t, hs, hend, hdead, hchannel, hreg, hresets, hnone⟩

/-- The timer comes too early: the attempt is still under way, or a retry timer is due later, for
a third attempt. -/
theorem teardown_faults :
    let addTime : Timestamp → ℚ → Timestamp := fun now x => now + ⌊x * 1000000⌋
    let refused (p : TimerPtr) (now : Timestamp) : Answers :=
      ⟨7, ECONNREFUSED, 0, false, p, now, now⟩
    let connecting : List Label := [.clientConnect ⟨7, EINPROGRESS, 0, false, 1, 1, 2⟩,
      .destroyTcpClient ⟨8, 0, 0, false, 1, 3, 4⟩, .timers (.handleRead 1000003 true),
      .runTimer ⟨8, 0, 0, false, 2, 7, 8⟩]
    let retrying : List Label := [.clientConnect (refused 1 0), .timers (.handleRead 500000 true),
      .runTimer (refused 2 500000), .handleReadEnd 500000, .timers (.handleRead 1500000 true),
      .runTimer (refused 3 1500000), .handleReadEnd 1500000, .destroyTcpClient (refused 4 1600000),
      .timers (.handleRead 2600000 true), .runTimer (refused 5 2600000), .handleReadEnd 2600000,
      .timers (.handleRead 3500000 true)]
    (∃ s, Run (clients addTime) start connecting s ∧
      (clients addTime).enabled s (.handleReadEnd 1000004) ∧
      (clients addTime).fault s (.handleReadEnd 1000004) = some .assertion) ∧
    ∃ s, Run (clients addTime) start retrying s ∧ s.alive = false ∧
      (clients addTime).enabled s (.runTimer (refused 5 3500000)) ∧
      (clients addTime).fault s (.runTimer (refused 5 3500000)) = some .deletedObject := by
  intro addTime refused connecting retrying
  constructor
  · exact exists_run_of_exec _ (by decide +kernel)
  · exact exists_run_of_exec _ (by decide +kernel)

end MuduoNet.ConnectorLoop
