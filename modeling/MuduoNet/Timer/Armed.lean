import MuduoNet.Timer.Owned

/-!
# The timerfd is armed early enough

An insertion arms the timerfd for a new earliest timer, and the end of a batch for the earliest
one, unless its expiration is not positive. Such a timer was added by a callback of that batch,
and the arming made for it, or for an earlier one, still stands.
-/
namespace MuduoNet

open Lib Lib.Outcome TimerQueue

/-- The timespec is the time until `when'`, but no less than 100 microseconds; it does not disarm. -/
structure Arming.SetFor (a : Arming) (when' : Timestamp) : Prop where
  exact_ : a.it_value.tv_sec * 10 ^ 9 + a.it_value.tv_nsec = max 100 (when' - a.armedAt) * 1000
  nsec_nonneg : 0 ≤ a.it_value.tv_nsec
  nsec_lt : a.it_value.tv_nsec < 10 ^ 9
  ne_zero : a.it_value ≠ ⟨0, 0⟩

theorem Arming.setFor (when' now : Int) :
    Arming.SetFor ⟨now, howMuchTimerFromNow when' now⟩ when' := by
  obtain ⟨m, hm⟩ : ∃ m : Int, m = max 100 (when' - now) := ⟨_, rfl⟩
  have hts : howMuchTimerFromNow when' now = ⟨m.tdiv 1000000, m.tmod 1000000 * 1000⟩ := by
    have hmicro : (if when' - now < 100 then 100 else when' - now) = m := by
      split <;> omega
    unfold howMuchTimerFromNow
    dsimp only
    rw [hmicro]
    rfl
  have hsum := Int.mul_tdiv_add_tmod m 1000000
  have hlo := Int.tmod_nonneg 1000000 (show 0 ≤ m by omega)
  have hhi := Int.tmod_lt_of_pos m (show (0 : Int) < 1000000 by decide)
  rw [hts]
  constructor
  · show m.tdiv 1000000 * 10 ^ 9 + m.tmod 1000000 * 1000 = max 100 (when' - now) * 1000
    omega
  · show 0 ≤ m.tmod 1000000 * 1000
    omega
  · show m.tmod 1000000 * 1000 < 10 ^ 9
    omega
  · intro hzero
    obtain ⟨hsec, hnsec⟩ := Timespec.mk.inj hzero
    omega

/-- The timerfd fires at the requested time, but not within 100 microseconds. -/
theorem Arming.deadline_eq (when' now : Int) :
    Arming.deadline ⟨now, howMuchTimerFromNow when' now⟩ = max when' (now + 100) := by
  have hsum : (howMuchTimerFromNow when' now).tv_sec * 10 ^ 9 +
      (howMuchTimerFromNow when' now).tv_nsec = max 100 (when' - now) * 1000 :=
    (Arming.setFor when' now).exact_
  show (now + (howMuchTimerFromNow when' now).tv_sec * 1000000 +
    (howMuchTimerFromNow when' now).tv_nsec / 1000 : Int) = max when' (now + 100)
  omega

namespace TimerQueue

variable {q : TimerQueue} {p : TimerPtr} {t : Timer} {w w' now : Timestamp}

/-- The timerfd does not fire too late for a timer that expires at `w`. -/
def Covered (q : TimerQueue) (w : Timestamp) : Prop :=
  ∃ a, q.timerfd = some a ∧ a.deadline ≤ max w (a.armedAt + 100)

theorem Covered.mono (h : q.Covered w) (hle : w ≤ w') : q.Covered w' := by
  obtain ⟨a, ha, hd⟩ := h
  exact ⟨a, ha, hd.trans (max_le_max_right _ hle)⟩

theorem covered_resetTimerfd (q : TimerQueue) (now : Timestamp) (h : w ≤ w') :
    (q.resetTimerfd w now).Covered w' := by
  have hself : (q.resetTimerfd w now).Covered w := ⟨_, rfl, (Arming.deadline_eq w now).le⟩
  exact hself.mono h

theorem fst_first_le {it : Entry} (hit : q.timers_.first = some it) (hmem : toLex (w, p) ∈ q.timers_) :
    (ofLex it).1 ≤ w := by
  obtain ⟨_, hmin⟩ := OrdSet.first_eq_some.mp hit
  rcases Prod.Lex.le_iff.mp (hmin _ hmem) with hlt | ⟨heq, _⟩
  · exact le_of_lt hlt
  · exact le_of_eq heq

/-- After an insertion that does not arm, an earlier timer is in the set. -/
theorem exists_first_of_not_comesFirst (h : q.comesFirst w = false) :
    ∃ it, q.timers_.first = some it ∧ (ofLex it).1 ≤ w := by
  unfold comesFirst at h
  split at h
  · cases h
  · rename_i it hit
    exact ⟨it, hit, not_lt.mp (of_decide_eq_false h)⟩

theorem lt_of_comesFirst (h : q.comesFirst w = true) (hmem : toLex (w', p) ∈ q.timers_) : w < w' := by
  unfold comesFirst at h
  split at h
  · rename_i hnone
    exact absurd hmem (OrdSet.first_eq_none.mp hnone _)
  · rename_i it hit
    exact lt_of_lt_of_le (of_decide_eq_true h) (fst_first_le hit hmem)

/-- Scheduling a timer leaves the timerfd early enough for it and for those that were there. -/
theorem covered_scheduled (hcov : ∀ w' p', toLex (w', p') ∈ q.timers_ → w' ≤ w → q.Covered w')
    {p' : TimerPtr}
    (hmem : toLex (w, p') ∈ (q.scheduled p t now).timers_) : (q.scheduled p t now).Covered w := by
  rw [timers_scheduled, OrdSet.mem_insert, toLex_inj, Prod.mk.injEq] at hmem
  unfold scheduled
  split
  · rename_i hfirst
    apply covered_resetTimerfd
    rcases hmem with ⟨rfl, _⟩ | hmem
    · exact le_refl _
    · exact le_of_lt (lt_of_comesFirst hfirst hmem)
  · rename_i hfirst
    show q.Covered w
    rcases hmem with ⟨rfl, _⟩ | hmem
    · obtain ⟨it, hit, hle⟩ := exists_first_of_not_comesFirst (Bool.not_eq_true _ ▸ hfirst)
      have hcov' := hcov (ofLex it).1 (ofLex it).2 (OrdSet.first_eq_some.mp hit).1 hle
      exact hcov'.mono hle
    · exact hcov w p' hmem (le_refl w)

/-- The timerfd is as it was, or has been set at `now` for the earliest timer. -/
def SetsFirst (q q' : TimerQueue) (now : Timestamp) : Prop :=
  q'.timerfd = q.timerfd ∨ ∃ it a, q'.timers_.first = some it ∧ q'.timerfd = some a ∧
    a.armedAt = now ∧ a.SetFor (ofLex it).1

/-- A timer that is earlier than all in the set is the first of the set. -/
theorem setsFirst_scheduled (q : TimerQueue) (p : TimerPtr) (t : Timer) (now : Timestamp) :
    q.SetsFirst (q.scheduled p t now) now := by
  unfold SetsFirst
  rw [timers_scheduled]
  unfold scheduled
  split
  · rename_i hfirst
    refine .inr ⟨toLex (t.expiration_, p), _, ?_, rfl, rfl, Arming.setFor _ _⟩
    rw [OrdSet.first_eq_some]
    refine ⟨OrdSet.mem_insert.mpr (.inl rfl), ?_⟩
    intro it hit
    rcases OrdSet.mem_insert.mp hit with rfl | hit
    · exact le_refl _
    · have hlt : t.expiration_ < (ofLex it).1 := lt_of_comesFirst hfirst (p := (ofLex it).2) hit
      exact (Prod.Lex.lt_iff.mpr (.inl hlt)).le
  · exact .inl rfl

theorem setsFirst_rearmed (q : TimerQueue) (now : Timestamp) : q.SetsFirst (q.rearmed now) now := by
  unfold SetsFirst rearmed
  split
  · exact .inl rfl
  · rename_i it hit
    split
    · exact .inr ⟨it, _, hit, rfl, rfl, Arming.setFor _ _⟩
    · exact .inl rfl

end TimerQueue

namespace TimerLoop

/-- During a batch only timers that have expired for good must be covered: the end of the batch
arms the timerfd for the others. -/
structure Armed (s : TimerLoop) : Prop where
  repeats : ∀ p t, s.queue.heap p = some t → t.repeat_ = true → 1 < t.interval_
  now_pos : ∀ b, s.batch = some b → 0 < b.now
  covered : ∀ w p, toLex (w, p) ∈ s.queue.timers_ → s.batch = none ∨ w ≤ 0 → s.queue.Covered w
  arming : ∀ a, s.queue.timerfd = some a → ∃ w, a.SetFor w

variable {addTime : Timestamp → ℚ → Timestamp} {s t : TimerLoop}

theorem armed_start : Armed start := by
  constructor
  · intro p t h
    cases h
  · intro b h
    cases h
  · intro w p h
    cases h
  · intro a h
    cases h

/-- A timer that is not held in the loop or in the batch is in `timers_`. -/
theorem Inv.mem_timers (h : Inv s) {p : TimerPtr} {t : Timer} (ht : s.queue.heap p = some t)
    (hp : p ∉ s.queued ++ pointers s.expiring) : toLex (t.expiration_, p) ∈ s.queue.timers_ :=
  (h.owned.timers _ _).mpr ⟨hp, t, ht, rfl⟩

/-- What stays in `timers_` when a batch is taken expires later. -/
theorem Inv.lt_of_began (h : Inv s) (ht : Inv t) {now w : Timestamp} {p : TimerPtr}
    (hb : s.batch = none) (hheap : t.queue.heap = s.queue.heap)
    (hbatch : t.batch = some ⟨now, [], s.queue.due now⟩) (hqueued : t.queued = s.queued)
    (hmem : toLex (w, p) ∈ t.queue.timers_) : now < w := by
  obtain ⟨hp, τ, hτ, hw⟩ := (ht.owned.timers w p).mp hmem
  have hexp : t.expiring = s.queue.due now := expiring_some hbatch
  rw [hexp, hqueued, List.mem_append, not_or] at hp
  obtain ⟨hq, hdue⟩ := hp
  rw [hheap] at hτ
  by_contra hle
  apply hdue
  refine mem_pointers.mpr ⟨w, h.owned.mem_due.mpr ⟨?_, not_lt.mp hle, τ, hτ, hw⟩⟩
  rw [expiring_none hb]
  simpa [pointers] using hq

/-- A timer that is put back expires after the batch. -/
theorem Armed.put_back (hadd : ∀ now x, 0 < x → now ≤ addTime now x) (ha : Armed s) {b : Batch}
    (hb : s.batch = some b) {p : TimerPtr} {τ : Timer} (hτ : s.queue.heap p = some τ)
    (hr : τ.repeat_ = true) : 0 < (τ.restart addTime b.now).expiration_ := by
  have hx := ha.repeats p τ hτ hr
  unfold Timer.restart
  rw [hr]
  exact lt_of_lt_of_le (ha.now_pos b hb) (hadd _ _ (by linarith))

theorem Armed.ended (hadd : ∀ now x, 0 < x → now ≤ addTime now x) (ha : Armed s) {b : Batch}
    {q : TimerQueue} {now' : Timestamp} (hs : Inv s) (hb : s.batch = some b)
    (hq : AfterReset addTime s.queue b.now b.expired q)
    (ht : Inv { s with queue := q.rearmed now', batch := none }) :
    Armed { s with queue := q.rearmed now', batch := none } := by
  have hfd : q.timerfd = s.queue.timerfd := by rw [hq.frame]
  have hown : Owned q (s.queued ++ []) := by
    have hown := ht.owned
    rw [rearmed_frame] at hown
    exact hown.congr rfl rfl rfl
  constructor
  · intro p τ hτ hr
    rw [rearmed_frame] at hτ
    rcases hq.eq_some hτ with ⟨_, hold⟩ | ⟨_, τ₀, hτ₀, hrestart, rfl⟩
    · exact ha.repeats p τ hold hr
    · exact ha.repeats p τ₀ hτ₀ hrestart.1
  · intro b' hb'
    cases hb'
  · intro w p hmem _
    have hmem' : toLex (w, p) ∈ q.timers_ := by
      rw [rearmed_frame] at hmem
      exact hmem
    show (q.rearmed now').Covered w
    cases hfirst : q.timers_.first with
    | none => exact absurd hmem' (OrdSet.first_eq_none.mp hfirst _)
    | some it =>
      have hle := fst_first_le hfirst hmem'
      unfold rearmed
      rw [hfirst]
      dsimp only
      split
      · exact covered_resetTimerfd q now' hle
      · rename_i hpos
        -- the earliest timer was there during the batch
        obtain ⟨hit, _⟩ := OrdSet.first_eq_some.mp hfirst
        obtain ⟨hqueued, τ, hτ, hw⟩ := (hown.timers (ofLex it).1 (ofLex it).2).mp hit
        rcases hq.eq_some hτ with ⟨hp, hold⟩ | ⟨_, τ₀, hτ₀, hrestart, rfl⟩
        · have hnot : (ofLex it).2 ∉ s.queued ++ pointers s.expiring := by
            rw [List.append_nil] at hqueued
            rw [expiring_some hb, List.mem_append]
            exact not_or.mpr ⟨hqueued, hp⟩
          have hmem := hs.mem_timers hold hnot
          rw [hw] at hmem
          obtain ⟨a, haf, hd⟩ := ha.covered _ _ hmem (Or.inr (not_lt.mp hpos))
          exact Covered.mono ⟨a, hfd.trans haf, hd⟩ hle
        · have hlt := ha.put_back hadd hb hτ₀ hrestart.1
          rw [hw] at hlt
          exact absurd hlt hpos
  · intro a haf
    unfold rearmed at haf
    split at haf
    · exact ha.arming a (hfd ▸ haf)
    · split at haf
      · obtain rfl := Option.some.inj haf
        exact ⟨_, Arming.setFor _ _⟩
      · exact ha.arming a (hfd ▸ haf)

variable {C : TimerId → Prop}

theorem armed_effect (hadd : ∀ now x, 0 < x → now ≤ addTime now x) (hs : Inv s) (ht : Inv t)
    (he : Effect addTime C s t) (ha : Armed s) : Armed t := by
  cases he with
  | created w x hp =>
    refine ⟨?_, ha.now_pos, ha.covered, ha.arming⟩
    intro p' t' ht' hr
    rcases heap_setTimer_eq_some.mp ht' with ⟨_, heq⟩ | ⟨_, hold⟩
    · obtain rfl := Option.some.inj heq
      exact of_decide_eq_true hr
    · exact ha.repeats p' t' hold hr
  | asked hid => exact ⟨ha.repeats, ha.now_pos, ha.covered, ha.arming⟩
  | postponed hf => exact ⟨ha.repeats, ha.now_pos, ha.covered, ha.arming⟩
  | called now hf hc =>
    cases hc with
    | scheduled hτ =>
      refine ⟨?_, ha.now_pos, ?_, ?_⟩
      · simpa using ha.repeats
      · intro w p' hmem hw
        apply covered_scheduled _ hmem
        intro w' p'' hmem' hle
        exact ha.covered w' p'' hmem' (hw.imp_right hle.trans)
      · intro a haf
        unfold TimerQueue.scheduled at haf
        split at haf
        · obtain rfl := Option.some.inj haf
          exact ⟨_, Arming.setFor _ _⟩
        · exact ha.arming a haf
    | withdrawn hτ hseq =>
      refine ⟨?_, ha.now_pos, ?_, ha.arming⟩
      · intro p' t' ht' hr
        exact ha.repeats p' t' (heap_freed_eq_some.mp ht').2 hr
      · intro w p' hmem hw
        exact ha.covered w p' (OrdSet.mem_erase.mp hmem).2 hw
    | missed hid =>
      rw [missed_frame]
      exact ⟨ha.repeats, ha.now_pos, ha.covered, ha.arming⟩
  | swapped hf => exact ⟨ha.repeats, ha.now_pos, ha.covered, ha.arming⟩
  | began hb hnow hq =>
    have hheap := congrArg TimerQueue.heap hq
    refine ⟨?_, ?_, ?_, ?_⟩
    · rw [hheap]
      exact ha.repeats
    · intro b hb'
      obtain rfl := Option.some.inj hb'
      exact hnow
    · intro w p' hmem hw
      have hlt := hs.lt_of_began ht hb hheap rfl rfl hmem
      rcases hw with hnone | hw
      · cases hnone
      · exact absurd (lt_trans hnow hlt) (not_lt.mpr hw)
    · intro a haf
      have hfd := congrArg TimerQueue.timerfd hq
      rw [hfd] at haf
      unfold readTimerfd at haf
      split at haf
      · cases haf
      · exact ha.arming a haf
  | ran hb hτ =>
    refine ⟨ha.repeats, ?_, ?_, ha.arming⟩
    · intro b hb'
      obtain rfl := Option.some.inj hb'
      have hnow := ha.now_pos _ hb
      exact hnow
    · intro w p' hmem hw
      apply ha.covered w p' hmem
      rcases hw with hnone | hw
      · cases hnone
      · exact Or.inr hw
  | ended now' hb hrest hq => exact ha.ended hadd hs hb hq ht

/-- What `Timestamp::now()` returns in a step that asks for it. -/
def Label.now : Label → Option Timestamp
  | .addTimer _ _ _ _ now | .cancel _ _ now | .runFunctor now | .handleRead now _
  | .handleReadEnd now => some now
  | .doPendingFunctors | .runTimer => none

/-- What a step does to the timerfd: nothing, or `handleRead` reads it, or it is set for the timer
that is the earliest behind the step. -/
def SetsTimerfd (l : Label) (s t : TimerLoop) : Prop :=
  t.queue.timerfd = s.queue.timerfd ∨
  (t.queue.timerfd = none ∧ ∃ now, l = .handleRead now true) ∨
  ∃ it a, t.queue.timers_.first = some it ∧ t.queue.timerfd = some a ∧ l.now = some a.armedAt ∧
    a.SetFor (ofLex it).1

theorem setsTimerfd_of_setsFirst {l : Label} {now : Timestamp} {q : TimerQueue} (hl : l.now = some now)
    (hq : q.timerfd = s.queue.timerfd) (h : q.SetsFirst t.queue now) : SetsTimerfd l s t := by
  rcases h with hsame | ⟨it, a, hfirst, ha, rfl, hset⟩
  · exact .inl (hsame.trans hq)
  · exact .inr (.inr ⟨it, a, hfirst, ha, hl, hset⟩)

theorem Called.setsFirst {q q' : TimerQueue} {now : Timestamp} {cb : Functor} (h : Called q now cb q') :
    q.SetsFirst q' now := by
  cases h with
  | scheduled ht => exact setsFirst_scheduled ..
  | withdrawn ht hseq => exact .inl rfl
  | missed hid =>
    rw [missed_frame]
    exact .inl rfl

/-- A functor that is run at once, or queued. -/
theorem runInLoop_sets {l : Label} {s₁ : TimerLoop} {cb : Functor} {inLoopThread : Bool}
    {now : Timestamp} (hl : l.now = some now)
    (h : Inv { s₁ with functors := cb :: s₁.functors })
    (hq : s₁.queue.timerfd = s.queue.timerfd) (hs : s₁.runInLoop inLoopThread now cb = .ok t) :
    SetsTimerfd l s t := by
  cases inLoopThread with
  | true =>
    obtain ⟨q, hok, hcalled, _⟩ := h.call now rfl
    have hok' : s₁.queue.call now cb = .ok q := hok
    unfold TimerLoop.runInLoop at hs
    rw [if_pos rfl, hok'] at hs
    obtain rfl := Except.ok.inj hs
    exact setsTimerfd_of_setsFirst hl hq hcalled.setsFirst
  | false =>
    obtain rfl := Except.ok.inj hs
    exact .inl hq

theorem step_sets {l : Label} (h : Inv s) (he : (machine addTime).enabled s l)
    (hs : (machine addTime).step s l = .ok t) : SetsTimerfd l s t := by
  cases l with
  | addTimer inLoopThread p w x now =>
    let s₁ : TimerLoop := { s with
      queue := s.queue.newTimer p w x
      issued := (timerId p, s.queue.numCreated + 1) :: s.issued }
    have hrun : s₁.runInLoop inLoopThread now (.addTimerInLoop p) = .ok t := hs
    have hfd : s₁.queue.timerfd = s.queue.timerfd := rfl
    exact runInLoop_sets rfl (h.created he.2 w x) hfd hrun
  | cancel inLoopThread id now =>
    have hasked : Inv { s with functors := .cancelInLoop id :: s.functors } := ⟨h.owned, h.numbered⟩
    exact runInLoop_sets rfl hasked rfl hs
  | doPendingFunctors =>
    obtain rfl := Except.ok.inj hs
    exact .inl rfl
  | runFunctor now =>
    obtain ⟨cb, functors, hf⟩ := List.exists_cons_of_ne_nil he.2
    obtain ⟨q, hok, hcalled, _⟩ := h.call now hf
    change s.runFunctor now = .ok t at hs
    unfold runFunctor TimerLoop.runInLoop at hs
    rw [hf] at hs
    dsimp only at hs
    rw [if_pos rfl, hok] at hs
    obtain rfl := Except.ok.inj hs
    exact setsTimerfd_of_setsFirst rfl rfl hcalled.setsFirst
  | handleRead now fired =>
    obtain ⟨q, hok, hframe, _⟩ := h.handleRead he.1 now fired
    obtain rfl := Except.ok.inj (hok.symm.trans hs)
    have hfd := congrArg TimerQueue.timerfd hframe
    cases fired with
    | true => exact .inr (.inl ⟨hfd, now, rfl⟩)
    | false => exact .inl hfd
  | runTimer =>
    obtain ⟨⟨now, ran, rest⟩, hb, hrest⟩ := he
    obtain ⟨it, rest, rfl⟩ := List.exists_cons_of_ne_nil hrest
    obtain ⟨τ, _, hok, _⟩ := h.runTimer hb
    obtain rfl := Except.ok.inj (hok.symm.trans hs)
    exact .inl rfl
  | handleReadEnd now' =>
    obtain ⟨b, hb, _⟩ := he
    obtain ⟨q, hok, hq, _⟩ := h.handleReadEnd addTime hb now'
    obtain rfl := Except.ok.inj (hok.symm.trans hs)
    exact setsTimerfd_of_setsFirst rfl (by rw [hq.frame]) (setsFirst_rearmed q now')

/-- Outside of `handleRead` the timerfd fires no later than the earliest timer expires, or 100
microseconds after it was set. A step that sets it does so for the time from that moment until the
earliest timer expires, or for 100 microseconds; and never for a time that would disarm it. -/
theorem timerfd_armed (hadd : ∀ now x, 0 < x → now ≤ addTime now x)
    (h : Reachable (machine addTime) start s) :
    (s.batch = none → ∀ it ∈ s.queue.timers_.first, ∃ a, s.queue.timerfd = some a ∧
      a.deadline ≤ max (ofLex it).1 (a.armedAt + 100)) ∧
    (∀ l t, (machine addTime).enabled s l → (machine addTime).step s l = .ok t →
      SetsTimerfd l s t) ∧
    ∀ a ∈ s.queue.timerfd, ∃ w, a.SetFor w := by
  have ha : Inv s ∧ Armed s := h.invariant
    (fun _ l _ hi he hs => step_keeps (fun _ _ => armed_effect hadd) l.cancels_any hi he hs)
    ⟨inv_start, armed_start⟩
  refine ⟨?_, fun l t he hs => step_sets ha.1 he hs, ha.2.arming⟩
  intro hb it hit
  exact ha.2.covered (ofLex it).1 (ofLex it).2 (OrdSet.first_eq_some.mp hit).1 (Or.inl hb)

/-- A callback adds a timer that expired before the epoch: the end of the batch does not arm, and
the arming of the insertion stands. -/
theorem timerfd_armed_run :
    let addTime : Timestamp → ℚ → Timestamp := fun now x => now + ⌊x * 1000000⌋
    let ls : List Label := [.addTimer true 8 100 0 50, .addTimer true 16 300 0 60,
      .handleRead 100 true, .runTimer, .addTimer true 32 (-5) 0 101, .handleReadEnd 110]
    ∃ s, Run (machine addTime) start ls s ∧ s.queue.timers_.first = some (toLex (-5, 32)) ∧
      ∃ a, s.queue.timerfd = some a ∧ a.deadline ≤ max (-5) (a.armedAt + 100) := by
  intro addTime ls
  have hex : ∃ s, Run (machine addTime) start ls s ∧
      s.batch = none ∧ s.queue.timers_.first = some (toLex (-5, 32)) :=
    exists_run_of_exec _ (by decide +kernel)
  obtain ⟨s, hr, hb, hfirst⟩ := hex
  have hadd : ∀ now x, 0 < x → now ≤ addTime now x := by
    intro now x hx
    exact le_add_of_nonneg_right (Int.floor_nonneg.mpr (by positivity))
  obtain ⟨harmed, _⟩ := timerfd_armed hadd ⟨ls, hr⟩
  exact ⟨s, hr, hfirst, harmed hb _ hfirst⟩

end TimerLoop

end MuduoNet
