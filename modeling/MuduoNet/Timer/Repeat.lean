import MuduoNet.Timer.Owned

/-!
# Timers that repeat

`runEvery` creates a timer that `reset` puts back after every batch, for an interval of more than a
second. With a shorter one the constructor leaves `repeat_` unset, and the timer is deleted after
its first batch.
-/
namespace MuduoNet.TimerLoop

open Lib Lib.Outcome TimerQueue

/-- `cancel` is called with any `TimerId` but the key of the timer `k` at `p`. -/
def sparing (addTime : Timestamp → ℚ → Timestamp) (p : TimerPtr) (k : Nat) :
    Machine TimerLoop Label Fault :=
  (machine addTime).restrict fun _ l => l.Cancels fun id => id ≠ ⟨p, k⟩

instance (addTime : Timestamp → ℚ → Timestamp) (p : TimerPtr) (k : Nat) (s : TimerLoop) (l : Label) :
    Decidable ((sparing addTime p k).enabled s l) :=
  inferInstanceAs (Decidable ((machine addTime).enabled s l ∧ l.Cancels fun id => id ≠ ⟨p, k⟩))

/-- The timer `k` at `p` is to fire at `w`. -/
def ScheduledAt (s : TimerLoop) (p : TimerPtr) (k : Nat) (w : Timestamp) : Prop :=
  toLex (w, p) ∈ s.queue.timers_ ∧ s.Live p k

/-- How often the callback of the timer `k` has been called. -/
def calls (s : TimerLoop) (k : Nat) : Nat := s.fired.countP fun e => e.2 = k

def Label.expires : Label → Bool
  | .handleRead .. => true
  | _ => false

/-- From `s` on the timer `k` at `p` repeats with the interval `x`. -/
structure Repeats (addTime : Timestamp → ℚ → Timestamp) (p : TimerPtr) (k : Nat) (x : ℚ)
    (s : TimerLoop) : Prop where
  /-- After a batch in which it ran it is scheduled again. -/
  rescheduled : ∀ ls u b now v, Run (sparing addTime p k) s ls u → u.batch = some b →
    p ∈ pointers b.expired → u.Live p k → (sparing addTime p k).enabled u (.handleReadEnd now) →
    (sparing addTime p k).step u (.handleReadEnd now) = .ok v →
    v.ScheduledAt p k (addTime b.now x)
  /-- If it is due in every batch, each calls it once. -/
  counted : ∀ ls u, Run (sparing addTime p k) s ls u → u.batch = none →
    (∀ pre now fired t, pre ++ [.handleRead now fired] <+: ls → Run (sparing addTime p k) s pre t →
      ∃ w, t.ScheduledAt p k w ∧ w ≤ now) →
    u.calls k = ls.countP Label.expires

/-- The timer `k` at `p` has not been cancelled, and no functor is going to. -/
structure Spared (p : TimerPtr) (k : Nat) (s : TimerLoop) : Prop where
  cancels : ∀ id, .cancelInLoop id ∈ s.functors ++ s.pendingFunctors_ → id ≠ ⟨p, k⟩
  canceling : toLex (p, k) ∉ s.queue.cancelingTimers_
  fired : ∀ e ∈ s.fired, e.2 ≤ s.queue.numCreated

/-- The timer `k` at `p` is alive and repeats. -/
structure Repeating (p : TimerPtr) (k : Nat) (x : ℚ) (s : TimerLoop) : Prop where
  spared : Spared p k s
  timer : ∃ τ, s.queue.heap p = some τ ∧ τ.sequence_ = k ∧ τ.repeat_ = true ∧ τ.interval_ = x

/-- 1 if the timer at `p` is in the batch and has not run yet. -/
def toRun (s : TimerLoop) (p : TimerPtr) : Nat :=
  match s.batch with
  | none => 0
  | some b => if p ∈ pointers b.rest then 1 else 0

/-- 1 if a batch begins that holds the timer at `p`. -/
def taken (s : TimerLoop) (p : TimerPtr) : Label → Nat
  | .handleRead now _ => if p ∈ pointers (s.queue.due now) then 1 else 0
  | _ => 0

section

variable {addTime : Timestamp → ℚ → Timestamp} {s t : TimerLoop} {p : TimerPtr} {k : Nat} {x : ℚ}

theorem spared_start (p : TimerPtr) (k : Nat) : Spared p k start := by
  constructor
  · simp [start]
  · simp [start, TimerQueue.new]
  · simp [start]

theorem spared_effect (hs : Inv s) (he : Effect addTime (fun id => id ≠ ⟨p, k⟩) s t)
    (h : Spared p k s) : Spared p k t := by
  have hfired : ∀ e ∈ s.fired, e.2 ≤ t.queue.numCreated :=
    fun e hmem => (h.fired e hmem).trans he.numCreated
  refine ⟨he.asked_keep h.cancels, ?_, ?_⟩
  · intro hmem
    rcases he.canceling h.cancels hmem with hold | hne
    · exact h.canceling hold
    · exact hne rfl
  · cases he with
    | ran hb hτ =>
      intro e he
      rcases List.mem_append.mp he with he | he
      · exact hfired e he
      · rw [List.mem_singleton.mp he]
        exact (hs.numbered.range _ _ hτ).2
    | _ => exact hfired

theorem Repeating.restarts (h : Repeating p k x s) {τ : Timer} (hτ : s.queue.heap p = some τ) :
    s.queue.Restarts p τ := by
  obtain ⟨τ', hτ', hk, hrepeat, _⟩ := h.timer
  obtain rfl := Option.some.inj (hτ.symm.trans hτ')
  refine ⟨hrepeat, ?_⟩
  rw [hk]
  exact h.spared.canceling

/-- Nothing but its own cancel deletes a timer that repeats. -/
theorem repeating_effect (hs : Inv s) (he : Effect addTime (fun id => id ≠ ⟨p, k⟩) s t)
    (h : Repeating p k x s) : Repeating p k x t := by
  refine ⟨spared_effect hs he h.spared, ?_⟩
  obtain ⟨τ, hτ, hk, hrepeat, hx⟩ := h.timer
  cases he with
  | created w x hp =>
    obtain ⟨_, _, hfree⟩ := hp
    refine ⟨τ, (heap_setTimer_ne _ _ ?_).trans hτ, hk, hrepeat, hx⟩
    rintro rfl
    rw [hfree] at hτ
    cases hτ
  | called now hf hc =>
    have hcancels := h.spared.cancels
    rw [hf] at hcancels
    cases hc with
    | scheduled ht => exact ⟨τ, by rw [heap_scheduled]; exact hτ, hk, hrepeat, hx⟩
    | @withdrawn id τ' ht hseq =>
      refine ⟨τ, heap_freed_eq_some.mpr ⟨?_, hτ⟩, hk, hrepeat, hx⟩
      rintro rfl
      obtain rfl := Option.some.inj (ht.symm.trans hτ)
      exact hcancels id List.mem_cons_self (by rw [← hk, hseq])
    | missed hid => exact ⟨τ, by rw [missed_frame]; exact hτ, hk, hrepeat, hx⟩
  | began hb hnow hq => exact ⟨τ, by rw [hq]; exact hτ, hk, hrepeat, hx⟩
  | @ended b q now' hb hrest hq =>
    rw [rearmed_frame]
    by_cases hexp : p ∈ pointers b.expired
    · exact ⟨_, hq.put_back hexp hτ (h.restarts hτ), hk, hrepeat, hx⟩
    · exact ⟨τ, (hq.kept hexp).trans hτ, hk, hrepeat, hx⟩
  | _ => exact ⟨τ, hτ, hk, hrepeat, hx⟩

theorem repeating_run {ls : List Label} (h : Run (sparing addTime p k) s ls t) (hs : Inv s)
    (hr : Repeating p k x s) : Inv t ∧ Repeating p k x t := by
  apply h.invariant _ ⟨hs, hr⟩
  intro s l t hi he hstep
  exact step_keeps (fun _ _ hs _ he hr => repeating_effect hs he hr) he.2 hi he.1 hstep

theorem spared_run {ls : List Label} (h : Run (sparing addTime p k) start ls s) :
    Inv s ∧ Spared p k s := by
  apply h.invariant _ ⟨inv_start, spared_start p k⟩
  intro s l t hi he hstep
  exact step_keeps (fun _ _ hs _ he hr => spared_effect hs he hr) he.2 hi he.1 hstep

theorem runInLoop_frame {inLoopThread : Bool} {now : Timestamp} {cb : Functor}
    (h : s.runInLoop inLoopThread now cb = .ok t) : t.batch = s.batch ∧ t.fired = s.fired := by
  unfold TimerLoop.runInLoop at h
  split at h
  · obtain ⟨q, _, h⟩ := bind_eq_ok h
    obtain rfl := Except.ok.inj h
    exact ⟨rfl, rfl⟩
  · obtain rfl := Except.ok.inj h
    exact ⟨rfl, rfl⟩

theorem runFunctor_frame {now : Timestamp} (h : s.runFunctor now = .ok t) :
    t.batch = s.batch ∧ t.fired = s.fired := by
  unfold runFunctor at h
  split at h
  · obtain rfl := Except.ok.inj h
    exact ⟨rfl, rfl⟩
  · obtain ⟨hbatch, hfired⟩ := runInLoop_frame h
    exact ⟨hbatch, hfired⟩

theorem toRun_of_batch (h : t.batch = s.batch) : t.toRun p = s.toRun p := by
  unfold toRun
  rw [h]

theorem calls_of_fired (h : t.fired = s.fired) : t.calls k = s.calls k := by
  unfold calls
  rw [h]

theorem Inv.toRun_fresh (hs : Inv s) (hp : s.Fresh p) : s.toRun p = 0 := by
  unfold toRun
  split
  · rfl
  · rename_i b hb
    refine if_neg ?_
    intro hmem
    refine hs.not_expiring hp ?_
    rw [expiring_some hb, Batch.expired, pointers_append]
    exact List.mem_append_right _ hmem

/-- `runEvery` creates a timer that repeats if the interval is long enough. -/
theorem repeating_runEvery {w now : Timestamp} {inLoopThread : Bool} (hx : 1 < x) (hs : Inv s)
    (hspared : Spared p (s.queue.numCreated + 1) s)
    (he : (machine addTime).enabled s (.addTimer inLoopThread p w x now))
    (hstep : (machine addTime).step s (.addTimer inLoopThread p w x now) = .ok t) :
    Inv t ∧ Repeating p (s.queue.numCreated + 1) x t ∧
      t.calls (s.queue.numCreated + 1) = 0 ∧ t.toRun p = 0 := by
  obtain ⟨_, hp⟩ := he
  let s₁ : TimerLoop := { s with
    queue := s.queue.newTimer p w x
    issued := (timerId p, s.queue.numCreated + 1) :: s.issued }
  have h₁ := hs.created hp w x
  have hcreated : Effect addTime (fun id => id ≠ ⟨p, s.queue.numCreated + 1⟩) s
      { s₁ with functors := .addTimerInLoop p :: s.functors } := .created w x hp
  have hr₁ : Repeating p (s.queue.numCreated + 1) x
      { s₁ with functors := .addTimerInLoop p :: s.functors } := by
    refine ⟨spared_effect hs hcreated hspared, _, heap_setTimer_self _ _ _, rfl, ?_, rfl⟩
    exact decide_eq_true hx
  obtain ⟨t', hok, heff, hinv⟩ := Inv.runInLoop (s := s₁) addTime
    (fun id => id ≠ ⟨p, s.queue.numCreated + 1⟩) h₁ inLoopThread now
  obtain rfl := Except.ok.inj (hok.symm.trans hstep)
  obtain ⟨hbatch, hfired⟩ := runInLoop_frame hok
  refine ⟨hinv, repeating_effect h₁ heff hr₁, ?_, ?_⟩
  · rw [calls_of_fired hfired]
    refine List.countP_eq_zero.mpr ?_
    intro e hmem
    have hle := hspared.fired e hmem
    simp
    omega
  · rw [toRun_of_batch hbatch]
    exact hs.toRun_fresh hp

/-- The callback of the timer is called when its turn comes, and of no other then. -/
theorem Repeating.runTimer_calls (hr : Repeating p k x s) (hs : Inv s)
    (he : ∃ b ∈ s.batch, b.rest ≠ []) (hstep : s.runTimer = .ok t) :
    t.calls k + t.toRun p = s.calls k + s.toRun p := by
  obtain ⟨⟨now, ran, rest⟩, hb, hrest⟩ := he
  obtain ⟨it, rest, rfl⟩ := List.exists_cons_of_ne_nil hrest
  obtain ⟨τ, hτ, hok, _⟩ := hs.runTimer hb
  obtain rfl := Except.ok.inj (hok.symm.trans hstep)
  have hcalls : s.fired.countP (fun e => e.2 = k) + (if τ.sequence_ = k then 1 else 0) =
      (s.fired ++ [(s.batches, τ.sequence_)]).countP (fun e => e.2 = k) := by
    rw [List.countP_append, List.countP_singleton]
    simp
  obtain ⟨τ', hτ', hk, _⟩ := hr.timer
  have hnodup := (List.nodup_append.mp (hs.batch_nodup hb)).2.1
  unfold calls toRun
  rw [hb, ← hcalls]
  dsimp only
  by_cases heq : p = (ofLex it).2
  · subst heq
    obtain rfl := Option.some.inj (hτ.symm.trans hτ')
    have hgone : (ofLex it).2 ∉ pointers rest := (List.nodup_cons.mp hnodup).1
    have hfirst : (ofLex it).2 ∈ pointers (it :: rest) := List.mem_cons_self
    rw [if_pos hk, if_neg hgone, if_pos hfirst]
  · have hne : τ.sequence_ ≠ k := by
      intro hseq
      exact heq (hs.numbered.inj p _ τ' τ hτ' hτ (hk.trans hseq.symm))
    have hsame : p ∈ pointers (it :: rest) ↔ p ∈ pointers rest := by
      unfold pointers
      rw [List.map_cons, List.mem_cons, or_iff_right heq]
    rw [if_neg hne, if_congr hsame rfl rfl]
    rfl

/-- A batch takes up the timer if it is due, and calls it once. -/
theorem step_calls (hs : Inv s) (hr : Repeating p k x s) {l : Label}
    (he : (machine addTime).enabled s l) (hstep : (machine addTime).step s l = .ok t) :
    t.calls k + t.toRun p = s.calls k + s.toRun p + s.taken p l := by
  cases l with
  | addTimer | cancel =>
    obtain ⟨hbatch, hfired⟩ := runInLoop_frame hstep
    rw [calls_of_fired hfired, toRun_of_batch hbatch]
    rfl
  | doPendingFunctors =>
    obtain rfl := Except.ok.inj hstep
    rfl
  | runFunctor now =>
    obtain ⟨hbatch, hfired⟩ := runFunctor_frame hstep
    rw [calls_of_fired hfired, toRun_of_batch hbatch]
    rfl
  | handleRead now fired =>
    obtain ⟨hb, _, _⟩ := he
    obtain ⟨q, hok, _, _⟩ := hs.handleRead hb now fired
    obtain rfl := Except.ok.inj (hok.symm.trans hstep)
    have hzero : s.toRun p = 0 := by
      unfold toRun
      rw [hb]
    rw [hzero]
    rfl
  | runTimer => exact hr.runTimer_calls hs he hstep
  | handleReadEnd now' =>
    obtain ⟨b, hb, hrest⟩ := he
    obtain ⟨q, hok, _, _⟩ := hs.handleReadEnd addTime hb now'
    obtain rfl := Except.ok.inj (hok.symm.trans hstep)
    have hzero : s.toRun p = 0 := by
      unfold toRun
      rw [hb]
      dsimp only
      rw [hrest]
      simp [pointers]
    rw [hzero]
    rfl

/-- A timer that is due in every batch of a run is called once in each. -/
theorem run_calls {ls : List Label} (h : Run (sparing addTime p k) s ls t) (hs : Inv s)
    (hr : Repeating p k x s)
    (hdue : ∀ pre now fired u, pre ++ [.handleRead now fired] <+: ls →
      Run (sparing addTime p k) s pre u → ∃ w, u.ScheduledAt p k w ∧ w ≤ now) :
    t.calls k + t.toRun p = s.calls k + s.toRun p + ls.countP Label.expires := by
  induction h with
  | nil s => rfl
  | @cons s u t l ls he hstep _ ih =>
    obtain ⟨hu, hru⟩ := repeating_run (.single he hstep) hs hr
    have hone := step_calls hs hr he.1 hstep
    have hrest := ih hu hru ?_
    · rw [hrest, hone, List.countP_cons]
      cases l with
      | handleRead now fired =>
        obtain ⟨w, ⟨hmem, _⟩, hle⟩ := hdue [] now fired s ⟨ls, rfl⟩ (.nil s)
        obtain ⟨hnot, τ, hτ, hw⟩ := (hs.owned.timers w p).mp hmem
        have hp : p ∈ pointers (s.queue.due now) :=
          hs.owned.mem_pointers_due.mpr ⟨hnot, τ, hτ, hw ▸ hle⟩
        unfold taken
        dsimp only
        rw [if_pos hp]
        simp [Label.expires]
        omega
      | _ => rfl
    · intro pre now fired v hpre hrun
      refine hdue (l :: pre) now fired v ?_ (.cons he hstep hrun)
      obtain ⟨post, rfl⟩ := hpre
      exact ⟨post, rfl⟩

theorem Repeating.repeats (hs : Inv s) (hr : Repeating p k x s) (hcalls : s.calls k = 0)
    (hrun : s.toRun p = 0) : Repeats addTime p k x s := by
  constructor
  · intro ls u b now v h hb hexp _ _ hstep
    obtain ⟨hu, hru⟩ := repeating_run h hs hr
    obtain ⟨q, hok, hq, hinv⟩ := hu.handleReadEnd addTime hb now
    obtain rfl := Except.ok.inj (hok.symm.trans hstep)
    obtain ⟨τ, hτ, hk, hrepeat, hx⟩ := hru.timer
    have hback := hq.put_back hexp hτ (hru.restarts hτ)
    have hwhen : (τ.restart addTime b.now).expiration_ = addTime b.now x := by
      unfold Timer.restart
      rw [hrepeat, hx]
      rfl
    have hheap : (q.rearmed now).heap p = some (τ.restart addTime b.now) := by
      rw [rearmed_frame]
      exact hback
    refine ⟨?_, _, hheap, hk⟩
    rw [← hwhen]
    refine (hinv.owned.timers _ p).mpr ⟨?_, _, hheap, rfl⟩
    -- the batch is over, and no functor held its timers
    intro hmem
    have hqueued : p ∈ u.queued := by simpa [queued, expiring, pointers] using hmem
    have hnodup := hu.owned.nodup
    rw [expiring_some hb] at hnodup
    exact List.disjoint_of_nodup_append hnodup hqueued hexp
  · intro ls u h hb hdue
    have hsum := run_calls h hs hr hdue
    have hzero : u.toRun p = 0 := by
      unfold toRun
      rw [hb]
    omega

/-- A timer that does not repeat is gone after its first batch. -/
theorem not_repeats (addTime : Timestamp → ℚ → Timestamp) (hx : ¬ 1 < x) :
    ∃ t, (machine addTime).enabled start (.addTimer true 8 (addTime 0 x) x 0) ∧
      (machine addTime).step start (.addTimer true 8 (addTime 0 x) x 0) = .ok t ∧
      ¬ Repeats addTime 8 1 x t := by
  have hp : start.Fresh 8 := by decide
  have he : (machine addTime).enabled start (.addTimer true 8 (addTime 0 x) x 0) :=
    ⟨fun _ => by decide, hp⟩
  -- it is created and scheduled
  have h₁ := inv_start.created hp (addTime 0 x) x
  obtain ⟨q, hok, hcalled, ht⟩ := h₁.call 0 rfl
  let t : TimerLoop := { start with queue := q, issued := [(timerId 8, 1)] }
  have hstep : (machine addTime).step start (.addTimer true 8 (addTime 0 x) x 0) = .ok t := by
    show TimerLoop.runInLoop _ true 0 (.addTimerInLoop 8) = _
    unfold TimerLoop.runInLoop
    rw [if_pos rfl]
    show (start.queue.newTimer 8 (addTime 0 x) x).call 0 (.addTimerInLoop 8) >>= _ = _
    rw [hok]
    rfl
  refine ⟨t, he, hstep, ?_⟩
  intro hrepeats
  let τ : Timer := .new (addTime 0 x) x 1
  have hτ : t.queue.heap 8 = some τ := by
    show q.heap 8 = some τ
    cases hcalled with
    | scheduled _ =>
      rw [heap_scheduled]
      exact heap_setTimer_self start.queue 8 (some τ)
  -- a batch takes it up and calls it
  let now : Timestamp := max (addTime 0 x) 1
  have ht : t.Inv := ht
  obtain ⟨q', hok', hframe, hinv⟩ := ht.handleRead rfl now false
  have hnow : 0 < now := lt_of_lt_of_le one_pos (le_max_right _ _)
  have hread : (sparing addTime 8 1).enabled t (.handleRead now false) := ⟨⟨rfl, rfl, hnow⟩, trivial⟩
  obtain ⟨ls, hr⟩ := exists_run_batch addTime (fun id => id ≠ ⟨8, 1⟩) hinv rfl
  have hr' : Run (sparing addTime 8 1) t (.handleRead now false :: ls) _ := .cons hread hok' hr
  obtain ⟨hu, _⟩ := spared_run (.cons ⟨he, trivial⟩ hstep hr')
  have hdue : 8 ∈ pointers (t.queue.due now) := by
    refine ht.owned.mem_pointers_due.mpr ⟨?_, τ, hτ, le_max_left _ _⟩
    simp [t, queued, expiring, pointers, start]
  have hexp : 8 ∈ pointers (Batch.expired ⟨now, [] ++ t.queue.due now, []⟩) := by
    simpa [Batch.expired] using hdue
  -- and deletes it
  obtain ⟨q'', hok'', hq, _⟩ := hu.handleReadEnd addTime rfl 0
  have hheap : q'.heap 8 = some τ := by
    rw [hframe]
    exact hτ
  have hend := hrepeats.rescheduled _ _ _ 0 _ hr' rfl hexp ⟨τ, hheap, rfl⟩
    ⟨⟨_, rfl, rfl⟩, trivial⟩ hok''
  obtain ⟨_, τ', hτ', hk⟩ := hend
  rw [rearmed_frame] at hτ'
  have hstay : ¬ q'.Restarts 8 τ := fun hrestarts => hx (of_decide_eq_true hrestarts.1)
  exact hq.gone hu.numbered hexp hheap hstay hτ' hk

/-- `runEvery(interval, cb)` makes a timer that repeats in every run in which it is not cancelled,
exactly for the intervals of more than a second. -/
theorem runEvery_repeats_iff (addTime : Timestamp → ℚ → Timestamp) (interval : ℚ) :
    (∀ ls s inLoopThread p now now' t,
      Run (sparing addTime p (s.queue.numCreated + 1)) start ls s →
      (machine addTime).enabled s (.addTimer inLoopThread p (addTime now interval) interval now') →
      (machine addTime).step s (.addTimer inLoopThread p (addTime now interval) interval now') =
        .ok t →
      Repeats addTime p (s.queue.numCreated + 1) interval t) ↔ 1 < interval := by
  constructor
  · intro hall
    by_contra hx
    obtain ⟨t, he, hstep, hnot⟩ := not_repeats addTime hx
    exact hnot (hall [] start true 8 0 0 t (.nil start) he hstep)
  · intro hx ls s inLoopThread p now now' t hr he hstep
    obtain ⟨hs, hspared⟩ := spared_run hr
    obtain ⟨ht, hrepeating, hcalls, hrun⟩ := repeating_runEvery hx hs hspared he hstep
    exact hrepeating.repeats ht hcalls hrun

end

/-- A timer of half a second fires once. -/
theorem half_second_fires_once :
    let addTime : Timestamp → ℚ → Timestamp := fun now x => now + ⌊x * 1000000⌋
    ∃ t u, Run (sparing addTime 8 1) start [.addTimer true 8 (addTime 100 (1 / 2)) (1 / 2) 100] t ∧
      Run (sparing addTime 8 1) t [.handleRead 500100 true, .runTimer, .handleReadEnd 500200,
        .handleRead 1000200 true, .handleReadEnd 1000300] u ∧
      u.calls 1 = 1 ∧ u.queue.timers_.size = 0 := by
  intro addTime
  let once (u : TimerLoop) : Prop := u.calls 1 = 1 ∧ u.queue.timers_.size = 0
  let continues (t : TimerLoop) : Prop :=
    ((sparing addTime 8 1).exec t [.handleRead 500100 true, .runTimer, .handleReadEnd 500200,
      .handleRead 1000200 true, .handleReadEnd 1000300]).any fun u => once u
  have ht : ∃ t, Run (sparing addTime 8 1) start
      [.addTimer true 8 (addTime 100 (1 / 2)) (1 / 2) 100] t ∧ continues t :=
    exists_run_of_exec _ (by decide +kernel)
  obtain ⟨t, ht, hu⟩ := ht
  obtain ⟨u, hu, honce⟩ := exists_run_of_exec once hu
  exact ⟨t, u, ht, hu, honce⟩

end MuduoNet.TimerLoop
