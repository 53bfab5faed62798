import MuduoNet.Timer.Loop
import Mathlib.Logic.Relation

/-!
# Every timer is in one place

`Effect` says once what a step of the loop does: a functor is made, put off or run, a batch is
begun, one of its callbacks starts, the batch ends. Each effect keeps the invariant, and the
later modules look at the effects only.
-/
namespace MuduoNet.TimerLoop

open Lib Lib.Outcome TimerQueue

structure Inv (s : TimerLoop) : Prop where
  owned : Owned s.queue (s.queued ++ pointers s.expiring)
  numbered : Numbered s.queue

/-- What a functor makes of the queue. -/
inductive Called (q : TimerQueue) (now : Timestamp) : Functor → TimerQueue → Prop
  | scheduled {p : TimerPtr} {t : Timer} (ht : q.heap p = some t) :
      Called q now (.addTimerInLoop p) (q.scheduled p t now)
  | withdrawn {id : TimerId} {t : Timer} (ht : q.heap id.timer_ = some t)
      (hseq : t.sequence_ = id.sequence_) :
      Called q now (.cancelInLoop id) ((q.withdrawn id.timer_ t).freed id.timer_ t)
  | missed {id : TimerId} (hid : toLex (id.timer_, id.sequence_) ∉ q.activeTimers_) :
      Called q now (.cancelInLoop id) (q.missed id)

/-- A functor that is called at once counts as the first of `functors`. `C` says which handles
are passed to `cancel`. -/
inductive Effect (addTime : Timestamp → ℚ → Timestamp) (C : TimerId → Prop) (s : TimerLoop) :
    TimerLoop → Prop
  | created {p : TimerPtr} (when' : Timestamp) (interval : ℚ) (hp : s.Fresh p) :
      Effect addTime C s { s with
        queue := s.queue.newTimer p when' interval
        functors := .addTimerInLoop p :: s.functors
        issued := (timerId p, s.queue.numCreated + 1) :: s.issued }
  | asked {id : TimerId} (hid : C id) :
      Effect addTime C s { s with functors := .cancelInLoop id :: s.functors }
  | postponed {cb : Functor} {functors : List Functor} (hf : s.functors = cb :: functors) :
      Effect addTime C s { s with functors, pendingFunctors_ := s.pendingFunctors_ ++ [cb] }
  | called {cb : Functor} {functors : List Functor} {q : TimerQueue} (now : Timestamp)
      (hf : s.functors = cb :: functors) (hc : Called s.queue now cb q) :
      Effect addTime C s { s with functors, queue := q }
  | swapped (hf : s.functors = []) :
      Effect addTime C s { s with pendingFunctors_ := [], functors := s.pendingFunctors_ }
  | began {now : Timestamp} {fired : Bool} {q : TimerQueue} (hb : s.batch = none) (hnow : 0 < now)
      (hq : q = { s.queue with
        timers_ := q.timers_, activeTimers_ := q.activeTimers_, cancelingTimers_ := .empty,
        callingExpiredTimers_ := true, timerfd := (s.queue.readTimerfd fired).timerfd }) :
      Effect addTime C s { s with
        queue := q, batch := some ⟨now, [], s.queue.due now⟩, batches := s.batches + 1 }
  | ran {now : Timestamp} {ran rest : List Entry} {it : Entry} {t : Timer}
      (hb : s.batch = some ⟨now, ran, it :: rest⟩) (ht : s.queue.heap (ofLex it).2 = some t) :
      Effect addTime C s { s with
        batch := some ⟨now, ran ++ [it], rest⟩, fired := s.fired ++ [(s.batches, t.sequence_)] }
  | ended {b : Batch} {q : TimerQueue} (now' : Timestamp) (hb : s.batch = some b)
      (hrest : b.rest = []) (hq : AfterReset addTime s.queue b.now b.expired q) :
      Effect addTime C s { s with queue := q.rearmed now', batch := none }

/-- Effects between states that keep the invariant. -/
def Effects (addTime : Timestamp → ℚ → Timestamp) (C : TimerId → Prop) :
    TimerLoop → TimerLoop → Prop :=
  Relation.ReflTransGen fun s t => Effect addTime C s t ∧ Inv s ∧ Inv t

section

variable {addTime : Timestamp → ℚ → Timestamp} {C : TimerId → Prop} {s t : TimerLoop}

theorem calls_of_idle (hb : s.batch = none) : s.Calls := by
  intro b hb'
  rw [hb] at hb'
  cases hb'

theorem expiring_none (hb : s.batch = none) : s.expiring = [] := by
  rw [expiring, hb]

theorem expiring_some {b : Batch} (hb : s.batch = some b) : s.expiring = b.expired := by
  rw [expiring, hb]

theorem inv_start : Inv start := ⟨owned_new, numbered_new⟩

theorem Inv.batch_nodup (h : Inv s) {b : Batch} (hb : s.batch = some b) :
    (pointers b.ran ++ pointers b.rest).Nodup := by
  have hown := h.owned.nodup
  rw [expiring_some hb, Batch.expired, pointers_append] at hown
  exact (List.nodup_append.mp hown).2.1

/-- A timer that is created is in no batch. -/
theorem Inv.not_expiring (h : Inv s) {p : TimerPtr} (hp : s.Fresh p) :
    p ∉ pointers s.expiring := by
  intro hmem
  obtain ⟨τ, hτ⟩ := h.owned.alive p (List.mem_append_right _ hmem)
  rw [hp.2.2] at hτ
  cases hτ

/-- The cancels that wait are of handles that were passed to `cancel`. -/
def Asked (C : TimerId → Prop) (s : TimerLoop) : Prop :=
  ∀ id, .cancelInLoop id ∈ s.functors ++ s.pendingFunctors_ → C id

theorem Effect.asked_keep (he : Effect addTime C s t) (h : Asked C s) : Asked C t := by
  intro id hid
  cases he with
  | created w x hp =>
    apply h
    simpa using hid
  | asked hC =>
    rcases List.mem_cons.mp hid with heq | hid
    · obtain rfl := Functor.cancelInLoop.inj heq
      exact hC
    · exact h id hid
  | postponed hf =>
    apply h
    rw [hf]
    simp at hid ⊢
    tauto
  | called now hf hc =>
    apply h
    rw [hf]
    exact List.mem_cons_of_mem _ hid
  | swapped hf =>
    apply h
    rw [hf]
    simpa using hid
  | began hb hnow hq => exact h id hid
  | ran hb hτ => exact h id hid
  | ended now' hb hrest hq => exact h id hid

/-- What is remembered as cancelled was so before, or a cancel of it has come. -/
theorem Effect.canceling (he : Effect addTime C s t) (h : Asked C s) {p : TimerPtr} {k : Nat}
    (hk : toLex (p, k) ∈ t.queue.cancelingTimers_) :
    toLex (p, k) ∈ s.queue.cancelingTimers_ ∨ C ⟨p, k⟩ := by
  cases he with
  | called now hf hc =>
    cases hc with
    | scheduled ht =>
      rw [cancelingTimers_scheduled] at hk
      exact .inl hk
    | withdrawn ht hseq => exact .inl hk
    | missed hid =>
      rcases mem_canceling_missed hk with hold | heq
      · exact .inl hold
      · rw [toLex_inj, Prod.mk.injEq] at heq
        right
        rw [heq.1, heq.2]
        refine h _ ?_
        rw [hf]
        exact List.mem_cons_self
  | began hb hnow hq =>
    rw [hq] at hk
    simp at hk
  | ended now' hb hrest hq =>
    rw [rearmed_frame, hq.frame] at hk
    exact .inl hk
  | created | asked | postponed | swapped | ran => exact .inl hk

theorem Inv.created (h : Inv s) {p : TimerPtr} (hp : s.Fresh p) (w : Timestamp) (x : ℚ) :
    Inv { s with
      queue := s.queue.newTimer p w x
      functors := .addTimerInLoop p :: s.functors
      issued := (timerId p, s.queue.numCreated + 1) :: s.issued } := by
  obtain ⟨_, haddr, hfree⟩ := hp
  exact ⟨h.owned.newTimer hfree haddr w x, h.numbered.newTimer hfree w x⟩

theorem Inv.postponed (h : Inv s) {cb : Functor} {functors : List Functor}
    (hf : s.functors = cb :: functors) :
    Inv { s with functors, pendingFunctors_ := s.pendingFunctors_ ++ [cb] } := by
  refine ⟨h.owned.perm ?_, h.numbered⟩
  apply List.Perm.append_right
  show List.Perm ((s.functors ++ s.pendingFunctors_).flatMap Functor.timers)
    ((functors ++ (s.pendingFunctors_ ++ [cb])).flatMap Functor.timers)
  rw [hf, ← List.append_assoc]
  exact (List.perm_append_singleton cb _).symm.flatMap_right _

/-- A functor that runs meets no fault, and hands its timer over to the queue. -/
theorem Inv.call (h : Inv s) {cb : Functor} {functors : List Functor} (now : Timestamp)
    (hf : s.functors = cb :: functors) :
    ∃ q, s.queue.call now cb = .ok q ∧ Called s.queue now cb q ∧
      Inv { s with functors, queue := q } := by
  have hown := h.owned
  have hnum := h.numbered
  have hqueued : s.queued = cb.timers ++ (functors ++ s.pendingFunctors_).flatMap Functor.timers := by
    rw [queued, hf]
    rfl
  rw [hqueued, List.append_assoc] at hown
  cases cb with
  | addTimerInLoop p =>
    obtain ⟨t, ht⟩ := hown.alive p List.mem_cons_self
    refine ⟨_, addTimerInLoop_eq hown ht now, .scheduled ht, ?_⟩
    exact ⟨hown.scheduled_queue ht now, hnum.congr (by simp) (by simp) (by simp)⟩
  | cancelInLoop id =>
    by_cases hid : toLex (id.timer_, id.sequence_) ∈ s.queue.activeTimers_
    · obtain ⟨t, ht, hseq, hmem, hok⟩ := cancelInLoop_found hown hid
      have hnum' : Numbered (s.queue.withdrawn id.timer_ t) := hnum.congr rfl rfl rfl
      refine ⟨_, hok, .withdrawn ht hseq, ?_⟩
      exact ⟨(hown.withdrawn ht hmem).freed, hnum'.freed ht⟩
    · refine ⟨_, cancelInLoop_missed hown hid, .missed hid, ?_⟩
      rw [missed_frame]
      exact ⟨hown.congr rfl rfl rfl, hnum.congr rfl rfl rfl⟩

theorem Inv.swapped (h : Inv s) (hf : s.functors = []) :
    Inv { s with pendingFunctors_ := [], functors := s.pendingFunctors_ } := by
  refine ⟨?_, h.numbered⟩
  have hqueued : s.queued = (s.pendingFunctors_ ++ []).flatMap Functor.timers := by
    rw [queued, hf, List.append_nil]
    rfl
  have hown := h.owned
  rw [hqueued] at hown
  exact hown

theorem Inv.handleRead (h : Inv s) (hb : s.batch = none) (now : Timestamp) (fired : Bool) :
    ∃ q : TimerQueue, s.handleRead now fired = .ok { s with
        queue := q, batch := some ⟨now, [], s.queue.due now⟩, batches := s.batches + 1 } ∧
      q = { s.queue with
        timers_ := q.timers_, activeTimers_ := q.activeTimers_, cancelingTimers_ := .empty,
        callingExpiredTimers_ := true, timerfd := (s.queue.readTimerfd fired).timerfd } ∧
      Inv { s with
        queue := q, batch := some ⟨now, [], s.queue.due now⟩, batches := s.batches + 1 } := by
  obtain ⟨q, hok, hown, hframe⟩ := handleReadBegin_spec h.owned now fired
  refine ⟨q, ?_, hframe, ?_, ?_⟩
  · unfold TimerLoop.handleRead
    rw [hok]
    rfl
  · rw [expiring_none hb] at hown
    apply hown.perm
    show List.Perm (_ ++ (s.queued ++ [])) (s.queued ++ _)
    rw [List.append_nil]
    exact List.perm_append_comm
  · rw [hframe]
    exact h.numbered.congr rfl rfl rfl

theorem Inv.runTimer (h : Inv s) {now : Timestamp} {ran rest : List Entry} {it : Entry}
    (hb : s.batch = some ⟨now, ran, it :: rest⟩) :
    ∃ τ, s.queue.heap (ofLex it).2 = some τ ∧
      s.runTimer = .ok { s with
        batch := some ⟨now, ran ++ [it], rest⟩, fired := s.fired ++ [(s.batches, τ.sequence_)] } ∧
      Inv { s with
        batch := some ⟨now, ran ++ [it], rest⟩, fired := s.fired ++ [(s.batches, τ.sequence_)] } := by
  have hexp : s.expiring = ran ++ it :: rest := expiring_some hb
  have hmem : (ofLex it).2 ∈ s.queued ++ pointers s.expiring := by
    rw [hexp]
    simp [pointers]
  obtain ⟨τ, hτ⟩ := h.owned.alive _ hmem
  refine ⟨τ, hτ, ?_, ?_, h.numbered⟩
  · unfold TimerLoop.runTimer
    rw [hb]
    dsimp only
    rw [deref_eq hτ]
    rfl
  · have hown := h.owned
    rw [hexp] at hown
    show Owned s.queue (s.queued ++ pointers (ran ++ [it] ++ rest))
    rw [List.append_assoc]
    exact hown

variable (addTime) in
theorem Inv.handleReadEnd (h : Inv s) {b : Batch} (hb : s.batch = some b) (now' : Timestamp) :
    ∃ q : TimerQueue,
      s.handleReadEnd addTime now' = .ok { s with queue := q.rearmed now', batch := none } ∧
      AfterReset addTime s.queue b.now b.expired q ∧
      Inv { s with queue := q.rearmed now', batch := none } := by
  have hown := h.owned.perm List.perm_append_comm
  rw [expiring_some hb] at hown
  obtain ⟨q, hok, hown', hnum', hq⟩ := handleReadEnd_spec addTime hown h.numbered b.now now'
  refine ⟨q, ?_, hq, ?_, ?_⟩
  · unfold TimerLoop.handleReadEnd
    rw [hb]
    dsimp only
    rw [hok]
    rfl
  · show Owned (q.rearmed now') (s.queued ++ [])
    rw [List.append_nil, rearmed_frame]
    exact hown'.congr rfl rfl rfl
  · show Numbered (q.rearmed now')
    rw [rearmed_frame]
    exact hnum'.congr rfl rfl rfl

variable (addTime C) in
theorem Inv.runInLoop {cb : Functor} (h : Inv { s with functors := cb :: s.functors })
    (inLoopThread : Bool) (now : Timestamp) :
    ∃ t, s.runInLoop inLoopThread now cb = .ok t ∧
      Effect addTime C { s with functors := cb :: s.functors } t ∧ Inv t := by
  cases inLoopThread with
  | true =>
    obtain ⟨q, hok, hcalled, hinv⟩ := h.call now rfl
    refine ⟨_, ?_, .called now rfl hcalled, hinv⟩
    unfold TimerLoop.runInLoop
    rw [if_pos rfl, hok]
    rfl
  | false => exact ⟨_, rfl, .postponed rfl, h.postponed rfl⟩

/-- The handle of a `cancel` satisfies `C`. -/
def Label.Cancels (C : TimerId → Prop) : Label → Prop
  | .cancel _ timerId _ => C timerId
  | _ => True

instance [DecidablePred C] (l : Label) : Decidable (l.Cancels C) :=
  match l with
  | .cancel _ timerId _ => inferInstanceAs (Decidable (C timerId))
  | .addTimer .. | .doPendingFunctors | .runFunctor _ | .handleRead .. | .runTimer
  | .handleReadEnd _ => isTrue trivial

theorem Effects.one (hs : Inv s) (ht : Inv t) (he : Effect addTime C s t) :
    Effects addTime C s t :=
  Relation.ReflTransGen.single ⟨he, hs, ht⟩

theorem Effects.two {s₁ : TimerLoop} (hs : Inv s) (h₁ : Inv s₁) (ht : Inv t)
    (he : Effect addTime C s s₁) (he' : Effect addTime C s₁ t) : Effects addTime C s t :=
  (Effects.one hs h₁ he).trans (Effects.one h₁ ht he')

/-- No step meets a fault, and each is made of effects. -/
theorem step_sat {l : Label} (hl : l.Cancels C) (h : Inv s) (he : (machine addTime).enabled s l) :
    Sat Nothing ((machine addTime).step s l) (fun t => Effects addTime C s t ∧ Inv t) := by
  cases l with
  | addTimer inLoopThread p w x now =>
    obtain ⟨_, hp⟩ := he
    have h₁ := h.created hp w x
    let s₁ : TimerLoop := { s with
      queue := s.queue.newTimer p w x
      issued := (timerId p, s.queue.numCreated + 1) :: s.issued }
    obtain ⟨t, hok, heff, hinv⟩ := Inv.runInLoop (s := s₁) addTime C h₁ inLoopThread now
    show Sat Nothing (s₁.runInLoop inLoopThread now (.addTimerInLoop p)) _
    rw [hok]
    exact ⟨.two h h₁ hinv (.created w x hp) heff, hinv⟩
  | cancel inLoopThread id now =>
    have h₁ : Inv { s with functors := .cancelInLoop id :: s.functors } := ⟨h.owned, h.numbered⟩
    obtain ⟨t, hok, heff, hinv⟩ := h₁.runInLoop addTime C inLoopThread now
    show Sat Nothing (s.cancel inLoopThread id now) _
    unfold cancel
    rw [hok]
    exact ⟨.two h h₁ hinv (.asked hl) heff, hinv⟩
  | doPendingFunctors =>
    obtain ⟨_, hf⟩ := he
    exact ⟨.one h (h.swapped hf) (.swapped hf), h.swapped hf⟩
  | runFunctor now =>
    obtain ⟨_, hne⟩ := he
    obtain ⟨cb, functors, hf⟩ := List.exists_cons_of_ne_nil hne
    obtain ⟨q, hok, hcalled, hinv⟩ := h.call now hf
    show Sat Nothing (s.runFunctor now) _
    unfold runFunctor TimerLoop.runInLoop
    rw [hf]
    dsimp only
    rw [if_pos rfl, hok]
    exact ⟨.one h hinv (.called now hf hcalled), hinv⟩
  | handleRead now fired =>
    obtain ⟨hb, _, hnow⟩ := he
    obtain ⟨q, hok, hframe, hinv⟩ := h.handleRead hb now fired
    show Sat Nothing (s.handleRead now fired) _
    rw [hok]
    exact ⟨.one h hinv (.began hb hnow hframe), hinv⟩
  | runTimer =>
    obtain ⟨⟨now, ran, rest⟩, hb, hrest⟩ := he
    obtain ⟨it, rest, rfl⟩ := List.exists_cons_of_ne_nil hrest
    obtain ⟨τ, hτ, hok, hinv⟩ := h.runTimer hb
    show Sat Nothing s.runTimer _
    rw [hok]
    exact ⟨.one h hinv (.ran hb hτ), hinv⟩
  | handleReadEnd now' =>
    obtain ⟨b, hb, hrest⟩ := he
    obtain ⟨q, hok, hq, hinv⟩ := h.handleReadEnd addTime hb now'
    show Sat Nothing (s.handleReadEnd addTime now') _
    rw [hok]
    exact ⟨.one h hinv (.ended now' hb hrest hq), hinv⟩

/-- What the effects preserve, the steps preserve. -/
theorem step_keeps {I : TimerLoop → Prop}
    (hI : ∀ s t, Inv s → Inv t → Effect addTime C s t → I s → I t) {l : Label} (hl : l.Cancels C)
    (h : Inv s ∧ I s) (he : (machine addTime).enabled s l) (hs : (machine addTime).step s l = .ok t) :
    Inv t ∧ I t := by
  obtain ⟨heff, hinv⟩ := (step_sat hl h.1 he).of_ok hs
  refine ⟨hinv, ?_⟩
  clear hs
  induction heff with
  | refl => exact h.2
  | tail _ hlast ih =>
    obtain ⟨he, hs₁, ht₁⟩ := hlast
    exact hI _ _ hs₁ ht₁ he (ih hs₁)

/-- Any handle may be passed to `cancel`. -/
theorem Label.cancels_any (l : Label) : l.Cancels (fun _ => True) := by
  cases l <;> trivial

theorem Inv.of_reachable (h : Reachable (machine addTime) start s) : Inv s :=
  h.invariant (fun _ l _ hi he hs => ((step_sat l.cancels_any hi he).of_ok hs).2) inv_start

/-- The live timer at `p` has the sequence number `k`. -/
def Live (s : TimerLoop) (p : TimerPtr) (k : Nat) : Prop :=
  ∃ t, s.queue.heap p = some t ∧ t.sequence_ = k

/-- The sequence number of the timer of an entry. -/
def sequenceOf (s : TimerLoop) (e : Entry) : Nat :=
  match s.queue.heap (ofLex e).2 with
  | some t => t.sequence_
  | none => 0

theorem sequenceOf_eq {e : Entry} {τ : Timer} (h : s.queue.heap (ofLex e).2 = some τ) :
    s.sequenceOf e = τ.sequence_ := by
  unfold sequenceOf
  rw [h]

variable (addTime C) in
/-- A batch gets to its end. -/
theorem exists_run_batch (h : Inv s) {now : Timestamp} {ran rest : List Entry}
    (hb : s.batch = some ⟨now, ran, rest⟩) :
    ∃ ls, Run ((machine addTime).restrict fun _ l => l.Cancels C) s ls { s with
      batch := some ⟨now, ran ++ rest, []⟩
      fired := s.fired ++ rest.map fun e => (s.batches, s.sequenceOf e) } := by
  induction rest generalizing s ran with
  | nil =>
    refine ⟨[], ?_⟩
    simp only [List.map_nil, List.append_nil, ← hb]
    exact .nil s
  | cons it rest ih =>
    obtain ⟨τ, hτ, hok, hinv⟩ := h.runTimer hb
    obtain ⟨ls, hr⟩ := ih hinv rfl
    refine ⟨.runTimer :: ls, .cons ⟨⟨_, hb, List.cons_ne_nil _ _⟩, trivial⟩ hok ?_⟩
    rw [List.map_cons, sequenceOf_eq hτ, List.append_cons ran it rest,
      List.append_cons s.fired _ (rest.map _)]
    exact hr

/-- The timer with the sequence number `k` was created and deleted. -/
def Dead (s : TimerLoop) (k : Nat) : Prop :=
  k ≤ s.queue.numCreated ∧ ∀ p, ¬ s.Live p k

theorem Inv.inj (h : Inv s) {p p' : TimerPtr} {k : Nat} (hp : s.Live p k) (hp' : s.Live p' k) :
    p = p' := by
  obtain ⟨t, ht, hk⟩ := hp
  obtain ⟨t', ht', hk'⟩ := hp'
  exact h.numbered.inj p p' t t' ht ht' (hk.trans hk'.symm)

/-- Only a new timer comes to life. -/
theorem Effect.live (he : Effect addTime C s t) {p : TimerPtr} {k : Nat} (hl : t.Live p k) :
    s.Live p k ∨ k = s.queue.numCreated + 1 := by
  obtain ⟨τ, hτ, hk⟩ := hl
  cases he with
  | created w x hp =>
    rcases heap_setTimer_eq_some.mp hτ with ⟨_, heq⟩ | ⟨_, hold⟩
    · obtain rfl := Option.some.inj heq
      exact Or.inr hk.symm
    · exact Or.inl ⟨τ, hold, hk⟩
  | called now hf hc =>
    cases hc with
    | scheduled ht =>
      simp only [heap_scheduled] at hτ
      exact Or.inl ⟨τ, hτ, hk⟩
    | withdrawn ht hseq => exact Or.inl ⟨τ, (heap_freed_eq_some.mp hτ).2, hk⟩
    | missed hid =>
      rw [missed_frame] at hτ
      exact Or.inl ⟨τ, hτ, hk⟩
  | began hb hnow hq =>
    rw [hq] at hτ
    exact Or.inl ⟨τ, hτ, hk⟩
  | ended now' hb hrest hq =>
    rw [rearmed_frame] at hτ
    rcases hq.eq_some hτ with ⟨_, hold⟩ | ⟨_, τ₀, hτ₀, _, rfl⟩
    · exact Or.inl ⟨τ, hold, hk⟩
    · exact Or.inl ⟨τ₀, hτ₀, hk⟩
  | _ => exact Or.inl ⟨τ, hτ, hk⟩

theorem Effect.numCreated (he : Effect addTime C s t) : s.queue.numCreated ≤ t.queue.numCreated := by
  cases he with
  | created w x hp => exact Nat.le_succ _
  | called now hf hc =>
    cases hc with
    | scheduled ht => simp
    | withdrawn ht hseq => exact Nat.le_refl _
    | missed hid => rw [missed_frame]
  | began hb hnow hq => rw [hq]
  | ended now' hb hrest hq => rw [rearmed_frame, hq.frame]
  | _ => exact Nat.le_refl _

/-- A deleted timer does not come back. -/
theorem Dead.effect {k : Nat} (h : s.Dead k) (he : Effect addTime C s t) : t.Dead k := by
  refine ⟨h.1.trans he.numCreated, ?_⟩
  intro p hl
  rcases he.live hl with hold | hnew
  · exact h.2 p hold
  · have hle := h.1
    omega

theorem Inv.mem_deleted (h : Inv s) {k : Nat} (hpos : 1 ≤ k) (hk : s.Dead k) :
    k ∈ s.queue.deleted := by
  rcases h.numbered.total k hpos hk.1 with hdel | ⟨p, hl⟩
  · exact hdel
  · exact absurd hl (hk.2 p)

inductive Place
  | queued
  | scheduled
  | expiring
  | deleted

/-- The timer with the sequence number `k` is at that place. -/
def At (s : TimerLoop) (k : Nat) : Place → Prop
  | .queued => ∃ p ∈ s.queued, s.Live p k
  | .scheduled => ∃ w p, toLex (w, p) ∈ s.queue.timers_ ∧ s.Live p k
  | .expiring => ∃ p ∈ pointers s.expiring, s.Live p k
  | .deleted => k ∈ s.queue.deleted

/-- Both sets describe the same timers, and each timer created so far is in one place. -/
structure Placed (s : TimerLoop) : Prop where
  timers : ∀ w p, toLex (w, p) ∈ s.queue.timers_ ↔
    ∃ t, s.queue.heap p = some t ∧ t.expiration_ = w ∧ toLex (p, t.sequence_) ∈ s.queue.activeTimers_
  active : ∀ p k, toLex (p, k) ∈ s.queue.activeTimers_ → s.Live p k
  place : ∀ k, 1 ≤ k → k ≤ s.queue.numCreated → ∃! place, s.At k place
  held_once : (s.queued ++ pointers s.expiring).Nodup
  deleted_once : s.queue.deleted.Nodup

theorem Inv.at_iff (h : Inv s) {p : TimerPtr} {k : Nat} (hp : s.Live p k) (place : Place) :
    s.At k place ↔ match place with
      | .queued => p ∈ s.queued
      | .scheduled => p ∉ s.queued ++ pointers s.expiring
      | .expiring => p ∈ pointers s.expiring
      | .deleted => False := by
  have hsame : ∀ {p'}, s.Live p' k → p' = p := fun hl => h.inj hl hp
  obtain ⟨t, ht, hk⟩ := hp
  cases place with
  | queued =>
    constructor
    · intro ⟨p', hp', hl⟩
      exact hsame hl ▸ hp'
    · intro hp
      exact ⟨p, hp, t, ht, hk⟩
  | scheduled =>
    constructor
    · intro ⟨w, p', hmem, hl⟩
      obtain ⟨hnot, _⟩ := (h.owned.timers w p').mp hmem
      exact hsame hl ▸ hnot
    · intro hnot
      exact ⟨t.expiration_, p, (h.owned.timers _ _).mpr ⟨hnot, t, ht, rfl⟩, t, ht, hk⟩
  | expiring =>
    constructor
    · intro ⟨p', hp', hl⟩
      exact hsame hl ▸ hp'
    · intro hp
      exact ⟨p, hp, t, ht, hk⟩
  | deleted =>
    refine iff_false_intro ?_
    intro hdel
    rw [← hk] at hdel
    exact h.numbered.deleted_gone p t ht hdel

/-- A live timer is in one place: its pointer is held once. -/
theorem Inv.place_unique (h : Inv s) {p : TimerPtr} {k : Nat} (hl : s.Live p k) {a b : Place}
    (ha : s.At k a) (hb : s.At k b) : a = b := by
  have hdisj : p ∈ s.queued → p ∉ pointers s.expiring :=
    fun hq hexp => List.disjoint_of_nodup_append h.owned.nodup hq hexp
  rw [h.at_iff hl] at ha hb
  cases a <;> cases b <;> simp_all

theorem Inv.exists_unique_place (h : Inv s) {k : Nat} (hlo : 1 ≤ k) (hhi : k ≤ s.queue.numCreated) :
    ∃! place, s.At k place := by
  rcases h.numbered.total k hlo hhi with hdel | ⟨p, hl⟩
  · have hdead : ∀ p, ¬ s.Live p k := by
      rintro p ⟨t, ht, rfl⟩
      exact h.numbered.deleted_gone p t ht hdel
    refine ⟨.deleted, hdel, ?_⟩
    intro place hat
    cases place with
    | queued =>
      obtain ⟨p, _, hl⟩ := hat
      exact absurd hl (hdead p)
    | scheduled =>
      obtain ⟨_, p, _, hl⟩ := hat
      exact absurd hl (hdead p)
    | expiring =>
      obtain ⟨p, _, hl⟩ := hat
      exact absurd hl (hdead p)
    | deleted => rfl
  · have hat : ∃ place, s.At k place := by
      by_cases hq : p ∈ s.queued
      · exact ⟨.queued, p, hq, hl⟩
      · by_cases hb : p ∈ pointers s.expiring
        · exact ⟨.expiring, p, hb, hl⟩
        · refine ⟨.scheduled, (h.at_iff hl .scheduled).mpr ?_⟩
          simp [hq, hb]
    obtain ⟨place, hat⟩ := hat
    exact ⟨place, hat, fun other hother => h.place_unique hl hother hat⟩

theorem Inv.placed (h : Inv s) : Placed s := by
  constructor
  · intro w p
    rw [h.owned.timers]
    constructor
    · intro ⟨hp, t, ht, hw⟩
      exact ⟨t, ht, hw, (h.owned.active _ _).mpr ⟨hp, t, ht, rfl⟩⟩
    · intro ⟨t, ht, hw, hact⟩
      exact ⟨((h.owned.active _ _).mp hact).1, t, ht, hw⟩
  · intro p k hact
    exact ((h.owned.active p k).mp hact).2
  · intro k hlo hhi
    exact h.exists_unique_place hlo hhi
  · exact h.owned.nodup
  · exact h.numbered.deleted_nodup

/-- In every reachable state the sets agree and each timer is in one place, and whatever happens
next fails no assertion and touches no deleted timer. -/
theorem timers_owned (h : Reachable (machine addTime) start s) :
    Placed s ∧ ∀ l, s.Enabled l → ∃ t, (machine addTime).step s l = .ok t := by
  have hinv := Inv.of_reachable h
  refine ⟨hinv.placed, ?_⟩
  intro l he
  obtain ⟨t, ht, _⟩ := (step_sat l.cancels_any hinv he).returns (fun _ hn => hn)
  exact ⟨t, ht⟩

end

/-- In a batch of three timers a callback cancels a timer of the batch and one that it just
added; the repeating timer is not put back. -/
theorem timers_owned_run :
    let addTime : Timestamp → ℚ → Timestamp := fun now x => now + ⌊x * 1000000⌋
    let ls : List Label := [.addTimer true 8 100 0 50, .addTimer true 16 100 2 50,
      .addTimer false 24 70 0 50, .doPendingFunctors, .runFunctor 60, .handleRead 100 true,
      .runTimer, .cancel true ⟨16, 2⟩ 101, .addTimer true 32 40 0 101, .cancel true ⟨32, 4⟩ 101,
      .runTimer, .runTimer, .handleReadEnd 110]
    ∃ s, Run (machine addTime) start ls s ∧ s.queue.deleted = [2, 1, 3, 4] ∧ Placed s := by
  intro addTime ls
  have hex : ∃ s, Run (machine addTime) start ls s ∧ s.queue.deleted = [2, 1, 3, 4] :=
    exists_run_of_exec _ (by decide +kernel)
  obtain ⟨s, hr, hdel⟩ := hex
  exact ⟨s, hr, hdel, (timers_owned ⟨ls, hr⟩).1⟩

end MuduoNet.TimerLoop
