import MuduoNet.Timer.Cancel

/-!
# Timers that are known not to repeat

The owner of some timers can tell them by their addresses. None of them repeats, and none was
added from another thread. A step that does not add a timer lets none of them wait that did not
wait before, and with its batch each of them is deleted.
-/
namespace MuduoNet.TimerLoop

open Lib Lib.Outcome TimerQueue

/-- There is a timer at the address whose callback has not started in the running batch. -/
def Waits (s : TimerLoop) (p : TimerPtr) : Prop :=
  (∃ τ, s.queue.heap p = some τ) ∧ ∀ b ∈ s.batch, p ∉ pointers b.ran

structure OneShots (m : TimerPtr → Prop) (s : TimerLoop) : Prop where
  once : ∀ p τ, s.queue.heap p = some τ → m p → τ.repeat_ = false
  queued : ∀ p ∈ s.queued, ¬ m p

variable {addTime : Timestamp → ℚ → Timestamp} {s t : TimerLoop} {m : TimerPtr → Prop}
  {p : TimerPtr}

theorem waits_congr (hheap : t.queue.heap = s.queue.heap) (hbatch : t.batch = s.batch) :
    t.Waits p ↔ s.Waits p := by
  unfold Waits
  rw [hheap, hbatch]

theorem OneShots.congr (h : OneShots m s) (hheap : t.queue.heap = s.queue.heap)
    (hqueued : ∀ p ∈ t.queued, p ∈ s.queued) : OneShots m t := by
  constructor
  · rw [hheap]
    exact h.once
  · intro p hp
    exact h.queued p (hqueued p hp)

theorem handled_step (hi : Inv s) (hh : Handled s) {l : Label}
    (he : (withHandles addTime).enabled s l) :
    ∃ t, (machine addTime).step s l = .ok t ∧ Inv t ∧ Handled t := by
  obtain ⟨t, ht, _⟩ := (step_sat he.2 hi he.1).returns (fun _ h => h)
  obtain ⟨hit, hht⟩ := step_keeps (fun _ _ _ _ heff hh => handled_effect heff hh) he.2 ⟨hi, hh⟩
    he.1 ht
  exact ⟨t, ht, hit, hht⟩

theorem runInLoop_kept {cb : Functor} (h : Inv { s with functors := cb :: s.functors })
    (hcb : ∀ id, cb = .cancelInLoop id → Handle id) {inLoopThread : Bool} {now : Timestamp}
    (hs : s.runInLoop inLoopThread now cb = .ok t) :
    t.queue.heap = s.queue.heap ∧ t.batch = s.batch ∧
      ∀ p ∈ t.queued, p ∈ s.queued ∨ inLoopThread = false ∧ p ∈ cb.timers := by
  cases inLoopThread with
  | true =>
    obtain ⟨q, hok, hcalled, _⟩ := h.call now rfl
    unfold TimerLoop.runInLoop at hs
    rw [if_pos rfl, hok] at hs
    obtain rfl := Except.ok.inj hs
    exact ⟨h.called_heap hcalled hcb, rfl, fun p hp => .inl hp⟩
  | false =>
    obtain rfl := Except.ok.inj hs
    refine ⟨rfl, rfl, ?_⟩
    intro p hp
    simp only [queued, List.flatMap_append, List.flatMap_cons, List.flatMap_nil,
      List.append_nil, List.mem_append] at hp ⊢
    tauto

theorem cancel_kept (h : Inv s) {id : TimerId} (hid : Handle id) {inLoopThread : Bool}
    {now : Timestamp} (hs : s.cancel inLoopThread id now = .ok t) :
    t.queue.heap = s.queue.heap ∧ t.batch = s.batch ∧ ∀ p ∈ t.queued, p ∈ s.queued := by
  have h₁ : Inv { s with functors := .cancelInLoop id :: s.functors } := ⟨h.owned, h.numbered⟩
  obtain ⟨hheap, hbatch, hqueued⟩ :=
    runInLoop_kept h₁ (fun _ heq => Functor.cancelInLoop.inj heq ▸ hid) hs
  refine ⟨hheap, hbatch, ?_⟩
  intro p hp
  obtain hp | ⟨_, hp⟩ := hqueued p hp
  · exact hp
  · cases hp

theorem addTimer_kept (h : Inv s) (hp : s.Fresh p) {w now : Timestamp} {x : ℚ}
    {inLoopThread : Bool} (hs : s.addTimer inLoopThread p w x now = .ok t) :
    t.queue.heap = (s.queue.newTimer p w x).heap ∧ t.batch = s.batch ∧
      ∀ p' ∈ t.queued, p' ∈ s.queued ∨ inLoopThread = false ∧ p' = p := by
  obtain ⟨hheap, hbatch, hqueued⟩ := runInLoop_kept (s := { s with
      queue := s.queue.newTimer p w x
      issued := (timerId p, (s.queue.newTimer p w x).numCreated) :: s.issued })
    (h.created hp w x) (fun id heq => by cases heq) hs
  refine ⟨hheap, hbatch, ?_⟩
  intro p' hp'
  obtain hold | ⟨hthread, hnew⟩ := hqueued p' hp'
  · exact .inl hold
  · exact .inr ⟨hthread, List.mem_singleton.mp hnew⟩

theorem runFunctor_kept (hi : Inv s) (hh : Handled s) {now : Timestamp}
    (hs : s.runFunctor now = .ok t) :
    t.queue.heap = s.queue.heap ∧ t.batch = s.batch ∧ ∀ p ∈ t.queued, p ∈ s.queued := by
  cases hf : s.functors with
  | nil =>
    unfold runFunctor at hs
    rw [hf] at hs
    obtain rfl := Except.ok.inj hs
    exact ⟨rfl, rfl, fun p hp => hp⟩
  | cons cb functors =>
    obtain ⟨q, hok, hcalled, _⟩ := hi.call now hf
    have hcancels := hh.cancels
    rw [hf] at hcancels
    obtain rfl := Except.ok.inj ((runFunctor_eq hf hok).symm.trans hs)
    refine ⟨hi.called_heap hcalled (fun _ heq => hcancels _ (heq ▸ List.mem_cons_self)), rfl, ?_⟩
    intro p hp
    unfold queued at hp ⊢
    rw [hf]
    exact List.mem_append_right _ hp

/-- Nothing repeats that is one of them. -/
theorem OneShots.kept (h : OneShots m s) {b : Batch} {q : TimerQueue}
    (hq : AfterReset addTime s.queue b.now b.expired q) {τ : Timer} (hτ : q.heap p = some τ)
    (hm : m p) : p ∉ pointers b.expired ∧ s.queue.heap p = some τ := by
  obtain ⟨hnot, hold⟩ | ⟨_, τ₀, hτ₀, hrestarts, _⟩ := hq.eq_some hτ
  · exact ⟨hnot, hold⟩
  · have honce := h.once p τ₀ hτ₀ hm
    rw [hrestarts.1] at honce
    cases honce

theorem OneShots.step (h : OneShots m s) (hi : Inv s) (hh : Handled s) {l : Label}
    (hl : ∀ b p w x now, l ≠ .addTimer b p w x now) (he : (withHandles addTime).enabled s l)
    (hs : (machine addTime).step s l = .ok t) :
    OneShots m t ∧ ∀ p, m p → t.Waits p → s.Waits p := by
  cases l with
  | addTimer b p w x now => exact absurd rfl (hl b p w x now)
  | cancel b id now =>
    obtain ⟨hheap, hbatch, hqueued⟩ := cancel_kept hi he.2 hs
    exact ⟨h.congr hheap hqueued, fun p _ hp => (waits_congr hheap hbatch).mp hp⟩
  | doPendingFunctors =>
    obtain ⟨_, hf⟩ := he.1
    obtain rfl := Except.ok.inj hs
    refine ⟨h.congr rfl ?_, fun p _ hp => hp⟩
    intro p hp
    unfold TimerLoop.queued at hp ⊢
    rw [List.append_nil] at hp
    rw [hf]
    exact hp
  | runFunctor now =>
    obtain ⟨hheap, hbatch, hqueued⟩ := runFunctor_kept hi hh hs
    exact ⟨h.congr hheap hqueued, fun p _ hp => (waits_congr hheap hbatch).mp hp⟩
  | handleRead now fired =>
    obtain ⟨hb, _, _⟩ := he.1
    obtain ⟨q, hok, hframe, _⟩ := hi.handleRead hb now fired
    obtain rfl := Except.ok.inj (hok.symm.trans hs)
    have hheap : q.heap = s.queue.heap := by rw [hframe]
    refine ⟨h.congr hheap fun p hp => hp, ?_⟩
    intro p _ hp
    refine ⟨hheap ▸ hp.1, ?_⟩
    rw [hb]
    intro b hb'
    cases hb'
  | runTimer =>
    obtain ⟨⟨now, ran, rest⟩, hb, hrest⟩ := he.1
    obtain ⟨it, rest, rfl⟩ := List.exists_cons_of_ne_nil hrest
    obtain ⟨τ, _, hok, _⟩ := hi.runTimer hb
    obtain rfl := Except.ok.inj (hok.symm.trans hs)
    refine ⟨h.congr rfl fun p hp => hp, ?_⟩
    intro p _ hp
    refine ⟨hp.1, ?_⟩
    rw [hb]
    intro b hb' hran
    obtain rfl := Option.some.inj hb'
    refine hp.2 _ rfl ?_
    rw [pointers_append]
    exact List.mem_append_left _ hran
  | handleReadEnd now' =>
    obtain ⟨b, hb, _⟩ := he.1
    obtain ⟨q, hok, hq, _⟩ := hi.handleReadEnd addTime hb now'
    obtain rfl := Except.ok.inj (hok.symm.trans hs)
    have hheap : (q.rearmed now').heap = q.heap := by rw [rearmed_frame]
    refine ⟨⟨?_, h.queued⟩, ?_⟩
    · intro p τ hτ hm
      obtain ⟨_, hold⟩ := h.kept hq (hheap ▸ hτ) hm
      exact h.once p τ hold hm
    · intro p hm hp
      obtain ⟨τ, hτ⟩ := hp.1
      obtain ⟨hnot, hold⟩ := h.kept hq (hheap ▸ hτ) hm
      refine ⟨⟨τ, hold⟩, ?_⟩
      rw [hb]
      intro b' hb' hran
      obtain rfl := Option.some.inj hb'
      refine hnot ?_
      rw [Batch.expired, pointers_append]
      exact List.mem_append_left _ hran

/-- The timer whose callback has been called does not wait any more. -/
theorem runTimer_waits {now : Timestamp} {ran rest : List Entry} {it : Entry} (hi : Inv s)
    (hb : s.batch = some ⟨now, ran, it :: rest⟩) (hs : s.runTimer = .ok t) :
    s.Waits (ofLex it).2 ∧ ¬ t.Waits (ofLex it).2 := by
  obtain ⟨τ, hτ, hok, _⟩ := hi.runTimer hb
  obtain rfl := Except.ok.inj (hok.symm.trans hs)
  constructor
  · refine ⟨⟨τ, hτ⟩, ?_⟩
    rw [hb]
    intro b hb' hran
    obtain rfl := Option.some.inj hb'
    exact (List.nodup_append.mp (hi.batch_nodup hb)).2.2 _ hran _ List.mem_cons_self rfl
  · intro hp
    refine hp.2 _ rfl ?_
    simp [pointers]

theorem OneShots.deleted (h : OneShots m s) (hi : Inv s) {b : Batch} (hb : s.batch = some b)
    {now' : Timestamp} (hs : s.handleReadEnd addTime now' = .ok t) (hp : p ∈ pointers b.expired)
    (hm : m p) : t.queue.heap p = none := by
  obtain ⟨q, hok, hq, _⟩ := hi.handleReadEnd addTime hb now'
  obtain rfl := Except.ok.inj (hok.symm.trans hs)
  have hheap : (q.rearmed now').heap = q.heap := by rw [rearmed_frame]
  show (q.rearmed now').heap p = none
  rw [hheap]
  by_contra hne
  obtain ⟨τ, hτ⟩ := Option.ne_none_iff_exists'.mp hne
  exact (h.kept hq hτ hm).1 hp

end MuduoNet.TimerLoop
