import MuduoNet.Timer.Owned

/-!
# Cancelling a timer

The `TimerId` that `addTimer` returns has no sequence number, while the key of the timer in
`activeTimers_` has one. No cancel finds its timer: one that has fired for the last time stays
silent, and any other one still fires.
-/
namespace MuduoNet.TimerLoop

open Lib Lib.Outcome TimerQueue

/-- A `TimerId` as `addTimer` returns it. -/
def Handle (id : TimerId) : Prop := id = timerId id.timer_

instance (id : TimerId) : Decidable (Handle id) := inferInstanceAs (Decidable (id = _))

theorem Handle.sequence_eq {id : TimerId} (h : Handle id) : id.sequence_ = 0 := by
  rw [h]
  rfl

/-- Only handles are passed to `cancel`. -/
def withHandles (addTime : Timestamp → ℚ → Timestamp) : Machine TimerLoop Label Fault :=
  (machine addTime).restrict fun _ l => l.Cancels Handle

/-- The step calls `cancelInLoop(id)`. -/
inductive Executes (s : TimerLoop) (id : TimerId) : Label → Prop
  | called (now : Timestamp) : Executes s id (.cancel true id now)
  | functor (now : Timestamp) {functors : List Functor}
      (hf : s.functors = .cancelInLoop id :: functors) : Executes s id (.runFunctor now)

/-- The timer with the sequence number `k` is alive, and not a one-shot timer of the running
batch. -/
def Pending (s : TimerLoop) (k : Nat) : Prop :=
  ∃ p τ, s.queue.heap p = some τ ∧ τ.sequence_ = k ∧
    (p ∈ pointers s.expiring → τ.repeat_ = true)

/-- The timer `k` is a one-shot timer of the running batch. -/
def Expiring (s : TimerLoop) (k : Nat) : Prop :=
  ∃ p τ, s.queue.heap p = some τ ∧ τ.sequence_ = k ∧ p ∈ pointers s.expiring ∧ τ.repeat_ = false

/-- The callback of the timer `k` has not started in a batch after the one with that number, and
the timer is not scheduled. -/
def Silent (s : TimerLoop) (k batches : Nat) : Prop :=
  (∀ n, (n, k) ∈ s.fired → n ≤ batches) ∧ ∀ w p, toLex (w, p) ∈ s.queue.timers_ → ¬ s.Live p k

structure Handled (s : TimerLoop) : Prop where
  cancels : ∀ id, .cancelInLoop id ∈ s.functors ++ s.pendingFunctors_ → Handle id
  canceling : ∀ p k, toLex (p, k) ∈ s.queue.cancelingTimers_ → k = 0
  fired : ∀ e ∈ s.fired, e.1 ≤ s.batches
  issued : ∀ e ∈ s.issued, e.2 ≤ s.queue.numCreated

variable {addTime : Timestamp → ℚ → Timestamp} {s t : TimerLoop}

theorem handled_start : Handled start := by
  constructor
  · simp [start]
  · simp [start, TimerQueue.new]
  · simp [start]
  · simp [start]

/-- A functor with a handle neither deletes nor creates timers. -/
theorem Inv.called_heap (h : Inv s) {q : TimerQueue} {now : Timestamp} {cb : Functor}
    (hc : Called s.queue now cb q) (hcb : ∀ id, cb = .cancelInLoop id → Handle id) :
    q.heap = s.queue.heap := by
  cases hc with
  | scheduled ht => exact heap_scheduled now
  | withdrawn ht hseq =>
    -- the handle has the number 0, and no timer has
    have hpos := (h.numbered.range _ _ ht).1
    rw [hseq, (hcb _ rfl).sequence_eq] at hpos
    exact absurd hpos (by decide)
  | missed hid => rw [missed_frame]

theorem handled_effect (he : Effect addTime Handle s t) (h : Handled s) : Handled t := by
  have hissued : ∀ e ∈ s.issued, e.2 ≤ t.queue.numCreated :=
    fun e hmem => (h.issued e hmem).trans he.numCreated
  refine ⟨he.asked_keep h.cancels, ?_, ?_, ?_⟩
  · intro p k hk
    rcases he.canceling h.cancels hk with hold | hid
    · exact h.canceling p k hold
    · exact hid.sequence_eq
  · cases he with
    | began hb hnow hq => exact fun e he => Nat.le_succ_of_le (h.fired e he)
    | ran hb hτ =>
      intro e he
      rcases List.mem_append.mp he with he | he
      · exact h.fired e he
      · rw [List.mem_singleton.mp he]
    | _ => exact h.fired
  · cases he with
    | created w x hp =>
      intro e hmem
      rcases List.mem_cons.mp hmem with rfl | hmem
      · exact Nat.le_refl _
      · exact hissued e hmem
    | _ => exact hissued

/-- The timer `k` will not fire again. -/
def Over (s : TimerLoop) (k batches : Nat) : Prop :=
  (s.Dead k ∨ s.batches = batches ∧ s.Expiring k) ∧ ∀ n, (n, k) ∈ s.fired → n ≤ batches

theorem Over.silent (h : Inv s) {k batches : Nat} (ho : s.Over k batches) : s.Silent k batches := by
  refine ⟨ho.2, ?_⟩
  intro w p hmem hl
  rcases ho.1 with hdead | ⟨_, p', τ, hτ, hk, hexp, _⟩
  · exact hdead.2 p hl
  · obtain rfl := h.inj hl ⟨τ, hτ, hk⟩
    exact ((h.owned.timers w p).mp hmem).1 (List.mem_append_right _ hexp)

/-- A timer that is not pending is gone, or runs for the last time. -/
theorem over_of_not_pending {k : Nat} (hcreated : k ≤ s.queue.numCreated)
    (hfired : ∀ e ∈ s.fired, e.1 ≤ s.batches) (h : ¬ s.Pending k) : s.Over k s.batches := by
  refine ⟨?_, fun n hn => hfired _ hn⟩
  by_cases hl : ∃ p, s.Live p k
  · obtain ⟨p, τ, hτ, hk⟩ := hl
    have hnot : ¬ (p ∈ pointers s.expiring → τ.repeat_ = true) :=
      fun hr => h ⟨p, τ, hτ, hk, hr⟩
    obtain ⟨hp, hr⟩ := Classical.not_imp.mp hnot
    exact Or.inr ⟨rfl, p, τ, hτ, hk, hp, by simpa using hr⟩
  · exact Or.inl ⟨hcreated, not_exists.mp hl⟩

theorem Over.effect (hs : Inv s) (hh : Handled s) (he : Effect addTime Handle s t) {k batches : Nat}
    (ho : s.Over k batches) : t.Over k batches := by
  obtain ⟨hdead | ⟨hbatches, p, τ, hτ, hk, hexp, hr⟩, hfired⟩ := ho
  · refine ⟨Or.inl (hdead.effect he), ?_⟩
    cases he with
    | ran hb hτ =>
      intro n hn
      rcases List.mem_append.mp hn with hn | hn
      · exact hfired n hn
      · obtain ⟨_, hk⟩ := Prod.mk.inj (List.mem_singleton.mp hn)
        exact absurd ⟨_, hτ, hk.symm⟩ (hdead.2 _)
    | _ => exact hfired
  · cases he with
    | created w x hp =>
      refine ⟨Or.inr ⟨hbatches, p, τ, ?_, hk, hexp, hr⟩, hfired⟩
      obtain ⟨_, _, hfree⟩ := hp
      refine (heap_setTimer_ne _ _ ?_).trans hτ
      rintro rfl
      rw [hfree] at hτ
      cases hτ
    | called now hf hc =>
      have hcancels := hh.cancels
      rw [hf] at hcancels
      have hheap := hs.called_heap hc (fun id heq => hcancels id (heq ▸ List.mem_cons_self))
      exact ⟨Or.inr ⟨hbatches, p, τ, (congrFun hheap p).trans hτ, hk, hexp, hr⟩, hfired⟩
    | began hb hnow hq =>
      rw [expiring_none hb] at hexp
      cases hexp
    | ran hb hτ' =>
      rw [expiring_some hb] at hexp
      refine ⟨Or.inr ⟨hbatches, p, τ, hτ, hk, ?_, hr⟩, ?_⟩
      · show p ∈ pointers (_ ++ [_] ++ _)
        rw [List.append_assoc]
        exact hexp
      · intro n hn
        rcases List.mem_append.mp hn with hn | hn
        · exact hfired n hn
        · obtain ⟨rfl, _⟩ := Prod.mk.inj (List.mem_singleton.mp hn)
          exact le_of_eq hbatches
    | ended now' hb hrest hq =>
      rw [expiring_some hb] at hexp
      have hrestart : ¬ s.queue.Restarts p τ := by
        intro hrestart
        rw [hrestart.1] at hr
        cases hr
      refine ⟨Or.inl ⟨?_, ?_⟩, hfired⟩
      · rw [rearmed_frame, hq.frame, ← hk]
        exact (hs.numbered.range p τ hτ).2
      · rintro p' ⟨τ', hτ', hk'⟩
        rw [rearmed_frame] at hτ'
        exact hq.gone hs.numbered hexp hτ hrestart hτ' (hk'.trans hk.symm)
    | _ => exact ⟨Or.inr ⟨hbatches, p, τ, hτ, hk, hexp, hr⟩, hfired⟩

theorem handles_keep {I : TimerLoop → Prop}
    (hI : ∀ s t, Inv s → Handled s → Effect addTime Handle s t → I s → I t) {ls : List Label}
    (h : Run (withHandles addTime) s ls t) (hs : Inv s) (hh : Handled s) (hi : I s) :
    Inv t ∧ Handled t ∧ I t := by
  apply h.invariant _ ⟨hs, hh, hi⟩
  intro s l t hi he hstep
  apply step_keeps _ he.2 hi he.1 hstep
  intro s₁ s₂ hs₁ _ heff ⟨hh₁, hi₁⟩
  exact ⟨handled_effect heff hh₁, hI _ _ hs₁ hh₁ heff hi₁⟩

theorem handles_inv {ls : List Label} (h : Run (withHandles addTime) s ls t) (hs : Inv s)
    (hh : Handled s) : Inv t ∧ Handled t := by
  obtain ⟨ht, hht, _⟩ := handles_keep (I := fun _ => True) (fun _ _ _ _ _ hi => hi) h hs hh trivial
  exact ⟨ht, hht⟩

theorem runFunctor_eq {cb : Functor} {functors : List Functor} {q : TimerQueue} {now : Timestamp}
    (hf : s.functors = cb :: functors) (hok : s.queue.call now cb = .ok q) :
    s.runFunctor now = .ok { s with functors, queue := q } := by
  unfold runFunctor TimerLoop.runInLoop
  rw [hf]
  dsimp only
  rw [if_pos rfl, hok]
  rfl

variable (addTime)

/-- The functors of `doPendingFunctors` get to their end, and no timer is lost. -/
theorem exists_run_functors (h : Inv s) (hh : Handled s) (hb : s.batch = none) :
    ∃ ls q, Run (withHandles addTime) s ls { s with functors := [], queue := q } ∧
      q.heap = s.queue.heap := by
  induction hf : s.functors generalizing s with
  | nil =>
    refine ⟨[], s.queue, ?_, rfl⟩
    rw [← hf]
    exact .nil s
  | cons cb functors ih =>
    obtain ⟨q, hok, hcalled, hinv⟩ := h.call 0 hf
    have hcancels := hh.cancels
    rw [hf] at hcancels
    have hheap := h.called_heap hcalled (fun id heq => hcancels id (heq ▸ List.mem_cons_self))
    have heff : Effect addTime Handle s _ := .called 0 hf hcalled
    have hh' := handled_effect heff hh
    obtain ⟨ls, q', hr, hheap'⟩ := ih hinv hh' hb rfl
    have hne : s.functors ≠ [] := by simp [hf]
    exact ⟨.runFunctor 0 :: ls, q', .cons ⟨⟨hb, hne⟩, trivial⟩ (runFunctor_eq hf hok) hr,
      hheap'.trans hheap⟩

/-- Between two batches all functors get to run. -/
theorem exists_run_quiescent (h : Inv s) (hh : Handled s) (hb : s.batch = none) :
    ∃ ls q, Run (withHandles addTime) s ls { s with
      pendingFunctors_ := [], functors := [], queue := q } ∧ q.heap = s.queue.heap := by
  obtain ⟨ls₁, q₁, hr₁, hheap₁⟩ := exists_run_functors addTime h hh hb
  obtain ⟨h₁, hh₁⟩ := handles_inv hr₁ h hh
  let s₁ : TimerLoop := { s with functors := [], queue := q₁ }
  have h₂ : Inv { s₁ with pendingFunctors_ := [], functors := s.pendingFunctors_ } :=
    h₁.swapped rfl
  have heff : Effect addTime Handle s₁ _ := .swapped rfl
  have hh₂ := handled_effect heff hh₁
  obtain ⟨ls₂, q₂, hr₂, hheap₂⟩ := exists_run_functors addTime h₂ hh₂ hb
  have hr : Run (withHandles addTime) s₁ (.doPendingFunctors :: ls₂) _ :=
    .cons ⟨⟨hb, rfl⟩, trivial⟩ rfl hr₂
  exact ⟨_, q₂, hr₁.append hr, hheap₂.trans hheap₁⟩

/-- A pending timer survives the running batch. -/
theorem exists_run_between (h : Inv s) (hh : Handled s) {k : Nat} (hk : s.Pending k) :
    ∃ ls u, Run (withHandles addTime) s ls u ∧ u.batch = none ∧ u.batches = s.batches ∧
      ∃ p, u.Live p k := by
  obtain ⟨p, τ, hτ, hseq, hrepeat⟩ := hk
  cases hb : s.batch with
  | none => exact ⟨[], s, .nil s, hb, rfl, p, τ, hτ, hseq⟩
  | some b =>
    obtain ⟨now, ran, rest⟩ := b
    obtain ⟨ls, hr⟩ := exists_run_batch addTime Handle h hb
    obtain ⟨h₁, _⟩ := handles_inv hr h hh
    obtain ⟨q, hok, hq, _⟩ := h₁.handleReadEnd addTime rfl 0
    let s₁ : TimerLoop := { s with
      batch := some ⟨now, ran ++ rest, []⟩
      fired := s.fired ++ rest.map fun e => (s.batches, s.sequenceOf e) }
    have he : (withHandles addTime).enabled s₁ (.handleReadEnd 0) := ⟨⟨_, rfl, rfl⟩, trivial⟩
    refine ⟨_, _, hr.append (.single he hok), rfl, rfl, p, ?_⟩
    rw [Live, rearmed_frame]
    show ∃ τ, q.heap p = some τ ∧ τ.sequence_ = k
    have hexp : Batch.expired ⟨now, ran ++ rest, []⟩ = s.expiring := by
      rw [expiring_some hb, Batch.expired, List.append_nil]
      rfl
    by_cases hp : p ∈ pointers s.expiring
    · -- no cancel has remembered the key of the timer
      have hrestart : s.queue.Restarts p τ := by
        refine ⟨hrepeat hp, ?_⟩
        intro hcancel
        have hpos := (h.numbered.range p τ hτ).1
        have hzero := hh.canceling p _ hcancel
        omega
      exact ⟨_, hq.put_back (hexp ▸ hp) hτ hrestart, hseq⟩
    · exact ⟨τ, (hq.kept (hexp ▸ hp)).trans hτ, hseq⟩

/-- A pending timer fires in a later batch. -/
theorem exists_run_fired (h : Inv s) (hh : Handled s) {k : Nat} (hk : s.Pending k) :
    ∃ ls u n, Run (withHandles addTime) s ls u ∧ (n, k) ∈ u.fired ∧ s.batches < n := by
  obtain ⟨ls₁, s₁, hr₁, hb₁, hbatches, p, τ, hτ, hseq⟩ := exists_run_between addTime h hh hk
  obtain ⟨h₁, hh₁⟩ := handles_inv hr₁ h hh
  obtain ⟨ls₂, q₂, hr₂, hheap₂⟩ := exists_run_quiescent addTime h₁ hh₁ hb₁
  obtain ⟨h₂, _⟩ := handles_inv hr₂ h₁ hh₁
  let s₂ : TimerLoop := { s₁ with pendingFunctors_ := [], functors := [], queue := q₂ }
  let now : Timestamp := max τ.expiration_ 1
  have hτ₂ : q₂.heap p = some τ := (congrFun hheap₂ p).trans hτ
  have hdue : toLex (τ.expiration_, p) ∈ q₂.due now := by
    refine h₂.owned.mem_due.mpr ⟨?_, le_max_left _ _, τ, hτ₂, rfl⟩
    show p ∉ s₂.queued ++ pointers s₂.expiring
    rw [expiring_none (s := s₂) hb₁]
    simp [s₂, queued, pointers]
  obtain ⟨q₃, hok₃, hframe, h₃⟩ := h₂.handleRead hb₁ now false
  obtain ⟨ls₃, hr₃⟩ := exists_run_batch addTime Handle h₃ rfl
  have hpos : 0 < now := lt_of_lt_of_le one_pos (le_max_right _ _)
  have he : (withHandles addTime).enabled s₂ (.handleRead now false) :=
    ⟨⟨hb₁, rfl, hpos⟩, trivial⟩
  have hr : Run (withHandles addTime) s₂ (.handleRead now false :: ls₃) _ := .cons he hok₃ hr₃
  refine ⟨_, _, s₁.batches + 1, (hr₁.append hr₂).append hr, ?_, by omega⟩
  apply List.mem_append_right
  have hτ₃ : q₃.heap p = some τ := by
    rw [hframe]
    exact hτ₂
  refine List.mem_map.mpr ⟨_, hdue, ?_⟩
  rw [sequenceOf_eq hτ₃, hseq]

variable {addTime} in
/-- An executed cancel does not touch the timers. -/
theorem Inv.executed (h : Inv s) (hh : Handled s) {l : Label} {id : TimerId}
    (hx : s.Executes id l) (he : (withHandles addTime).enabled s l)
    (hstep : (withHandles addTime).step s l = .ok t) :
    t.queue.heap = s.queue.heap ∧ t.batch = s.batch ∧ t.batches = s.batches := by
  cases hx with
  | called now =>
    have h₁ : Inv { s with functors := .cancelInLoop id :: s.functors } := ⟨h.owned, h.numbered⟩
    obtain ⟨q, hok, hcalled, _⟩ := h₁.call now rfl
    have hheap := h₁.called_heap hcalled (fun _ heq => Functor.cancelInLoop.inj heq ▸ he.2)
    have hcancel : s.cancel true id now = .ok { s with queue := q } := by
      unfold cancel TimerLoop.runInLoop
      rw [if_pos rfl, hok]
      rfl
    obtain rfl := Except.ok.inj (hcancel.symm.trans hstep)
    exact ⟨hheap, rfl, rfl⟩
  | functor now hf =>
    obtain ⟨q, hok, hcalled, _⟩ := h.call now hf
    have hcancels := hh.cancels
    rw [hf] at hcancels
    have hheap := h.called_heap hcalled (fun _ heq => hcancels _ (heq ▸ List.mem_cons_self))
    obtain rfl := Except.ok.inj ((runFunctor_eq hf hok).symm.trans hstep)
    exact ⟨hheap, rfl, rfl⟩

variable {addTime} in
/-- After a cancel of the `TimerId` returned for the timer `k`, that timer stays silent in every
continuation exactly if it was not pending when it was cancelled. -/
theorem cancel_works_iff {pre : List Label} {l : Label} {id : TimerId} {k : Nat}
    (hs : Run (withHandles addTime) start pre s) (hid : (id, k) ∈ s.issued)
    (hx : s.Executes id l) (he : (withHandles addTime).enabled s l)
    (hstep : (withHandles addTime).step s l = .ok t) :
    (∀ ls u, Run (withHandles addTime) t ls u → u.Silent k s.batches) ↔ ¬ s.Pending k := by
  obtain ⟨h, hh⟩ := handles_inv hs inv_start handled_start
  obtain ⟨hheap, hbatch, hbatches⟩ := h.executed hh hx he hstep
  constructor
  · intro hsilent ⟨p, τ, hτ, hseq, hrepeat⟩
    obtain ⟨ht, hht⟩ := handles_inv (.single he hstep) h hh
    have hexp : t.expiring = s.expiring := by rw [expiring, expiring, hbatch]
    have hpending : t.Pending k := ⟨p, τ, by rw [hheap]; exact hτ, hseq, by rwa [hexp]⟩
    obtain ⟨ls, u, n, hr, hfired, hlt⟩ := exists_run_fired addTime ht hht hpending
    have hle := (hsilent ls u hr).1 n hfired
    omega
  · intro hnot ls u hr
    have hover := over_of_not_pending (hh.issued _ hid) hh.fired hnot
    obtain ⟨hu, _, hover⟩ := handles_keep (I := fun u => u.Over k s.batches)
      (fun _ _ hs hh he ho => ho.effect hs hh he) (.cons he hstep hr) h hh hover
    exact hover.silent hu

instance (addTime : Timestamp → ℚ → Timestamp) (s : TimerLoop) (l : Label) :
    Decidable ((withHandles addTime).enabled s l) :=
  inferInstanceAs (Decidable ((machine addTime).enabled s l ∧ l.Cancels Handle))

/-- A timer that is cancelled before it expires fires all the same. -/
theorem cancelled_timer_fires :
    let addTime : Timestamp → ℚ → Timestamp := fun now x => now + ⌊x * 1000000⌋
    ∃ s t u, Run (withHandles addTime) start [.addTimer true 8 100 0 50] s ∧
      (timerId 8, 1) ∈ s.issued ∧ Run (withHandles addTime) s [.cancel true (timerId 8) 60] t ∧
      Run (withHandles addTime) t [.handleRead 100 true, .runTimer] u ∧ ¬ u.Silent 1 s.batches := by
  intro addTime
  let fires (s u : TimerLoop) : Prop := s.batches = 0 ∧ (1, 1) ∈ u.fired
  let continues (s t : TimerLoop) : Prop :=
    ((withHandles addTime).exec t [.handleRead 100 true, .runTimer]).any (fun u => fires s u)
  let starts (s : TimerLoop) : Prop := (timerId 8, 1) ∈ s.issued ∧
    ((withHandles addTime).exec s [.cancel true (timerId 8) 60]).any (fun t => continues s t)
  have hs : ∃ s, Run (withHandles addTime) start [.addTimer true 8 100 0 50] s ∧ starts s :=
    exists_run_of_exec _ (by decide +kernel)
  obtain ⟨s, hs, hid, ht⟩ := hs
  obtain ⟨t, ht, hu⟩ := exists_run_of_exec (continues s) ht
  obtain ⟨u, hu, hzero, hfired⟩ := exists_run_of_exec (fires s) hu
  refine ⟨s, t, u, hs, hid, ht, hu, ?_⟩
  intro hsilent
  have hle := hsilent.1 1 hfired
  omega

/-- A one-shot timer that cancels itself has fired for the last time. -/
theorem cancel_works_iff_run :
    let addTime : Timestamp → ℚ → Timestamp := fun now x => now + ⌊x * 1000000⌋
    ∃ s t, Run (withHandles addTime) start
        [.addTimer true 8 100 0 50, .handleRead 100 true, .runTimer] s ∧
      Run (withHandles addTime) s [.cancel true (timerId 8) 101] t ∧
      ∀ ls u, Run (withHandles addTime) t ls u → u.Silent 1 s.batches := by
  intro addTime
  let runs (s : TimerLoop) : Prop := (timerId 8, 1) ∈ s.issued ∧
    s.queue.heap 8 = some ⟨100, 0, false, 1⟩ ∧ 8 ∈ pointers s.expiring ∧
    ((withHandles addTime).exec s [.cancel true (timerId 8) 101]).isSome
  have hs : ∃ s, Run (withHandles addTime) start
      [.addTimer true 8 100 0 50, .handleRead 100 true, .runTimer] s ∧ runs s :=
    exists_run_of_exec _ (by decide +kernel)
  obtain ⟨s, hs, hid, h8, hexp, ht⟩ := hs
  obtain ⟨t, ht⟩ := Option.isSome_iff_exists.mp ht
  have ht := Run.of_exec ht
  refine ⟨s, t, hs, ht, ?_⟩
  have hnot : ¬ s.Pending 1 := by
    intro ⟨p, τ, hτ, hseq, hrepeat⟩
    obtain rfl := (handles_inv hs inv_start handled_start).1.inj ⟨τ, hτ, hseq⟩ ⟨_, h8, rfl⟩
    obtain rfl := Option.some.inj (hτ.symm.trans h8)
    exact absurd (hrepeat hexp) (by decide)
  cases ht with
  | cons he hstep hnil =>
  cases hnil
  exact (cancel_works_iff hs hid (.called 101) he hstep).mpr hnot

end MuduoNet.TimerLoop
