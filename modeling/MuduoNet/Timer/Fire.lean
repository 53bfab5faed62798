import MuduoNet.Timer.Owned

/-!
# Timers fire once, in order

In a run without cancels the numbers in `fired` tell the story: a one-shot timer is among them
once its callback has started, and a batch adds the timers that were due when it was taken.
-/
namespace MuduoNet.TimerLoop

open Lib Lib.Outcome TimerQueue

/-- No `TimerId` is passed to `cancel`. -/
def quiet (addTime : Timestamp → ℚ → Timestamp) : Machine TimerLoop Label Fault :=
  (machine addTime).restrict fun _ l => l.Cancels fun _ => False

/-- How often the callback of the timer with the sequence number `k` has started. -/
def firedCount (s : TimerLoop) (k : Nat) : Nat := (s.fired.map Prod.snd).count k

/-- The timers of the running batch whose callbacks have started. -/
def ranTimers (s : TimerLoop) : List TimerPtr :=
  match s.batch with
  | none => []
  | some b => pointers b.ran

structure Once (s : TimerLoop) : Prop where
  adds : ∀ cb ∈ s.functors ++ s.pendingFunctors_, ∃ p, cb = .addTimerInLoop p
  canceling : ∀ e, e ∉ s.queue.cancelingTimers_
  oneShot : ∀ p t, s.queue.heap p = some t → t.repeat_ = false →
    s.firedCount t.sequence_ = if p ∈ s.ranTimers then 1 else 0
  gone : ∀ k ∈ s.queue.deleted, s.firedCount k = 1
  future : ∀ k, s.queue.numCreated < k → s.firedCount k = 0

variable {addTime : Timestamp → ℚ → Timestamp} {s t : TimerLoop}

theorem once_start : Once start := by
  constructor
  · simp [start]
  · simp [start, TimerQueue.new]
  · intro p t h
    cases h
  · simp [start, TimerQueue.new]
  · intro k _
    rfl

theorem ranTimers_subset {p : TimerPtr} (hp : p ∈ s.ranTimers) : p ∈ pointers s.expiring := by
  cases hb : s.batch with
  | none =>
    rw [ranTimers, hb] at hp
    cases hp
  | some b =>
    rw [ranTimers, hb] at hp
    rw [expiring_some hb]
    have hp' : p ∈ pointers b.ran := hp
    show p ∈ pointers (b.ran ++ b.rest)
    simp [pointers] at hp' ⊢
    tauto

theorem Once.ran (hs : Inv s) (h : Once s) {now : Timestamp} {ran rest : List Entry} {it : Entry}
    {τ : Timer} (hb : s.batch = some ⟨now, ran, it :: rest⟩)
    (hτ : s.queue.heap (ofLex it).2 = some τ) :
    Once { s with
      batch := some ⟨now, ran ++ [it], rest⟩, fired := s.fired ++ [(s.batches, τ.sequence_)] } := by
  have hcount : ∀ k, TimerLoop.firedCount { s with
      batch := some ⟨now, ran ++ [it], rest⟩, fired := s.fired ++ [(s.batches, τ.sequence_)] } k =
      s.firedCount k + if τ.sequence_ = k then 1 else 0 := by
    intro k
    unfold firedCount
    rw [List.map_append, List.count_append]
    simp [List.count_singleton]
  have hran : s.ranTimers = pointers ran := by rw [ranTimers, hb]
  have hnew : (ofLex it).2 ∉ pointers ran := by
    have hnodup := hs.owned.nodup
    have hexp : s.expiring = ran ++ it :: rest := expiring_some hb
    rw [hexp] at hnodup
    simp [pointers, List.nodup_append] at hnodup ⊢
    grind
  constructor
  · exact h.adds
  · exact h.canceling
  · intro p t' ht' hr
    have hold := h.oneShot p t' ht' hr
    rw [hcount, hold, hran]
    show _ = if p ∈ pointers (ran ++ [it]) then 1 else 0
    have hmem : p ∈ pointers (ran ++ [it]) ↔ p ∈ pointers ran ∨ p = (ofLex it).2 := by
      simp [pointers]
    by_cases heq : p = (ofLex it).2
    · subst heq
      obtain rfl := Option.some.inj (hτ.symm.trans ht')
      simp [hmem, hnew]
    · have hne : τ.sequence_ ≠ t'.sequence_ := by
        intro hseq
        exact heq (hs.numbered.inj p _ t' τ ht' hτ hseq.symm)
      simp [hmem, heq, hne]
  · intro k hk
    have hne : τ.sequence_ ≠ k := by
      intro hseq
      exact hs.numbered.deleted_gone _ τ hτ (hseq ▸ hk)
    rw [hcount, h.gone k hk, if_neg hne]
  · intro k hk
    have hne : τ.sequence_ ≠ k := by
      have hrange := (hs.numbered.range _ τ hτ).2
      have hk' : s.queue.numCreated < k := hk
      omega
    rw [hcount, h.future k hk, if_neg hne]

theorem Once.ended (hs : Inv s) (h : Once s) {b : Batch} {q : TimerQueue} {now' : Timestamp}
    (hb : s.batch = some b) (hrest : b.rest = []) (hq : AfterReset addTime s.queue b.now b.expired q)
    (ht : Inv { s with queue := q.rearmed now', batch := none }) :
    Once { s with queue := q.rearmed now', batch := none } := by
  have hnum : Numbered q := by
    have hnum := ht.numbered
    rw [rearmed_frame] at hnum
    exact hnum.congr rfl rfl rfl
  have hcanceling : q.cancelingTimers_ = s.queue.cancelingTimers_ := by rw [hq.frame]
  have hcreated : q.numCreated = s.queue.numCreated := by rw [hq.frame]
  have hran : s.ranTimers = pointers b.expired := by
    rw [ranTimers, hb, Batch.expired, hrest, List.append_nil]
  rw [rearmed_frame]
  constructor
  · exact h.adds
  · intro e he
    have he' : e ∈ q.cancelingTimers_ := he
    rw [hcanceling] at he'
    exact h.canceling e he'
  · intro p τ hτ hr
    show s.firedCount τ.sequence_ = 0
    rcases hq.eq_some hτ with ⟨hp, hold⟩ | ⟨_, τ₀, _, hrestart, rfl⟩
    · rw [h.oneShot p τ hold hr, hran, if_neg hp]
    · -- only repeating timers are put back
      have hr' : τ₀.repeat_ = false := hr
      rw [hrestart.1] at hr'
      cases hr'
  · intro k hk
    have hk' : k ∈ q.deleted := hk
    show s.firedCount k = 1
    obtain ⟨hlo, hhi⟩ := hnum.deleted_range k hk'
    rw [hcreated] at hhi
    rcases hs.numbered.total k hlo hhi with hold | ⟨p, τ, hτ, hseq⟩
    · exact h.gone k hold
    · -- the timer was deleted by this batch, and not put back
      have hnew : ∀ τ', q.heap p = some τ' → τ'.sequence_ ≠ k := by
        intro τ' hτ' hseq'
        exact hnum.deleted_gone p τ' hτ' (hseq' ▸ hk')
      by_cases hp : p ∈ pointers b.expired
      · have hr : τ.repeat_ = false := by
          by_contra hr
          have hrestart : s.queue.Restarts p τ := ⟨by simpa using hr, h.canceling _⟩
          exact hnew _ (hq.put_back hp hτ hrestart) hseq
        rw [← hseq, h.oneShot p τ hτ hr, hran, if_pos hp]
      · exact absurd hseq (hnew τ ((hq.kept hp).trans hτ))
  · intro k hk
    have hk' : q.numCreated < k := hk
    rw [hcreated] at hk'
    exact h.future k hk'

theorem once_effect (hs : Inv s) (ht : Inv t) (he : Effect addTime (fun _ => False) s t)
    (h : Once s) : Once t := by
  cases he with
  | created w x hp =>
    refine ⟨?_, h.canceling, ?_, h.gone, ?_⟩
    · intro cb hcb
      rcases List.mem_cons.mp hcb with rfl | hcb
      · exact ⟨_, rfl⟩
      · exact h.adds cb hcb
    · intro p' t' ht' hr
      rcases heap_setTimer_eq_some.mp ht' with ⟨rfl, heq⟩ | ⟨_, hold⟩
      · obtain rfl := Option.some.inj heq
        have hnot : p' ∉ s.ranTimers := fun hran => hs.not_expiring hp (ranTimers_subset hran)
        show _ = if p' ∈ s.ranTimers then 1 else 0
        rw [if_neg hnot]
        exact h.future _ (Nat.lt_succ_self _)
      · exact h.oneShot p' t' hold hr
    · intro k hk
      exact h.future k (Nat.lt_of_succ_lt hk)
  | asked hid => exact hid.elim
  | postponed hf =>
    refine ⟨?_, h.canceling, h.oneShot, h.gone, h.future⟩
    intro cb hcb
    apply h.adds cb
    rw [hf]
    simp at hcb ⊢
    tauto
  | called now hf hc =>
    have hadds := h.adds
    rw [hf] at hadds
    obtain ⟨p, rfl⟩ := hadds _ List.mem_cons_self
    cases hc with
    | scheduled hτ =>
      refine ⟨?_, by simpa using h.canceling, ?_, ?_, ?_⟩
      · intro cb hcb
        exact hadds cb (List.mem_cons_of_mem _ hcb)
      · simp only [heap_scheduled]
        exact h.oneShot
      · simp only [deleted_scheduled]
        exact h.gone
      · simp only [numCreated_scheduled]
        exact h.future
  | swapped hf =>
    refine ⟨?_, h.canceling, h.oneShot, h.gone, h.future⟩
    intro cb hcb
    apply h.adds cb
    rw [hf]
    simpa using hcb
  | began hb hnow hq =>
    have hran : s.ranTimers = [] := by rw [ranTimers, hb]
    have honeShot := h.oneShot
    rw [hran] at honeShot
    rw [hq]
    exact ⟨h.adds, by simp, honeShot, h.gone, h.future⟩
  | ran hb hτ => exact h.ran hs hb hτ
  | ended now' hb hrest hq => exact h.ended hs hb hrest hq ht

/-- The batch `b` of the state `m` is the one that `s` began at `now`. -/
structure During (s : TimerLoop) (now : Timestamp) (m : TimerLoop) (b : Batch) : Prop where
  now_eq : b.now = now
  expired : b.expired = s.queue.due now
  fired : m.fired = s.fired ++ b.ran.map fun e => (s.batches + 1, s.sequenceOf e)
  heap : ∀ p ∈ pointers (s.queue.due now), m.queue.heap p = s.queue.heap p

/-- Until the next batch begins. -/
def Follows (s : TimerLoop) (now : Timestamp) (m : TimerLoop) : Prop :=
  s.batches + 1 ≤ m.batches ∧
    (m.batches = s.batches + 1 → ∀ b, m.batch = some b → During s now m b)

theorem follows_began {now : Timestamp} {q : TimerQueue} (hheap : q.heap = s.queue.heap) :
    Follows s now { s with
      queue := q, batch := some ⟨now, [], s.queue.due now⟩, batches := s.batches + 1 } := by
  refine ⟨Nat.le_refl _, ?_⟩
  intro _ b hb
  obtain rfl := Option.some.inj hb
  exact ⟨rfl, rfl, by simp, fun p _ => congrFun hheap p⟩

variable {m : TimerLoop} {now : Timestamp}

theorem During.congr {b : Batch} (h : During s now m b) (hfired : t.fired = m.fired)
    (hheap : ∀ p ∈ pointers (s.queue.due now), t.queue.heap p = m.queue.heap p) :
    During s now t b := by
  refine ⟨h.now_eq, h.expired, hfired.trans h.fired, ?_⟩
  intro p hp
  rw [hheap p hp]
  exact h.heap p hp

theorem follows_effect (hm : Inv m) (ho : Once m) (he : Effect addTime (fun _ => False) m t)
    (h : Follows s now m) : Follows s now t := by
  obtain ⟨hle, hd⟩ := h
  cases he with
  | created w x hp =>
    refine ⟨hle, fun heq b hb => (hd heq b hb).congr rfl ?_⟩
    -- the timers of the batch are alive, so the new one is elsewhere
    intro p' hp'
    have hb' : m.batch = some b := hb
    have hexp : m.expiring = s.queue.due now := (expiring_some hb').trans (hd heq b hb).expired
    apply heap_setTimer_ne
    rintro rfl
    exact hm.not_expiring hp (hexp ▸ hp')
  | asked hid => exact hid.elim
  | postponed hf => exact ⟨hle, fun heq b hb => (hd heq b hb).congr rfl fun _ _ => rfl⟩
  | called now' hf hc =>
    obtain ⟨p, rfl⟩ := ho.adds _ (by rw [hf]; exact List.mem_cons_self)
    cases hc with
    | scheduled hτ =>
      refine ⟨hle, fun heq b hb => (hd heq b hb).congr rfl ?_⟩
      simp
  | swapped hf => exact ⟨hle, fun heq b hb => (hd heq b hb).congr rfl fun _ _ => rfl⟩
  | began hb hnow hq =>
    refine ⟨Nat.le_succ_of_le hle, ?_⟩
    intro heq
    have heq' : m.batches + 1 = s.batches + 1 := heq
    omega
  | ran hb hτ =>
    refine ⟨hle, ?_⟩
    intro heq b hb'
    obtain rfl := Option.some.inj hb'
    have heq' : m.batches = s.batches + 1 := heq
    obtain ⟨hnow, hexp, hfired, hheap⟩ := hd heq _ hb
    rename_i now' ran rest it τ
    have hexp' : ran ++ it :: rest = s.queue.due now := hexp
    refine ⟨hnow, ?_, ?_, hheap⟩
    · rw [← hexp']
      exact List.append_assoc ran [it] rest
    · have hit : (ofLex it).2 ∈ pointers (s.queue.due now) := by
        rw [← hexp']
        simp [pointers]
      have hseq := sequenceOf_eq ((hheap _ hit).symm.trans hτ)
      show m.fired ++ [(m.batches, τ.sequence_)] = _
      rw [hfired, heq', ← hseq]
      simp
  | ended now' hb hrest hq =>
    refine ⟨hle, ?_⟩
    intro _ b hb'
    cases hb'

theorem quiet_keeps {I : TimerLoop → Prop}
    (hI : ∀ s t, Inv s → Inv t → Effect addTime (fun _ => False) s t → I s → I t) {ls : List Label}
    (h : Run (quiet addTime) s ls t) (hs : Inv s ∧ I s) : Inv t ∧ I t := by
  apply h.invariant _ hs
  intro s l t hi he hstep
  exact step_keeps hI he.2 hi he.1 hstep

/-- The timers that are due run once each: no two of them have the same number. -/
theorem Inv.sequences_nodup (h : Inv s) (now : Timestamp) :
    ((s.queue.due now).map s.sequenceOf).Nodup := by
  have hnodup := h.owned.due_nodup now
  apply List.Nodup.map_on _ hnodup.of_map
  intro e he e' he' hseq
  obtain ⟨_, _, τ, hτ, _⟩ := (h.owned.mem_due (w := (ofLex e).1) (p := (ofLex e).2)).mp he
  obtain ⟨_, _, τ', hτ', _⟩ := (h.owned.mem_due (w := (ofLex e').1) (p := (ofLex e').2)).mp he'
  rw [sequenceOf_eq hτ, sequenceOf_eq hτ'] at hseq
  exact List.inj_on_of_nodup_map hnodup he he' (h.numbered.inj _ _ τ τ' hτ hτ' hseq)

/-- The end of a batch puts its repeating timers back. -/
theorem Once.put_back (hm : Inv m) (h : Once m) {b : Batch} {q : TimerQueue} {now' : Timestamp}
    (hb : m.batch = some b) (hq : AfterReset addTime m.queue b.now b.expired q)
    (ht : Inv { m with queue := q.rearmed now', batch := none }) {p : TimerPtr} {τ : Timer}
    (hp : p ∈ pointers b.expired) (hτ : m.queue.heap p = some τ) (hr : τ.repeat_ = true) :
    q.heap p = some { τ with expiration_ := addTime b.now τ.interval_ } ∧
      toLex (addTime b.now τ.interval_, p) ∈ q.timers_ := by
  have hback : q.heap p = some { τ with expiration_ := addTime b.now τ.interval_ } := by
    rw [hq.put_back hp hτ ⟨hr, h.canceling _⟩, Timer.restart, hr]
    rfl
  refine ⟨hback, ?_⟩
  have hnodup := hm.owned.nodup
  rw [expiring_some hb] at hnodup
  have hfree : p ∉ m.queued := fun hq => List.disjoint_of_nodup_append hnodup hq hp
  have hown := ht.owned
  rw [rearmed_frame] at hown
  refine (hown.timers _ _).mpr ⟨?_, _, hback, rfl⟩
  show p ∉ m.queued ++ []
  rw [List.append_nil]
  exact hfree

/-- What holds while a batch that `s` begins is running. -/
theorem Once.begun (hs : Inv s) (ho : Once s) {mid : List Label} {fired : Bool}
    (hmid : Run (quiet addTime) s (.handleRead now fired :: mid) m) :
    Inv m ∧ Once m ∧ Follows s now m := by
  cases hmid with
  | cons he hstep hr =>
    obtain ⟨⟨hb, _, hnow⟩, _⟩ := he
    obtain ⟨q, hok, hframe, hinv⟩ := hs.handleRead hb now fired
    obtain rfl := Except.ok.inj (hok.symm.trans hstep)
    have heff : Effect addTime (fun _ => False) s _ := .began hb hnow hframe
    have hheap : q.heap = s.queue.heap := by rw [hframe]
    apply quiet_keeps _ hr ⟨hinv, once_effect hs hinv heff ho, follows_began hheap⟩
    intro s₁ s₂ hs₁ hs₂ he ⟨ho, hf⟩
    exact ⟨once_effect hs₁ hs₂ he ho, follows_effect hs₁ ho he hf⟩

theorem Inv.mem_due_iff (h : Inv s) {w : Timestamp} {p : TimerPtr} :
    toLex (w, p) ∈ s.queue.due now ↔ toLex (w, p) ∈ s.queue.timers_ ∧ w ≤ now := by
  rw [h.owned.mem_due, h.owned.timers]
  tauto

theorem due_sorted (q : TimerQueue) (now : Timestamp) :
    (q.due now).Pairwise (fun e e' => (ofLex e).1 ≤ (ofLex e').1) := by
  apply (OrdSet.below_sorted _ _).imp
  intro e e' hlt
  rcases Prod.Lex.lt_iff.mp hlt with hlt | ⟨heq, _⟩
  · exact le_of_lt hlt
  · exact le_of_eq heq

theorem Inv.sequenceOf_le (h : Inv s) {e : Entry} (he : e ∈ s.queue.due now) :
    s.sequenceOf e ≤ s.queue.numCreated := by
  obtain ⟨_, _, τ, hτ, _⟩ := (h.owned.mem_due (w := (ofLex e).1) (p := (ofLex e).2)).mp he
  rw [sequenceOf_eq hτ]
  exact (h.numbered.range _ τ hτ).2

/-- A batch that `s` begins at `now` and that ends in `t` runs the timers that were due, in order
and once each, and none that was created meanwhile; the repeating ones are back in the queue,
and the others do not run again. -/
theorem timers_fire {pre mid post : List Label} {u : TimerLoop} {now' : Timestamp} {fired : Bool}
    (hs : Run (quiet addTime) start pre s)
    (hmid : Run (quiet addTime) s (.handleRead now fired :: mid) m)
    (hsame : m.batches = s.batches + 1)
    (hend : Run (quiet addTime) m [.handleReadEnd now'] t) (hpost : Run (quiet addTime) t post u) :
    (∀ w p, toLex (w, p) ∈ s.queue.due now ↔ toLex (w, p) ∈ s.queue.timers_ ∧ w ≤ now) ∧
    (s.queue.due now).Pairwise (fun e e' => (ofLex e).1 ≤ (ofLex e').1) ∧
    ((s.queue.due now).map s.sequenceOf).Nodup ∧
    t.fired = s.fired ++ (s.queue.due now).map (fun e => (s.batches + 1, s.sequenceOf e)) ∧
    (∀ k, s.queue.numCreated < k → t.firedCount k = 0) ∧
    ∀ w p τ, toLex (w, p) ∈ s.queue.due now → s.queue.heap p = some τ →
      (τ.repeat_ = true →
        t.queue.heap p = some { τ with expiration_ := addTime now τ.interval_ } ∧
        toLex (addTime now τ.interval_, p) ∈ t.queue.timers_) ∧
      (τ.repeat_ = false → u.firedCount τ.sequence_ = 1) := by
  obtain ⟨hinv, honce⟩ := quiet_keeps (fun _ _ => once_effect) hs ⟨inv_start, once_start⟩
  obtain ⟨hm, hmonce, _, hd⟩ := honce.begun hinv hmid
  cases hend with
  | cons he hstep hnil =>
  cases hnil
  obtain ⟨⟨b, hb, hrest⟩, _⟩ := he
  obtain ⟨q, hok, hq, ht⟩ := hm.handleReadEnd addTime hb now'
  obtain rfl := Except.ok.inj (hok.symm.trans hstep)
  have heff : Effect addTime (fun _ => False) m _ := .ended now' hb hrest hq
  have htonce := once_effect hm ht heff hmonce
  obtain ⟨hnow, hexp, hfired, hsame⟩ := hd hsame b hb
  have hran : b.ran = s.queue.due now := by rw [← hexp, Batch.expired, hrest, List.append_nil]
  rw [hran] at hfired
  refine ⟨fun w p => hinv.mem_due_iff, due_sorted _ _, hinv.sequences_nodup now, hfired, ?_, ?_⟩
  · intro k hk
    have hnot : k ∉ (s.queue.due now).map s.sequenceOf := by
      rw [List.mem_map]
      rintro ⟨e, he, rfl⟩
      exact absurd (hinv.sequenceOf_le he) (not_le.mpr hk)
    show (m.fired.map Prod.snd).count k = 0
    rw [hfired, List.map_append, List.count_append, List.map_map]
    exact Nat.add_eq_zero_iff.mpr ⟨honce.future k hk, List.count_eq_zero.mpr hnot⟩
  · intro w p τ hmem hτ
    have hp : p ∈ pointers (s.queue.due now) := mem_pointers.mpr ⟨w, hmem⟩
    have hτm : m.queue.heap p = some τ := (hsame p hp).trans hτ
    rw [← hexp] at hp
    constructor
    · intro hr
      rw [rearmed_frame, ← hnow]
      exact hmonce.put_back hm hb hq ht hp hτm hr
    · intro hr
      obtain ⟨hlo, hhi⟩ := hm.numbered.range p τ hτm
      have hrestart : ¬ m.queue.Restarts p τ := by
        intro hrestart
        rw [hrestart.1] at hr
        cases hr
      have hdead : Dead { m with queue := q.rearmed now', batch := none } τ.sequence_ := by
        rw [rearmed_frame]
        refine ⟨?_, ?_⟩
        · rw [hq.frame]
          exact hhi
        · rintro p' ⟨τ', hτ', hseq⟩
          exact hq.gone hm.numbered hp hτm hrestart hτ' hseq
      obtain ⟨hu, huonce, hudead⟩ :=
        quiet_keeps (I := fun u => Once u ∧ Dead u τ.sequence_)
          (fun s t hs ht he hi => ⟨once_effect hs ht he hi.1, hi.2.effect he⟩) hpost
          ⟨ht, htonce, hdead⟩
      exact huonce.gone _ (hu.mem_deleted hlo hudead)

instance (addTime : Timestamp → ℚ → Timestamp) (s : TimerLoop) (l : Label) :
    Decidable ((quiet addTime).enabled s l) :=
  inferInstanceAs (Decidable ((machine addTime).enabled s l ∧ l.Cancels fun _ => False))

/-- Two timers expire at 100, and a callback adds one that has expired already. -/
theorem timers_fire_run :
    let addTime : Timestamp → ℚ → Timestamp := fun now x => now + ⌊x * 1000000⌋
    let pre : List Label := [.addTimer true 8 100 0 50, .addTimer true 16 100 2 50]
    let batch : List Label := [.handleRead 100 true, .runTimer, .addTimer true 24 90 0 101, .runTimer]
    let post : List Label := [.handleRead 200 true, .runTimer, .handleReadEnd 210]
    ∃ s m t u, Run (quiet addTime) start pre s ∧ Run (quiet addTime) s batch m ∧
      Run (quiet addTime) m [.handleReadEnd 110] t ∧ Run (quiet addTime) t post u ∧
      toLex (addTime 100 2, 16) ∈ t.queue.timers_ ∧ t.firedCount 3 = 0 ∧ u.firedCount 1 = 1 := by
  intro addTime pre batch post
  let ends (t : TimerLoop) : Prop := ((quiet addTime).exec t post).isSome
  let ran (s m : TimerLoop) : Prop :=
    m.batches = s.batches + 1 ∧ ((quiet addTime).exec m [.handleReadEnd 110]).any (fun t => ends t)
  let starts (s : TimerLoop) : Prop :=
    s.queue.numCreated = 2 ∧ s.queue.due 100 = [toLex (100, 8), toLex (100, 16)] ∧
      s.queue.heap 8 = some ⟨100, 0, false, 1⟩ ∧ s.queue.heap 16 = some ⟨100, 2, true, 2⟩ ∧
      ((quiet addTime).exec s batch).any (fun m => ran s m)
  have hs : ∃ s, Run (quiet addTime) start pre s ∧ starts s := exists_run_of_exec _ (by decide +kernel)
  obtain ⟨s, hs, hcreated, hdue, h8, h16, hm⟩ := hs
  obtain ⟨m, hm, hsame, ht⟩ := exists_run_of_exec (ran s) hm
  obtain ⟨t, ht, hu⟩ := exists_run_of_exec ends ht
  obtain ⟨u, hu⟩ := Option.isSome_iff_exists.mp hu
  obtain ⟨_, _, _, _, hnew, htimers⟩ := timers_fire hs hm hsame ht (.of_exec hu)
  refine ⟨s, m, t, u, hs, hm, ht, .of_exec hu, ?_, hnew 3 (by omega), ?_⟩
  · exact ((htimers 100 16 _ (by simp [hdue]) h16).1 rfl).2
  · exact (htimers 100 8 _ (by simp [hdue]) h8).2 rfl

end MuduoNet.TimerLoop
