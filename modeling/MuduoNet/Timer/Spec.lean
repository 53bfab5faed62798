import MuduoNet.Timer.Basic

/-!
# Who holds each timer

`Owned q others`: of the live timers, those in `others` are held elsewhere (queued in the loop,
or in the running batch), and both sets of the queue describe exactly the rest. Each function
moves timers between the two without failing an assertion or touching a deleted object.
-/
namespace MuduoNet.TimerQueue

open Lib Lib.Outcome

structure Owned (q : TimerQueue) (others : List TimerPtr) : Prop where
  timers : ∀ w p, toLex (w, p) ∈ q.timers_ ↔
    p ∉ others ∧ ∃ t, q.heap p = some t ∧ t.expiration_ = w
  active : ∀ p k, toLex (p, k) ∈ q.activeTimers_ ↔
    p ∉ others ∧ ∃ t, q.heap p = some t ∧ t.sequence_ = k
  size : q.timers_.size = q.activeTimers_.size
  alive : ∀ p ∈ others, ∃ t, q.heap p = some t
  nodup : others.Nodup
  addr : ∀ p t, q.heap p = some t → p < UINTPTR_MAX

/-- Sequence numbers are given out in order, name one live timer at most, and none that has
been deleted. -/
structure Numbered (q : TimerQueue) : Prop where
  range : ∀ p t, q.heap p = some t → 1 ≤ t.sequence_ ∧ t.sequence_ ≤ q.numCreated
  inj : ∀ p p' t t', q.heap p = some t → q.heap p' = some t' → t.sequence_ = t'.sequence_ → p = p'
  deleted_range : ∀ k ∈ q.deleted, 1 ≤ k ∧ k ≤ q.numCreated
  deleted_nodup : q.deleted.Nodup
  deleted_gone : ∀ p t, q.heap p = some t → t.sequence_ ∉ q.deleted
  total : ∀ k, 1 ≤ k → k ≤ q.numCreated → k ∈ q.deleted ∨ ∃ p t, q.heap p = some t ∧ t.sequence_ = k

section

variable {q : TimerQueue} {others : List TimerPtr} {p : TimerPtr} {t t' : Timer}

@[simp] theorem heap_setTimer_self (q : TimerQueue) (p : TimerPtr) (t : Option Timer) :
    (q.setTimer p t).heap p = t := if_pos rfl

theorem heap_setTimer_ne (q : TimerQueue) {p p' : TimerPtr} (t : Option Timer) (h : p' ≠ p) :
    (q.setTimer p t).heap p' = q.heap p' := if_neg h

theorem heap_setTimer_eq_some {t₀ : Option Timer} {p' : TimerPtr} :
    (q.setTimer p t₀).heap p' = some t' ↔
      (p' = p ∧ t₀ = some t') ∨ (p' ≠ p ∧ q.heap p' = some t') := by
  by_cases h : p' = p
  · subst h
    simp
  · simp [heap_setTimer_ne q t₀ h, h]

theorem deref_eq (h : q.heap p = some t) : q.deref p = .ok t := by
  unfold deref
  rw [h]

theorem owned_new : Owned new [] := by
  constructor
  · intro w p
    simp [new]
  · intro p k
    simp [new]
  · rfl
  · simp
  · exact List.nodup_nil
  · intro p t h
    cases h

theorem numbered_new : Numbered new := by
  constructor
  · intro p t h
    cases h
  · intro p p' t t' h
    cases h
  · simp [new]
  · exact List.nodup_nil
  · intro p t h
    cases h
  · intro k hlo hhi
    have h : k ≤ 0 := hhi
    omega

theorem Owned.perm {others' : List TimerPtr} (h : Owned q others) (hp : others.Perm others') :
    Owned q others' := by
  constructor
  · intro w p
    rw [h.timers, hp.mem_iff]
  · intro p k
    rw [h.active, hp.mem_iff]
  · exact h.size
  · intro p hmem
    exact h.alive p (hp.mem_iff.mpr hmem)
  · exact hp.nodup_iff.mp h.nodup
  · exact h.addr

/-- The invariants look at the heap and the two sets only. -/
theorem Owned.congr {q' : TimerQueue} (h : Owned q others) (hheap : q'.heap = q.heap)
    (htimers : q'.timers_ = q.timers_) (hactive : q'.activeTimers_ = q.activeTimers_) :
    Owned q' others := by
  obtain ⟨h₁, h₂, h₃, h₄, h₅, h₆⟩ := h
  constructor
  · rw [hheap, htimers]
    exact h₁
  · rw [hheap, hactive]
    exact h₂
  · rw [htimers, hactive]
    exact h₃
  · rw [hheap]
    exact h₄
  · exact h₅
  · rw [hheap]
    exact h₆

theorem Numbered.congr {q' : TimerQueue} (h : Numbered q) (hheap : q'.heap = q.heap)
    (hcreated : q'.numCreated = q.numCreated) (hdeleted : q'.deleted = q.deleted) :
    Numbered q' := by
  obtain ⟨h₁, h₂, h₃, h₄, h₅, h₆⟩ := h
  constructor
  · rw [hheap, hcreated]
    exact h₁
  · rw [hheap]
    exact h₂
  · rw [hdeleted, hcreated]
    exact h₃
  · rw [hdeleted]
    exact h₄
  · rw [hheap, hdeleted]
    exact h₅
  · rw [hheap, hcreated, hdeleted]
    exact h₆

/-- A timer that others hold may be changed. -/
theorem Owned.setTimer (h : Owned q others) (hp : p ∈ others) (t : Timer) :
    Owned (q.setTimer p (some t)) others := by
  have hne : ∀ p', p' ∉ others → p' ≠ p := by
    intro p' hp' heq
    exact hp' (heq ▸ hp)
  constructor
  · intro w p'
    show _ ∈ q.timers_ ↔ _
    rw [h.timers]
    apply and_congr_right
    intro hp'
    rw [heap_setTimer_ne q _ (hne p' hp')]
  · intro p' k
    show _ ∈ q.activeTimers_ ↔ _
    rw [h.active]
    apply and_congr_right
    intro hp'
    rw [heap_setTimer_ne q _ (hne p' hp')]
  · exact h.size
  · intro p' hp'
    by_cases heq : p' = p
    · rw [heq, heap_setTimer_self]
      exact ⟨t, rfl⟩
    · rw [heap_setTimer_ne q _ heq]
      exact h.alive p' hp'
  · exact h.nodup
  · intro p' t' ht'
    rcases heap_setTimer_eq_some.mp ht' with ⟨rfl, _⟩ | ⟨_, ht'⟩
    · obtain ⟨t₀, ht₀⟩ := h.alive p' hp
      exact h.addr p' t₀ ht₀
    · exact h.addr p' t' ht'

theorem Numbered.setTimer (h : Numbered q) (hp : q.heap p = some t)
    (hseq : t'.sequence_ = t.sequence_) : Numbered (q.setTimer p (some t')) := by
  -- seen through its sequence number every timer is one of the old heap
  have hold : ∀ p₁ t₁, (q.setTimer p (some t')).heap p₁ = some t₁ →
      ∃ t₀, q.heap p₁ = some t₀ ∧ t₀.sequence_ = t₁.sequence_ := by
    intro p₁ t₁ h₁
    rcases heap_setTimer_eq_some.mp h₁ with ⟨rfl, ht⟩ | ⟨_, h₁⟩
    · obtain rfl := Option.some.inj ht
      exact ⟨t, hp, hseq.symm⟩
    · exact ⟨t₁, h₁, rfl⟩
  constructor
  · intro p₁ t₁ h₁
    obtain ⟨t₀, h₀, hs⟩ := hold p₁ t₁ h₁
    rw [← hs]
    exact h.range p₁ t₀ h₀
  · intro p₁ p₂ t₁ t₂ h₁ h₂ heq
    obtain ⟨s₁, hs₁, hq₁⟩ := hold p₁ t₁ h₁
    obtain ⟨s₂, hs₂, hq₂⟩ := hold p₂ t₂ h₂
    exact h.inj p₁ p₂ s₁ s₂ hs₁ hs₂ (by rw [hq₁, hq₂, heq])
  · exact h.deleted_range
  · exact h.deleted_nodup
  · intro p₁ t₁ h₁
    obtain ⟨t₀, h₀, hs⟩ := hold p₁ t₁ h₁
    rw [← hs]
    exact h.deleted_gone p₁ t₀ h₀
  · intro k hlo hhi
    rcases h.total k hlo hhi with hd | ⟨p₁, t₁, h₁, hk⟩
    · exact Or.inl hd
    · by_cases heq : p₁ = p
      · subst heq
        obtain rfl := Option.some.inj (hp.symm.trans h₁)
        exact Or.inr ⟨p₁, t', heap_setTimer_self _ _ _, hseq.trans hk⟩
      · exact Or.inr ⟨p₁, t₁, (heap_setTimer_ne q _ heq).trans h₁, hk⟩

/-- A new timer is held by whoever created it. -/
theorem Owned.newTimer (h : Owned q others) (hfree : q.heap p = none) (haddr : p < UINTPTR_MAX)
    (w : Timestamp) (interval : ℚ) : Owned (q.newTimer p w interval) (p :: others) := by
  have hheap : ∀ p', p' ≠ p → (q.newTimer p w interval).heap p' = q.heap p' :=
    fun p' hne => heap_setTimer_ne q _ hne
  have hself : (q.newTimer p w interval).heap p = some (.new w interval (q.numCreated + 1)) :=
    heap_setTimer_self q _ _
  have hnew : p ∉ others := by
    intro hmem
    obtain ⟨t, ht⟩ := h.alive p hmem
    rw [hfree] at ht
    cases ht
  constructor
  · intro w' p'
    show _ ∈ q.timers_ ↔ _
    rw [h.timers, List.mem_cons, not_or]
    by_cases heq : p' = p
    · subst heq
      simp [hfree]
    · rw [hheap p' heq]
      simp [heq]
  · intro p' k
    show _ ∈ q.activeTimers_ ↔ _
    rw [h.active, List.mem_cons, not_or]
    by_cases heq : p' = p
    · subst heq
      simp [hfree]
    · rw [hheap p' heq]
      simp [heq]
  · exact h.size
  · intro p' hp'
    rcases List.mem_cons.mp hp' with rfl | hp'
    · exact ⟨_, hself⟩
    · rw [hheap p' (by intro heq; exact hnew (heq ▸ hp'))]
      exact h.alive p' hp'
  · exact List.nodup_cons.mpr ⟨hnew, h.nodup⟩
  · intro p' t' ht'
    by_cases heq : p' = p
    · rw [heq]
      exact haddr
    · rw [hheap p' heq] at ht'
      exact h.addr p' t' ht'

theorem Numbered.newTimer (h : Numbered q) (hfree : q.heap p = none) (w : Timestamp)
    (interval : ℚ) : Numbered (q.newTimer p w interval) := by
  have hcases : ∀ p₁ t₁, (q.newTimer p w interval).heap p₁ = some t₁ →
      (p₁ = p ∧ t₁.sequence_ = q.numCreated + 1) ∨ (p₁ ≠ p ∧ q.heap p₁ = some t₁) := by
    intro p₁ t₁ h₁
    rcases heap_setTimer_eq_some.mp h₁ with ⟨heq, ht⟩ | hold
    · exact Or.inl ⟨heq, by rw [← Option.some.inj ht]; rfl⟩
    · exact Or.inr hold
  constructor
  · intro p₁ t₁ h₁
    show 1 ≤ t₁.sequence_ ∧ t₁.sequence_ ≤ q.numCreated + 1
    rcases hcases p₁ t₁ h₁ with ⟨_, hseq⟩ | ⟨_, hold⟩
    · omega
    · have hr := h.range p₁ t₁ hold
      omega
  · intro p₁ p₂ t₁ t₂ h₁ h₂ heq
    rcases hcases p₁ t₁ h₁ with ⟨hp₁, hs₁⟩ | ⟨_, ho₁⟩
    · rcases hcases p₂ t₂ h₂ with ⟨hp₂, _⟩ | ⟨_, ho₂⟩
      · rw [hp₁, hp₂]
      · have hr := h.range p₂ t₂ ho₂
        omega
    · have hr := h.range p₁ t₁ ho₁
      rcases hcases p₂ t₂ h₂ with ⟨_, hs₂⟩ | ⟨_, ho₂⟩
      · omega
      · exact h.inj p₁ p₂ t₁ t₂ ho₁ ho₂ heq
  · intro k hk
    have hr := h.deleted_range k hk
    show 1 ≤ k ∧ k ≤ q.numCreated + 1
    omega
  · exact h.deleted_nodup
  · intro p₁ t₁ h₁ hmem
    rcases hcases p₁ t₁ h₁ with ⟨_, hs₁⟩ | ⟨_, ho₁⟩
    · have hr := h.deleted_range _ hmem
      omega
    · exact h.deleted_gone p₁ t₁ ho₁ hmem
  · intro k hlo hhi
    have hhi' : k ≤ q.numCreated + 1 := hhi
    by_cases hk : k = q.numCreated + 1
    · subst hk
      exact Or.inr ⟨p, _, heap_setTimer_self q _ _, rfl⟩
    · rcases h.total k hlo (by omega) with hd | ⟨p₁, t₁, h₁, hs⟩
      · exact Or.inl hd
      · refine Or.inr ⟨p₁, t₁, (heap_setTimer_ne q _ ?_).trans h₁, hs⟩
        intro heq
        rw [heq, hfree] at h₁
        cases h₁

/-- The queue after `delete p`. -/
def freed (q : TimerQueue) (p : TimerPtr) (t : Timer) : TimerQueue :=
  { q.setTimer p none with deleted := t.sequence_ :: q.deleted }

theorem delete_eq (h : q.heap p = some t) : q.delete p = .ok (q.freed p t) := by
  unfold delete
  rw [deref_eq h]
  rfl

theorem heap_freed_eq_some {p' : TimerPtr} :
    (q.freed p t).heap p' = some t' ↔ p' ≠ p ∧ q.heap p' = some t' := by
  show (q.setTimer p none).heap p' = some t' ↔ _
  rw [heap_setTimer_eq_some]
  simp

theorem Owned.freed (h : Owned q (p :: others)) : Owned (q.freed p t) others := by
  obtain ⟨hnew, hnodup⟩ := List.nodup_cons.mp h.nodup
  constructor
  · intro w p'
    show _ ∈ q.timers_ ↔ _
    rw [h.timers, List.mem_cons, not_or]
    simp only [heap_freed_eq_some]
    grind
  · intro p' k
    show _ ∈ q.activeTimers_ ↔ _
    rw [h.active, List.mem_cons, not_or]
    simp only [heap_freed_eq_some]
    grind
  · exact h.size
  · intro p' hp'
    obtain ⟨t', ht'⟩ := h.alive p' (List.mem_cons_of_mem p hp')
    refine ⟨t', heap_freed_eq_some.mpr ⟨?_, ht'⟩⟩
    intro heq
    exact hnew (heq ▸ hp')
  · exact hnodup
  · intro p' t' ht'
    exact h.addr p' t' (heap_freed_eq_some.mp ht').2

theorem Numbered.freed (h : Numbered q) (hp : q.heap p = some t) : Numbered (q.freed p t) := by
  constructor
  · intro p₁ t₁ h₁
    exact h.range p₁ t₁ (heap_freed_eq_some.mp h₁).2
  · intro p₁ p₂ t₁ t₂ h₁ h₂
    exact h.inj p₁ p₂ t₁ t₂ (heap_freed_eq_some.mp h₁).2 (heap_freed_eq_some.mp h₂).2
  · intro k hk
    rcases List.mem_cons.mp hk with rfl | hk
    · exact h.range p t hp
    · exact h.deleted_range k hk
  · exact List.nodup_cons.mpr ⟨h.deleted_gone p t hp, h.deleted_nodup⟩
  · intro p₁ t₁ h₁ hmem
    obtain ⟨hne, hold⟩ := heap_freed_eq_some.mp h₁
    rcases List.mem_cons.mp hmem with hseq | hmem
    · exact hne (h.inj p₁ p t₁ t hold hp hseq)
    · exact h.deleted_gone p₁ t₁ hold hmem
  · intro k hlo hhi
    rcases h.total k hlo hhi with hd | ⟨p₁, t₁, h₁, hk⟩
    · exact Or.inl (List.mem_cons_of_mem _ hd)
    · by_cases heq : p₁ = p
      · subst heq
        obtain rfl := Option.some.inj (hp.symm.trans h₁)
        exact Or.inl (List.mem_cons.mpr (Or.inl hk.symm))
      · exact Or.inr ⟨p₁, t₁, heap_freed_eq_some.mpr ⟨heq, h₁⟩, hk⟩

/-- The queue after `insert(p)`. -/
def inserted (q : TimerQueue) (p : TimerPtr) (t : Timer) : TimerQueue :=
  { q with
    timers_ := (q.timers_.insert (toLex (t.expiration_, p))).2
    activeTimers_ := (q.activeTimers_.insert (toLex (p, t.sequence_))).2 }

theorem Owned.not_scheduled (h : Owned q others) (hp : p ∈ others) (w : Timestamp) (k : Nat) :
    toLex (w, p) ∉ q.timers_ ∧ toLex (p, k) ∉ q.activeTimers_ := by
  constructor
  · intro hmem
    exact ((h.timers w p).mp hmem).1 hp
  · intro hmem
    exact ((h.active p k).mp hmem).1 hp

theorem Owned.inserted (h : Owned q (p :: others)) (hp : q.heap p = some t) :
    Owned (q.inserted p t) others := by
  obtain ⟨hnew, hnodup⟩ := List.nodup_cons.mp h.nodup
  obtain ⟨htimer, hactive⟩ := h.not_scheduled List.mem_cons_self t.expiration_ t.sequence_
  constructor
  · intro w p'
    show toLex (w, p') ∈ (q.timers_.insert _).2 ↔ p' ∉ others ∧ ∃ t', q.heap p' = some t' ∧ _
    rw [OrdSet.mem_insert, h.timers, toLex_inj, Prod.mk.injEq, List.mem_cons, not_or]
    constructor
    · intro hor
      rcases hor with ⟨rfl, rfl⟩ | ⟨⟨_, hp'⟩, ht'⟩
      · exact ⟨hnew, t, hp, rfl⟩
      · exact ⟨hp', ht'⟩
    · intro ⟨hp', t', ht', hw⟩
      by_cases heq : p' = p
      · subst heq
        obtain rfl := Option.some.inj (hp.symm.trans ht')
        exact Or.inl ⟨hw.symm, rfl⟩
      · exact Or.inr ⟨⟨heq, hp'⟩, t', ht', hw⟩
  · intro p' k
    show toLex (p', k) ∈ (q.activeTimers_.insert _).2 ↔ p' ∉ others ∧ ∃ t', q.heap p' = some t' ∧ _
    rw [OrdSet.mem_insert, h.active, toLex_inj, Prod.mk.injEq, List.mem_cons, not_or]
    constructor
    · intro hor
      rcases hor with ⟨rfl, rfl⟩ | ⟨⟨_, hp'⟩, ht'⟩
      · exact ⟨hnew, t, hp, rfl⟩
      · exact ⟨hp', ht'⟩
    · intro ⟨hp', t', ht', hk⟩
      by_cases heq : p' = p
      · subst heq
        obtain rfl := Option.some.inj (hp.symm.trans ht')
        exact Or.inl ⟨rfl, hk.symm⟩
      · exact Or.inr ⟨⟨heq, hp'⟩, t', ht', hk⟩
  · show (q.timers_.insert _).2.size = (q.activeTimers_.insert _).2.size
    rw [OrdSet.size_insert htimer, OrdSet.size_insert hactive, h.size]
  · intro p' hp'
    exact h.alive p' (List.mem_cons_of_mem p hp')
  · exact hnodup
  · exact h.addr

/-- `insert` fails no assertion: the timer is in neither set. -/
theorem insert_eq (h : Owned q (p :: others)) (hp : q.heap p = some t) :
    q.insert p = .ok (q.comesFirst t.expiration_, q.inserted p t) := by
  obtain ⟨htimer, hactive⟩ := h.not_scheduled List.mem_cons_self t.expiration_ t.sequence_
  have hsize := (h.inserted hp).size
  unfold insert
  rw [MuduoNet.assert, demand_true h.size, ok_bind, deref_eq hp, ok_bind]
  dsimp only [MuduoNet.assert]
  rw [demand_true (OrdSet.fst_insert htimer), ok_bind, demand_true (OrdSet.fst_insert hactive),
    ok_bind]
  unfold TimerQueue.inserted at hsize
  rw [demand_true hsize]
  rfl

/-- The queue without the timer `p` in its sets. -/
def withdrawn (q : TimerQueue) (p : TimerPtr) (t : Timer) : TimerQueue :=
  { q with
    timers_ := (q.timers_.erase (toLex (t.expiration_, p))).2
    activeTimers_ := (q.activeTimers_.erase (toLex (p, t.sequence_))).2 }

theorem Owned.scheduled (h : Owned q others) (hp : q.heap p = some t) (hmem : p ∉ others) :
    toLex (t.expiration_, p) ∈ q.timers_ ∧ toLex (p, t.sequence_) ∈ q.activeTimers_ :=
  ⟨(h.timers _ _).mpr ⟨hmem, t, hp, rfl⟩, (h.active _ _).mpr ⟨hmem, t, hp, rfl⟩⟩

theorem Owned.withdrawn (h : Owned q others) (hp : q.heap p = some t) (hmem : p ∉ others) :
    Owned (q.withdrawn p t) (p :: others) := by
  obtain ⟨htimer, hactive⟩ := h.scheduled hp hmem
  constructor
  · intro w p'
    show toLex (w, p') ∈ (q.timers_.erase _).2 ↔ _ ∧ ∃ t', q.heap p' = some t' ∧ _
    rw [OrdSet.mem_erase, h.timers, ne_eq, toLex_inj, Prod.mk.injEq, List.mem_cons, not_or]
    grind
  · intro p' k
    show toLex (p', k) ∈ (q.activeTimers_.erase _).2 ↔ _ ∧ ∃ t', q.heap p' = some t' ∧ _
    rw [OrdSet.mem_erase, h.active, ne_eq, toLex_inj, Prod.mk.injEq, List.mem_cons, not_or]
    grind
  · show (q.timers_.erase _).2.size = (q.activeTimers_.erase _).2.size
    have h₁ := OrdSet.size_erase htimer
    have h₂ := OrdSet.size_erase hactive
    have h₃ := h.size
    omega
  · intro p' hp'
    rcases List.mem_cons.mp hp' with rfl | hp'
    · exact ⟨t, hp⟩
    · exact h.alive p' hp'
  · exact List.nodup_cons.mpr ⟨hmem, h.nodup⟩
  · exact h.addr

/-- A cancel that finds its timer takes it out of both sets and deletes it. -/
theorem cancelInLoop_found (h : Owned q others) {id : TimerId}
    (hid : toLex (id.timer_, id.sequence_) ∈ q.activeTimers_) :
    ∃ t, q.heap id.timer_ = some t ∧ t.sequence_ = id.sequence_ ∧ id.timer_ ∉ others ∧
      q.cancelInLoop id = .ok ((q.withdrawn id.timer_ t).freed id.timer_ t) := by
  obtain ⟨hmem, t, ht, hseq⟩ := (h.active _ _).mp hid
  obtain ⟨htimer, _⟩ := h.scheduled ht hmem
  refine ⟨t, ht, hseq, hmem, ?_⟩
  let q' : TimerQueue :=
    { q with timers_ := (q.timers_.erase (toLex (t.expiration_, id.timer_))).2 }
  have hsize : (q'.freed id.timer_ t).timers_.size =
      ((q'.freed id.timer_ t).activeTimers_.erase (toLex (id.timer_, t.sequence_))).2.size :=
    (h.withdrawn ht hmem).size
  have hdelete : q'.delete id.timer_ = .ok (q'.freed id.timer_ t) := delete_eq ht
  rw [← hseq] at hid
  unfold cancelInLoop
  dsimp only [MuduoNet.assert]
  rw [← hseq, demand_true h.size, ok_bind, if_pos hid, deref_eq ht, ok_bind,
    demand_true (OrdSet.fst_erase htimer), ok_bind, hdelete, ok_bind, demand_true hsize]
  rfl

/-- The queue after a cancel that does not find its timer: it is remembered during a batch. -/
def missed (q : TimerQueue) (id : TimerId) : TimerQueue :=
  if q.callingExpiredTimers_ then
    { q with cancelingTimers_ :=
        (q.cancelingTimers_.insert (toLex (id.timer_, id.sequence_))).2 }
  else q

theorem cancelInLoop_missed (h : Owned q others) {id : TimerId}
    (hid : toLex (id.timer_, id.sequence_) ∉ q.activeTimers_) :
    q.cancelInLoop id = .ok (q.missed id) := by
  unfold cancelInLoop missed
  dsimp only [MuduoNet.assert]
  rw [demand_true h.size, ok_bind, if_neg hid]
  split
  · rw [demand_true h.size]
    rfl
  · rw [demand_true h.size]
    rfl

theorem missed_frame (q : TimerQueue) (id : TimerId) :
    q.missed id = { q with cancelingTimers_ := (q.missed id).cancelingTimers_ } := by
  unfold missed
  split <;> rfl

theorem mem_canceling_missed {id : TimerId} {e : ActiveTimer}
    (he : e ∈ (q.missed id).cancelingTimers_) :
    e ∈ q.cancelingTimers_ ∨ e = toLex (id.timer_, id.sequence_) := by
  unfold missed at he
  split at he
  · exact (OrdSet.mem_insert.mp he).symm
  · exact Or.inl he

/-- The addresses of the timers in a list of entries. -/
def pointers (entries : List Entry) : List TimerPtr := entries.map fun e => (ofLex e).2

theorem pointers_append (es fs : List Entry) : pointers (es ++ fs) = pointers es ++ pointers fs :=
  List.map_append

/-- The loop of `getExpired` takes the expired timers out of `activeTimers_`. -/
theorem deactivate_eq {expired : List Entry} (hnodup : (pointers expired).Nodup)
    (hactive : ∀ p ∈ pointers expired, ∃ t, q.heap p = some t ∧
      toLex (p, t.sequence_) ∈ q.activeTimers_) :
    ∃ activeTimers, q.deactivate expired = .ok { q with activeTimers_ := activeTimers } ∧
      activeTimers.size + expired.length = q.activeTimers_.size ∧
      ∀ p k, toLex (p, k) ∈ activeTimers ↔ toLex (p, k) ∈ q.activeTimers_ ∧
        ∀ t, q.heap p = some t → p ∈ pointers expired → t.sequence_ ≠ k := by
  induction expired generalizing q with
  | nil => exact ⟨q.activeTimers_, rfl, rfl, by simp [pointers]⟩
  | cons e expired ih =>
    obtain ⟨hnew, hnodup'⟩ := List.nodup_cons.mp hnodup
    obtain ⟨t, ht, hmem⟩ := hactive (ofLex e).2 List.mem_cons_self
    let q' : TimerQueue :=
      { q with activeTimers_ := (q.activeTimers_.erase (toLex ((ofLex e).2, t.sequence_))).2 }
    have hactive' : ∀ p ∈ pointers expired, ∃ t, q'.heap p = some t ∧
        toLex (p, t.sequence_) ∈ q'.activeTimers_ := by
      intro p hp
      obtain ⟨t', ht', hmem'⟩ := hactive p (List.mem_cons_of_mem _ hp)
      refine ⟨t', ht', OrdSet.mem_erase.mpr ⟨?_, hmem'⟩⟩
      intro heq
      rw [toLex_inj, Prod.mk.injEq] at heq
      apply hnew
      show (ofLex e).2 ∈ pointers expired
      rw [← heq.1]
      exact hp
    obtain ⟨activeTimers, hok, hsize, hchar⟩ := ih (q := q') hnodup' hactive'
    refine ⟨activeTimers, ?_, ?_, ?_⟩
    · rw [deactivate, deref_eq ht, ok_bind]
      dsimp only [MuduoNet.assert]
      rw [demand_true (OrdSet.fst_erase hmem)]
      exact hok
    · have hone : q'.activeTimers_.size + 1 = q.activeTimers_.size := OrdSet.size_erase hmem
      rw [List.length_cons]
      omega
    · intro p k
      have herase : toLex (p, k) ∈ q'.activeTimers_ ↔
          ¬ (p = (ofLex e).2 ∧ k = t.sequence_) ∧ toLex (p, k) ∈ q.activeTimers_ := by
        show toLex (p, k) ∈ (q.activeTimers_.erase _).2 ↔ _
        rw [OrdSet.mem_erase, ne_eq, toLex_inj, Prod.mk.injEq]
      rw [hchar, herase]
      show _ ↔ _ ∧ ∀ t, q.heap p = some t → p ∈ (ofLex e).2 :: pointers expired → _
      constructor
      · intro ⟨⟨hne, hmem'⟩, hrest⟩
        refine ⟨hmem', ?_⟩
        intro t' ht' hp hk
        rcases List.mem_cons.mp hp with rfl | hp
        · obtain rfl := Option.some.inj (ht.symm.trans ht')
          exact hne ⟨rfl, hk.symm⟩
        · exact hrest t' ht' hp hk
      · intro ⟨hmem', hall⟩
        refine ⟨⟨?_, hmem'⟩, ?_⟩
        · intro ⟨hp, hk⟩
          subst hp
          exact hall t ht List.mem_cons_self hk.symm
        · intro t' ht' hp
          exact hall t' ht' (List.mem_cons_of_mem _ hp)

/-- The sentry lies behind every entry that is due, since no timer has its address. -/
theorem Owned.lt_sentry (h : Owned q others) {w now : Timestamp} (hmem : toLex (w, p) ∈ q.timers_) :
    (toLex (w, p) : Entry) < toLex (now, UINTPTR_MAX) ↔ w ≤ now := by
  obtain ⟨_, t, ht, _⟩ := (h.timers w p).mp hmem
  have haddr := h.addr p t ht
  rw [Prod.Lex.toLex_lt_toLex]
  constructor
  · intro hlt
    rcases hlt with hlt | ⟨heq, _⟩
    · exact le_of_lt hlt
    · exact le_of_eq heq
  · intro hle
    rcases lt_or_eq_of_le hle with hlt | heq
    · exact Or.inl hlt
    · exact Or.inr ⟨heq, haddr⟩

/-- The entries that are due, in order. -/
def due (q : TimerQueue) (now : Timestamp) : List Entry := q.timers_.below (toLex (now, UINTPTR_MAX))

theorem Owned.mem_due (h : Owned q others) {w now : Timestamp} :
    toLex (w, p) ∈ q.due now ↔ p ∉ others ∧ w ≤ now ∧ ∃ t, q.heap p = some t ∧ t.expiration_ = w := by
  show toLex (w, p) ∈ q.timers_.below _ ↔ _
  rw [OrdSet.mem_below]
  constructor
  · intro ⟨hmem, hlt⟩
    obtain ⟨hp, ht⟩ := (h.timers w p).mp hmem
    exact ⟨hp, (h.lt_sentry hmem).mp hlt, ht⟩
  · intro ⟨hp, hle, ht⟩
    have hmem := (h.timers w p).mpr ⟨hp, ht⟩
    exact ⟨hmem, (h.lt_sentry hmem).mpr hle⟩

theorem mem_pointers {entries : List Entry} : p ∈ pointers entries ↔ ∃ w, toLex (w, p) ∈ entries := by
  unfold pointers
  rw [List.mem_map]
  constructor
  · intro ⟨e, he, hp⟩
    exact ⟨(ofLex e).1, by rw [← hp]; exact he⟩
  · intro ⟨w, hw⟩
    exact ⟨_, hw, rfl⟩

/-- A timer has one entry, so the batch holds each of its timers once. -/
theorem Owned.due_nodup (h : Owned q others) (now : Timestamp) : (pointers (q.due now)).Nodup := by
  apply List.Nodup.map_on _ (OrdSet.below_nodup _ _)
  intro e he e' he' hp
  obtain ⟨_, _, t, ht, hw⟩ := (h.mem_due (w := (ofLex e).1) (p := (ofLex e).2)).mp he
  obtain ⟨_, _, t', ht', hw'⟩ := (h.mem_due (w := (ofLex e').1) (p := (ofLex e').2)).mp he'
  rw [hp] at ht
  obtain rfl := Option.some.inj (ht.symm.trans ht')
  exact ofLex_inj.mp (Prod.ext (hw.symm.trans hw') hp)

theorem Owned.mem_pointers_due (h : Owned q others) {now : Timestamp} :
    p ∈ pointers (q.due now) ↔ p ∉ others ∧ ∃ t, q.heap p = some t ∧ t.expiration_ ≤ now := by
  rw [mem_pointers]
  constructor
  · intro ⟨w, hw⟩
    obtain ⟨hp, hle, t, ht, rfl⟩ := h.mem_due.mp hw
    exact ⟨hp, t, ht, hle⟩
  · intro ⟨hp, t, ht, hle⟩
    exact ⟨t.expiration_, h.mem_due.mpr ⟨hp, hle, t, ht, rfl⟩⟩

/-- From the sentry on, everything expires later. -/
theorem Owned.mem_rest (h : Owned q others) {w now : Timestamp} :
    toLex (w, p) ∈ q.timers_.notBelow (toLex (now, UINTPTR_MAX)) ↔
      toLex (w, p) ∈ q.timers_ ∧ now < w := by
  rw [OrdSet.mem_notBelow]
  apply and_congr_right
  intro hmem
  rw [← not_lt, h.lt_sentry hmem, not_le]

/-- The queue without the timers that are due is owned again if they have left both sets. -/
theorem Owned.without_due (h : Owned q others) (now : Timestamp) {activeTimers : OrdSet ActiveTimer}
    (hsize : activeTimers.size = (q.timers_.notBelow (toLex (now, UINTPTR_MAX))).size)
    (hactive : ∀ p k, toLex (p, k) ∈ activeTimers ↔ toLex (p, k) ∈ q.activeTimers_ ∧
      ∀ t, q.heap p = some t → p ∈ pointers (q.due now) → t.sequence_ ≠ k) :
    Owned { q with
      timers_ := q.timers_.notBelow (toLex (now, UINTPTR_MAX)), activeTimers_ := activeTimers }
      (pointers (q.due now) ++ others) := by
  constructor
  · intro w p
    show toLex (w, p) ∈ q.timers_.notBelow _ ↔ _ ∧ ∃ t, q.heap p = some t ∧ _
    rw [h.mem_rest, List.mem_append, not_or, h.mem_pointers_due, h.timers]
    constructor
    · rintro ⟨⟨hp, t, ht, rfl⟩, hlt⟩
      refine ⟨⟨?_, hp⟩, t, ht, rfl⟩
      rintro ⟨_, t', ht', hle⟩
      obtain rfl := Option.some.inj (ht.symm.trans ht')
      exact absurd hlt (not_lt.mpr hle)
    · rintro ⟨⟨hdue, hp⟩, t, ht, rfl⟩
      refine ⟨⟨hp, t, ht, rfl⟩, lt_of_not_ge ?_⟩
      intro hle
      exact hdue ⟨hp, t, ht, hle⟩
  · intro p k
    show toLex (p, k) ∈ activeTimers ↔ _ ∧ ∃ t, q.heap p = some t ∧ _
    rw [hactive, List.mem_append, not_or, h.active]
    constructor
    · rintro ⟨⟨hp, t, ht, hk⟩, hall⟩
      exact ⟨⟨fun hdue => hall t ht hdue hk, hp⟩, t, ht, hk⟩
    · rintro ⟨⟨hdue, hp⟩, ht⟩
      exact ⟨⟨hp, ht⟩, fun t _ hmem => absurd hmem hdue⟩
  · exact hsize.symm
  · intro p hp
    rcases List.mem_append.mp hp with hp | hp
    · obtain ⟨_, t, ht, _⟩ := h.mem_pointers_due.mp hp
      exact ⟨t, ht⟩
    · exact h.alive p hp
  · apply List.Nodup.append (h.due_nodup now) h.nodup
    intro p hp hp'
    exact (h.mem_pointers_due.mp hp).1 hp'
  · exact h.addr

/-- `getExpired` hands the timers that are due over to the batch. -/
theorem getExpired_eq (h : Owned q others) (now : Timestamp) :
    ∃ q', q.getExpired now = .ok (q.due now, q') ∧ Owned q' (pointers (q.due now) ++ others) ∧
      q' = { q with timers_ := q'.timers_, activeTimers_ := q'.activeTimers_ } := by
  let q₁ : TimerQueue := { q with timers_ := q.timers_.notBelow (toLex (now, UINTPTR_MAX)) }
  have hactive : ∀ p ∈ pointers (q.due now), ∃ t, q₁.heap p = some t ∧
      toLex (p, t.sequence_) ∈ q₁.activeTimers_ := by
    intro p hp
    obtain ⟨hnot, t, ht, _⟩ := h.mem_pointers_due.mp hp
    exact ⟨t, ht, (h.scheduled ht hnot).2⟩
  have hrest : ∀ it ∈ q₁.timers_.first, now < (ofLex it).1 := by
    intro it hit
    obtain ⟨hmem, _⟩ := OrdSet.first_eq_some.mp hit
    exact (h.mem_rest (w := (ofLex it).1) (p := (ofLex it).2)).mp hmem |>.2
  obtain ⟨activeTimers, hok, hsize, hchar⟩ := deactivate_eq (q := q₁) (h.due_nodup now) hactive
  have hsize' : activeTimers.size = q₁.timers_.size := by
    have hsplit : (q.due now).length + q₁.timers_.size = q.timers_.size := OrdSet.size_split _ _
    have hold := h.size
    have hsame : q₁.activeTimers_.size = q.activeTimers_.size := rfl
    omega
  refine ⟨{ q₁ with activeTimers_ := activeTimers }, ?_, h.without_due now hsize' hchar, rfl⟩
  unfold getExpired
  dsimp only [MuduoNet.assert]
  rw [demand_true h.size, ok_bind, demand_true hrest, ok_bind]
  show (q₁.deactivate (q.due now) >>= _) = _
  rw [hok, ok_bind, demand_true hsize']
  rfl

@[simp] theorem heap_readTimerfd (q : TimerQueue) (fired : Bool) :
    (q.readTimerfd fired).heap = q.heap := by
  cases fired <;> rfl

@[simp] theorem timers_readTimerfd (q : TimerQueue) (fired : Bool) :
    (q.readTimerfd fired).timers_ = q.timers_ := by
  cases fired <;> rfl

@[simp] theorem activeTimers_readTimerfd (q : TimerQueue) (fired : Bool) :
    (q.readTimerfd fired).activeTimers_ = q.activeTimers_ := by
  cases fired <;> rfl

/-- The beginning of `handleRead`. -/
theorem handleReadBegin_spec (h : Owned q others) (now : Timestamp) (fired : Bool) :
    ∃ q', q.handleReadBegin now fired = .ok (q.due now, q') ∧
      Owned q' (pointers (q.due now) ++ others) ∧
      q' = { q with
        timers_ := q'.timers_, activeTimers_ := q'.activeTimers_, cancelingTimers_ := .empty,
        callingExpiredTimers_ := true, timerfd := (q.readTimerfd fired).timerfd } := by
  have h' : Owned (q.readTimerfd fired) others := h.congr (by simp) (by simp) (by simp)
  have hdue : (q.readTimerfd fired).due now = q.due now := by simp [due]
  obtain ⟨q', hok, hown, hframe⟩ := getExpired_eq h' now
  rw [hdue] at hok hown
  refine ⟨{ q' with callingExpiredTimers_ := true, cancelingTimers_ := .empty }, ?_, ?_, ?_⟩
  · unfold handleReadBegin
    rw [hok]
    rfl
  · exact hown.congr rfl rfl rfl
  · rw [hframe]
    cases fired <;> rfl

/-- The queue after `addTimerInLoop`: the timerfd is set if the timer comes first. -/
def scheduled (q : TimerQueue) (p : TimerPtr) (t : Timer) (now : Timestamp) : TimerQueue :=
  if q.comesFirst t.expiration_ then (q.inserted p t).resetTimerfd t.expiration_ now
  else q.inserted p t

theorem addTimerInLoop_eq (h : Owned q (p :: others)) (hp : q.heap p = some t) (now : Timestamp) :
    q.addTimerInLoop p now = .ok (q.scheduled p t now) := by
  have hp' : (q.inserted p t).heap p = some t := hp
  unfold addTimerInLoop scheduled
  rw [insert_eq h hp, ok_bind]
  dsimp only
  split
  · rw [deref_eq hp']
    rfl
  · rfl

theorem Owned.scheduled_queue (h : Owned q (p :: others)) (hp : q.heap p = some t)
    (now : Timestamp) : Owned (q.scheduled p t now) others := by
  unfold TimerQueue.scheduled
  split
  · exact (h.inserted hp).congr rfl rfl rfl
  · exact h.inserted hp

theorem timers_scheduled (now : Timestamp) :
    (q.scheduled p t now).timers_ = (q.timers_.insert (toLex (t.expiration_, p))).2 := by
  unfold scheduled
  split <;> rfl

@[simp] theorem heap_scheduled (now : Timestamp) : (q.scheduled p t now).heap = q.heap := by
  unfold scheduled
  split <;> rfl

@[simp] theorem cancelingTimers_scheduled (now : Timestamp) :
    (q.scheduled p t now).cancelingTimers_ = q.cancelingTimers_ := by
  unfold scheduled
  split <;> rfl

@[simp] theorem numCreated_scheduled (now : Timestamp) :
    (q.scheduled p t now).numCreated = q.numCreated := by
  unfold scheduled
  split <;> rfl

@[simp] theorem deleted_scheduled (now : Timestamp) :
    (q.scheduled p t now).deleted = q.deleted := by
  unfold scheduled
  split <;> rfl

/-- Whether `reset` puts the timer `t` at `p` back. -/
def Restarts (q : TimerQueue) (p : TimerPtr) (t : Timer) : Prop :=
  t.repeat_ = true ∧ toLex (p, t.sequence_) ∉ q.cancelingTimers_

instance (q : TimerQueue) (p : TimerPtr) (t : Timer) : Decidable (q.Restarts p t) :=
  inferInstanceAs (Decidable (t.repeat_ = true ∧ toLex (p, t.sequence_) ∉ q.cancelingTimers_))

/-- What `reset` leaves of a timer of the batch. -/
def afterBatch (addTime : Timestamp → ℚ → Timestamp) (q : TimerQueue) (now : Timestamp)
    (p : TimerPtr) : Option Timer :=
  (q.heap p).bind fun t => if q.Restarts p t then some (t.restart addTime now) else none

theorem afterBatch_eq_some {addTime : Timestamp → ℚ → Timestamp} {now : Timestamp} :
    q.afterBatch addTime now p = some t' ↔
      ∃ t, q.heap p = some t ∧ q.Restarts p t ∧ t.restart addTime now = t' := by
  simp [afterBatch, Option.bind_eq_some_iff]

/-- The loop of `reset`: every timer of the batch goes back to the queue or is deleted. -/
theorem reinsert_spec (addTime : Timestamp → ℚ → Timestamp) (now : Timestamp)
    {expired : List Entry} (h : Owned q (pointers expired ++ others)) (hn : Numbered q) :
    ∃ q', q.reinsert addTime now expired = .ok q' ∧ Owned q' others ∧ Numbered q' ∧
      q' = { q with
        heap := q'.heap, timers_ := q'.timers_, activeTimers_ := q'.activeTimers_,
        deleted := q'.deleted } ∧
      ∀ p, q'.heap p = if p ∈ pointers expired then q.afterBatch addTime now p else q.heap p := by
  induction expired generalizing q with
  | nil => exact ⟨q, rfl, h, hn, rfl, fun p => by simp [pointers]⟩
  | cons e expired ih =>
    have hmem : (ofLex e).2 ∈ (ofLex e).2 :: (pointers expired ++ others) := List.mem_cons_self
    obtain ⟨hnew, _⟩ := List.nodup_cons.mp h.nodup
    have hnotin : (ofLex e).2 ∉ pointers expired := by
      intro hin
      exact hnew (List.mem_append_left _ hin)
    obtain ⟨t, ht⟩ := h.alive _ hmem
    -- one round leaves a queue `q₁` to the rest of the loop
    have hround : ∃ q₁, q.reinsert addTime now (e :: expired) = q₁.reinsert addTime now expired ∧
        Owned q₁ (pointers expired ++ others) ∧ Numbered q₁ ∧
        q₁ = { q with
          heap := q₁.heap, timers_ := q₁.timers_, activeTimers_ := q₁.activeTimers_,
          deleted := q₁.deleted } ∧
        q₁.heap (ofLex e).2 = q.afterBatch addTime now (ofLex e).2 ∧
        ∀ p, p ≠ (ofLex e).2 → q₁.heap p = q.heap p := by
      rw [reinsert, deref_eq ht, ok_bind]
      dsimp only
      unfold afterBatch
      rw [ht, Option.bind_some]
      by_cases hrestart : q.Restarts (ofLex e).2 t
      · have hset := Owned.setTimer h hmem (t.restart addTime now)
        have hself := heap_setTimer_self q (ofLex e).2 (some (t.restart addTime now))
        have hcond : t.repeat_ = true ∧
            toLex ((ofLex e).2, t.sequence_) ∉ q.cancelingTimers_ := hrestart
        rw [if_pos hcond, if_pos hrestart, insert_eq hset hself, ok_bind]
        have hn' : Numbered (q.setTimer (ofLex e).2 (some (t.restart addTime now))) :=
          hn.setTimer ht rfl
        refine ⟨_, rfl, hset.inserted hself, hn'.congr rfl rfl rfl, rfl, hself, ?_⟩
        · intro p hp
          exact heap_setTimer_ne q _ hp
      · have hcond : ¬ (t.repeat_ = true ∧
            toLex ((ofLex e).2, t.sequence_) ∉ q.cancelingTimers_) := hrestart
        rw [if_neg hcond, if_neg hrestart, delete_eq ht, ok_bind]
        refine ⟨_, rfl, Owned.freed h, hn.freed ht, rfl, heap_setTimer_self _ _ _, ?_⟩
        intro p hp
        exact heap_setTimer_ne q _ hp
    obtain ⟨q₁, hstep, hown₁, hn₁, hframe₁, hself, hother⟩ := hround
    obtain ⟨q', hok, hown', hn', hframe', hheap'⟩ := ih hown₁ hn₁
    refine ⟨q', hstep.trans hok, hown', hn', ?_, ?_⟩
    · rw [hframe', hframe₁]
    · intro p
      rw [hheap']
      show _ = if p ∈ (ofLex e).2 :: pointers expired then _ else _
      by_cases heq : p = (ofLex e).2
      · subst heq
        rw [if_neg hnotin, if_pos List.mem_cons_self, hself]
      · have hcancel : q₁.cancelingTimers_ = q.cancelingTimers_ := by rw [hframe₁]
        have hafter : q₁.afterBatch addTime now p = q.afterBatch addTime now p := by
          unfold afterBatch
          rw [hother p heq]
          congr 1
          funext t
          have hrestarts : q₁.Restarts p t ↔ q.Restarts p t := by rw [Restarts, Restarts, hcancel]
          exact if_congr hrestarts rfl rfl
        rw [hother p heq, hafter]
        simp only [List.mem_cons, heq, false_or]

/-- The queue after the timerfd is set for the next expiration, if that is valid. -/
def rearmed (q : TimerQueue) (now : Timestamp) : TimerQueue :=
  match q.timers_.first with
  | none => q
  | some it => if 0 < (ofLex it).1 then q.resetTimerfd (ofLex it).1 now else q

theorem rearmed_frame (q : TimerQueue) (now : Timestamp) :
    q.rearmed now = { q with timerfd := (q.rearmed now).timerfd } := by
  unfold rearmed
  split
  · rfl
  · split <;> rfl

/-- `q'` is the queue `q` after `reset`: the timers of the batch are put back or gone. -/
structure AfterReset (addTime : Timestamp → ℚ → Timestamp) (q : TimerQueue) (now : Timestamp)
    (expired : List Entry) (q' : TimerQueue) : Prop where
  frame : q' = { q with
    heap := q'.heap, timers_ := q'.timers_, activeTimers_ := q'.activeTimers_,
    deleted := q'.deleted, callingExpiredTimers_ := false }
  heap : ∀ p, q'.heap p = if p ∈ pointers expired then q.afterBatch addTime now p else q.heap p

section

variable {addTime : Timestamp → ℚ → Timestamp} {now : Timestamp} {expired : List Entry}
  {q' : TimerQueue}

theorem AfterReset.put_back (h : AfterReset addTime q now expired q') (hp : p ∈ pointers expired)
    (ht : q.heap p = some t) (hr : q.Restarts p t) : q'.heap p = some (t.restart addTime now) := by
  rw [h.heap, if_pos hp]
  exact afterBatch_eq_some.mpr ⟨t, ht, hr, rfl⟩

theorem AfterReset.kept (h : AfterReset addTime q now expired q') (hp : p ∉ pointers expired) :
    q'.heap p = q.heap p := by
  rw [h.heap, if_neg hp]

/-- A timer in the heap was not in the batch, or was put back. -/
theorem AfterReset.eq_some (h : AfterReset addTime q now expired q') (ht : q'.heap p = some t') :
    p ∉ pointers expired ∧ q.heap p = some t' ∨ p ∈ pointers expired ∧
      ∃ t, q.heap p = some t ∧ q.Restarts p t ∧ t.restart addTime now = t' := by
  by_cases hp : p ∈ pointers expired
  · rw [h.heap, if_pos hp] at ht
    exact Or.inr ⟨hp, afterBatch_eq_some.mp ht⟩
  · rw [h.kept hp] at ht
    exact Or.inl ⟨hp, ht⟩

/-- The number of a timer of the batch that is not put back is not in use any more. -/
theorem AfterReset.gone (h : AfterReset addTime q now expired q') (hn : Numbered q)
    (hp : p ∈ pointers expired) (ht : q.heap p = some t) (hr : ¬ q.Restarts p t) {p' : TimerPtr}
    (ht' : q'.heap p' = some t') : t'.sequence_ ≠ t.sequence_ := by
  intro hseq
  rcases h.eq_some ht' with ⟨hnot, hold⟩ | ⟨_, t₀, ht₀, hr₀, rfl⟩
  · obtain rfl := hn.inj p' p t' t hold ht hseq
    exact hnot hp
  · obtain rfl := hn.inj p' p t₀ t ht₀ ht hseq
    obtain rfl := Option.some.inj (ht.symm.trans ht₀)
    exact hr hr₀

end

/-- The end of `handleRead`. -/
theorem handleReadEnd_spec (addTime : Timestamp → ℚ → Timestamp) {expired : List Entry}
    (h : Owned q (pointers expired ++ others)) (hn : Numbered q) (now now' : Timestamp) :
    ∃ q', q.handleReadEnd addTime expired now now' = .ok (q'.rearmed now') ∧ Owned q' others ∧
      Numbered q' ∧ AfterReset addTime q now expired q' := by
  have h₀ : Owned { q with callingExpiredTimers_ := false } (pointers expired ++ others) :=
    h.congr rfl rfl rfl
  have hn₀ : Numbered { q with callingExpiredTimers_ := false } := hn.congr rfl rfl rfl
  obtain ⟨q', hok, hown, hn', hframe, hheap⟩ := reinsert_spec addTime now h₀ hn₀
  refine ⟨q', ?_, hown, hn', hframe, hheap⟩
  unfold handleReadEnd reset rearmed
  rw [hok, ok_bind]
  cases hfirst : q'.timers_.first with
  | none => rfl
  | some it =>
    obtain ⟨hmem, _⟩ := OrdSet.first_eq_some.mp hfirst
    obtain ⟨_, t, ht, hw⟩ := (hown.timers (ofLex it).1 (ofLex it).2).mp hmem
    dsimp only
    rw [deref_eq ht, ok_bind, hw]
    split <;> rfl

end

end MuduoNet.TimerQueue
