import MuduoNet.EventLoop.Steps
import MuduoNet.Lib.Trace
import Mathlib.Data.Fin.VecNotation

/-!
# Queued functors run once and in order

A functor that is pushed waits in `pendingFunctors_`, then in the vector swapped out, and is
started from there. A batch is what was pending at the swap, so it only gets shorter.
-/
namespace MuduoNet.LoopSystem

open Lib Lib.Outcome

variable {F : Type} {s t : LoopSystem F} {tid : ThreadId} {l : Label F}

/-- All functors that have been pushed, in the order in which they start. -/
def order (s : LoopSystem F) : List F := s.ran ++ s.pc.batch ++ s.loop.pendingFunctors_

theorem Moved.order (hm : s.Moved t) : t.order = s.order ∧ t.pushed = s.pushed := by
  obtain ⟨loop, pc₀, calls, pushed, ran⟩ := s
  obtain ⟨l, pc, started, hm, rfl⟩ := hm
  dsimp only at hm
  cases hm <;> simp [LoopSystem.order, Pc.batch, EventLoop.handleRead]

theorem Effect.order (he : Effect s t) (h : s.order = s.pushed) : t.order = t.pushed := by
  cases he with
  | moved _ hm => rw [hm.order.1, hm.order.2, h]
  | ranAtOnce => exact h
  | pushed _ cb =>
    change s.ran ++ s.pc.batch ++ (s.loop.pendingFunctors_ ++ [cb]) = s.pushed ++ [cb]
    rw [← List.append_assoc, ← h]
    rfl
  | quitted _ => exact h
  | @returned tid _ =>
    obtain ⟨n, _, heq⟩ := s.callReturns_frame tid
    rw [heq]
    exact h

/-- Only a swap changes what has run together with what is left of the batch. -/
theorem batch_step (hl : l ≠ .swap) (he : machine.enabled s l) (hs : machine.step s l = .ok t) :
    t.ran ++ t.pc.batch = s.ran ++ s.pc.batch := by
  cases hc : l.caller with
  | some tid => rw [(pc_of_caller hc hs).1, (pc_of_caller hc hs).2]
  | none =>
    obtain ⟨_, l', pc, started, hm, rfl⟩ := step_moved hc he hs
    have hpc : s.pc ≠ .swapping := by
      intro hpc
      cases l <;> simp_all [machine, Enabled, At, Label.caller]
    obtain ⟨loop, pc₀, calls, pushed, ran⟩ := s
    dsimp only at hm
    cases hm <;> simp_all [Pc.batch]

/-- The step is one of the thread of the loop. -/
def Label.OfThread (tid : ThreadId) (l : Label F) : Prop := l.caller = none ∨ l.caller = some tid

/-- The loop thread is at `pc`, and in a call only if user code runs there. -/
structure Parked (tid : ThreadId) (pc : Pc F) (s : LoopSystem F) : Prop where
  at_pc : s.pc = pc
  thread : s.loop.threadId_ = tid
  idle : s.calls s.loop.threadId_ ≠ .none → s.pc.RunsUserCode

theorem Parked.next {pc pc' : Pc F} (h : Parked tid pc s) (he : machine.enabled s l)
    (hs : machine.step s l = .ok t) (hpc : t.pc = pc') : Parked tid pc' t := by
  have heff := step_effect he hs
  exact ⟨hpc, heff.threadId.trans h.thread, heff.idle h.idle⟩

/-- The steps of other threads leave it there. -/
theorem Parked.other {pc : Pc F} (h : Parked tid pc s) (he : machine.enabled s l)
    (hs : machine.step s l = .ok t) (hl : ¬ l.OfThread tid) : Parked tid pc t := by
  cases hc : l.caller with
  | none => exact absurd (Or.inl hc) hl
  | some tid' => exact h.next he hs ((pc_of_caller hc hs).1.trans h.at_pc)

/-- Outside of user code the next step of the thread is no call. -/
theorem Parked.not_call {pc : Pc F} (h : Parked tid pc s) (hpc : ¬ pc.RunsUserCode)
    (he : machine.enabled s l) (hl : l.OfThread tid) : l.caller = none := by
  obtain ⟨rfl, rfl, hidle⟩ := h
  rcases hl with hl | hl
  · exact hl
  · cases l with
    | runInLoop _ _ | queueInLoop _ _ | quit _ =>
      obtain rfl := Option.some.inj hl
      exact absurd (he.2.2 rfl) hpc
    | callReturns _ =>
      obtain rfl := Option.some.inj hl
      exact absurd (hidle he) hpc
    | _ => rfl

/-- In the vector swapped out the next step of the thread starts a functor, or ends the call. -/
theorem Parked.running {fs : List F} (h : Parked tid (.running fs) s) (he : machine.enabled s l)
    (hs : machine.step s l = .ok t) (hl : l.OfThread tid) :
    match fs with
    | [] => l = .endPendingFunctors
    | _ :: rest => Parked tid (.functor rest) t := by
  have hc := h.not_call id he hl
  have hpc := h.at_pc
  cases fs with
  | nil => cases l <;> simp_all [machine, Enabled, At, Label.caller]
  | cons cb rest =>
    obtain ⟨_, l', pc, started, hm, rfl⟩ := step_moved hc he hs
    apply h.next he hs
    rw [hpc] at hm
    cases hm
    rfl

theorem Parked.swapping (h : Parked tid .swapping s) (he : machine.enabled s l)
    (hs : machine.step s l = .ok t) (hl : l.OfThread tid) : ∃ fs, Parked tid (.running fs) t := by
  obtain ⟨_, l', pc, started, hm, rfl⟩ := step_moved (h.not_call id he hl) he hs
  refine ⟨s.loop.pendingFunctors_, h.next he hs ?_⟩
  rw [h.at_pc] at hm
  cases hm
  rfl

/-- A body is left when it returns, and not before. -/
theorem Parked.functor {fs : List F} (h : Parked tid (.functor fs) s) (he : machine.enabled s l)
    (hs : machine.step s l = .ok t) :
    (l = .functorReturns → Parked tid (.running fs) t) ∧
      (l ≠ .functorReturns → Parked tid (.functor fs) t) := by
  have hpc := h.at_pc
  cases hc : l.caller with
  | some tid' =>
    constructor
    · rintro rfl
      cases hc
    · intro _
      exact h.next he hs ((pc_of_caller hc hs).1.trans hpc)
  | none =>
    have hl : l = .functorReturns := by
      cases l <;> simp_all [machine, Enabled, At, Label.caller]
    obtain ⟨_, l', pc, started, hm, rfl⟩ := step_moved hc he hs
    rw [hpc] at hm
    cases hm
    exact ⟨fun _ => h.next he hs rfl, fun hne => absurd hl hne⟩

/-- The loop thread always has a step to take there. -/
theorem Parked.can_step {pc : Pc F} (h : Parked tid pc s) (hpc : pc.InPendingFunctors) :
    ∃ l t, Label.OfThread tid l ∧ machine.enabled s l ∧ machine.step s l = .ok t := by
  obtain ⟨rfl, rfl, _⟩ := h
  by_cases hcall : s.calls s.loop.threadId_ = .none
  · cases hs : s.pc with
    | swapping => exact ⟨.swap, _, Or.inl rfl, ⟨hs, hcall⟩, rfl⟩
    | functor fs => exact ⟨.functorReturns, _, Or.inl rfl, ⟨fs, hs, hcall⟩, rfl⟩
    | running fs =>
      cases fs with
      | nil => exact ⟨.endPendingFunctors, _, Or.inl rfl, ⟨hs, hcall⟩, rfl⟩
      | cons cb rest => exact ⟨.runFunctor, _, Or.inl rfl, ⟨cb, rest, hs, hcall⟩, rfl⟩
    | _ =>
      rw [hs] at hpc
      exact False.elim hpc
  · exact ⟨.callReturns s.loop.threadId_, _, Or.inr rfl, hcall, rfl⟩

section

variable {τ : Trace (machine (F := F))} {k n : ℕ}

/-- The body of a functor is in progress. -/
def InFunctor (s : LoopSystem F) : Prop := ∃ fs, s.pc = .functor fs

/-- Every body that is in progress from the time `k` on returns. -/
def BodiesReturn (τ : Trace (machine (F := F))) (k : ℕ) : Prop :=
  ∀ n, k ≤ n → (τ.state n).InFunctor → ∃ m, n ≤ m ∧ τ.label m = .functorReturns

theorem leads_running {fs : List F} (hbody : BodiesReturn τ k) (hk : k ≤ n)
    (h : Parked tid (.functor fs) (τ.state n)) :
    ∃ m, n ≤ m ∧ Parked tid (.running fs) (τ.state m) := by
  obtain ⟨m, hle, hl, hm⟩ := τ.first (fun _ _ _ hp he hs hl => (hp.functor he hs).2 hl) h
    (hbody n hk ⟨fs, h.at_pc⟩)
  exact ⟨m + 1, by omega, (hm.functor (τ.enabled m) (τ.step m)).1 hl⟩

/-- By induction on what is left of the batch. -/
theorem running_ends {fs : List F} (hthread : τ.Recurs (Label.OfThread tid))
    (hbody : BodiesReturn τ k) (hk : k ≤ n) (h : Parked tid (.running fs) (τ.state n)) :
    ∃ m, n ≤ m ∧ τ.label m = .endPendingFunctors := by
  induction fs generalizing n with
  | nil =>
    obtain ⟨m, hle, hl, hm⟩ := τ.first (fun _ _ _ hp he hs hl => hp.other he hs hl) h (hthread n)
    exact ⟨m, hle, hm.running (τ.enabled m) (τ.step m) hl⟩
  | cons cb rest ih =>
    obtain ⟨m, hle, hl, hm⟩ := τ.first (fun _ _ _ hp he hs hl => hp.other he hs hl) h (hthread n)
    have hfunctor : Parked tid (.functor rest) (τ.state (m + 1)) :=
      hm.running (τ.enabled m) (τ.step m) hl
    obtain ⟨m₁, hle₁, hm₁⟩ := leads_running hbody (by omega) hfunctor
    obtain ⟨m₂, hle₂, hend⟩ := ih (by omega) hm₁
    exact ⟨m₂, by omega, hend⟩

theorem pendingFunctors_end (hthread : τ.Recurs (Label.OfThread tid)) (hbody : BodiesReturn τ n)
    (h : Parked tid (τ.state n).pc (τ.state n)) (hpc : (τ.state n).pc.InPendingFunctors) :
    ∃ m, n ≤ m ∧ τ.label m = .endPendingFunctors := by
  cases hs : (τ.state n).pc with
  | running fs => exact running_ends hthread hbody (Nat.le_refl n) (hs ▸ h)
  | functor fs =>
    obtain ⟨m, hle, hm⟩ := leads_running hbody (Nat.le_refl n) (hs ▸ h)
    obtain ⟨m₁, hle₁, hend⟩ := running_ends hthread hbody hle hm
    exact ⟨m₁, by omega, hend⟩
  | swapping =>
    obtain ⟨m, hle, hl, hm⟩ := τ.first (fun _ _ _ hp he hs hl => hp.other he hs hl) (hs ▸ h) (hthread n)
    obtain ⟨fs, hrun⟩ := hm.swapping (τ.enabled m) (τ.step m) hl
    obtain ⟨m₁, hle₁, hend⟩ := running_ends hthread hbody (by omega) hrun
    exact ⟨m₁, by omega, hend⟩
  | _ =>
    rw [hs] at hpc
    exact False.elim hpc

end

theorem parked_start (tid : ThreadId) : Parked tid .built (start tid : LoopSystem F) :=
  ⟨rfl, rfl, fun h => absurd rfl h⟩

theorem parked_step (h : Parked tid s.pc s) (he : machine.enabled s l)
    (hs : machine.step s l = .ok t) : Parked tid t.pc t :=
  h.next he hs rfl

/-- Until the next swap only the functors pending at the last one run. -/
theorem batch_run {ls : List (Label F)} (hr : Run machine s ls t) (hl : .swap ∉ ls) :
    t.ran ++ t.pc.batch = s.ran ++ s.pc.batch := by
  induction hr with
  | nil => rfl
  | cons he hs _ ih =>
    rw [List.mem_cons, not_or] at hl
    rw [ih hl.2, batch_step (Ne.symm hl.1) he hs]

/-- What has run, the rest of the batch and what is pending are the functors pushed, in the order
of the pushes. What is pushed behind a swap does not run before the next one, and one call of
`doPendingFunctors` ends if the bodies of its batch return. -/
theorem functors_in_order (h : Reachable machine (start tid) s) :
    s.ran ++ s.pc.batch ++ s.loop.pendingFunctors_ = s.pushed ∧
    (∀ ls t, s.pc = .swapping → .swap ∉ ls → Run machine s (.swap :: ls) t →
      t.ran ++ t.pc.batch = s.ran ++ s.loop.pendingFunctors_) ∧
    (s.pc.InPendingFunctors →
      (∃ l t, Label.OfThread tid l ∧ machine.enabled s l ∧ machine.step s l = .ok t) ∧
      ∀ τ : Trace machine, τ.state 0 = s → τ.Recurs (Label.OfThread tid) →
        (∀ n, (∀ m, m < n → τ.label m ≠ .endPendingFunctors) → (τ.state n).InFunctor →
          ∃ m, n ≤ m ∧ τ.label m = .functorReturns) →
        ∃ n, τ.label n = .endPendingFunctors) := by
  have hinv : s.order = s.pushed ∧ Parked tid s.pc s :=
    h.invariant (I := fun s => s.order = s.pushed ∧ Parked tid s.pc s)
      (fun _ _ _ hi he hs => ⟨(step_effect he hs).order hi.1, parked_step hi.2 he hs⟩)
      ⟨rfl, parked_start tid⟩
  obtain ⟨horder, hparked⟩ := hinv
  refine ⟨horder, ?_, ?_⟩
  · intro ls t _ hl hr
    cases hr with
    | cons he hs hr =>
      obtain rfl := Except.ok.inj hs
      exact batch_run hr hl
  · intro hpc
    refine ⟨hparked.can_step hpc, ?_⟩
    rintro τ rfl hthread hbody
    by_contra hno
    rw [not_exists] at hno
    have hreturn : BodiesReturn τ 0 := fun n _ hn => hbody n (fun m _ => hno m) hn
    obtain ⟨n, _, hend⟩ := pendingFunctors_end hthread hreturn hparked hpc
    exact hno n hend

section

variable {calls : ThreadId → Call} (h : calls 1 = .none) (done : List ℕ)

/-- The thread 1 goes around its loop with nothing to do. -/
def idle : Trace (machine (F := ℕ)) :=
  .cycle (by decide) ![⟨⟨true, false, false, 1, [], 0⟩, .testing, calls, done, done⟩,
      ⟨⟨true, false, false, 1, [], 0⟩, .polling, calls, done, done⟩,
      ⟨⟨true, false, false, 1, [], 0⟩, .handling [], calls, done, done⟩,
      ⟨⟨true, false, true, 1, [], 0⟩, .swapping, calls, done, done⟩,
      ⟨⟨true, false, true, 1, [], 0⟩, .running [], calls, done, done⟩]
    ![.test, .pollReturns [], .beginPendingFunctors, .swap, .endPendingFunctors]
    (fun i => match i with
      | 0 | 2 | 3 | 4 => ⟨rfl, h⟩
      | 1 => ⟨⟨rfl, h⟩, rfl⟩)
    (fun i => match i with
      | 0 | 1 | 2 | 3 | 4 => rfl)

/-- It starts the last functor of a batch and ends the batch. -/
def lastFunctor (cb : ℕ) : Trace (machine (F := ℕ)) :=
  .cons (s := ⟨⟨true, false, true, 1, [], 0⟩, .running [cb], calls, done ++ [cb], done⟩)
    (l := .runFunctor)
    (.cons (s := ⟨⟨true, false, true, 1, [], 0⟩, .functor [], calls, done ++ [cb], done ++ [cb]⟩)
      (l := .functorReturns)
      (.cons (s := ⟨⟨true, false, true, 1, [], 0⟩, .running [], calls, done ++ [cb], done ++ [cb]⟩)
        (l := .endPendingFunctors) (idle h (done ++ [cb])) ⟨rfl, h⟩ rfl)
      ⟨[], rfl, h⟩ rfl)
    ⟨cb, [], rfl, h⟩ rfl

/-- No other thread takes part. -/
theorem lastFunctor_ofThread (cb n : ℕ) : ((lastFunctor h done cb).label n).OfThread 1 := by
  have hidle : ∀ i : Fin 5, Label.caller (F := ℕ)
      (![.test, .pollReturns [], .beginPendingFunctors, .swap, .endPendingFunctors] i) = none := by
    decide
  match n with
  | 0 | 1 | 2 => exact Or.inl rfl
  | n + 3 => exact Or.inl (hidle (Fin.ofNat 5 n))

end

/-- The second functor is pushed by the first one, and runs in the batch after it. -/
theorem functors_in_order_run :
    let ls : List (Label ℕ) := [.publish, .queueInLoop 2 5, .callReturns 2, .loop, .resetQuit, .test,
      .pollReturns [.wakeupChannel_], .handleEvent, .beginPendingFunctors, .swap, .runFunctor,
      .queueInLoop 1 6, .callReturns 1, .functorReturns, .endPendingFunctors, .test,
      .pollReturns [.wakeupChannel_], .handleEvent, .beginPendingFunctors, .swap]
    ∃ s, Run machine (start 1) ls s ∧
      s.ran ++ s.pc.batch ++ s.loop.pendingFunctors_ = s.pushed ∧ s.pushed = [5, 6] ∧
      ∃ τ : Trace machine, τ.state 0 = s ∧ τ.Recurs (Label.OfThread 1) ∧
        ∃ n, τ.label n = .endPendingFunctors := by
  intro ls
  have hex : ∃ s, Run machine (start 1) ls s ∧ s.loop = ⟨true, false, true, 1, [], 0⟩ ∧
      s.pc = .running [6] ∧ s.calls 1 = .none ∧ s.pushed = [5, 6] ∧ s.ran = [5] :=
    exists_run_of_exec _ (by decide +kernel)
  obtain ⟨⟨loop, pc, calls, pushed, ran⟩, hr, rfl, rfl, hidle, rfl, rfl⟩ := hex
  obtain ⟨horder, _, hends⟩ := functors_in_order ⟨ls, hr⟩
  have hrecurs : (lastFunctor hidle [5] 6).Recurs (Label.OfThread 1) :=
    fun n => ⟨n, Nat.le_refl n, lastFunctor_ofThread hidle [5] 6 n⟩
  refine ⟨_, hr, horder, rfl, lastFunctor hidle [5] 6, rfl, hrecurs, ?_⟩
  apply (hends trivial).2 _ rfl hrecurs
  intro n hn hin
  match n with
  | 0 | 1 => exact ⟨1, by omega, rfl⟩
  | 2 =>
    obtain ⟨fs, hfs⟩ := hin
    cases hfs
  | n + 3 => exact absurd rfl (hn 2 (by omega))

end MuduoNet.LoopSystem
