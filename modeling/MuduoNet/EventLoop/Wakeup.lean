import MuduoNet.EventLoop.Steps

/-!
# No wakeup is lost

The eventfd is drained by a handler, and the vector is swapped out after the handlers. A
functor pushed later than the swap waits for the next `poll`, and by then its `wakeup` has
been written, or is still to come from another thread.
-/
namespace MuduoNet

open Lib Lib.Outcome

/-- From the swap to the return of `poll` the loop thread does not read the eventfd. -/
def Pc.AwaitsWakeup {F : Type} : Pc F → Prop
  | .handling _ | .handler _ | .swapping => False
  | _ => True

/-- User code that runs then is the body of a functor. -/
theorem Pc.AwaitsWakeup.inPendingFunctors {F : Type} {pc : Pc F} (h : pc.AwaitsWakeup)
    (huser : pc.RunsUserCode) : pc.InPendingFunctors := by
  cases pc with
  | functor _ => trivial
  | handler _ => exact False.elim h
  | _ => exact False.elim huser

namespace LoopSystem

variable {F : Type} {s t : LoopSystem F} {tid : ThreadId}

/-- A functor is waiting only if the eventfd is readable, or about to become so. -/
def Woken (s : LoopSystem F) : Prop :=
  s.loop.pendingFunctors_ = [] ∨ 0 < s.loop.wakeupFd_ ∨ ∃ tid, s.calls tid = .queueInLoop

structure WakeInv (s : LoopSystem F) : Prop where
  calling : s.loop.callingPendingFunctors_ = true ↔ s.pc.InPendingFunctors
  idle : s.calls s.loop.threadId_ ≠ .none → s.pc.RunsUserCode
  woken : s.pc.AwaitsWakeup → s.Woken

theorem wakeInv_start (tid : ThreadId) : WakeInv (start tid : LoopSystem F) := by
  constructor
  · exact iff_of_false Bool.false_ne_true id
  · intro h
    exact absurd rfl h
  · intro _
    exact Or.inl rfl

/-- `wakeup` is left out only by the loop thread in a handler, where the swap is still to come. -/
theorem WakeInv.written (h : WakeInv s) (hpc : s.pc.AwaitsWakeup)
    (hcall : s.calls tid ≠ .none) : 0 < (s.loop.wakeupAfterPush tid).wakeupFd_ := by
  have hneeded : ¬ s.loop.isInLoopThread tid = true ∨ s.loop.callingPendingFunctors_ = true := by
    by_cases htid : s.loop.threadId_ = tid
    · right
      rw [h.calling]
      exact hpc.inPendingFunctors (h.idle (htid ▸ hcall))
    · left
      simpa [EventLoop.isInLoopThread] using htid
  rw [EventLoop.wakeupAfterPush, if_pos hneeded]
  exact EventLoop.wakeup_pos _

theorem WakeInv.moved (h : WakeInv s) (hm : s.Moved t) :
    (t.loop.callingPendingFunctors_ = true ↔ t.pc.InPendingFunctors) ∧
      (t.pc.AwaitsWakeup → t.Woken) := by
  obtain ⟨hcalling, _, hwoken⟩ := h
  obtain ⟨loop, pc₀, calls, pushed, ran⟩ := s
  obtain ⟨l, pc, started, hm, rfl⟩ := hm
  dsimp only at hm
  cases hm with
  | beginPendingFunctors => exact ⟨iff_of_true rfl trivial, False.elim⟩
  | swap => exact ⟨hcalling, fun _ => Or.inl rfl⟩
  | endPendingFunctors => exact ⟨iff_of_false Bool.false_ne_true id, hwoken⟩
  | pollReturns _ | handleRead _ | handle _ | handlerReturns _ => exact ⟨hcalling, False.elim⟩
  | _ => exact ⟨hcalling, hwoken⟩

theorem WakeInv.returned (h : WakeInv s) (hcall : s.calls tid ≠ .none) (hpc : s.pc.AwaitsWakeup) :
    (s.callReturns tid).Woken := by
  obtain ⟨n, hle, heq⟩ := s.callReturns_frame tid
  rcases h.woken hpc with hnil | hpos | ⟨tid', htid'⟩
  · rw [heq]
    exact Or.inl hnil
  · rw [heq]
    exact Or.inr (Or.inl (Nat.lt_of_lt_of_le hpos hle))
  · by_cases htid : tid' = tid
    · subst htid
      unfold callReturns
      rw [htid']
      exact Or.inr (Or.inl (h.written hpc hcall))
    · rw [heq]
      exact Or.inr (Or.inr ⟨tid', (setCall_ne _ _ htid).trans htid'⟩)

theorem wakeInv_effect (h : WakeInv s) (he : Effect s t) : WakeInv t := by
  have hidle := he.idle h.idle
  cases he with
  | moved _ hm => exact ⟨(h.moved hm).1, hidle, (h.moved hm).2⟩
  | ranAtOnce => exact h
  | pushed hc cb =>
    refine ⟨h.calling, hidle, ?_⟩
    intro _
    exact Or.inr (Or.inr ⟨_, setCall_self _ _ _⟩)
  | @quitted tid hc =>
    refine ⟨h.calling, hidle, ?_⟩
    intro hpc
    rcases h.woken hpc with hnil | hpos | ⟨tid', htid'⟩
    · exact Or.inl hnil
    · exact Or.inr (Or.inl hpos)
    · have hne : tid' ≠ tid := by
        rintro rfl
        simp [hc.1] at htid'
      exact Or.inr (Or.inr ⟨tid', (setCall_ne _ _ hne).trans htid'⟩)
  | @returned tid hc =>
    obtain ⟨n, _, heq⟩ := s.callReturns_frame tid
    constructor
    · rw [heq]
      exact h.calling
    · exact hidle
    · intro hpc
      apply h.returned hc
      rw [heq] at hpc
      exact hpc

/-- Whenever the loop thread is about to block in `poll` or blocked there with a functor waiting,
`poll` returns at once, or another thread has pushed and its `wakeup` is still to come. -/
theorem no_lost_wakeup (h : Reachable machine (start tid) s) (hpc : s.pc = .polling) :
    s.loop.pendingFunctors_ = [] ∨
      (0 < s.loop.wakeupFd_ ∧ s.Enabled (.pollReturns [.wakeupChannel_])) ∨
      ∃ tid', tid' ≠ s.loop.threadId_ ∧ s.calls tid' = .queueInLoop := by
  have hinv : WakeInv s :=
    h.invariant (fun _ _ _ hi he hs => wakeInv_effect hi (step_effect he hs)) (wakeInv_start tid)
  have hidle : s.calls s.loop.threadId_ = .none := by
    by_contra hcall
    have huser := hinv.idle hcall
    rw [hpc] at huser
    exact huser
  have hwoken : s.Woken := by
    apply hinv.woken
    rw [hpc]
    trivial
  rcases hwoken with hnil | hpos | ⟨tid', htid'⟩
  · exact Or.inl hnil
  · refine Or.inr (Or.inl ⟨hpos, ⟨hpc, hidle⟩, ?_⟩)
    simp [Reports, hpos]
  · refine Or.inr (Or.inr ⟨tid', ?_, htid'⟩)
    rintro rfl
    simp [hidle] at htid'

/-- Thread 2 pushes while the loop thread is between the swap and `poll`. -/
theorem no_lost_wakeup_run :
    let ls : List (Label Nat) := [.publish, .loop, .resetQuit, .test, .queueInLoop 2 5,
      .callReturns 2, .pollReturns [.other, .wakeupChannel_], .handleEvent, .queueInLoop 1 6,
      .callReturns 1, .handlerReturns, .handleEvent, .beginPendingFunctors, .swap, .runFunctor,
      .queueInLoop 1 7, .callReturns 1, .functorReturns, .runFunctor, .functorReturns,
      .queueInLoop 2 8, .endPendingFunctors, .test]
    ∃ s, Run machine (start 1) ls s ∧ s.loop.pendingFunctors_ = [7, 8] ∧
      ((0 < s.loop.wakeupFd_ ∧ s.Enabled (.pollReturns [.wakeupChannel_])) ∨
        ∃ tid', tid' ≠ s.loop.threadId_ ∧ s.calls tid' = .queueInLoop) := by
  intro ls
  have hex : ∃ s, Run machine (start 1) ls s ∧ s.pc = .polling ∧ s.loop.pendingFunctors_ = [7, 8] :=
    exists_run_of_exec _ (by decide +kernel)
  obtain ⟨s, hr, hpc, hpending⟩ := hex
  have hwoken := no_lost_wakeup ⟨ls, hr⟩ hpc
  rw [hpending] at hwoken
  exact ⟨s, hr, hpending, hwoken.resolve_left (by simp)⟩

end LoopSystem

end MuduoNet
