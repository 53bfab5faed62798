import MuduoNet.EventLoop.Steps

/-!
# Quitting a loop

`loop()` itself sets `quit_` to false. A `quit()` whose store comes before that one is undone,
although its thread already had the loop from `startLoop()`.
-/
namespace MuduoNet

open Lib Lib.Outcome

/-- `loop()` has not yet set `quit_` to false. -/
def Pc.Starting {F : Type} : Pc F → Prop
  | .built | .outside | .entered => True
  | _ => False

namespace LoopSystem

variable {F : Type} {s t : LoopSystem F} {tid tid' : ThreadId} {l : Label F}

/-- The loop of an `EventLoopThread`: `threadFunc` calls `loop()` once. -/
def threadFunc : Machine (LoopSystem F) (Label F) Fault :=
  machine.restrict fun s l => l = .loop → s.pc = .outside

/-- The next test ends the loop, and the loop thread is not blocked in `poll` without a reason
to return or to stop. -/
structure Quits (s : LoopSystem F) : Prop where
  ends : ∀ t, threadFunc.enabled s .test → threadFunc.step s .test = .ok t → t.pc = .returned
  wakes : ¬ (s.pc = .polling ∧ s.loop.quit_ = false ∧ s.loop.wakeupFd_ = 0)

/-- The call of `quit` by `tid` is not lost: once it has returned, `Quits` holds for good. -/
def QuitHolds (s : LoopSystem F) (tid : ThreadId) : Prop :=
  ∀ u v, Reachable threadFunc s u → u.calls tid = .none → Reachable threadFunc u v → v.Quits

/-- `quit_` is set, behind the store in `loop()`. -/
structure Stopping (s : LoopSystem F) : Prop where
  quit : s.loop.quit_ = true
  begun : ¬ s.pc.Starting

theorem Stopping.quits (h : s.Stopping) : s.Quits := by
  constructor
  · intro t _ hs
    obtain rfl := Except.ok.inj hs
    simp [h.quit]
  · simp [h.quit]

/-- Behind `loop()` the thread function has nothing to call. -/
theorem returned_step (he : threadFunc.enabled s l) (hs : threadFunc.step s l = .ok t)
    (hpc : s.pc = .returned) : t.pc = .returned := by
  obtain ⟨he, honce⟩ := he
  cases hc : l.caller with
  | some tid => exact (pc_of_caller hc hs).1.trans hpc
  | none => cases l <;> simp_all [machine, Enabled, At, Label.caller]

theorem stopping_step (h : s.Stopping) (he : threadFunc.enabled s l)
    (hs : threadFunc.step s l = .ok t) : t.Stopping := by
  have hreturned := returned_step he hs
  obtain ⟨hquit, hbegun⟩ := h
  cases step_effect he.1 hs with
  | moved _ hm =>
    obtain ⟨loop, pc₀, calls, pushed, ran⟩ := s
    obtain ⟨l', pc, started, hm, rfl⟩ := hm
    dsimp only at hm hbegun hreturned
    cases hm with
    | publish | loop | resetQuit => exact absurd trivial hbegun
    | again => cases hreturned rfl
    | poll hq => exact absurd (hq.symm.trans hquit) Bool.false_ne_true
    | _ => exact ⟨hquit, id⟩
  | ranAtOnce => exact ⟨hquit, hbegun⟩
  | pushed _ cb => exact ⟨hquit, hbegun⟩
  | quitted _ => exact ⟨rfl, hbegun⟩
  | @returned tid _ =>
    obtain ⟨n, _, heq⟩ := s.callReturns_frame tid
    rw [heq]
    exact ⟨hquit, hbegun⟩

/-- Until `loop()` is called `looping_` is false, and the thread is in no call. -/
structure StartInv (s : LoopSystem F) : Prop where
  looping : s.pc = .built ∨ s.pc = .outside → s.loop.looping_ = false
  idle : s.calls s.loop.threadId_ ≠ .none → s.pc.RunsUserCode

theorem startInv_step (h : s.StartInv) (he : threadFunc.enabled s l)
    (hs : threadFunc.step s l = .ok t) : t.StartInv := by
  have heff := step_effect he.1 hs
  refine ⟨?_, heff.idle h.idle⟩
  cases heff with
  | moved _ hm =>
    have hlooping := h.looping
    obtain ⟨loop, pc₀, calls, pushed, ran⟩ := s
    obtain ⟨l', pc, started, hm, rfl⟩ := hm
    dsimp only at hm hlooping
    cases hm <;> simp_all
  | ranAtOnce => exact h.looping
  | pushed _ cb => exact h.looping
  | quitted _ => exact h.looping
  | @returned tid _ =>
    obtain ⟨n, _, heq⟩ := s.callReturns_frame tid
    rw [heq]
    exact h.looping

/-- The store in `loop()` undoes a `quit` before it. -/
theorem entered_not_quits (hpc : s.pc = .entered) (hidle : s.calls s.loop.threadId_ = .none) :
    ∃ t, Reachable threadFunc s t ∧ ¬ t.Quits := by
  have hreset : threadFunc.enabled s .resetQuit := ⟨⟨hpc, hidle⟩, fun h => nomatch h⟩
  refine ⟨_, Reachable.refl.next hreset rfl, ?_⟩
  intro hq
  cases hq.ends _ ⟨⟨rfl, hidle⟩, fun h => nomatch h⟩ rfl

theorem starting_not_quits (h : s.StartInv) (hpc : s.pc.Starting) (hbuilt : s.pc ≠ .built) :
    ∃ t, Reachable threadFunc s t ∧ ¬ t.Quits := by
  have hidle : s.calls s.loop.threadId_ = .none := by
    by_contra hcall
    have huser := h.idle hcall
    cases hs : s.pc <;> simp_all [Pc.Starting, Pc.RunsUserCode]
  cases hs : s.pc with
  | outside =>
    have hloop : threadFunc.enabled s .loop := ⟨Or.inl ⟨hs, hidle⟩, fun _ => hs⟩
    have hstep : threadFunc.step s .loop =
        .ok { s with loop := { s.loop with looping_ := true }, pc := .entered } := by
      change (assert _ >>= _) = _
      rw [h.looping (Or.inr hs)]
      rfl
    obtain ⟨t, ht, hnot⟩ := entered_not_quits (s := { s with
      loop := { s.loop with looping_ := true }, pc := .entered }) rfl hidle
    obtain ⟨ls, hr⟩ := ht
    exact ⟨t, ⟨_, .cons hloop hstep hr⟩, hnot⟩
  | entered => exact entered_not_quits hs hidle
  | built => exact absurd hs hbuilt
  | _ =>
    rw [hs] at hpc
    exact False.elim hpc

theorem startInv (h : Reachable threadFunc (start tid) s) : s.StartInv := by
  apply h.invariant (fun _ _ _ hi he hs => startInv_step hi he hs)
  exact ⟨fun _ => rfl, fun hcall => absurd rfl hcall⟩

/-- A call of `quit` holds exactly if its store comes behind the one in `loop()`. -/
theorem quit_holds_iff (h : Reachable threadFunc (start tid) s)
    (he : threadFunc.enabled s (.quit tid')) (hs : threadFunc.step s (.quit tid') = .ok t) :
    t.QuitHolds tid' ↔ ¬ s.pc.Starting := by
  have hquit := h.next he hs
  obtain rfl := Except.ok.inj hs
  constructor
  · intro hholds hpc
    have hret : threadFunc.enabled (s.quit tid') (.callReturns tid') := by
      refine ⟨?_, fun h => nomatch h⟩
      change (s.quit tid').calls tid' ≠ .none
      simp [quit]
    have hu : Reachable threadFunc (s.quit tid') _ := Reachable.refl.next hret rfl
    obtain ⟨n, _, heq⟩ := (s.quit tid').callReturns_frame tid'
    rw [heq] at hu
    have hinv := startInv (hquit.next hret (congrArg Except.ok heq))
    obtain ⟨v, hv, hnot⟩ := starting_not_quits hinv hpc he.1.2.1
    exact hnot (hholds _ v hu (setCall_self _ _ _) hv)
  · intro hpc u v hu _ hv
    have hstop : (s.quit tid').Stopping := ⟨rfl, hpc⟩
    have hkeep : ∀ s l t, Stopping (F := F) s → threadFunc.enabled s l →
        threadFunc.step s l = .ok t → t.Stopping := fun _ _ _ hi he hs => stopping_step hi he hs
    exact (hv.invariant hkeep (hu.invariant hkeep hstop)).quits

instance [DecidableEq F] (s : LoopSystem F) (l : Label F) : Decidable (threadFunc.enabled s l) :=
  inferInstanceAs (Decidable (machine.enabled s l ∧ (l = .loop → s.pc = .outside)))

/-- Thread 2 quits while the loop thread runs a functor, and the loop ends. -/
theorem quit_holds_run : ∃ s t : LoopSystem ℕ,
    Reachable threadFunc (start 1) s ∧ threadFunc.step s (.quit 2) = .ok t ∧ t.QuitHolds 2 := by
  have hex : ∃ s, Run threadFunc (start 1) [.publish, .queueInLoop 2 5, .callReturns 2, .loop,
      .resetQuit, .test, .pollReturns [.wakeupChannel_], .handleEvent, .beginPendingFunctors, .swap,
      .runFunctor] s ∧ s.pc = .functor [] ∧ s.calls 2 = .none ∧ s.loop.threadId_ = 1 :=
    exists_run_of_exec _ (by decide +kernel)
  obtain ⟨s, hr, hpc, hcall, hid⟩ := hex
  have he : threadFunc.enabled s (.quit 2) := by
    refine ⟨⟨hcall, ?_, ?_⟩, fun h => nomatch h⟩
    · simp [hpc]
    · simp [hid]
  refine ⟨s, _, ⟨_, hr⟩, rfl, ?_⟩
  rw [quit_holds_iff ⟨_, hr⟩ he rfl, hpc]
  exact id

/-- Thread 2 quits right after `startLoop()` has given it the loop. Its call returns, the loop
thread goes through an iteration, and then blocks. -/
theorem quit_lost : ∃ s t u v : LoopSystem ℕ,
    Run threadFunc (start 1) [.publish] s ∧ Run threadFunc s [.quit 2] t ∧
    Run threadFunc t [.callReturns 2] u ∧ u.calls 2 = .none ∧
    Run threadFunc u [.loop, .resetQuit, .test, .pollReturns [.wakeupChannel_], .handleEvent,
      .beginPendingFunctors, .swap, .endPendingFunctors, .test] v ∧
    v.pc = .polling ∧ v.loop.quit_ = false ∧ v.loop.wakeupFd_ = 0 ∧ ¬ t.QuitHolds 2 := by
  have hex : ∃ v, Run (threadFunc (F := ℕ)) (start 1) ([.publish] ++ ([.quit 2] ++ ([.callReturns 2] ++
      [.loop, .resetQuit, .test, .pollReturns [.wakeupChannel_], .handleEvent,
        .beginPendingFunctors, .swap, .endPendingFunctors, .test]))) v ∧
      v.pc = .polling ∧ v.loop.quit_ = false ∧ v.loop.wakeupFd_ = 0 :=
    exists_run_of_exec _ (by decide +kernel)
  obtain ⟨v, hr, hv⟩ := hex
  obtain ⟨s, hs, hr⟩ := hr.split
  obtain ⟨t, ht, hr⟩ := hr.split
  obtain ⟨u, hu, hr⟩ := hr.split
  have hcall : u.calls 2 = .none := by
    cases hu with
    | cons _ hret hnil =>
      cases hnil
      obtain rfl := Except.ok.inj hret
      obtain ⟨n, _, heq⟩ := t.callReturns_frame 2
      rw [heq, setCall_self]
  exact ⟨s, t, u, v, hs, ht, hu, hcall, hr, hv.1, hv.2.1, hv.2.2,
    fun hholds => (hholds u v ⟨_, hu⟩ hcall ⟨_, hr⟩).wakes hv⟩

end LoopSystem

end MuduoNet
