import MuduoNet.EventLoop.Basic

/-!
# What a step of the system does

Either the loop thread moves on, or some thread begins or ends a call. The invariants of the
loop look at these effects only.
-/
namespace MuduoNet

open Lib Lib.Outcome

/-- `Move l pc l' pc' started`: the loop thread, not in a call, goes from `pc` to `pc'`. -/
inductive Move {F : Type} (l : EventLoop F) : Pc F → EventLoop F → Pc F → List F → Prop
  | publish : Move l .built l .outside []
  | loop : Move l .outside { l with looping_ := true } .entered []
  | again : Move l .returned { l with looping_ := true } .entered []
  | resetQuit : Move l .entered { l with quit_ := false } .testing []
  | leave (hquit : l.quit_ = true) : Move l .testing { l with looping_ := false } .returned []
  | poll (hquit : l.quit_ = false) : Move l .testing l .polling []
  | pollReturns (active : List ActiveChannel) : Move l .polling l (.handling active) []
  | handleRead (rest : List ActiveChannel) :
      Move l (.handling (.wakeupChannel_ :: rest)) l.handleRead (.handling rest) []
  | handle (rest : List ActiveChannel) : Move l (.handling (.other :: rest)) l (.handler rest) []
  | handlerReturns (rest : List ActiveChannel) : Move l (.handler rest) l (.handling rest) []
  | beginPendingFunctors :
      Move l (.handling []) { l with callingPendingFunctors_ := true } .swapping []
  | swap : Move l .swapping { l with pendingFunctors_ := [] } (.running l.pendingFunctors_) []
  | runFunctor (cb : F) (rest : List F) : Move l (.running (cb :: rest)) l (.functor rest) [cb]
  | functorReturns (rest : List F) : Move l (.functor rest) l (.running rest) []
  | endPendingFunctors :
      Move l (.running []) { l with callingPendingFunctors_ := false } .testing []

theorem Move.threadId {F : Type} {l l' : EventLoop F} {pc pc' : Pc F} {started : List F}
    (h : Move l pc l' pc' started) : l'.threadId_ = l.threadId_ := by
  cases h <;> rfl

namespace LoopSystem

variable {F : Type} {s t : LoopSystem F} {tid : ThreadId}

/-- The thread that makes or ends a call; the other steps are those of the loop thread itself. -/
def Label.caller : Label F → Option ThreadId
  | .runInLoop tid _ | .queueInLoop tid _ | .quit tid | .callReturns tid => some tid
  | _ => none

/-- `t` is `s` after a move of the loop thread. -/
def Moved (s t : LoopSystem F) : Prop :=
  ∃ l pc started, Move s.loop s.pc l pc started ∧
    t = { s with loop := l, pc := pc, ran := s.ran ++ started }

theorem Moved.of_move {l : EventLoop F} {pc pc' : Pc F} (h : s.pc = pc) (hm : Move s.loop pc l pc' []) :
    s.Moved { s with loop := l, pc := pc' } := by
  subst h
  exact ⟨l, pc', [], hm, by rw [List.append_nil]⟩

/-- Outside of calls the loop thread moves. -/
theorem step_moved {l : Label F} (hl : l.caller = none) (he : machine.enabled s l)
    (hs : machine.step s l = .ok t) : s.calls s.loop.threadId_ = .none ∧ s.Moved t := by
  cases l with
  | publish =>
    obtain ⟨hpc, hidle⟩ := he
    obtain rfl := Except.ok.inj hs
    exact ⟨hidle, .of_move hpc .publish⟩
  | loop =>
    obtain ⟨_, hs⟩ := demand_bind_eq_ok hs
    obtain rfl := Except.ok.inj hs
    rcases he with ⟨hpc, hidle⟩ | ⟨hpc, hidle⟩
    · exact ⟨hidle, .of_move hpc .loop⟩
    · exact ⟨hidle, .of_move hpc .again⟩
  | resetQuit =>
    obtain ⟨hpc, hidle⟩ := he
    obtain rfl := Except.ok.inj hs
    exact ⟨hidle, .of_move hpc .resetQuit⟩
  | test =>
    obtain ⟨hpc, hidle⟩ := he
    obtain rfl := Except.ok.inj hs
    cases hq : s.loop.quit_ with
    | true => exact ⟨hidle, .of_move hpc (.leave hq)⟩
    | false => exact ⟨hidle, .of_move hpc (.poll hq)⟩
  | pollReturns active =>
    obtain ⟨⟨hpc, hidle⟩, _⟩ := he
    obtain rfl := Except.ok.inj hs
    exact ⟨hidle, .of_move hpc (.pollReturns active)⟩
  | handleEvent =>
    obtain ⟨it, rest, hpc, hidle⟩ := he
    obtain rfl := Except.ok.inj hs
    unfold handleEvent
    rw [hpc]
    cases it with
    | wakeupChannel_ => exact ⟨hidle, .of_move hpc (.handleRead rest)⟩
    | other => exact ⟨hidle, .of_move hpc (.handle rest)⟩
  | handlerReturns =>
    obtain ⟨rest, hpc, hidle⟩ := he
    obtain rfl := Except.ok.inj hs
    unfold userCodeReturns
    rw [hpc]
    exact ⟨hidle, .of_move hpc (.handlerReturns rest)⟩
  | beginPendingFunctors =>
    obtain ⟨hpc, hidle⟩ := he
    obtain rfl := Except.ok.inj hs
    exact ⟨hidle, .of_move hpc .beginPendingFunctors⟩
  | swap =>
    obtain ⟨hpc, hidle⟩ := he
    obtain rfl := Except.ok.inj hs
    exact ⟨hidle, .of_move hpc .swap⟩
  | runFunctor =>
    obtain ⟨cb, rest, hpc, hidle⟩ := he
    obtain rfl := Except.ok.inj hs
    unfold LoopSystem.runFunctor
    rw [hpc]
    exact ⟨hidle, s.loop, .functor rest, [cb], hpc ▸ .runFunctor cb rest, rfl⟩
  | functorReturns =>
    obtain ⟨rest, hpc, hidle⟩ := he
    obtain rfl := Except.ok.inj hs
    unfold userCodeReturns
    rw [hpc]
    exact ⟨hidle, .of_move hpc (.functorReturns rest)⟩
  | endPendingFunctors =>
    obtain ⟨hpc, hidle⟩ := he
    obtain rfl := Except.ok.inj hs
    exact ⟨hidle, .of_move hpc .endPendingFunctors⟩
  | _ => cases hl

inductive Effect (s : LoopSystem F) : LoopSystem F → Prop
  | moved {t : LoopSystem F} (hidle : s.calls s.loop.threadId_ = .none) (hm : s.Moved t) : Effect s t
  | ranAtOnce : Effect s s
  | pushed {tid : ThreadId} (hc : s.Calls tid) (cb : F) : Effect s (s.queueInLoop tid cb)
  | quitted {tid : ThreadId} (hc : s.Calls tid) : Effect s (s.quit tid)
  | returned {tid : ThreadId} (hc : s.calls tid ≠ .none) : Effect s (s.callReturns tid)

theorem step_effect {l : Label F} (he : machine.enabled s l) (hs : machine.step s l = .ok t) :
    Effect s t := by
  cases l with
  | runInLoop tid cb =>
    obtain rfl := Except.ok.inj hs
    unfold LoopSystem.runInLoop
    split
    · exact .ranAtOnce
    · exact .pushed he cb
  | queueInLoop tid cb =>
    obtain rfl := Except.ok.inj hs
    exact .pushed he cb
  | quit tid =>
    obtain rfl := Except.ok.inj hs
    exact .quitted he
  | callReturns tid =>
    obtain rfl := Except.ok.inj hs
    exact .returned he
  | _ =>
    obtain ⟨hidle, hm⟩ := step_moved rfl he hs
    exact .moved hidle hm

@[simp] theorem setCall_self (s : LoopSystem F) (tid : ThreadId) (c : Call) :
    (s.setCall tid c).calls tid = c := if_pos rfl

theorem setCall_ne (s : LoopSystem F) {tid tid' : ThreadId} (c : Call) (h : tid' ≠ tid) :
    (s.setCall tid c).calls tid' = s.calls tid' := if_neg h

/-- A call that ends may write to the eventfd, which loses nothing. -/
theorem callReturns_frame (s : LoopSystem F) (tid : ThreadId) :
    ∃ n, s.loop.wakeupFd_ ≤ n ∧
      s.callReturns tid = { s with loop := { s.loop with wakeupFd_ := n } }.setCall tid .none := by
  have hsame : s.calls tid = .none → s = s.setCall tid .none := by
    intro hc
    have hcalls : s.calls = (s.setCall tid .none).calls := by
      funext tid'
      by_cases htid : tid' = tid
      · rw [htid, setCall_self, hc]
      · rw [setCall_ne _ _ htid]
    exact congrArg (fun calls => { s with calls }) hcalls
  unfold callReturns
  cases hc : s.calls tid with
  | none => exact ⟨_, Nat.le_refl _, hsame hc⟩
  | queueInLoop =>
    refine ⟨_, s.loop.le_wakeupAfterPush tid, ?_⟩
    dsimp only
    rw [← s.loop.wakeupAfterPush_frame tid]
  | quit =>
    refine ⟨_, s.loop.le_wakeupAfterQuit tid, ?_⟩
    dsimp only
    rw [← s.loop.wakeupAfterQuit_frame tid]

theorem Effect.threadId (he : Effect s t) : t.loop.threadId_ = s.loop.threadId_ := by
  cases he with
  | moved _ hm =>
    obtain ⟨l, pc, started, hm, rfl⟩ := hm
    exact hm.threadId
  | @returned tid _ =>
    obtain ⟨n, _, heq⟩ := s.callReturns_frame tid
    rw [heq]
    rfl
  | _ => rfl

/-- The loop thread is in a call only while user code runs on it. -/
theorem Effect.idle (he : Effect s t) (h : s.calls s.loop.threadId_ ≠ .none → s.pc.RunsUserCode) :
    t.calls t.loop.threadId_ ≠ .none → t.pc.RunsUserCode := by
  have hset : ∀ (r : LoopSystem F) (tid : ThreadId) (c : Call), r.pc = s.pc →
      r.loop.threadId_ = s.loop.threadId_ → r.calls = s.calls →
      (tid = s.loop.threadId_ → c ≠ .none → s.pc.RunsUserCode) →
      (r.setCall tid c).calls r.loop.threadId_ ≠ .none → r.pc.RunsUserCode := by
    intro r tid c hpc hid hcalls huser hcall
    rw [hid] at hcall
    rw [hpc]
    by_cases htid : s.loop.threadId_ = tid
    · rw [htid, setCall_self] at hcall
      exact huser htid.symm hcall
    · rw [setCall_ne _ _ htid, hcalls] at hcall
      exact h hcall
  cases he with
  | moved hidle hm =>
    obtain ⟨l, pc, started, hm, rfl⟩ := hm
    intro hcall
    change s.calls l.threadId_ ≠ .none at hcall
    rw [hm.threadId] at hcall
    exact absurd hidle hcall
  | ranAtOnce => exact h
  | pushed hc cb => exact hset _ _ _ rfl rfl rfl (fun htid _ => hc.2.2 htid)
  | quitted hc => exact hset _ _ _ rfl rfl rfl (fun htid _ => hc.2.2 htid)
  | returned hc =>
    rename_i tid
    obtain ⟨n, _, heq⟩ := s.callReturns_frame tid
    rw [heq]
    exact hset _ _ _ rfl rfl rfl (fun _ hne => absurd rfl hne)

/-- A call leaves the loop thread where it is. -/
theorem pc_of_caller {l : Label F} (hl : l.caller = some tid) (hs : machine.step s l = .ok t) :
    t.pc = s.pc ∧ t.ran = s.ran := by
  cases l with
  | runInLoop tid' cb =>
    obtain rfl := Except.ok.inj hs
    unfold LoopSystem.runInLoop
    split <;> exact ⟨rfl, rfl⟩
  | queueInLoop tid' cb | quit tid' =>
    obtain rfl := Except.ok.inj hs
    exact ⟨rfl, rfl⟩
  | callReturns tid' =>
    obtain rfl := Except.ok.inj hs
    obtain ⟨n, _, heq⟩ := s.callReturns_frame tid'
    rw [heq]
    exact ⟨rfl, rfl⟩
  | _ => cases hl

end LoopSystem

end MuduoNet
