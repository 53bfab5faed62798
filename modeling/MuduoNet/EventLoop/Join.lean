import MuduoNet.EventLoop.Thread

/-!
# The destructor of an `EventLoopThread`

`~EventLoopThread` quits the loop and joins the thread. Once the loop has begun, the thread ends
after a bounded number of steps; but between the two halves of `quit()` the loop, and the object
`quit()` works on, may already be gone.
-/
namespace MuduoNet

open Lib Lib.Outcome

/-- The moves left to a loop thread that has `quit_` set before it: those up to the next test. -/
def Pc.movesLeft {F : Type} (pending : Nat) : Pc F → Nat
  | .polling => 2 * pending + 7
  | .handling active => 2 * active.length + 2 * pending + 4
  | .handler active => 2 * active.length + 2 * pending + 5
  | .swapping => 2 * pending + 3
  | .running functors => 2 * functors.length + 2
  | .functor functors => 2 * functors.length + 3
  | .testing => 1
  | .built | .outside | .entered | .returned => 0

theorem Pc.movesLeft_le {F : Type} (pc : Pc F) {m n : Nat} (h : m ≤ n + 1) :
    pc.movesLeft m ≤ pc.movesLeft n + 2 := by
  cases pc <;> simp only [movesLeft] <;> omega

theorem Move.movesLeft {F : Type} {l l' : EventLoop F} {pc pc' : Pc F} {started : List F}
    (h : Move l pc l' pc' started) (hquit : l.quit_ = true) (hbegun : ¬ pc.Starting)
    (hpoll : pc ≠ .polling) (hreturned : pc ≠ .returned) :
    1 + pc'.movesLeft l'.pendingFunctors_.length ≤ pc.movesLeft l.pendingFunctors_.length := by
  cases h with
  | publish | loop | resetQuit => exact absurd trivial hbegun
  | again => exact absurd rfl hreturned
  | poll hnot => exact absurd (hnot.symm.trans hquit) Bool.false_ne_true
  | pollReturns active => exact absurd rfl hpoll
  | _ =>
    simp only [Pc.movesLeft, EventLoop.handleRead, List.length_cons, List.length_nil]
    omega

namespace LoopSystem

variable {F : Type} {s t : LoopSystem F} {tid : ThreadId} {l : Label F}

def movesLeft (s : LoopSystem F) : Nat := s.pc.movesLeft s.loop.pendingFunctors_.length

/-- Its own call has to return before the loop thread moves on. -/
def left (s : LoopSystem F) : Nat :=
  s.movesLeft + if s.calls s.loop.threadId_ = .none then 0 else 1

/-- A step of the loop thread `tid`, but for the calls that it begins. -/
def Label.own (tid : ThreadId) : Label F → Bool
  | .runInLoop _ _ | .queueInLoop _ _ | .quit _ => false
  | .callReturns tid' => tid' = tid
  | _ => true

/-- Each active channel and each functor queued gives the loop thread something to do. -/
def Label.gives : Label F → Nat
  | .pollReturns active => 2 * active.length
  | .runInLoop _ _ | .queueInLoop _ _ | .quit _ => 3
  | _ => 0

theorem left_of_idle (h : s.calls s.loop.threadId_ = .none) : s.left = s.movesLeft := by
  rw [left, if_pos h, Nat.add_zero]

theorem left_le (s : LoopSystem F) : s.left ≤ s.movesLeft + 1 := by
  unfold left
  split <;> omega

/-- Behind a call at most one functor more waits. -/
theorem left_called (hpc : t.pc = s.pc)
    (hpending : t.loop.pendingFunctors_.length ≤ s.loop.pendingFunctors_.length + 1) :
    t.left ≤ s.left + 3 := by
  have hmoves : t.movesLeft ≤ s.movesLeft + 2 := by
    unfold movesLeft
    rw [hpc]
    exact s.pc.movesLeft_le hpending
  have hleft := t.left_le
  have hle : s.movesLeft ≤ s.left := Nat.le_add_right _ _
  omega

/-- Outside of `poll` each move of the loop thread takes one from what is left. -/
theorem left_moved (h : s.Stopping) (hl : l.caller = none) (he : threadFunc.enabled s l)
    (hs : threadFunc.step s l = .ok t) (hpoll : s.pc ≠ .polling) : 1 + t.left ≤ s.left := by
  obtain ⟨hidle, object, pc, started, hm, rfl⟩ := step_moved hl he.1 hs
  have hreturned : s.pc ≠ .returned := by
    intro hpc
    obtain ⟨he, honce⟩ := he
    cases l <;> simp_all [machine, Enabled, At, Label.caller]
  have hidle' : s.calls object.threadId_ = .none := by rw [hm.threadId, hidle]
  rw [left_of_idle hidle, left_of_idle hidle']
  exact hm.movesLeft h.quit h.begun hpoll hreturned

theorem left_step (h : s.Stopping) (he : threadFunc.enabled s l) (hs : threadFunc.step s l = .ok t) :
    (l.own s.loop.threadId_).toNat + t.left ≤ s.left + l.gives := by
  cases l with
  | runInLoop tid cb =>
    obtain rfl := Except.ok.inj hs
    rw [Label.own, Bool.toNat_false, Nat.zero_add]
    unfold LoopSystem.runInLoop
    split
    · exact Nat.le_add_right _ _
    · exact left_called rfl (by simp [queueInLoop, setCall, EventLoop.push])
  | queueInLoop tid cb =>
    obtain rfl := Except.ok.inj hs
    rw [Label.own, Bool.toNat_false, Nat.zero_add]
    exact left_called rfl (by simp [queueInLoop, setCall, EventLoop.push])
  | quit tid =>
    obtain rfl := Except.ok.inj hs
    rw [Label.own, Bool.toNat_false, Nat.zero_add]
    exact left_called rfl (Nat.le_succ _)
  | callReturns tid =>
    obtain rfl := Except.ok.inj hs
    obtain ⟨n, _, heq⟩ := s.callReturns_frame tid
    rw [heq]
    have hcall : s.calls tid ≠ .none := he.1
    by_cases htid : s.loop.threadId_ = tid
    · simp [left, movesLeft, Label.own, Label.gives, setCall, htid, hcall]
      omega
    · simp [left, movesLeft, Label.own, Label.gives, setCall, htid, Ne.symm htid]
  | pollReturns active =>
    obtain ⟨⟨⟨hpc, hidle⟩, _⟩, _⟩ := he
    obtain rfl := Except.ok.inj hs
    simp [left, movesLeft, hpc, hidle, Pc.movesLeft, Label.own, Label.gives]
    omega
  | _ =>
    refine Nat.le_trans (left_moved h rfl he hs ?_) (Nat.le_add_right _ _)
    intro hpc
    obtain ⟨he, _⟩ := he
    simp_all [machine, Enabled, At]

def Stopped (s : LoopSystem F) : Prop := s.pc = .returned → s.loop.looping_ = false

theorem stopped_step (h : s.Stopped) (he : threadFunc.enabled s l) (hs : threadFunc.step s l = .ok t) :
    t.Stopped := by
  cases step_effect he.1 hs with
  | moved _ hm =>
    obtain ⟨object, pc, calls, pushed, ran⟩ := s
    obtain ⟨object', pc', started, hm, rfl⟩ := hm
    intro hreturned
    dsimp only at hm hreturned ⊢
    subst hreturned
    cases hm
    rfl
  | ranAtOnce => exact h
  | pushed _ cb => exact h
  | quitted _ => exact h
  | @returned tid _ =>
    obtain ⟨n, _, heq⟩ := s.callReturns_frame tid
    rw [heq]
    exact h

/-- `t` is one step of the loop thread nearer to the end of `loop()`. -/
structure Advances (s t : LoopSystem F) (l : Label F) : Prop where
  enabled : threadFunc.enabled s l
  step : threadFunc.step s l = .ok t
  ne_publish : l ≠ .publish
  caller : ∀ tid, l.caller = some tid → tid = s.loop.threadId_
  own : l.own s.loop.threadId_ = true
  left : t.left < s.left

/-- A move of the loop thread from the test to the test, but for the return of `poll`. -/
def Label.plain : Label F → Bool
  | .test | .handleEvent | .handlerReturns | .beginPendingFunctors | .swap | .runFunctor
  | .functorReturns | .endPendingFunctors => true
  | _ => false

theorem Advances.of_plain (h : s.Stopping) (hl : l.plain = true) (he : machine.enabled s l)
    (hs : machine.step s l = .ok t) : Advances s t l := by
  have hloop : l ≠ .loop := by
    rintro rfl
    cases hl
  have hgives : l.gives = 0 := by cases l <;> simp_all [Label.plain, Label.gives]
  have hown : l.own s.loop.threadId_ = true := by cases l <;> simp_all [Label.plain, Label.own]
  have hcaller : l.caller = none := by cases l <;> simp_all [Label.plain, Label.caller]
  have he' : threadFunc.enabled s l := ⟨he, fun heq => absurd heq hloop⟩
  have hleft := left_step h he' hs
  rw [hown, hgives, Bool.toNat_true] at hleft
  refine ⟨he', hs, ?_, by simp [hcaller], hown, by omega⟩
  rintro rfl
  cases hl

/-- The loop thread can go on until `loop()` returns. -/
theorem exists_advance (h : s.Stopping) (hreturned : ¬ s.At .returned) : ∃ l t, Advances s t l := by
  by_cases hidle : s.calls s.loop.threadId_ = .none
  · cases hpc : s.pc with
    | built | outside | entered =>
      have hbegun := h.begun
      rw [hpc] at hbegun
      exact absurd trivial hbegun
    | testing => exact ⟨.test, _, .of_plain h rfl ⟨hpc, hidle⟩ rfl⟩
    | polling =>
      refine ⟨.pollReturns (if 0 < s.loop.wakeupFd_ then [.wakeupChannel_] else []), _,
        ⟨⟨⟨hpc, hidle⟩, ?_⟩, by simp⟩, rfl, by simp, by simp [Label.caller], rfl, ?_⟩
      · unfold Reports
        split <;> rfl
      · simp only [left, movesLeft, hpc, hidle, Pc.movesLeft]
        split
        · simp
          omega
        · simp
    | handling active =>
      cases active with
      | nil => exact ⟨.beginPendingFunctors, _, .of_plain h rfl ⟨hpc, hidle⟩ rfl⟩
      | cons it rest => exact ⟨.handleEvent, _, .of_plain h rfl ⟨it, rest, hpc, hidle⟩ rfl⟩
    | handler active => exact ⟨.handlerReturns, _, .of_plain h rfl ⟨active, hpc, hidle⟩ rfl⟩
    | swapping => exact ⟨.swap, _, .of_plain h rfl ⟨hpc, hidle⟩ rfl⟩
    | running functors =>
      cases functors with
      | nil => exact ⟨.endPendingFunctors, _, .of_plain h rfl ⟨hpc, hidle⟩ rfl⟩
      | cons cb rest => exact ⟨.runFunctor, _, .of_plain h rfl ⟨cb, rest, hpc, hidle⟩ rfl⟩
    | functor functors => exact ⟨.functorReturns, _, .of_plain h rfl ⟨functors, hpc, hidle⟩ rfl⟩
    | returned => exact absurd ⟨hpc, hidle⟩ hreturned
  · have he : threadFunc.enabled s (.callReturns s.loop.threadId_) := ⟨hidle, by simp⟩
    have hleft := left_step h he rfl
    refine ⟨.callReturns s.loop.threadId_, _, he, rfl, by simp, ?_, by simp [Label.own], ?_⟩
    · intro tid htid
      exact (Option.some.inj htid).symm
    · simp only [Label.own, Label.gives, decide_true, Bool.toNat_true] at hleft
      omega

end LoopSystem

namespace ThreadSystem

variable {F : Type} {self tid : ThreadId} {s t u : ThreadSystem F} {l : Label F}

/-- Only its caller sees a call. -/
theorem calls_of_ne {loop loop' : LoopSystem F} {l : LoopSystem.Label F} (hl : l.caller ≠ some self)
    (he : LoopSystem.machine.enabled loop l) (hs : LoopSystem.machine.step loop l = .ok loop') :
    loop'.calls self = loop.calls self := by
  cases l with
  | runInLoop tid cb =>
    obtain rfl := Except.ok.inj hs
    have hne : self ≠ tid := fun h => hl (congrArg some h.symm)
    unfold LoopSystem.runInLoop
    split
    · rfl
    · exact LoopSystem.setCall_ne _ _ hne
  | queueInLoop tid cb | quit tid =>
    obtain rfl := Except.ok.inj hs
    exact LoopSystem.setCall_ne _ _ fun h => hl (congrArg some h.symm)
  | callReturns tid =>
    obtain rfl := Except.ok.inj hs
    obtain ⟨n, _, heq⟩ := loop.callReturns_frame tid
    rw [heq]
    exact LoopSystem.setCall_ne _ _ fun h => hl (congrArg some h.symm)
  | _ =>
    obtain ⟨_, _, _, _, _, rfl⟩ := LoopSystem.step_moved rfl he hs
    rfl

/-- How far the two threads are: before `threadFunc` has left the lock its loop is not running, and
what the destructor has called. -/
structure Calling (owner : ThreadId) (s : ThreadSystem F) : Prop where
  before : s.runner ≠ .looping → s.runner ≠ .ended → s.loop.pc = .built ∨ s.loop.pc = .outside
  after : s.runner = .ended → s.loop.pc = .returned
  quitting : s.owner = .quitting → s.loop.calls owner = .none
  waking : s.owner = .waking → s.loop.calls owner = .quit

theorem calling_step (hc : s.Calling self) (he : (machine self).enabled s l)
    (hs : (machine self).step s l = .ok t) : t.Calling self := by
  obtain ⟨hbefore, hafter, hquitting, hwaking⟩ := hc
  cases l with
  | startLoop =>
    obtain ⟨hnot, hs⟩ := demand_bind_eq_ok hs
    obtain rfl := Except.ok.inj hs
    constructor <;> simp_all
  | lock p =>
    cases p with
    | owner =>
      obtain rfl := Except.ok.inj hs
      constructor <;> simp_all
    | runner =>
      obtain rfl := Except.ok.inj hs
      obtain ⟨hpc, _⟩ := he
      constructor <;> simp_all
  | check =>
    obtain rfl := Except.ok.inj hs
    dsimp only
    split <;> constructor <;> simp_all
  | wake | join =>
    obtain rfl := Except.ok.inj hs
    constructor <;> simp_all
  | unlock p =>
    cases p with
    | owner =>
      obtain rfl := Except.ok.inj hs
      constructor <;> simp_all
    | runner =>
      obtain rfl := Except.ok.inj hs
      constructor <;> simp_all
  | construct =>
    obtain rfl := Except.ok.inj hs
    change s.runner = _ at he
    constructor <;> simp_all
  | assign =>
    obtain ⟨loop, hloop, hs⟩ := bind_eq_ok hs
    obtain rfl := Except.ok.inj hloop
    obtain rfl := Except.ok.inj hs
    constructor <;> simp_all
  | notify =>
    obtain rfl := Except.ok.inj hs
    change s.runner = _ at he
    constructor <;> grind
  | loop l =>
    obtain ⟨loop, hderef, hs⟩ := bind_eq_ok hs
    obtain ⟨_, hrunner, rfl⟩ := deref_eq hderef
    obtain ⟨loop, hstep, hs⟩ := bind_eq_ok hs
    obtain rfl := Except.ok.inj hs
    obtain ⟨he, _, hcaller⟩ := he
    cases hl : l.caller with
    | none =>
      rw [hl] at hcaller
      have hcalls : loop.calls self = s.loop.calls self :=
        calls_of_ne (by simp [hl]) he.1 hstep
      constructor <;> simp_all
    | some tid =>
      rw [hl] at hcaller
      have hpc := (LoopSystem.pc_of_caller hl hstep).1
      have hcalls : s.owner ≠ .running → loop.calls self = s.loop.calls self := by
        intro howner
        apply calls_of_ne _ he.1 hstep
        rw [hl]
        intro htid
        exact howner (hcaller.2.2 (Option.some.inj htid))
      constructor <;> simp_all
  | leave =>
    obtain ⟨_, hs⟩ := demand_bind_eq_ok hs
    obtain rfl := Except.ok.inj hs
    obtain ⟨_, hpc, _⟩ := he
    constructor <;> simp_all
  | destroy =>
    obtain rfl := Except.ok.inj hs
    obtain ⟨_, hidle⟩ := he
    constructor <;> simp_all
  | quit =>
    obtain ⟨loop, hderef, hs⟩ := bind_eq_ok hs
    obtain ⟨_, hrunner, rfl⟩ := deref_eq hderef
    obtain rfl := Except.ok.inj hs
    have hpc : (s.loop.quit self).pc = s.loop.pc := rfl
    have hcall : (s.loop.quit self).calls self = .quit := LoopSystem.setCall_self _ _ _
    constructor <;> simp_all
  | wakeup =>
    obtain ⟨loop, hderef, hs⟩ := bind_eq_ok hs
    obtain ⟨_, hrunner, rfl⟩ := deref_eq hderef
    obtain rfl := Except.ok.inj hs
    have hpc : (s.loop.callReturns self).pc = s.loop.pc := by
      obtain ⟨n, _, heq⟩ := s.loop.callReturns_frame self
      rw [heq]
      rfl
    constructor <;> simp_all

/-- The loop takes the steps of a `LoopSystem`. -/
theorem loop_step (hne : self ≠ s.loop.loop.threadId_) (hi : s.Inv) (hc : s.Calling self)
    (hloop : s.loop.StartInv) (he : (machine self).enabled s l)
    (hs : (machine self).step s l = .ok t) :
    t.loop = s.loop ∨ ∃ l', LoopSystem.threadFunc.enabled s.loop l' ∧
      LoopSystem.threadFunc.step s.loop l' = .ok t.loop := by
  cases l with
  | startLoop | leave =>
    obtain ⟨_, hs⟩ := demand_bind_eq_ok hs
    obtain rfl := Except.ok.inj hs
    exact .inl rfl
  | lock p | unlock p =>
    cases p with
    | _ =>
      obtain rfl := Except.ok.inj hs
      exact .inl rfl
  | check =>
    obtain rfl := Except.ok.inj hs
    dsimp only
    split <;> exact .inl rfl
  | wake | construct | notify | destroy | join =>
    obtain rfl := Except.ok.inj hs
    exact .inl rfl
  | assign =>
    obtain ⟨loop, hstep, hs⟩ := bind_eq_ok hs
    obtain rfl := Except.ok.inj hs
    change s.runner = _ at he
    have hbuilt : s.loop.pc = .built := by
      rw [hi.built, Bool.eq_false_iff]
      intro hset
      have hpublished := hi.published.mp hset
      simp_all
    have hidle : s.loop.calls s.loop.loop.threadId_ = .none := by
      by_contra hcall
      have huser := hloop.idle hcall
      rw [hbuilt] at huser
      exact huser
    exact .inr ⟨.publish, ⟨⟨hbuilt, hidle⟩, by simp⟩, hstep⟩
  | loop l =>
    obtain ⟨loop, hderef, hs⟩ := bind_eq_ok hs
    obtain ⟨_, _, rfl⟩ := deref_eq hderef
    obtain ⟨loop, hstep, hs⟩ := bind_eq_ok hs
    obtain rfl := Except.ok.inj hs
    exact .inr ⟨l, he.1, hstep⟩
  | quit =>
    obtain ⟨loop, hderef, hs⟩ := bind_eq_ok hs
    obtain ⟨hset, _, rfl⟩ := deref_eq hderef
    obtain rfl := Except.ok.inj hs
    refine .inr ⟨.quit self, ⟨⟨hc.quitting he, ?_, fun htid => absurd htid hne⟩, by simp⟩, rfl⟩
    intro hbuilt
    exact Bool.false_ne_true ((hi.built.mp hbuilt).symm.trans hset)
  | wakeup =>
    obtain ⟨loop, hderef, hs⟩ := bind_eq_ok hs
    obtain ⟨_, _, rfl⟩ := deref_eq hderef
    obtain rfl := Except.ok.inj hs
    refine .inr ⟨.callReturns self, ⟨?_, by simp⟩, rfl⟩
    change s.loop.calls self ≠ .none
    simp [hc.waking he]

/-- What is known of the two threads and of their loop. -/
structure Joint (owner tid : ThreadId) (s : ThreadSystem F) : Prop where
  inv : s.Inv
  calling : s.Calling owner
  started : s.loop.StartInv
  thread : s.loop.loop.threadId_ = tid
  stopped : s.loop.Stopped

theorem joint_step (hne : self ≠ tid) (h : Joint self tid s) (he : (machine self).enabled s l)
    (hs : (machine self).step s l = .ok t) : Joint self tid t := by
  obtain ⟨hi, hc, hstart, hthread, hstopped⟩ := h
  suffices hloop : t.loop.StartInv ∧ t.loop.loop.threadId_ = tid ∧ t.loop.Stopped from
    ⟨inv_step hi he hs, calling_step hc he hs, hloop.1, hloop.2.1, hloop.2.2⟩
  have hne' : self ≠ s.loop.loop.threadId_ := hthread ▸ hne
  rcases loop_step hne' hi hc hstart he hs with heq | ⟨l', he', hs'⟩
  · rw [heq]
    exact ⟨hstart, hthread, hstopped⟩
  · have heff := LoopSystem.step_effect he'.1 hs'
    exact ⟨LoopSystem.startInv_step hstart he' hs', heff.threadId.trans hthread,
      LoopSystem.stopped_step hstopped he' hs'⟩

theorem joint (hne : self ≠ tid) (h : Reachable (machine self) (start tid) s) : Joint self tid s := by
  apply h.invariant (fun _ _ _ hj he hs => joint_step hne hj he hs)
  refine ⟨inv_start, ?_, ⟨fun _ => rfl, fun hcall => absurd rfl hcall⟩, rfl, fun h => ?_⟩
  · constructor <;> simp [start, LoopSystem.start]
  · cases h

end ThreadSystem

/-- The steps left to the destructor behind the store in `quit()`. -/
def OwnerPc.toJoin : OwnerPc → Nat
  | .waking => 2
  | .joining => 1
  | _ => 0

namespace ThreadSystem

variable {F : Type} {self tid : ThreadId} {s t u : ThreadSystem F} {l : Label F}

/-- The steps left until the destructor returns. -/
def todo (s : ThreadSystem F) : Nat :=
  s.owner.toJoin + if s.runner = .ended then 0 else 1 + s.loop.left

/-- A step of the destructor or of the loop thread `tid`, but for the calls that it begins. -/
def Label.own (tid : ThreadId) : Label F → Bool
  | .loop l => l.own tid
  | .leave | .wakeup | .join => true
  | _ => false

def Label.gives : Label F → Nat
  | .loop l => l.gives
  | _ => 0

/-- The destructor has set `quit_` for a loop that has begun. -/
structure Ending (owner tid : ThreadId) (s : ThreadSystem F) : Prop where
  joint : Joint owner tid s
  stopping : s.loop.Stopping
  owner : s.owner = .waking ∨ s.owner = .joining ∨ s.owner = .destroyed
  wakes : s.owner = .joining → s.loop.pc = .polling → 0 < s.loop.loop.wakeupFd_

theorem Ending.runner (h : Ending self tid s) : s.runner = .looping ∨ s.runner = .ended := by
  by_contra hnot
  obtain ⟨hlooping, hended⟩ := not_or.mp hnot
  apply h.stopping.begun
  rcases h.joint.calling.before hlooping hended with hpc | hpc
  · rw [hpc]
    trivial
  · rw [hpc]
    trivial

theorem waits_step {loop loop' : LoopSystem F} {l : LoopSystem.Label F} (h : loop.Stopping)
    (he : LoopSystem.threadFunc.enabled loop l) (hs : LoopSystem.threadFunc.step loop l = .ok loop')
    (hpc : loop'.pc = .polling) :
    loop.pc = .polling ∧ loop.loop.wakeupFd_ ≤ loop'.loop.wakeupFd_ := by
  cases LoopSystem.step_effect he.1 hs with
  | moved _ hm =>
    have hquit := h.quit
    obtain ⟨object, pc, calls, pushed, ran⟩ := loop
    obtain ⟨object', pc', started, hm, rfl⟩ := hm
    dsimp only at hm hpc hquit
    subst hpc
    cases hm with
    | poll hnot => exact absurd (hnot.symm.trans hquit) Bool.false_ne_true
  | ranAtOnce => exact ⟨hpc, Nat.le_refl _⟩
  | pushed _ cb => exact ⟨hpc, Nat.le_refl _⟩
  | quitted _ => exact ⟨hpc, Nat.le_refl _⟩
  | @returned tid _ =>
    obtain ⟨n, hle, heq⟩ := loop.callReturns_frame tid
    rw [heq] at hpc ⊢
    exact ⟨hpc, hle⟩

/-- Behind the store there are the steps of the loop and four more. -/
inductive After (self : ThreadId) (s : ThreadSystem F) : Label F → ThreadSystem F → Prop
  | loop {l : LoopSystem.Label F} {loop : LoopSystem F} (he : LoopSystem.threadFunc.enabled s.loop l)
      (hs : LoopSystem.threadFunc.step s.loop l = .ok loop) (hrunner : s.runner = .looping) :
      After self s (.loop l) { s with loop }
  | leave (hrunner : s.runner = .looping) : After self s .leave { s with runner := .ended }
  | wakeup (howner : s.owner = .waking) (hrunner : s.runner = .looping) :
      After self s .wakeup { s with owner := .joining, loop := s.loop.callReturns self }
  | join (howner : s.owner = .joining) (hrunner : s.runner = .ended) :
      After self s .join { s with owner := .destroyed }

theorem Ending.after (h : Ending self tid s) (he : (machine self).enabled s l)
    (hs : (machine self).step s l = .ok t) : After self s l t := by
  have howner := h.owner
  have hrunner := h.runner
  cases l with
  | loop l =>
    obtain ⟨loop, hderef, hs⟩ := bind_eq_ok hs
    obtain ⟨_, hended, rfl⟩ := deref_eq hderef
    obtain ⟨loop, hstep, hs⟩ := bind_eq_ok hs
    obtain rfl := Except.ok.inj hs
    exact .loop he.1 hstep (hrunner.resolve_right hended)
  | leave =>
    obtain ⟨_, hs⟩ := demand_bind_eq_ok hs
    obtain rfl := Except.ok.inj hs
    exact .leave he.1
  | wakeup =>
    obtain ⟨loop, hderef, hs⟩ := bind_eq_ok hs
    obtain ⟨_, hended, rfl⟩ := deref_eq hderef
    obtain rfl := Except.ok.inj hs
    exact .wakeup he (hrunner.resolve_right hended)
  | join =>
    obtain rfl := Except.ok.inj hs
    exact .join he.1 he.2
  | lock p | unlock p =>
    cases p with
    | _ =>
      simp only [machine, Enabled] at he
      grind
  | _ =>
    simp only [machine, Enabled] at he
    grind

theorem ending_step (hne : self ≠ tid) (h : Ending self tid s) (he : (machine self).enabled s l)
    (hs : (machine self).step s l = .ok t) : Ending self tid t := by
  have hj := joint_step hne h.joint he hs
  have hself : self ≠ s.loop.loop.threadId_ := h.joint.thread ▸ hne
  have hstopping : t.loop.Stopping := by
    rcases loop_step hself h.joint.inv h.joint.calling h.joint.started he hs with heq | ⟨_, he', hs'⟩
    · exact heq ▸ h.stopping
    · exact LoopSystem.stopping_step h.stopping he' hs'
  cases h.after he hs with
  | loop he' hs' _ =>
    refine ⟨hj, hstopping, h.owner, ?_⟩
    intro howner hpc
    obtain ⟨hpc, hle⟩ := waits_step h.stopping he' hs' hpc
    exact Nat.lt_of_lt_of_le (h.wakes howner hpc) hle
  | leave _ => exact ⟨hj, hstopping, h.owner, h.wakes⟩
  | wakeup howner _ =>
    refine ⟨hj, hstopping, .inr (.inl rfl), ?_⟩
    intro _ _
    have hcall := h.joint.calling.waking howner
    have hother : ¬ s.loop.loop.isInLoopThread self := by
      simpa [EventLoop.isInLoopThread] using Ne.symm hself
    change 0 < (s.loop.callReturns self).loop.wakeupFd_
    rw [LoopSystem.callReturns, hcall]
    change 0 < (s.loop.loop.wakeupAfterQuit self).wakeupFd_
    rw [EventLoop.wakeupAfterQuit, if_pos hother]
    exact s.loop.loop.wakeup_pos
  | join _ _ => exact ⟨hj, hstopping, .inr (.inr rfl), fun howner => nomatch howner⟩

theorem todo_step (h : Ending self tid s) (he : (machine self).enabled s l)
    (hs : (machine self).step s l = .ok t) : (l.own tid).toNat + t.todo ≤ s.todo + l.gives := by
  cases h.after he hs with
  | loop he' hs' hrunner =>
    have hleft := LoopSystem.left_step h.stopping he' hs'
    rw [h.joint.thread] at hleft
    simp [todo, hrunner, Label.own, Label.gives]
    omega
  | leave hrunner =>
    simp [todo, hrunner, Label.own]
    omega
  | wakeup howner hrunner =>
    have hcall : LoopSystem.threadFunc.enabled s.loop (.callReturns self) := by
      refine ⟨?_, by simp⟩
      change s.loop.calls self ≠ .none
      simp [h.joint.calling.waking howner]
    have hleft := LoopSystem.left_step h.stopping hcall rfl
    simp [LoopSystem.Label.own, LoopSystem.Label.gives] at hleft
    simp [todo, hrunner, howner, Label.own, OwnerPc.toJoin]
    omega
  | join howner hrunner => simp [todo, howner, hrunner, Label.own, OwnerPc.toJoin]

theorem advance (hne : self ≠ tid) (h : Ending self tid s) (howner : s.owner ≠ .destroyed)
    (hrunner : s.runner = .looping) {l : LoopSystem.Label F} {loop : LoopSystem F}
    (ha : LoopSystem.Advances s.loop loop l) : (machine self).enabled s (.loop l) ∧
      (machine self).step s (.loop l) = .ok { s with loop } := by
  have hgiven : s.owner.Given := by
    rcases h.owner with hpc | hpc | hpc
    · rw [hpc]
      trivial
    · rw [hpc]
      trivial
    · exact absurd hpc howner
  constructor
  · refine ⟨ha.enabled, ha.ne_publish, ?_⟩
    cases hl : l.caller with
    | none => exact hrunner
    | some tid' =>
      have htid := (ha.caller tid' hl).trans h.joint.thread
      exact ⟨hgiven, fun _ => hrunner, fun hself => absurd (hself.symm.trans htid) hne⟩
  · have hset : s.object.loop_ = true := h.joint.inv.published.mpr (.inr (.inr (.inl hrunner)))
    have hended : s.runner ≠ .ended := by simp [hrunner]
    have hstep := ha.step
    simp [machine, step, deref, demand, hset, hended, hstep]

theorem leave_step (h : Ending self tid s) (hrunner : s.runner = .looping)
    (hpc : s.loop.At .returned) : (machine self).enabled s .leave ∧
      (machine self).step s .leave = .ok { s with runner := .ended } := by
  refine ⟨⟨hrunner, hpc⟩, ?_⟩
  simp [machine, step, assert, demand, h.joint.stopped hpc.1]

/-- The join waits for nothing but steps that can be taken. -/
theorem join_goes_on (hne : self ≠ tid) (h : Ending self tid s) (howner : s.owner = .joining) :
    ∃ l t, l.own tid = true ∧ (machine self).enabled s l ∧ (machine self).step s l = .ok t := by
  rcases h.runner with hrunner | hrunner
  · by_cases hpc : s.loop.At .returned
    · obtain ⟨he, hs⟩ := leave_step h hrunner hpc
      exact ⟨.leave, _, rfl, he, hs⟩
    · obtain ⟨l, loop, ha⟩ := LoopSystem.exists_advance h.stopping hpc
      obtain ⟨he, hs⟩ := advance hne h (by simp [howner]) hrunner ha
      refine ⟨.loop l, _, ?_, he, hs⟩
      rw [Label.own, ← h.joint.thread]
      exact ha.own
  · exact ⟨.join, _, rfl, ⟨howner, hrunner⟩, rfl⟩

theorem ending_of_quit (hne : self ≠ tid) (h : Reachable (machine self) (start tid) s)
    (he : (machine self).enabled s .quit) (hs : (machine self).step s .quit = .ok t)
    (hbegun : ¬ s.loop.pc.Starting) :
    Ending self tid t ∧ t.owner = .waking ∧ t.runner = .looping := by
  have hj := joint_step hne (joint hne h) he hs
  obtain ⟨loop, hderef, hs⟩ := bind_eq_ok hs
  obtain ⟨_, hended, rfl⟩ := deref_eq hderef
  obtain rfl := Except.ok.inj hs
  have hending : Ending self tid { s with owner := .waking, loop := s.loop.quit self } :=
    ⟨hj, ⟨rfl, hbegun⟩, .inl rfl, fun howner => nomatch howner⟩
  exact ⟨hending, rfl, hending.runner.resolve_right hended⟩

/-- Once the loop has begun, `~EventLoopThread` gets to its end: there is always a next step of the
loop thread or of the destructor, and how many there are is settled when `quit_` is set, but for the
channels and functors that others give the loop to do. -/
theorem destructor_joins (hne : self ≠ tid) (h : Reachable (machine self) (start tid) s)
    (he : (machine self).enabled s .quit) (hs : (machine self).step s .quit = .ok t)
    (hbegun : ¬ s.loop.pc.Starting) {ls : List (Label F)} (hr : Run (machine self) t ls u) :
    ls.countP (Label.own tid) ≤ t.todo + (ls.map Label.gives).sum ∧
    (u.owner = .joining → (u.loop.pc = .polling → 0 < u.loop.loop.wakeupFd_) ∧
      ∃ l v, l.own tid = true ∧ (machine self).enabled u l ∧ (machine self).step u l = .ok v) := by
  have ht := (ending_of_quit hne h he hs hbegun).1
  have hkeep : ∀ s l t, Ending self tid s → (machine (F := F) self).enabled s l →
      (machine self).step s l = .ok t → Ending self tid t :=
    fun _ _ _ hi he hs => ending_step hne hi he hs
  have hu := hr.invariant hkeep ht
  have hcounts := hr.counts hkeep (fun _ _ _ hi he hs => todo_step hi he hs) ht
  exact ⟨Nat.le_trans (Nat.le_add_right _ _) hcounts,
    fun howner => ⟨hu.wakes howner, join_goes_on hne hu howner⟩⟩

/-- From every such state the loop thread can go on alone until `threadFunc` has returned. -/
theorem exists_leave (hne : self ≠ tid) (h : Ending self tid s) (howner : s.owner = .waking)
    (hrunner : s.runner = .looping) :
    ∃ ls u, Run (machine self) s ls u ∧ u.owner = .waking ∧ u.runner = .ended := by
  generalize hn : s.loop.left = n
  induction n using Nat.strong_induction_on generalizing s with
  | _ n ih =>
    by_cases hpc : s.loop.At .returned
    · obtain ⟨he, hs⟩ := leave_step h hrunner hpc
      exact ⟨_, _, .single he hs, howner, rfl⟩
    · obtain ⟨l, loop, ha⟩ := LoopSystem.exists_advance h.stopping hpc
      obtain ⟨he, hs⟩ := advance hne h (by simp [howner]) hrunner ha
      have hnext := ending_step hne h he hs
      obtain ⟨ls, u, hr, hu⟩ := ih loop.left (hn ▸ ha.left) hnext howner hrunner rfl
      exact ⟨_, u, .cons he hs hr, hu⟩

/-- The thread has ended when `threadFunc` has returned, and not before. -/
theorem ended_iff (hne : self ≠ tid) (h : Ending self tid s) {ls : List (Label F)}
    (hr : Run (machine self) s ls u) : u.runner = .ended ↔ s.runner = .ended ∨ .leave ∈ ls := by
  induction hr with
  | nil => simp
  | cons he hs _ ih =>
    rw [ih (ending_step hne h he hs)]
    cases h.after he hs with
    | loop => simp
    | leave => simp
    | wakeup => simp
    | join => simp

/-- The wakeup behind the store of `quit()` works on a deleted loop exactly if the loop thread has
come to its end in between, and at no state of the loop is that excluded. -/
theorem quit_overtaken (hne : self ≠ tid) (h : Reachable (machine self) (start tid) s)
    (he : (machine self).enabled s .quit) (hs : (machine self).step s .quit = .ok t)
    (hbegun : ¬ s.loop.pc.Starting) :
    (∀ ls u, Run (machine self) t ls u → u.owner = .waking →
      ((machine self).step u .wakeup = .error .deletedObject ↔ .leave ∈ ls)) ∧
    ∃ ls u, Run (machine self) t ls u ∧ u.owner = .waking ∧
      (machine self).step u .wakeup = .error .deletedObject := by
  obtain ⟨ht, howner, hrunner⟩ := ending_of_quit hne h he hs hbegun
  have hset : ∀ ls u, Run (machine self) t ls u → u.owner = .waking →
      ((machine self).step u .wakeup = .error .deletedObject ↔ u.runner = .ended) := by
    intro ls u hr hu
    have hi := (hr.invariant (fun _ _ _ hi he hs => ending_step hne hi he hs) ht).joint.inv
    have hloop := hi.found (.inr (.inr (.inl hu)))
    by_cases hended : u.runner = .ended
    · simp [machine, step, deref, demand, hloop, hended]
    · simp [machine, step, deref, demand, hloop, hended]
  constructor
  · intro ls u hr hu
    rw [hset ls u hr hu, ended_iff hne ht hr]
    simp [hrunner]
  · obtain ⟨ls, u, hr, hu, hended⟩ := exists_leave hne ht howner hrunner
    exact ⟨ls, u, hr, hu, (hset ls u hr hu).mpr hended⟩

/-- `startLoop()`, the loop up to its first `poll`, and the destructor up to `quit_ = true`. -/
def quitRun : List (Label ℕ) :=
  .startLoop :: handshakeRun ++ [.loop .loop, .loop .resetQuit, .loop .test, .destroy]

theorem exists_quitRun : ∃ s : ThreadSystem ℕ, Run (machine 2) (start 1) quitRun s ∧
    s.loop.pc = .polling ∧ (machine 2).enabled s .quit ∧ (s.deref.map fun _ => ()) = .ok () :=
  exists_run_of_exec _ (by decide +kernel)

theorem destructor_joins_run : ∃ u : ThreadSystem ℕ,
    Run (machine 2) (start 1) (quitRun ++ [.quit, .wakeup]) u ∧
    ∃ l v, l.own 1 = true ∧ (machine 2).enabled u l ∧ (machine 2).step u l = .ok v := by
  obtain ⟨u, hr, howner⟩ : ∃ u : ThreadSystem ℕ,
      Run (machine 2) (start 1) (quitRun ++ [.quit, .wakeup]) u ∧ u.owner = .joining :=
    exists_run_of_exec _ (by decide +kernel)
  obtain ⟨s, hs, hpc, _⟩ := exists_quitRun
  obtain ⟨s', hs', hrest⟩ := hr.split
  obtain rfl := hs.unique hs'
  cases hrest with
  | cons he hquit hrest =>
    have hjoins := destructor_joins (by decide) ⟨_, hs⟩ he hquit (by simp [hpc, Pc.Starting]) hrest
    exact ⟨u, hr, (hjoins.2 howner).2⟩

theorem quit_overtaken_run : ∃ s t u : ThreadSystem ℕ, ∃ ls, Run (machine 2) (start 1) quitRun s ∧
    (machine 2).step s .quit = .ok t ∧ Run (machine 2) t ls u ∧
    (machine 2).step u .wakeup = .error .deletedObject := by
  obtain ⟨s, hr, hpc, he, hderef⟩ := exists_quitRun
  have hquit : ∃ t, (machine 2).step s .quit = .ok t := by
    cases hloop : s.deref with
    | error f =>
      rw [hloop] at hderef
      cases hderef
    | ok loop =>
      refine ⟨{ s with owner := .waking, loop := loop.quit 2 }, ?_⟩
      change (s.deref >>= _) = _
      rw [hloop]
      rfl
  obtain ⟨t, hs⟩ := hquit
  obtain ⟨ls, u, hu, _, hfault⟩ :=
    (quit_overtaken (by decide) ⟨_, hr⟩ he hs (by simp [hpc, Pc.Starting])).2
  exact ⟨s, t, u, ls, hr, hs, hu, hfault⟩

end ThreadSystem

end MuduoNet
