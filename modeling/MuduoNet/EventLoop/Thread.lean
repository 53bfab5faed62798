import MuduoNet.EventLoop.Quit
import MuduoNet.Lib.Potential

/-!
# `EventLoopThread`

The thread that owns the object calls `startLoop()` and later destroys it, `threadFunc` builds the
loop, publishes it under the mutex and runs it. A wait on the condition gives the mutex up and may
end without a notification. The loop lives on the stack of `threadFunc`, so it is gone when
`loop()` has returned, and whoever uses it then uses a deleted object.
-/
namespace MuduoNet

open Lib Lib.Outcome

/-- Where the owner is. -/
inductive OwnerPc
  | constructed
  /-- The thread is started, the mutex not yet taken. -/
  | locking
  /-- At `while (loop_ == NULL)`. -/
  | checking
  /-- Blocked in `cond_.wait()`. -/
  | waiting
  /-- `cond_.wait()` takes the mutex again. -/
  | woken
  | unlocking
  /-- `startLoop()` has returned. -/
  | running
  /-- In the destructor, before `quit_ = true`. -/
  | quitting
  /-- In `quit()`, behind that store. -/
  | waking
  | joining
  | destroyed
  deriving DecidableEq, Repr

/-- `startLoop()` has given the loop away. -/
def OwnerPc.Given : OwnerPc → Prop
  | .running | .quitting | .waking | .joining => True
  | _ => False

/-- Where `threadFunc` is. -/
inductive RunnerPc
  | notStarted
  /-- Before `EventLoop loop`. -/
  | building
  | locking
  | assigning
  | notifying
  | unlocking
  | looping
  /-- It has returned. -/
  | ended
  deriving DecidableEq, Repr

inductive Party
  | owner
  | runner
  deriving DecidableEq, Repr

structure EventLoopThread where
  /-- `loop_ != NULL`. -/
  loop_ : Bool
  exiting_ : Bool
  /-- Who holds the mutex. -/
  mutex_ : Option Party
  deriving DecidableEq, Repr

/-- The object, both threads, and the loop with all that call it. -/
structure ThreadSystem (F : Type) where
  object : EventLoopThread
  owner : OwnerPc
  runner : RunnerPc
  loop : LoopSystem F

namespace ThreadSystem

variable {F : Type}

/-- `tid` is the thread that will run `threadFunc`. -/
def start (tid : ThreadId) : ThreadSystem F where
  object := ⟨false, false, none⟩
  owner := .constructed
  runner := .notStarted
  loop := .start tid

inductive Label (F : Type)
  | startLoop
  | lock (p : Party)
  /-- `loop_ == NULL`, and `cond_.wait()` if it is. -/
  | check
  /-- `cond_.wait()` ends without a notification. -/
  | wake
  | unlock (p : Party)
  /-- `EventLoop loop`. -/
  | construct
  /-- `loop_ = &loop`. -/
  | assign
  | notify
  /-- A step of the loop, or of a thread that calls it. -/
  | loop (l : LoopSystem.Label F)
  /-- `threadFunc` returns. -/
  | leave
  /-- `~EventLoopThread` begins. -/
  | destroy
  /-- `loop_->quit()` up to the store. -/
  | quit
  /-- The rest of `loop_->quit()`. -/
  | wakeup
  | join
  deriving DecidableEq, Repr

/-- The steps of the loop: its own while `threadFunc` is in it, and those of the threads that have
the loop. In its destructor the owner makes no other calls. -/
def Offers (self : ThreadId) (s : ThreadSystem F) (l : LoopSystem.Label F) : Prop :=
  LoopSystem.threadFunc.enabled s.loop l ∧ l ≠ .publish ∧
    match l.caller with
    | none => s.runner = .looping
    | some tid => s.owner.Given ∧ (tid = s.loop.loop.threadId_ → s.runner = .looping) ∧
      (tid = self → s.owner = .running)

def Enabled (self : ThreadId) (s : ThreadSystem F) : Label F → Prop
  | .startLoop => s.owner = .constructed ∨ s.owner = .running
  | .lock .owner => (s.owner = .locking ∨ s.owner = .woken) ∧ s.object.mutex_ = none
  | .lock .runner => s.runner = .locking ∧ s.object.mutex_ = none
  | .check => s.owner = .checking
  | .wake => s.owner = .waiting
  | .unlock .owner => s.owner = .unlocking
  | .unlock .runner => s.runner = .unlocking
  | .construct => s.runner = .building
  | .assign => s.runner = .assigning
  | .notify => s.runner = .notifying
  | .loop l => Offers self s l
  | .leave => s.runner = .looping ∧ s.loop.At .returned
  | .destroy => (s.owner = .constructed ∨ s.owner = .running) ∧ s.loop.calls self = .none
  | .quit => s.owner = .quitting
  | .wakeup => s.owner = .waking
  | .join => s.owner = .joining ∧ s.runner = .ended

/-- The loop behind the pointer. -/
def deref (s : ThreadSystem F) : Except Fault (LoopSystem F) := do
  demand .nullPointer (s.object.loop_ = true)
  demand .deletedObject (s.runner ≠ .ended)
  return s.loop

def step (self : ThreadId) (s : ThreadSystem F) : Label F → Except Fault (ThreadSystem F)
  | .startLoop => do
    assert (s.runner = .notStarted)
    return { s with owner := .locking, runner := .building }
  | .lock .owner =>
    .ok { s with object := { s.object with mutex_ := some .owner }, owner := .checking }
  | .lock .runner =>
    .ok { s with object := { s.object with mutex_ := some .runner }, runner := .assigning }
  | .check => .ok (if s.object.loop_ then { s with owner := .unlocking }
    else { s with object := { s.object with mutex_ := none }, owner := .waiting })
  | .wake => .ok { s with owner := .woken }
  | .unlock .owner => .ok { s with object := { s.object with mutex_ := none }, owner := .running }
  | .unlock .runner => .ok { s with object := { s.object with mutex_ := none }, runner := .looping }
  | .construct => .ok { s with runner := .locking }
  | .assign => do
    let loop ← LoopSystem.machine.step s.loop .publish
    return { s with object := { s.object with loop_ := true }, runner := .notifying, loop }
  | .notify =>
    .ok { s with owner := if s.owner = .waiting then .woken else s.owner, runner := .unlocking }
  | .loop l => do
    let loop ← s.deref
    let loop ← LoopSystem.threadFunc.step loop l
    return { s with loop }
  | .leave => do
    assert (s.loop.loop.looping_ = false)
    return { s with runner := .ended }
  | .destroy => .ok { s with object := { s.object with exiting_ := true }, owner := .quitting }
  | .quit => do
    let loop ← s.deref
    return { s with owner := .waking, loop := loop.quit self }
  | .wakeup => do
    let loop ← s.deref
    return { s with owner := .joining, loop := loop.callReturns self }
  | .join => .ok { s with owner := .destroyed }

def machine (self : ThreadId) : Machine (ThreadSystem F) (Label F) Fault where
  enabled := Enabled self
  step := step self

variable {self tid : ThreadId} {s t : ThreadSystem F} {l : Label F}

theorem deref_eq {loop : LoopSystem F} (h : s.deref = .ok loop) :
    s.object.loop_ = true ∧ s.runner ≠ .ended ∧ loop = s.loop := by
  obtain ⟨hloop, h⟩ := demand_bind_eq_ok h
  obtain ⟨hrunner, h⟩ := demand_bind_eq_ok h
  obtain rfl := Except.ok.inj h
  exact ⟨hloop, hrunner, rfl⟩

/-- The handshake: who holds the mutex, what is published, and that the owner waits only as long as
there is a notification to come. -/
structure Inv (s : ThreadSystem F) : Prop where
  owner : s.object.mutex_ = some .owner ↔ s.owner = .checking ∨ s.owner = .unlocking
  runner : s.object.mutex_ = some .runner ↔
    s.runner = .assigning ∨ s.runner = .notifying ∨ s.runner = .unlocking
  published : s.object.loop_ = true ↔
    s.runner = .notifying ∨ s.runner = .unlocking ∨ s.runner = .looping ∨ s.runner = .ended
  built : s.loop.pc = .built ↔ s.object.loop_ = false
  awaited : s.owner = .waiting → s.object.loop_ = false ∨ s.runner = .notifying
  found : s.owner = .unlocking ∨ s.owner = .running ∨ s.owner = .waking ∨ s.owner = .joining ∨
    s.owner = .destroyed → s.object.loop_ = true
  started : s.runner = .notStarted ↔
    s.owner = .constructed ∨ s.owner = .quitting ∧ s.object.loop_ = false

theorem inv_start : (start tid : ThreadSystem F).Inv := by
  constructor <;> simp [start, LoopSystem.start]

/-- Once published the loop stays so. -/
theorem built_step {loop loop' : LoopSystem F} {l : LoopSystem.Label F} (hl : l ≠ .publish)
    (he : LoopSystem.threadFunc.enabled loop l) (hs : LoopSystem.threadFunc.step loop l = .ok loop') :
    loop'.pc = .built ↔ loop.pc = .built := by
  cases hcaller : l.caller with
  | some tid => rw [(LoopSystem.pc_of_caller hcaller hs).1]
  | none =>
    obtain ⟨_, _, pc, _, hm, rfl⟩ := LoopSystem.step_moved hcaller he.1 hs
    have hpc : loop.pc ≠ .built := by
      intro hpc
      obtain ⟨he, _⟩ := he
      cases l <;> simp_all [LoopSystem.machine, LoopSystem.Enabled, LoopSystem.At,
        LoopSystem.Label.caller]
    have hpc' : pc ≠ .built := by
      generalize loop.pc = before at hm
      intro hbuilt
      subst hbuilt
      cases hm
    exact iff_of_false hpc' hpc

theorem inv_step (h : s.Inv) (he : (machine self).enabled s l) (hs : (machine self).step s l = .ok t) :
    t.Inv := by
  obtain ⟨howner, hrunner, hpublished, hbuilt, hawaited, hfound, hstarted⟩ := h
  cases l with
  | startLoop =>
    obtain ⟨hnot, hs⟩ := demand_bind_eq_ok hs
    obtain rfl := Except.ok.inj hs
    change s.owner = _ ∨ s.owner = _ at he
    constructor <;> simp_all
  | lock p =>
    cases p with
    | owner =>
      obtain rfl := Except.ok.inj hs
      obtain ⟨hpc, hfree⟩ := he
      constructor <;> grind
    | runner =>
      obtain rfl := Except.ok.inj hs
      obtain ⟨hpc, hfree⟩ := he
      constructor <;> grind
  | check =>
    obtain rfl := Except.ok.inj hs
    change s.owner = _ at he
    dsimp only
    split <;> constructor <;> grind
  | wake =>
    obtain rfl := Except.ok.inj hs
    change s.owner = _ at he
    constructor <;> grind
  | unlock p =>
    cases p with
    | owner =>
      obtain rfl := Except.ok.inj hs
      change s.owner = _ at he
      constructor <;> grind
    | runner =>
      obtain rfl := Except.ok.inj hs
      change s.runner = _ at he
      constructor <;> grind
  | construct =>
    obtain rfl := Except.ok.inj hs
    change s.runner = _ at he
    constructor <;> grind
  | assign =>
    obtain ⟨loop, hloop, hs⟩ := bind_eq_ok hs
    obtain rfl := Except.ok.inj hloop
    obtain rfl := Except.ok.inj hs
    change s.runner = _ at he
    constructor <;> grind
  | notify =>
    obtain rfl := Except.ok.inj hs
    change s.runner = _ at he
    constructor <;> grind
  | loop l =>
    obtain ⟨loop, hderef, hs⟩ := bind_eq_ok hs
    obtain ⟨hloop, hrunner, rfl⟩ := deref_eq hderef
    obtain ⟨loop, hstep, hs⟩ := bind_eq_ok hs
    obtain rfl := Except.ok.inj hs
    obtain ⟨he, hl, _⟩ := he
    have hpc := built_step hl he hstep
    constructor <;> grind
  | leave =>
    obtain ⟨_, hs⟩ := demand_bind_eq_ok hs
    obtain rfl := Except.ok.inj hs
    obtain ⟨hpc, _⟩ := he
    constructor <;> grind
  | destroy =>
    obtain rfl := Except.ok.inj hs
    obtain ⟨hpc, _⟩ := he
    constructor <;> grind
  | quit =>
    obtain ⟨loop, hderef, hs⟩ := bind_eq_ok hs
    obtain ⟨hloop, hrunner, rfl⟩ := deref_eq hderef
    obtain rfl := Except.ok.inj hs
    change s.owner = _ at he
    have hpc : (s.loop.quit self).pc = s.loop.pc := rfl
    constructor <;> grind
  | wakeup =>
    obtain ⟨loop, hderef, hs⟩ := bind_eq_ok hs
    obtain ⟨hloop, hrunner, rfl⟩ := deref_eq hderef
    obtain rfl := Except.ok.inj hs
    change s.owner = _ at he
    have hpc : (s.loop.callReturns self).pc = s.loop.pc := by
      obtain ⟨n, _, heq⟩ := s.loop.callReturns_frame self
      rw [heq]
      rfl
    constructor <;> grind
  | join =>
    obtain rfl := Except.ok.inj hs
    obtain ⟨hpc, _⟩ := he
    constructor <;> grind

theorem inv (h : Reachable (machine self) (start tid) s) : s.Inv :=
  h.invariant (fun _ _ _ hi he hs => inv_step hi he hs) inv_start

end ThreadSystem

/-- In `startLoop()`. -/
def OwnerPc.Starting : OwnerPc → Prop
  | .locking | .checking | .waiting | .woken | .unlocking => True
  | _ => False

/-- The steps of the handshake that are left to the owner. -/
def OwnerPc.work : OwnerPc → Nat
  | .locking | .woken => 3
  | .checking => 2
  | .unlocking => 1
  | _ => 0

/-- Those left to `threadFunc`, and the three that its notification may cost the owner. -/
def RunnerPc.work : RunnerPc → Nat
  | .building => 8
  | .locking => 7
  | .assigning => 6
  | .notifying => 5
  | .unlocking => 1
  | _ => 0

namespace ThreadSystem

variable {F : Type} {self tid : ThreadId} {s t u : ThreadSystem F} {l : Label F}

/-- A step of `startLoop()`, or of `threadFunc` before the loop. -/
def Label.handshake : Label F → Bool
  | .lock _ | .check | .unlock _ | .construct | .assign | .notify => true
  | _ => false

def Label.spurious : Label F → Bool
  | .wake => true
  | _ => false

def work (s : ThreadSystem F) : Nat := s.owner.work + s.runner.work

theorem work_step (hstarted : s.runner ≠ .notStarted) (he : (machine self).enabled s l)
    (hs : (machine self).step s l = .ok t) :
    l.handshake.toNat + t.work ≤ s.work + 3 * l.spurious.toNat := by
  cases l with
  | startLoop =>
    obtain ⟨hnot, hs⟩ := demand_bind_eq_ok hs
    exact absurd hnot hstarted
  | lock p =>
    cases p with
    | owner =>
      obtain rfl := Except.ok.inj hs
      obtain ⟨hpc | hpc, _⟩ := he
      · simp [work, hpc, OwnerPc.work, Label.handshake]
        omega
      · simp [work, hpc, OwnerPc.work, Label.handshake]
        omega
    | runner =>
      obtain rfl := Except.ok.inj hs
      obtain ⟨hpc, _⟩ := he
      simp [work, hpc, RunnerPc.work, Label.handshake]
      omega
  | check =>
    obtain rfl := Except.ok.inj hs
    change s.owner = _ at he
    dsimp only [work]
    split
    · simp [he, OwnerPc.work, Label.handshake]
      omega
    · simp [he, OwnerPc.work, Label.handshake]
      omega
  | wake =>
    obtain rfl := Except.ok.inj hs
    change s.owner = _ at he
    simp [work, he, OwnerPc.work, Label.handshake, Label.spurious]
    omega
  | unlock p =>
    cases p with
    | owner =>
      obtain rfl := Except.ok.inj hs
      change s.owner = _ at he
      simp [work, he, OwnerPc.work, Label.handshake]
    | runner =>
      obtain rfl := Except.ok.inj hs
      change s.runner = _ at he
      simp [work, he, RunnerPc.work, Label.handshake]
      omega
  | construct =>
    obtain rfl := Except.ok.inj hs
    change s.runner = _ at he
    simp [work, he, RunnerPc.work, Label.handshake]
    omega
  | assign =>
    obtain ⟨loop, _, hs⟩ := bind_eq_ok hs
    obtain rfl := Except.ok.inj hs
    change s.runner = _ at he
    simp [work, he, RunnerPc.work, Label.handshake]
    omega
  | notify =>
    obtain rfl := Except.ok.inj hs
    change s.runner = _ at he
    dsimp only [work]
    split
    · rename_i hwaiting
      simp [he, hwaiting, OwnerPc.work, RunnerPc.work, Label.handshake]
    · simp [he, RunnerPc.work, Label.handshake]
      omega
  | loop l =>
    obtain ⟨loop, hderef, hs⟩ := bind_eq_ok hs
    obtain ⟨_, _, rfl⟩ := deref_eq hderef
    obtain ⟨loop, _, hs⟩ := bind_eq_ok hs
    obtain rfl := Except.ok.inj hs
    exact Nat.le_of_eq (Nat.zero_add _)
  | leave =>
    obtain ⟨_, hs⟩ := demand_bind_eq_ok hs
    obtain rfl := Except.ok.inj hs
    simp [work, RunnerPc.work, Label.handshake]
    omega
  | destroy =>
    obtain rfl := Except.ok.inj hs
    simp [work, OwnerPc.work, Label.handshake]
    omega
  | quit =>
    obtain ⟨loop, _, hs⟩ := bind_eq_ok hs
    obtain rfl := Except.ok.inj hs
    simp [work, OwnerPc.work, Label.handshake]
    omega
  | wakeup =>
    obtain ⟨loop, _, hs⟩ := bind_eq_ok hs
    obtain rfl := Except.ok.inj hs
    simp [work, OwnerPc.work, Label.handshake]
    omega
  | join =>
    obtain rfl := Except.ok.inj hs
    simp [work, OwnerPc.work, Label.handshake]
    omega

/-- Nobody waits for what does not come: as long as `startLoop()` has not returned, it or `threadFunc`
can go on. -/
theorem handshake_goes_on (h : s.Inv) (hin : s.owner.Starting) :
    ∃ l t, l.handshake = true ∧ (machine self).enabled s l ∧ (machine self).step s l = .ok t := by
  cases hmutex : s.object.mutex_ with
  | some p =>
    cases p with
    | owner =>
      rcases h.owner.mp hmutex with hpc | hpc
      · exact ⟨.check, _, rfl, hpc, rfl⟩
      · exact ⟨.unlock .owner, _, rfl, hpc, rfl⟩
    | runner =>
      rcases h.runner.mp hmutex with hpc | hpc | hpc
      · exact ⟨.assign, _, rfl, hpc, rfl⟩
      · exact ⟨.notify, _, rfl, hpc, rfl⟩
      · exact ⟨.unlock .runner, _, rfl, hpc, rfl⟩
  | none =>
    cases hpc : s.owner with
    | locking => exact ⟨.lock .owner, _, rfl, ⟨.inl hpc, hmutex⟩, rfl⟩
    | woken => exact ⟨.lock .owner, _, rfl, ⟨.inr hpc, hmutex⟩, rfl⟩
    | waiting =>
      -- the mutex is free, so `threadFunc` is before its own critical section
      have hfree := h.runner
      have hnot := h.started
      have hloop := h.published
      cases hrunner : s.runner with
      | building => exact ⟨.construct, _, rfl, hrunner, rfl⟩
      | locking => exact ⟨.lock .runner, _, rfl, ⟨hrunner, hmutex⟩, rfl⟩
      | _ => rcases h.awaited hpc with hunset | hnotifying <;> simp_all
    | checking => simp_all [h.owner.mpr (.inl hpc)]
    | unlocking => simp_all [h.owner.mpr (.inr hpc)]
    | _ => simp_all [OwnerPc.Starting]

/-- The thread that runs `threadFunc` is started once. -/
theorem started_step (h : s.Inv ∧ s.runner ≠ .notStarted) (he : (machine self).enabled s l)
    (hs : (machine self).step s l = .ok t) : t.Inv ∧ t.runner ≠ .notStarted := by
  refine ⟨inv_step h.1 he hs, ?_⟩
  cases l with
  | startLoop =>
    obtain ⟨hnot, _⟩ := demand_bind_eq_ok hs
    exact absurd hnot h.2
  | lock p | unlock p =>
    cases p with
    | owner =>
      obtain rfl := Except.ok.inj hs
      exact h.2
    | runner =>
      obtain rfl := Except.ok.inj hs
      simp
  | check =>
    obtain rfl := Except.ok.inj hs
    dsimp only
    split <;> exact h.2
  | wake | destroy | join =>
    obtain rfl := Except.ok.inj hs
    exact h.2
  | construct | notify =>
    obtain rfl := Except.ok.inj hs
    simp
  | assign =>
    obtain ⟨_, _, hs⟩ := bind_eq_ok hs
    obtain rfl := Except.ok.inj hs
    simp
  | loop l =>
    obtain ⟨_, _, hs⟩ := bind_eq_ok hs
    obtain ⟨_, _, hs⟩ := bind_eq_ok hs
    obtain rfl := Except.ok.inj hs
    exact h.2
  | leave =>
    obtain ⟨_, hs⟩ := demand_bind_eq_ok hs
    obtain rfl := Except.ok.inj hs
    simp
  | quit | wakeup =>
    obtain ⟨_, _, hs⟩ := bind_eq_ok hs
    obtain rfl := Except.ok.inj hs
    exact h.2

theorem Inv.given (h : s.Inv) (hstarted : s.runner ≠ .notStarted) (hout : ¬ s.owner.Starting) :
    s.object.loop_ = true := by
  have hnot := h.started
  have hfound := h.found
  cases hpc : s.owner with
  | constructed => exact absurd (hnot.mpr (.inl hpc)) hstarted
  | quitting =>
    by_contra hloop
    exact hstarted (hnot.mpr (.inr ⟨hpc, Bool.eq_false_iff.mpr hloop⟩))
  | running | waking | joining | destroyed => simp_all
  | _ =>
    rw [hpc] at hout
    exact absurd trivial hout

/-- `startLoop()` gives the published loop: whatever the order of the two threads, there is always a
next step until it returns, and it is at most the eleventh but for the wakeups that nobody sent. -/
theorem startLoop_returns (h : Reachable (machine self) (start tid) s)
    (he : (machine self).enabled s .startLoop) (hs : (machine self).step s .startLoop = .ok t)
    {ls : List (Label F)} (hr : Run (machine self) t ls u) :
    ls.countP Label.handshake ≤ 11 + 3 * ls.countP Label.spurious ∧
    (u.owner.Starting →
      ∃ l v, l.handshake = true ∧ (machine self).enabled u l ∧ (machine self).step u l = .ok v) ∧
    (¬ u.owner.Starting → u.object.loop_ = true ∧ u.loop.pc ≠ .built) := by
  have hi := inv_step (inv h) he hs
  obtain ⟨_, hs⟩ := demand_bind_eq_ok hs
  obtain rfl := Except.ok.inj hs
  have hkeep : ∀ s l t, s.Inv ∧ s.runner ≠ .notStarted → (machine (F := F) self).enabled s l →
      (machine self).step s l = .ok t → t.Inv ∧ t.runner ≠ .notStarted :=
    fun _ _ _ hi he hs => started_step hi he hs
  have hcounts := hr.counts hkeep (fun _ _ _ hi he hs => work_step hi.2 he hs) ⟨hi, by simp⟩
  rw [sum_map_toNat] at hcounts
  obtain ⟨hu, hstarted⟩ := hr.invariant hkeep ⟨hi, by simp⟩
  refine ⟨Nat.le_trans (Nat.le_add_right _ _) hcounts, handshake_goes_on hu, ?_⟩
  intro hout
  have hloop := hu.given hstarted hout
  refine ⟨hloop, ?_⟩
  intro hbuilt
  exact Bool.false_ne_true ((hu.built.mp hbuilt).symm.trans hloop)

instance (pc : OwnerPc) : Decidable pc.Starting :=
  match pc with
  | .locking | .checking | .waiting | .woken | .unlocking => .isTrue trivial
  | .constructed | .running | .quitting | .waking | .joining | .destroyed => .isFalse id

instance (pc : OwnerPc) : Decidable pc.Given :=
  match pc with
  | .running | .quitting | .waking | .joining => .isTrue trivial
  | .constructed | .locking | .checking | .waiting | .woken | .unlocking | .destroyed => .isFalse id

instance [DecidableEq F] (s : ThreadSystem F) (l : LoopSystem.Label F) :
    Decidable (Offers self s l) :=
  match hl : l.caller with
  | none => decidable_of_iff (LoopSystem.threadFunc.enabled s.loop l ∧ l ≠ .publish ∧
      s.runner = .looping) (by rw [Offers, hl])
  | some tid => decidable_of_iff (LoopSystem.threadFunc.enabled s.loop l ∧ l ≠ .publish ∧
      s.owner.Given ∧ (tid = s.loop.loop.threadId_ → s.runner = .looping) ∧
      (tid = self → s.owner = .running)) (by rw [Offers, hl])

instance [DecidableEq F] (s : ThreadSystem F) (l : Label F) : Decidable ((machine self).enabled s l) :=
  match l with
  | .startLoop => inferInstanceAs (Decidable (s.owner = .constructed ∨ s.owner = .running))
  | .lock .owner => inferInstanceAs
      (Decidable ((s.owner = .locking ∨ s.owner = .woken) ∧ s.object.mutex_ = none))
  | .lock .runner => inferInstanceAs (Decidable (s.runner = .locking ∧ s.object.mutex_ = none))
  | .check => inferInstanceAs (Decidable (s.owner = .checking))
  | .wake => inferInstanceAs (Decidable (s.owner = .waiting))
  | .unlock .owner => inferInstanceAs (Decidable (s.owner = .unlocking))
  | .unlock .runner => inferInstanceAs (Decidable (s.runner = .unlocking))
  | .construct => inferInstanceAs (Decidable (s.runner = .building))
  | .assign => inferInstanceAs (Decidable (s.runner = .assigning))
  | .notify => inferInstanceAs (Decidable (s.runner = .notifying))
  | .loop l => inferInstanceAs (Decidable (Offers self s l))
  | .leave => inferInstanceAs (Decidable (s.runner = .looping ∧ s.loop.At .returned))
  | .destroy => inferInstanceAs (Decidable ((s.owner = .constructed ∨ s.owner = .running) ∧
      s.loop.calls self = .none))
  | .quit => inferInstanceAs (Decidable (s.owner = .quitting))
  | .wakeup => inferInstanceAs (Decidable (s.owner = .waking))
  | .join => inferInstanceAs (Decidable (s.owner = .joining ∧ s.runner = .ended))

/-- The owner looks for the loop before it is there, and once more for no reason. -/
def handshakeRun : List (Label ℕ) :=
  [.construct, .lock .owner, .check, .wake, .lock .owner, .check, .lock .runner, .assign, .notify,
    .unlock .runner, .lock .owner, .check, .unlock .owner]

theorem startLoop_returns_run : ∃ u : ThreadSystem ℕ,
    Run (machine 2) (start 1) (.startLoop :: handshakeRun) u ∧ u.object.loop_ = true ∧
      u.loop.pc ≠ .built := by
  obtain ⟨u, hr, hout⟩ : ∃ u : ThreadSystem ℕ,
      Run (machine 2) (start 1) (.startLoop :: handshakeRun) u ∧ ¬ u.owner.Starting :=
    exists_run_of_exec _ (by decide +kernel)
  have hr' := hr
  cases hr' with
  | cons he hs hrest => exact ⟨u, hr, (startLoop_returns .refl he hs hrest).2.2 hout⟩

end ThreadSystem

end MuduoNet
