import MuduoNet.Net.Keeping

/-!
# Functors that outlive their connection

As long as `connectDestroyed` has not run, the owner or a functor has a pointer, and the vector
with `connectDestroyed` has one until it is destroyed. After that only the user's pointers keep
the connection for a `sendInLoop` or a `shutdownInLoop` that still waits.
-/
namespace MuduoNet

open Lib Lib.Outcome Function

namespace Net

section

variable {s t u : Net} {c : ConnPtr} {i j : ThreadId} {k : Nat} {cb : NetFunctor}

/-- In between no functor has been queued that is bound to a bare `this`, and no call has begun
or ended. -/
structure NoneQueued (s t : Net) : Prop where
  functors : ∀ j cb, cb.bare ≠ none → cb ∈ t.functors j → cb ∈ s.functors j
  call : t.call = s.call

theorem NoneQueued.of_eq (hphase : t.phase = s.phase)
    (hpending : t.pendingFunctors_ = s.pendingFunctors_) (hcall : t.call = s.call) : NoneQueued s t where
  functors j cb _ hmem := by simpa [Net.functors, hphase, hpending] using hmem
  call := hcall

theorem NoneQueued.trans (h : NoneQueued s t) (g : NoneQueued t u) : NoneQueued s u where
  functors j cb hcb hmem := h.functors j cb hcb (g.functors j cb hcb hmem)
  call := g.call.trans h.call

theorem noneQueued_queueInLoop (s : Net) (j : ThreadId) {cb : NetFunctor} (hcb : cb.bare = none) :
    NoneQueued s (s.queueInLoop j cb) := by
  refine ⟨?_, rfl⟩
  intro i x hx hmem
  rw [functors_queueInLoop] at hmem
  rcases List.mem_append.mp hmem with hold | hnew
  · exact hold
  · split at hnew
    · obtain rfl := List.mem_singleton.mp hnew
      exact absurd hcb hx
    · cases hnew

theorem noneQueued_setPhase (s : Net) (i : ThreadId) {phase : Phase}
    (hbatch : phase.batch.Sublist (s.phase i).batch) : NoneQueued s (s.setPhase i phase) := by
  refine ⟨?_, rfl⟩
  intro j x _ hmem
  unfold functors setPhase at hmem
  unfold functors
  by_cases hj : j = i
  · subst hj
    dsimp only at hmem
    rw [update_self] at hmem
    exact (hbatch.append (List.Sublist.refl _)).subset hmem
  · simpa [hj] using hmem

theorem noneQueued_keeping : Keeping NoneQueued where
  trans := .trans
  refl _ := .of_eq rfl rfl rfl
  record _ _ _ _ := .of_eq rfl rfl rfl
  setPoller _ _ _ := .of_eq rfl rfl rfl
  setTcp _ _ _ := .of_eq rfl rfl rfl
  queueInLoop s j _ hcb := noneQueued_queueInLoop s j hcb
  erase _ _ _ := .of_eq rfl rfl rfl
  reset _ _ _ := .of_eq rfl rfl rfl

theorem runInLoop_queues {w : WriteResult} (h : s.runInLoop i j w cb = .ok t) :
    (∀ x, x.bare ≠ none → ∀ l, x ∈ t.functors l → x ∈ s.functors l ∨ x = cb) ∧ t.call = s.call := by
  unfold runInLoop at h
  split at h
  · have hq := noneQueued_keeping.runFunctor h
    exact ⟨fun x hx l hmem => .inl (hq.functors l x hx hmem), hq.call⟩
  · obtain rfl := Except.ok.inj h
    refine ⟨?_, rfl⟩
    intro x _ l hmem
    rw [functors_queueInLoop] at hmem
    rcases List.mem_append.mp hmem with hold | hnew
    · exact .inl hold
    · right
      split at hnew
      · exact List.mem_singleton.mp hnew
      · cases hnew

theorem accept_queues {sockfd : Int} (h : s.serverNewConnection i k sockfd = .ok t) :
    NoneQueued s t := by
  obtain ⟨_, _, h⟩ := bind_eq_ok h
  obtain ⟨_, _, h⟩ := bind_eq_ok h
  obtain ⟨⟨ioLoop, threadPool⟩, _, h⟩ := bind_eq_ok h
  obtain ⟨hfunctors, hcall⟩ := runInLoop_queues h
  refine ⟨?_, hcall⟩
  intro j x hx hmem
  rcases hfunctors x hx j hmem with hold | rfl
  · exact hold
  · exact absurd rfl hx

theorem connected_queues {sockfd : Int} (h : s.clientNewConnection i k sockfd = .ok t) :
    NoneQueued s t := by
  obtain ⟨_, _, h⟩ := bind_eq_ok h
  have hnew : ∀ conn client, NoneQueued s ((s.create i conn).setClient k client) :=
    fun _ _ => .of_eq rfl rfl rfl
  exact (hnew _ _).trans (noneQueued_keeping.perform (f := (·.connectEstablished)) h)

theorem moveConnector_queues {move : ConnectorMove} (h : s.moveConnector k move = .ok t) :
    NoneQueued s t := by
  unfold moveConnector at h
  cases move with
  | startInLoop connecting =>
    obtain ⟨_, _, h⟩ := bind_eq_ok h
    obtain rfl := Except.ok.inj h
    exact .of_eq rfl rfl rfl
  | retry | drop =>
    obtain rfl := Except.ok.inj h
    exact .of_eq rfl rfl rfl

/-- What the step leaves of the calls of `send` and `shutdown`, and of the functors that wait for
them. Only the end of a call queues one. -/
structure Advances (s t : Net) (l : NetLabel) : Prop where
  functors : ∀ j cb c, cb.bare = some c → cb ∈ t.functors j →
    cb ∈ s.functors j ∨ ∃ i w, l = .runInLoop i w ∧ (s.call i).conn = some c
  call : ∀ i c, (t.call i).conn = some c → (s.call i).conn = some c ∨ l.through = some (i, c)

theorem NoneQueued.advances {l : NetLabel} (h : NoneQueued s t) : Advances s t l where
  functors j cb c hcb hmem := .inl (h.functors j cb (by simp [hcb]) hmem)
  call i c hc := .inl (by rwa [h.call] at hc)

/-- A thread enters a call, or another stage of it. -/
theorem advances_setCall {l : NetLabel} {call : NetCall}
    (hcall : ∀ c, call.conn = some c → (s.call i).conn = some c ∨ l.through = some (i, c)) :
    Advances s (s.setCall i call) l where
  functors j cb c _ hmem := .inl hmem
  call j c hc := by
    unfold setCall at hc
    by_cases hj : j = i
    · subst hj
      exact hcall c (by simpa using hc)
    · exact .inl (by simpa [hj] using hc)

/-- A thread ends its call. -/
theorem runInLoop_advances {w : WriteResult} (hcb : cb.bare = (s.call i).conn)
    (h : (s.setCall i .none).runInLoop i j w cb = .ok t) : Advances s t (.runInLoop i w) := by
  obtain ⟨hfunctors, hcall⟩ := runInLoop_queues h
  constructor
  · intro l x c hx hmem
    refine (hfunctors x (by simp [hx]) l hmem).imp_right ?_
    rintro rfl
    exact ⟨i, w, rfl, hcb ▸ hx⟩
  · intro l c hc
    rw [hcall] at hc
    unfold setCall at hc
    by_cases hl : l = i
    · subst hl
      simp [NetCall.conn] at hc
    · exact .inl (by simpa [hl] using hc)

theorem step_advances {fd : ChannelPtr → Int} {l : NetLabel} (h : step fd s l = .ok t) :
    Advances s t l := by
  have hidle : ∀ i phase, phase.batch = [] → NoneQueued s (s.setPhase i phase) := by
    intro i phase hphase
    refine noneQueued_setPhase s i ?_
    rw [hphase]
    exact List.nil_sublist _
  have hsame : NoneQueued s s := .of_eq rfl rfl rfl
  cases l with
  | loop i | again i | quit i =>
    obtain rfl := Except.ok.inj h
    exact (hidle i _ rfl).advances
  | swap i =>
    obtain rfl := Except.ok.inj h
    refine NoneQueued.advances ⟨?_, rfl⟩
    intro j cb _ hmem
    unfold functors setPhase at hmem
    unfold functors
    by_cases hj : j = i
    · subst hj
      simp [Phase.batch] at hmem
      exact List.mem_append_right _ hmem
    · simpa [hj] using hmem
  | poll i numEvents revents =>
    obtain ⟨⟨p, active⟩, _, h⟩ := bind_eq_ok h
    obtain rfl := Except.ok.inj h
    refine NoneQueued.advances (NoneQueued.trans (t := s.setPoller i p) ?_
      (noneQueued_setPhase _ i ?_))
    · exact .of_eq rfl rfl rfl
    · exact List.nil_sublist _
  | handle i r w =>
    dsimp only [step] at h
    split at h
    · exact ((hidle i _ rfl).trans (noneQueued_keeping.handle h)).advances
    · obtain rfl := Except.ok.inj h
      exact hsame.advances
  | functor i w =>
    dsimp only [step] at h
    split at h
    · rename_i x batch hphase
      have hpop : NoneQueued s (s.setPhase i (.functors batch)) := by
        refine noneQueued_setPhase s i ?_
        rw [hphase]
        exact List.sublist_cons_self x batch
      exact (hpop.trans (noneQueued_keeping.runFunctor h)).advances
    · obtain rfl := Except.ok.inj h
      exact hsame.advances
  | queueInLoop i l =>
    obtain rfl := Except.ok.inj h
    exact (noneQueued_queueInLoop s l rfl).advances
  | send i d message =>
    obtain rfl := Except.ok.inj h
    unfold send
    split
    · refine advances_setCall fun c hc => .inr ?_
      obtain rfl := Option.some.inj hc
      rfl
    · exact hsame.advances
  | shutdown i d =>
    obtain rfl := Except.ok.inj h
    unfold shutdown
    split
    · refine advances_setCall fun c hc => .inr ?_
      obtain rfl := Option.some.inj hc
      rfl
    · exact hsame.advances
  | setDisconnecting i =>
    obtain rfl := Except.ok.inj h
    unfold setDisconnecting
    split
    · rename_i d hcall
      have hset : Advances s (s.setCall i (.disconnecting d)) (.setDisconnecting i) :=
        advances_setCall fun c hc => .inl (by rw [hcall]; exact hc)
      exact ⟨hset.functors, hset.call⟩
    · exact hsame.advances
  | runInLoop i w =>
    dsimp only [step] at h
    split at h
    · rename_i d message hcall
      exact runInLoop_advances (by rw [hcall]; rfl) h
    · rename_i d hcall
      exact runInLoop_advances (by rw [hcall]; rfl) h
    · obtain rfl := Except.ok.inj h
      exact hsame.advances
  | accept k => exact (accept_queues h).advances
  | connected k => exact (connected_queues h).advances
  | connector k move => exact (moveConnector_queues h).advances
  | enableRetry k | setConnect k connect =>
    obtain rfl := Except.ok.inj h
    refine NoneQueued.advances ?_
    exact .of_eq rfl rfl rfl
  | register i events =>
    obtain ⟨u, hu, h⟩ := bind_eq_ok h
    obtain ⟨p, _, hu⟩ := bind_eq_ok hu
    obtain rfl := Except.ok.inj hu
    obtain rfl := Except.ok.inj h
    refine NoneQueued.advances ?_
    exact .of_eq rfl rfl rfl
  | change i d events =>
    obtain ⟨p, _, h⟩ := bind_eq_ok h
    obtain rfl := Except.ok.inj h
    refine NoneQueued.advances ?_
    exact .of_eq rfl rfl rfl
  | unregister i d =>
    obtain ⟨u, hu, h⟩ := bind_eq_ok h
    obtain ⟨p, _, hu⟩ := bind_eq_ok hu
    obtain rfl := Except.ok.inj hu
    obtain rfl := Except.ok.inj h
    refine NoneQueued.advances (NoneQueued.trans (t := (s.setPoller i p).setOther d none) ?_
      (noneQueued_setPhase _ i ?_))
    · exact .of_eq rfl rfl rfl
    show ((s.phase i).without d).batch.Sublist (s.phase i).batch
    cases s.phase i <;> exact List.Sublist.refl _

end

end Net

namespace PtrNet

/-- A functor about `c` that is bound to a bare `this` waits, or runs next. -/
def Waits (s : PtrNet) (c : ConnPtr) : Prop := ∃ i, ∃ cb ∈ s.net.functors i, cb.bare = some c

/-- Nothing waits for a connection to which there is no pointer. -/
def Safe (s : PtrNet) : Prop := ∀ c, s.Waits c → 0 < s.useCount c

/-- A step that gives up pointers leaves one to every connection that `connectDestroyed` has left
and for which a functor still waits. -/
def Spares (s : PtrNet) (l : PtrLabel) : Prop :=
  ∀ c, s.Waits c → 0 < s.net.times c .destroyed →
    match l with
    | .drop i d => 0 < (s.drop i d).useCount c
    | .net (.again i) _ | .net (.quit i) _ => 0 < (s.clear i).useCount c
    | _ => True

structure PtrInv (fd : ChannelPtr → Int) (s : PtrNet) : Prop where
  net : s.net.Inv ⟨False, False⟩ fd
  /-- A thread in a call has the pointer it called through. -/
  calls : ∀ i c, (s.net.call i).conn = some c → i ∈ s.held c

section

variable {fd : ChannelPtr → Int} {s t : PtrNet} {i j : ThreadId} {c : ConnPtr} {copies : Nat}

theorem useCount_pos : 0 < s.useCount c ↔ s.net.Held c ∨ 0 < s.ofLife c ∨
    some c ∈ s.bound (s.net.conn c).loop_ ∨ s.ran c ≠ [] ∨ s.held c ≠ [] := by
  rw [← List.count_pos_iff, ← List.length_pos_iff, ← List.length_pos_iff, useCount]
  by_cases hheld : s.net.Held c
  · rw [if_pos hheld]
    exact iff_of_true (by omega) (.inl hheld)
  · simp only [hheld, if_false, false_or]
    omega

/-- What waits is on the loop of its connection, which was established. -/
theorem PtrInv.waits (hi : PtrInv fd s) (h : s.Waits c) :
    0 < s.net.times c .accepted ∧ 0 < s.net.times c .established := by
  obtain ⟨i, cb, hmem, hcb⟩ := h
  have hconn : cb.conn = some c := by
    cases cb <;> simp [NetFunctor.bare] at hcb <;> simpa [NetFunctor.conn] using hcb
  obtain ⟨hpos, hfits⟩ := (hi.net.conn c).fits i cb hconn (List.count_pos_iff.mpr hmem)
  refine ⟨hpos, ?_⟩
  cases cb <;> simp [NetFunctor.bare] at hcb
  · exact hfits.2
  · exact hfits.2

/-- Until `connectDestroyed` has run the connection's own pointers suffice. -/
theorem PtrInv.counted (hi : PtrInv fd s) (h : s.Waits c) (hdes : s.net.times c .destroyed = 0) :
    0 < s.useCount c := by
  obtain ⟨hpos, _⟩ := hi.waits h
  have hc := hi.net.conn c
  rw [useCount_pos]
  by_cases hrem : s.net.times c .removed = 0
  · exact .inl (hc.held.mpr ⟨hpos, hrem⟩)
  · right
    left
    have hdestroyed := hc.destroyed
    unfold ofLife
    omega

/-- No pointer has been given up in between, other than with a functor that the vector keeps. -/
structure Keeps (s t : PtrNet) : Prop where
  held : ∀ c i, i ∈ s.held c → i ∈ t.held c
  ran : ∀ c, s.ran c ≠ [] → t.ran c ≠ []
  bound : ∀ j c, some c ∈ s.bound j → some c ∈ t.bound j ∨ t.ran c ≠ []

theorem Keeps.refl (s : PtrNet) : Keeps s s := ⟨fun _ _ h => h, fun _ h => h, fun _ _ h => .inl h⟩

theorem Keeps.trans {u : PtrNet} (h : Keeps s t) (g : Keeps t u) : Keeps s u where
  held c i hi := g.held c i (h.held c i hi)
  ran c hc := g.ran c (h.ran c hc)
  bound j c hc := (h.bound j c hc).elim (g.bound j c) fun hran => .inr (g.ran c hran)

theorem keeps_copy (s : PtrNet) (i : ThreadId) (c : ConnPtr) (copies : Nat) :
    Keeps s (s.copy i c copies) := by
  refine { Keeps.refl s with held := ?_ }
  intro d j hj
  unfold copy
  by_cases hd : d = c
  · subst hd
    simpa using .inr hj
  · simpa [hd] using hj

theorem ran_keep (s : PtrNet) (i : ThreadId) (c : ConnPtr) : (s.keep i c).ran c ≠ [] := by
  simp [keep]

theorem keeps_keep (s : PtrNet) (i : ThreadId) (c : ConnPtr) : Keeps s (s.keep i c) := by
  refine ⟨fun _ _ h => h, ?_, fun _ _ h => .inl h⟩
  intro d hd
  by_cases hdc : d = c
  · rw [hdc]
    exact ran_keep s i c
  · simpa [keep, hdc] using hd

theorem keeps_react (s : PtrNet) (i : ThreadId) (c : ConnPtr) (copies : Nat) (e : Effect) :
    Keeps s (react i c copies s e) := by
  cases e with
  | queueWriteComplete =>
    refine { Keeps.refl s with bound := ?_ }
    intro j d hd
    left
    unfold react
    by_cases hj : j = i
    · subst hj
      simpa using .inl hd
    · simpa [hj] using hd
  | connectionCallback up => exact keeps_copy s i c copies
  | messageCallback => exact keeps_copy s i c copies
  | _ => exact Keeps.refl s

theorem keeps_foldl (s : PtrNet) (i : ThreadId) (c : ConnPtr) (copies : Nat) (es : List Effect) :
    Keeps s (es.foldl (react i c copies) s) := by
  induction es generalizing s with
  | nil => exact Keeps.refl s
  | cons e es ih => exact (keeps_react s i c copies e).trans (ih _)

/-- A functor of the queue goes over to the functors that have run. -/
theorem keeps_runFunctor (s : PtrNet) (i : ThreadId) (copies : Nat) (cb : NetFunctor) :
    Keeps s (s.runFunctor i copies cb) := by
  cases cb with
  | connectEstablished c | connectDestroyed c | removeConnectionInLoop k c => exact keeps_keep s i c
  | sendInLoop c message | shutdownInLoop c => exact Keeps.refl s
  | user =>
    dsimp only [runFunctor]
    split
    · rename_i c bound hbound
      refine Keeps.trans (t := { s with bound := update s.bound i bound }.keep i c) ?_
        (keeps_copy _ i c copies)
      have hkeep := keeps_keep s i c
      refine ⟨hkeep.held, hkeep.ran, ?_⟩
      intro j d hd
      by_cases hj : j = i
      · subst hj
        rw [hbound] at hd
        rcases List.mem_cons.mp hd with heq | hd
        · obtain rfl := Option.some.inj heq
          exact .inr (ran_keep s j d)
        · exact .inl (by simpa [keep] using hd)
      · exact .inl (by simpa [keep, hj] using hd)
    · rename_i bound hbound
      refine { Keeps.refl s with bound := ?_ }
      intro j d hd
      left
      by_cases hj : j = i
      · subst hj
        rw [hbound] at hd
        simpa using hd
      · simpa [hj] using hd
    · exact Keeps.refl s

theorem keeps_turn (s : PtrNet) (copies : Nat) {l : NetLabel}
    (hl : ∀ i, l ≠ .again i ∧ l ≠ .quit i) : Keeps s (s.turn copies l) := by
  cases l with
  | functor i w =>
    dsimp only [turn]
    split
    · exact keeps_runFunctor s i copies _
    · exact Keeps.refl s
  | again i => exact absurd rfl (hl i).1
  | quit i => exact absurd rfl (hl i).2
  | queueInLoop i j =>
    refine { Keeps.refl s with bound := ?_ }
    intro k c hc
    left
    by_cases hk : k = j
    · subst hk
      simpa [turn] using hc
    · simpa [turn, hk] using hc
  | _ => exact Keeps.refl s

/-- What a step of a thread does to the pointers. -/
theorem netStep_keeps {l : NetLabel} (h : s.netStep fd l copies = .ok t) :
    Net.step fd s.net l = .ok t.net ∧ Keeps (s.turn copies l) t := by
  obtain ⟨net, hnet, h⟩ := bind_eq_ok h
  obtain rfl := Except.ok.inj h
  have hset : Keeps (s.turn copies l) { s.turn copies l with net := net } :=
    ⟨fun _ _ h => h, fun _ h => h, fun _ _ h => .inl h⟩
  have hfold : ∀ (es : List Effect) (u : PtrNet) i c, (es.foldl (react i c copies) u).net = u.net := by
    intro es u i c
    induction es generalizing u with
    | nil => rfl
    | cons e es ih =>
      rw [List.foldl_cons, ih]
      cases e <;> rfl
  split
  · refine ⟨?_, hset.trans (keeps_foldl _ _ _ copies _)⟩
    rw [hfold]
    exact hnet
  · exact ⟨hnet, hset⟩

/-- A loop that has no functor left changes its phase. -/
theorem functors_setPhase_idle (net : Net) (i : ThreadId) {phase : Phase}
    (hphase : (net.phase i).batch = []) (hbatch : phase.batch = []) :
    (net.setPhase i phase).functors = net.functors := by
  funext j
  unfold Net.functors Net.setPhase
  by_cases hj : j = i
  · subst hj
    simp [hphase, hbatch]
  · simp [hj]

theorem useCount_setPhase (s : PtrNet) (i : ThreadId) {phase : Phase}
    (hphase : (s.net.phase i).batch = []) (hbatch : phase.batch = []) (c : ConnPtr) :
    ({ s with net := s.net.setPhase i phase } : PtrNet).useCount c = s.useCount c := by
  have hfunctors := functors_setPhase_idle s.net i hphase hbatch
  have hremoving : (s.net.setPhase i phase).removing c = s.net.removing c := by
    unfold Net.removing
    rw [hfunctors]
    rfl
  have hlife : ({ s with net := s.net.setPhase i phase } : PtrNet).ofLife c = s.ofLife c := by
    unfold ofLife
    dsimp only
    rw [hfunctors, hremoving]
    rfl
  unfold useCount
  rw [hlife]
  rfl

/-- At the end of a vector nothing changes but what has run. -/
theorem netStep_clear {l : NetLabel} (hl : l = .again i ∨ l = .quit i)
    (he : Net.Enabled fd s.net l) (h : s.netStep fd l copies = .ok t) :
    (s.net.phase i).batch = [] ∧
      ∃ phase, phase.batch = [] ∧ t = { s.clear i with net := s.net.setPhase i phase } := by
  rcases hl with rfl | rfl
  · obtain rfl := Except.ok.inj h
    exact ⟨by rw [he.2]; rfl, _, rfl, rfl⟩
  · obtain rfl := Except.ok.inj h
    exact ⟨by rw [he.2]; rfl, _, rfl, rfl⟩

/-- After `connectDestroyed` of `c` has run, its functor is still there. -/
theorem turn_destroyed {l : NetLabel} (h : s.net.called l = some (i, c, .connectDestroyed)) :
    (s.turn copies l).ran c ≠ [] := by
  obtain ⟨w, batch, rfl, hphase⟩ := Net.called_destroyed h
  have hturn : s.turn copies (.functor i w) = s.keep i c := by
    simp [turn, hphase, runFunctor]
  rw [hturn]
  exact ran_keep s i c

/-- The removal of `c` waits until it has run. -/
theorem PtrInv.removing_le (hi : PtrInv fd s) (ht : PtrInv fd t)
    {o : Option (ThreadId × ConnPtr × ConnFunction)} (h : s.net.Outcome t.net o)
    (hdes : 0 < s.net.times c .destroyed) :
    s.net.removing c ≤ t.net.removing c := by
  obtain ⟨d, es, hgains⟩ := h.gains
  have hclosed : t.net.times c .closed = s.net.times c .closed + _ := hgains.times c .closeCallback
  have hdown : t.net.times c .destroyed = s.net.times c .destroyed + _ :=
    hgains.times c (.connectionCallback false)
  have hs := hi.net.conn c
  have htc := ht.net.conn c
  have := hs.removed
  have := hs.destroyed
  have := htc.removed
  have := htc.destroyed
  have := htc.once
  omega

/-- After `connectDestroyed` the connection's own pointers are those that functors hold. -/
theorem PtrInv.destroyed_useCount (hi : PtrInv fd s) (hest : 0 < s.net.times c .established)
    (hdes : 0 < s.net.times c .destroyed) : 0 < s.useCount c ↔ 0 < s.net.removing c ∨
      some c ∈ s.bound (s.net.conn c).loop_ ∨ s.ran c ≠ [] ∨ s.held c ≠ [] := by
  have hc := hi.net.conn c
  have hestablished := hc.established
  have hdestroyed := hc.destroyed
  have hone := hc.accepted
  have honce := hc.once
  have hheld : ¬ s.net.Held c := by
    rw [hc.held]
    omega
  have hlife : s.ofLife c = s.net.removing c := by
    unfold ofLife
    omega
  rw [useCount_pos, hlife]
  simp [hheld]

theorem PtrInv.netStep (hi : PtrInv fd s) {l : NetLabel} (he : Enabled fd s (.net l copies))
    (hnet : Net.step fd s.net l = .ok t.net) (hheld : ∀ c i, i ∈ s.held c → i ∈ t.held c) :
    PtrInv fd t := by
  obtain ⟨henabled, hthrough⟩ := he
  refine ⟨(Net.step_sat hi.net henabled ⟨False.elim, False.elim⟩).of_ok hnet, ?_⟩
  intro i c hcall
  apply hheld
  rcases (Net.step_advances hnet).call i c hcall with hold | hnew
  · exact hi.calls i c hold
  · rwa [hnew] at hthrough

/-- A step that keeps all pointers leaves one wherever a functor waits. -/
theorem PtrInv.kept (hi : PtrInv fd s) (ht : PtrInv fd t) {l : NetLabel}
    (hnet : Net.step fd s.net l = .ok t.net) (hkeeps : Keeps (s.turn copies l) t)
    (hturn : Keeps s (s.turn copies l)) (hsafe : s.Safe) : t.Safe := by
  intro c hwaits
  have houtcome := Net.step_outcome hnet
  by_cases hdes : t.net.times c .destroyed = 0
  · exact ht.counted hwaits hdes
  by_cases hdes' : s.net.times c .destroyed = 0
  · obtain ⟨i, hcalled⟩ := houtcome.destroyed hdes' (Nat.pos_of_ne_zero hdes)
    exact useCount_pos.mpr (.inr (.inr (.inr (.inl (hkeeps.ran c (turn_destroyed hcalled))))))
  have hpos := Nat.pos_of_ne_zero hdes'
  obtain ⟨i, cb, hmem, hcb⟩ := hwaits
  rcases (Net.step_advances hnet).functors i cb c hcb hmem with hold | ⟨j, w, _, hcall⟩
  · have hwaits' : s.Waits c := ⟨i, cb, hold, hcb⟩
    obtain ⟨hacc, hest⟩ := hi.waits hwaits'
    rw [ht.destroyed_useCount (ht.waits ⟨i, cb, hmem, hcb⟩).2 (Nat.pos_of_ne_zero hdes)]
    have hloop : (t.net.conn c).loop_ = (s.net.conn c).loop_ := by
      obtain ⟨d, es, hgains⟩ := houtcome.gains
      exact hgains.loop c (hi.net.lt_allocated hacc)
    rw [hloop]
    rcases (hi.destroyed_useCount hest hpos).mp (hsafe c hwaits') with hrem | hbound | hran | hheld
    · exact .inl (hrem.trans_le (hi.removing_le ht houtcome hpos))
    · rcases (hturn.trans hkeeps).bound _ c hbound with hbound | hran
      · exact .inr (.inl hbound)
      · exact .inr (.inr (.inl hran))
    · exact .inr (.inr (.inl ((hturn.trans hkeeps).ran c hran)))
    · obtain ⟨j, hj⟩ := List.exists_mem_of_ne_nil _ hheld
      exact .inr (.inr (.inr (List.ne_nil_of_mem ((hturn.trans hkeeps).held c j hj))))
  · -- the caller has the pointer it called through
    have hheld := (hturn.trans hkeeps).held c j (hi.calls j c hcall)
    exact useCount_pos.mpr (.inr (.inr (.inr (.inr (List.ne_nil_of_mem hheld)))))

theorem Keeps.useCount (h : Keeps s t) (hnet : t.net = s.net) (hpos : 0 < s.useCount c) :
    0 < t.useCount c := by
  have hlife : t.ofLife c = s.ofLife c := by
    unfold ofLife
    rw [hnet]
  rw [useCount_pos] at hpos ⊢
  rw [hnet, hlife]
  rcases hpos with hheld | hlife | hbound | hran | hheld
  · exact .inl hheld
  · exact .inr (.inl hlife)
  · rcases h.bound _ c hbound with hbound | hran
    · exact .inr (.inr (.inl hbound))
    · exact .inr (.inr (.inr (.inl hran)))
  · exact .inr (.inr (.inr (.inl (h.ran c hran))))
  · obtain ⟨j, hj⟩ := List.exists_mem_of_ne_nil _ hheld
    exact .inr (.inr (.inr (.inr (List.ne_nil_of_mem (h.held c j hj)))))

/-- The user gets a pointer. -/
theorem PtrInv.copied (hi : PtrInv fd s) (i : ThreadId) (c : ConnPtr) :
    PtrInv fd (s.copy i c 1) ∧ (s.Safe → (s.copy i c 1).Safe) := by
  have hkeeps := keeps_copy s i c 1
  refine ⟨⟨hi.net, fun j d hcall => hkeeps.held d j (hi.calls j d hcall)⟩, ?_⟩
  intro hsafe d hwaits
  exact hkeeps.useCount rfl (hsafe d hwaits)

/-- A thread drops a pointer that no call of its goes through. -/
theorem PtrInv.dropped (hi : PtrInv fd s) (he : Enabled fd s (.drop i c)) :
    PtrInv fd (s.drop i c) := by
  refine ⟨hi.net, ?_⟩
  intro j d hcall
  have hj := hi.calls j d hcall
  change j ∈ update s.held c ((s.held c).erase i) d
  by_cases hd : d = c
  · subst hd
    rw [update_self]
    by_cases hji : j = i
    · subst hji
      have hmore : 1 < (s.held d).count j := by
        simpa [Enabled, show (s.net.call j).conn = some d from hcall] using he
      rw [← List.count_pos_iff, List.count_erase_self]
      omega
    · exact (List.mem_erase_of_ne hji).mpr hj
  · rw [update_of_ne hd]
    exact hj

theorem PtrInv.step (hi : PtrInv fd s) {l : PtrLabel} (he : Enabled fd s l)
    (hs : (machine fd).step s l = .ok t) :
    PtrInv fd t ∧ (s.Safe → (t.Safe ↔ s.Spares l)) := by
  cases l with
  | net l copies =>
    by_cases hl : ∃ i, l = .again i ∨ l = .quit i
    · obtain ⟨i, hl⟩ := hl
      obtain ⟨hphase, phase, hbatch, rfl⟩ := netStep_clear hl he.1 hs
      have hnet := (netStep_keeps hs).1
      have ht := hi.netStep he hnet fun _ _ h => h
      refine ⟨ht, fun _ => ?_⟩
      have hfunctors := functors_setPhase_idle s.net i hphase hbatch
      have hwaits : ∀ c, ({ s.clear i with net := s.net.setPhase i phase } : PtrNet).Waits c ↔
          s.Waits c := by
        intro c
        unfold Waits
        rw [hfunctors]
      have hspares : s.Spares (.net l copies) ↔
          ∀ c, s.Waits c → 0 < s.net.times c .destroyed → 0 < (s.clear i).useCount c := by
        rcases hl with rfl | rfl <;> exact Iff.rfl
      rw [hspares]
      constructor
      · intro hsafe c hc _
        exact (hsafe c ((hwaits c).mpr hc)).trans_le (useCount_setPhase (s.clear i) i hphase hbatch c).le
      · intro hleft c hc
        by_cases hdes : s.net.times c .destroyed = 0
        · exact ht.counted hc hdes
        · have hpos := hleft c ((hwaits c).mp hc) (Nat.pos_of_ne_zero hdes)
          exact hpos.trans_le (useCount_setPhase (s.clear i) i hphase hbatch c).ge
    · have hl' : ∀ i, l ≠ .again i ∧ l ≠ .quit i := fun i =>
        ⟨fun h => hl ⟨i, .inl h⟩, fun h => hl ⟨i, .inr h⟩⟩
      obtain ⟨hnet, hkeeps⟩ := netStep_keeps hs
      have hturn := keeps_turn s copies hl'
      have ht := hi.netStep he hnet (hturn.trans hkeeps).held
      refine ⟨ht, fun hsafe => iff_of_true (hi.kept ht hnet hkeeps hturn hsafe) ?_⟩
      intro c _ _
      cases l with
      | again i => exact absurd rfl (hl' i).1
      | quit i => exact absurd rfl (hl' i).2
      | _ => trivial
  | copy i j c =>
    obtain rfl := Except.ok.inj hs
    obtain ⟨ht, hsafe⟩ := hi.copied i c
    exact ⟨ht, fun h => iff_of_true (hsafe h) fun _ _ _ => trivial⟩
  | connection i k =>
    dsimp only [machine, PtrNet.step] at hs
    split at hs
    · obtain rfl := Except.ok.inj hs
      obtain ⟨ht, hsafe⟩ := hi.copied i _
      exact ⟨ht, fun h => iff_of_true (hsafe h) fun _ _ _ => trivial⟩
    · obtain rfl := Except.ok.inj hs
      exact ⟨hi, fun h => iff_of_true h fun _ _ _ => trivial⟩
  | drop i c =>
    obtain rfl := Except.ok.inj hs
    have ht := hi.dropped he
    refine ⟨ht, fun _ => ⟨fun hsafe d hd _ => hsafe d hd, ?_⟩⟩
    intro hleft d hd
    by_cases hdes : s.net.times d .destroyed = 0
    · exact ht.counted hd hdes
    · exact hleft d hd (Nat.pos_of_ne_zero hdes)

theorem ptrInv_start (e : Net.Setup) : PtrInv e.fd (start e) where
  net := Net.inv_start _ e
  calls i c h := by cases h

/-- In every run: there is a pointer to a connection wherever a `sendInLoop` or a `shutdownInLoop`
of it waits or runs next, if and only if no step gives up the last one before that. -/
theorem functors_outlived_iff {e : Net.Setup} {ls : List PtrLabel} {u : PtrNet}
    (h : Run (machine e.fd) (start e) ls u) :
    (∀ pre t, pre <+: ls → Run (machine e.fd) (start e) pre t → t.Safe) ↔
      ∀ pre l t, pre ++ [l] <+: ls → Run (machine e.fd) (start e) pre t → t.Spares l := by
  refine Run.visits_iff (I := PtrInv e.fd) ?_ ?_ h (ptrInv_start e) ?_
  · intro s l t hi he hs
    exact (hi.step he hs).1
  · intro s l t hi hsafe he hs
    exact (hi.step he hs).2 hsafe
  · rintro c ⟨i, cb, hmem, _⟩
    cases hmem

end

instance (fd : ChannelPtr → Int) (s : PtrNet) (l : PtrLabel) : Decidable ((machine fd).enabled s l) :=
  match l with
  | .net l _ =>
    match h : l.through with
    | some (i, c) => decidable_of_iff ((Net.machine fd).enabled s.net l ∧ i ∈ s.held c)
        (by simp [machine, Enabled, Net.machine, h])
    | none => decidable_of_iff ((Net.machine fd).enabled s.net l)
        (by simp [machine, Enabled, Net.machine, h])
  | .copy _ j c => inferInstanceAs (Decidable (j ∈ s.held c))
  | .connection _ k => inferInstanceAs (Decidable ((s.net.client k).connection_ ≠ none))
  | .drop i c => inferInstanceAs (Decidable
      ((if (s.net.call i).conn = some c then 1 else 0) < (s.held c).count i))

/-- A step of a thread in which no callback keeps a pointer. -/
def plain (l : NetLabel) : PtrLabel := .net l 0

/-- The up callback of a connection keeps a pointer for the thread 3. -/
def shared : List PtrLabel :=
  [.loop 1, .poll 1 0 [], .accept 0, .loop 2, .poll 2 0 [], .swap 2].map plain ++
    [.net (.functor 2 (.failed 0)) 1, .copy 3 2 0]

/-- The peer closes, and the I/O loop has swapped out `connectDestroyed`. -/
def closing : List PtrLabel :=
  .drop 2 0 :: [.again 2, .poll 2 1 [1], .handle 2 (.delivered []) (.failed 0), .swap 1,
    .functor 1 (.failed 0), .again 1, .swap 2].map plain

def hello : Span := ⟨[104, 105], by decide⟩

/-- A call of `send` in the thread 3. -/
def sending : List PtrLabel := [.send 3 0 hello, .runInLoop 3 (.failed 0)].map plain

theorem functors_outlived_iff_shared : ∃ s,
    Run (machine (Net.small [2]).fd) (start (Net.small [2])) (shared ++ sending) s ∧
      .sendInLoop 0 hello ∈ s.net.functors 2 ∧ s.Safe := by
  have hex : ∃ s, Run (machine (Net.small [2]).fd) (start (Net.small [2])) (shared ++ sending) s ∧
      .sendInLoop 0 hello ∈ s.net.functors 2 :=
    exists_run_of_exec _ (by decide +kernel)
  obtain ⟨s, hr, hwaits⟩ := hex
  refine ⟨s, hr, hwaits, ?_⟩
  refine (functors_outlived_iff hr).mpr ?_ _ s (List.prefix_refl _) hr
  intro pre l t hpre _ c _ _
  -- no pointer is given up
  have hmem : l ∈ shared ++ sending :=
    hpre.subset (List.mem_append_right _ (List.mem_singleton_self l))
  cases l with
  | drop i d => simp [shared, sending, plain] at hmem
  | net l copies => cases l <;> simp_all [shared, sending, plain]
  | _ => trivial

/-- The thread sends while the connection is closed, and drops its pointer at once:
`connectDestroyed` runs, its functor is destroyed with the vector, and `sendInLoop` runs next
without a pointer. -/
theorem sent_while_closing : ∃ s, Run (machine (Net.small [2]).fd) (start (Net.small [2]))
      (shared ++ closing ++ sending ++ .drop 3 0 ::
        [.functor 2 (.failed 0), .again 2, .poll 2 0 [], .swap 2].map plain) s ∧
    s.net.phase 2 = .functors [.sendInLoop 0 hello] ∧ s.useCount 0 = 0 :=
  exists_run_of_exec _ (by decide +kernel)

end PtrNet

end MuduoNet
