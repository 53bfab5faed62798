import MuduoNet.Tcp.Threads

/-!
# Shutdown and the sends before it

`shutdownInLoop` waits for the bytes that are buffered. It does not wait for a `sendInLoop`
that is still queued, nor for one whose thread has only passed the check.
-/
namespace MuduoNet

open Lib Lib.Outcome

namespace TcpConnection

variable {c d : TcpConnection} {adm : List (List UInt8)}

/-- The messages passed to `sendInLoop`, in order. -/
def messages (trace : List Effect) : List (List UInt8) :=
  trace.filterMap fun
    | .sendInLoop bytes => some bytes
    | _ => none

@[simp] theorem messages_append (s t : List Effect) : messages (s ++ t) = messages s ++ messages t :=
  List.filterMap_append

theorem messages_eq_of_append {s es : List Effect} (hes : ∀ bytes, .sendInLoop bytes ∉ es) :
    messages (s ++ es) = messages s := by
  have hnil : messages es = [] := by
    rw [messages, List.filterMap_eq_nil_iff]
    intro e he
    cases e with
    | sendInLoop bytes => exact absurd he (hes bytes)
    | _ => rfl
  rw [messages_append, hnil, List.append_nil]

theorem Extends.messages_eq (h : Extends Effect.OfOutput c d) :
    messages d.trace = messages c.trace := by
  obtain ⟨es, htrace, hes⟩ := h.trace
  rw [htrace]
  exact messages_eq_of_append fun _ hmem => hes _ hmem

theorem Neutral.messages_eq (h : Neutral c d) : messages d.trace = messages c.trace := by
  obtain ⟨es, htrace, hes⟩ := h.trace
  rw [htrace]
  exact messages_eq_of_append fun _ hmem => hes _ hmem

theorem messages_emit_shutdownWrite (c : TcpConnection) :
    messages (c.emit .shutdownWrite).trace = messages c.trace := by
  simp [emit, messages]

theorem shutdownInLoop_messages (c : TcpConnection) :
    messages c.shutdownInLoop.trace = messages c.trace := by
  unfold shutdownInLoop
  split
  · rfl
  · exact messages_emit_shutdownWrite c

theorem handleWrite_messages {w : WriteResult} (h : c.handleWrite w = .ok d) :
    messages d.trace = messages c.trace := by
  rcases handleWrite_ok h with ⟨_, rfl⟩ | ⟨_, e, hext, _, hd⟩
  · rfl
  · rcases hd with rfl | rfl
    · exact hext.messages_eq
    · obtain ⟨f, hf, heq⟩ := drained_eq e
      rw [heq, ← hext.messages_eq, ← hf.messages_eq]
      split
      · exact messages_emit_shutdownWrite f
      · rfl

theorem sendInLoop_messages {message : List UInt8} {w : WriteResult}
    (h : c.sendInLoop message w = .ok d) : messages d.trace = messages c.trace ++ [message] := by
  rw [(sendInLoop_extends h).messages_eq]
  simp [emit, messages]

/-- The trace contains every message of `adm` with bytes in it, as often as `adm` does. -/
def AllSent (adm : List (List UInt8)) (trace : List Effect) : Prop :=
  ∀ message, message ≠ [] → adm.count message ≤ (messages trace).count message

/-- All bytes of the messages of `adm` are written. -/
def AllWritten (adm : List (List UInt8)) (trace : List Effect) : Prop :=
  AllSent adm trace ∧ accepted trace = passed trace

/-- What the half-close owes to the messages of `adm`. -/
structure InOrder (adm : List (List UInt8)) (c : TcpConnection) : Prop where
  out : OutInv c
  drained : .shutdownWrite ∈ c.trace → c.outputBuffer_.readable = []
  closes : Closes (AllWritten adm) c.trace

theorem InOrder.of_not_mem (hout : OutInv c) (h : .shutdownWrite ∉ c.trace) : InOrder adm c :=
  ⟨hout, fun hmem => absurd hmem h, .of_not_mem h⟩

theorem InOrder.neutral (hi : InOrder adm c) (h : Neutral c d) : InOrder adm d := by
  refine ⟨h.outInv hi.out, ?_, h.closes hi.closes⟩
  rw [h.shutdownWrite_mem, h.buffer]
  exact hi.drained

/-- A half-close with nothing buffered, once all messages have been passed on. -/
theorem InOrder.emit (hi : InOrder adm c) (hnil : c.outputBuffer_.readable = [])
    (hall : AllSent adm c.trace) : InOrder adm (c.emit .shutdownWrite) := by
  have hquiet : Quiet c (c.emit .shutdownWrite) := quiet_emit rfl rfl
  refine ⟨hquiet.outInv hi.out rfl, fun _ => hnil, hi.closes.snoc ⟨hall, ?_⟩⟩
  have hbytes := hi.out.bytes
  rw [hnil, List.append_nil] at hbytes
  exact hbytes

theorem InOrder.shutdownInLoop (hi : InOrder adm c)
    (hall : c.trace.count .shutdownWrite < c.shutdownInLoop.trace.count .shutdownWrite →
      AllSent adm c.trace) : InOrder adm c.shutdownInLoop := by
  unfold TcpConnection.shutdownInLoop at hall ⊢
  by_cases hwriting : c.channel_.isWriting = true
  · rw [if_pos hwriting]
    exact hi
  · rw [if_neg hwriting] at hall ⊢
    rw [hi.out.writing, not_not] at hwriting
    exact hi.emit hwriting (hall (by simp [TcpConnection.emit]))

theorem InOrder.handleWrite (hi : InOrder adm c) {w : WriteResult}
    (hw : ∀ n, w = .wrote n → n ≤ c.outputBuffer_.readableBytes) (h : c.handleWrite w = .ok d)
    (hall : c.trace.count .shutdownWrite < d.trace.count .shutdownWrite → AllSent adm c.trace) :
    InOrder adm d := by
  have hout : OutInv d := ((handleWrite_sat hi.out hw).of_ok h).1
  rcases handleWrite_ok h with ⟨_, rfl⟩ | ⟨hwriting, e, hext, hchannel, hd⟩
  · exact hi
  have hno : .shutdownWrite ∉ c.trace := fun hmem =>
    hi.out.writing.mp hwriting (hi.drained hmem)
  have hnoe : .shutdownWrite ∉ e.trace := by rwa [hext.shutdownWrite_mem id]
  rcases hd with rfl | rfl
  · exact .of_not_mem hout hnoe
  · obtain ⟨f, hf, heq⟩ := drained_eq e
    have hnof : .shutdownWrite ∉ f.trace := by rwa [hf.shutdownWrite_mem id]
    have hnil := hout.drained_nil
    rw [heq] at hout hnil hall ⊢
    split at hout
    · rename_i hstate
      rw [if_pos hstate] at hnil hall ⊢
      have hsent : AllSent adm c.trace := by
        apply hall
        simp [TcpConnection.emit, List.count_eq_zero_of_not_mem hno]
      rw [AllSent, ← hext.messages_eq, ← hf.messages_eq] at hsent
      have hback : Quiet (f.emit .shutdownWrite) f := by
        have hq : Quiet f (f.emit .shutdownWrite) := quiet_emit rfl rfl
        exact ⟨hq.buffer.symm, hq.accepted_eq.symm, hq.passed_eq.symm⟩
      exact (InOrder.of_not_mem (hback.outInv hout rfl) hnof).emit hnil hsent
    · rename_i hstate
      rw [if_neg hstate]
      exact .of_not_mem hout hnof

end TcpConnection

/-- The message that a functor, or a thread in its call, still has to pass to `sendInLoop`. -/
def ConnFunctor.message : ConnFunctor → Option (List UInt8)
  | .sendInLoop message => some message.bytes
  | .shutdownInLoop | .user => none

def ConnCall.message (c : ConnCall) : Option (List UInt8) := c.functor.bind ConnFunctor.message

theorem ConnCall.message_functor {c : ConnCall} {f : ConnFunctor}
    (h : c.functor = some f) :
    c.message = f.message := by
  rw [ConnCall.message, h]
  rfl

namespace ConnFunctor

variable {f : ConnFunctor} {c d : TcpConnection} {w : WriteResult}

theorem run_messages (h : f.run c w = .ok d) : TcpConnection.messages d.trace =
    TcpConnection.messages c.trace ++ f.message.toList := by
  cases f with
  | sendInLoop message => exact TcpConnection.sendInLoop_messages h
  | shutdownInLoop =>
    obtain rfl := Except.ok.inj h
    rw [TcpConnection.shutdownInLoop_messages]
    exact (List.append_nil _).symm
  | user =>
    obtain rfl := Except.ok.inj h
    exact (List.append_nil _).symm

theorem run_outInv (h : f.run c w = .ok d) (hw : f.CanWrite w) (hi : TcpConnection.OutInv c) :
    TcpConnection.OutInv d := by
  cases f with
  | sendInLoop message =>
    refine ((TcpConnection.sendInLoop_sat hi message ?_).of_ok h).1
    rintro n rfl
    exact hw
  | shutdownInLoop =>
    obtain rfl := Except.ok.inj h
    refine (TcpConnection.quiet_shutdownInLoop c).outInv hi ?_
    rw [TcpConnection.channel_shutdownInLoop]
  | user =>
    obtain rfl := Except.ok.inj h
    exact hi

/-- A functor leaves `state_` alone, and only `shutdownInLoop` half-closes. -/
theorem run_state (h : f.run c w = .ok d) : d.state_ = c.state_ ∧
    (f ≠ .shutdownInLoop → (.shutdownWrite ∈ d.trace ↔ .shutdownWrite ∈ c.trace)) := by
  cases f with
  | sendInLoop message =>
    have hext := TcpConnection.sendInLoop_extends h
    refine ⟨hext.state, fun _ => ?_⟩
    rw [hext.shutdownWrite_mem id]
    simp [TcpConnection.emit]
  | shutdownInLoop =>
    obtain rfl := Except.ok.inj h
    exact ⟨TcpConnection.state_shutdownInLoop c, fun hne => absurd rfl hne⟩
  | user =>
    obtain rfl := Except.ok.inj h
    exact ⟨rfl, fun _ => Iff.rfl⟩

end ConnFunctor

namespace TcpConnection

variable {c d : TcpConnection}

/-- A `handleWrite` half-closes only in `kDisconnecting`. -/
theorem handleWrite_state {w : WriteResult} (h : c.handleWrite w = .ok d) : d.state_ = c.state_ ∧
    (c.state_ ≠ .kDisconnecting → (.shutdownWrite ∈ d.trace ↔ .shutdownWrite ∈ c.trace)) := by
  rcases handleWrite_ok h with ⟨_, rfl⟩ | ⟨_, e, hext, _, hd⟩
  · exact ⟨rfl, fun _ => Iff.rfl⟩
  rcases hd with rfl | rfl
  · exact ⟨hext.state, fun _ => hext.shutdownWrite_mem id⟩
  · obtain ⟨f, hf, heq⟩ := drained_eq e
    rw [heq]
    split
    · rename_i hstate
      exact ⟨hf.state.trans hext.state, fun hne => absurd (hext.state.symm.trans hstate) hne⟩
    · refine ⟨hf.state.trans hext.state, fun _ => ?_⟩
      rw [hf.shutdownWrite_mem id, hext.shutdownWrite_mem id]

/-- What the handlers do: `handleWrite`, or nothing to the output path. -/
inductive Handled (c d : TcpConnection) : Prop
  | neutral (h : Neutral c d) (hstate : c.state_ = .kDisconnecting ↔ d.state_ = .kDisconnecting)
  | written {w : WriteResult} (hw : ∀ n, w = .wrote n → n ≤ c.outputBuffer_.readableBytes)
      (h : c.handleWrite w = .ok d)

theorem Handled.messages_eq (h : Handled c d) : messages d.trace = messages c.trace := by
  cases h with
  | neutral h _ => exact h.messages_eq
  | written _ h => exact handleWrite_messages h

theorem Handled.outInv (h : Handled c d) (hi : OutInv c) : OutInv d := by
  cases h with
  | neutral h _ => exact h.outInv hi
  | written hw h => exact ((handleWrite_sat hi hw).of_ok h).1

theorem Handled.state (h : Handled c d) : (c.state_ = .kDisconnecting ↔ d.state_ = .kDisconnecting) ∧
    (c.state_ ≠ .kDisconnecting → (.shutdownWrite ∈ d.trace ↔ .shutdownWrite ∈ c.trace)) := by
  cases h with
  | neutral h hstate => exact ⟨hstate, fun _ => h.shutdownWrite_mem⟩
  | written _ h =>
    obtain ⟨hstate, hmem⟩ := handleWrite_state h
    exact ⟨by rw [hstate], hmem⟩

end TcpConnection

namespace ConnSystem

variable {s t : ConnSystem}

theorem Handles.handled {l : TcpConnection.ConnLabel} {c : TcpConnection} (hl : s.Handles l)
    (he : TcpConnection.connMachine.enabled s.conn l)
    (hs : TcpConnection.connMachine.step s.conn l = .ok c) : TcpConnection.Handled s.conn c := by
  cases l with
  | connectEstablished =>
    obtain ⟨hneutral, hconnecting, hconnected⟩ := TcpConnection.connectEstablished_neutral hs
    exact .neutral hneutral (by simp [hconnecting, hconnected])
  | handleRead r =>
    obtain ⟨hneutral, hstate⟩ := TcpConnection.handleRead_neutral he hs
    exact .neutral hneutral (by rw [hstate])
  | handleWrite w =>
    refine .written ?_ hs
    rintro n rfl
    exact he
  | handleError =>
    obtain rfl := Except.ok.inj hs
    exact .neutral ⟨rfl, rfl, [], (List.append_nil _).symm, by simp⟩ Iff.rfl
  | send _ _ | shutdown => cases hl

/-- The messages of the queue. -/
def queued (s : LoopSystem ConnFunctor) : List (List UInt8) :=
  (waiting s).filterMap ConnFunctor.message

theorem queued_push {s t : LoopSystem ConnFunctor} {f : ConnFunctor}
    (h : waiting t = waiting s ++ [f]) : queued t = queued s ++ f.message.toList := by
  rw [queued, h, List.filterMap_append]
  cases f <;> rfl

theorem queued_pop {s t : LoopSystem ConnFunctor} {f : ConnFunctor}
    (h : waiting s = f :: waiting t) : queued s = f.message.toList ++ queued t := by
  rw [queued, h]
  cases f <;> rfl

theorem queued_loop {s t : LoopSystem ConnFunctor}
    (h : waiting t = waiting s ∨ waiting t = waiting s ++ [.user]) : queued t = queued s := by
  rcases h with h | h
  · rw [queued, h, queued]
  · rw [queued_push h]
    exact List.append_nil _

/-- Every admitted message has been passed to `sendInLoop`, is queued, or is with its thread. -/
def Account (s : ConnSystem) : Prop :=
  ∃ flying, Enumerates (fun tid => (s.threads tid).message) flying ∧
    s.admitted.Perm
      (TcpConnection.messages s.conn.trace ++ (queued s.sys ++ flying.map Prod.snd))

theorem message_setThread (s : ConnSystem) (tid : ThreadId) (c : ConnCall) :
    (fun t => ((s.setThread tid c).threads t).message) =
      Function.update (fun t => (s.threads t).message) tid c.message := by
  funext t
  by_cases ht : t = tid <;> simp [setThread, Function.update, ht]

/-- What `tid` gives up and what it gets are made up for by the other places. -/
theorem Account.setThread {tid : ThreadId} {c : ConnCall} (h : s.Account)
    (hthreads : t.threads = (s.setThread tid c).threads)
    (hbal : ∀ m, t.admitted.count m + (TcpConnection.messages s.conn.trace).count m +
        (queued s.sys).count m + (s.threads tid).message.toList.count m =
      s.admitted.count m + (TcpConnection.messages t.conn.trace).count m +
        (queued t.sys).count m + c.message.toList.count m) : t.Account := by
  obtain ⟨flying, hflying, hperm⟩ := h
  obtain ⟨flying', hset, hflying'⟩ := hflying.set tid c.message
  refine ⟨flying', ?_, ?_⟩
  · rw [hthreads, message_setThread]
    exact hflying'
  · rw [List.perm_iff_count] at hset hperm ⊢
    intro m
    have hm := hbal m
    have hs := hset m
    have hp := hperm m
    simp only [List.count_append] at hs hp ⊢
    omega

theorem Happens.account (he : Happens s t) (h : s.Account) : t.Account := by
  cases he with
  | loop hq =>
    rw [Account, queued_loop hq]
    exact h
  | handled hl he hs =>
    rw [Account, (hl.handled he hs).messages_eq]
    exact h
  | admitted message hidle hstate =>
    refine h.setThread rfl (fun m => ?_)
    simp only [hidle, setThread, List.count_append]
    simp [ConnCall.message, ConnCall.functor, ConnFunctor.message]
    omega
  | refused => exact h
  | checked hidle =>
    refine h.setThread rfl (fun m => ?_)
    simp only [hidle, setThread]
    rfl
  | disconnected hcall =>
    refine h.setThread rfl (fun m => ?_)
    simp only [hcall, setState, setThread]
    rfl
  | queued hf hq =>
    refine h.setThread rfl (fun m => ?_)
    simp only [setThread, ConnCall.message_functor hf, queued_push hq, List.count_append]
    simp [ConnCall.message, ConnCall.functor]
    omega
  | called hf hw hr =>
    refine h.setThread rfl (fun m => ?_)
    simp only [setThread, ConnCall.message_functor hf, ConnFunctor.run_messages hr,
      List.count_append]
    simp [ConnCall.message, ConnCall.functor]
    omega
  | ran hq hw hr =>
    obtain ⟨flying, hflying, hperm⟩ := h
    refine ⟨flying, hflying, ?_⟩
    rw [ConnFunctor.run_messages hr]
    rw [queued_pop hq] at hperm
    simpa using hperm

/-- Before `kDisconnecting` there is no half-close, and none is on its way. -/
def Early (s : ConnSystem) : Prop :=
  s.conn.state_ ≠ .kDisconnecting → .shutdownWrite ∉ s.conn.trace ∧
    .shutdownInLoop ∉ waiting s.sys ∧ ∀ tid, s.threads tid ≠ .disconnecting

theorem disconnecting_setThread {tid : ThreadId} {c : ConnCall} (hc : c ≠ .disconnecting)
    (h : ∀ t, s.threads t ≠ .disconnecting) (t : ThreadId) :
    (s.setThread tid c).threads t ≠ .disconnecting := by
  by_cases ht : t = tid <;> simp [setThread, ht, hc, h]

theorem functor_ne {f : ConnFunctor} {tid : ThreadId} (hf : (s.threads tid).functor = some f)
    (h : ∀ t, s.threads t ≠ .disconnecting) : f ≠ .shutdownInLoop := by
  rintro rfl
  apply h tid
  cases hc : s.threads tid <;> simp_all [ConnCall.functor]

theorem Happens.early (he : Happens s t) (h : s.Early) : t.Early := by
  cases he with
  | loop hq =>
    intro hstate
    obtain ⟨hno, hwaiting, hthreads⟩ := h hstate
    refine ⟨hno, ?_, hthreads⟩
    rcases hq with hq | hq <;> simpa [hq] using hwaiting
  | handled hl he hs =>
    obtain ⟨hiff, hmem⟩ := (hl.handled he hs).state
    intro hstate
    rw [ne_eq, ← hiff] at hstate
    obtain ⟨hno, hrest⟩ := h hstate
    exact ⟨(hmem hstate).not.mpr hno, hrest⟩
  | admitted message hidle hstate =>
    intro hne
    obtain ⟨hno, hwaiting, hthreads⟩ := h hne
    exact ⟨hno, hwaiting, disconnecting_setThread (by simp) hthreads⟩
  | refused => exact h
  | checked hidle =>
    intro hne
    obtain ⟨hno, hwaiting, hthreads⟩ := h hne
    exact ⟨hno, hwaiting, disconnecting_setThread (by simp) hthreads⟩
  | disconnected hcall => exact fun hne => absurd rfl hne
  | @queued tid f sys hf hq =>
    intro hne
    obtain ⟨hno, hwaiting, hthreads⟩ := h hne
    refine ⟨hno, ?_, disconnecting_setThread (by simp) hthreads⟩
    change .shutdownInLoop ∉ waiting sys
    simpa [hq, hwaiting] using (functor_ne hf hthreads).symm
  | called hf hw hr =>
    obtain ⟨hstate, hmem⟩ := ConnFunctor.run_state hr
    intro hne
    obtain ⟨hno, hwaiting, hthreads⟩ := h (hstate ▸ hne)
    exact ⟨(hmem (functor_ne hf hthreads)).not.mpr hno, hwaiting,
      disconnecting_setThread (by simp) hthreads⟩
  | ran hq hw hr =>
    obtain ⟨hstate, hmem⟩ := ConnFunctor.run_state hr
    intro hne
    obtain ⟨hno, hwaiting, hthreads⟩ := h (hstate ▸ hne)
    rw [hq, List.mem_cons, not_or] at hwaiting
    exact ⟨(hmem (Ne.symm hwaiting.1)).not.mpr hno, hwaiting.2, hthreads⟩

structure Inv (s : ConnSystem) : Prop where
  out : TcpConnection.OutInv s.conn
  account : s.Account
  early : s.Early

theorem Happens.inv (he : Happens s t) (h : s.Inv) : t.Inv := by
  refine ⟨?_, he.account h.account, he.early h.early⟩
  cases he with
  | handled hl he hs => exact (hl.handled he hs).outInv h.out
  | disconnected hcall => exact (TcpConnection.neutral_state _).outInv h.out
  | called hf hw hr => exact ConnFunctor.run_outInv hr hw h.out
  | ran hq hw hr => exact ConnFunctor.run_outInv hr hw h.out
  | _ => exact h.out

theorem inv_start (tid : ThreadId) (fd : Int) (wc : Bool) : (start tid fd wc).Inv := by
  refine ⟨(TcpConnection.new_shutInv fd wc).out, ⟨[], .nil, ?_⟩, ?_⟩
  · exact List.Perm.refl []
  · intro _
    refine ⟨?_, ?_, ?_⟩ <;> simp [start, TcpConnection.new, waiting, LoopSystem.start, Pc.batch,
      EventLoop.new]

theorem not_inFlight_iff : ¬ s.InFlight ↔
    (∀ tid, (s.threads tid).message = none) ∧ queued s.sys = [] := by
  have hcall : ∀ c : ConnCall, c.message = none ↔ ∀ message, c ≠ .send message := by
    intro c
    cases c <;> simp [ConnCall.message, ConnCall.functor, ConnFunctor.message]
  have hfunctor : ∀ f : ConnFunctor, f.message = none ↔ ∀ message, f ≠ .sendInLoop message := by
    intro f
    cases f <;> simp [ConnFunctor.message]
  simp only [InFlight, not_or, not_exists, hcall, queued, List.filterMap_eq_nil_iff, hfunctor]
  grind

/-- When as many messages have been passed to `sendInLoop` as admitted, nothing is in flight. -/
theorem Inv.not_inFlight (h : s.Inv)
    (hlen : s.admitted.length = (TcpConnection.messages s.conn.trace).length) : ¬ s.InFlight := by
  obtain ⟨flying, hflying, hperm⟩ := h.account
  have hsum := hperm.length_eq
  simp only [List.length_append, List.length_map] at hsum
  have hflyingnil : flying = [] := List.eq_nil_of_length_eq_zero (by omega)
  subst hflyingnil
  refine not_inFlight_iff.mpr ⟨fun tid => ?_, List.eq_nil_of_length_eq_zero (by omega)⟩
  rw [Option.eq_none_iff_forall_ne_some]
  intro message hm
  have hmem := (hflying.mem tid message).mpr hm
  cases hmem

/-- A send is in flight still where all places of `s` are taken over. -/
theorem InFlight.mono (h : s.InFlight)
    (hthreads : ∀ tid, (t.threads tid).message = none → (s.threads tid).message = none)
    (hq : queued t.sys = [] → queued s.sys = []) : t.InFlight := by
  by_contra hno
  rw [not_inFlight_iff] at hno
  exact absurd h (not_inFlight_iff.mpr ⟨fun tid => hthreads tid (hno.1 tid), hq hno.2⟩)

theorem message_setThread_none {tid : ThreadId} {c : ConnCall}
    (hc : c.message = none → (s.threads tid).message = none) (t : ThreadId)
    (h : ((s.setThread tid c).threads t).message = none) : (s.threads t).message = none := by
  by_cases ht : t = tid
  · subst ht
    exact hc (by simpa [setThread] using h)
  · simpa [setThread, ht] using h

theorem message_none_setThread {tid : ThreadId} {c : ConnCall} (hc : c.message = none)
    (t : ThreadId) (h : (s.threads t).message = none) :
    ((s.setThread tid c).threads t).message = none := by
  by_cases ht : t = tid <;> simp [setThread, ht, hc, h]

/-- With nothing in flight all that was admitted has been passed to `sendInLoop`. -/
theorem Inv.allSent (h : s.Inv) (hno : ¬ s.InFlight) :
    TcpConnection.AllSent s.admitted s.conn.trace := by
  obtain ⟨flying, hflying, hperm⟩ := h.account
  rw [not_inFlight_iff] at hno
  obtain rfl := hflying.eq_nil hno.1
  intro message _
  rw [hperm.count_eq, hno.2]
  simp

/-- Only `send` in a connected connection brings a message into flight. -/
theorem Happens.inFlight (he : Happens s t) (ht : t.InFlight) :
    s.InFlight ∨ (s.conn.state_ = .kConnected ∧ t.conn = s.conn) := by
  cases he with
  | loop hq => exact Or.inl (ht.mono (fun _ h => h) (fun h => (queued_loop hq).trans h))
  | handled hl he hs => exact Or.inl (ht.mono (fun _ h => h) id)
  | admitted message hidle hstate => exact Or.inr ⟨hstate, rfl⟩
  | refused => exact Or.inl ht
  | checked hidle => exact Or.inl (ht.mono (message_none_setThread rfl) id)
  | disconnected hcall => exact Or.inl (ht.mono (message_none_setThread rfl) id)
  | @queued tid f sys hf hq =>
    left
    by_contra hno
    rw [not_inFlight_iff] at hno
    refine absurd ht (not_inFlight_iff.mpr ⟨fun t => message_none_setThread rfl t (hno.1 t), ?_⟩)
    change ConnSystem.queued sys = []
    rw [queued_push hq, hno.2, ← ConnCall.message_functor hf, hno.1]
    rfl
  | called hf hw hr => exact Or.inl (ht.mono (message_none_setThread rfl) id)
  | ran hq hw hr =>
    refine Or.inl (ht.mono (fun _ h => h) ?_)
    rw [queued_pop hq]
    exact fun h => (List.append_eq_nil_iff.mp h).2

/-- The step calls `shutdownWrite`. -/
def CallsShutdownWrite (s t : ConnSystem) : Prop :=
  s.conn.trace.count .shutdownWrite < t.conn.trace.count .shutdownWrite

structure Good (s : ConnSystem) : Prop where
  settled : .shutdownWrite ∈ s.conn.trace → ¬ s.InFlight
  inOrder : TcpConnection.InOrder s.admitted s.conn

theorem callsShutdownWrite_of_mem (hs : .shutdownWrite ∉ s.conn.trace)
    (ht : .shutdownWrite ∈ t.conn.trace) : CallsShutdownWrite s t := by
  rw [CallsShutdownWrite, List.count_eq_zero_of_not_mem hs]
  exact List.count_pos_iff.mpr ht

theorem Inv.not_mem (h : s.Inv) (hstate : s.conn.state_ = .kConnected) :
    .shutdownWrite ∉ s.conn.trace :=
  (h.early (by simp [hstate])).1

/-- Behind the half-close nothing comes into flight. -/
theorem Happens.settled (he : Happens s t) (hi : s.Inv) (h : s.Good)
    (hc : CallsShutdownWrite s t → ¬ s.InFlight) (ht : .shutdownWrite ∈ t.conn.trace) :
    ¬ t.InFlight := by
  have hno : ¬ s.InFlight := by
    by_cases hs : .shutdownWrite ∈ s.conn.trace
    · exact h.settled hs
    · exact hc (callsShutdownWrite_of_mem hs ht)
  intro hfly
  rcases he.inFlight hfly with hs | ⟨hstate, hconn⟩
  · exact hno hs
  · rw [hconn] at ht
    exact hi.not_mem hstate ht

/-- A functor runs in order unless it is a `sendInLoop` behind the half-close. -/
theorem run_inOrder {f : ConnFunctor} {c : TcpConnection} {w : WriteResult} (hi : s.Inv)
    (h : s.Good) (hfly : f.message ≠ none → s.InFlight) (hw : f.CanWrite w)
    (hr : f.run s.conn w = .ok c)
    (hc : s.conn.trace.count .shutdownWrite < c.trace.count .shutdownWrite → ¬ s.InFlight) :
    TcpConnection.InOrder s.admitted c := by
  cases f with
  | sendInLoop message =>
    refine .of_not_mem (ConnFunctor.run_outInv hr hw hi.out) ?_
    rw [(ConnFunctor.run_state hr).2 (by simp)]
    exact fun hmem => h.settled hmem (hfly (by simp [ConnFunctor.message]))
  | shutdownInLoop =>
    obtain rfl := Except.ok.inj hr
    exact h.inOrder.shutdownInLoop (fun hlt => hi.allSent (hc hlt))
  | user =>
    obtain rfl := Except.ok.inj hr
    exact h.inOrder

theorem inFlight_thread {tid : ThreadId} (h : (s.threads tid).message ≠ none) : s.InFlight := by
  by_contra hno
  exact h ((not_inFlight_iff.mp hno).1 tid)

theorem inFlight_queued (h : queued s.sys ≠ []) : s.InFlight := by
  by_contra hno
  exact h (not_inFlight_iff.mp hno).2

theorem Happens.inOrder (he : Happens s t) (hi : s.Inv) (h : s.Good)
    (hc : CallsShutdownWrite s t → ¬ s.InFlight) : TcpConnection.InOrder t.admitted t.conn := by
  cases he with
  | handled hl he hs =>
    cases hl.handled he hs with
    | neutral hneutral _ => exact h.inOrder.neutral hneutral
    | written hw hs => exact h.inOrder.handleWrite hw hs (fun hlt => hi.allSent (hc hlt))
  | admitted message hidle hstate => exact .of_not_mem hi.out (hi.not_mem hstate)
  | disconnected hcall => exact h.inOrder.neutral (TcpConnection.neutral_state _)
  | called hf hw hr =>
    refine run_inOrder (s := s) hi h (fun hne => ?_) hw hr hc
    rw [← ConnCall.message_functor hf] at hne
    exact inFlight_thread hne
  | ran hq hw hr =>
    refine run_inOrder (s := s) hi h (fun hne => inFlight_queued ?_) hw hr hc
    rw [queued_pop hq]
    simp [hne]
  | _ => exact h.inOrder

end ConnSystem

namespace TcpConnection

variable {c d : TcpConnection} {w : WriteResult}

/-- A `handleWrite` that half-closes does so last, with nothing buffered. -/
theorem handleWrite_half_closes (h : c.handleWrite w = .ok d)
    (hlt : c.trace.count .shutdownWrite < d.trace.count .shutdownWrite) :
    (∃ pre, d.trace = pre ++ [.shutdownWrite]) ∧ d.channel_.isWriting = false := by
  rcases handleWrite_ok h with ⟨_, rfl⟩ | ⟨_, e, hext, _, hd⟩
  · exact absurd hlt (Nat.lt_irrefl _)
  rcases hd with rfl | rfl
  · rw [hext.shutdownWrite_count id] at hlt
    exact absurd hlt (Nat.lt_irrefl _)
  · refine ⟨?_, isWriting_drained e⟩
    obtain ⟨f, hf, heq⟩ := drained_eq e
    rw [heq] at hlt ⊢
    split at hlt
    · rename_i hstate
      rw [if_pos hstate]
      exact ⟨f.trace, rfl⟩
    · rw [hf.shutdownWrite_count id, hext.shutdownWrite_count id] at hlt
      exact absurd hlt (Nat.lt_irrefl _)

theorem shutdownInLoop_half_closes
    (hlt : c.trace.count .shutdownWrite < c.shutdownInLoop.trace.count .shutdownWrite) :
    (∃ pre, c.shutdownInLoop.trace = pre ++ [.shutdownWrite]) ∧
      c.shutdownInLoop.channel_.isWriting = false := by
  rw [channel_shutdownInLoop]
  unfold shutdownInLoop at hlt ⊢
  by_cases hwriting : c.channel_.isWriting = true
  · rw [if_pos hwriting] at hlt
    exact absurd hlt (Nat.lt_irrefl _)
  · rw [if_neg hwriting]
    exact ⟨⟨c.trace, rfl⟩, by simpa using hwriting⟩

theorem Extends.prefix_trace {p : Effect → Prop} (h : Extends p c d) : c.trace <+: d.trace := by
  obtain ⟨es, htrace, _⟩ := h.trace
  exact ⟨es, htrace.symm⟩

theorem prefix_emit (c : TcpConnection) (e : Effect) : c.trace <+: (c.emit e).trace := ⟨[e], rfl⟩

theorem prefix_shutdownInLoop (c : TcpConnection) : c.trace <+: c.shutdownInLoop.trace := by
  unfold shutdownInLoop
  split
  · exact List.prefix_refl _
  · exact prefix_emit c _

theorem prefix_handleWrite (h : c.handleWrite w = .ok d) : c.trace <+: d.trace := by
  rcases handleWrite_ok h with ⟨_, rfl⟩ | ⟨_, e, hext, _, hd⟩
  · exact List.prefix_refl _
  rcases hd with rfl | rfl
  · exact hext.prefix_trace
  · obtain ⟨f, hf, heq⟩ := drained_eq e
    have hpre := hext.prefix_trace.trans hf.prefix_trace
    rw [heq]
    split
    · exact hpre.trans (prefix_emit f _)
    · exact hpre

theorem directWrite_writes (c : TcpConnection) (message : List UInt8) (w : WriteResult) :
    ∃ e : Effect, e.IsWrite ∧ Extends Effect.OfOutput (c.emit e) (c.directWrite message w).2 := by
  cases w with
  | failed errno => exact ⟨.writeFailed errno, trivial, .refl _⟩
  | wrote n =>
    refine ⟨.wrote (message.take n), trivial, ?_⟩
    dsimp only [directWrite]
    split
    · exact .refl _
    · exact extends_notifyWriteComplete trivial

/-- With nothing buffered `sendInLoop` calls `::write`, also for an empty message. -/
theorem sendInLoop_writes {message : List UInt8} (hwriting : c.channel_.isWriting = false)
    (hempty : c.outputBuffer_.readableBytes = 0) (h : c.sendInLoop message w = .ok d) :
    ∃ es, d.trace = c.trace ++ es ∧ ∃ e ∈ es, e.IsWrite := by
  have hrest := sendInLoop_rest h
  have hdirect : ¬ (c.emit (.sendInLoop message)).channel_.isWriting = true ∧
      (c.emit (.sendInLoop message)).outputBuffer_.readableBytes = 0 := by
    change ¬ c.channel_.isWriting = true ∧ c.outputBuffer_.readableBytes = 0
    simp [hwriting, hempty]
  rw [writeFirst, if_pos hdirect] at hrest
  obtain ⟨e, he, hext⟩ := directWrite_writes (c.emit (.sendInLoop message)) message w
  obtain ⟨es, htrace, _⟩ := (hext.trans hrest).trace
  refine ⟨[.sendInLoop message, e] ++ es, ?_, e, by simp, he⟩
  rw [htrace]
  simp [emit]

end TcpConnection

namespace ConnFunctor

variable {f : ConnFunctor} {c d : TcpConnection} {w : WriteResult}

theorem prefix_run (h : f.run c w = .ok d) : c.trace <+: d.trace := by
  cases f with
  | sendInLoop message =>
    exact (TcpConnection.prefix_emit c _).trans (TcpConnection.sendInLoop_extends h).prefix_trace
  | shutdownInLoop =>
    obtain rfl := Except.ok.inj h
    exact TcpConnection.prefix_shutdownInLoop c
  | user =>
    obtain rfl := Except.ok.inj h
    exact List.prefix_refl _

/-- A functor that half-closes is no `sendInLoop`. -/
theorem run_half_closes (h : f.run c w = .ok d)
    (hlt : c.trace.count .shutdownWrite < d.trace.count .shutdownWrite) :
    (∃ pre, d.trace = pre ++ [.shutdownWrite]) ∧ d.channel_.isWriting = false ∧
      f.message = none := by
  cases f with
  | sendInLoop message =>
    rw [(TcpConnection.sendInLoop_extends h).shutdownWrite_count id] at hlt
    simp [TcpConnection.emit] at hlt
  | shutdownInLoop =>
    obtain rfl := Except.ok.inj h
    obtain ⟨hpre, hwriting⟩ := TcpConnection.shutdownInLoop_half_closes hlt
    exact ⟨hpre, hwriting, rfl⟩
  | user =>
    obtain rfl := Except.ok.inj h
    exact absurd hlt (Nat.lt_irrefl _)

/-- With nothing buffered a functor with a message writes, and the others leave it so. -/
theorem run_unbuffered (h : f.run c w = .ok d) (hwriting : c.channel_.isWriting = false)
    (hempty : c.outputBuffer_.readableBytes = 0) :
    (∃ es, d.trace = c.trace ++ es ∧ ∃ e ∈ es, e.IsWrite) ∨
      (f.message = none ∧ d.channel_ = c.channel_ ∧ d.outputBuffer_ = c.outputBuffer_) := by
  cases f with
  | sendInLoop message => exact Or.inl (TcpConnection.sendInLoop_writes hwriting hempty h)
  | shutdownInLoop =>
    obtain rfl := Except.ok.inj h
    exact Or.inr ⟨rfl, TcpConnection.channel_shutdownInLoop c,
      (TcpConnection.quiet_shutdownInLoop c).buffer⟩
  | user =>
    obtain rfl := Except.ok.inj h
    exact Or.inr ⟨rfl, rfl, rfl⟩

end ConnFunctor

namespace ConnSystem

variable {s t : ConnSystem}

theorem Happens.prefix_trace (he : Happens s t) : s.conn.trace <+: t.conn.trace := by
  cases he with
  | handled hl he hs =>
    cases hl.handled he hs with
    | neutral h _ =>
      obtain ⟨es, htrace, _⟩ := h.trace
      exact ⟨es, htrace.symm⟩
    | written _ h => exact TcpConnection.prefix_handleWrite h
  | called hf hw hr => exact ConnFunctor.prefix_run hr
  | ran hq hw hr => exact ConnFunctor.prefix_run hr
  | _ => exact List.prefix_refl _

/-- Behind a half-close `::write` has been called, or will be: a send is in flight and finds
nothing buffered. -/
structure Overtaken (s : ConnSystem) : Prop where
  half_closed : .shutdownWrite ∈ s.conn.trace
  leaks : (∃ pre post, s.conn.trace = pre ++ .shutdownWrite :: post ∧ ∃ e ∈ post, e.IsWrite) ∨
    (s.InFlight ∧ s.conn.channel_.isWriting = false ∧ s.conn.outputBuffer_.readableBytes = 0)

/-- A functor that is taken from its thread or from the queue, with nothing buffered. -/
theorem run_overtaken {f : ConnFunctor} {w : WriteResult} (hmem : .shutdownWrite ∈ s.conn.trace)
    (hunbuffered : s.conn.channel_.isWriting = false ∧ s.conn.outputBuffer_.readableBytes = 0)
    (hr : f.run s.conn w = .ok t.conn) (hfly : f.message = none → t.InFlight) : t.Overtaken := by
  refine ⟨(ConnFunctor.prefix_run hr).subset hmem, ?_⟩
  rcases ConnFunctor.run_unbuffered hr hunbuffered.1 hunbuffered.2 with
    ⟨es, htrace, e, he, hwrite⟩ | ⟨hnone, hchannel, hbuffer⟩
  · obtain ⟨pre, post, heq⟩ := List.mem_iff_append.mp hmem
    exact Or.inl ⟨pre, post ++ es, by rw [htrace, heq]; simp, e, by simp [he], hwrite⟩
  · rw [hchannel, hbuffer]
    exact Or.inr ⟨hfly hnone, hunbuffered⟩

theorem Happens.overtaken (he : Happens s t) (h : s.Overtaken) : t.Overtaken := by
  obtain ⟨hmem, ⟨pre, post, heq, e, hepost, hwrite⟩ | ⟨hfly, hunbuffered⟩⟩ := h
  · obtain ⟨es, htrace⟩ := he.prefix_trace
    refine ⟨he.prefix_trace.subset hmem, Or.inl ⟨pre, post ++ es, ?_, e, by simp [hepost], hwrite⟩⟩
    rw [← htrace, heq]
    simp
  · cases he with
    | loop hq =>
      exact ⟨hmem, Or.inr ⟨hfly.mono (fun _ h => h) (fun h => (queued_loop hq).symm.trans h),
        hunbuffered⟩⟩
    | handled hl he hs =>
      cases hl.handled he hs with
      | neutral hneutral _ =>
        refine ⟨hneutral.shutdownWrite_mem.mpr hmem, Or.inr ⟨hfly.mono (fun _ h => h) id, ?_⟩⟩
        rw [hneutral.writing, hneutral.buffer]
        exact hunbuffered
      | written hw hs =>
        rcases TcpConnection.handleWrite_ok hs with ⟨_, rfl⟩ | ⟨hwriting, _⟩
        · exact ⟨hmem, Or.inr ⟨hfly, hunbuffered⟩⟩
        · simp [hunbuffered.1] at hwriting
    | admitted message hidle hstate =>
      refine ⟨hmem, Or.inr ⟨hfly.mono (message_setThread_none ?_) id, hunbuffered⟩⟩
      simp [ConnCall.message, ConnCall.functor, ConnFunctor.message]
    | refused => exact ⟨hmem, Or.inr ⟨hfly, hunbuffered⟩⟩
    | checked hidle =>
      refine ⟨hmem, Or.inr ⟨hfly.mono (message_setThread_none fun _ => ?_) id, hunbuffered⟩⟩
      rw [hidle]
      rfl
    | disconnected hcall =>
      refine ⟨hmem, Or.inr ⟨hfly.mono (message_setThread_none fun _ => ?_) id, hunbuffered⟩⟩
      change (s.threads _).message = none
      rw [hcall]
      rfl
    | @queued tid f sys hf hq =>
      refine ⟨hmem, Or.inr ⟨?_, hunbuffered⟩⟩
      by_cases hnone : f.message = none
      · refine hfly.mono (message_setThread_none fun _ => ?_) ?_
        · rw [← hnone, ← ConnCall.message_functor hf]
        · change ConnSystem.queued sys = [] → _
          simp [queued_push hq, hnone]
      · apply inFlight_queued
        change ConnSystem.queued sys ≠ []
        simp [queued_push hq, hnone]
    | called hf hw hr =>
      refine run_overtaken (s := s) hmem hunbuffered hr (fun hnone => ?_)
      refine hfly.mono (message_setThread_none fun _ => ?_) id
      rw [← hnone, ← ConnCall.message_functor hf]
    | ran hq hw hr =>
      refine run_overtaken (s := s) hmem hunbuffered hr (fun hnone => ?_)
      refine hfly.mono (fun _ h => h) ?_
      simp [queued_pop hq, hnone]

/-- A half-close with a send in flight. -/
theorem Happens.overtakes (he : Happens s t) (hi : s.Inv) (hc : CallsShutdownWrite s t)
    (hfly : s.InFlight) : t.Overtaken := by
  have hmem : .shutdownWrite ∈ t.conn.trace := List.count_pos_iff.mp (Nat.zero_lt_of_lt hc)
  have hinv := he.inv hi
  suffices h : t.InFlight ∧ t.conn.channel_.isWriting = false by
    obtain ⟨hfly, hwriting⟩ := h
    refine ⟨hmem, Or.inr ⟨hfly, hwriting, ?_⟩⟩
    have hnil : t.conn.outputBuffer_.readable = [] := by
      by_contra hne
      have htrue := hinv.out.writing.mpr hne
      simp [hwriting] at htrue
    rw [← Buffer.length_readable hinv.out.wf, hnil, List.length_nil]
  cases he with
  | handled hl he hs =>
    cases hl.handled he hs with
    | neutral hneutral _ =>
      rw [CallsShutdownWrite, hneutral.shutdownWrite_count] at hc
      exact absurd hc (Nat.lt_irrefl _)
    | written hw hs =>
      exact ⟨hfly.mono (fun _ h => h) id, (TcpConnection.handleWrite_half_closes hs hc).2⟩
  | called hf hw hr =>
    obtain ⟨_, hwriting, hnone⟩ := ConnFunctor.run_half_closes hr hc
    refine ⟨hfly.mono (message_setThread_none fun _ => ?_) id, hwriting⟩
    rw [← hnone, ← ConnCall.message_functor hf]
  | ran hq hw hr =>
    obtain ⟨_, hwriting, hnone⟩ := ConnFunctor.run_half_closes hr hc
    refine ⟨hfly.mono (fun _ h => h) ?_, hwriting⟩
    simp [queued_pop hq, hnone]
  | _ => exact absurd hc (Nat.lt_irrefl _)

theorem good_start (tid : ThreadId) (fd : Int) (wc : Bool) : (start tid fd wc).Good := by
  have hno : .shutdownWrite ∉ (start tid fd wc).conn.trace := by simp [start, TcpConnection.new]
  exact ⟨fun hmem => absurd hmem hno, .of_not_mem (inv_start tid fd wc).out hno⟩

/-- Each half-close of the run finds no send in flight. -/
def Settled (s₀ : ConnSystem) (ls : List Label) : Prop :=
  ∀ pre l post s t, ls = pre ++ l :: post → Run machine s₀ pre s → machine.enabled s l →
    machine.step s l = .ok t → CallsShutdownWrite s t → ¬ s.InFlight

theorem inv_run {tid : ThreadId} {fd : Int} {wc : Bool} {ls : List Label}
    (h : Run machine (start tid fd wc) ls s) : s.Inv :=
  h.invariant (fun _ _ _ hi he hs => (step_happens he hs).inv hi) (inv_start tid fd wc)

/-- In every run whose half-closes find no send in flight the messages that were admitted are
written before the half-close, and nothing is after it. Where one does find a send in flight,
this fails once that send has run. -/
theorem shutdown_in_order_iff {tid : ThreadId} {fd : Int} {wc : Bool} {ls : List Label}
    (h : Run machine (start tid fd wc) ls s) :
    (Settled (start tid fd wc) ls →
      TcpConnection.Closes (TcpConnection.AllWritten s.admitted) s.conn.trace) ∧
    (¬ s.InFlight → TcpConnection.Closes (TcpConnection.AllWritten s.admitted) s.conn.trace →
      Settled (start tid fd wc) ls) := by
  constructor
  · intro hsettled
    have hr := h.restrict
      (p := fun s l => ∀ t, machine.step s l = .ok t → CallsShutdownWrite s t → ¬ s.InFlight)
      (fun pre l post u heq hr he t hs => hsettled pre l post u t heq hr he hs)
    have hboth : s.Inv ∧ s.Good := by
      refine hr.invariant (I := fun s => s.Inv ∧ s.Good) ?_ ⟨inv_start tid fd wc, good_start tid fd wc⟩
      rintro s l t ⟨hi, hg⟩ ⟨he, hp⟩ hs
      have hhappens := step_happens he hs
      exact ⟨hhappens.inv hi, hhappens.settled hi hg (hp t hs), hhappens.inOrder hi hg (hp t hs)⟩
    exact hboth.2.inOrder.closes
  · rintro hno hcloses pre l post u v rfl hr he hs hc hfly
    obtain ⟨u', hr', hrest⟩ := h.split
    obtain rfl := hr.unique hr'
    cases hrest with
    | cons he' hs' hrest =>
      obtain rfl := Except.ok.inj (hs.symm.trans hs')
      have hover := (step_happens he hs).overtakes (inv_run hr) hc hfly
      have hlast := hrest.invariant (fun _ _ _ hi he hs => (step_happens he hs).overtaken hi) hover
      rcases hlast.leaks with ⟨pre', post', heq, e, he, hwrite⟩ | ⟨hfly, _⟩
      · exact (hcloses pre' post' heq).2 e he hwrite
      · exact hno hfly

instance (f : ConnFunctor) (w : WriteResult) : Decidable (f.CanWrite w) :=
  match f, w with
  | .sendInLoop message, .wrote n => inferInstanceAs (Decidable (n ≤ message.bytes.length))
  | .sendInLoop _, .failed _ | .shutdownInLoop, _ | .user, _ => isTrue trivial

instance (l : LoopSystem.Label ConnFunctor) : Decidable (OfUser l) :=
  match l with
  | .runFunctor => isFalse id
  | .runInLoop _ f | .queueInLoop _ f => inferInstanceAs (Decidable (f = .user))
  | .publish | .loop | .resetQuit | .test | .pollReturns _ | .handleEvent | .handlerReturns
  | .beginPendingFunctors | .swap | .functorReturns | .endPendingFunctors | .quit _
  | .callReturns _ => isTrue trivial

instance (s : ConnSystem) : Decidable (∃ rest, s.sys.pc = .handler rest) :=
  decidable_of_iff ((match s.sys.pc with | .handler _ => true | _ => false) = true)
    (by split <;> simp_all)

instance (s : ConnSystem) (l : TcpConnection.ConnLabel) : Decidable (s.Handles l) :=
  match l with
  | .connectEstablished => inferInstanceAs (Decidable s.sys.pc.RunsUserCode)
  | .handleRead _ | .handleWrite _ | .handleError =>
    inferInstanceAs (Decidable (∃ rest, s.sys.pc = .handler rest))
  | .send _ _ | .shutdown => isFalse id

instance (s : ConnSystem) (tid : ThreadId) : Decidable (s.Idle tid) :=
  inferInstanceAs (Decidable (s.sys.calls tid = .none ∧ s.threads tid = .none))

instance (s : ConnSystem) (w : WriteResult) : Decidable (∃ f rest,
    s.sys.pc = .running (f :: rest) ∧ f.CanWrite w ∧ s.Idle s.sys.loop.threadId_) :=
  match h : s.sys.pc with
  | .running (f :: rest) =>
    decidable_of_iff (f.CanWrite w ∧ s.Idle s.sys.loop.threadId_) (by simp)
  | .running [] | .built | .outside | .entered | .testing | .polling | .handling _ | .handler _
  | .swapping | .functor _ | .returned => isFalse (by simp)

instance (s : ConnSystem) (l : Label) : Decidable (machine.enabled s l) :=
  match l with
  | .loop l => inferInstanceAs (Decidable (LoopSystem.machine.enabled s.sys l ∧ OfUser l ∧
      s.threads (l.caller.getD s.sys.loop.threadId_) = .none))
  | .runFunctor w => inferInstanceAs (Decidable (∃ f rest,
      s.sys.pc = .running (f :: rest) ∧ f.CanWrite w ∧ s.Idle s.sys.loop.threadId_))
  | .handle l => inferInstanceAs (Decidable (s.Handles l ∧
      TcpConnection.connMachine.enabled s.conn l ∧ s.Idle s.sys.loop.threadId_))
  | .send tid _ | .shutdown tid => inferInstanceAs (Decidable ((s.sys.calls tid = .none ∧
      s.sys.pc ≠ .built ∧ (tid = s.sys.loop.threadId_ → s.sys.pc.RunsUserCode)) ∧
      s.threads tid = .none))
  | .setState tid => inferInstanceAs (Decidable (s.threads tid = .shutdown))
  | .runInLoop tid w =>
    match h : (s.threads tid).functor with
    | some f => decidable_of_iff (f.CanWrite w) (by simp [machine, Enabled, h])
    | none => isFalse (by simp [machine, Enabled, h])

/-- The loop thread has established the connection and is in a handler. -/
def established : List Label :=
  [.loop .publish, .loop .loop, .loop .resetQuit, .loop .test, .loop (.pollReturns [.other]),
    .loop .handleEvent, .handle .connectEstablished]

/-- Thread 2 sends, and the loop thread runs its functor and shuts down. The half-close comes
with the event that writes the rest. -/
theorem shutdown_in_order_run :
    let ls := established ++ [.send 2 ⟨[1, 2, 3], by decide⟩, .runInLoop 2 (.wrote 0),
      .loop (.callReturns 2), .loop .handlerReturns, .loop .beginPendingFunctors, .loop .swap,
      .runFunctor (.wrote 1), .shutdown 1, .setState 1, .runInLoop 1 (.wrote 0),
      .loop .functorReturns, .loop .endPendingFunctors, .loop .test,
      .loop (.pollReturns [.wakeupChannel_, .other]), .loop .handleEvent, .loop .handleEvent,
      .handle (.handleWrite (.wrote 2))]
    ∃ s, Run machine (start 1 7 false) ls s ∧ .shutdownWrite ∈ s.conn.trace ∧
      Settled (start 1 7 false) ls ∧
      TcpConnection.Closes (TcpConnection.AllWritten s.admitted) s.conn.trace := by
  intro ls
  let sent : List Effect := [.updateChannel 3, .connectionCallback true, .sendInLoop [1, 2, 3],
    .wrote [1], .updateChannel 7, .wrote [2, 3], .updateChannel 3]
  have hex : ∃ s, Run machine (start 1 7 false) ls s ∧ s.admitted = [[1, 2, 3]] ∧
      s.conn.trace = sent ++ [.shutdownWrite] := exists_run_of_exec _ (by decide +kernel)
  obtain ⟨s, hr, hadmitted, htrace⟩ := hex
  have hno : ¬ s.InFlight := by
    apply (inv_run hr).not_inFlight
    rw [hadmitted, htrace]
    rfl
  have hcloses : TcpConnection.Closes (TcpConnection.AllWritten s.admitted) s.conn.trace := by
    rw [hadmitted, htrace]
    refine (TcpConnection.Closes.of_not_mem (by decide)).snoc ⟨fun message _ => ?_, rfl⟩
    exact Nat.le_refl _
  exact ⟨s, hr, by simp [htrace], (shutdown_in_order_iff hr).2 hno hcloses, hcloses⟩

/-- Thread 2 sends, and before its functor runs the loop thread shuts down. The functor's write
fails with `EPIPE`, and its bytes are never written. -/
theorem shutdown_overtakes :
    let ls := established ++ [.send 2 ⟨[1, 2, 3], by decide⟩, .runInLoop 2 (.wrote 0),
      .loop (.callReturns 2), .shutdown 1, .setState 1, .runInLoop 1 (.wrote 0),
      .loop .handlerReturns, .loop .beginPendingFunctors, .loop .swap, .runFunctor (.failed 32)]
    ∃ s, Run machine (start 1 7 false) ls s ∧ s.admitted = [[1, 2, 3]] ∧
      s.conn.trace = [.updateChannel 3, .connectionCallback true] ++
        .shutdownWrite :: [.sendInLoop [1, 2, 3], .writeFailed 32, .updateChannel 7] ∧
      ¬ TcpConnection.Closes (TcpConnection.AllWritten s.admitted) s.conn.trace := by
  intro ls
  have hex : ∃ s, Run machine (start 1 7 false) ls s ∧ s.admitted = [[1, 2, 3]] ∧
      s.conn.trace = [.updateChannel 3, .connectionCallback true] ++
        .shutdownWrite :: [.sendInLoop [1, 2, 3], .writeFailed 32, .updateChannel 7] :=
    exists_run_of_exec _ (by decide +kernel)
  obtain ⟨s, hr, hadmitted, htrace⟩ := hex
  refine ⟨s, hr, hadmitted, htrace, ?_⟩
  intro hcloses
  -- the half-close comes before the message has reached sendInLoop
  have hsent := (hcloses _ _ htrace).1.1 [1, 2, 3] (by simp)
  rw [hadmitted] at hsent
  exact absurd hsent (by decide)

end ConnSystem

end MuduoNet
