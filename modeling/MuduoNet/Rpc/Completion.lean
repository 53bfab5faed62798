import MuduoNet.Rpc.EndToEnd

/-!
# No call is lost

A call is entered before its request is sent, and a response that comes back finds the entry, or
the call has had its response already. So when nothing is on its way between two ends and no
service is at work, every call has been completed.
-/
namespace MuduoNet.Rpc

open Lib Lib.Outcome MuduoNet.ProtobufCodec

namespace RpcEnd

variable {conn : Nat} {first : Int64} {services : Option Services} {s t : RpcEnd}

/-- A call that has been made is somewhere on its way to the codec. -/
structure Sending (s : RpcEnd) : Prop where
  entered : ∀ n < s.calls, n ∈ s.enteredCalls ∨ ∃ thread, (s.threads thread).held = some n
  sent : ∀ id out m, .registered id out m ∈ s.history →
    (∃ thread, s.threads thread = .entered m) ∨ .sent m ∈ s.history

/-- Entries for new events, and no thread is elsewhere in `CallMethod`. -/
theorem Sending.quietly (hi : s.Sending) (hcalls : t.calls = s.calls) (hthreads : t.threads = s.threads)
    (es : List RpcEvent) (hhistory : t.history = s.history ++ es)
    (hes : ∀ id out m, .registered id out m ∉ es) : t.Sending where
  entered n hn := by
    rw [hcalls] at hn
    rw [hthreads, enteredCalls, hhistory, List.filterMap_append]
    exact (hi.entered n hn).imp_left (List.mem_append_left _)
  sent id out m hmem := by
    rw [hhistory] at hmem ⊢
    rw [hthreads]
    obtain hmem | hmem := List.mem_append.mp hmem
    · exact (hi.sent id out m hmem).imp_right (List.mem_append_left _)
    · exact absurd hmem (hes id out m)

theorem Sending.call (hi : s.Sending) {thread : Nat} (hidle : s.threads thread = .idle)
    (service method bytes : List UInt8) (hasDone : Bool) :
    (s.call thread service method bytes hasDone).Sending where
  entered n hn := by
    have hother : ∀ i, i ≠ thread →
        (s.call thread service method bytes hasDone).threads i = s.threads i := by
      intro i hne
      exact Function.update_of_ne hne _ _
    obtain hlt | rfl := Nat.lt_succ_iff_lt_or_eq.mp hn
    · obtain hold | ⟨i, hheld⟩ := hi.entered n hlt
      · exact .inl hold
      · have hne : i ≠ thread := by
          rintro rfl
          rw [hidle] at hheld
          cases hheld
        exact .inr ⟨i, by rw [hother i hne]; exact hheld⟩
    · refine .inr ⟨thread, ?_⟩
      show ((Function.update s.threads thread _) thread).held = _
      rw [Function.update_self]
      rfl
  sent id out m hmem := by
    obtain ⟨i, hpc⟩ | hsent := hi.sent id out m hmem
    · have hne : i ≠ thread := by
        rintro rfl
        rw [hidle] at hpc
        cases hpc
      exact .inl ⟨i, (Function.update_of_ne hne _ _).trans hpc⟩
    · exact .inr hsent

theorem Sending.register (hi : s.Sending) {thread : Nat} {id : Int64} {out : OutstandingCall}
    {message : RpcMessage} (hpc : s.threads thread = .counted id out message) :
    (s.register thread id out message).Sending where
  entered n hn := by
    have hentered : (s.register thread id out message).enteredCalls =
        s.enteredCalls ++ out.response.toList := enteredCalls_log _ _
    rw [hentered, List.mem_append]
    obtain hold | ⟨i, hheld⟩ := hi.entered n hn
    · exact .inl (.inl hold)
    · by_cases hi' : i = thread
      · subst hi'
        rw [hpc] at hheld
        exact .inl (.inr (Option.mem_toList.mpr hheld))
      · refine .inr ⟨i, ?_⟩
        show ((Function.update s.threads thread _) i).held = _
        rw [Function.update_of_ne hi']
        exact hheld
  sent id' out' m hmem := by
    obtain hmem | hmem := List.mem_append.mp hmem
    · obtain ⟨i, hentered⟩ | hsent := hi.sent id' out' m hmem
      · have hne : i ≠ thread := by
          rintro rfl
          rw [hpc] at hentered
          cases hentered
        exact .inl ⟨i, (Function.update_of_ne hne _ _).trans hentered⟩
      · exact .inr (List.mem_append_left _ hsent)
    · obtain ⟨_, _, rfl⟩ := RpcEvent.registered.inj (List.mem_singleton.mp hmem)
      exact .inl ⟨thread, Function.update_self _ _ _⟩

theorem Sending.send (hi : s.Sending) {thread : Nat} {message : RpcMessage}
    (hpc : s.threads thread = .entered message) :
    ((s.setThread thread .idle).log (.sent message)).Sending where
  entered n hn := by
    rw [enteredCalls_log, List.mem_append]
    obtain hold | ⟨i, hheld⟩ := hi.entered n hn
    · exact .inl (.inl hold)
    · have hne : i ≠ thread := by
        rintro rfl
        rw [hpc] at hheld
        cases hheld
      refine .inr ⟨i, ?_⟩
      show ((Function.update s.threads thread _) i).held = _
      rw [Function.update_of_ne hne]
      exact hheld
  sent id out m hmem := by
    obtain hmem | hmem := List.mem_append.mp hmem
    · obtain ⟨i, hentered⟩ | hsent := hi.sent id out m hmem
      · by_cases hi' : i = thread
        · subst hi'
          obtain rfl := CallPc.entered.inj (hpc.symm.trans hentered)
          exact .inr (List.mem_append_right _ (List.mem_singleton_self _))
        · exact .inl ⟨i, (Function.update_of_ne hi' _ _).trans hentered⟩
      · exact .inr (List.mem_append_left _ hsent)
    · cases List.mem_singleton.mp hmem

theorem Happens.sending (h : Happens s t) (hi : s.Sending) : t.Sending := by
  cases h with
  | call thread service method bytes hasDone hidle => exact hi.call hidle service method bytes hasDone
  | register hpc => exact hi.register hpc
  | send hpc => exact hi.send hpc
  | response htype hidle hpresent => exact hi.quietly rfl rfl [_] rfl (by simp)
  | request htype hidle => exact hi.quietly rfl rfl [_] rfl (by simp)
  | error hidle => exact hi
  | @act a rest hactions =>
    obtain ⟨es, hes, _, hcalls, hthreads, _, hhistory⟩ :=
      perform_eq ({ s with actions := rest }.log (.did a)) a
    refine hi.quietly hcalls hthreads (.did a :: es) (by rw [hhistory, log, List.append_assoc]; rfl) ?_
    intro id out m hmem
    obtain h | hmem := List.mem_cons.mp hmem
    · cases h
    · obtain ⟨q, r, h⟩ := hes _ hmem
      cases h
  | done bytes hmem => exact hi.quietly rfl rfl [_] rfl (by simp)

theorem reachable_sending (h : Reachable (machine conn) (start conn first services) s) : s.Sending :=
  h.invariant (fun _ _ _ hi he hs => (step_happens he hs).sending hi)
    ⟨by simp [start], by simp [start]⟩

theorem Happens.calls_le (h : Happens s t) : s.calls ≤ t.calls := by
  cases h with
  | call => exact Nat.le_succ _
  | @act a rest hactions =>
    obtain ⟨_, _, _, hcalls, _⟩ := perform_eq ({ s with actions := rest }.log (.did a)) a
    rw [hcalls]
    exact Nat.le_refl _
  | _ => exact Nat.le_refl _

/-- A response that arrives leaves nothing under its id. -/
theorem Happens.responses (h : Happens s t) {reply : RpcMessage} {out : OutstandingCall}
    (hmem : .response reply out ∈ t.history) :
    .response reply out ∈ s.history ∨ t.channel.outstandings_ reply.id.toInt64 = none := by
  have hconcat : ∀ {e : RpcEvent}, .response reply out ≠ e →
      .response reply out ∈ s.history ++ [e] → .response reply out ∈ s.history := by
    intro e hne hmem
    exact (List.mem_append.mp hmem).resolve_right (by simpa using hne)
  cases h with
  | call => exact .inl hmem
  | register => exact .inl (hconcat (by simp) hmem)
  | send => exact .inl (hconcat (by simp) hmem)
  | response =>
    obtain hmem | hmem := List.mem_append.mp hmem
    · exact .inl hmem
    · obtain ⟨rfl, _⟩ := RpcEvent.response.inj (List.mem_singleton.mp hmem)
      right
      show (s.channel.takeCall _).2.outstandings_ _ = none
      rw [(takeCall_eq _ _).2]
      exact Function.update_self _ _ _
  | request => exact .inl (hconcat (by simp) hmem)
  | error => exact .inl hmem
  | @act a rest hactions =>
    obtain ⟨es, hes, _, _, _, _, hhistory⟩ := perform_eq ({ s with actions := rest }.log (.did a)) a
    rw [hhistory] at hmem
    obtain hmem | hmem := List.mem_append.mp hmem
    · exact .inl (hconcat (by simp) hmem)
    · obtain ⟨q, r, h⟩ := hes _ hmem
      cases h
  | done => exact .inl (hconcat (by simp) hmem)

/-- A thread enters `CallMethod` by a call of its own only. -/
theorem step_idle {l : RpcLabel} {thread : Nat} (he : s.enabled l) (hs : s.step conn l = .ok t)
    (hl : ∀ service method bytes hasDone, l ≠ .call thread service method bytes hasDone)
    (hidle : s.threads thread = .idle) : t.threads thread = .idle := by
  have hother : ∀ {i pc}, s.threads i = pc → pc ≠ .idle → ∀ pc',
      Function.update s.threads i pc' thread = .idle := by
    intro i pc hpc hne pc'
    have hi : thread ≠ i := by
      rintro rfl
      exact hne (hpc.symm.trans hidle)
    rw [Function.update_of_ne hi]
    exact hidle
  cases l with
  | call i service method bytes hasDone =>
    cases hs
    have hi : thread ≠ i := by
      rintro rfl
      exact hl service method bytes hasDone rfl
    exact (Function.update_of_ne hi _ _).trans hidle
  | register i =>
    obtain ⟨id, out, message, hpc⟩ := he
    simp only [step, hpc] at hs
    cases hs
    exact hother hpc (by simp) _
  | send i =>
    obtain ⟨message, hpc⟩ := he
    simp only [step, hpc] at hs
    cases hs
    exact hother hpc (by simp) _
  | receive message =>
    obtain ⟨_, _, hs⟩ := bind_eq_ok hs
    cases hs
    exact hidle
  | act =>
    cases hactions : s.actions with
    | nil => exact absurd hactions he
    | cons a rest =>
      simp only [step, hactions] at hs
      cases hs
      obtain ⟨_, _, _, _, hthreads, _⟩ := perform_eq ({ s with actions := rest }.log (.did a)) a
      rw [hthreads]
      exact hidle
  | done message bytes =>
    cases hs
    exact hidle

end RpcEnd

namespace Link

/-- Nothing is on its way, and nobody is at work. -/
structure Quiet {P : RpcProtobuf} (s : Link P) : Prop where
  incoming : ∀ x, (s x).incoming = []
  inbox : ∀ x, (s x).inbox = []
  actions : ∀ x, (s x).rpc.actions = []
  accepted : ∀ x, (s x).rpc.accepted = []
  idle : ∀ x thread, (s x).rpc.threads thread = .idle

section

variable {P : RpcProtobuf} {conn : Nat} {first : Bool → Int64}
  {services : Bool → Option Services} {s t : Link P} {x : Bool}

theorem calls_le {l : LinkLabel} (he : (machine P conn).enabled s l)
    (hs : (machine P conn).step s l = .ok t) (y : Bool) : (s y).rpc.calls ≤ (t y).rpc.calls := by
  obtain ⟨heq, _⟩ | ⟨_, he', hs', _⟩ := step_end he hs y
  · rw [heq]
  · exact (RpcEnd.step_happens he' hs').calls_le

/-- `onMessage` leaves no whole frame in the buffer. -/
theorem step_exhausted {l : LinkLabel} (hi : ∀ y, Carried s y)
    (hbefore : ∀ y m n, head P.toProtobuf (s y).inputBuffer_.readable ≠ .frame m n)
    (he : (machine P conn).enabled s l) (hs : (machine P conn).step s l = .ok t) (y : Bool) :
    ∀ m n, head P.toProtobuf (t y).inputBuffer_.readable ≠ .frame m n := by
  have hsame : (t y).inputBuffer_ = (s y).inputBuffer_ →
      ∀ m n, head P.toProtobuf (t y).inputBuffer_.readable ≠ .frame m n := by
    intro hbuf
    rw [hbuf]
    exact hbefore y
  cases l with
  | own x l =>
    obtain ⟨_, _, _, _, htx, hty⟩ := step_own hs
    obtain rfl | rfl := Bool.eq_or_eq_not y x
    · exact hsame (by rw [htx])
    · exact hsame (by rw [hty])
  | deliver x chunk =>
    obtain ⟨buf, events, buf', hbuf, hevents, htx, hty⟩ := step_deliver hs
    obtain rfl | rfl := Bool.eq_or_eq_not y x
    · obtain ⟨hwf, _⟩ := (Buffer.append_span_sat (hi y).wf chunk).of_ok hbuf
      obtain ⟨_, fs, hd, _⟩ := (onMessage_sat P.toProtobuf hwf).of_ok hevents
      rw [htx]
      exact hd.exhausted
    · exact hsame (by rw [hty])
  | hand x =>
    cases hinbox : (s x).inbox with
    | nil => exact absurd hinbox he.1
    | cons e inbox =>
      cases e with
      | messageCallback m =>
        obtain ⟨_, _, _, _, htx, hty⟩ := step_hand hinbox hs
        obtain rfl | rfl := Bool.eq_or_eq_not y x
        · exact hsame (by rw [htx])
        · exact hsame (by rw [hty])
      | errorCallback code =>
        simp only [machine, step, hinbox] at hs
        cases hs
        obtain rfl | rfl := Bool.eq_or_eq_not y x
        · exact hsame (by rw [Function.update_self])
        · exact hsame (by rw [Function.update_of_ne (by cases x <;> decide)])

/-- Every response has been for a call that was entered before, and that has a response. -/
def Heard (s : Link P) (x : Bool) : Prop :=
  ∀ reply out, .response reply out ∈ (s x).rpc.history → ∃ out' request reply',
    .registered reply.id.toInt64 out' request ∈ (s x).rpc.history ∧
      .response reply' out' ∈ (s x).rpc.history

/-- An entry was there when the response came, for the request had been sent. -/
theorem heard_of_none (hP : P.Sound) (h : Reachable (machine P conn) (start conn P first services) s)
    (hfit : AllFit s) (hcalls : (s x).rpc.calls ≤ 2 ^ 64) {reply : RpcMessage}
    {out : OutstandingCall} (hreply : .response reply out ∈ (s x).rpc.history)
    (hnone : (s x).rpc.channel.outstandings_ reply.id.toInt64 = none) :
    ∃ out' request reply', .registered reply.id.toInt64 out' request ∈ (s x).rpc.history ∧
      .response reply' out' ∈ (s x).rpc.history := by
  have hserves := RpcEnd.reachable_serves (end_reachable h !x)
  obtain ⟨q, hanswered⟩ := response_answered h (reachable_carried hP h hfit x) hreply
  have hq : q ∈ (s !x).rpc.requests := hserves.account.mem_iff.mpr
    (List.mem_append_left _ (List.mem_filterMap.mpr ⟨_, hanswered, rfl⟩))
  obtain ⟨id, out', hregistered⟩ := request_registered h (reachable_carried hP h hfit !x) hq
  rw [Bool.not_not] at hregistered
  obtain ⟨_, _, _, _, _, _, hid⟩ := (RpcEnd.reachable_inv (end_reachable h x)).registered _ _ _
    hregistered
  have hreplyId : reply.id.toInt64 = id := by
    rw [(hserves.answered q reply hanswered).id_eq, hid, Int64.toInt64_toUInt64]
  rw [hreplyId] at hnone ⊢
  by_contra hno
  have hsome := (RpcEnd.outstanding_iff_unanswered (end_reachable h x) hcalls id out').mpr
    ⟨⟨q, hregistered⟩, fun reply' hreply' => hno ⟨out', q, reply', hregistered, hreply'⟩⟩
  rw [hnone] at hsome
  cases hsome

theorem step_heard (hP : P.Sound) (h : Reachable (machine P conn) (start conn P first services) s)
    {l : LinkLabel} (he : (machine P conn).enabled s l) (hs : (machine P conn).step s l = .ok t)
    (hfit : AllFit t) (hcalls : ∀ y, (t y).rpc.calls ≤ 2 ^ 64) (hi : ∀ y, Heard s y) (y : Bool) :
    Heard t y := by
  intro reply out hreply
  obtain ⟨es, hhistory⟩ := history_grows he hs y
  have hkept : .response reply out ∈ (s y).rpc.history → ∃ out' request reply',
      .registered reply.id.toInt64 out' request ∈ (t y).rpc.history ∧
        .response reply' out' ∈ (t y).rpc.history := by
    intro hold
    obtain ⟨out', request, reply', hregistered, hresponse⟩ := hi y reply out hold
    rw [hhistory]
    exact ⟨out', request, reply', List.mem_append_left _ hregistered,
      List.mem_append_left _ hresponse⟩
  obtain ⟨heq, _⟩ | ⟨_, he', hs', _⟩ := step_end he hs y
  · rw [heq] at hreply
    exact hkept hreply
  · obtain hold | hnone := (RpcEnd.step_happens he' hs').responses hreply
    · exact hkept hold
    · exact heard_of_none hP (h.next he hs) hfit (hcalls y) hreply hnone

theorem reachable_heard (hP : P.Sound) (h : Reachable (machine P conn) (start conn P first services) s)
    (hfit : AllFit s) (hcalls : ∀ y, (s y).rpc.calls ≤ 2 ^ 64) :
    ∀ y, Heard s y ∧ ∀ m n, head P.toProtobuf (s y).inputBuffer_.readable ≠ .frame m n := by
  have hboth : Reachable (machine P conn) (start conn P first services) s ∧
      (AllFit s → (∀ y, (s y).rpc.calls ≤ 2 ^ 64) → ∀ y, Heard s y ∧
        ∀ m n, head P.toProtobuf (s y).inputBuffer_.readable ≠ .frame m n) := by
    refine h.invariant (I := fun s => Reachable (machine P conn) (start conn P first services) s ∧
      (AllFit s → (∀ y, (s y).rpc.calls ≤ 2 ^ 64) → ∀ y, Heard s y ∧
        ∀ m n, head P.toProtobuf (s y).inputBuffer_.readable ≠ .frame m n)) ?_ ⟨.refl, ?_⟩
    · intro s l t ⟨hr, hi⟩ he hs
      refine ⟨hr.next he hs, ?_⟩
      intro hfit hcalls y
      have hbefore := allFit_of_step he hs hfit
      have hold := hi hbefore fun y => Nat.le_trans (calls_le he hs y) (hcalls y)
      exact ⟨step_heard hP hr he hs hfit hcalls (fun y => (hold y).1) y,
        step_exhausted (reachable_carried hP hr hbefore) (fun y => (hold y).2) he hs y⟩
    · intro _ _ y
      constructor
      · intro reply out hreply
        cases hreply
      · show ∀ m n, head P.toProtobuf Buffer.new.readable ≠ .frame m n
        rw [Buffer.readable_new]
        exact (framing P.toProtobuf).head_nil
  exact hboth.2 hfit hcalls

/-- What has been sent has been taken in. -/
theorem Quiet.handed (hP : P.Sound) (h : Reachable (machine P conn) (start conn P first services) s)
    (hfit : AllFit s) (hcalls : ∀ y, (s y).rpc.calls ≤ 2 ^ 64) (hq : Quiet s) (x : Bool) :
    (s !x).rpc.emitted = (s x).rpc.handed := by
  obtain ⟨waiting, flight, hinbox, hbytes, hsent⟩ := (reachable_carried hP h hfit x).stream
  rw [hq.inbox x] at hinbox
  obtain rfl : waiting = [] := List.map_eq_nil_iff.mp hinbox.symm
  rw [hq.incoming x, List.append_nil] at hbytes
  cases flight with
  | nil => rw [hsent, List.append_nil, List.append_nil]
  | cons m flight =>
    -- the buffer would begin with a whole frame
    have hvalid : (framing P.toProtobuf).Valid (P.frame m) (P.ofRpc m) := by
      apply hP.frame_valid
      apply hfit !x
      rw [hsent]
      simp
    rw [List.flatMap_cons] at hbytes
    refine absurd ?_ ((reachable_heard hP h hfit hcalls x).2 (P.ofRpc m) (P.frame m).length)
    rw [hbytes]
    exact (framing P.toProtobuf).frame_append _ hvalid

/-- The request of a call has been answered, and the answer has come back. -/
theorem Quiet.answered (hP : P.Sound) (h : Reachable (machine P conn) (start conn P first services) s)
    (hfit : AllFit s) (hcalls : ∀ y, (s y).rpc.calls ≤ 2 ^ 64) (hq : Quiet s) {x : Bool} {id : Int64}
    {out : OutstandingCall} {request : RpcMessage}
    (hregistered : .registered id out request ∈ (s x).rpc.history) :
    ∃ reply, .response reply out ∈ (s x).rpc.history := by
  obtain ⟨_, _, _, _, _, htype, hid⟩ := (RpcEnd.reachable_inv (end_reachable h x)).registered _ _ _
    hregistered
  have hsent : .sent request ∈ (s x).rpc.history := by
    refine ((RpcEnd.reachable_sending (end_reachable h x)).sent _ _ _ hregistered).resolve_left ?_
    rintro ⟨thread, hpc⟩
    rw [hq.idle x thread] at hpc
    cases hpc
  have harrived : request ∈ (s !x).rpc.handed := by
    rw [← hq.handed hP h hfit hcalls !x, Bool.not_not]
    exact List.mem_filterMap.mpr ⟨_, hsent, rfl⟩
  have hserves := RpcEnd.reachable_serves (end_reachable h !x)
  have hrequest : request ∈ (s !x).rpc.requests := by
    obtain ⟨event, hmem, hevent⟩ := List.mem_filterMap.mp harrived
    have htyped := RpcEnd.reachable_typed (end_reachable h !x) _ hmem
    cases event with
    | request q error =>
      obtain rfl := Option.some.inj hevent
      exact List.mem_filterMap.mpr ⟨_, hmem, rfl⟩
    | response q out =>
      obtain rfl := Option.some.inj hevent
      cases htype.symm.trans htyped
    | _ => cases hevent
  have hperm := hserves.account
  rw [hq.accepted !x, hq.actions !x, List.filterMap_nil, List.append_nil, List.append_nil] at hperm
  obtain ⟨event, hmem, hevent⟩ := List.mem_filterMap.mp (hperm.mem_iff.mp hrequest)
  cases event with
  | answered q reply =>
    obtain rfl := Option.some.inj hevent
    have hreply := hserves.answered q reply hmem
    have hback : reply ∈ (s x).rpc.handed := by
      rw [← hq.handed hP h hfit hcalls x]
      exact List.mem_filterMap.mpr ⟨_, hmem, rfl⟩
    obtain ⟨event, hmem', hevent'⟩ := List.mem_filterMap.mp hback
    have htyped := RpcEnd.reachable_typed (end_reachable h x) _ hmem'
    cases event with
    | response r out' =>
      obtain rfl := Option.some.inj hevent'
      obtain ⟨out₁, request₁, reply₁, hregistered₁, hresponse⟩ :=
        (reachable_heard hP h hfit hcalls x).1 _ _ hmem'
      rw [hreply.id_eq, hid, Int64.toInt64_toUInt64] at hregistered₁
      obtain ⟨rfl, _⟩ := (RpcEnd.replies_withstood (end_reachable h x)).registered_once (hcalls x)
        hregistered hregistered₁
      exact ⟨reply₁, hresponse⟩
    | request r error =>
      obtain rfl := Option.some.inj hevent'
      cases hreply.type_eq.symm.trans htyped
    | _ => cases hevent'
  | _ => cases hevent

/-- The `n`-th call of `x` has had the answer of the other end to its request. This, if it is bytes,
has been parsed into the response of the call, the closure has been run if there is one, the response
has been deleted, and nothing else has been done with them. -/
structure Completed (s : Link P) (x : Bool) (n : Nat) (request reply : RpcMessage) : Prop where
  entered : ∃ id out, .registered id out request ∈ (s x).rpc.history ∧
    .response reply out ∈ (s x).rpc.history ∧ out.response = some n ∧
    ((s x).rpc.history.filterMap RpcEvent.action).filter (fun a => a.ofCall = some n) =
      (reply.response.map (.parse n)).toList ++ (out.done.map .run).toList ++ [.free n]
  answered : .answered request reply ∈ (s !x).rpc.history

theorem Quiet.completed (hP : P.Sound) (h : Reachable (machine P conn) (start conn P first services) s)
    (hfit : AllFit s) (hcalls : ∀ y, (s y).rpc.calls ≤ 2 ^ 64) (hq : Quiet s) {x : Bool} {n : Nat}
    (hn : n < (s x).rpc.calls) : ∃ request reply, Completed s x n request reply := by
  have hi := RpcEnd.reachable_inv (end_reachable h x)
  have hb := RpcEnd.replies_withstood (end_reachable h x)
  have hentered : n ∈ (s x).rpc.enteredCalls := by
    refine ((RpcEnd.reachable_sending (end_reachable h x)).entered n hn).resolve_right ?_
    rintro ⟨thread, hheld⟩
    rw [hq.idle x thread] at hheld
    cases hheld
  obtain ⟨event, hmem, hevent⟩ := List.mem_filterMap.mp hentered
  cases event with
  | registered id out request =>
    have hout : out.response = some n := hevent
    obtain ⟨reply, hreply⟩ := hq.answered hP h hfit hcalls hmem
    obtain ⟨id', request', hregistered, hanswered⟩ := matched hP h hfit (hcalls x) hreply hout
    refine ⟨request', reply, ⟨id', out, hregistered, hreply, hout, ?_⟩, hanswered⟩
    obtain ⟨pre, message, out', post, hsplit, hout', _, hused⟩ | ⟨hnone, _⟩ := hb.used n
    · -- the call has been found by one response only
      obtain ⟨pre', post', hsplit'⟩ := List.append_of_mem hreply
      obtain rfl := hi.once hsplit hsplit' hout' hout
      obtain ⟨heq, _⟩ := List.cons.inj (List.append_cancel_left (hsplit.symm.trans hsplit'))
      obtain ⟨rfl, rfl⟩ := RpcEvent.response.inj heq
      rw [RpcEnd.usesOf, hq.actions x, List.append_nil] at hused
      exact hused
    · exact absurd hout (hnone reply out hreply)
  | _ => cases hevent

/-- When nothing is on its way any more, no call waits in either table, and every call that was made
has been completed. -/
theorem calls_completed (hP : P.Sound)
    (h : Reachable (machine P conn) (start conn P first services) s) (hfit : AllFit s)
    (hcalls : ∀ y, (s y).rpc.calls ≤ 2 ^ 64) (hq : Quiet s) (x : Bool) :
    (∀ id, (s x).rpc.channel.outstandings_ id = none) ∧
      ∀ n < (s x).rpc.calls, ∃ request reply, Completed s x n request reply := by
  constructor
  · intro id
    by_contra hne
    obtain ⟨out, hout⟩ := Option.ne_none_iff_exists'.mp hne
    obtain ⟨⟨request, hregistered⟩, hno⟩ :=
      (RpcEnd.outstanding_iff_unanswered (end_reachable h x) (hcalls x) id out).mp hout
    obtain ⟨reply, hreply⟩ := hq.answered hP h hfit hcalls hregistered
    exact hno reply hreply
  · intro n hn
    exact hq.completed hP h hfit hcalls hn

end

section

variable {P : RpcProtobuf} {conn : Nat} {s t : Link P} {x : Bool} {thread : Nat}

/-- The thread that begins a call. -/
def caller : LinkLabel → Option (Bool × Nat)
  | .own x (.call i ..) => some (x, i)
  | _ => none

theorem step_idle {l : LinkLabel} (he : (machine P conn).enabled s l)
    (hs : (machine P conn).step s l = .ok t) (hl : caller l ≠ some (x, thread))
    (hidle : (s x).rpc.threads thread = .idle) : (t x).rpc.threads thread = .idle := by
  obtain ⟨heq, _⟩ | ⟨l', he', hs', hlabel⟩ := step_end he hs x
  · rw [heq]
    exact hidle
  · refine RpcEnd.step_idle he' hs' ?_ hidle
    rintro service method bytes hasDone rfl
    have hown : l.ownOf x = some (.call thread service method bytes hasDone) :=
      Option.mem_toList.mp (hlabel ▸ List.mem_singleton_self _)
    obtain rfl := LinkLabel.eq_own hown
    exact hl rfl

theorem run_idle {ls : List LinkLabel} (hr : Run (machine P conn) s ls t)
    (hls : ∀ l ∈ ls, caller l ≠ some (x, thread)) (hidle : (s x).rpc.threads thread = .idle) :
    (t x).rpc.threads thread = .idle := by
  induction hr with
  | nil s => exact hidle
  | cons he hs _ ih =>
    exact ih (fun l hl => hls l (List.mem_cons_of_mem _ hl))
      (step_idle he hs (hls _ List.mem_cons_self) hidle)

end

/-- A run after which nothing is on its way, if only these threads have called. -/
theorem quiet_of_run {P : RpcProtobuf} {conn : Nat} {first : Bool → Int64}
    {services : Bool → Option Services} {s : Link P} {ls : List LinkLabel}
    (hr : Run (machine P conn) (start conn P first services) ls s) (threads : List Nat)
    (hls : ∀ l ∈ ls, ∀ c ∈ caller l, c.2 ∈ threads)
    (hidle : ∀ x, ∀ i ∈ threads, (s x).rpc.threads i = .idle)
    (hquiet : ∀ x, (s x).incoming = [] ∧ (s x).inbox.length = 0 ∧ (s x).rpc.actions = [] ∧
      (s x).rpc.accepted = []) : Quiet s where
  incoming x := (hquiet x).1
  inbox x := List.length_eq_zero_iff.mp (hquiet x).2.1
  actions x := (hquiet x).2.2.1
  accepted x := (hquiet x).2.2.2
  idle x i := by
    by_cases hi : i ∈ threads
    · exact hidle x i hi
    · exact run_idle hr (fun l hl hcalls => hi (hls l hl (x, i) hcalls)) rfl

/-- Two calls; the second names no method. -/
theorem calls_completed_two :
    ∃ s : Link rpcMessages, (s false).rpc.calls = 2 ∧
      (∀ id, (s false).rpc.channel.outstandings_ id = none) ∧
      ∃ request reply, Completed s false 1 request reply := by
  have hex : ∃ s, Run (machine rpcMessages 0) (start 0 rpcMessages (fun _ => 0) oneServer) twoCalls s ∧
      (∀ x, ∀ m ∈ (s x).rpc.emitted, m.encode.length ≤ 2 ^ 20) ∧
      (s false).rpc.calls = 2 ∧ (s true).rpc.calls = 0 ∧
      (∀ x, ∀ i ∈ [0, 7], (s x).rpc.threads i = .idle) ∧
      ∀ x, (s x).incoming = [] ∧ (s x).inbox.length = 0 ∧ (s x).rpc.actions = [] ∧
        (s x).rpc.accepted = [] :=
    exists_run_of_exec _ (by decide +kernel)
  obtain ⟨s, hr, hfit, htwo, hnone, hidle, hquiet⟩ := hex
  have hcalls : ∀ x, (s x).rpc.calls ≤ 2 ^ 64 := by
    intro x
    cases x with
    | false => rw [htwo]; decide
    | true => rw [hnone]; decide
  have hq : Quiet s := quiet_of_run hr [0, 7] (by decide +kernel) hidle hquiet
  obtain ⟨htable, hcompleted⟩ := calls_completed rpcMessages_lawful.toSound ⟨_, hr⟩
    (fun x m hm => rpcMessages_fits (hfit x m hm)) hcalls hq false
  exact ⟨s, htwo, htable, hcompleted 1 (by rw [htwo]; decide)⟩

end Link

end MuduoNet.Rpc
