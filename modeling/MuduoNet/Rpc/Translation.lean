import MuduoNet.Rpc.Balancer

/-!
# Ids across the balancer

The table of a session is what its history has outstanding: sending issues a ticket under the new
id, and any message of the backend presents one. So an answer goes to the client that the id was
given to, with the id that this client had used.
-/
namespace MuduoNet.Rpc

open Lib Lib.Outcome

namespace SessionEvent

def ticket : SessionEvent → Ticket UInt64 Request
  | .sent client request msg => .issue msg.id ⟨request.id, client⟩
  | .arrived message _ => .present message.id

/-- The id under which a request goes to the backend. -/
def sentId : SessionEvent → Option UInt64
  | .sent _ _ msg => some msg.id
  | .arrived _ _ => none

theorem issued_ticket (h : List SessionEvent) :
    (h.map ticket).filterMap Ticket.issued = h.filterMap sentId := by
  rw [List.filterMap_map]
  congr 1
  funext e
  cases e <;> rfl

end SessionEvent

open SessionEvent

namespace BackendSession

def sentIds (b : BackendSession) : List UInt64 := b.history.filterMap sentId

structure Inv (b : BackendSession) : Prop where
  nextId : b.nextId_ = UInt64.ofNat b.sentIds.length
  ids : b.sentIds = (List.range' 1 b.sentIds.length).map UInt64.ofNat
  table : b.outstandings_ = Ticket.outstanding (b.history.map ticket)
  stamped : ∀ c request sent, .sent c request sent ∈ b.history → sent = request.set_id sent.id
  forwards : ∀ pre message c out post, b.history = pre ++ .arrived message (some (c, out)) :: post →
    ∃ r, Ticket.outstanding (pre.map ticket) message.id = some r ∧ r.clientConn = c ∧
      out = message.set_id r.origId

theorem Inv.new : Inv new where
  nextId := rfl
  ids := rfl
  table := rfl
  stamped := by simp [BackendSession.new]
  forwards := by simp [BackendSession.new]

/-- What can happen to a session in one step. -/
inductive Moves (b : BackendSession) : BackendSession → Prop
  | stay : Moves b b
  | send {msg sent : RpcMessage} {clientConn : Nat} {b' : BackendSession}
      (h : b.send msg clientConn = .ok (true, sent, b')) : Moves b b'
  | onConnection (conn : Nat) (connected : Bool) : Moves b (b.onConnection conn connected)
  | onRpcMessage (alive : Nat → Bool) (msg : RpcMessage) : Moves b (b.onRpcMessage alive msg)

section

variable {b b' : BackendSession} {msg sent : RpcMessage} {clientConn : Nat}

/-- A session without a backend leaves the message as it is. -/
theorem send_false (h : b.send msg clientConn = .ok (false, sent, b')) : sent = msg ∧ b' = b := by
  unfold BackendSession.send at h
  split at h
  · cases h
    exact ⟨rfl, rfl⟩
  · obtain ⟨_, h⟩ := demand_bind_eq_ok h
    cases h

theorem send_true (h : b.send msg clientConn = .ok (true, sent, b')) :
    sent = msg.set_id (b.nextId_ + 1) ∧
      b' = { b with
        nextId_ := b.nextId_ + 1
        outstandings_ := Function.update b.outstandings_ (b.nextId_ + 1) (some ⟨msg.id, clientConn⟩)
        history := b.history ++ [.sent clientConn msg sent] } := by
  unfold BackendSession.send at h
  split at h
  · cases h
  · obtain ⟨_, h⟩ := demand_bind_eq_ok h
    cases h
    exact ⟨rfl, rfl⟩

theorem Inv.send (hi : b.Inv) (h : b.send msg clientConn = .ok (true, sent, b')) : b'.Inv := by
  obtain ⟨hsent, rfl⟩ := send_true h
  have hnext : b.nextId_ + 1 = UInt64.ofNat (b.sentIds.length + 1) := by
    rw [hi.nextId, UInt64.ofNat_add]
    rfl
  have hid : sent.id = b.nextId_ + 1 := by
    rw [hsent]
    rfl
  have hids : (b.history ++ [SessionEvent.sent clientConn msg sent]).filterMap sentId =
      b.sentIds ++ [b.nextId_ + 1] := by
    rw [List.filterMap_append, ← hid]
    rfl
  constructor
  · dsimp only [sentIds]
    rw [hids, List.length_append, hnext]
    rfl
  · dsimp only [sentIds]
    rw [hids, List.length_append, List.length_singleton, List.range'_1_concat, List.map_append,
      ← hi.ids, hnext, Nat.add_comm]
    rfl
  · dsimp only
    rw [List.map_append, List.map_singleton, Ticket.outstanding_concat, ← hi.table, ticket, hid]
    rfl
  · intro c request s hmem
    rcases List.mem_append.mp hmem with hmem | hmem
    · exact hi.stamped c request s hmem
    · obtain ⟨rfl, rfl, rfl⟩ := SessionEvent.sent.inj (List.mem_singleton.mp hmem)
      rw [hid, hsent]
  · intro pre message c out post heq
    rcases concat_eq_split heq with ⟨_, hnew⟩ | ⟨mid, hold⟩
    · cases hnew
    · exact hi.forwards pre message c out mid hold

theorem Inv.onConnection (hi : b.Inv) (conn : Nat) (connected : Bool) :
    (b.onConnection conn connected).Inv :=
  ⟨hi.nextId, hi.ids, hi.table, hi.stamped, hi.forwards⟩

/-- A message of the backend: what it forwards, and what is left in the table. -/
theorem onRpcMessage_eq (alive : Nat → Bool) (b : BackendSession) (msg : RpcMessage) :
    ∃ forwarded, b.onRpcMessage alive msg = { b with
        outstandings_ := Function.update b.outstandings_ msg.id none
        history := b.history ++ [.arrived msg forwarded] } ∧
      ∀ c out, forwarded = some (c, out) → alive c ∧ ∃ r, b.outstandings_ msg.id = some r ∧
        r.clientConn = c ∧ out = msg.set_id r.origId := by
  unfold BackendSession.onRpcMessage
  split
  · rename_i r hr
    refine ⟨_, rfl, ?_⟩
    intro c out heq
    split at heq
    · rename_i halive
      cases heq
      exact ⟨halive, r, hr, rfl, rfl⟩
    · cases heq
  · rename_i hnone
    refine ⟨none, ?_, by simp⟩
    rw [← hnone, Function.update_eq_self]

theorem Inv.onRpcMessage (hi : b.Inv) (alive : Nat → Bool) (msg : RpcMessage) :
    (b.onRpcMessage alive msg).Inv := by
  obtain ⟨forwarded, heq, hforward⟩ := onRpcMessage_eq alive b msg
  have hids : (b.history ++ [SessionEvent.arrived msg forwarded]).filterMap sentId = b.sentIds := by
    rw [List.filterMap_append]
    exact List.append_nil _
  rw [heq]
  constructor
  · rw [sentIds, hids]
    exact hi.nextId
  · rw [sentIds, hids]
    exact hi.ids
  · rw [List.map_append, List.map_singleton, Ticket.outstanding_concat, ← hi.table]
    rfl
  · intro c request s hmem
    rcases List.mem_append.mp hmem with hmem | hmem
    · exact hi.stamped c request s hmem
    · cases List.mem_singleton.mp hmem
  · intro pre message c out post h
    rcases concat_eq_split h with ⟨rfl, hnew⟩ | ⟨mid, hold⟩
    · obtain ⟨rfl, rfl⟩ := SessionEvent.arrived.inj hnew
      rw [← hi.table]
      exact (hforward c out rfl).2
    · exact hi.forwards pre message c out mid hold

theorem Inv.nodup (hi : b.Inv) (h : b.sentIds.length < 2 ^ 64) : b.sentIds.Nodup := by
  rw [hi.ids]
  apply List.Nodup.map_on _ List.nodup_range'
  intro m hm n hn heq
  rw [List.mem_range'_1] at hm hn
  have hnat := congrArg UInt64.toNat heq
  rwa [UInt64.toNat_ofNat', UInt64.toNat_ofNat', Nat.mod_eq_of_lt (by omega),
    Nat.mod_eq_of_lt (by omega)] at hnat

/-- What is outstanding was sent, and no message with its id has come since. -/
theorem sent_of_outstanding {h : List SessionEvent} {id : UInt64} {r : Request}
    (ho : Ticket.outstanding (h.map ticket) id = some r) :
    ∃ before request sent since, h = before ++ .sent r.clientConn request sent :: since ∧
      sent.id = id ∧ request.id = r.origId ∧ ∀ m f, .arrived m f ∈ since → m.id ≠ id := by
  obtain ⟨pre, post, hsplit, hpost⟩ := Ticket.outstanding_eq_some ho
  obtain ⟨before, tail, rfl, rfl, htail⟩ := List.map_eq_append_iff.mp hsplit
  obtain ⟨e, since, rfl, he, rfl⟩ := List.map_eq_cons_iff.mp htail
  cases e with
  | arrived m f => cases he
  | sent c request msg =>
    cases he
    refine ⟨before, request, msg, since, rfl, rfl, rfl, ?_⟩
    intro m f hmem heq
    exact hpost _ (List.mem_map_of_mem hmem) (congrArg some heq)

theorem Inv.moves (hi : b.Inv) (h : Moves b b') : b'.Inv := by
  cases h with
  | stay => exact hi
  | send h => exact hi.send h
  | onConnection conn connected => exact hi.onConnection conn connected
  | onRpcMessage alive msg => exact hi.onRpcMessage alive msg

end

end BackendSession

namespace Balancer

open BackendSession

section

variable {t t' : PerThread} {msg : RpcMessage} {conn : Nat}

/-- Until a session takes the message, the sessions stay as they are. -/
theorem trySend_moves {left : Nat} (h : t.trySend left msg conn = .ok t') {i : Nat}
    {b' : BackendSession} (hb' : t'.backends[i]? = some b') :
    ∃ b, t.backends[i]? = some b ∧ Moves b b' := by
  induction left generalizing t with
  | zero =>
    cases h
    exact ⟨b', hb', .stay⟩
  | succ left ih =>
    unfold PerThread.trySend at h
    split at h
    · cases h
    · rename_i b hb
      obtain ⟨⟨succeed, sent, b₁⟩, hsend, hrest⟩ := bind_eq_ok h
      cases succeed with
      | true =>
        cases hrest
        by_cases hi : t.current = i
        · subst hi
          have hlt := (List.getElem?_eq_some_iff.mp hb).1
          rw [List.getElem?_set_self hlt] at hb'
          obtain rfl := Option.some.inj hb'
          exact ⟨b, hb, .send hsend⟩
        · rw [List.getElem?_set_ne hi] at hb'
          exact ⟨b', hb', .stay⟩
      | false =>
        obtain ⟨rfl, rfl⟩ := send_false hsend
        obtain ⟨hlt, rfl⟩ := List.getElem?_eq_some_iff.mp hb
        simp only [Bool.false_eq_true, if_false, List.set_getElem_self] at hrest
        obtain ⟨b₂, hb₂, hmoves⟩ := ih hrest
        exact ⟨b₂, hb₂, hmoves⟩

end

section

variable {s s' : Balancer} {l : BalancerLabel} {thread i : Nat} {b b' : BackendSession}

theorem session_setThread_self {t : PerThread} :
    (s.setThread thread t).session thread i = t.backends[i]? := by
  unfold session setThread
  dsimp only
  rw [Function.update_self]

theorem session_setThread_ne {t : PerThread} {thread' : Nat} (h : thread' ≠ thread) :
    (s.setThread thread t).session thread' i = s.session thread' i := by
  unfold session setThread
  dsimp only
  rw [Function.update_of_ne h]

theorem session_setSession_self (h : s.session thread i = some b) :
    (s.setSession thread i b').session thread i = some b' := by
  rw [setSession, session_setThread_self, List.getElem?_set_self (List.getElem?_eq_some_iff.mp h).1]

theorem session_setSession_ne {thread' i' : Nat} (h : thread' ≠ thread ∨ i' ≠ i) :
    (s.setSession thread i b').session thread' i' = s.session thread' i' := by
  by_cases ht : thread' = thread
  · subst ht
    rw [setSession, session_setThread_self, List.getElem?_set_ne (h.resolve_left (by simp)).symm]
    rfl
  · exact session_setThread_ne ht

/-- Replacing one session by what can happen to it. -/
theorem setSession_moves {j k : Nat} {c c' : BackendSession} (hc : s.session j k = some c)
    (hmoves : Moves c c') (hb' : (s.setSession j k c').session thread i = some b') :
    ∃ b, s.session thread i = some b ∧ Moves b b' := by
  by_cases heq : thread = j ∧ i = k
  · obtain ⟨rfl, rfl⟩ := heq
    rw [session_setSession_self hc] at hb'
    obtain rfl := Option.some.inj hb'
    exact ⟨c, hc, hmoves⟩
  · rw [session_setSession_ne (not_and_or.mp heq)] at hb'
    exact ⟨b', hb', .stay⟩

/-- A step takes each session on by what can happen to it. -/
theorem step_moves (hs : s.step l = .ok s') (hb' : s'.session thread i = some b') :
    ∃ b, s.session thread i = some b ∧ Moves b b' := by
  cases l with
  | accept conn j =>
    cases hs
    exact ⟨b', hb', .stay⟩
  | drop conn =>
    cases hs
    exact ⟨b', hb', .stay⟩
  | request conn msg =>
    cases hc : s.client conn with
    | alive j =>
      simp only [step, hc, onRpcMessage] at hs
      obtain ⟨t, ht, hs⟩ := bind_eq_ok hs
      cases hs
      by_cases hj : thread = j
      · subst hj
        rw [session_setThread_self] at hb'
        exact trySend_moves ht hb'
      · rw [session_setThread_ne hj] at hb'
        exact ⟨b', hb', .stay⟩
    | _ =>
      simp only [step, hc] at hs
      cases hs
      exact ⟨b', hb', .stay⟩
  | backend j k conn connected =>
    cases hc : s.session j k with
    | some c =>
      simp only [step, hc] at hs
      cases hs
      exact setSession_moves hc (.onConnection conn connected) hb'
    | none =>
      simp only [step, hc] at hs
      cases hs
      exact ⟨b', hb', .stay⟩
  | reply j k msg =>
    cases hc : s.session j k with
    | some c =>
      simp only [step, hc] at hs
      cases hs
      exact setSession_moves hc (.onRpcMessage s.alive msg) hb'
    | none =>
      simp only [step, hc] at hs
      cases hs
      exact ⟨b', hb', .stay⟩

theorem reachable_session {count : Nat → Nat} {backends : Nat}
    (h : Reachable machine (start count backends) s) (hb : s.session thread i = some b) : b.Inv := by
  have hall : ∀ thread i b, s.session thread i = some b → b.Inv := by
    apply h.invariant
    · intro s l s' hi _ hs thread i b' hb'
      obtain ⟨b, hb, hmoves⟩ := step_moves hs hb'
      exact (hi thread i b hb).moves hmoves
    · intro thread i b hb
      have hmem := List.mem_of_getElem? hb
      rw [(List.mem_replicate.mp hmem).2]
      exact Inv.new
  exact hall thread i b hb

end

/-- A message under an id that nothing is outstanding for, or of a client that is gone, goes
nowhere; no other entry is touched. -/
theorem reply_eq {s : Balancer} {thread i : Nat} {b : BackendSession} (msg : RpcMessage)
    (hb : s.session thread i = some b) :
    ∃ b', s.step (.reply thread i msg) = .ok (s.setSession thread i b') ∧
      (∀ id, id ≠ msg.id → b'.outstandings_ id = b.outstandings_ id) ∧
      (b.outstandings_ msg.id = none → b'.outstandings_ = b.outstandings_) ∧
      ((∀ r, b.outstandings_ msg.id = some r → s.alive r.clientConn = false) →
        b'.history = b.history ++ [.arrived msg none]) := by
  obtain ⟨forwarded, heq, hforward⟩ := onRpcMessage_eq s.alive b msg
  refine ⟨b.onRpcMessage s.alive msg, ?_, ?_, ?_, ?_⟩
  · simp only [step, hb]
  · intro id hid
    rw [heq]
    exact Function.update_of_ne hid _ _
  · intro hnone
    rw [heq]
    exact Function.update_eq_self_iff.mpr hnone.symm
  · intro hgone
    have hnothing : forwarded = none := by
      cases hf : forwarded with
      | none => rfl
      | some p =>
        obtain ⟨halive, r, hr, hc, _⟩ := hforward p.1 p.2 hf
        rw [← hc, hgone r hr] at halive
        cases halive
    rw [heq, hnothing]

/-- While a session has sent fewer than `2 ^ 64` requests its ids are distinct; what it forwards to
a client answers a request of this client, under the id of that request, and is the first message
with the id it was given, after it was given; there is one answer at most; and other messages
change nothing else. -/
theorem ids_translated {count : Nat → Nat} {backends : Nat} {s : Balancer} {thread i : Nat}
    {b : BackendSession} (h : Reachable machine (start count backends) s)
    (hb : s.session thread i = some b) (hlt : b.sentIds.length < 2 ^ 64) :
    b.sentIds.Nodup ∧
    (∀ pre msg c out post, b.history = pre ++ .arrived msg (some (c, out)) :: post →
      ∃ before request sent since, pre = before ++ .sent c request sent :: since ∧
        sent = request.set_id msg.id ∧ out = msg.set_id request.id ∧
        ∀ m f, .arrived m f ∈ since → m.id ≠ msg.id) ∧
    (∀ pre msg p post pre' msg' p' post', b.history = pre ++ .arrived msg (some p) :: post →
      b.history = pre' ++ .arrived msg' (some p') :: post' → msg.id = msg'.id → pre = pre') ∧
    ∀ msg, ∃ b', s.step (.reply thread i msg) = .ok (s.setSession thread i b') ∧
      (∀ id, id ≠ msg.id → b'.outstandings_ id = b.outstandings_ id) ∧
      (b.outstandings_ msg.id = none → b'.outstandings_ = b.outstandings_) ∧
      ((∀ r, b.outstandings_ msg.id = some r → s.alive r.clientConn = false) →
        b'.history = b.history ++ [.arrived msg none]) := by
  have hi := reachable_session h hb
  refine ⟨hi.nodup hlt, ?_, ?_, fun msg => reply_eq msg hb⟩
  · intro pre msg c out post heq
    obtain ⟨r, ho, rfl, hout⟩ := hi.forwards pre msg c out post heq
    obtain ⟨before, request, sent, since, hpre, hid, horig, hsince⟩ := sent_of_outstanding ho
    refine ⟨before, request, sent, since, hpre, ?_, ?_, hsince⟩
    · rw [← hid]
      apply hi.stamped r.clientConn
      rw [heq, hpre]
      simp
    · rw [horig]
      exact hout
  · intro pre msg p post pre' msg' p' post' heq heq' hid
    obtain ⟨r, ho, _⟩ := hi.forwards pre msg p.1 p.2 post heq
    obtain ⟨r', ho', _⟩ := hi.forwards pre' msg' p'.1 p'.2 post' heq'
    rw [← hid] at ho'
    have hnodup := hi.nodup hlt
    rw [sentIds, ← issued_ticket] at hnodup
    have hmap := congrArg (List.map ticket) heq
    have hmap' := congrArg (List.map ticket) heq'
    rw [List.map_append, List.map_cons] at hmap hmap'
    rw [ticket, ← hid] at hmap'
    have hlen := congrArg List.length (Ticket.presented_once hnodup hmap ho hmap' ho')
    rw [List.length_map, List.length_map] at hlen
    exact (List.append_inj (heq.symm.trans heq') hlen).1

/-- What the session 0 of the thread 0 has seen and done. -/
def events (s : Balancer) : List SessionEvent := (s.session 0 0).elim [] BackendSession.history

/-- One client and one backend, which sends a message before it is asked anything. -/
def early : List BalancerLabel :=
  [.accept 0 0, .backend 0 0 0 true, .reply 0 0 ⟨.RESPONSE, 1, none, none, none, some [7], none⟩,
    .request 0 ⟨.REQUEST, 42, none, none, some [], none, none⟩,
    .reply 0 0 ⟨.RESPONSE, 1, none, none, none, some [8], none⟩]

theorem ids_translated_early : ∃ s b, Run machine (start (fun _ => 0) 1) early s ∧
    s.session 0 0 = some b ∧ b.sentIds = [1] ∧ b.sentIds.Nodup := by
  have hex : ∃ s, Run machine (start (fun _ => 0) 1) early s ∧
      ((s.session 0 0).isSome ∧ s.events.filterMap sentId = [1]) :=
    exists_run_of_exec _ (by decide +kernel)
  obtain ⟨s, hr, hsome, hids⟩ := hex
  obtain ⟨b, hb⟩ := Option.isSome_iff_exists.mp hsome
  have hsent : b.sentIds = [1] := by
    rw [events, hb] at hids
    exact hids
  have hlt : b.sentIds.length < 2 ^ 64 := by
    rw [hsent]
    decide
  exact ⟨s, b, hr, hb, hsent, (ids_translated ⟨_, hr⟩ hb hlt).1⟩

/-- The answer is the second message of the backend with its id. -/
theorem forwarded_second : ∃ s, Run machine (start (fun _ => 0) 1) early s ∧ s.events =
    [.arrived ⟨.RESPONSE, 1, none, none, none, some [7], none⟩ none,
      .sent 0 ⟨.REQUEST, 42, none, none, some [], none, none⟩
        ⟨.REQUEST, 1, none, none, some [], none, none⟩,
      .arrived ⟨.RESPONSE, 1, none, none, none, some [8], none⟩
        (some (0, ⟨.RESPONSE, 42, none, none, none, some [8], none⟩))] :=
  exists_run_of_exec _ (by decide +kernel)

end Balancer

end MuduoNet.Rpc
