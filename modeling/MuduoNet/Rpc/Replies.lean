import MuduoNet.Rpc.Bookkeeping

/-!
# Calls and arbitrary replies

Whatever arrives, the response object and the closure of a call are used for the first response
that bears its id after its entry was made, and for no other.
-/
namespace MuduoNet.Rpc

open Lib Lib.Outcome

/-- The payload is parsed into the response, the closure runs, and the response is deleted. -/
theorem RpcChannel.complete_eq {message : RpcMessage} {out : OutstandingCall} {n : Nat}
    (h : out.response = some n) : complete message out =
      (message.response.map (.parse n)).toList ++ (out.done.map .run).toList ++ [.free n] := by
  rw [complete, h]

/-- The object that an action is about, which has the number of its call. -/
def Action.ofCall : Action → Option Nat
  | parse response _ => some response
  | run done => some done
  | free response => some response
  | _ => none

/-- The last entry under the id is that of `out`, and no response bore the id since. -/
def Pending (h : List RpcEvent) (id : Int64) (out : OutstandingCall) : Prop :=
  ∃ pre message post, h = pre ++ .registered id out message :: post ∧
    (∀ out' message', .registered id out' message' ∉ post) ∧
    ∀ message' out', .response message' out' ∈ post → message'.id.toInt64 ≠ id

theorem key_ne {post : List RpcEvent} {id : Int64}
    (hregistered : ∀ out message, .registered id out message ∉ post)
    (hresponse : ∀ message out, .response message out ∈ post → message.id.toInt64 ≠ id)
    {e : RpcEvent} (he : e ∈ post) : e.ticket.key ≠ some id := by
  intro hkey
  cases e with
  | registered id' out message =>
    obtain rfl := Option.some.inj hkey
    exact hregistered out message he
  | response message out => exact hresponse message out he (Option.some.inj hkey)
  | _ => cases hkey

theorem outstanding_iff {h : List RpcEvent} {id : Int64} {out : OutstandingCall} :
    Ticket.outstanding (h.map RpcEvent.ticket) id = some out ↔ Pending h id out := by
  constructor
  · intro ho
    obtain ⟨pre, post, hsplit, hpost⟩ := Ticket.outstanding_eq_some ho
    obtain ⟨pre, rest, rfl, rfl, hrest⟩ := List.map_eq_append_iff.mp hsplit
    obtain ⟨e, post, rfl, he, rfl⟩ := List.map_eq_cons_iff.mp hrest
    cases e with
    | registered id' out' message =>
      obtain ⟨rfl, rfl⟩ := Ticket.issue.inj he
      refine ⟨pre, message, post, rfl, ?_, ?_⟩
      · intro out' message' hmem
        exact hpost _ (List.mem_map_of_mem hmem) rfl
      · intro message' out' hmem hid
        exact hpost _ (List.mem_map_of_mem hmem) (congrArg some hid)
    | _ => cases he
  · rintro ⟨pre, message, post, rfl, hregistered, hresponse⟩
    rw [List.map_append, List.map_cons, List.append_cons, Ticket.outstanding_append_of_ne]
    · rw [Ticket.outstanding_concat, RpcEvent.ticket, Ticket.act, Function.update_self]
    · intro k hk
      obtain ⟨e, he, rfl⟩ := List.mem_map.mp hk
      exact key_ne hregistered hresponse he

namespace RpcEnd

/-- What has been done and is still to be done with the response and the closure of a call. -/
def usesOf (s : RpcEnd) (n : Nat) : List Action :=
  (s.history.filterMap RpcEvent.action ++ s.actions).filter fun a => a.ofCall = some n

/-- What holds of an end of a connection at any time. -/
structure Bookkept (conn : Nat) (s : RpcEnd) : Prop where
  outstanding : ∀ id out, s.channel.outstandings_ id = some out ↔ Pending s.history id out
  /-- A response is for the call that is pending under its id. -/
  found : ∀ pre message out post, s.history = pre ++ .response message out :: post →
    (∀ call, Pending pre message.id.toInt64 call → out = call) ∧
      ((∀ call, ¬ Pending pre message.id.toInt64 call) → out = ⟨none, none⟩)
  /-- It is the only response for which the objects of the call are used. -/
  used : ∀ n,
    (∃ pre message out post, s.history = pre ++ .response message out :: post ∧
      out.response = some n ∧ Pending pre message.id.toInt64 out ∧
      s.usesOf n = (message.response.map (.parse n)).toList ++ (out.done.map .run).toList ++
        [.free n]) ∨
    (∀ message out, .response message out ∈ s.history → out.response ≠ some n) ∧ s.usesOf n = []
  once : ∀ n pre message out post pre' message' out' post',
    s.history = pre ++ .response message out :: post →
    s.history = pre' ++ .response message' out' :: post' →
    out.response = some n → out'.response = some n → pre = pre'
  /-- Objects of different calls are different objects. -/
  own : ∀ id out message, .registered id out message ∈ s.history →
    ∃ n, out.response = some n ∧ ∀ d, out.done = some d → d = n
  /-- What a response does to the table. -/
  effect : ∀ message, s.actions = [] → message.type = .RESPONSE →
    message.response.isSome ∨ message.error.isSome →
    ∃ t, (machine conn).step s (.receive message) = .ok t ∧
      t.channel.outstandings_ = Function.update s.channel.outstandings_ message.id.toInt64 none ∧
      (s.channel.outstandings_ message.id.toInt64 = none →
        t = s.log (.response message ⟨none, none⟩))
  /-- No id comes up again before `2 ^ 64` calls. -/
  fresh : s.calls ≤ 2 ^ 64 → ∀ pre id out message post,
    s.history = pre ++ .registered id out message :: post →
    ∀ out' message', .registered id out' message' ∉ post

section

variable {conn : Nat} {first : Int64} {s t : RpcEnd}

theorem Inv.response_eq (hi : s.Inv first) {pre post : List RpcEvent} {message : RpcMessage}
    {out : OutstandingCall} (h : s.history = pre ++ .response message out :: post) :
    out = ⟨none, none⟩ ∨ Pending pre message.id.toInt64 out := by
  have hout := hi.found pre message out post h
  cases ho : Ticket.outstanding (pre.map RpcEvent.ticket) message.id.toInt64 with
  | none => exact .inl (by rw [hout, ho]; rfl)
  | some call =>
    have heq : out = call := by
      rw [hout, ho]
      rfl
    exact .inr (outstanding_iff.mp (by rw [ho, heq]))

/-- A response that finds a call is the first since the entry of the call. -/
theorem Inv.pending (hi : s.Inv first) {pre post : List RpcEvent} {message : RpcMessage}
    {out : OutstandingCall} {n : Nat} (h : s.history = pre ++ .response message out :: post)
    (hout : out.response = some n) : Pending pre message.id.toInt64 out := by
  rcases hi.response_eq h with rfl | hp
  · cases hout
  · exact hp

theorem Inv.own (hi : s.Inv first) {id : Int64} {out : OutstandingCall} {message : RpcMessage}
    (h : .registered id out message ∈ s.history) :
    ∃ n, out.response = some n ∧ ∀ d, out.done = some d → d = n := by
  obtain ⟨n, _, _, hout, hdone, _⟩ := hi.registered id out message h
  exact ⟨n, hout, hdone⟩

theorem Inv.own_response (hi : s.Inv first) {message : RpcMessage} {out : OutstandingCall} {n : Nat}
    (h : .response message out ∈ s.history) (hout : out.response = some n) :
    ∀ d, out.done = some d → d = n := by
  obtain ⟨pre, post, hsplit⟩ := List.append_of_mem h
  obtain ⟨pre', message', post', hpre, _⟩ := hi.pending hsplit hout
  have hmem : .registered message.id.toInt64 out message' ∈ s.history := by
    rw [hsplit, hpre]
    simp
  obtain ⟨m, hm, hdone⟩ := hi.own hmem
  obtain rfl := Option.some.inj (hm.symm.trans hout)
  exact hdone

theorem Inv.once (hi : s.Inv first) {n : Nat} {pre post pre' post' : List RpcEvent}
    {message message' : RpcMessage} {out out' : OutstandingCall}
    (h : s.history = pre ++ .response message out :: post)
    (h' : s.history = pre' ++ .response message' out' :: post') (hout : out.response = some n)
    (hout' : out'.response = some n) : pre = pre' := by
  obtain ⟨a, call, b, rfl, hb, hbr⟩ := hi.pending h hout
  obtain ⟨a', call', b', rfl, hb', hbr'⟩ := hi.pending h' hout'
  obtain ⟨l, _, hnodup⟩ := hi.distinct
  rw [List.append_assoc, List.cons_append] at h h'
  -- the call was entered at one place, so both responses bear the same id and come first after it
  obtain rfl := filterMap_split_unique (List.Nodup.of_append_left hnodup) h h' hout hout'
  obtain ⟨hcall, hrest⟩ := List.cons.inj (List.append_cancel_left (h.symm.trans h'))
  obtain ⟨hid, _, _⟩ := RpcEvent.registered.inj hcall
  rw [hid] at hb hbr
  rw [hcall, first_split_unique (P := fun e => e.ticket.key = some message'.id.toInt64) hrest
    (congrArg some hid) rfl (fun _ he => key_ne hb hbr he) fun _ he => key_ne hb' hbr' he]

theorem Inv.fresh (hi : s.Inv first) (hcalls : s.calls ≤ 2 ^ 64) {pre post : List RpcEvent}
    {id : Int64} {out : OutstandingCall} {message : RpcMessage}
    (h : s.history = pre ++ .registered id out message :: post) (out' : OutstandingCall)
    (message' : RpcMessage) : .registered id out' message' ∉ post := by
  intro hmem
  obtain ⟨m, hm, hid, hout, _⟩ := hi.registered id out message (by rw [h]; simp)
  obtain ⟨n, hn, hid', hout', _⟩ := hi.registered id out' message' (by rw [h]; simp [hmem])
  obtain rfl : m = n := idOf_inj (Nat.lt_of_lt_of_le hm hcalls) (Nat.lt_of_lt_of_le hn hcalls)
    (hid.symm.trans hid')
  obtain ⟨l, _, hnodup⟩ := hi.distinct
  have hpost := (List.Nodup.of_append_left hnodup)
  have hentered : RpcEvent.entered (.registered id out message) = some m := hout
  rw [enteredCalls, h, List.filterMap_append, List.filterMap_cons_some hentered] at hpost
  exact (List.nodup_cons.mp (List.Nodup.of_append_right hpost)).1
    (List.mem_filterMap.mpr ⟨_, hmem, hout'⟩)

theorem complete_filter (message : RpcMessage) {out : OutstandingCall} (n : Nat)
    (hdone : ∀ r, out.response = some r → ∀ d, out.done = some d → d = r) :
    (RpcChannel.complete message out).filter (fun a => a.ofCall = some n) =
      if out.response = some n then RpcChannel.complete message out else [] := by
  cases hr : out.response with
  | none => simp [RpcChannel.complete, hr]
  | some r =>
    have hall : ∀ a ∈ RpcChannel.complete message out, a.ofCall = some r := by
      intro a ha
      simp only [RpcChannel.complete, hr, List.mem_append, Option.mem_toList, Option.map_eq_some_iff,
        List.mem_singleton] at ha
      rcases ha with (⟨bytes, _, rfl⟩ | ⟨d, hd, rfl⟩) | rfl
      · rfl
      · rw [hdone r hr d hd]
        rfl
      · rfl
    by_cases hn : r = n
    · rw [if_pos (congrArg some hn), List.filter_eq_self]
      intro a ha
      simp [hall a ha, hn]
    · rw [if_neg (by simpa using hn), List.filter_eq_nil_iff]
      intro a ha
      simp [hall a ha, hn]

theorem Inv.causes_filter (hi : s.Inv first) {n : Nat} {e : RpcEvent} (he : e ∈ s.history) :
    e.causes.filter (fun a => a.ofCall = some n) = [] ∨
      ∃ message out, e = .response message out ∧ out.response = some n ∧
        e.causes.filter (fun a => a.ofCall = some n) = RpcChannel.complete message out := by
  cases e with
  | response message out =>
    have hfilter := complete_filter message n fun r hr => hi.own_response he hr
    by_cases hn : out.response = some n
    · rw [if_pos hn] at hfilter
      exact .inr ⟨message, out, rfl, hn, hfilter⟩
    · rw [if_neg hn] at hfilter
      exact .inl hfilter
  | request message error =>
    left
    cases error <;> rfl
  | _ => exact .inl rfl

theorem usesOf_eq (hi : s.Inv first) (n : Nat) :
    s.usesOf n = s.history.flatMap fun e => e.causes.filter fun a => a.ofCall = some n := by
  rw [usesOf, hi.uses, List.filter_flatMap]

theorem Inv.used (hi : s.Inv first) (n : Nat) :
    (∃ pre message out post, s.history = pre ++ .response message out :: post ∧
      out.response = some n ∧ Pending pre message.id.toInt64 out ∧
      s.usesOf n = RpcChannel.complete message out) ∨
    (∀ message out, .response message out ∈ s.history → out.response ≠ some n) ∧ s.usesOf n = [] := by
  by_cases hfound : ∃ message out, .response message out ∈ s.history ∧ out.response = some n
  · obtain ⟨message, out, hmem, hout⟩ := hfound
    obtain ⟨pre, post, hsplit⟩ := List.append_of_mem hmem
    refine .inl ⟨pre, message, out, post, hsplit, hout, hi.pending hsplit hout, ?_⟩
    -- no other place of the history has anything to do with the call
    have hother : ∀ pre' e post', s.history = pre' ++ e :: post' → pre' ≠ pre →
        e.causes.filter (fun a => a.ofCall = some n) = [] := by
      intro pre' e post' hsplit' hne
      have hmem' : e ∈ s.history := by
        rw [hsplit']
        simp
      rcases hi.causes_filter hmem' with hnil | ⟨message', out', rfl, hout', _⟩
      · exact hnil
      · exact absurd (hi.once hsplit' hsplit hout' hout) hne
    rw [usesOf_eq hi, hsplit, List.flatMap_append, List.flatMap_cons]
    have hpre : pre.flatMap (fun e => e.causes.filter fun a => a.ofCall = some n) = [] := by
      apply List.flatMap_eq_nil_iff.mpr
      intro e he
      obtain ⟨a, b, rfl⟩ := List.append_of_mem he
      refine hother a e (b ++ .response message out :: post) (by rw [hsplit]; simp) ?_
      intro heq
      simpa using congrArg List.length heq
    have hpost : post.flatMap (fun e => e.causes.filter fun a => a.ofCall = some n) = [] := by
      apply List.flatMap_eq_nil_iff.mpr
      intro e he
      obtain ⟨a, b, rfl⟩ := List.append_of_mem he
      refine hother (pre ++ .response message out :: a) e b (by rw [hsplit]; simp) ?_
      intro heq
      simpa using congrArg List.length heq
    rw [hpre, hpost, List.nil_append, List.append_nil]
    have hfilter := complete_filter message n fun r hr => hi.own_response hmem hr
    rw [if_pos hout] at hfilter
    exact hfilter
  · have hnone : ∀ message out, .response message out ∈ s.history → out.response ≠ some n := by
      intro message out hmem hout
      exact hfound ⟨message, out, hmem, hout⟩
    refine .inr ⟨hnone, ?_⟩
    rw [usesOf_eq hi, List.flatMap_eq_nil_iff]
    intro e he
    rcases hi.causes_filter he with hnil | ⟨message, out, rfl, hout, _⟩
    · exact hnil
    · exact absurd hout (hnone message out he)

theorem Happens.wiring (h : Happens s t) :
    t.channel.conn_ = s.channel.conn_ ∧ t.channel.services_ = s.channel.services_ := by
  cases h with
  | response => rw [(takeCall_eq _ _).2]; exact ⟨rfl, rfl⟩
  | act =>
    obtain ⟨_, _, hchannel, _⟩ := perform_eq _ _
    rw [hchannel]
    exact ⟨rfl, rfl⟩
  | _ => exact ⟨rfl, rfl⟩

theorem effect (hconn : s.channel.conn_ = some conn) {message : RpcMessage} (hidle : s.actions = [])
    (htype : message.type = .RESPONSE) (hpresent : message.response.isSome ∨ message.error.isSome) :
    ∃ t, (machine conn).step s (.receive message) = .ok t ∧
      t.channel.outstandings_ = Function.update s.channel.outstandings_ message.id.toInt64 none ∧
      (s.channel.outstandings_ message.id.toInt64 = none →
        t = s.log (.response message ⟨none, none⟩)) := by
  have hrpc : s.channel.onRpcMessage conn (some message) =
      .ok (RpcChannel.complete message (s.channel.takeCall message.id.toInt64).1,
        (s.channel.takeCall message.id.toInt64).2) := by
    unfold RpcChannel.onRpcMessage assert
    simp only [htype]
    rw [demand_true hconn.symm, demand_true hpresent]
    rfl
  have hseen : s.seen message =
      [.response message (s.channel.takeCall message.id.toInt64).1] := by
    rw [seen, htype]
  refine ⟨_, by simp only [machine, step, receive, hrpc]; rfl, ?_, ?_⟩
  · dsimp only
    rw [(takeCall_eq _ _).2]
  · intro hnone
    rw [hseen]
    have htake : s.channel.takeCall message.id.toInt64 = (⟨none, none⟩, s.channel) := by
      unfold RpcChannel.takeCall
      rw [hnone]
    rw [htake]
    dsimp only [RpcChannel.complete]
    rw [log, ← hidle]

/-- Whatever arrives, in whatever order, an end of a connection keeps the books. -/
theorem replies_withstood {services : Option Services}
    (h : Reachable (machine conn) (start conn first services) s) : s.Bookkept conn := by
  have hi := reachable_inv h
  have hconn : s.channel.conn_ = some conn := by
    refine h.invariant (I := fun s => s.channel.conn_ = some conn) ?_ rfl
    intro s l t hconn he hs
    rw [((step_happens he hs).wiring).1, hconn]
  constructor
  · intro id out
    rw [hi.table]
    exact outstanding_iff
  · intro pre message out post hsplit
    have hout := hi.found pre message out post hsplit
    constructor
    · intro call hcall
      rw [hout, outstanding_iff.mpr hcall]
      rfl
    · intro hnone
      rcases hi.response_eq hsplit with hout | hp
      · exact hout
      · exact absurd hp (hnone out)
  · intro n
    obtain ⟨pre, message, out, post, hsplit, hout, hpending, huses⟩ | hnone := hi.used n
    · rw [RpcChannel.complete_eq hout] at huses
      exact .inl ⟨pre, message, out, post, hsplit, hout, hpending, huses⟩
    · exact .inr hnone
  · intro n pre message out post pre' message' out' post' hsplit hsplit' hout hout'
    exact hi.once hsplit hsplit' hout hout'
  · intro id out message hmem
    exact hi.own hmem
  · intro message hidle htype hpresent
    exact effect hconn hidle htype hpresent
  · intro hcalls pre id out message post hsplit
    exact hi.fresh hcalls hsplit

end

/-- A response to the call with the id 1. -/
def reply (bytes : List UInt8) : RpcMessage := doneReply 1 bytes

/-- A response that the peer has made up arrives between the two steps of a call; the true one
arrives twice. -/
def earlyResponse : List RpcLabel :=
  [.call 1 [1] [2] [3] true, .receive (reply [7]), .register 1, .send 1, .receive (reply [8]),
    .act, .act, .act, .receive (reply [9])]

def earlyHistory : List RpcEvent :=
  [.response (reply [7]) ⟨none, none⟩, .registered 1 ⟨some 0, some 0⟩ (request 1 [1] [2] [3]),
    .sent (request 1 [1] [2] [3]), .response (reply [8]) ⟨some 0, some 0⟩, .did (.parse 0 [8]),
    .did (.run 0), .did (.free 0), .response (reply [9]) ⟨none, none⟩]

theorem earlyResponse_run :
    ∃ s, Run (machine 0) (start 0 0 none) earlyResponse s ∧ s.history = earlyHistory :=
  exists_run_of_exec _ (by decide +kernel)

theorem replies_withstood_early :
    ∃ s : RpcEnd, s.history = earlyHistory ∧ s.Bookkept 0 := by
  obtain ⟨s, hrun, hs⟩ := earlyResponse_run
  exact ⟨s, hs, replies_withstood ⟨_, hrun⟩⟩

/-- Whatever call bears the id of a response, if no response bore the id before, it is found. -/
def UsedAtFirst (s : RpcEnd) : Prop :=
  ∀ pre message out post, s.history = pre ++ .response message out :: post →
    (∀ message' out', .response message' out' ∈ pre → message'.id ≠ message.id) →
    ∀ call m, .registered message.id.toInt64 call m ∈ s.history → out = call

theorem earlyResponse_dropped :
    ¬ ∀ s, Reachable (machine 0) (start 0 0 none) s → s.UsedAtFirst := by
  intro h
  obtain ⟨s, hrun, hs⟩ := earlyResponse_run
  have hfirst := h s ⟨_, hrun⟩ [] (reply [7]) ⟨none, none⟩ _ hs (by simp) ⟨some 0, some 0⟩
    (request 1 [1] [2] [3]) (by rw [hs]; decide +kernel)
  cases hfirst

end RpcEnd

end MuduoNet.Rpc
