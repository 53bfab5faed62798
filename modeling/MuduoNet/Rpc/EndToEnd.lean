import MuduoNet.Rpc.Delivery
import MuduoNet.Rpc.Replies

/-!
# Calls from end to end

Either end of a link may call and serve. What the closure of a call is run for is the answer that
the other end has made to the request of that very call.
-/
namespace MuduoNet.Rpc

open Lib Lib.Outcome MuduoNet.ProtobufCodec

theorem IsReply.id_eq {services : Option Services} {q r : RpcMessage} (h : IsReply services q r) :
    r.id = q.id := by
  cases h <;> rfl

theorem IsReply.type_eq {services : Option Services} {q r : RpcMessage} (h : IsReply services q r) :
    r.type = .RESPONSE := by
  cases h <;> rfl

namespace RpcEnd

variable {conn : Nat} {first : Int64} {services : Option Services} {s : RpcEnd}

theorem count_did (h : List RpcEvent) (a : Action) :
    (h.filterMap RpcEvent.action).count a = h.count (.did a) := by
  induction h with
  | nil => rfl
  | cons e h ih =>
    cases e with
    | did b => simp [RpcEvent.action, List.count_cons, ih]
    | _ => rw [List.filterMap_cons_none rfl, ih, List.count_cons_of_ne (by simp)]

theorem count_run_uses (bytes : Option (List UInt8)) (done : Option Nat) (response n : Nat) :
    ((bytes.map (Action.parse response)).toList ++ (done.map Action.run).toList ++
      [Action.free response]).count (Action.run n) ≤ 1 := by
  cases bytes <;> cases done <;> simp [List.count_cons]
  all_goals split <;> omega

/-- The closure of a call is run once at most. -/
theorem Bookkept.run_once (hb : s.Bookkept conn) (n : Nat) : s.history.count (.did (.run n)) ≤ 1 := by
  have huses : s.history.count (.did (.run n)) ≤ (s.usesOf n).count (.run n) := by
    rw [usesOf, List.count_filter (by simp [Action.ofCall]), List.count_append, count_did]
    exact Nat.le_add_right _ _
  apply Nat.le_trans huses
  rcases hb.used n with ⟨_, m, out, _, _, _, _, heq⟩ | ⟨_, heq⟩
  · rw [heq]
    exact count_run_uses m.response out.done n n
  · rw [heq]
    exact Nat.zero_le 1

/-- It is run for a response that found the call, after the payload was parsed. -/
theorem Bookkept.run_for (hb : s.Bookkept conn) {n : Nat} (h : .did (.run n) ∈ s.history) :
    ∃ reply out, .response reply out ∈ s.history ∧ out.response = some n ∧ out.done = some n ∧
      s.usesOf n = (reply.response.map (.parse n)).toList ++ [Action.run n, .free n] := by
  have hmem : .run n ∈ s.usesOf n := by
    refine List.mem_filter.mpr ⟨List.mem_append_left _ ?_, by simp [Action.ofCall]⟩
    exact List.mem_filterMap.mpr ⟨_, h, rfl⟩
  rcases hb.used n with ⟨pre, reply, out, post, hsplit, hout, _, heq⟩ | ⟨_, heq⟩
  · have hdone : out.done = some n := by
      rw [heq] at hmem
      simpa using hmem
    refine ⟨reply, out, by rw [hsplit]; simp, hout, hdone, ?_⟩
    rw [heq, hdone, List.append_assoc]
    rfl
  · rw [heq] at hmem
    cases hmem

/-- One entry is made under an id. -/
theorem Bookkept.registered_once (hb : s.Bookkept conn) (hcalls : s.calls ≤ 2 ^ 64) {id : Int64}
    {out out' : OutstandingCall} {m m' : RpcMessage} (h : .registered id out m ∈ s.history)
    (h' : .registered id out' m' ∈ s.history) : out = out' ∧ m = m' := by
  obtain ⟨pre, post, hsplit⟩ := List.append_of_mem h
  rw [hsplit] at h'
  rcases List.mem_append.mp h' with h' | h'
  · obtain ⟨pre', post', rfl⟩ := List.append_of_mem h'
    rw [List.append_assoc, List.cons_append] at hsplit
    exact absurd (by simp) (hb.fresh hcalls _ _ _ _ _ hsplit out m)
  · rcases List.mem_cons.mp h' with heq | h'
    · obtain ⟨_, rfl, rfl⟩ := RpcEvent.registered.inj heq
      exact ⟨rfl, rfl⟩
    · exact absurd h' (hb.fresh hcalls _ _ _ _ _ hsplit out' m')

/-- The table holds the calls that have an entry and no response. -/
theorem outstanding_iff_unanswered
    (h : Reachable (machine conn) (start conn first services) s) (hcalls : s.calls ≤ 2 ^ 64)
    (id : Int64) (out : OutstandingCall) :
    s.channel.outstandings_ id = some out ↔
      (∃ m, .registered id out m ∈ s.history) ∧ ∀ reply, .response reply out ∉ s.history := by
  have hi := reachable_inv h
  have hb := replies_withstood h
  rw [hb.outstanding]
  constructor
  · intro ⟨pre, m, post, hsplit, _, hpost⟩
    have hmem : .registered id out m ∈ s.history := by
      rw [hsplit]
      simp
    refine ⟨⟨m, hmem⟩, ?_⟩
    intro reply hreply
    obtain ⟨n, hout, _⟩ := hb.own id out m hmem
    obtain ⟨pre', post', hsplit'⟩ := List.append_of_mem hreply
    obtain ⟨a, m', b, rfl, _, _⟩ := hi.pending hsplit' hout
    obtain ⟨l, _, hnodup⟩ := hi.distinct
    rw [List.append_assoc, List.cons_append] at hsplit'
    -- the call was entered at one place, so the response came after it and bears its id
    obtain rfl := filterMap_split_unique (List.Nodup.of_append_left hnodup) hsplit hsplit' hout hout
    obtain ⟨hcall, hrest⟩ := List.cons.inj (List.append_cancel_left (hsplit.symm.trans hsplit'))
    obtain ⟨hid, _, _⟩ := RpcEvent.registered.inj hcall
    exact hpost reply out (by rw [hrest]; simp) hid.symm
  · intro ⟨⟨m, hmem⟩, hnone⟩
    obtain ⟨pre, post, hsplit⟩ := List.append_of_mem hmem
    have hfresh := hb.fresh hcalls _ _ _ _ _ hsplit
    refine ⟨pre, m, post, hsplit, hfresh, ?_⟩
    intro m' o hm' hid
    obtain ⟨a, e, b, rfl, ⟨m₁, o₁, rfl, hid₁⟩, ha⟩ := exists_first_split
      (P := fun e => ∃ m o, e = RpcEvent.response m o ∧ m.id.toInt64 = id) ⟨_, hm', m', o, rfl, hid⟩
    have hpending : Pending (pre ++ .registered id out m :: a) m₁.id.toInt64 out := by
      rw [hid₁]
      refine ⟨pre, m, a, rfl, ?_, ?_⟩
      · intro out' message' hin
        exact hfresh out' message' (List.mem_append_left _ hin)
      · intro message' out' hin hcontra
        exact ha _ hin ⟨message', out', rfl, hcontra⟩
    have hsplit' : s.history = (pre ++ .registered id out m :: a) ++ .response m₁ o₁ :: b := by
      rw [hsplit, List.append_assoc, List.cons_append]
    obtain rfl := (hb.found _ _ _ _ hsplit').1 out hpending
    exact hnone m₁ (by rw [hsplit']; simp)

end RpcEnd

namespace Link

variable {P : RpcProtobuf} {conn : Nat} {first : Bool → Int64} {services : Bool → Option Services}
  {s : Link P}

/-- What holds of the calls of `x`, which the other end serves, after these steps. -/
structure EndToEnd (services : Bool → Option Services) (ls : List LinkLabel) (s : Link P) (x : Bool) :
    Prop where
  once : ∀ n, (s x).rpc.history.count (.did (.run n)) ≤ 1
  /-- A closure is run for a response that has found its call: the payload is parsed into the
  response object, the closure is run, and the object is deleted. -/
  ran : ∀ n, .did (.run n) ∈ (s x).rpc.history →
    ∃ reply out, .response reply out ∈ (s x).rpc.history ∧ out.response = some n ∧
      out.done = some n ∧
      (s x).rpc.usesOf n = (reply.response.map (.parse n)).toList ++ [Action.run n, .free n]
  /-- This response is what the other end has answered to the request of the call. -/
  matched : ∀ reply out n, .response reply out ∈ (s x).rpc.history → out.response = some n →
    ∃ id request, .registered id out request ∈ (s x).rpc.history ∧
      .answered request reply ∈ (s !x).rpc.history
  /-- The request of the `n`-th call asks for what `CallMethod` was called with. -/
  issued : ∀ id out request, .registered id out request ∈ (s x).rpc.history →
    Issued ((ls.filterMap (LinkLabel.ownOf x)).filterMap RpcLabel.asked) id out request
  /-- An answer is the error of the lookups, or bytes. -/
  answered : ∀ request reply, .answered request reply ∈ (s !x).rpc.history →
    IsReply (services !x) request reply
  /-- The bytes that are sent are those to which the services have serialized their responses, each
  with the request whose closure was run, in order. -/
  produced : (s !x).rpc.history.filterMap RpcEvent.payload =
    (ls.filterMap (LinkLabel.ownOf !x)).filterMap RpcLabel.serialized
  /-- A request has one answer, if its method is not still at work. -/
  account : (s !x).rpc.requests.Perm ((s !x).rpc.answeredRequests ++
    ((s !x).rpc.accepted ++ (s !x).rpc.actions.filterMap Action.ofRequest))
  outstanding : ∀ id out, (s x).rpc.channel.outstandings_ id = some out ↔
    (∃ request, .registered id out request ∈ (s x).rpc.history) ∧
      ∀ reply, .response reply out ∉ (s x).rpc.history

/-- A message that was taken in was sent by the other end. -/
theorem Carried.sent {x : Bool} (hc : Carried s x) {m : RpcMessage} (h : m ∈ (s x).rpc.handed) :
    m ∈ (s !x).rpc.emitted := by
  obtain ⟨waiting, flight, _, _, hsent⟩ := hc.stream
  rw [hsent]
  exact List.mem_append_left _ h

/-- A request that has arrived is that of a call of the other end. -/
theorem request_registered {x : Bool}
    (h : Reachable (machine P conn) (start conn P first services) s) (hc : Carried s x)
    {q : RpcMessage} (hq : q ∈ (s x).rpc.requests) :
    ∃ id out, .registered id out q ∈ (s !x).rpc.history := by
  obtain ⟨event, hmem, hevent⟩ := List.mem_filterMap.mp hq
  cases event with
  | request q' error =>
    obtain rfl := Option.some.inj hevent
    have htype : q'.type = .REQUEST := RpcEnd.reachable_typed (end_reachable h x) _ hmem
    obtain ⟨event, hsent, hevent⟩ := List.mem_filterMap.mp
      (hc.sent (List.mem_filterMap.mpr ⟨_, hmem, rfl⟩))
    cases event with
    | sent m =>
      obtain rfl := Option.some.inj hevent
      exact (RpcEnd.reachable_sends (end_reachable h !x)).sent m hsent
    | answered q r =>
      obtain rfl := Option.some.inj hevent
      have hreply := ((RpcEnd.reachable_serves (end_reachable h !x)).answered q r hsent).type_eq
      rw [htype] at hreply
      cases hreply
    | _ => cases hevent
  | _ => cases hevent

/-- A response that has arrived is an answer of the other end. -/
theorem response_answered {x : Bool}
    (h : Reachable (machine P conn) (start conn P first services) s) (hc : Carried s x)
    {reply : RpcMessage} {out : OutstandingCall} (hreply : .response reply out ∈ (s x).rpc.history) :
    ∃ q, .answered q reply ∈ (s !x).rpc.history := by
  have htype : reply.type = .RESPONSE := RpcEnd.reachable_typed (end_reachable h x) _ hreply
  obtain ⟨event, hsent, hevent⟩ := List.mem_filterMap.mp
    (hc.sent (List.mem_filterMap.mpr ⟨_, hreply, rfl⟩))
  cases event with
  | sent m =>
    obtain rfl := Option.some.inj hevent
    obtain ⟨id, out', hregistered⟩ := (RpcEnd.reachable_sends (end_reachable h !x)).sent m hsent
    obtain ⟨_, _, _, _, _, hrequest, _⟩ :=
      (RpcEnd.reachable_inv (end_reachable h !x)).registered _ _ _ hregistered
    rw [htype] at hrequest
    cases hrequest
  | answered q r =>
    obtain rfl := Option.some.inj hevent
    exact ⟨q, hsent⟩
  | _ => cases hevent

theorem matched (hP : P.Sound) (h : Reachable (machine P conn) (start conn P first services) s)
    (hfit : AllFit s) {x : Bool} (hcalls : (s x).rpc.calls ≤ 2 ^ 64) {reply : RpcMessage}
    {out : OutstandingCall} {n : Nat} (hreply : .response reply out ∈ (s x).rpc.history)
    (hout : out.response = some n) :
    ∃ id request, .registered id out request ∈ (s x).rpc.history ∧
      .answered request reply ∈ (s !x).rpc.history := by
  have hi := RpcEnd.reachable_inv (end_reachable h x)
  have hserves := RpcEnd.reachable_serves (end_reachable h !x)
  obtain ⟨q, hanswered⟩ := response_answered h (reachable_carried hP h hfit x) hreply
  have hq : q ∈ (s !x).rpc.requests := hserves.account.mem_iff.mpr
    (List.mem_append_left _ (List.mem_filterMap.mpr ⟨_, hanswered, rfl⟩))
  obtain ⟨id, out', hregistered⟩ := request_registered h (reachable_carried hP h hfit !x) hq
  rw [Bool.not_not] at hregistered
  -- the reply bears the id of the request, under which the call it has found was entered
  obtain ⟨_, _, _, _, _, _, hid⟩ := hi.registered _ _ _ hregistered
  have hreplyId : reply.id.toInt64 = id := by
    rw [(hserves.answered q reply hanswered).id_eq, hid, Int64.toInt64_toUInt64]
  obtain ⟨pre, post, hsplit⟩ := List.append_of_mem hreply
  obtain ⟨a, request, b, rfl, _, _⟩ := hi.pending hsplit hout
  have hfound : .registered id out request ∈ (s x).rpc.history := by
    rw [hsplit, hreplyId]
    simp
  obtain ⟨_, rfl⟩ := (RpcEnd.replies_withstood (end_reachable h x)).registered_once hcalls hfound
    hregistered
  exact ⟨id, request, hfound, hanswered⟩

/-- Every call of either end is answered from end to end. -/
theorem calls_answered (hP : P.Sound) {ls : List LinkLabel}
    (hr : Run (machine P conn) (start conn P first services) ls s) (hfit : AllFit s)
    (hcalls : ∀ x, (s x).rpc.calls ≤ 2 ^ 64) (x : Bool) : EndToEnd services ls s x := by
  have h : Reachable (machine P conn) (start conn P first services) s := ⟨ls, hr⟩
  have hb := RpcEnd.replies_withstood (end_reachable h x)
  have hserves := RpcEnd.reachable_serves (end_reachable h !x)
  constructor
  · exact hb.run_once
  · intro n hran
    exact hb.run_for hran
  · intro reply out n hreply hout
    exact matched hP h hfit (hcalls x) hreply hout
  · exact (end_logged hr x).registered
  · exact hserves.answered
  · exact (end_logged hr !x).payloads
  · exact hserves.account
  · exact RpcEnd.outstanding_iff_unanswered (end_reachable h x) (hcalls x)

/-- A service with the name 1, whose method 2 takes any request. -/
def oneMethod : Services := fun name =>
  if name = [1] then
    some ⟨fun method => if method = [2] then some ⟨fun _ => true⟩ else none⟩
  else none

/-- Only the end `true` serves. -/
def oneServer (x : Bool) : Option Services := if x then some oneMethod else none

/-- The bytes as they arrive, `n` at once. -/
def arrive (x : Bool) (bytes : List UInt8) (n : Nat) (h : n ≤ maxSize) : LinkLabel :=
  .deliver x ⟨bytes.take n, Nat.le_trans (List.length_take_le _ _) h⟩

/-- Two calls; the second names no method. The frames are cut, and the first call is answered
last. -/
def twoCalls : List LinkLabel :=
  let q₁ := request 1 [1] [2] [3]
  let q₂ := request 2 [1] [4] [5]
  let requests := rpcMessages.frame q₁ ++ rpcMessages.frame q₂
  let replies := rpcMessages.frame (errorReply 2 .NO_METHOD) ++ rpcMessages.frame (doneReply 1 [9])
  [.own false (.call 0 [1] [2] [3] true), .own false (.call 7 [1] [4] [5] true),
    .own false (.register 0), .own false (.send 0), .own false (.register 7), .own false (.send 7),
    arrive true requests 10 (by decide), arrive true (requests.drop 10) 200 (by decide),
    .hand true, .own true .act, .hand true, .own true .act, .own true (.done q₁ [9]),
    arrive false replies 60 (by decide), .hand false, .own false .act, .own false .act,
    arrive false (replies.drop 60) 60 (by decide), .hand false, .own false .act, .own false .act,
    .own false .act]

theorem twoCalls_run :
    ∃ s, Run (machine rpcMessages 0) (start 0 rpcMessages (fun _ => 0) oneServer) twoCalls s ∧
      ((s false).rpc.emitted = [request 1 [1] [2] [3], request 2 [1] [4] [5]] ∧
        (s true).rpc.emitted = [errorReply 2 .NO_METHOD, doneReply 1 [9]]) ∧
      ((s false).rpc.calls = 2 ∧ (s true).rpc.calls = 0) ∧
      .did (.run 0) ∈ (s false).rpc.history ∧ .did (.run 1) ∈ (s false).rpc.history :=
  exists_run_of_exec _ (by decide +kernel)

theorem calls_answered_two :
    ∃ s : Link rpcMessages, .did (.run 0) ∈ (s false).rpc.history ∧
      .did (.run 1) ∈ (s false).rpc.history ∧ EndToEnd oneServer twoCalls s false := by
  obtain ⟨s, hrun, ⟨hsent, hreplied⟩, ⟨hcalls, hnone⟩, hfirst, hsecond⟩ := twoCalls_run
  refine ⟨s, hfirst, hsecond, calls_answered rpcMessages_lawful.toSound hrun ?_ ?_ false⟩
  · intro x m hm
    apply rpcMessages_fits
    cases x with
    | false =>
      rw [hsent] at hm
      revert m
      decide +kernel
    | true =>
      rw [hreplied] at hm
      revert m
      decide +kernel
  · intro x
    cases x with
    | false =>
      rw [hcalls]
      decide
    | true =>
      rw [hnone]
      decide

end Link

end MuduoNet.Rpc
