import MuduoNet.Codec.Application
import MuduoNet.Generated.Pool

/-!
# The query programs

`protobuf_server.cc` answers a query and shuts down; whatever else it is handed, it shuts down.
`protobuf_client.cc` sends one message and logs what comes back. Both link the same classes.
-/
namespace MuduoNet

open Lib Lib.Outcome ProtobufCodec Generated

/-- The classes of `query.proto`. -/
def queryClasses : Linked where
  classes := [Generated.Query, Generated.Answer, Generated.Empty]
  known _ h := List.IsPrefix.subset ⟨_, rfl⟩ h
  distinct := by decide +kernel

abbrev QueryClass : Type := Fin queryClasses.classes.length

def query_ : QueryClass := ⟨0, by decide⟩
def answer_ : QueryClass := ⟨1, by decide⟩
def empty_ : QueryClass := ⟨2, by decide⟩

def utf8 (s : String) : List UInt8 := s.toUTF8.toList

variable {W : WireFormat} (L : Pool W queryClasses)

namespace QueryServer

inductive Callback
  | onQuery
  | onAnswer
  | onUnknownMessage
  deriving DecidableEq

/-- The constructor registers two callbacks. -/
def dispatcher_ : ProtobufDispatcher L.toTypedProtobuf Callback :=
  ((ProtobufDispatcher.new .onUnknownMessage).registerMessageCallback (L.class_ query_) .onQuery)
    |>.registerMessageCallback (L.class_ answer_) .onAnswer

def answerFields : GeneratedMessage W Generated.Answer :=
  Answer.add_solution (Answer.add_solution (Answer.set_answerer (Answer.set_questioner
    (Answer.set_id .new 1) (utf8 "Chen Shuo")) (utf8 "blog.csdn.net/Solstice")) (utf8 "Jump!"))
    (utf8 "Win!")

theorem answerFields_built : (answerFields (W := W)).Built := by
  have hfits : ∀ s : List UInt8, s.length ≤ 32 → FieldType.string.Fits s := by
    intro s hs
    exact Nat.lt_of_le_of_lt hs (by decide)
  refine .store _ _ (.store _ _ (.store _ _ (.store _ _ (.store _ _ .new rfl trivial) rfl ?_) rfl ?_)
    rfl ?_) rfl ?_
  · exact hfits _ (by decide +kernel)
  · exact hfits _ (by decide +kernel)
  · exact hfits _ (by decide +kernel)
  · exact hfits _ (by decide +kernel)

theorem answerFields_wf (hW : W.Lawful) : (answerFields (W := W)).Wf :=
  answerFields_built.wf hW (queryClasses.coherent answer_)

def answer : L.Message := L.object answer_ answerFields

def handle : Callback → List (Request L.Message)
  | .onQuery => [.send (answer L), .shutdown]
  | .onAnswer | .onUnknownMessage => [.shutdown]

def user : CodecUser L.toProtobuf where
  onConnection := .ok []
  onMessage message := do
    let (callback, _) ← (dispatcher_ L).onProtobufMessage message
    return handle L callback

variable {L}

theorem onMessage_eq (hL : L.Lawful) (m : L.Message) : (user L).onMessage m =
    .ok (if L.GetDescriptor m = L.descriptor (L.class_ query_) then [.send (answer L), .shutdown]
      else [.shutdown]) := by
  have hkeyed := ProtobufDispatcher.keyed_registerAll
    (ProtobufDispatcher.new_keyed (P := L.toTypedProtobuf) Callback.onUnknownMessage)
    [(L.class_ query_, Callback.onQuery), (L.class_ answer_, Callback.onAnswer)]
  have hcall : (dispatcher_ L).onProtobufMessage m = .ok (ProtobufDispatcher.lastFor
      ([(L.class_ query_, Callback.onQuery)] ++ [(L.class_ answer_, Callback.onAnswer)])
      .onUnknownMessage m, m) := by
    rw [List.singleton_append, ← ProtobufDispatcher.lite_registerAll]
    exact hkeyed.onProtobufMessage_eq hL.casts m
  have hapart : L.descriptor (L.class_ answer_) ≠ L.descriptor (L.class_ query_) := by
    intro h
    exact absurd (hL.distinct answer_ query_ h) (by decide)
  show ((dispatcher_ L).onProtobufMessage m >>= fun r => pure (handle L r.1)) = _
  rw [hcall, ok_bind, ProtobufDispatcher.lastFor_concat,
    ← List.nil_append [(L.class_ query_, Callback.onQuery)], ProtobufDispatcher.lastFor_concat]
  by_cases hquery : L.GetDescriptor m = L.descriptor (L.class_ query_)
  · rw [if_pos hquery, hquery, if_neg hapart, if_pos rfl]
    rfl
  · rw [if_neg hquery, if_neg (Ne.symm hquery)]
    split <;> rfl

end QueryServer

namespace QueryClient

def queryFields : GeneratedMessage W Generated.Query :=
  Query.add_question (Query.set_questioner (Query.set_id .new 1) (utf8 "Chen Shuo")) (utf8 "Running?")

theorem queryFields_built : (queryFields (W := W)).Built := by
  have hfits : ∀ s : List UInt8, s.length ≤ 32 → FieldType.string.Fits s := by
    intro s hs
    exact Nat.lt_of_le_of_lt hs (by decide)
  refine .store _ _ (.store _ _ (.store _ _ .new rfl trivial) rfl ?_) rfl ?_
  · exact hfits _ (by decide +kernel)
  · exact hfits _ (by decide +kernel)

theorem queryFields_wf (hW : W.Lawful) : (queryFields (W := W)).Wf :=
  queryFields_built.wf hW (queryClasses.coherent query_)

def query : L.Message := L.object query_ queryFields

def empty : L.Message := L.object empty_ .new

/-- `messageToSend`, by the third argument of the program. -/
def messageToSend (e : Bool) : L.Message := if e then empty L else query L

inductive Callback
  | onAnswer
  | onEmpty
  | onUnknownMessage

def dispatcher_ : ProtobufDispatcher L.toTypedProtobuf Callback :=
  ((ProtobufDispatcher.new .onUnknownMessage).registerMessageCallback (L.class_ answer_) .onAnswer)
    |>.registerMessageCallback (L.class_ empty_) .onEmpty

/-- The callbacks of the client only log. -/
def handle : Callback → List (Request L.Message)
  | .onAnswer | .onEmpty | .onUnknownMessage => []

def user (e : Bool) : CodecUser L.toProtobuf where
  onConnection := .ok [.send (messageToSend L e)]
  onMessage message := do
    let (callback, _) ← (dispatcher_ L).onProtobufMessage message
    return handle L callback

variable {L}

theorem onMessage_eq (hL : L.Lawful) (e : Bool) (m : L.Message) : (user L e).onMessage m = .ok [] := by
  have hkeyed := ProtobufDispatcher.keyed_registerAll
    (ProtobufDispatcher.new_keyed (P := L.toTypedProtobuf) Callback.onUnknownMessage)
    [(L.class_ answer_, Callback.onAnswer), (L.class_ empty_, Callback.onEmpty)]
  have hcall : (dispatcher_ L).onProtobufMessage m = .ok (ProtobufDispatcher.lastFor
      [(L.class_ answer_, Callback.onAnswer), (L.class_ empty_, Callback.onEmpty)]
      .onUnknownMessage m, m) := by
    rw [← ProtobufDispatcher.lite_registerAll]
    exact hkeyed.onProtobufMessage_eq hL.casts m
  show ((dispatcher_ L).onProtobufMessage m >>= fun r => pure (handle L r.1)) = _
  rw [hcall, ok_bind]
  unfold handle
  split <;> rfl

end QueryClient

variable {L}

section

theorem sendable_of_length (hL : L.Lawful) (hW : W.Lawful) {i : QueryClass}
    {m : GeneratedMessage W (queryClasses.classes.get i)} (hwf : m.Wf) (hinit : m.IsInitialized = true)
    (hlen : m.InternalSerializeWithCachedSizesToArray.length ≤ 2 ^ 20) :
    Sendable L.toProtobuf (L.object i m) := by
  have hname := (queryClasses.typeName_get i).2
  have hbody := hL.length_body i m
  refine ⟨⟨_, hL.encodable hW hwf hinit (Nat.lt_of_le_of_lt hlen (by decide))⟩, ?_⟩
  unfold kMaxMessageLen
  omega

theorem fits_utf8 {s : List UInt8} (h : s.length ≤ 32) : FieldType.string.Fits s :=
  Nat.lt_of_le_of_lt h (by decide)

theorem answer_initialized : (QueryServer.answerFields (W := W)).IsInitialized = true := by
  have hbits : (QueryServer.answerFields (W := W))._has_bits_ = 0x7 := by
    show ((((0 ||| BitVec.twoPow 32 2) ||| BitVec.twoPow 32 0) ||| BitVec.twoPow 32 1) ||| 0 ||| 0) = _
    decide
  show decide ((QueryServer.answerFields (W := W))._has_bits_ &&& 0x7 = 0x7) = true
  rw [hbits]
  rfl

theorem query_initialized : (QueryClient.queryFields (W := W)).IsInitialized = true := by
  have hbits : (QueryClient.queryFields (W := W))._has_bits_ = 0x3 := by
    show ((((0 ||| BitVec.twoPow 32 1) ||| BitVec.twoPow 32 0)) ||| 0) = _
    decide
  show decide ((QueryClient.queryFields (W := W))._has_bits_ &&& 0x3 = 0x3) = true
  rw [hbits]
  rfl

open GeneratedMessage in
theorem answer_sendable (hL : L.Lawful) (hW : W.Lawful) :
    Sendable L.toProtobuf (QueryServer.answer L) := by
  have hc : Generated.Answer.Coherent := queryClasses.coherent answer_
  have hquestioner : (utf8 "Chen Shuo").length ≤ 32 := by decide +kernel
  have hanswerer : (utf8 "blog.csdn.net/Solstice").length ≤ 32 := by decide +kernel
  have hjump : (utf8 "Jump!").length ≤ 32 := by decide +kernel
  have hwin : (utf8 "Win!").length ≤ 32 := by decide +kernel
  have hnew : (new : GeneratedMessage W
      Generated.Answer).InternalSerializeWithCachedSizesToArray.length ≤ 0 := by
    rw [serialize_new]
    rfl
  refine sendable_of_length hL hW (i := answer_) (QueryServer.answerFields_wf hW) answer_initialized ?_
  have hlen : (QueryServer.answerFields (W := W)).InternalSerializeWithCachedSizesToArray.length ≤
      0 + (11 + 0) + (11 + 32) + (11 + 32) + (11 + 32) + (11 + 32) :=
    length_store_le hW hc (length_store_le hW hc (length_store_le hW hc (length_store_le hW hc
      (length_store_le hW hc hnew trivial (Nat.le_refl 0)) (fits_utf8 hquestioner) hquestioner)
      (fits_utf8 hanswerer) hanswerer) (fits_utf8 hjump) hjump) (fits_utf8 hwin) hwin
  exact Nat.le_trans hlen (by decide)

open GeneratedMessage in
theorem messageToSend_sendable (hL : L.Lawful) (hW : W.Lawful) (e : Bool) :
    Sendable L.toProtobuf (QueryClient.messageToSend L e) := by
  have hquestioner : (utf8 "Chen Shuo").length ≤ 32 := by decide +kernel
  have hquestion : (utf8 "Running?").length ≤ 32 := by decide +kernel
  cases e with
  | true =>
    refine sendable_of_length hL hW (i := empty_) new_wf ?_ ?_
    · show decide ((0 : BitVec 32) &&& 0 = 0) = true
      decide
    · show (new : GeneratedMessage W _).InternalSerializeWithCachedSizesToArray.length ≤ _
      rw [serialize_new]
      exact Nat.zero_le _
  | false =>
    have hc : Generated.Query.Coherent := queryClasses.coherent query_
    have hnew : (new : GeneratedMessage W
        Generated.Query).InternalSerializeWithCachedSizesToArray.length ≤ 0 := by
      rw [serialize_new]
      rfl
    refine sendable_of_length hL hW (i := query_) (QueryClient.queryFields_wf hW) query_initialized ?_
    have hlen : (QueryClient.queryFields (W := W)).InternalSerializeWithCachedSizesToArray.length ≤
        0 + (11 + 0) + (11 + 32) + (11 + 32) :=
      length_store_le hW hc (length_store_le hW hc (length_store_le hW hc hnew trivial (Nat.le_refl 0))
        (fits_utf8 hquestioner) hquestioner) (fits_utf8 hquestion) hquestion
    exact Nat.le_trans hlen (by decide)

end

namespace QueryServer

theorem sensible (hL : L.Lawful) (hW : W.Lawful) : (user L).Sensible where
  opening requests h m hm := by
    obtain rfl := Except.ok.inj h
    cases hm
  reply message requests h m hm := by
    obtain rfl := Except.ok.inj ((onMessage_eq hL message).symm.trans h)
    split at hm
    · rcases List.mem_cons.mp hm with hm | hm
      · rw [Request.send.inj hm]
        exact answer_sendable hL hW
      · simp at hm
    · simp at hm

variable (L) in
/-- What the server says to the first that it is handed. -/
def reply : Option (ProtobufCodec.Event L.Message) → List L.Message
  | some (.messageCallback m) =>
    if L.GetDescriptor m = L.descriptor (L.class_ query_) then [answer L] else []
  | some (.errorCallback _) | none => []

/-- Each response ends in a shutdown, so only the first one is heard. -/
theorem uttered_responses (hL : L.Lawful) {calls : List (ProtobufCodec.Event L.Message)}
    {responses : List (List (Request L.Message))} (h : calls.mapM (user L).respond = .ok responses) :
    uttered responses.flatten = reply L calls.head? ∧
      (.shutdown ∈ responses.flatten ↔ calls ≠ []) := by
  cases calls with
  | nil =>
    obtain rfl := Except.ok.inj h
    simp [uttered, reply]
  | cons event calls =>
    rw [List.mapM_cons] at h
    obtain ⟨first, hfirst, h⟩ := bind_eq_ok h
    obtain ⟨later, _, h⟩ := bind_eq_ok h
    obtain rfl := Except.ok.inj h
    cases event with
    | errorCallback code =>
      obtain rfl := Except.ok.inj hfirst
      simp [uttered, reply]
    | messageCallback m =>
      obtain rfl := Except.ok.inj ((onMessage_eq hL m).symm.trans hfirst)
      simp only [List.flatten_cons, List.head?_cons, reply]
      split <;> simp [uttered]

/-- It asks for the answer to the first that it is handed, and for the shutdown behind anything. -/
theorem requested_reply (hL : L.Lawful) {s : Session (ProtobufCodec.Event L.Message)}
    {requests : List (Request L.Message)} (h : (user L).Requested s requests) :
    uttered requests = reply L s.calls.head? ∧ (.shutdown ∈ requests ↔ s.calls ≠ []) := by
  rcases h with ⟨hfresh, rfl⟩ | ⟨opening, responses, hopening, hresponses, rfl⟩
  · rw [hfresh.calls]
    simp [uttered, reply]
  · obtain rfl := Except.ok.inj hopening
    exact uttered_responses hL hresponses

/-- Whatever bytes arrive and however they are cut, the server writes at most one message, the
answer, and only if the first that it was handed is a query; it shuts down once it has been handed
anything. -/
theorem answers_once (hL : L.Lawful) (hW : W.Lawful) {sockfd : Int}
    {s : Session (ProtobufCodec.Event L.Message)}
    (h : Reachable (Session.machine (user L).application) (Session.start sockfd) s) :
    CodecUser.Heard L.toProtobuf s.received s.calls s.tcp.inputBuffer_.readable ∧
      TcpConnection.accepted s.tcp.trace <+:
        symbols (CodecUser.frames L.toProtobuf (reply L s.calls.head?)) ∧
      (.shutdown ∈ s.done ++ s.todo ↔ s.calls ≠ []) := by
  have hi := Session.reachable_inv (user L).reads h
  obtain ⟨requests, hrequested, hcommands⟩ := CodecUser.requested hi
  have hspoken := CodecUser.spoken_commands (hL.protobuf hW)
    ((sensible hL hW).sendable hrequested) hcommands
  have hshutdown := Request.shutdown_mem hcommands
  have huttered := requested_reply hL hrequested
  refine ⟨hi.reads, ?_, hshutdown.symm.trans huttered.2⟩
  rw [← huttered.1, ← hspoken]
  have hfront : TcpConnection.accepted s.tcp.trace <+: spoken s.done := by
    rw [← hi.said, ← hi.conserved]
    exact List.prefix_append _ _
  exact hfront.trans (spoken_front _ _)

/-- An answer is followed by three bytes that are no frame yet. -/
theorem answers_once_run :
    let L := queryClasses.pool plain
    let bytes := frame L.toProtobuf (answer L) ++ [0, 0, 0]
    ∃ s : Session (ProtobufCodec.Event L.Message),
      Run (Session.machine (user L).application) (Session.start 7)
        [.establish, .read (.delivered bytes), .act (.wrote 0)] s ∧
      .shutdown ∈ s.done ++ s.todo := by
  intro L bytes
  obtain ⟨s, hr, hcalls⟩ : ∃ s : Session (ProtobufCodec.Event L.Message),
      Run (Session.machine (user L).application) (Session.start 7)
        [.establish, .read (.delivered bytes), .act (.wrote 0)] s ∧ s.calls.length = 1 :=
    exists_run_of_exec _ (by decide +kernel)
  refine ⟨s, hr, (answers_once (queryClasses.pool_lawful plain) plain_lawful ⟨_, hr⟩).2.2.mpr ?_⟩
  intro hnil
  rw [hnil] at hcalls
  cases hcalls

end QueryServer

namespace QueryClient

theorem sensible (hL : L.Lawful) (hW : W.Lawful) (e : Bool) : (user L e).Sensible where
  opening requests h m hm := by
    obtain rfl := Except.ok.inj h
    rw [Request.send.inj (List.mem_singleton.mp hm)]
    exact messageToSend_sendable hL hW e
  reply message requests h m hm := by
    obtain rfl := Except.ok.inj ((onMessage_eq hL e message).symm.trans h)
    cases hm

/-- Messages move the client to nothing. -/
theorem responses_nil (hL : L.Lawful) {e : Bool} {messages : List L.Message}
    {responses : List (List (Request L.Message))}
    (h : (messages.map Event.messageCallback).mapM (user L e).respond = .ok responses) :
    responses.flatten = [] := by
  induction messages generalizing responses with
  | nil =>
    obtain rfl := Except.ok.inj h
    rfl
  | cons m messages ih =>
    rw [List.map_cons, List.mapM_cons] at h
    obtain ⟨first, hfirst, h⟩ := bind_eq_ok h
    obtain ⟨later, hlater, h⟩ := bind_eq_ok h
    obtain rfl := Except.ok.inj h
    obtain rfl := Except.ok.inj ((onMessage_eq hL e m).symm.trans hfirst)
    have hnil := ih hlater
    exact hnil

/-- A client that is handed messages asks for nothing but its own. -/
theorem requested_front (hL : L.Lawful) {e : Bool} {s : Session (ProtobufCodec.Event L.Message)}
    {requests : List (Request L.Message)} (h : (user L e).Requested s requests)
    {messages : List L.Message} (hcalls : s.calls = messages.map Event.messageCallback) :
    uttered requests <+: [messageToSend L e] := by
  rcases h with ⟨_, rfl⟩ | ⟨opening, responses, hopening, hresponses, rfl⟩
  · exact List.nil_prefix
  · obtain rfl := Except.ok.inj hopening
    rw [hcalls] at hresponses
    have hnone := responses_nil hL hresponses
    exact ⟨[], by simp [hnone, uttered]⟩

end QueryClient

/-- The client is the side `true`. -/
def queryPrograms (L : Pool W queryClasses) (e : Bool) : Bool → CodecUser L.toProtobuf
  | true => QueryClient.user L e
  | false => QueryServer.user L

namespace Peers

theorem query_sensible (hL : L.Lawful) (hW : W.Lawful) (e : Bool) : ∀ x, (queryPrograms L e x).Sensible
  | true => QueryClient.sensible hL hW e
  | false => QueryServer.sensible hL hW

variable (L) in
/-- What the client is sent back. -/
def queryReply (e : Bool) : List L.Message :=
  if e then [] else [QueryServer.answer L]

theorem reply_messageToSend (hL : L.Lawful) (e : Bool) :
    QueryServer.reply L (some (.messageCallback (QueryClient.messageToSend L e))) =
      queryReply L e := by
  cases e with
  | true =>
    have hapart : L.GetDescriptor (QueryClient.empty L) ≠ L.descriptor (L.class_ query_) := by
      rw [QueryClient.empty, hL.descriptor_object]
      intro h
      exact absurd (hL.distinct empty_ query_ h) (by decide)
    exact if_neg hapart
  | false => exact if_pos (hL.descriptor_object query_ _)

/-- A client that sends a query is handed the answer and nothing else, a client that sends an empty
message nothing at all; and when it finds the end of an unbroken stream and the server has not
closed, the server has been handed its message and it has been handed all that it is sent back. -/
theorem query_answered (hL : L.Lawful) (hW : W.Lawful) {e : Bool} {sockfd : Bool → Int}
    {s : Peers fun _ => ProtobufCodec.Event L.Message}
    (h : Reachable (machine fun x => (queryPrograms L e x).application) (start sockfd) s) :
    (s.side false).calls <+: [.messageCallback (QueryClient.messageToSend L e)] ∧
      (s.side true).calls <+: (queryReply L e).map Event.messageCallback ∧
      (s.broken = false → s.Enabled (.own true (.read (.delivered []))) →
        (s.side false).stage ≠ .destroyed →
        (s.side false).calls = [.messageCallback (QueryClient.messageToSend L e)] ∧
          (s.side true).calls = (queryReply L e).map Event.messageCallback) := by
  have hi := reachable_inv (fun x => (queryPrograms L e x).reads) h
  have hP := hL.protobuf hW
  obtain ⟨asked, hasked, _, heard, unheard, hsplit, hcalls, _⟩ :=
    hi.handed hP (query_sensible hL hW e) true
  obtain ⟨replied, hreplied, hcommands, back, missing, hback, hclient, hall⟩ :=
    hi.handed hP (query_sensible hL hW e) false
  change (s.side false).calls = _ at hcalls
  change (s.side true).calls = _ at hclient
  have huttered := QueryClient.requested_front hL hasked hclient
  have hserver : heard <+: [QueryClient.messageToSend L e] := by
    apply List.IsPrefix.trans _ huttered
    rw [hsplit]
    exact List.prefix_append _ _
  have hsaid := QueryServer.requested_reply hL hreplied
  have hcases : heard = [] ∨ heard = [QueryClient.messageToSend L e] := by
    obtain hnil | ⟨rest, rfl, hrest⟩ := List.prefix_cons_iff.mp hserver
    · exact .inl hnil
    · rw [List.prefix_nil.mp hrest]
      exact .inr rfl
  have hreply : uttered replied <+: queryReply L e := by
    rw [hsaid.1, hcalls]
    rcases hcases with rfl | rfl
    · exact List.nil_prefix
    · change QueryServer.reply L (some (.messageCallback (QueryClient.messageToSend L e))) <+: _
      rw [reply_messageToSend hL]
  refine ⟨?_, ?_, ?_⟩
  · rw [hcalls]
    exact hserver.map _
  · rw [hclient]
    apply List.IsPrefix.map
    apply List.IsPrefix.trans _ hreply
    rw [hback]
    exact List.prefix_append _ _
  · intro hbroken heof halive
    obtain ⟨hreceived, hshutdown⟩ := hi.ended (x := false) hbroken heof halive
    have hnone := hall hreceived hshutdown
    have hne : (s.side false).calls ≠ [] := hsaid.2.mp
      ((Request.shutdown_mem hcommands).mpr (List.mem_append_left _ hshutdown))
    have hone : heard = [QueryClient.messageToSend L e] := by
      rcases hcases with rfl | hone
      · exact absurd hcalls hne
      · exact hone
    rw [hone] at hcalls
    refine ⟨hcalls, ?_⟩
    rw [hclient]
    rw [hnone, List.append_nil, hsaid.1, hcalls] at hback
    change QueryServer.reply L (some (.messageCallback (QueryClient.messageToSend L e))) = back at hback
    rw [← hback, reply_messageToSend hL]

/-- The query arrives in two pieces, the answer in one. -/
def queryRun (L : Pool W queryClasses) : List PeersLabel :=
  let query := frame L.toProtobuf (QueryClient.messageToSend L false)
  let answer := frame L.toProtobuf (QueryServer.answer L)
  [.own true .establish, .own false .establish, .own true (.act (.wrote 47)),
    .own false (.read (.delivered (query.take 20))), .own false (.read (.delivered (query.drop 20))),
    .own false (.act (.wrote 75)), .own false (.act (.wrote 0)), .own true (.read (.delivered answer))]

theorem query_answered_run :
    let L := queryClasses.pool plain
    ∃ s : Peers fun _ => ProtobufCodec.Event L.Message,
      Run (machine fun x => (queryPrograms L false x).application) (start fun _ => 7) (queryRun L) s ∧
      (s.side false).calls = [.messageCallback (QueryClient.messageToSend L false)] ∧
      (s.side true).calls = [.messageCallback (QueryServer.answer L)] := by
  intro L
  obtain ⟨s, hr, hbroken, heof, halive⟩ : ∃ s : Peers fun _ => ProtobufCodec.Event L.Message,
      Run (machine fun x => (queryPrograms L false x).application) (start fun _ => 7) (queryRun L) s ∧
        s.broken = false ∧ s.Enabled (.own true (.read (.delivered []))) ∧
        (s.side false).stage ≠ .destroyed :=
    exists_run_of_exec _ (by decide +kernel)
  obtain ⟨_, _, hall⟩ := query_answered (queryClasses.pool_lawful plain) plain_lawful ⟨queryRun L, hr⟩
  obtain ⟨hserver, hclient⟩ := hall hbroken heof halive
  exact ⟨s, hr, hserver, hclient⟩

end Peers

end MuduoNet
