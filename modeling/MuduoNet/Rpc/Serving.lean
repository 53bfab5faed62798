import MuduoNet.Rpc.Bookkeeping

/-!
# Requests and their answers

At any time a request that has been handed over is answered, or its method has it, or the loop
thread is about to deal with it. The answer is what the lookups and the method say. What the other
end is sent besides answers are the requests of the calls that have an entry.
-/
namespace MuduoNet.Rpc

open Lib Lib.Outcome

/-- The service that a request names. -/
def serviceOf (services : Option Services) (q : RpcMessage) : Option Service :=
  services.bind fun services => services (q.service.getD [])

/-- The response to a request: an error, or the bytes that the method has produced. -/
inductive IsReply (services : Option Services) (q : RpcMessage) : RpcMessage → Prop
  | noService (h : serviceOf services q = none) :
      IsReply services q { type := .RESPONSE, id := q.id, error := some .NO_SERVICE }
  | noMethod {service : Service} (h : serviceOf services q = some service)
      (hm : service.FindMethodByName (q.method.getD []) = none) :
      IsReply services q { type := .RESPONSE, id := q.id, error := some .NO_METHOD }
  | invalid {service : Service} {method : Method} (h : serviceOf services q = some service)
      (hm : service.FindMethodByName (q.method.getD []) = some method)
      (hp : method.parses (q.request.getD []) = false) :
      IsReply services q { type := .RESPONSE, id := q.id, error := some .INVALID_REQUEST }
  | done {service : Service} {method : Method} (h : serviceOf services q = some service)
      (hm : service.FindMethodByName (q.method.getD []) = some method)
      (hp : method.parses (q.request.getD []) = true) (bytes : List UInt8) :
      IsReply services q { type := .RESPONSE, id := q.id, response := some bytes }

variable {services : Option Services} {q : RpcMessage}

theorem lookup_cases (services : Option Services) (q : RpcMessage) :
    (serviceOf services q = none ∧ lookup services q = .NO_SERVICE) ∨
    ∃ service, serviceOf services q = some service ∧
      ((service.FindMethodByName (q.method.getD []) = none ∧ lookup services q = .NO_METHOD) ∨
      ∃ method, service.FindMethodByName (q.method.getD []) = some method ∧
        ((method.parses (q.request.getD []) = false ∧ lookup services q = .INVALID_REQUEST) ∨
          method.parses (q.request.getD []) = true ∧ lookup services q = .NO_ERROR)) := by
  cases services with
  | none => exact .inl ⟨rfl, rfl⟩
  | some services =>
    unfold lookup serviceOf
    dsimp only [Option.bind_some]
    cases services (q.service.getD []) with
    | none => exact .inl ⟨rfl, rfl⟩
    | some service =>
      refine .inr ⟨service, rfl, ?_⟩
      dsimp only
      cases hmethod : service.FindMethodByName (q.method.getD []) with
      | none => exact .inl ⟨rfl, rfl⟩
      | some method =>
        refine .inr ⟨method, rfl, ?_⟩
        dsimp only
        cases method.parses (q.request.getD []) with
        | false => exact .inl ⟨rfl, rfl⟩
        | true => exact .inr ⟨rfl, rfl⟩

theorem isReply_of_error (h : lookup services q ≠ .NO_ERROR) :
    IsReply services q (errorReply q.id (lookup services q)) := by
  obtain ⟨hs, hl⟩ | ⟨service, hs, ⟨hm, hl⟩ | ⟨method, hm, ⟨hp, hl⟩ | ⟨_, hl⟩⟩⟩ :=
    lookup_cases services q
  · rw [hl]
    exact .noService hs
  · rw [hl]
    exact .noMethod hs hm
  · rw [hl]
    exact .invalid hs hm hp
  · exact absurd hl h

theorem isReply_of_done (h : lookup services q = .NO_ERROR) (bytes : List UInt8) :
    IsReply services q (doneReply q.id.toInt64 bytes) := by
  obtain ⟨_, hl⟩ | ⟨service, hs, ⟨_, hl⟩ | ⟨method, hm, ⟨_, hl⟩ | ⟨hp, _⟩⟩⟩ :=
    lookup_cases services q
  · rw [hl] at h
    cases h
  · rw [hl] at h
    cases h
  · rw [hl] at h
    cases h
  · rw [doneReply, UInt64.toUInt64_toInt64]
    exact .done hs hm hp bytes

namespace RpcEvent

/-- The request that has arrived. -/
def requested : RpcEvent → Option RpcMessage
  | request q _ => some q
  | _ => none

/-- The event of an arrival fits the type of the message. -/
def Typed : RpcEvent → Prop
  | response m _ => m.type = .RESPONSE
  | request q _ => q.type = .REQUEST
  | _ => True

/-- The request that is answered. -/
def answers : RpcEvent → Option RpcMessage
  | answered q _ => some q
  | _ => none

end RpcEvent

/-- The request that an action is about. -/
def Action.ofRequest : Action → Option RpcMessage
  | invoke q => some q
  | reject q _ => some q
  | _ => none

/-- The action follows from the lookups. -/
def Action.Follows (services : Option Services) : Action → Prop
  | invoke q => lookup services q = .NO_ERROR
  | reject q error => error = lookup services q ∧ error ≠ .NO_ERROR
  | _ => True

namespace RpcEnd

/-- The requests that have arrived. -/
def requests (s : RpcEnd) : List RpcMessage := s.history.filterMap RpcEvent.requested

/-- The requests that have been answered. -/
def answeredRequests (s : RpcEnd) : List RpcMessage := s.history.filterMap RpcEvent.answers

theorem requests_log (s : RpcEnd) (e : RpcEvent) :
    (s.log e).requests = s.requests ++ e.requested.toList :=
  filterMap_concat RpcEvent.requested s.history e

theorem answeredRequests_log (s : RpcEnd) (e : RpcEvent) :
    (s.log e).answeredRequests = s.answeredRequests ++ e.answers.toList :=
  filterMap_concat RpcEvent.answers s.history e

structure Serves (services : Option Services) (s : RpcEnd) : Prop where
  services_eq : s.channel.services_ = services
  account : s.requests.Perm
    (s.answeredRequests ++ (s.accepted ++ s.actions.filterMap Action.ofRequest))
  accepted : ∀ q ∈ s.accepted, lookup services q = .NO_ERROR
  follows : ∀ a ∈ s.actions, a.Follows services
  answered : ∀ q r, .answered q r ∈ s.history → IsReply services q r

section

variable {conn : Nat} {first : Int64} {s t : RpcEnd}

/-- A step that deals with no request. -/
theorem Serves.quietly (hi : s.Serves services) (es : List RpcEvent)
    (hchannel : t.channel.services_ = s.channel.services_) (haccepted : t.accepted = s.accepted)
    (hhistory : t.history = s.history ++ es)
    (hes : ∀ e ∈ es, e.requested = none ∧ e.answers = none)
    (hactions : ∀ a ∈ t.actions, a ∈ s.actions ∨ a.ofRequest = none)
    (hsame : t.actions.filterMap Action.ofRequest = s.actions.filterMap Action.ofRequest) :
    t.Serves services where
  services_eq := hchannel.trans hi.services_eq
  account := by
    have hrequested : es.filterMap RpcEvent.requested = [] :=
      List.filterMap_eq_nil_iff.mpr fun e he => (hes e he).1
    have hanswers : es.filterMap RpcEvent.answers = [] :=
      List.filterMap_eq_nil_iff.mpr fun e he => (hes e he).2
    rw [requests, answeredRequests, hhistory, List.filterMap_append, List.filterMap_append,
      hrequested, hanswers, List.append_nil, List.append_nil, haccepted, hsame]
    exact hi.account
  accepted := by
    rw [haccepted]
    exact hi.accepted
  follows a ha := by
    rcases hactions a ha with ha | hnone
    · exact hi.follows a ha
    · cases a with
      | invoke q => cases hnone
      | reject q error => cases hnone
      | _ => trivial
  answered q r hmem := by
    rw [hhistory] at hmem
    rcases List.mem_append.mp hmem with hmem | hmem
    · exact hi.answered q r hmem
    · cases (hes _ hmem).2

theorem answer_ofRequest (q : RpcMessage) (error : ErrorCode) :
    (RpcChannel.answer q error).filterMap Action.ofRequest = [q] := by
  cases error <;> rfl

theorem answer_follows (services : Option Services) (q : RpcMessage) :
    ∀ a ∈ RpcChannel.answer q (lookup services q), a.Follows services := by
  intro a ha
  cases herror : lookup services q with
  | NO_ERROR =>
    rw [herror] at ha
    rw [List.mem_singleton.mp ha]
    exact herror
  | _ =>
    rw [herror] at ha
    rw [List.mem_singleton.mp ha]
    refine ⟨herror.symm, ?_⟩
    intro h
    cases h

theorem complete_ofRequest (m : RpcMessage) (out : OutstandingCall) :
    ∀ a ∈ RpcChannel.complete m out, a.ofRequest = none := by
  intro a ha
  cases hr : out.response with
  | none => simp [RpcChannel.complete, hr] at ha
  | some r =>
    simp only [RpcChannel.complete, hr, List.mem_append, Option.mem_toList, Option.map_eq_some_iff,
      List.mem_singleton] at ha
    rcases ha with (⟨bytes, _, rfl⟩ | ⟨d, _, rfl⟩) | rfl <;> rfl

theorem Serves.request (hi : s.Serves services) {q : RpcMessage} (hidle : s.actions = []) :
    Serves services { s with
      actions := RpcChannel.answer q (lookup s.channel.services_ q)
      history := s.history ++ [.request q (lookup s.channel.services_ q)] } where
  services_eq := hi.services_eq
  account := by
    have haccount := hi.account
    rw [hidle, List.filterMap_nil, List.append_nil] at haccount
    show (s.log (.request q _)).requests.Perm ((s.log (.request q _)).answeredRequests ++
      (s.accepted ++ (RpcChannel.answer q _).filterMap Action.ofRequest))
    simp only [requests_log, answeredRequests_log, answer_ofRequest, RpcEvent.requested,
      RpcEvent.answers, Option.toList_none, Option.toList_some, List.append_nil]
    rw [← List.append_assoc]
    exact haccount.append_right [q]
  accepted := hi.accepted
  follows := by
    rw [hi.services_eq]
    exact answer_follows services q
  answered q' r hmem := by
    rcases List.mem_append.mp hmem with hmem | hmem
    · exact hi.answered q' r hmem
    · cases List.mem_singleton.mp hmem

theorem Serves.act (hi : s.Serves services) {a : Action} {rest : List Action}
    (hactions : s.actions = a :: rest) :
    (({ s with actions := rest }.log (.did a)).perform a).Serves services := by
  have hrest : ∀ b ∈ rest, b.Follows services := by
    intro b hb
    exact hi.follows b (by rw [hactions]; exact List.mem_cons_of_mem _ hb)
  have hfollows : a.Follows services := hi.follows a (by rw [hactions]; exact List.mem_cons_self)
  have haccount := hi.account
  rw [hactions] at haccount
  cases a with
  | invoke q =>
    refine ⟨hi.services_eq, ?_, ?_, hrest, ?_⟩
    · show (s.log (.did _)).requests.Perm ((s.log (.did _)).answeredRequests ++
        (s.accepted ++ [q] ++ rest.filterMap Action.ofRequest))
      simp only [requests_log, answeredRequests_log, RpcEvent.requested, RpcEvent.answers,
        Option.toList_none, List.append_nil, List.append_assoc s.accepted]
      exact haccount
    · intro q' hq'
      rcases List.mem_append.mp hq' with hq' | hq'
      · exact hi.accepted q' hq'
      · rw [List.mem_singleton.mp hq']
        exact hfollows
    · intro q' r hmem
      rcases List.mem_append.mp hmem with hmem | hmem
      · exact hi.answered q' r hmem
      · cases List.mem_singleton.mp hmem
  | reject q error =>
    obtain ⟨rfl, hne⟩ := hfollows
    refine ⟨hi.services_eq, ?_, hi.accepted, hrest, ?_⟩
    · show ((s.log (.did _)).log (.answered q _)).requests.Perm
        (((s.log (.did _)).log (.answered q _)).answeredRequests ++
          (s.accepted ++ rest.filterMap Action.ofRequest))
      simp only [requests_log, answeredRequests_log, RpcEvent.requested, RpcEvent.answers,
        Option.toList_none, Option.toList_some, List.append_nil]
      -- the request goes from what the loop thread has to do to what is answered
      have hmove : (s.answeredRequests ++ (s.accepted ++ q :: rest.filterMap Action.ofRequest)).Perm
          (s.answeredRequests ++ [q] ++ (s.accepted ++ rest.filterMap Action.ofRequest)) := by
        rw [List.append_assoc]
        exact List.perm_middle.append_left s.answeredRequests
      exact haccount.trans hmove
    · intro q' r hmem
      rcases List.mem_append.mp hmem with hmem | hmem
      · rcases List.mem_append.mp hmem with hmem | hmem
        · exact hi.answered q' r hmem
        · cases List.mem_singleton.mp hmem
      · obtain ⟨rfl, rfl⟩ := RpcEvent.answered.inj (List.mem_singleton.mp hmem)
        exact isReply_of_error hne
  | _ =>
    refine hi.quietly [.did _] rfl rfl rfl (by simp [RpcEvent.requested, RpcEvent.answers]) ?_ ?_
    · intro b hb
      exact .inl (by rw [hactions]; exact List.mem_cons_of_mem _ hb)
    · rw [hactions]
      rfl

theorem Serves.done (hi : s.Serves services) {q : RpcMessage} (bytes : List UInt8)
    (hmem : q ∈ s.accepted) :
    ({ s with accepted := s.accepted.erase q }.log
      (.answered q (doneReply q.id.toInt64 bytes))).Serves services := by
  refine ⟨hi.services_eq, ?_, ?_, hi.follows, ?_⟩
  · show (s.log (.answered q _)).requests.Perm ((s.log (.answered q _)).answeredRequests ++
      (s.accepted.erase q ++ s.actions.filterMap Action.ofRequest))
    simp only [requests_log, answeredRequests_log, RpcEvent.requested, RpcEvent.answers,
      Option.toList_none, Option.toList_some, List.append_nil]
    have hmove : (s.answeredRequests ++ (s.accepted ++ s.actions.filterMap Action.ofRequest)).Perm
        (s.answeredRequests ++ [q] ++ (s.accepted.erase q ++
          s.actions.filterMap Action.ofRequest)) := by
      rw [List.append_assoc]
      exact ((List.perm_cons_erase hmem).append_right _).append_left s.answeredRequests
    exact hi.account.trans hmove
  · intro q' hq'
    exact hi.accepted q' (List.mem_of_mem_erase hq')
  · intro q' r hmem'
    rcases List.mem_append.mp hmem' with hmem' | hmem'
    · exact hi.answered q' r hmem'
    · obtain ⟨rfl, rfl⟩ := RpcEvent.answered.inj (List.mem_singleton.mp hmem')
      exact isReply_of_done (hi.accepted _ hmem) bytes

theorem Happens.serves (h : Happens s t) (hi : s.Serves services) : t.Serves services := by
  cases h with
  | call thread service method bytes hasDone hidle =>
    exact ⟨hi.services_eq, hi.account, hi.accepted, hi.follows, hi.answered⟩
  | @register thread id out message hpc =>
    exact hi.quietly [.registered id out message] rfl rfl rfl (by simp [RpcEvent.requested,
      RpcEvent.answers]) (fun a ha => .inl ha) rfl
  | @send thread message hpc =>
    exact hi.quietly [.sent message] rfl rfl rfl (by simp [RpcEvent.requested, RpcEvent.answers])
      (fun a ha => .inl ha) rfl
  | @response message htype hidle hpresent =>
    refine hi.quietly [.response message _] ?_ rfl rfl (by simp [RpcEvent.requested,
      RpcEvent.answers]) (fun a ha => .inr (complete_ofRequest _ _ a ha)) ?_
    · dsimp only
      rw [(takeCall_eq _ _).2]
    · rw [hidle]
      exact List.filterMap_eq_nil_iff.mpr (complete_ofRequest _ _)
  | request htype hidle => exact hi.request hidle
  | error hidle => exact hi
  | act hactions => exact hi.act hactions
  | done bytes hmem => exact hi.done bytes hmem

theorem start_serves (conn : Nat) (first : Int64) (services : Option Services) :
    (start conn first services).Serves services :=
  ⟨rfl, List.Perm.nil, by simp [start], by simp [start], by simp [start]⟩

/-- What is sent besides answers are requests of calls that have an entry. -/
structure Sends (s : RpcEnd) : Prop where
  entered : ∀ thread m, s.threads thread = .entered m → ∃ id out, .registered id out m ∈ s.history
  sent : ∀ m, .sent m ∈ s.history → ∃ id out, .registered id out m ∈ s.history

theorem Sends.quietly (hi : s.Sends) (hthreads : ∀ thread m, t.threads thread = .entered m →
      s.threads thread = .entered m) (es : List RpcEvent) (hhistory : t.history = s.history ++ es)
    (hes : ∀ m, .sent m ∉ es) : t.Sends where
  entered thread m hpc := by
    obtain ⟨id, out, hmem⟩ := hi.entered thread m (hthreads thread m hpc)
    rw [hhistory]
    exact ⟨id, out, List.mem_append_left _ hmem⟩
  sent m hmem := by
    rw [hhistory] at hmem ⊢
    rcases List.mem_append.mp hmem with hmem | hmem
    · obtain ⟨id, out, hold⟩ := hi.sent m hmem
      exact ⟨id, out, List.mem_append_left _ hold⟩
    · exact absurd hmem (hes m)

theorem Happens.sends (h : Happens s t) (hi : s.Sends) : t.Sends := by
  cases h with
  | call thread service method bytes hasDone hidle =>
    refine hi.quietly ?_ [] (List.append_nil _).symm (by simp)
    intro i m hpc
    by_cases h : i = thread
    · subst h
      simp [RpcEnd.call, setThread] at hpc
    · simpa [RpcEnd.call, setThread, h] using hpc
  | @register thread id out message hpc =>
    have hnew : (.registered id out message : RpcEvent) ∈ (s.register thread id out message).history :=
      List.mem_append_right _ (List.mem_singleton_self _)
    constructor
    · intro i m hpc'
      by_cases h : i = thread
      · subst h
        have heq : m = message := by
          simpa [RpcEnd.register, log, setThread, eq_comm] using hpc'
        rw [heq]
        exact ⟨id, out, hnew⟩
      · obtain ⟨id', out', hold⟩ := hi.entered i m (by
          simpa [RpcEnd.register, log, setThread, h] using hpc')
        exact ⟨id', out', List.mem_append_left _ hold⟩
    · intro m hmem
      rcases List.mem_append.mp hmem with hmem | hmem
      · obtain ⟨id', out', hold⟩ := hi.sent m hmem
        exact ⟨id', out', List.mem_append_left _ hold⟩
      · cases List.mem_singleton.mp hmem
  | @send thread message hpc =>
    constructor
    · intro i m hpc'
      by_cases h : i = thread
      · subst h
        simp [log, setThread] at hpc'
      · obtain ⟨id, out, hold⟩ := hi.entered i m (by simpa [log, setThread, h] using hpc')
        exact ⟨id, out, List.mem_append_left _ hold⟩
    · intro m hmem
      rcases List.mem_append.mp hmem with hmem | hmem
      · obtain ⟨id, out, hold⟩ := hi.sent m hmem
        exact ⟨id, out, List.mem_append_left _ hold⟩
      · obtain rfl := RpcEvent.sent.inj (List.mem_singleton.mp hmem)
        obtain ⟨id, out, hold⟩ := hi.entered thread m hpc
        exact ⟨id, out, List.mem_append_left _ hold⟩
  | response htype hidle hpresent => exact hi.quietly (fun _ _ h => h) [_] rfl (by simp)
  | request htype hidle => exact hi.quietly (fun _ _ h => h) [_] rfl (by simp)
  | error hidle => exact hi
  | @act a rest hactions =>
    obtain ⟨es, hes, _, _, hthreads, _, hhistory⟩ :=
      perform_eq ({ s with actions := rest }.log (.did a)) a
    refine hi.quietly ?_ (.did a :: es) (by rw [hhistory, log, List.append_assoc]; rfl) ?_
    · intro thread m hpc
      rwa [hthreads] at hpc
    · intro m hmem
      rcases List.mem_cons.mp hmem with h | hmem
      · cases h
      · obtain ⟨q, r, h⟩ := hes _ hmem
        cases h
  | done bytes hmem => exact hi.quietly (fun _ _ h => h) [_] rfl (by simp)

/-- What arrives is entered in the history under its type. -/
theorem Happens.typed (h : Happens s t) (hi : ∀ e ∈ s.history, e.Typed) :
    ∀ e ∈ t.history, e.Typed := by
  have hconcat : ∀ e : RpcEvent, e.Typed → ∀ e' ∈ s.history ++ [e], e'.Typed := by
    intro e he e' he'
    rcases List.mem_append.mp he' with he' | he'
    · exact hi e' he'
    · rw [List.mem_singleton.mp he']
      exact he
  cases h with
  | call => exact hi
  | register => exact hconcat _ trivial
  | send => exact hconcat _ trivial
  | response htype => exact hconcat _ htype
  | request htype => exact hconcat _ htype
  | error => exact hi
  | @act a rest hactions =>
    obtain ⟨es, hes, _, _, _, _, hhistory⟩ := perform_eq ({ s with actions := rest }.log (.did a)) a
    rw [hhistory]
    intro e he
    rcases List.mem_append.mp he with he | he
    · exact hconcat (.did a) trivial e he
    · obtain ⟨q, r, rfl⟩ := hes e he
      trivial
  | done => exact hconcat _ trivial

theorem reachable_typed (h : Reachable (machine conn) (start conn first services) s) :
    ∀ e ∈ s.history, e.Typed :=
  h.invariant (fun _ _ _ hi he hs => (step_happens he hs).typed hi) (by simp [start])

theorem reachable_serves (h : Reachable (machine conn) (start conn first services) s) :
    s.Serves services :=
  h.invariant (fun _ _ _ hi he hs => (step_happens he hs).serves hi) (start_serves conn first services)

theorem reachable_sends (h : Reachable (machine conn) (start conn first services) s) : s.Sends :=
  h.invariant (fun _ _ _ hi he hs => (step_happens he hs).sends hi)
    ⟨by simp [start], by simp [start]⟩

end

end RpcEnd

/-- What `CallMethod` is called with. -/
structure CallArguments where
  service : List UInt8
  method : List UInt8
  request : List UInt8
  hasDone : Bool

namespace RpcLabel

def receives : RpcLabel → Bool
  | receive _ => true
  | _ => false

def asked : RpcLabel → Option CallArguments
  | call _ service method bytes hasDone => some ⟨service, method, bytes, hasDone⟩
  | _ => none

/-- The request whose closure a service runs, and what its response is serialized to. -/
def serialized : RpcLabel → Option (RpcMessage × List UInt8)
  | done q bytes => some (q, bytes)
  | _ => none

end RpcLabel

/-- The request that is answered with bytes, and these bytes. -/
def RpcEvent.payload : RpcEvent → Option (RpcMessage × List UInt8)
  | answered q r => r.response.map fun bytes => (q, bytes)
  | _ => none

/-- The entry and the request of one of these calls. -/
def Issued (calls : List CallArguments) (id : Int64) (out : OutstandingCall) (message : RpcMessage) :
    Prop :=
  ∃ n args, calls[n]? = some args ∧ out = ⟨some n, if args.hasDone then some n else none⟩ ∧
    message = {
      type := .REQUEST
      id := id.toUInt64
      service := some args.service
      method := some args.method
      request := some args.request }

theorem Issued.append {calls : List CallArguments} {id : Int64} {out : OutstandingCall}
    {message : RpcMessage} (h : Issued calls id out message) (more : List CallArguments) :
    Issued (calls ++ more) id out message := by
  obtain ⟨n, args, hn, hrest⟩ := h
  obtain ⟨hlt, _⟩ := List.getElem?_eq_some_iff.mp hn
  exact ⟨n, args, by rw [List.getElem?_append_left hlt, hn], hrest⟩

namespace RpcEnd

/-- The calls that have been made and the answers of the services, as the labels have them. -/
structure Logged (ls : List RpcLabel) (s : RpcEnd) : Prop where
  calls : s.calls = (ls.filterMap RpcLabel.asked).length
  counted : ∀ thread id out m, s.threads thread = .counted id out m →
    Issued (ls.filterMap RpcLabel.asked) id out m
  registered : ∀ id out m, .registered id out m ∈ s.history →
    Issued (ls.filterMap RpcLabel.asked) id out m
  payloads : s.history.filterMap RpcEvent.payload = ls.filterMap RpcLabel.serialized

section

variable {conn : Nat} {ls : List RpcLabel} {s t : RpcEnd} {l : RpcLabel}

/-- A step that is no new call. -/
theorem Logged.quietly (hi : s.Logged ls) (hl : l.asked = none) (hcalls : t.calls = s.calls)
    (hthreads : ∀ thread id out m, t.threads thread = .counted id out m →
      s.threads thread = .counted id out m)
    (es : List RpcEvent) (hhistory : t.history = s.history ++ es)
    (hregistered : ∀ id out m, .registered id out m ∈ es →
      ∃ thread, s.threads thread = .counted id out m)
    (hpayload : es.filterMap RpcEvent.payload = l.serialized.toList) : t.Logged (ls ++ [l]) := by
  have hasked : (ls ++ [l]).filterMap RpcLabel.asked = ls.filterMap RpcLabel.asked := by
    rw [filterMap_concat, hl, Option.toList_none, List.append_nil]
  constructor
  · rw [hcalls, hasked, hi.calls]
  · intro thread id out m hpc
    rw [hasked]
    exact hi.counted thread id out m (hthreads thread id out m hpc)
  · intro id out m hmem
    rw [hasked]
    rw [hhistory] at hmem
    obtain hmem | hmem := List.mem_append.mp hmem
    · exact hi.registered id out m hmem
    · obtain ⟨thread, hpc⟩ := hregistered id out m hmem
      exact hi.counted thread id out m hpc
  · rw [hhistory, List.filterMap_append, hpayload, hi.payloads, filterMap_concat]

theorem Logged.call (hi : s.Logged ls) (thread : Nat) (service method bytes : List UInt8)
    (hasDone : Bool) : (s.call thread service method bytes hasDone).Logged
      (ls ++ [.call thread service method bytes hasDone]) := by
  have hasked : (ls ++ [RpcLabel.call thread service method bytes hasDone]).filterMap RpcLabel.asked =
      ls.filterMap RpcLabel.asked ++ [⟨service, method, bytes, hasDone⟩] := filterMap_concat _ _ _
  constructor
  · rw [hasked, List.length_append, ← hi.calls]
    rfl
  · intro i id out m hpc
    rw [hasked]
    by_cases h : i = thread
    · subst h
      obtain ⟨rfl, rfl, rfl⟩ := CallPc.counted.inj ((Function.update_self _ _ _).symm.trans hpc)
      refine ⟨s.calls, ⟨service, method, bytes, hasDone⟩, ?_, rfl, rfl⟩
      rw [hi.calls, List.getElem?_concat_length]
    · exact (hi.counted i id out m ((Function.update_of_ne h _ _).symm.trans hpc)).append _
  · intro id out m hmem
    rw [hasked]
    exact (hi.registered id out m hmem).append _
  · rw [filterMap_concat]
    exact hi.payloads.trans (List.append_nil _).symm

theorem Logged.step (hi : s.Logged ls) (he : s.enabled l) (hs : s.step conn l = .ok t) :
    t.Logged (ls ++ [l]) := by
  have hupdate : ∀ {i pc}, (∀ id out m, pc ≠ .counted id out m) → ∀ thread id out m,
      Function.update s.threads i pc thread = .counted id out m →
        s.threads thread = .counted id out m := by
    intro i pc hpc thread id out m hnew
    by_cases hi : thread = i
    · rw [hi, Function.update_self] at hnew
      exact absurd hnew (hpc id out m)
    · rw [Function.update_of_ne hi] at hnew
      exact hnew
  cases l with
  | call i service method bytes hasDone =>
    cases hs
    exact hi.call i service method bytes hasDone
  | register i =>
    obtain ⟨id, out, message, hpc⟩ := he
    simp only [RpcEnd.step, hpc] at hs
    cases hs
    refine hi.quietly rfl rfl (hupdate (by simp)) [_] rfl ?_ rfl
    intro id' out' m hmem
    obtain ⟨rfl, rfl, rfl⟩ := RpcEvent.registered.inj (List.mem_singleton.mp hmem)
    exact ⟨i, hpc⟩
  | send i =>
    obtain ⟨message, hpc⟩ := he
    simp only [RpcEnd.step, hpc] at hs
    cases hs
    exact hi.quietly rfl rfl (hupdate (by simp)) [_] rfl (by simp) rfl
  | receive message =>
    obtain ⟨_, _, hs⟩ := bind_eq_ok hs
    cases hs
    refine hi.quietly rfl rfl (fun _ _ _ _ hpc => hpc) (s.seen message) rfl ?_ ?_
    · intro id out m hmem
      unfold seen at hmem
      split at hmem <;> simp at hmem
    · unfold seen
      split <;> rfl
  | act =>
    cases hactions : s.actions with
    | nil => exact absurd hactions he
    | cons a rest =>
      simp only [RpcEnd.step, hactions] at hs
      cases hs
      cases a with
      | reject message error =>
        exact hi.quietly rfl rfl (fun _ _ _ _ hpc => hpc)
          [.did (.reject message error), .answered message (errorReply message.id error)]
          (List.append_assoc _ _ _) (by simp) rfl
      | invoke | parse | run | free =>
        exact hi.quietly rfl rfl (fun _ _ _ _ hpc => hpc) [.did _] rfl (by simp) rfl
  | done message bytes =>
    cases hs
    exact hi.quietly rfl rfl (fun _ _ _ _ hpc => hpc) [_] rfl (by simp) rfl

/-- An arrival is neither a call nor an answer. -/
theorem Logged.own (hi : s.Logged ls) : s.Logged (ls.filter fun l => !l.receives) := by
  have hasked : (ls.filter fun l => !l.receives).filterMap RpcLabel.asked =
      ls.filterMap RpcLabel.asked := by
    rw [List.filterMap_filter]
    congr 1
    funext l
    cases l <;> rfl
  have hserialized : (ls.filter fun l => !l.receives).filterMap RpcLabel.serialized =
      ls.filterMap RpcLabel.serialized := by
    rw [List.filterMap_filter]
    congr 1
    funext l
    cases l <;> rfl
  constructor
  · rw [hasked, hi.calls]
  · rw [hasked]
    exact hi.counted
  · rw [hasked]
    exact hi.registered
  · rw [hserialized, hi.payloads]

theorem run_logged {first : Int64} {services : Option Services}
    (h : Run (machine conn) (start conn first services) ls s) : s.Logged ls := by
  refine h.records (I := fun ls s => s.Logged ls) ?_ ⟨rfl, by simp [start], by simp [start], rfl⟩
  intro ls s l t hi he hs
  exact hi.step he hs

end

end RpcEnd

end MuduoNet.Rpc
