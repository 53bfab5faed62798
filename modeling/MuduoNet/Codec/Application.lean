import MuduoNet.Codec.RoundTrip
import MuduoNet.Tcp.Peers

/-!
# Messages over a pair of connections

Code that talks to its peer through a `ProtobufCodec`: `send` encodes a message and gives it to the
connection, `onMessage` is the message callback, and an error shuts the connection down.
-/
namespace MuduoNet

open Lib Lib.Outcome ProtobufCodec

/-- What such code does to its connection. -/
inductive Request (μ : Type)
  | send (message : μ)
  | shutdown
  deriving DecidableEq

/-- The messages sent before the first shutdown. -/
def uttered {μ : Type} : List (Request μ) → List μ
  | [] => []
  | .send message :: rest => message :: uttered rest
  | .shutdown :: _ => []

/-- `messageCallback_` of the codec, and the connection callback beside it. -/
structure CodecUser (P : Protobuf) where
  onConnection : Except Fault (List (Request P.Message))
  onMessage : P.Message → Except Fault (List (Request P.Message))

variable {P : Protobuf}

/-- `send` with its own buffer. -/
def Request.command : Request P.Message → Except Fault Command
  | .send message => do
    let buf ← fillEmptyBuffer P .new message
    return .send buf.readable
  | .shutdown => .ok .shutdown

/-- The peer can decode the message. -/
structure Sendable (P : Protobuf) (m : P.Message) : Prop where
  encodable : ∃ m₀, Encodable P m m₀
  length : (body P m).length ≤ kMaxMessageLen

theorem Request.shutdown_mem {requests : List (Request P.Message)} {commands : List Command}
    (h : requests.mapM Request.command = .ok commands) : .shutdown ∈ requests ↔ .shutdown ∈ commands := by
  induction requests generalizing commands with
  | nil =>
    obtain rfl := Except.ok.inj h
    simp
  | cons request requests ih =>
    rw [List.mapM_cons] at h
    obtain ⟨command, hcommand, h⟩ := bind_eq_ok h
    obtain ⟨later, hlater, h⟩ := bind_eq_ok h
    obtain rfl := Except.ok.inj h
    rw [List.mem_cons, List.mem_cons, ih hlater]
    cases request with
    | shutdown =>
      obtain rfl := Except.ok.inj hcommand
      simp
    | send message =>
      obtain ⟨buf, _, hcommand⟩ := bind_eq_ok hcommand
      obtain rfl := Except.ok.inj hcommand
      simp

namespace CodecUser

/-- Behind an error there is `defaultErrorCallback`. -/
def respond (user : CodecUser P) : ProtobufCodec.Event P.Message → Except Fault (List (Request P.Message))
  | .messageCallback message => user.onMessage message
  | .errorCallback _ => .ok [.shutdown]

def application (user : CodecUser P) : Application (ProtobufCodec.Event P.Message) where
  onConnection := do
    let requests ← user.onConnection
    requests.mapM Request.command
  onMessage := ProtobufCodec.onMessage P
  respond event := do
    let requests ← user.respond event
    requests.mapM Request.command

/-- The user sends what the peer can decode. -/
structure Sensible (user : CodecUser P) : Prop where
  opening : ∀ requests, user.onConnection = .ok requests → ∀ m, .send m ∈ requests → Sendable P m
  reply : ∀ message requests, user.onMessage message = .ok requests →
    ∀ m, .send m ∈ requests → Sendable P m

/-- What the callbacks have asked for, in order; nothing before the connection is up. -/
def Requested (user : CodecUser P) (s : Session (ProtobufCodec.Event P.Message))
    (requests : List (Request P.Message)) : Prop :=
  (s.Fresh ∧ requests = []) ∨ ∃ opening responses, user.onConnection = .ok opening ∧
    s.calls.mapM user.respond = .ok responses ∧ requests = opening ++ responses.flatten

/-- The messages that have been handed over are those of the bytes read; an error was found in
front of bytes that are no frame. -/
def Heard (P : Protobuf) (received : List UInt8) (calls : List (ProtobufCodec.Event P.Message))
    (rest : List UInt8) : Prop :=
  ∃ fs, Decodes (framing P) received fs rest ∧ calls.filterMap Event.message = fs.map Prod.snd ∧
    ∀ code, .errorCallback code ∈ calls → ∃ front gs left, front <+: received ∧
      Decodes (framing P) front gs left ∧ (framing P).head left = .reject code

theorem mem_closing {rest : List UInt8} {code : ErrorCode}
    (h : .errorCallback code ∈ closing P rest) : (framing P).head rest = .reject code := by
  unfold closing at h
  split at h
  · rename_i errorcode hhead
    obtain rfl : code = errorcode := by simpa using h
    exact hhead
  · cases h
  · cases h

theorem reads (user : CodecUser P) : user.application.Reads (Heard P) where
  nil := by
    refine ⟨[], .stop (framing P).head_nil, rfl, ?_⟩
    intro code h
    cases h
  next := by
    rintro received calls rest bytes buf calls' buf' ⟨fs, hd, hcalls, herrors⟩ hwf hread h
    obtain ⟨hwf', gs, hd', hcalls'⟩ := (onMessage_sat P hwf).of_ok h
    dsimp only at hwf' hd' hcalls'
    rw [hread] at hd'
    have hwhole := hd.append hd'
    refine ⟨hwf', fs ++ gs, hwhole, ?_, ?_⟩
    · rw [List.filterMap_append, hcalls, hcalls', List.filterMap_append, filterMap_deliveries,
        filterMap_closing, List.append_nil, List.map_append]
    · intro code hmem
      rcases List.mem_append.mp hmem with hmem | hmem
      · obtain ⟨front, ks, left, hfront, hks, hhead⟩ := herrors code hmem
        exact ⟨front, ks, left, hfront.trans (List.prefix_append _ _), hks, hhead⟩
      · rw [hcalls'] at hmem
        rcases List.mem_append.mp hmem with hmem | hmem
        · obtain ⟨f, _, hf⟩ := List.mem_map.mp hmem
          cases hf
        · exact ⟨_, _, _, List.prefix_rfl, hwhole, mem_closing hmem⟩

/-- What the calls have made the connection do is what they have made the user ask for. -/
theorem respond_commands {user : CodecUser P} {calls : List (ProtobufCodec.Event P.Message)}
    {commands : List (List Command)} (h : calls.mapM user.application.respond = .ok commands) :
    ∃ responses, calls.mapM user.respond = .ok responses ∧
      responses.flatten.mapM Request.command = .ok commands.flatten := by
  induction calls generalizing commands with
  | nil =>
    obtain rfl := Except.ok.inj h
    exact ⟨[], rfl, rfl⟩
  | cons event calls ih =>
    rw [List.mapM_cons] at h
    obtain ⟨first, hfirst, h⟩ := bind_eq_ok h
    obtain ⟨later, hlater, h⟩ := bind_eq_ok h
    obtain rfl := Except.ok.inj h
    obtain ⟨requests, hrequests, hfirst⟩ := bind_eq_ok hfirst
    obtain ⟨responses, hresponses, hlater⟩ := ih hlater
    refine ⟨requests :: responses, ?_, ?_⟩
    · rw [List.mapM_cons, hrequests, ok_bind, hresponses]
      rfl
    · rw [List.flatten_cons, List.mapM_append, hfirst, ok_bind, hlater]
      rfl

theorem requested {user : CodecUser P} {s : Session (ProtobufCodec.Event P.Message)}
    (hi : Session.Inv user.application (Heard P) s) : ∃ requests, user.Requested s requests ∧
      requests.mapM Request.command = .ok (s.done ++ s.todo) := by
  rcases hi.issued with hfresh | ⟨_, opening, commands, hopening, hcommands, hissued⟩
  · refine ⟨[], .inl ⟨hfresh, rfl⟩, ?_⟩
    rw [hfresh.done, hfresh.todo]
    rfl
  · obtain ⟨requests, hrequests, hopening⟩ := bind_eq_ok hopening
    obtain ⟨responses, hresponses, hflatten⟩ := respond_commands hcommands
    refine ⟨requests ++ responses.flatten, .inr ⟨requests, responses, hrequests, hresponses, rfl⟩, ?_⟩
    rw [List.mapM_append, hopening, ok_bind, hflatten, hissued]
    rfl

theorem Sensible.sendable {user : CodecUser P} (hu : user.Sensible)
    {s : Session (ProtobufCodec.Event P.Message)} {requests : List (Request P.Message)}
    (h : user.Requested s requests) :
    ∀ m, .send m ∈ requests → Sendable P m := by
  rcases h with ⟨_, rfl⟩ | ⟨opening, responses, hopening, hresponses, rfl⟩
  · intro m hm
    cases hm
  · intro m hm
    rcases List.mem_append.mp hm with hm | hm
    · exact hu.opening _ hopening m hm
    · obtain ⟨response, hmem, hm⟩ := List.mem_flatten.mp hm
      obtain ⟨event, _, hevent⟩ := exists_of_mem_mapM hresponses hmem
      cases event with
      | messageCallback message => exact hu.reply _ _ hevent m hm
      | errorCallback code =>
        obtain rfl := Except.ok.inj hevent
        simp at hm

/-- The frames of the messages. -/
def frames (P : Protobuf) (messages : List P.Message) : List (List UInt8 × P.Message) :=
  messages.map fun m => (frame P m, m)

/-- What the connection is given is one frame behind the other. -/
theorem spoken_commands (hP : P.Lawful) {requests : List (Request P.Message)} {commands : List Command}
    (hsend : ∀ m, .send m ∈ requests → Sendable P m)
    (h : requests.mapM Request.command = .ok commands) :
    spoken commands = symbols (frames P (uttered requests)) := by
  induction requests generalizing commands with
  | nil =>
    obtain rfl := Except.ok.inj h
    rfl
  | cons request requests ih =>
    rw [List.mapM_cons] at h
    obtain ⟨command, hcommand, h⟩ := bind_eq_ok h
    obtain ⟨later, hlater, h⟩ := bind_eq_ok h
    obtain rfl := Except.ok.inj h
    cases request with
    | shutdown =>
      obtain rfl := Except.ok.inj hcommand
      rfl
    | send message =>
      obtain ⟨m₀, henc⟩ := (hsend message List.mem_cons_self).encodable
      obtain ⟨b, hok, _, hread⟩ :=
        fillEmptyBuffer_eq (henc.writable hP) Buffer.wf_new (by decide +kernel)
      obtain ⟨buf, hbuf, hcommand⟩ := bind_eq_ok hcommand
      obtain rfl := Except.ok.inj hcommand
      obtain rfl := Except.ok.inj (hok.symm.trans hbuf)
      have hrest := ih (fun m hm => hsend m (List.mem_cons_of_mem _ hm)) hlater
      show b.readable ++ spoken later = _
      rw [hread, hrest]
      rfl

theorem uttered_send {requests : List (Request P.Message)} :
    ∀ m ∈ uttered requests, .send m ∈ requests := by
  induction requests with
  | nil =>
    intro m hm
    cases hm
  | cons request requests ih =>
    intro m hm
    cases request with
    | send message =>
      rcases List.mem_cons.mp hm with rfl | hm
      · exact List.mem_cons_self
      · exact List.mem_cons_of_mem _ (ih m hm)
    | shutdown => cases hm

end CodecUser

namespace Peers

open CodecUser

variable {user : Bool → CodecUser P} {sockfd : Bool → Int}
  {s : Peers fun _ => ProtobufCodec.Event P.Message}

/-- Bytes that begin as a list of frames does hand over the first of its messages, and no error. -/
theorem heard_front {messages : List P.Message}
    (hvalid : ∀ m ∈ messages, (framing P).Valid (frame P m) m) {received rest : List UInt8}
    {calls : List (ProtobufCodec.Event P.Message)} (h : Heard P received calls rest)
    (hfront : received <+: symbols (frames P messages)) :
    ∃ heard unheard, messages = heard ++ unheard ∧ calls = heard.map Event.messageCallback ∧
      (received = symbols (frames P messages) → unheard = []) := by
  obtain ⟨fs, hd, hcalls, herrors⟩ := h
  have hframes : ∀ f ∈ frames P messages, (framing P).Valid f.1 f.2 := by
    intro f hf
    obtain ⟨m, hm, rfl⟩ := List.mem_map.mp hf
    exact hvalid m hm
  have hnone : ∀ code, .errorCallback code ∉ calls := by
    intro code hmem
    obtain ⟨front, gs, left, hle, hgs, hhead⟩ := herrors code hmem
    obtain ⟨ys, hys⟩ := hle.trans hfront
    obtain ⟨ks, hks, hleft⟩ := hgs.of_front hframes hys
    have hvalidks : ∀ k ∈ ks, (framing P).Valid k.1 k.2 := by
      intro k hk
      apply hframes
      rw [hks]
      exact List.mem_append_right _ hk
    refine head_not_reject hvalidks hleft ?_ hhead
    intro e he
    cases he
  have hall : calls = (calls.filterMap Event.message).map Event.messageCallback := by
    clear hcalls herrors
    induction calls with
    | nil => rfl
    | cons event calls ih =>
      have hrest := ih fun code hmem => hnone code (List.mem_cons_of_mem _ hmem)
      cases event with
      | messageCallback m => exact congrArg (Event.messageCallback m :: ·) hrest
      | errorCallback code => exact absurd List.mem_cons_self (hnone code)
  obtain ⟨ys, hys⟩ := hfront
  obtain ⟨ks, hks, hleft⟩ := hd.of_front hframes hys
  have hmessages : messages = fs.map Prod.snd ++ ks.map Prod.snd := by
    rw [← List.map_append, ← hks, frames, List.map_map]
    exact (List.map_id _).symm
  refine ⟨fs.map Prod.snd, ks.map Prod.snd, hmessages, by rw [← hcalls]; exact hall, ?_⟩
  intro hwhole
  have hdone := Decodes.of_valid hframes
  rw [← hwhole] at hdone
  obtain ⟨heq, _⟩ := hd.unique hdone
  rw [← heq] at hks
  rw [List.append_cancel_left ((List.append_nil _).trans hks).symm]
  rfl

/-- What the other side has been handed of the messages that the user of this side has sent. -/
theorem Inv.handed (hP : P.Lawful) (hu : ∀ x, (user x).Sensible)
    (hi : Inv (fun x => (user x).application) (fun _ => Heard P) s) (x : Bool) :
    ∃ requests, (user x).Requested (s.side x) requests ∧
      requests.mapM Request.command = .ok ((s.side x).done ++ (s.side x).todo) ∧
      ∃ heard unheard, uttered requests = heard ++ unheard ∧
        (s.side !x).calls = heard.map Event.messageCallback ∧
        ((s.side !x).received = spoken (s.side x).done → .shutdown ∈ (s.side x).done →
          unheard = []) := by
  obtain ⟨requests, hrequested, hcommands⟩ := requested (hi.sides x)
  have hsend := (hu x).sendable hrequested
  have hspoken := spoken_commands hP hsend hcommands
  have hvalid : ∀ m ∈ uttered requests, (framing P).Valid (frame P m) m := by
    intro m hm
    obtain ⟨⟨m₀, henc⟩, hlen⟩ := hsend m (uttered_send m hm)
    exact frame_valid henc hP hlen
  have hfront : (s.side !x).received <+: symbols (frames P (uttered requests)) := by
    rw [← hspoken]
    exact (hi.said x).1.trans (spoken_front _ _)
  obtain ⟨heard, unheard, hsplit, hcalls, hall⟩ := heard_front hvalid (hi.sides !x).reads hfront
  refine ⟨requests, hrequested, hcommands, heard, unheard, hsplit, hcalls, ?_⟩
  intro hreceived hshutdown
  apply hall
  rw [hreceived, ← hspoken, spoken_append_of_mem hshutdown]

/-- Two programs that talk through codecs: each is handed a front part of the messages that the
other has sent before its first shutdown, in order and without an error; all of them, when it finds
the end of an unbroken stream and the other has not closed. -/
theorem messages_delivered (hP : P.Lawful) (hu : ∀ x, (user x).Sensible)
    (h : Reachable (machine fun x => (user x).application) (start sockfd) s) (x : Bool) :
    ∃ requests, (user x).Requested (s.side x) requests ∧
      ∃ heard unheard, uttered requests = heard ++ unheard ∧
        (s.side !x).calls = heard.map Event.messageCallback ∧
        (s.broken = false → s.Enabled (.own (!x) (.read (.delivered []))) →
          (s.side x).stage ≠ .destroyed → unheard = []) := by
  have hi := reachable_inv (fun x => (user x).reads) h
  obtain ⟨requests, hrequested, _, heard, unheard, hsplit, hcalls, hall⟩ := hi.handed hP hu x
  refine ⟨requests, hrequested, heard, unheard, hsplit, hcalls, ?_⟩
  intro hbroken heof halive
  obtain ⟨hreceived, hshutdown⟩ := hi.ended hbroken heof halive
  exact hall hreceived hshutdown

/-- One end says 42 and shuts down, the other sends back what it is handed. -/
def repeating : Bool → CodecUser emptyMessages
  | true => ⟨.ok [.send (some (42 : Fin 128)), .shutdown], fun _ => .ok []⟩
  | false => ⟨.ok [], fun m => .ok [.send m]⟩

/-- The message arrives in two pieces. -/
def repeatingRun : List PeersLabel :=
  let bytes := frame emptyMessages (some (42 : Fin 128))
  [.own true .establish, .own false .establish, .own true (.act (.wrote 26)),
    .own true (.act (.wrote 0)), .own false (.read (.delivered (bytes.take 10))),
    .own false (.read (.delivered (bytes.drop 10))), .own false (.act (.wrote 26))]

theorem emptyMessages_sendable (m : emptyMessages.Message) : Sendable emptyMessages m := by
  have hlength : (emptyMessages.SerializeWithCachedSizesToArray m).length ≤ 2 := by
    cases m with
    | none => exact Nat.zero_le 2
    | some id => exact Nat.le_refl 2
  refine ⟨⟨(none : Option (Fin 128)), ?_, rfl, by omega, ?_⟩, ?_⟩
  · show ([109, 117, 100, 117, 111, 46, 69, 109, 112, 116, 121] : List UInt8) ≠ []
    simp
  · cases m with
    | none => rfl
    | some id =>
      obtain ⟨n, hn⟩ := id
      have hbyte : (UInt8.ofNat n).toNat = n := by
        rw [UInt8.toNat_ofNat']
        omega
      show (if h : (UInt8.ofNat n).toNat < 128 then (true, some (⟨(UInt8.ofNat n).toNat, h⟩ : Fin 128))
        else (false, none)) = _
      rw [dif_pos (by omega)]
      exact congrArg (fun k : Fin 128 => (true, some k)) (Fin.ext hbyte)
  · have hbody := length_body emptyMessages m
    change _ = 9 + 11 + _ at hbody
    unfold kMaxMessageLen
    omega

theorem messages_delivered_repeating : ∃ s : Peers fun _ => ProtobufCodec.Event emptyMessages.Message,
    Run (machine fun x => (repeating x).application) (start fun _ => 7) repeatingRun s ∧
      (s.side false).calls = [.messageCallback (some (42 : Fin 128))] := by
  obtain ⟨s, hr, hbroken, heof, halive, hdone⟩ :
      ∃ s : Peers fun _ => ProtobufCodec.Event emptyMessages.Message,
        Run (machine fun x => (repeating x).application) (start fun _ => 7) repeatingRun s ∧
          s.broken = false ∧ s.Enabled (.own false (.read (.delivered []))) ∧
          (s.side true).stage ≠ .destroyed ∧ (s.side true).tcp.state_ ≠ .kConnecting ∧
          (s.side true).calls = [] :=
    exists_run_of_exec _ (by decide +kernel)
  have hsensible : ∀ x, (repeating x).Sensible := by
    intro x
    exact ⟨fun _ _ m _ => emptyMessages_sendable m, fun _ _ _ m _ => emptyMessages_sendable m⟩
  obtain ⟨requests, hrequested, heard, unheard, hsplit, hcalls, hall⟩ :=
    messages_delivered emptyMessages_lawful hsensible ⟨repeatingRun, hr⟩ true
  obtain rfl := hall hbroken heof halive
  refine ⟨s, hr, ?_⟩
  rcases hrequested with ⟨hfresh, _⟩ | ⟨opening, responses, hopening, hresponses, rfl⟩
  · exact absurd hfresh.state hdone.1
  · obtain rfl := Except.ok.inj hopening
    rw [hdone.2] at hresponses
    obtain rfl := Except.ok.inj hresponses
    have hheard : heard = [some (42 : Fin 128)] := (List.append_nil heard).symm.trans hsplit.symm
    exact hcalls.trans (congrArg _ hheard)

end Peers

end MuduoNet
