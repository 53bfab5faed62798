import MuduoNet.Rpc.Wire

/-!
# The bytes a peer may send

`RpcChannel::onMessage` is the codec with `onRpcMessage` as its callback. The channel answers some
requests while it reads. Nothing is assumed of the bytes.
-/
namespace MuduoNet.Rpc

open Lib Lib.Outcome MuduoNet.ProtobufCodec

/-- The receiving side of a channel. -/
structure Input where
  channel : RpcChannel
  inputBuffer_ : Buffer
  /-- What is done because of the messages. -/
  actions : List Action
  /-- What the channel has sent itself. -/
  output : List UInt8
  /-- For what the connection was shut down by `defaultErrorCallback`. -/
  errors : List ProtobufCodec.ErrorCode

namespace Input

variable (P : RpcProtobuf) (conn : Nat)

def start (c : RpcChannel) : Input := ⟨c, Buffer.new, [], [], []⟩

/-- `codec_.send` -/
def send (message : RpcMessage) : Except Fault (List UInt8) := do
  let buf ← fillEmptyBuffer P.toProtobuf Buffer.new (P.ofRpc message)
  return buf.readable

/-- What `onRpcMessage` does of an action itself; the rest is done by the objects of the user. -/
def perform (s : Input) (a : Action) : Except Fault Input :=
  match a with
  | .reject request error => do
    let bytes ← send P (errorReply request.id error)
    return { s with actions := s.actions ++ [a], output := s.output ++ bytes }
  | _ => .ok { s with actions := s.actions ++ [a] }

def handle (s : Input) : Event P.Message → Except Fault Input
  | .messageCallback message => do
    let (actions, channel) ← s.channel.onRpcMessage conn (P.asRpc message)
    actions.foldlM (perform P) { s with channel := channel }
  | .errorCallback code => .ok { s with errors := s.errors ++ [code] }

def onMessage (s : Input) : Except Fault Input := do
  let (events, buf) ← ProtobufCodec.onMessage P.toProtobuf s.inputBuffer_
  events.foldlM (handle P conn) { s with inputBuffer_ := buf }

/-- The bytes arrive in these chunks. -/
def feed (s : Input) (chunks : List Span) : Except Fault Input :=
  chunks.foldlM (fun s chunk => do
    let buf ← s.inputBuffer_.append chunk.bytes
    onMessage P conn { s with inputBuffer_ := buf }) s

/-- What `onRpcMessage` asserts of a message. -/
def Proper (message : P.Message) : Prop :=
  ∃ m, P.asRpc message = some m ∧ (m.type = .RESPONSE → m.response.isSome ∨ m.error.isSome)

/-- `errors` are added, the bytes not yet read and the connection are the same. -/
structure Advances (s : Input) (errors : List ProtobufCodec.ErrorCode) (t : Input) : Prop where
  conn : t.channel.conn_ = s.channel.conn_
  buf : t.inputBuffer_ = s.inputBuffer_
  errors_eq : t.errors = s.errors ++ errors

variable {P conn} {s t u : Input}

theorem Advances.refl (s : Input) : Advances s [] s := ⟨rfl, rfl, (List.append_nil _).symm⟩

theorem Advances.trans {xs ys : List ProtobufCodec.ErrorCode} (h : Advances s xs t)
    (g : Advances t ys u) : Advances s (xs ++ ys) u :=
  ⟨g.conn.trans h.conn, g.buf.trans h.buf, by rw [g.errors_eq, h.errors_eq, List.append_assoc]⟩

theorem send_eq (hP : P.Sound) {m : RpcMessage}
    (henc : ∃ m₀, Encodable P.toProtobuf (P.ofRpc m) m₀) : send P m = .ok (P.frame m) := by
  obtain ⟨m₀, henc⟩ := henc
  obtain ⟨b, hok, _, hread⟩ :=
    fillEmptyBuffer_eq (henc.writable hP.toLawful) Buffer.wf_new (by decide +kernel)
  unfold send
  rw [hok, ok_bind, hread]
  rfl

theorem perform_sat (hP : P.Lawful) (s : Input) (a : Action) :
    Sat Nothing (perform P s a) (Advances s []) := by
  unfold perform
  cases a with
  | reject request error =>
    have hlen := hP.length_error request.id error
    simp only [send_eq hP.toSound (hP.roundTrip (errorReply request.id error) (by omega))]
    exact ⟨rfl, rfl, (List.append_nil _).symm⟩
  | _ => exact ⟨rfl, rfl, (List.append_nil _).symm⟩

theorem performs_sat (hP : P.Lawful) (s : Input) (actions : List Action) :
    Sat Nothing (actions.foldlM (perform P) s) (Advances s []) := by
  apply sat_foldlM (.refl s)
  intro t a _ ht
  exact sat_post (perform_sat hP t a) fun u hu => ht.trans hu

theorem onRpcMessage_proper {c : RpcChannel} (hconn : c.conn_ = some conn) {message : P.Message}
    (h : Proper P message) :
    ∃ r, c.onRpcMessage conn (P.asRpc message) = .ok r ∧ r.2.conn_ = some conn := by
  obtain ⟨m, hcast, hm⟩ := h
  rw [hcast]
  unfold RpcChannel.onRpcMessage assert
  rw [demand_true hconn.symm, ok_bind]
  dsimp only
  cases htype : m.type with
  | RESPONSE =>
    dsimp only
    rw [demand_true (hm htype)]
    refine ⟨_, rfl, ?_⟩
    unfold RpcChannel.takeCall
    split <;> exact hconn
  | REQUEST => exact ⟨_, rfl, hconn⟩
  | ERROR => exact ⟨_, rfl, hconn⟩

theorem onRpcMessage_improper (c : RpcChannel) {message : P.Message} (h : ¬ Proper P message) :
    c.onRpcMessage conn (P.asRpc message) = .error .assertion := by
  unfold RpcChannel.onRpcMessage assert
  by_cases hconn : some conn = c.conn_
  · rw [demand_true hconn, ok_bind]
    cases hcast : P.asRpc message with
    | none => rfl
    | some m =>
      dsimp only
      cases htype : m.type with
      | RESPONSE =>
        have hmissing : ¬ (m.response.isSome ∨ m.error.isSome) := by
          intro hpresent
          exact h ⟨m, hcast, fun _ => hpresent⟩
        dsimp only
        rw [demand_false hmissing]
        rfl
      | REQUEST =>
        refine absurd ⟨m, hcast, ?_⟩ h
        rw [htype]
        intro hcontra
        cases hcontra
      | ERROR =>
        refine absurd ⟨m, hcast, ?_⟩ h
        rw [htype]
        intro hcontra
        cases hcontra
  · rw [demand_false hconn]
    rfl

theorem handle_proper (hP : P.Lawful) (hconn : s.channel.conn_ = some conn) {message : P.Message}
    (h : Proper P message) :
    Sat Nothing (handle P conn s (.messageCallback message)) (Advances s []) := by
  obtain ⟨⟨actions, c⟩, hok, hc⟩ := onRpcMessage_proper hconn h
  unfold handle
  simp only [hok, ok_bind]
  apply sat_post (performs_sat hP _ actions)
  intro t ⟨htconn, hbuf, herrors⟩
  exact ⟨htconn.trans (hc.trans hconn.symm), hbuf, herrors⟩

theorem handle_improper (s : Input) {message : P.Message} (h : ¬ Proper P message) :
    handle P conn s (.messageCallback message) = .error .assertion := by
  unfold handle
  simp only [onRpcMessage_improper s.channel h, error_bind]

/-- The errors of a round that leaves `rest`. -/
def rejection (P : RpcProtobuf) (rest : List UInt8) : List ProtobufCodec.ErrorCode :=
  match head P.toProtobuf rest with
  | .reject code => [code]
  | _ => []

theorem round_proper (hP : P.Lawful) (hconn : s.channel.conn_ = some conn)
    {fs : List (List UInt8 × P.Message)} (h : ∀ f ∈ fs, Proper P f.2) (rest : List UInt8) :
    Sat Nothing ((deliveries P.toProtobuf fs ++ closing P.toProtobuf rest).foldlM (handle P conn) s)
      (Advances s (rejection P rest)) := by
  rw [List.foldlM_append]
  have hmessages : Sat Nothing ((deliveries P.toProtobuf fs).foldlM (handle P conn) s)
      (Advances s []) := by
    apply sat_foldlM (.refl s)
    intro t e he ht
    obtain ⟨f, hf, rfl⟩ := List.mem_map.mp he
    exact sat_post (handle_proper hP (ht.conn.trans hconn) (h f hf)) fun u hu => ht.trans hu
  apply sat_bind hmessages
  intro t ht
  unfold closing rejection
  cases head P.toProtobuf rest with
  | reject code => exact ht.trans ⟨rfl, rfl, rfl⟩
  | more => exact ht
  | frame m n => exact ht

theorem round_improper (hP : P.Lawful) (hconn : s.channel.conn_ = some conn)
    {fs : List (List UInt8 × P.Message)} (h : ∃ f ∈ fs, ¬ Proper P f.2)
    (events : List (Event P.Message)) :
    (deliveries P.toProtobuf fs ++ events).foldlM (handle P conn) s = .error .assertion := by
  induction fs generalizing s with
  | nil => simp at h
  | cons f fs ih =>
    rw [deliveries, List.map_cons, List.cons_append, List.foldlM_cons]
    by_cases hf : Proper P f.2
    · obtain ⟨t, hok, ht⟩ := (handle_proper hP hconn hf).returns fun _ => id
      rw [hok, ok_bind]
      apply ih (ht.conn.trans hconn)
      obtain ⟨g, hg, himproper⟩ := h
      rcases List.mem_cons.mp hg with rfl | hg
      · exact absurd hf himproper
      · exact ⟨g, hg, himproper⟩
    · rw [handle_improper s hf]
      rfl

/-- Between two chunks: what was read is handled, and an error has been dealt with. -/
structure Ready (P : RpcProtobuf) (conn : Nat) (s : Input) : Prop where
  wf : s.inputBuffer_.Wf
  conn_eq : s.channel.conn_ = some conn
  read : ∀ m n, head P.toProtobuf s.inputBuffer_.readable ≠ .frame m n
  rejected : ∀ code, head P.toProtobuf s.inputBuffer_.readable = .reject code → code ∈ s.errors

theorem start_ready {c : RpcChannel} (hconn : c.conn_ = some conn) : Ready P conn (start c) := by
  refine ⟨Buffer.wf_new, hconn, ?_, ?_⟩
  · show ∀ m n, head P.toProtobuf Buffer.new.readable ≠ .frame m n
    rw [Buffer.readable_new]
    exact (framing P.toProtobuf).head_nil
  · intro code h
    change head P.toProtobuf Buffer.new.readable = _ at h
    rw [Buffer.readable_new] at h
    cases h

/-- The events of one chunk. -/
theorem chunk_sat (hs : Ready P conn s) (chunk : Span) :
    Sat (Buffer.Exhausted (s.inputBuffer_.readable ++ chunk.bytes).length)
      (do
        let buf ← s.inputBuffer_.append chunk.bytes
        ProtobufCodec.onMessage P.toProtobuf buf)
      (fun r => r.2.Wf ∧ ∃ fs,
        Decodes (framing P.toProtobuf) (s.inputBuffer_.readable ++ chunk.bytes) fs r.2.readable ∧
        r.1 = deliveries P.toProtobuf fs ++ closing P.toProtobuf r.2.readable) := by
  rw [List.length_append]
  apply sat_bind (Buffer.append_span_sat hs.wf chunk)
  intro buf ⟨hwf, hread⟩
  rw [← hread]
  exact sat_mono (onMessage_sat P.toProtobuf hwf) (fun _ => False.elim) fun _ h => h

theorem feed_cons (s : Input) (chunk : Span) (chunks : List Span) :
    feed P conn s (chunk :: chunks) = (do
      let (events, buf) ← (do
        let buf ← s.inputBuffer_.append chunk.bytes
        ProtobufCodec.onMessage P.toProtobuf buf)
      let t ← events.foldlM (handle P conn) { s with inputBuffer_ := buf }
      feed P conn t chunks) := by
  unfold feed
  rw [List.foldlM_cons]
  unfold onMessage
  simp only [bind_assoc]

theorem round_ready (hP : P.Lawful) (hs : Ready P conn s) {buf : Buffer} (hwf : buf.Wf)
    {bytes : List UInt8} {fs : List (List UInt8 × P.Message)}
    (hd : Decodes (framing P.toProtobuf) bytes fs buf.readable) (h : ∀ f ∈ fs, Proper P f.2) :
    Sat Nothing ((deliveries P.toProtobuf fs ++ closing P.toProtobuf buf.readable).foldlM
        (handle P conn) { s with inputBuffer_ := buf })
      (fun t => Ready P conn t ∧ t.inputBuffer_.readable = buf.readable) := by
  have hconn' : ({ s with inputBuffer_ := buf } : Input).channel.conn_ = some conn := hs.conn_eq
  apply sat_post (round_proper hP hconn' h buf.readable)
  intro t ⟨hconn, hbuf, herrors⟩
  refine ⟨⟨by rw [hbuf]; exact hwf, hconn.trans hs.conn_eq, ?_, ?_⟩, by rw [hbuf]⟩
  · rw [hbuf]
    exact hd.exhausted
  · intro code hcode
    rw [hbuf] at hcode
    change head P.toProtobuf buf.readable = _ at hcode
    rw [herrors, rejection, hcode]
    simp

theorem feed_proper (hP : P.Lawful) (chunks : List Span) (hs : Ready P conn s)
    {fs : List (List UInt8 × P.Message)} {rest : List UInt8}
    (hd : Decodes (framing P.toProtobuf)
      (s.inputBuffer_.readable ++ chunks.flatMap Span.bytes) fs rest)
    (h : ∀ f ∈ fs, Proper P f.2) :
    Sat (· ≠ .assertion) (feed P conn s chunks)
      (fun t => Ready P conn t ∧ t.inputBuffer_.readable = rest) := by
  induction chunks generalizing s fs with
  | nil =>
    rw [List.flatMap_nil, List.append_nil] at hd
    obtain ⟨_, hrest⟩ := hd.unique (.stop hs.read)
    exact ⟨hs, hrest.symm⟩
  | cons chunk chunks ih =>
    rw [List.flatMap_cons, ← List.append_assoc] at hd
    rw [feed_cons]
    have hexhausted : ∀ n f, Buffer.Exhausted n f → f ≠ .assertion := by
      intro n f ⟨hf, _⟩
      rw [hf]
      decide
    apply sat_bind (sat_mono (chunk_sat hs chunk) (hexhausted _) fun _ h => h)
    intro ⟨events, buf⟩ ⟨hwf, gs, hgs, hevents⟩
    dsimp only at hwf hgs hevents ⊢
    subst hevents
    obtain ⟨ks, rest', hks⟩ := exists_decodes (framing P.toProtobuf)
      (buf.readable ++ chunks.flatMap Span.bytes)
    obtain ⟨rfl, rfl⟩ := hd.unique (hgs.append hks)
    apply sat_bind (sat_mono (round_ready hP hs hwf hgs fun f hf =>
      h f (List.mem_append_left _ hf)) (fun _ => False.elim) fun _ h => h)
    intro t ⟨ht, hread⟩
    rw [← hread] at hks
    exact ih ht hks fun f hf => h f (List.mem_append_right _ hf)

/-- One byte at a time. -/
def singles (bytes : List UInt8) : List Span := bytes.map fun b => ⟨[b], show 1 ≤ maxSize by decide⟩

theorem flatMap_singles (bytes : List UInt8) : (singles bytes).flatMap Span.bytes = bytes := by
  induction bytes with
  | nil => rfl
  | cons b bytes ih => exact congrArg (b :: ·) ih

theorem valid_length {f : List UInt8} {m : P.Message} (h : (framing P.toProtobuf).Valid f m) :
    f.length ≤ kHeaderLen + kMaxMessageLen := by
  obtain ⟨hcomplete, ⟨_, hmax⟩, _⟩ := (validFrame_iff P.toProtobuf f m).mpr h
  omega

/-- A chunk for each frame up to the one that is not proper. -/
theorem feed_improper (hP : P.Lawful) {fs : List (List UInt8 × P.Message)}
    (hvalid : ∀ f ∈ fs, (framing P.toProtobuf).Valid f.1 f.2) (h : ∃ f ∈ fs, ¬ Proper P f.2)
    (hs : Ready P conn s) (hempty : s.inputBuffer_.readable = []) (rest : List UInt8) :
    ∃ chunks : List Span, chunks.flatMap Span.bytes = symbols fs ++ rest ∧
      feed P conn s chunks = .error .assertion := by
  induction fs generalizing s with
  | nil => simp at h
  | cons f fs ih =>
    have hf := hvalid f List.mem_cons_self
    have hlen := valid_length hf
    have hfits : f.1.length ≤ maxSize := Nat.le_trans hlen (by decide)
    have hsat := chunk_sat hs ⟨f.1, hfits⟩
    rw [hempty, List.nil_append] at hsat
    obtain ⟨⟨events, buf⟩, hok, hwf, gs, hgs, hevents⟩ := hsat.returns (Buffer.not_exhausted (by
      dsimp only
      unfold kHeaderLen kMaxMessageLen at hlen
      unfold Buffer.kCheapPrepend maxSize
      omega))
    dsimp only at hwf hgs hevents
    obtain ⟨rfl, hread⟩ := hgs.unique hf.decodes
    subst hevents
    by_cases hproper : Proper P f.2
    · obtain ⟨t, hround, ht, hbuf⟩ := (round_ready hP hs hwf hgs (by simpa using hproper)).returns
        fun _ => id
      obtain ⟨chunks, hbytes, hfeed⟩ := ih (fun g hg => hvalid g (List.mem_cons_of_mem _ hg)) (by
        obtain ⟨g, hg, himproper⟩ := h
        rcases List.mem_cons.mp hg with rfl | hg
        · exact absurd hproper himproper
        · exact ⟨g, hg, himproper⟩) ht (hbuf.trans hread)
      refine ⟨⟨f.1, hfits⟩ :: chunks, ?_, ?_⟩
      · rw [List.flatMap_cons, hbytes, symbols, symbols, List.flatMap_cons, List.append_assoc]
      · rw [feed_cons, hok, ok_bind]
        dsimp only
        rw [hround, ok_bind, hfeed]
    · refine ⟨⟨f.1, hfits⟩ :: singles (symbols fs ++ rest), ?_, ?_⟩
      · rw [List.flatMap_cons, flatMap_singles, symbols, symbols, List.flatMap_cons,
          List.append_assoc]
      · rw [feed_cons, hok, ok_bind]
        dsimp only
        rw [round_improper hP (show ({ s with inputBuffer_ := buf } : Input).channel.conn_ = _ from
          hs.conn_eq) ⟨f, by simp, hproper⟩]
        rfl

/-- However the stream is cut, no assertion fails, and where the bytes are rejected, the connection
is shut down for it. -/
def Withstands (P : RpcProtobuf) (conn : Nat) (c : RpcChannel) (stream : List UInt8) : Prop :=
  ∀ chunks : List Span, chunks.flatMap Span.bytes = stream →
    feed P conn (start c) chunks ≠ .error .assertion ∧
    ∀ t, feed P conn (start c) chunks = .ok t → ∀ code,
      head P.toProtobuf t.inputBuffer_.readable = .reject code → code ∈ t.errors

/-- A channel withstands exactly the streams whose frames hold proper messages only. -/
theorem withstands_iff (hP : P.Lawful) {c : RpcChannel} (hconn : c.conn_ = some conn)
    {stream rest : List UInt8} {fs : List (List UInt8 × P.Message)}
    (hd : Decodes (framing P.toProtobuf) stream fs rest) :
    Withstands P conn c stream ↔ ∀ f ∈ fs, Proper P f.2 := by
  have hstart : Ready P conn (start c) := start_ready hconn
  have hempty : (start c).inputBuffer_.readable = [] := Buffer.readable_new
  constructor
  · intro h f hf
    by_contra himproper
    obtain ⟨chunks, hbytes, hfeed⟩ := feed_improper hP hd.valid ⟨f, hf, himproper⟩ hstart hempty rest
    rw [← hd.symbols_append] at hbytes
    exact (h chunks hbytes).1 hfeed
  · intro h chunks hbytes
    have hd' : Decodes (framing P.toProtobuf)
        ((start c).inputBuffer_.readable ++ chunks.flatMap Span.bytes) fs rest := by
      rw [hempty, List.nil_append, hbytes]
      exact hd
    have hsat := feed_proper hP chunks hstart hd' h
    constructor
    · intro hfeed
      exact hsat.of_error hfeed rfl
    · intro t hfeed
      exact (hsat.of_ok hfeed).1.rejected

/-- The channel of a connection that serves nothing. -/
def plain : RpcChannel := ⟨some 0, 0, fun _ => none, none⟩

theorem withstands_iff_reply :
    Withstands rpcMessages 0 plain (rpcMessages.frame (doneReply 1 [7])) := by
  have hvalid : (framing rpcMessages.toProtobuf).Valid (rpcMessages.frame (doneReply 1 [7]))
      (some (doneReply 1 [7])) := rpcMessages_lawful.frame_valid (rpcMessages_fits (by decide +kernel))
  refine (withstands_iff rpcMessages_lawful rfl hvalid.decodes).mpr ?_
  intro f hf
  rw [List.mem_singleton.mp hf]
  exact ⟨doneReply 1 [7], rfl, fun _ => .inl rfl⟩

/-- A response to the call with the id 1 that has neither a response nor an error. -/
def bareResponse : RpcMessage where
  type := .RESPONSE
  id := 1

theorem bareResponse_asserts :
    ¬ ∀ stream : List UInt8, Withstands rpcMessages 0 plain stream := by
  intro h
  have hvalid : (framing rpcMessages.toProtobuf).Valid (rpcMessages.frame bareResponse)
      (some bareResponse) :=
    rpcMessages_lawful.frame_valid (rpcMessages_fits (by decide +kernel))
  have himproper : ¬ Proper rpcMessages (some bareResponse) := by
    intro ⟨m, hcast, hm⟩
    obtain rfl := Option.some.inj hcast
    have hmissing := hm rfl
    revert hmissing
    decide
  have hready : Ready rpcMessages 0 (start plain) := start_ready rfl
  obtain ⟨chunks, _, hfeed⟩ := feed_improper rpcMessages_lawful hvalid.decodes.valid
    ⟨(rpcMessages.frame bareResponse, some bareResponse), List.mem_singleton_self _, himproper⟩ hready
    Buffer.readable_new []
  exact (h _ chunks rfl).1 hfeed

end Input

end MuduoNet.Rpc
