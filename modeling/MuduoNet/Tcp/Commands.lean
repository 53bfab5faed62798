import MuduoNet.Tcp.Session

/-!
# What a connection says to its peer

The bytes that go out are those of the sends before the first shutdown, whatever the callbacks ask
for and however `::write` behaves. What the callbacks ask for follows from what `onConnection` and
the calls of `messageCallback_` say.
-/
namespace MuduoNet

open Lib Lib.Outcome TcpConnection

/-- What is sent before the first shutdown. -/
def spoken : List Command → List UInt8
  | [] => []
  | .send message :: rest => message ++ spoken rest
  | .shutdown :: _ => []

theorem spoken_append {done : List Command} (h : .shutdown ∉ done) (rest : List Command) :
    spoken (done ++ rest) = spoken done ++ spoken rest := by
  induction done with
  | nil => rfl
  | cons command done ih =>
    rw [List.mem_cons, not_or] at h
    cases command with
    | send message => rw [List.cons_append, spoken, spoken, ih h.2, List.append_assoc]
    | shutdown => exact absurd rfl h.1

theorem spoken_append_of_mem {done : List Command} (h : .shutdown ∈ done) (rest : List Command) :
    spoken (done ++ rest) = spoken done := by
  induction done with
  | nil => cases h
  | cons command done ih =>
    cases command with
    | send message =>
      have hmem : .shutdown ∈ done := by simpa using h
      rw [List.cons_append, spoken, spoken, ih hmem]
    | shutdown => rfl

/-- What has been said stays said. -/
theorem spoken_front (done rest : List Command) : spoken done <+: spoken (done ++ rest) := by
  by_cases h : .shutdown ∈ done
  · exact ⟨[], by simp [spoken_append_of_mem h]⟩
  · rw [spoken_append h]
    exact List.prefix_append _ _

namespace TcpConnection

/-- The end of a connection leaves bytes and half-close alone. -/
structure Ends (c d : TcpConnection) : Prop where
  quiet : Quiet c d
  grows : c.trace <+: d.trace
  halfClosed : .shutdownWrite ∈ d.trace ↔ .shutdownWrite ∈ c.trace
  input : d.inputBuffer_ = c.inputBuffer_

section

variable {c d : TcpConnection}

theorem handleClose_ends (h : c.handleClose = .ok d) :
    Ends c d ∧ d.state_ = c.state_ ∧ c.state_ ≠ .kConnecting := by
  obtain ⟨hstate, h⟩ := demand_bind_eq_ok h
  obtain rfl := Except.ok.inj h
  refine ⟨⟨(quiet_update c _).trans (quiet_emit rfl rfl), ?_, ?_, rfl⟩, rfl, ?_⟩
  · simp [emit, update]
  · simp [emit, update]
  · rcases hstate with hstate | hstate <;> simp [hstate]

theorem connectDestroyed_ends (h : c.connectDestroyed = .ok d) :
    Ends c d ∧ c.state_ ≠ .kConnecting := by
  obtain ⟨hstate, h⟩ := demand_bind_eq_ok h
  obtain rfl := Except.ok.inj h
  have hset : Quiet c (c.setState .kDisconnected) := ⟨rfl, rfl, rfl⟩
  refine ⟨⟨(hset.trans (quiet_update _ _)).trans ((quiet_emit rfl rfl).trans (quiet_emit rfl rfl)),
    ?_, ?_, rfl⟩, ?_⟩
  · simp [emit, update, setState]
  · simp [emit, update, setState]
  · rcases hstate with hstate | hstate <;> simp [hstate]

/-- `handleRead` with bytes hands them to `messageCallback_` behind those in the buffer. -/
theorem handleRead_delivered (hwf : c.inputBuffer_.Wf) {bytes : List UInt8} (hne : bytes ≠ [])
    (hcap : bytes.length ≤ c.inputBuffer_.writableBytes + Buffer.kExtrabuf)
    (h : c.handleRead (.delivered bytes) = .ok d) :
    d.inputBuffer_.Wf ∧ d.inputBuffer_.readable = c.inputBuffer_.readable ++ bytes := by
  obtain ⟨⟨res, input⟩, hread, h⟩ := bind_eq_ok h
  obtain ⟨hres, hwf', hbytes⟩ := (Buffer.readFd_delivered_sat hwf hcap).of_ok hread
  dsimp only at hres hwf' hbytes h
  have hpos : 0 < res.n := by
    have hlen := List.length_pos_of_ne_nil hne
    rw [hres]
    show (0 : Int) < bytes.length
    omega
  rw [if_pos hpos] at h
  obtain rfl := Except.ok.inj h
  exact ⟨hwf', hbytes⟩

/-- At the end of the stream only the connection is closed. -/
theorem handleRead_ends (hwf : c.inputBuffer_.Wf) (h : c.handleRead (.delivered []) = .ok d) :
    ∃ input : Buffer, input.Wf ∧ input.readable = c.inputBuffer_.readable ∧
      Ends { c with inputBuffer_ := input } d ∧ d.state_ = c.state_ := by
  obtain ⟨⟨res, input⟩, hread, h⟩ := bind_eq_ok h
  obtain ⟨hres, hwf', hbytes⟩ := (Buffer.readFd_delivered_sat hwf (Nat.zero_le _)).of_ok hread
  dsimp only at hres hwf' hbytes h
  rw [hres] at h
  obtain ⟨hends, hstate, _⟩ := handleClose_ends h
  exact ⟨input, hwf', by rw [hbytes, List.append_nil], hends, hstate⟩

theorem sendInLoop_input {message : List UInt8} {w : WriteResult}
    (h : c.sendInLoop message w = .ok d) : d.inputBuffer_ = c.inputBuffer_ := by
  have hfirst := (writeFirst_ordinary (c.emit (.sendInLoop message)) message w).2
  unfold sendInLoop at h
  generalize (c.emit (.sendInLoop message)).writeFirst message w = r at h hfirst
  obtain ⟨nwrote, e⟩ := r
  change e.inputBuffer_ = c.inputBuffer_ at hfirst
  dsimp only at h
  split at h
  · obtain ⟨output, _, h⟩ := bind_eq_ok h
    obtain rfl := Except.ok.inj h
    split <;> exact hfirst
  · obtain rfl := Except.ok.inj h
    exact hfirst

theorem send_input {message : List UInt8} {w : WriteResult} (h : c.send message w = .ok d) :
    d.inputBuffer_ = c.inputBuffer_ := by
  unfold send at h
  split at h
  · exact sendInLoop_input h
  · obtain rfl := Except.ok.inj h
    rfl

theorem shutdown_input (c : TcpConnection) : c.shutdown.inputBuffer_ = c.inputBuffer_ := by
  unfold shutdown
  split
  · rw [inputBuffer_shutdownInLoop]
    rfl
  · rfl

theorem handleWrite_input {w : WriteResult} (h : c.handleWrite w = .ok d) :
    d.inputBuffer_ = c.inputBuffer_ := by
  unfold handleWrite at h
  split at h
  · cases w with
    | failed errno =>
      obtain rfl := Except.ok.inj h
      rfl
    | wrote n =>
      dsimp only at h
      split at h
      · obtain ⟨output, _, h⟩ := bind_eq_ok h
        obtain rfl := Except.ok.inj h
        split
        · exact inputBuffer_drained _
        · rfl
      · obtain rfl := Except.ok.inj h
        rfl
  · obtain rfl := Except.ok.inj h
    rfl

theorem handleRead_failed {errno : Int} (h : c.handleRead (.failed errno) = .ok d) : d = c := by
  obtain rfl := Except.ok.inj h
  rfl

theorem send_passed (hi : ShutInv c) {message : List UInt8} (hfits : message.length ≤ maxSize)
    {w : WriteResult} (hw : Session.CanWrite message w) (h : c.send message w = .ok d) :
    passed d.trace = passed c.trace ++ (if c.state_ = .kConnected then message else []) := by
  unfold send at h
  split at h
  · rw [if_pos ‹_›]
    refine ((sendInLoop_sat hi.out ⟨message, hfits⟩ ?_).of_ok h).2
    rintro n rfl
    exact hw
  · obtain rfl := Except.ok.inj h
    rw [if_neg ‹_›, List.append_nil]

end

end TcpConnection

/-- What `messageCallback_` makes of the bytes that have arrived: the calls, and the bytes that it
leaves in the buffer. -/
structure Application.Reads {ε : Type} (app : Application ε)
    (R : List UInt8 → List ε → List UInt8 → Prop) : Prop where
  nil : R [] [] []
  next : ∀ {received calls rest bytes buf calls' buf'}, R received calls rest → buf.Wf →
    buf.readable = rest ++ bytes → app.onMessage buf = .ok (calls', buf') →
    buf'.Wf ∧ R (received ++ bytes) (calls ++ calls') buf'.readable

namespace Session

variable {ε : Type} {app : Application ε} {R : List UInt8 → List ε → List UInt8 → Prop}
  {s t : Session ε} {l : SessionLabel}

/-- Nothing has happened yet. -/
structure Fresh (s : Session ε) : Prop where
  state : s.tcp.state_ = .kConnecting
  done : s.done = []
  todo : s.todo = []
  calls : s.calls = []
  received : s.received = []
  input : s.tcp.inputBuffer_.readable = []

/-- The commands are those that the callbacks have asked for, in order. -/
def Issued (app : Application ε) (s : Session ε) (commands : List Command) : Prop :=
  ∃ opening responses, app.onConnection = .ok opening ∧ s.calls.mapM app.respond = .ok responses ∧
    commands = opening ++ responses.flatten

structure Inv (app : Application ε) (R : List UInt8 → List ε → List UInt8 → Prop)
    (s : Session ε) : Prop where
  input : s.tcp.inputBuffer_.Wf
  reads : R s.received s.calls s.tcp.inputBuffer_.readable
  shut : s.stage = .active → ShutInv s.tcp
  conserved : accepted s.tcp.trace ++ s.tcp.outputBuffer_.readable = passed s.tcp.trace
  halfClosed : .shutdownWrite ∈ s.tcp.trace →
    s.tcp.outputBuffer_.readable = [] ∧ .shutdown ∈ s.done
  said : passed s.tcp.trace = spoken s.done
  open_ : s.stage = .active → s.tcp.state_ ≠ .kConnecting →
    (s.tcp.state_ = .kConnected ↔ .shutdown ∉ s.done)
  issued : s.Fresh ∨ (s.stage = .active → s.tcp.state_ ≠ .kConnecting) ∧
    s.Issued app (s.done ++ s.todo)

theorem Fresh.inv (h : s.Fresh) (happ : app.Reads R) (hinput : s.tcp.inputBuffer_.Wf)
    (hshut : ShutInv s.tcp) (hpassed : passed s.tcp.trace = []) : Inv app R s where
  input := hinput
  reads := by
    rw [h.received, h.calls, h.input]
    exact happ.nil
  shut _ := hshut
  conserved := hshut.out.bytes
  halfClosed hmem := absurd hmem (hshut.early (by simp [h.state]))
  said := by rw [hpassed, h.done]; rfl
  open_ _ hne := absurd h.state hne
  issued := .inl h

theorem start_fresh (sockfd : Int) : (start sockfd : Session ε).Fresh :=
  ⟨rfl, rfl, rfl, rfl, rfl, Buffer.readable_new⟩

theorem start_inv (happ : app.Reads R) (sockfd : Int) : Inv app R (start sockfd) :=
  (start_fresh sockfd).inv happ Buffer.wf_new (new_shutInv sockfd false) rfl

/-- The parts of the invariant that follow from the others while the connection is active. -/
theorem Inv.of_shutInv (hinput : s.tcp.inputBuffer_.Wf)
    (hreads : R s.received s.calls s.tcp.inputBuffer_.readable) (hshut : ShutInv s.tcp)
    (hspoken : passed s.tcp.trace = spoken s.done) (hstate : s.tcp.state_ ≠ .kConnecting)
    (hopen : s.tcp.state_ = .kConnected ↔ .shutdown ∉ s.done)
    (hissued : s.Issued app (s.done ++ s.todo)) : Inv app R s where
  input := hinput
  reads := hreads
  shut _ := hshut
  conserved := hshut.out.bytes
  halfClosed hmem := by
    constructor
    · by_contra hne
      exact hshut.waits hne hmem
    · by_contra hno
      have hconnected := hopen.mpr hno
      exact hshut.early (by simp [hconnected]) hmem
  said := hspoken
  open_ _ _ := hopen
  issued := .inr ⟨fun _ => hstate, hissued⟩

/-- A connection that is listening has been established. -/
theorem Inv.issued_of_ne (hi : Inv app R s) (hne : s.tcp.state_ ≠ .kConnecting) :
    s.Issued app (s.done ++ s.todo) := by
  rcases hi.issued with hfresh | ⟨_, hissued⟩
  · exact absurd hfresh.state hne
  · exact hissued

theorem establish_inv (hi : Inv app R s) (hactive : s.stage = .active)
    (hstate : s.tcp.state_ = .kConnecting) (hs : s.step app .establish = .ok t) : Inv app R t := by
  obtain ⟨tcp, htcp, hs⟩ := bind_eq_ok hs
  obtain ⟨opening, hopening, hs⟩ := bind_eq_ok hs
  obtain rfl := Except.ok.inj hs
  obtain ⟨hneutral, _, hconnected⟩ := connectEstablished_neutral htcp
  have hfresh : s.Fresh := hi.issued.resolve_right fun h => h.1 hactive hstate
  have hinput : tcp.inputBuffer_ = s.tcp.inputBuffer_ := by
    obtain ⟨_, htcp⟩ := demand_bind_eq_ok htcp
    obtain ⟨_, htcp⟩ := demand_bind_eq_ok htcp
    obtain rfl := Except.ok.inj htcp
    rfl
  apply Inv.of_shutInv
  · show tcp.inputBuffer_.Wf
    rw [hinput]
    exact hi.input
  · show R s.received s.calls tcp.inputBuffer_.readable
    rw [hinput]
    exact hi.reads
  · exact connectEstablished_shutInv (hi.shut hactive) htcp
  · exact hneutral.quiet.passed_eq.trans hi.said
  · simp [hconnected]
  · simp [hconnected, hfresh.done]
  · refine ⟨opening, [], hopening, ?_, ?_⟩
    · simp [hfresh.calls, pure, Except.pure]
    · simp [hfresh.done]

theorem perform_spec {c d : TcpConnection} {done : List Command} {command : Command} {w : WriteResult}
    (hshut : ShutInv c) (hopen : c.state_ = .kConnected ↔ .shutdown ∉ done)
    (hne : c.state_ ≠ .kConnecting) (hspoken : passed c.trace = spoken done)
    (hw : ∀ message, command = .send message → CanWrite message w)
    (h : perform c w command = .ok d) : ShutInv d ∧ d.inputBuffer_ = c.inputBuffer_ ∧
      passed d.trace = spoken (done ++ [command]) ∧ d.state_ ≠ .kConnecting ∧
      (d.state_ = .kConnected ↔ .shutdown ∉ done ++ [command]) := by
  cases command with
  | send message =>
    obtain ⟨hfits, h⟩ := demand_bind_eq_ok h
    have hcan := hw message rfl
    have hstep := send_shutInv hshut ⟨message, hfits⟩ (by rintro n rfl; exact hcan) h
    have hpassed := send_passed hshut hfits hcan h
    refine ⟨hstep.1, send_input h, ?_, by rw [hstep.2]; exact hne, ?_⟩
    · rw [hpassed, hspoken]
      by_cases hmem : .shutdown ∈ done
      · rw [if_neg (mt hopen.mp (not_not.mpr hmem)), spoken_append_of_mem hmem, List.append_nil]
      · rw [if_pos (hopen.mpr hmem), spoken_append hmem, spoken, spoken,
          List.append_nil]
    · rw [hstep.2, hopen]
      simp
  | shutdown =>
    obtain rfl := Except.ok.inj h
    have hstate : c.shutdown.state_ ≠ .kConnecting ∧ c.shutdown.state_ ≠ .kConnected := by
      unfold TcpConnection.shutdown
      split
      · simp [setState]
      · exact ⟨hne, ‹_›⟩
    refine ⟨shutdown_shutInv hshut, shutdown_input c, ?_, hstate.1, ?_⟩
    · rw [shutdown_passed, hspoken]
      by_cases hmem : .shutdown ∈ done
      · rw [spoken_append_of_mem hmem]
      · rw [spoken_append hmem, spoken, List.append_nil]
    · simp [hstate.2]

theorem act_inv (hi : Inv app R s) {w : WriteResult} (he : s.Enabled (.act w))
    (hs : s.step app (.act w) = .ok t) : Inv app R t := by
  obtain ⟨hactive, he⟩ := he
  unfold step at hs
  cases htodo : s.todo with
  | nil =>
    rw [htodo] at he
    exact he.elim
  | cons command todo =>
    rw [htodo] at he
    simp only [htodo] at hs
    obtain ⟨tcp, htcp, hs⟩ := bind_eq_ok hs
    obtain rfl := Except.ok.inj hs
    have hne : s.tcp.state_ ≠ .kConnecting := by
      rcases hi.issued with hfresh | ⟨hne, _⟩
      · rw [hfresh.todo] at htodo
        cases htodo
      · exact hne hactive
    have hcan : ∀ message, command = .send message → CanWrite message w := by
      rintro message rfl
      exact he
    obtain ⟨hshut, hinput, hspoken, hstate, hopen⟩ :=
      perform_spec (hi.shut hactive) (hi.open_ hactive hne) hne hi.said hcan htcp
    apply Inv.of_shutInv _ _ hshut hspoken hstate hopen
    · have hissued := hi.issued_of_ne hne
      rw [htodo] at hissued
      show s.Issued app ((s.done ++ [command]) ++ todo)
      rw [List.append_assoc]
      exact hissued
    · show tcp.inputBuffer_.Wf
      rw [hinput]
      exact hi.input
    · show R s.received s.calls tcp.inputBuffer_.readable
      rw [hinput]
      exact hi.reads

/-- The end of a connection: nothing is said any more. -/
theorem Inv.ends (hi : Inv app R s) {tcp : TcpConnection} {input : Buffer} {stage : Stage}
    (hwf : input.Wf) (hread : input.readable = s.tcp.inputBuffer_.readable)
    (hends : Ends { s.tcp with inputBuffer_ := input } tcp) (hne : s.tcp.state_ ≠ .kConnecting)
    (hstage : stage ≠ .active) : Inv app R { s with tcp := tcp, stage := stage } where
  input := by
    show tcp.inputBuffer_.Wf
    rw [hends.input]
    exact hwf
  reads := by
    show R s.received s.calls tcp.inputBuffer_.readable
    rw [hends.input, hread]
    exact hi.reads
  shut h := absurd h hstage
  conserved := by
    show accepted tcp.trace ++ tcp.outputBuffer_.readable = passed tcp.trace
    rw [hends.quiet.accepted_eq, hends.quiet.buffer, hends.quiet.passed_eq]
    exact hi.conserved
  halfClosed hmem := by
    show tcp.outputBuffer_.readable = [] ∧ _
    rw [hends.quiet.buffer]
    exact hi.halfClosed (hends.halfClosed.mp hmem)
  said := hends.quiet.passed_eq.trans hi.said
  open_ h := absurd h hstage
  issued := .inr ⟨fun h => absurd h hstage, hi.issued_of_ne hne⟩

/-- A step that leaves the input buffer and what has been said alone. -/
theorem Inv.keeps (hi : Inv app R s) {tcp : TcpConnection} (hactive : s.stage = .active)
    (hne : s.tcp.state_ ≠ .kConnecting) (hinput : tcp.inputBuffer_ = s.tcp.inputBuffer_)
    (hshut : ShutInv tcp) (hstate : tcp.state_ = s.tcp.state_)
    (hpassed : passed tcp.trace = passed s.tcp.trace) : Inv app R { s with tcp := tcp } := by
  apply Inv.of_shutInv
  · show tcp.inputBuffer_.Wf
    rw [hinput]
    exact hi.input
  · show R s.received s.calls tcp.inputBuffer_.readable
    rw [hinput]
    exact hi.reads
  · exact hshut
  · exact hpassed.trans hi.said
  · show tcp.state_ ≠ .kConnecting
    rw [hstate]
    exact hne
  · show tcp.state_ = .kConnected ↔ _
    rw [hstate]
    exact hi.open_ hactive hne
  · exact hi.issued_of_ne hne

theorem callback_inv (happ : app.Reads R) (hi : Inv app R s) {tcp : TcpConnection}
    {bytes : List UInt8} (hlistens : s.Listens) (hshut : ShutInv tcp)
    (hstate : tcp.state_ = s.tcp.state_) (hpassed : passed tcp.trace = passed s.tcp.trace)
    (hwf : tcp.inputBuffer_.Wf)
    (hread : tcp.inputBuffer_.readable = s.tcp.inputBuffer_.readable ++ bytes)
    (h : s.callback app tcp bytes = .ok t) : Inv app R t := by
  obtain ⟨hactive, hne, htodo⟩ := hlistens
  obtain ⟨⟨calls, input⟩, hmessage, h⟩ := bind_eq_ok h
  obtain ⟨commands, hcommands, h⟩ := bind_eq_ok h
  obtain rfl := Except.ok.inj h
  obtain ⟨hwf', hreads⟩ := happ.next hi.reads hwf hread hmessage
  apply Inv.of_shutInv hwf' hreads
  · exact hshut.neutral (neutral_inputBuffer input) rfl
  · exact hpassed.trans hi.said
  · show tcp.state_ ≠ .kConnecting
    rw [hstate]
    exact hne
  · show tcp.state_ = .kConnected ↔ _
    rw [hstate]
    exact hi.open_ hactive hne
  · obtain ⟨opening, responses, hopening, hresponses, hissued⟩ := hi.issued_of_ne hne
    rw [htodo, List.append_nil] at hissued
    refine ⟨opening, responses ++ commands, hopening, ?_, ?_⟩
    · show (s.calls ++ calls).mapM app.respond = _
      rw [List.mapM_append, hresponses]
      show (do
        let y ← calls.mapM app.respond
        pure (responses ++ y)) = _
      rw [hcommands]
      rfl
    · show s.done ++ commands.flatten = _
      rw [hissued, List.flatten_append, List.append_assoc]

theorem read_inv (happ : app.Reads R) (hi : Inv app R s) {r : Buffer.ReadvResult}
    (hlistens : s.Listens) (hcan : s.tcp.CanRead r) (hs : s.step app (.read r) = .ok t) :
    Inv app R t := by
  have hactive := hlistens.1
  have hne := hlistens.2.1
  obtain ⟨tcp, htcp, hs⟩ := bind_eq_ok hs
  cases r with
  | failed errno =>
    obtain rfl := handleRead_failed htcp
    obtain rfl := Except.ok.inj hs
    exact hi
  | delivered bytes =>
    cases bytes with
    | nil =>
      obtain rfl := Except.ok.inj hs
      obtain ⟨input, hwf, hread, hends, _⟩ := handleRead_ends hi.input htcp
      exact hi.ends hwf hread hends hne (by simp)
    | cons b bytes =>
      obtain ⟨hneutral, hstate⟩ := handleRead_neutral (by simp) htcp
      obtain ⟨hwf, hread⟩ := handleRead_delivered hi.input (by simp) hcan htcp
      exact callback_inv happ hi hlistens ((hi.shut hactive).neutral hneutral hstate) hstate
        hneutral.quiet.passed_eq hwf hread hs

theorem step_inv (happ : app.Reads R) (hi : Inv app R s) (he : (machine app).enabled s l)
    (hs : (machine app).step s l = .ok t) : Inv app R t := by
  cases l with
  | establish => exact establish_inv hi he.1 he.2 hs
  | act w => exact act_inv hi he hs
  | read r => exact read_inv happ hi he.1 he.2 hs
  | write w =>
    obtain ⟨⟨hactive, hne, _⟩, hcan⟩ := he
    obtain ⟨tcp, htcp, hs⟩ := bind_eq_ok hs
    obtain rfl := Except.ok.inj hs
    have hshut := hi.shut hactive
    have hw : ∀ n, w = .wrote n → n ≤ s.tcp.outputBuffer_.readableBytes := by
      rintro n rfl
      rw [← Buffer.length_readable hshut.out.wf]
      exact hcan
    obtain ⟨hshut', hstate⟩ := handleWrite_shutInv hshut hw htcp
    exact hi.keeps hactive hne (handleWrite_input htcp) hshut' hstate
      ((handleWrite_sat hshut.out hw).of_ok htcp).2
  | error =>
    obtain rfl := Except.ok.inj hs
    exact hi
  | hangUp =>
    obtain ⟨tcp, htcp, hs⟩ := bind_eq_ok hs
    obtain rfl := Except.ok.inj hs
    obtain ⟨hends, _, hne⟩ := handleClose_ends htcp
    exact hi.ends hi.input rfl hends hne (by simp)
  | destroy =>
    obtain ⟨tcp, htcp, hs⟩ := bind_eq_ok hs
    obtain rfl := Except.ok.inj hs
    obtain ⟨hends, hne⟩ := connectDestroyed_ends htcp
    exact hi.ends hi.input rfl hends hne (by simp)

/-- The effects of a step come behind those before it. -/
theorem perform_grows {c d : TcpConnection} {command : Command} {w : WriteResult}
    (h : perform c w command = .ok d) : c.trace <+: d.trace := by
  cases command with
  | send message =>
    obtain ⟨_, h⟩ := demand_bind_eq_ok h
    unfold send at h
    split at h
    · obtain ⟨es, htrace, _⟩ := (sendInLoop_extends h).trace
      rw [htrace, emit, List.append_assoc]
      exact List.prefix_append _ _
    · obtain rfl := Except.ok.inj h
      exact List.prefix_rfl
  | shutdown =>
    obtain rfl := Except.ok.inj h
    unfold TcpConnection.shutdown shutdownInLoop
    split
    · split
      · exact List.prefix_rfl
      · exact List.prefix_append _ _
    · exact List.prefix_rfl

theorem handleWrite_grows {c d : TcpConnection} {w : WriteResult} (h : c.handleWrite w = .ok d) :
    c.trace <+: d.trace := by
  rcases handleWrite_ok h with ⟨_, rfl⟩ | ⟨_, e, hext, _, hd⟩
  · exact List.prefix_rfl
  · obtain ⟨es, htrace, _⟩ := hext.trace
    have he : c.trace <+: e.trace := ⟨es, htrace.symm⟩
    rcases hd with rfl | rfl
    · exact he
    · obtain ⟨f, hf, heq⟩ := drained_eq e
      obtain ⟨fs, htrace, _⟩ := hf.trace
      have hef : e.trace <+: f.trace := ⟨fs, htrace.symm⟩
      rw [heq]
      split
      · exact he.trans (hef.trans (List.prefix_append _ _))
      · exact he.trans hef

theorem callback_frame {tcp : TcpConnection} {bytes : List UInt8}
    (h : s.callback app tcp bytes = .ok t) :
    t.tcp.trace = tcp.trace ∧ t.received = s.received ++ bytes ∧ t.stage = s.stage ∧
      t.done = s.done := by
  obtain ⟨⟨calls, input⟩, _, h⟩ := bind_eq_ok h
  obtain ⟨commands, _, h⟩ := bind_eq_ok h
  obtain rfl := Except.ok.inj h
  exact ⟨rfl, rfl, rfl, rfl⟩

/-- What a step does to the ghost fields and to the stage. -/
structure Grows (l : SessionLabel) (s t : Session ε) : Prop where
  trace : s.tcp.trace <+: t.tcp.trace
  received : t.received = s.received ++ l.delivered
  done : s.done <+: t.done
  destroyed : t.stage = .destroyed ↔ l = .destroy

theorem step_grows (hi : Inv app R s) (he : (machine app).enabled s l)
    (hs : (machine app).step s l = .ok t) : Grows l s t := by
  cases l with
  | establish =>
    obtain ⟨tcp, htcp, hs⟩ := bind_eq_ok hs
    obtain ⟨opening, _, hs⟩ := bind_eq_ok hs
    obtain rfl := Except.ok.inj hs
    obtain ⟨es, htrace, _⟩ := (connectEstablished_neutral htcp).1.trace
    exact ⟨⟨es, htrace.symm⟩, (List.append_nil _).symm, List.prefix_rfl, by simp [he.1]⟩
  | act w =>
    obtain ⟨hactive, _⟩ := he
    simp only [machine, step] at hs
    split at hs
    · obtain ⟨tcp, htcp, hs⟩ := bind_eq_ok hs
      obtain rfl := Except.ok.inj hs
      exact ⟨perform_grows htcp, (List.append_nil _).symm, List.prefix_append _ _,
        by simp [hactive]⟩
    · obtain rfl := Except.ok.inj hs
      exact ⟨List.prefix_rfl, (List.append_nil _).symm, List.prefix_rfl, by simp [hactive]⟩
  | read r =>
    obtain ⟨⟨hactive, _, _⟩, _⟩ := he
    obtain ⟨tcp, htcp, hs⟩ := bind_eq_ok hs
    cases r with
    | failed errno =>
      obtain rfl := handleRead_failed htcp
      obtain rfl := Except.ok.inj hs
      exact ⟨List.prefix_rfl, (List.append_nil _).symm, List.prefix_rfl, by simp [hactive]⟩
    | delivered bytes =>
      cases bytes with
      | nil =>
        obtain rfl := Except.ok.inj hs
        obtain ⟨_, _, _, hends, _⟩ := handleRead_ends hi.input htcp
        exact ⟨hends.grows, (List.append_nil _).symm, List.prefix_rfl, by simp⟩
      | cons b bytes =>
        obtain ⟨es, htrace, _⟩ := (handleRead_neutral (by simp) htcp).1.trace
        obtain ⟨hsame, hreceived, hstage, hdone⟩ := callback_frame hs
        refine ⟨?_, hreceived, ?_, by simp [hstage, hactive]⟩
        · rw [hsame]
          exact ⟨es, htrace.symm⟩
        · exact ⟨[], by simp [hdone]⟩
  | write w =>
    obtain ⟨⟨hactive, _, _⟩, _⟩ := he
    obtain ⟨tcp, htcp, hs⟩ := bind_eq_ok hs
    obtain rfl := Except.ok.inj hs
    exact ⟨handleWrite_grows htcp, (List.append_nil _).symm, List.prefix_rfl, by simp [hactive]⟩
  | error =>
    obtain ⟨hactive, _, _⟩ := he
    obtain rfl := Except.ok.inj hs
    exact ⟨List.prefix_rfl, (List.append_nil _).symm, List.prefix_rfl, by simp [hactive]⟩
  | hangUp =>
    obtain ⟨tcp, htcp, hs⟩ := bind_eq_ok hs
    obtain rfl := Except.ok.inj hs
    exact ⟨(handleClose_ends htcp).1.grows, (List.append_nil _).symm, List.prefix_rfl, by simp⟩
  | destroy =>
    obtain ⟨tcp, htcp, hs⟩ := bind_eq_ok hs
    obtain rfl := Except.ok.inj hs
    exact ⟨(connectDestroyed_ends htcp).1.grows, (List.append_nil _).symm, List.prefix_rfl, by simp⟩

theorem reachable_inv (happ : app.Reads R) {sockfd : Int}
    (h : Reachable (machine app) (start sockfd) s) : Inv app R s :=
  h.invariant (fun _ _ _ hi he hs => step_inv happ hi he hs) (start_inv happ sockfd)

end Session

end MuduoNet
