import MuduoNet.Tcp.Output

/-!
# Graceful shutdown

A connection from its construction to `handleClose`, used on its loop thread only. Once
`shutdown` has set `kDisconnecting` no send is accepted, and the half-close waits for the
writing flag, which falls with the last byte.
-/
namespace MuduoNet

/-- A call of `::write`. -/
def Effect.IsWrite : Effect → Prop
  | .wrote _ | .writeFailed _ => True
  | _ => False

/-- What the functions that write do to get bytes out. -/
def Effect.OfOutput : Effect → Prop
  | .wrote _ | .writeFailed _ | .updateChannel _ | .queueWriteComplete => True
  | _ => False

/-- What the other functions do up to `handleClose`. -/
def Effect.OfOthers : Effect → Prop
  | .updateChannel _ | .messageCallback | .connectionCallback _ => True
  | _ => False

namespace TcpConnection

open Lib Lib.Outcome

/-- `A` holds of what comes before a half-close, and `::write` is not called after it. -/
def Closes (A : List Effect → Prop) (trace : List Effect) : Prop :=
  ∀ pre post, trace = pre ++ .shutdownWrite :: post → A pre ∧ ∀ e ∈ post, ¬ e.IsWrite

section

variable {A : List Effect → Prop} {trace es : List Effect}

theorem Closes.of_not_mem (h : .shutdownWrite ∉ trace) : Closes A trace := by
  rintro pre post rfl
  simp at h

theorem Closes.snoc (h : Closes A trace) (hall : A trace) :
    Closes A (trace ++ [.shutdownWrite]) := by
  intro pre post heq
  rcases List.eq_nil_or_concat post with rfl | ⟨post, e, rfl⟩
  · obtain ⟨rfl, _⟩ := List.append_inj' heq rfl
    exact ⟨hall, by simp⟩
  · have hsplit : trace ++ [.shutdownWrite] = (pre ++ .shutdownWrite :: post) ++ [e] := by
      simpa using heq
    obtain ⟨rfl, he⟩ := List.append_inj' hsplit rfl
    obtain ⟨hpre, hpost⟩ := h pre post rfl
    refine ⟨hpre, ?_⟩
    simpa [← (List.cons.inj he).1, Effect.IsWrite, or_imp, forall_and] using hpost

/-- What comes behind the half-close, if it has happened, may be anything but a write. -/
theorem Closes.append (h : Closes A trace) (hes : .shutdownWrite ∉ es)
    (hno : .shutdownWrite ∈ trace → ∀ e ∈ es, ¬ e.IsWrite) : Closes A (trace ++ es) := by
  intro pre post heq
  rcases List.append_eq_append_iff.mp heq with ⟨as, rfl, has⟩ | ⟨bs, rfl, hbs⟩
  · exact absurd (by simp [has]) hes
  · cases bs with
    | nil =>
      rw [List.nil_append] at hbs
      exact absurd (hbs ▸ List.mem_cons_self) hes
    | cons b bs =>
      obtain ⟨rfl, rfl⟩ := List.cons.inj hbs
      obtain ⟨hall, hpost⟩ := h pre bs rfl
      refine ⟨hall, ?_⟩
      intro e he
      rcases List.mem_append.mp he with he | he
      · exact hpost e he
      · exact hno (by simp) e he

end

/-- `d` is `c` with more effects, all of the kind `p`. -/
structure Extends (p : Effect → Prop) (c d : TcpConnection) : Prop where
  state : d.state_ = c.state_
  trace : ∃ es, d.trace = c.trace ++ es ∧ ∀ e ∈ es, p e

section

variable {p : Effect → Prop} {c d e : TcpConnection}

theorem Extends.refl (c : TcpConnection) : Extends p c c := ⟨rfl, [], by simp⟩

theorem Extends.trans (h : Extends p c d) (g : Extends p d e) : Extends p c e := by
  obtain ⟨es, hd, hes⟩ := h.trace
  obtain ⟨fs, he, hfs⟩ := g.trace
  refine ⟨g.state.trans h.state, es ++ fs, by rw [he, hd, List.append_assoc], ?_⟩
  intro e he
  rcases List.mem_append.mp he with he | he
  · exact hes e he
  · exact hfs e he

theorem extends_emit {e : Effect} (he : p e) : Extends p c (c.emit e) :=
  ⟨rfl, [e], rfl, by simpa using he⟩

theorem extends_update {channel : Channel} (he : p (.updateChannel channel.events_)) :
    Extends p c (c.update channel) :=
  ⟨rfl, _, rfl, by simpa using he⟩

theorem extends_outputBuffer (output : Buffer) : Extends p c { c with outputBuffer_ := output } :=
  ⟨rfl, [], by simp⟩

theorem extends_notifyWriteComplete (he : p .queueWriteComplete) :
    Extends p c c.notifyWriteComplete := by
  unfold notifyWriteComplete
  split
  · exact extends_emit he
  · exact .refl c

/-- Whether there is a half-close is decided elsewhere. -/
theorem Extends.shutdownWrite_count (h : Extends p c d) (hp : ¬ p .shutdownWrite) :
    d.trace.count .shutdownWrite = c.trace.count .shutdownWrite := by
  obtain ⟨es, hd, hes⟩ := h.trace
  have hno : .shutdownWrite ∉ es := fun hmem => hp (hes _ hmem)
  rw [hd, List.count_append, List.count_eq_zero_of_not_mem hno, Nat.add_zero]

theorem Extends.shutdownWrite_mem (h : Extends p c d) (hp : ¬ p .shutdownWrite) :
    .shutdownWrite ∈ d.trace ↔ .shutdownWrite ∈ c.trace := by
  rw [← List.count_pos_iff, ← List.count_pos_iff, h.shutdownWrite_count hp]

end

@[simp] theorem state_shutdownInLoop (c : TcpConnection) : c.shutdownInLoop.state_ = c.state_ := by
  unfold shutdownInLoop
  split <;> rfl

theorem directWrite_extends (c : TcpConnection) (message : List UInt8) (w : WriteResult) :
    Extends Effect.OfOutput c (c.directWrite message w).2 := by
  cases w with
  | failed errno => exact extends_emit trivial
  | wrote n =>
    have hemit : Extends Effect.OfOutput c (c.emit (.wrote (message.take n))) := extends_emit trivial
    dsimp only [directWrite]
    split
    · exact hemit
    · exact hemit.trans (extends_notifyWriteComplete trivial)

theorem writeFirst_extends (c : TcpConnection) (message : List UInt8) (w : WriteResult) :
    Extends Effect.OfOutput c (c.writeFirst message w).2 := by
  unfold writeFirst
  split
  · exact directWrite_extends _ _ _
  · exact .refl c

/-- What a `sendInLoop` that returned did behind its first half. -/
theorem sendInLoop_rest {c d : TcpConnection} {message : List UInt8} {w : WriteResult}
    (h : c.sendInLoop message w = .ok d) : Extends Effect.OfOutput
      ((c.emit (.sendInLoop message)).writeFirst message w).2 d := by
  unfold sendInLoop at h
  generalize (c.emit (.sendInLoop message)).writeFirst message w = r at h ⊢
  obtain ⟨nwrote, e⟩ := r
  dsimp only at h ⊢
  by_cases hpart : nwrote < message.length
  · rw [if_pos hpart] at h
    obtain ⟨output, _, h⟩ := bind_eq_ok h
    obtain rfl := Except.ok.inj h
    split
    · exact extends_outputBuffer output
    · exact (extends_outputBuffer output).trans (extends_update trivial)
  · rw [if_neg hpart] at h
    obtain rfl := Except.ok.inj h
    exact .refl e

theorem sendInLoop_extends {c d : TcpConnection} {message : List UInt8} {w : WriteResult}
    (h : c.sendInLoop message w = .ok d) :
    Extends Effect.OfOutput (c.emit (.sendInLoop message)) d :=
  (writeFirst_extends _ _ _).trans (sendInLoop_rest h)

/-- A `handleWrite` that finds the channel writing ends in `drained` or leaves it writing. -/
theorem handleWrite_ok {c d : TcpConnection} {w : WriteResult} (h : c.handleWrite w = .ok d) :
    (c.channel_.isWriting = false ∧ d = c) ∨
      (c.channel_.isWriting = true ∧ ∃ e, Extends Effect.OfOutput c e ∧
        e.channel_ = c.channel_ ∧ (d = e ∨ d = e.drained)) := by
  unfold handleWrite at h
  by_cases hwriting : c.channel_.isWriting = true
  · right
    rw [if_pos hwriting] at h
    refine ⟨hwriting, ?_⟩
    cases w with
    | failed errno =>
      obtain rfl := Except.ok.inj h
      exact ⟨_, extends_emit (e := .writeFailed errno) trivial, rfl, Or.inl rfl⟩
    | wrote n =>
      have hemit : Extends Effect.OfOutput c
          (c.emit (.wrote (c.outputBuffer_.readable.take n))) := extends_emit trivial
      dsimp only at h
      by_cases hpos : 0 < n
      · rw [if_pos hpos] at h
        obtain ⟨output, _, h⟩ := bind_eq_ok h
        obtain rfl := Except.ok.inj h
        refine ⟨_, hemit.trans (extends_outputBuffer output), rfl, ?_⟩
        split
        · exact Or.inr rfl
        · exact Or.inl rfl
      · rw [if_neg hpos] at h
        obtain rfl := Except.ok.inj h
        exact ⟨_, hemit, rfl, Or.inl rfl⟩
  · rw [if_neg hwriting] at h
    exact Or.inl ⟨by simpa using hwriting, (Except.ok.inj h).symm⟩

/-- The half-close that waited for the buffer comes at the end of `drained`. -/
theorem drained_eq (c : TcpConnection) : ∃ e, Extends Effect.OfOutput c e ∧
    c.drained = if c.state_ = .kDisconnecting then e.emit .shutdownWrite else e := by
  have hupdate : Extends Effect.OfOutput c (c.update c.channel_.disableWriting) :=
    extends_update trivial
  have hext := hupdate.trans (extends_notifyWriteComplete trivial)
  refine ⟨_, hext, ?_⟩
  unfold drained
  dsimp only
  rw [hext.state]
  split
  · unfold shutdownInLoop
    simp [update, emit]
  · rfl

structure ShutInv (c : TcpConnection) : Prop where
  out : OutInv c
  early : c.state_ ≠ .kDisconnecting → .shutdownWrite ∉ c.trace
  prompt : c.state_ = .kDisconnecting → (.shutdownWrite ∈ c.trace ↔ c.outputBuffer_.readable = [])
  once : c.trace.count .shutdownWrite ≤ 1
  closes : Closes (fun pre => accepted pre = passed pre) c.trace

/-- While bytes are buffered the half-close is still to come. -/
theorem ShutInv.waits {c : TcpConnection} (h : ShutInv c) (hne : c.outputBuffer_.readable ≠ []) :
    .shutdownWrite ∉ c.trace := by
  by_cases hstate : c.state_ = .kDisconnecting
  · exact fun hmem => hne ((h.prompt hstate).mp hmem)
  · exact h.early hstate

theorem ShutInv.of_waiting {c : TcpConnection} (hout : OutInv c) (hno : .shutdownWrite ∉ c.trace)
    (hne : c.state_ = .kDisconnecting → c.outputBuffer_.readable ≠ []) : ShutInv c :=
  ⟨hout, fun _ => hno, fun hstate => iff_of_false hno (hne hstate),
    by simp [List.count_eq_zero_of_not_mem hno], .of_not_mem hno⟩

/-- The half-close with nothing buffered. -/
theorem ShutInv.of_emit {c : TcpConnection} (hout : OutInv (c.emit .shutdownWrite))
    (hno : .shutdownWrite ∉ c.trace) (hnil : c.outputBuffer_.readable = [])
    (hstate : c.state_ = .kDisconnecting) : ShutInv (c.emit .shutdownWrite) := by
  have hmem : .shutdownWrite ∈ (c.emit .shutdownWrite).trace := by simp [emit]
  refine ⟨hout, fun hne => absurd hstate hne, fun _ => iff_of_true hmem hnil, ?_, ?_⟩
  · simp [emit, List.count_eq_zero_of_not_mem hno]
  apply (Closes.of_not_mem hno).snoc
  have hbytes := hout.bytes
  have hquiet : Quiet c (c.emit .shutdownWrite) := quiet_emit rfl rfl
  rw [hquiet.accepted_eq, hquiet.passed_eq, hquiet.buffer, hnil, List.append_nil] at hbytes
  exact hbytes

theorem OutInv.drained_nil {c : TcpConnection} (h : OutInv c.drained) :
    c.drained.outputBuffer_.readable = [] := by
  by_contra hne
  have htrue := h.writing.mpr hne
  simp at htrue

theorem handleWrite_shutInv {c d : TcpConnection} (hi : ShutInv c) {w : WriteResult}
    (hw : ∀ n, w = .wrote n → n ≤ c.outputBuffer_.readableBytes) (h : c.handleWrite w = .ok d) :
    ShutInv d ∧ d.state_ = c.state_ := by
  have hout : OutInv d := ((handleWrite_sat hi.out hw).of_ok h).1
  rcases handleWrite_ok h with ⟨_, rfl⟩ | ⟨hwriting, e, hext, hchannel, hd⟩
  · exact ⟨hi, rfl⟩
  have hno : .shutdownWrite ∉ e.trace := by
    rw [hext.shutdownWrite_mem id]
    exact hi.waits (hi.out.writing.mp hwriting)
  rcases hd with rfl | rfl
  · refine ⟨.of_waiting hout hno ?_, hext.state⟩
    rw [← hchannel, hout.writing] at hwriting
    exact fun _ => hwriting
  · obtain ⟨f, hf, heq⟩ := drained_eq e
    have hnof : .shutdownWrite ∉ f.trace := by rwa [hf.shutdownWrite_mem id]
    have hnil := hout.drained_nil
    rw [heq] at hout hnil ⊢
    by_cases hstate : e.state_ = .kDisconnecting
    · rw [if_pos hstate] at hout hnil ⊢
      exact ⟨.of_emit hout hnof hnil (hf.state.trans hstate), hf.state.trans hext.state⟩
    · rw [if_neg hstate] at hout hnil ⊢
      refine ⟨.of_waiting hout hnof ?_, hf.state.trans hext.state⟩
      exact fun h => absurd (hf.state.symm.trans h) hstate

theorem send_shutInv {c d : TcpConnection} (hi : ShutInv c) (message : Span) {w : WriteResult}
    (hw : ∀ n, w = .wrote n → n ≤ message.bytes.length) (h : c.send message.bytes w = .ok d) :
    ShutInv d ∧ d.state_ = c.state_ := by
  unfold send at h
  by_cases hstate : c.state_ = .kConnected
  · rw [if_pos hstate] at h
    have hext := sendInLoop_extends h
    have hne : c.state_ ≠ .kDisconnecting := by simp [hstate]
    have hno : .shutdownWrite ∉ d.trace := by
      rw [hext.shutdownWrite_mem id]
      simpa [emit] using hi.early hne
    refine ⟨.of_waiting ((sendInLoop_sat hi.out message hw).of_ok h).1 hno ?_, hext.state⟩
    exact fun h => absurd (hext.state.symm.trans h) hne
  · rw [if_neg hstate] at h
    obtain rfl := Except.ok.inj h
    exact ⟨hi, rfl⟩

theorem shutdown_shutInv {c : TcpConnection} (hi : ShutInv c) : ShutInv c.shutdown := by
  have hout := shutdown_outInv hi.out
  unfold shutdown shutdownInLoop at hout ⊢
  by_cases hstate : c.state_ = .kConnected
  · have hno : .shutdownWrite ∉ c.trace := hi.early (by simp [hstate])
    rw [if_pos hstate] at hout ⊢
    by_cases hwriting : (c.setState .kDisconnecting).channel_.isWriting = true
    · rw [if_pos hwriting] at hout ⊢
      exact .of_waiting hout hno (fun _ => hi.out.writing.mp hwriting)
    · rw [if_neg hwriting] at hout ⊢
      change ¬ c.channel_.isWriting = true at hwriting
      rw [hi.out.writing, not_not] at hwriting
      exact .of_emit hout hno hwriting rfl
  · rw [if_neg hstate]
    exact hi

/-- `d` is `c` with the same output path and more effects that do not concern it. -/
structure Neutral (c d : TcpConnection) : Prop where
  buffer : d.outputBuffer_ = c.outputBuffer_
  writing : d.channel_.isWriting = c.channel_.isWriting
  trace : ∃ es, d.trace = c.trace ++ es ∧ ∀ e ∈ es, e.OfOthers

section

variable {c d : TcpConnection}

theorem Neutral.quiet (h : Neutral c d) : Quiet c d := by
  obtain ⟨hbuffer, _, es, htrace, hes⟩ := h
  have hnil : accepted es = [] ∧ passed es = [] := by
    simp only [accepted, passed, List.flatMap_eq_nil_iff]
    constructor <;> intro e he <;> have he := hes e he <;> cases e <;> first | rfl | cases he
  refine ⟨hbuffer, ?_, ?_⟩
  · rw [htrace, accepted_append, hnil.1, List.append_nil]
  · rw [htrace, passed_append, hnil.2, List.append_nil]

theorem Neutral.trans {e : TcpConnection} (h : Neutral c d) (g : Neutral d e) : Neutral c e := by
  obtain ⟨es, hd, hes⟩ := h.trace
  obtain ⟨fs, he, hfs⟩ := g.trace
  refine ⟨g.buffer.trans h.buffer, g.writing.trans h.writing, es ++ fs, ?_, ?_⟩
  · rw [he, hd, List.append_assoc]
  · simpa [or_imp, forall_and] using ⟨hes, hfs⟩

theorem neutral_emit {e : Effect} (he : e.OfOthers) : Neutral c (c.emit e) :=
  ⟨rfl, rfl, [e], rfl, by simpa using he⟩

theorem neutral_state (state : StateE) : Neutral c (c.setState state) :=
  ⟨rfl, rfl, [], (List.append_nil _).symm, by simp⟩

theorem neutral_inputBuffer (input : Buffer) : Neutral c { c with inputBuffer_ := input } :=
  ⟨rfl, rfl, [], (List.append_nil _).symm, by simp⟩

theorem neutral_update {channel : Channel} (h : channel.isWriting = c.channel_.isWriting) :
    Neutral c (c.update channel) :=
  ⟨rfl, h, _, rfl, List.forall_mem_singleton.mpr trivial⟩

theorem Neutral.outInv (h : Neutral c d) (hi : OutInv c) : OutInv d := h.quiet.outInv hi h.writing

theorem Neutral.shutdownWrite_not_mem {es : List Effect} (hes : ∀ e ∈ es, e.OfOthers) :
    .shutdownWrite ∉ es :=
  fun hmem => hes _ hmem

theorem Neutral.shutdownWrite_count (h : Neutral c d) :
    d.trace.count .shutdownWrite = c.trace.count .shutdownWrite := by
  obtain ⟨es, htrace, hes⟩ := h.trace
  rw [htrace, List.count_append, List.count_eq_zero_of_not_mem (shutdownWrite_not_mem hes),
    Nat.add_zero]

theorem Neutral.shutdownWrite_mem (h : Neutral c d) :
    .shutdownWrite ∈ d.trace ↔ .shutdownWrite ∈ c.trace := by
  rw [← List.count_pos_iff, ← List.count_pos_iff, h.shutdownWrite_count]

theorem Neutral.closes {A : List Effect → Prop} (h : Neutral c d) (hc : Closes A c.trace) :
    Closes A d.trace := by
  obtain ⟨es, htrace, hes⟩ := h.trace
  rw [htrace]
  refine hc.append (shutdownWrite_not_mem hes) ?_
  intro _ e he hwrite
  have hother := hes e he
  cases e <;> first | exact hother | exact hwrite

theorem ShutInv.neutral (hi : ShutInv c) (h : Neutral c d) (hstate : d.state_ = c.state_) :
    ShutInv d := by
  refine ⟨h.outInv hi.out, ?_, ?_, ?_, h.closes hi.closes⟩
  · rw [hstate, h.shutdownWrite_mem]
    exact hi.early
  · rw [hstate, h.shutdownWrite_mem, h.buffer]
    exact hi.prompt
  · rw [h.shutdownWrite_count]
    exact hi.once

/-- `handleRead` with bytes or with an error leaves the output path alone. -/
theorem handleRead_neutral {r : Buffer.ReadvResult} (hr : r ≠ .delivered [])
    (h : c.handleRead r = .ok d) : Neutral c d ∧ d.state_ = c.state_ := by
  obtain ⟨⟨res, input⟩, hread, h⟩ := bind_eq_ok h
  have hn : res.n ≠ 0 := by
    rw [Buffer.readFd_n hread]
    cases r with
    | failed errno => simp
    | delivered bytes => simpa using hr
  dsimp only at h
  rw [if_neg hn] at h
  split at h
  · obtain rfl := Except.ok.inj h
    exact ⟨(neutral_inputBuffer input).trans (neutral_emit trivial), rfl⟩
  · obtain rfl := Except.ok.inj h
    exact ⟨neutral_inputBuffer input, rfl⟩

theorem connectEstablished_neutral (h : c.connectEstablished = .ok d) :
    Neutral c d ∧ c.state_ = .kConnecting ∧ d.state_ = .kConnected := by
  obtain ⟨hstate, h⟩ := demand_bind_eq_ok h
  obtain ⟨_, h⟩ := demand_bind_eq_ok h
  obtain rfl := Except.ok.inj h
  refine ⟨(neutral_state _).trans ((neutral_update ?_).trans (neutral_emit trivial)), hstate, rfl⟩
  exact Channel.isWriting_enableReading _

end

theorem connectEstablished_shutInv {c d : TcpConnection} (hi : ShutInv c)
    (h : c.connectEstablished = .ok d) : ShutInv d := by
  obtain ⟨hneutral, hconnecting, hconnected⟩ := connectEstablished_neutral h
  refine .of_waiting (hneutral.outInv hi.out) ?_ (by simp [hconnected])
  rw [hneutral.shutdownWrite_mem]
  exact hi.early (by simp [hconnecting])

/-- What happens to the connection on its loop thread. `handleClose` ends its run. -/
inductive ConnLabel
  | connectEstablished
  | send (message : Span) (w : WriteResult)
  | shutdown
  | handleRead (r : Buffer.ReadvResult)
  | handleWrite (w : WriteResult)
  | handleError

def ConnEnabled (c : TcpConnection) : ConnLabel → Prop
  | .send message (.wrote n) => n ≤ message.bytes.length
  | .handleWrite (.wrote n) => n ≤ c.outputBuffer_.readableBytes
  | .handleRead r => r ≠ .delivered []
  | _ => True

def connMachine : Machine TcpConnection ConnLabel Fault where
  enabled := ConnEnabled
  step c
    | .connectEstablished => c.connectEstablished
    | .send message w => c.send message.bytes w
    | .shutdown => .ok c.shutdown
    | .handleRead r => c.handleRead r
    | .handleWrite w => c.handleWrite w
    | .handleError => .ok c.handleError

/-- `shutdown` begins and ends at the right states. -/
theorem conn_step {c d : TcpConnection} (hi : ShutInv c) {l : ConnLabel}
    (he : connMachine.enabled c l) (hs : connMachine.step c l = .ok d) :
    ShutInv d ∧ (d.state_ = .kDisconnecting ↔
      c.state_ = .kDisconnecting ∨ (l = .shutdown ∧ c.state_ = .kConnected)) := by
  have hsame : ∀ {l : ConnLabel}, l ≠ .shutdown → ShutInv d ∧ d.state_ = c.state_ →
      ShutInv d ∧ (d.state_ = .kDisconnecting ↔
        c.state_ = .kDisconnecting ∨ (l = .shutdown ∧ c.state_ = .kConnected)) := by
    rintro l hne ⟨hinv, hstate⟩
    simp [hinv, hstate, hne]
  cases l with
  | connectEstablished =>
    obtain ⟨_, hconnecting, hconnected⟩ := connectEstablished_neutral hs
    simp [connectEstablished_shutInv hi hs, hconnecting, hconnected]
  | send message w =>
    refine hsame (by simp) (send_shutInv hi message ?_ hs)
    rintro n rfl
    exact he
  | shutdown =>
    obtain rfl := Except.ok.inj hs
    refine ⟨shutdown_shutInv hi, ?_⟩
    unfold shutdown
    cases hstate : c.state_ <;> simp [hstate, setState]
  | handleRead r =>
    obtain ⟨hneutral, hstate⟩ := handleRead_neutral he hs
    exact hsame (by simp) ⟨hi.neutral hneutral hstate, hstate⟩
  | handleWrite w =>
    refine hsame (by simp) (handleWrite_shutInv hi ?_ hs)
    rintro n rfl
    exact he
  | handleError =>
    obtain rfl := Except.ok.inj hs
    exact hsame (by simp) ⟨hi, rfl⟩

theorem new_shutInv (fd : Int) (wc : Bool) : ShutInv (new fd wc) := by
  refine .of_waiting ⟨Buffer.wf_new, rfl, ?_⟩ (by simp [new]) (by simp [new])
  simp [new]

/-- A call of `shutdown` has found the connection connected. -/
def ShutdownCalled (c₀ : TcpConnection) (ls : List ConnLabel) : Prop :=
  ∃ pre post c, ls = pre ++ .shutdown :: post ∧ Run connMachine c₀ pre c ∧ c.state_ = .kConnected

theorem shutdownCalled_iff {fd : Int} {wc : Bool} {c : TcpConnection} {ls : List ConnLabel}
    (h : Run connMachine (new fd wc) ls c) :
    c.state_ = .kDisconnecting ↔ ShutdownCalled (new fd wc) ls := by
  have hinv : ∀ {ls c}, Run connMachine (new fd wc) ls c → ShutInv c := fun hr =>
    hr.invariant (fun _ _ _ hi he hs => (conn_step hi he hs).1) (new_shutInv fd wc)
  constructor
  · intro hstate
    obtain ⟨pre, l, post, u, v, rfl, hr, hu, he, hs, hv⟩ :=
      h.crosses (P := fun c => c.state_ = .kDisconnecting) (by simp [new]) hstate
    have hcalled := (((conn_step (hinv hr) he hs).2).mp hv).resolve_left hu
    obtain ⟨rfl, hconnected⟩ := hcalled
    exact ⟨pre, post, u, rfl, hr, hconnected⟩
  · rintro ⟨pre, post, u, rfl, hr, hconnected⟩
    obtain ⟨u', hr', hrest⟩ := h.split
    obtain rfl := hr.unique hr'
    cases hrest with
    | cons he hs hrest =>
      have hstep := conn_step (hinv hr) he hs
      exact (hrest.invariant (I := fun c => ShutInv c ∧ c.state_ = .kDisconnecting)
        (fun _ _ _ hi he hs =>
          ⟨(conn_step hi.1 he hs).1, (conn_step hi.1 he hs).2.mpr (Or.inl hi.2)⟩)
        ⟨hstep.1, hstep.2.mpr (Or.inr ⟨rfl, hconnected⟩)⟩).2

/-- The half-close comes at most once, behind the last accepted byte, with no call of `::write`
after it. It has come exactly if `shutdown` was called on the connected connection and all
accepted bytes are written. -/
theorem shutdown_graceful {fd : Int} {wc : Bool} {c : TcpConnection} {ls : List ConnLabel}
    (h : Run connMachine (new fd wc) ls c) :
    c.trace.count .shutdownWrite ≤ 1 ∧
      (∀ pre post, c.trace = pre ++ .shutdownWrite :: post →
        accepted pre = passed pre ∧ ∀ e ∈ post, ¬ e.IsWrite) ∧
      (.shutdownWrite ∈ c.trace ↔
        ShutdownCalled (new fd wc) ls ∧ accepted c.trace = passed c.trace) := by
  have hinv : ShutInv c :=
    h.invariant (fun _ _ _ hi he hs => (conn_step hi he hs).1) (new_shutInv fd wc)
  have hwritten : c.outputBuffer_.readable = [] ↔ accepted c.trace = passed c.trace := by
    rw [← hinv.out.bytes]
    exact List.self_eq_append_right.symm
  refine ⟨hinv.once, hinv.closes, ?_⟩
  rw [← shutdownCalled_iff h, ← hwritten]
  by_cases hstate : c.state_ = .kDisconnecting
  · simp [hstate, hinv.prompt hstate]
  · simp [hstate, hinv.early hstate]

instance (c : TcpConnection) (l : ConnLabel) : Decidable (connMachine.enabled c l) :=
  match l with
  | .send message (.wrote n) => inferInstanceAs (Decidable (n ≤ message.bytes.length))
  | .handleWrite (.wrote n) => inferInstanceAs (Decidable (n ≤ c.outputBuffer_.readableBytes))
  | .handleRead r => inferInstanceAs (Decidable (r ≠ .delivered []))
  | .send _ (.failed _) | .handleWrite (.failed _) | .connectEstablished | .shutdown
  | .handleError => isTrue trivial

/-- The half-close waits for two bytes, a send after `shutdown` is refused. -/
theorem shutdown_graceful_run :
    let ls : List ConnLabel := [.connectEstablished, .send ⟨[1, 2, 3], by decide⟩ (.wrote 1),
      .shutdown, .send ⟨[4], by decide⟩ (.wrote 1), .handleRead (.delivered [7]),
      .handleWrite (.failed 11), .handleWrite (.wrote 2), .shutdown, .handleWrite (.wrote 0)]
    ∃ c, Run connMachine (new 7 false) ls c ∧ .shutdownWrite ∈ c.trace ∧
      c.trace.count .shutdownWrite ≤ 1 ∧ ShutdownCalled (new 7 false) ls ∧
      accepted c.trace = passed c.trace := by
  intro ls
  obtain ⟨c, hr, hmem⟩ : ∃ c, Run connMachine (new 7 false) ls c ∧ .shutdownWrite ∈ c.trace :=
    exists_run_of_exec _ (by decide +kernel)
  obtain ⟨honce, _, hiff⟩ := shutdown_graceful hr
  obtain ⟨hcalled, hall⟩ := hiff.mp hmem
  exact ⟨c, hr, hmem, honce, hcalled, hall⟩

end TcpConnection

end MuduoNet
