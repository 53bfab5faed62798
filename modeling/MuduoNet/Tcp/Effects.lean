import MuduoNet.Tcp.Output

/-!
# What each function of a connection asks for

Most functions leave the state alone, hand the channel to the loop at most once, and make no
callback about the connection's life. The others are spelled out.
-/
namespace MuduoNet

/-- Not about the life of the connection. -/
def Effect.Ordinary : Effect → Prop
  | .connectionCallback _ | .closeCallback | .removeChannel => False
  | _ => True

/-- The interests handed to `channel_->update()`. -/
def updates (es : List Effect) : List (BitVec 32) :=
  es.filterMap fun
    | .updateChannel events => some events
    | _ => none

namespace TcpConnection

open Lib Lib.Outcome

structure WfBuffers (c : TcpConnection) : Prop where
  input : c.inputBuffer_.Wf
  output : c.outputBuffer_.Wf

/-- `d` is `c` after ordinary effects, with the interest `u` handed to the loop if there is
one. -/
structure Ordinary (u : Option (BitVec 32)) (c d : TcpConnection) : Prop where
  state : d.state_ = c.state_
  trace : ∃ es, d.trace = c.trace ++ es ∧ updates es = u.toList ∧ ∀ e ∈ es, e.Ordinary
  channel : u.elim (d.channel_ = c.channel_) (fun events => d.channel_.events_ = events)

section

variable {u : Option (BitVec 32)} {c d e : TcpConnection}

theorem Ordinary.of_trace {es : List Effect} (hstate : d.state_ = c.state_)
    (hchannel : d.channel_ = c.channel_) (htrace : d.trace = c.trace ++ es)
    (hupdates : updates es = []) (hes : ∀ e ∈ es, e.Ordinary) : Ordinary none c d :=
  ⟨hstate, ⟨es, htrace, hupdates, hes⟩, hchannel⟩

theorem Ordinary.refl (c : TcpConnection) : Ordinary none c c :=
  .of_trace rfl rfl (List.append_nil _).symm rfl (by simp)

theorem Ordinary.trans (h : Ordinary none c d) (g : Ordinary u d e) : Ordinary u c e := by
  obtain ⟨es, hd, hu, hes⟩ := h.trace
  obtain ⟨fs, he, hv, hfs⟩ := g.trace
  have hchannel : d.channel_ = c.channel_ := h.channel
  refine ⟨g.state.trans h.state, ⟨es ++ fs, ?_, ?_, ?_⟩, ?_⟩
  · rw [he, hd, List.append_assoc]
  · rw [← hv, updates, List.filterMap_append, show List.filterMap _ es = [] from hu]
    rfl
  · simpa [or_imp, forall_and] using ⟨hes, hfs⟩
  · rw [← hchannel]
    exact g.channel

/-- What follows the hand-over of the channel leaves the channel alone. -/
theorem Ordinary.then (h : Ordinary u c d) (g : Ordinary none d e) : Ordinary u c e := by
  obtain ⟨es, hd, hu, hes⟩ := h.trace
  obtain ⟨fs, he, hv, hfs⟩ := g.trace
  have hchannel : e.channel_ = d.channel_ := g.channel
  refine ⟨g.state.trans h.state, ⟨es ++ fs, ?_, ?_, ?_⟩, ?_⟩
  · rw [he, hd, List.append_assoc]
  · rw [← hu, updates, List.filterMap_append, show List.filterMap _ fs = [] from hv]
    exact List.append_nil _
  · simpa [or_imp, forall_and] using ⟨hes, hfs⟩
  · rw [hchannel]
    exact h.channel

theorem ordinary_emit {e : Effect} (hu : updates [e] = []) (he : e.Ordinary) :
    Ordinary none c (c.emit e) :=
  .of_trace rfl rfl rfl hu (by simpa using he)

theorem ordinary_outputBuffer (output : Buffer) : Ordinary none c { c with outputBuffer_ := output } :=
  .of_trace rfl rfl (List.append_nil _).symm rfl (by simp)

theorem ordinary_inputBuffer (input : Buffer) : Ordinary none c { c with inputBuffer_ := input } :=
  .of_trace rfl rfl (List.append_nil _).symm rfl (by simp)

theorem ordinary_update (channel : Channel) :
    Ordinary (some channel.events_) c (c.update channel) :=
  ⟨rfl, ⟨_, rfl, rfl, List.forall_mem_singleton.mpr trivial⟩, rfl⟩

theorem ordinary_notifyWriteComplete (c : TcpConnection) : Ordinary none c c.notifyWriteComplete := by
  unfold notifyWriteComplete
  split
  · exact ordinary_emit rfl trivial
  · exact .refl c

theorem ordinary_shutdownInLoop (c : TcpConnection) : Ordinary none c c.shutdownInLoop := by
  unfold shutdownInLoop
  split
  · exact .refl c
  · exact ordinary_emit rfl trivial

theorem ordinary_drained (c : TcpConnection) :
    Ordinary (some c.channel_.disableWriting.events_) c c.drained := by
  have h := (ordinary_update (c := c) c.channel_.disableWriting).then
    (ordinary_notifyWriteComplete _)
  unfold drained
  dsimp only
  split
  · exact h.then (ordinary_shutdownInLoop _)
  · exact h

@[simp] theorem inputBuffer_notifyWriteComplete (c : TcpConnection) :
    c.notifyWriteComplete.inputBuffer_ = c.inputBuffer_ := by
  unfold notifyWriteComplete
  split <;> rfl

@[simp] theorem inputBuffer_shutdownInLoop (c : TcpConnection) :
    c.shutdownInLoop.inputBuffer_ = c.inputBuffer_ := by
  unfold shutdownInLoop
  split <;> rfl

@[simp] theorem inputBuffer_drained (c : TcpConnection) : c.drained.inputBuffer_ = c.inputBuffer_ := by
  unfold drained
  dsimp only
  split <;> simp [update, emit]

theorem WfBuffers.congr (h : WfBuffers c) (hin : d.inputBuffer_ = c.inputBuffer_)
    (hout : d.outputBuffer_ = c.outputBuffer_) : WfBuffers d :=
  ⟨hin ▸ h.input, hout ▸ h.output⟩

theorem shutdownInLoop_wf (h : WfBuffers c) : WfBuffers c.shutdownInLoop :=
  h.congr (by simp) (quiet_shutdownInLoop c).buffer

theorem handleWrite_ordinary (hwf : WfBuffers c) {w : WriteResult}
    (hw : ∀ n, w = .wrote n → n ≤ c.outputBuffer_.readableBytes) :
    Sat Nothing (c.handleWrite w) (fun d => WfBuffers d ∧
      (c.channel_.isWriting = false → d = c) ∧ ∃ u, Ordinary u c d) := by
  unfold handleWrite
  by_cases hwriting : c.channel_.isWriting = true
  · rw [if_pos hwriting]
    cases w with
    | failed errno =>
      exact ⟨hwf.congr rfl rfl, by simp [hwriting], none, ordinary_emit rfl trivial⟩
    | wrote n =>
      have hn : n ≤ c.outputBuffer_.readable.length := by
        rw [Buffer.length_readable hwf.output]
        exact hw n rfl
      have hemit : Ordinary none c (c.emit (.wrote (c.outputBuffer_.readable.take n))) :=
        ordinary_emit rfl trivial
      dsimp only
      by_cases hpos : 0 < n
      · rw [if_pos hpos]
        refine sat_bind (Buffer.retrieve_sat hwf.output hn) ?_
        rintro output ⟨hwf', _⟩
        have hout := hemit.trans (ordinary_outputBuffer output)
        refine ⟨?_, by simp [hwriting], ?_⟩
        · split
          · refine ⟨?_, ?_⟩
            · rw [inputBuffer_drained]
              exact hwf.input
            · rw [(quiet_drained _).buffer]
              exact hwf'
          · exact ⟨hwf.input, hwf'⟩
        · split
          · exact ⟨_, hout.trans (ordinary_drained _)⟩
          · exact ⟨none, hout⟩
      · rw [if_neg hpos]
        exact ⟨hwf.congr rfl rfl, by simp [hwriting], none, hemit⟩
  · rw [if_neg hwriting]
    exact ⟨hwf, fun _ => rfl, none, .refl c⟩

theorem directWrite_ordinary (c : TcpConnection) (message : List UInt8) (w : WriteResult) :
    Ordinary none c (c.directWrite message w).2 ∧
      (c.directWrite message w).2.inputBuffer_ = c.inputBuffer_ := by
  cases w with
  | failed errno => exact ⟨ordinary_emit rfl trivial, rfl⟩
  | wrote n =>
    have hemit : Ordinary none c (c.emit (.wrote (message.take n))) := ordinary_emit rfl trivial
    dsimp only [directWrite]
    split
    · exact ⟨hemit, rfl⟩
    · refine ⟨hemit.trans (ordinary_notifyWriteComplete _), ?_⟩
      rw [inputBuffer_notifyWriteComplete]
      rfl

theorem writeFirst_ordinary (c : TcpConnection) (message : List UInt8) (w : WriteResult) :
    Ordinary none c (c.writeFirst message w).2 ∧
      (c.writeFirst message w).2.inputBuffer_ = c.inputBuffer_ := by
  unfold writeFirst
  split
  · exact directWrite_ordinary _ _ _
  · exact ⟨.refl c, rfl⟩

/-- A `sendInLoop` that leaves nothing to be written later: the message is empty, or `::write`
is called and accepts all of it. -/
def Finishes (c : TcpConnection) (message : List UInt8) (w : WriteResult) : Prop :=
  message = [] ∨ c.channel_.isWriting = false ∧ c.outputBuffer_.readableBytes = 0 ∧
    w = .wrote message.length

theorem Finishes.count {message : List UInt8} {w : WriteResult} (h : c.Finishes message w) :
    message.length ≤ (c.writeFirst message w).1 := by
  rcases h with rfl | ⟨hwriting, hempty, rfl⟩
  · exact Nat.zero_le _
  · rw [writeFirst, if_pos (by simp [hwriting, hempty])]
    exact Nat.le_refl _

theorem sendInLoop_ordinary (hwf : WfBuffers c) (message : Span) {w : WriteResult}
    (hw : ∀ n, w = .wrote n → n ≤ message.bytes.length) :
    Sat (· = .lengthError) (c.sendInLoop message.bytes w) (fun d => WfBuffers d ∧
      ∃ u, Ordinary u c d ∧ (c.Finishes message.bytes w → u = none)) := by
  have hemit : Ordinary none c (c.emit (.sendInLoop message.bytes)) := ordinary_emit rfl trivial
  have hspec := writeFirst_spec (c := c.emit (.sendInLoop message.bytes)) hwf.output message.bytes hw
  have hord := writeFirst_ordinary (c.emit (.sendInLoop message.bytes)) message.bytes w
  have hfin : c.Finishes message.bytes w →
      message.bytes.length ≤ ((c.emit (.sendInLoop message.bytes)).writeFirst message.bytes w).1 :=
    fun h => Finishes.count (c := c.emit (.sendInLoop message.bytes)) h
  unfold sendInLoop
  generalize (c.emit (.sendInLoop message.bytes)).writeFirst message.bytes w = r
    at hspec hord hfin ⊢
  obtain ⟨nwrote, d⟩ := r
  obtain ⟨_, hb, _⟩ := hspec
  obtain ⟨hd, hin⟩ := hord
  have hcd := hemit.trans hd
  have hbd : d.outputBuffer_ = c.outputBuffer_ := hb
  have hid : d.inputBuffer_ = c.inputBuffer_ := hin
  dsimp only at hfin ⊢
  by_cases hpart : nwrote < message.bytes.length
  · rw [if_pos hpart]
    have hfit : (message.bytes.drop nwrote).length ≤ maxSize := by
      have := message.fits
      rw [List.length_drop]
      omega
    have happ := Buffer.append_sat hwf.output (Buffer.span_end_lt hwf.output hfit)
    rw [← hbd] at happ
    refine sat_bind (sat_mono happ (fun _ hf => hf.1) (fun _ h => h)) ?_
    rintro output ⟨hwf', _⟩
    have hout := hcd.trans (ordinary_outputBuffer output)
    have hnot : ¬ c.Finishes message.bytes w := fun h => absurd (hfin h) (by omega)
    split
    · exact ⟨⟨hid ▸ hwf.input, hwf'⟩, none, hout, fun _ => rfl⟩
    · exact ⟨⟨hid ▸ hwf.input, hwf'⟩, _, hout.trans (ordinary_update _),
        fun h => absurd h hnot⟩
  · rw [if_neg hpart]
    exact ⟨hwf.congr hid hbd, none, hcd, fun _ => rfl⟩

/-- `readv` fills at most the tail of the buffer and the stack area. -/
def CanRead (c : TcpConnection) : Buffer.ReadvResult → Prop
  | .delivered bytes => bytes.length ≤ c.inputBuffer_.writableBytes + Buffer.kExtrabuf
  | .failed _ => True

theorem handleRead_ordinary (hwf : WfBuffers c) {r : Buffer.ReadvResult} (hr : c.CanRead r)
    (hne : r ≠ .delivered []) :
    Sat (· = .lengthError) (c.handleRead r) (fun d => WfBuffers d ∧ Ordinary none c d) := by
  cases r with
  | failed errno => exact ⟨hwf, ordinary_inputBuffer c.inputBuffer_⟩
  | delivered bytes =>
    refine sat_bind (sat_mono (Buffer.readFd_delivered_sat hwf.input hr) (fun _ hf => hf.1)
      (fun _ h => h)) ?_
    rintro ⟨res, input⟩ ⟨hres, hwf', _⟩
    dsimp only at hres hwf' ⊢
    have hlen : bytes.length ≠ 0 := by simpa using hne
    have hpos : 0 < res.n := by
      rw [hres]
      show (0 : Int) < bytes.length
      omega
    rw [if_pos hpos]
    exact ⟨⟨hwf', hwf.output⟩, (ordinary_inputBuffer input).trans (ordinary_emit rfl trivial)⟩

/-- At the end of the stream `handleRead` closes. -/
theorem handleRead_eof (hwf : WfBuffers c) : ∃ input : Buffer, input.Wf ∧
    c.handleRead (.delivered []) = ({ c with inputBuffer_ := input }).handleClose := by
  have hcap : ([] : List UInt8).length ≤ c.inputBuffer_.writableBytes + Buffer.kExtrabuf :=
    Nat.zero_le _
  have hread := Buffer.readFd_delivered_sat hwf.input hcap
  obtain ⟨⟨res, input⟩, hok⟩ : ∃ r, c.inputBuffer_.readFd (.delivered []) = .ok r := by
    rw [Buffer.readFd, List.length_nil, if_pos (Nat.zero_le _)]
    exact ⟨_, rfl⟩
  obtain ⟨hres, hwf', _⟩ := hread.of_ok hok
  dsimp only at hres
  refine ⟨input, hwf', ?_⟩
  unfold handleRead
  rw [hok, hres]
  rfl

theorem connectEstablished_eq (h : c.state_ = .kConnecting) (ht : c.trace = []) :
    c.connectEstablished = .ok { c with
      state_ := .kConnected
      channel_ := c.channel_.enableReading
      trace := [.updateChannel c.channel_.enableReading.events_, .connectionCallback true] } := by
  unfold connectEstablished MuduoNet.assert
  rw [demand_true h]
  simp [setState, connected, update, emit, ht]

theorem connectDestroyed_eq (h : c.state_ = .kConnected ∨ c.state_ = .kDisconnecting)
    (ht : c.trace = []) :
    c.connectDestroyed = .ok { c with
      state_ := .kDisconnected
      channel_ := c.channel_.disableAll
      trace := [.updateChannel Channel.kNoneEvent, .connectionCallback false, .removeChannel] } := by
  unfold connectDestroyed MuduoNet.assert
  rw [demand_true h]
  simp [setState, update, emit, Channel.disableAll, ht]

theorem handleClose_eq (h : c.state_ = .kConnected ∨ c.state_ = .kDisconnecting)
    (ht : c.trace = []) :
    c.handleClose = .ok { c with
      channel_ := c.channel_.disableAll
      trace := [.updateChannel Channel.kNoneEvent, .closeCallback] } := by
  unfold handleClose MuduoNet.assert
  rw [demand_true h]
  simp [update, emit, Channel.disableAll, ht]

end

end TcpConnection

end MuduoNet
