import MuduoNet.Tcp.Connection
import MuduoNet.Buffer.Spec
import MuduoNet.Lib.Machine

/-!
# The output path of a connection

A connection between `connectEstablished` and `handleClose`, driven by `sendInLoop`,
`handleWrite` and `shutdown` on its loop thread with any results of `::write`. The bytes
the socket accepted and the bytes still buffered are the bytes sent, and the writing flag
says whether any are buffered. A `std::length_error` ends a run.
-/
namespace MuduoNet.TcpConnection

open Lib Lib.Outcome

/-- The bytes the socket has accepted, in order. -/
def accepted (trace : List Effect) : List UInt8 :=
  trace.flatMap fun
    | .wrote bytes => bytes
    | _ => []

/-- The bytes passed to `sendInLoop`, in order. -/
def passed (trace : List Effect) : List UInt8 :=
  trace.flatMap fun
    | .sendInLoop bytes => bytes
    | _ => []

@[simp] theorem accepted_nil : accepted [] = [] := rfl

@[simp] theorem passed_nil : passed [] = [] := rfl

@[simp] theorem accepted_append (s t : List Effect) : accepted (s ++ t) = accepted s ++ accepted t :=
  List.flatMap_append

@[simp] theorem passed_append (s t : List Effect) : passed (s ++ t) = passed s ++ passed t :=
  List.flatMap_append

structure OutInv (c : TcpConnection) : Prop where
  wf : c.outputBuffer_.Wf
  bytes : accepted c.trace ++ c.outputBuffer_.readable = passed c.trace
  writing : c.channel_.isWriting = true ↔ c.outputBuffer_.readable ≠ []

/-- `d` moved no bytes: same buffer, and neither a write nor a send in what it added. -/
structure Quiet (c d : TcpConnection) : Prop where
  buffer : d.outputBuffer_ = c.outputBuffer_
  accepted_eq : accepted d.trace = accepted c.trace
  passed_eq : passed d.trace = passed c.trace

theorem Quiet.refl (c : TcpConnection) : Quiet c c := ⟨rfl, rfl, rfl⟩

theorem Quiet.trans {c d e : TcpConnection} (h : Quiet c d) (g : Quiet d e) : Quiet c e :=
  ⟨g.buffer.trans h.buffer, g.accepted_eq.trans h.accepted_eq, g.passed_eq.trans h.passed_eq⟩

theorem quiet_emit {c : TcpConnection} {e : Effect} (ha : accepted [e] = []) (hp : passed [e] = []) :
    Quiet c (c.emit e) := by
  refine ⟨rfl, ?_, ?_⟩
  · rw [emit, accepted_append, ha, List.append_nil]
  · rw [emit, passed_append, hp, List.append_nil]

theorem quiet_update (c : TcpConnection) (channel : Channel) : Quiet c (c.update channel) :=
  Quiet.trans (d := { c with channel_ := channel }) ⟨rfl, rfl, rfl⟩ (quiet_emit rfl rfl)

theorem quiet_notifyWriteComplete (c : TcpConnection) : Quiet c c.notifyWriteComplete := by
  unfold notifyWriteComplete
  split
  · exact quiet_emit rfl rfl
  · exact .refl c

theorem quiet_shutdownInLoop (c : TcpConnection) : Quiet c c.shutdownInLoop := by
  unfold shutdownInLoop
  split
  · exact .refl c
  · exact quiet_emit rfl rfl

@[simp] theorem channel_notifyWriteComplete (c : TcpConnection) :
    c.notifyWriteComplete.channel_ = c.channel_ := by
  unfold notifyWriteComplete
  split <;> rfl

@[simp] theorem channel_shutdownInLoop (c : TcpConnection) :
    c.shutdownInLoop.channel_ = c.channel_ := by
  unfold shutdownInLoop
  split <;> rfl

theorem quiet_drained (c : TcpConnection) : Quiet c c.drained := by
  have h := (quiet_update c c.channel_.disableWriting).trans (quiet_notifyWriteComplete _)
  unfold drained
  dsimp only
  split
  · exact h.trans (quiet_shutdownInLoop _)
  · exact h

@[simp] theorem isWriting_drained (c : TcpConnection) : c.drained.channel_.isWriting = false := by
  unfold drained
  dsimp only
  split
  · rw [channel_shutdownInLoop, channel_notifyWriteComplete]
    exact Channel.isWriting_disableWriting _
  · rw [channel_notifyWriteComplete]
    exact Channel.isWriting_disableWriting _

theorem Quiet.outInv {c d : TcpConnection} (h : Quiet c d) (hi : OutInv c)
    (hw : d.channel_.isWriting = c.channel_.isWriting) : OutInv d := by
  obtain ⟨hb, ha, hp⟩ := h
  refine ⟨hb ▸ hi.wf, ?_, ?_⟩
  · rw [ha, hb, hp]
    exact hi.bytes
  · rw [hw, hb]
    exact hi.writing

theorem shutdown_outInv {c : TcpConnection} (hi : OutInv c) : OutInv c.shutdown := by
  unfold shutdown
  split
  · have hs : Quiet c (c.setState .kDisconnecting) := ⟨rfl, rfl, rfl⟩
    refine (hs.trans (quiet_shutdownInLoop _)).outInv hi ?_
    rw [channel_shutdownInLoop]
    rfl
  · exact hi

@[simp] theorem accepted_wrote (c : TcpConnection) (bytes : List UInt8) :
    accepted (c.emit (.wrote bytes)).trace = accepted c.trace ++ bytes := by
  simp [emit, accepted]

@[simp] theorem passed_wrote (c : TcpConnection) (bytes : List UInt8) :
    passed (c.emit (.wrote bytes)).trace = passed c.trace := by
  simp [emit, passed]

/-- The end of `handleWrite`: the interest in writing is dropped in the very step that empties
the buffer. -/
theorem written_outInv {c : TcpConnection} (hwf : c.outputBuffer_.Wf)
    (hbytes : accepted c.trace ++ c.outputBuffer_.readable = passed c.trace)
    (hwriting : c.channel_.isWriting = true) :
    let d := if c.outputBuffer_.readableBytes = 0 then c.drained else c
    OutInv d ∧ passed d.trace = passed c.trace := by
  have hlen := Buffer.length_readable hwf
  by_cases hempty : c.outputBuffer_.readableBytes = 0
  · rw [if_pos hempty]
    obtain ⟨hb, ha, hp⟩ := quiet_drained c
    have hnil : c.outputBuffer_.readable = [] := List.eq_nil_of_length_eq_zero (hlen.trans hempty)
    refine ⟨⟨hb ▸ hwf, ?_, ?_⟩, hp⟩
    · rw [ha, hb, hp]
      exact hbytes
    · rw [isWriting_drained, hb]
      simp [hnil]
  · rw [if_neg hempty]
    have hne : c.outputBuffer_.readable ≠ [] := by
      intro hnil
      rw [hnil] at hlen
      exact hempty hlen.symm
    exact ⟨⟨hwf, hbytes, iff_of_true hwriting hne⟩, rfl⟩

/-- The end of `sendInLoop`: the interest in writing is there once bytes are buffered. -/
theorem buffered_outInv {c : TcpConnection} (hwf : c.outputBuffer_.Wf)
    (hbytes : accepted c.trace ++ c.outputBuffer_.readable = passed c.trace)
    (hne : c.outputBuffer_.readable ≠ []) :
    let d := if c.channel_.isWriting then c else c.update c.channel_.enableWriting
    OutInv d ∧ passed d.trace = passed c.trace := by
  by_cases hwriting : c.channel_.isWriting = true
  · rw [if_pos hwriting]
    exact ⟨⟨hwf, hbytes, iff_of_true hwriting hne⟩, rfl⟩
  · rw [if_neg hwriting]
    obtain ⟨hb, ha, hp⟩ := quiet_update c c.channel_.enableWriting
    refine ⟨⟨hb ▸ hwf, ?_, ?_⟩, hp⟩
    · rw [ha, hb, hp]
      exact hbytes
    · rw [hb]
      exact iff_of_true (Channel.isWriting_enableWriting _) hne

/-- A `handleWrite` moves a front part of the buffer to the socket. -/
theorem handleWrite_sat {c : TcpConnection} (hi : OutInv c) {w : WriteResult}
    (hw : ∀ n, w = .wrote n → n ≤ c.outputBuffer_.readableBytes) :
    Sat Nothing (c.handleWrite w) (fun d => OutInv d ∧ passed d.trace = passed c.trace) := by
  obtain ⟨hwf, hbytes, hwr⟩ := hi
  unfold handleWrite
  by_cases hwriting : c.channel_.isWriting = true
  · rw [if_pos hwriting]
    cases w with
    | failed errno =>
      have hq : Quiet c (c.emit (.writeFailed errno)) := quiet_emit rfl rfl
      exact ⟨hq.outInv ⟨hwf, hbytes, hwr⟩ rfl, hq.passed_eq⟩
    | wrote n =>
      have hn : n ≤ c.outputBuffer_.readable.length := by
        rw [Buffer.length_readable hwf]
        exact hw n rfl
      dsimp only
      by_cases hpos : 0 < n
      · rw [if_pos hpos]
        refine sat_bind (Buffer.retrieve_sat hwf hn) ?_
        intro output ⟨hwf', hread⟩
        let d : TcpConnection :=
          { c.emit (.wrote (c.outputBuffer_.readable.take n)) with outputBuffer_ := output }
        have hp : passed d.trace = passed c.trace := passed_wrote c _
        have hd : accepted d.trace ++ d.outputBuffer_.readable = passed d.trace := by
          rw [hp, show accepted d.trace = _ from accepted_wrote c _]
          change _ ++ output.readable = _
          rw [hread, List.append_assoc, List.take_append_drop, hbytes]
        obtain ⟨hinv, hpassed⟩ := written_outInv (c := d) hwf' hd hwriting
        exact ⟨hinv, hpassed.trans hp⟩
      · rw [if_neg hpos]
        have h0 : n = 0 := by omega
        subst h0
        refine ⟨⟨hwf, ?_, hwr⟩, passed_wrote c _⟩
        rw [accepted_wrote, passed_wrote, List.take_zero, List.append_nil]
        exact hbytes
  · rw [if_neg hwriting]
    exact ⟨⟨hwf, hbytes, hwr⟩, rfl⟩

/-- The direct attempt of `sendInLoop` hands a front part of the message to the socket. -/
theorem directWrite_spec (c : TcpConnection) (message : List UInt8) {w : WriteResult}
    (hw : ∀ n, w = .wrote n → n ≤ message.length) :
    let r := c.directWrite message w
    r.1 ≤ message.length ∧ r.2.outputBuffer_ = c.outputBuffer_ ∧ r.2.channel_ = c.channel_ ∧
      passed r.2.trace = passed c.trace ∧
      accepted r.2.trace = accepted c.trace ++ message.take r.1 := by
  cases w with
  | failed errno =>
    refine ⟨Nat.zero_le _, rfl, rfl, ?_, ?_⟩
    · simp [directWrite, emit, passed]
    · simp [directWrite, emit, accepted]
  | wrote n =>
    have hacc := accepted_wrote c (message.take n)
    have hpas := passed_wrote c (message.take n)
    refine ⟨hw n rfl, ?_⟩
    dsimp only [directWrite]
    split
    · exact ⟨rfl, rfl, hpas, hacc⟩
    · obtain ⟨hb, ha, hp⟩ := quiet_notifyWriteComplete (c.emit (.wrote (message.take n)))
      exact ⟨hb, channel_notifyWriteComplete _, hp.trans hpas, ha.trans hacc⟩

/-- The direct and the buffered path agree: the direct one is taken only when nothing is
buffered, so what it writes is next in order. -/
theorem writeFirst_spec {c : TcpConnection} (hwf : c.outputBuffer_.Wf) (message : List UInt8)
    {w : WriteResult} (hw : ∀ n, w = .wrote n → n ≤ message.length) :
    let r := c.writeFirst message w
    r.1 ≤ message.length ∧ r.2.outputBuffer_ = c.outputBuffer_ ∧ r.2.channel_ = c.channel_ ∧
      passed r.2.trace = passed c.trace ∧
      accepted r.2.trace ++ (c.outputBuffer_.readable ++ message.drop r.1) =
        accepted c.trace ++ (c.outputBuffer_.readable ++ message) := by
  unfold writeFirst
  split
  · rename_i hdirect
    have hlen := Buffer.length_readable hwf
    rw [hdirect.2] at hlen
    obtain ⟨hn, hb, hc, hp, ha⟩ := directWrite_spec c message hw
    refine ⟨hn, hb, hc, hp, ?_⟩
    rw [List.eq_nil_of_length_eq_zero hlen, ha, List.nil_append, List.nil_append,
      List.append_assoc, List.take_append_drop]
  · exact ⟨Nat.zero_le _, rfl, rfl, rfl, rfl⟩

theorem sendInLoop_sat {c : TcpConnection} (hi : OutInv c) (message : Span) {w : WriteResult}
    (hw : ∀ n, w = .wrote n → n ≤ message.bytes.length) :
    Sat (Buffer.Exhausted (c.outputBuffer_.readable.length + message.bytes.length))
      (c.sendInLoop message.bytes w)
      (fun d => OutInv d ∧ passed d.trace = passed c.trace ++ message.bytes) := by
  obtain ⟨hwf, hbytes, hwr⟩ := hi
  have hacc : accepted (c.emit (.sendInLoop message.bytes)).trace = accepted c.trace := by
    simp [emit, accepted]
  have hpas : passed (c.emit (.sendInLoop message.bytes)).trace =
      passed c.trace ++ message.bytes := by simp [emit, passed]
  have hfirst := writeFirst_spec (c := c.emit (.sendInLoop message.bytes)) hwf message.bytes hw
  unfold sendInLoop
  generalize (c.emit (.sendInLoop message.bytes)).writeFirst message.bytes w = r at hfirst ⊢
  obtain ⟨nwrote, d⟩ := r
  obtain ⟨hn, hb, hc, hp, ha⟩ := hfirst
  have hpd : passed d.trace = passed c.trace ++ message.bytes := hp.trans hpas
  have hbd : d.outputBuffer_ = c.outputBuffer_ := hb
  have hcd : d.channel_ = c.channel_ := hc
  have hall : accepted d.trace ++ (c.outputBuffer_.readable ++ message.bytes.drop nwrote) =
      passed d.trace := by
    rw [hpd, ← hbytes, List.append_assoc]
    exact ha.trans (by rw [hacc]; rfl)
  dsimp only
  by_cases hpart : nwrote < message.bytes.length
  · rw [if_pos hpart]
    have hrest : (message.bytes.drop nwrote).length = message.bytes.length - nwrote :=
      List.length_drop
    have hfit : (message.bytes.drop nwrote).length ≤ maxSize := by
      have := message.fits
      omega
    have happ := Buffer.append_sat hwf (Buffer.span_end_lt hwf hfit)
    rw [← hbd] at happ
    refine sat_bind (sat_mono happ (fun f hf => ?_) (fun _ h => h)) ?_
    · rw [hbd] at hf
      exact hf.mono (by omega)
    · intro output ⟨hwf', hread⟩
      rw [hbd] at hread
      let e : TcpConnection := { d with outputBuffer_ := output }
      have he : accepted e.trace ++ e.outputBuffer_.readable = passed e.trace := by
        change accepted d.trace ++ output.readable = passed d.trace
        rw [hread]
        exact hall
      have hne : output.readable ≠ [] := by
        intro hnil
        have hlen := congrArg List.length hread
        rw [hnil, List.length_nil, List.length_append] at hlen
        omega
      obtain ⟨hinv, hpassed⟩ := buffered_outInv (c := e) hwf' he hne
      exact ⟨hinv, hpassed.trans hpd⟩
  · rw [if_neg hpart]
    rw [List.drop_of_length_le (by omega), List.append_nil] at hall
    refine ⟨⟨hbd ▸ hwf, ?_, ?_⟩, hpd⟩
    · rw [hbd]
      exact hall
    · rw [hcd, hbd]
      exact hwr

/-- What happens to the output path on the loop thread. -/
inductive OutLabel
  | sendInLoop (message : Span) (w : WriteResult)
  | handleWrite (w : WriteResult)
  | shutdown

/-- `::write` accepts at most what it was given. -/
def OutEnabled (c : TcpConnection) : OutLabel → Prop
  | .sendInLoop message (.wrote n) => n ≤ message.bytes.length
  | .handleWrite (.wrote n) => n ≤ c.outputBuffer_.readableBytes
  | .sendInLoop _ (.failed _) | .handleWrite (.failed _) | .shutdown => True

def outMachine : Machine TcpConnection OutLabel Fault where
  enabled := OutEnabled
  step c
    | .sendInLoop message w => c.sendInLoop message.bytes w
    | .handleWrite w => c.handleWrite w
    | .shutdown => .ok c.shutdown

/-- The bytes a label passes to `sendInLoop`. -/
def OutLabel.message : OutLabel → List UInt8
  | .sendInLoop message _ => message.bytes
  | .handleWrite _ | .shutdown => []

theorem shutdown_passed (c : TcpConnection) : passed c.shutdown.trace = passed c.trace := by
  unfold shutdown
  split
  · exact (quiet_shutdownInLoop _).passed_eq
  · rfl

theorem outMachine_sat {c : TcpConnection} (hi : OutInv c) {l : OutLabel} (he : OutEnabled c l) :
    Sat (Buffer.Exhausted (c.outputBuffer_.readable.length + l.message.length))
      (outMachine.step c l) (fun d => OutInv d ∧ passed d.trace = passed c.trace ++ l.message) := by
  cases l with
  | sendInLoop message w =>
    refine sendInLoop_sat hi message ?_
    rintro n rfl
    exact he
  | handleWrite w =>
    have hw : ∀ n, w = .wrote n → n ≤ c.outputBuffer_.readableBytes := by
      rintro n rfl
      exact he
    refine sat_mono (handleWrite_sat hi hw) (fun _ => False.elim) ?_
    intro d ⟨hd, hp⟩
    exact ⟨hd, by rw [hp]; exact (List.append_nil _).symm⟩
  | shutdown =>
    refine ⟨shutdown_outInv hi, ?_⟩
    rw [shutdown_passed]
    exact (List.append_nil _).symm

/-- The connection once `connectEstablished` has run. -/
theorem established_outInv {fd : Int} {wc : Bool} {c : TcpConnection}
    (h : (new fd wc).connectEstablished = .ok c) : OutInv c ∧ passed c.trace = [] := by
  obtain rfl := Except.ok.inj h
  exact ⟨⟨Buffer.wf_new, rfl, by simp [emit, update, setState, new]⟩, rfl⟩

/-- Every run from `connectEstablished` on: what the socket accepted and what is buffered are
the messages passed to `sendInLoop`, in order, and the channel writes exactly while bytes
are buffered. -/
theorem output_conserved {fd : Int} {wc : Bool} {c₀ c : TcpConnection} {ls : List OutLabel}
    (h₀ : (new fd wc).connectEstablished = .ok c₀) (h : Run outMachine c₀ ls c) :
    accepted c.trace ++ c.outputBuffer_.readable = ls.flatMap OutLabel.message ∧
      (c.channel_.isWriting = true ↔ c.outputBuffer_.readable ≠ []) := by
  obtain ⟨hi₀, hp₀⟩ := established_outInv h₀
  have hrun : OutInv c ∧ passed c.trace = ls.foldl (fun sent l => sent ++ l.message) [] := by
    refine Run.simulates (M := outMachine)
      (R := fun c sent => OutInv c ∧ passed c.trace = sent) ?_ h ⟨hi₀, hp₀⟩
    rintro s l t sent ⟨hi, rfl⟩ he hs
    exact (outMachine_sat hi he).of_ok hs
  obtain ⟨hi, hp⟩ := hrun
  refine ⟨?_, hi.writing⟩
  rw [hi.bytes, hp, List.flatMap_eq_foldl]

instance (c : TcpConnection) (l : OutLabel) : Decidable (outMachine.enabled c l) :=
  match l with
  | .sendInLoop message (.wrote n) => inferInstanceAs (Decidable (n ≤ message.bytes.length))
  | .handleWrite (.wrote n) => inferInstanceAs (Decidable (n ≤ c.outputBuffer_.readableBytes))
  | .sendInLoop _ (.failed _) | .handleWrite (.failed _) | .shutdown => isTrue trivial

/-- A partial direct write, a send behind it, a failed write and a drain in two parts. -/
theorem output_conserved_run :
    let ls : List OutLabel := [.sendInLoop ⟨[1, 2, 3], by decide⟩ (.wrote 1),
      .sendInLoop ⟨[4], by decide⟩ (.wrote 1), .handleWrite (.failed 11), .handleWrite (.wrote 1),
      .handleWrite (.wrote 2), .sendInLoop ⟨[5], by decide⟩ (.wrote 1)]
    ∃ c₀ c, (new 7 true).connectEstablished = .ok c₀ ∧ Run outMachine c₀ ls c ∧
      accepted c.trace ++ c.outputBuffer_.readable = [1, 2, 3, 4, 5] ∧
      (c.channel_.isWriting = true ↔ c.outputBuffer_.readable ≠ []) := by
  intro ls
  let c₁ : TcpConnection := (new 7 true).setState .kConnected
  let c₀ : TcpConnection := (c₁.update c₁.channel_.enableReading).emit (.connectionCallback true)
  have h₀ : (new 7 true).connectEstablished = .ok c₀ := rfl
  obtain ⟨c, hr, _⟩ : ∃ c, Run outMachine c₀ ls c ∧ True :=
    exists_run_of_exec (fun _ => True) (by decide +kernel)
  obtain ⟨hbytes, hwriting⟩ := output_conserved h₀ hr
  exact ⟨c₀, c, h₀, hr, hbytes, hwriting⟩

end MuduoNet.TcpConnection
