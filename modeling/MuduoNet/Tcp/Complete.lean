import MuduoNet.Tcp.Output

/-!
# One notification for each busy period

A connection is busy from a send that finds no byte unsent to the first step that leaves none.
The watcher counts the periods that have ended, from the bytes passed and the bytes accepted
alone. The direct write and the draining `handleWrite` queue the write-complete callback in
different places; together they queue it once for each period, in its last step.
-/
namespace MuduoNet.TcpConnection

open Lib Lib.Outcome

/-- The bytes passed to `sendInLoop` that the socket has not accepted. -/
def unsent (c : TcpConnection) : List UInt8 := (passed c.trace).drop (accepted c.trace).length

theorem OutInv.unsent_eq {c : TcpConnection} (h : OutInv c) : unsent c = c.outputBuffer_.readable := by
  rw [unsent, ← h.bytes, List.drop_left]

def OutLabel.sends : OutLabel → Bool
  | .sendInLoop _ _ => true
  | .handleWrite _ | .shutdown => false

/-- A connection whose busy periods are counted. -/
structure Watched where
  conn : TcpConnection
  busy : Bool
  finished : Nat

namespace Watched

/-- A busy period is under way in this step, or begins with it. -/
def inPeriod (s : Watched) (l : OutLabel) : Bool := s.busy || (l.sends && (unsent s.conn).isEmpty)

/-- The connection after a step; the period ends if no byte is left unsent. -/
def next (s : Watched) (l : OutLabel) (conn : TcpConnection) : Watched :=
  if unsent conn = [] then ⟨conn, false, s.finished + (s.inPeriod l).toNat⟩
  else ⟨conn, s.inPeriod l, s.finished⟩

/-- The messages are not empty. -/
def machine : Machine Watched OutLabel Fault where
  enabled s l := OutEnabled s.conn l ∧ (l.sends = true → l.message ≠ [])
  step s l := (outMachine.step s.conn l).map (s.next l)

end Watched

/-- How often the write-complete callback was queued. -/
def notifications (c : TcpConnection) : Nat := c.trace.count .queueWriteComplete

/-- From `c` to `d` the write-complete callback is queued `n` times. -/
structure Notifies (n : Nat) (c d : TcpConnection) : Prop where
  callback : d.writeCompleteCallback_ = c.writeCompleteCallback_
  count : notifications d = notifications c + n

section

variable {c d e : TcpConnection} {m n : Nat}

theorem Notifies.refl (c : TcpConnection) : Notifies 0 c c := ⟨rfl, rfl⟩

theorem Notifies.trans (h : Notifies m c d) (g : Notifies n d e) : Notifies (m + n) c e :=
  ⟨g.callback.trans h.callback, by rw [g.count, h.count, Nat.add_assoc]⟩

theorem Notifies.quiet (h : Notifies m c d) (g : Notifies 0 d e) : Notifies m c e := h.trans g

theorem Notifies.after (h : Notifies 0 c d) (g : Notifies n d e) : Notifies n c e := by
  have ht := h.trans g
  rwa [Nat.zero_add] at ht

theorem notifies_emit {x : Effect} (h : x ≠ .queueWriteComplete) : Notifies 0 c (c.emit x) := by
  refine ⟨rfl, ?_⟩
  rw [notifications, emit, List.count_append, List.count_singleton, if_neg (by simpa using h)]
  rfl

theorem notifies_update (channel : Channel) : Notifies 0 c (c.update channel) :=
  (show Notifies 0 c { c with channel_ := channel } from ⟨rfl, rfl⟩).quiet (notifies_emit nofun)

theorem notifies_notifyWriteComplete (h : c.writeCompleteCallback_ = true) :
    Notifies 1 c c.notifyWriteComplete := by
  rw [notifyWriteComplete, if_pos h]
  refine ⟨rfl, ?_⟩
  rw [notifications, emit, List.count_append]
  rfl

theorem notifies_shutdownInLoop (c : TcpConnection) : Notifies 0 c c.shutdownInLoop := by
  unfold shutdownInLoop
  split
  · exact .refl c
  · exact notifies_emit nofun

theorem notifies_drained (h : c.writeCompleteCallback_ = true) : Notifies 1 c c.drained := by
  have hupdate : Notifies 0 c (c.update c.channel_.disableWriting) := notifies_update _
  have hnotifies := hupdate.after (notifies_notifyWriteComplete (hupdate.callback.trans h))
  unfold drained
  dsimp only
  split
  · exact hnotifies.quiet (notifies_shutdownInLoop _)
  · exact hnotifies

theorem notifies_shutdown (c : TcpConnection) : Notifies 0 c c.shutdown := by
  unfold shutdown
  split
  · exact (show Notifies 0 c (c.setState .kDisconnecting) from ⟨rfl, rfl⟩).quiet
      (notifies_shutdownInLoop _)
  · exact .refl c

/-- `handleWrite` notifies when it takes the last byte out of the buffer. -/
theorem handleWrite_notifies (hi : OutInv c) (hset : c.writeCompleteCallback_ = true) {w : WriteResult}
    (hw : ∀ n, w = .wrote n → n ≤ c.outputBuffer_.readableBytes) (h : c.handleWrite w = .ok d) :
    Notifies (if c.outputBuffer_.readable ≠ [] ∧ d.outputBuffer_.readable = [] then 1 else 0) c d := by
  obtain ⟨hwf, _, hwr⟩ := hi
  unfold handleWrite at h
  by_cases hwriting : c.channel_.isWriting = true
  · have hne := hwr.mp hwriting
    rw [if_pos hwriting] at h
    cases w with
    | failed errno =>
      cases h
      rw [if_neg fun hboth => hne hboth.2]
      exact notifies_emit nofun
    | wrote n =>
      have hemit : Notifies 0 c (c.emit (.wrote (c.outputBuffer_.readable.take n))) :=
        notifies_emit nofun
      dsimp only at h
      by_cases hpos : 0 < n
      · rw [if_pos hpos] at h
        obtain ⟨output, hretrieve, h⟩ := bind_eq_ok h
        have hn : n ≤ c.outputBuffer_.readable.length := by
          rw [Buffer.length_readable hwf]
          exact hw n rfl
        obtain ⟨hwf', _⟩ := (Buffer.retrieve_sat hwf hn).of_ok hretrieve
        have hlen := Buffer.length_readable hwf'
        have hbuffer : Notifies 0 c { c.emit (.wrote (c.outputBuffer_.readable.take n)) with
            outputBuffer_ := output } := hemit.quiet ⟨rfl, rfl⟩
        cases h
        by_cases hempty : output.readableBytes = 0
        · have hnil : output.readable = [] := List.eq_nil_of_length_eq_zero (hlen.trans hempty)
          rw [if_pos hempty, (quiet_drained _).buffer, if_pos ⟨hne, hnil⟩]
          exact hbuffer.after (notifies_drained (hbuffer.callback.trans hset))
        · have hsome : output.readable ≠ [] := by
            intro hnil
            rw [hnil] at hlen
            exact hempty hlen.symm
          rw [if_neg hempty, if_neg fun hboth => hsome hboth.2]
          exact hbuffer
      · rw [if_neg hpos] at h
        cases h
        rw [if_neg fun hboth => hne hboth.2]
        exact hemit
  · rw [if_neg hwriting] at h
    cases h
    rw [if_neg fun hboth => hwriting (hwr.mpr hboth.1)]
    exact .refl c

/-- `::write` is called by `sendInLoop` with the whole message; it notifies if all of it is
accepted. -/
theorem directWrite_notifies (hset : c.writeCompleteCallback_ = true) (message : List UInt8)
    {w : WriteResult} (hne : message ≠ []) :
    Notifies (if (c.directWrite message w).1 < message.length then 0 else 1) c
      (c.directWrite message w).2 := by
  cases w with
  | failed errno =>
    rw [directWrite, if_pos (List.length_pos_iff.mpr hne)]
    exact notifies_emit (by simp)
  | wrote n =>
    have hemit : Notifies 0 c (c.emit (.wrote (message.take n))) := notifies_emit (by simp)
    rw [directWrite]
    dsimp only
    split
    · exact hemit
    · exact hemit.after (notifies_notifyWriteComplete (hemit.callback.trans hset))

theorem writeFirst_notifies (hwf : c.outputBuffer_.Wf) (hset : c.writeCompleteCallback_ = true)
    (message : List UInt8) {w : WriteResult} (hne : message ≠ []) :
    Notifies (if (c.writeFirst message w).1 < message.length then 0 else 1) c
        (c.writeFirst message w).2 ∧
      (¬ (c.writeFirst message w).1 < message.length → c.outputBuffer_.readable = []) := by
  have hlen := Buffer.length_readable hwf
  unfold writeFirst
  split
  · rename_i hidle
    refine ⟨directWrite_notifies hset message hne, fun _ => ?_⟩
    exact List.eq_nil_of_length_eq_zero (hlen.trans hidle.2)
  · have hpos := List.length_pos_iff.mpr hne
    rw [if_pos hpos]
    exact ⟨.refl c, fun h => absurd hpos h⟩

/-- `sendInLoop` notifies if it leaves nothing to be written later. -/
theorem sendInLoop_notifies (hi : OutInv c) (hset : c.writeCompleteCallback_ = true) (message : Span)
    (hne : message.bytes ≠ []) {w : WriteResult}
    (hw : ∀ n, w = .wrote n → n ≤ message.bytes.length)
    (h : c.sendInLoop message.bytes w = .ok d) :
    Notifies (if d.outputBuffer_.readable = [] then 1 else 0) c d := by
  have hemit : Notifies 0 c (c.emit (.sendInLoop message.bytes)) := notifies_emit nofun
  have hspec := writeFirst_spec (c := c.emit (.sendInLoop message.bytes)) hi.wf message.bytes hw
  obtain ⟨hfirst, hidle⟩ := writeFirst_notifies (c := c.emit (.sendInLoop message.bytes)) (w := w)
    hi.wf (hemit.callback.trans hset) message.bytes hne
  unfold sendInLoop at h
  generalize (c.emit (.sendInLoop message.bytes)).writeFirst message.bytes w = r
    at h hspec hfirst hidle
  obtain ⟨nwrote, e⟩ := r
  obtain ⟨_, hbuffer, _⟩ := hspec
  have hcount := hemit.after hfirst
  dsimp only at h hbuffer hcount hidle
  by_cases hpart : nwrote < message.bytes.length
  · rw [if_pos hpart] at h hcount
    obtain ⟨output, happend, h⟩ := bind_eq_ok h
    have hfit : (message.bytes.drop nwrote).length ≤ maxSize := by
      have hmessage := message.fits
      rw [List.length_drop]
      omega
    rw [hbuffer] at happend
    obtain ⟨_, hread⟩ := (Buffer.append_sat hi.wf (Buffer.span_end_lt hi.wf hfit)).of_ok happend
    have hsome : output.readable ≠ [] := by
      intro hnil
      have hlen := congrArg List.length hread
      rw [hnil, List.length_nil, List.length_append, List.length_drop] at hlen
      omega
    have hwritten : Notifies 0 c { e with outputBuffer_ := output } := hcount.quiet ⟨rfl, rfl⟩
    cases h
    by_cases hwriting : e.channel_.isWriting = true
    · rw [if_pos hwriting, if_neg hsome]
      exact hwritten
    · rw [if_neg hwriting, (quiet_update _ _).buffer, if_neg hsome]
      exact hwritten.quiet (notifies_update _)
  · rw [if_neg hpart] at h hcount
    cases h
    rw [hbuffer, if_pos (hidle hpart)]
    exact hcount

end

namespace Watched

structure Inv (s : Watched) : Prop where
  out : OutInv s.conn
  callback : s.conn.writeCompleteCallback_ = true
  busy_iff : s.busy = true ↔ s.conn.outputBuffer_.readable ≠ []
  count : notifications s.conn = s.finished

theorem inPeriod_iff {s : Watched} (hi : Inv s) (l : OutLabel) :
    s.inPeriod l = true ↔ l.sends = true ∨ s.conn.outputBuffer_.readable ≠ [] := by
  unfold inPeriod
  rw [hi.out.unsent_eq, Bool.or_eq_true, Bool.and_eq_true, List.isEmpty_iff, hi.busy_iff]
  by_cases hnil : s.conn.outputBuffer_.readable = []
  · simp [hnil]
  · simp [hnil]

@[simp] theorem outputBuffer_shutdown (c : TcpConnection) :
    c.shutdown.outputBuffer_ = c.outputBuffer_ := by
  unfold shutdown
  split
  · exact (quiet_shutdownInLoop _).buffer
  · rfl

/-- Without a send nothing becomes unsent. -/
theorem inPeriod_of_unsent {s : Watched} (hi : Inv s) {l : OutLabel} {conn : TcpConnection}
    (hs : outMachine.step s.conn l = .ok conn) (hne : conn.outputBuffer_.readable ≠ []) :
    s.inPeriod l = true := by
  rw [inPeriod_iff hi]
  cases l with
  | sendInLoop message w => exact .inl rfl
  | handleWrite w =>
    right
    intro hnil
    have hwriting : ¬ s.conn.channel_.isWriting = true := fun h => hi.out.writing.mp h hnil
    change s.conn.handleWrite w = .ok conn at hs
    unfold handleWrite at hs
    rw [if_neg hwriting] at hs
    cases hs
    exact hne hnil
  | shutdown =>
    right
    cases hs
    rwa [outputBuffer_shutdown] at hne

/-- A step notifies if a busy period ends with it. -/
theorem step_notifies {s : Watched} (hi : Inv s) {l : OutLabel} (he : machine.enabled s l)
    {conn : TcpConnection} (hs : outMachine.step s.conn l = .ok conn) :
    Notifies (if s.inPeriod l = true ∧ conn.outputBuffer_.readable = [] then 1 else 0) s.conn conn := by
  obtain ⟨he, hne⟩ := he
  simp only [inPeriod_iff hi]
  cases l with
  | sendInLoop message w =>
    simp only [OutLabel.sends, true_or, true_and]
    refine sendInLoop_notifies hi.out hi.callback message (hne rfl) ?_ hs
    rintro n rfl
    exact he
  | handleWrite w =>
    simp only [OutLabel.sends, Bool.false_eq_true, false_or]
    refine handleWrite_notifies hi.out hi.callback ?_ hs
    rintro n rfl
    exact he
  | shutdown =>
    cases hs
    have hnot : ¬ ((OutLabel.shutdown.sends = true ∨ s.conn.outputBuffer_.readable ≠ []) ∧
        s.conn.shutdown.outputBuffer_.readable = []) := by simp [OutLabel.sends]
    rw [if_neg hnot]
    exact notifies_shutdown _

theorem step_inv {s t : Watched} (hi : Inv s) {l : OutLabel} (he : machine.enabled s l)
    (hs : machine.step s l = .ok t) : Inv t ∧
      notifications t.conn = notifications s.conn +
        if s.inPeriod l = true ∧ unsent t.conn = [] then 1 else 0 := by
  obtain ⟨conn, hconn, rfl⟩ : ∃ conn, outMachine.step s.conn l = .ok conn ∧ s.next l conn = t := by
    change (outMachine.step s.conn l).map (s.next l) = .ok t at hs
    cases hconn : outMachine.step s.conn l with
    | error f =>
      rw [hconn] at hs
      cases hs
    | ok conn =>
      rw [hconn] at hs
      exact ⟨conn, rfl, Except.ok.inj hs⟩
  have hnotifies := step_notifies hi he hconn
  have hout := ((outMachine_sat hi.out he.1).of_ok hconn).1
  have hcount := hnotifies.count
  have hcallback := hnotifies.callback.trans hi.callback
  unfold next
  by_cases hnil : conn.outputBuffer_.readable = []
  · simp only [hout.unsent_eq, hnil, and_true, if_true] at hcount ⊢
    refine ⟨⟨hout, hcallback, by simp [hnil], ?_⟩, hcount⟩
    rw [hcount, hi.count]
    cases s.inPeriod l <;> rfl
  · have hperiod := inPeriod_of_unsent hi hconn hnil
    simp only [hout.unsent_eq, hnil, and_false, if_false] at hcount ⊢
    exact ⟨⟨hout, hcallback, by simp [hperiod, hnil], hcount.trans hi.count⟩, hcount⟩

theorem start_inv {fd : Int} {c : TcpConnection} (h : (new fd true).connectEstablished = .ok c) :
    Inv ⟨c, false, 0⟩ := by
  have hout := (established_outInv h).1
  obtain rfl := Except.ok.inj h
  exact ⟨hout, rfl, by simp [emit, update, setState, new], rfl⟩

/-- In every run of a connection whose write-complete callback is set, it has been queued as
often as busy periods have ended, and a step queues it, once, exactly if a period ends with it. -/
theorem writeComplete_once {fd : Int} {c : TcpConnection}
    (h₀ : (new fd true).connectEstablished = .ok c) {s : Watched}
    (h : Reachable machine ⟨c, false, 0⟩ s) :
    notifications s.conn = s.finished ∧
    ∀ l t, machine.enabled s l → machine.step s l = .ok t →
      notifications t.conn = notifications s.conn +
        if s.inPeriod l = true ∧ unsent t.conn = [] then 1 else 0 := by
  have hi : Inv s := h.invariant (fun _ _ _ hi he hs => (step_inv hi he hs).1) (start_inv h₀)
  exact ⟨hi.count, fun _ _ he hs => (step_inv hi he hs).2⟩

instance (s : Watched) (l : OutLabel) : Decidable (machine.enabled s l) :=
  inferInstanceAs (Decidable (outMachine.enabled s.conn l ∧ (l.sends = true → l.message ≠ [])))

/-- A message written at once, and two that are drained together after a failed write. -/
theorem writeComplete_once_run :
    let ls : List OutLabel := [.sendInLoop ⟨[1, 2], by decide⟩ (.wrote 2),
      .sendInLoop ⟨[3, 4], by decide⟩ (.wrote 1), .sendInLoop ⟨[5], by decide⟩ (.wrote 0),
      .handleWrite (.failed 11), .handleWrite (.wrote 2)]
    ∃ c s, (new 7 true).connectEstablished = .ok c ∧ Run machine ⟨c, false, 0⟩ ls s ∧
      s.finished = 2 ∧ notifications s.conn = 2 := by
  intro ls
  let c₁ : TcpConnection := (new 7 true).setState .kConnected
  let c₀ : TcpConnection := (c₁.update c₁.channel_.enableReading).emit (.connectionCallback true)
  have h₀ : (new 7 true).connectEstablished = .ok c₀ := rfl
  obtain ⟨s, hr, hfinished⟩ : ∃ s, Run machine ⟨c₀, false, 0⟩ ls s ∧ s.finished = 2 :=
    exists_run_of_exec _ (by decide +kernel)
  exact ⟨c₀, s, h₀, hr, hfinished, (writeComplete_once h₀ ⟨ls, hr⟩).1.trans hfinished⟩

end Watched

end MuduoNet.TcpConnection
