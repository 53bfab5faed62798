import MuduoNet.Net.Lifecycle

/-!
# The steps of a thread

What a thread does in `loop()`: it polls, calls the handlers and runs the functors; and what it
does in `send` and `shutdown`.
-/
namespace MuduoNet.Net

open Lib Lib.Outcome Function TcpConnection

/-- The connection that finds the end of its stream in this step. -/
def ended (s : Net) : NetLabel → Option ConnPtr
  | .handle i (.delivered []) _ =>
    match s.phase i with
    | .handling ((c, .read) :: _) => if s.other c = none then some c else none
    | _ => none
  | _ => none

/-- The `sendInLoop` of this step. -/
def sent (s : Net) : NetLabel → Option (ConnPtr × Span × WriteResult)
  | .functor i w =>
    match s.phase i with
    | .functors (.sendInLoop c message :: _) => some (c, message, w)
    | _ => none
  | .runInLoop i w =>
    match s.call i with
    | .send c message => if i = (s.conn c).loop_ then some (c, message, w) else none
    | _ => none
  | _ => none

/-- No connection that was closed finds the end of its stream again. -/
def ClosesOnce (s : Net) (l : NetLabel) : Prop := ∀ c, s.ended l = some c → s.times c .closed = 0

/-- What is sent on a closed connection leaves nothing to be written later. -/
def SendsQuietly (s : Net) (l : NetLabel) : Prop :=
  ∀ c message w, s.sent l = some (c, message, w) → 0 < s.times c .closed →
    (s.conn c).tcp.Finishes message.bytes w

/-- The step sends on a connection that has left the poller, and asks for `POLLOUT`. -/
def SendsLate (s : Net) (l : NetLabel) : Prop :=
  ∃ c message w, s.sent l = some (c, message, w) ∧ 0 < s.times c .destroyed ∧
    ¬ (s.conn c).tcp.Finishes message.bytes w

/-- The faults that stop a run: memory is exhausted, a functor sends after `connectDestroyed`, a
connection is closed twice, a server has used up its numbers, or a connector is started twice. -/
inductive Permitted (K : Kept) (s : Net) (l : NetLabel) : NetFault → Prop
  | memory : Permitted K s l (.connection, .lengthError)
  | late : s.SendsLate l → Permitted K s l (.poller, .assertion)
  | twice : ¬ K.once → Permitted K s l (.owner, .assertion)
  | overflow (k : Nat) : l = .accept k → ¬ (s.server k).nextConnId_ < 2 ^ 31 →
      Permitted K s l (.owner, .overflow)
  | connector (k : Nat) (connecting : Bool) : l = .connector k (.startInLoop connecting) →
      Permitted K s l (.connector, .assertion)

section

variable {K : Kept} {fd : ChannelPtr → Int} {s t : Net} {c d : ConnPtr} {i j : ThreadId} {k : Nat}
  {l : NetLabel} {r : Buffer.ReadvResult} {w : WriteResult}

/-- A thread enters a call about an established connection, or leaves it. -/
theorem Inv.setCall (hi : Inv K fd s) (i : ThreadId) {call : NetCall}
    (hcall : ∀ c, call.conn = some c → 0 < s.times c .established) : Inv K fd (s.setCall i call) := by
  refine ⟨?_, hi.registry, hi.whole.frame (frame_setCall s i call) (fun _ _ _ => Iff.rfl)⟩
  intro d
  refine { hi.conn d with called := ?_ }
  intro j hj
  unfold Net.setCall at hj
  by_cases hij : j = i
  · subst hij
    exact hcall d (by simpa using hj)
  · exact (hi.conn d).called j (by simpa [hij] using hj)

/-- A functor that is not of a connection's life is queued. -/
theorem Inv.queued (hi : Inv K fd s) (j : ThreadId) {cb : NetFunctor} (hlife : cb.ofLife = false)
    (hfits : ∀ c, cb.conn = some c → 0 < s.times c .accepted ∧ s.Fits j c cb) :
    Inv K fd (s.queueInLoop j cb) := by
  refine ⟨?_, hi.registry, hi.whole.frame (frame_queueInLoop s j cb) (fun _ _ _ => Iff.rfl)⟩
  intro d
  have hcount : ∀ x, x.ofLife = true → ∀ i,
      ((s.queueInLoop j cb).functors i).count x = (s.functors i).count x := by
    intro x hx i
    have hne : cb ≠ x := by
      rintro rfl
      simp [hlife] at hx
    rw [functors_queueInLoop, List.count_append]
    split <;> simp [hne]
  have hremoving : (s.queueInLoop j cb).removing d = s.removing d := by
    unfold removing
    cases howner : (s.conn d).owner <;> simp [queueInLoop, howner]
    exact hcount _ rfl _
  have hc := hi.conn d
  refine { hc with
    established := ?_
    removed := ?_
    destroyed := ?_
    fits := ?_ }
  · have := hcount (.connectEstablished d) rfl (s.conn d).loop_
    exact this ▸ hc.established
  · exact hremoving ▸ hc.removed
  · have := hcount (.connectDestroyed d) rfl (s.conn d).loop_
    exact this ▸ hc.destroyed
  · intro i x hx hpos
    rw [functors_queueInLoop, List.count_append] at hpos
    by_cases hold : 0 < (s.functors i).count x
    · exact hc.fits i x hx hold
    · have hnew : i = j ∧ x = cb := by
        by_contra hne
        split at hpos
        · have hxcb : cb ≠ x := fun h => hne ⟨by assumption, h.symm⟩
          exact hold (by simpa [hxcb] using hpos)
        · exact hold (by simpa using hpos)
      obtain ⟨rfl, rfl⟩ := hnew
      exact hfits d hx

/-- The input buffer or the state of an established connection changes. -/
theorem Inv.setTcp (hi : Inv K fd s) (hest : 0 < s.times c .established) {tcp : TcpConnection}
    (hwf : tcp.WfBuffers) (hchannel : tcp.channel_ = (s.conn c).tcp.channel_)
    (hup : s.times c .destroyed = 0 → tcp.state_ = .kConnected ∨ tcp.state_ = .kDisconnecting) :
    Inv K fd (s.setTcp c tcp) := by
  have hevents := (hi.conn c).events hest
  have hordinary : ∀ e ∈ ([] : List Effect), e.Ordinary := by simp
  have hset := hi.settled rfl hest hwf hup hordinary (hi.registry _) (fun _ _ => rfl)
    (by rw [hchannel, hevents]) Iff.rfl
    (fun hk hclosed => ⟨by rw [hchannel]; exact ((hi.conn c).off hk).1 hclosed, rfl⟩)
  have hnothing : (s.setTcp c tcp).settle (s.conn c).loop_ c [] (s.poller (s.conn c).loop_) =
      s.setTcp c tcp := by
    simp [settle, Net.setTcp]
  rwa [hnothing] at hset

theorem sendInLoop_sat (hi : Inv K fd s) (hest : 0 < s.times c .established) (message : Span)
    (hw : NetFunctor.CanWrite (.sendInLoop c message) w)
    (hquiet : K.quiet → 0 < s.times c .closed → (s.conn c).tcp.Finishes message.bytes w) :
    Sat (s.OrdinaryFault c (¬ (s.conn c).tcp.Finishes message.bytes w))
      (s.perform (s.conn c).loop_ c (·.sendInLoop message.bytes w)) (Inv K fd) := by
  have hwf : (s.conn c).tcp.idle.WfBuffers := (hi.conn c).buffers.congr rfl rfl
  have hcan : ∀ n, w = .wrote n → n ≤ message.bytes.length := by
    rintro n rfl
    exact hw
  have hperform := perform_ordinary (f := (·.sendInLoop message.bytes w))
    (Q := fun u => (s.conn c).tcp.Finishes message.bytes w → u = none) hi hest
    (sendInLoop_ordinary hwf message hcan) (fun hk hclosed _ hu => hu (hquiet hk hclosed))
  refine sat_mono hperform ?_ (fun _ h => h)
  rintro e (hmemory | ⟨hfault, hdes, events, hlate⟩)
  · exact .inl hmemory
  · exact .inr ⟨hfault, hdes, fun hfin => Option.some_ne_none _ (hlate hfin)⟩

theorem shutdownInLoop_sat (hi : Inv K fd s) (hest : 0 < s.times c .established) :
    Sat (· = (.connection, .lengthError))
      (s.perform (s.conn c).loop_ c (fun tcp => .ok tcp.shutdownInLoop)) (Inv K fd) := by
  have hwf : (s.conn c).tcp.idle.WfBuffers := (hi.conn c).buffers.congr rfl rfl
  have hperform := perform_ordinary (Q := (· = none)) (f := fun tcp => .ok tcp.shutdownInLoop) hi hest
    ⟨shutdownInLoop_wf hwf, none, ordinary_shutdownInLoop _, rfl⟩ (fun _ _ _ hu => hu)
  refine sat_mono hperform ?_ (fun _ h => h)
  rintro e (hmemory | ⟨_, _, events, hnone⟩)
  · exact hmemory
  · cases hnone

/-- A handler that does not close. Its channel is registered, so the poller does not fail. -/
theorem handler_sat (hi : Inv K fd s) (hest : 0 < s.times c .established)
    (hdes : s.times c .destroyed = 0) {f : TcpConnection → Except Fault TcpConnection}
    {Q : Option (BitVec 32) → Prop}
    (hf : Sat (· = .lengthError) (f (s.conn c).tcp.idle) (fun tcp => tcp.WfBuffers ∧
      ∃ u, Ordinary u (s.conn c).tcp.idle tcp ∧ Q u))
    (hquiet : K.quiet → 0 < s.times c .closed → ∀ u, Q u → u = none) :
    Sat (fun e => e = (.connection, .lengthError) ∨ ClosedTwice K e)
      (s.perform (s.conn c).loop_ c f) (Inv K fd) := by
  refine sat_mono (perform_ordinary hi hest hf hquiet) ?_ (fun _ h => h)
  rintro e (hmemory | ⟨_, hpos, _⟩)
  · exact .inl hmemory
  · omega

theorem handleRead_sat (hi : Inv K fd s) (hest : 0 < s.times c .established)
    (hdes : s.times c .destroyed = 0) (hr : (s.conn c).tcp.CanRead r)
    (honce : r = .delivered [] → K.once → s.times c .closed = 0)
    (hfresh : (c, .close) ∉ (s.phase (s.conn c).loop_).todo) :
    Sat (fun e => e = (.connection, .lengthError) ∨ ClosedTwice K e)
      (s.perform (s.conn c).loop_ c (·.handleRead r)) (Inv K fd) := by
  have hc := hi.conn c
  have hwf : (s.conn c).tcp.idle.WfBuffers := hc.buffers.congr rfl rfl
  by_cases heof : r = .delivered []
  · subst heof
    obtain ⟨input, hinput, hread⟩ := handleRead_eof hwf
    let tcp : TcpConnection := { (s.conn c).tcp with inputBuffer_ := input }
    have hset : Inv K fd (s.setTcp c tcp) :=
      hi.setTcp hest ⟨hinput, hc.buffers.output⟩ rfl (hc.up hest)
    have hconn : (s.setTcp c tcp).conn c = { s.conn c with tcp := tcp } := update_self _ _ _
    have hclose := handleClose_sat hset hest hdes (honce rfl) (by rw [hconn]; exact hfresh)
    have hsame : s.perform (s.conn c).loop_ c (·.handleRead (.delivered [])) =
        (s.setTcp c tcp).perform (s.conn c).loop_ c (·.handleClose) := by
      unfold perform
      dsimp only
      rw [hread, hconn]
      have htwice : ∀ u, (s.setTcp c tcp).setTcp c u = s.setTcp c u := by
        intro u
        simp [Net.setTcp]
      simp only [htwice]
      rfl
    rw [hconn] at hclose
    rw [hsame]
    exact sat_mono hclose (fun _ => .inr) (fun _ h => h)
  · refine handler_sat (f := (·.handleRead r)) (Q := (· = none)) hi hest hdes ?_
      (fun _ _ _ hu => hu)
    exact sat_post (handleRead_ordinary hwf hr heof) fun _ h => ⟨h.1, none, h.2, rfl⟩

theorem handleWrite_sat (hi : Inv K fd s) (hest : 0 < s.times c .established)
    (hdes : s.times c .destroyed = 0)
    (hw : ∀ n, w = .wrote n → n ≤ (s.conn c).tcp.outputBuffer_.readableBytes) :
    Sat (fun e => e = (.connection, .lengthError) ∨ ClosedTwice K e)
      (s.perform (s.conn c).loop_ c (·.handleWrite w)) (Inv K fd) := by
  have hc := hi.conn c
  have hwf : (s.conn c).tcp.idle.WfBuffers := hc.buffers.congr rfl rfl
  refine handler_sat (f := (·.handleWrite w))
    (Q := fun u => (s.conn c).tcp.channel_.isWriting = false → u = none) hi hest hdes ?_ ?_
  · refine sat_mono (handleWrite_ordinary hwf hw) (fun _ h => h.elim) ?_
    rintro tcp ⟨hwf', hidle, u, hu⟩
    by_cases hwriting : (s.conn c).tcp.channel_.isWriting = true
    · exact ⟨hwf', u, hu, by simp [hwriting]⟩
    · have hnot : (s.conn c).tcp.idle.channel_.isWriting = false := Bool.eq_false_of_not_eq_true hwriting
      rw [hidle hnot]
      exact ⟨hwf, none, .refl _, fun _ => rfl⟩
  · intro hk hclosed u hu
    have hnone := (hc.off hk).1 hclosed
    exact hu (by simp [Channel.isWriting, hnone, Channel.kNoneEvent])

/-- A handler of `c`, once it is taken from the list. -/
theorem handle_sat (hi : Inv K fd s) {h : Handler} (hlive : s.Live i c)
    (hcan : h.Can (s.conn c).tcp r w)
    (honce : s.other c = none → h = .close ∨ h = .read ∧ r = .delivered [] → K.once →
      s.times c .closed = 0)
    (hfresh : h = .close ∨ h = .read → (c, .close) ∉ (s.phase i).todo) :
    Sat (fun e => e = (.connection, .lengthError) ∨ ClosedTwice K e) (s.handle i r w c h)
      (Inv K fd) := by
  unfold handle
  by_cases hother : s.other c = none
  · rw [if_neg (not_not.mpr hother)]
    obtain ⟨rfl, hest, hdes⟩ := hlive.resolve_right (by simp [hother])
    have hwf : (s.conn c).tcp.idle.WfBuffers := (hi.conn c).buffers.congr rfl rfl
    cases h with
    | error =>
      exact handler_sat (f := fun tcp => .ok tcp.handleError) (Q := (· = none)) hi hest hdes
        ⟨hwf, none, .refl _, rfl⟩ (fun _ _ _ hu => hu)
    | close =>
      refine sat_mono (handleClose_sat hi hest hdes ?_ (hfresh (.inl rfl))) (fun _ => .inr)
        (fun _ h => h)
      exact honce hother (.inl rfl)
    | read =>
      exact handleRead_sat hi hest hdes hcan (fun hr => honce hother (.inr ⟨rfl, hr⟩))
        (hfresh (.inr rfl))
    | write =>
      refine handleWrite_sat hi hest hdes ?_
      rintro n rfl
      exact hcan
  · rw [if_pos hother]
    exact hi

/-- A thread goes on in `loop()` and takes no functor. -/
theorem Inv.setPhase (hi : Inv K fd s) (i : ThreadId) {phase : Phase}
    (htodo : phase.todo.Sublist (s.phase i).todo) (hbatch : phase.batch = (s.phase i).batch) :
    Inv K fd (s.setPhase i phase) := by
  refine hi.untouched (fun d => ?_) (frame_setPhase s i htodo) rfl
  exact same_setPhase s i htodo (fun _ _ => by rw [hbatch]) (fun _ _ _ => by rw [hbatch])

theorem Inv.swapped (hi : Inv K fd s) (hphase : s.phase i = .handling []) :
    Inv K fd { s.setPhase i (.functors (s.pendingFunctors_ i)) with
      pendingFunctors_ := update s.pendingFunctors_ i [] } := by
  generalize ht : ({ s.setPhase i (.functors (s.pendingFunctors_ i)) with
    pendingFunctors_ := update s.pendingFunctors_ i [] } : Net) = t
  have hfun : ∀ j, t.functors j = s.functors j := by
    intro j
    rw [← ht]
    unfold functors Net.setPhase
    by_cases hj : j = i
    · subst hj
      simp [hphase, Phase.batch]
    · simp [hj]
  have htodo : ∀ j, (t.phase j).todo.Sublist (s.phase j).todo := by
    intro j
    rw [← ht]
    by_cases hj : j = i
    · subst hj
      simp [Net.setPhase, Phase.todo]
    · simp [Net.setPhase, hj]
  refine hi.untouched ?_ ?_ (by rw [← ht]; rfl)
  · intro d
    subst ht
    exact { Same.refl s d with
      functors := fun j cb _ => by rw [hfun]
      ofLife := fun j cb _ _ => by rw [hfun]
      todo := fun j _ hmem => (htodo j).subset hmem }
  · subst ht
    exact { Frame.refl s with todo := htodo }

/-- The next handler. -/
theorem handler_step (hi : Inv K fd s) {h : Handler} {todo : List (ConnPtr × Handler)}
    (hphase : s.phase i = .handling ((c, h) :: todo)) (hcan : h.Can (s.conn c).tcp r w)
    (honce : K.once → s.ClosesOnce (.handle i r w)) :
    Sat (Permitted K s (.handle i r w)) ((s.setPhase i (.handling todo)).handle i r w c h)
      (Inv K fd) := by
  have hc := hi.conn c
  have hmem : (c, h) ∈ (s.phase i).todo := by
    rw [hphase]
    exact List.mem_cons_self
  have hpop : Inv K fd (s.setPhase i (.handling todo)) := by
    refine hi.setPhase i ?_ ?_
    · rw [hphase]
      exact List.sublist_cons_self _ _
    · rw [hphase]
      rfl
  have hrest : ((s.setPhase i (.handling todo)).phase i).todo = todo := by
    simp [Net.setPhase, Phase.todo]
  have horder := hi.whole.order i
  rw [hphase] at horder
  refine sat_mono (handle_sat hpop (hc.todo i h hmem) hcan ?_ ?_) ?_ (fun _ h => h)
  · intro hother hclose hk
    rcases hclose with rfl | ⟨rfl, rfl⟩
    · exact hc.fresh i hmem
    · exact honce hk c (by simp [ended, hphase, show s.other c = none from hother])
  · intro hh hclose
    rw [hrest] at hclose
    -- a close comes before a read, and only once
    have hlt := (List.pairwise_cons.mp horder).1 _ hclose rfl
    rcases hh with rfl | rfl <;> simp [Handler.rank] at hlt
  · rintro e (rfl | ⟨rfl, hk⟩)
    · exact .memory
    · exact .twice hk

/-- The next functor. -/
theorem functor_step (hi : Inv K fd s) {cb : NetFunctor} {batch : List NetFunctor}
    (hphase : s.phase i = .functors (cb :: batch)) (hcan : cb.CanWrite w)
    (hquiet : K.quiet → s.SendsQuietly (.functor i w)) :
    Sat (Permitted K s (.functor i w)) ((s.setPhase i (.functors batch)).runFunctor i w cb)
      (Inv K fd) := by
  have hwaits : 0 < (s.functors i).count cb := by
    rw [functors, hphase]
    simp [Phase.batch]
  have hfits : ∀ c, cb.conn = some c → 0 < s.times c .accepted ∧ s.Fits i c cb :=
    fun c hcb => (hi.conn c).fits i cb hcb hwaits
  have hpop : cb.ofLife = false → Inv K fd (s.setPhase i (.functors batch)) := fun hlife =>
    hi.untouched (fun d => same_pop hphase fun _ => hlife) (frame_setPhase s i (List.nil_sublist _)) rfl
  cases cb with
  | connectEstablished c =>
    obtain ⟨hpos, rfl⟩ := hfits c rfl
    exact sat_mono (connectEstablished_sat hi (popped_setPhase hphase rfl) hpos)
      (fun _ h => h.elim) (fun _ h => h)
  | connectDestroyed c =>
    obtain ⟨hpos, rfl⟩ := hfits c rfl
    refine sat_mono (connectDestroyed_sat hi (popped_setPhase hphase rfl) hpos ?_)
      (fun _ h => h.elim) (fun _ h => h)
    intro h
    rw [hphase]
    exact List.not_mem_nil
  | removeConnectionInLoop k c =>
    obtain ⟨hpos, howner, rfl⟩ := hfits c rfl
    refine sat_mono (removeConnectionInLoop_sat hi (popped_setPhase hphase rfl) hpos howner) ?_
      (fun _ h => h)
    rintro e ⟨rfl, hk⟩
    exact .twice hk
  | sendInLoop c message =>
    obtain ⟨_, rfl, hest⟩ := hfits c rfl
    have hsent : s.sent (.functor (s.conn c).loop_ w) = some (c, message, w) := by
      simp [sent, hphase]
    have hsend := sendInLoop_sat (hpop rfl) hest message hcan
      (fun hk hclosed => hquiet hk c message w hsent hclosed)
    refine sat_mono hsend ?_ (fun _ h => h)
    rintro e (rfl | ⟨rfl, hdes, hlate⟩)
    · exact .memory
    · exact .late ⟨c, message, w, hsent, hdes, hlate⟩
  | shutdownInLoop c =>
    obtain ⟨_, rfl, hest⟩ := hfits c rfl
    refine sat_mono (shutdownInLoop_sat (hpop rfl) hest) ?_ (fun _ h => h)
    rintro e rfl
    exact .memory
  | user => exact hpop rfl

theorem handleEvent_sorted (revents : BitVec 32) :
    (Channel.handleEvent revents).Pairwise fun a b => a.rank < b.rank := by
  unfold Channel.handleEvent
  split_ifs <;> decide

/-- The list of handlers is made. -/
theorem Inv.listed (hi : Inv K fd s) {todo : List (ConnPtr × Handler)}
    (hphase : s.phase i = .handling [])
    (hlive : ∀ x ∈ todo, s.Live i x.1 ∧ ¬ s.Muted x.1)
    (horder : todo.Pairwise fun a b => a.1 = b.1 → a.2.rank < b.2.rank) :
    Inv K fd (s.setPhase i (.handling todo)) := by
  generalize ht : s.setPhase i (.handling todo) = t
  have hphase' : t.phase i = .handling todo := by
    rw [← ht]
    exact update_self _ _ _
  have hother : ∀ j, j ≠ i → t.phase j = s.phase j := by
    intro j hj
    rw [← ht]
    exact update_of_ne hj _ _
  have hfun : ∀ j, t.functors j = s.functors j := by
    intro j
    unfold functors
    by_cases hj : j = i
    · rw [hj, hphase', hphase, ← ht]
      rfl
    · rw [hother j hj, ← ht]
      rfl
  subst ht
  refine ⟨?_, hi.registry, { hi.whole with order := ?_ }⟩
  · intro d
    have hc := hi.conn d
    have hremoving : (s.setPhase i (.handling todo)).removing d = s.removing d := by
      unfold removing
      cases howner : (s.conn d).owner <;> simp [Net.setPhase, howner]
      exact congrArg _ (hfun _)
    refine { hc with
      established := ?_, removed := ?_, destroyed := ?_, fits := ?_, todo := ?_, fresh := ?_ }
    · rw [hfun]
      exact hc.established
    · rw [hremoving]
      exact hc.removed
    · rw [hfun]
      exact hc.destroyed
    · intro j cb hcb hpos
      rw [hfun] at hpos
      exact hc.fits j cb hcb hpos
    · intro j h hmem
      by_cases hj : j = i
      · rw [hj, hphase'] at hmem
        rw [hj]
        exact (hlive _ hmem).1
      · rw [hother j hj] at hmem
        exact hc.todo j h hmem
    · intro j hmem
      by_cases hj : j = i
      · rw [hj, hphase'] at hmem
        exact Nat.eq_zero_of_not_pos (hlive _ hmem).2
      · rw [hother j hj] at hmem
        exact hc.fresh j hmem
  · intro j
    by_cases hj : j = i
    · rw [hj, hphase']
      exact horder
    · rw [hother j hj]
      exact hi.whole.order j

theorem poll_step (hi : Inv K fd s) (hphase : s.phase i = .polling) {numEvents : Int}
    {revents : List (BitVec 16)} (hset : (s.poller i).SetsRevents numEvents revents) :
    Sat Nothing (s.poll i numEvents revents) (Inv K fd) := by
  obtain ⟨q, active, hpoll, hreg, hnodup, hactive, hkept⟩ :=
    Poller.poll_registry (hi.registry i) hset
  let t := (s.setPoller i q).setPhase i (.handling [])
  have hframe : Frame s t := by
    refine (show Frame s (s.setPoller i q) from { Frame.refl s with }).trans
      (frame_setPhase _ i (List.nil_sublist _))
  have hsame : ∀ d, Same s t d := by
    intro d
    have hpoller : Same s (s.setPoller i q) d :=
      { Same.refl s d with
        channel := fun j => by
          unfold setPoller
          by_cases hj : j = i
          · subst hj
            simpa using hkept d
          · simp [hj] }
    refine hpoller.trans (same_setPhase _ i (List.nil_sublist _) ?_ ?_)
    · exact fun _ _ => Nat.zero_le _
    · intro cb _ _
      rw [show (s.setPoller i q).phase i = .polling from hphase]
      rfl
  have ht : Inv K fd t := by
    refine ⟨fun d => (hi.conn d).same (hsame d) hframe.toLoops, ?_, hi.whole.frame hframe
      fun d _ j => ((hsame d).channel j).2⟩
    intro j
    show Poller.Registry fd (update s.poller i q j) _ _
    by_cases hj : j = i
    · subst hj
      rw [update_self]
      exact hreg
    · rw [update_of_ne hj]
      exact hi.registry j
  have hlisted : Inv K fd (t.setPhase i (.handling (active.flatMap fun c =>
      (Channel.handleEvent (q.channel c).revents_).map fun h => (c, h)))) := by
    refine ht.listed (update_self _ _ _) ?_ ?_
    · intro x hx
      obtain ⟨c, hc, hx⟩ := List.mem_flatMap.mp hx
      obtain ⟨h, _, rfl⟩ := List.mem_map.mp hx
      exact hactive c hc
    · rw [List.pairwise_flatMap]
      refine ⟨?_, ?_⟩
      · intro c _
        rw [List.pairwise_map]
        refine (handleEvent_sorted _).imp ?_
        intro h k hlt _
        exact hlt
      · refine hnodup.imp ?_
        intro c d hcd x hx y hy heq
        obtain ⟨_, _, rfl⟩ := List.mem_map.mp hx
        obtain ⟨_, _, rfl⟩ := List.mem_map.mp hy
        exact absurd heq hcd
  unfold poll
  rw [hpoll]
  show Inv K fd _
  have htwice : ∀ todo, t.setPhase i (.handling todo) = (s.setPoller i q).setPhase i (.handling todo) := by
    intro todo
    simp [t, Net.setPhase]
  rwa [htwice] at hlisted

theorem ConnInv.established_of_connected (hi : ConnInv K s c)
    (hstate : (s.conn c).tcp.state_ = .kConnected) : 0 < s.times c .established := by
  by_contra hzero
  rw [hi.connecting (Nat.eq_zero_of_not_pos hzero)] at hstate
  cases hstate

/-- A call about an established connection begins or goes on. -/
theorem Inv.setCall_of_established (hi : Inv K fd s) {call : NetCall} (hcall : call.conn = some c)
    (hest : 0 < s.times c .established) : Inv K fd (s.setCall i call) := by
  refine hi.setCall i ?_
  rintro d hd
  obtain rfl := Option.some.inj (hcall.symm.trans hd)
  exact hest

theorem send_step (hi : Inv K fd s) (message : Span) : Inv K fd (s.send i c message) := by
  unfold send
  split
  · rename_i hstate
    exact hi.setCall_of_established rfl ((hi.conn c).established_of_connected hstate)
  · exact hi

theorem shutdown_step (hi : Inv K fd s) : Inv K fd (s.shutdown i c) := by
  unfold shutdown
  split
  · rename_i hstate
    exact hi.setCall_of_established rfl ((hi.conn c).established_of_connected hstate)
  · exact hi

theorem setDisconnecting_step (hi : Inv K fd s) : Inv K fd (s.setDisconnecting i) := by
  unfold setDisconnecting
  split
  · rename_i c hcall
    have hest := (hi.conn c).called i (by rw [hcall]; rfl)
    have hset : Inv K fd (s.setTcp c ((s.conn c).tcp.setState .kDisconnecting)) :=
      hi.setTcp hest ((hi.conn c).buffers.congr rfl rfl) rfl fun _ => .inr rfl
    exact hset.setCall_of_established rfl hest
  · exact hi

/-- The call ends with a functor in the queue of the connection's loop. -/
theorem Inv.queued_call (hi : Inv K fd s) (hest : 0 < s.times c .established) {cb : NetFunctor}
    (hlife : cb.ofLife = false) (hcb : cb.conn = some c) (hfits : s.Fits (s.conn c).loop_ c cb) :
    Inv K fd ((s.setCall i .none).queueInLoop (s.conn c).loop_ cb) := by
  have hnone : Inv K fd (s.setCall i .none) := hi.setCall i (by simp [NetCall.conn])
  refine hnone.queued _ hlife ?_
  rintro d hd
  obtain rfl := Option.some.inj (hcb.symm.trans hd)
  exact ⟨(hi.conn _).accepted_pos hest, hfits⟩

/-- The end of `send`. -/
theorem runInLoop_send (hi : Inv K fd s) {message : Span} (hcall : s.call i = .send c message)
    (hcan : NetFunctor.CanWrite (.sendInLoop c message) w)
    (hquiet : K.quiet → s.SendsQuietly (.runInLoop i w)) :
    Sat (Permitted K s (.runInLoop i w))
      ((s.setCall i .none).runInLoop i (s.conn c).loop_ w (.sendInLoop c message)) (Inv K fd) := by
  have hest := (hi.conn c).called i (by rw [hcall]; rfl)
  have hnone : Inv K fd (s.setCall i .none) := hi.setCall i (by simp [NetCall.conn])
  unfold runInLoop
  by_cases hloop : i = (s.conn c).loop_
  · rw [if_pos hloop]
    subst hloop
    have hsent : s.sent (.runInLoop (s.conn c).loop_ w) = some (c, message, w) := by
      simp [sent, hcall]
    have hsend := sendInLoop_sat hnone hest message hcan
      (fun hk hclosed => hquiet hk c message w hsent hclosed)
    refine sat_mono hsend ?_ (fun _ h => h)
    rintro e (rfl | ⟨rfl, hdes, hlate⟩)
    · exact .memory
    · exact .late ⟨c, message, w, hsent, hdes, hlate⟩
  · rw [if_neg hloop]
    exact hi.queued_call hest rfl rfl ⟨rfl, hest⟩

/-- The end of `shutdown`. -/
theorem runInLoop_shutdown (hi : Inv K fd s) (hcall : s.call i = .disconnecting c) :
    Sat (Permitted K s (.runInLoop i w))
      ((s.setCall i .none).runInLoop i (s.conn c).loop_ w (.shutdownInLoop c)) (Inv K fd) := by
  have hest := (hi.conn c).called i (by rw [hcall]; rfl)
  have hnone : Inv K fd (s.setCall i .none) := hi.setCall i (by simp [NetCall.conn])
  unfold runInLoop
  by_cases hloop : i = (s.conn c).loop_
  · rw [if_pos hloop]
    subst hloop
    refine sat_mono (shutdownInLoop_sat hnone hest) ?_ (fun _ h => h)
    rintro e rfl
    exact .memory
  · rw [if_neg hloop]
    exact hi.queued_call hest rfl rfl ⟨rfl, hest⟩

end

end MuduoNet.Net
