import MuduoNet.Net.Closing

/-!
# What a step has a connection do

A step calls at most one function of one connection. The history gains what that function asks
for, and the functions of a connection's life alone make its callback.
-/
namespace MuduoNet

open Lib Lib.Outcome Function

/-- What `readv` returns. -/
def Buffer.ReadvResult.count : Buffer.ReadvResult → Int
  | .delivered bytes => bytes.length
  | .failed _ => -1

/-- A call of a function of a connection. -/
inductive ConnFunction
  | connectEstablished
  | connectDestroyed
  | sendInLoop (message : Span) (w : WriteResult)
  | shutdownInLoop
  | handle (h : Handler) (r : Buffer.ReadvResult) (w : WriteResult)
  deriving DecidableEq

namespace ConnFunction

def run : ConnFunction → TcpConnection → Except Fault TcpConnection
  | connectEstablished, c => c.connectEstablished
  | connectDestroyed, c => c.connectDestroyed
  | sendInLoop message w, c => c.sendInLoop message.bytes w
  | shutdownInLoop, c => .ok c.shutdownInLoop
  | handle .error _ _, c => .ok c.handleError
  | handle .close _ _, c => c.handleClose
  | handle .read r _, c => c.handleRead r
  | handle .write _ w, c => c.handleWrite w

/-- The calls of the user's callbacks that it makes. -/
def told : ConnFunction → List Effect
  | connectEstablished => [.connectionCallback true]
  | connectDestroyed => [.connectionCallback false]
  | handle .read r _ => if 0 < r.count then [.messageCallback] else []
  | _ => []

end ConnFunction

/-- A call of `connectionCallback_` or `messageCallback_`. -/
def Effect.tells : Effect → Bool
  | .connectionCallback _ | .messageCallback => true
  | _ => false

namespace TcpConnection

/-- The calls of those callbacks that have been made. -/
def told (c : TcpConnection) : List Effect := c.trace.filter Effect.tells

section

variable {c d : TcpConnection} {w : WriteResult} {message : List UInt8}

@[simp] theorem told_emit (c : TcpConnection) (e : Effect) :
    (c.emit e).told = c.told ++ if e.tells then [e] else [] := by
  unfold told emit
  cases he : e.tells <;> simp [he]

@[simp] theorem told_update (c : TcpConnection) (channel : Channel) :
    (c.update channel).told = c.told := by
  simp [update, Effect.tells]
  rfl

@[simp] theorem told_setState (c : TcpConnection) (s : StateE) : (c.setState s).told = c.told := rfl

@[simp] theorem told_notifyWriteComplete (c : TcpConnection) : c.notifyWriteComplete.told = c.told := by
  unfold notifyWriteComplete
  split <;> simp [Effect.tells]

@[simp] theorem told_shutdownInLoop (c : TcpConnection) : c.shutdownInLoop.told = c.told := by
  unfold shutdownInLoop
  split <;> simp [Effect.tells]

@[simp] theorem told_drained (c : TcpConnection) : c.drained.told = c.told := by
  unfold drained
  dsimp only
  split <;> simp

theorem handleWrite_told (h : c.handleWrite w = .ok d) : d.told = c.told := by
  unfold handleWrite at h
  split at h
  · cases w with
    | failed errno =>
      obtain rfl := Except.ok.inj h
      simp [Effect.tells]
    | wrote n =>
      dsimp only at h
      split at h
      · obtain ⟨output, _, h⟩ := bind_eq_ok h
        obtain rfl := Except.ok.inj h
        split
        · rw [told_drained]
          exact (told_emit c _).trans (List.append_nil _)
        · exact (told_emit c _).trans (List.append_nil _)
      · obtain rfl := Except.ok.inj h
        simp [Effect.tells]
  · obtain rfl := Except.ok.inj h
    rfl

theorem writeFirst_told (c : TcpConnection) (message : List UInt8) (w : WriteResult) :
    (c.writeFirst message w).2.told = c.told := by
  unfold writeFirst
  split
  · cases w with
    | failed errno => simp [directWrite, Effect.tells]
    | wrote n =>
      unfold directWrite
      dsimp only
      split <;> simp [Effect.tells]
  · rfl

theorem sendInLoop_told (h : c.sendInLoop message w = .ok d) : d.told = c.told := by
  have hfirst := writeFirst_told (c.emit (.sendInLoop message)) message w
  rw [told_emit] at hfirst
  unfold sendInLoop at h
  generalize (c.emit (.sendInLoop message)).writeFirst message w = first at h hfirst
  obtain ⟨nwrote, e⟩ := first
  have hsame : e.told = c.told := hfirst.trans (List.append_nil _)
  dsimp only at h
  split at h
  · obtain ⟨output, _, h⟩ := bind_eq_ok h
    obtain rfl := Except.ok.inj h
    split
    · exact hsame
    · rw [told_update]
      exact hsame
  · obtain rfl := Except.ok.inj h
    exact hsame

theorem handleClose_told (h : c.handleClose = .ok d) : d.told = c.told := by
  obtain ⟨_, h⟩ := demand_bind_eq_ok h
  obtain rfl := Except.ok.inj h
  simp [Effect.tells]

/-- `readFd` returns the number of bytes, or -1. -/
theorem readFd_count {b b' : Buffer} {r : Buffer.ReadvResult} {res : Buffer.ReadFdResult}
    (h : b.readFd r = .ok (res, b')) : res.n = r.count := by
  cases r with
  | failed errno =>
    cases h
    rfl
  | delivered bytes =>
    unfold Buffer.readFd at h
    dsimp only at h
    split at h
    · cases h
      rfl
    · obtain ⟨_, _, h⟩ := bind_eq_ok h
      cases h
      rfl

theorem handleRead_told {r : Buffer.ReadvResult} (h : c.handleRead r = .ok d) :
    d.told = c.told ++ if 0 < r.count then [.messageCallback] else [] := by
  obtain ⟨⟨res, input⟩, hread, h⟩ := bind_eq_ok h
  rw [← readFd_count hread]
  dsimp only at h
  split at h
  · rename_i hpos
    obtain rfl := Except.ok.inj h
    rw [if_pos hpos]
    exact told_emit _ _
  · rename_i hpos
    rw [if_neg hpos, List.append_nil]
    split at h
    · exact handleClose_told (c := { c with inputBuffer_ := input }) h
    · obtain rfl := Except.ok.inj h
      rfl

end

end TcpConnection

/-- What a function tells the user. -/
theorem ConnFunction.run_told {f : ConnFunction} {c d : TcpConnection} (h : f.run c = .ok d) :
    d.told = c.told ++ f.told := by
  cases f with
  | connectEstablished =>
    obtain ⟨_, h⟩ := demand_bind_eq_ok h
    obtain ⟨_, h⟩ := demand_bind_eq_ok h
    obtain rfl := Except.ok.inj h
    simp [Effect.tells, ConnFunction.told]
  | connectDestroyed =>
    obtain ⟨_, h⟩ := demand_bind_eq_ok h
    obtain rfl := Except.ok.inj h
    simp [Effect.tells, ConnFunction.told]
  | sendInLoop message w => exact (TcpConnection.sendInLoop_told h).trans (List.append_nil _).symm
  | shutdownInLoop =>
    obtain rfl := Except.ok.inj h
    simp [ConnFunction.told]
  | handle handler r w =>
    cases handler with
    | error =>
      obtain rfl := Except.ok.inj h
      exact (List.append_nil _).symm
    | close => exact (TcpConnection.handleClose_told h).trans (List.append_nil _).symm
    | read => exact TcpConnection.handleRead_told h
    | write => exact (TcpConnection.handleWrite_told h).trans (List.append_nil _).symm

/-- The function that a functor calls. -/
def NetFunctor.function (w : WriteResult) : NetFunctor → Option (ConnPtr × ConnFunction)
  | .connectEstablished c => some (c, .connectEstablished)
  | .connectDestroyed c => some (c, .connectDestroyed)
  | .sendInLoop c message => some (c, .sendInLoop message w)
  | .shutdownInLoop c => some (c, .shutdownInLoop)
  | .removeConnectionInLoop _ _ | .user => none

namespace Net

/-- The effects of the functions of `c` so far. -/
def effects (s : Net) (c : ConnPtr) : List Effect :=
  (s.history c).filterMap fun e =>
    match e.1 with
    | .effect e => some e
    | _ => none

/-- What the functions of `c` have asked for between two states. -/
def news (s t : Net) (c : ConnPtr) : List Effect := (t.effects c).drop (s.effects c).length

/-- The function of a connection that the step calls, and the thread. -/
def called (s : Net) : NetLabel → Option (ThreadId × ConnPtr × ConnFunction)
  | .functor i w =>
    match s.phase i with
    | .functors (cb :: _) => (cb.function w).map fun f => (i, f)
    | _ => none
  | .handle i r w =>
    match s.phase i with
    | .handling ((c, h) :: _) => if s.other c = none then some (i, c, .handle h r w) else none
    | _ => none
  | .runInLoop i w =>
    match s.call i with
    | .send c message => if i = (s.conn c).loop_ then some (i, c, .sendInLoop message w) else none
    | .disconnecting c => if i = (s.conn c).loop_ then some (i, c, .shutdownInLoop) else none
    | _ => none
  | .accept k =>
    match (s.server k).threadPool_.getNextLoop with
    | .ok (ioLoop, _) =>
      if ioLoop = (s.server k).loop_ then some (ioLoop, s.allocated, .connectEstablished) else none
    | .error _ => none
  | .connected k => some ((s.client k).loop_, s.allocated, .connectEstablished)
  | _ => none

/-- The connections stay what they are, and the functions of `c` have asked for `es`. -/
structure Gains (s t : Net) (c : ConnPtr) (es : List Effect) : Prop where
  effects : ∀ d, t.effects d = s.effects d ++ if d = c then es else []
  allocated : s.allocated ≤ t.allocated
  loop : ∀ d, d < s.allocated → (t.conn d).loop_ = (s.conn d).loop_
  owner : ∀ d, d < s.allocated → (t.conn d).owner = (s.conn d).owner

section

variable {s t u : Net} {c d : ConnPtr} {i j : ThreadId} {k : Nat} {es fs : List Effect}

theorem times_effect (s : Net) (c : ConnPtr) (e : Effect) :
    s.times c (.effect e) = (s.effects c).count e := by
  unfold times effects
  induction s.history c with
  | nil => rfl
  | cons x xs ih =>
    rcases x with ⟨_ | f | _, i⟩
    · simpa using ih
    · by_cases hf : f = e
      · subst hf
        simpa using ih
      · simpa [hf] using ih
    · simpa using ih

theorem Gains.times (h : Gains s t c es) (d : ConnPtr) (e : Effect) :
    t.times d (.effect e) = s.times d (.effect e) + if d = c then es.count e else 0 := by
  rw [times_effect, times_effect, h.effects, List.count_append]
  split <;> rfl

theorem Gains.news (h : Gains s t c es) : s.news t c = es := by
  rw [Net.news, h.effects, if_pos rfl, List.drop_left]

/-- Nothing was asked for. -/
theorem Gains.of_eq (c : ConnPtr) (hhistory : t.history = s.history) (hconn : t.conn = s.conn)
    (hallocated : s.allocated ≤ t.allocated) : Gains s t c [] where
  effects d := by simp [Net.effects, hhistory]
  allocated := hallocated
  loop d _ := by rw [hconn]
  owner d _ := by rw [hconn]

theorem Gains.trans (h : Gains s t c es) (g : Gains t u c fs) : Gains s u c (es ++ fs) where
  effects d := by
    rw [g.effects, h.effects]
    split <;> simp
  allocated := h.allocated.trans g.allocated
  loop d hd := (g.loop d (hd.trans_le h.allocated)).trans (h.loop d hd)
  owner d hd := (g.owner d (hd.trans_le h.allocated)).trans (h.owner d hd)

theorem gains_record_effect (s : Net) (i : ThreadId) (c : ConnPtr) (e : Effect) :
    Gains s (s.record i c (.effect e)) c [e] where
  effects d := by
    unfold Net.effects record
    by_cases hd : d = c
    · subst hd
      simp
    · simp [hd]
  allocated := Nat.le_refl _
  loop _ _ := rfl
  owner _ _ := rfl

theorem gains_record (s : Net) (i : ThreadId) (c d : ConnPtr) {e : Event}
    (he : e = .accepted ∨ e = .removed) : Gains s (s.record i d e) c [] where
  effects x := by
    unfold Net.effects record
    by_cases hx : x = d
    · subst hx
      rcases he with rfl | rfl <;> simp
    · simp [hx]
  allocated := Nat.le_refl _
  loop _ _ := rfl
  owner _ _ := rfl

theorem gains_setTcp (s : Net) (c d : ConnPtr) (tcp : TcpConnection) :
    Gains s (s.setTcp d tcp) c [] where
  effects _ := by simp [Net.effects, setTcp]
  allocated := Nat.le_refl _
  loop x _ := by
    by_cases hx : x = d
    · subst hx
      simp [setTcp]
    · simp [setTcp, hx]
  owner x _ := by
    by_cases hx : x = d
    · subst hx
      simp [setTcp]
    · simp [setTcp, hx]

theorem failsAt_eq_ok {α : Type} {site : Site} {x : Except Fault α} {a : α}
    (h : failsAt site x = .ok a) : x = .ok a := by
  cases x with
  | error f => cases h
  | ok b => exact congrArg Except.ok (Except.ok.inj h)

theorem updateChannel_gains {events : BitVec 32} (c : ConnPtr) (h : s.updateChannel i d events = .ok t) :
    Gains s t c [] := by
  obtain ⟨p, _, h⟩ := bind_eq_ok h
  obtain rfl := Except.ok.inj h
  exact .of_eq c rfl rfl (Nat.le_refl _)

theorem removeChannel_gains (c : ConnPtr) (h : s.removeChannel i d = .ok t) : Gains s t c [] := by
  obtain ⟨p, _, h⟩ := bind_eq_ok h
  obtain rfl := Except.ok.inj h
  exact .of_eq c rfl rfl (Nat.le_refl _)

theorem removeConnectionInLoop_gains (c : ConnPtr) (h : s.removeConnectionInLoop i k d = .ok t) :
    Gains s t c [] := by
  obtain ⟨_, _, h⟩ := bind_eq_ok h
  obtain ⟨_, _, h⟩ := bind_eq_ok h
  obtain rfl := Except.ok.inj h
  let s' := s.setServer k { s.server k with
    connections_ := update (s.server k).connections_ (s.conn d).name_ none }
  exact ((show Gains s s' c [] from .of_eq c rfl rfl (Nat.le_refl _)).trans
    (gains_record s' i c d (.inr rfl))).trans (.of_eq c rfl rfl (Nat.le_refl _))

theorem clientRemoveConnection_gains (c : ConnPtr) (h : s.clientRemoveConnection i k d = .ok t) :
    Gains s t c [] := by
  obtain ⟨_, _, h⟩ := bind_eq_ok h
  obtain ⟨_, _, h⟩ := bind_eq_ok h
  obtain ⟨_, _, h⟩ := bind_eq_ok h
  obtain rfl := Except.ok.inj h
  exact ((show Gains s (s.setClient k _) c [] from .of_eq c rfl rfl (Nat.le_refl _)).trans
    (gains_record _ i c d (.inr rfl))).trans (.of_eq c rfl rfl (Nat.le_refl _))

theorem effect_gains {e : Effect} (h : effect i c s e = .ok t) : Gains s t c [e] := by
  have hrecord := gains_record_effect s i c e
  have hstep : Gains (s.record i c (.effect e)) t c [] := by
    cases e with
    | updateChannel events => exact updateChannel_gains c h
    | removeChannel => exact removeChannel_gains c h
    | queueWriteComplete =>
      obtain rfl := Except.ok.inj h
      exact .of_eq c rfl rfl (Nat.le_refl _)
    | closeCallback =>
      unfold effect at h
      dsimp only at h
      split at h
      · unfold serverRemoveConnection at h
        dsimp only at h
        split at h
        · exact removeConnectionInLoop_gains c h
        · obtain rfl := Except.ok.inj h
          exact .of_eq c rfl rfl (Nat.le_refl _)
      · exact clientRemoveConnection_gains c h
    | _ =>
      obtain rfl := Except.ok.inj h
      exact .of_eq c rfl rfl (Nat.le_refl _)
  simpa using hrecord.trans hstep

theorem effects_gains (h : es.foldlM (effect i c) s = .ok t) : Gains s t c es := by
  induction es generalizing s with
  | nil =>
    obtain rfl := Except.ok.inj h
    exact .of_eq c rfl rfl (Nat.le_refl _)
  | cons e es ih =>
    rw [List.foldlM_cons] at h
    obtain ⟨u, hu, h⟩ := bind_eq_ok h
    exact (effect_gains hu).trans (ih h)

/-- A function runs in the loop of its connection, and the history gains its trace. -/
theorem perform_gains {f : TcpConnection → Except Fault TcpConnection} (h : s.perform i c f = .ok t) :
    (s.conn c).loop_ = i ∧ ∃ tcp, f (s.conn c).tcp.idle = .ok tcp ∧ Gains s t c tcp.trace := by
  obtain ⟨u, hloop, h⟩ := bind_eq_ok h
  obtain ⟨tcp, hf, h⟩ := bind_eq_ok h
  refine ⟨?_, tcp, failsAt_eq_ok hf, ?_⟩
  · exact (demand_eq_ok (failsAt_eq_ok hloop)).symm
  · exact (gains_setTcp s c c _).trans (effects_gains h)

/-- What the function `f` of `c` has done. -/
def Calls (s t : Net) (c : ConnPtr) (f : ConnFunction) : Prop :=
  ∃ es, es.filter Effect.tells = f.told ∧ Gains s t c es

theorem function_gains {f : ConnFunction} (h : s.perform i c f.run = .ok t) :
    (s.conn c).loop_ = i ∧ Calls s t c f := by
  obtain ⟨hloop, tcp, hrun, hgains⟩ := perform_gains h
  exact ⟨hloop, tcp.trace, ConnFunction.run_told hrun, hgains⟩

/-- What was called, if anything was. -/
def Outcome (s t : Net) : Option (ThreadId × ConnPtr × ConnFunction) → Prop
  | none => ∀ c, Gains s t c []
  | some (i, c, f) => (c < s.allocated → (s.conn c).loop_ = i) ∧ Calls s t c f

theorem Gains.refl (s : Net) (c : ConnPtr) : Gains s s c [] := .of_eq c rfl rfl (Nat.le_refl _)

theorem outcome_perform {f : ConnFunction} (hs : ∀ c, Gains s t c [])
    (h : t.perform i c f.run = .ok u) : Outcome s u (some (i, c, f)) := by
  obtain ⟨hloop, es, hes, hgains⟩ := function_gains h
  refine ⟨?_, es, hes, (hs c).trans hgains⟩
  intro hc
  rw [← (hs c).loop c hc]
  exact hloop

theorem runFunctor_outcome {w : WriteResult} {cb : NetFunctor} (hs : ∀ c, Gains s t c [])
    (h : t.runFunctor i w cb = .ok u) : Outcome s u ((cb.function w).map fun f => (i, f)) := by
  cases cb with
  | connectEstablished c => exact outcome_perform (f := .connectEstablished) hs h
  | connectDestroyed c => exact outcome_perform (f := .connectDestroyed) hs h
  | removeConnectionInLoop k c => exact fun d => (hs d).trans (removeConnectionInLoop_gains d h)
  | sendInLoop c message => exact outcome_perform (f := .sendInLoop message w) hs h
  | shutdownInLoop c => exact outcome_perform (f := .shutdownInLoop) hs h
  | user =>
    obtain rfl := Except.ok.inj h
    exact hs

theorem handle_outcome {r : Buffer.ReadvResult} {w : WriteResult} {handler : Handler}
    (hs : ∀ c, Gains s t c []) (hother : t.other c = s.other c)
    (h : t.handle i r w c handler = .ok u) :
    Outcome s u (if s.other c = none then some (i, c, .handle handler r w) else none) := by
  unfold handle at h
  rw [hother] at h
  by_cases hnone : s.other c = none
  · rw [if_neg (not_not_intro hnone)] at h
    rw [if_pos hnone]
    cases handler with
    | error => exact outcome_perform (f := .handle .error r w) hs h
    | close => exact outcome_perform (f := .handle .close r w) hs h
    | read => exact outcome_perform (f := .handle .read r w) hs h
    | write => exact outcome_perform (f := .handle .write r w) hs h
  · rw [if_pos hnone] at h
    obtain rfl := Except.ok.inj h
    rw [if_neg hnone]
    exact hs

/-- A new connection concerns none of the others. -/
theorem gains_create (s : Net) (i : ThreadId) (conn : Connection) (c : ConnPtr) :
    Gains s (s.create i conn) c [] := by
  let s' := { s with
    conn := update s.conn s.allocated conn
    allocated := s.allocated + 1 }
  have hnew : Gains s s' c [] :=
    { effects := fun d => by simp [s', Net.effects]
      allocated := Nat.le_succ _
      loop := fun d hd => congrArg Connection.loop_ (update_of_ne hd.ne _ _)
      owner := fun d hd => congrArg Connection.owner (update_of_ne hd.ne _ _) }
  exact hnew.trans (gains_record s' i c s.allocated (.inl rfl))

theorem accept_outcome {sockfd : Int} (h : s.serverNewConnection (s.server k).loop_ k sockfd = .ok t) :
    Outcome s t (s.called (.accept k)) := by
  obtain ⟨_, _, h⟩ := bind_eq_ok h
  obtain ⟨_, _, h⟩ := bind_eq_ok h
  obtain ⟨⟨ioLoop, threadPool⟩, hnext, h⟩ := bind_eq_ok h
  have hcalled : s.called (.accept k) = if ioLoop = (s.server k).loop_
      then some (ioLoop, s.allocated, .connectEstablished) else none := by
    simp [called, failsAt_eq_ok hnext]
  rw [hcalled]
  dsimp only [runInLoop] at h
  split at h
  · rename_i hloop
    rw [if_pos hloop.symm, ← hloop]
    refine outcome_perform (f := .connectEstablished) ?_ h
    exact fun c => (gains_create s _ _ c).trans (.of_eq c rfl rfl (Nat.le_refl _))
  · rename_i hloop
    rw [if_neg (Ne.symm hloop)]
    obtain rfl := Except.ok.inj h
    exact fun c => (gains_create s _ _ c).trans (.of_eq c rfl rfl (Nat.le_refl _))

theorem connected_outcome {sockfd : Int} (h : s.clientNewConnection (s.client k).loop_ k sockfd = .ok t) :
    Outcome s t (s.called (.connected k)) := by
  obtain ⟨_, _, h⟩ := bind_eq_ok h
  refine outcome_perform (f := .connectEstablished) ?_ h
  exact fun c => (gains_create s _ _ c).trans (.of_eq c rfl rfl (Nat.le_refl _))

theorem runInLoop_outcome {w : WriteResult} {cb : NetFunctor} (hs : ∀ c, Gains s t c [])
    (h : t.runInLoop i j w cb = .ok u) :
    Outcome s u (if i = j then (cb.function w).map fun f => (i, f) else none) := by
  unfold runInLoop at h
  split at h
  · rename_i hij
    rw [if_pos hij]
    exact runFunctor_outcome hs h
  · rename_i hij
    rw [if_neg hij]
    obtain rfl := Except.ok.inj h
    exact fun c => (hs c).trans (.of_eq c rfl rfl (Nat.le_refl _))

theorem called_destroyed {l : NetLabel} (h : s.called l = some (i, c, .connectDestroyed)) :
    ∃ w batch, l = .functor i w ∧ s.phase i = .functors (.connectDestroyed c :: batch) := by
  unfold called at h
  cases l with
  | functor j w =>
    dsimp only at h
    split at h
    · rename_i cb batch hphase
      cases cb <;> simp [NetFunctor.function] at h
      obtain ⟨rfl, rfl⟩ := h
      exact ⟨w, batch, rfl, hphase⟩
    · cases h
  | _ => grind

theorem called_functor {batch : List NetFunctor} {cb : NetFunctor}
    (hphase : s.phase i = .functors (cb :: batch)) (w : WriteResult) :
    s.called (.functor i w) = (cb.function w).map fun f => (i, f) := by
  simp [called, hphase]

theorem called_handle {l : NetLabel} {handler : Handler} {r : Buffer.ReadvResult} {w : WriteResult}
    (h : s.called l = some (i, c, .handle handler r w)) :
    l = .handle i r w ∧ s.other c = none ∧ ∃ todo, s.phase i = .handling ((c, handler) :: todo) := by
  unfold called at h
  cases l with
  | functor j w =>
    dsimp only at h
    split at h
    · rename_i cb batch hphase
      cases cb <;> simp [NetFunctor.function] at h
    · cases h
  | _ => grind

/-- A step calls the function that `called` names, or none. -/
theorem step_outcome {fd : ChannelPtr → Int} {l : NetLabel} (h : step fd s l = .ok t) :
    Outcome s t (s.called l) := by
  have hphase : ∀ i phase c, Gains s (s.setPhase i phase) c [] :=
    fun _ _ c => .of_eq c rfl rfl (Nat.le_refl _)
  have hcall : ∀ i call c, Gains s (s.setCall i call) c [] :=
    fun _ _ c => .of_eq c rfl rfl (Nat.le_refl _)
  cases l with
  | loop i | again i | quit i =>
    obtain rfl := Except.ok.inj h
    exact hphase i _
  | swap i =>
    obtain rfl := Except.ok.inj h
    exact fun c => .of_eq c rfl rfl (Nat.le_refl _)
  | poll i numEvents revents =>
    obtain ⟨_, _, h⟩ := bind_eq_ok h
    obtain rfl := Except.ok.inj h
    exact fun c => .of_eq c rfl rfl (Nat.le_refl _)
  | handle i r w =>
    dsimp only [step] at h
    dsimp only [called]
    cases hi : s.phase i with
    | handling todo =>
      rcases todo with _ | ⟨⟨c, handler⟩, todo⟩
      · rw [hi] at h
        obtain rfl := Except.ok.inj h
        exact .refl s
      · rw [hi] at h
        exact handle_outcome (hphase i _) rfl h
    | _ =>
      rw [hi] at h
      obtain rfl := Except.ok.inj h
      exact .refl s
  | functor i w =>
    dsimp only [step] at h
    dsimp only [called]
    cases hi : s.phase i with
    | functors batch =>
      rcases batch with _ | ⟨cb, batch⟩
      · rw [hi] at h
        obtain rfl := Except.ok.inj h
        exact .refl s
      · rw [hi] at h
        exact runFunctor_outcome (hphase i _) h
    | _ =>
      rw [hi] at h
      obtain rfl := Except.ok.inj h
      exact .refl s
  | queueInLoop i j =>
    obtain rfl := Except.ok.inj h
    exact fun c => .of_eq c rfl rfl (Nat.le_refl _)
  | send i c message =>
    obtain rfl := Except.ok.inj h
    unfold send
    split
    · exact hcall i _
    · exact .refl s
  | shutdown i c =>
    obtain rfl := Except.ok.inj h
    unfold shutdown
    split
    · exact hcall i _
    · exact .refl s
  | setDisconnecting i =>
    obtain rfl := Except.ok.inj h
    unfold setDisconnecting
    split
    · exact fun d => (gains_setTcp s d _ _).trans (.of_eq d rfl rfl (Nat.le_refl _))
    · exact .refl s
  | runInLoop i w =>
    dsimp only [step] at h
    dsimp only [called]
    cases hi : s.call i with
    | send c message =>
      rw [hi] at h
      exact runInLoop_outcome (hcall i _) h
    | disconnecting c =>
      rw [hi] at h
      exact runInLoop_outcome (hcall i _) h
    | _ =>
      rw [hi] at h
      obtain rfl := Except.ok.inj h
      exact .refl s
  | accept k => exact accept_outcome h
  | connected k => exact connected_outcome h
  | connector k move =>
    dsimp only [step, moveConnector] at h
    cases move with
    | startInLoop connecting =>
      obtain ⟨_, _, h⟩ := bind_eq_ok h
      obtain rfl := Except.ok.inj h
      exact fun c => .of_eq c rfl rfl (Nat.le_refl _)
    | retry | drop =>
      obtain rfl := Except.ok.inj h
      exact fun c => .of_eq c rfl rfl (Nat.le_refl _)
  | enableRetry k | setConnect k connect =>
    obtain rfl := Except.ok.inj h
    exact fun c => .of_eq c rfl rfl (Nat.le_refl _)
  | register i events =>
    obtain ⟨u, hu, h⟩ := bind_eq_ok h
    obtain ⟨p, _, hu⟩ := bind_eq_ok hu
    obtain rfl := Except.ok.inj hu
    obtain rfl := Except.ok.inj h
    exact fun c => .of_eq c rfl rfl (Nat.le_succ _)
  | change i c events => exact fun d => updateChannel_gains d h
  | unregister i c =>
    obtain ⟨u, hu, h⟩ := bind_eq_ok h
    obtain rfl := Except.ok.inj h
    exact fun d => (removeChannel_gains d hu).trans (.of_eq d rfl rfl (Nat.le_refl _))

/-- `connectEstablished` of `c` has run, and `connectDestroyed` has not. -/
def Up (s : Net) (c : ConnPtr) : Prop := 0 < s.times c .established ∧ s.times c .destroyed = 0

theorem Calls.times {f : ConnFunction} (h : Calls s t c f) (d : ConnPtr) {e : Effect}
    (he : e.tells = true) :
    t.times d (.effect e) = s.times d (.effect e) + if d = c then f.told.count e else 0 := by
  obtain ⟨es, hes, hgains⟩ := h
  rw [hgains.times, ← hes, List.count_filter he]

theorem Calls.owner {f : ConnFunction} (h : Calls s t c f) (hd : d < s.allocated) :
    (t.conn d).owner = (s.conn d).owner := by
  obtain ⟨es, _, hgains⟩ := h
  exact hgains.owner d hd

theorem Calls.loop {f : ConnFunction} (h : Calls s t c f) (hd : d < s.allocated) :
    (t.conn d).loop_ = (s.conn d).loop_ := by
  obtain ⟨es, _, hgains⟩ := h
  exact hgains.loop d hd

/-- The history of every connection grows. -/
theorem Outcome.gains {o : Option (ThreadId × ConnPtr × ConnFunction)} (h : Outcome s t o) :
    ∃ c es, Gains s t c es := by
  cases o with
  | none => exact ⟨0, [], h 0⟩
  | some called =>
    obtain ⟨i, c, f⟩ := called
    obtain ⟨_, es, _, hgains⟩ := h
    exact ⟨c, es, hgains⟩

/-- The down callback comes from `connectDestroyed`. -/
theorem Outcome.destroyed {o : Option (ThreadId × ConnPtr × ConnFunction)} (h : Outcome s t o)
    (hs : s.times c .destroyed = 0) (ht : 0 < t.times c .destroyed) :
    ∃ i, o = some (i, c, .connectDestroyed) := by
  cases o with
  | none =>
    rw [(h c).times, hs] at ht
    simp at ht
  | some called =>
    obtain ⟨i, d, f⟩ := called
    rw [h.2.times c rfl, hs, Nat.zero_add] at ht
    split at ht
    · rename_i hcd
      subst hcd
      refine ⟨i, ?_⟩
      have hmem := List.count_pos_iff.mp ht
      unfold ConnFunction.told at hmem
      split at hmem
      · simp at hmem
      · rfl
      · split at hmem <;> simp at hmem
      · cases hmem
    · cases ht

section

variable {K : Kept} {fd : ChannelPtr → Int}

theorem Inv.lt_of_up (hi : Inv K fd s) (h : s.Up c) : c < s.allocated :=
  hi.lt_allocated ((hi.conn c).accepted_pos h.1)

theorem Calls.up_of_ne {f : ConnFunction} (h : Calls s t c f) (hd : d ≠ c) : t.Up d ↔ s.Up d := by
  unfold Up
  rw [h.times d rfl, h.times d rfl, if_neg hd, if_neg hd]
  rfl

theorem Calls.up_same {f : ConnFunction} (h : Calls s t c f) (hest : f ≠ .connectEstablished)
    (hdes : f ≠ .connectDestroyed) : t.Up d ↔ s.Up d := by
  have hnone : ∀ up, f.told.count (.connectionCallback up) = 0 := by
    intro up
    apply List.count_eq_zero_of_not_mem
    intro hmem
    unfold ConnFunction.told at hmem
    split at hmem
    · exact hest rfl
    · exact hdes rfl
    · split at hmem <;> simp at hmem
    · cases hmem
  unfold Up
  rw [h.times d rfl, h.times d rfl, hnone, hnone]
  simp

/-- `connectEstablished` runs once, and first. -/
theorem Calls.established (h : Calls s t c .connectEstablished) (hi : Inv K fd s) (ht : Inv K fd t) :
    t.Up c ∧ ¬ s.Up c := by
  have hest : t.times c .established = s.times c .established + 1 := by
    rw [h.times c rfl, if_pos rfl]
    rfl
  have hdes : t.times c .destroyed = s.times c .destroyed := by
    rw [h.times c rfl, if_pos rfl]
    rfl
  have hone := (ht.conn c).est_le
  have hzero : ¬ 0 < s.times c .destroyed := by
    intro hpos
    have hclosed := (hi.conn c).closed ((hi.conn c).destroyed_closed hpos)
    omega
  unfold Up
  omega

theorem Calls.destroyed (h : Calls s t c .connectDestroyed) : ¬ t.Up c := by
  have hdes : t.times c .destroyed = s.times c .destroyed + 1 := by
    rw [h.times c rfl, if_pos rfl]
    rfl
  unfold Up
  omega

end

end

end Net

end MuduoNet
