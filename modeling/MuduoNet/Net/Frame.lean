import MuduoNet.Net.Machine

/-!
# What a step leaves alone

A step concerns at most one connection. For every other one nothing changes, and the owners
and loops keep all that the invariant says about them as a whole.
-/
namespace MuduoNet

/-- A functor of a connection's life; the others come from `send` and `shutdown`. -/
def NetFunctor.ofLife : NetFunctor → Bool
  | .connectEstablished _ | .connectDestroyed _ | .removeConnectionInLoop _ _ => true
  | .sendInLoop _ _ | .shutdownInLoop _ | .user => false

namespace Net

open Lib Lib.Outcome Function

/-- The owner has the connection. -/
def Held (s : Net) (c : ConnPtr) : Prop :=
  match (s.conn c).owner with
  | .server k => (s.server k).connections_ (s.conn c).name_ = some c
  | .client k => (s.client k).connection_ = some c

section

variable {s t u : Net} {c d : ConnPtr} {i j : ThreadId}

theorem times_record (s : Net) (i : ThreadId) (c d : ConnPtr) (e f : Event) :
    (s.record i c e).times d f = s.times d f + if d = c ∧ e = f then 1 else 0 := by
  unfold times record
  by_cases hd : d = c
  · subst hd
    by_cases he : e = f <;> simp [he]
  · simp [hd]

theorem functors_queueInLoop (s : Net) (i j : ThreadId) (cb : NetFunctor) :
    (s.queueInLoop j cb).functors i = s.functors i ++ if i = j then [cb] else [] := by
  unfold functors queueInLoop
  by_cases hij : i = j
  · subst hij
    simp
  · simp [hij]

/-- Nothing about `d` has changed, but that a thread may have got further: in a call of `send` or
`shutdown`, or with the handlers. -/
structure Same (s t : Net) (d : ConnPtr) : Prop where
  conn : t.conn d = s.conn d
  history : t.history d = s.history d
  other : t.other d = s.other d
  functors : ∀ i cb, cb.conn = some d → (t.functors i).count cb ≤ (s.functors i).count cb
  ofLife : ∀ i cb, cb.conn = some d → cb.ofLife → (t.functors i).count cb = (s.functors i).count cb
  held : t.Held d ↔ s.Held d
  call : ∀ i, (t.call i).conn = some d → (s.call i).conn = some d
  todo : ∀ i h, (d, h) ∈ (t.phase i).todo → (d, h) ∈ (s.phase i).todo
  channel : ∀ i, ((t.poller i).channel d).events_ = ((s.poller i).channel d).events_ ∧
    (((t.poller i).channel d).index_ < 0 ↔ ((s.poller i).channel d).index_ < 0)

/-- Every owner stays on its loop. -/
structure Loops (s t : Net) : Prop where
  serverLoop : ∀ k, (t.server k).loop_ = (s.server k).loop_
  clientLoop : ∀ k, (t.client k).loop_ = (s.client k).loop_

/-- What the owners and loops as a whole keep. -/
structure Frame (s t : Net) : Prop extends Loops s t where
  allocated : t.allocated = s.allocated
  other : t.other = s.other
  loop : ∀ c, (t.conn c).loop_ = (s.conn c).loop_
  name : ∀ c, (t.conn c).name_ = (s.conn c).name_
  owner : ∀ c, (t.conn c).owner = (s.conn c).owner
  accepted : ∀ c, t.times c .accepted = s.times c .accepted
  destroyed : ∀ c, s.times c .destroyed ≤ t.times c .destroyed
  serverName : ∀ k, (t.server k).name_ = (s.server k).name_
  pool : ∀ k, (t.server k).threadPool_ = (s.server k).threadPool_
  next : ∀ k, (t.server k).nextConnId_ = (s.server k).nextConnId_
  keys : ∀ k x c, (t.server k).connections_ x = some c → (s.server k).connections_ x = some c
  client : ∀ k c, (t.client k).connection_ = some c → (s.client k).connection_ = some c ∧
    (t.client k).connector_ = (s.client k).connector_
  todo : ∀ i, (t.phase i).todo.Sublist (s.phase i).todo

theorem Same.refl (s : Net) (d : ConnPtr) : Same s s d :=
  ⟨rfl, rfl, rfl, fun _ _ _ => Nat.le_refl _, fun _ _ _ _ => rfl, Iff.rfl, fun _ h => h,
    fun _ _ h => h, fun _ => ⟨rfl, Iff.rfl⟩⟩

theorem Same.trans (h : Same s t d) (g : Same t u d) : Same s u d where
  conn := g.conn.trans h.conn
  history := g.history.trans h.history
  other := g.other.trans h.other
  functors i cb hcb := (g.functors i cb hcb).trans (h.functors i cb hcb)
  ofLife i cb hcb hl := (g.ofLife i cb hcb hl).trans (h.ofLife i cb hcb hl)
  held := g.held.trans h.held
  call i hc := h.call i (g.call i hc)
  todo i x hx := h.todo i x (g.todo i x hx)
  channel i := ⟨(g.channel i).1.trans (h.channel i).1, (g.channel i).2.trans (h.channel i).2⟩

theorem Loops.refl (s : Net) : Loops s s := ⟨fun _ => rfl, fun _ => rfl⟩

theorem Frame.refl (s : Net) : Frame s s := by
  refine ⟨.refl s, ?_, ?_, ?_, ?_, ?_, ?_, ?_, ?_, ?_, ?_, ?_, ?_, ?_⟩ <;> intros <;>
    first | rfl | assumption | exact ⟨by assumption, rfl⟩

theorem Frame.trans (h : Frame s t) (g : Frame t u) : Frame s u where
  allocated := g.allocated.trans h.allocated
  other := g.other.trans h.other
  loop c := (g.loop c).trans (h.loop c)
  name c := (g.name c).trans (h.name c)
  owner c := (g.owner c).trans (h.owner c)
  accepted c := (g.accepted c).trans (h.accepted c)
  destroyed c := (h.destroyed c).trans (g.destroyed c)
  serverLoop k := (g.serverLoop k).trans (h.serverLoop k)
  serverName k := (g.serverName k).trans (h.serverName k)
  pool k := (g.pool k).trans (h.pool k)
  next k := (g.next k).trans (h.next k)
  keys k x c hc := h.keys k x c (g.keys k x c hc)
  clientLoop k := (g.clientLoop k).trans (h.clientLoop k)
  client k c hc := by
    obtain ⟨ht, hconn⟩ := g.client k c hc
    obtain ⟨hs, hconn'⟩ := h.client k c ht
    exact ⟨hs, hconn.trans hconn'⟩
  todo i := (g.todo i).trans (h.todo i)

/-- A step that concerns no connection but `c`. -/
structure Touches (s t : Net) (c : ConnPtr) : Prop where
  same : ∀ d, d ≠ c → Same s t d
  frame : Frame s t

theorem Touches.trans (h : Touches s t c) (g : Touches t u c) : Touches s u c :=
  ⟨fun d hd => (h.same d hd).trans (g.same d hd), h.frame.trans g.frame⟩

theorem touches_record (s : Net) (i : ThreadId) (c : ConnPtr) {e : Event} (he : e ≠ .accepted) :
    Touches s (s.record i c e) c where
  same d hd := { Same.refl s d with history := update_of_ne hd _ _ }
  frame := { Frame.refl s with
    accepted := fun d => by simp [times_record, he]
    destroyed := fun d => by simp [times_record] }

theorem touches_setTcp (s : Net) (c : ConnPtr) (tcp : TcpConnection) :
    Touches s (s.setTcp c tcp) c where
  same d hd :=
    have hconn : (s.setTcp c tcp).conn d = s.conn d := update_of_ne hd _ _
    { Same.refl s d with
      conn := hconn
      held := by unfold Held; rw [hconn]; rfl }
  frame :=
    have hkeep : ∀ {α : Type} (f : Connection → α), f { s.conn c with tcp := tcp } = f (s.conn c) →
        ∀ d, f ((s.setTcp c tcp).conn d) = f (s.conn d) := by
      intro α f hf d
      unfold setTcp
      by_cases hd : d = c
      · subst hd
        simpa using hf
      · simp [hd]
    { Frame.refl s with
      loop := hkeep Connection.loop_ rfl
      name := hkeep Connection.name_ rfl
      owner := hkeep Connection.owner rfl }

/-- A functor that is not about `d` is queued. -/
theorem same_queueInLoop (s : Net) (j : ThreadId) {cb : NetFunctor} (hcb : cb.conn ≠ some d) :
    Same s (s.queueInLoop j cb) d :=
  have hcount : ∀ i cb', cb'.conn = some d →
      ((s.queueInLoop j cb).functors i).count cb' = (s.functors i).count cb' := by
    intro i cb' hcb'
    have hne : cb ≠ cb' := by
      rintro rfl
      exact hcb hcb'
    rw [functors_queueInLoop, List.count_append]
    split <;> simp [hne]
  { Same.refl s d with
    functors := fun i cb' hcb' => (hcount i cb' hcb').le
    ofLife := fun i cb' hcb' _ => hcount i cb' hcb' }

theorem frame_queueInLoop (s : Net) (j : ThreadId) (cb : NetFunctor) :
    Frame s (s.queueInLoop j cb) :=
  { Frame.refl s with }

theorem frame_setCall (s : Net) (i : ThreadId) (call : NetCall) : Frame s (s.setCall i call) :=
  { Frame.refl s with }

/-- A thread goes on to handlers and functors that it had before it. -/
theorem same_setPhase (s : Net) (i : ThreadId) {phase : Phase}
    (htodo : phase.todo.Sublist (s.phase i).todo)
    (hbatch : ∀ cb, cb.conn = some d → phase.batch.count cb ≤ (s.phase i).batch.count cb)
    (hlife : ∀ cb, cb.conn = some d → cb.ofLife →
      phase.batch.count cb = (s.phase i).batch.count cb) : Same s (s.setPhase i phase) d :=
  have hfunctors : ∀ j, (s.setPhase i phase).functors j =
      (if j = i then phase.batch else (s.phase j).batch) ++ s.pendingFunctors_ j := by
    intro j
    unfold functors setPhase
    by_cases hij : j = i
    · subst hij
      simp
    · simp [hij]
  { Same.refl s d with
    functors := fun j cb hcb => by
      rw [hfunctors, functors, List.count_append, List.count_append]
      split
      · rename_i hij
        exact Nat.add_le_add_right (hij ▸ hbatch cb hcb) _
      · exact Nat.le_refl _
    ofLife := fun j cb hcb hl => by
      rw [hfunctors, functors, List.count_append, List.count_append]
      split
      · rename_i hij
        rw [hlife cb hcb hl, hij]
      · rfl
    todo := fun j h hh => by
      unfold setPhase at hh
      by_cases hij : j = i
      · subst hij
        exact htodo.subset (by simpa using hh)
      · simpa [hij] using hh }

theorem frame_setPhase (s : Net) (i : ThreadId) {phase : Phase}
    (htodo : phase.todo.Sublist (s.phase i).todo) : Frame s (s.setPhase i phase) :=
  { Frame.refl s with
    todo := fun j => by
      unfold setPhase
      by_cases hij : j = i
      · subst hij
        simpa using htodo
      · simp [hij] }

/-- The thread takes the next functor. -/
theorem same_pop {cb : NetFunctor} {batch : List NetFunctor}
    (hphase : s.phase i = .functors (cb :: batch)) (hcb : cb.conn = some d → cb.ofLife = false) :
    Same s (s.setPhase i (.functors batch)) d := by
  refine same_setPhase s i (List.nil_sublist _) ?_ ?_
  · intro cb' _
    rw [hphase]
    exact List.count_le_count_cons
  · intro cb' hcb' hl
    have hne : cb ≠ cb' := by
      rintro rfl
      simp [hcb hcb'] at hl
    rw [hphase]
    exact (List.count_cons_of_ne hne).symm

/-- A functor of a connection is not one of the user's. -/
theorem functors_user {cb : NetFunctor} (hcb : cb.conn = some d) (n : Nat) :
    (List.replicate n NetFunctor.user).count cb = 0 := by
  apply List.count_eq_zero_of_not_mem
  intro hmem
  obtain rfl := List.eq_of_mem_replicate hmem
  cases hcb

/-- The effects `es` of `c` in the thread `i` have been recorded and have reached the queue, and
the poller has become `p`. -/
def settle (s : Net) (i : ThreadId) (c : ConnPtr) (es : List Effect) (p : Poller) : Net :=
  { s with
    history := update s.history c (s.history c ++ es.map fun e => (.effect e, i))
    pendingFunctors_ := update s.pendingFunctors_ i
      (s.pendingFunctors_ i ++ List.replicate (es.count .queueWriteComplete) .user)
    poller := update s.poller i p }

/-- What an effect does to the poller. -/
def pollerEffect (c : ConnPtr) (p : Poller) : Effect → Except Fault Poller
  | .updateChannel events => p.setEvents c events
  | .removeChannel => p.removeChannel c
  | _ => .ok p

theorem failsAt_bind {α β : Type} (site : Site) (x : Except Fault α) (f : α → Except Fault β) :
    failsAt site (x >>= f) = failsAt site x >>= fun a => failsAt site (f a) := by
  cases x <;> rfl

theorem settle_cons (e : Effect) (es : List Effect) (p q : Poller) :
    (s.settle i c [e] p).settle i c es q = s.settle i c (e :: es) q := by
  by_cases he : e = .queueWriteComplete <;> simp [settle, he, List.replicate_succ]

theorem effect_eq (s : Net) (i : ThreadId) (c : ConnPtr) {e : Effect} (he : e ≠ .closeCallback) :
    effect i c s e = failsAt .poller (pollerEffect c (s.poller i) e) >>= fun p =>
      .ok (s.settle i c [e] p) := by
  cases e with
  | closeCallback => exact absurd rfl he
  | updateChannel events =>
    show failsAt .poller ((s.poller i).setEvents c events) >>= _ =
      failsAt .poller ((s.poller i).setEvents c events) >>= _
    congr
    funext p
    simp [settle, record, setPoller]
    rfl
  | removeChannel =>
    show failsAt .poller ((s.poller i).removeChannel c) >>= _ =
      failsAt .poller ((s.poller i).removeChannel c) >>= _
    congr
    funext p
    simp [settle, record, setPoller]
    rfl
  | _ =>
    show Except.ok _ = Except.ok _
    simp [settle, record, queueInLoop]

/-- Effects other than `closeCallback` only reach the poller and the queue. -/
theorem effects_eq (s : Net) (i : ThreadId) (c : ConnPtr) {es : List Effect}
    (hes : .closeCallback ∉ es) :
    es.foldlM (effect i c) s =
      failsAt .poller (es.foldlM (pollerEffect c) (s.poller i)) >>= fun p =>
        .ok (s.settle i c es p) := by
  induction es generalizing s with
  | nil =>
    show Except.ok s = .ok (s.settle i c [] (s.poller i))
    simp [settle]
  | cons e es ih =>
    have hne : e ≠ .closeCallback := fun he => hes (he ▸ List.mem_cons_self)
    have hes' : .closeCallback ∉ es := fun he => hes (List.mem_cons_of_mem e he)
    rw [List.foldlM_cons, List.foldlM_cons, failsAt_bind, effect_eq s i c hne]
    cases pollerEffect c (s.poller i) e with
    | error f => rfl
    | ok p =>
      show List.foldlM _ (s.settle i c [e] p) es = failsAt .poller (es.foldlM _ p) >>= _
      rw [ih _ hes', show (s.settle i c [e] p).poller i = p from update_self _ _ _]
      simp only [settle_cons]

theorem times_settle (s : Net) (i : ThreadId) (c d : ConnPtr) (es : List Effect) (p : Poller)
    (e : Event) : (s.settle i c es p).times d e =
      s.times d e + if d = c then (es.map Event.effect).count e else 0 := by
  unfold times settle
  by_cases hd : d = c
  · subst hd
    simp [Function.comp_def]
  · simp [hd]

theorem functors_settle (es : List Effect) (p : Poller) {cb : NetFunctor} (hcb : cb.conn = some d)
    (j : ThreadId) : ((s.settle i c es p).functors j).count cb = (s.functors j).count cb := by
  unfold functors settle
  by_cases hj : j = i
  · subst hj
    simp [functors_user hcb]
  · simp [hj]

theorem touches_settle (s : Net) (i : ThreadId) (c : ConnPtr) (es : List Effect) {p : Poller}
    (hp : ∀ d, d ≠ c → (p.channel d).events_ = ((s.poller i).channel d).events_ ∧
      ((p.channel d).index_ < 0 ↔ ((s.poller i).channel d).index_ < 0)) :
    Touches s (s.settle i c es p) c where
  same d hd := { Same.refl s d with
    history := update_of_ne hd _ _
    functors := fun j cb hcb => (functors_settle es p hcb j).le
    ofLife := fun j cb hcb _ => functors_settle es p hcb j
    channel := fun j => by
      unfold settle
      by_cases hij : j = i
      · subst hij
        simpa using hp d hd
      · simp [hij] }
  frame := { Frame.refl s with
    accepted := fun d => by
      have hno : (es.map Event.effect).count .accepted = 0 :=
        List.count_eq_zero_of_not_mem (by simp)
      rw [times_settle, hno]
      split <;> rfl
    destroyed := fun d => by
      rw [times_settle]
      exact Nat.le_add_right _ _ }

/-- A step in which `es` happens to `c`, and its function leaves `tcp`. -/
structure Turn (s t : Net) (c : ConnPtr) (es : List (Event × ThreadId)) (tcp : TcpConnection) :
    Prop extends Touches s t c where
  conn : t.conn c = { s.conn c with tcp := tcp }
  history : t.history c = s.history c ++ es
  call : ∀ i, (t.call i).conn = some c → (s.call i).conn = some c

section

variable {es fs : List (Event × ThreadId)} {tcp tcp' : TcpConnection}

theorem Turn.times (h : Turn s t c es tcp) (e : Event) :
    t.times c e = s.times c e + (es.map Prod.fst).count e := by
  unfold Net.times
  rw [h.history, List.map_append, List.count_append]

theorem Turn.trans (h : Turn s t c es tcp) (g : Turn t u c fs tcp') :
    Turn s u c (es ++ fs) tcp' where
  toTouches := h.toTouches.trans g.toTouches
  conn := by rw [g.conn, h.conn]
  history := by rw [g.history, h.history, List.append_assoc]
  call i hc := h.call i (g.call i hc)

theorem turn_record (s : Net) (i : ThreadId) (c : ConnPtr) {e : Event} (he : e ≠ .accepted) :
    Turn s (s.record i c e) c [(e, i)] (s.conn c).tcp where
  toTouches := touches_record s i c he
  conn := rfl
  history := update_self _ _ _
  call _ h := h

/-- The effects of a function, other than `closeCallback`. -/
theorem turn_settle (s : Net) (i : ThreadId) (c : ConnPtr) (tcp : TcpConnection)
    (es : List Effect) {p : Poller}
    (hp : ∀ d, d ≠ c → (p.channel d).events_ = ((s.poller i).channel d).events_ ∧
      ((p.channel d).index_ < 0 ↔ ((s.poller i).channel d).index_ < 0)) :
    Turn s ((s.setTcp c tcp).settle i c es p) c (es.map fun e => (.effect e, i)) tcp where
  toTouches := (touches_setTcp s c tcp).trans (touches_settle _ i c es hp)
  conn := update_self _ _ _
  history := update_self _ _ _
  call _ h := h

/-- The thread takes the next functor, about `c`. -/
theorem turn_pop {cb : NetFunctor} {batch : List NetFunctor}
    (hphase : s.phase i = .functors (cb :: batch)) (hcb : cb.conn = some c) :
    Turn s (s.setPhase i (.functors batch)) c [] (s.conn c).tcp where
  same d hd := by
    refine same_pop hphase ?_
    intro hcd
    exact absurd (Option.some.inj (hcd.symm.trans hcb)) hd
  frame := frame_setPhase s i (List.nil_sublist _)
  conn := rfl
  history := (List.append_nil _).symm
  call _ h := h

theorem turn_queueInLoop (s : Net) (j : ThreadId) {cb : NetFunctor} (hcb : cb.conn = some c) :
    Turn s (s.queueInLoop j cb) c [] (s.conn c).tcp where
  same d hd := by
    refine same_queueInLoop s j ?_
    intro hcd
    exact hd (Option.some.inj (hcd.symm.trans hcb))
  frame := frame_queueInLoop s j cb
  conn := rfl
  history := (List.append_nil _).symm
  call _ h := h

/-- Of the functors about `c`, those in `out` have left the queues and those in `new` have come. -/
def Moved (s t : Net) (c : ConnPtr) (out new : List (ThreadId × NetFunctor)) : Prop :=
  ∀ i cb, cb.conn = some c →
    (t.functors i).count cb + out.count (i, cb) = (s.functors i).count cb + new.count (i, cb)

variable {out new out' new' : List (ThreadId × NetFunctor)}

theorem Moved.trans (h : Moved s t c out new) (g : Moved t u c out' new') :
    Moved s u c (out ++ out') (new ++ new') := by
  intro i cb hcb
  have hfirst := h i cb hcb
  have hsecond := g i cb hcb
  rw [List.count_append, List.count_append]
  omega

theorem Moved.of_functors (h : ∀ i cb, cb.conn = some c →
    (t.functors i).count cb = (s.functors i).count cb) : Moved s t c [] [] := by
  intro i cb hcb
  rw [h i cb hcb]

theorem moved_queueInLoop (s : Net) (j : ThreadId) (c : ConnPtr) (cb : NetFunctor) :
    Moved s (s.queueInLoop j cb) c [] [(j, cb)] := by
  intro i cb' _
  rw [functors_queueInLoop, List.count_append, List.count_nil, Nat.add_zero]
  by_cases hi : i = j
  · subst hi
    by_cases hcb : cb = cb' <;> simp [hcb]
  · have hne : (j, cb) ≠ (i, cb') := fun h => hi (congrArg Prod.fst h).symm
    simp [hi, hne]

end

end

end Net

end MuduoNet
