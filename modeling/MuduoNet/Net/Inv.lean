import MuduoNet.Net.Frame

/-!
# The invariant of servers, clients and connections

For every connection the invariant counts what has happened to it and the functors about it
that wait: what is to come and what has come make up the life of one connection. It holds
whether or not a connection is closed twice, and whatever is sent; where a run keeps to more,
it says more.
-/
namespace MuduoNet

open Lib Lib.Outcome Function

/-- The place of a handler in `handleEvent`. -/
def Handler.rank : Handler → Nat
  | .error => 0
  | .close => 1
  | .read => 2
  | .write => 3

/-- The events that make up a connection's life. -/
def Event.ofLife : Event → Bool
  | .accepted | .established | .closed | .removed | .destroyed => true
  | _ => false

namespace Net

/-- What a run keeps to. -/
structure Kept where
  /-- No connection is closed twice. -/
  once : Prop
  /-- What is sent on a closed connection leaves nothing to be written later. -/
  quiet : Prop

/-- `c` is registered in the poller of `i`. -/
def Live (s : Net) (i : ThreadId) (c : ChannelPtr) : Prop :=
  ((s.conn c).loop_ = i ∧ 0 < s.times c .established ∧ s.times c .destroyed = 0) ∨
    s.other c = some i

/-- `handleClose` has disabled the channel. -/
def Muted (s : Net) (c : ChannelPtr) : Prop := 0 < s.times c .closed

/-- The waiting calls of `removeConnectionInLoop` for `c`. -/
def removing (s : Net) (c : ConnPtr) : Nat :=
  match (s.conn c).owner with
  | .server k => (s.functors (s.server k).loop_).count (.removeConnectionInLoop k c)
  | .client _ => 0

/-- A functor about `c` may wait in the queue of `i`. -/
def Fits (s : Net) (i : ThreadId) (c : ConnPtr) : NetFunctor → Prop
  | .connectEstablished _ | .connectDestroyed _ => (s.conn c).loop_ = i
  | .sendInLoop _ _ | .shutdownInLoop _ => (s.conn c).loop_ = i ∧ 0 < s.times c .established
  | .removeConnectionInLoop k _ => (s.conn c).owner = .server k ∧ (s.server k).loop_ = i
  | .user => True

/-- The loop of the owner. -/
def ownerLoop (s : Net) (c : ConnPtr) : ThreadId :=
  match (s.conn c).owner with
  | .server k => (s.server k).loop_
  | .client k => (s.client k).loop_

/-- The life of a connection so far, with the threads. -/
def life (s : Net) (c : ConnPtr) : List (Event × ThreadId) := (s.history c).filter fun e => e.1.ofLife

/-- The whole life of a connection. -/
def script (s : Net) (c : ConnPtr) : List (Event × ThreadId) :=
  let base := s.ownerLoop c
  let loop := (s.conn c).loop_
  [(.accepted, base), (.established, loop), (.closed, loop), (.removed, base), (.destroyed, loop)]

/-- `b` may come after `a`: what was closed does not want events, and what has left the poller
does not call it. -/
def MayFollow (a b : Event × ThreadId) : Prop :=
  ∀ events, b.1 = .effect (.updateChannel events) →
    (a.1 = .closed → events = Channel.kNoneEvent) ∧ a.1 ≠ .destroyed ∧ a.1 ≠ .effect .removeChannel

/-- What has happened, and what is bound to happen because it waits in a queue. -/
structure Counts (s : Net) (c : ConnPtr) : Prop where
  accepted : s.times c .accepted ≤ 1
  established : (s.functors (s.conn c).loop_).count (.connectEstablished c) +
    s.times c .established = s.times c .accepted
  removed : s.removing c + s.times c .removed = s.times c .closed
  destroyed : (s.functors (s.conn c).loop_).count (.connectDestroyed c) +
    s.times c .destroyed = s.times c .removed
  once : s.times c .removed ≤ 1
  closed : 0 < s.times c .closed → 0 < s.times c .established
  gone : s.times c (.effect .removeChannel) = s.times c .destroyed

structure ConnInv (K : Kept) (s : Net) (c : ConnPtr) : Prop extends Counts s c where
  held : s.Held c ↔ 0 < s.times c .accepted ∧ s.times c .removed = 0
  fits : ∀ i cb, cb.conn = some c → 0 < (s.functors i).count cb →
    0 < s.times c .accepted ∧ s.Fits i c cb
  called : ∀ i, (s.call i).conn = some c → 0 < s.times c .established
  todo : ∀ i h, (c, h) ∈ (s.phase i).todo → s.Live i c
  fresh : ∀ i, (c, .close) ∈ (s.phase i).todo → s.times c .closed = 0
  connecting : s.times c .established = 0 → (s.conn c).tcp.state_ = .kConnecting
  up : 0 < s.times c .established → s.times c .destroyed = 0 →
    (s.conn c).tcp.state_ = .kConnected ∨ (s.conn c).tcp.state_ = .kDisconnecting
  buffers : (s.conn c).tcp.WfBuffers
  events : 0 < s.times c .established →
    ((s.poller (s.conn c).loop_).channel c).events_ = (s.conn c).tcp.channel_.events_
  unindexed : 0 < s.times c .accepted → s.times c .established = 0 →
    ((s.poller (s.conn c).loop_).channel c).index_ < 0
  stale : 0 < s.times c .destroyed → ¬ ((s.poller (s.conn c).loop_).channel c).index_ < 0
  other : s.other c ≠ none → s.times c .accepted = 0
  life : K.once → s.times c .closed ≤ 1 ∧ s.life c = (s.script c).take (s.times c .accepted +
    s.times c .established + s.times c .closed + s.times c .removed + s.times c .destroyed)
  off : K.quiet → (0 < s.times c .closed → (s.conn c).tcp.channel_.events_ = Channel.kNoneEvent) ∧
    (s.history c).Pairwise MayFollow

/-- How many connections the server `k` has accepted. -/
def acceptedBy (s : Net) (k : Nat) : Nat :=
  (List.range s.allocated).countP fun c =>
    decide (0 < s.times c .accepted ∧ (s.conn c).owner = .server k)

/-- What holds of the servers and the clients. -/
structure Owners (s : Net) : Prop where
  names : ∀ c d k, 0 < s.times c .accepted → 0 < s.times d .accepted →
    (s.conn c).owner = .server k → (s.conn d).owner = .server k →
    (s.conn c).name_ = (s.conn d).name_ → c = d
  numbered : ∀ c k, 0 < s.times c .accepted → (s.conn c).owner = .server k →
    ∃ n < (s.server k).nextConnId_, (s.conn c).name_ = connName (s.server k).name_ n
  counted : ∀ k, (s.server k).nextConnId_ = s.acceptedBy k + 1
  pool : ∀ k, (s.server k).threadPool_.loops_ = [] ∨
    (s.server k).threadPool_.next_ < (s.server k).threadPool_.loops_.length
  keys : ∀ k x c, (s.server k).connections_ x = some c →
    0 < s.times c .accepted ∧ (s.conn c).owner = .server k ∧ (s.conn c).name_ = x
  client : ∀ k c, (s.client k).connection_ = some c → 0 < s.times c .accepted ∧
    (s.conn c).owner = .client k ∧ (s.client k).connector_ = .kConnected
  clientLoop : ∀ c k, 0 < s.times c .accepted → (s.conn c).owner = .client k →
    (s.conn c).loop_ = (s.client k).loop_

/-- What holds of the owners and the loops as a whole. -/
structure Whole (fd : ChannelPtr → Int) (s : Net) : Prop extends Owners s where
  unused : ∀ c, s.allocated ≤ c → s.times c .accepted = 0 ∧ s.other c = none ∧
    ∀ i, ((s.poller i).channel c).index_ < 0
  nonneg : ∀ c, s.Open c → 0 ≤ fd c
  distinct : ∀ c d, s.Open c → s.Open d → fd c = fd d → c = d
  order : ∀ i, (s.phase i).todo.Pairwise (fun a b => a.1 = b.1 → a.2.rank < b.2.rank)

structure Inv (K : Kept) (fd : ChannelPtr → Int) (s : Net) : Prop where
  conn : ∀ c, ConnInv K s c
  registry : ∀ i, Poller.Registry fd (s.poller i) (s.Live i) s.Muted
  whole : Whole fd s

section

variable {K : Kept} {fd : ChannelPtr → Int} {s t : Net} {c d : ConnPtr} {i j : ThreadId} {k : Nat}
  {es : List (Event × ThreadId)} {tcp : TcpConnection} {out new : List (ThreadId × NetFunctor)}

theorem Same.times (h : Same s t d) (e : Event) : t.times d e = s.times d e := by
  unfold Net.times
  rw [h.history]

theorem Same.removing (h : Same s t d) (hf : Loops s t) : t.removing d = s.removing d := by
  unfold Net.removing
  rw [h.conn]
  cases (s.conn d).owner with
  | client k => rfl
  | server k =>
    dsimp only
    rw [hf.serverLoop, h.ofLife _ _ rfl rfl]

theorem Same.fits (h : Same s t d) (hf : Loops s t) (cb : NetFunctor) :
    t.Fits i d cb ↔ s.Fits i d cb := by
  cases cb <;> simp [Fits, h.conn, h.times, hf.serverLoop]

theorem Same.script (h : Same s t d) (hf : Loops s t) : t.script d = s.script d := by
  unfold Net.script Net.ownerLoop
  rw [h.conn]
  cases (s.conn d).owner <;> simp [hf.serverLoop, hf.clientLoop]

theorem ConnInv.same (hi : ConnInv K s d) (h : Same s t d) (hf : Loops s t) :
    ConnInv K t d := by
  refine ⟨⟨?_, ?_, ?_, ?_, ?_, ?_, ?_⟩, ?_, ?_, ?_, ?_, ?_, ?_, ?_, ?_, ?_, ?_, ?_, ?_, ?_, ?_⟩
  · simpa [h.times] using hi.accepted
  · simpa [h.times, h.conn, h.ofLife _ (.connectEstablished d) rfl rfl] using hi.established
  · simpa [h.times, h.removing hf] using hi.removed
  · simpa [h.times, h.conn, h.ofLife _ (.connectDestroyed d) rfl rfl] using hi.destroyed
  · simpa [h.times] using hi.once
  · simpa [h.times] using hi.closed
  · simpa [h.times] using hi.gone
  · simpa [h.times, h.held] using hi.held
  · intro i cb hcb hpos
    obtain ⟨hacc, hfits⟩ := hi.fits i cb hcb (hpos.trans_le (h.functors i cb hcb))
    exact ⟨by simpa [h.times] using hacc, (h.fits hf cb).mpr hfits⟩
  · intro i hcall
    simpa [h.times] using hi.called i (h.call i hcall)
  · intro i x hx
    simpa [Live, h.times, h.conn, h.other] using hi.todo i x (h.todo i x hx)
  · intro i hx
    simpa [h.times] using hi.fresh i (h.todo i .close hx)
  · simpa [h.times, h.conn] using hi.connecting
  · simpa [h.times, h.conn] using hi.up
  · simpa [h.conn] using hi.buffers
  · simpa [h.times, h.conn, (h.channel _).1] using hi.events
  · simpa [h.times, h.conn, (h.channel _).2] using hi.unindexed
  · simpa [h.times, h.conn, (h.channel _).2] using hi.stale
  · simpa [h.times, h.other] using hi.other
  · simpa [h.times, Net.life, h.history, h.script hf] using hi.life
  · simpa [h.times, h.history, h.conn] using hi.off

theorem times_pos {e : Event} : 0 < s.times c e ↔ ∃ x ∈ s.history c, x.1 = e := by
  unfold times
  rw [List.count_pos_iff, List.mem_map]

/-- What happens next may follow, if what it hands to the poller may. -/
theorem ConnInv.mayFollow (hi : ConnInv K s c) (hk : K.quiet) (hes : es.Pairwise MayFollow)
    (hend : ∀ events, ∀ x ∈ es, x.1 = .effect (.updateChannel events) →
      (0 < s.times c .closed → events = Channel.kNoneEvent) ∧ s.times c .destroyed = 0) :
    (s.history c ++ es).Pairwise MayFollow := by
  refine List.pairwise_append.mpr ⟨(hi.off hk).2, hes, ?_⟩
  intro a ha b hb events hev
  obtain ⟨hnone, hdes⟩ := hend events b hb hev
  refine ⟨fun h => hnone (times_pos.mpr ⟨a, ha, h⟩), ?_, ?_⟩
  · intro h
    have := times_pos.mpr ⟨a, ha, h⟩
    omega
  · intro h
    have := times_pos.mpr ⟨a, ha, h⟩
    have := hi.gone
    omega

theorem Turn.removing_server (h : Turn s t c es tcp) (hm : Moved s t c out new)
    (howner : (s.conn c).owner = .server k) :
    t.removing c + out.count ((s.server k).loop_, .removeConnectionInLoop k c) =
      s.removing c + new.count ((s.server k).loop_, .removeConnectionInLoop k c) := by
  have hbefore : s.removing c =
      (s.functors (s.server k).loop_).count (.removeConnectionInLoop k c) := by
    rw [removing, howner]
  have hafter : t.removing c =
      (t.functors (s.server k).loop_).count (.removeConnectionInLoop k c) := by
    rw [removing, h.frame.owner, howner]
    dsimp only
    rw [h.frame.serverLoop]
  rw [hbefore, hafter]
  exact hm _ _ rfl

/-- No call of `removeConnectionInLoop` is queued or taken. -/
theorem Turn.removing (h : Turn s t c es tcp) (hm : Moved s t c out new)
    (hnone : ∀ j k, out.count (j, .removeConnectionInLoop k c) =
      new.count (j, .removeConnectionInLoop k c)) : t.removing c = s.removing c := by
  cases howner : (s.conn c).owner with
  | client k =>
    unfold Net.removing
    rw [h.frame.owner, howner]
  | server k =>
    have hmoved := h.removing_server hm howner
    rw [hnone] at hmoved
    exact Nat.add_right_cancel hmoved

/-- Whether the owner has the connection is the owner's business. -/
theorem Turn.held (h : Turn s t c es tcp) (hserver : t.server = s.server)
    (hclient : t.client = s.client) : t.Held c ↔ s.Held c := by
  unfold Held
  rw [h.conn, hserver, hclient]

/-- A step keeps the counts if what comes about in it was waiting, or is queued. -/
theorem Counts.turn (hi : Counts s c) (h : Turn s t c es tcp) (hm : Moved s t c out new)
    (hestablished : (es.map Prod.fst).count .established +
        new.count ((s.conn c).loop_, .connectEstablished c) =
      out.count ((s.conn c).loop_, .connectEstablished c))
    (hremoved : t.removing c + (es.map Prod.fst).count .removed =
      s.removing c + (es.map Prod.fst).count .closed)
    (hdestroyed : (es.map Prod.fst).count .destroyed +
        new.count ((s.conn c).loop_, .connectDestroyed c) =
      (es.map Prod.fst).count .removed + out.count ((s.conn c).loop_, .connectDestroyed c))
    (hgone : (es.map Prod.fst).count (.effect .removeChannel) = (es.map Prod.fst).count .destroyed)
    (honce : t.times c .removed ≤ 1) (hest : 0 < t.times c .established) : Counts t c := by
  have hacc := h.frame.accepted c
  have hest' := h.times .established
  have hclo := h.times .closed
  have hrem := h.times .removed
  have hdes := h.times .destroyed
  have hloop := h.frame.loop c
  refine ⟨?_, ?_, ?_, ?_, honce, fun _ => hest, ?_⟩
  · rw [hacc]
    exact hi.accepted
  · have hold := hi.established
    have hqueue := hm (s.conn c).loop_ (.connectEstablished c) rfl
    rw [hloop]
    omega
  · have hold := hi.removed
    omega
  · have hold := hi.destroyed
    have hqueue := hm (s.conn c).loop_ (.connectDestroyed c) rfl
    rw [hloop]
    omega
  · have hold := hi.gone
    have hgone' := h.times (.effect .removeChannel)
    omega

theorem length_ofLife (es : List (Event × ThreadId)) :
    (es.filter fun e => e.1.ofLife).length = (es.map Prod.fst).count .accepted +
      (es.map Prod.fst).count .established + (es.map Prod.fst).count .closed +
      (es.map Prod.fst).count .removed + (es.map Prod.fst).count .destroyed := by
  induction es with
  | nil => rfl
  | cons e es ih =>
    have hone : (if e.1.ofLife then 1 else 0) = (if e.1 = .accepted then 1 else 0) +
        (if e.1 = .established then 1 else 0) + (if e.1 = .closed then 1 else 0) +
        (if e.1 = .removed then 1 else 0) + if e.1 = .destroyed then 1 else 0 := by
      obtain ⟨_ | (_ | _ | _ | _ | _ | _ | _ | (_ | _) | _ | _) | _, i⟩ := e <;> rfl
    have hlength : ((e :: es).filter fun e => e.1.ofLife).length =
        (es.filter fun e => e.1.ofLife).length + if e.1.ofLife then 1 else 0 := by
      rw [List.filter_cons]
      split <;> rfl
    rw [hlength, ih, hone]
    simp only [List.map_cons, List.count_cons, beq_iff_eq]
    omega

/-- How far a connection has come in its life. -/
def reached (s : Net) (c : ConnPtr) : Nat :=
  s.times c .accepted + s.times c .established + s.times c .closed + s.times c .removed +
    s.times c .destroyed

theorem Turn.reached (h : Turn s t c es tcp) :
    t.reached c = s.reached c + (es.filter fun e => e.1.ofLife).length := by
  unfold Net.reached
  rw [length_ofLife]
  simp only [h.times]
  omega

/-- What is left to show of an established connection to which something has happened. -/
theorem ConnInv.turn (hi : ConnInv K s c) (h : Turn s t c es tcp) (hm : Moved s t c out new)
    (hpos : 0 < s.times c .accepted) (hest : 0 < t.times c .established) (hcounts : Counts t c)
    (hheld : t.Held c ↔ 0 < t.times c .accepted ∧ t.times c .removed = 0)
    (hnew : ∀ x ∈ new, t.Fits x.1 c x.2)
    (htodo : ∀ i h, (c, h) ∈ (t.phase i).todo → t.times c .destroyed = s.times c .destroyed)
    (hfresh : ∀ i, (c, .close) ∈ (t.phase i).todo → t.times c .closed = s.times c .closed)
    (hup : t.times c .destroyed = 0 → tcp.state_ = .kConnected ∨ tcp.state_ = .kDisconnecting)
    (hwf : tcp.WfBuffers)
    (hevents : ((t.poller (s.conn c).loop_).channel c).events_ = tcp.channel_.events_)
    (hstale : 0 < t.times c .destroyed → ¬ ((t.poller (s.conn c).loop_).channel c).index_ < 0)
    (hlife : K.once → t.times c .closed ≤ 1 ∧
      (es.filter fun e => e.1.ofLife) <+: (s.script c).drop (s.reached c))
    (hoff : K.quiet → (0 < t.times c .closed → tcp.channel_.events_ = Channel.kNoneEvent) ∧
      (s.history c ++ es).Pairwise MayFollow) : ConnInv K t c := by
  have hf := h.frame
  have hacc : t.times c .accepted = s.times c .accepted := hf.accepted c
  have hscript : t.script c = s.script c := by
    unfold script ownerLoop
    rw [h.conn]
    cases (s.conn c).owner <;> simp [hf.serverLoop, hf.clientLoop]
  refine ⟨hcounts, hheld, ?_, fun _ _ => hest, ?_, ?_, ?_, ?_, ?_, ?_, ?_, ?_, ?_, ?_, ?_⟩
  · intro i cb hcb hcount
    refine ⟨by rwa [hacc], ?_⟩
    by_cases hmem : (i, cb) ∈ new
    · exact hnew _ hmem
    · have hmoved := hm i cb hcb
      rw [List.count_eq_zero_of_not_mem hmem] at hmoved
      have hfit := (hi.fits i cb hcb (by omega)).2
      cases cb <;> simp_all [Fits, h.conn, hf.serverLoop]
  · intro i x hx
    have hold := hi.todo i x ((hf.todo i).subset hx)
    unfold Live
    rw [htodo i x hx, h.conn, hf.other]
    exact hold.imp_left fun ⟨hloop, _, hd⟩ => ⟨hloop, hest, hd⟩
  · intro i hx
    rw [hfresh i hx]
    exact hi.fresh i ((hf.todo i).subset hx)
  · omega
  · rw [h.conn]
    exact fun _ => hup
  · rw [h.conn]
    exact hwf
  · rw [h.conn]
    exact fun _ => hevents
  · omega
  · rw [h.conn]
    exact hstale
  · rw [hf.other, hacc]
    exact hi.other
  · intro hk
    obtain ⟨hle, hnext⟩ := hlife hk
    refine ⟨hle, ?_⟩
    calc t.life c
        = s.life c ++ es.filter fun e => e.1.ofLife := by
          rw [Net.life, h.history, List.filter_append]
          rfl
      _ = (s.script c).take (s.reached c) ++ ((s.script c).drop (s.reached c)).take
            (es.filter fun e => e.1.ofLife).length := by
          rw [(hi.life hk).2, ← List.prefix_iff_eq_take.mp hnext]
          rfl
      _ = (t.script c).take (t.reached c) := by
          rw [← List.take_add, hscript, h.reached]
  · intro hk
    rw [h.conn, h.history]
    exact hoff hk

theorem Open.of_frame (hf : Frame s t) (h : t.Open d) : s.Open d := by
  rcases h with ⟨hacc, hdes⟩ | hother
  · left
    rw [hf.accepted] at hacc
    have := hf.destroyed d
    omega
  · right
    rwa [← hf.other]

theorem Owners.frame (hi : Owners s) (hf : Frame s t) : Owners t := by
  constructor
  · simpa [hf.accepted, hf.owner, hf.name] using hi.names
  · simpa [hf.accepted, hf.owner, hf.name, hf.next, hf.serverName] using hi.numbered
  · simpa [acceptedBy, hf.accepted, hf.owner, hf.next, hf.allocated] using hi.counted
  · simpa [hf.pool] using hi.pool
  · intro k x d hd
    simpa [hf.accepted, hf.owner, hf.name] using hi.keys k x d (hf.keys k x d hd)
  · intro k d hd
    obtain ⟨hd', hconn⟩ := hf.client k d hd
    simpa [hf.accepted, hf.owner, hconn] using hi.client k d hd'
  · simpa [hf.accepted, hf.owner, hf.loop, hf.clientLoop] using hi.clientLoop

theorem Whole.frame (hi : Whole fd s) (hf : Frame s t) (hidx : ∀ d, s.allocated ≤ d →
    ∀ i, ((t.poller i).channel d).index_ < 0 ↔ ((s.poller i).channel d).index_ < 0) :
    Whole fd t := by
  refine ⟨hi.toOwners.frame hf, ?_, ?_, ?_, ?_⟩
  · intro d hd
    rw [hf.allocated] at hd
    obtain ⟨hacc, hother, hneg⟩ := hi.unused d hd
    refine ⟨by rw [hf.accepted, hacc], by rw [hf.other, hother], ?_⟩
    intro i
    rw [hidx d hd]
    exact hneg i
  · intro d hd
    exact hi.nonneg d (hd.of_frame hf)
  · intro d e hd he
    exact hi.distinct d e (hd.of_frame hf) (he.of_frame hf)
  · intro i
    exact (hi.order i).sublist (hf.todo i)

/-- A step that concerns `c` keeps the invariant if it keeps what the invariant says of `c`. -/
theorem Inv.touches (hi : Inv K fd s) (h : Touches s t c) (hc : c < s.allocated)
    (hconn : ConnInv K t c) (hreg : ∀ i, Poller.Registry fd (t.poller i) (t.Live i) t.Muted) :
    Inv K fd t := by
  refine ⟨?_, hreg, hi.whole.frame h.frame ?_⟩
  · intro d
    by_cases hd : d = c
    · exact hd ▸ hconn
    · exact (hi.conn d).same (h.same d hd) h.frame.toLoops
  · intro d hd i
    have hdc : d ≠ c := Nat.ne_of_gt (Nat.lt_of_lt_of_le hc hd)
    exact ((h.same d hdc).channel i).2

theorem Inv.lt_allocated (hi : Inv K fd s) (hc : 0 < s.times c .accepted) : c < s.allocated := by
  by_contra hge
  have hzero := (hi.whole.unused c (Nat.le_of_not_lt hge)).1
  omega

theorem Inv.open_lt (hi : Inv K fd s) (hc : s.Open c) : c < s.allocated := by
  by_contra hge
  obtain ⟨hacc, hnone, _⟩ := hi.whole.unused c (Nat.le_of_not_lt hge)
  rcases hc with ⟨hpos, _⟩ | hsome
  · omega
  · exact hsome hnone

/-- No two descriptors come to agree if at most `c` is opened, and that with a free one. -/
theorem Whole.descriptors (hi : Whole fd s) (hopen : ∀ d, d ≠ c → t.Open d → s.Open d)
    (hfree : t.Open c → 0 ≤ fd c ∧ ∀ d, d ≠ c → s.Open d → fd d ≠ fd c) :
    (∀ d, t.Open d → 0 ≤ fd d) ∧ ∀ d e, t.Open d → t.Open e → fd d = fd e → d = e := by
  constructor
  · intro d hd
    by_cases hdc : d = c
    · subst hdc
      exact (hfree hd).1
    · exact hi.nonneg d (hopen d hdc hd)
  · intro d e hd he hfd
    by_cases hdc : d = c <;> by_cases hec : e = c
    · rw [hdc, hec]
    · subst hdc
      exact absurd hfd.symm ((hfree hd).2 e hec (hopen e hec he))
    · subst hec
      exact absurd hfd ((hfree he).2 d hdc (hopen d hdc hd))
    · exact hi.distinct d e (hopen d hdc hd) (hopen e hec he) hfd

theorem ConnInv.accepted_pos (hi : ConnInv K s c) (h : 0 < s.times c .established) :
    0 < s.times c .accepted := by
  have := hi.established
  omega

theorem ConnInv.other_none (hi : ConnInv K s c) (h : 0 < s.times c .accepted) :
    s.other c = none := by
  by_contra hne
  have := hi.other hne
  omega

/-- The handlers of a connection are called on its loop. -/
theorem ConnInv.todo_loop (hi : ConnInv K s c) (hpos : 0 < s.times c .accepted) {h : Handler}
    (hmem : (c, h) ∈ (s.phase i).todo) : (s.conn c).loop_ = i := by
  rcases hi.todo i h hmem with ⟨hloop, _⟩ | hother
  · exact hloop
  · rw [hi.other_none hpos] at hother
    cases hother

theorem ConnInv.destroyed_closed (hi : ConnInv K s c) (h : 0 < s.times c .destroyed) :
    0 < s.times c .closed := by
  have hdes := hi.destroyed
  have hrem := hi.removed
  omega

/-- `c` concerns no poller but that of the thread `i`, which becomes `q`. -/
theorem Inv.registries_update (hi : Inv K fd s) (hsame : ∀ d, d ≠ c → Same s t d) {q : Poller}
    {live muted : ChannelPtr → Prop} (hpoll : t.poller = update s.poller i q)
    (hreg : Poller.Registry fd q live muted) (hlive : ∀ d, d ≠ c → (live d ↔ s.Live i d))
    (hlive' : live c ↔ t.Live i c) (hmuted : ∀ d, d ≠ c → s.Muted d → muted d)
    (hmuted' : t.Muted c → muted c) (hnot : ∀ j, j ≠ i → ¬ s.Live j c ∧ ¬ t.Live j c) :
    ∀ j, Poller.Registry fd (t.poller j) (t.Live j) t.Muted := by
  intro j
  have hkept : ∀ d, d ≠ c → (t.Live j d ↔ s.Live j d) ∧ (t.Muted d ↔ s.Muted d) := by
    intro d hd
    have hd := hsame d hd
    simp [Live, Muted, hd.times, hd.conn, hd.other]
  by_cases hj : j = i
  · subst hj
    rw [hpoll, update_self]
    refine hreg.congr ?_ ?_
    · intro d
      by_cases hd : d = c
      · rw [hd, hlive']
      · rw [(hkept d hd).1, hlive d hd]
    · intro d _ hm
      by_cases hd : d = c
      · rw [hd] at hm ⊢
        exact hmuted' hm
      · exact hmuted d hd ((hkept d hd).2.mp hm)
  · obtain ⟨hbefore, hafter⟩ := hnot j hj
    rw [hpoll, update_of_ne hj]
    refine (hi.registry j).congr ?_ ?_
    · intro d
      by_cases hd : d = c
      · rw [hd]
        exact iff_of_false hafter hbefore
      · exact (hkept d hd).1
    · intro d hd hm
      have hdc : d ≠ c := by
        rintro rfl
        exact hbefore hd
      exact (hkept d hdc).2.mp hm

/-- A connection concerns no poller but that of its loop, which becomes `q`. -/
theorem Inv.registries (hi : Inv K fd s) (h : Touches s t c) (hother : s.other c = none)
    {q : Poller} {live muted : ChannelPtr → Prop}
    (hpoll : t.poller = update s.poller (s.conn c).loop_ q) (hreg : Poller.Registry fd q live muted)
    (hlive : ∀ d, d ≠ c → (live d ↔ s.Live (s.conn c).loop_ d))
    (hlive' : live c ↔ t.Live (s.conn c).loop_ c) (hmuted : ∀ d, d ≠ c → s.Muted d → muted d)
    (hmuted' : t.Muted c → muted c) :
    ∀ j, Poller.Registry fd (t.poller j) (t.Live j) t.Muted := by
  refine hi.registries_update h.same hpoll hreg hlive hlive' hmuted hmuted' ?_
  intro j hj
  constructor
  · simp [Live, hother, Ne.symm hj]
  · simp [Live, h.frame.loop, h.frame.other, hother, Ne.symm hj]

/-- A step that changes nothing about any connection. -/
theorem Inv.untouched (hi : Inv K fd s) (hs : ∀ d, Same s t d) (hf : Frame s t)
    (hp : t.poller = s.poller) : Inv K fd t := by
  refine ⟨fun d => (hi.conn d).same (hs d) hf.toLoops, ?_, hi.whole.frame hf (by simp [hp])⟩
  intro j
  rw [hp]
  refine (hi.registry j).congr ?_ ?_
  · intro d
    simp [Live, (hs d).times, (hs d).conn, (hs d).other]
  · intro d _ hm
    simpa [Muted, (hs d).times] using hm

end

end Net

end MuduoNet
