import MuduoNet.Net.Keeping
import MuduoNet.Lib.Rotation

/-!
# How a server spreads its connections

`getNextLoop` takes the I/O loops in turn, whatever happens to the connections in between. So the
connections of a server go to its loops by their numbers.
-/
namespace MuduoNet.Net

open Lib Lib.Outcome Function

/-- The loop whose turn it is behind `n` connections. -/
def Setup.turn (e : Setup) (k n : Nat) : ThreadId :=
  (e.ioLoops k)[n % (e.ioLoops k).length]?.getD (e.serverLoop k)

/-- How many connections the server `k` has built before `c`. -/
def builtBefore (s : Net) (k : Nat) (c : ConnPtr) : Nat :=
  (List.range c).countP fun d => (s.conn d).owner = .server k

/-- How many connections the server `k` has built for the loop `a`. -/
def load (s : Net) (k : Nat) (a : ThreadId) : Nat :=
  (List.range s.allocated).countP fun d => (s.conn d).owner = .server k ∧ (s.conn d).loop_ = a

/-- What no step writes but those that build a connection. -/
structure Alike (s t : Net) : Prop where
  allocated : t.allocated = s.allocated
  loop : ∀ c, (t.conn c).loop_ = (s.conn c).loop_
  name : ∀ c, (t.conn c).name_ = (s.conn c).name_
  owner : ∀ c, (t.conn c).owner = (s.conn c).owner
  serverName : ∀ k, (t.server k).name_ = (s.server k).name_
  pool : ∀ k, (t.server k).threadPool_ = (s.server k).threadPool_
  next : ∀ k, (t.server k).nextConnId_ = (s.server k).nextConnId_

section

variable {s t u : Net} {c : ConnPtr} {i j : ThreadId} {k : Nat} {w : WriteResult} {e : Setup}

theorem Alike.refl (s : Net) : Alike s s :=
  ⟨rfl, fun _ => rfl, fun _ => rfl, fun _ => rfl, fun _ => rfl, fun _ => rfl, fun _ => rfl⟩

theorem Alike.of_eq (hallocated : t.allocated = s.allocated) (hconn : t.conn = s.conn)
    (hserver : t.server = s.server) : Alike s t := by
  constructor <;> simp [hallocated, hconn, hserver]

theorem Alike.trans (h : Alike s t) (g : Alike t u) : Alike s u where
  allocated := g.allocated.trans h.allocated
  loop c := (g.loop c).trans (h.loop c)
  name c := (g.name c).trans (h.name c)
  owner c := (g.owner c).trans (h.owner c)
  serverName k := (g.serverName k).trans (h.serverName k)
  pool k := (g.pool k).trans (h.pool k)
  next k := (g.next k).trans (h.next k)

theorem field_update {ι α β : Type} [DecidableEq ι] {g : ι → α} {x : ι} {a : α} (f : α → β)
    (h : f a = f (g x)) (y : ι) : f (update g x a y) = f (g y) := by
  by_cases hy : y = x
  · rw [hy, update_self, h]
  · rw [update_of_ne hy]

theorem alike_keeping : Keeping Alike where
  trans h g := h.trans g
  refl := .refl
  record _ _ _ _ := .of_eq rfl rfl rfl
  setPoller _ _ _ := .of_eq rfl rfl rfl
  setTcp _ _ _ := ⟨rfl, field_update Connection.loop_ rfl, field_update Connection.name_ rfl,
    field_update Connection.owner rfl, fun _ => rfl, fun _ => rfl, fun _ => rfl⟩
  queueInLoop _ _ _ _ := .of_eq rfl rfl rfl
  erase _ _ _ := ⟨rfl, fun _ => rfl, fun _ => rfl, fun _ => rfl, field_update TcpServer.name_ rfl,
    field_update TcpServer.threadPool_ rfl, field_update TcpServer.nextConnId_ rfl⟩
  reset _ _ _ := .of_eq rfl rfl rfl

theorem alike_runInLoop {cb : NetFunctor} (h : s.runInLoop i j w cb = .ok t) : Alike s t := by
  unfold runInLoop at h
  split at h
  · exact alike_keeping.runFunctor h
  · obtain rfl := Except.ok.inj h
    exact .of_eq rfl rfl rfl

theorem updateChannel_alike {events : BitVec 32} (h : s.updateChannel i c events = .ok t) :
    Alike s t := by
  obtain ⟨_, _, h⟩ := bind_eq_ok h
  obtain rfl := Except.ok.inj h
  exact .of_eq rfl rfl rfl

theorem moveConnector_alike {move : ConnectorMove} (h : s.moveConnector k move = .ok t) :
    Alike s t := by
  cases move with
  | startInLoop connecting =>
    obtain ⟨_, _, h⟩ := bind_eq_ok h
    obtain rfl := Except.ok.inj h
    exact .of_eq rfl rfl rfl
  | retry | drop =>
    obtain rfl := Except.ok.inj h
    exact .of_eq rfl rfl rfl

/-- Only three kinds of steps take a new pointer. -/
theorem step_alike {fd : ChannelPtr → Int} {l : NetLabel} (h : step fd s l = .ok t) :
    Alike s t ∨ (∃ k, l = .accept k) ∨ (∃ k, l = .connected k) ∨ ∃ i events, l = .register i events := by
  have hphase : ∀ i phase, Alike s (s.setPhase i phase) := fun _ _ => .of_eq rfl rfl rfl
  have hcall : ∀ i call, Alike s (s.setCall i call) := fun _ _ => .of_eq rfl rfl rfl
  cases l with
  | accept k => exact .inr (.inl ⟨k, rfl⟩)
  | connected k => exact .inr (.inr (.inl ⟨k, rfl⟩))
  | register i events => exact .inr (.inr (.inr ⟨i, events, rfl⟩))
  | loop i | swap i | again i | quit i | queueInLoop i j | enableRetry k | setConnect k connect =>
    obtain rfl := Except.ok.inj h
    exact .inl (.of_eq rfl rfl rfl)
  | send i c message =>
    obtain rfl := Except.ok.inj h
    left
    unfold Net.send
    split
    · exact hcall _ _
    · exact .refl s
  | shutdown i c =>
    obtain rfl := Except.ok.inj h
    left
    unfold Net.shutdown
    split
    · exact hcall _ _
    · exact .refl s
  | setDisconnecting i =>
    obtain rfl := Except.ok.inj h
    left
    unfold Net.setDisconnecting
    split
    · exact (alike_keeping.setTcp _ _ _).trans (.of_eq rfl rfl rfl)
    · exact .refl s
  | poll i numEvents revents =>
    obtain ⟨_, _, h⟩ := bind_eq_ok h
    obtain rfl := Except.ok.inj h
    exact .inl (.of_eq rfl rfl rfl)
  | handle i r w =>
    left
    dsimp only [step] at h
    split at h
    · exact (hphase i _).trans (alike_keeping.handle h)
    · obtain rfl := Except.ok.inj h
      exact .refl s
  | functor i w =>
    left
    dsimp only [step] at h
    split at h
    · exact (hphase i _).trans (alike_keeping.runFunctor h)
    · obtain rfl := Except.ok.inj h
      exact .refl s
  | runInLoop i w =>
    left
    dsimp only [step] at h
    split at h
    · exact (hcall i _).trans (alike_runInLoop h)
    · exact (hcall i _).trans (alike_runInLoop h)
    · obtain rfl := Except.ok.inj h
      exact .refl s
  | connector k move => exact .inl (moveConnector_alike h)
  | change i c events => exact .inl (updateChannel_alike h)
  | unregister i c =>
    obtain ⟨_, hremove, h⟩ := bind_eq_ok h
    obtain ⟨_, _, hremove⟩ := bind_eq_ok hremove
    obtain rfl := Except.ok.inj hremove
    obtain rfl := Except.ok.inj h
    exact .inl (.of_eq rfl rfl rfl)

/-- The number of a connection gives its loop and its name, and the server knows the next one. -/
structure Spread (e : Setup) (s : Net) : Prop where
  unused : ∀ c k, s.allocated ≤ c → (s.conn c).owner ≠ .server k
  pool : ∀ k, (s.server k).threadPool_.loops_ = e.ioLoops k ∧
    (s.server k).threadPool_.baseLoop_ = e.serverLoop k ∧
    (e.ioLoops k ≠ [] →
      (s.server k).threadPool_.next_ = s.builtBefore k s.allocated % (e.ioLoops k).length)
  server : ∀ k, (s.server k).name_ = e.serverName k ∧
    (s.server k).nextConnId_ = s.builtBefore k s.allocated + 1
  conn : ∀ c k, (s.conn c).owner = .server k → (s.conn c).loop_ = e.turn k (s.builtBefore k c) ∧
    (s.conn c).name_ = connName (e.serverName k) (s.builtBefore k c + 1)

theorem builtBefore_congr {n : ConnPtr} (h : ∀ c < n, (t.conn c).owner = (s.conn c).owner) :
    t.builtBefore k n = s.builtBefore k n := by
  apply List.countP_congr
  intro c hc
  rw [h c (List.mem_range.mp hc)]

theorem Spread.alike (h : Spread e s) (ha : Alike s t) : Spread e t where
  unused c k hc := by
    rw [ha.owner]
    exact h.unused c k (ha.allocated ▸ hc)
  pool k := by
    rw [ha.pool, ha.allocated, builtBefore_congr fun c _ => ha.owner c]
    exact h.pool k
  server k := by
    rw [ha.serverName, ha.next, ha.allocated, builtBefore_congr fun c _ => ha.owner c]
    exact h.server k
  conn c k hc := by
    rw [ha.loop, ha.name, builtBefore_congr fun c _ => ha.owner c]
    exact h.conn c k (ha.owner c ▸ hc)

theorem spread_start (e : Setup) : Spread e (start e) where
  unused c k hc := by simp [start]
  pool k := by simp [start, builtBefore]
  server k := by simp [start, builtBefore]
  conn c k hc := by simp [start] at hc

theorem builtBefore_succ (s : Net) (k : Nat) (n : ConnPtr) :
    s.builtBefore k (n + 1) = s.builtBefore k n + if (s.conn n).owner = .server k then 1 else 0 := by
  unfold builtBefore
  rw [List.range_succ, List.countP_append, List.countP_singleton]
  simp

/-- A new pointer that is no connection of a server. -/
theorem Spread.skip (h : Spread e s) (hserver : t.server = s.server)
    (hallocated : t.allocated = s.allocated + 1) (hconn : ∀ c, c ≠ s.allocated → t.conn c = s.conn c)
    (hnew : ∀ k, (t.conn s.allocated).owner ≠ .server k) : Spread e t := by
  have hbefore : ∀ k, ∀ c ≤ s.allocated, t.builtBefore k c = s.builtBefore k c := by
    intro k c hc
    apply builtBefore_congr
    intro d hd
    rw [hconn d (Nat.ne_of_lt (Nat.lt_of_lt_of_le hd hc))]
  have hall : ∀ k, t.builtBefore k t.allocated = s.builtBefore k s.allocated := by
    intro k
    rw [hallocated, builtBefore_succ, if_neg (hnew k), hbefore k _ (Nat.le_refl _), Nat.add_zero]
  refine ⟨?_, ?_, ?_, ?_⟩
  · intro c k hc
    rw [hallocated] at hc
    rw [hconn c (Nat.ne_of_gt hc)]
    exact h.unused c k (Nat.le_of_succ_le hc)
  · intro k
    rw [hserver, hall]
    exact h.pool k
  · intro k
    rw [hserver, hall]
    exact h.server k
  · intro c k hc
    by_cases hcn : c = s.allocated
    · exact absurd (hcn ▸ hc) (hnew k)
    · rw [hconn c hcn] at hc ⊢
      have hlt : c < s.allocated := Nat.lt_of_not_le fun hge => h.unused c k hge hc
      rw [hbefore k c (Nat.le_of_lt hlt)]
      exact h.conn c k hc

/-- What `getNextLoop` gives, and what it leaves. -/
theorem getNextLoop_eq {pool pool' : EventLoopThreadPool} {ioLoop : ThreadId}
    (h : pool.getNextLoop = .ok (ioLoop, pool')) :
    pool'.loops_ = pool.loops_ ∧ pool'.baseLoop_ = pool.baseLoop_ ∧
      (pool.loops_ = [] → ioLoop = pool.baseLoop_) ∧
      (pool.loops_ ≠ [] → pool.loops_[pool.next_]? = some ioLoop ∧
        pool'.next_ = (pool.next_ + 1) % pool.loops_.length) := by
  unfold EventLoopThreadPool.getNextLoop at h
  split at h
  · rename_i hnil
    obtain ⟨rfl, rfl⟩ := Prod.mk.inj (Except.ok.inj h)
    exact ⟨rfl, rfl, fun _ => rfl, fun hne => absurd hnil hne⟩
  · rename_i hne
    split at h
    · cases h
    · rename_i loop hloop
      obtain ⟨rfl, rfl⟩ := Prod.mk.inj (Except.ok.inj h)
      obtain ⟨hlt, _⟩ := List.getElem?_eq_some_iff.mp hloop
      refine ⟨rfl, rfl, fun hnil => absurd hnil hne, fun _ => ⟨hloop, ?_⟩⟩
      rw [Rotation.succ_mod hlt]
      dsimp only
      split <;> split <;> omega

/-- Behind the connection with the next number, the turn is that of the next loop. -/
theorem Spread.build (h : Spread e s) {ioLoop : ThreadId} {pool : EventLoopThreadPool}
    (hloop : (s.server k).threadPool_.getNextLoop = .ok (ioLoop, pool)) (tcp : TcpConnection)
    (connections : String → Option ConnPtr) :
    Spread e ((s.create i ⟨ioLoop, connName (s.server k).name_ (s.server k).nextConnId_, .server k,
      tcp⟩).setServer k { s.server k with
        nextConnId_ := (s.server k).nextConnId_ + 1
        threadPool_ := pool
        connections_ := connections }) := by
  obtain ⟨hloops, hbase, hnil, hcons⟩ := getNextLoop_eq hloop
  obtain ⟨hpool, hbaseLoop, hnext⟩ := h.pool k
  rw [hpool] at hnil hcons hloops
  generalize hconn : (⟨ioLoop, connName (s.server k).name_ (s.server k).nextConnId_, .server k, tcp⟩ :
    Connection) = conn
  generalize hserver : ({ s.server k with
    nextConnId_ := (s.server k).nextConnId_ + 1
    threadPool_ := pool
    connections_ := connections } : TcpServer) = server
  have hnew : ∀ l, ((update s.conn s.allocated conn) s.allocated).owner = .server l ↔ k = l := by
    intro l
    rw [update_self, ← hconn]
    simp
  have hbefore : ∀ l, ∀ c ≤ s.allocated,
      ((s.create i conn).setServer k server).builtBefore l c = s.builtBefore l c := by
    intro l c hc
    apply builtBefore_congr
    intro d hd
    exact congrArg Connection.owner (update_of_ne (Nat.ne_of_lt (Nat.lt_of_lt_of_le hd hc)) _ _)
  have hall : ∀ l, ((s.create i conn).setServer k server).builtBefore l (s.allocated + 1) =
      s.builtBefore l s.allocated + if k = l then 1 else 0 := by
    intro l
    rw [builtBefore_succ, hbefore l _ (Nat.le_refl _)]
    exact congrArg _ (if_congr (hnew l) rfl rfl)
  have hother : ∀ c, c ≠ s.allocated → ((s.create i conn).setServer k server).conn c = s.conn c :=
    fun c hc => update_of_ne hc _ _
  refine ⟨?_, ?_, ?_, ?_⟩
  · intro c l hc
    rw [hother c (Nat.ne_of_gt hc)]
    exact h.unused c l (Nat.le_of_succ_le hc)
  · intro l
    change (update s.server k server l).threadPool_.loops_ = _ ∧
      (update s.server k server l).threadPool_.baseLoop_ = _ ∧
      (_ → (update s.server k server l).threadPool_.next_ = builtBefore _ l (s.allocated + 1) % _)
    rw [hall l]
    by_cases hl : l = k
    · subst hl
      rw [update_self, ← hserver, if_pos rfl]
      refine ⟨hloops, hbase.trans hbaseLoop, ?_⟩
      intro hne
      rw [(hcons hne).2, hnext hne, Nat.mod_add_mod]
    · rw [update_of_ne hl, if_neg (Ne.symm hl)]
      exact h.pool l
  · intro l
    change (update s.server k server l).name_ = _ ∧
      (update s.server k server l).nextConnId_ = (builtBefore _ l (s.allocated + 1) : Nat) + 1
    rw [hall l]
    by_cases hl : l = k
    · subst hl
      rw [update_self, ← hserver, if_pos rfl]
      exact ⟨(h.server l).1, by simp [(h.server l).2]⟩
    · rw [update_of_ne hl, if_neg (Ne.symm hl)]
      exact h.server l
  · intro c l hc
    by_cases hcn : c = s.allocated
    · subst hcn
      obtain rfl := (hnew l).mp hc
      rw [hbefore k _ (Nat.le_refl _)]
      change (update s.conn s.allocated conn s.allocated).loop_ = _ ∧
        (update s.conn s.allocated conn s.allocated).name_ = _
      rw [update_self, ← hconn]
      refine ⟨?_, by rw [(h.server k).1, (h.server k).2]⟩
      unfold Setup.turn
      by_cases hne : e.ioLoops k = []
      · simp [hne, hnil hne, hbaseLoop]
      · rw [← hnext hne, (hcons hne).1]
        rfl
    · rw [hother c hcn] at hc ⊢
      have hlt : c < s.allocated := Nat.lt_of_not_le fun hge => h.unused c l hge hc
      rw [hbefore l c (Nat.le_of_lt hlt)]
      exact h.conn c l hc

theorem spread_step (h : Spread e s) {l : NetLabel} (hs : step e.fd s l = .ok t) : Spread e t := by
  rcases step_alike hs with halike | ⟨k, rfl⟩ | ⟨k, rfl⟩ | ⟨i, events, rfl⟩
  · exact h.alike halike
  · obtain ⟨_, _, hs⟩ := bind_eq_ok hs
    obtain ⟨_, _, hs⟩ := bind_eq_ok hs
    obtain ⟨⟨ioLoop, pool⟩, hloop, hs⟩ := bind_eq_ok hs
    exact (h.build (failsAt_eq_ok hloop) _ _).alike (alike_runInLoop hs)
  · obtain ⟨_, _, hs⟩ := bind_eq_ok hs
    refine (h.skip ?_ ?_ ?_ ?_).alike (alike_keeping.perform (f := (·.connectEstablished)) hs)
    · rfl
    · rfl
    · intro c hc
      exact update_of_ne hc _ _
    · intro k hserver
      change (update s.conn s.allocated _ s.allocated).owner = _ at hserver
      rw [update_self] at hserver
      cases hserver
  · obtain ⟨_, hupdate, hs⟩ := bind_eq_ok hs
    obtain ⟨_, _, hupdate⟩ := bind_eq_ok hupdate
    obtain rfl := Except.ok.inj hupdate
    obtain rfl := Except.ok.inj hs
    exact h.skip rfl rfl (fun _ _ => rfl) fun k => h.unused _ k (Nat.le_refl _)

theorem spread (h : Reachable (machine e.fd) (start e) s) : Spread e s :=
  h.invariant (I := Spread e) (fun _ _ _ hi _ hs => spread_step hi hs) (spread_start e)

theorem Spread.loadBefore (h : Spread e s) (hnodup : (e.ioLoops k).Nodup) {i : Nat}
    (hi : i < (e.ioLoops k).length) (n : ConnPtr) :
    (List.range n).countP (fun d => (s.conn d).owner = .server k ∧ (s.conn d).loop_ = (e.ioLoops k)[i]) =
      Rotation.turns (e.ioLoops k).length (s.builtBefore k n) i := by
  induction n with
  | zero => rw [builtBefore, List.range_zero, List.countP_nil, List.countP_nil, Rotation.turns_zero]
  | succ n ih =>
    rw [builtBefore_succ, List.range_succ, List.countP_append, ih, List.countP_singleton]
    by_cases howner : (s.conn n).owner = .server k
    · have hmod : s.builtBefore k n % (e.ioLoops k).length < (e.ioLoops k).length :=
        Nat.mod_lt _ (by omega)
      have hloop : (s.conn n).loop_ = (e.ioLoops k)[s.builtBefore k n % (e.ioLoops k).length] := by
        rw [(h.conn n k howner).1, Setup.turn, List.getElem?_eq_getElem hmod]
        rfl
      rw [if_pos howner, Rotation.turns_succ hi, hloop]
      simp [howner, hnodup.getElem_inj_iff]
    · simp [howner]

/-- A server gives its connections to its I/O loops in turn, so that none gets ahead of another by
more than one, whatever else happens and whichever connections have been closed. -/
theorem connections_spread (h : Reachable (machine e.fd) (start e) s) (k : Nat) :
    (∀ c, (s.conn c).owner = .server k → (s.conn c).loop_ = e.turn k (s.builtBefore k c) ∧
      (s.conn c).name_ = connName (e.serverName k) (s.builtBefore k c + 1)) ∧
    ((e.ioLoops k).Nodup → ∀ a ∈ e.ioLoops k, ∀ b ∈ e.ioLoops k, s.load k a ≤ s.load k b + 1) := by
  have hi := spread h
  refine ⟨fun c => hi.conn c k, ?_⟩
  intro hnodup a ha b hb
  obtain ⟨x, hx, rfl⟩ := List.getElem_of_mem ha
  obtain ⟨y, hy, rfl⟩ := List.getElem_of_mem hb
  unfold load
  rw [hi.loadBefore hnodup hx, hi.loadBefore hnodup hy]
  exact Rotation.turns_le _ _ _ _

/-- Three connections on two I/O loops, before either loop has run. -/
def threeAccepts : List NetLabel := [.loop 1, .poll 1 0 [], .accept 0, .accept 0, .accept 0]

theorem connections_spread_three : ∃ s,
    Run (machine (small [2, 3]).fd) (start (small [2, 3])) threeAccepts s ∧ s.allocated = 3 ∧
      s.load 0 2 = 2 ∧ s.load 0 3 = 1 ∧ s.load 0 2 ≤ s.load 0 3 + 1 := by
  obtain ⟨s, hr, hallocated, htwo, hthree⟩ : ∃ s,
      Run (machine (small [2, 3]).fd) (start (small [2, 3])) threeAccepts s ∧
        s.allocated = 3 ∧ s.load 0 2 = 2 ∧ s.load 0 3 = 1 :=
    exists_run_of_exec _ (by decide +kernel)
  have hspread := (connections_spread (e := small [2, 3]) ⟨_, hr⟩ 0).2 (by decide)
  exact ⟨s, hr, hallocated, htwo, hthree, hspread 2 (by decide) 3 (by decide)⟩

end

end MuduoNet.Net
