import MuduoNet.Net.Threads
import Mathlib

/-!
# New connections, connectors and other channels

An owner builds a connection and hands it to its loop. The names of a server's connections
differ because their numbers do.
-/
namespace MuduoNet.Net

open Lib Lib.Outcome Function TcpConnection

section

variable {K : Kept} {fd : ChannelPtr → Int} {s t : Net} {c d : ConnPtr} {i j : ThreadId} {k : Nat}

theorem connName_injective (name : String) {m n : Int} (h : connName name m = connName name n) :
    m = n := by
  unfold connName at h
  have hrepr : Int.repr m = Int.repr n := by simpa using h
  exact Int.repr_injective hrepr

theorem getNextLoop_sat {pool : EventLoopThreadPool}
    (h : pool.loops_ = [] ∨ pool.next_ < pool.loops_.length) :
    Sat Nothing pool.getNextLoop (fun r => r.2.loops_ = pool.loops_ ∧
      (r.2.loops_ = [] ∨ r.2.next_ < r.2.loops_.length)) := by
  unfold EventLoopThreadPool.getNextLoop
  by_cases hnil : pool.loops_ = []
  · rw [if_pos hnil]
    exact ⟨rfl, h⟩
  · have hlt := h.resolve_left hnil
    have hpos := List.length_pos_iff.mpr hnil
    rw [if_neg hnil, List.getElem?_eq_getElem hlt]
    refine ⟨rfl, .inr ?_⟩
    dsimp only
    split
    · exact hpos
    · omega

/-- Nothing has happened to what is no connection, and nothing about it waits. -/
theorem Inv.fresh (hi : Inv K fd s) (hacc : s.times c .accepted = 0) :
    (∀ e, e.ofLife = true ∨ e = .effect .removeChannel → s.times c e = 0) ∧
      (∀ j cb, cb.conn = some c → (s.functors j).count cb = 0) ∧
      (∀ j, (s.call j).conn ≠ some c) ∧ ∀ j h, (c, h) ∈ (s.phase j).todo → s.other c = some j := by
  have hv := hi.conn c
  have hest := hv.established
  have hrem := hv.removed
  have hdes := hv.destroyed
  have hclosed := hv.closed
  have hest₀ : s.times c .established = 0 := by omega
  have hclosed₀ : s.times c .closed = 0 := by omega
  have hrem₀ : s.times c .removed = 0 := by omega
  have hdes₀ : s.times c .destroyed = 0 := by omega
  refine ⟨?_, ?_, ?_, ?_⟩
  · rintro e (he | rfl)
    · rcases e with _ | e | _
      · exact hacc
      · cases e with
        | connectionCallback up =>
          cases up with
          | false => exact hdes₀
          | true => exact hest₀
        | closeCallback => exact hclosed₀
        | _ => cases he
      · exact hrem₀
    · exact hv.gone.trans hdes₀
  · intro j cb hcb
    by_contra hne
    have := (hv.fits j cb hcb (Nat.pos_of_ne_zero hne)).1
    omega
  · intro j hcall
    have := hv.called j hcall
    omega
  · intro j h hmem
    refine (hv.todo j h hmem).resolve_left ?_
    rintro ⟨_, hpos, _⟩
    omega

/-- A connection has been built: its owner has stored it, and its `connectEstablished` waits. -/
def created (s : Net) (i : ThreadId) (conn : Connection) (server : Nat → TcpServer)
    (client : Nat → TcpClient) : Net :=
  { (s.create i conn).queueInLoop conn.loop_ (.connectEstablished s.allocated) with
    server := server
    client := client }

section

variable {conn : Connection} {server : Nat → TcpServer} {client : Nat → TcpClient} {w : Bool}

theorem times_created (d : ConnPtr) (e : Event) : (s.created i conn server client).times d e =
      s.times d e + if d = s.allocated ∧ .accepted = e then 1 else 0 := by
  exact times_record _ i s.allocated d .accepted e

theorem functors_created (j : ThreadId) (cb : NetFunctor) :
    ((s.created i conn server client).functors j).count cb = (s.functors j).count cb +
        if j = conn.loop_ ∧ cb = .connectEstablished s.allocated then 1 else 0 := by
  show (((s.create i conn).queueInLoop _ _).functors j).count cb = _
  rw [functors_queueInLoop, List.count_append]
  show (s.functors j).count cb + _ = _
  by_cases hj : j = conn.loop_ <;> by_cases hcb : cb = .connectEstablished s.allocated <;>
    simp [hj, hcb, eq_comm (b := cb)]

theorem accepted_created : 0 < (s.created i conn server client).times d .accepted ↔
    d = s.allocated ∨ 0 < s.times d .accepted := by
  rw [times_created]
  by_cases hd : d = s.allocated <;> simp [hd]

theorem conn_created (hd : d ≠ s.allocated) :
    (s.created i conn server client).conn d = s.conn d :=
  update_of_ne hd _ _

theorem conn_created_self : (s.created i conn server client).conn s.allocated = conn :=
  update_self _ _ _

theorem acceptedBy_created (k : Nat) : (s.created i conn server client).acceptedBy k =
    s.acceptedBy k + if conn.owner = .server k then 1 else 0 := by
  unfold acceptedBy
  show (List.range (s.allocated + 1)).countP _ = _
  rw [List.range_succ, List.countP_append, List.countP_singleton]
  congr 1
  · apply List.countP_congr
    intro d hd
    have hne : d ≠ s.allocated := Nat.ne_of_lt (List.mem_range.mp hd)
    simp only [accepted_created, conn_created hne, hne, false_or]
  · simp [accepted_created, conn_created_self]

theorem same_created (hd : d ≠ s.allocated)
    (hheld : (s.created i conn server client).Held d ↔ s.Held d) :
    Same s (s.created i conn server client) d := by
  have hne : ∀ {cb : NetFunctor}, cb.conn = some d → cb ≠ .connectEstablished s.allocated := by
    rintro cb hcb rfl
    exact hd (Option.some.inj hcb).symm
  refine ⟨conn_created hd, update_of_ne hd _ _, rfl, ?_, ?_, hheld, fun _ h => h, fun _ _ h => h,
    fun _ => ⟨rfl, Iff.rfl⟩⟩
  · intro j cb hcb
    simp [functors_created, hne hcb]
  · intro j cb hcb _
    simp [functors_created, hne hcb]

variable (i conn server client) in
/-- Nothing has happened to the new connection but that it has been accepted. -/
theorem Inv.times_new (hi : Inv K fd s) :
    (s.created i conn server client).times s.allocated .accepted = 1 ∧
      ∀ e, e.ofLife = true ∨ e = .effect .removeChannel → e ≠ .accepted →
        (s.created i conn server client).times s.allocated e = 0 := by
  have hacc := (hi.whole.unused s.allocated (Nat.le_refl _)).1
  constructor
  · rw [times_created, hacc]
    simp
  · intro e he hne
    rw [times_created, (hi.fresh hacc).1 e he, if_neg (by simp [Ne.symm hne])]

/-- Only `connectEstablished` waits for the new connection. -/
theorem Inv.counts_new (hi : Inv K fd s) :
    Counts (s.created i conn server client) s.allocated := by
  have hacc := (hi.whole.unused s.allocated (Nat.le_refl _)).1
  have hfunctors := (hi.fresh hacc).2.1
  obtain ⟨hone, hzero⟩ := hi.times_new i conn server client
  have hest := hzero .established (.inl rfl) (by simp)
  have hclosed := hzero .closed (.inl rfl) (by simp)
  have hrem := hzero .removed (.inl rfl) (by simp)
  have hdes := hzero .destroyed (.inl rfl) (by simp)
  refine ⟨?_, ?_, ?_, ?_, ?_, ?_, ?_⟩
  · omega
  · rw [conn_created_self, functors_created, hfunctors _ _ rfl, if_pos ⟨rfl, rfl⟩]
    omega
  · have hremoving : (s.created i conn server client).removing s.allocated = 0 := by
      unfold removing
      cases ((s.created i conn server client).conn s.allocated).owner with
      | client k => rfl
      | server k => simp [functors_created, hfunctors _ (.removeConnectionInLoop k s.allocated) rfl]
    omega
  · rw [functors_created, hfunctors _ _ rfl, if_neg (by simp)]
    omega
  · omega
  · omega
  · rw [hdes]
    exact hzero _ (.inr rfl) (by simp)

theorem Inv.conn_new (hi : Inv K fd s) (htcp : conn.tcp = .new (fd s.allocated) w)
    (hbase : (s.created i conn server client).ownerLoop s.allocated = i)
    (hheld : (s.created i conn server client).Held s.allocated) :
    ConnInv K (s.created i conn server client) s.allocated := by
  obtain ⟨hacc, hother, hindex⟩ := hi.whole.unused s.allocated (Nat.le_refl _)
  obtain ⟨htimes, hfunctors, hcall, htodo⟩ := hi.fresh hacc
  obtain ⟨hone, hzero⟩ := hi.times_new i conn server client
  have hest := hzero .established (.inl rfl) (by simp)
  have hclosed := hzero .closed (.inl rfl) (by simp)
  have hrem := hzero .removed (.inl rfl) (by simp)
  have hdes := hzero .destroyed (.inl rfl) (by simp)
  have hold := hi.conn s.allocated
  have hhistory : (s.created i conn server client).history s.allocated =
      s.history s.allocated ++ [(.accepted, i)] := update_self _ _ _
  refine ⟨hi.counts_new, ?_, ?_, ?_, ?_, ?_, ?_, ?_, ?_, ?_, ?_, ?_, ?_, ?_, ?_⟩
  · exact iff_of_true hheld ⟨by omega, hrem⟩
  · intro j cb hcb hpos
    rw [functors_created, hfunctors j cb hcb, Nat.zero_add] at hpos
    obtain ⟨rfl, rfl⟩ : j = conn.loop_ ∧ cb = .connectEstablished s.allocated := by
      by_contra hne
      simp [hne] at hpos
    exact ⟨by omega, congrArg Connection.loop_ conn_created_self⟩
  · intro j hj
    exact absurd hj (hcall j)
  · intro j h hmem
    have hsome := htodo j h hmem
    rw [hother] at hsome
    cases hsome
  · exact fun _ _ => hclosed
  · intro _
    rw [conn_created_self, htcp]
    rfl
  · omega
  · rw [conn_created_self, htcp]
    exact ⟨Buffer.wf_new, Buffer.wf_new⟩
  · omega
  · exact fun _ _ => hindex _
  · omega
  · exact fun h => absurd hother h
  · intro hk
    refine ⟨by omega, ?_⟩
    have hlife := (hold.life hk).2
    rw [hacc, htimes .established (.inl rfl), htimes .closed (.inl rfl),
      htimes .removed (.inl rfl), htimes .destroyed (.inl rfl)] at hlife
    rw [hone, hest, hclosed, hrem, hdes]
    unfold Net.life at hlife ⊢
    rw [hhistory, List.filter_append, hlife]
    simp [script, hbase, Event.ofLife]
  · intro hk
    refine ⟨by omega, ?_⟩
    rw [hhistory]
    exact hold.mayFollow hk (by simp) (by simp)

theorem Inv.created (hi : Inv K fd s) (hfree : s.Free fd)
    (htcp : conn.tcp = .new (fd s.allocated) w)
    (hloops : Loops s (s.created i conn server client))
    (hbase : (s.created i conn server client).ownerLoop s.allocated = i)
    (hheld : ∀ d, d ≠ s.allocated → ((s.created i conn server client).Held d ↔ s.Held d))
    (hheld' : (s.created i conn server client).Held s.allocated)
    (howners : Owners (s.created i conn server client)) :
    Inv K fd (s.created i conn server client) := by
  obtain ⟨hacc, hother, _⟩ := hi.whole.unused s.allocated (Nat.le_refl _)
  have hnew := hi.conn_new htcp hbase hheld'
  have hest := (hi.times_new i conn server client).2 .established (.inl rfl) (by simp)
  have hest₀ := (hi.fresh hacc).1 .established (.inl rfl)
  have hsame : ∀ d, d ≠ s.allocated → Same s (s.created i conn server client) d :=
    fun d hd => same_created hd (hheld d hd)
  obtain ⟨hnonneg, hdistinct⟩ :=
    hi.whole.descriptors (t := s.created i conn server client) (c := s.allocated)
      (fun d hd hopen => by simpa [Open, (hsame d hd).times, (hsame d hd).other] using hopen)
      (fun _ => ⟨hfree.1, fun d _ hd => hfree.2 d (hi.open_lt hd) hd⟩)
  refine ⟨?_, ?_, howners, ?_, hnonneg, hdistinct, hi.whole.order⟩
  · intro d
    by_cases hd : d = s.allocated
    · exact hd ▸ hnew
    · exact (hi.conn d).same (hsame d hd) hloops
  · intro j
    refine (hi.registry j).congr ?_ ?_
    · intro d
      by_cases hd : d = s.allocated
      · subst hd
        have hother' : (s.created i conn server client).other s.allocated = none := hother
        simp [Live, hest, hother', hother, hest₀]
      · simp [Live, (hsame d hd).times, (hsame d hd).conn, (hsame d hd).other]
    · intro d _ hm
      unfold Muted at hm ⊢
      rwa [times_created, if_neg (by simp), Nat.add_zero] at hm
  · intro d hd
    have hlt : s.allocated < d := hd
    obtain ⟨hacc₀, hother₀, hindex₀⟩ := hi.whole.unused d (Nat.le_of_lt hlt)
    refine ⟨?_, hother₀, hindex₀⟩
    rw [times_created, hacc₀, if_neg (fun h => absurd h.1 (Nat.ne_of_gt hlt))]

end

/-- The server after `newConnection`, up to `runInLoop`. -/
def accepting (s : Net) (k : Nat) (pool : EventLoopThreadPool) : TcpServer :=
  let server := s.server k
  { server with
    nextConnId_ := server.nextConnId_ + 1
    threadPool_ := pool
    connections_ := update server.connections_ (connName server.name_ server.nextConnId_)
      (some s.allocated) }

/-- A new connection's name is not in use. -/
theorem Inv.unnamed (hi : Inv K fd s) (hc : 0 < s.times c .accepted)
    (howner : (s.conn c).owner = .server k) :
    (s.conn c).name_ ≠ connName (s.server k).name_ (s.server k).nextConnId_ := by
  intro hname
  obtain ⟨n, hn, hname'⟩ := hi.whole.numbered c k hc howner
  have := connName_injective _ (hname'.symm.trans hname)
  omega

theorem accepting_server (s : Net) (k : Nat) (pool : EventLoopThreadPool) (l : Nat) :
    let server := update s.server k (s.accepting k pool)
    (server l).loop_ = (s.server l).loop_ ∧ (server l).name_ = (s.server l).name_ ∧
      (server l).nextConnId_ = (s.server l).nextConnId_ + if l = k then 1 else 0 := by
  dsimp only
  by_cases hl : l = k
  · subst hl
    simp [accepting]
  · simp [hl]

theorem owners_accepting (hi : Inv K fd s) {pool : EventLoopThreadPool}
    (hpool : pool.loops_ = [] ∨ pool.next_ < pool.loops_.length) (ioLoop : ThreadId)
    (tcp : TcpConnection) :
    Owners (s.created i ⟨ioLoop, connName (s.server k).name_ (s.server k).nextConnId_, .server k, tcp⟩
      (update s.server k (s.accepting k pool)) s.client) := by
  have hserver := accepting_server s k pool
  generalize hconn : (⟨ioLoop, connName (s.server k).name_ (s.server k).nextConnId_, .server k, tcp⟩ :
    Connection) = conn
  have hname : conn.name_ = connName (s.server k).name_ (s.server k).nextConnId_ := by rw [← hconn]
  have howner : conn.owner = .server k := by rw [← hconn]
  have hold : ∀ d, 0 < s.times d .accepted → d ≠ s.allocated :=
    fun d hd => Nat.ne_of_lt (hi.lt_allocated hd)
  refine ⟨?_, ?_, ?_, ?_, ?_, ?_, ?_⟩
  · intro c d l hc hd hcl hdl hnames
    rw [accepted_created] at hc hd
    rcases hc with rfl | hc <;> rcases hd with rfl | hd
    · rfl
    · rw [conn_created_self] at hcl hnames
      rw [conn_created (hold d hd)] at hdl hnames
      obtain rfl : k = l := by simpa [howner] using hcl
      exact absurd (hnames.symm.trans hname) (hi.unnamed hd hdl)
    · rw [conn_created_self] at hdl hnames
      rw [conn_created (hold c hc)] at hcl hnames
      obtain rfl : k = l := by simpa [howner] using hdl
      exact absurd (hnames.trans hname) (hi.unnamed hc hcl)
    · rw [conn_created (hold c hc)] at hcl hnames
      rw [conn_created (hold d hd)] at hdl hnames
      exact hi.whole.names c d l hc hd hcl hdl hnames
  · intro c l hc hcl
    rw [accepted_created] at hc
    show ∃ n < (update s.server k _ l).nextConnId_, _ = connName (update s.server k _ l).name_ n
    rw [(hserver l).2.1, (hserver l).2.2]
    rcases hc with rfl | hc
    · rw [conn_created_self] at hcl ⊢
      obtain rfl : k = l := by simpa [howner] using hcl
      exact ⟨(s.server k).nextConnId_, by simp, hname⟩
    · rw [conn_created (hold c hc)] at hcl ⊢
      obtain ⟨n, hn, hcname⟩ := hi.whole.numbered c l hc hcl
      refine ⟨n, ?_, hcname⟩
      split <;> omega
  · intro l
    rw [acceptedBy_created]
    show (update s.server k _ l).nextConnId_ = _
    rw [(hserver l).2.2, hi.whole.counted, howner]
    by_cases hl : l = k
    · simp [hl]
    · simp [hl, eq_comm (a := k)]
  · intro l
    show (update s.server k _ l).threadPool_.loops_ = [] ∨ _
    by_cases hl : l = k
    · subst hl
      rw [show (s.created i conn (update s.server l (s.accepting l pool)) s.client).server l =
        s.accepting l pool from update_self _ _ _, update_self]
      exact hpool
    · rw [show (s.created i conn (update s.server k (s.accepting k pool)) s.client).server l =
        s.server l from update_of_ne hl _ _, update_of_ne hl]
      exact hi.whole.pool l
  · intro l x d hd
    have hd' : (update s.server k (s.accepting k pool) l).connections_ x = some d := hd
    rw [accepted_created]
    by_cases hnew : l = k ∧ x = connName (s.server k).name_ (s.server k).nextConnId_
    · obtain ⟨rfl, rfl⟩ := hnew
      obtain rfl : s.allocated = d := by simpa [accepting] using hd'
      rw [conn_created_self]
      exact ⟨.inl rfl, howner, hname⟩
    · have hs : (s.server l).connections_ x = some d := by
        by_cases hl : l = k
        · subst hl
          have hx : x ≠ connName (s.server l).name_ (s.server l).nextConnId_ := fun h => hnew ⟨rfl, h⟩
          simpa [accepting, hx] using hd'
        · simpa [hl] using hd'
      obtain ⟨hpos, hdl, hdx⟩ := hi.whole.keys l x d hs
      rw [conn_created (hold d hpos)]
      exact ⟨.inr hpos, hdl, hdx⟩
  · intro l d hd
    obtain ⟨hpos, hdl, hconnected⟩ := hi.whole.client l d hd
    rw [accepted_created, conn_created (hold d hpos)]
    exact ⟨.inr hpos, hdl, hconnected⟩
  · intro c l hc hcl
    rw [accepted_created] at hc
    rcases hc with rfl | hc
    · rw [conn_created_self, howner] at hcl
      cases hcl
    · rw [conn_created (hold c hc)] at hcl ⊢
      exact hi.whole.clientLoop c l hc hcl

theorem accept_step (hi : Inv K fd s) (hfree : s.Free fd) :
    Sat (Permitted K s (.accept k)) (s.serverNewConnection (s.server k).loop_ k (fd s.allocated))
      (Inv K fd) := by
  unfold serverNewConnection assertInLoopThread
  dsimp only
  rw [demand_true rfl]
  by_cases hnext : (s.server k).nextConnId_ < 2 ^ 31
  · rw [demand_true hnext]
    obtain ⟨⟨ioLoop, pool⟩, hloop, _, hpool⟩ :=
      (getNextLoop_sat (hi.whole.pool k)).returns (fun _ h => h)
    dsimp only at hpool
    rw [hloop]
    generalize htcp : TcpConnection.new (fd s.allocated) (s.server k).writeCompleteCallback_ = tcp
    let conn : Connection :=
      ⟨ioLoop, connName (s.server k).name_ (s.server k).nextConnId_, .server k, tcp⟩
    let server := update s.server k (s.accepting k pool)
    have hserver := accepting_server s k pool
    have ht : Inv K fd (s.created (s.server k).loop_ conn server s.client) := by
      refine hi.created hfree htcp.symm ⟨fun l => (hserver l).1, fun _ => rfl⟩ ?_ ?_ ?_
        (owners_accepting hi hpool ioLoop tcp)
      · unfold ownerLoop
        rw [conn_created_self]
        exact (hserver k).1
      · intro d hd
        unfold Held
        rw [conn_created hd]
        cases howner : (s.conn d).owner with
        | client l => rfl
        | server l =>
          show (server l).connections_ _ = some d ↔ (s.server l).connections_ _ = some d
          by_cases hl : l = k
          · subst hl
            by_cases hname : (s.conn d).name_ = connName (s.server l).name_ (s.server l).nextConnId_
            · refine iff_of_false ?_ ?_
              · simp [server, accepting, hname, Ne.symm hd]
              · intro hsome
                exact hi.unnamed (hi.whole.keys l _ d hsome).1 howner hname
            · simp [server, accepting, hname]
          · simp [server, hl]
      · unfold Held
        rw [conn_created_self]
        simp [conn, server, accepting, created]
    have hloops : (s.created (s.server k).loop_ conn server s.client).conn s.allocated = conn :=
      conn_created_self
    show Sat _ (((s.create _ conn).setServer k (s.accepting k pool)).runInLoop _ ioLoop (.failed 0)
      (.connectEstablished s.allocated)) _
    unfold runInLoop
    split
    · rename_i hsame
      subst hsame
      have hpop := popped_queueInLoop ((s.create (s.server k).loop_ conn).setServer k
        (s.accepting k pool)) (s.server k).loop_
        (rfl : (NetFunctor.connectEstablished s.allocated).conn = some _)
      have hrun := connectEstablished_sat (c := s.allocated) ht (by rw [hloops]; exact hpop)
        (accepted_created.mpr (.inl rfl))
      rw [hloops] at hrun
      refine sat_mono hrun ?_ (fun _ h => h)
      intro _ hfault
      exact hfault.elim
    · exact ht
  · rw [demand_false hnext]
    exact .overflow k rfl hnext

/-- The client after `newConnection`, up to `connectEstablished`. -/
def connecting (s : Net) (k : Nat) : TcpClient :=
  { s.client k with connector_ := .kConnected, connection_ := some s.allocated }

theorem connecting_loop (s : Net) (k l : Nat) :
    (update s.client k (s.connecting k) l).loop_ = (s.client l).loop_ := by
  by_cases hl : l = k
  · subst hl
    simp [connecting]
  · simp [hl]

theorem owners_connecting (hi : Inv K fd s) {conn : Connection} (howner : conn.owner = .client k)
    (hloop : conn.loop_ = (s.client k).loop_) :
    Owners (s.created i conn s.server (update s.client k (s.connecting k))) := by
  have hold : ∀ d, 0 < s.times d .accepted → d ≠ s.allocated :=
    fun d hd => Nat.ne_of_lt (hi.lt_allocated hd)
  -- the new connection is none of a server's
  have hserver : ∀ d l, 0 < (s.created i conn s.server (update s.client k (s.connecting k))).times d
      .accepted → ((s.created i conn s.server (update s.client k (s.connecting k))).conn d).owner =
      .server l → 0 < s.times d .accepted := by
    intro d l hd hdl
    rcases accepted_created.mp hd with rfl | hd
    · rw [conn_created_self, howner] at hdl
      cases hdl
    · exact hd
  refine ⟨?_, ?_, ?_, hi.whole.pool, ?_, ?_, ?_⟩
  · intro c d l hc hd hcl hdl hnames
    have hc' := hserver c l hc hcl
    have hd' := hserver d l hd hdl
    rw [conn_created (hold c hc')] at hcl hnames
    rw [conn_created (hold d hd')] at hdl hnames
    exact hi.whole.names c d l hc' hd' hcl hdl hnames
  · intro c l hc hcl
    have hc' := hserver c l hc hcl
    rw [conn_created (hold c hc')] at hcl ⊢
    exact hi.whole.numbered c l hc' hcl
  · intro l
    rw [acceptedBy_created, howner, if_neg (by simp), Nat.add_zero]
    exact hi.whole.counted l
  · intro l x d hd
    obtain ⟨hpos, hdl, hdx⟩ := hi.whole.keys l x d hd
    rw [accepted_created, conn_created (hold d hpos)]
    exact ⟨.inr hpos, hdl, hdx⟩
  · intro l d hd
    have hd' : (update s.client k (s.connecting k) l).connection_ = some d := hd
    rw [accepted_created]
    show _ ∧ _ ∧ (update s.client k (s.connecting k) l).connector_ = .kConnected
    by_cases hl : l = k
    · subst hl
      obtain rfl : s.allocated = d := by simpa [connecting] using hd'
      rw [conn_created_self, howner]
      simp [connecting]
    · rw [update_of_ne hl] at hd' ⊢
      obtain ⟨hpos, hdl, hconnected⟩ := hi.whole.client l d hd'
      rw [conn_created (hold d hpos)]
      exact ⟨.inr hpos, hdl, hconnected⟩
  · intro c l hc hcl
    show _ = (update s.client k (s.connecting k) l).loop_
    rw [connecting_loop]
    rcases accepted_created.mp hc with rfl | hc
    · rw [conn_created_self] at hcl ⊢
      obtain rfl : k = l := by simpa [howner] using hcl
      exact hloop
    · rw [conn_created (hold c hc)] at hcl ⊢
      exact hi.whole.clientLoop c l hc hcl

theorem connected_step (hi : Inv K fd s) (hfree : s.Free fd)
    (hconnecting : (s.client k).connector_ = .kConnecting) :
    Sat Nothing (s.clientNewConnection (s.client k).loop_ k (fd s.allocated)) (Inv K fd) := by
  have hnone : (s.client k).connection_ = none := by
    by_contra hne
    obtain ⟨d, hd⟩ := Option.ne_none_iff_exists'.mp hne
    rw [(hi.whole.client k d hd).2.2] at hconnecting
    cases hconnecting
  unfold clientNewConnection assertInLoopThread
  dsimp only
  rw [demand_true rfl]
  generalize htcp : TcpConnection.new (fd s.allocated) (s.client k).writeCompleteCallback_ = tcp
  let conn : Connection := ⟨(s.client k).loop_, "", .client k, tcp⟩
  let client := update s.client k (s.connecting k)
  have ht : Inv K fd (s.created (s.client k).loop_ conn s.server client) := by
    refine hi.created hfree htcp.symm ⟨fun _ => rfl, connecting_loop s k⟩ ?_ ?_ ?_
      (owners_connecting hi rfl rfl)
    · unfold ownerLoop
      rw [conn_created_self]
      exact connecting_loop s k k
    · intro d hd
      unfold Held
      rw [conn_created hd]
      cases howner : (s.conn d).owner with
      | server l => rfl
      | client l =>
        show (client l).connection_ = some d ↔ (s.client l).connection_ = some d
        by_cases hl : l = k
        · subst hl
          simp [client, connecting, hnone, Ne.symm hd]
        · simp [client, hl]
    · unfold Held
      rw [conn_created_self]
      simp [conn, client, connecting, created]
  have hconn : (s.created (s.client k).loop_ conn s.server client).conn s.allocated = conn :=
    conn_created_self
  have hpop := popped_queueInLoop ((s.create (s.client k).loop_ conn).setClient k (s.connecting k))
    (s.client k).loop_ (rfl : (NetFunctor.connectEstablished s.allocated).conn = some _)
  have hrun := connectEstablished_sat (c := s.allocated) ht (by rw [hconn]; exact hpop)
    (accepted_created.mpr (.inl rfl))
  rw [hconn] at hrun
  exact hrun

/-- A client changes something that its connection does not depend on. -/
theorem Inv.setClient (hi : Inv K fd s) {client : TcpClient}
    (hloop : client.loop_ = (s.client k).loop_)
    (hconnection : client.connection_ = (s.client k).connection_)
    (hconnector : (s.client k).connector_ = .kConnected → client.connector_ = .kConnected) :
    Inv K fd (s.setClient k client) := by
  have hframe : Frame s (s.setClient k client) :=
    { Frame.refl s with
      clientLoop := fun l => by
        by_cases hl : l = k <;> simp [Net.setClient, hl, hloop]
      client := fun l d hd => by
        by_cases hl : l = k
        · subst hl
          have hd' : (s.client l).connection_ = some d := by
            simpa [Net.setClient, hconnection] using hd
          have hconnected := (hi.whole.client l d hd').2.2
          simp [Net.setClient, hd', hconnected, hconnector hconnected]
        · simpa [Net.setClient, hl] using hd }
  refine hi.untouched (fun d => { Same.refl s d with held := ?_ }) hframe rfl
  unfold Held Net.setClient
  cases (s.conn d).owner with
  | server l => rfl
  | client l => by_cases hl : l = k <;> simp [hl, hconnection]

theorem connector_step (hi : Inv K fd s) {move : ConnectorMove}
    (hstate : (∃ connecting, move = .startInLoop connecting) ∨
      (s.client k).connector_ = .kConnecting) :
    Sat (Permitted K s (.connector k move)) (s.moveConnector k move) (Inv K fd) := by
  unfold moveConnector
  cases move with
  | startInLoop connecting =>
    dsimp only [MuduoNet.assert]
    by_cases hdis : (s.client k).connector_ = .kDisconnected
    · rw [demand_true hdis]
      exact hi.setClient rfl rfl (by simp [hdis])
    · rw [demand_false hdis]
      exact .connector k connecting rfl
  | retry =>
    have hconnecting := hstate.resolve_left (by simp)
    exact hi.setClient rfl rfl (by simp [hconnecting])
  | drop => exact hi.setClient rfl rfl (fun _ => rfl)

/-- An address at which there is no connection does not count for a server. -/
theorem acceptedBy_allocated (hacc : s.times s.allocated .accepted = 0) (k : Nat) :
    acceptedBy { s with allocated := s.allocated + 1 } k = s.acceptedBy k := by
  show (List.range (s.allocated + 1)).countP (fun c =>
    decide (0 < s.times c .accepted ∧ (s.conn c).owner = .server k)) = _
  rw [List.range_succ, List.countP_append, List.countP_singleton, hacc]
  simp [acceptedBy]

/-- The poller of the thread `i` has become `q` for the sake of `c`, a channel of no connection,
which is registered as `x` says. -/
def withChannel (s : Net) (i : ThreadId) (q : Poller) (c : ChannelPtr) (x : Option ThreadId)
    (phase : ThreadId → Phase) (n : ChannelPtr) : Net :=
  { s with
    poller := update s.poller i q
    other := update s.other c x
    phase := phase
    allocated := n }

section

variable {q : Poller} {x : Option ThreadId} {phase : ThreadId → Phase} {n : ChannelPtr}

theorem functors_withChannel (hphase : ∀ j, (phase j).batch = (s.phase j).batch) (j : ThreadId) :
    (s.withChannel i q c x phase n).functors j = s.functors j :=
  congrArg (· ++ _) (hphase j)

theorem other_withChannel_self : (s.withChannel i q c x phase n).other c = x :=
  update_self _ _ _

theorem same_withChannel (hd : d ≠ c)
    (hq : (q.channel d).events_ = ((s.poller i).channel d).events_ ∧
      ((q.channel d).index_ < 0 ↔ ((s.poller i).channel d).index_ < 0))
    (hphase : ∀ j, (phase j).todo.Sublist (s.phase j).todo ∧
      (phase j).batch = (s.phase j).batch) : Same s (s.withChannel i q c x phase n) d := by
  have hfun := functors_withChannel (i := i) (q := q) (c := c) (x := x) (n := n)
    fun j => (hphase j).2
  refine ⟨rfl, rfl, update_of_ne hd _ _, fun j _ _ => by rw [hfun], fun j _ _ _ => by rw [hfun],
    Iff.rfl, fun _ h => h, fun j _ hmem => (hphase j).1.subset hmem, ?_⟩
  intro j
  show ((update s.poller i q j).channel d).events_ = _ ∧
    (((update s.poller i q j).channel d).index_ < 0 ↔ _)
  by_cases hj : j = i
  · rw [hj, update_self]
    exact hq
  · rw [update_of_ne hj]
    exact ⟨rfl, Iff.rfl⟩

/-- What is no connection stays none. -/
theorem Inv.conn_withChannel (hi : Inv K fd s) (hacc : s.times c .accepted = 0)
    (hphase : ∀ j, (phase j).batch = (s.phase j).batch)
    (htodo : ∀ j h, (c, h) ∈ (phase j).todo → x = some j) :
    ConnInv K (s.withChannel i q c x phase n) c := by
  have hv := hi.conn c
  have hzero := (hi.fresh hacc).1
  have hest := hzero .established (.inl rfl)
  have hdes := hzero .destroyed (.inl rfl)
  have hfun := functors_withChannel (i := i) (q := q) (c := c) (x := x) (n := n) hphase
  have hremoving : (s.withChannel i q c x phase n).removing c = s.removing c := by
    unfold removing
    simp only [hfun]
    rfl
  refine { hv with
    established := ?_, removed := ?_, destroyed := ?_, fits := ?_, todo := ?_, fresh := ?_,
    events := ?_, unindexed := ?_, stale := ?_, other := ?_ }
  · rw [hfun]
    exact hv.established
  · rw [hremoving]
    exact hv.removed
  · rw [hfun]
    exact hv.destroyed
  · intro j cb hcb hpos
    rw [hfun] at hpos
    exact hv.fits j cb hcb hpos
  · exact fun j h hmem => .inr (other_withChannel_self.trans (htodo j h hmem))
  · exact fun _ _ => hzero .closed (.inl rfl)
  · exact fun hpos => absurd hest (Nat.ne_of_gt hpos)
  · exact fun hpos => absurd hacc (Nat.ne_of_gt hpos)
  · exact fun hpos => absurd hdes (Nat.ne_of_gt hpos)
  · exact fun _ => hacc

theorem Owners.withChannel (hi : Owners s) (hacc : s.times s.allocated .accepted = 0)
    (hn : n = s.allocated ∨ n = s.allocated + 1) : Owners (s.withChannel i q c x phase n) := by
  refine { hi with counted := ?_ }
  intro k
  have hcount : (s.withChannel i q c x phase n).acceptedBy k = s.acceptedBy k := by
    rcases hn with rfl | rfl
    · rfl
    · exact acceptedBy_allocated hacc k
  rw [hcount]
  exact hi.counted k

/-- A channel of no connection is registered, changed or removed in the thread `i`. -/
theorem Inv.channel (hi : Inv K fd s) (hacc : s.times c .accepted = 0)
    (hs : s.other c = none ∨ s.other c = some i) (hx : x = none ∨ x = some i)
    {live : ChannelPtr → Prop} (hreg : Poller.Registry fd q live s.Muted)
    (hlive : ∀ d, d ≠ c → (live d ↔ s.Live i d)) (hlive' : live c ↔ x = some i)
    (hq : ∀ d, d ≠ c → (q.channel d).events_ = ((s.poller i).channel d).events_ ∧
      ((q.channel d).index_ < 0 ↔ ((s.poller i).channel d).index_ < 0))
    (hn : n = s.allocated ∨ n = s.allocated + 1) (hc : c < n)
    (hfree : x ≠ none → 0 ≤ fd c ∧ ∀ d, d ≠ c → s.Open d → fd d ≠ fd c)
    (hphase : ∀ j, (phase j).todo.Sublist (s.phase j).todo ∧ (phase j).batch = (s.phase j).batch)
    (htodo : ∀ j h, (c, h) ∈ (phase j).todo → x = some j) :
    Inv K fd (s.withChannel i q c x phase n) := by
  have hsame : ∀ d, d ≠ c → Same s (s.withChannel i q c x phase n) d :=
    fun d hd => same_withChannel hd (hq d hd) hphase
  have hest := (hi.fresh hacc).1 .established (.inl rfl)
  have hlive₀ : ∀ j, ¬ ((s.conn c).loop_ = j ∧ 0 < s.times c .established ∧
      s.times c .destroyed = 0) := by
    omega
  have hopen : (s.withChannel i q c x phase n).Open c → x ≠ none := by
    rintro (⟨hpos, _⟩ | hsome)
    · exact absurd hacc (Nat.ne_of_gt hpos)
    · rwa [other_withChannel_self] at hsome
  obtain ⟨hnonneg, hdistinct⟩ := hi.whole.descriptors (t := s.withChannel i q c x phase n) (c := c)
    (fun d hd hopen => by simpa [Open, (hsame d hd).times, (hsame d hd).other] using hopen)
    (fun h => hfree (hopen h))
  refine ⟨?_, ?_, ?_, ?_, hnonneg, hdistinct, fun j => (hi.whole.order j).sublist (hphase j).1⟩
  · intro d
    by_cases hd : d = c
    · rw [hd]
      exact hi.conn_withChannel hacc (fun j => (hphase j).2) htodo
    · exact (hi.conn d).same (hsame d hd) ⟨fun _ => rfl, fun _ => rfl⟩
  · refine hi.registries_update hsame rfl hreg hlive ?_ (fun _ _ => id) id ?_
    · rw [hlive', Live, other_withChannel_self]
      exact (or_iff_right (hlive₀ i)).symm
    · intro j hj
      have hne : ∀ {y : Option ThreadId}, y = none ∨ y = some i → y ≠ some j := by
        rintro y (rfl | rfl) <;> simp [Ne.symm hj]
      refine ⟨not_or_intro (hlive₀ j) (hne hs), not_or_intro (hlive₀ j) ?_⟩
      rw [other_withChannel_self]
      exact hne hx
  · exact hi.whole.toOwners.withChannel (hi.whole.unused s.allocated (Nat.le_refl _)).1 hn
  · intro d hd
    have hle : s.allocated ≤ n := by rcases hn with rfl | rfl <;> simp
    have hdc : d ≠ c := Nat.ne_of_gt (Nat.lt_of_lt_of_le hc hd)
    obtain ⟨hzero, hnone, hindex⟩ := hi.whole.unused d (hle.trans hd)
    exact ⟨hzero, (hsame d hdc).other.trans hnone,
      fun j => ((hsame d hdc).channel j).2.mpr (hindex j)⟩

end

theorem updateChannel_ok {events : BitVec 32} {q : Poller}
    (hq : (s.poller i).setEvents c events = .ok q) :
    s.updateChannel i c events = .ok (s.setPoller i q) := by
  unfold updateChannel
  rw [hq]
  rfl

theorem register_step (hi : Inv K fd s) (hfree : s.Free fd) {events : BitVec 32} :
    Sat Nothing (step fd s (.register i events)) (Inv K fd) := by
  obtain ⟨hacc, hother, hindex⟩ := hi.whole.unused s.allocated (Nat.le_refl _)
  have hopen : ∀ d, s.Open d → d ≠ s.allocated ∧ fd d ≠ fd s.allocated := by
    intro d hd
    exact ⟨Nat.ne_of_lt (hi.open_lt hd), hfree.2 d (hi.open_lt hd) hd⟩
  have hmuted : ¬ s.Muted s.allocated := by
    have := (hi.fresh hacc).1 .closed (.inl rfl)
    unfold Muted
    omega
  obtain ⟨q, hq, hreg, _, hq'⟩ := Poller.setEvents_new (hi.registry i) events (hindex i)
    hfree.1 (fun d hd => (hopen d (hi.open_of_live hd)).2) hmuted
  show Sat _ (s.updateChannel i s.allocated events >>= _) _
  rw [updateChannel_ok hq]
  refine hi.channel (x := some i) hacc (.inl hother) (.inr rfl) hreg ?_ (by simp) ?_ (.inr rfl)
    (Nat.lt_succ_self _) ?_ (fun _ => ⟨.refl _, rfl⟩) ?_
  · intro d hd
    simp [hd]
  · intro d hd
    rw [hq' d hd]
    exact ⟨rfl, Iff.rfl⟩
  · exact fun _ => ⟨hfree.1, fun d _ hd => (hopen d hd).2⟩
  · intro j h hmem
    have hsome := (hi.fresh hacc).2.2.2 j h hmem
    rw [hother] at hsome
    cases hsome

theorem change_step (hi : Inv K fd s) (hother : s.other c = some i) {events : BitVec 32} :
    Sat Nothing (step fd s (.change i c events)) (Inv K fd) := by
  have hlive : s.Live i c := .inr hother
  have hopen : s.Open c := hi.open_of_live hlive
  have hacc : s.times c .accepted = 0 := (hi.conn c).other (by simp [hother])
  have hlt : c < s.allocated := hi.open_lt hopen
  obtain ⟨q, hq, hreg, _, hq'⟩ := Poller.setEvents_live (hi.registry i) events hlive
  show Sat _ (s.updateChannel i c events) _
  rw [updateChannel_ok hq]
  have hset : Inv K fd { s with
      poller := update s.poller i q
      other := update s.other c (some i) } := by
    refine hi.channel hacc (.inr hother) (.inr rfl)
      (hreg.congr (fun _ => Iff.rfl) (fun _ _ => .inl)) (fun _ _ => Iff.rfl) (iff_of_true hlive rfl)
      (fun d hd => by rw [hq' d hd]; exact ⟨rfl, Iff.rfl⟩) (.inl rfl) hlt ?_
      (fun _ => ⟨.refl _, rfl⟩) ?_
    · refine fun _ => ⟨hi.whole.nonneg c hopen, fun d hd hopen' hfd => hd ?_⟩
      exact hi.whole.distinct d c hopen' hopen hfd
    · intro j h hmem
      rw [← hother]
      exact (hi.fresh hacc).2.2.2 j h hmem
  rwa [← hother, update_eq_self] at hset

theorem unregister_step (hi : Inv K fd s) (hother : s.other c = some i)
    (hnone : ((s.poller i).channel c).events_ = Channel.kNoneEvent) :
    Sat Nothing (step fd s (.unregister i c)) (Inv K fd) := by
  have hlive : s.Live i c := .inr hother
  have hacc : s.times c .accepted = 0 := (hi.conn c).other (by simp [hother])
  have hlt : c < s.allocated := hi.open_lt (hi.open_of_live hlive)
  obtain ⟨q, hq, hreg, hq'⟩ := Poller.removeChannel_live (hi.registry i) hlive hnone
  have hremove : s.removeChannel i c = .ok (s.setPoller i q) := by
    unfold removeChannel
    rw [hq]
    rfl
  show Sat _ (s.removeChannel i c >>= _) _
  rw [hremove]
  refine hi.channel (x := none) (n := s.allocated) hacc (.inr hother) (.inl rfl) hreg ?_ (by simp)
    (fun d _ => hq' d) (.inl rfl) hlt (by simp) ?_ ?_
  · intro d hd
    simp [hd]
  · intro j
    by_cases hj : j = i
    · subst hj
      rw [update_self]
      cases s.phase j <;> simp [Phase.without, Phase.todo, Phase.batch]
    · show (update s.phase i _ j).todo.Sublist _ ∧ (update s.phase i _ j).batch = _
      rw [update_of_ne hj]
      exact ⟨.refl _, rfl⟩
  · intro j h hmem
    by_cases hj : j = i
    · subst hj
      rw [update_self] at hmem
      cases hphase : s.phase j <;> simp [hphase, Phase.without, Phase.todo] at hmem
    · have hmem' : (c, h) ∈ (s.phase j).todo := by
        rwa [update_of_ne hj] at hmem
      have hsome := (hi.fresh hacc).2.2.2 j h hmem'
      rw [hother] at hsome
      exact absurd (Option.some.inj hsome) (Ne.symm hj)

end

end MuduoNet.Net
