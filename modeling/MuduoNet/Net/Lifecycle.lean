import MuduoNet.Net.Ordinary

/-!
# The steps of a connection's life

`connectEstablished`, `handleClose`, the removal by the owner and `connectDestroyed`. A functor
that runs at once is treated as one that was queued and taken out again.
-/
namespace MuduoNet.Net

open Lib Lib.Outcome Function TcpConnection

section

variable {K : Kept} {fd : ChannelPtr → Int} {s t u : Net} {c d : ConnPtr} {i j : ThreadId} {k : Nat}

/-- `t` is `s` without a functor `cb` of the thread `i`, which is about `c`. -/
structure Popped (s t : Net) (i : ThreadId) (cb : NetFunctor) (c : ConnPtr) : Prop extends
    Turn s t c [] (s.conn c).tcp where
  functors : ∀ j x, x.conn = some c →
    (s.functors j).count x = (t.functors j).count x + if j = i ∧ x = cb then 1 else 0
  poller : t.poller = s.poller
  server : t.server = s.server
  client : t.client = s.client

theorem popped_setPhase {cb : NetFunctor} {batch : List NetFunctor}
    (hphase : s.phase i = .functors (cb :: batch)) (hcb : cb.conn = some c) :
    Popped s (s.setPhase i (.functors batch)) i cb c where
  toTurn := turn_pop hphase hcb
  functors j x _ := by
    unfold Net.functors setPhase
    by_cases hj : j = i
    · subst hj
      by_cases hx : x = cb
      · subst hx
        simp [hphase, Phase.batch, Nat.add_right_comm]
      · simp [hphase, Phase.batch, hx, List.count_cons_of_ne (Ne.symm hx)]
    · simp [hj]
  poller := rfl
  server := rfl
  client := rfl

theorem popped_queueInLoop (s : Net) (i : ThreadId) {cb : NetFunctor} (hcb : cb.conn = some c) :
    Popped (s.queueInLoop i cb) s i cb c :=
  have hcount : ∀ j x, ((s.queueInLoop i cb).functors j).count x =
      (s.functors j).count x + if j = i ∧ x = cb then 1 else 0 := by
    intro j x
    rw [functors_queueInLoop, List.count_append]
    by_cases hj : j = i <;> by_cases hx : x = cb <;>
      simp [hj, hx, eq_comm (a := cb)]
  have hne : ∀ {d : ConnPtr} {x : NetFunctor}, d ≠ c → x.conn = some d → x ≠ cb := by
    rintro d x hd hx rfl
    exact hd (Option.some.inj (hx.symm.trans hcb))
  { same := fun d hd => { Same.refl s d with
      functors := fun j x hx => by simp [hcount, hne hd hx]
      ofLife := fun j x hx _ => by simp [hcount, hne hd hx] }
    frame := { Frame.refl s with }
    conn := rfl
    history := (List.append_nil _).symm
    call := fun _ h => h
    functors := fun j x _ => hcount j x
    poller := rfl
    server := rfl
    client := rfl }

theorem Popped.moved {cb : NetFunctor} (h : Popped s t i cb c) : Moved s t c [(i, cb)] [] := by
  intro j x hx
  have hcount : [(i, cb)].count (j, x) = if j = i ∧ x = cb then 1 else 0 := by
    simp [List.count_singleton, eq_comm (a := i), eq_comm (a := cb)]
  rw [h.functors j x hx, hcount]
  rfl

/-- The function that the functor calls has returned. -/
theorem Popped.settle {cb : NetFunctor} (h : Popped s t j cb c) (i : ThreadId) (tcp : TcpConnection)
    (es : List Effect) {q : Poller}
    (hq : ∀ d, d ≠ c → (q.channel d).events_ = ((s.poller i).channel d).events_ ∧
      ((q.channel d).index_ < 0 ↔ ((s.poller i).channel d).index_ < 0)) :
    ∃ u, (t.setTcp c tcp).settle i c es q = u ∧
      Turn s u c (es.map fun e => (.effect e, i)) tcp ∧ u.poller = update s.poller i q ∧
      u.server = s.server ∧ u.client = s.client ∧ Moved s u c [(j, cb)] [] := by
  rw [← h.poller] at hq
  refine ⟨_, rfl, h.toTurn.trans (turn_settle t i c tcp es hq), ?_, h.server, h.client, ?_⟩
  · rw [← h.poller]
    rfl
  · exact h.moved.trans (.of_functors fun l x hx => functors_settle es q hx l)

/-- The owner has the connection as before. -/
theorem ConnInv.held_turn {es : List (Event × ThreadId)} {tcp : TcpConnection} (hi : ConnInv K s c)
    (h : Turn s t c es tcp) (hserver : t.server = s.server) (hclient : t.client = s.client)
    (hremoved : t.times c .removed = s.times c .removed) :
    t.Held c ↔ 0 < t.times c .accepted ∧ t.times c .removed = 0 := by
  rw [h.held hserver hclient, hi.held, h.frame.accepted, hremoved]

theorem ConnInv.est_le (hi : ConnInv K s c) : s.times c .established ≤ 1 := by
  have hest := hi.established
  have hacc := hi.accepted
  omega

theorem Inv.open_of_live (hi : Inv K fd s) (h : s.Live i d) : s.Open d := by
  rcases h with ⟨_, hest, hdes⟩ | hother
  · exact .inl ⟨(hi.conn d).accepted_pos hest, hdes⟩
  · exact .inr (by simp [hother])

/-- `connectEstablished`, once its functor is taken. -/
theorem connectEstablished_sat (hi : Inv K fd s)
    (hpop : Popped s t (s.conn c).loop_ (.connectEstablished c) c)
    (hpos : 0 < s.times c .accepted) :
    Sat Nothing (t.perform (s.conn c).loop_ c (·.connectEstablished)) (Inv K fd) := by
  have hc := hi.conn c
  have htoken := hpop.functors (s.conn c).loop_ (.connectEstablished c) rfl
  rw [if_pos ⟨rfl, rfl⟩] at htoken
  have hacc := hc.accepted
  have heq := hc.established
  have hest : s.times c .established = 0 := by omega
  have hclo : s.times c .closed = 0 := by
    have := hc.closed
    omega
  have hrem := hc.removed
  have hdes := hc.destroyed
  have hnolive : ¬ s.Live (s.conn c).loop_ c := by simp [Live, hest, hc.other_none hpos]
  have hopen : s.Open c := .inl ⟨hpos, by omega⟩
  have hconn : t.conn c = s.conn c := hpop.conn
  rw [perform_eq (by rw [hconn]) (by rw [hconn]; exact connectEstablished_eq (hc.connecting hest) rfl),
    effects_eq _ _ _ (by simp)]
  have hreg := hi.registry (s.conn c).loop_
  have hfree : ∀ d, s.Live (s.conn c).loop_ d → fd d ≠ fd c := by
    intro d hd hfd
    exact hnolive (hi.whole.distinct d c (hi.open_of_live hd) hopen hfd ▸ hd)
  have hmuted : ¬ s.Muted c := by
    show ¬ 0 < s.times c .closed
    omega
  obtain ⟨q, hq, hreg', hevents, hother⟩ := Poller.setEvents_new hreg
    (s.conn c).tcp.channel_.enableReading.events_ (hc.unindexed hpos hest)
    (hi.whole.nonneg c hopen) hfree hmuted
  let tcp : TcpConnection := { (s.conn c).tcp with
    state_ := .kConnected
    channel_ := (s.conn c).tcp.channel_.enableReading
    trace := [] }
  obtain ⟨u, hu, hturn, hpoll, hserver, hclient, hm⟩ := hpop.settle (s.conn c).loop_ tcp
    [.updateChannel (s.conn c).tcp.channel_.enableReading.events_, .connectionCallback true]
    (fun d hd => by rw [hother d hd]; exact ⟨rfl, Iff.rfl⟩)
  have hsat : Inv K fd u := by
    have hest' : u.times c .established = 1 := by
      rw [hturn.times]
      simp [hest]
    have hclo' : u.times c .closed = 0 := by
      rw [hturn.times]
      simp [hclo]
    have hrem' : u.times c .removed = 0 := by
      rw [hturn.times]
      simp
      omega
    have hdes' : u.times c .destroyed = 0 := by
      rw [hturn.times]
      simp
      omega
    have hcounts : Counts u c := by
      refine hc.toCounts.turn hturn hm (by simp) ?_ (by simp) (by simp) (by omega) (by omega)
      rw [hturn.removing hm (by simp)]
      simp
    have hheld := hc.held_turn hturn hserver hclient (by omega)
    refine hi.touches hturn.toTouches (hi.lt_allocated hpos) ?_ ?_
    · refine hc.turn hturn hm hpos (by omega) hcounts hheld (List.forall_mem_nil _) ?_ ?_ ?_ ?_ ?_
        ?_ ?_ ?_
      · intro l h _
        omega
      · intro l _
        omega
      · exact fun _ => .inl rfl
      · exact hc.buffers.congr rfl rfl
      · rw [hpoll, update_self, hevents]
      · omega
      · intro _
        have hreached : s.reached c = 1 := by
          unfold reached
          omega
        rw [hreached]
        exact ⟨by omega, by simp [script, Event.ofLife]⟩
      · intro hk
        refine ⟨by omega, hc.mayFollow hk (by simp [MayFollow]) ?_⟩
        intro _ _ _ _
        exact ⟨by omega, by omega⟩
    · refine hi.registries hturn.toTouches (hc.other_none hpos) hpoll hreg' ?_ ?_ (fun _ _ => id) ?_
      · intro d hd
        simp [hd]
      · simp [Live, hturn.frame.loop, hest', hdes']
      · simp [Muted, hclo']
  show Sat Nothing (failsAt .poller ((t.poller _).setEvents c
    (s.conn c).tcp.channel_.enableReading.events_ >>= fun p => .ok p) >>= _) _
  rw [hpop.poller, hq]
  rw [← hu] at hsat
  exact hsat

/-- `connectDestroyed`, once its functor is taken and all handlers have run. -/
theorem connectDestroyed_sat (hi : Inv K fd s)
    (hpop : Popped s t (s.conn c).loop_ (.connectDestroyed c) c) (hpos : 0 < s.times c .accepted)
    (hidle : ∀ h, (c, h) ∉ (s.phase (s.conn c).loop_).todo) :
    Sat Nothing (t.perform (s.conn c).loop_ c (·.connectDestroyed)) (Inv K fd) := by
  have hc := hi.conn c
  have htoken := hpop.functors (s.conn c).loop_ (.connectDestroyed c) rfl
  rw [if_pos ⟨rfl, rfl⟩] at htoken
  have hacc := hc.accepted
  have heq := hc.established
  have hrem := hc.removed
  have honce := hc.once
  have hdes := hc.destroyed
  have hgone := hc.gone
  have hest : 0 < s.times c .established := hc.closed (by omega)
  have hdes₀ : s.times c .destroyed = 0 := by omega
  have hconn : t.conn c = s.conn c := hpop.conn
  rw [perform_eq (by rw [hconn]) (by rw [hconn]; exact connectDestroyed_eq (hc.up hest hdes₀) rfl),
    effects_eq _ _ _ (by simp)]
  have hlive : s.Live (s.conn c).loop_ c := .inl ⟨rfl, hest, hdes₀⟩
  obtain ⟨p, hp, hregp, hevents, hother⟩ := Poller.setEvents_live
    (hi.registry (s.conn c).loop_) Channel.kNoneEvent hlive
  obtain ⟨q, hq, hreg, hkept⟩ := Poller.removeChannel_live hregp hlive hevents
  have hkept' : ∀ d, d ≠ c →
      (q.channel d).events_ = ((s.poller (s.conn c).loop_).channel d).events_ ∧
        ((q.channel d).index_ < 0 ↔ ((s.poller (s.conn c).loop_).channel d).index_ < 0) := by
    intro d hd
    rw [← hother d hd]
    exact hkept d
  let tcp : TcpConnection := { (s.conn c).tcp with
    state_ := .kDisconnected
    channel_ := (s.conn c).tcp.channel_.disableAll
    trace := [] }
  obtain ⟨u, hu, hturn, hpoll, hserver, hclient, hm⟩ := hpop.settle (s.conn c).loop_ tcp
    [.updateChannel Channel.kNoneEvent, .connectionCallback false, .removeChannel] hkept'
  have hsat : Inv K fd u := by
    have hest' : u.times c .established = s.times c .established := by
      rw [hturn.times]
      simp
    have hclo' : u.times c .closed = s.times c .closed := by
      rw [hturn.times]
      simp
    have hrem' : u.times c .removed = s.times c .removed := by
      rw [hturn.times]
      simp
    have hdes' : u.times c .destroyed = 1 := by
      rw [hturn.times]
      simp [hdes₀]
    have hcounts : Counts u c := by
      refine hc.toCounts.turn hturn hm (by simp) ?_ (by simp) (by simp) (by omega) (by omega)
      rw [hturn.removing hm (by simp)]
      simp
    have hheld := hc.held_turn hturn hserver hclient hrem'
    refine hi.touches hturn.toTouches (hi.lt_allocated hpos) ?_ ?_
    · refine hc.turn hturn hm hpos (by omega) hcounts hheld (List.forall_mem_nil _) ?_ ?_ ?_ ?_ ?_
        ?_ ?_ ?_
      · intro l h hmem
        have hmem' := (hturn.frame.todo l).subset hmem
        obtain rfl := hc.todo_loop hpos hmem'
        exact absurd hmem' (hidle h)
      · exact fun _ _ => hclo'
      · omega
      · exact hc.buffers.congr rfl rfl
      · rw [hpoll, update_self, (hkept c).1, hevents]
        rfl
      · intro _
        rw [hpoll, update_self, (hkept c).2]
        have := hregp.index_nonneg hlive
        omega
      · intro hk
        have hle := (hc.life hk).1
        have hreached : s.reached c = 4 := by
          unfold reached
          omega
        rw [hreached]
        exact ⟨by omega, by simp [script, Event.ofLife]⟩
      · intro hk
        refine ⟨fun _ => rfl, hc.mayFollow hk (by simp [MayFollow]) ?_⟩
        intro events x hx hev
        simp at hx
        rcases hx with rfl | rfl | rfl <;> simp at hev
        exact ⟨fun _ => hev.symm, hdes₀⟩
    · refine hi.registries hturn.toTouches (hc.other_none hpos) hpoll hreg ?_ ?_ ?_ ?_
      · intro d hd
        simp [hd]
      · simp [Live, hturn.frame.loop, hdes', hturn.frame.other, hc.other_none hpos]
      · exact fun d _ hm => .inl hm
      · intro _
        exact .inr ⟨rfl, rfl⟩
  show Sat Nothing (failsAt .poller ((t.poller _).setEvents c Channel.kNoneEvent >>= fun p =>
    .ok p >>= fun p => p.removeChannel c >>= fun p => .ok p) >>= _) _
  rw [hpop.poller, hp]
  show Sat Nothing (failsAt .poller (p.removeChannel c >>= fun p => .ok p) >>= _) _
  rw [hq]
  rw [← hu] at hsat
  exact hsat

/-- Only the second removal of a connection can fail, and only if it was closed twice. -/
def ClosedTwice (K : Kept) (e : NetFault) : Prop := e = (.owner, .assertion) ∧ ¬ K.once

/-- The server forgets the connection `c`. -/
def forget (s : Net) (k : Nat) (c : ConnPtr) : Net :=
  s.setServer k { s.server k with
    connections_ := update (s.server k).connections_ (s.conn c).name_ none }

theorem turn_forget (hi : Inv K fd s) (hserver : t.server = s.server) (hclient : t.client = s.client)
    (hconn : ∀ d, (t.conn d).name_ = (s.conn d).name_ ∧ (t.conn d).owner = (s.conn d).owner)
    (hpos : 0 < s.times c .accepted) (howner : (s.conn c).owner = .server k) :
    Turn t (t.forget k c) c [] (t.conn c).tcp where
  same d hd := { Same.refl t d with
    held := by
      unfold Held forget setServer
      rw [(hconn d).1, (hconn d).2, (hconn c).1, hserver, hclient]
      cases hd' : (s.conn d).owner with
      | client l => rfl
      | server l =>
        dsimp only
        by_cases hl : l = k
        · subst hl
          rw [update_self]
          dsimp only
          by_cases hname : (s.conn d).name_ = (s.conn c).name_
          · rw [hname, update_self]
            refine iff_of_false (by simp) ?_
            intro hsome
            have hpos' := (hi.whole.keys l _ d hsome).1
            exact hd (hi.whole.names d c l hpos' hpos hd' howner hname)
          · rw [update_of_ne hname]
        · rw [update_of_ne hl] }
  frame := { Frame.refl t with
    serverLoop := fun l => by
      unfold forget setServer
      by_cases hl : l = k <;> simp [hl]
    serverName := fun l => by
      unfold forget setServer
      by_cases hl : l = k <;> simp [hl]
    pool := fun l => by
      unfold forget setServer
      by_cases hl : l = k <;> simp [hl]
    next := fun l => by
      unfold forget setServer
      by_cases hl : l = k <;> simp [hl]
    keys := fun l x d hd => by
      unfold forget setServer at hd
      by_cases hl : l = k
      · subst hl
        dsimp only at hd
        rw [update_self] at hd
        dsimp only at hd
        by_cases hx : x = (t.conn c).name_
        · rw [hx, update_self] at hd
          cases hd
        · rwa [update_of_ne hx] at hd
      · simpa [hl] using hd }
  conn := rfl
  history := (List.append_nil _).symm
  call _ h := h

/-- The connection leaves its owner: the removal is recorded, and `connectDestroyed` queued. -/
theorem turn_leave (t : Net) (i : ThreadId) (c : ConnPtr) :
    Turn t ((t.record i c .removed).queueInLoop (t.conn c).loop_ (.connectDestroyed c)) c
      [(.removed, i)] (t.conn c).tcp :=
  (turn_record t i c (by simp)).trans (turn_queueInLoop (t.record i c .removed) _ rfl)

theorem removeConnectionInLoop_eq (t : Net) (k : Nat) (c : ConnPtr) :
    t.removeConnectionInLoop (t.server k).loop_ k c =
      if (t.server k).connections_ (t.conn c).name_ = none then .error (.owner, .assertion)
      else .ok (((t.forget k c).record (t.server k).loop_ c .removed).queueInLoop (t.conn c).loop_
        (.connectDestroyed c)) := by
  unfold removeConnectionInLoop assertInLoopThread MuduoNet.assert
  dsimp only
  rw [demand_true rfl]
  split
  · rename_i hnone
    rw [demand_false (by simpa using hnone)]
    rfl
  · rename_i hsome
    rw [demand_true hsome]
    rfl

theorem removeConnectionInLoop_sat (hi : Inv K fd s)
    (hpop : Popped s t (s.server k).loop_ (.removeConnectionInLoop k c) c)
    (hpos : 0 < s.times c .accepted) (howner : (s.conn c).owner = .server k) :
    Sat (ClosedTwice K) (t.removeConnectionInLoop (s.server k).loop_ k c) (Inv K fd) := by
  have hc := hi.conn c
  have hconn : t.conn c = s.conn c := hpop.conn
  have htoken := hpop.functors (s.server k).loop_ (.removeConnectionInLoop k c) rfl
  rw [if_pos ⟨rfl, rfl⟩] at htoken
  have hrem := hc.removed
  have hwaits : s.removing c =
      (s.functors (s.server k).loop_).count (.removeConnectionInLoop k c) := by
    rw [removing, howner]
  have hheld : s.Held c ↔ (s.server k).connections_ (s.conn c).name_ = some c := by
    rw [Held, howner]
  have heq := removeConnectionInLoop_eq t k c
  rw [hpop.server, hconn] at heq
  rw [heq]
  by_cases hnone : (s.server k).connections_ (s.conn c).name_ = none
  · rw [if_pos hnone]
    refine ⟨rfl, ?_⟩
    intro hk
    have hle := (hc.life hk).1
    have hsome := hheld.mp (hc.held.mpr ⟨hpos, by omega⟩)
    rw [hnone] at hsome
    cases hsome
  · rw [if_neg hnone]
    -- the key leads to `c` itself, which was not removed before
    have hrem₀ : s.times c .removed = 0 := by
      obtain ⟨d, hd⟩ := Option.ne_none_iff_exists'.mp hnone
      obtain ⟨hdpos, hdowner, hdname⟩ := hi.whole.keys k _ d hd
      obtain rfl := hi.whole.names d c k hdpos hpos hdowner howner hdname
      exact (hc.held.mp (hheld.mpr hd)).2
    have hforget := turn_forget hi hpop.server hpop.client
      (fun d => ⟨hpop.frame.name d, hpop.frame.owner d⟩) hpos howner
    have hleave := turn_leave (t.forget k c) (s.server k).loop_ c
    rw [show (t.forget k c).conn c = s.conn c from hconn] at hleave
    have hturn := (hpop.toTurn.trans hforget).trans hleave
    generalize hu : ((t.forget k c).record (s.server k).loop_ c .removed).queueInLoop
      (s.conn c).loop_ (.connectDestroyed c) = u at hturn ⊢
    show Inv K fd u
    have hacc := hc.accepted
    have hest₀ := hc.established
    have hdes₀ := hc.destroyed
    have hest : 0 < s.times c .established := hc.closed (by omega)
    have hest' : u.times c .established = s.times c .established := by
      rw [hturn.times]
      simp
    have hclo' : u.times c .closed = s.times c .closed := by
      rw [hturn.times]
      simp
    have hrem' : u.times c .removed = 1 := by
      rw [hturn.times]
      simp [hrem₀]
    have hdes' : u.times c .destroyed = s.times c .destroyed := by
      rw [hturn.times]
      simp
    have hm : Moved s u c [((s.server k).loop_, .removeConnectionInLoop k c)]
        [((s.conn c).loop_, .connectDestroyed c)] := by
      have hforgotten : Moved t ((t.forget k c).record (s.server k).loop_ c .removed) c [] [] :=
        .of_functors fun _ _ _ => rfl
      rw [← hu]
      exact (hpop.moved.trans hforgotten).trans (moved_queueInLoop _ _ _ _)
    have hpoll : u.poller = update s.poller (s.conn c).loop_ (s.poller (s.conn c).loop_) := by
      rw [update_eq_self, ← hu, ← hpop.poller]
      rfl
    have hpoll' : u.poller = s.poller := hpoll.trans (update_eq_self _ _)
    have hcounts : Counts u c := by
      refine hc.toCounts.turn hturn hm (by simp) ?_ (by simp) (by simp) (by omega) (by omega)
      have hmoved := hturn.removing_server hm howner
      simp at hmoved ⊢
      exact hmoved
    have hnot : ¬ u.Held c := by
      rw [Held, hturn.frame.owner, howner, hturn.frame.name, ← hu]
      simp [forget, setServer, record, queueInLoop, hconn]
    refine hi.touches hturn.toTouches (hi.lt_allocated hpos) ?_ ?_
    · refine hc.turn hturn hm hpos (by omega) hcounts (iff_of_false hnot (by omega)) ?_ ?_ ?_ ?_ ?_
        ?_ ?_ ?_ ?_
      · intro x hx
        obtain rfl := List.mem_singleton.mp hx
        exact hturn.frame.loop c
      · exact fun _ _ _ => hdes'
      · exact fun _ _ => hclo'
      · rw [hdes']
        exact fun hd => hc.up hest hd
      · exact hc.buffers
      · rw [hpoll']
        exact hc.events hest
      · rw [hpoll', hdes']
        exact hc.stale
      · intro hk
        have hle := (hc.life hk).1
        have hreached : s.reached c = 3 := by
          unfold reached
          omega
        rw [hreached]
        exact ⟨by omega, by simp [script, Event.ofLife, ownerLoop, howner]⟩
      · intro hk
        rw [hclo']
        refine ⟨(hc.off hk).1, hc.mayFollow hk (by simp) ?_⟩
        simp
    · refine hi.registries hturn.toTouches (hc.other_none hpos) hpoll
        (hi.registry (s.conn c).loop_) (fun _ _ => Iff.rfl) ?_ (fun _ _ => id) ?_
      · simp [Live, hturn.frame.loop, hturn.frame.other, hest', hdes']
      · simp [Muted, hclo']

/-- `handleClose` disables the channel and calls the owner. -/
theorem handleClose_spec (hi : Inv K fd s) (hest : 0 < s.times c .established)
    (hdes : s.times c .destroyed = 0) :
    ∃ u q, s.perform (s.conn c).loop_ c (·.handleClose) =
        (match (s.conn c).owner with
          | .server k => u.serverRemoveConnection (s.conn c).loop_ k c
          | .client k => u.clientRemoveConnection (s.conn c).loop_ k c) ∧
      Turn s u c [(.effect (.updateChannel Channel.kNoneEvent), (s.conn c).loop_),
        (.closed, (s.conn c).loop_)]
        { (s.conn c).tcp with channel_ := (s.conn c).tcp.channel_.disableAll, trace := [] } ∧
      u.poller = update s.poller (s.conn c).loop_ q ∧
      Poller.Registry fd q (s.Live (s.conn c).loop_) (fun d => s.Muted d ∨ d = c) ∧
      (q.channel c).events_ = Channel.kNoneEvent ∧ u.server = s.server ∧ u.client = s.client ∧
      Moved s u c [] [] := by
  have hc := hi.conn c
  have hlive : s.Live (s.conn c).loop_ c := .inl ⟨rfl, hest, hdes⟩
  obtain ⟨q, hq, hreg, hevents, hother⟩ := Poller.setEvents_live
    (hi.registry (s.conn c).loop_) Channel.kNoneEvent hlive
  let tcp : TcpConnection :=
    { (s.conn c).tcp with channel_ := (s.conn c).tcp.channel_.disableAll, trace := [] }
  have hturn := turn_settle s (s.conn c).loop_ c tcp [.updateChannel Channel.kNoneEvent]
    (fun d hd => by rw [hother d hd]; exact ⟨rfl, Iff.rfl⟩)
  let v := (s.setTcp c tcp).settle (s.conn c).loop_ c [.updateChannel Channel.kNoneEvent] q
  have hclosed := turn_record v (s.conn c).loop_ c (by simp : Event.closed ≠ .accepted)
  rw [show v.conn c = { s.conn c with tcp := tcp } from hturn.conn] at hclosed
  refine ⟨v.record (s.conn c).loop_ c .closed, q, ?_, hturn.trans hclosed, rfl, ?_, hevents, rfl,
    rfl, ?_⟩
  · rw [perform_eq rfl (handleClose_eq (hc.up hest hdes) rfl)]
    show effect _ c (s.setTcp c tcp) (.updateChannel Channel.kNoneEvent) >>= _ = _
    rw [effect_eq _ _ _ (by simp)]
    show (failsAt .poller ((s.poller _).setEvents c Channel.kNoneEvent) >>= _) >>= _ = _
    rw [hq]
    show effect _ c v .closeCallback >>= pure = _
    rw [bind_pure, ← hturn.frame.owner c]
    rfl
  · simpa using hreg
  · refine .of_functors ?_
    intro l x hx
    show (v.functors l).count x = ((s.setTcp c tcp).functors l).count x
    exact functors_settle _ q hx l

theorem serverRemoveConnection_eq (u : Net) (i : ThreadId) (k : Nat) (c : ConnPtr) :
    u.serverRemoveConnection i k c =
      if i = (u.server k).loop_ then u.removeConnectionInLoop i k c
      else .ok (u.queueInLoop (u.server k).loop_ (.removeConnectionInLoop k c)) := rfl

/-- The channel is disabled, and the owner has done its part at once or will do it. -/
theorem Inv.closing (hi : Inv K fd s) (hest : 0 < s.times c .established)
    (hdes : s.times c .destroyed = 0) (honce : K.once → s.times c .closed = 0)
    (hfresh : (c, .close) ∉ (s.phase (s.conn c).loop_).todo) {es : List (Event × ThreadId)}
    {out new : List (ThreadId × NetFunctor)} {q : Poller}
    (hturn : Turn s t c es
      { (s.conn c).tcp with channel_ := (s.conn c).tcp.channel_.disableAll, trace := [] })
    (hm : Moved s t c out new) (hcounts : Counts t c)
    (hheld : t.Held c ↔ 0 < t.times c .accepted ∧ t.times c .removed = 0)
    (hnew : ∀ x ∈ new, t.Fits x.1 c x.2)
    (hclosed : t.times c .closed = s.times c .closed + 1)
    (hdestroyed : t.times c .destroyed = s.times c .destroyed)
    (hpoll : t.poller = update s.poller (s.conn c).loop_ q)
    (hreg : Poller.Registry fd q (s.Live (s.conn c).loop_) fun d => s.Muted d ∨ d = c)
    (hevents : (q.channel c).events_ = Channel.kNoneEvent)
    (hlife : (es.filter fun e => e.1.ofLife) <+: (s.script c).drop 2)
    (hfollow : es.Pairwise MayFollow)
    (hnone : ∀ events, ∀ x ∈ es, x.1 = .effect (.updateChannel events) →
      events = Channel.kNoneEvent) : Inv K fd t := by
  have hc := hi.conn c
  have hpos := hc.accepted_pos hest
  have hest' : 0 < t.times c .established := by
    rw [hturn.times]
    omega
  refine hi.touches hturn.toTouches (hi.lt_allocated hpos) ?_ ?_
  · refine hc.turn hturn hm hpos hest' hcounts hheld hnew ?_ ?_ ?_ ?_ ?_ ?_ ?_ ?_
    · exact fun _ _ _ => hdestroyed
    · intro l hmem
      obtain rfl := hc.todo_loop hpos ((hturn.frame.todo l).subset hmem)
      exact absurd ((hturn.frame.todo _).subset hmem) hfresh
    · exact fun _ => hc.up hest hdes
    · exact hc.buffers.congr rfl rfl
    · rw [hpoll, update_self, hevents]
      rfl
    · omega
    · intro hk
      have hclo := honce hk
      have hacc := hc.accepted
      have hestablished := hc.established
      have hremoved := hc.removed
      have hreached : s.reached c = 2 := by
        unfold reached
        omega
      rw [hreached]
      exact ⟨by omega, hlife⟩
    · intro hk
      refine ⟨fun _ => rfl, hc.mayFollow hk hfollow ?_⟩
      intro events x hx hev
      exact ⟨fun _ => hnone events x hx hev, hdes⟩
  · refine hi.registries hturn.toTouches (hc.other_none hpos) hpoll hreg
      (fun _ _ => Iff.rfl) ?_ (fun _ _ => .inl) (fun _ => .inr rfl)
    simp [Live, hturn.frame.loop, hturn.frame.other, hest, hest', hdes, hdestroyed]

/-- The close of a server's connection leads to the state in which the removal waits, or goes on
with it at once. -/
theorem handleClose_server (hi : Inv K fd s) (hest : 0 < s.times c .established)
    (hdes : s.times c .destroyed = 0) (howner : (s.conn c).owner = .server k)
    (honce : K.once → s.times c .closed = 0)
    (hfresh : (c, .close) ∉ (s.phase (s.conn c).loop_).todo) :
    Sat (ClosedTwice K) (s.perform (s.conn c).loop_ c (·.handleClose)) (Inv K fd) := by
  have hc := hi.conn c
  have hpos := hc.accepted_pos hest
  obtain ⟨u, q, hperform, hturn, hpoll, hreg, hevents, hserver, hclient, hm⟩ :=
    handleClose_spec hi hest hdes
  rw [howner] at hperform
  have hqueue := turn_queueInLoop u (s.server k).loop_ (rfl : (NetFunctor.removeConnectionInLoop k c).conn
    = some c)
  rw [show u.conn c = _ from hturn.conn] at hqueue
  have hturn' := hturn.trans hqueue
  generalize hv : u.queueInLoop (s.server k).loop_ (.removeConnectionInLoop k c) = v at hturn'
  have hinv : Inv K fd v := by
    have honce₀ := hc.once
    have hest' : v.times c .established = s.times c .established := by
      rw [hturn'.times]
      simp
    have hclo' : v.times c .closed = s.times c .closed + 1 := by
      rw [hturn'.times]
      simp
    have hrem' : v.times c .removed = s.times c .removed := by
      rw [hturn'.times]
      simp
    have hdes' : v.times c .destroyed = s.times c .destroyed := by
      rw [hturn'.times]
      simp
    have hm' : Moved s v c [] [((s.server k).loop_, .removeConnectionInLoop k c)] := by
      rw [← hv]
      exact hm.trans (moved_queueInLoop _ _ _ _)
    have hpoll' : v.poller = update s.poller (s.conn c).loop_ q := by
      rw [← hpoll, ← hv]
      rfl
    have hcounts : Counts v c := by
      refine hc.toCounts.turn hturn' hm' (by simp) ?_ (by simp) (by simp) (by omega) (by omega)
      have hmoved := hturn'.removing_server hm' howner
      simp at hmoved ⊢
      exact hmoved
    have hheld := hc.held_turn hturn' (by rw [← hv]; exact hserver) (by rw [← hv]; exact hclient)
      hrem'
    refine hi.closing hest hdes honce hfresh hturn' hm' hcounts hheld ?_ hclo' hdes' hpoll' hreg
      hevents ?_ ?_ ?_
    · intro x hx
      obtain rfl := List.mem_singleton.mp hx
      exact ⟨(hturn'.frame.owner c).trans howner, hturn'.frame.serverLoop k⟩
    · simp [script, Event.ofLife]
    · simp [MayFollow]
    · intro events x hx hev
      simp at hx
      rcases hx with rfl | rfl <;> simp at hev
      exact hev.symm
  rw [hperform]
  show Sat _ (u.serverRemoveConnection _ k c) _
  rw [serverRemoveConnection_eq, hserver]
  split
  · rename_i hloop
    have hpop := popped_queueInLoop u (s.server k).loop_
      (rfl : (NetFunctor.removeConnectionInLoop k c).conn = some c)
    rw [hv, ← hturn'.frame.serverLoop k] at hpop
    have hrun := removeConnectionInLoop_sat hinv hpop (by rw [hturn'.frame.accepted]; exact hpos)
      (by rw [hturn'.frame.owner]; exact howner)
    rw [hturn'.frame.serverLoop k, ← hloop] at hrun
    exact hrun
  · rw [hv]
    exact hinv

/-- The client forgets its connection; the connector starts again where it should. -/
def reset (s : Net) (k : Nat) : Net :=
  s.setClient k { s.client k with
    connection_ := none
    connector_ := if (s.client k).retry_ && (s.client k).connect_ then .kDisconnected
      else (s.client k).connector_ }

theorem turn_reset (t : Net) (hheld : (t.client k).connection_ = some c) :
    Turn t (t.reset k) c [] (t.conn c).tcp where
  same d hd := { Same.refl t d with
    held := by
      unfold Held reset setClient
      dsimp only
      cases (t.conn d).owner with
      | server l => rfl
      | client l =>
        by_cases hl : l = k
        · subst hl
          have hne : c ≠ d := Ne.symm hd
          simp [hheld, hne]
        · simp [hl] }
  frame := { Frame.refl t with
    clientLoop := fun l => by
      unfold reset setClient
      by_cases hl : l = k <;> simp [hl]
    client := fun l d hd => by
      unfold reset setClient at hd ⊢
      by_cases hl : l = k
      · subst hl
        simp at hd
      · simpa [hl] using hd }
  conn := rfl
  history := (List.append_nil _).symm
  call _ h := h

theorem clientRemoveConnection_eq (u : Net) (k : Nat) (c : ConnPtr)
    (hloop : (u.conn c).loop_ = (u.client k).loop_) :
    u.clientRemoveConnection (u.client k).loop_ k c =
      if (u.client k).connection_ = some c then
        .ok (((u.reset k).record (u.client k).loop_ c .removed).queueInLoop (u.conn c).loop_
          (.connectDestroyed c))
      else .error (.owner, .assertion) := by
  unfold clientRemoveConnection assertInLoopThread MuduoNet.assert
  dsimp only
  rw [demand_true rfl, demand_true hloop.symm, hloop]
  by_cases hheld : (u.client k).connection_ = some c
  · rw [demand_true hheld, if_pos hheld]
    rfl
  · rw [demand_false hheld, if_neg hheld]
    rfl

/-- The close of a client's connection removes it at once. -/
theorem handleClose_client (hi : Inv K fd s) (hest : 0 < s.times c .established)
    (hdes : s.times c .destroyed = 0) (howner : (s.conn c).owner = .client k)
    (honce : K.once → s.times c .closed = 0)
    (hfresh : (c, .close) ∉ (s.phase (s.conn c).loop_).todo) :
    Sat (ClosedTwice K) (s.perform (s.conn c).loop_ c (·.handleClose)) (Inv K fd) := by
  have hc := hi.conn c
  have hpos := hc.accepted_pos hest
  have hloop := hi.whole.clientLoop c k hpos howner
  obtain ⟨u, q, hperform, hturn, hpoll, hreg, hevents, hserver, hclient, hm⟩ :=
    handleClose_spec hi hest hdes
  rw [howner] at hperform
  have hacc := hc.accepted
  have hest₀ := hc.established
  have hrem₀ : s.times c .removed = s.times c .closed := by
    have hrem := hc.removed
    rw [removing, howner] at hrem
    dsimp only at hrem
    omega
  have hheld : s.Held c ↔ (s.client k).connection_ = some c := by
    rw [Held, howner]
  have hforgets := clientRemoveConnection_eq u k c (by rw [hturn.frame.loop, hclient, hloop])
  rw [hclient, ← hloop] at hforgets
  rw [hperform]
  show Sat _ (u.clientRemoveConnection _ k c) _
  rw [hforgets]
  by_cases hsome : (s.client k).connection_ = some c
  · rw [if_pos hsome]
    have hrem₁ : s.times c .removed = 0 := (hc.held.mp (hheld.mpr hsome)).2
    have hleave := (turn_reset u (by rw [hclient]; exact hsome)).trans
      (turn_leave (u.reset k) (s.conn c).loop_ c)
    rw [show (u.reset k).conn c = u.conn c from rfl, show u.conn c = _ from hturn.conn] at hleave
    have hturn' := hturn.trans hleave
    rw [show (u.conn c).loop_ = (s.conn c).loop_ from hturn.frame.loop c]
    dsimp only at hturn'
    generalize hv : ((u.reset k).record (s.conn c).loop_ c .removed).queueInLoop
      (s.conn c).loop_ (.connectDestroyed c) = v at hturn' ⊢
    show Inv K fd v
    have hest' : v.times c .established = s.times c .established := by
      rw [hturn'.times]
      simp
    have hclo' : v.times c .closed = s.times c .closed + 1 := by
      rw [hturn'.times]
      simp
    have hrem' : v.times c .removed = 1 := by
      rw [hturn'.times]
      simp [hrem₁]
    have hdes' : v.times c .destroyed = s.times c .destroyed := by
      rw [hturn'.times]
      simp
    have hm' : Moved s v c [] [((s.conn c).loop_, .connectDestroyed c)] := by
      have hforgotten : Moved u ((u.reset k).record (s.conn c).loop_ c .removed) c [] [] :=
        .of_functors fun _ _ _ => rfl
      rw [← hv]
      exact (hm.trans hforgotten).trans (moved_queueInLoop _ _ _ _)
    have hpoll' : v.poller = update s.poller (s.conn c).loop_ q := by
      rw [← hpoll, ← hv]
      rfl
    have hcounts : Counts v c := by
      refine hc.toCounts.turn hturn' hm' (by simp) ?_ (by simp) (by simp) (by omega) (by omega)
      rw [hturn'.removing hm' (by simp)]
      simp
    have hnot : ¬ v.Held c := by
      rw [Held, hturn'.frame.owner, howner, ← hv]
      simp [reset, setClient, record, queueInLoop]
    refine hi.closing hest hdes honce hfresh hturn' hm' hcounts (iff_of_false hnot (by omega)) ?_
      hclo' hdes' hpoll' hreg hevents ?_ ?_ ?_
    · intro x hx
      obtain rfl := List.mem_singleton.mp hx
      exact hturn'.frame.loop c
    · simp [script, Event.ofLife, ownerLoop, howner, hloop]
    · simp [MayFollow]
    · intro events x hx hev
      simp at hx
      rcases hx with rfl | rfl | rfl <;> simp at hev
      exact hev.symm
  · rw [if_neg hsome]
    refine ⟨rfl, ?_⟩
    intro hk
    exact hsome (hheld.mp (hc.held.mpr ⟨hpos, hrem₀.trans (honce hk)⟩))

theorem handleClose_sat (hi : Inv K fd s) (hest : 0 < s.times c .established)
    (hdes : s.times c .destroyed = 0) (honce : K.once → s.times c .closed = 0)
    (hfresh : (c, .close) ∉ (s.phase (s.conn c).loop_).todo) :
    Sat (ClosedTwice K) (s.perform (s.conn c).loop_ c (·.handleClose)) (Inv K fd) := by
  cases howner : (s.conn c).owner with
  | server k => exact handleClose_server hi hest hdes howner honce hfresh
  | client k => exact handleClose_client hi hest hdes howner honce hfresh

end

end MuduoNet.Net
