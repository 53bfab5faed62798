import MuduoNet.Net.Inv

/-!
# Ordinary functions of a connection

They do not concern its life. Only a `sendInLoop` after `connectDestroyed` can fail an
assertion in one, that of the poller.
-/
namespace MuduoNet.Net

open Lib Lib.Outcome Function TcpConnection

section

variable {K : Kept} {fd : ChannelPtr → Int} {s t : Net} {c d : ConnPtr} {i j : ThreadId}

theorem ordinary_not_life {es : List Effect} (hes : ∀ e ∈ es, e.Ordinary) {e : Event}
    (he : e.ofLife = true ∨ e = .effect .removeChannel) : (es.map Event.effect).count e = 0 := by
  apply List.count_eq_zero_of_not_mem
  intro hmem
  obtain ⟨x, hx, rfl⟩ := List.mem_map.mp hmem
  have hord := hes x hx
  cases x <;> simp_all [Event.ofLife, Effect.Ordinary]

/-- Of the ordinary effects only the updates reach the poller. -/
theorem pollerEffects_ordinary {es : List Effect} (hes : ∀ e ∈ es, e.Ordinary) (p : Poller) :
    es.foldlM (pollerEffect c) p = (updates es).foldlM (fun p events => p.setEvents c events) p := by
  induction es generalizing p with
  | nil => rfl
  | cons e es ih =>
    have ih' := ih (fun x hx => hes x (List.mem_cons_of_mem e hx))
    have he := hes e List.mem_cons_self
    cases e with
    | updateChannel events =>
      show p.setEvents c events >>= _ = p.setEvents c events >>= _
      congr
      funext q
      exact ih' q
    | connectionCallback up => cases he
    | closeCallback => cases he
    | removeChannel => cases he
    | _ => exact ih' p

theorem mem_updates {es : List Effect} {events : BitVec 32} :
    events ∈ updates es ↔ .updateChannel events ∈ es := by
  unfold updates
  rw [List.mem_filterMap]
  constructor
  · rintro ⟨e, he, hev⟩
    cases e <;> simp_all
  · intro h
    exact ⟨_, h, rfl⟩

theorem pairwise_ordinary {es : List Effect} (hes : ∀ e ∈ es, e.Ordinary) :
    (es.map fun e => (Event.effect e, i)).Pairwise MayFollow := by
  rw [List.pairwise_map]
  refine List.Pairwise.imp_of_mem (R := fun _ _ => True) ?_ (List.pairwise_of_forall fun _ _ => trivial)
  intro e _ he _ _ events _
  have hord := hes e he
  refine ⟨?_, ?_, ?_⟩ <;> intro heq <;> obtain rfl := Event.effect.inj heq <;> cases hord

/-- The function of an established connection has returned, its effects have reached the queue
and the poller. -/
theorem Inv.settled (hi : Inv K fd s) (hloop : (s.conn c).loop_ = i)
    (hest : 0 < s.times c .established) {tcp : TcpConnection} (hwf : tcp.WfBuffers)
    (hup : s.times c .destroyed = 0 → tcp.state_ = .kConnected ∨ tcp.state_ = .kDisconnecting)
    {es : List Effect} (hes : ∀ e ∈ es, e.Ordinary)
    {p : Poller} (hreg : Poller.Registry fd p (s.Live i) s.Muted)
    (hother : ∀ d, d ≠ c → p.channel d = (s.poller i).channel d)
    (hevents : (p.channel c).events_ = tcp.channel_.events_)
    (hindex : (p.channel c).index_ < 0 ↔ ((s.poller i).channel c).index_ < 0)
    (hoff : K.quiet → 0 < s.times c .closed →
      tcp.channel_.events_ = Channel.kNoneEvent ∧ updates es = []) :
    Inv K fd ((s.setTcp c tcp).settle i c es p) := by
  subst hloop
  have hc := hi.conn c
  have hpos := hc.accepted_pos hest
  generalize ht : (s.setTcp c tcp).settle (s.conn c).loop_ c es p = t
  have hturn : Turn s t c (es.map fun e => (.effect e, (s.conn c).loop_)) tcp := by
    rw [← ht]
    refine turn_settle s _ c tcp es ?_
    intro d hd
    rw [hother d hd]
    exact ⟨rfl, Iff.rfl⟩
  have hpoll : t.poller (s.conn c).loop_ = p := by
    rw [← ht]
    exact update_self _ _ _
  have hnone : ∀ e : Event, e.ofLife = true ∨ e = .effect .removeChannel →
      ((es.map fun e => (Event.effect e, (s.conn c).loop_)).map Prod.fst).count e = 0 := by
    intro e he
    rw [List.map_map]
    exact ordinary_not_life hes he
  have htimes : ∀ e : Event, e.ofLife = true ∨ e = .effect .removeChannel →
      t.times c e = s.times c e := by
    intro e he
    rw [hturn.times, hnone e he, Nat.add_zero]
  have hacc := htimes .accepted (.inl rfl)
  have hest' := htimes .established (.inl rfl)
  have hclo := htimes .closed (.inl rfl)
  have hrem := htimes .removed (.inl rfl)
  have hdes := htimes .destroyed (.inl rfl)
  have hm : Moved s t c [] [] := by
    refine .of_functors ?_
    intro j cb hcb
    rw [← ht, functors_settle es p hcb]
    rfl
  have hcounts : Counts t c := by
    refine hc.toCounts.turn hturn hm ?_ ?_ ?_ ?_ ?_ ?_
    · rw [hnone .established (.inl rfl)]
      rfl
    · rw [hnone .removed (.inl rfl), hnone .closed (.inl rfl), hturn.removing hm fun _ _ => rfl]
    · rw [hnone .destroyed (.inl rfl), hnone .removed (.inl rfl)]
    · rw [hnone _ (.inr rfl), hnone .destroyed (.inl rfl)]
    · exact hrem ▸ hc.once
    · exact hest' ▸ hest
  have hheld : t.Held c ↔ s.Held c := hturn.held (by rw [← ht]; rfl) (by rw [← ht]; rfl)
  refine hi.touches hturn.toTouches (hi.lt_allocated hpos) ?_ ?_
  · refine hc.turn hturn hm hpos (hest' ▸ hest) hcounts ?_ (List.forall_mem_nil _) ?_ ?_ ?_ hwf
      ?_ ?_ ?_ ?_
    · simpa [hheld, hacc, hrem] using hc.held
    · exact fun _ _ _ => hdes
    · exact fun _ _ => hclo
    · rw [hdes]
      exact hup
    · rw [hpoll, hevents]
    · simpa [hpoll, hdes, hindex] using hc.stale
    · intro hk
      have hnil : (es.map fun e => (Event.effect e, (s.conn c).loop_)).filter
          (fun e => e.1.ofLife) = [] := by
        rw [List.filter_eq_nil_iff]
        intro x hx
        obtain ⟨e, he, rfl⟩ := List.mem_map.mp hx
        have hord := hes e he
        cases e <;> simp_all [Event.ofLife, Effect.Ordinary]
      rw [hclo, hnil]
      exact ⟨(hc.life hk).1, List.nil_prefix⟩
    · intro hk
      refine ⟨fun h => (hoff hk (hclo ▸ h)).1, hc.mayFollow hk (pairwise_ordinary hes) ?_⟩
      intro events x hx hev
      obtain ⟨e, he, rfl⟩ := List.mem_map.mp hx
      obtain rfl := Event.effect.inj hev
      have hmem := mem_updates.mpr he
      have hclosed : ¬ 0 < s.times c .closed := by
        intro h
        rw [(hoff hk h).2] at hmem
        cases hmem
      exact ⟨fun h => absurd h hclosed, by have := hc.destroyed_closed; omega⟩
  · refine hi.registries hturn.toTouches (hc.other_none hpos) (by rw [← ht]; rfl) hreg
      (fun _ _ => Iff.rfl) ?_ (fun _ _ => id) ?_
    · simp [Live, hest', hdes, hturn.frame.loop, hturn.frame.other]
    · simp [Muted, hclo]

theorem sat_failsAt {α : Type} {site : Site} {A : Fault → Prop} {x : Except Fault α}
    {P : α → Prop} {B : NetFault → Prop} (hx : Sat A x P) (hB : ∀ f, A f → B (site, f)) :
    Sat B (failsAt site x) P := by
  cases x with
  | error f => exact hB f hx
  | ok a => exact hx

/-- A function that returns, called on the loop of its connection. -/
theorem perform_eq {f : TcpConnection → Except Fault TcpConnection} {tcp : TcpConnection}
    (hloop : (s.conn c).loop_ = i) (hf : f (s.conn c).tcp.idle = .ok tcp) :
    s.perform i c f = tcp.trace.foldlM (effect i c) (s.setTcp c tcp.idle) := by
  unfold perform assertInLoopThread
  rw [hloop, demand_true rfl, hf]
  rfl

/-- What may stop an ordinary function: it runs out of memory, or it hands a channel to the
poller after `connectDestroyed`. -/
def OrdinaryFault (s : Net) (c : ConnPtr) (reopens : Prop) (e : NetFault) : Prop :=
  e = (.connection, .lengthError) ∨
    (e = (.poller, .assertion) ∧ 0 < s.times c .destroyed ∧ reopens)

/-- An ordinary function, called on the loop of an established connection. `Q` is what it may
hand to the poller. -/
theorem perform_ordinary (hi : Inv K fd s) (hest : 0 < s.times c .established)
    {f : TcpConnection → Except Fault TcpConnection} {Q : Option (BitVec 32) → Prop}
    (hf : Sat (· = .lengthError) (f (s.conn c).tcp.idle) (fun tcp => tcp.WfBuffers ∧
      ∃ u, Ordinary u (s.conn c).tcp.idle tcp ∧ Q u))
    (hquiet : K.quiet → 0 < s.times c .closed → ∀ u, Q u → u = none) :
    Sat (s.OrdinaryFault c (∃ events, Q (some events))) (s.perform (s.conn c).loop_ c f)
      (Inv K fd) := by
  have hc := hi.conn c
  unfold perform assertInLoopThread
  rw [demand_true rfl]
  refine sat_bind (P := fun tcp => tcp.WfBuffers ∧ ∃ u, Ordinary u (s.conn c).tcp.idle tcp ∧ Q u)
    (sat_failsAt hf fun f hf => .inl (by rw [hf])) ?_
  rintro tcp ⟨hwf, u, ⟨hstate, ⟨es, htrace, hu, hes⟩, hchannel⟩, hQ⟩
  obtain rfl : tcp.trace = es := htrace
  have hno : .closeCallback ∉ tcp.trace := fun hmem => hes _ hmem
  have hwf' : tcp.idle.WfBuffers := hwf.congr rfl rfl
  have hup : s.times c .destroyed = 0 →
      tcp.idle.state_ = .kConnected ∨ tcp.idle.state_ = .kDisconnecting :=
    fun hdes => hstate ▸ hc.up hest hdes
  rw [effects_eq _ _ _ hno, pollerEffects_ordinary hes, hu]
  have hreg := hi.registry (s.conn c).loop_
  cases u with
  | none =>
    refine hi.settled rfl hest hwf' hup hes hreg (fun _ _ => rfl) ?_ Iff.rfl ?_
    · exact (hc.events hest).trans (congrArg Channel.events_ hchannel.symm)
    · intro hk hclosed
      refine ⟨?_, hu⟩
      rw [← (hc.off hk).1 hclosed]
      exact congrArg Channel.events_ hchannel
  | some events =>
    show Sat _ (failsAt .poller ((s.poller _).setEvents c events >>= pure) >>= _) _
    by_cases hdes : s.times c .destroyed = 0
    · have hlive : s.Live (s.conn c).loop_ c := .inl ⟨rfl, hest, hdes⟩
      obtain ⟨q, hq, hreg', hevents, hother⟩ := Poller.setEvents_live hreg events hlive
      rw [hq]
      have hreg'' := hreg'.congr (fun _ => Iff.rfl) (fun d _ hm => Or.inl hm)
      refine hi.settled rfl hest hwf' hup hes hreg'' hother ?_ ?_ ?_
      · rw [hevents]
        exact hchannel.symm
      · have hold := hreg.index_nonneg hlive
        have hnew := hreg''.index_nonneg hlive
        omega
      · intro hk hclosed
        cases hquiet hk hclosed _ hQ
    · have hpos : 0 < s.times c .destroyed := Nat.pos_of_ne_zero hdes
      have hlive : ¬ s.Live (s.conn c).loop_ c := by
        simp [Live, hdes, hc.other_none (hc.accepted_pos hest)]
      have hindex := hc.stale hpos
      rw [Poller.setEvents_stale hreg events hlive (by omega)]
      exact .inr ⟨rfl, hpos, events, hQ⟩

end

end MuduoNet.Net
