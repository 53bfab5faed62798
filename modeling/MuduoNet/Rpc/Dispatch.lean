import MuduoNet.Lib.Rotation
import MuduoNet.Rpc.Translation

/-!
# To which backend a request goes

The loop of `Balancer::onRpcMessage` goes on to the next session after each try, so that a whole
round without success comes back to where it began, and the session after the one that took the
request is asked first the next time.
-/
namespace MuduoNet.Rpc

open Lib Lib.Outcome Lib.Rotation

namespace BackendSession

section

variable {b : BackendSession}

/-- Without a connection nothing happens. -/
theorem send_down (msg : RpcMessage) (conn : Nat) (hdown : b.conn_.isSome = false) :
    b.send msg conn = .ok (false, msg, b) := by
  have hnone : b.conn_ = none := by simpa using hdown
  unfold send
  rw [hnone]

theorem send_free (msg : RpcMessage) (conn : Nat) (hup : b.conn_.isSome = true)
    (hfree : b.outstandings_ (b.nextId_ + 1) = none) :
    b.send msg conn = .ok (true, msg.set_id (b.nextId_ + 1), { b with
      nextId_ := b.nextId_ + 1
      outstandings_ := Function.update b.outstandings_ (b.nextId_ + 1) (some ⟨msg.id, conn⟩)
      history := b.history ++ [.sent conn msg (msg.set_id (b.nextId_ + 1))] }) := by
  obtain ⟨c, hc⟩ := Option.isSome_iff_exists.mp hup
  unfold send
  rw [hc]
  dsimp only
  rw [assert, demand_bind hfree]
  rfl

theorem send_used (msg : RpcMessage) (conn : Nat) (hup : b.conn_.isSome = true)
    (hused : b.outstandings_ (b.nextId_ + 1) ≠ none) : b.send msg conn = .error .assertion := by
  obtain ⟨c, hc⟩ := Option.isSome_iff_exists.mp hup
  unfold send
  rw [hc]
  dsimp only
  rw [assert, demand_false hused]
  rfl

theorem sentIds_send {b' : BackendSession} {msg sent : RpcMessage} {conn : Nat}
    (h : b.send msg conn = .ok (true, sent, b')) : b'.sentIds.length = b.sentIds.length + 1 := by
  obtain ⟨_, rfl⟩ := send_true h
  unfold sentIds
  rw [List.filterMap_append, List.length_append]
  rfl

/-- Ids are not given out twice before they wrap. -/
theorem Inv.fresh (hi : b.Inv) (hlt : b.sentIds.length < 2 ^ 64) :
    b.outstandings_ (b.nextId_ + 1) = none := by
  by_contra hused
  obtain ⟨r, hr⟩ := Option.ne_none_iff_exists'.mp hused
  rw [hi.table] at hr
  obtain ⟨before, request, sent, since, hhistory, hid, _⟩ := sent_of_outstanding hr
  have hmem : b.nextId_ + 1 ∈ b.sentIds := by
    rw [← hid]
    refine List.mem_filterMap.mpr ⟨.sent r.clientConn request sent, ?_, rfl⟩
    rw [hhistory]
    simp
  rw [hi.ids] at hmem
  obtain ⟨j, hj, heq⟩ := List.mem_map.mp hmem
  rw [List.mem_range'_1] at hj
  have hnext : b.nextId_ + 1 = UInt64.ofNat (b.sentIds.length + 1) := by
    rw [hi.nextId, UInt64.ofNat_add]
    rfl
  have hnat := congrArg UInt64.toNat (heq.trans hnext)
  rw [UInt64.toNat_ofNat', UInt64.toNat_ofNat'] at hnat
  omega

theorem sentIds_onRpcMessage (alive : Nat → Bool) (b : BackendSession) (msg : RpcMessage) :
    (b.onRpcMessage alive msg).sentIds = b.sentIds := by
  obtain ⟨forwarded, heq, _⟩ := onRpcMessage_eq alive b msg
  rw [heq]
  unfold sentIds
  rw [List.filterMap_append]
  exact List.append_nil _

end

end BackendSession

namespace PerThread

/-- The loop of `onRpcMessage` as in `trySend`, with all that it changes: `succeed`, `*msg`
and `t`. -/
def forward : Nat → PerThread → RpcMessage → Nat → Except Fault (Bool × RpcMessage × PerThread)
  | 0, t, msg, _ => .ok (false, msg, t)
  | left + 1, t, msg, conn =>
    match t.backends[t.current]? with
    | none => .error .outOfBounds
    | some b => do
      let (succeed, msg', b') ← b.send msg conn
      let t' : PerThread := ⟨(t.current + 1) % t.backends.length, t.backends.set t.current b'⟩
      if succeed then return (true, msg', t') else forward left t' msg' conn

/-- The session `i` has a connection. -/
def up (t : PerThread) (i : Nat) : Bool := (t.backends[i]?.bind BackendSession.conn_).isSome

/-- What `left` tries have done to the request `msg` of the client `conn`. -/
inductive Tried (t : PerThread) (msg : RpcMessage) (conn left : Nat) :
    Bool × RpcMessage × PerThread → Prop
  | nowhere (hdown : ∀ j, offset t.backends.length t.current j < left → t.up j = false) :
      Tried t msg conn left (false, msg, ⟨(t.current + left) % t.backends.length, t.backends⟩)
  | once {i : Nat} {b b' : BackendSession} {sent : RpcMessage}
      (hfirst : First (t.up · = true) t.backends.length t.current i)
      (hnear : offset t.backends.length t.current i < left) (hb : t.backends[i]? = some b)
      (hsend : b.send msg conn = .ok (true, sent, b')) :
      Tried t msg conn left (true, sent, ⟨(i + 1) % t.backends.length, t.backends.set i b'⟩)

/-- What a whole round of tries does to the request: it goes to the first session from
`t.current` on that has a connection, or is left as it was. -/
inductive Forwarded (t : PerThread) (msg : RpcMessage) (conn : Nat) :
    Bool × RpcMessage × PerThread → Prop
  | nowhere (hdown : ∀ i, t.up i = false) : Forwarded t msg conn (false, msg, t)
  | once {i : Nat} {b b' : BackendSession} {sent : RpcMessage}
      (hfirst : First (t.up · = true) t.backends.length t.current i)
      (hb : t.backends[i]? = some b) (hsend : b.send msg conn = .ok (true, sent, b')) :
      Forwarded t msg conn (true, sent, ⟨(i + 1) % t.backends.length, t.backends.set i b'⟩)

/-- An id that is to be given out is still in use. -/
def Collides (t : PerThread) (f : Fault) : Prop :=
  f = .assertion ∧ ∃ b ∈ t.backends, b.outstandings_ (b.nextId_ + 1) ≠ none

theorem trySend_eq (left : Nat) (t : PerThread) (msg : RpcMessage) (conn : Nat) :
    t.trySend left msg conn = (t.forward left msg conn).map fun r => r.2.2 := by
  induction left generalizing t msg with
  | zero => rfl
  | succ left ih =>
    unfold trySend forward
    cases t.backends[t.current]? with
    | none => rfl
    | some b =>
      dsimp only
      cases b.send msg conn with
      | error f => rfl
      | ok r =>
        obtain ⟨succeed, sent, b'⟩ := r
        cases succeed with
        | true => rfl
        | false => exact ih _ _

variable {t : PerThread} {msg : RpcMessage} {conn left : Nat}

theorem up_eq {i : Nat} {b : BackendSession} (hb : t.backends[i]? = some b) :
    t.up i = b.conn_.isSome := by
  rw [up, hb]
  rfl

theorem lt_of_up {i : Nat} (h : t.up i = true) : i < t.backends.length := by
  by_contra hge
  rw [up, List.getElem?_eq_none (Nat.le_of_not_lt hge)] at h
  cases h

/-- A try at a session without a connection leaves one more behind. -/
theorem Tried.pass {r : Bool × RpcMessage × PerThread} (hc : t.current < t.backends.length)
    (hdown : t.up t.current = false)
    (h : Tried ⟨(t.current + 1) % t.backends.length, t.backends⟩ msg conn left r) :
    Tried t msg conn (left + 1) r := by
  cases h with
  | nowhere hrest =>
    rw [Nat.mod_add_mod, Nat.add_assoc, Nat.add_comm 1 left]
    refine .nowhere ?_
    intro j hj
    by_cases heq : j = t.current
    · rw [heq]
      exact hdown
    · by_contra hup
      have hlt := lt_of_up (eq_true_of_ne_false hup)
      rw [offset_succ hc hlt heq] at hj
      exact hup (hrest j (Nat.lt_of_succ_lt_succ hj))
  | once hfirst hnear hb hsend =>
    have hne : ¬ t.up t.current = true := by
      rw [hdown]
      decide
    have hfirst' : First (t.up · = true) t.backends.length t.current _ := hfirst.pass hc hne
    refine .once hfirst' ?_ hb hsend
    rw [offset_succ hc hfirst.lt]
    · exact Nat.succ_lt_succ hnear
    · rintro rfl
      exact hne hfirst.holds

theorem forward_sat (hc : t.current < t.backends.length) (left : Nat) :
    Sat t.Collides (t.forward left msg conn) (Tried t msg conn left) := by
  induction left generalizing t with
  | zero =>
    have hnone : Tried t msg conn 0 (false, msg, ⟨(t.current + 0) % _, t.backends⟩) :=
      .nowhere (by simp)
    rwa [Nat.add_zero, Nat.mod_eq_of_lt hc] at hnone
  | succ left ih =>
    have hb := List.getElem?_eq_getElem hc
    unfold forward
    rw [hb]
    dsimp only
    cases hup : t.backends[t.current].conn_.isSome with
    | true =>
      have hcur : t.up t.current = true := by rw [up_eq hb, hup]
      have hself : First (t.up · = true) t.backends.length t.current t.current := .self hc hcur
      by_cases hfree : t.backends[t.current].outstandings_ (t.backends[t.current].nextId_ + 1) = none
      · have hsend := BackendSession.send_free msg conn hup hfree
        rw [hsend]
        refine Tried.once hself ?_ hb hsend
        rw [offset_self]
        exact Nat.succ_pos left
      · rw [BackendSession.send_used msg conn hup hfree]
        exact ⟨rfl, _, List.getElem_mem hc, hfree⟩
    | false =>
      rw [BackendSession.send_down msg conn hup, ok_bind]
      dsimp only
      rw [if_neg (by decide), List.set_getElem_self]
      have hnext : (t.current + 1) % t.backends.length < t.backends.length :=
        Nat.mod_lt _ (Nat.zero_lt_of_lt hc)
      have hrest := ih (t := ⟨(t.current + 1) % t.backends.length, t.backends⟩) hnext
      refine sat_post hrest ?_
      intro r hr
      exact hr.pass hc (by rw [up_eq hb, hup])

theorem Tried.forwarded {r : Bool × RpcMessage × PerThread} (hc : t.current < t.backends.length)
    (h : Tried t msg conn t.backends.length r) : Forwarded t msg conn r := by
  cases h with
  | nowhere hdown =>
    rw [Nat.add_mod_right, Nat.mod_eq_of_lt hc]
    refine .nowhere ?_
    intro i
    by_contra hup
    have hlt := lt_of_up (eq_true_of_ne_false hup)
    exact hup (hdown i (offset_lt hc hlt))
  | once hfirst _ hb hsend => exact .once hfirst hb hsend

/-- How many requests each session has sent. -/
def counts (t : PerThread) : List Nat := t.backends.map fun b => b.sentIds.length

@[simp] theorem length_counts : t.counts.length = t.backends.length := List.length_map _

theorem counts_set (c : Nat) {i n : Nat} {b b' : BackendSession} (hb : t.backends[i]? = some b)
    (h : b'.sentIds.length = b.sentIds.length + n) :
    (PerThread.mk c (t.backends.set i b')).counts = t.counts.modify i (· + n) := by
  obtain ⟨hlt, rfl⟩ := List.getElem?_eq_some_iff.mp hb
  unfold counts
  rw [List.map_set, h]
  apply List.ext_getElem (by simp)
  intro j _ _
  rw [List.getElem_set, List.getElem_modify]
  split
  · rename_i heq
    subst heq
    rw [List.getElem_map]
  · rfl

/-- A round leaves the current position within the sessions, and no session is lost. -/
theorem Forwarded.length {r : Bool × RpcMessage × PerThread} (hc : t.current < t.backends.length)
    (h : Forwarded t msg conn r) : r.2.2.backends.length = t.backends.length ∧
      r.2.2.current < t.backends.length := by
  cases h with
  | nowhere _ => exact ⟨rfl, hc⟩
  | once _ _ _ => exact ⟨List.length_set, Nat.mod_lt _ (Nat.zero_lt_of_lt hc)⟩

end PerThread

namespace Balancer

open PerThread

/-- A client of the thread sends a message. -/
def asks (thread : Nat) (s : Balancer) : BalancerLabel → Bool
  | .request conn _ => s.client conn = .alive thread
  | _ => false

/-- Every backend of the thread is connected. -/
def AllUp (thread : Nat) (s : Balancer) : Prop :=
  ∀ i, i < (s.t_backends_ thread).backends.length → (s.t_backends_ thread).up i = true

section

variable {s s' : Balancer} {l : BalancerLabel} {thread conn : Nat} {msg : RpcMessage}

@[simp] theorem setThread_self {t : PerThread} : (s.setThread thread t).t_backends_ thread = t :=
  Function.update_self _ _ _

theorem setThread_ne {t : PerThread} {thread' : Nat} (h : thread' ≠ thread) :
    (s.setThread thread t).t_backends_ thread' = s.t_backends_ thread' :=
  Function.update_of_ne h _ _

/-- What `onRpcMessage` does in the thread of the client. -/
theorem onRpcMessage_forward :
    s.onRpcMessage conn thread msg =
      (s.t_backends_ thread).forward (s.t_backends_ thread).backends.length msg conn >>=
        fun r => .ok (s.setThread thread r.2.2) := by
  unfold onRpcMessage
  dsimp only
  rw [trySend_eq]
  cases (s.t_backends_ thread).forward (s.t_backends_ thread).backends.length msg conn <;> rfl

theorem step_request (hclient : s.client conn = .alive thread) :
    s.step (.request conn msg) = s.onRpcMessage conn thread msg := by
  simp only [step, hclient]

/-- Replacing a session by one that has sent as many requests. -/
theorem setSession_counts {j k : Nat} {b b' : BackendSession} (hb : s.session j k = some b)
    (hids : b'.sentIds = b.sentIds) :
    ((s.setSession j k b').t_backends_ thread).current = (s.t_backends_ thread).current ∧
      ((s.setSession j k b').t_backends_ thread).counts = (s.t_backends_ thread).counts := by
  unfold setSession
  by_cases hj : thread = j
  · subst hj
    rw [setThread_self]
    refine ⟨rfl, ?_⟩
    have hset := counts_set (t := s.t_backends_ thread) (n := 0) (s.t_backends_ thread).current hb
      (congrArg List.length hids)
    rw [hset]
    exact List.modify_id _ _
  · rw [setThread_ne hj]
    exact ⟨rfl, rfl⟩

/-- Other steps leave the turn and what has been sent as they are. -/
theorem step_other (hasks : s.asks thread l = false) (hs : s.step l = .ok s') :
    (s'.t_backends_ thread).current = (s.t_backends_ thread).current ∧
      (s'.t_backends_ thread).counts = (s.t_backends_ thread).counts := by
  cases l with
  | accept conn j =>
    cases hs
    exact ⟨rfl, rfl⟩
  | drop conn =>
    cases hs
    exact ⟨rfl, rfl⟩
  | request conn msg =>
    cases hc : s.client conn with
    | alive j =>
      have hj : thread ≠ j := by
        rintro rfl
        rw [asks, hc] at hasks
        simp at hasks
      rw [step_request hc, onRpcMessage_forward] at hs
      obtain ⟨r, _, hs⟩ := bind_eq_ok hs
      cases hs
      rw [setThread_ne hj]
      exact ⟨rfl, rfl⟩
    | _ =>
      simp only [step, hc] at hs
      cases hs
      exact ⟨rfl, rfl⟩
  | backend j k conn connected =>
    cases hb : s.session j k with
    | some b =>
      simp only [step, hb] at hs
      cases hs
      exact setSession_counts hb rfl
    | none =>
      simp only [step, hb] at hs
      cases hs
      exact ⟨rfl, rfl⟩
  | reply j k msg =>
    cases hb : s.session j k with
    | some b =>
      simp only [step, hb] at hs
      cases hs
      exact setSession_counts hb (b.sentIds_onRpcMessage s.alive msg)
    | none =>
      simp only [step, hb] at hs
      cases hs
      exact ⟨rfl, rfl⟩

theorem step_asked (hasks : s.asks thread l = true) (hs : s.step l = .ok s')
    (hc : (s.t_backends_ thread).current < (s.t_backends_ thread).backends.length) :
    ∃ msg conn r, (s.t_backends_ thread).Forwarded msg conn r ∧ s'.t_backends_ thread = r.2.2 := by
  cases l with
  | request conn msg =>
    have hclient : s.client conn = .alive thread := of_decide_eq_true hasks
    rw [step_request hclient, onRpcMessage_forward] at hs
    obtain ⟨r, hr, hs⟩ := bind_eq_ok hs
    cases hs
    exact ⟨msg, conn, r, ((forward_sat hc _).of_ok hr).forwarded hc, setThread_self⟩
  | accept | drop | backend | reply => cases hasks

theorem reachable_turn {count : Nat → Nat} {backends : Nat} (hn : 0 < backends)
    (h : Reachable machine (start count backends) s) (thread : Nat) :
    (s.t_backends_ thread).backends.length = backends ∧
      (s.t_backends_ thread).current < backends := by
  refine h.invariant (I := fun s => (s.t_backends_ thread).backends.length = backends ∧
    (s.t_backends_ thread).current < backends) ?_ ?_
  · intro s l s' hi _ hs
    obtain ⟨hlength, hcurrent⟩ := hi
    cases hasks : s.asks thread l with
    | true =>
      obtain ⟨_, _, r, hr, ht⟩ := step_asked hasks hs (hlength ▸ hcurrent)
      rw [ht, ← hlength]
      exact hr.length (hlength ▸ hcurrent)
    | false =>
      obtain ⟨hsame, hcounts⟩ := step_other hasks hs
      have hsize := congrArg List.length hcounts
      rw [length_counts, length_counts] at hsize
      exact ⟨hsize.trans hlength, hsame ▸ hcurrent⟩
  · exact ⟨List.length_replicate, Nat.mod_lt _ hn⟩

/-- With every backend connected a request goes to the one whose turn it is. -/
theorem step_served (hup : s.AllUp thread) (hasks : s.asks thread l = true)
    (hs : s.step l = .ok s')
    (hc : (s.t_backends_ thread).current < (s.t_backends_ thread).backends.length) :
    (s'.t_backends_ thread).current =
        ((s.t_backends_ thread).current + 1) % (s.t_backends_ thread).backends.length ∧
      (s'.t_backends_ thread).counts =
        (s.t_backends_ thread).counts.modify (s.t_backends_ thread).current (· + 1) := by
  obtain ⟨_, _, r, hr, ht⟩ := step_asked hasks hs hc
  rw [ht]
  have hcur := hup _ hc
  cases hr with
  | nowhere hdown =>
    rw [hdown] at hcur
    cases hcur
  | once hfirst hb hsend =>
    obtain rfl := hfirst.unique hc (First.self hc hcur)
    exact ⟨rfl, counts_set _ hb (BackendSession.sentIds_send hsend)⟩

/-- The number of requests that the clients of the thread have made. -/
def asked (thread : Nat) (m : Nat) (s : Balancer) (l : BalancerLabel) : Nat :=
  if s.asks thread l then m + 1 else m

/-- The runs in which every backend of the thread stays connected. -/
def connected (thread : Nat) : Machine Balancer BalancerLabel Fault :=
  machine.restrict fun s _ => s.AllUp thread

/-- Up to a full round the requests go to one session after the other. -/
theorem run_served {ls : List BalancerLabel} (h : Run (connected thread) s ls s')
    (hc : (s.t_backends_ thread).current < (s.t_backends_ thread).backends.length) :
    let m := (connected thread).track (asked thread) 0 s ls
    m ≤ (s.t_backends_ thread).backends.length →
      (s'.t_backends_ thread).current =
          ((s.t_backends_ thread).current + m) % (s.t_backends_ thread).backends.length ∧
        (s'.t_backends_ thread).counts =
          served (s.t_backends_ thread).counts (s.t_backends_ thread).current m := by
  refine Run.tracks (I := fun u m => m ≤ (s.t_backends_ thread).backends.length →
    (u.t_backends_ thread).current =
        ((s.t_backends_ thread).current + m) % (s.t_backends_ thread).backends.length ∧
      (u.t_backends_ thread).counts =
        served (s.t_backends_ thread).counts (s.t_backends_ thread).current m) ?_ h ?_
  · intro u l v m hi he hs hm
    unfold asked at hm ⊢
    cases hasks : u.asks thread l with
    | true =>
      rw [hasks, if_pos rfl] at hm
      rw [if_pos rfl]
      obtain ⟨hcurrent, hcounts⟩ := hi (by omega)
      have hlength : (u.t_backends_ thread).backends.length =
          (s.t_backends_ thread).backends.length := by
        rw [← length_counts, hcounts, length_served, length_counts]
      have hcu : (u.t_backends_ thread).current < (u.t_backends_ thread).backends.length := by
        rw [hcurrent, hlength]
        exact Nat.mod_lt _ (by omega)
      obtain ⟨hnext, hmore⟩ := step_served he.2 hasks hs hcu
      rw [hnext, hmore, hlength, hcurrent, hcounts, Nat.mod_add_mod, Nat.add_assoc]
      refine ⟨rfl, ?_⟩
      rw [← length_counts (t := s.t_backends_ thread)]
      exact served_succ (by rwa [length_counts]) (by rw [length_counts]; omega)
    | false =>
      rw [hasks, if_neg (by decide)] at hm
      rw [if_neg (by decide)]
      obtain ⟨hcurrent, hcounts⟩ := hi hm
      obtain ⟨hsame, hsent⟩ := step_other hasks hs
      exact ⟨hsame.trans hcurrent, hsent.trans hcounts⟩
  · intro _
    exact ⟨(Nat.mod_eq_of_lt hc).symm, served_zero.symm⟩

end

/-- In every state, a request of a client goes to the first connected session from `t.current` on,
and this one's successor is asked first the next time; without a connected session the request and
the sessions stay as they are. The round ends without a failed assertion as long as no id can have
been given out twice. While every backend stays connected, as many requests as there are backends
go to each of them once. -/
theorem requests_dispatched {count : Nat → Nat} {backends : Nat} {s : Balancer}
    (hn : 0 < backends) (h : Reachable machine (start count backends) s) (thread : Nat) :
    let t := s.t_backends_ thread
    (t.backends.length = backends ∧ t.current < backends) ∧
    (∀ conn msg, s.client conn = .alive thread →
      (∀ b ∈ t.backends, b.sentIds.length < 2 ^ 64) →
        ∃ r, t.forward backends msg conn = .ok r ∧ t.Forwarded msg conn r ∧
          s.step (.request conn msg) = .ok (s.setThread thread r.2.2)) ∧
    ∀ ls u, Run (connected thread) s ls u →
      (connected thread).track (asked thread) 0 s ls = backends →
        (u.t_backends_ thread).counts = t.counts.map (· + 1) := by
  intro t
  obtain ⟨hlength, hcurrent⟩ := reachable_turn hn h thread
  have hc : t.current < t.backends.length := hlength ▸ hcurrent
  refine ⟨⟨hlength, hcurrent⟩, ?_, ?_⟩
  · intro conn msg hclient hids
    have hfree : ∀ f, ¬ t.Collides f := by
      rintro f ⟨_, b, hb, hused⟩
      obtain ⟨i, hi⟩ := List.mem_iff_getElem?.mp hb
      have hsession : s.session thread i = some b := hi
      exact hused ((reachable_session h hsession).fresh (hids b hb))
    obtain ⟨r, hr, htried⟩ := (forward_sat hc t.backends.length).returns hfree
    refine ⟨r, hlength ▸ hr, htried.forwarded hc, ?_⟩
    rw [step_request hclient, onRpcMessage_forward]
    show t.forward t.backends.length msg conn >>= _ = _
    rw [hr]
    rfl
  · intro ls u hr hm
    have hserved := (run_served hr hc (Nat.le_of_eq (hm.trans hlength.symm))).2
    rw [hm, ← hlength, ← length_counts] at hserved
    rw [hserved]
    exact served_all (by rwa [length_counts])

/-- The second of two backends is connected. -/
theorem requests_dispatched_second :
    let msg : RpcMessage := ⟨.REQUEST, 42, none, none, some [], none, none⟩
    ∃ s r, Run machine (start (fun _ => 0) 2) [.accept 0 0, .backend 0 1 7 true] s ∧
      (s.t_backends_ 0).Forwarded msg 0 r ∧
      s.step (.request 0 msg) = .ok (s.setThread 0 r.2.2) := by
  intro msg
  have hex : ∃ s, Run machine (start (fun _ => 0) 2) [.accept 0 0, .backend 0 1 7 true] s ∧
      s.client 0 = .alive 0 ∧ ∀ b ∈ (s.t_backends_ 0).backends, b.sentIds.length < 2 ^ 64 :=
    exists_run_of_exec _ (by decide +kernel)
  obtain ⟨s, hr, hclient, hids⟩ := hex
  obtain ⟨_, hforward, _⟩ := requests_dispatched (by decide) ⟨_, hr⟩ 0
  obtain ⟨r, _, hforwarded, hstep⟩ := hforward 0 msg hclient hids
  exact ⟨s, r, hr, hforwarded, hstep⟩

/-- One client and one backend. The first request is never answered, the other ones at once. -/
def unanswered (msg : RpcMessage) : Nat → List BalancerLabel
  | 0 => [.accept 0 0, .backend 0 0 0 true, .request 0 msg]
  | j + 1 => unanswered msg j ++
      [.request 0 msg, .reply 0 0 (msg.set_id (UInt64.ofNat (j + 2)))]

/-- After `j` more requests the first one is the only one that waits. -/
structure Waits (j : Nat) (s : Balancer) (b : BackendSession) : Prop where
  client : s.client 0 = .alive 0
  thread : s.t_backends_ 0 = ⟨0, [b]⟩
  connected : b.conn_.isSome = true
  nextId : b.nextId_ = UInt64.ofNat (j + 1)
  outstanding : ∀ id, b.outstandings_ id ≠ none ↔ id = 1

section

variable {s : Balancer} {msg : RpcMessage} {b b' : BackendSession} {sent : RpcMessage}

/-- With one session there is one try. -/
theorem onRpcMessage_single (ht : s.t_backends_ 0 = ⟨0, [b]⟩) :
    s.onRpcMessage 0 0 msg = b.send msg 0 >>= fun r => .ok (s.setThread 0 ⟨0, [r.2.2]⟩) := by
  unfold onRpcMessage
  rw [ht]
  show PerThread.trySend 1 ⟨0, [b]⟩ msg 0 >>= _ = _
  unfold trySend
  simp only [List.getElem?_cons_zero, List.length_singleton, Nat.mod_one, List.set_cons_zero]
  cases b.send msg 0 with
  | error f => rfl
  | ok r =>
    obtain ⟨succeed, sent, b'⟩ := r
    cases succeed with
    | true => rfl
    | false => rfl

/-- A request that nothing keeps from being sent. -/
theorem request_single (msg : RpcMessage) (hclient : s.client 0 = .alive 0)
    (ht : s.t_backends_ 0 = ⟨0, [b]⟩) (hup : b.conn_.isSome = true)
    (hfree : b.outstandings_ (b.nextId_ + 1) = none) :
    ∃ b', s.step (.request 0 msg) = .ok (s.setThread 0 ⟨0, [b']⟩) ∧ b'.conn_ = b.conn_ ∧
      b'.nextId_ = b.nextId_ + 1 ∧ b'.outstandings_ =
        Function.update b.outstandings_ (b.nextId_ + 1) (some ⟨msg.id, 0⟩) := by
  rw [step_request hclient, onRpcMessage_single ht, BackendSession.send_free msg 0 hup hfree]
  exact ⟨_, rfl, rfl, rfl, rfl⟩

theorem reply_single (ht : s.t_backends_ 0 = ⟨0, [b]⟩) :
    s.step (.reply 0 0 msg) = .ok (s.setThread 0 ⟨0, [b.onRpcMessage s.alive msg]⟩) := by
  have hb : s.session 0 0 = some b := by
    rw [session, ht]
    rfl
  simp only [step, hb, setSession, ht]
  rfl

theorem unanswered_run (msg : RpcMessage) (j : Nat) (hj : j < 2 ^ 64) :
    ∃ s b, Run machine (start (fun _ => 0) 1) (unanswered msg j) s ∧ Waits j s b := by
  induction j with
  | zero =>
    let b : BackendSession := ⟨some 0, 0, fun _ => none, []⟩
    let s : Balancer :=
      { start (fun _ => 0) 1 with client := Function.update (fun _ => .new) 0 (.alive 0) }
    have hclient : (s.setThread 0 ⟨0, [b]⟩).client 0 = .alive 0 := rfl
    obtain ⟨b', hs, hconn, hnext, hused⟩ :=
      request_single msg hclient setThread_self rfl rfl
    have he : machine.enabled (s.setThread 0 ⟨0, [b]⟩) (.request 0 msg) := rfl
    refine ⟨_, b', .cons rfl rfl (.cons rfl rfl (.single he hs)), hclient, setThread_self, ?_,
      hnext, ?_⟩
    · rw [hconn]
      rfl
    · intro id
      rw [hused]
      by_cases hid : id = 1
      · subst hid
        simp [b]
      · simp [b, hid]
  | succ j ih =>
    obtain ⟨s, b, hr, hw⟩ := ih (by omega)
    have hid : b.nextId_ + 1 = UInt64.ofNat (j + 2) := by
      rw [hw.nextId]
      exact (UInt64.ofNat_add (j + 1) 1).symm
    have hne : b.nextId_ + 1 ≠ 1 := by
      rw [hid]
      intro h
      have hnat := congrArg UInt64.toNat h
      rw [UInt64.toNat_ofNat'] at hnat
      have hone : (1 : UInt64).toNat = 1 := rfl
      omega
    have hfree : b.outstandings_ (b.nextId_ + 1) = none := by
      by_contra hused
      exact hne ((hw.outstanding _).mp hused)
    have he : machine.enabled s (.request 0 msg) := by
      show s.alive 0 = true
      rw [alive, hw.client]
    obtain ⟨b', hs, hconn, hnext, hused⟩ :=
      request_single msg hw.client hw.thread hw.connected hfree
    let t : Balancer := s.setThread 0 ⟨0, [b']⟩
    let m : RpcMessage := msg.set_id (UInt64.ofNat (j + 2))
    have hm : m.id = b.nextId_ + 1 := hid.symm
    have he' : machine.enabled t (.reply 0 0 m) := by
      show (t.session 0 0).isSome = true
      rw [session, setThread_self]
      rfl
    have hrun : Run machine (start (fun _ => 0) 1) (unanswered msg (j + 1))
        (t.setThread 0 ⟨0, [b'.onRpcMessage t.alive m]⟩) := by
      rw [unanswered, List.append_cons]
      exact (hr.snoc he hs).snoc he' (reply_single setThread_self)
    obtain ⟨_, heq, _⟩ := BackendSession.onRpcMessage_eq t.alive b' m
    refine ⟨_, _, hrun, hw.client, setThread_self, ?_, ?_, ?_⟩
    · rw [heq, ← hw.connected, ← hconn]
    · rw [heq, ← hid, ← hnext]
    · have hcleared : Function.update b.outstandings_ (b.nextId_ + 1) none = b.outstandings_ :=
        Function.update_eq_self_iff.mpr hfree.symm
      intro id
      rw [heq]
      dsimp only
      rw [hm, hused, Function.update_idem, hcleared]
      exact hw.outstanding id

/-- The next id has come round to that of the first request, and nothing is sent. -/
theorem request_collides :
    let msg : RpcMessage := ⟨.REQUEST, 42, none, none, some [], none, none⟩
    ∃ s, Run machine (start (fun _ => 0) 1) (unanswered msg (2 ^ 64 - 1)) s ∧
      s.client 0 = .alive 0 ∧ (s.t_backends_ 0).up 0 = true ∧
      s.step (.request 0 msg) = .error .assertion := by
  intro msg
  obtain ⟨s, b, hr, hw⟩ := unanswered_run msg (2 ^ 64 - 1) (by omega)
  refine ⟨s, hr, hw.client, ?_, ?_⟩
  · rw [hw.thread]
    exact hw.connected
  · have hnext : b.nextId_ + 1 = 1 := by
      rw [hw.nextId]
      rfl
    have hused : b.outstandings_ (b.nextId_ + 1) ≠ none := (hw.outstanding _).mpr hnext
    rw [step_request hw.client, onRpcMessage_single hw.thread,
      BackendSession.send_used msg 0 hw.connected hused]
    rfl

end

end Balancer

end MuduoNet.Rpc
