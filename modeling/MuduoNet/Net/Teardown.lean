import MuduoNet.Net.Dangling

/-!
# The end of a `TcpServer` or a `TcpClient`

A server is destroyed with its acceptor and its map of connections, a client with its pointer to
the connection; its connector is destroyed later. Neither removes a channel from a poller: a
connection leaves its poller in `connectDestroyed`, a connector's channel when the attempt ends,
and an acceptor's never. What is registered when its owner is destroyed stays in the poller. The
loops are not destroyed.
-/
namespace MuduoNet

open Lib Lib.Outcome Function

/-- The object that has a registered channel as a member, if it is no connection. -/
inductive ChannelOwner
  /-- The eventfd and the timerfd. -/
  | loop
  | acceptor (k : Nat)
  | connector (k : Nat)
  deriving DecidableEq

/-- An acceptor's channel is enabled once and for all. -/
def ChannelOwner.changes : ChannelOwner → Bool
  | .acceptor _ => false
  | .loop | .connector _ => true

/-- What a server or a client had when it was destroyed is still found in `ptr`. -/
structure OwnedNet where
  ptr : PtrNet
  owner : ChannelPtr → ChannelOwner
  /-- The servers, clients and connectors that have not been destroyed. -/
  server : Nat → Bool
  client : Nat → Bool
  connector : Nat → Bool

inductive OwnedLabel
  /-- Any step but the registration of a channel. -/
  | ptr (l : PtrLabel)
  | register (i : ThreadId) (events : BitVec 32) (owner : ChannelOwner)
  | destroyTcpServer (k : Nat)
  | destroyTcpClient (k : Nat)
  /-- The last `ConnectorPtr` goes. -/
  | destroyConnector (k : Nat)

namespace OwnedNet

def start (e : Net.Setup) : OwnedNet where
  ptr := .start e
  owner _ := .loop
  server _ := true
  client _ := true
  connector _ := true

abbrev net (s : OwnedNet) : Net := s.ptr.net

def has (s : OwnedNet) : ChannelOwner → Bool
  | .loop => true
  | .acceptor k => s.server k
  | .connector k => s.connector k

/-- The loop that the owner registers its channel in. -/
def loopOf (s : OwnedNet) (i : ThreadId) : ChannelOwner → ThreadId
  | .loop => i
  | .acceptor k => (s.net.server k).loop_
  | .connector k => (s.net.client k).loop_

/-- The poller has a channel of this owner. -/
def Registered (s : OwnedNet) (owner : ChannelOwner) : Prop :=
  ∃ c < s.net.allocated, s.net.other c ≠ none ∧ s.owner c = owner

instance (s : OwnedNet) (owner : ChannelOwner) : Decidable (s.Registered owner) :=
  inferInstanceAs (Decidable (∃ c < s.net.allocated, s.net.other c ≠ none ∧ s.owner c = owner))

/-- The owner of the connection has not been destroyed. -/
def ownerExists (s : OwnedNet) (c : ConnPtr) : Bool :=
  match (s.net.conn c).owner with
  | .server k => s.server k
  | .client k => s.client k

/-- `use_count()`, in which an owner counts no more once it has been destroyed. -/
def useCount (s : OwnedNet) (c : ConnPtr) : Nat :=
  s.ptr.useCount c - if s.net.Held c ∧ s.ownerExists c = false then 1 else 0

/-- The connection, the acceptor or the connector of the channel has not been destroyed. -/
def Alive (s : OwnedNet) (c : ChannelPtr) : Prop :=
  if s.net.other c = none then 0 < s.useCount c else s.has (s.owner c) = true

instance (s : OwnedNet) (c : ChannelPtr) : Decidable (s.Alive c) :=
  inferInstanceAs (Decidable
    (if s.net.other c = none then 0 < s.useCount c else s.has (s.owner c) = true))

/-- Every channel that a poller has is alive. -/
def AllAlive (s : OwnedNet) : Prop :=
  ∀ i f c, (s.net.poller i).channels_ f = some c → s.Alive c

/-- The caller is there. Only a client that exists has its connector connect, which `~TcpClient`
stops. -/
def present (s : OwnedNet) : PtrLabel → Bool
  | .net (.accept k) _ => decide (s.Registered (.acceptor k))
  | .net (.connected k) _ | .net (.enableRetry k) _ | .net (.setConnect k _) _
  | .connection _ k => s.client k
  | .net (.register _ _) _ => false
  | .net (.change _ c _) _ | .net (.unregister _ c) _ => (s.owner c).changes
  | _ => true

/-- The step calls a function of an object that has been destroyed. -/
def misses (s : OwnedNet) : PtrLabel → Bool
  | .net (.poll i _ revents) _ => ((s.net.poller i).pollfds_.zip revents).any fun (pfd, r) =>
      decide (0 < r.toInt) && ((s.net.poller i).channels_ pfd.fd).any fun c => !decide (s.Alive c)
  | .net (.handle i _ _) _ => (s.net.phase i).todo.head?.any fun x => !decide (s.Alive x.1)
  | .net (.functor i _) _ => (s.net.phase i).batch.head?.any fun
      | .removeConnectionInLoop k _ => !s.server k
      | .sendInLoop c _ | .shutdownInLoop c => s.useCount c == 0
      | .connectEstablished _ | .connectDestroyed _ | .user => false
  | .net (.accept k) _ => !s.server k
  | .net (.connector k _) _ => !s.connector k
  | _ => false

/-- In the step a connection has called the `closeCallback_` that a server set before it was
destroyed. -/
def closesLate (s : OwnedNet) (net : Net) : PtrLabel → Bool
  | .net l _ => (s.net.called l).any fun x =>
      (s.net.news net x.2.1).contains .closeCallback &&
        match (s.net.conn x.2.1).owner with
        | .server k => !s.server k
        | .client _ => false
  | _ => false

def destroyTcpServer (s : OwnedNet) (k : Nat) : OwnedNet :=
  { s with server := update s.server k false }

/-- The connection of the client calls `detail::removeConnection` from now on, which is
`TcpClient::removeConnection` without a restart. -/
def destroyTcpClient (s : OwnedNet) (k : Nat) : OwnedNet :=
  { s with
    ptr := { s.ptr with net := s.net.setClient k { s.net.client k with retry_ := false } }
    client := update s.client k false }

/-- An acceptor listens once, and a connector has one channel at a time. -/
def Enabled (fd : ChannelPtr → Int) (s : OwnedNet) : OwnedLabel → Prop
  | .ptr l => PtrNet.Enabled fd s.ptr l ∧ s.present l = true
  | .register i events owner => PtrNet.Enabled fd s.ptr (.net (.register i events) 0) ∧
      s.has owner = true ∧ s.loopOf i owner = i ∧ (owner ≠ .loop → ¬ s.Registered owner)
  | .destroyTcpServer k => s.server k = true ∧ s.net.Ready (s.net.server k).loop_
  | .destroyTcpClient k => s.client k = true ∧ s.net.Ready (s.net.client k).loop_
  | .destroyConnector k => s.client k = false ∧ s.connector k = true ∧
      s.net.Ready (s.net.client k).loop_

def step (fd : ChannelPtr → Int) (s : OwnedNet) : OwnedLabel → Except NetFault OwnedNet
  | .ptr l => do
    failsAt .owner (demand .deletedObject (s.misses l = false))
    let ptr ← (PtrNet.machine fd).step s.ptr l
    failsAt .owner (demand .deletedObject (s.closesLate ptr.net l = false))
    return { s with ptr := ptr }
  | .register i events owner => do
    let ptr ← (PtrNet.machine fd).step s.ptr (.net (.register i events) 0)
    return { s with
      ptr := ptr
      owner := update s.owner s.net.allocated owner }
  | .destroyTcpServer k => .ok (s.destroyTcpServer k)
  | .destroyTcpClient k => .ok (s.destroyTcpClient k)
  | .destroyConnector k => do
    failsAt .connector (assert (¬ s.Registered (.connector k)))
    return { s with connector := update s.connector k false }

def machine (fd : ChannelPtr → Int) : Machine OwnedNet OwnedLabel NetFault := ⟨Enabled fd, step fd⟩

/-- A server is destroyed only if it does not listen, a client only without a connection. -/
def Careful (s : OwnedNet) : OwnedLabel → Prop
  | .destroyTcpServer k => ¬ s.Registered (.acceptor k)
  | .destroyTcpClient k => (s.net.client k).connection_ = none
  | .ptr _ | .register .. | .destroyConnector _ => True

def careful (fd : ChannelPtr → Int) : Machine OwnedNet OwnedLabel NetFault :=
  (machine fd).restrict Careful

instance (fd : ChannelPtr → Int) (s : OwnedNet) (l : OwnedLabel) :
    Decidable ((machine fd).enabled s l) :=
  match l with
  | .ptr l => inferInstanceAs (Decidable ((PtrNet.machine fd).enabled s.ptr l ∧ s.present l = true))
  | .register i events owner => inferInstanceAs (Decidable (
      (PtrNet.machine fd).enabled s.ptr (.net (.register i events) 0) ∧
      s.has owner = true ∧ s.loopOf i owner = i ∧ (owner ≠ .loop → ¬ s.Registered owner)))
  | .destroyTcpServer k => inferInstanceAs (Decidable (s.server k = true ∧ s.net.Ready _))
  | .destroyTcpClient k => inferInstanceAs (Decidable (s.client k = true ∧ s.net.Ready _))
  | .destroyConnector k => inferInstanceAs (Decidable (s.client k = false ∧
      s.connector k = true ∧ s.net.Ready _))

instance (s : OwnedNet) (l : OwnedLabel) : Decidable (s.Careful l) :=
  match l with
  | .destroyTcpServer k => inferInstanceAs (Decidable (¬ s.Registered (.acceptor k)))
  | .destroyTcpClient k => inferInstanceAs (Decidable ((s.net.client k).connection_ = none))
  | .ptr _ | .register .. | .destroyConnector _ => isTrue trivial

instance (fd : ChannelPtr → Int) (s : OwnedNet) (l : OwnedLabel) :
    Decidable ((careful fd).enabled s l) :=
  inferInstanceAs (Decidable ((machine fd).enabled s l ∧ s.Careful l))

end OwnedNet

namespace Net

section

variable {s t u : Net} {c : ConnPtr} {i j : ThreadId} {k : Nat} {l : NetLabel} {w : WriteResult}

/-- No owner has a connection more, and the other channels are the same. -/
structure Inherits (s t : Net) : Prop where
  keys : ∀ k x, (s.server k).connections_ x = none → (t.server k).connections_ x = none
  client : ∀ k, (s.client k).connection_ = none → (t.client k).connection_ = none
  other : t.other = s.other
  allocated : t.allocated = s.allocated

theorem Inherits.of_eq (hserver : t.server = s.server) (hclient : t.client = s.client)
    (hother : t.other = s.other) (hallocated : t.allocated = s.allocated) : Inherits s t where
  keys k x hx := by rwa [hserver]
  client k hk := by rwa [hclient]
  other := hother
  allocated := hallocated

theorem inherits_setClient (s : Net) (client : TcpClient)
    (hconnection : (s.client k).connection_ = none → client.connection_ = none) :
    Inherits s (s.setClient k client) := by
  refine ⟨fun _ _ h => h, ?_, rfl, rfl⟩
  intro l hl
  show (update s.client k client l).connection_ = none
  by_cases hk : l = k
  · subst hk
    rw [update_self]
    exact hconnection hl
  · rwa [update_of_ne hk]

theorem inherits_keeping : Keeping Inherits where
  trans h g := ⟨fun k x hx => g.keys k x (h.keys k x hx), fun k hk => g.client k (h.client k hk),
    g.other.trans h.other, g.allocated.trans h.allocated⟩
  refl _ := .of_eq rfl rfl rfl rfl
  record _ _ _ _ := .of_eq rfl rfl rfl rfl
  setPoller _ _ _ := .of_eq rfl rfl rfl rfl
  setTcp _ _ _ := .of_eq rfl rfl rfl rfl
  queueInLoop _ _ _ _ := .of_eq rfl rfl rfl rfl
  erase s k x := by
    refine ⟨?_, fun _ h => h, rfl, rfl⟩
    intro l y hy
    show (update s.server k _ l).connections_ y = none
    by_cases hl : l = k
    · subst hl
      rw [update_self]
      show update (s.server l).connections_ x none y = none
      by_cases hx : y = x
      · rw [hx, update_self]
      · rwa [update_of_ne hx]
    · rwa [update_of_ne hl]
  reset s _ _ := inherits_setClient s _ fun _ => rfl

/-- What a step may enter for an owner, and register or remove of the other channels. -/
structure Acquires (s t : Net) (l : NetLabel) : Prop where
  keys : ∀ k x, (s.server k).connections_ x = none → (t.server k).connections_ x ≠ none →
    l = .accept k
  client : ∀ k, (s.client k).connection_ = none → (t.client k).connection_ ≠ none →
    l = .connected k
  registers : ∀ c, s.other c = none → t.other c ≠ none →
    c = s.allocated ∧ ∃ i events, l = .register i events
  removes : ∀ c, s.other c ≠ none → t.other c = none → ∃ i, l = .unregister i c
  allocated : s.allocated ≤ t.allocated

theorem Inherits.acquires (h : Inherits s t) : Acquires s t l where
  keys k x hnone hsome := absurd (h.keys k x hnone) hsome
  client k hnone hsome := absurd (h.client k hnone) hsome
  registers c hnone hsome := by
    rw [h.other] at hsome
    exact absurd hnone hsome
  removes c hsome hnone := by
    rw [h.other] at hnone
    exact absurd hnone hsome
  allocated := h.allocated.ge

theorem inherits_runInLoop {cb : NetFunctor} (h : s.runInLoop i j w cb = .ok t) :
    Inherits s t := by
  unfold runInLoop at h
  split at h
  · exact inherits_keeping.runFunctor h
  · obtain rfl := Except.ok.inj h
    exact .of_eq rfl rfl rfl rfl

theorem accept_acquires {sockfd : Int} (h : s.serverNewConnection i k sockfd = .ok t) :
    Acquires s t (.accept k) := by
  obtain ⟨_, _, h⟩ := bind_eq_ok h
  obtain ⟨_, _, h⟩ := bind_eq_ok h
  obtain ⟨⟨ioLoop, threadPool⟩, _, h⟩ := bind_eq_ok h
  have hrun := inherits_runInLoop h
  constructor
  · intro l x hnone hsome
    by_contra hl
    have hother : l ≠ k := by
      rintro rfl
      exact hl rfl
    refine hsome (hrun.keys l x ?_)
    show (update s.server k _ l).connections_ x = none
    rwa [update_of_ne hother]
  · intro l hnone hsome
    exact absurd (hrun.client l hnone) hsome
  · intro d hnone hsome
    rw [hrun.other] at hsome
    exact absurd hnone hsome
  · intro d hsome hnone
    rw [hrun.other] at hnone
    exact absurd hnone hsome
  · rw [hrun.allocated]
    exact Nat.le_succ _

theorem connected_acquires {sockfd : Int} (h : s.clientNewConnection i k sockfd = .ok t) :
    Acquires s t (.connected k) := by
  obtain ⟨_, _, h⟩ := bind_eq_ok h
  have hrun := inherits_keeping.perform (f := (·.connectEstablished)) h
  constructor
  · intro l x hnone hsome
    exact absurd (hrun.keys l x hnone) hsome
  · intro l hnone hsome
    by_contra hl
    have hother : l ≠ k := by
      rintro rfl
      exact hl rfl
    refine hsome (hrun.client l ?_)
    show (update s.client k _ l).connection_ = none
    rwa [update_of_ne hother]
  · intro d hnone hsome
    rw [hrun.other] at hsome
    exact absurd hnone hsome
  · intro d hsome hnone
    rw [hrun.other] at hnone
    exact absurd hnone hsome
  · rw [hrun.allocated]
    exact Nat.le_succ _

theorem moveConnector_inherits {move : ConnectorMove} (h : s.moveConnector k move = .ok t) :
    Inherits s t := by
  unfold moveConnector at h
  cases move with
  | startInLoop connecting =>
    obtain ⟨_, _, h⟩ := bind_eq_ok h
    obtain rfl := Except.ok.inj h
    exact inherits_setClient s _ id
  | retry | drop =>
    obtain rfl := Except.ok.inj h
    exact inherits_setClient s _ id

theorem step_acquires {fd : ChannelPtr → Int} (h : step fd s l = .ok t) : Acquires s t l := by
  have hsame : Inherits s s := inherits_keeping.refl s
  have hphase : ∀ i phase, Inherits s (s.setPhase i phase) := fun _ _ => .of_eq rfl rfl rfl rfl
  cases l with
  | loop i | again i | quit i | swap i | queueInLoop i j =>
    obtain rfl := Except.ok.inj h
    exact Inherits.acquires (.of_eq rfl rfl rfl rfl)
  | poll i numEvents revents =>
    obtain ⟨⟨p, active⟩, _, h⟩ := bind_eq_ok h
    obtain rfl := Except.ok.inj h
    exact Inherits.acquires (.of_eq rfl rfl rfl rfl)
  | handle i r w =>
    dsimp only [step] at h
    split at h
    · exact (inherits_keeping.trans (hphase i _) (inherits_keeping.handle h)).acquires
    · obtain rfl := Except.ok.inj h
      exact hsame.acquires
  | functor i w =>
    dsimp only [step] at h
    split at h
    · exact (inherits_keeping.trans (hphase i _) (inherits_keeping.runFunctor h)).acquires
    · obtain rfl := Except.ok.inj h
      exact hsame.acquires
  | send i d message | shutdown i d =>
    obtain rfl := Except.ok.inj h
    first | unfold send | unfold shutdown
    split
    · exact Inherits.acquires (.of_eq rfl rfl rfl rfl)
    · exact hsame.acquires
  | setDisconnecting i =>
    obtain rfl := Except.ok.inj h
    unfold setDisconnecting
    split
    · exact Inherits.acquires (.of_eq rfl rfl rfl rfl)
    · exact hsame.acquires
  | runInLoop i w =>
    dsimp only [step] at h
    have hcall : Inherits s (s.setCall i .none) := .of_eq rfl rfl rfl rfl
    split at h
    · exact (inherits_keeping.trans hcall (inherits_runInLoop h)).acquires
    · exact (inherits_keeping.trans hcall (inherits_runInLoop h)).acquires
    · obtain rfl := Except.ok.inj h
      exact hsame.acquires
  | accept k => exact accept_acquires h
  | connected k => exact connected_acquires h
  | connector k move => exact (moveConnector_inherits h).acquires
  | enableRetry k | setConnect k connect =>
    obtain rfl := Except.ok.inj h
    have hset : ∀ client, client.connection_ = (s.client k).connection_ →
        Inherits s (s.setClient k client) := fun _ h => inherits_setClient s _ h.trans
    exact (hset _ (by rfl)).acquires
  | register i events =>
    obtain ⟨u, hu, h⟩ := bind_eq_ok h
    obtain ⟨p, _, hu⟩ := bind_eq_ok hu
    obtain rfl := Except.ok.inj hu
    obtain rfl := Except.ok.inj h
    refine ⟨fun _ _ hnone hsome => absurd hnone hsome, fun _ hnone hsome => absurd hnone hsome, ?_, ?_,
      Nat.le_succ _⟩
    · intro c hnone hsome
      by_cases hc : c = s.allocated
      · exact ⟨hc, i, events, rfl⟩
      · refine absurd ?_ hsome
        show update s.other s.allocated _ c = none
        rwa [update_of_ne hc]
    · intro c hsome hnone
      exfalso
      have hupdate : update s.other s.allocated (some i) c = none := hnone
      by_cases hc : c = s.allocated
      · rw [hc, update_self] at hupdate
        cases hupdate
      · rw [update_of_ne hc] at hupdate
        exact hsome hupdate
  | change i d events =>
    obtain ⟨p, _, h⟩ := bind_eq_ok h
    obtain rfl := Except.ok.inj h
    exact Inherits.acquires (.of_eq rfl rfl rfl rfl)
  | unregister i d =>
    obtain ⟨u, hu, h⟩ := bind_eq_ok h
    obtain ⟨p, _, hu⟩ := bind_eq_ok hu
    obtain rfl := Except.ok.inj hu
    obtain rfl := Except.ok.inj h
    refine ⟨fun _ _ hnone hsome => absurd hnone hsome, fun _ hnone hsome => absurd hnone hsome, ?_, ?_,
      le_rfl⟩
    · intro c hnone hsome
      refine absurd ?_ hsome
      show update s.other d none c = none
      by_cases hc : c = d
      · rw [hc, update_self]
      · rwa [update_of_ne hc]
    · intro c hsome hnone
      have hupdate : update s.other d none c = none := hnone
      by_cases hc : c = d
      · exact ⟨i, by rw [hc]⟩
      · rw [update_of_ne hc] at hupdate
        exact absurd hupdate hsome

end

end Net

namespace OwnedNet

/-- A server without a listening acceptor has no connection, and what is gone has nothing. -/
structure OwnedInv (fd : ChannelPtr → Int) (s : OwnedNet) : Prop where
  ptr : PtrNet.PtrInv fd s.ptr
  owned : ∀ c, s.net.other c ≠ none → s.has (s.owner c) = true
  listening : ∀ k x, (s.net.server k).connections_ x ≠ none → s.Registered (.acceptor k)
  gone : ∀ k, s.client k = false → (s.net.client k).connection_ = none

section

variable {fd : ChannelPtr → Int} {s t : OwnedNet} {c : ChannelPtr} {i : ThreadId} {k : Nat}

theorem alive_iff_has (hother : s.net.other c ≠ none) : s.Alive c ↔ s.has (s.owner c) = true := by
  unfold Alive
  rw [if_neg hother]

theorem alive_iff_useCount (hother : s.net.other c = none) : s.Alive c ↔ 0 < s.useCount c := by
  unfold Alive
  rw [if_pos hother]

/-- The pointer of the client goes with it. -/
theorem useCount_destroyTcpClient (howner : (s.net.conn c).owner = .client k)
    (hconnection : (s.net.client k).connection_ = some c) :
    (s.destroyTcpClient k).useCount c = s.ptr.useCount c - 1 := by
  have hclient : (s.destroyTcpClient k).net.client k = { s.net.client k with retry_ := false } :=
    update_self ..
  have hheld : s.ptr.net.Held c := by
    unfold Net.Held
    rw [howner]
    exact hconnection
  have hheld' : (s.destroyTcpClient k).ptr.net.Held c := by
    unfold Net.Held
    rw [show ((s.destroyTcpClient k).ptr.net.conn c).owner = .client k from howner]
    show ((s.destroyTcpClient k).net.client k).connection_ = some c
    rw [hclient]
    exact hconnection
  have hgone : (s.destroyTcpClient k).ownerExists c = false := by
    unfold ownerExists
    rw [show ((s.destroyTcpClient k).net.conn c).owner = .client k from howner]
    exact update_self ..
  have hcount : (s.destroyTcpClient k).ptr.useCount c = s.ptr.useCount c := by
    unfold PtrNet.useCount
    rw [if_pos hheld, if_pos hheld']
    rfl
  unfold useCount
  rw [if_pos ⟨hheld', hgone⟩, hcount]

theorem ownedInv_start (e : Net.Setup) : OwnedInv e.fd (start e) where
  ptr := PtrNet.ptrInv_start e
  owned c h := absurd rfl h
  listening k x h := absurd rfl h
  gone k h := by cases h

/-- An owner that has a connection has not been destroyed. -/
theorem OwnedInv.ownerExists (hi : OwnedInv fd s) (hheld : s.net.Held c) :
    s.ownerExists c = true := by
  unfold Net.Held at hheld
  unfold OwnedNet.ownerExists
  cases howner : (s.net.conn c).owner with
  | server k =>
    rw [howner] at hheld
    obtain ⟨d, _, hother, hd⟩ := hi.listening k _ (by rw [hheld]; exact Option.some_ne_none c)
    have hhas := hi.owned d hother
    rwa [hd] at hhas
  | client k =>
    rw [howner] at hheld
    by_contra hgone
    have hnone := hi.gone k (Bool.eq_false_iff.mpr hgone)
    rw [show (s.net.client k).connection_ = some c from hheld] at hnone
    cases hnone

/-- What is registered and is no connection's has its owner, and to a connection that
`connectDestroyed` has not reached its owner or `connectDestroyed` has a pointer. -/
theorem OwnedInv.alive (hi : OwnedInv fd s) (hlive : s.net.Live i c) : s.Alive c := by
  by_cases hother : s.net.other c = none
  · rw [alive_iff_useCount hother]
    obtain ⟨_, hest, hdes⟩ : (s.ptr.net.conn c).loop_ = i ∧ 0 < s.ptr.net.times c .established ∧
        s.ptr.net.times c .destroyed = 0 := hlive.resolve_right (by rw [hother]; exact nofun)
    have hc := hi.ptr.net.conn c
    have hpos : 0 < s.ptr.useCount c := by
      rw [PtrNet.useCount_pos]
      by_cases hrem : s.ptr.net.times c .removed = 0
      · exact .inl (hc.held.mpr ⟨hc.accepted_pos hest, hrem⟩)
      · right
        left
        have hdestroyed := hc.destroyed
        unfold PtrNet.ofLife
        omega
    have hheld : ¬ (s.net.Held c ∧ s.ownerExists c = false) := by
      rintro ⟨hheld, hgone⟩
      cases (hi.ownerExists hheld).symm.trans hgone
    unfold OwnedNet.useCount
    rw [if_neg hheld]
    exact hpos
  · exact (alive_iff_has hother).mpr (hi.owned c hother)

theorem OwnedInv.registered (hi : OwnedInv fd s) (hc : s.net.other c ≠ none) :
    s.Registered (s.owner c) := ⟨c, hi.ptr.net.open_lt (.inr hc), hc, rfl⟩

/-- What a step of `PtrNet` keeps. -/
theorem OwnedInv.netStep (hi : OwnedInv fd s) {ptr : PtrNet} (owner : ChannelPtr → ChannelOwner)
    {l : NetLabel} (hptr : PtrNet.PtrInv fd ptr) (hstep : Net.Acquires s.net ptr.net l)
    (haccept : ∀ k, l = .accept k → s.Registered (.acceptor k))
    (hconnected : ∀ k, l = .connected k → s.client k = true)
    (hregister : ∀ i events, l = .register i events → s.has (owner s.net.allocated) = true)
    (hunregister : ∀ i c, l = .unregister i c → (s.owner c).changes = true)
    (howner : ∀ c, c ≠ s.net.allocated → owner c = s.owner c) :
    OwnedInv fd { s with ptr, owner } where
  ptr := hptr
  owned c hc := by
    show s.has (owner c) = true
    by_cases hold : s.net.other c = none
    · obtain ⟨rfl, i, events, hl⟩ := hstep.registers c hold hc
      exact hregister i events hl
    · rw [howner c (hi.ptr.net.open_lt (.inr hold)).ne]
      exact hi.owned c hold
  listening k x hx := by
    have hbefore : s.Registered (.acceptor k) := by
      by_cases hnone : (s.net.server k).connections_ x = none
      · exact haccept k (hstep.keys k x hnone hx)
      · exact hi.listening k x hnone
    obtain ⟨c, hlt, hother, hc⟩ := hbefore
    refine ⟨c, hlt.trans_le hstep.allocated, ?_, (howner c hlt.ne).trans hc⟩
    intro hnone
    obtain ⟨i, hl⟩ := hstep.removes c hother hnone
    have hchanges := hunregister i c hl
    rw [hc] at hchanges
    cases hchanges
  gone k hk := by
    by_contra hsome
    have hthere := hconnected k (hstep.client k (hi.gone k hk) hsome)
    cases hthere.symm.trans hk

theorem OwnedInv.ptrStep (hi : OwnedInv fd s) {l : PtrLabel} {ptr : PtrNet}
    (he : (machine fd).enabled s (.ptr l)) (hs : (PtrNet.machine fd).step s.ptr l = .ok ptr) :
    OwnedInv fd { s with ptr } := by
  obtain ⟨henabled, hpresent⟩ := he
  have hptr := (hi.ptr.step henabled hs).1
  cases l with
  | net l copies =>
    have hnet := (PtrNet.netStep_keeps hs).1
    refine hi.netStep s.owner hptr (Net.step_acquires hnet) ?_ ?_ ?_ ?_ fun _ _ => rfl
    · rintro k rfl
      exact of_decide_eq_true hpresent
    · rintro k rfl
      exact hpresent
    · rintro i events rfl
      cases hpresent
    · rintro i c rfl
      exact hpresent
  | copy i j c =>
    obtain rfl := Except.ok.inj hs
    exact ⟨hptr, hi.owned, hi.listening, hi.gone⟩
  | connection i k =>
    dsimp only [PtrNet.machine, PtrNet.step] at hs
    split at hs
    · obtain rfl := Except.ok.inj hs
      exact ⟨hptr, hi.owned, hi.listening, hi.gone⟩
    · obtain rfl := Except.ok.inj hs
      exact hi
  | drop i c =>
    obtain rfl := Except.ok.inj hs
    exact ⟨hptr, hi.owned, hi.listening, hi.gone⟩

theorem step_ownedInv (hi : OwnedInv fd s) {l : OwnedLabel} (he : (careful fd).enabled s l)
    (hs : (careful fd).step s l = .ok t) : OwnedInv fd t := by
  obtain ⟨he, hcareful⟩ := he
  cases l with
  | ptr l =>
    obtain ⟨_, _, hs⟩ := bind_eq_ok hs
    obtain ⟨ptr, hptr, hs⟩ := bind_eq_ok hs
    obtain ⟨_, _, hs⟩ := bind_eq_ok hs
    obtain rfl := Except.ok.inj hs
    exact hi.ptrStep he hptr
  | register i events owner =>
    obtain ⟨henabled, hhas, _⟩ := he
    obtain ⟨ptr, hptr, hs⟩ := bind_eq_ok hs
    obtain rfl := Except.ok.inj hs
    have hnet := (PtrNet.netStep_keeps hptr).1
    refine hi.netStep _ (hi.ptr.step henabled hptr).1 (Net.step_acquires hnet) nofun nofun ?_ nofun ?_
    · intro j events' _
      rwa [update_self]
    · intro c hc
      exact update_of_ne hc _ _
  | destroyTcpServer k =>
    obtain rfl := Except.ok.inj hs
    refine ⟨hi.ptr, fun c hc => ?_, hi.listening, hi.gone⟩
    have hhas := hi.owned c hc
    have hreg := hi.registered hc
    show (s.destroyTcpServer k).has (s.owner c) = true
    cases howner : s.owner c with
    | loop => rfl
    | acceptor l =>
      rw [howner] at hhas hreg
      have hl : l ≠ k := by
        rintro rfl
        exact hcareful hreg
      exact (update_of_ne hl _ _).trans hhas
    | connector l =>
      rw [howner] at hhas
      exact hhas
  | destroyTcpClient k =>
    obtain rfl := Except.ok.inj hs
    have hinherits := Net.inherits_setClient s.net (k := k)
      { s.net.client k with retry_ := false } id
    refine ⟨⟨hi.ptr.net.setClient rfl rfl id, hi.ptr.calls⟩, hi.owned, hi.listening, ?_⟩
    intro l hl
    refine hinherits.client l ?_
    by_cases hk : l = k
    · rw [hk]
      exact hcareful
    · have hl' : update s.client k false l = false := hl
      rw [update_of_ne hk] at hl'
      exact hi.gone l hl'
  | destroyConnector k =>
    obtain ⟨_, hassert, hs⟩ := bind_eq_ok hs
    obtain rfl := Except.ok.inj hs
    have hnone : ¬ s.Registered (.connector k) := demand_eq_ok (Net.failsAt_eq_ok hassert)
    refine ⟨hi.ptr, fun c hc => ?_, hi.listening, hi.gone⟩
    have hhas := hi.owned c hc
    have hreg := hi.registered hc
    show OwnedNet.has _ (s.owner c) = true
    cases howner : s.owner c with
    | loop => rfl
    | acceptor l =>
      rw [howner] at hhas
      exact hhas
    | connector l =>
      rw [howner] at hhas hreg
      have hl : l ≠ k := by
        rintro rfl
        exact hnone hreg
      exact (update_of_ne hl _ _).trans hhas

theorem OwnedInv.channels (hi : OwnedInv fd s) {f : Int} :
    (s.net.poller i).channels_ f = some c ↔ s.net.Live i c ∧ fd c = f := by
  obtain ⟨owners, hown, hmem, _⟩ := hi.ptr.net.registry i
  rw [hown.channels f c, hmem]

theorem OwnedInv.allAlive (hi : OwnedInv fd s) : s.AllAlive :=
  fun _ _ _ hc => hi.alive (hi.channels.mp hc).1

theorem reachable_ownedInv {e : Net.Setup} (h : Reachable (careful e.fd) (start e) s) :
    OwnedInv e.fd s :=
  h.invariant (I := OwnedInv e.fd) (fun _ _ _ hi he hs => step_ownedInv hi he hs) (ownedInv_start e)

/-- If only servers that do not listen and clients without a connection are destroyed, then in
every state each channel that a poller has belongs to a connection, an acceptor or a connector
that has not been destroyed, or to the loop. -/
theorem channels_owned {e : Net.Setup} (h : Reachable (careful e.fd) (start e) s) : s.AllAlive :=
  (reachable_ownedInv h).allAlive

/-- The end of a server that listens leaves the channel of its acceptor behind. -/
theorem destroyTcpServer_allAlive_iff {e : Net.Setup} (h : Reachable (careful e.fd) (start e) s)
    (he : (machine e.fd).enabled s (.destroyTcpServer k))
    (hs : (machine e.fd).step s (.destroyTcpServer k) = .ok t) :
    t.AllAlive ↔ ¬ s.Registered (.acceptor k) := by
  have hi := reachable_ownedInv h
  constructor
  · rintro hall ⟨c, _, hother, howner⟩
    obtain ⟨i, hloop⟩ := Option.ne_none_iff_exists'.mp hother
    have hc : (s.net.poller i).channels_ (e.fd c) = some c := hi.channels.mpr ⟨.inr hloop, rfl⟩
    obtain rfl := Except.ok.inj hs
    have hhas := (alive_iff_has (s := s.destroyTcpServer k) hother).mp (hall i _ c hc)
    rw [show (s.destroyTcpServer k).owner c = .acceptor k from howner] at hhas
    have hgone : update s.server k false k = true := hhas
    rw [update_self] at hgone
    cases hgone
  · intro hcareful
    exact (step_ownedInv hi ⟨he, hcareful⟩ hs).allAlive

/-- The end of a client leaves a connection behind to which nothing else has a pointer. -/
theorem destroyTcpClient_allAlive_iff {e : Net.Setup} (h : Reachable (careful e.fd) (start e) s)
    (he : (machine e.fd).enabled s (.destroyTcpClient k))
    (honly : ∀ c, (s.net.client k).connection_ = some c →
      0 < s.net.times c .established ∧ s.ptr.useCount c = 1)
    (hs : (machine e.fd).step s (.destroyTcpClient k) = .ok t) :
    t.AllAlive ↔ (s.net.client k).connection_ = none := by
  have hi := reachable_ownedInv h
  constructor
  · intro hall
    by_contra hsome
    obtain ⟨c, hconnection⟩ := Option.ne_none_iff_exists'.mp hsome
    obtain ⟨hest, hone⟩ := honly c hconnection
    have hc := hi.ptr.net.conn c
    obtain ⟨hacc, howner, _⟩ := hi.ptr.net.whole.client k c hconnection
    have hheld : s.ptr.net.Held c := by
      unfold Net.Held
      rw [howner]
      exact hconnection
    have hdes : s.ptr.net.times c .destroyed = 0 := by
      have hrem := (hc.held.mp hheld).2
      have hdestroyed := hc.destroyed
      omega
    have hlive : s.net.Live (s.net.conn c).loop_ c := .inl ⟨rfl, hest, hdes⟩
    obtain rfl := Except.ok.inj hs
    have hpos := (alive_iff_useCount (s := s.destroyTcpClient k) (hc.other_none hacc)).mp
      (hall _ _ c (hi.channels.mpr ⟨hlive, rfl⟩))
    rw [useCount_destroyTcpClient howner hconnection, hone] at hpos
    cases hpos
  · intro hcareful
    exact (step_ownedInv hi ⟨he, hcareful⟩ hs).allAlive

end

/-- A step of a thread in which no callback keeps a pointer. -/
def plain (l : NetLabel) : OwnedLabel := .ptr (.net l 0)

/-- The server 0 listens. -/
def listening : List OwnedLabel :=
  .register 1 3 (.acceptor 0) :: [.loop 1, .poll 1 0 [0]].map plain

/-- A client is destroyed whose connection has been closed, and a server goes on. -/
theorem channels_owned_run :
    let connected : List OwnedLabel := .register 1 4 (.connector 0) ::
      [.change 1 2 0, .unregister 1 2, .connected 0].map plain
    let closed : List OwnedLabel := [.swap 1, .again 1, .poll 1 1 [0, 0, 1],
      .handle 1 (.delivered []) (.failed 0), .swap 1, .functor 1 (.failed 0)].map plain
    ∃ s, Run (careful (Net.small []).fd) (start (Net.small []))
        (listening ++ plain (.accept 0) :: plain (.connector 0 (.startInLoop true)) :: connected ++
          closed ++ [.destroyTcpClient 0, .destroyConnector 0]) s ∧
      (s.net.poller 1).channels_ 0 = some 0 ∧ (s.net.poller 1).channels_ 1 = some 1 ∧
      s.AllAlive := by
  intro connected closed
  have hex : ∃ s, Run (careful (Net.small []).fd) (start (Net.small []))
        (listening ++ plain (.accept 0) :: plain (.connector 0 (.startInLoop true)) :: connected ++
          closed ++ [.destroyTcpClient 0, .destroyConnector 0]) s ∧
      (s.net.poller 1).channels_ 0 = some 0 ∧ (s.net.poller 1).channels_ 1 = some 1 :=
    exists_run_of_exec _ (by decide +kernel)
  obtain ⟨s, hr, hacceptor, hconnection⟩ := hex
  exact ⟨s, hr, hacceptor, hconnection, channels_owned ⟨_, hr⟩⟩

/-- A server that listens is destroyed, one that has a connection, and a client that has one. -/
theorem destroyed_dangles :
    (∃ s, Run (machine (Net.small []).fd) (start (Net.small []))
        (listening ++ [.destroyTcpServer 0]) s ∧
      (s.net.poller 1).channels_ 0 = some 0 ∧ ¬ s.Alive 0) ∧
    (∃ s, Run (machine (Net.small []).fd) (start (Net.small []))
        (listening ++ [plain (.accept 0), .destroyTcpServer 0]) s ∧
      (s.net.poller 1).channels_ 1 = some 1 ∧ s.ptr.held 1 = [] ∧ ¬ s.Alive 1) ∧
    ∃ s, Run (machine (Net.small []).fd) (start (Net.small []))
        ([.loop 1, .poll 1 0 [], .connector 0 (.startInLoop true), .connected 0].map plain ++
          [.destroyTcpClient 0]) s ∧
      (s.net.poller 1).channels_ 0 = some 0 ∧ s.ptr.held 0 = [] ∧ ¬ s.Alive 0 := by
  refine ⟨?_, ?_, ?_⟩
  · exact exists_run_of_exec _ (by decide +kernel)
  · exact exists_run_of_exec _ (by decide +kernel)
  · exact exists_run_of_exec _ (by decide +kernel)

end OwnedNet

end MuduoNet
