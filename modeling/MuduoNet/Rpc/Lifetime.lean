import MuduoNet.Rpc.Server

/-!
# How long a `RpcChannel` lives

The context owns it from the up callback to the down callback, and the message callback runs only
in between. A request that a service has not finished when `connectDestroyed` runs is left with a
closure on a deleted channel.
-/
namespace MuduoNet.Rpc.RpcServer

open Lib Lib.Outcome Function

/-- The channels of all unfinished requests exist. -/
def Safe (s : RpcServer) : Prop := ∀ c, s.accepted c ≠ [] → s.context_ c ≠ none

/-- If the step is `connectDestroyed` of a connection, every request that was accepted on it is
finished. -/
def Finished (k : Nat) (s : RpcServer) (l : ServerLabel) : Prop :=
  ∀ i w c batch, l = .net (.functor i w) → s.net.phase i = .functors (.connectDestroyed c :: batch) →
    (s.net.conn c).owner = .server k → s.accepted c = []

/-- A connection of the server `k` that is up. -/
def Serves (k : Nat) (net : Net) (c : ConnPtr) : Prop := (net.conn c).owner = .server k ∧ net.Up c

/-- What holds of the channels at any time. -/
structure Attached (fd : ChannelPtr → Int) (k : Nat) (s : RpcServer) : Prop where
  net : s.net.Inv ⟨False, False⟩ fd
  context : ∀ c, s.context_ c ≠ none ↔ Serves k s.net c
  within : ∀ i c actions, s.within i = some (c, actions) → (s.net.conn c).loop_ = i ∧ Serves k s.net c

section

variable {P : RpcProtobuf} {fd : ChannelPtr → Int} {k : Nat} {services : Services}
  {s t : RpcServer} {i : ThreadId} {c d : ConnPtr} {l : ServerLabel}

theorem mapError_eq_ok {ε δ α : Type} {x : Except ε α} {f : ε → δ} {a : α}
    (h : x.mapError f = .ok a) : x = .ok a := by
  cases x with
  | error e => cases h
  | ok b => exact congrArg Except.ok (Except.ok.inj h)

/-- Only what tells the user something is a callback. -/
theorem foldl_callback (es : List Effect) (s : RpcServer) :
    es.foldl (callback services i c) s =
      (es.filter Effect.tells).foldl (callback services i c) s := by
  induction es generalizing s with
  | nil => rfl
  | cons e es ih =>
    rw [List.foldl_cons, ih]
    cases e <;> rfl

/-- The callbacks of a function. -/
theorem netStep_eq {net : Net} {f : ConnFunction} {nl : NetLabel}
    (h : Net.step fd s.net nl = .ok net) (hcalled : s.net.called nl = some (i, c, f)) :
    netStep fd k services s nl = .ok (
      if (net.conn c).owner = .server k
      then f.told.foldl (callback services i c) { s with net := net } else { s with net := net }) := by
  have houtcome := Net.step_outcome h
  rw [hcalled] at houtcome
  obtain ⟨_, es, hes, hgains⟩ := houtcome
  unfold netStep
  rw [h, hcalled]
  show Except.ok (if (net.conn c).owner = .server k
    then (s.net.news net c).foldl (callback services i c) { s with net := net } else _) = _
  rw [hgains.news, foldl_callback, hes]

theorem netStep_none {net : Net} {nl : NetLabel} (h : Net.step fd s.net nl = .ok net)
    (hcalled : s.net.called nl = none) : netStep fd k services s nl = .ok { s with net := net } := by
  unfold netStep
  rw [h, hcalled]
  rfl

/-- A function of `c` concerns no other connection. -/
theorem serves_of_ne {net net' : Net} {f : ConnFunction} (hi : net.Inv ⟨False, False⟩ fd)
    (h : Net.Calls net net' c f) (hd : d ≠ c) : Serves k net' d ↔ Serves k net d := by
  unfold Serves
  rw [h.up_of_ne hd]
  refine and_congr_left fun hup => ?_
  rw [h.owner (hi.lt_of_up hup)]

/-- Nor do the functions beside those of its life. -/
theorem serves_same {net net' : Net} {f : ConnFunction} (hi : net.Inv ⟨False, False⟩ fd)
    (h : Net.Calls net net' c f) (hest : f ≠ .connectEstablished) (hdes : f ≠ .connectDestroyed) :
    Serves k net' d ↔ Serves k net d := by
  unfold Serves
  rw [h.up_same hest hdes]
  refine and_congr_left fun hup => ?_
  rw [h.owner (hi.lt_of_up hup)]

/-- A step that calls none of a connection's functions. -/
theorem Attached.silent (hi : Attached fd k s) {net : Net} (hnet : net.Inv ⟨False, False⟩ fd)
    (hgains : ∀ c, s.net.Gains net c []) : Attached fd k { s with net := net } := by
  have hserves : ∀ c, Serves k net c ↔ Serves k s.net c := by
    intro c
    have hcalls : Net.Calls s.net net c .shutdownInLoop := ⟨[], rfl, hgains c⟩
    exact serves_same hi.net hcalls (by simp) (by simp)
  refine ⟨hnet, fun c => (hi.context c).trans (hserves c).symm, ?_⟩
  intro i c actions hwithin
  obtain ⟨hloop, h⟩ := hi.within i c actions hwithin
  rw [(hgains c).loop c (hi.net.lt_of_up h.2)]
  exact ⟨hloop, (hserves c).mpr h⟩

/-- A thread stays where it is, in a callback of a connection that is still up. -/
theorem Attached.stays (hi : Attached fd k s) {net : Net} {f : ConnFunction}
    (h : Net.Calls s.net net c f) {j : ThreadId} {actions : List Action}
    (hwithin : s.within j = some (d, actions)) (hup : Serves k s.net d → Serves k net d) :
    (net.conn d).loop_ = j ∧ Serves k net d := by
  obtain ⟨hloop, hserves⟩ := hi.within j d actions hwithin
  rw [h.loop (hi.net.lt_of_up hserves.2)]
  exact ⟨hloop, hup hserves⟩

theorem Attached.context_of_ne (hi : Attached fd k s) {net : Net} {f : ConnFunction}
    (h : Net.Calls s.net net c f) (hd : d ≠ c) : s.context_ d ≠ none ↔ Serves k net d :=
  (hi.context d).trans (serves_of_ne hi.net h hd).symm

theorem Attached.established (hi : Attached fd k s) {net : Net} (hnet : net.Inv ⟨False, False⟩ fd)
    (h : Net.Calls s.net net c .connectEstablished) :
    Attached fd k (if (net.conn c).owner = .server k
      then { s with net := net }.onConnection services c true else { s with net := net }) := by
  obtain ⟨hup, hnew⟩ := h.established hi.net hnet
  have hnone : s.context_ c = none := by
    by_contra hsome
    exact hnew ((hi.context c).mp hsome).2
  have hwithin : ∀ j d actions, s.within j = some (d, actions) →
      (net.conn d).loop_ = j ∧ Serves k net d := by
    intro j d actions hj
    refine hi.stays h hj fun hserves => (serves_of_ne hi.net h ?_).mpr hserves
    rintro rfl
    exact hnew hserves.2
  split
  · rename_i howner
    refine ⟨hnet, ?_, hwithin⟩
    intro d
    by_cases hd : d = c
    · subst hd
      simp [onConnection, Serves, howner, hup]
    · simpa [onConnection, hd] using hi.context_of_ne h hd
  · rename_i howner
    refine ⟨hnet, ?_, hwithin⟩
    intro d
    by_cases hd : d = c
    · subst hd
      simp [hnone, Serves, howner]
    · exact hi.context_of_ne h hd

theorem Attached.destroyed (hi : Attached fd k s) {net : Net} (hnet : net.Inv ⟨False, False⟩ fd)
    (h : Net.Calls s.net net c .connectDestroyed) (hloop : c < s.net.allocated → (s.net.conn c).loop_ = i)
    (hidle : s.within i = none) :
    Attached fd k (if (net.conn c).owner = .server k
      then { s with net := net }.onConnection services c false else { s with net := net }) := by
  have hdown : ¬ Serves k net c := fun hserves => h.destroyed hserves.2
  have hwithin : ∀ j d actions, s.within j = some (d, actions) →
      (net.conn d).loop_ = j ∧ Serves k net d := by
    intro j d actions hj
    refine hi.stays h hj fun hserves => (serves_of_ne hi.net h ?_).mpr hserves
    rintro rfl
    -- the loop of the connection is in no callback
    have hij : i = j := (hloop (hi.net.lt_of_up hserves.2)).symm.trans (hi.within j d actions hj).1
    rw [← hij, hidle] at hj
    cases hj
  split
  · refine ⟨hnet, ?_, hwithin⟩
    intro d
    by_cases hd : d = c
    · subst hd
      simp [onConnection, hdown]
    · simpa [onConnection, hd] using hi.context_of_ne h hd
  · rename_i howner
    refine ⟨hnet, ?_, hwithin⟩
    intro d
    by_cases hd : d = c
    · subst hd
      refine iff_of_false ?_ hdown
      intro hsome
      have hserves := (hi.context d).mp hsome
      exact howner ((h.owner (hi.net.lt_of_up hserves.2)).trans hserves.1)
    · exact hi.context_of_ne h hd

theorem Attached.ordinary (hi : Attached fd k s) {net : Net} (hnet : net.Inv ⟨False, False⟩ fd)
    {f : ConnFunction} (h : Net.Calls s.net net c f) (hest : f ≠ .connectEstablished)
    (hdes : f ≠ .connectDestroyed) : Attached fd k { s with net := net } where
  net := hnet
  context d := (hi.context d).trans (serves_same hi.net h hest hdes).symm
  within _ _ _ hj := hi.stays h hj (serves_same hi.net h hest hdes).mpr

/-- The message callback of a connection that is up. -/
theorem Attached.onMessage (hi : Attached fd k s) (hloop : (s.net.conn c).loop_ = i)
    (hserves : Serves k s.net c) : Attached fd k (s.onMessage i c) where
  net := hi.net
  context := hi.context
  within j d actions hj := by
    change update s.within i (some (c, [])) j = _ at hj
    by_cases hij : j = i
    · subst hij
      rw [update_self] at hj
      obtain ⟨rfl, rfl⟩ := Prod.mk.inj (Option.some.inj hj)
      exact ⟨hloop, hserves⟩
    · rw [update_of_ne hij] at hj
      exact hi.within j d actions hj

/-- A step of the threads, with its callbacks. -/
theorem Attached.netStep (hi : Attached fd k s) {nl : NetLabel} (he : Net.Enabled fd s.net nl)
    (hidle : s.Idle nl) (hs : s.netStep fd k services nl = .ok t) : Attached fd k t := by
  obtain ⟨net, hnet, _⟩ := bind_eq_ok hs
  have hnet := mapError_eq_ok hnet
  have hinv : net.Inv ⟨False, False⟩ fd :=
    (Net.step_sat hi.net he ⟨False.elim, False.elim⟩).of_ok hnet
  have houtcome := Net.step_outcome hnet
  cases hcalled : s.net.called nl with
  | none =>
    rw [hcalled] at houtcome
    obtain rfl := Except.ok.inj ((netStep_none hnet hcalled).symm.trans hs)
    exact hi.silent hinv houtcome
  | some called =>
    obtain ⟨i, c, f⟩ := called
    rw [hcalled] at houtcome
    obtain ⟨hloop, hcalls⟩ := houtcome
    obtain rfl := Except.ok.inj ((netStep_eq hnet hcalled).symm.trans hs)
    cases f with
    | connectEstablished => exact hi.established hinv hcalls
    | connectDestroyed =>
      obtain ⟨w, batch, rfl, _⟩ := Net.called_destroyed hcalled
      exact hi.destroyed hinv hcalls hloop (hidle i rfl)
    | sendInLoop message w =>
      show Attached fd k (ite _ { s with net := net } { s with net := net })
      rw [ite_self]
      exact hi.ordinary hinv hcalls (by simp) (by simp)
    | shutdownInLoop =>
      show Attached fd k (ite _ { s with net := net } { s with net := net })
      rw [ite_self]
      exact hi.ordinary hinv hcalls (by simp) (by simp)
    | handle handler r w =>
      have hquiet := hi.ordinary hinv hcalls (by simp) (by simp)
      obtain ⟨_, hother, todo, hphase⟩ := Net.called_handle hcalled
      have hlive := (hi.net.conn c).todo i handler (by rw [hphase]; exact List.mem_cons_self)
      obtain ⟨hloop, hest, hdes⟩ : (s.net.conn c).loop_ = i ∧ s.net.Up c := by
        simpa [Net.Live, Net.Up, hother] using hlive
      split
      · rename_i howner
        cases handler with
        | read =>
          rw [ConnFunction.told]
          split
          · refine hquiet.onMessage ?_ ⟨howner, (hcalls.up_same (by simp) (by simp)).mpr ⟨hest, hdes⟩⟩
            rw [← hloop]
            exact hcalls.loop (hi.net.lt_of_up ⟨hest, hdes⟩)
          · exact hquiet
        | _ => exact hquiet
      · exact hquiet

theorem foldl_callback_frame (es : List Effect) (s : RpcServer) :
    (es.foldl (callback services i c) s).net = s.net ∧
      (es.foldl (callback services i c) s).accepted = s.accepted := by
  induction es generalizing s with
  | nil => exact ⟨rfl, rfl⟩
  | cons e es ih =>
    rw [List.foldl_cons, (ih _).1, (ih _).2]
    cases e <;> exact ⟨rfl, rfl⟩

theorem netStep_frame {nl : NetLabel} (hs : s.netStep fd k services nl = .ok t) :
    Net.step fd s.net nl = .ok t.net ∧ t.accepted = s.accepted := by
  obtain ⟨net, hnet, hs⟩ := bind_eq_ok hs
  have hnet := mapError_eq_ok hnet
  obtain rfl := Except.ok.inj hs
  rw [hnet]
  split
  · split
    · obtain ⟨hframe, haccepted⟩ := foldl_callback_frame _ _
      rw [hframe, haccepted]
      exact ⟨rfl, rfl⟩
    · exact ⟨rfl, rfl⟩
  · exact ⟨rfl, rfl⟩

/-- A connection that is up goes down by `connectDestroyed` alone. -/
theorem serves_step {net net' : Net} {nl : NetLabel} (hi : net.Inv ⟨False, False⟩ fd)
    (hi' : net'.Inv ⟨False, False⟩ fd) (hs : Net.step fd net nl = .ok net') (h : Serves k net c) :
    ¬ Serves k net' c ↔
      ∃ i w batch, nl = .functor i w ∧ net.phase i = .functors (.connectDestroyed c :: batch) := by
  have houtcome := Net.step_outcome hs
  constructor
  · intro hdown
    cases hcalled : net.called nl with
    | none =>
      rw [hcalled] at houtcome
      have hcalls : Net.Calls net net' c .shutdownInLoop := ⟨[], rfl, houtcome c⟩
      exact absurd ((serves_same hi hcalls (by simp) (by simp)).mpr h) hdown
    | some called =>
      obtain ⟨i, d, f⟩ := called
      rw [hcalled] at houtcome
      obtain ⟨_, hcalls⟩ := houtcome
      by_cases hd : c = d
      · subst hd
        by_cases hf : f = .connectDestroyed
        · subst hf
          obtain ⟨w, batch, hl, hphase⟩ := Net.called_destroyed hcalled
          exact ⟨i, w, batch, hl, hphase⟩
        · by_cases hest : f = .connectEstablished
          · subst hest
            exact absurd h.2 (hcalls.established hi hi').2
          · exact absurd ((serves_same hi hcalls hest hf).mpr h) hdown
      · exact absurd ((serves_of_ne hi hcalls hd).mpr h) hdown
  · rintro ⟨i, w, batch, rfl, hphase⟩ hserves
    rw [Net.called_functor hphase] at houtcome
    exact houtcome.2.destroyed hserves.2

theorem Attached.other (hi : Attached fd k s) (hcontext : ∀ c, t.context_ c ≠ none ↔ s.context_ c ≠ none)
    (hwithin : ∀ i c actions, t.within i = some (c, actions) → ∃ actions', s.within i = some (c, actions'))
    (hnet : t.net = s.net) : Attached fd k t where
  net := hnet ▸ hi.net
  context c := by rw [hcontext, hi.context, hnet]
  within i c actions h := by
    obtain ⟨actions', h⟩ := hwithin i c actions h
    rw [hnet]
    exact hi.within i c actions' h

theorem channel_eq (h : s.context_ c ≠ none) : ∃ channel, s.context_ c = some channel ∧
    s.channel c = .ok channel := by
  obtain ⟨channel, hsome⟩ := Option.ne_none_iff_exists'.mp h
  exact ⟨channel, hsome, by rw [RpcServer.channel, hsome]⟩

/-- A reply is handed to `send`, which changes nothing else. -/
theorem send_frame {channel : RpcChannel} {message : RpcMessage}
    (h : s.send P i channel message = .ok t) :
    ∃ conn span, t = { s with net := s.net.send i conn span } := by
  obtain ⟨buf, _, h⟩ := bind_eq_ok h
  split at h
  · cases h
  · split at h
    · obtain rfl := Except.ok.inj h
      exact ⟨_, _, rfl⟩
    · cases h

theorem Attached.send (hi : Attached fd k s) {channel : RpcChannel} {message : RpcMessage}
    (h : s.send P i channel message = .ok t) : Attached fd k t := by
  obtain ⟨conn, span, rfl⟩ := send_frame h
  have hstep : Net.step fd s.net (.send i conn span) = .ok (s.net.send i conn span) := rfl
  have houtcome : Net.Outcome s.net (s.net.send i conn span) none := Net.step_outcome hstep
  exact hi.silent (Net.send_step hi.net span) houtcome

theorem send_not_deleted {channel : RpcChannel} {message : RpcMessage} :
    s.send P i channel message ≠ .error (.deleted c) := by
  unfold RpcServer.send
  intro h
  cases hbuf : ProtobufCodec.fillEmptyBuffer P.toProtobuf .new (P.ofRpc message) with
  | error f =>
    rw [hbuf] at h
    cases h
  | ok buf =>
    rw [hbuf] at h
    dsimp only [Except.mapError] at h
    rw [ok_bind] at h
    split at h
    · cases h
    · split at h <;> cases h

/-- The channel of the callback that a thread is in exists. -/
theorem Attached.channel (hi : Attached fd k s) {actions : List Action}
    (h : s.within i = some (c, actions)) : s.context_ c ≠ none :=
  (hi.context c).mpr (hi.within i c actions h).2

theorem Attached.receive (hi : Attached fd k s) {actions : List Action} {message : RpcMessage}
    (hwithin : s.within i = some (c, actions)) (hs : s.receive i c message = .ok t) :
    Attached fd k t ∧ (∀ d, t.context_ d ≠ none ↔ s.context_ d ≠ none) ∧ t.accepted = s.accepted := by
  obtain ⟨channel, hsome, hchannel⟩ := channel_eq (hi.channel hwithin)
  unfold RpcServer.receive at hs
  rw [hchannel, ok_bind] at hs
  obtain ⟨⟨actions', channel'⟩, _, hs⟩ := bind_eq_ok hs
  obtain rfl := Except.ok.inj hs
  have hcontext : ∀ d, update s.context_ c (some channel') d ≠ none ↔ s.context_ d ≠ none := by
    intro d
    by_cases hd : d = c
    · subst hd
      simp [hsome]
    · simp [hd]
  refine ⟨hi.other hcontext ?_ rfl, hcontext, rfl⟩
  intro j d actions'' hj
  change update s.within i (some (c, actions')) j = _ at hj
  by_cases hij : j = i
  · subst hij
    rw [update_self] at hj
    obtain ⟨rfl, rfl⟩ := Prod.mk.inj (Option.some.inj hj)
    exact ⟨actions, hwithin⟩
  · rw [update_of_ne hij] at hj
    exact ⟨actions'', hj⟩

/-- The thread has one action less to do. -/
theorem Attached.next (hi : Attached fd k s) {a : Action} {rest : List Action}
    (hwithin : s.within i = some (c, a :: rest)) :
    Attached fd k { s with within := update s.within i (some (c, rest)) } := by
  refine hi.other (fun _ => Iff.rfl) ?_ rfl
  intro j d actions hj
  change update s.within i (some (c, rest)) j = _ at hj
  by_cases hij : j = i
  · subst hij
    rw [update_self] at hj
    obtain ⟨rfl, rfl⟩ := Prod.mk.inj (Option.some.inj hj)
    exact ⟨a :: rest, hwithin⟩
  · rw [update_of_ne hij] at hj
    exact ⟨actions, hj⟩

/-- A request is accepted by a channel that exists, and nothing else happens to the channels. -/
theorem Attached.perform (hi : Attached fd k s) (hexists : s.context_ c ≠ none) {a : Action}
    (hs : s.perform P i c a = .ok t) :
    Attached fd k t ∧ t.context_ = s.context_ ∧
      ∀ d, t.accepted d ≠ [] → s.accepted d ≠ [] ∨ s.context_ d ≠ none := by
  cases a with
  | invoke message =>
    obtain rfl := Except.ok.inj hs
    refine ⟨hi.other (fun _ => Iff.rfl) (fun _ _ actions h => ⟨actions, h⟩) rfl, rfl, ?_⟩
    intro d hd
    by_cases hdc : d = c
    · rw [hdc]
      exact .inr hexists
    · left
      simpa [hdc] using hd
  | reject message error =>
    obtain ⟨channel, _, hs⟩ := bind_eq_ok hs
    obtain ⟨conn, span, ht⟩ := send_frame hs
    refine ⟨hi.send hs, by rw [ht], ?_⟩
    intro d hd
    rw [ht] at hd
    exact .inl hd
  | parse | run | free =>
    obtain rfl := Except.ok.inj hs
    exact ⟨hi, rfl, fun d hd => .inl hd⟩

theorem Attached.done (hi : Attached fd k s) {message : RpcMessage} {bytes : List UInt8}
    (hs : s.done P i c message bytes = .ok t) :
    Attached fd k t ∧ t.context_ = s.context_ ∧ ∀ d, t.accepted d ≠ [] → s.accepted d ≠ [] := by
  obtain ⟨channel, _, hs⟩ := bind_eq_ok hs
  let s' := { s with accepted := update s.accepted c ((s.accepted c).erase message) }
  have hs' : Attached fd k s' := hi.other (fun _ => Iff.rfl) (fun _ _ actions h => ⟨actions, h⟩) rfl
  obtain ⟨conn, span, ht⟩ := send_frame hs
  refine ⟨hs'.send hs, by rw [ht], ?_⟩
  intro d hd
  rw [ht] at hd
  by_cases hdc : d = c
  · subst hdc
    rintro hnil
    simp [hnil] at hd
  · simpa [hdc] using hd

/-- A step keeps to the lives of the channels. Unless it ends one too early, the channels of all
unfinished requests still exist after it. -/
theorem Attached.step (hi : Attached fd k s) (he : Enabled fd s l)
    (hs : (machine P fd k services).step s l = .ok t) :
    Attached fd k t ∧ (s.Safe → (t.Safe ↔ s.Finished k l)) := by
  have hnotnet : (∀ nl, l ≠ .net nl) → (s.Safe → t.Safe) → s.Safe → (t.Safe ↔ s.Finished k l) := by
    intro hl hkeeps hsafe
    refine iff_of_true (hkeeps hsafe) ?_
    intro i w c batch heq
    exact absurd heq (hl _)
  cases l with
  | net nl =>
    obtain ⟨henabled, hidle⟩ := he
    have ht := hi.netStep henabled hidle hs
    refine ⟨ht, ?_⟩
    obtain ⟨hstep, haccepted⟩ := netStep_frame hs
    intro hsafe
    have hends : ∀ c, s.accepted c ≠ [] → (t.context_ c = none ↔
        ∃ i w batch, nl = .functor i w ∧ s.net.phase i = .functors (.connectDestroyed c :: batch)) := by
      intro c hc
      rw [← serves_step hi.net ht.net hstep ((hi.context c).mp (hsafe c hc)), ← ht.context, not_not]
    constructor
    · intro hsafe' i w c batch heq hphase _
      obtain rfl := ServerLabel.net.inj heq
      by_contra hne
      refine hsafe' c ?_ ((hends c hne).mpr ⟨i, w, batch, rfl, hphase⟩)
      rwa [haccepted]
    · intro hfinished c hc hnone
      rw [haccepted] at hc
      obtain ⟨i, w, batch, rfl, hphase⟩ := (hends c hc).mp hnone
      have hserves := (hi.context c).mp (hsafe c hc)
      exact hc (hfinished i w c batch rfl hphase hserves.1)
  | receive i message =>
    dsimp only [machine, RpcServer.step] at hs
    split at hs
    · rename_i c actions hwithin
      obtain ⟨ht, hcontext, haccepted⟩ := hi.receive hwithin hs
      refine ⟨ht, hnotnet (by simp) fun hsafe d hd => (hcontext d).mpr (hsafe d ?_)⟩
      rwa [haccepted] at hd
    · obtain rfl := Except.ok.inj hs
      exact ⟨hi, hnotnet (by simp) id⟩
  | act i =>
    dsimp only [machine, RpcServer.step] at hs
    split at hs
    · rename_i c a rest hwithin
      obtain ⟨ht, hcontext, haccepted⟩ := (hi.next hwithin).perform (hi.channel hwithin) hs
      refine ⟨ht, hnotnet (by simp) fun hsafe d hd => ?_⟩
      rw [hcontext]
      rcases haccepted d hd with hold | hnew
      · exact hsafe d hold
      · exact hnew
    · obtain rfl := Except.ok.inj hs
      exact ⟨hi, hnotnet (by simp) id⟩
  | leave i =>
    obtain rfl := Except.ok.inj hs
    refine ⟨hi.other (fun _ => Iff.rfl) ?_ rfl, hnotnet (by simp) fun hsafe => hsafe⟩
    intro j d actions hj
    change update s.within i none j = _ at hj
    by_cases hij : j = i
    · rw [hij, update_self] at hj
      cases hj
    · rw [update_of_ne hij] at hj
      exact ⟨actions, hj⟩
  | done i c message bytes =>
    obtain ⟨ht, hcontext, haccepted⟩ := hi.done hs
    refine ⟨ht, hnotnet (by simp) fun hsafe d hd => ?_⟩
    rw [hcontext]
    exact hsafe d (haccepted d hd)

/-- While the channels of all unfinished requests exist, no function runs on a deleted one. -/
theorem Attached.not_deleted (hi : Attached fd k s) (hsafe : s.Safe) (he : Enabled fd s l)
    (c : ConnPtr) : (machine P fd k services).step s l ≠ .error (.deleted c) := by
  intro h
  cases l with
  | net nl =>
    dsimp only [machine, RpcServer.step, RpcServer.netStep] at h
    cases hstep : Net.step fd s.net nl with
    | error f =>
      rw [hstep] at h
      cases h
    | ok net =>
      rw [hstep] at h
      cases h
  | receive i message =>
    dsimp only [machine, RpcServer.step] at h
    split at h
    · rename_i d actions hwithin
      obtain ⟨channel, _, hchannel⟩ := channel_eq (hi.channel hwithin)
      unfold RpcServer.receive at h
      rw [hchannel, ok_bind] at h
      cases hrun : channel.onRpcMessage d (some message) with
      | error f =>
        rw [hrun] at h
        cases h
      | ok result =>
        rw [hrun] at h
        cases h
    · cases h
  | act i =>
    dsimp only [machine, RpcServer.step] at h
    split at h
    · rename_i d a rest hwithin
      obtain ⟨channel, _, hchannel⟩ := channel_eq (hi.channel hwithin)
      cases a with
      | reject message error =>
        unfold RpcServer.perform at h
        dsimp only at h
        rw [show ({ s with within := update s.within i (some (d, rest)) } : RpcServer).channel d =
          .ok channel from hchannel, ok_bind] at h
        exact send_not_deleted h
      | _ => cases h
    · cases h
  | leave i => cases h
  | done i d message bytes =>
    have hne : s.accepted d ≠ [] := List.ne_nil_of_mem he.2
    obtain ⟨channel, _, hchannel⟩ := channel_eq (hsafe d hne)
    dsimp only [machine, RpcServer.step, RpcServer.done] at h
    rw [hchannel, ok_bind] at h
    exact send_not_deleted h

theorem attached_start (e : Net.Setup) (k : Nat) : Attached e.fd k (start e) where
  net := Net.inv_start _ e
  context c := by simp [start, Serves, Net.Up, Net.start, Net.times]
  within i c actions h := by cases h

/-- In every run: the channels of unfinished requests exist, and no function is called on a
deleted one, if and only if no `connectDestroyed` finds a request unfinished. -/
theorem channels_outlive_requests_iff {e : Net.Setup} {ls : List ServerLabel} {u : RpcServer}
    (h : Run (machine P e.fd k services) (start e) ls u) :
    (∀ pre t, pre <+: ls → Run (machine P e.fd k services) (start e) pre t →
        t.Safe ∧ ∀ l, (machine P e.fd k services).enabled t l → ∀ c,
          (machine P e.fd k services).step t l ≠ .error (.deleted c)) ↔
      ∀ pre l t, pre ++ [l] <+: ls → Run (machine P e.fd k services) (start e) pre t →
        t.Finished k l := by
  refine Run.visits_iff (I := Attached e.fd k) ?_ ?_ h (attached_start e k) ?_
  · intro s l t hi he hs
    exact (hi.step he hs).1
  · intro s l t hi hsafe he hs
    obtain ⟨ht, hiff⟩ := hi.step he hs
    rw [← hiff hsafe.1]
    exact ⟨fun hsafe' => hsafe'.1, fun hsafe' => ⟨hsafe', fun l he c => ht.not_deleted hsafe' he c⟩⟩
  · have hsafe : (start e).Safe := fun c hc => absurd rfl hc
    exact ⟨hsafe, fun l he c => (attached_start e k).not_deleted hsafe he c⟩

end

instance (s : RpcServer) (l : NetLabel) : Decidable (s.Idle l) :=
  match h : l.runner s.net with
  | none => isTrue (by simp [Idle, h])
  | some i => decidable_of_iff (s.within i = none) (by simp [Idle, h])

instance (P : RpcProtobuf) (fd : ChannelPtr → Int) (k : Nat) (services : Services) (s : RpcServer)
    (l : ServerLabel) : Decidable ((machine P fd k services).enabled s l) :=
  match l with
  | .net l => inferInstanceAs (Decidable ((Net.machine fd).enabled s.net l ∧ s.Idle l))
  | .receive i _ | .leave i =>
    inferInstanceAs (Decidable (s.net.Ready i ∧ (s.within i).map Prod.snd = some []))
  | .act i =>
    match h : s.within i with
    | some (c, a :: rest) => decidable_of_iff (s.net.Ready i) (by simp [machine, Enabled, h])
    | some (_, []) | none => isFalse (by simp [machine, Enabled, h])
  | .done i c message _ => inferInstanceAs (Decidable (s.net.Ready i ∧ message ∈ s.accepted c))

/-- One service with one method for every name. -/
def anyMethod : Services := fun _ => some ⟨fun _ => some ⟨fun _ => true⟩⟩

/-- A connection on the base loop is up, and a request of it is accepted. -/
def requested : List ServerLabel :=
  [.loop 1, .poll 1 0 [], .accept 0, .swap 1, .again 1, .poll 1 1 [1],
    .handle 1 (.delivered [0]) (.failed 0)].map .net ++
    [.receive 1 (request 1 [] [] []), .act 1, .leave 1]

theorem channels_outlive_requests_iff_requested :
    ∃ s, Run (machine rpcMessages (Net.small []).fd 0 anyMethod) (start (Net.small [])) requested s ∧
      s.accepted 0 = [request 1 [] [] []] ∧ s.Safe := by
  have hex : ∃ s, Run (machine rpcMessages (Net.small []).fd 0 anyMethod) (start (Net.small []))
      requested s ∧ s.accepted 0 = [request 1 [] [] []] :=
    exists_run_of_exec _ (by decide +kernel)
  obtain ⟨s, hr, haccepted⟩ := hex
  refine ⟨s, hr, haccepted, ?_⟩
  refine ((channels_outlive_requests_iff hr).mpr ?_ requested s (List.prefix_refl _) hr).1
  intro pre l t hpre _ i w c batch hl
  -- no functor is run yet
  have hmem : l ∈ requested := hpre.subset (List.mem_append_right _ (List.mem_singleton_self l))
  rw [hl] at hmem
  simp [requested] at hmem

/-- The peer closes, and the closure is run afterwards. -/
theorem late_closure : ∃ s, Run (machine rpcMessages (Net.small []).fd 0 anyMethod)
      (start (Net.small []))
      (requested ++ [.swap 1, .again 1, .poll 1 1 [1], .handle 1 (.delivered []) (.failed 0), .swap 1,
        .functor 1 (.failed 0)].map .net) s ∧ ¬ s.Safe ∧
    (machine rpcMessages (Net.small []).fd 0 anyMethod).enabled s (.done 2 0 (request 1 [] [] []) []) ∧
    (machine rpcMessages (Net.small []).fd 0 anyMethod).step s (.done 2 0 (request 1 [] [] []) []) =
      .error (.deleted 0) := by
  have hex : ∃ s, Run (machine rpcMessages (Net.small []).fd 0 anyMethod) (start (Net.small []))
      (requested ++ [.swap 1, .again 1, .poll 1 1 [1], .handle 1 (.delivered []) (.failed 0), .swap 1,
        .functor 1 (.failed 0)].map .net) s ∧ s.accepted 0 ≠ [] ∧ (s.context_ 0).isNone ∧
      (machine rpcMessages (Net.small []).fd 0 anyMethod).enabled s
        (.done 2 0 (request 1 [] [] []) []) :=
    exists_run_of_exec _ (by decide +kernel)
  obtain ⟨s, hr, haccepted, hnone, he⟩ := hex
  have hdeleted : s.context_ 0 = none := Option.isNone_iff_eq_none.mp hnone
  refine ⟨s, hr, fun hsafe => hsafe 0 haccepted hdeleted, he, ?_⟩
  simp [machine, RpcServer.step, RpcServer.done, RpcServer.channel, hdeleted]

end MuduoNet.Rpc.RpcServer
