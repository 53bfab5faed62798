import MuduoNet.Net.Runs

/-!
# Connections are closed once

Where no connection that was closed finds the end of its stream again, every connection runs
through its life once, and the servers' maps follow. `POLLHUP` without `POLLIN`, but with
`POLLPRI`, calls the close handler and then the read handler.
-/
namespace MuduoNet.Net

open Lib Lib.Outcome

/-- The calls of `connectionCallback_`. -/
def callbacks (s : Net) (c : ConnPtr) : List Bool :=
  (s.history c).filterMap fun e =>
    match e.1 with
    | .effect (.connectionCallback up) => some up
    | _ => none

/-- A run in which no connection is closed twice. -/
def closing : Kept := ⟨True, False⟩

section

variable {fd : ChannelPtr → Int} {e : Setup} {s : Net} {c d : ConnPtr} {k : Nat} {l : NetLabel}

theorem closesOnce_keeps (h : s.ClosesOnce l) : Keeps closing s l := ⟨fun _ => h, False.elim⟩

theorem life_initial (hi : Inv closing fd s) (c : ConnPtr) : s.life c <+: s.script c := by
  rw [((hi.conn c).life trivial).2]
  exact List.take_prefix _ _

theorem callbacks_eq (s : Net) (c : ConnPtr) : s.callbacks c = (s.life c).filterMap fun e =>
    match e.1 with
    | .effect (.connectionCallback up) => some up
    | _ => none := by
  unfold callbacks life
  rw [List.filterMap_filter]
  congr 1
  funext x
  rcases x with ⟨_ | e | _, i⟩
  · rfl
  · cases e with
    | connectionCallback up => cases up <;> rfl
    | _ => rfl
  · rfl

theorem callbacks_initial (hi : Inv closing fd s) (c : ConnPtr) :
    s.callbacks c <+: [true, false] := by
  rw [callbacks_eq]
  exact (life_initial hi c).filterMap _

/-- The connections' and the owners' assertions hold while no connection is closed twice. -/
theorem Permitted.closes {f : NetFault} (h : Permitted closing s l f) :
    f.1 ≠ .loop ∧ f ≠ (.connection, .assertion) ∧ f ≠ (.owner, .assertion) := by
  cases h with
  | twice hk => exact absurd trivial hk
  | _ => simp

/-- The closes of a connection, its callbacks, and the assertions on the way. -/
theorem closed_once (h : Reachable ((machine e.fd).restrict ClosesOnce) (start e) s) :
    (∀ c, s.times c .closed ≤ 1 ∧ s.callbacks c <+: [true, false]) ∧
      ∀ l, (machine e.fd).enabled s l → s.ClosesOnce l → ∀ f, (machine e.fd).step s l = .error f →
        f.1 ≠ .loop ∧ f ≠ (.connection, .assertion) ∧ f ≠ (.owner, .assertion) := by
  have hi := reachable_inv (K := closing) (fun _ _ => closesOnce_keeps) h
  refine ⟨fun c => ⟨((hi.conn c).life trivial).1, callbacks_initial hi c⟩, ?_⟩
  intro l he hl f hf
  exact ((step_sat hi he (closesOnce_keeps hl)).of_error hf).closes

end

instance (s : Net) (l : NetLabel) : Decidable (s.ClosesOnce l) :=
  match h : s.ended l with
  | none => isTrue (by simp [ClosesOnce, h])
  | some c => decidable_of_iff (s.times c .closed = 0) (by simp [ClosesOnce, h])

instance (fd : ChannelPtr → Int) (s : Net) (l : NetLabel) :
    Decidable (((machine fd).restrict ClosesOnce).enabled s l) :=
  inferInstanceAs (Decidable (_ ∧ _))

/-- A server in thread 1 with these I/O loops, and a client in thread 1. -/
def small (ioLoops : List ThreadId) : Setup where
  fd c := c
  serverLoop _ := 1
  serverName _ := "s"
  ioLoops _ := ioLoops
  serverWrites _ := false
  clientLoop _ := 1
  clientWrites _ := false

/-- A connection on the I/O loop 2: it is accepted and established, and finds the end of its
stream. -/
def opened : List NetLabel :=
  [.loop 1, .poll 1 0 [], .accept 0, .loop 2, .poll 2 0 [], .swap 2, .functor 2 (.failed 0),
    .again 2, .poll 2 1 [1], .handle 2 (.delivered []) (.failed 0)]

/-- Its removal, and `connectDestroyed`. -/
def dropped : List NetLabel :=
  [.swap 1, .functor 1 (.failed 0), .swap 2, .functor 2 (.failed 0)]

theorem closed_once_run : ∃ s, Run ((machine (small [2]).fd).restrict ClosesOnce) (start (small [2]))
      (opened ++ dropped) s ∧
    s.callbacks 0 = [true, false] ∧ ∀ c, s.times c .closed ≤ 1 ∧ s.callbacks c <+: [true, false] := by
  have hex : ∃ s, Run ((machine (small [2]).fd).restrict ClosesOnce) (start (small [2]))
      (opened ++ dropped) s ∧ s.callbacks 0 = [true, false] :=
    exists_run_of_exec _ (by decide +kernel)
  obtain ⟨s, hr, hcallbacks⟩ := hex
  exact ⟨s, hr, hcallbacks, (closed_once ⟨_, hr⟩).1⟩

/-- `POLLHUP | POLLPRI` on the base loop: the close handler removes the connection, the read
handler finds the end of the stream, and `n == 1` fails. -/
theorem closed_twice : ∃ s, Run (machine (small []).fd) (start (small []))
      [.loop 1, .poll 1 0 [], .accept 0, .swap 1, .again 1, .poll 1 1 [0x12],
        .handle 1 (.failed 0) (.failed 0)] s ∧ s.times 0 .closed = 1 ∧
    (machine (small []).fd).enabled s (.handle 1 (.delivered []) (.failed 0)) ∧
    (machine (small []).fd).step s (.handle 1 (.delivered []) (.failed 0)) =
      .error (.owner, .assertion) := by
  have hex : ∃ s, Run (machine (small []).fd) (start (small []))
      [.loop 1, .poll 1 0 [], .accept 0, .swap 1, .again 1, .poll 1 1 [0x12],
        .handle 1 (.failed 0) (.failed 0)] s ∧ s.times 0 .closed = 1 ∧
      (machine (small []).fd).enabled s (.handle 1 (.delivered []) (.failed 0)) ∧
      (machine (small []).fd).fault s (.handle 1 (.delivered []) (.failed 0)) =
        some (.owner, .assertion) :=
    exists_run_of_exec _ (by decide +kernel)
  obtain ⟨s, hr, hclosed, he, hfault⟩ := hex
  exact ⟨s, hr, hclosed, he, Machine.step_of_fault hfault⟩

/-- The server `k` has accepted `c`. -/
def Accepted (s : Net) (k : Nat) (c : ConnPtr) : Prop :=
  0 < s.times c .accepted ∧ (s.conn c).owner = .server k

/-- A server accepts fewer than 2^31 connections. -/
def AcceptsFew (s : Net) (l : NetLabel) : Prop := ∀ k, l = .accept k → s.acceptedBy k + 1 < 2 ^ 31

def Orderly (s : Net) (l : NetLabel) : Prop := s.ClosesOnce l ∧ s.AcceptsFew l

section

variable {fd : ChannelPtr → Int} {e : Setup} {s : Net} {c d : ConnPtr} {k : Nat} {l : NetLabel}

/-- The map has the accepted connections that were not removed. -/
theorem registered (hi : Inv closing fd s) (k : Nat) (x : String) (c : ConnPtr) :
    (s.server k).connections_ x = some c ↔
      s.Accepted k c ∧ s.times c .removed = 0 ∧ (s.conn c).name_ = x := by
  have hheld : (s.conn c).owner = .server k →
      (s.Held c ↔ (s.server k).connections_ (s.conn c).name_ = some c) := by
    intro howner
    rw [Held, howner]
  constructor
  · intro hsome
    obtain ⟨hpos, howner, rfl⟩ := hi.whole.keys k x c hsome
    have hheld' := (hheld howner).mpr hsome
    exact ⟨⟨hpos, howner⟩, ((hi.conn c).held.mp hheld').2, rfl⟩
  · rintro ⟨⟨hpos, howner⟩, hrem, rfl⟩
    exact (hheld howner).mp ((hi.conn c).held.mpr ⟨hpos, hrem⟩)

theorem Permitted.orderly {f : NetFault} (h : Permitted closing s l f) (hi : Inv closing fd s)
    (hfew : s.AcceptsFew l) :
    f.1 ≠ .loop ∧ f.1 ≠ .owner ∧ f ≠ (.connection, .assertion) ∧ (f.1 = .poller → s.SendsLate l) := by
  cases h with
  | twice hk => exact absurd trivial hk
  | late hlate => exact ⟨by simp, by simp, by simp, fun _ => hlate⟩
  | overflow k hl hnext =>
    have hlt := hfew k hl
    have hcounted := hi.whole.counted k
    omega
  | _ => simp

/-- The map of a server, the lives of its connections, and the assertions on the way. -/
theorem connections_follow (h : Reachable ((machine e.fd).restrict Orderly) (start e) s) (k : Nat) :
    (∀ x c, (s.server k).connections_ x = some c ↔
        s.Accepted k c ∧ s.times c .removed = 0 ∧ (s.conn c).name_ = x) ∧
      (∀ c d, s.Accepted k c → s.Accepted k d → (s.conn c).name_ = (s.conn d).name_ → c = d) ∧
      (∀ c, s.Accepted k c → s.life c <+:
        [(.accepted, (s.server k).loop_), (.established, (s.conn c).loop_),
          (.closed, (s.conn c).loop_), (.removed, (s.server k).loop_),
          (.destroyed, (s.conn c).loop_)]) ∧
      (s.server k).connections_ (connName (s.server k).name_ (s.server k).nextConnId_) = none ∧
      ∀ l, (machine e.fd).enabled s l → s.Orderly l → ∀ f, (machine e.fd).step s l = .error f →
        f.1 ≠ .loop ∧ f.1 ≠ .owner ∧ f ≠ (.connection, .assertion) ∧
          (f.1 = .poller → s.SendsLate l) := by
  have hi : Inv closing e.fd s := reachable_inv (fun _ _ hl => closesOnce_keeps hl.1) h
  refine ⟨registered hi k, ?_, ?_, ?_, ?_⟩
  · rintro c d ⟨hc, hcowner⟩ ⟨hd, hdowner⟩ hname
    exact hi.whole.names c d k hc hd hcowner hdowner hname
  · rintro c ⟨_, howner⟩
    have hlife := life_initial hi c
    simp only [script, ownerLoop, howner] at hlife
    exact hlife
  · by_contra hne
    obtain ⟨d, hd⟩ := Option.ne_none_iff_exists'.mp hne
    obtain ⟨hpos, howner, hname⟩ := hi.whole.keys k _ d hd
    exact hi.unnamed hpos howner hname
  · intro l he hl f hf
    obtain ⟨honce, hfew⟩ := hl
    exact ((step_sat hi he (closesOnce_keeps honce)).of_error hf).orderly hi hfew

end

instance (s : Net) (l : NetLabel) : Decidable (s.AcceptsFew l) :=
  match l with
  | .accept k => decidable_of_iff (s.acceptedBy k + 1 < 2 ^ 31) (by simp [AcceptsFew])
  | .loop _ | .poll _ _ _ | .handle _ _ _ | .swap _ | .functor _ _ | .again _ | .quit _
  | .queueInLoop _ _ | .send _ _ _ | .shutdown _ _ | .setDisconnecting _ | .runInLoop _ _
  | .connected _ | .connector _ _ | .enableRetry _ | .setConnect _ _ | .register _ _
  | .change _ _ _ | .unregister _ _ => isTrue (by simp [AcceptsFew])

instance (fd : ChannelPtr → Int) (s : Net) (l : NetLabel) :
    Decidable (((machine fd).restrict Orderly).enabled s l) :=
  inferInstanceAs (Decidable (_ ∧ _ ∧ _))

/-- The removal of the first connection waits for the base loop, which accepts a second one. -/
theorem connections_follow_run : ∃ s, Run ((machine (small [2]).fd).restrict Orderly)
      (start (small [2])) (opened ++ [.accept 0]) s ∧
    (s.server 0).connections_ "s#1" = some 0 ∧ (s.server 0).connections_ "s#2" = some 1 ∧
    s.times 0 .removed = 0 := by
  have hex : ∃ s, Run ((machine (small [2]).fd).restrict Orderly) (start (small [2]))
      (opened ++ [.accept 0]) s ∧
      (s.server 0).connections_ "s#1" = some 0 ∧ (s.server 0).connections_ "s#2" = some 1 :=
    exists_run_of_exec _ (by decide +kernel)
  obtain ⟨s, hr, hfirst, hsecond⟩ := hex
  exact ⟨s, hr, hfirst, hsecond, (((connections_follow ⟨_, hr⟩ 0).1 _ _).mp hfirst).2.1⟩

end MuduoNet.Net
