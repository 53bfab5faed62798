import MuduoNet.Net.Pointers

/-!
# What the functions of a connection keep to

Whatever a function of a connection does ends in a few kinds of writes: to its history, to a
poller, to the connection, to a queue, and to the place that its owner has for it. What each of
these keeps to, every handler keeps to and every functor.
-/
namespace MuduoNet.Net

open Lib Lib.Outcome Function

/-- The writes keep to `R`. Of the functors those are queued that hold a pointer. -/
structure Keeping (R : Net → Net → Prop) : Prop where
  trans : ∀ {s t u}, R s t → R t u → R s u
  refl : ∀ s, R s s
  record : ∀ s i c e, R s (s.record i c e)
  setPoller : ∀ s i p, R s (s.setPoller i p)
  setTcp : ∀ s c tcp, R s (s.setTcp c tcp)
  queueInLoop : ∀ s j {cb}, NetFunctor.bare cb = none → R s (s.queueInLoop j cb)
  erase : ∀ s k x, R s (s.setServer k { s.server k with
    connections_ := update (s.server k).connections_ x none })
  reset : ∀ s k connector, R s (s.setClient k { s.client k with
    connection_ := none, connector_ := connector })

section

variable {R : Net → Net → Prop} {s t : Net} {c : ConnPtr} {i : ThreadId} {k : Nat} {w : WriteResult}

theorem Keeping.removeConnectionInLoop (hR : Keeping R)
    (h : s.removeConnectionInLoop i k c = .ok t) : R s t := by
  obtain ⟨_, _, h⟩ := bind_eq_ok h
  obtain ⟨_, _, h⟩ := bind_eq_ok h
  obtain rfl := Except.ok.inj h
  exact hR.trans (hR.trans (hR.erase s k _) (hR.record _ _ _ _)) (hR.queueInLoop _ _ rfl)

theorem Keeping.clientRemoveConnection (hR : Keeping R)
    (h : s.clientRemoveConnection i k c = .ok t) : R s t := by
  obtain ⟨_, _, h⟩ := bind_eq_ok h
  obtain ⟨_, _, h⟩ := bind_eq_ok h
  obtain ⟨_, _, h⟩ := bind_eq_ok h
  obtain rfl := Except.ok.inj h
  exact hR.trans (hR.trans (hR.reset s k _) (hR.record _ _ _ _)) (hR.queueInLoop _ _ rfl)

theorem Keeping.effect (hR : Keeping R) {e : Effect} (h : effect i c s e = .ok t) : R s t := by
  refine hR.trans (hR.record s i c (.effect e)) ?_
  cases e with
  | updateChannel events =>
    obtain ⟨p, _, h⟩ := bind_eq_ok h
    obtain rfl := Except.ok.inj h
    exact hR.setPoller _ _ _
  | removeChannel =>
    obtain ⟨p, _, h⟩ := bind_eq_ok h
    obtain rfl := Except.ok.inj h
    exact hR.setPoller _ _ _
  | queueWriteComplete =>
    obtain rfl := Except.ok.inj h
    exact hR.queueInLoop _ _ rfl
  | closeCallback =>
    unfold Net.effect at h
    dsimp only at h
    split at h
    · unfold serverRemoveConnection at h
      dsimp only at h
      split at h
      · exact hR.removeConnectionInLoop h
      · obtain rfl := Except.ok.inj h
        exact hR.queueInLoop _ _ rfl
    · exact hR.clientRemoveConnection h
  | _ =>
    obtain rfl := Except.ok.inj h
    exact hR.refl _

theorem Keeping.effects (hR : Keeping R) {es : List Effect}
    (h : es.foldlM (Net.effect i c) s = .ok t) : R s t := by
  induction es generalizing s with
  | nil =>
    obtain rfl := Except.ok.inj h
    exact hR.refl s
  | cons e es ih =>
    rw [List.foldlM_cons] at h
    obtain ⟨u, hu, h⟩ := bind_eq_ok h
    exact hR.trans (hR.effect hu) (ih h)

theorem Keeping.perform (hR : Keeping R) {f : TcpConnection → Except Fault TcpConnection}
    (h : s.perform i c f = .ok t) : R s t := by
  obtain ⟨_, _, h⟩ := bind_eq_ok h
  obtain ⟨tcp, _, h⟩ := bind_eq_ok h
  exact hR.trans (hR.setTcp s c tcp.idle) (hR.effects h)

theorem Keeping.runFunctor (hR : Keeping R) {cb : NetFunctor} (h : s.runFunctor i w cb = .ok t) :
    R s t := by
  cases cb with
  | removeConnectionInLoop k c => exact hR.removeConnectionInLoop h
  | user =>
    obtain rfl := Except.ok.inj h
    exact hR.refl s
  | connectEstablished c => exact hR.perform (f := (·.connectEstablished)) h
  | connectDestroyed c => exact hR.perform (f := (·.connectDestroyed)) h
  | sendInLoop c message => exact hR.perform (f := (·.sendInLoop message.bytes w)) h
  | shutdownInLoop c => exact hR.perform (f := fun tcp => .ok tcp.shutdownInLoop) h

theorem Keeping.handle (hR : Keeping R) {r : Buffer.ReadvResult} {handler : Handler}
    (h : s.handle i r w c handler = .ok t) : R s t := by
  unfold Net.handle at h
  split at h
  · obtain rfl := Except.ok.inj h
    exact hR.refl s
  · cases handler <;> exact hR.perform h

end

end MuduoNet.Net
