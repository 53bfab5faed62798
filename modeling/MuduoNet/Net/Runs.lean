import MuduoNet.Net.Owners

/-!
# Runs of servers, clients and connections

Every step keeps the invariant, and only the permitted faults end a run.
-/
namespace MuduoNet.Net

open Lib Lib.Outcome Function TcpConnection

section

variable {K : Kept} {fd : ChannelPtr → Int} {s t : Net} {c d : ConnPtr} {i j : ThreadId} {k : Nat}
  {l : NetLabel}

theorem inv_start (K : Kept) (e : Setup) : Inv K e.fd (start e) := by
  have hwf : Buffer.new.Wf := Buffer.wf_new
  refine ⟨?_, ?_, ⟨?_, ?_, ?_, ?_, ?_, ?_, ?_⟩, ?_, ?_, ?_, ?_⟩
  · intro c
    refine ⟨⟨?_, ?_, ?_, ?_, ?_, ?_, ?_⟩, ?_, ?_, ?_, ?_, ?_, ?_, ?_, ?_, ?_, ?_, ?_, ?_, ?_, ?_⟩
    all_goals simp [start, times, functors, removing, Phase.batch, Phase.todo, Held, NetCall.conn,
      life, TcpConnection.new]
    exact ⟨hwf, hwf⟩
  · intro i
    refine ⟨[], ⟨fun _ => rfl, by simp, ?_, .nil, by simp [start]⟩, ?_, .nil⟩
    · exact Lib.Slots.Backed.nil
    · simp [Live, start, times]
  all_goals simp [start, times, acceptedBy, Phase.todo, Open, Channel.new]
  intro k
  exact (List.eq_nil_or_concat (e.ioLoops k)).imp_right fun h => by
    obtain ⟨xs, x, hx⟩ := h
    simp [hx]

/-- What a run keeps to, step by step. -/
def Keeps (K : Kept) (s : Net) (l : NetLabel) : Prop :=
  (K.once → s.ClosesOnce l) ∧ (K.quiet → s.SendsQuietly l)

theorem step_sat (hi : Inv K fd s) (he : Enabled fd s l) (hk : Keeps K s l) :
    Sat (Permitted K s l) (step fd s l) (Inv K fd) := by
  cases l with
  | loop i =>
    obtain ⟨_, hphase⟩ := he
    exact hi.setPhase i (List.nil_sublist _) (by rw [hphase]; rfl)
  | poll i numEvents revents =>
    obtain ⟨_, hphase, hset⟩ := he
    exact sat_mono (poll_step hi hphase hset) (fun _ h => h.elim) (fun _ h => h)
  | handle i r w =>
    obtain ⟨_, hhead⟩ := he
    obtain ⟨c, h, todo, hphase⟩ : ∃ c h todo, s.phase i = .handling ((c, h) :: todo) := by
      split at hhead
      · exact ⟨_, _, _, by assumption⟩
      · exact hhead.elim
    rw [hphase] at hhead
    have hstep : step fd s (.handle i r w) = (s.setPhase i (.handling todo)).handle i r w c h := by
      simp [step, hphase]
    rw [hstep]
    exact handler_step hi hphase hhead hk.1
  | swap i =>
    obtain ⟨_, hphase⟩ := he
    exact hi.swapped hphase
  | functor i w =>
    obtain ⟨_, hhead⟩ := he
    obtain ⟨cb, batch, hphase⟩ : ∃ cb batch, s.phase i = .functors (cb :: batch) := by
      split at hhead
      · exact ⟨_, _, by assumption⟩
      · exact hhead.elim
    rw [hphase] at hhead
    have hstep : step fd s (.functor i w) = (s.setPhase i (.functors batch)).runFunctor i w cb := by
      simp [step, hphase]
    rw [hstep]
    exact functor_step hi hphase hhead hk.2
  | again i =>
    obtain ⟨_, hphase⟩ := he
    exact hi.setPhase i (List.nil_sublist _) (by rw [hphase]; rfl)
  | quit i =>
    obtain ⟨_, hphase⟩ := he
    exact hi.setPhase i (List.nil_sublist _) (by rw [hphase]; rfl)
  | queueInLoop i j => exact hi.queued j rfl (by simp [NetFunctor.conn])
  | send i c message => exact send_step hi message
  | shutdown i c => exact shutdown_step hi
  | setDisconnecting i => exact setDisconnecting_step hi
  | runInLoop i w =>
    cases hcall : s.call i with
    | send c message =>
      have hcan : NetFunctor.CanWrite (.sendInLoop c message) w := by
        simpa [Enabled, hcall, NetCall.functor] using he
      have hstep : step fd s (.runInLoop i w) =
          (s.setCall i .none).runInLoop i (s.conn c).loop_ w (.sendInLoop c message) := by
        simp [step, hcall]
      rw [hstep]
      exact runInLoop_send hi hcall hcan hk.2
    | disconnecting c =>
      have hstep : step fd s (.runInLoop i w) =
          (s.setCall i .none).runInLoop i (s.conn c).loop_ w (.shutdownInLoop c) := by
        simp [step, hcall]
      rw [hstep]
      exact runInLoop_shutdown hi hcall
    | _ => simp [Enabled, hcall, NetCall.functor] at he
  | accept k => exact accept_step hi he.2
  | connected k =>
    exact sat_mono (connected_step hi he.2.2 he.2.1) (fun _ h => h.elim) (fun _ h => h)
  | connector k move =>
    refine connector_step hi ?_
    cases move with
    | startInLoop connecting => exact .inl ⟨connecting, rfl⟩
    | retry => exact .inr he.2
    | drop => exact .inr he.2
  | enableRetry k => exact hi.setClient rfl rfl id
  | setConnect k connect => exact hi.setClient rfl rfl id
  | register i events =>
    exact sat_mono (register_step hi he.2) (fun _ h => h.elim) (fun _ h => h)
  | change i c events =>
    exact sat_mono (change_step hi he.2) (fun _ h => h.elim) (fun _ h => h)
  | unregister i c =>
    exact sat_mono (unregister_step hi he.2.1 he.2.2) (fun _ h => h.elim) (fun _ h => h)

theorem reachable_inv {e : Setup} {p : Net → NetLabel → Prop} (hp : ∀ s l, p s l → Keeps K s l)
    (h : Reachable ((machine e.fd).restrict p) (start e) s) : Inv K e.fd s := by
  refine h.invariant ?_ (inv_start K e)
  intro s l t hi he hs
  exact (step_sat hi he.1 (hp s l he.2)).of_ok hs

end

end MuduoNet.Net
