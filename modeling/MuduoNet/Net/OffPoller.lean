import MuduoNet.Net.Closing

/-!
# A closed connection and the poller

`sendInLoop` does not look at the state. On a closed connection it asks for `POLLOUT` again
unless it can write everything at once, and after `connectDestroyed` the poller's assertion
fails on the index that the channel still has.
-/
namespace MuduoNet.Net

open Lib Lib.Outcome

/-- A run in which what is sent on a closed connection is written at once. -/
def quietly : Kept := ⟨False, True⟩

section

variable {e : Setup} {fd : ChannelPtr → Int} {s : Net} {c : ConnPtr} {l : NetLabel}

theorem sendsQuietly_keeps (h : s.SendsQuietly l) : Keeps quietly s l := ⟨False.elim, fun _ => h⟩

theorem not_sendsLate {K : Kept} (hi : Inv K fd s) (hl : s.SendsQuietly l) : ¬ s.SendsLate l := by
  rintro ⟨c, message, w, hsent, hdes, hlate⟩
  exact hlate (hl c message w hsent ((hi.conn c).destroyed_closed hdes))

/-- The interest of a closed connection stays empty in its channel and in the poller. -/
theorem closed_events (hi : Inv quietly fd s) (hclosed : 0 < s.times c .closed) :
    (s.conn c).tcp.channel_.events_ = Channel.kNoneEvent ∧
      ((s.poller (s.conn c).loop_).channel c).events_ = Channel.kNoneEvent := by
  have hc := hi.conn c
  have hnone := (hc.off trivial).1 hclosed
  exact ⟨hnone, (hc.events (hc.closed hclosed)).trans hnone⟩

/-- A closed connection stays off the poller, whose entries are those of the channels that are
registered. -/
theorem closed_stays_off (h : Reachable ((machine e.fd).restrict SendsQuietly) (start e) s) :
    (∀ c, (s.history c).Pairwise MayFollow) ∧
      (∀ c, 0 < s.times c .closed → (s.conn c).tcp.channel_.events_ = Channel.kNoneEvent ∧
        ((s.poller (s.conn c).loop_).channel c).events_ = Channel.kNoneEvent) ∧
      (∀ i, Poller.Registry e.fd (s.poller i) (s.Live i) s.Muted) ∧
      ∀ l, (machine e.fd).enabled s l → s.SendsQuietly l → ∀ f,
        (machine e.fd).step s l = .error f → f.1 ≠ .poller := by
  have hi : Inv quietly e.fd s := reachable_inv (fun _ _ => sendsQuietly_keeps) h
  refine ⟨fun c => ((hi.conn c).off trivial).2, fun c => closed_events hi, hi.registry, ?_⟩
  intro l he hl f hf
  cases (step_sat hi he (sendsQuietly_keeps hl)).of_error hf with
  | late hlate => exact absurd hlate (not_sendsLate hi hl)
  | _ => simp

end

instance (s : Net) (l : NetLabel) : Decidable (s.SendsQuietly l) :=
  match h : s.sent l with
  | none => isTrue (by simp [SendsQuietly, h])
  | some (c, message, w) => decidable_of_iff
      (0 < s.times c .closed → message.bytes = [] ∨ (s.conn c).tcp.channel_.isWriting = false ∧
        (s.conn c).tcp.outputBuffer_.readableBytes = 0 ∧ w = .wrote message.bytes.length)
      (by simp [SendsQuietly, h, TcpConnection.Finishes])

instance (fd : ChannelPtr → Int) (s : Net) (l : NetLabel) :
    Decidable (((machine fd).restrict SendsQuietly).enabled s l) :=
  inferInstanceAs (Decidable (_ ∧ _))

def twoBytes : Span := ⟨[1, 2], by decide⟩

/-- Thread 2 finds the connection up, it is closed, and `sendInLoop` is queued behind
`connectDestroyed`. -/
def overtaken : List NetLabel :=
  [.loop 1, .poll 1 0 [], .accept 0, .swap 1, .again 1, .poll 1 1 [0x10], .send 2 0 twoBytes,
    .handle 1 (.failed 0) (.failed 0), .runInLoop 2 (.failed 0), .swap 1, .functor 1 (.failed 0)]

theorem closed_stays_off_run : ∃ s, Run ((machine (small []).fd).restrict SendsQuietly) (start (small []))
      (overtaken ++ [.functor 1 (.wrote 2)]) s ∧ s.times 0 .destroyed = 1 ∧
    (s.history 0).Pairwise MayFollow := by
  have hex : ∃ s, Run ((machine (small []).fd).restrict SendsQuietly) (start (small []))
      (overtaken ++ [.functor 1 (.wrote 2)]) s ∧ s.times 0 .destroyed = 1 :=
    exists_run_of_exec _ (by decide +kernel)
  obtain ⟨s, hr, hdes⟩ := hex
  exact ⟨s, hr, hdes, (closed_stays_off ⟨_, hr⟩).1 0⟩

/-- The kernel takes nothing, and the stale channel is handed to the poller. -/
theorem stale_update : ∃ s, Run (machine (small []).fd) (start (small [])) overtaken s ∧
    s.times 0 .destroyed = 1 ∧ (machine (small []).fd).enabled s (.functor 1 (.failed 11)) ∧
    (machine (small []).fd).step s (.functor 1 (.failed 11)) = .error (.poller, .assertion) := by
  have hex : ∃ s, Run (machine (small []).fd) (start (small [])) overtaken s ∧
      s.times 0 .destroyed = 1 ∧ (machine (small []).fd).enabled s (.functor 1 (.failed 11)) ∧
      (machine (small []).fd).fault s (.functor 1 (.failed 11)) = some (.poller, .assertion) :=
    exists_run_of_exec _ (by decide +kernel)
  obtain ⟨s, hr, hdes, he, hfault⟩ := hex
  exact ⟨s, hr, hdes, he, Machine.step_of_fault hfault⟩

end MuduoNet.Net
