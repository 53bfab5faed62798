import MuduoNet.Poller.Spec

/-!
# Channels that come, change their interest and go

`Registry` says which channels a poller holds, and which of them `::poll` certainly ignores.
A channel that has left keeps its index: a later `update()` fails an assertion.
-/
namespace MuduoNet.Poller

open Lib.Outcome Lib.Slots

/-- A channel stores a new interest and calls `update()`. -/
def setEvents (p : Poller) (c : ChannelPtr) (events : BitVec 32) : Except Fault Poller :=
  (p.setChannel c { p.channel c with events_ := events }).updateChannel c

/-- `live` are the registered channels. The entries of the `muted` ones are negated. -/
def Registry (fd : ChannelPtr → Int) (p : Poller) (live muted : ChannelPtr → Prop) : Prop :=
  ∃ owners, Owned fd p owners ∧ (∀ c, c ∈ owners ↔ live c) ∧
    List.Forall₂ (fun pfd c => muted c → pfd.fd < 0) p.pollfds_ owners

section

variable {fd : ChannelPtr → Int} {p : Poller} {live muted live' muted' : ChannelPtr → Prop}
  {c : ChannelPtr}

theorem Registry.congr (h : Registry fd p live muted) (hlive : ∀ c, live' c ↔ live c)
    (hmuted : ∀ c, live c → muted' c → muted c) : Registry fd p live' muted' := by
  obtain ⟨owners, hown, hmem, hneg⟩ := h
  refine ⟨owners, hown, fun c => (hmem c).trans (hlive c).symm, ?_⟩
  rw [forall₂_iff_getElem?] at hneg ⊢
  refine ⟨hneg.1, ?_⟩
  intro i pfd d hpfd hd hm
  exact hneg.2 i pfd d hpfd hd (hmuted d ((hmem d).mp (List.mem_of_getElem? hd)) hm)

theorem Registry.index_nonneg (h : Registry fd p live muted) (hc : live c) :
    0 ≤ (p.channel c).index_ := by
  obtain ⟨owners, hown, hmem, _⟩ := h
  obtain ⟨i, hi, _⟩ := hown.backed.exists_index ((hmem c).mpr hc)
  rw [hi]
  exact Int.natCast_nonneg i

/-- A channel's first `update()` enters it. -/
theorem setEvents_new (h : Registry fd p live muted) (events : BitVec 32)
    (hidx : (p.channel c).index_ < 0) (hnonneg : 0 ≤ fd c) (hfree : ∀ d, live d → fd d ≠ fd c)
    (hmuted : ¬ muted c) :
    ∃ q, p.setEvents c events = .ok q ∧ Registry fd q (fun d => live d ∨ d = c) muted ∧
      (q.channel c).events_ = events ∧ ∀ d, d ≠ c → q.channel d = p.channel d := by
  obtain ⟨owners, hown, hmem, hneg⟩ := h
  let ch := { p.channel c with events_ := events }
  have hset : Owned fd (p.setChannel c ch) owners := hown.setChannel (hown.fd_eq c) rfl
  have hfree' : ∀ d ∈ owners, fd d ≠ fd c := fun d hd => hfree d ((hmem d).mp hd)
  refine ⟨(p.setChannel c ch).added c, ?_, ⟨owners ++ [c], hset.added hnonneg hfree', ?_, ?_⟩, ?_, ?_⟩
  · unfold setEvents updateChannel
    rw [channel_setChannel_self, if_pos hidx]
    exact addEntry_eq (hset.not_found hfree')
  · intro d
    rw [List.mem_append, List.mem_singleton, hmem]
  · exact List.rel_append hneg (.cons (fun hm => absurd hm hmuted) .nil)
  · rw [channel_added_self, channel_setChannel_self]
  · intro d hd
    rw [channel_added_ne _ hd, channel_setChannel_ne _ _ hd]

/-- A registered channel's `update()` rewrites its entry, and mutes it if nothing is wanted. -/
theorem setEvents_live (h : Registry fd p live muted) (events : BitVec 32) (hc : live c) :
    ∃ q, p.setEvents c events = .ok q ∧
      Registry fd q live (fun d => muted d ∨ events = Channel.kNoneEvent ∧ d = c) ∧
      (q.channel c).events_ = events ∧ ∀ d, d ≠ c → q.channel d = p.channel d := by
  obtain ⟨owners, hown, hmem, hneg⟩ := h
  let ch := { p.channel c with events_ := events }
  have hset : Owned fd (p.setChannel c ch) owners := hown.setChannel (hown.fd_eq c) rfl
  have hc' := (hmem c).mpr hc
  obtain ⟨i, pfd, hidx, _, hi, hpfd, _⟩ := hset.cell hc'
  have hrew := hset.rewritten hi hpfd
  rw [channel_setChannel_self] at hidx hrew
  refine ⟨_, ?_, ⟨owners, hrew, hmem, ?_⟩, ?_, ?_⟩
  · unfold setEvents updateChannel
    rw [channel_setChannel_self, hidx, if_neg (by omega),
      changeEntry_eq hset hc' (by rw [channel_setChannel_self, hidx]) hpfd, channel_setChannel_self]
  · have hnonneg := hown.nonneg c hc'
    apply forall₂_set hneg
    · intro x d hx hd hold hm
      obtain rfl := Option.some.inj (hi.symm.trans hd)
      obtain rfl := Option.some.inj (hpfd.symm.trans hx)
      show (if ch.isNoneEvent = true then -ch.fd_ - 1 else pfd.fd) < 0
      split
      · have hfd : ch.fd_ = fd c := hown.fd_eq c
        omega
      · rename_i hsome
        rcases hm with hm | ⟨hnone, _⟩
        · exact hold hm
        · exact absurd (by simp [ch, Channel.isNoneEvent, hnone]) hsome
    · intro j x d hji hd hold hm
      rcases hm with hm | ⟨_, rfl⟩
      · exact hold hm
      · have hj := hown.backed j d hd
        have hi' := hown.backed i d hi
        omega
  · exact congrArg Channel.events_ (channel_setChannel_self p c ch)
  · intro d hd
    exact channel_setChannel_ne p ch hd

/-- The `update()` of a channel that was registered and has left. -/
theorem setEvents_stale (h : Registry fd p live muted) (events : BitVec 32) (hc : ¬ live c)
    (hidx : 0 ≤ (p.channel c).index_) : p.setEvents c events = .error .assertion := by
  obtain ⟨owners, hown, hmem, _⟩ := h
  have hmap : p.channels_ (p.channel c).fd_ ≠ some c := by
    intro hfound
    exact hc ((hmem c).mp ((hown.channels _ _).mp hfound).1)
  unfold setEvents updateChannel changeEntry
  rw [channel_setChannel_self, if_neg (by show ¬ (p.channel c).index_ < 0; omega)]
  dsimp only [MuduoNet.assert]
  by_cases hnone : p.channels_ (p.channel c).fd_ = none
  · rw [demand_false (by simpa using hnone)]
    rfl
  · rw [demand_true (by simpa using hnone), demand_false (by simpa using hmap)]
    rfl

/-- A channel leaves. The indices of the others may change, but none becomes or ceases to be
an index. -/
theorem removeChannel_live (h : Registry fd p live muted) (hc : live c)
    (hnone : (p.channel c).events_ = Channel.kNoneEvent) :
    ∃ q, p.removeChannel c = .ok q ∧ Registry fd q (fun d => live d ∧ d ≠ c) muted ∧
      ∀ d, (q.channel d).events_ = (p.channel d).events_ ∧
        ((q.channel d).index_ < 0 ↔ (p.channel d).index_ < 0) := by
  obtain ⟨owners, hown, hmem, hneg⟩ := h
  have hnone' : (p.channel c).isNoneEvent = true := by simp [Channel.isNoneEvent, hnone]
  obtain ⟨i, d, q', hq', _, _, hd, _, _, hchannel⟩ := removeChannel_eq hown ((hmem c).mpr hc) hnone'
  obtain ⟨q, owners', hq, hown', hmem', hkept, hrealign⟩ :=
    removeChannel_owned hown ((hmem c).mpr hc) hnone'
  obtain rfl : q' = q := Except.ok.inj (hq'.symm.trans hq)
  refine ⟨q', hq, ⟨owners', hown', ?_, hrealign _ hneg⟩, ?_⟩
  · intro e
    rw [hmem', hmem]
  · intro e
    refine ⟨(hkept e).1, ?_⟩
    have hindex := hown.backed _ _ hd
    rw [hchannel]
    split
    · rfl
    · by_cases hed : e = d
      · subst hed
        rw [channel_setChannel_self]
        dsimp only at hindex ⊢
        omega
      · rw [channel_setChannel_ne _ _ hed]

/-- `poll` reports registered channels that are not muted, each once. -/
theorem poll_registry (h : Registry fd p live muted) {numEvents : Int} {revents : List (BitVec 16)}
    (hset : p.SetsRevents numEvents revents) :
    ∃ q active, p.poll numEvents revents = .ok (q, active) ∧ Registry fd q live muted ∧
      active.Nodup ∧ (∀ c ∈ active, live c ∧ ¬ muted c) ∧
      ∀ d, (q.channel d).events_ = (p.channel d).events_ ∧
        ((q.channel d).index_ < 0 ↔ (p.channel d).index_ < 0) := by
  obtain ⟨owners, hown, hmem, hneg⟩ := h
  obtain ⟨q, hq, hown', hpollfds, hevents, hother, _⟩ := poll_owned hown hset
  have hnegs : List.Forall₂ (fun pfd c => muted c → pfd.fd < 0) (p.polled revents) owners := by
    rw [forall₂_iff_getElem?] at hneg ⊢
    refine ⟨(hown.entries_polled hset.1).length_eq, ?_⟩
    intro i it c hit hc hm
    obtain ⟨pfd, r, hpfd, _, rfl⟩ := getElem?_polled.mp hit
    exact hneg.2 i pfd c hpfd hc hm
  refine ⟨q, _, hq, ⟨owners, hown', hmem, by rw [hpollfds]; exact hnegs⟩,
    hown.backed.nodup.sublist (reported_sublist _ _), ?_, ?_⟩
  · intro c hc
    obtain ⟨i, it, hit, hi, hpos⟩ := mem_reported.mp hc
    refine ⟨(hmem c).mp (List.mem_of_getElem? hi), ?_⟩
    intro hm
    have hfd := (forall₂_iff_getElem?.mp hnegs).2 i it c hit hi hm
    have hreal := hset.2.2 it (List.mem_of_getElem? hit) hpos
    omega
  · intro d
    refine ⟨hevents d, ?_⟩
    by_cases hd : d ∈ owners
    · obtain ⟨i, hi, _⟩ := hown.backed.exists_index hd
      obtain ⟨j, hj, _⟩ := hown'.backed.exists_index hd
      omega
    · rw [hother d hd]

end

end MuduoNet.Poller
