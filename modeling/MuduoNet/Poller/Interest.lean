import MuduoNet.Poller.Consistent

/-!
# What the poll set shows of the channels' interest

An entry shows its channel's interest when it has the channel's events, and the channel's own
descriptor exactly when there are any. `updateChannel` negates the descriptor of a muted
channel and never restores it, and it enters a new channel with its own descriptor in any
case; the steps that avoid both are the ones that keep the poll set right.
-/
namespace MuduoNet

open Lib Lib.Outcome Lib.Slots

/-- The entry `pfd` asks for what `ch` wants. -/
def Pollfd.Shows (pfd : Pollfd) (ch : Channel) : Prop :=
  pfd.events.toInt = ch.events_.toInt ∧ (pfd.fd = ch.fd_ ↔ ch.isNoneEvent = false) ∧
    (pfd.fd = -ch.fd_ - 1 ↔ ch.isNoneEvent = true)

/-- A descriptor differs from its encoding as one to ignore. -/
theorem fd_ne_ignored {f : Int} : 0 ≤ f → f ≠ -f - 1 := by
  intro h
  omega

namespace Channel

/-- Only the three lowest bits of `events_` are ever set. -/
def Small (ch : Channel) : Prop := ch.events_.toNat < 2 ^ 3

theorem Small.apply {ch : Channel} (h : ch.Small) (op : ChannelOp) : (op.apply ch).Small := by
  cases op with
  | enableReading =>
    show (ch.events_ ||| kReadEvent).toNat < 2 ^ 3
    rw [BitVec.toNat_or]
    exact Nat.or_lt_two_pow h (by decide)
  | enableWriting =>
    show (ch.events_ ||| kWriteEvent).toNat < 2 ^ 3
    rw [BitVec.toNat_or]
    exact Nat.or_lt_two_pow h (by decide)
  | disableWriting =>
    show (ch.events_ &&& ~~~kWriteEvent).toNat < 2 ^ 3
    rw [BitVec.toNat_and]
    exact Nat.lt_of_le_of_lt Nat.and_le_left h
  | disableAll =>
    show kNoneEvent.toNat < 2 ^ 3
    decide

/-- The cast of `events_` to `short` loses nothing. -/
theorem Small.toInt_short {ch : Channel} (h : ch.Small) :
    (ch.events_.setWidth 16).toInt = ch.events_.toInt := by
  unfold Small at h
  have hshort : (ch.events_.setWidth 16).toNat = ch.events_.toNat := by
    rw [BitVec.toNat_setWidth, Nat.mod_eq_of_lt (by omega)]
  rw [BitVec.toInt_eq_toNat_of_lt (by omega), BitVec.toInt_eq_toNat_of_lt (by omega), hshort]

end Channel

namespace Poller

section

variable {fd : ChannelPtr → Int} {p : Poller} {owners : List ChannelPtr} {c : ChannelPtr}

/-- Every entry shows the interest of its owner. -/
def AllShown (p : Poller) (owners : List ChannelPtr) : Prop :=
  List.Forall₂ (fun pfd c => pfd.Shows (p.channel c)) p.pollfds_ owners

theorem AllShown.congr {q : Poller} {entries : List Pollfd}
    (h : List.Forall₂ (fun pfd c => pfd.Shows (p.channel c)) entries owners)
    (hch : ∀ d ∈ owners, (q.channel d).fd_ = (p.channel d).fd_ ∧
      (q.channel d).events_ = (p.channel d).events_) :
    List.Forall₂ (fun pfd c => pfd.Shows (q.channel c)) entries owners := by
  rw [forall₂_iff_getElem?] at h ⊢
  refine ⟨h.1, ?_⟩
  intro i pfd d hpfd hd
  obtain ⟨hfd, hevents⟩ := hch d (List.mem_of_getElem? hd)
  have hshows := h.2 i pfd d hpfd hd
  unfold Pollfd.Shows Channel.isNoneEvent at hshows ⊢
  rw [hfd, hevents]
  exact hshows

/-- What `::poll` stores does not matter. -/
theorem AllShown.polled (h : AllShown p owners) {revents : List (BitVec 16)}
    (hlen : revents.length = p.pollfds_.length) :
    List.Forall₂ (fun pfd c => pfd.Shows (p.channel c)) (p.polled revents) owners := by
  obtain ⟨hlength, hall⟩ := forall₂_iff_getElem?.mp h
  rw [forall₂_iff_getElem?]
  constructor
  · unfold Poller.polled
    rw [List.length_zipWith, hlen, Nat.min_self, hlength]
  · intro i it c hit hc
    obtain ⟨pfd, r, hpfd, _, rfl⟩ := getElem?_polled.mp hit
    exact hall i pfd c hpfd hc

/-- The second branch of `updateChannel` shows the new interest, unless it is the one that ends
a mute. -/
theorem shows_rewritten {pfd : Pollfd} {ch ch' : Channel} (h : pfd.Shows ch)
    (hfd : ch'.fd_ = ch.fd_) (hnonneg : 0 ≤ ch.fd_) (hsmall : ch'.Small) :
    (rewritten pfd ch').Shows ch' ↔ (ch.isNoneEvent = true → ch'.isNoneEvent = true) := by
  obtain ⟨_, hreal, _⟩ := h
  unfold Pollfd.Shows rewritten
  rw [hfd]
  dsimp only
  by_cases hnone : ch'.isNoneEvent = true
  · rw [if_pos hnone]
    refine iff_of_true ⟨hsmall.toInt_short, ?_, ?_⟩ (fun _ => hnone)
    · rw [hnone]
      exact iff_of_false (fd_ne_ignored hnonneg).symm (by decide)
    · exact iff_of_true rfl hnone
  · rw [if_neg hnone]
    rw [Bool.not_eq_true] at hnone
    rw [hnone]
    constructor
    · intro ⟨_, hshown, _⟩ hmuted
      have hown := hreal.mp (hshown.mpr rfl)
      rw [hown] at hmuted
      exact hmuted
    · intro hmuted
      have hown : ch.isNoneEvent = false := by
        cases hch : ch.isNoneEvent with
        | false => rfl
        | true => exact (hmuted hch).symm
      have hpfd := hreal.mpr hown
      refine ⟨hsmall.toInt_short, iff_of_true hpfd rfl, ?_⟩
      rw [hpfd]
      exact iff_of_false (fd_ne_ignored hnonneg) Bool.false_ne_true

/-- The first branch shows the interest, unless there is none. -/
theorem shows_added {ch : Channel} (hnonneg : 0 ≤ ch.fd_) (hsmall : ch.Small) (idx : Int) :
    (⟨ch.fd_, ch.events_.setWidth 16, 0⟩ : Pollfd).Shows { ch with index_ := idx } ↔
      ch.isNoneEvent = false := by
  constructor
  · intro ⟨_, hshown, _⟩
    exact hshown.mp rfl
  · intro hsome
    refine ⟨hsmall.toInt_short, iff_of_true rfl hsome, iff_of_false (fd_ne_ignored hnonneg) ?_⟩
    show ¬ ch.isNoneEvent = true
    rw [hsome]
    decide

theorem rewritten_allShown_iff (h : Owned fd p owners) (hshown : AllShown p owners)
    (hsmall : ∀ c, (p.channel c).Small) (op : ChannelOp) {i : Nat} {pfd : Pollfd}
    (hi : owners[i]? = some c) (hpfd : p.pollfds_[i]? = some pfd) :
    AllShown { p.setChannel c (op.apply (p.channel c)) with
      pollfds_ := p.pollfds_.set i (rewritten pfd (op.apply (p.channel c))) } owners ↔
      ((p.channel c).isNoneEvent = true → (op.apply (p.channel c)).isNoneEvent = true) := by
  have hmem := List.mem_of_getElem? hi
  have hnonneg : 0 ≤ (p.channel c).fd_ := by
    rw [h.fd_eq]
    exact h.nonneg c hmem
  have hold := (forall₂_iff_getElem?.mp hshown).2 i pfd c hpfd hi
  rw [← shows_rewritten hold (op.fd_apply _) hnonneg ((hsmall c).apply op)]
  constructor
  · intro hall
    obtain ⟨hlt, _⟩ := List.getElem?_eq_some_iff.mp hpfd
    have hnew := (forall₂_iff_getElem?.mp hall).2 i _ c (List.getElem?_set_self hlt) hi
    rw [show ({ p.setChannel c (op.apply (p.channel c)) with
      pollfds_ := p.pollfds_.set i (rewritten pfd (op.apply (p.channel c))) } : Poller).channel c =
      op.apply (p.channel c) from channel_setChannel_self _ _ _] at hnew
    exact hnew
  · intro hnew
    apply forall₂_set hshown
    · intro x d _ hd _
      obtain rfl := Option.some.inj (hi.symm.trans hd)
      show Pollfd.Shows _ ((p.setChannel c _).channel c)
      rw [channel_setChannel_self]
      exact hnew
    · intro j x d hj hd hx
      have hdc : d ≠ c := by
        intro hdc
        subst hdc
        have hpi := h.backed i d hi
        have hpj := h.backed j d hd
        omega
      show x.Shows ((p.setChannel c _).channel d)
      rw [channel_setChannel_ne _ _ hdc]
      exact hx

theorem added_allShown_iff (h : Owned fd p owners) (hshown : AllShown p owners)
    (hsmall : (p.channel c).Small) (hnonneg : 0 ≤ fd c) (hnew : c ∉ owners) :
    AllShown (p.added c) (owners ++ [c]) ↔ (p.channel c).isNoneEvent = false := by
  rw [← h.fd_eq c] at hnonneg
  rw [← shows_added hnonneg hsmall p.pollfds_.length]
  constructor
  · intro hall
    have hlast := (forall₂_iff_getElem?.mp hall).2 owners.length
      ⟨(p.channel c).fd_, (p.channel c).events_.setWidth 16, 0⟩ c
    rw [channel_added_self] at hlast
    apply hlast
    · show (p.pollfds_ ++ [_])[owners.length]? = _
      rw [← h.length, List.getElem?_concat_length]
    · rw [List.getElem?_concat_length]
  · intro hlast
    apply List.rel_append
    · apply AllShown.congr hshown
      intro d hd
      have hdc : d ≠ c := by
        intro hdc
        exact hnew (hdc ▸ hd)
      rw [channel_added_ne p hdc]
      exact ⟨rfl, rfl⟩
    · refine .cons ?_ .nil
      rw [channel_added_self]
      exact hlast

end

end Poller

namespace PollSession

variable {fd : ChannelPtr → Int} {s t : PollSession} {owners : List ChannelPtr}

/-- Every registered channel's entry shows its interest. -/
def Reflects (s : PollSession) : Prop :=
  ∀ c ∈ s.live, ∃ (i : Nat) (pfd : Pollfd), (s.poller.channel c).index_ = i ∧
    s.poller.pollfds_[i]? = some pfd ∧ pfd.Shows (s.poller.channel c)

/-- A registered channel without events does not get any, and a new channel registers with
some. -/
def Steady (s : PollSession) : Label → Prop
  | .change c op =>
    if c ∈ s.live then
      (s.poller.channel c).isNoneEvent = true → (op.apply (s.poller.channel c)).isNoneEvent = true
    else (op.apply (s.poller.channel c)).isNoneEvent = false
  | .remove _ | .poll _ _ => True

theorem reflects_iff (h : s.poller.Owned fd owners) (hlive : ∀ c, c ∈ s.live ↔ c ∈ owners) :
    s.Reflects ↔ s.poller.AllShown owners := by
  unfold Poller.AllShown
  rw [forall₂_iff_getElem?]
  constructor
  · intro hall
    refine ⟨h.length, ?_⟩
    intro i pfd c hpfd hc
    obtain ⟨j, pfd', hidx, hpfd', hshows⟩ := hall c ((hlive c).mpr (List.mem_of_getElem? hc))
    have hi : (s.poller.channel c).index_ = i := h.backed i c hc
    obtain rfl : i = j := by omega
    obtain rfl := Option.some.inj (hpfd.symm.trans hpfd')
    exact hshows
  · intro ⟨_, hall⟩ c hc
    obtain ⟨i, pfd, hidx, _, hi, hpfd, _⟩ := h.cell ((hlive c).mp hc)
    exact ⟨i, pfd, hidx, hpfd, hall i pfd c hpfd hi⟩

/-- The invariant of the registrations, with small interests. -/
def Sound (fd : ChannelPtr → Int) (s : PollSession) : Prop :=
  (∃ owners, Inv fd s owners) ∧ ∀ c, (s.poller.channel c).Small

theorem sound_start (fd : ChannelPtr → Int) : Sound fd (start fd) := by
  refine ⟨⟨[], inv_start fd⟩, ?_⟩
  intro c
  show Channel.kNoneEvent.toNat < 2 ^ 3
  decide

theorem sound_step {l : Label} (h : Sound fd s) (he : machine.enabled s l)
    (hs : machine.step s l = .ok t) : Sound fd t := by
  obtain ⟨hi, hsmall⟩ := h
  refine ⟨(step_sat hi he).of_ok hs, ?_⟩
  obtain ⟨owners, hi⟩ := hi
  cases l with
  | change c op =>
    obtain ⟨q, hq, ht⟩ := bind_eq_ok hs
    obtain rfl := Except.ok.inj ht
    obtain ⟨q', _, hq', _, _, hevents, hother⟩ :=
      Poller.change_owned hi.owned op (hi.change_pre op he)
    obtain rfl := Except.ok.inj (hq.symm.trans hq')
    intro d
    by_cases hdc : d = c
    · subst hdc
      show (q.channel d).events_.toNat < 2 ^ 3
      rw [hevents]
      exact (hsmall d).apply op
    · show (q.channel d).Small
      rw [hother d hdc]
      exact hsmall d
  | remove c =>
    obtain ⟨q, hq, ht⟩ := bind_eq_ok hs
    obtain rfl := Except.ok.inj ht
    obtain ⟨q', _, hq', _, _, hkept, _⟩ :=
      Poller.removeChannel_owned hi.owned ((hi.live c).mp he.1) he.2
    obtain rfl := Except.ok.inj (hq.symm.trans hq')
    intro d
    show (q.channel d).events_.toNat < 2 ^ 3
    rw [(hkept d).1]
    exact hsmall d
  | poll numEvents revents =>
    obtain ⟨⟨q, active⟩, hq, ht⟩ := bind_eq_ok hs
    obtain rfl := Except.ok.inj ht
    obtain ⟨q', hq', _, _, hevents, _, _⟩ := Poller.poll_owned hi.owned he
    obtain ⟨rfl, _⟩ := Prod.mk.inj (Except.ok.inj (hq.symm.trans hq'))
    intro d
    show (q.channel d).events_.toNat < 2 ^ 3
    rw [hevents d]
    exact hsmall d

/-- From a state that reflects the interests exactly the steady steps lead to another one. -/
theorem reflects_step_iff {l : Label} (h : Sound fd s) (hr : s.Reflects)
    (he : machine.enabled s l) (hs : machine.step s l = .ok t) : t.Reflects ↔ s.Steady l := by
  obtain ⟨⟨owners, hi⟩, hsmall⟩ := h
  have hshown := (reflects_iff hi.owned hi.live).mp hr
  cases l with
  | change c op =>
    obtain ⟨q, hq, ht⟩ := bind_eq_ok hs
    obtain rfl := Except.ok.inj ht
    dsimp only [Steady]
    by_cases hc : c ∈ s.live
    · obtain ⟨i, pfd, hidx, _, hci, hpfd, _⟩ := hi.owned.cell ((hi.live c).mp hc)
      obtain rfl := Except.ok.inj
        (hq.symm.trans (Poller.change_registered hi.owned op ((hi.live c).mp hc) hidx hpfd))
      have hrew := (hi.owned.applied c op).rewritten hci hpfd
      rw [Poller.channel_setChannel_self] at hrew
      rw [if_pos hc, if_pos hc,
        ← Poller.rewritten_allShown_iff hi.owned hshown hsmall op hci hpfd]
      exact reflects_iff hrew hi.live
    · have hmem : c ∉ owners := by
        rw [← hi.live]
        exact hc
      obtain ⟨hneg, hnonneg, hfree⟩ := (hi.change_pre op he).resolve_left hmem
      obtain rfl := Except.ok.inj (hq.symm.trans (Poller.change_new hi.owned op hneg hfree))
      have hset := hi.owned.applied c op
      have hshown' : (s.poller.setChannel c (op.apply (s.poller.channel c))).AllShown owners := by
        apply Poller.AllShown.congr hshown
        intro d hd
        have hdc : d ≠ c := by
          intro hdc
          exact hmem (hdc ▸ hd)
        rw [Poller.channel_setChannel_ne _ _ hdc]
        exact ⟨rfl, rfl⟩
      have hsmall' : ((s.poller.setChannel c (op.apply (s.poller.channel c))).channel c).Small := by
        rw [Poller.channel_setChannel_self]
        exact (hsmall c).apply op
      rw [if_neg hc, if_neg hc]
      have hadd := Poller.added_allShown_iff hset hshown' hsmall' hnonneg hmem
      rw [Poller.channel_setChannel_self] at hadd
      rw [← hadd]
      apply reflects_iff (hset.added hnonneg hfree)
      intro d
      rw [List.mem_append, List.mem_append, hi.live]
  | remove c =>
    obtain ⟨q, hq, ht⟩ := bind_eq_ok hs
    obtain rfl := Except.ok.inj ht
    obtain ⟨q', owners', hq', hown, hmem, hkept, hrealign⟩ :=
      Poller.removeChannel_owned hi.owned ((hi.live c).mp he.1) he.2
    obtain rfl := Except.ok.inj (hq.symm.trans hq')
    refine iff_of_true ?_ trivial
    rw [reflects_iff hown]
    · apply Poller.AllShown.congr (hrealign _ hshown)
      intro d _
      rw [hown.fd_eq, hi.owned.fd_eq]
      exact ⟨rfl, (hkept d).1⟩
    · intro d
      rw [hmem, ← hi.live, List.mem_filter, decide_eq_true_eq]
  | poll numEvents revents =>
    obtain ⟨⟨q, active⟩, hq, ht⟩ := bind_eq_ok hs
    obtain rfl := Except.ok.inj ht
    obtain ⟨q', hq', hown, hpollfds, hevents, _, _⟩ := Poller.poll_owned hi.owned he
    obtain ⟨rfl, _⟩ := Prod.mk.inj (Except.ok.inj (hq.symm.trans hq'))
    refine iff_of_true ?_ trivial
    refine (reflects_iff hown ?_).mpr ?_
    · exact hi.live
    show List.Forall₂ _ q.pollfds_ owners
    rw [hpollfds]
    apply Poller.AllShown.congr (hshown.polled he.1)
    intro d _
    rw [hown.fd_eq, hi.owned.fd_eq]
    exact ⟨rfl, hevents d⟩

/-- In a run every visited state reflects the interests exactly when no step re-enables a
registered channel without events or registers a channel without any. -/
theorem interest_reflected_iff {ls : List Label} (h : Run machine (start fd) ls s) :
    (∀ pre t, pre <+: ls → Run machine (start fd) pre t → t.Reflects) ↔
      ∀ pre l t, pre ++ [l] <+: ls → Run machine (start fd) pre t → t.Steady l := by
  refine h.visits_iff (I := Sound fd) ?_ ?_ (sound_start fd) ?_
  · intro s l t hi he hs
    exact sound_step hi he hs
  · intro s l t hi hr he hs
    exact reflects_step_iff hi hr he hs
  · intro c hc
    cases hc

/-- Run in which channel 3 is muted and then wants to read again: its entry keeps the negated
descriptor, so `::poll` goes on ignoring it. -/
theorem reenabled_not_polled :
    ∃ s, Run machine (start fun c => c) [.change 3 .enableReading, .change 3 .disableAll,
        .change 3 .enableReading] s ∧
      (3 ∈ s.live ∧ (s.poller.channel 3).events_ = Channel.kReadEvent ∧
        s.poller.pollfds_ = [⟨-4, 3, 0⟩]) ∧ ¬ s.Reflects := by
  have hex : ∃ s, Run machine (start fun c => c) [.change 3 .enableReading, .change 3 .disableAll,
      .change 3 .enableReading] s ∧ (3 ∈ s.live ∧
        (s.poller.channel 3).events_ = Channel.kReadEvent ∧ (s.poller.channel 3).fd_ = 3 ∧
        s.poller.pollfds_ = [⟨-4, 3, 0⟩]) :=
    exists_run_of_exec _ (by decide +kernel)
  obtain ⟨s, hr, hlive, hevents, hfd, hpollfds⟩ := hex
  refine ⟨s, hr, ⟨hlive, hevents, hpollfds⟩, ?_⟩
  intro hreflects
  obtain ⟨i, pfd, _, hpfd, _, hreal, _⟩ := hreflects 3 hlive
  rw [hpollfds] at hpfd
  have hneg : pfd.fd = -4 := by
    have hmem := List.mem_singleton.mp (List.mem_of_getElem? hpfd)
    rw [hmem]
  have hown : pfd.fd = 3 := by
    rw [← hfd]
    apply hreal.mpr
    rw [Channel.isNoneEvent, hevents]
    decide
  omega

/-- Descriptors that are muted on the way, and one that leaves. -/
theorem interest_reflected_iff_run :
    let ls : List Label := [.change 3 .enableReading, .change 5 .enableWriting,
      .change 3 .enableWriting, .change 5 .disableWriting, .change 5 .disableAll, .remove 5]
    ∃ s, Run machine (start fun c => c) ls s ∧
      ((∀ pre t, pre <+: ls → Run machine (start fun c => c) pre t → t.Reflects) ↔
        ∀ pre l t, pre ++ [l] <+: ls → Run machine (start fun c => c) pre t → t.Steady l) := by
  intro ls
  have hex : ∃ s, Run machine (start fun c => c) ls s ∧ True :=
    exists_run_of_exec _ (by decide +kernel)
  obtain ⟨s, hr, _⟩ := hex
  exact ⟨s, hr, interest_reflected_iff hr⟩

end PollSession

end MuduoNet
