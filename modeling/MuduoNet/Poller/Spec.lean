import MuduoNet.Poller.Basic

/-!
# What the poller's functions do to its entries

`Owned` lists the registered channels in the order of their entries. Each function returns
without failing an assertion and keeps such a list; `poll` reports the owners of the entries
with events.
-/
namespace MuduoNet

open Lib.Outcome Lib.Slots

inductive ChannelOp
  | enableReading | enableWriting | disableWriting | disableAll
  deriving DecidableEq, Repr

def ChannelOp.apply : ChannelOp → Channel → Channel
  | .enableReading => Channel.enableReading
  | .enableWriting => Channel.enableWriting
  | .disableWriting => Channel.disableWriting
  | .disableAll => Channel.disableAll

@[simp] theorem ChannelOp.fd_apply (op : ChannelOp) (ch : Channel) : (op.apply ch).fd_ = ch.fd_ := by
  cases op <;> rfl

@[simp] theorem ChannelOp.index_apply (op : ChannelOp) (ch : Channel) :
    (op.apply ch).index_ = ch.index_ := by
  cases op <;> rfl

namespace Poller

@[simp] theorem channel_setChannel_self (p : Poller) (c : ChannelPtr) (ch : Channel) :
    (p.setChannel c ch).channel c = ch := if_pos rfl

theorem channel_setChannel_ne (p : Poller) {c d : ChannelPtr} (ch : Channel) (h : d ≠ c) :
    (p.setChannel c ch).channel d = p.channel d := if_neg h

/-- A store that keeps a field of its channel keeps that field of all. -/
theorem field_setChannel {α : Type} (f : Channel → α) {p : Poller} {c : ChannelPtr} {ch : Channel}
    (h : f ch = f (p.channel c)) (d : ChannelPtr) :
    f ((p.setChannel c ch).channel d) = f (p.channel d) := by
  by_cases hd : d = c
  · rw [hd, channel_setChannel_self, h]
  · rw [channel_setChannel_ne p ch hd]

@[simp] theorem pollfds_setChannel (p : Poller) (c : ChannelPtr) (ch : Channel) :
    (p.setChannel c ch).pollfds_ = p.pollfds_ := rfl

@[simp] theorem channels_setChannel (p : Poller) (c : ChannelPtr) (ch : Channel) :
    (p.setChannel c ch).channels_ = p.channels_ := rfl

/-- A channel's operation: it changes its `events_`, then `update()` comes here. -/
def change (p : Poller) (c : ChannelPtr) (op : ChannelOp) : Except Fault Poller :=
  (p.setChannel c (op.apply (p.channel c))).updateChannel c

/-- The descriptor of an entry: that of its channel, or its encoding as one to ignore. -/
def EntryFd (fd : ChannelPtr → Int) (pfd : Pollfd) (c : ChannelPtr) : Prop :=
  pfd.fd = fd c ∨ pfd.fd = -fd c - 1

/-- `owners` lists the registered channels in the order of their entries. -/
structure Owned (fd : ChannelPtr → Int) (p : Poller) (owners : List ChannelPtr) : Prop where
  fd_eq : ∀ c, (p.channel c).fd_ = fd c
  nonneg : ∀ c ∈ owners, 0 ≤ fd c
  backed : Backed (fun c => (p.channel c).index_) owners
  entries : List.Forall₂ (EntryFd fd) p.pollfds_ owners
  channels : ∀ f c, p.channels_ f = some c ↔ c ∈ owners ∧ fd c = f

section

variable {fd : ChannelPtr → Int} {p : Poller} {owners : List ChannelPtr} {c : ChannelPtr}

theorem Owned.length (h : Owned fd p owners) : p.pollfds_.length = owners.length :=
  h.entries.length_eq

theorem Owned.fd_inj (h : Owned fd p owners) {d : ChannelPtr} (hc : c ∈ owners) (hd : d ∈ owners)
    (hcd : fd c = fd d) : c = d := by
  have hpc := (h.channels (fd d) c).mpr ⟨hc, hcd⟩
  have hpd := (h.channels (fd d) d).mpr ⟨hd, rfl⟩
  exact Option.some.inj (hpc.symm.trans hpd)

/-- The cell of a registered channel. -/
theorem Owned.cell (h : Owned fd p owners) (hc : c ∈ owners) :
    ∃ i pfd, (p.channel c).index_ = (i : Nat) ∧ i < p.pollfds_.length ∧ owners[i]? = some c ∧
      p.pollfds_[i]? = some pfd ∧ EntryFd fd pfd c := by
  obtain ⟨i, hidx, hi⟩ := h.backed.exists_index hc
  obtain ⟨hlt, _⟩ := List.getElem?_eq_some_iff.mp hi
  have hlp : i < p.pollfds_.length := by rw [h.length]; exact hlt
  have hpfd := List.getElem?_eq_getElem hlp
  exact ⟨i, _, hidx, hlp, hi, hpfd, (forall₂_iff_getElem?.mp h.entries).2 i _ c hpfd hi⟩

/-- The descriptor of a registered channel leads to it. -/
theorem Owned.channels_fd (h : Owned fd p owners) (hc : c ∈ owners) :
    p.channels_ (p.channel c).fd_ = some c := by
  rw [h.fd_eq]
  exact (h.channels _ _).mpr ⟨hc, rfl⟩

/-- Only the interest and the reported events of channels may have changed. -/
theorem Owned.congr (h : Owned fd p owners) {q : Poller}
    (hfd : ∀ c, (q.channel c).fd_ = (p.channel c).fd_)
    (hidx : ∀ c, (q.channel c).index_ = (p.channel c).index_)
    (hentries : List.Forall₂ (EntryFd fd) q.pollfds_ owners)
    (hchannels : q.channels_ = p.channels_) : Owned fd q owners := by
  refine ⟨?_, h.nonneg, h.backed.congr (fun c _ => hidx c), hentries, ?_⟩
  · intro c
    rw [hfd, h.fd_eq]
  · rw [hchannels]
    exact h.channels

theorem Owned.setChannel (h : Owned fd p owners) {ch : Channel} (hfd : ch.fd_ = fd c)
    (hidx : ch.index_ = (p.channel c).index_) : Owned fd (p.setChannel c ch) owners := by
  refine h.congr ?_ ?_ h.entries rfl
  · apply field_setChannel Channel.fd_
    rw [hfd, h.fd_eq]
  · exact field_setChannel Channel.index_ hidx

/-- The poller after the first branch of `updateChannel`. -/
def added (p : Poller) (c : ChannelPtr) : Poller :=
  let ch := p.channel c
  (({ p with pollfds_ := p.pollfds_ ++ [⟨ch.fd_, ch.events_.setWidth 16, 0⟩] } : Poller).setChannel c
    { ch with index_ := p.pollfds_.length }).setEntry ch.fd_ (some c)

theorem channel_added_self (p : Poller) (c : ChannelPtr) :
    (p.added c).channel c = { p.channel c with index_ := p.pollfds_.length } :=
  channel_setChannel_self _ _ _

theorem channel_added_ne (p : Poller) {c d : ChannelPtr} (h : d ≠ c) :
    (p.added c).channel d = p.channel d :=
  channel_setChannel_ne _ _ h

theorem addEntry_eq (h : p.channels_ (p.channel c).fd_ = none) :
    p.addEntry c = .ok (p.added c) := by
  unfold addEntry
  dsimp only [MuduoNet.assert]
  rw [demand_true h]
  have hidx : ((p.pollfds_ ++ [(⟨(p.channel c).fd_, (p.channel c).events_.setWidth 16, 0⟩ :
      Pollfd)]).length : Int) - 1 = p.pollfds_.length := by
    rw [List.length_append, List.length_singleton]
    omega
  dsimp only [ok_bind]
  rw [hidx]
  rfl

/-- The entry of `c` after the second branch of `updateChannel`. -/
def rewritten (pfd : Pollfd) (ch : Channel) : Pollfd :=
  { fd := if ch.isNoneEvent then -ch.fd_ - 1 else pfd.fd
    events := ch.events_.setWidth 16
    revents := 0 }

theorem changeEntry_eq (h : Owned fd p owners) (hc : c ∈ owners) {i : Nat} {pfd : Pollfd}
    (hidx : (p.channel c).index_ = i) (hpfd : p.pollfds_[i]? = some pfd) :
    p.changeEntry c = .ok { p with pollfds_ := p.pollfds_.set i (rewritten pfd (p.channel c)) } := by
  obtain ⟨j, pfd', hidx', hlt, _, hpfd', hentry⟩ := h.cell hc
  obtain rfl : i = j := by omega
  obtain rfl := Option.some.inj (hpfd.symm.trans hpfd')
  have hmap := h.channels_fd hc
  have hfd : pfd.fd = (p.channel c).fd_ ∨ pfd.fd = -(p.channel c).fd_ - 1 := by
    rw [h.fd_eq]
    exact hentry
  unfold changeEntry
  dsimp only [MuduoNet.assert]
  rw [hmap, demand_true (by intro hn; cases hn), demand_true rfl, hidx, demand_true (by omega)]
  dsimp only [ok_bind]
  rw [Int.toNat_natCast, hpfd]
  dsimp only
  rw [demand_true hfd]
  by_cases hnone : (p.channel c).isNoneEvent = true
  · simp only [ok_bind, hnone, if_true, rewritten]
    rfl
  · rw [Bool.not_eq_true] at hnone
    simp only [ok_bind, hnone, rewritten]
    rfl

/-- The descriptor of the last entry, decoded if it was negated, leads to its channel `d`. -/
theorem moveLast_eq (h : Owned fd p owners) (hc : c ∈ owners) {d : ChannelPtr} (hd : d ∈ owners)
    (hdc : d ≠ c) {back : Pollfd} (hback : EntryFd fd back d) (i : Nat) :
    (p.setEntry (p.channel c).fd_ none).moveLast i back =
      .ok (({ p.setEntry (p.channel c).fd_ none with pollfds_ := swapRemove p.pollfds_ i } :
        Poller).setChannel d { p.channel d with index_ := i }) := by
  have hnonneg := h.nonneg d hd
  have hdecoded : (if back.fd < 0 then -(back.fd + 1) else back.fd) = fd d := by
    rcases hback with hreal | hneg
    · rw [hreal, if_neg (by omega)]
    · rw [hneg, if_pos (by omega)]
      omega
  have hfd_ne : fd d ≠ fd c := by
    intro heq
    exact hdc (h.fd_inj hd hc heq)
  have hmap : (p.setEntry (p.channel c).fd_ none).channels_ (fd d) = some d := by
    rw [h.fd_eq]
    exact (if_neg hfd_ne).trans ((h.channels _ _).mpr ⟨hd, rfl⟩)
  unfold moveLast
  dsimp only
  rw [hdecoded, hmap]
  rfl

/-- What `removeChannel` makes of the poller: the last entry moves to the hole `i`, and its
channel `d` learns the index `i`. -/
theorem removeChannel_eq (h : Owned fd p owners) (hc : c ∈ owners)
    (hnone : (p.channel c).isNoneEvent = true) :
    ∃ (i : Nat) (d : ChannelPtr) (q : Poller), p.removeChannel c = .ok q ∧
      (p.channel c).index_ = i ∧ owners[i]? = some c ∧ owners[owners.length - 1]? = some d ∧
      q.pollfds_ = swapRemove p.pollfds_ i ∧
      q.channels_ = (p.setEntry (fd c) none).channels_ ∧
      q.channel = if i = owners.length - 1 then p.channel
        else (p.setChannel d { p.channel d with index_ := i }).channel := by
  obtain ⟨i, pfd, hidx, hlt, hi, hpfd, hentry⟩ := h.cell hc
  have hlen := h.length
  have hmap := h.channels_fd hc
  have hfd : pfd.fd = (p.channel c).fd_ ∨ pfd.fd = -(p.channel c).fd_ - 1 := by
    rw [h.fd_eq]
    exact hentry
  have hne : p.pollfds_ ≠ [] := List.ne_nil_of_length_pos (by omega)
  have hlast : owners.length - 1 < owners.length := by omega
  have hd := List.getElem?_eq_getElem hlast
  have hback := List.getLast?_eq_some_getLast hne
  have hback' : p.pollfds_[owners.length - 1]? = some (p.pollfds_.getLast hne) := by
    rw [← hlen, ← List.getLast?_eq_getElem?, hback]
  refine ⟨i, owners[owners.length - 1], ?_⟩
  unfold removeChannel
  dsimp only [MuduoNet.assert]
  rw [hmap, demand_true (by intro hn; cases hn), demand_true rfl, demand_true hnone, hidx,
    demand_true (by omega)]
  dsimp only [ok_bind]
  rw [Int.toNat_natCast, hpfd, hback]
  dsimp only
  rw [demand_true hfd]
  dsimp only [ok_bind]
  by_cases hil : i = owners.length - 1
  · rw [if_pos (by exact hil.trans (by rw [← hlen]; rfl)), if_pos hil]
    refine ⟨_, rfl, rfl, hi, hd, ?_, by rw [h.fd_eq], rfl⟩
    rw [hil, ← hlen, swapRemove_last hne]
    rfl
  · have hback_fd := (forall₂_iff_getElem?.mp h.entries).2 _ _ _ hback' hd
    have hd_mem : owners[owners.length - 1] ∈ owners := List.getElem_mem hlast
    have hd_ne : owners[owners.length - 1] ≠ c := by
      intro hdc
      have hidx' := h.backed _ _ hd
      rw [hdc] at hidx'
      simp only at hidx'
      omega
    rw [if_neg (by intro hc'; exact hil (hc'.trans (by rw [← hlen]; rfl))), if_neg hil]
    exact ⟨_, moveLast_eq h hc hd_mem hd_ne hback_fd i, rfl, hi, hd, rfl, by rw [h.fd_eq]; rfl, rfl⟩

theorem Owned.not_found (h : Owned fd p owners) (hfree : ∀ d ∈ owners, fd d ≠ fd c) :
    p.channels_ (p.channel c).fd_ = none := by
  rw [h.fd_eq]
  cases hd : p.channels_ (fd c) with
  | none => rfl
  | some d =>
    obtain ⟨hmem, hfd⟩ := (h.channels _ _).mp hd
    exact absurd hfd (hfree d hmem)

theorem Owned.added (h : Owned fd p owners) (hnonneg : 0 ≤ fd c)
    (hfree : ∀ d ∈ owners, fd d ≠ fd c) : Owned fd (p.added c) (owners ++ [c]) := by
  have hnew : ∀ d ∈ owners, d ≠ c := by
    intro d hd hdc
    exact hfree d hd (by rw [hdc])
  constructor
  · intro d
    by_cases hd : d = c
    · subst hd
      rw [channel_added_self, h.fd_eq]
    · rw [channel_added_ne p hd, h.fd_eq]
  · intro d hd
    rcases List.mem_append.mp hd with hd | hd
    · exact h.nonneg d hd
    · rw [List.mem_singleton.mp hd]
      exact hnonneg
  · apply h.backed.concat
    · intro d hd
      rw [channel_added_ne p (hnew d hd)]
    · rw [channel_added_self, h.length]
  · apply List.rel_append h.entries
    exact .cons (Or.inl (h.fd_eq c)) .nil
  · intro f d
    show (if f = (p.channel c).fd_ then some c else p.channels_ f) = some d ↔ _
    rw [h.fd_eq, List.mem_append, List.mem_singleton]
    by_cases hf : f = fd c
    · rw [if_pos hf]
      constructor
      · intro hcd
        obtain rfl := Option.some.inj hcd
        exact ⟨Or.inr rfl, hf.symm⟩
      · intro ⟨hmem, hfd⟩
        rcases hmem with hmem | rfl
        · exact absurd (hfd.trans hf) (hfree d hmem)
        · rfl
    · rw [if_neg hf, h.channels]
      constructor
      · intro ⟨hmem, hfd⟩
        exact ⟨Or.inl hmem, hfd⟩
      · intro ⟨hmem, hfd⟩
        rcases hmem with hmem | rfl
        · exact ⟨hmem, hfd⟩
        · exact absurd hfd.symm hf

theorem Owned.rewritten (h : Owned fd p owners) {i : Nat} {pfd : Pollfd} (hi : owners[i]? = some c)
    (hpfd : p.pollfds_[i]? = some pfd) :
    Owned fd { p with pollfds_ := p.pollfds_.set i (rewritten pfd (p.channel c)) } owners := by
  refine h.congr (fun _ => rfl) (fun _ => rfl) ?_ rfl
  apply forall₂_set h.entries
  · intro x d hx hd hR
    obtain rfl := Option.some.inj (hi.symm.trans hd)
    obtain rfl := Option.some.inj (hpfd.symm.trans hx)
    show (if _ then _ else _) = _ ∨ (if _ then _ else _) = _
    rw [h.fd_eq]
    split
    · exact Or.inr rfl
    · exact hR
  · intro j x d _ _ hR
    exact hR

theorem Owned.applied (h : Owned fd p owners) (c : ChannelPtr) (op : ChannelOp) :
    Owned fd (p.setChannel c (op.apply (p.channel c))) owners := by
  apply h.setChannel
  · rw [ChannelOp.fd_apply, h.fd_eq]
  · rw [ChannelOp.index_apply]

/-- A channel's first operation registers it. -/
theorem change_new (h : Owned fd p owners) (op : ChannelOp) (hidx : (p.channel c).index_ < 0)
    (hfree : ∀ d ∈ owners, fd d ≠ fd c) :
    p.change c op = .ok ((p.setChannel c (op.apply (p.channel c))).added c) := by
  unfold change updateChannel
  rw [channel_setChannel_self, ChannelOp.index_apply, if_pos hidx]
  exact addEntry_eq ((h.applied c op).not_found hfree)

/-- A later operation of a channel rewrites its entry. -/
theorem change_registered (h : Owned fd p owners) (op : ChannelOp) (hc : c ∈ owners) {i : Nat}
    {pfd : Pollfd} (hidx : (p.channel c).index_ = i) (hpfd : p.pollfds_[i]? = some pfd) :
    p.change c op = .ok { p.setChannel c (op.apply (p.channel c)) with
      pollfds_ := p.pollfds_.set i (rewritten pfd (op.apply (p.channel c))) } := by
  have hidx' : ((p.setChannel c (op.apply (p.channel c))).channel c).index_ = i := by
    rw [channel_setChannel_self, ChannelOp.index_apply, hidx]
  unfold change updateChannel
  rw [hidx', if_neg (by omega), changeEntry_eq (h.applied c op) hc hidx' hpfd,
    channel_setChannel_self]
  rfl

/-- An operation of a channel, registered or new to the poller: it keeps the list, and touches
no other channel. -/
theorem change_owned (h : Owned fd p owners) (op : ChannelOp)
    (hc : c ∈ owners ∨ ((p.channel c).index_ < 0 ∧ 0 ≤ fd c ∧ ∀ d ∈ owners, fd d ≠ fd c)) :
    ∃ q owners', p.change c op = .ok q ∧ Owned fd q owners' ∧
      (∀ d, d ∈ owners' ↔ d ∈ owners ∨ d = c) ∧
      (q.channel c).events_ = (op.apply (p.channel c)).events_ ∧
      ∀ d, d ≠ c → q.channel d = p.channel d := by
  by_cases hmem : c ∈ owners
  · obtain ⟨i, pfd, hidx, _, hi, hpfd, _⟩ := h.cell hmem
    refine ⟨_, owners, change_registered h op hmem hidx hpfd, ?_, ?_, ?_, ?_⟩
    · have hrew := (h.applied c op).rewritten hi hpfd
      rw [channel_setChannel_self] at hrew
      exact hrew
    · intro d
      constructor
      · exact Or.inl
      · intro hd
        rcases hd with hd | rfl
        · exact hd
        · exact hmem
    · exact congrArg Channel.events_ (channel_setChannel_self p c _)
    · intro d hd
      exact channel_setChannel_ne p _ hd
  · obtain ⟨hneg, hnonneg, hfree⟩ := hc.resolve_left hmem
    refine ⟨_, owners ++ [c], change_new h op hneg hfree, (h.applied c op).added hnonneg hfree,
      ?_, ?_, ?_⟩
    · intro d
      rw [List.mem_append, List.mem_singleton]
    · rw [channel_added_self, channel_setChannel_self]
    · intro d hd
      rw [channel_added_ne _ hd, channel_setChannel_ne p _ hd]

theorem removeChannel_owned (h : Owned fd p owners) (hc : c ∈ owners)
    (hnone : (p.channel c).isNoneEvent = true) :
    ∃ q owners', p.removeChannel c = .ok q ∧ Owned fd q owners' ∧
      (∀ e, e ∈ owners' ↔ e ∈ owners ∧ e ≠ c) ∧
      (∀ e, (q.channel e).events_ = (p.channel e).events_ ∧
        (e ∉ owners → q.channel e = p.channel e)) ∧
      ∀ R : Pollfd → ChannelPtr → Prop,
        List.Forall₂ R p.pollfds_ owners → List.Forall₂ R q.pollfds_ owners' := by
  obtain ⟨i, d, q, hq, hidx, hi, hd, hpollfds, hchannels, hchannel⟩ := removeChannel_eq h hc hnone
  obtain ⟨hlt, _⟩ := List.getElem?_eq_some_iff.mp hi
  have hmem := mem_swapRemove h.backed.nodup hi
  have hsame : ∀ e, e ≠ d → q.channel e = p.channel e := by
    intro e he
    rw [hchannel]
    split
    · rfl
    · exact channel_setChannel_ne _ _ he
  have hrealign : ∀ R : Pollfd → ChannelPtr → Prop, List.Forall₂ R p.pollfds_ owners →
      List.Forall₂ R q.pollfds_ (swapRemove owners i) := by
    intro R hR
    rw [hpollfds]
    exact forall₂_swapRemove hR hlt
  refine ⟨q, swapRemove owners i, hq, ⟨?_, ?_, ?_, hrealign _ h.entries, ?_⟩, hmem, ?_, hrealign⟩
  · intro e
    rw [hchannel, ← h.fd_eq e]
    split
    · rfl
    · apply field_setChannel Channel.fd_
      rfl
  · intro e he
    exact h.nonneg e ((hmem e).mp he).1
  · apply h.backed.swapRemove hlt hd
    · intro e _ hed
      rw [hsame e hed]
    · intro hil
      rw [hchannel, if_neg hil, channel_setChannel_self]
  · intro f e
    rw [hchannels, hmem]
    show (if f = fd c then none else p.channels_ f) = some e ↔ _
    by_cases hf : f = fd c
    · rw [if_pos hf]
      constructor
      · intro hn
        cases hn
      · intro ⟨⟨he, hne⟩, hfe⟩
        exact absurd (h.fd_inj he hc (hfe.trans hf)) hne
    · rw [if_neg hf, h.channels]
      constructor
      · intro ⟨he, hfe⟩
        refine ⟨⟨he, ?_⟩, hfe⟩
        intro hec
        subst hec
        exact hf hfe.symm
      · intro ⟨⟨he, _⟩, hfe⟩
        exact ⟨he, hfe⟩
  · intro e
    constructor
    · rw [hchannel]
      split
      · rfl
      · apply field_setChannel Channel.events_
        rfl
    · intro he
      apply hsame
      intro hed
      exact he (hed ▸ List.mem_of_getElem? hd)

/-- The channels of the entries with a positive `revents`, in the order of the entries. -/
def reported (entries : List Pollfd) (owners : List ChannelPtr) : List ChannelPtr :=
  ((entries.zip owners).filter (fun e => 0 < e.1.revents.toInt)).map Prod.snd

theorem reported_cons_pos {it : Pollfd} (hpos : 0 < it.revents.toInt) (c : ChannelPtr)
    (entries : List Pollfd) (owners : List ChannelPtr) :
    reported (it :: entries) (c :: owners) = c :: reported entries owners := by
  simp [reported, hpos]

theorem reported_cons_neg {it : Pollfd} (hpos : ¬ 0 < it.revents.toInt) (c : ChannelPtr)
    (entries : List Pollfd) (owners : List ChannelPtr) :
    reported (it :: entries) (c :: owners) = reported entries owners := by
  simp [reported, hpos]

theorem reported_sublist (entries : List Pollfd) (owners : List ChannelPtr) :
    (reported entries owners).Sublist owners := by
  induction entries generalizing owners with
  | nil => exact List.nil_sublist _
  | cons it entries ih =>
    cases owners with
    | nil => exact List.nil_sublist _
    | cons c owners =>
      unfold reported
      rw [List.zip_cons_cons, List.filter_cons]
      split
      · exact (ih owners).cons_cons c
      · exact (ih owners).cons c

theorem fillFrom_zero (active : List ChannelPtr) (entries : List Pollfd) :
    p.fillFrom 0 active entries = .ok (p, active) := by
  cases entries with
  | nil => rfl
  | cons it entries => rw [fillFrom, if_neg (Int.lt_irrefl 0)]

/-- The loop of `fillActiveChannels`: every entry with events has its channel in the map, the
count is that of the entries with events, and each channel gets the events of its entry. -/
theorem fillFrom_spec {entries : List Pollfd} (hnd : owners.Nodup)
    (hmap : List.Forall₂ (fun it c => 0 < it.revents.toInt →
      p.channels_ it.fd = some c ∧ (p.channel c).fd_ = it.fd) entries owners)
    (active : List ChannelPtr) :
    ∃ q, p.fillFrom (entries.countP (fun it => 0 < it.revents.toInt)) active entries =
        .ok (q, active ++ reported entries owners) ∧
      q.pollfds_ = p.pollfds_ ∧ q.channels_ = p.channels_ ∧
      (∀ c ∉ reported entries owners, q.channel c = p.channel c) ∧
      List.Forall₂ (fun it c => 0 < it.revents.toInt →
        q.channel c = { p.channel c with revents_ := it.revents.signExtend 32 }) entries owners := by
  induction entries generalizing p owners active with
  | nil =>
    cases hmap
    refine ⟨p, ?_, rfl, rfl, fun _ _ => rfl, .nil⟩
    rw [fillFrom, reported, List.zip_nil_left, List.filter_nil, List.map_nil, List.append_nil]
  | cons it entries ih =>
    obtain _ | @⟨_, c, _, owners, hhead, htail⟩ := hmap
    obtain ⟨hc, hnd'⟩ := List.nodup_cons.mp hnd
    by_cases hpos : 0 < it.revents.toInt
    · obtain ⟨hfind, hfd⟩ := hhead hpos
      let p' := p.setChannel c { p.channel c with revents_ := it.revents.signExtend 32 }
      have hfd' : ∀ d, (p'.channel d).fd_ = (p.channel d).fd_ := field_setChannel Channel.fd_ rfl
      have htail' : List.Forall₂ (fun it c => 0 < it.revents.toInt →
          p'.channels_ it.fd = some c ∧ (p'.channel c).fd_ = it.fd) entries owners := by
        refine htail.imp ?_
        intro it' d hmap' hpos'
        rw [hfd']
        exact hmap' hpos'
      obtain ⟨q, hq, hpoll, hchan, hrest, hset⟩ := ih (p := p') hnd' htail' (active ++ [c])
      have hrep := reported_cons_pos hpos c entries owners
      have hcnot : c ∉ reported entries owners := by
        intro hmem
        exact hc ((reported_sublist _ _).subset hmem)
      refine ⟨q, ?_, hpoll, hchan, ?_, .cons ?_ ?_⟩
      · rw [List.countP_cons_of_pos (by simpa using hpos), fillFrom, if_pos (by omega), if_pos hpos,
          hfind]
        dsimp only [MuduoNet.assert]
        rw [demand_true hfd, Int.natCast_succ, Int.add_sub_cancel, hrep]
        dsimp only [ok_bind]
        rw [hq, List.append_assoc]
        rfl
      · intro d hd
        rw [hrep, List.mem_cons, not_or] at hd
        rw [hrest d hd.2]
        exact channel_setChannel_ne _ _ hd.1
      · intro _
        rw [hrest c hcnot]
        exact channel_setChannel_self _ _ _
      · rw [forall₂_iff_getElem?] at hset ⊢
        refine ⟨hset.1, ?_⟩
        intro i it' d hit hd hpos'
        have hdc : d ≠ c := by
          intro hdc
          subst hdc
          exact hc (List.mem_of_getElem? hd)
        rw [hset.2 i it' d hit hd hpos']
        rw [show p'.channel d = p.channel d from channel_setChannel_ne _ _ hdc]
    · obtain ⟨q, hq, hpoll, hchan, hrest, hset⟩ := ih hnd' htail active
      have hrep := reported_cons_neg hpos c entries owners
      refine ⟨q, ?_, hpoll, hchan, ?_, .cons ?_ hset⟩
      · rw [List.countP_cons_of_neg (by simpa using hpos), fillFrom]
        by_cases hzero : 0 < (entries.countP (fun it => 0 < it.revents.toInt) : Int)
        · rw [if_pos hzero, if_neg hpos, hrep, hq]
        · -- nothing is left to find: the loop stops before the last entries
          have h0 : entries.countP (fun it => 0 < it.revents.toInt) = 0 := by omega
          rw [h0, Int.natCast_zero, fillFrom_zero] at hq
          rw [if_neg hzero, hrep, hq]
      · rw [hrep]
        exact hrest
      · intro hpos'
        exact absurd hpos' hpos

theorem mem_reported {entries : List Pollfd} :
    c ∈ reported entries owners ↔ ∃ (i : Nat) (it : Pollfd),
      entries[i]? = some it ∧ owners[i]? = some c ∧ 0 < it.revents.toInt := by
  unfold reported
  constructor
  · intro h
    obtain ⟨⟨it, d⟩, he, rfl⟩ := List.mem_map.mp h
    obtain ⟨hmem, hpos⟩ := List.mem_filter.mp he
    obtain ⟨i, hi⟩ := List.mem_iff_getElem?.mp hmem
    obtain ⟨hit, hd⟩ := List.getElem?_zip_eq_some.mp hi
    exact ⟨i, it, hit, hd, by simpa using hpos⟩
  · intro ⟨i, it, hit, hc, hpos⟩
    apply List.mem_map.mpr
    refine ⟨(it, c), List.mem_filter.mpr ⟨?_, by simpa using hpos⟩, rfl⟩
    exact List.mem_of_getElem? (List.getElem?_zip_eq_some.mpr ⟨hit, hc⟩)

theorem length_reported {entries : List Pollfd} (h : entries.length = owners.length) :
    (reported entries owners).length = entries.countP (fun it => 0 < it.revents.toInt) := by
  induction entries generalizing owners with
  | nil => rfl
  | cons it entries ih =>
    cases owners with
    | nil => cases h
    | cons c owners =>
      have ih' := ih (Nat.succ.inj h)
      unfold reported at ih' ⊢
      rw [List.zip_cons_cons, List.filter_cons]
      by_cases hpos : 0 < it.revents.toInt
      · rw [if_pos (by simpa using hpos), List.map_cons, List.length_cons, ih',
          List.countP_cons_of_pos (by simpa using hpos)]
      · rw [if_neg (by simpa using hpos), ih', List.countP_cons_of_neg (by simpa using hpos)]

/-- The entries with the events that `::poll` stored in them. -/
def polled (p : Poller) (revents : List (BitVec 16)) : List Pollfd :=
  List.zipWith (fun pfd r => { pfd with revents := r }) p.pollfds_ revents

/-- `::poll` returns the number of entries with events, and ignores the entries with a
negative descriptor. -/
def SetsRevents (p : Poller) (numEvents : Int) (revents : List (BitVec 16)) : Prop :=
  revents.length = p.pollfds_.length ∧
    numEvents = (p.polled revents).countP (fun it => 0 < it.revents.toInt) ∧
    ∀ it ∈ p.polled revents, 0 < it.revents.toInt → 0 ≤ it.fd

theorem getElem?_polled {revents : List (BitVec 16)} {i : Nat} {it : Pollfd} :
    (p.polled revents)[i]? = some it ↔ ∃ pfd r, p.pollfds_[i]? = some pfd ∧
      revents[i]? = some r ∧ it = { pfd with revents := r } := by
  unfold polled
  rw [List.getElem?_zipWith_eq_some]
  constructor
  · intro ⟨pfd, r, hpfd, hr, hit⟩
    exact ⟨pfd, r, hpfd, hr, hit.symm⟩
  · intro ⟨pfd, r, hpfd, hr, hit⟩
    exact ⟨pfd, r, hpfd, hr, hit.symm⟩

/-- `::poll` leaves the descriptors of the entries alone. -/
theorem Owned.entries_polled (h : Owned fd p owners) {revents : List (BitVec 16)}
    (hlen : revents.length = p.pollfds_.length) :
    List.Forall₂ (EntryFd fd) (p.polled revents) owners := by
  have hall := forall₂_iff_getElem?.mp h.entries
  rw [forall₂_iff_getElem?]
  constructor
  · unfold polled
    rw [List.length_zipWith, hlen, h.length, Nat.min_self]
  · intro i it c hit hc
    obtain ⟨pfd, r, hpfd, _, rfl⟩ := getElem?_polled.mp hit
    exact hall.2 i pfd c hpfd hc

/-- An entry with events is not negated, and `channels_` leads from it to its channel. -/
theorem Owned.mapped (h : Owned fd p owners) {numEvents : Int} {revents : List (BitVec 16)}
    (hset : p.SetsRevents numEvents revents) :
    List.Forall₂ (fun it c => 0 < it.revents.toInt →
      p.channels_ it.fd = some c ∧ (p.channel c).fd_ = it.fd) (p.polled revents) owners := by
  obtain ⟨hlen, _, hreal⟩ := hset
  have hentries := forall₂_iff_getElem?.mp (h.entries_polled hlen)
  rw [forall₂_iff_getElem?]
  refine ⟨hentries.1, ?_⟩
  intro i it c hit hc hpos
  have hfd := hreal it (List.mem_of_getElem? hit) hpos
  have hmem := List.mem_of_getElem? hc
  have hcfd : it.fd = fd c := by
    have hnonneg := h.nonneg c hmem
    rcases hentries.2 i it c hit hc with hfd' | hfd'
    · exact hfd'
    · omega
  rw [hcfd, h.fd_eq]
  exact ⟨(h.channels _ _).mpr ⟨hmem, rfl⟩, rfl⟩

/-- A successful `poll` reports the owners of the entries with events and stores their events
in them; it changes nothing else but the `revents` of the entries. -/
theorem poll_owned (h : Owned fd p owners) {numEvents : Int} {revents : List (BitVec 16)}
    (hset : p.SetsRevents numEvents revents) :
    ∃ q, p.poll numEvents revents = .ok (q, reported (p.polled revents) owners) ∧
      Owned fd q owners ∧ q.pollfds_ = p.polled revents ∧
      (∀ c, (q.channel c).events_ = (p.channel c).events_) ∧
      (∀ c ∉ owners, q.channel c = p.channel c) ∧
      List.Forall₂ (fun it c => 0 < it.revents.toInt →
        (q.channel c).revents_ = it.revents.signExtend 32) (p.polled revents) owners := by
  have hmap := h.mapped hset
  obtain ⟨hlen, hcount, _⟩ := hset
  obtain ⟨q, hq, hpoll, hchan, hrest, hset⟩ :=
    fillFrom_spec (p := { p with pollfds_ := p.polled revents }) h.backed.nodup hmap []
  have hkept : ∀ c, (q.channel c).fd_ = (p.channel c).fd_ ∧
      (q.channel c).index_ = (p.channel c).index_ ∧ (q.channel c).events_ = (p.channel c).events_ := by
    intro c
    by_cases hc : c ∈ reported (p.polled revents) owners
    · obtain ⟨i, it, hit, hi, hpos⟩ := mem_reported.mp hc
      rw [(forall₂_iff_getElem?.mp hset).2 i it c hit hi hpos]
      exact ⟨rfl, rfl, rfl⟩
    · rw [hrest c hc]
      exact ⟨rfl, rfl, rfl⟩
  refine ⟨q, ?_, h.congr (fun c => (hkept c).1) (fun c => (hkept c).2.1) ?_ hchan, hpoll,
    fun c => (hkept c).2.2, ?_, ?_⟩
  · unfold poll
    rw [hcount]
    dsimp only
    split
    · exact hq
    · rename_i hzero
      have h0 : (p.polled revents).countP (fun it => 0 < it.revents.toInt) = 0 := by omega
      rw [h0, Int.natCast_zero, fillFrom_zero] at hq
      exact hq
  · rw [hpoll]
    exact h.entries_polled hlen
  · intro c hc
    apply hrest
    intro hmem
    exact hc ((reported_sublist _ _).subset hmem)
  · refine hset.imp ?_
    intro it c hch hpos
    rw [hch hpos]

end

end Poller

end MuduoNet
