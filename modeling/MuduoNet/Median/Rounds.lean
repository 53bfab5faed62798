import MuduoNet.Median.Collector
import MuduoNet.Lib.Potential
import Mathlib.Data.List.Perm.Basic

/-!
# The collector and its threads

`run` is the main thread: it issues the calls of a round one after the other and waits for the
latch. The replies are handled on the loop thread, from the first call on and in any order, while the
main thread is still sending. Each sorter answers each call once.
-/
namespace MuduoNet.Median

open Lib Lib.Outcome Lib.Words

/-- A call that a sorter has not answered, and what its closure is. -/
inductive SorterCall
  | query (sorter : SorterImpl)
  | search (sorter : SorterImpl) (guess : Int64)

/-- `QueryDone` or `SearchDone` on the reply. -/
def SorterCall.done (c : Collector) : SorterCall → Collector
  | .query sorter => c.QueryDone sorter.Query
  | .search sorter guess => c.SearchDone (sorter.Search guess)

/-- The round that the main thread is in: `getStats`, or a `search` of `getKth` with the local
variables of that loop. -/
inductive Round
  | stats
  | search (k : Int64) (left : Nat) (guess min max : Int64)

def Round.call (sorter : SorterImpl) : Round → SorterCall
  | .stats => .query sorter
  | .search _ _ guess _ _ => .search sorter guess

/-- Where the main thread is: in a round, with the sorters it has not called yet, or at the end. -/
inductive MainPc
  | round (r : Round) (unsent : List SorterImpl)
  | reported (r : Except Fault Report)

structure Collecting where
  collector : Collector
  pc : MainPc
  calls : List SorterCall

namespace Collecting

variable {sorters : List SorterImpl}

/-- `while (min <= max)`, and the beginning of `search`. -/
def bisect (sorters : List SorterImpl) (c : Collector) (k : Int64) (left : Nat)
    (guess min max : Int64) : Collector × MainPc :=
  if min ≤ max then
    ({ c with smaller_ := 0, same_ := 0 }.latched sorters.length,
      .round (.search k left guess min max) sorters)
  else (c, .reported (.ok .notFound))

/-- Behind `latch_->wait()`. -/
def proceed (sorters : List SorterImpl) (c : Collector) : Round → Collector × MainPc
  | .stats =>
    let count := c.result_.count
    if count ≤ 0 then (c, .reported (.ok .noMedian))
    else bisect sorters c ((count + 1) / 2) 100 c.result_.max c.result_.min c.result_.max
  | .search k left guess min max =>
    let q : Query := ⟨guess, c.smaller_, c.same_⟩
    match left with
    | 0 => (c, .reported (.ok .notFound))
    | left + 1 =>
      if q.Hits k then (c, .reported (.ok (.median guess)))
      else match narrow k q min max with
        | none => (c, .reported (.ok .notFound))
        | some (min, max) =>
          let guess := Int64.midpoint min max
          if min ≤ guess ∧ guess ≤ max then bisect sorters c k left guess min max
          else (c, .reported (.error .assertion))

def start (sorters : List SorterImpl) : Collecting :=
  ⟨Collector.fresh.initial.latched sorters.length, .round .stats sorters, []⟩

inductive Label
  /-- The next call of the round. -/
  | send
  /-- The reply to one of the calls is handled. -/
  | reply (i : Nat)
  /-- `latch_->wait()` returns. -/
  | wake
  deriving DecidableEq, Repr

def Enabled (s : Collecting) : Label → Prop
  | .send => match s.pc with
    | .round _ (_ :: _) => True
    | _ => False
  | .reply i => i < s.calls.length
  | .wake => match s.pc with
    | .round _ [] => s.collector.latch_ ≤ 0
    | _ => False

def step (sorters : List SorterImpl) (s : Collecting) : Label → Collecting
  | .send => match s.pc with
    | .round r (sorter :: unsent) =>
      { s with pc := .round r unsent, calls := s.calls ++ [r.call sorter] }
    | _ => s
  | .reply i => match s.calls[i]? with
    | some call => { s with collector := call.done s.collector, calls := s.calls.eraseIdx i }
    | none => s
  | .wake => match s.pc with
    | .round r _ =>
      let (collector, pc) := proceed sorters s.collector r
      { s with collector, pc }
    | _ => s

def machine (sorters : List SorterImpl) : Machine Collecting Label Fault where
  enabled := Enabled
  step s l := .ok (step sorters s l)

end Collecting

namespace Collector

variable {net : Network} {c : Collector} {g : Int64}

/-- The statistics come out the same in either order. -/
theorem QueryDone_comm (c : Collector) (a b : QueryResponse) :
    (c.QueryDone a).QueryDone b = (c.QueryDone b).QueryDone a := by
  unfold QueryDone
  grind

theorem SearchDone_comm (c : Collector) (a b : SearchResponse) :
    (c.SearchDone a).SearchDone b = (c.SearchDone b).SearchDone a := by
  simp only [SearchDone, Int64.add_assoc, Int64.add_comm a.smaller, Int64.add_comm a.same]

/-- A round in which the replies of all sorters have been handled, in any order, is a round of `wait`
in the order of `net`. -/
theorem wait_eq_of_perm {ρ : Type} {done : Collector → ρ → Collector} (reply : SorterImpl → ρ)
    (hcomm : ∀ c a b, done (done c a) b = done (done c b) a)
    (hdone : ∀ c r, (done c r).latch_ = c.latch_ - 1) (hargc : net.sorters_.length < 2 ^ 31)
    {ss : List SorterImpl} (hss : ss.Perm net.sorters_) (round : Nat) :
    wait done (c.latched net.sorters_.length) ((net.arrival round).map reply) =
      (ss.map reply).foldl done (c.latched net.sorters_.length) := by
  rw [(wait_eq done hdone (latched_eq c hargc round reply)).1]
  exact (((net.arrives round).trans hss.symm).map reply).foldl_eq' (fun a _ b _ c => hcomm c a b) _

end Collector

/-- What a search finds does not depend on the state that the searches keep, so neither does what
`getKth` returns. -/
theorem getKthLoop_result {σ : Type} {search : Search σ} (h : ∀ s s' g, (search s g).1 = (search s' g).1)
    (k : Int64) (left : Nat) (s s' : σ) (guess min max : Int64) :
    (getKthLoop search k left s guess min max).result =
      (getKthLoop search k left s' guess min max).result := by
  induction left generalizing s s' guess min max with
  | zero =>
    unfold getKthLoop
    split <;> rfl
  | succ left ih =>
    have hasks : asks search s guess = asks search s' guess := by rw [asks, asks, h s s' guess]
    unfold getKthLoop
    split
    · dsimp only
      rw [hasks]
      split
      · rfl
      · split
        · rfl
        · split
          · exact ih _ _ _ _ _
          · rfl
    · rfl

namespace Collecting

variable {net : Network} {s t : Collecting} {l : Label} {c : Collector} {r : Round}

theorem search_result (hargc : net.sorters_.length < 2 ^ 31) {ss : List SorterImpl}
    (hss : ss.Perm net.sorters_) (hsmaller : c.smaller_ = 0) (hsame : c.same_ = 0)
    (d : Collector × Nat) (g : Int64) :
    (Collector.search net d g).1 =
      (((ss.map (·.Search g)).foldl Collector.SearchDone (c.latched net.sorters_.length)).smaller_,
        ((ss.map (·.Search g)).foldl Collector.SearchDone (c.latched net.sorters_.length)).same_) := by
  obtain ⟨d, round⟩ := d
  have hwait := Collector.wait_eq_of_perm (c := { d with smaller_ := 0, same_ := 0 }) (·.Search g)
    Collector.SearchDone_comm (fun _ _ => rfl) hargc hss round
  rw [Collector.search]
  dsimp only
  rw [hwait, Collector.foldl_SearchDone, Collector.foldl_SearchDone]
  simp [Collector.latched, hsmaller, hsame]

/-- What is to come of the round `r`, begun with `c`. -/
def Promises (net : Network) (c : Collector) : Round → Prop
  | .stats => c = Collector.fresh.initial
  | .search k left guess min max => min ≤ max ∧ c.smaller_ = 0 ∧ c.same_ = 0 ∧
    Collector.report (some (getKthLoop (Collector.search net) k left (c, 1) guess min max)) =
      Collector.run net Collector.fresh

/-- Each sorter has answered the round, has been called, or is to be called. -/
structure Underway (net : Network) (s : Collecting) (r : Round) (unsent : List SorterImpl)
    (c : Collector) (arrived waiting : List SorterImpl) : Prop where
  calls : s.calls = waiting.map fun sorter => r.call sorter
  all : (arrived ++ waiting ++ unsent).Perm net.sorters_
  collector : s.collector = (arrived.map fun sorter => r.call sorter).foldl SorterCall.done
    (c.latched net.sorters_.length)
  promises : Promises net c r

def Inv (net : Network) (s : Collecting) : Prop :=
  match s.pc with
  | .round r unsent => ∃ c arrived waiting, Underway net s r unsent c arrived waiting
  | .reported report => s.calls = [] ∧ report = Collector.run net Collector.fresh

theorem latch_foldl (c : Collector) (calls : List SorterCall) :
    (calls.foldl SorterCall.done c).latch_ = c.latch_ - calls.length := by
  induction calls generalizing c with
  | nil => simp
  | cons call calls ih =>
    have hone : (call.done c).latch_ = c.latch_ - 1 := by cases call <;> rfl
    rw [List.foldl_cons, ih, hone, List.length_cons]
    omega

theorem bisect_inv {k : Int64} {left : Nat} {guess min max : Int64} {d : Collector × Nat}
    (hargc : net.sorters_.length < 2 ^ 31)
    (h : Collector.report (some (getKthLoop (Collector.search net) k left d guess min max)) =
      Collector.run net Collector.fresh) :
    Inv net ⟨(bisect net.sorters_ c k left guess min max).1,
      (bisect net.sorters_ c k left guess min max).2, []⟩ := by
  have hsame : ∀ d d' g, (Collector.search net d g).1 = (Collector.search net d' g).1 := by
    intro d d' g
    rw [search_result (c := Collector.fresh) hargc .rfl rfl rfl d g,
      search_result (c := Collector.fresh) hargc .rfl rfl rfl d' g]
  unfold bisect
  split
  · rename_i hle
    refine ⟨{ c with smaller_ := 0, same_ := 0 }, [], [], rfl, .rfl, rfl, hle, rfl, rfl, ?_⟩
    rw [← h, Collector.report, Collector.report, getKthLoop_result hsame]
  · rename_i hgt
    refine ⟨rfl, ?_⟩
    rw [← h, getKthLoop, if_neg hgt]
    rfl

theorem proceed_inv (hargc : net.sorters_.length < 2 ^ 31) {arrived : List SorterImpl}
    (harrived : arrived.Perm net.sorters_) (hr : Promises net c r) :
    ∀ d, (arrived.map fun sorter => r.call sorter).foldl SorterCall.done
      (c.latched net.sorters_.length) = d →
      Inv net ⟨(proceed net.sorters_ d r).1, (proceed net.sorters_ d r).2, []⟩ := by
  rintro d rfl
  cases r with
  | stats =>
    obtain rfl := hr
    have hstats : (arrived.map fun sorter => Round.stats.call sorter).foldl SorterCall.done
        (Collector.fresh.initial.latched net.sorters_.length) =
        Collector.getStats net Collector.fresh.initial := by
      have hwait := Collector.wait_eq_of_perm (c := Collector.fresh.initial) SorterImpl.Query
        Collector.QueryDone_comm (fun _ _ => rfl) hargc harrived 0
      rw [Collector.getStats, hwait, List.foldl_map, List.foldl_map]
      rfl
    rw [hstats]
    dsimp only [proceed]
    split
    · rename_i hnone
      refine ⟨rfl, ?_⟩
      rw [Collector.run, Collector.median, if_pos hnone]
      rfl
    · rename_i hsome
      apply bisect_inv hargc
      rw [Collector.run, Collector.median, if_neg hsome]
      rfl
  | search k left guess min max =>
    obtain ⟨hle, hsmaller, hsame, hreport⟩ := hr
    have hanswer := search_result hargc harrived hsmaller hsame (c, 1) guess
    rw [List.foldl_map] at hanswer ⊢
    generalize hd : arrived.foldl (fun d sorter => ((Round.search k left guess min max).call
      sorter).done d) (c.latched net.sorters_.length) = d
    have hq : asks (Collector.search net) (c, 1) guess = ⟨guess, d.smaller_, d.same_⟩ := by
      rw [asks, hanswer, ← hd]
      rfl
    rw [getKthLoop, if_pos hle] at hreport
    dsimp only at hreport
    rw [hq] at hreport
    cases left with
    | zero => exact ⟨rfl, hreport⟩
    | succ left =>
      dsimp only at hreport
      dsimp only [proceed]
      split
      · rename_i hhit
        rw [if_pos hhit] at hreport
        exact ⟨rfl, hreport⟩
      · rename_i hmiss
        rw [if_neg hmiss] at hreport
        split
        · rename_i hnarrow
          rw [hnarrow] at hreport
          exact ⟨rfl, hreport⟩
        · rename_i hnarrow
          rw [hnarrow] at hreport
          dsimp only at hreport
          split
          · rename_i hin
            rw [if_pos hin] at hreport
            exact bisect_inv hargc hreport
          · rename_i hout
            rw [if_neg hout] at hreport
            exact ⟨rfl, hreport⟩

theorem Underway.latch {unsent arrived waiting : List SorterImpl} (hargc : net.sorters_.length < 2 ^ 31)
    (h : Underway net s r unsent c arrived waiting) :
    s.collector.latch_ = waiting.length + unsent.length := by
  have hlatch : (c.latched net.sorters_.length).latch_ = net.sorters_.length :=
    signed_of_lt (by omega)
  have hall := h.all.length_eq
  rw [List.length_append, List.length_append] at hall
  rw [h.collector, latch_foldl, hlatch, List.length_map]
  omega

/-- The latch is down when every sorter has answered. -/
theorem Underway.latch_down_iff {arrived waiting : List SorterImpl}
    (hargc : net.sorters_.length < 2 ^ 31) (h : Underway net s r [] c arrived waiting) :
    s.collector.latch_ ≤ 0 ↔ waiting = [] := by
  rw [h.latch hargc, ← List.length_eq_zero_iff]
  exact ⟨fun hdown => by simpa using hdown, fun hnone => by simp [hnone]⟩

theorem inv_step (hargc : net.sorters_.length < 2 ^ 31) (h : Inv net s)
    (he : Enabled s l) : Inv net (step net.sorters_ s l) := by
  obtain ⟨collector, pc, calls⟩ := s
  cases pc with
  | reported report =>
    cases l with
    | reply i =>
      have hnone : calls = [] := h.1
      rw [hnone] at he
      exact absurd he (Nat.not_lt_zero _)
    | _ => exact he.elim
  | round r unsent =>
    obtain ⟨c, arrived, waiting, hcalls, hall, hcollector, hpromises⟩ := h
    dsimp only at hcalls hcollector
    cases l with
    | send =>
      cases unsent with
      | nil => exact he.elim
      | cons sorter unsent =>
        refine ⟨c, arrived, waiting ++ [sorter], ?_, ?_, hcollector, hpromises⟩
        · simp [hcalls, step]
        · simpa using hall
    | reply i =>
      have hi : i < waiting.length := by simpa [Enabled, hcalls] using he
      have hcall : calls[i]? = some (r.call waiting[i]) := by simp [hcalls, hi]
      have hperm : (waiting[i] :: waiting.eraseIdx i).Perm waiting := List.getElem_cons_eraseIdx_perm hi
      rw [step, hcall]
      refine ⟨c, arrived ++ [waiting[i]], waiting.eraseIdx i, ?_, ?_, ?_, hpromises⟩
      · simp [hcalls, List.eraseIdx_map]
      · have hmoved : (arrived ++ [waiting[i]] ++ waiting.eraseIdx i ++ unsent).Perm
            (arrived ++ waiting ++ unsent) := by
          rw [List.append_assoc arrived]
          exact (hperm.append_left arrived).append_right unsent
        exact hmoved.trans hall
      · simp [hcollector]
    | wake =>
      cases unsent with
      | cons sorter unsent => exact he.elim
      | nil =>
        have hunderway : Underway net ⟨collector, .round r [], calls⟩ r [] c arrived waiting :=
          ⟨hcalls, hall, hcollector, hpromises⟩
        obtain rfl := (hunderway.latch_down_iff hargc).mp he
        obtain rfl := hcalls
        rw [List.append_nil, List.append_nil] at hall
        exact proceed_inv hargc hall hpromises _ hcollector.symm

/-- The rounds that can still follow. -/
def Round.left : Round → Nat
  | .stats => 101
  | .search _ left _ _ _ => left

/-- A round takes two steps for each sorter, and one. -/
def rank (n : Nat) (s : Collecting) : Nat :=
  match s.pc with
  | .round r unsent => Round.left r * (2 * n + 1) + 2 * unsent.length + s.calls.length + 1
  | .reported _ => 0

theorem rank_proceed (sorters : List SorterImpl) (c : Collector) (r : Round) :
    rank sorters.length ⟨(proceed sorters c r).1, (proceed sorters c r).2, []⟩ ≤
      Round.left r * (2 * sorters.length + 1) := by
  have hbisect : ∀ (c : Collector) (k guess min max : Int64) (left : Nat),
      rank sorters.length ⟨(bisect sorters c k left guess min max).1,
        (bisect sorters c k left guess min max).2, []⟩ ≤ (left + 1) * (2 * sorters.length + 1) := by
    intro c k guess min max left
    unfold bisect
    split
    · simp only [rank, Round.left, List.length_nil, Nat.add_mul]
      omega
    · exact Nat.zero_le _
  cases r with
  | stats =>
    dsimp only [proceed]
    split
    · exact Nat.zero_le _
    · exact hbisect _ _ _ _ _ _
  | search k left guess min max =>
    cases left with
    | zero => exact Nat.zero_le _
    | succ left =>
      dsimp only [proceed]
      split
      · exact Nat.zero_le _
      · split
        · exact Nat.zero_le _
        · split
          · exact hbisect _ _ _ _ _ _
          · exact Nat.zero_le _

theorem rank_step (hargc : net.sorters_.length < 2 ^ 31) (h : Inv net s) (he : Enabled s l) :
    1 + rank net.sorters_.length (step net.sorters_ s l) ≤ rank net.sorters_.length s := by
  obtain ⟨collector, pc, calls⟩ := s
  cases pc with
  | reported report =>
    cases l with
    | reply i =>
      have hnone : calls = [] := h.1
      rw [hnone] at he
      exact absurd he (Nat.not_lt_zero _)
    | _ => exact he.elim
  | round r unsent =>
    cases l with
    | send =>
      cases unsent with
      | nil => exact he.elim
      | cons sorter unsent =>
        simp [rank, step]
        omega
    | reply i =>
      have hi : i < calls.length := he
      have hlen : (calls.eraseIdx i).length = calls.length - 1 := List.length_eraseIdx_of_lt hi
      simp [rank, step, hi, hlen]
      omega
    | wake =>
      cases unsent with
      | cons sorter unsent => exact he.elim
      | nil =>
        obtain ⟨c, arrived, waiting, hunderway⟩ := h
        obtain rfl := (hunderway.latch_down_iff hargc).mp he
        obtain rfl : calls = [] := hunderway.calls
        have hnext := rank_proceed net.sorters_ collector r
        simp only [rank, step, List.length_nil] at hnext ⊢
        omega

/-- Nobody waits for a reply that does not come. -/
theorem goes_on (hargc : net.sorters_.length < 2 ^ 31) (h : Inv net s)
    (hpc : ∀ report, s.pc ≠ .reported report) : ∃ l, Enabled s l := by
  obtain ⟨collector, pc, calls⟩ := s
  cases pc with
  | reported report => exact absurd rfl (hpc report)
  | round r unsent =>
    cases unsent with
    | cons sorter unsent => exact ⟨.send, trivial⟩
    | nil =>
      cases calls with
      | cons call calls => exact ⟨.reply 0, Nat.zero_lt_succ _⟩
      | nil =>
        obtain ⟨c, arrived, waiting, hunderway⟩ := h
        have hnone : waiting = [] := List.map_eq_nil_iff.mp hunderway.calls.symm
        exact ⟨.wake, (hunderway.latch_down_iff hargc).mpr hnone⟩

theorem exists_reported (hargc : net.sorters_.length < 2 ^ 31) (h : Inv net s) :
    ∃ ls t report, Run (machine net.sorters_) s ls t ∧ t.pc = .reported report := by
  generalize hn : rank net.sorters_.length s = n
  induction n using Nat.strong_induction_on generalizing s with
  | _ n ih =>
    cases hpc : s.pc with
    | reported report => exact ⟨[], s, report, .nil s, hpc⟩
    | round r unsent =>
      obtain ⟨l, he⟩ := goes_on hargc h (by simp [hpc])
      have hrank := rank_step hargc h he
      obtain ⟨ls, t, report, hr, ht⟩ := ih _ (by omega) (inv_step hargc h he) rfl
      exact ⟨l :: ls, t, report, .cons he rfl hr, ht⟩

theorem start_inv (net : Network) : Inv net (start net.sorters_) :=
  ⟨Collector.fresh.initial, [], [], rfl, .rfl, rfl, rfl⟩

/-- However the two threads interleave and in whatever order the replies come, `run` reports, after a
bounded number of steps, what it reports when each round is a list of replies in a fixed order. -/
theorem collecting_refines (net : Network) (hargc : net.sorters_.length < 2 ^ 31) {ls : List Label}
    (hr : Run (machine net.sorters_) (start net.sorters_) ls s) :
    ls.length ≤ 102 * (2 * net.sorters_.length + 1) ∧
    ((∀ report, s.pc ≠ .reported report) → ∃ l, (machine net.sorters_).enabled s l) ∧
    ∀ report, s.pc = .reported report → report = Collector.run net Collector.fresh := by
  have hkeep : ∀ s l t, Inv net s → (machine net.sorters_).enabled s l →
      (machine net.sorters_).step s l = .ok t → Inv net t := by
    intro s l t hi he hs
    obtain rfl := Except.ok.inj hs
    exact inv_step hargc hi he
  have hpays : ls.countP (fun _ => true) + rank net.sorters_.length s ≤
      rank net.sorters_.length (start net.sorters_) + (ls.map fun _ => 0).sum := by
    apply hr.counts hkeep _ (start_inv net)
    intro s l t hi he hs
    obtain rfl := Except.ok.inj hs
    exact rank_step hargc hi he
  have hi := hr.invariant hkeep (start_inv net)
  refine ⟨?_, goes_on hargc hi, ?_⟩
  · have hrank : rank net.sorters_.length (start net.sorters_) =
        102 * (2 * net.sorters_.length + 1) := by
      simp only [rank, start, Round.left, List.length_nil]
      omega
    rw [List.countP_true, hrank] at hpays
    simp at hpays
    omega
  · intro report hpc
    rw [Inv, hpc] at hi
    exact hi.2

theorem collecting_refines_reversed : ∃ ls s report,
    Run (machine Collector.reversed.sorters_) (start Collector.reversed.sorters_) ls s ∧
    ls.length ≤ 714 ∧ s.pc = .reported report ∧
    report = Collector.run Collector.reversed Collector.fresh := by
  obtain ⟨ls, s, report, hr, hpc⟩ := exists_reported (by decide) (start_inv Collector.reversed)
  obtain ⟨hlen, _, hreport⟩ := collecting_refines Collector.reversed (by decide) hr
  exact ⟨ls, s, report, hr, hlen, hpc, hreport report hpc⟩

end Collecting

end MuduoNet.Median
