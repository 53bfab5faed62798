import MuduoNet.Median.Sorter
import MuduoNet.Lib.Words

/-!
# The collector

`run` asks every sorter for its statistics, then searches for the median with `getKth`, one
round of requests for each guess. A round is over when the latch is down; the replies of a
round arrive in any order and are handled one after the other on the loop thread.
-/
namespace MuduoNet.Median

open Lib Lib.Words

structure Collector where
  smaller_ : Int64
  same_ : Int64
  latch_ : Int
  result_ : QueryResponse
  deriving DecidableEq, Repr

def Collector.fresh : Collector where
  smaller_ := 0
  same_ := 0
  latch_ := 0
  result_ := ⟨0, 0, 0, 0⟩

/-- The sorters, and the order in which their replies arrive in each round. -/
structure Network where
  sorters_ : List SorterImpl
  arrival : Nat → List SorterImpl
  arrives : ∀ round, (arrival round).Perm sorters_

/-- All the numbers. -/
def Network.union (net : Network) : List Int64 := net.sorters_.flatMap SorterImpl.data_

/-- What `run` reports. -/
inductive Report
  | noMedian
  | median (value : Int64)
  | notFound
  deriving DecidableEq, Repr

namespace Collector

/-- `new CountDownLatch(static_cast<int>(sorters_.size()))`. -/
def latched (c : Collector) (size : Nat) : Collector := { c with latch_ := signed 32 size }

@[simp] theorem latched_result (c : Collector) (size : Nat) :
    (c.latched size).result_ = c.result_ := by
  cases c
  rfl

/-- `latch_->wait()`: replies are handled until the latch is down. If they run out before, the latch
stays up and `wait` does not return. -/
def wait {ρ : Type} (done : Collector → ρ → Collector) : Collector → List ρ → Collector
  | c, [] => c
  | c, reps :: rest => if c.latch_ ≤ 0 then c else wait done (done c reps) rest

def QueryDone (c : Collector) (reps : QueryResponse) : Collector :=
  let r := c.result_
  let r := { r with count := reps.count + r.count }
  let r := { r with sum := reps.sum + r.sum }
  let r :=
    if reps.count > 0 then
      let r := if reps.min < r.min then { r with min := reps.min } else r
      if reps.max > r.max then { r with max := reps.max } else r
    else r
  { c with result_ := r, latch_ := c.latch_ - 1 }

def getStats (net : Network) (c : Collector) : Collector :=
  wait QueryDone (c.latched net.sorters_.length) ((net.arrival 0).map SorterImpl.Query)

def SearchDone (c : Collector) (reps : SearchResponse) : Collector :=
  { c with
    smaller_ := c.smaller_ + reps.smaller
    same_ := c.same_ + reps.same
    latch_ := c.latch_ - 1 }

/-- `search`, in the round that the state names. -/
def search (net : Network) : Search (Collector × Nat) := fun (c, round) guess =>
  let c := { c with smaller_ := 0, same_ := 0 }
  let c := wait SearchDone (c.latched net.sorters_.length)
    ((net.arrival round).map fun s => s.Search guess)
  ((c.smaller_, c.same_), (c, round + 1))

/-- What `getKth` is called with, if there is a number at all. -/
def median (net : Network) (c : Collector) : Option (Kth (Collector × Nat)) :=
  let count := c.result_.count
  if count ≤ 0 then none
  else some (getKth (search net) (c, 1) ((count + 1) / 2) count c.result_.min c.result_.max)

def report : Option (Kth (Collector × Nat)) → Except Fault Report
  | none => .ok .noMedian
  | some r => r.result.map fun median => if median.2 then .median median.1 else .notFound

/-- The statistics are taken from the sentinels. -/
def initial (c : Collector) : Collector :=
  { c with result_ := { c.result_ with min := Int64.maxValue, max := Int64.minValue } }

def run (net : Network) (c : Collector) : Except Fault Report :=
  report (median net (getStats net c.initial))

end Collector

namespace Collector

section

variable {ρ : Type} {c : Collector} {reps : List ρ}

/-- With one reply for each count of the latch, `wait` returns after the last. -/
theorem wait_eq (done : Collector → ρ → Collector)
    (hdone : ∀ c r, (done c r).latch_ = c.latch_ - 1) (h : c.latch_ = reps.length) :
    wait done c reps = reps.foldl done c ∧ (wait done c reps).latch_ = 0 := by
  induction reps generalizing c with
  | nil => exact ⟨rfl, h⟩
  | cons r reps ih =>
    rw [List.length_cons] at h
    have hnext : (done c r).latch_ = reps.length := by
      rw [hdone]
      omega
    have hup : ¬ c.latch_ ≤ 0 := by omega
    rw [wait, if_neg hup, List.foldl_cons]
    exact ih hnext

end

section

variable {c : Collector} {ss : List SorterImpl} {g : Int64}

/-- The replies to a round of searches add up to the counts in all the numbers. -/
theorem foldl_SearchDone (c : Collector) (ss : List SorterImpl) (g : Int64) :
    (ss.map (·.Search g)).foldl SearchDone c =
      { c with
        smaller_ := c.smaller_ + Int64.ofNat (below (ss.flatMap SorterImpl.data_) g)
        same_ := c.same_ + Int64.ofNat ((ss.flatMap SorterImpl.data_).count g)
        latch_ := c.latch_ - ss.length } := by
  induction ss generalizing c with
  | nil => simp [below]
  | cons s ss ih =>
    rw [List.map_cons, List.foldl_cons, ih, SearchDone, s.search_smaller, s.search_same,
      List.flatMap_cons, below_append, List.count_append, Int64.ofNat_add, Int64.ofNat_add,
      List.length_cons]
    have hlatch : c.latch_ - 1 - ss.length = c.latch_ - (ss.length + 1 : Nat) := by omega
    simp only [Int64.add_assoc, hlatch]

/-- What the statistics of the sorters `ss` make of `r`. -/
structure Gathered (r r' : QueryResponse) (D : List Int64) : Prop where
  count : r'.count = r.count + Int64.ofNat D.length
  min_le : r'.min ≤ r.min ∧ ∀ y ∈ D, r'.min ≤ y
  min_mem : r'.min = r.min ∨ r'.min ∈ D
  le_max : r.max ≤ r'.max ∧ ∀ y ∈ D, y ≤ r'.max
  max_mem : r'.max = r.max ∨ r'.max ∈ D

theorem Gathered.nil (r : QueryResponse) : Gathered r r [] where
  count := by simp
  min_le := by simp
  min_mem := .inl rfl
  le_max := by simp
  max_mem := .inl rfl

theorem Gathered.append {r r' r'' : QueryResponse} {D E : List Int64} (h : Gathered r r' D)
    (g : Gathered r' r'' E) : Gathered r r'' (D ++ E) where
  count := by rw [g.count, h.count, List.length_append, Int64.ofNat_add, Int64.add_assoc]
  min_le := by
    refine ⟨g.min_le.1.trans h.min_le.1, ?_⟩
    intro y hy
    rcases List.mem_append.mp hy with hy | hy
    · exact g.min_le.1.trans (h.min_le.2 y hy)
    · exact g.min_le.2 y hy
  min_mem := by
    rcases g.min_mem with heq | hmem
    · rw [heq]
      exact h.min_mem.imp_right (List.mem_append_left E)
    · exact .inr (List.mem_append_right D hmem)
  le_max := by
    refine ⟨h.le_max.1.trans g.le_max.1, ?_⟩
    intro y hy
    rcases List.mem_append.mp hy with hy | hy
    · exact (h.le_max.2 y hy).trans g.le_max.1
    · exact g.le_max.2 y hy
  max_mem := by
    rcases g.max_mem with heq | hmem
    · rw [heq]
      exact h.max_mem.imp_right (List.mem_append_left E)
    · exact .inr (List.mem_append_right D hmem)

theorem QueryDone_count (c : Collector) (reps : QueryResponse) :
    (c.QueryDone reps).result_.count = reps.count + c.result_.count := by
  unfold QueryDone
  grind

theorem QueryDone_min (c : Collector) (reps : QueryResponse) : (c.QueryDone reps).result_.min =
    if reps.count > 0 ∧ reps.min < c.result_.min then reps.min else c.result_.min := by
  unfold QueryDone
  grind

theorem QueryDone_max (c : Collector) (reps : QueryResponse) : (c.QueryDone reps).result_.max =
    if reps.count > 0 ∧ reps.max > c.result_.max then reps.max else c.result_.max := by
  unfold QueryDone
  grind

theorem gathered_QueryDone (c : Collector) (s : SorterImpl) (hlen : s.data_.length < 2 ^ 63) :
    Gathered c.result_ (c.QueryDone s.Query).result_ s.data_ := by
  have hcount : s.Query.count.toInt = s.data_.length := Int64.toInt_ofNat_of_lt hlen
  have hpos : s.Query.count > 0 ↔ s.data_ ≠ [] := by
    rw [gt_iff_lt, Int64.lt_iff_toInt_lt, hcount, Int64.toInt_zero, ← List.length_pos_iff]
    omega
  constructor
  · rw [QueryDone_count]
    exact Int64.add_comm _ _
  · rw [QueryDone_min]
    split
    · rename_i hlt
      exact ⟨hlt.2.le, fun y => s.query_min_le⟩
    · rename_i hge
      refine ⟨le_refl _, ?_⟩
      intro y hy
      have hle : c.result_.min ≤ s.Query.min :=
        not_lt.mp fun hlt => hge ⟨hpos.mpr (List.ne_nil_of_mem hy), hlt⟩
      exact hle.trans (s.query_min_le hy)
  · rw [QueryDone_min]
    split
    · rename_i hlt
      exact .inr (s.query_min_mem (hpos.mp hlt.1))
    · exact .inl rfl
  · rw [QueryDone_max]
    split
    · rename_i hlt
      exact ⟨hlt.2.le, fun y => s.le_query_max⟩
    · rename_i hge
      refine ⟨le_refl _, ?_⟩
      intro y hy
      have hle : s.Query.max ≤ c.result_.max :=
        not_lt.mp fun hlt => hge ⟨hpos.mpr (List.ne_nil_of_mem hy), hlt⟩
      exact (s.le_query_max hy).trans hle
  · rw [QueryDone_max]
    split
    · rename_i hlt
      exact .inr (s.query_max_mem (hpos.mp hlt.1))
    · exact .inl rfl

theorem gathered_foldl (c : Collector) (ss : List SorterImpl)
    (hlen : (ss.flatMap SorterImpl.data_).length < 2 ^ 63) :
    Gathered c.result_ ((ss.map SorterImpl.Query).foldl QueryDone c).result_
      (ss.flatMap SorterImpl.data_) := by
  induction ss generalizing c with
  | nil => exact Gathered.nil _
  | cons s ss ih =>
    rw [List.flatMap_cons, List.length_append] at hlen
    rw [List.flatMap_cons]
    exact (gathered_QueryDone c s (by omega)).append (ih _ (by omega))

end

section

variable {net : Network} {c : Collector}

theorem union_perm (round : Nat) :
    ((net.arrival round).flatMap SorterImpl.data_).Perm net.union :=
  (net.arrives round).flatMap_right _

theorem latched_eq {ρ : Type} (c : Collector) (hargc : net.sorters_.length < 2 ^ 31) (round : Nat)
    (reply : SorterImpl → ρ) :
    (c.latched net.sorters_.length).latch_ = ((net.arrival round).map reply).length := by
  rw [List.length_map, (net.arrives round).length_eq]
  exact signed_of_lt (by omega)

/-- A round of searches counts all the numbers, in whatever order the replies arrive. -/
theorem search_exact (hargc : net.sorters_.length < 2 ^ 31) (hlen : net.union.length < 2 ^ 63) :
    Exact net.union (search net) := by
  have hround : ∀ (c : Collector) (round : Nat) (g : Int64), (search net (c, round) g).1 =
      (Int64.ofNat (below net.union g), Int64.ofNat (net.union.count g)) := by
    intro c round g
    have hperm : ((net.arrival round).flatMap SorterImpl.data_).Perm net.union := union_perm round
    have hlatch := latched_eq { c with smaller_ := 0, same_ := 0 } hargc round fun s => s.Search g
    have hwait := wait_eq SearchDone (fun _ _ => rfl) hlatch
    rw [search]
    dsimp only
    rw [hwait.1, foldl_SearchDone, below_perm hperm, hperm.count_eq]
    simp [latched]
  constructor
  · rintro ⟨c, round⟩ g
    rw [hround]
    exact Int64.toInt_ofNat_of_lt (List.countP_le_length.trans_lt hlen)
  · rintro ⟨c, round⟩ g
    rw [hround]
    exact Int64.toInt_ofNat_of_lt (List.count_le_length.trans_lt hlen)

theorem gathered_getStats (hargc : net.sorters_.length < 2 ^ 31)
    (hlen : net.union.length < 2 ^ 63) :
    Gathered c.result_ (getStats net c).result_ ((net.arrival 0).flatMap SorterImpl.data_) := by
  have hwait := wait_eq QueryDone (fun _ _ => rfl) (latched_eq c hargc 0 SorterImpl.Query)
  rw [← (union_perm 0).length_eq] at hlen
  have h := gathered_foldl (c.latched net.sorters_.length) (net.arrival 0) hlen
  rw [latched_result, ← hwait.1] at h
  exact h

/-- The statistics of a fresh collector are those of all the numbers: the sentinels are gone. -/
theorem getStats_fresh (hargc : net.sorters_.length < 2 ^ 31) (hne : net.union ≠ [])
    (hlen : net.union.length < 2 ^ 63) :
    (getStats net fresh.initial).result_.count.toInt = net.union.length ∧
      IsLeast {y | y ∈ net.union} (getStats net fresh.initial).result_.min ∧
      IsGreatest {y | y ∈ net.union} (getStats net fresh.initial).result_.max := by
  have h := gathered_getStats (c := fresh.initial) hargc hlen
  have hmem : ∀ y, y ∈ (net.arrival 0).flatMap SorterImpl.data_ ↔ y ∈ net.union :=
    fun y => (union_perm 0).mem_iff
  obtain ⟨x, hx⟩ := List.exists_mem_of_ne_nil _ hne
  refine ⟨?_, ⟨?_, ?_⟩, ⟨?_, ?_⟩⟩
  · rw [h.count, (union_perm 0).length_eq]
    exact (congrArg Int64.toInt (Int64.zero_add _)).trans (Int64.toInt_ofNat_of_lt hlen)
  · -- if the sentinel stayed, every number is the largest one
    rcases h.min_mem with heq | hmin
    · have hle := h.min_le.2 x ((hmem x).mpr hx)
      have hx' : x = (getStats net fresh.initial).result_.min :=
        le_antisymm (heq ▸ Int64.le_maxValue x) hle
      exact hx' ▸ hx
    · exact (hmem _).mp hmin
  · intro y hy
    exact h.min_le.2 y ((hmem y).mpr hy)
  · rcases h.max_mem with heq | hmax
    · have hle := h.le_max.2 x ((hmem x).mpr hx)
      have hx' : x = (getStats net fresh.initial).result_.max :=
        le_antisymm hle (heq ▸ Int64.minValue_le x)
      exact hx' ▸ hx
    · exact (hmem _).mp hmax
  · intro y hy
    exact h.le_max.2 y ((hmem y).mpr hy)

/-- The rank that `run` asks for is that of the lower median. -/
theorem toInt_half_succ {n : Nat} {count : Int64} (hn : n < 2 ^ 63 - 1) (h : count.toInt = n) :
    ((count + 1) / 2).toInt = ((n + 1) / 2 : Nat) := by
  have hsucc : (count + 1).toInt = (n + 1 : Nat) := by
    rw [Int64.toInt_succ, h]
    · rfl
    · rw [Int64.lt_iff_toInt_lt, h, Int64.toInt_maxValue]
      omega
  rw [Int64.toInt_div_of_ne_right _ _ (by decide), hsucc]
  rfl

/-- From sorters with at least one number in all, `run` reports the lower median of all the numbers,
whatever the order of the replies. `main` has fewer than `argc` sorters, and `argc` is an `int`. -/
theorem run_median (net : Network) (hargc : net.sorters_.length < 2 ^ 31) (hne : net.union ≠ [])
    (hlen : net.union.length < 2 ^ 63 - 1) :
    ((getStats net fresh.initial).result_.count.toInt = net.union.length ∧
      IsLeast {y | y ∈ net.union} (getStats net fresh.initial).result_.min ∧
      IsGreatest {y | y ∈ net.union} (getStats net fresh.initial).result_.max) ∧
    Exact net.union (search net) ∧
    ∃ m, (Lib.sorted net.union)[(net.union.length + 1) / 2 - 1]? = some m ∧
      run net fresh = .ok (.median m) := by
  have hlen' : net.union.length < 2 ^ 63 := by omega
  have hpos := List.length_pos_of_ne_nil hne
  obtain ⟨hcount, hmin, hmax⟩ := getStats_fresh hargc hne hlen'
  refine ⟨⟨hcount, hmin, hmax⟩, search_exact hargc hlen', ?_⟩
  have hk := toInt_half_succ hlen hcount
  have hone : 1 ≤ ((getStats net fresh.initial).result_.count + 1) / 2 := by
    rw [Int64.le_iff_toInt_le, hk, Int64.toInt_one]
    omega
  have hle : (((getStats net fresh.initial).result_.count + 1) / 2).toInt ≤ net.union.length := by
    rw [hk]
    omega
  obtain ⟨m, hrank, hfound, _⟩ := getKth_finds (search_exact hargc hlen') hlen' hone hle hmin hmax
    (getStats net fresh.initial, 1) (getStats net fresh.initial).result_.count
  rw [hk, Int.toNat_natCast] at hrank
  refine ⟨m, hrank, ?_⟩
  have hsome : ¬ (getStats net fresh.initial).result_.count ≤ 0 := by
    rw [Int64.le_iff_toInt_le, hcount, Int64.toInt_zero]
    omega
  rw [run, median, if_neg hsome, report, hfound]
  rfl

end

def smallSorters : List SorterImpl :=
  [⟨[1, 4, 4], by decide, (0, 0)⟩, ⟨[4, 7], by decide, (0, 0)⟩, ⟨[], by decide, (-9, 9)⟩]

/-- The replies come in the order opposite to that of the requests. -/
def reversed : Network := ⟨smallSorters, fun _ => smallSorters.reverse, fun _ => List.reverse_perm _⟩

theorem run_median_reversed :
    ((getStats reversed fresh.initial).result_.count.toInt = reversed.union.length ∧
      IsLeast {y | y ∈ reversed.union} (getStats reversed fresh.initial).result_.min ∧
      IsGreatest {y | y ∈ reversed.union} (getStats reversed fresh.initial).result_.max) ∧
    Exact reversed.union (search reversed) ∧
    ∃ m, (Lib.sorted reversed.union)[(reversed.union.length + 1) / 2 - 1]? = some m ∧
      run reversed fresh = .ok (.median m) :=
  run_median reversed (by decide) (by decide) (by decide)

end Collector

end MuduoNet.Median
