import MuduoNet.Median.Kth

/-!
# A sorter

A sorter keeps its numbers in ascending order and answers how many lie below a guess and how
many equal it. Asked for its smallest and largest number when it has none, it answers with
whatever the memory of its vector holds.
-/
namespace MuduoNet.Median

open Lib

structure QueryResponse where
  count : Int64
  min : Int64
  max : Int64
  sum : Int64
  deriving DecidableEq, Repr

structure SearchResponse where
  smaller : Int64
  same : Int64
  deriving DecidableEq, Repr

structure SorterImpl where
  data_ : List Int64
  sorted : data_.Pairwise (· ≤ ·)
  /-- What `data_[0]` and `data_.back()` read from an empty vector. -/
  stray : Int64 × Int64

/-- The first place whose number is not below `guess`. -/
def lower_bound (data : List Int64) (guess : Int64) : Nat := data.findIdx fun x => !decide (x < guess)

/-- The first place whose number is above `guess`. -/
def upper_bound (data : List Int64) (guess : Int64) : Nat := data.findIdx fun x => decide (guess < x)

namespace SorterImpl

def Query (s : SorterImpl) : QueryResponse where
  count := Int64.ofNat s.data_.length
  min := s.data_.head?.getD s.stray.1
  max := s.data_.getLast?.getD s.stray.2
  sum := s.data_.foldl (· + ·) 0

def Search (s : SorterImpl) (guess : Int64) : SearchResponse where
  smaller := Int64.ofNat (lower_bound s.data_ guess)
  same := Int64.ofNat (upper_bound s.data_ guess) - Int64.ofNat (lower_bound s.data_ guess)

/-- The numbers that `doGenerate` pushes, where `nrand48` returns `draw i` in round `i`. -/
def generated (draw : Nat → Int64) (count min max : Int64) : List Int64 :=
  (List.range count.toNatClampNeg).map fun i =>
    if max - min > 1 then min + draw i % (max - min) else min

def doGenerate (s : SorterImpl) (draw : Nat → Int64) (count min max : Int64) : SorterImpl where
  data_ := Lib.sorted (generated draw count min max)
  sorted := sorted_pairwise _
  stray := s.stray

end SorterImpl

section

variable {data : List Int64} {guess : Int64}

theorem lower_bound_eq (h : data.Pairwise (· ≤ ·)) : lower_bound data guess = below data guess := by
  apply findIdx_not_eq_countP _ h
  intro y z hle hz
  exact decide_eq_true (hle.trans_lt (of_decide_eq_true hz))

theorem upper_bound_eq (h : data.Pairwise (· ≤ ·)) : upper_bound data guess = upto data guess := by
  have hflip : upper_bound data guess = data.findIdx fun x => !decide (x ≤ guess) := by
    unfold upper_bound
    congr 1
    funext x
    rw [← decide_not, decide_eq_decide, not_le]
  rw [hflip]
  apply findIdx_not_eq_countP _ h
  intro y z hle hz
  exact decide_eq_true (hle.trans (of_decide_eq_true hz))

theorem SorterImpl.search_smaller (s : SorterImpl) :
    (s.Search guess).smaller = Int64.ofNat (below s.data_ guess) := by
  rw [SorterImpl.Search, lower_bound_eq s.sorted]

theorem SorterImpl.search_same (s : SorterImpl) :
    (s.Search guess).same = Int64.ofNat (s.data_.count guess) := by
  rw [SorterImpl.Search, lower_bound_eq s.sorted, upper_bound_eq s.sorted, upto_eq,
    Int64.ofNat_add]
  grind

end

section

variable {s : SorterImpl} {y : Int64}

theorem SorterImpl.query_min_le (hy : y ∈ s.data_) : s.Query.min ≤ y := by
  cases h : s.data_ with
  | nil =>
    rw [h] at hy
    cases hy
  | cons x data =>
    have hs := s.sorted
    have hmin : s.Query.min = x := by simp [Query, h]
    rw [h] at hs hy
    rw [hmin]
    rcases List.mem_cons.mp hy with rfl | hy
    · exact le_refl _
    · exact (List.pairwise_cons.mp hs).1 y hy

theorem SorterImpl.query_min_mem (h : s.data_ ≠ []) : s.Query.min ∈ s.data_ := by
  rw [Query, List.head?_eq_some_head h]
  exact List.head_mem h

theorem SorterImpl.query_max_mem (h : s.data_ ≠ []) : s.Query.max ∈ s.data_ := by
  rw [Query, List.getLast?_eq_some_getLast h]
  exact List.getLast_mem h

theorem SorterImpl.le_query_max (hy : y ∈ s.data_) : y ≤ s.Query.max := by
  have hne : s.data_ ≠ [] := List.ne_nil_of_mem hy
  have hs := s.sorted
  have hmax : s.Query.max = s.data_.getLast hne := by
    rw [Query, List.getLast?_eq_some_getLast hne]
    rfl
  have hsplit := List.dropLast_append_getLast hne
  rw [← hsplit] at hs hy
  rw [hmax]
  rcases List.mem_append.mp hy with hy | hy
  · exact (List.pairwise_append.mp hs).2.2 y hy _ List.mem_cons_self
  · rw [List.mem_singleton.mp hy]

end

end MuduoNet.Median
