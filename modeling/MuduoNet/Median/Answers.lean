import MuduoNet.Median.Sorter
import MuduoNet.Lib.Machine
import MuduoNet.Lib.Words

/-!
# What a sorter answers over its life

Whoever calls `Generate` chooses how many numbers the sorter has from then on. `Query` reads the
first and the last of them, if there are any or not.
-/
namespace MuduoNet.Median

open Lib Lib.Outcome Lib.Words

/-- `std::vector<int64_t>::max_size()` -/
def kMaxNumbers : Nat := 2 ^ 60 - 1

/-- The request, with the numbers that `nrand48` returns. -/
structure GenerateRequest where
  count : Int64
  min : Int64
  max : Int64
  draw : Nat → Int64

namespace SorterImpl

theorem sorted_nil : ([] : List Int64).Pairwise (· ≤ ·) := .nil

/-- The constructor. -/
def new (draw : Nat → Int64) (stray : Int64 × Int64) : SorterImpl :=
  doGenerate ⟨[], sorted_nil, stray⟩ draw 100 0 30

/-- `push_back` throws when there are more numbers than a vector holds. -/
def Generate (s : SorterImpl) (request : GenerateRequest) : Except Fault SorterImpl := do
  demand .lengthError (request.count.toNatClampNeg ≤ kMaxNumbers)
  return s.doGenerate request.draw request.count request.min request.max

/-- `data_[i]`, which has to be one of the numbers. -/
def readAt (s : SorterImpl) (i : Nat) : Except Fault Int64 :=
  match s.data_[i]? with
  | some x => .ok x
  | none => .error .outOfBounds

/-- `Query` with what it reads checked: `data_.back()` is the element before the end. -/
def checkedQuery (s : SorterImpl) : Except Fault QueryResponse := do
  let min ← s.readAt 0
  let max ← s.readAt (wsub 64 s.data_.length 1)
  return {
    count := Int64.ofNat s.data_.length
    min, max
    sum := s.data_.foldl (· + ·) 0 }

def machine : Machine SorterImpl GenerateRequest Fault where
  enabled _ _ := True
  step := Generate

instance (s : SorterImpl) (request : GenerateRequest) : Decidable (machine.enabled s request) :=
  inferInstanceAs (Decidable True)

/-- The response is right about the numbers. -/
structure Tells (s : SorterImpl) (reps : QueryResponse) : Prop where
  count : reps.count.toInt = s.data_.length
  min : 0 < reps.count → reps.min ∈ s.data_ ∧ ∀ y ∈ s.data_, reps.min ≤ y
  max : 0 < reps.count → reps.max ∈ s.data_ ∧ ∀ y ∈ s.data_, y ≤ reps.max

section

variable {s t : SorterImpl} {draw : Nat → Int64} {count min max : Int64}

theorem doGenerate_length (s : SorterImpl) (draw : Nat → Int64) (count min max : Int64) :
    (s.doGenerate draw count min max).data_.length = count.toNatClampNeg := by
  show (Lib.sorted (generated draw count min max)).length = _
  rw [(sorted_perm _).length_eq, generated, List.length_map, List.length_range]

theorem Generate_ok {request : GenerateRequest} (h : s.Generate request = .ok t) :
    t.data_.length = request.count.toNatClampNeg ∧ t.data_.length ≤ kMaxNumbers := by
  obtain ⟨hfits, h⟩ := demand_bind_eq_ok h
  cases h
  have hlength := doGenerate_length s request.draw request.count request.min request.max
  exact ⟨hlength, hlength ▸ hfits⟩

/-- There are as many numbers as the last request asked for. -/
theorem run_length {stray : Int64 × Int64} {requests : List GenerateRequest}
    (h : Run machine (new draw stray) requests s) : s.data_.length ≤ kMaxNumbers ∧
      s.data_.length = (requests.getLast?.elim 100 GenerateRequest.count).toNatClampNeg := by
  induction requests using List.reverseRecOn with
  | nil =>
    cases h
    have hlength : (new draw stray).data_.length = 100 := doGenerate_length _ _ _ _ _
    rw [hlength]
    decide
  | append_singleton requests request _ =>
    obtain ⟨u, _, hlast⟩ := h.split
    cases hlast with
    | cons _ hs hnil =>
      cases hnil
      obtain ⟨hlength, hfits⟩ := Generate_ok hs
      rw [List.getLast?_concat]
      exact ⟨hfits, hlength⟩

/-- Of no number nothing can be read. -/
theorem checkedQuery_nil (h : s.data_ = []) : s.checkedQuery = .error .outOfBounds := by
  unfold checkedQuery readAt
  rw [h]
  rfl

theorem checkedQuery_eq (h : s.data_ ≠ []) (hfits : s.data_.length ≤ kMaxNumbers) :
    s.checkedQuery = .ok s.Query := by
  have hpos := List.length_pos_of_ne_nil h
  have hmax : kMaxNumbers < 2 ^ 64 := by decide
  have hfirst : s.readAt 0 = .ok s.Query.min := by
    unfold readAt Query
    rw [← List.head?_eq_getElem?, List.head?_eq_some_head h]
    rfl
  have hlast : s.readAt (wsub 64 s.data_.length 1) = .ok s.Query.max := by
    unfold readAt Query
    rw [wsub_of_le hpos (by omega), ← List.getLast?_eq_getElem?, List.getLast?_eq_some_getLast h]
    rfl
  unfold checkedQuery
  rw [hfirst, ok_bind, hlast]
  rfl

theorem query_tells (h : s.data_ ≠ []) (hfits : s.data_.length ≤ kMaxNumbers) :
    s.Tells s.Query := by
  have hmax : kMaxNumbers < 2 ^ 63 := by decide
  refine ⟨?_, ?_, ?_⟩
  · exact Int64.toInt_ofNat_of_lt (by omega)
  · intro _
    exact ⟨query_min_mem h, fun y hy => query_min_le hy⟩
  · intro _
    exact ⟨query_max_mem h, fun y hy => le_query_max hy⟩

/-- In every state that requests lead to, `Query` reads nothing but numbers of the sorter and is
right about them if and only if the last request asked for at least one. -/
theorem query_tells_iff {stray : Int64 × Int64} {requests : List GenerateRequest}
    (h : Run machine (new draw stray) requests s) :
    (∃ reps, s.checkedQuery = .ok reps ∧ s.Tells reps) ↔
      ∀ request ∈ requests.getLast?, 0 < request.count := by
  obtain ⟨hfits, hlength⟩ := run_length h
  have hlast : s.data_ ≠ [] ↔ ∀ request ∈ requests.getLast?, 0 < request.count := by
    rw [← List.length_pos_iff, hlength]
    cases requests.getLast? with
    | none =>
      have hfirst : 0 < (100 : Int64).toNatClampNeg := by decide
      exact iff_of_true hfirst (by simp)
    | some request =>
      rw [Option.elim_some, Int64.toNatClampNeg_pos]
      simp
  rw [← hlast]
  constructor
  · rintro ⟨reps, hquery, _⟩ hnil
    rw [checkedQuery_nil hnil] at hquery
    cases hquery
  · intro hne
    exact ⟨s.Query, checkedQuery_eq hne hfits, query_tells hne hfits⟩

end

/-- A sorter that is emptied and then filled again. -/
theorem query_tells_iff_refilled :
    let draw : Nat → Int64 := fun _ => 5
    ∃ s, Run machine (new draw (0, 0)) [⟨0, 0, 30, draw⟩, ⟨3, 7, 8, draw⟩] s ∧
      ∃ reps, s.checkedQuery = .ok reps ∧ s.Tells reps := by
  intro draw
  have hex : ∃ s, Run machine (new draw (0, 0)) [⟨0, 0, 30, draw⟩, ⟨3, 7, 8, draw⟩] s ∧ True :=
    exists_run_of_exec (fun _ => True) (by decide +kernel)
  obtain ⟨s, hr, _⟩ := hex
  refine ⟨s, hr, (query_tells_iff hr).mpr ?_⟩
  intro request hlast
  obtain rfl := Option.some.inj hlast
  decide

/-- A count that is not positive leaves nothing to read. -/
theorem query_reads_outside :
    let draw : Nat → Int64 := fun _ => 5
    (∃ s, Run machine (new draw (0, 0)) [⟨0, 0, 30, draw⟩] s ∧
      s.checkedQuery = .error .outOfBounds) ∧
    ∃ s, Run machine (new draw (0, 0)) [⟨-1, 0, 30, draw⟩] s ∧
      s.checkedQuery = .error .outOfBounds := by
  intro draw
  have hempty : ∀ request : GenerateRequest, request.count.toNatClampNeg = 0 →
      ∃ s, Run machine (new draw (0, 0)) [request] s ∧ s.checkedQuery = .error .outOfBounds := by
    intro request hcount
    have hfits : request.count.toNatClampNeg ≤ kMaxNumbers := by omega
    refine ⟨_, .single trivial (demand_bind hfits), checkedQuery_nil ?_⟩
    apply List.eq_nil_of_length_eq_zero
    exact (doGenerate_length _ _ _ _ _).trans hcount
  exact ⟨hempty ⟨0, 0, 30, draw⟩ (by decide), hempty ⟨-1, 0, 30, draw⟩ (by decide)⟩

end SorterImpl

end MuduoNet.Median
