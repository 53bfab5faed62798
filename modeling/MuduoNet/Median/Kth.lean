import MuduoNet.Base
import MuduoNet.Lib.Int64
import MuduoNet.Lib.Machine
import MuduoNet.Lib.Rank
import Mathlib.Order.Bounds.Basic

/-!
# The k-th smallest number

`getKth` asks `search` how many numbers lie below a guess and how many equal it, and narrows
an interval until the guess has rank `k`. The model keeps every call of `search`, with the
answer, and lets `search` have a state of its own. Arithmetic on `int64_t` wraps.
-/
namespace MuduoNet.Median

open Lib

variable {σ : Type}

/-- One call of `search`: the guess, and the two numbers it stores. -/
structure Query where
  guess : Int64
  smaller : Int64
  same : Int64
  deriving DecidableEq, Repr

abbrev Search (σ : Type) := σ → Int64 → (Int64 × Int64) × σ

/-- A run of `getKth`: the calls of `search`, the state these leave, and what is returned. -/
structure Kth (σ : Type) where
  queries : List Query
  state : σ
  result : Except Fault (Int64 × Bool)

def Kth.after (q : Query) (r : Kth σ) : Kth σ := { r with queries := q :: r.queries }

def Query.Hits (q : Query) (k : Int64) : Prop := q.smaller < k ∧ q.smaller + q.same ≥ k

instance (q : Query) (k : Int64) : Decidable (q.Hits k) := inferInstanceAs (Decidable (_ ∧ _))

def Query.Low (q : Query) (k : Int64) : Prop := q.smaller + q.same < k

instance (q : Query) (k : Int64) : Decidable (q.Low k) := inferInstanceAs (Decidable (_ < _))

def Query.High (q : Query) (k : Int64) : Prop := ¬ q.Low k ∧ q.smaller ≥ k

instance (q : Query) (k : Int64) : Decidable (q.High k) := inferInstanceAs (Decidable (_ ∧ _))

/-- The bounds after an answer that does not settle the guess. -/
def narrow (k : Int64) (q : Query) (min max : Int64) : Option (Int64 × Int64) :=
  if q.Low k then some (q.guess + 1, max)
  else if q.smaller ≥ k then some (min, q.guess)
  else none

/-- What `search` is asked and answers in the state `s`. -/
def asks (search : Search σ) (s : σ) (guess : Int64) : Query :=
  ⟨guess, (search s guess).1.1, (search s guess).1.2⟩

/-- The loop of `getKth`, where `left` more calls stay within the limit of 100 steps. -/
def getKthLoop (search : Search σ) (k : Int64) (left : Nat) (s : σ) (guess min max : Int64) :
    Kth σ :=
  if min ≤ max then
    let q := asks search s guess
    let s := (search s guess).2
    match left with
    | 0 => ⟨[q], s, .ok (guess, false)⟩
    | left + 1 =>
      if q.Hits k then ⟨[q], s, .ok (guess, true)⟩
      else match narrow k q min max with
        | none => ⟨[q], s, .ok (guess, false)⟩
        | some (min, max) =>
          let guess := Int64.midpoint min max
          if min ≤ guess ∧ guess ≤ max then (getKthLoop search k left s guess min max).after q
          else ⟨[q], s, .error .assertion⟩
  else ⟨[], s, .ok (guess, false)⟩

def getKth (search : Search σ) (s : σ) (k _count min max : Int64) : Kth σ :=
  getKthLoop search k 100 s max min max

/-- `search` counts the numbers of `D`. -/
structure Exact (D : List Int64) (search : Search σ) : Prop where
  smaller : ∀ s g, (search s g).1.1.toInt = below D g
  same : ∀ s g, (search s g).1.2.toInt = D.count g

section

variable {search : Search σ} {k guess min max x : Int64} {left : Nat} {s : σ} {q : Query}

theorem narrow_eq_some {min' max' : Int64} (h : narrow k q min max = some (min', max')) :
    (q.Low k ∧ min' = q.guess + 1 ∧ max' = max) ∨ (q.High k ∧ min' = min ∧ max' = q.guess) := by
  unfold narrow at h
  by_cases hlow : q.Low k
  · rw [if_pos hlow] at h
    obtain ⟨rfl, rfl⟩ := Prod.mk.inj (Option.some.inj h)
    exact .inl ⟨hlow, rfl, rfl⟩
  · rw [if_neg hlow] at h
    by_cases hhigh : q.smaller ≥ k
    · rw [if_pos hhigh] at h
      obtain ⟨rfl, rfl⟩ := Prod.mk.inj (Option.some.inj h)
      exact .inr ⟨⟨hlow, hhigh⟩, rfl, rfl⟩
    · rw [if_neg hhigh] at h
      cases h

theorem getKthLoop_hit (hle : min ≤ max) (hhit : (asks search s guess).Hits k) :
    getKthLoop search k (left + 1) s guess min max =
      ⟨[asks search s guess], (search s guess).2, .ok (guess, true)⟩ := by
  rw [getKthLoop, if_pos hle]
  exact if_pos hhit

theorem getKthLoop_next {min' max' : Int64} (hle : min ≤ max)
    (hmiss : ¬ (asks search s guess).Hits k)
    (hn : narrow k (asks search s guess) min max = some (min', max')) (hin : min' ≤ max') :
    getKthLoop search k (left + 1) s guess min max =
      (getKthLoop search k left (search s guess).2 (Int64.midpoint min' max') min' max').after
        (asks search s guess) := by
  have hmid := And.intro (Int64.le_midpoint hin) (Int64.midpoint_le hin)
  rw [getKthLoop, if_pos hle]
  dsimp only
  rw [if_neg hmiss, hn]
  exact if_pos hmid

end

section

variable {D : List Int64} {search : Search σ} {k guess min max x : Int64} {s : σ} {K left n : Nat}

theorem Exact.toInt_sum (he : Exact D search) (hlen : D.length < 2 ^ 63) :
    ((asks search s guess).smaller + (asks search s guess).same).toInt = upto D guess := by
  have hsmaller : (asks search s guess).smaller.toInt = below D guess := he.smaller s guess
  have hsame : (asks search s guess).same.toInt = D.count guess := he.same s guess
  have hupto := upto_le_length D guess
  rw [Int64.toInt_add, hsmaller, hsame, upto_eq, Int.natCast_add]
  rw [upto_eq] at hupto
  apply Int.bmod_eq_of_le <;> omega

/-- An exact answer settles on which side of the guess the wanted number lies. -/
theorem Exact.hits_iff (he : Exact D search) (hlen : D.length < 2 ^ 63) (hk : k.toInt = K)
    (hx : HasRank D K x) : (asks search s guess).Hits k ↔ guess = x := by
  have hsmaller : (asks search s guess).smaller.toInt = below D guess := he.smaller s guess
  rw [Query.Hits, ge_iff_le, Int64.lt_iff_toInt_lt, Int64.le_iff_toInt_le, he.toInt_sum hlen,
    hsmaller, hk]
  constructor
  · intro h
    have hguess : HasRank D K guess := ⟨by omega, by omega⟩
    exact hguess.unique hx
  · rintro rfl
    have hbelow := hx.below
    have hupto := hx.upto
    omega

theorem Exact.narrow_low (he : Exact D search) (hlen : D.length < 2 ^ 63) (hk : k.toInt = K)
    (hx : HasRank D K x) (hlt : guess < x) :
    narrow k (asks search s guess) min max = some (guess + 1, max) := by
  have hupto := (upto_le_below D hlt).trans_lt hx.below
  refine if_pos ?_
  rw [Query.Low, Int64.lt_iff_toInt_lt, he.toInt_sum hlen, hk]
  omega

/-- A guess above the wanted number is not too low. -/
theorem Exact.not_low (he : Exact D search) (hlen : D.length < 2 ^ 63) (hk : k.toInt = K)
    (hx : HasRank D K x) (hlt : x < guess) : ¬ (asks search s guess).Low k := by
  have hbelow := hx.upto.trans (upto_le_below D hlt)
  have hle := upto_eq D guess
  rw [Query.Low, Int64.lt_iff_toInt_lt, he.toInt_sum hlen, hk]
  omega

theorem Exact.narrow_high (he : Exact D search) (hlen : D.length < 2 ^ 63) (hk : k.toInt = K)
    (hx : HasRank D K x) (hlt : x < guess) :
    narrow k (asks search s guess) min max = some (min, guess) := by
  have hsmaller : (asks search s guess).smaller.toInt = below D guess := he.smaller s guess
  have hbelow := hx.upto.trans (upto_le_below D hlt)
  have hhigh : (asks search s guess).smaller ≥ k := by
    rw [ge_iff_le, Int64.le_iff_toInt_le, hsmaller, hk]
    omega
  exact (if_neg (he.not_low hlen hk hx hlt)).trans (if_pos hhigh)

/-- An answer about the midpoint leaves less than half of the interval. -/
theorem Exact.narrows (he : Exact D search) (hlen : D.length < 2 ^ 63) (hk : k.toInt = K)
    (hx : HasRank D K x) (hmin : min ≤ x) (hmax : x ≤ max)
    (hwidth : max.toInt - min.toInt < 2 ^ (n + 1)) (hne : Int64.midpoint min max ≠ x) :
    ∃ min' max', narrow k (asks search s (Int64.midpoint min max)) min max = some (min', max') ∧
      min' ≤ x ∧ x ≤ max' ∧ max'.toInt - min'.toInt < 2 ^ n := by
  have hmid := Int64.toInt_midpoint (hmin.trans hmax)
  rcases lt_or_gt_of_ne hne with hlt | hgt
  · have hlt' := Int64.lt_iff_toInt_lt.mp hlt
    have hsucc := Int64.toInt_succ (hlt.trans_le (Int64.le_maxValue x))
    refine ⟨_, _, he.narrow_low hlen hk hx hlt, ?_, hmax, ?_⟩
    · rw [Int64.le_iff_toInt_le, hsucc]
      omega
    · rw [hsucc]
      omega
  · refine ⟨_, _, he.narrow_high hlen hk hx hgt, hmin, hgt.le, ?_⟩
    omega

/-- An interval narrower than `2 ^ n` that holds the wanted number is searched in `n + 1` calls. -/
theorem getKthLoop_finds (he : Exact D search) (hlen : D.length < 2 ^ 63) (hk : k.toInt = K)
    (hx : HasRank D K x) (hmin : min ≤ x) (hmax : x ≤ max)
    (hwidth : max.toInt - min.toInt < 2 ^ n) (hleft : n < left) :
    (getKthLoop search k left s (Int64.midpoint min max) min max).result = .ok (x, true) ∧
      (getKthLoop search k left s (Int64.midpoint min max) min max).queries.length ≤ n + 1 := by
  induction n generalizing s min max left with
  | zero =>
    obtain ⟨left, rfl⟩ := Nat.exists_eq_succ_of_ne_zero (Nat.ne_zero_of_lt hleft)
    have hle := hmin.trans hmax
    have heq : Int64.midpoint min max = x := by
      have hmid := Int64.toInt_midpoint hle
      have hmin' := Int64.le_iff_toInt_le.mp hmin
      have hmax' := Int64.le_iff_toInt_le.mp hmax
      rw [← Int64.toInt_inj]
      omega
    rw [getKthLoop_hit hle ((he.hits_iff hlen hk hx).mpr heq), heq]
    exact ⟨rfl, le_refl 1⟩
  | succ n ih =>
    obtain ⟨left, rfl⟩ := Nat.exists_eq_succ_of_ne_zero (Nat.ne_zero_of_lt hleft)
    have hle := hmin.trans hmax
    by_cases heq : Int64.midpoint min max = x
    · rw [getKthLoop_hit hle ((he.hits_iff hlen hk hx).mpr heq), heq]
      exact ⟨rfl, by simp⟩
    · obtain ⟨min', max', hn, hlow, hhigh, hhalf⟩ := he.narrows hlen hk hx hmin hmax hwidth heq
      have hmiss := mt (he.hits_iff hlen hk hx (s := s)).mp heq
      rw [getKthLoop_next hle hmiss hn (hlow.trans hhigh)]
      obtain ⟨hresult, hcount⟩ := ih (s := (search s (Int64.midpoint min max)).2) hlow hhigh hhalf
        (Nat.lt_of_succ_lt_succ hleft)
      exact ⟨hresult, Nat.succ_le_succ hcount⟩

/-- The number that is asked for is one of those that there are. -/
theorem exists_ranked (hpos : 1 ≤ k) (hk : k.toInt ≤ D.length) :
    ∃ (K : Nat) (x : Int64), k.toInt = K ∧ HasRank D K x ∧ x ∈ D ∧ (sorted D)[K - 1]? = some x := by
  have hpos' := Int64.le_iff_toInt_le.mp hpos
  rw [Int64.toInt_one] at hpos'
  obtain ⟨K, hK⟩ := Int.eq_ofNat_of_zero_le (by omega : 0 ≤ k.toInt)
  have hlt : K - 1 < (sorted D).length := by
    rw [(sorted_perm D).length_eq]
    omega
  exact ⟨K, (sorted D)[K - 1], hK, (hasRank_iff hlt (by omega)).mpr rfl,
    (sorted_perm D).mem_iff.mp (List.getElem_mem hlt), List.getElem?_eq_getElem hlt⟩

/-- Among all the numbers between the smallest and the largest the one of rank `k` is found, with
at most 66 calls. -/
theorem getKth_finds (he : Exact D search) (hlen : D.length < 2 ^ 63) (hpos : 1 ≤ k)
    (hk : k.toInt ≤ D.length) (hmin : IsLeast {y | y ∈ D} min) (hmax : IsGreatest {y | y ∈ D} max)
    (s : σ) (count : Int64) :
    ∃ y, (sorted D)[k.toInt.toNat - 1]? = some y ∧
      (getKth search s k count min max).result = .ok (y, true) ∧
      (getKth search s k count min max).queries.length ≤ 66 := by
  obtain ⟨K, x, hK, hrank, hmem, hx⟩ := exists_ranked hpos hk
  have hminx := hmin.2 hmem
  have hmaxx := hmax.2 hmem
  have hle := hminx.trans hmaxx
  refine ⟨x, ?_, ?_⟩
  · rw [hK, Int.toNat_natCast, hx]
  rw [getKth]
  by_cases heq : max = x
  · rw [getKthLoop_hit hle ((he.hits_iff hlen hK hrank).mpr heq), heq]
    exact ⟨rfl, by simp⟩
  · -- the first guess is the largest number, and says only that the wanted one is smaller
    have hmiss := mt (he.hits_iff hlen hK hrank (s := s)).mp heq
    have hn : narrow k (asks search s max) min max = some (min, max) :=
      he.narrow_high hlen hK hrank (lt_of_le_of_ne hmaxx (Ne.symm heq))
    rw [getKthLoop_next hle hmiss hn hle]
    have hwidth : max.toInt - min.toInt < 2 ^ 64 := by
      have hlow := min.le_toInt
      have hhigh := max.toInt_lt
      omega
    obtain ⟨hresult, hcount⟩ := getKthLoop_finds (s := (search s max).2) he hlen hK hrank hminx
      hmaxx hwidth (by decide : 64 < 99)
    exact ⟨hresult, Nat.succ_le_succ hcount⟩

end

/-- A search function that counts the numbers of `D`. -/
def counting (D : List Int64) : Search Unit := fun s g =>
  ((Int64.ofNat (below D g), Int64.ofNat (D.count g)), s)

theorem counting_exact {D : List Int64} (hbelow : ∀ g, below D g < 2 ^ 63)
    (hcount : ∀ g, D.count g < 2 ^ 63) : Exact D (counting D) := by
  constructor
  · intro s g
    exact Int64.toInt_ofNat_of_lt (hbelow g)
  · intro s g
    exact Int64.toInt_ofNat_of_lt (hcount g)

theorem counting_exact_of_length {D : List Int64} (hlen : D.length < 2 ^ 63) :
    Exact D (counting D) :=
  counting_exact (fun _ => List.countP_le_length.trans_lt hlen)
    (fun _ => List.count_le_length.trans_lt hlen)

theorem getKth_finds_third :
    ∃ y, (sorted [4, 1, 4, 2])[(3 : Int64).toInt.toNat - 1]? = some y ∧
      (getKth (counting [4, 1, 4, 2]) () 3 4 1 4).result = .ok (y, true) ∧
      (getKth (counting [4, 1, 4, 2]) () 3 4 1 4).queries.length ≤ 66 := by
  have hleast : ∀ y ∈ ([4, 1, 4, 2] : List Int64), 1 ≤ y := by simp [Int64.le_iff_toInt_le]
  have hgreatest : ∀ y ∈ ([4, 1, 4, 2] : List Int64), y ≤ 4 := by simp [Int64.le_iff_toInt_le]
  exact getKth_finds (counting_exact_of_length (by decide)) (by decide) (by decide) (by decide)
    ⟨List.mem_of_elem_eq_true (by decide), hleast⟩
    ⟨List.mem_of_elem_eq_true (by decide), hgreatest⟩ () 4

/-- `n` zeros and `n` largest numbers. -/
def extremes (n : Nat) : List Int64 := List.replicate n 0 ++ List.replicate n Int64.maxValue

/-- The counts in `extremes (2 ^ 62)`. -/
def extremesSearch : Search Unit := fun s g =>
  ((if g ≤ 0 then 0 else 2 ^ 62, if g = 0 ∨ g = Int64.maxValue then 2 ^ 62 else 0), s)

theorem below_extremes (n : Nat) (g : Int64) :
    below (extremes n) g = if g ≤ 0 then 0 else n := by
  have hmax : ¬ Int64.maxValue < g := Int64.not_lt.mpr (Int64.le_maxValue g)
  rw [extremes, below_append, below, below, List.countP_replicate, List.countP_replicate]
  by_cases hg : g ≤ 0
  · simp [hg, hmax]
  · simp [hg, hmax, Int64.not_le.mp hg]

theorem count_extremes (n : Nat) (g : Int64) :
    (extremes n).count g = if g = 0 ∨ g = Int64.maxValue then n else 0 := by
  have hne : Int64.maxValue ≠ 0 := by decide
  rw [extremes, List.count_append, List.count_replicate, List.count_replicate]
  by_cases hzero : g = 0
  · simp [hzero, hne]
  · by_cases hmax : g = Int64.maxValue
    · simp [hmax, hne.symm]
    · simp [hzero, hmax, Ne.symm hzero, Ne.symm hmax]

theorem extremesSearch_exact : Exact (extremes (2 ^ 62)) extremesSearch := by
  have hzero : (0 : Int64).toInt = (0 : Nat) := by decide
  have hhalf : (2 ^ 62 : Int64).toInt = (2 ^ 62 : Nat) := by decide +kernel
  constructor
  · intro s g
    rw [below_extremes, extremesSearch, apply_ite Int64.toInt, hzero, hhalf, ← apply_ite]
  · intro s g
    rw [count_extremes, extremesSearch, apply_ite Int64.toInt, hzero, hhalf, ← apply_ite]

/-- With `2 ^ 63` numbers the sum of the two counts wraps, and the largest is never found. -/
theorem getKth_gives_up :
    Exact (extremes (2 ^ 62)) extremesSearch ∧ (extremes (2 ^ 62)).length = 2 ^ 63 ∧
      IsLeast {y | y ∈ extremes (2 ^ 62)} 0 ∧
      IsGreatest {y | y ∈ extremes (2 ^ 62)} Int64.maxValue ∧
      ∀ count, ∃ y, (getKth extremesSearch () (2 ^ 62 + 1) count 0 Int64.maxValue).result =
          .ok (y, false) ∧
        (getKth extremesSearch () (2 ^ 62 + 1) count 0 Int64.maxValue).queries.length = 101 := by
  have hmem : ∀ y, y ∈ extremes (2 ^ 62) ↔ y = 0 ∨ y = Int64.maxValue := by
    intro y
    rw [extremes, List.mem_append, List.mem_replicate, List.mem_replicate]
    simp
  refine ⟨extremesSearch_exact, ?_, ?_, ?_, ?_⟩
  · rw [extremes, List.length_append, List.length_replicate, List.length_replicate]
    rfl
  · refine ⟨(hmem 0).mpr (.inl rfl), ?_⟩
    intro y hy
    rcases (hmem y).mp hy with rfl | rfl <;> decide
  · refine ⟨(hmem _).mpr (.inr rfl), ?_⟩
    intro y _
    exact Int64.le_maxValue y
  · intro count
    have hresult : (getKthLoop extremesSearch (2 ^ 62 + 1) 100 () Int64.maxValue 0
        Int64.maxValue).result.toOption = some (9223372036317904895, false) := by
      decide +kernel
    have hcount : (getKthLoop extremesSearch (2 ^ 62 + 1) 100 () Int64.maxValue 0
        Int64.maxValue).queries.length = 101 := by
      decide +kernel
    exact ⟨9223372036317904895, Outcome.eq_ok_of_toOption hresult, hcount⟩

/-!
### Answers that contradict one another

Where `search` may answer anything, an answer is a step of the loop. An answer that fewer than `k`
numbers reach the guess, given about the upper bound itself, empties the interval, and the assertion
stands before the loop looks at the bounds again.
-/

/-- The loop of `getKth` after some answers: `search` is asked about the guess, or the loop is left. -/
inductive KthLoop
  | searching (steps : Nat) (guess min max : Int64)
  | returned (guess : Int64) (succeed : Bool)
  deriving DecidableEq, Repr

namespace KthLoop

/-- `while (min <= max)` -/
def head (steps : Nat) (guess min max : Int64) : KthLoop :=
  if min ≤ max then .searching steps guess min max else .returned guess false

def start (min max : Int64) : KthLoop := head 0 max min max

/-- The answer is about the guess, and its numbers are not negative. -/
def enabled : KthLoop → Query → Prop
  | searching _ guess _ _, q => q.guess = guess ∧ 0 ≤ q.smaller ∧ 0 ≤ q.same
  | returned .., _ => False

/-- The body of the loop, from the answer on. -/
def step (k : Int64) : KthLoop → Query → Except Fault KthLoop
  | searching steps guess min max, q =>
    if steps + 1 > 100 then .ok (.returned guess false)
    else if q.Hits k then .ok (.returned guess true)
    else match narrow k q min max with
      | none => .ok (.returned guess false)
      | some (min, max) =>
        let guess := Int64.midpoint min max
        if min ≤ guess ∧ guess ≤ max then .ok (head (steps + 1) guess min max)
        else .error .assertion
  | returned guess succeed, _ => .ok (.returned guess succeed)

def machine (k : Int64) : Machine KthLoop Query Fault := ⟨enabled, step k⟩

/-- A guess may be called too low only if it is below the upper bound. -/
def Allows (k : Int64) (q : Query) : KthLoop → Prop
  | searching steps guess _ max => steps < 100 → q.Low k → guess < max
  | returned .. => True

end KthLoop

section

variable {search : Search σ} {k guess min max x : Int64} {left : Nat} {s : σ} {q : Query}

theorem getKthLoop_length :
    (getKthLoop search k left s guess min max).queries.length ≤ left + 1 := by
  fun_induction getKthLoop search k left s guess min max with
  | case4 left s guess min max hle q t hmiss min' max' hn g hg ih => exact Nat.succ_le_succ ih
  | _ => simp

theorem getKthLoop_last {g : Int64}
    (h : (getKthLoop search k left s guess min max).result = .ok (g, true)) :
    ∃ t, (asks search t g).Hits k ∧
      (getKthLoop search k left s guess min max).queries.getLast? = some (asks search t g) := by
  fun_induction getKthLoop search k left s guess min max with
  | case2 s guess min max hle q t left hhit =>
    cases h
    exact ⟨s, hhit, rfl⟩
  | case4 left s guess min max hle q t hmiss min' max' hn mid hmid ih =>
    obtain ⟨u, hhit, hlast⟩ := ih h
    refine ⟨u, hhit, ?_⟩
    rw [Kth.after, List.getLast?_cons, hlast]
    rfl
  | _ => cases h

theorem midpoint_inside (h : min ≤ max) :
    min ≤ Int64.midpoint min max ∧ Int64.midpoint min max ≤ max :=
  ⟨Int64.le_midpoint h, Int64.midpoint_le h⟩

/-- The assertion fails after just the answers that empty the interval; at the largest number the
lower bound wraps to the smallest instead. -/
theorem narrow_outside {min' max' : Int64} (hq : q.guess = guess) (hmin : min ≤ guess)
    (hmax : guess ≤ max) (hn : narrow k q min max = some (min', max')) :
    ¬ (min' ≤ Int64.midpoint min' max' ∧ Int64.midpoint min' max' ≤ max') ↔
      q.Low k ∧ guess = max ∧ guess < Int64.maxValue := by
  subst hq
  rcases narrow_eq_some hn with ⟨hlow, rfl, rfl⟩ | ⟨hhigh, rfl, rfl⟩
  · by_cases htop : q.guess < Int64.maxValue
    · by_cases heq : q.guess = max'
      · have hout := Int64.midpoint_succ_outside htop
        rw [heq] at hout htop ⊢
        exact ⟨fun _ => ⟨hlow, rfl, htop⟩, fun _ => hout⟩
      · have hle : q.guess + 1 ≤ max' := by
          have hlt := Int64.lt_iff_toInt_lt.mp (lt_of_le_of_ne hmax heq)
          rw [Int64.le_iff_toInt_le, Int64.toInt_succ htop]
          omega
        simp [midpoint_inside hle, heq]
    · have hwrap : q.guess + 1 = Int64.minValue := by
        have heq := le_antisymm (Int64.le_maxValue q.guess) (not_lt.mp htop)
        rw [heq]
        decide
      have hle : q.guess + 1 ≤ max' := hwrap ▸ Int64.minValue_le max'
      simp [midpoint_inside hle, htop]
  · simp [midpoint_inside hmin, hhigh.1]

/-- A hit among answers that are not negative is one without wrapping. -/
theorem Query.Hits.exact (h : q.Hits k) (hsmaller : 0 ≤ q.smaller) (hsame : 0 ≤ q.same) :
    q.smaller.toInt < k.toInt ∧ k.toInt ≤ q.smaller.toInt + q.same.toInt := by
  have hlt := Int64.lt_iff_toInt_lt.mp h.1
  have hle := Int64.le_iff_toInt_le.mp h.2
  have hsmaller' := Int64.le_iff_toInt_le.mp hsmaller
  have hsame' := Int64.le_iff_toInt_le.mp hsame
  rw [Int64.toInt_zero] at hsmaller' hsame'
  refine ⟨hlt, ?_⟩
  -- a sum that wrapped would be negative, and `k` is positive
  by_contra hgt
  have hk := k.toInt_lt
  have hfits : (q.smaller.toInt + q.same.toInt).bmod (2 ^ 64) = q.smaller.toInt + q.same.toInt := by
    apply Int.bmod_eq_of_le <;> omega
  rw [Int64.toInt_add, hfits] at hle
  exact hgt hle

namespace KthLoop

variable {steps : Nat} {t : KthLoop} {ls : List Query}

/-- What an answer leads to. -/
theorem step_cases (hs : step k (.searching steps guess min max) q = .ok t) :
    t = .returned guess false ∨ (t = .returned guess true ∧ q.Hits k) ∨
      steps < 100 ∧ ∃ min' max', t = .searching (steps + 1) (Int64.midpoint min' max') min' max' ∧
        min' ≤ Int64.midpoint min' max' ∧ Int64.midpoint min' max' ≤ max' := by
  rw [step] at hs
  split at hs
  · exact .inl (Except.ok.inj hs).symm
  · rename_i hsteps
    split at hs
    · rename_i hhit
      exact .inr (.inl ⟨(Except.ok.inj hs).symm, hhit⟩)
    · split at hs
      · exact .inl (Except.ok.inj hs).symm
      · rename_i min' max' hn
        dsimp only at hs
        split at hs
        · rename_i hmid
          obtain rfl := Except.ok.inj hs
          refine .inr (.inr ⟨by omega, min', max', ?_, hmid⟩)
          exact if_pos (hmid.1.trans hmid.2)
        · cases hs

/-- The assertion fails where the guess is the upper bound and is called too low, but for the largest
number. -/
theorem step_ok_iff (hq : q.guess = guess) (hmin : min ≤ guess) (hmax : guess ≤ max) :
    (∃ t, step k (.searching steps guess min max) q = .ok t) ↔
      (steps < 100 → q.Low k → ¬ (guess = max ∧ guess < Int64.maxValue)) := by
  rw [step]
  split
  · rename_i hsteps
    exact ⟨fun _ h => absurd h (by omega), fun _ => ⟨_, rfl⟩⟩
  · rename_i hsteps
    have hsteps' : steps < 100 := by omega
    split
    · rename_i hhit
      exact ⟨fun _ _ hlow => absurd hlow (not_lt.mpr hhit.2), fun _ => ⟨_, rfl⟩⟩
    · split
      · rename_i hn
        refine ⟨fun _ _ hlow => ?_, fun _ => ⟨_, rfl⟩⟩
        cases (if_pos hlow).symm.trans hn
      · rename_i min' max' hn
        have hout := narrow_outside hq hmin hmax hn
        dsimp only
        split
        · rename_i hmid
          refine ⟨fun _ _ hlow htop => ?_, fun _ => ⟨_, rfl⟩⟩
          exact hout.mpr ⟨hlow, htop⟩ hmid
        · rename_i hmid
          obtain ⟨hlow, htop⟩ := hout.mp hmid
          constructor
          · rintro ⟨t, ht⟩
            cases ht
          · intro h
            exact absurd htop (h hsteps' hlow)

/-- What holds after some answers. -/
def Answered (k : Int64) (ls : List Query) : KthLoop → Prop
  | searching steps guess min max => ls.length = steps ∧ steps ≤ 100 ∧ min ≤ guess ∧ guess ≤ max
  | returned guess succeed => ls.length ≤ 101 ∧ (succeed = true →
      ∃ q, ls.getLast? = some q ∧ q.guess = guess ∧ q.smaller.toInt < k.toInt ∧
        k.toInt ≤ q.smaller.toInt + q.same.toInt)

theorem Answered.step {l : KthLoop} (hi : l.Answered k ls) (he : l.enabled q)
    (hs : l.step k q = .ok t) : t.Answered k (ls ++ [q]) := by
  cases l with
  | returned => cases he
  | searching steps guess min max =>
    obtain ⟨hlen, hsteps, hmin, hmax⟩ := hi
    have hlen' : (ls ++ [q]).length = steps + 1 := by
      rw [List.length_append, hlen]
      rfl
    obtain rfl | ⟨rfl, hhit⟩ | ⟨hlt, min', max', rfl, hmid⟩ := step_cases hs
    · refine ⟨by omega, ?_⟩
      intro h
      cases h
    · refine ⟨by omega, fun _ => ⟨q, List.getLast?_concat, he.1, ?_⟩⟩
      exact hhit.exact he.2.1 he.2.2
    · exact ⟨hlen', hlt, hmid⟩

theorem run_answered {low high : Int64} {l : KthLoop} (h : Run (machine k) (start low high) ls l) :
    l.Answered k ls := by
  refine h.records (I := fun ls l => l.Answered k ls) ?_ ?_
  · intro ls l q t hi he hs
    exact hi.step he hs
  · unfold start head
    split
    · rename_i hle
      exact ⟨rfl, Nat.zero_le _, hle, le_refl _⟩
    · refine ⟨Nat.zero_le _, ?_⟩
      intro h
      cases h

/-- An answer goes well, and leads to no `guess + 1` beyond `int64_t`, if and only if it calls no
guess too low that is the upper bound. -/
theorem answer_iff (hq : q.guess = guess) (hmin : min ≤ guess) (hmax : guess ≤ max) :
    ((∃ t, step k (.searching steps guess min max) q = .ok t) ∧
      (steps < 100 → q.Low k → (guess + 1).toInt = guess.toInt + 1)) ↔
      Allows k q (.searching steps guess min max) := by
  rw [step_ok_iff hq hmin hmax]
  constructor
  · rintro ⟨hout, hfits⟩ hsteps hlow
    by_contra hnot
    have heq : guess = max := le_antisymm hmax (not_lt.mp hnot)
    have htop : guess = Int64.maxValue := by
      by_contra hne
      exact hout hsteps hlow ⟨heq, lt_of_le_of_ne (Int64.le_maxValue guess) hne⟩
    rw [htop] at hfits
    exact absurd (hfits hsteps hlow) (by decide)
  · intro hallows
    constructor
    · rintro hsteps hlow ⟨rfl, _⟩
      exact lt_irrefl _ (hallows hsteps hlow)
    · intro hsteps hlow
      exact Int64.toInt_succ ((hallows hsteps hlow).trans_le (Int64.le_maxValue max))

end KthLoop

/-- The calls of `search` are answers to the loop, up to the last, after which it is left or the
assertion fails. -/
def Kth.Runs (k : Int64) (l : KthLoop) (r : Kth σ) : Prop :=
  match r.result with
  | .ok (guess, succeed) => Run (KthLoop.machine k) l r.queries (.returned guess succeed)
  | .error f => ∃ pre q t, r.queries = pre ++ [q] ∧ Run (KthLoop.machine k) l pre t ∧
      t.enabled q ∧ t.step k q = .error f

theorem Kth.Runs.after {l t : KthLoop} {r : Kth σ} (h : r.Runs k t) (he : l.enabled q)
    (hs : l.step k q = .ok t) : (r.after q).Runs k l := by
  unfold Kth.Runs Kth.after at *
  dsimp only
  cases hresult : r.result with
  | ok v =>
    rw [hresult] at h
    exact .cons he hs h
  | error f =>
    rw [hresult] at h
    obtain ⟨pre, q', u, hqueries, hr, hlast⟩ := h
    exact ⟨q :: pre, q', u, by rw [hqueries]; rfl, .cons he hs hr, hlast⟩

theorem getKthLoop_runs (hsmaller : ∀ s g, 0 ≤ (search s g).1.1)
    (hsame : ∀ s g, 0 ≤ (search s g).1.2) (hleft : left ≤ 100) :
    (getKthLoop search k left s guess min max).Runs k (.head (100 - left) guess min max) := by
  have henabled : ∀ steps s guess min max,
      KthLoop.enabled (.searching steps guess min max) (asks search s guess) := by
    intro steps s guess min max
    exact ⟨rfl, hsmaller s guess, hsame s guess⟩
  fun_induction getKthLoop search k left s guess min max with
  | case1 s guess min max hle q t =>
    rw [KthLoop.head, if_pos hle]
    exact .cons (henabled 100 s guess min max) rfl (.nil _)
  | case2 s guess min max hle q t left hhit =>
    rw [KthLoop.head, if_pos hle]
    exact .cons (henabled (100 - (left + 1)) s guess min max)
      ((if_neg (by omega)).trans (if_pos hhit)) (.nil _)
  | case3 s guess min max hle q t left hmiss hn =>
    rw [KthLoop.head, if_pos hle]
    refine .cons (henabled (100 - (left + 1)) s guess min max)
      ((if_neg (by omega)).trans ((if_neg hmiss).trans ?_)) (.nil _)
    rw [hn]
  | case4 s guess min max hle q t left hmiss min' max' hn mid hmid ih =>
    rw [KthLoop.head, if_pos hle]
    refine (ih (by omega)).after (henabled (100 - (left + 1)) s guess min max) ?_
    refine (if_neg (by omega)).trans ((if_neg hmiss).trans ?_)
    rw [hn]
    have hsteps : 100 - (left + 1) + 1 = 100 - left := by omega
    rw [hsteps]
    exact if_pos hmid
  | case5 s guess min max hle q t left hmiss min' max' hn mid hmid =>
    rw [KthLoop.head, if_pos hle]
    refine ⟨[], q, _, rfl, .nil _, henabled _ s guess min max, ?_⟩
    refine (if_neg (by omega)).trans ((if_neg hmiss).trans ?_)
    rw [hn]
    exact if_neg hmid
  | case6 left s guess min max hle =>
    rw [KthLoop.head, if_neg hle]
    exact .nil _

/-- Whatever `search` answers, `getKth` ends after at most 101 calls, and it succeeds only with a
guess of rank `k` by the last answer. Its calls are answers to the loop. There an answer makes no
assertion fail, and nothing overflows when the guess is raised, if and only if it calls no guess too
low that is the upper bound; if no answer does, `getKth` returns. -/
theorem getKth_clean_iff (hsmaller : ∀ s g, 0 ≤ (search s g).1.1)
    (hsame : ∀ s g, 0 ≤ (search s g).1.2) (s : σ) (count : Int64) :
    (getKth search s k count min max).queries.length ≤ 101 ∧
    (∀ g, (getKth search s k count min max).result = .ok (g, true) →
      ∃ q, (getKth search s k count min max).queries.getLast? = some q ∧ q.guess = g ∧
        q.smaller.toInt < k.toInt ∧ k.toInt ≤ q.smaller.toInt + q.same.toInt) ∧
    (getKth search s k count min max).Runs k (.start min max) ∧
    (∀ steps guess low high q,
      Reachable (KthLoop.machine k) (.start min max) (.searching steps guess low high) →
      KthLoop.enabled (.searching steps guess low high) q →
      (((∃ t, KthLoop.step k (.searching steps guess low high) q = .ok t) ∧
        (steps < 100 → q.Low k → (guess + 1).toInt = guess.toInt + 1)) ↔
      (steps < 100 → q.Low k → guess < high))) ∧
    ((∀ pre q l, pre ++ [q] <+: (getKth search s k count min max).queries →
      Run (KthLoop.machine k) (.start min max) pre l → l.Allows k q) →
      ∃ v, (getKth search s k count min max).result = .ok v) := by
  have hruns : (getKth search s k count min max).Runs k (.start min max) :=
    getKthLoop_runs hsmaller hsame (le_refl 100)
  refine ⟨getKthLoop_length, ?_, hruns, ?_, ?_⟩
  · intro g hg
    obtain ⟨t, hhit, hlast⟩ := getKthLoop_last hg
    exact ⟨_, hlast, rfl, hhit.exact (hsmaller t g) (hsame t g)⟩
  · rintro steps guess low high q ⟨ls, hr⟩ he
    obtain ⟨_, _, hmin, hmax⟩ := KthLoop.run_answered hr
    exact KthLoop.answer_iff he.1 hmin hmax
  · intro hallows
    unfold Kth.Runs at hruns
    cases hresult : (getKth search s k count min max).result with
    | ok v => exact ⟨v, rfl⟩
    | error f =>
      rw [hresult] at hruns
      obtain ⟨pre, q, l, hqueries, hr, he, hs⟩ := hruns
      have hallowed := hallows pre q l (hqueries ▸ List.prefix_rfl) hr
      cases l with
      | returned => cases he
      | searching steps guess low high =>
        obtain ⟨_, _, hmin, hmax⟩ := KthLoop.run_answered hr
        obtain ⟨⟨t, ht⟩, _⟩ := (KthLoop.answer_iff he.1 hmin hmax).mpr hallowed
        cases hs.symm.trans ht

end

theorem getKth_clean_iff_three :
    (getKth (fun (_ : Unit) _ => ((2, 1), ())) () 3 4 1 4).queries.length ≤ 101 ∧
      (∃ v, (getKth (fun (_ : Unit) _ => ((2, 1), ())) () 3 4 1 4).result = .ok v) ∧
      ∃ t, KthLoop.step 3 (.searching 0 4 1 4) ⟨4, 2, 1⟩ = .ok t := by
  have hstart : KthLoop.start 1 4 = .searching 0 4 1 4 := by decide
  have hqueries : (getKth (fun (_ : Unit) _ => ((2, 1), ())) () 3 4 1 4).queries = [⟨4, 2, 1⟩] := rfl
  have hhigh : ¬ Query.Low ⟨4, 2, 1⟩ 3 := by decide
  obtain ⟨hlength, _, _, hstep, hreturns⟩ := @getKth_clean_iff Unit (fun _ _ => ((2, 1), ())) 3 1 4
    (fun _ _ => by decide) (fun _ _ => by decide) () 4
  refine ⟨hlength, hreturns ?_, ?_⟩
  · intro pre q l hpre hr
    rw [hqueries] at hpre
    have hone : q ∈ [(⟨4, 2, 1⟩ : Query)] := hpre.subset (by simp)
    obtain rfl := List.mem_singleton.mp hone
    cases l with
    | searching steps guess low high => exact fun _ hlow => absurd hlow hhigh
    | returned => trivial
  · rw [hstart] at hstep
    have hfine := hstep 0 4 1 4 ⟨4, 2, 1⟩ .refl ⟨rfl, by decide, by decide⟩
    exact (hfine.mpr fun _ hlow => absurd hlow hhigh).1

/-- The only number was 5 when `max` was asked for, and is larger now. -/
theorem getKth_asserts :
    (getKth (fun (_ : Unit) _ => ((0, 0), ())) () 1 1 5 5).result = .error .assertion := by
  rfl

end MuduoNet.Median
