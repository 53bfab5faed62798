import MuduoNet.Median.Kth

/-!
# The signed operations of `getKth`

Besides comparing, the loop adds the two counts, adds one to the guess, and subtracts the bounds;
only after that is the difference cast to `uint64_t`. The first difference is that of the smallest
and the largest number, unless the largest is the answer; the later ones are smaller.
-/
namespace MuduoNet.Median

open Lib

variable {σ : Type}

/-- The exact results of the signed operations of the loop. Where a sum or a difference does not fit,
the loop goes on with the wrapped one. -/
def signedOps (search : Search σ) (k : Int64) : Nat → σ → Int64 → Int64 → Int64 → List Int
  | 0, _, _, _, _ => []
  | left + 1, s, guess, min, max =>
    if min ≤ max then
      let q := asks search s guess
      let s := (search s guess).2
      (q.smaller.toInt + q.same.toInt) ::
        if q.Hits k then []
        else (if q.Low k then [guess.toInt + 1] else []) ++
          match narrow k q min max with
          | none => []
          | some (min, max) =>
            let guess := Int64.midpoint min max
            (max.toInt - min.toInt) ::
              if min ≤ guess ∧ guess ≤ max then signedOps search k left s guess min max else []
    else []

def getKthOps (search : Search σ) (s : σ) (k min max : Int64) : List Int :=
  signedOps search k 100 s max min max

/-- The value of an `int64_t`. -/
def InRange (v : Int) : Prop := -2 ^ 63 ≤ v ∧ v < 2 ^ 63

instance (v : Int) : Decidable (InRange v) := inferInstanceAs (Decidable (_ ∧ _))

section

variable {D : List Int64} {search : Search σ} {k guess min max x : Int64} {s : σ} {K left : Nat}

theorem signedOps_hit (hle : min ≤ max) (hhit : (asks search s guess).Hits k) :
    signedOps search k (left + 1) s guess min max =
      [(asks search s guess).smaller.toInt + (asks search s guess).same.toInt] := by
  rw [signedOps, if_pos hle]
  dsimp only
  rw [if_pos hhit]

theorem signedOps_next {min' max' : Int64} (hle : min ≤ max)
    (hmiss : ¬ (asks search s guess).Hits k)
    (hn : narrow k (asks search s guess) min max = some (min', max')) (hin : min' ≤ max') :
    signedOps search k (left + 1) s guess min max =
      ((asks search s guess).smaller.toInt + (asks search s guess).same.toInt) ::
        ((if (asks search s guess).Low k then [guess.toInt + 1] else []) ++
          (max'.toInt - min'.toInt) ::
            signedOps search k left (search s guess).2 (Int64.midpoint min' max') min' max') := by
  have hmid := And.intro (Int64.le_midpoint hin) (Int64.midpoint_le hin)
  rw [signedOps, if_pos hle]
  dsimp only
  rw [if_neg hmiss, hn]
  dsimp only
  rw [if_pos hmid]

/-- The sum of the two counts is the number of values up to the guess. -/
theorem Exact.sum_eq (he : Exact D search) :
    (asks search s guess).smaller.toInt + (asks search s guess).same.toInt = upto D guess := by
  have hsmaller : (asks search s guess).smaller.toInt = below D guess := he.smaller s guess
  have hsame : (asks search s guess).same.toInt = D.count guess := he.same s guess
  rw [hsmaller, hsame, upto_eq, Int.natCast_add]

theorem inRange_upto (hlen : D.length < 2 ^ 63) (guess : Int64) : InRange (upto D guess) := by
  have hle := upto_le_length D guess
  unfold InRange
  omega

/-- Between bounds whose distance fits, no operation leaves the range. -/
theorem signedOps_inRange (he : Exact D search) (hlen : D.length < 2 ^ 63) (hk : k.toInt = K)
    (hx : HasRank D K x) (hmin : min ≤ x) (hmax : x ≤ max) (hlow : min ≤ guess) (hhigh : guess ≤ max)
    (hwidth : max.toInt - min.toInt < 2 ^ 63) :
    ∀ v ∈ signedOps search k left s guess min max, InRange v := by
  induction left generalizing s guess min max with
  | zero =>
    intro v hv
    cases hv
  | succ left ih =>
    have hle := hmin.trans hmax
    have hsum := inRange_upto hlen guess
    by_cases heq : guess = x
    · rw [signedOps_hit hle ((he.hits_iff hlen hk hx).mpr heq), he.sum_eq]
      intro v hv
      rw [List.mem_singleton.mp hv]
      exact hsum
    have hmiss := mt (he.hits_iff hlen hk hx (s := s)).mp heq
    have hmin' := Int64.le_iff_toInt_le.mp hmin
    have hmax' := Int64.le_iff_toInt_le.mp hmax
    have hlow' := Int64.le_iff_toInt_le.mp hlow
    have hhigh' := Int64.le_iff_toInt_le.mp hhigh
    rcases lt_or_gt_of_ne heq with hlt | hgt
    · have hlt' := Int64.lt_iff_toInt_lt.mp hlt
      have hsucc := Int64.toInt_succ (hlt.trans_le (Int64.le_maxValue x))
      have hnext : guess + 1 ≤ x := by
        rw [Int64.le_iff_toInt_le, hsucc]
        omega
      have hmid := hnext.trans hmax
      have hdiff : max.toInt - (guess + 1).toInt < 2 ^ 63 := by
        rw [hsucc]
        omega
      have hrest := ih (s := (search s guess).2) hnext hmax (Int64.le_midpoint hmid)
        (Int64.midpoint_le hmid) hdiff
      rw [signedOps_next hle hmiss (he.narrow_low hlen hk hx hlt) hmid, he.sum_eq]
      have hxlt := x.toInt_lt
      have hguess := guess.le_toInt
      intro v hv
      rw [List.mem_cons, List.mem_append, List.mem_cons] at hv
      rcases hv with rfl | hv | rfl | hv
      · exact hsum
      · split at hv
        · rw [List.mem_singleton.mp hv]
          unfold InRange
          omega
        · cases hv
      · unfold InRange
        rw [hsucc] at hdiff ⊢
        omega
      · exact hrest v hv
    · have hdiff : guess.toInt - min.toInt < 2 ^ 63 := by omega
      have hmid := hmin.trans hgt.le
      have hrest := ih (s := (search s guess).2) hmin hgt.le (Int64.le_midpoint hmid)
        (Int64.midpoint_le hmid) hdiff
      rw [signedOps_next hle hmiss (he.narrow_high hlen hk hx hgt) hmid, he.sum_eq,
        if_neg (he.not_low hlen hk hx hgt), List.nil_append]
      intro v hv
      rw [List.mem_cons, List.mem_cons] at hv
      rcases hv with rfl | rfl | hv
      · exact hsum
      · unfold InRange
        omega
      · exact hrest v hv

/-- Every signed operation of `getKth` stays in range exactly if there are fewer than `2 ^ 63`
numbers, and either the largest one has the rank `k` or its distance from the smallest fits. -/
theorem getKth_in_range_iff (he : Exact D search) (hpos : 1 ≤ k) (hk : k.toInt ≤ D.length)
    (hmin : IsLeast {y | y ∈ D} min) (hmax : IsGreatest {y | y ∈ D} max) (s : σ) :
    (∀ v ∈ getKthOps search s k min max, InRange v) ↔
      D.length < 2 ^ 63 ∧ (below D max < k.toInt ∨ max.toInt - min.toInt < 2 ^ 63) := by
  obtain ⟨K, x, hK, hrank, hmem, _⟩ := exists_ranked hpos hk
  have hminx := hmin.2 hmem
  have hmaxx := hmax.2 hmem
  have hle := hminx.trans hmaxx
  have hall : upto D max = D.length := by
    rw [upto, List.countP_eq_length]
    intro y hy
    exact decide_eq_true (hmax.2 hy)
  -- the first guess is the largest number, and the first sum counts everything
  have hfirst : ((asks search s max).smaller.toInt + (asks search s max).same.toInt) ∈
      getKthOps search s k min max := by
    rw [getKthOps, signedOps, if_pos hle]
    exact List.mem_cons_self
  rw [he.sum_eq, hall] at hfirst
  constructor
  · intro hops
    have hlen : D.length < 2 ^ 63 := by
      have hin := (hops _ hfirst).2
      omega
    refine ⟨hlen, ?_⟩
    by_cases hbelow : below D max < k.toInt
    · exact .inl hbelow
    · right
      have hne : max ≠ x := by
        rintro rfl
        have hb := hrank.below
        omega
      have hmiss := mt (he.hits_iff hlen hK hrank (s := s)).mp hne
      have hhigh : narrow k (asks search s max) min max = some (min, max) :=
        he.narrow_high hlen hK hrank (lt_of_le_of_ne hmaxx (Ne.symm hne))
      have hdiff : max.toInt - min.toInt ∈ getKthOps search s k min max := by
        rw [getKthOps, signedOps_next hle hmiss hhigh hle]
        simp
      exact (hops _ hdiff).2
  · rintro ⟨hlen, hbelow | hwidth⟩
    · have hhit : (asks search s max).Hits k := by
        have hupto : K ≤ upto D max := by omega
        have heq : max = x := by
          have hmaxrank : HasRank D K max := ⟨by omega, hupto⟩
          exact hmaxrank.unique hrank
        exact (he.hits_iff hlen hK hrank).mpr heq
      rw [getKthOps, signedOps_hit hle hhit, he.sum_eq]
      intro v hv
      rw [List.mem_singleton.mp hv]
      exact inRange_upto hlen max
    · exact signedOps_inRange he hlen hK hrank hminx hmaxx hle le_rfl hwidth

end

/-- Numbers that are close to each other. -/
theorem getKth_in_range_iff_third : getKthOps (counting [4, 1, 4, 2]) () 3 1 4 ≠ [] ∧
    ∀ v ∈ getKthOps (counting [4, 1, 4, 2]) () 3 1 4, InRange v := by
  have hleast : ∀ y ∈ ([4, 1, 4, 2] : List Int64), 1 ≤ y := by simp [Int64.le_iff_toInt_le]
  have hgreatest : ∀ y ∈ ([4, 1, 4, 2] : List Int64), y ≤ 4 := by simp [Int64.le_iff_toInt_le]
  refine ⟨by decide +kernel, ?_⟩
  exact (getKth_in_range_iff (counting_exact_of_length (by decide)) (by decide) (by decide)
    ⟨List.mem_of_elem_eq_true (by decide), hleast⟩
    ⟨List.mem_of_elem_eq_true (by decide), hgreatest⟩ ()).mpr ⟨by decide, .inr (by decide)⟩

/-- The difference of the largest and the smallest `int64_t`. -/
theorem getKth_overflows :
    Exact [Int64.minValue, Int64.maxValue] (counting [Int64.minValue, Int64.maxValue]) ∧
      ∃ v ∈ getKthOps (counting [Int64.minValue, Int64.maxValue]) () 1 Int64.minValue Int64.maxValue,
        ¬ InRange v :=
  ⟨counting_exact_of_length (by decide), by decide +kernel⟩

end MuduoNet.Median
