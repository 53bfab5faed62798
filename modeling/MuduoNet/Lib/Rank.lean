import Mathlib.Data.List.Sort
import Mathlib.Data.List.Count

/-!
# Ranks in a list

How many elements of a list lie below a value, and how many do not lie above it. A value has
rank `k` when the `k`-th place of the sorted list falls between the two counts; this settles
the value, and the sorted list has it there.
-/
namespace MuduoNet.Lib

variable {α : Type} [LinearOrder α] {D E : List α} {k : Nat} {x y g : α}

def below (D : List α) (x : α) : Nat := D.countP (· < x)

def upto (D : List α) (x : α) : Nat := D.countP (· ≤ x)

/-- The places of `x` in the sorted list are those after `below D x` up to `upto D x`. -/
structure HasRank (D : List α) (k : Nat) (x : α) : Prop where
  below : below D x < k
  upto : k ≤ upto D x

theorem upto_eq (D : List α) (x : α) : upto D x = below D x + D.count x := by
  induction D with
  | nil => rfl
  | cons y D ih =>
    unfold upto below at ih ⊢
    rw [List.countP_cons, List.countP_cons, List.count_cons, ih]
    rcases lt_trichotomy y x with h | h | h
    · simp [h, h.le, h.ne]
      omega
    · simp [h]
      omega
    · simp [h.not_gt, h.not_ge, h.ne']

theorem upto_le_length (D : List α) (x : α) : upto D x ≤ D.length := List.countP_le_length

theorem below_append (D E : List α) (x : α) : below (D ++ E) x = below D x + below E x :=
  List.countP_append

theorem below_perm (h : D.Perm E) (x : α) : below D x = below E x := h.countP_eq _

theorem upto_perm (h : D.Perm E) (x : α) : upto D x = upto E x := h.countP_eq _

theorem upto_le_below (D : List α) (h : x < y) : upto D x ≤ below D y := by
  apply List.countP_mono_left
  intro z _ hz
  exact decide_eq_true ((of_decide_eq_true hz).trans_lt h)

theorem HasRank.unique (hx : HasRank D k x) (hy : HasRank D k y) : x = y := by
  rcases lt_trichotomy x y with h | h | h
  · have hle := upto_le_below D h
    have hk := hx.upto
    have hlt := hy.below
    omega
  · exact h
  · have hle := upto_le_below D h
    have hk := hy.upto
    have hlt := hx.below
    omega

theorem HasRank.perm (h : HasRank D k x) (hp : D.Perm E) : HasRank E k x := by
  constructor
  · rw [← below_perm hp]
    exact h.below
  · rw [← upto_perm hp]
    exact h.upto

/-- In an ascending list an element has the rank of its place. -/
theorem hasRank_middle {l r : List α} (hs : (l ++ x :: r).Pairwise (· ≤ ·)) :
    HasRank (l ++ x :: r) (l.length + 1) x := by
  rw [List.pairwise_append, List.pairwise_cons] at hs
  obtain ⟨_, ⟨hafter, _⟩, hbefore⟩ := hs
  constructor
  · have hnone : r.countP (· < x) = 0 := by
      apply List.countP_eq_zero.mpr
      intro z hz hlt
      exact not_lt_of_ge (hafter z hz) (of_decide_eq_true hlt)
    have hfront : l.countP (· < x) ≤ l.length := List.countP_le_length
    unfold Lib.below
    rw [List.countP_append, List.countP_cons, hnone]
    simp only [lt_self_iff_false, decide_false, Bool.false_eq_true, if_false]
    omega
  · have hall : l.countP (· ≤ x) = l.length := by
      apply List.countP_eq_length.mpr
      intro z hz
      exact decide_eq_true (hbefore z hz x List.mem_cons_self)
    unfold Lib.upto
    rw [List.countP_append, List.countP_cons, hall]
    simp only [le_refl, decide_true, if_true]
    omega

theorem hasRank_getElem {s : List α} (hs : s.Pairwise (· ≤ ·)) (hk : k < s.length) :
    HasRank s (k + 1) s[k] := by
  have hsplit : s.take k ++ s[k] :: s.drop (k + 1) = s := by simp
  have hlen : (s.take k).length = k := List.length_take_of_le hk.le
  have h := hasRank_middle (hsplit.symm ▸ hs)
  rwa [hsplit, hlen] at h

/-- In an ascending list the elements with a property that smaller elements share come first. -/
theorem findIdx_not_eq_countP {p : α → Bool} (hp : ∀ y z, y ≤ z → p z = true → p y = true)
    (hs : D.Pairwise (· ≤ ·)) : D.findIdx (fun y => !p y) = D.countP p := by
  induction D with
  | nil => rfl
  | cons y D ih =>
    obtain ⟨hle, hD⟩ := List.pairwise_cons.mp hs
    rw [List.findIdx_cons, List.countP_cons, ih hD]
    cases hy : p y with
    | true => simp
    | false =>
      have hnone : D.countP p = 0 := by
        apply List.countP_eq_zero.mpr
        intro z hz hpz
        rw [hp y z (hle z hz) hpz] at hy
        cases hy
      simp [hnone]

def sorted (D : List α) : List α := D.mergeSort (· ≤ ·)

theorem sorted_perm (D : List α) : (sorted D).Perm D := List.mergeSort_perm D _

theorem sorted_pairwise (D : List α) : (sorted D).Pairwise (· ≤ ·) := by
  have h := @List.pairwise_mergeSort α (fun a b => decide (a ≤ b))
    (by simpa using fun a b c => le_trans) (by simpa using le_total) D
  simpa [sorted] using h

theorem hasRank_iff (hk : k - 1 < (sorted D).length) (hpos : 0 < k) :
    HasRank D k x ↔ (sorted D)[k - 1] = x := by
  have hrank : HasRank D k (sorted D)[k - 1] := by
    have h := hasRank_getElem (sorted_pairwise D) hk
    rw [Nat.sub_add_cancel hpos] at h
    exact h.perm (sorted_perm D)
  constructor
  · exact hrank.unique
  · rintro rfl
    exact hrank

end MuduoNet.Lib
