import MuduoNet.Lib.Machine
import Mathlib.Algebra.Ring.Nat

/-!
# Potentials

A potential bounds the work of a run: each step pays its weight out of the potential, and may be
given an allowance.
-/
namespace MuduoNet.Lib

universe u v

variable {σ : Type} {ℓ : Type u} {φ : Type v} {M : Machine σ ℓ φ} {I : σ → Prop}
  {potential : σ → Nat} {weight allowance : ℓ → Nat}

/-- What every step pays, a run pays in all. -/
theorem Run.pays
    (hinv : ∀ s l t, I s → M.enabled s l → M.step s l = .ok t → I t)
    (hstep : ∀ s l t, I s → M.enabled s l → M.step s l = .ok t →
      weight l + potential t ≤ potential s + allowance l)
    {s t : σ} {ls : List ℓ} (h : Run M s ls t) (hi : I s) :
    (ls.map weight).sum + potential t ≤ potential s + (ls.map allowance).sum := by
  induction h with
  | nil => simp
  | cons he hs _ ih =>
    have hfirst := hstep _ _ _ hi he hs
    have hrest := ih (hinv _ _ _ hi he hs)
    simp only [List.map_cons, List.sum_cons]
    omega

theorem sum_map_toNat {α : Type u} (p : α → Bool) (xs : List α) (k : Nat) :
    (xs.map fun x => k * (p x).toNat).sum = k * xs.countP p := by
  induction xs with
  | nil => rfl
  | cons x xs ih =>
    rw [List.map_cons, List.sum_cons, ih, List.countP_cons]
    cases p x <;> simp [Nat.mul_add, Nat.add_comm]

/-- If every step of one kind is paid for, a run has no more of them than it began with and was
given. -/
theorem Run.counts {p : ℓ → Bool}
    (hinv : ∀ s l t, I s → M.enabled s l → M.step s l = .ok t → I t)
    (hstep : ∀ s l t, I s → M.enabled s l → M.step s l = .ok t →
      (p l).toNat + potential t ≤ potential s + allowance l)
    {s t : σ} {ls : List ℓ} (h : Run M s ls t) (hi : I s) :
    ls.countP p + potential t ≤ potential s + (ls.map allowance).sum := by
  have hpays : (ls.map fun l => 1 * (p l).toNat).sum + potential t ≤
      potential s + (ls.map allowance).sum := by
    apply h.pays hinv _ hi
    intro s l t hi he hs
    rw [Nat.one_mul]
    exact hstep s l t hi he hs
  rw [sum_map_toNat, Nat.one_mul] at hpays
  exact hpays

end MuduoNet.Lib
