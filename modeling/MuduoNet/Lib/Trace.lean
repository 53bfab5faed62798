import MuduoNet.Lib.Machine
import Mathlib.Data.Nat.Find

/-!
# Infinite runs

A `Trace` takes a step at every time. What happens eventually is proved along the first
occurrence of a step that must come, with what the steps before it keep.
-/
namespace MuduoNet.Lib

universe u v

structure Trace {σ : Type} {ℓ : Type u} {φ : Type v} (M : Machine σ ℓ φ) where
  state : ℕ → σ
  label : ℕ → ℓ
  enabled : ∀ n, M.enabled (state n) (label n)
  step : ∀ n, M.step (state n) (label n) = .ok (state (n + 1))

variable {σ : Type} {ℓ : Type u} {φ : Type v} {M : Machine σ ℓ φ}

/-- At every time a step of this kind is still to come. -/
def Trace.Recurs (τ : Trace M) (p : ℓ → Prop) : Prop := ∀ n, ∃ m, n ≤ m ∧ p (τ.label m)

/-- A step of the kind `p` that comes at some time comes a first time, and until then holds what
the other steps keep. -/
theorem Trace.first {P : σ → Prop} {p : ℓ → Prop}
    (hkeep : ∀ s l t, P s → M.enabled s l → M.step s l = .ok t → ¬ p l → P t) (τ : Trace M) {n : ℕ}
    (hP : P (τ.state n)) (hp : ∃ m, n ≤ m ∧ p (τ.label m)) :
    ∃ m, n ≤ m ∧ p (τ.label m) ∧ P (τ.state m) := by
  classical
  obtain ⟨hle, hfirst⟩ := Nat.find_spec hp
  have huntil : ∀ k, n + k ≤ Nat.find hp → P (τ.state (n + k)) := by
    intro k
    induction k with
    | zero => exact fun _ => hP
    | succ k ih =>
      intro hk
      have hno : ¬ p (τ.label (n + k)) := by
        intro hpk
        have hmin := Nat.find_min' hp ⟨Nat.le_add_right n k, hpk⟩
        omega
      exact hkeep _ _ _ (ih (by omega)) (τ.enabled _) (τ.step _) hno
  have h := huntil (Nat.find hp - n) (by omega)
  rw [Nat.add_sub_cancel' hle] at h
  exact ⟨Nat.find hp, hle, hfirst, h⟩

/-- One more step in front of a trace. -/
def Trace.cons (τ : Trace M) {s : σ} {l : ℓ} (he : M.enabled s l)
    (hs : M.step s l = .ok (τ.state 0)) : Trace M where
  state
    | 0 => s
    | n + 1 => τ.state n
  label
    | 0 => l
    | n + 1 => τ.label n
  enabled
    | 0 => he
    | n + 1 => τ.enabled n
  step
    | 0 => hs
    | n + 1 => τ.step n

/-- The states of a cycle, for ever. -/
def Trace.cycle {k : ℕ} (hk : 0 < k) (state : Fin k → σ) (label : Fin k → ℓ)
    (he : ∀ i, M.enabled (state i) (label i))
    (hs : ∀ i, M.step (state i) (label i) = .ok (state ⟨(i.val + 1) % k, Nat.mod_lt _ hk⟩)) :
    Trace M where
  state n := state ⟨n % k, Nat.mod_lt n hk⟩
  label n := label ⟨n % k, Nat.mod_lt n hk⟩
  enabled n := he _
  step n := by
    rw [hs]
    simp only [Nat.mod_add_mod]

end MuduoNet.Lib
