import MuduoNet.Lib.Outcome
import Mathlib.Data.List.Induction

/-!
# Machines driven by labels

`enabled` says which labels the environment may offer in a state, `step` what the machine
makes of one: a new state, or a fault that ends the run. The rules below turn what one
step preserves into what every run preserves.
-/
namespace MuduoNet.Lib

open Outcome

universe u v w

structure Machine (σ : Type) (ℓ : Type u) (φ : Type v) where
  enabled : σ → ℓ → Prop
  step : σ → ℓ → Except φ σ

variable {σ : Type} {ℓ : Type u} {φ : Type v} {α : Type w} {M : Machine σ ℓ φ}

/-- `Run M s ls t`: from `s` the labels `ls`, each enabled in its turn, lead to `t`. -/
inductive Run (M : Machine σ ℓ φ) : σ → List ℓ → σ → Prop
  | nil (s : σ) : Run M s [] s
  | cons {s t u : σ} {l : ℓ} {ls : List ℓ} :
      M.enabled s l → M.step s l = .ok t → Run M t ls u → Run M s (l :: ls) u

/-- The same machine offered fewer labels. -/
def Machine.restrict (M : Machine σ ℓ φ) (p : σ → ℓ → Prop) : Machine σ ℓ φ where
  enabled s l := M.enabled s l ∧ p s l
  step := M.step

/-- The fault of a step, if it has one. -/
def Machine.fault (M : Machine σ ℓ φ) (s : σ) (l : ℓ) : Option φ :=
  match M.step s l with
  | .ok _ => none
  | .error f => some f

theorem Machine.step_of_fault {s : σ} {l : ℓ} {f : φ} (h : M.fault s l = some f) :
    M.step s l = .error f := by
  unfold Machine.fault at h
  split at h
  · cases h
  · obtain rfl := Option.some.inj h
    assumption

def Reachable (M : Machine σ ℓ φ) (init s : σ) : Prop := ∃ ls, Run M init ls s

theorem Run.single {s t : σ} {l : ℓ} (he : M.enabled s l) (hs : M.step s l = .ok t) :
    Run M s [l] t :=
  .cons he hs (.nil t)

theorem Run.append {s t u : σ} {ls ms : List ℓ} (h : Run M s ls t) (g : Run M t ms u) :
    Run M s (ls ++ ms) u := by
  induction h with
  | nil => exact g
  | cons he hs _ ih => exact .cons he hs (ih g)

theorem Run.snoc {s t u : σ} {l : ℓ} {ls : List ℓ} (h : Run M s ls t) (he : M.enabled t l)
    (hs : M.step t l = .ok u) : Run M s (ls ++ [l]) u :=
  h.append (.single he hs)

theorem Run.split {s u : σ} {ls ms : List ℓ} (h : Run M s (ls ++ ms) u) :
    ∃ t, Run M s ls t ∧ Run M t ms u := by
  induction ls generalizing s with
  | nil => exact ⟨s, .nil s, h⟩
  | cons l ls ih =>
    cases h with
    | cons he hs hr =>
      obtain ⟨t, h₁, h₂⟩ := ih hr
      exact ⟨t, .cons he hs h₁, h₂⟩

/-- A run whose labels are all offered by the restricted machine is one of its runs. -/
theorem Run.restrict {p : σ → ℓ → Prop} {s t : σ} {ls : List ℓ} (h : Run M s ls t)
    (hp : ∀ pre l post u, ls = pre ++ l :: post → Run M s pre u → M.enabled u l → p u l) :
    Run (M.restrict p) s ls t := by
  induction h with
  | nil s => exact .nil s
  | @cons s u t l ls he hs _ ih =>
    refine .cons ⟨he, hp [] l ls s rfl (.nil s) he⟩ hs (ih ?_)
    intro pre l' post v heq hr
    exact hp (l :: pre) l' post v (by rw [heq]; rfl) (.cons he hs hr)

theorem Run.of_restrict {p : σ → ℓ → Prop} {s t : σ} {ls : List ℓ}
    (h : Run (M.restrict p) s ls t) : Run M s ls t := by
  induction h with
  | nil s => exact .nil s
  | cons he hs _ ih => exact .cons he.1 hs ih

/-- The labels determine the run. -/
theorem Run.unique {s t u : σ} {ls : List ℓ} (h : Run M s ls t) (g : Run M s ls u) : t = u := by
  induction h with
  | nil => cases g; rfl
  | cons _ hs _ ih =>
    cases g with
    | cons _ gs gr =>
      obtain rfl := Except.ok.inj (hs.symm.trans gs)
      exact ih gr

theorem Reachable.refl {init : σ} : Reachable M init init := ⟨[], .nil init⟩

theorem Reachable.next {init s t : σ} {l : ℓ} (h : Reachable M init s) (he : M.enabled s l)
    (hs : M.step s l = .ok t) : Reachable M init t := by
  obtain ⟨ls, hr⟩ := h
  exact ⟨_, hr.snoc he hs⟩

/-- The state after the labels, if each is enabled in its turn and none faults. -/
def Machine.exec (M : Machine σ ℓ φ) [∀ s l, Decidable (M.enabled s l)] : σ → List ℓ → Option σ
  | s, [] => some s
  | s, l :: ls =>
    if M.enabled s l then
      match M.step s l with
      | .ok t => M.exec t ls
      | .error _ => none
    else none

theorem Run.of_exec [∀ s l, Decidable (M.enabled s l)] {s t : σ} {ls : List ℓ}
    (h : M.exec s ls = some t) : Run M s ls t := by
  induction ls generalizing s with
  | nil =>
    obtain rfl := Option.some.inj h
    exact .nil s
  | cons l ls ih =>
    rw [Machine.exec] at h
    split at h
    · rename_i he
      split at h
      · rename_i u hs
        exact .cons he hs (ih h)
      · cases h
    · cases h

/-- A computed run, with a property of its last state. -/
theorem exists_run_of_exec [∀ s l, Decidable (M.enabled s l)] (P : σ → Prop) [DecidablePred P]
    {s : σ} {ls : List ℓ} (h : (M.exec s ls).any (fun t => decide (P t)) = true) :
    ∃ t, Run M s ls t ∧ P t := by
  cases ht : M.exec s ls with
  | none =>
    rw [ht] at h
    cases h
  | some t =>
    rw [ht] at h
    exact ⟨t, .of_exec ht, of_decide_eq_true h⟩

/-- What every step preserves, every run preserves. -/
theorem Run.invariant {I : σ → Prop} (hstep : ∀ s l t, I s → M.enabled s l → M.step s l = .ok t → I t)
    {s t : σ} {ls : List ℓ} (h : Run M s ls t) (hi : I s) : I t := by
  induction h with
  | nil => exact hi
  | cons he hs _ ih => exact ih (hstep _ _ _ hi he hs)

theorem Reachable.invariant {I : σ → Prop}
    (hstep : ∀ s l t, I s → M.enabled s l → M.step s l = .ok t → I t) {init s : σ}
    (h : Reachable M init s) (hi : I init) : I s := by
  obtain ⟨ls, hr⟩ := h
  exact hr.invariant hstep hi

/-- What holds at the end and not at the start begins to hold at some step. -/
theorem Run.crosses {P : σ → Prop} {s t : σ} {ls : List ℓ} (h : Run M s ls t) (hs : ¬ P s)
    (ht : P t) : ∃ pre l post u v, ls = pre ++ l :: post ∧ Run M s pre u ∧ ¬ P u ∧
      M.enabled u l ∧ M.step u l = .ok v ∧ P v := by
  induction h with
  | nil => exact absurd ht hs
  | @cons s v t l ls he hstep _ ih =>
    by_cases hv : P v
    · exact ⟨[], l, ls, s, v, rfl, .nil s, hs, he, hstep, hv⟩
    · obtain ⟨pre, l', post, u, w, rfl, hr, hu, hl⟩ := ih hv ht
      exact ⟨l :: pre, l', post, u, w, rfl, .cons he hstep hr, hu, hl⟩

/-- If a step from a good state leads to a good one exactly when it is a good step, a run
visits good states only exactly when it takes good steps only. -/
theorem Run.visits_iff {I P : σ → Prop} {C : σ → ℓ → Prop}
    (hinv : ∀ s l t, I s → M.enabled s l → M.step s l = .ok t → I t)
    (hstep : ∀ s l t, I s → P s → M.enabled s l → M.step s l = .ok t → (P t ↔ C s l))
    {s u : σ} {ls : List ℓ} (h : Run M s ls u) (hi : I s) (hp : P s) :
    (∀ pre t, pre <+: ls → Run M s pre t → P t) ↔
      ∀ pre l t, pre ++ [l] <+: ls → Run M s pre t → C t l := by
  constructor
  · intro hall pre l t hpre hr
    obtain ⟨post, rfl⟩ := hpre
    obtain ⟨v, hv, _⟩ := h.split
    obtain ⟨t', ht', hl⟩ := hv.split
    obtain rfl := hr.unique ht'
    cases hl with
    | cons he hs hnil =>
      cases hnil
      have hpt := hall pre t ⟨l :: post, by simp⟩ hr
      have hpv := hall (pre ++ [l]) _ ⟨post, rfl⟩ hv
      exact (hstep _ _ _ (hr.invariant hinv hi) hpt he hs).mp hpv
  · intro hall pre
    induction pre using List.reverseRecOn with
    | nil =>
      intro t _ hr
      cases hr
      exact hp
    | append_singleton pre l ih =>
      intro t hpre hr
      obtain ⟨t', ht', hl⟩ := hr.split
      cases hl with
      | cons he hs hnil =>
        cases hnil
        have hpt' := ih t' ((List.prefix_append pre [l]).trans hpre) ht'
        exact (hstep _ _ _ (ht'.invariant hinv hi) hpt' he hs).mpr (hall pre l t' hpre ht')

/-- Forward simulation by a function: the concrete run tracks the abstract fold. -/
theorem Run.simulates {R : σ → α → Prop} {next : α → ℓ → α}
    (hstep : ∀ s l t a, R s a → M.enabled s l → M.step s l = .ok t → R t (next a l))
    {s t : σ} {ls : List ℓ} (h : Run M s ls t) {a : α} (ha : R s a) : R t (ls.foldl next a) := by
  induction h generalizing a with
  | nil => exact ha
  | cons he hs _ ih => exact ih (hstep _ _ _ _ ha he hs)

/-- The rule for what the labels so far say of the state. -/
theorem Run.records {I : List ℓ → σ → Prop}
    (hstep : ∀ ls s l t, I ls s → M.enabled s l → M.step s l = .ok t → I (ls ++ [l]) t)
    {s t : σ} {ls : List ℓ} (h : Run M s ls t) (hi : I [] s) : I ls t := by
  have hall : ∀ pre, I pre s → I (pre ++ ls) t := by
    clear hi
    induction h with
    | nil =>
      intro pre hi
      rw [List.append_nil]
      exact hi
    | @cons s u t l ls he hs _ ih =>
      intro pre hi
      rw [List.append_cons]
      exact ih _ (hstep _ _ _ _ hi he hs)
  exact hall [] hi

/-- A value kept beside the run, which `next` makes of the state before each step and its label. -/
def Machine.track (M : Machine σ ℓ φ) (next : α → σ → ℓ → α) : α → σ → List ℓ → α
  | a, _, [] => a
  | a, s, l :: ls =>
    match M.step s l with
    | .ok t => M.track next (next a s l) t ls
    | .error _ => next a s l

/-- The rule for such a value: the step may use it, and hands on what `next` makes of it. -/
theorem Run.tracks {I : σ → α → Prop} {next : α → σ → ℓ → α}
    (hstep : ∀ s l t a, I s a → M.enabled s l → M.step s l = .ok t → I t (next a s l))
    {s t : σ} {ls : List ℓ} (h : Run M s ls t) {a : α} (ha : I s a) :
    I t (M.track next a s ls) := by
  induction h generalizing a with
  | nil => exact ha
  | cons he hs _ ih =>
    rw [Machine.track, hs]
    exact ih (hstep _ _ _ _ ha he hs)

/-- A step rule in `Sat` form gives both halves: no forbidden fault, and the invariant. -/
theorem Reachable.sat_step {A : φ → Prop} {I : σ → Prop}
    (hstep : ∀ s l, I s → M.enabled s l → Sat A (M.step s l) I) {init s : σ}
    (h : Reachable M init s) (hi : I init) :
    I s ∧ ∀ l, M.enabled s l → Sat A (M.step s l) I := by
  have hs : I s := h.invariant (fun s l t hI he hs => (hstep s l hI he).of_ok hs) hi
  exact ⟨hs, fun l he => hstep s l hs he⟩

end MuduoNet.Lib
