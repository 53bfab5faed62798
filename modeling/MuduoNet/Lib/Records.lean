import Mathlib.Data.List.Basic

/-!
# Reading items off the front of a list

A reader takes one item after the other off its input until a round says that there are no more, or
fails. What was written item by item is read back item by item; what a round preserves, the reader
preserves; and a reader whose rounds take something off does not run out of rounds.
-/
namespace MuduoNet.Lib

variable {σ ι α : Type}

/-- One round: `none` if it fails, `some none` if there are no more items. -/
abbrev Round (σ α : Type) := σ → List α → Option (Option (σ × List α))

/-- At most `budget` rounds; with the input at which there was no more item. -/
def readItems (round : Round σ α) : Nat → σ → List α → Option (σ × List α)
  | 0, _, _ => none
  | budget + 1, s, l =>
    match round s l with
    | none => none
    | some none => some (s, l)
    | some (some (s', l')) => readItems round budget s' l'

variable {round : Round σ α}

theorem readItems_stop {s : σ} {l : List α} (h : round s l = some none) (budget : Nat) :
    readItems round (budget + 1) s l = some (s, l) := by
  rw [readItems, h]

theorem readItems_next {s s' : σ} {l l' : List α} (h : round s l = some (some (s', l')))
    (budget : Nat) : readItems round (budget + 1) s l = readItems round budget s' l' := by
  rw [readItems, h]

/-- Items that were written one behind the other are read one after the other. -/
theorem readItems_written {write : ι → List α} {apply : σ → ι → σ} {items : List ι}
    (h : ∀ i ∈ items, ∀ s rest, round s (write i ++ rest) = some (some (apply s i, rest)))
    (budget : Nat) (s : σ) (rest : List α) :
    readItems round (items.length + budget) s (items.flatMap write ++ rest) =
      readItems round budget (items.foldl apply s) rest := by
  induction items generalizing s with
  | nil => rw [List.length_nil, Nat.zero_add, List.flatMap_nil, List.nil_append, List.foldl_nil]
  | cons i items ih =>
    have hrest := ih (fun j hj => h j (List.mem_cons_of_mem _ hj)) (apply s i)
    rw [List.length_cons, Nat.add_right_comm, List.flatMap_cons, List.append_assoc,
      readItems_next (h i List.mem_cons_self s _), List.foldl_cons]
    exact hrest

/-- What every round preserves. -/
theorem readItems_invariant {I : σ → Prop} {l l' : List α} {s s' : σ} {budget : Nat}
    (hround : ∀ s l s' l', I s → round s l = some (some (s', l')) → I s') (hs : I s)
    (h : readItems round budget s l = some (s', l')) : I s' := by
  induction budget generalizing s l with
  | zero => cases h
  | succ budget ih =>
    rw [readItems] at h
    split at h
    · cases h
    · obtain ⟨rfl, _⟩ := Prod.mk.inj (Option.some.inj h)
      exact hs
    · rename_i t k hnext
      exact ih (hround _ _ _ _ hs hnext) h

/-- Where each round acts as an item, whatever comes behind, so does the reader as a list of them; it
ends where there is no more item. -/
theorem readItems_items {apply : σ → ι → σ} {P : ι → Prop} {l l' : List α} {s s' : σ} {budget : Nat}
    (hround : ∀ s l s' l', round s l = some (some (s', l')) → ∃ i, P i ∧ s' = apply s i ∧
      ∀ t ys, round t (l ++ ys) = some (some (apply t i, l' ++ ys)))
    (h : readItems round budget s l = some (s', l')) :
    ∃ items : List ι, (∀ i ∈ items, P i) ∧ s' = items.foldl apply s ∧ round s' l' = some none ∧
      ∀ t ys n, readItems round (items.length + n) t (l ++ ys) =
        readItems round n (items.foldl apply t) (l' ++ ys) := by
  induction budget generalizing s l with
  | zero => cases h
  | succ budget ih =>
    rw [readItems] at h
    split at h
    · cases h
    · rename_i hstop
      obtain ⟨rfl, rfl⟩ := Prod.mk.inj (Option.some.inj h)
      refine ⟨[], ?_, rfl, hstop, ?_⟩
      · intro i hi
        cases hi
      · intro t ys n
        rw [List.length_nil, Nat.zero_add, List.foldl_nil]
    · rename_i u k hnext
      obtain ⟨i, hi, rfl, hany⟩ := hround _ _ _ _ hnext
      obtain ⟨items, hitems, hs', hstop, hrest⟩ := ih h
      refine ⟨i :: items, ?_, hs', hstop, ?_⟩
      · intro j hj
        rcases List.mem_cons.mp hj with rfl | hj
        · exact hi
        · exact hitems j hj
      · intro t ys n
        rw [List.length_cons, Nat.add_right_comm, readItems_next (hany t ys), List.foldl_cons]
        exact hrest _ ys n

/-- Rounds that take something off: more rounds than there is input make no difference. -/
theorem readItems_budget {s : σ} {l : List α} {budget : Nat}
    (hround : ∀ s l s' l', round s l = some (some (s', l')) → l'.length < l.length)
    (hbudget : l.length < budget) : readItems round budget s l = readItems round (l.length + 1) s l := by
  induction hn : l.length using Nat.strongRecOn generalizing s l budget with
  | _ n ih =>
    obtain ⟨budget, rfl⟩ : ∃ k, budget = k + 1 := ⟨budget - 1, by omega⟩
    rw [readItems, readItems]
    cases hnext : round s l with
    | none => rfl
    | some o =>
      cases o with
      | none => rfl
      | some r =>
        have hlt := hround _ _ _ _ hnext
        have hleft := ih r.2.length (by omega) (show r.2.length < budget by omega) rfl (s := r.1)
        have hright := ih r.2.length (by omega) (show r.2.length < n by omega) rfl (s := r.1)
        exact hleft.trans hright.symm

end MuduoNet.Lib
