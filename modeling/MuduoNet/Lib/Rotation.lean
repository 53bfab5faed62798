import Mathlib.Data.List.Basic

/-!
# Positions on a circle

The positions are the numbers below `n`, and one after the other they are passed from any `c` on.
`First` is the choice of whoever takes the next position that will do.
-/
namespace MuduoNet.Lib.Rotation

/-- How many positions from `c` on are passed before `i`. -/
def offset (n c i : Nat) : Nat := if c ≤ i then i - c else i + n - c

/-- The first position at or after `c` for which `p` holds. -/
structure First (p : Nat → Prop) (n c i : Nat) : Prop where
  lt : i < n
  holds : p i
  least : ∀ j, j < n → p j → offset n c i ≤ offset n c j

variable {p : Nat → Prop} {n c i j m : Nat}

theorem succ_mod (hc : c < n) : (c + 1) % n = if c + 1 < n then c + 1 else 0 := by
  split
  · exact Nat.mod_eq_of_lt ‹_›
  · have heq : c + 1 = n := by omega
    rw [heq, Nat.mod_self]

theorem add_mod_of_lt (hc : c < n) (hm : m < n) :
    (c + m) % n = if c + m < n then c + m else c + m - n := by
  split
  · exact Nat.mod_eq_of_lt ‹_›
  · rw [Nat.mod_eq_sub_mod (by omega), Nat.mod_eq_of_lt (by omega)]

theorem offset_self : offset n c c = 0 := by
  unfold offset
  rw [if_pos (Nat.le_refl c), Nat.sub_self]

theorem offset_lt (hc : c < n) (hi : i < n) : offset n c i < n := by
  unfold offset
  split <;> omega

theorem offset_inj (hc : c < n) (hi : i < n) (hj : j < n) (h : offset n c i = offset n c j) :
    i = j := by
  unfold offset at h
  split at h <;> split at h <;> omega

/-- Seen from the next position every other one is nearer by one. -/
theorem offset_succ (hc : c < n) (hi : i < n) (hne : i ≠ c) :
    offset n c i = offset n ((c + 1) % n) i + 1 := by
  rw [succ_mod hc]
  unfold offset
  split <;> split <;> split <;> omega

/-- After `m` steps the position is the one with this offset. -/
theorem offset_add_mod (hc : c < n) (hm : m < n) : offset n c ((c + m) % n) = m := by
  rw [add_mod_of_lt hc hm]
  unfold offset
  split <;> split <;> omega

theorem First.self (hc : c < n) (h : p c) : First p n c c := by
  refine ⟨hc, h, ?_⟩
  intro j _ _
  rw [offset_self]
  exact Nat.zero_le _

/-- A position that does not do is passed over. -/
theorem First.pass (hc : c < n) (hno : ¬ p c) (h : First p n ((c + 1) % n) i) : First p n c i := by
  have hne : ∀ {k}, p k → k ≠ c := by
    rintro k hk rfl
    exact hno hk
  refine ⟨h.lt, h.holds, ?_⟩
  intro j hj hpj
  rw [offset_succ hc h.lt (hne h.holds), offset_succ hc hj (hne hpj)]
  exact Nat.succ_le_succ (h.least j hj hpj)

theorem First.unique (hc : c < n) (hi : First p n c i) (hj : First p n c j) : i = j :=
  offset_inj hc hi.lt hj.lt (Nat.le_antisymm (hi.least j hj.lt hj.holds) (hj.least i hi.lt hi.holds))

/-- How often position `i` comes up in the first `m` turns. -/
def turns (n m i : Nat) : Nat := m / n + if i < m % n then 1 else 0

theorem turns_zero (n i : Nat) : turns n 0 i = 0 := by
  simp [turns]

theorem div_mod_succ {q r : Nat} (hr : r < n) :
    (n * q + r + 1) / n = q + (if r + 1 = n then 1 else 0) ∧
      (n * q + r + 1) % n = if r + 1 = n then 0 else r + 1 := by
  split
  · have hnext : n * q + r + 1 = n * (q + 1) := by
      rw [Nat.mul_add]
      omega
    rw [hnext, Nat.mul_mod_right, Nat.mul_div_cancel_left _ (by omega)]
    exact ⟨rfl, rfl⟩
  · rw [Nat.add_assoc, Nat.mul_add_mod, Nat.mul_add_div (by omega), Nat.mod_eq_of_lt (by omega),
      Nat.div_eq_of_lt (by omega)]
    exact ⟨rfl, rfl⟩

theorem turns_succ (hi : i < n) : turns n (m + 1) i = turns n m i + if m % n = i then 1 else 0 := by
  have hlt : m % n < n := Nat.mod_lt _ (by omega)
  have hnext := div_mod_succ (q := m / n) hlt
  rw [Nat.div_add_mod] at hnext
  unfold turns
  rw [hnext.1, hnext.2]
  split <;> split <;> split <;> split <;> omega

/-- No position is more than one turn ahead of another. -/
theorem turns_le (n m i j : Nat) : turns n m i ≤ turns n m j + 1 := by
  unfold turns
  split <;> split <;> omega

/-- The counters `xs` of the positions, after `m` of them from `c` on have been counted once more. -/
def served (xs : List Nat) (c m : Nat) : List Nat :=
  xs.mapIdx fun i x => if offset xs.length c i < m then x + 1 else x

variable {xs : List Nat}

@[simp] theorem length_served : (served xs c m).length = xs.length := List.length_mapIdx

theorem served_zero : served xs c 0 = xs := by
  apply List.ext_getElem length_served
  intro i _ _
  simp [served]

theorem served_succ (hc : c < xs.length) (hm : m < xs.length) :
    (served xs c m).modify ((c + m) % xs.length) (· + 1) = served xs c (m + 1) := by
  have hcur : (c + m) % xs.length < xs.length := Nat.mod_lt _ (by omega)
  have hoffset := offset_add_mod hc hm
  apply List.ext_getElem (by simp)
  intro i hi _
  have hlt : i < xs.length := by simpa using hi
  rw [List.getElem_modify]
  simp only [served, List.getElem_mapIdx]
  by_cases heq : (c + m) % xs.length = i
  · rw [heq] at hoffset
    rw [if_pos heq, hoffset, if_neg (Nat.lt_irrefl m), if_pos (Nat.lt_succ_self m)]
  · have hne : offset xs.length c i ≠ m := by
      intro h
      exact heq (offset_inj hc hcur hlt (hoffset.trans h.symm))
    rw [if_neg heq]
    split <;> split <;> omega

/-- One round counts every position once. -/
theorem served_all (hc : c < xs.length) : served xs c xs.length = xs.map (· + 1) := by
  apply List.ext_getElem (by simp)
  intro i hi _
  simp only [served, List.getElem_mapIdx, List.getElem_map]
  exact if_pos (offset_lt hc (by simpa using hi))

end MuduoNet.Lib.Rotation
