import Mathlib.Data.List.Basic

/-!
# Windows of a flat memory

A memory is a list of cells. `window i j` is what lies between two indices, `overwrite`
copies a block over part of it, `resize` changes its length. The lemmas say what one
operation does to a window, so that a proof about a buffer never indexes single cells.
-/
namespace MuduoNet.Lib.Splice

universe u

variable {α : Type u}

def window (i j : Nat) (mem : List α) : List α := (mem.take j).drop i

def overwrite (mem : List α) (i : Nat) (block : List α) : List α :=
  mem.take i ++ block ++ mem.drop (i + block.length)

/-- Truncate, or extend with `fill`. -/
def resize (fill : α) (mem : List α) (n : Nat) : List α :=
  mem.take n ++ List.replicate (n - mem.length) fill

@[simp] theorem length_window (i j : Nat) (mem : List α) :
    (window i j mem).length = min j mem.length - i := by
  simp [window]

theorem length_window_of_le {i j : Nat} {mem : List α} (h : j ≤ mem.length) :
    (window i j mem).length = j - i := by
  rw [length_window, Nat.min_eq_left h]

@[simp] theorem length_overwrite {mem block : List α} {i : Nat} (h : i + block.length ≤ mem.length) :
    (overwrite mem i block).length = mem.length := by
  simp only [overwrite, List.length_append, List.length_take, List.length_drop]
  omega

@[simp] theorem length_resize (fill : α) (mem : List α) (n : Nat) :
    (resize fill mem n).length = n := by
  simp only [resize, List.length_append, List.length_take, List.length_replicate]
  omega

@[simp] theorem window_self (i : Nat) (mem : List α) : window i i mem = [] := by
  apply List.eq_nil_of_length_eq_zero
  rw [length_window]
  omega

theorem drop_window (i j k : Nat) (mem : List α) :
    (window i j mem).drop k = window (i + k) j mem := by
  simp [window]

theorem take_window {i j k : Nat} {mem : List α} :
    (window i j mem).take k = window i (min (i + k) j) mem := by
  rw [window, List.take_drop, List.take_take, window]

/-- Adjacent windows join. -/
theorem window_append {i j k : Nat} {mem : List α} (hij : i ≤ j) (hjk : j ≤ k) :
    window i j mem ++ window j k mem = window i k mem := by
  have hj : window i j mem = (window i k mem).take (j - i) := by
    rw [take_window]
    congr 1
    omega
  have hk : window j k mem = (window i k mem).drop (j - i) := by
    rw [drop_window]
    congr 1
    omega
  rw [hj, hk, List.take_append_drop]

/-- A block copied in is what the window over it shows. -/
theorem window_overwrite_self {mem block : List α} {i : Nat} (h : i + block.length ≤ mem.length) :
    window i (i + block.length) (overwrite mem i block) = block := by
  have hi : (mem.take i).length = i := by rw [List.length_take]; omega
  have hb : (mem.take i ++ block).length = i + block.length := by rw [List.length_append, hi]
  rw [window, overwrite, List.take_left' hb, List.drop_left' hi]

theorem window_overwrite_below {mem block : List α} {i j k : Nat} (hj : j ≤ k)
    (h : k + block.length ≤ mem.length) : window i j (overwrite mem k block) = window i j mem := by
  have hk : j ≤ (mem.take k).length := by rw [List.length_take]; omega
  rw [window, overwrite, List.append_assoc, List.take_append_of_le_length hk, List.take_take,
    Nat.min_eq_left hj, window]

theorem window_overwrite_above {mem block : List α} {i j k : Nat} (hi : k + block.length ≤ i)
    (h : k + block.length ≤ mem.length) : window i j (overwrite mem k block) = window i j mem := by
  have hb : (mem.take k ++ block).length = k + block.length := by
    rw [List.length_append, List.length_take]
    omega
  unfold window overwrite
  rw [List.take_append, hb, List.drop_append, List.length_take, hb]
  rw [List.drop_of_length_le (by rw [List.length_take]; omega), List.nil_append]
  by_cases hj : k + block.length ≤ j
  · rw [Nat.min_eq_right hj, List.take_drop, List.drop_drop]
    congr 2 <;> omega
  · rw [List.drop_of_length_le (by simp only [List.length_take, List.length_drop]; omega),
      List.drop_of_length_le (by rw [List.length_take]; omega)]

/-- Writing right behind a window extends it by the block. -/
theorem window_overwrite_end {mem block : List α} {i j : Nat} (hij : i ≤ j)
    (h : j + block.length ≤ mem.length) :
    window i (j + block.length) (overwrite mem j block) = window i j mem ++ block := by
  rw [← window_append hij (Nat.le_add_right j _), window_overwrite_below (Nat.le_refl j) h,
    window_overwrite_self h]

/-- Writing right before a window extends it at the front. -/
theorem window_overwrite_front {mem block : List α} {i j : Nat} (hij : i + block.length ≤ j)
    (hj : j ≤ mem.length) :
    window i j (overwrite mem i block) = block ++ window (i + block.length) j mem := by
  have h : i + block.length ≤ mem.length := Nat.le_trans hij hj
  rw [← window_append (Nat.le_add_right i _) hij, window_overwrite_self h,
    window_overwrite_above (Nat.le_refl _) h]

theorem window_resize {fill : α} {mem : List α} {i j n : Nat} (hj : j ≤ mem.length) (hn : j ≤ n) :
    window i j (resize fill mem n) = window i j mem := by
  have hl : j ≤ (mem.take n).length := by rw [List.length_take]; omega
  rw [window, resize, List.take_append_of_le_length hl, List.take_take, Nat.min_eq_left hn, window]

/-- A list moved up by `d` places is what it was only if it is constant. -/
theorem replicate_append_take_eq_iff {fill : α} {l : List α} {d : Nat} (hpos : 0 < d)
    (hd : d ≤ l.length) :
    List.replicate d fill ++ l.take (l.length - d) = l ↔ ∀ x ∈ l, x = fill := by
  constructor
  · intro heq
    have hget : ∀ (n : Nat) (x : α), l[n]? = some x → x = fill := by
      intro n
      induction n using Nat.strongRecOn with
      | ind n ih =>
        intro x hx
        have hx' := hx
        rw [← heq, List.getElem?_append, List.length_replicate] at hx'
        split at hx'
        · rename_i hlt
          rw [List.getElem?_replicate_of_lt hlt] at hx'
          exact (Option.some.inj hx').symm
        · -- the cell `d` places below
          rename_i hge
          obtain ⟨hlt, _⟩ := List.getElem?_eq_some_iff.mp hx
          rw [List.getElem?_take_of_lt (by omega)] at hx'
          exact ih (n - d) (by omega) x hx'
    intro x hx
    obtain ⟨n, hn⟩ := List.getElem?_of_mem hx
    exact hget n x hn
  · intro hall
    have hl : l = List.replicate l.length fill := List.eq_replicate_of_mem hall
    rw [hl, List.take_replicate, List.length_replicate, List.replicate_append_replicate]
    congr 1
    omega

end MuduoNet.Lib.Splice
