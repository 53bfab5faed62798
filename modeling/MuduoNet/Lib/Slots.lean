import Mathlib.Data.List.Forall2
import Mathlib.Data.List.Nodup

/-!
# Arrays whose elements know their index

`owners[i]` is the owner of cell `i`, and `place` tells every owner the index of its cell.
A new owner goes to the end; an owner leaves by swapping its cell with the last one. The
lemmas say that `place` needs one write in each case to stay right.
-/
namespace MuduoNet.Lib.Slots

universe u v

variable {α : Type u} {κ : Type v}

/-- Every owner's `place` is the index of its cell. -/
def Backed (place : κ → Int) (owners : List κ) : Prop :=
  ∀ (i : Nat) (c : κ), owners[i]? = some c → place c = i

/-- Swap cell `i` with the last one, then drop the last. -/
def swapRemove (mem : List α) (i : Nat) : List α :=
  match mem[i]?, mem.getLast? with
  | some x, some z => ((mem.set i z).set (mem.length - 1) x).dropLast
  | _, _ => mem

theorem getElem?_swapRemove {mem : List α} {i : Nat} (hi : i < mem.length) (j : Nat) :
    (swapRemove mem i)[j]? =
      if j < mem.length - 1 then mem[if j = i then mem.length - 1 else j]? else none := by
  have hlast : mem.length - 1 < mem.length := by omega
  have hne : mem ≠ [] := List.ne_nil_of_length_pos (by omega)
  rw [swapRemove, List.getElem?_eq_getElem hi, List.getLast?_eq_some_getLast hne]
  dsimp only
  rw [List.getElem?_dropLast, List.length_set, List.length_set]
  by_cases hj : j < mem.length - 1
  · rw [if_pos hj, if_pos hj, List.getElem?_set_ne (by omega)]
    by_cases hji : j = i
    · rw [if_pos hji, hji, List.getElem?_set_self hi, List.getElem?_eq_getElem hlast,
        List.getLast_eq_getElem]
    · rw [if_neg hji, List.getElem?_set_ne (Ne.symm hji)]
  · rw [if_neg hj, if_neg hj]

theorem length_swapRemove {mem : List α} {i : Nat} (hi : i < mem.length) :
    (swapRemove mem i).length = mem.length - 1 := by
  have hne : mem ≠ [] := List.ne_nil_of_length_pos (by omega)
  rw [swapRemove, List.getElem?_eq_getElem hi, List.getLast?_eq_some_getLast hne]
  simp

/-- Without the last cell there is nothing to swap. -/
theorem swapRemove_last {mem : List α} (h : mem ≠ []) :
    swapRemove mem (mem.length - 1) = mem.dropLast := by
  have hpos := List.length_pos_of_ne_nil h
  apply List.ext_getElem?
  intro j
  rw [getElem?_swapRemove (by omega), List.getElem?_dropLast]
  by_cases hj : j < mem.length - 1
  · rw [if_pos hj, if_pos hj, if_neg (by omega)]
  · rw [if_neg hj, if_neg hj]

/-- The owners left by a removal are all but the one removed. -/
theorem mem_swapRemove {owners : List κ} (hnd : owners.Nodup) {i : Nat} {c : κ}
    (hi : owners[i]? = some c) (e : κ) : e ∈ swapRemove owners i ↔ e ∈ owners ∧ e ≠ c := by
  obtain ⟨hlt, hc⟩ := List.getElem?_eq_some_iff.mp hi
  constructor
  · intro he
    obtain ⟨j, hj⟩ := List.mem_iff_getElem?.mp he
    rw [getElem?_swapRemove hlt] at hj
    split at hj
    · refine ⟨List.mem_of_getElem? hj, ?_⟩
      intro hec
      subst hec
      have hsame := (List.getElem?_inj hlt hnd).mp (hi.trans hj.symm)
      split at hsame <;> omega
    · cases hj
  · intro ⟨he, hne⟩
    obtain ⟨j, hj⟩ := List.mem_iff_getElem?.mp he
    obtain ⟨hjlt, _⟩ := List.getElem?_eq_some_iff.mp hj
    have hji : j ≠ i := by
      intro hji
      subst hji
      exact hne (Option.some.inj (hj.symm.trans hi))
    apply List.mem_iff_getElem?.mpr
    by_cases hlast : j = owners.length - 1
    · refine ⟨i, ?_⟩
      rw [getElem?_swapRemove hlt, if_pos (by omega), if_pos rfl, ← hlast, hj]
    · refine ⟨j, ?_⟩
      rw [getElem?_swapRemove hlt, if_pos (by omega), if_neg hji, hj]

namespace Backed

variable {place place' : κ → Int} {owners : List κ}

theorem nil : Backed place [] := by
  intro i c h
  cases h

theorem exists_index (h : Backed place owners) {c : κ} (hc : c ∈ owners) :
    ∃ i : Nat, place c = i ∧ owners[i]? = some c := by
  obtain ⟨i, hi⟩ := List.mem_iff_getElem?.mp hc
  exact ⟨i, h i c hi, hi⟩

theorem inj (h : Backed place owners) {c d : κ} (hc : c ∈ owners) (hd : d ∈ owners)
    (hcd : place c = place d) : c = d := by
  obtain ⟨i, hpi, hi⟩ := h.exists_index hc
  obtain ⟨j, hpj, hj⟩ := h.exists_index hd
  have hij : i = j := by omega
  subst hij
  exact Option.some.inj (hi.symm.trans hj)

theorem nodup (h : Backed place owners) : owners.Nodup := by
  rw [List.nodup_iff_getElem?_ne_getElem?]
  intro i j hij hj heq
  have hjs := List.getElem?_eq_getElem hj
  have hpi := h i _ (heq.trans hjs)
  have hpj := h j _ hjs
  omega

theorem congr (h : Backed place owners) (hp : ∀ c ∈ owners, place' c = place c) :
    Backed place' owners := by
  intro i c hi
  rw [hp c (List.mem_of_getElem? hi), h i c hi]

theorem concat (h : Backed place owners) {c : κ} (hp : ∀ d ∈ owners, place' d = place d)
    (hc : place' c = owners.length) : Backed place' (owners ++ [c]) := by
  intro i d hi
  rw [List.getElem?_append] at hi
  split at hi
  · exact h.congr hp i d hi
  · rename_i hge
    obtain ⟨hlt, hd⟩ := List.getElem?_eq_some_iff.mp hi
    rw [List.length_singleton] at hlt
    have hieq : i = owners.length := by omega
    rw [List.getElem_singleton] at hd
    rw [← hd, hc, hieq]

/-- The swapped removal: only the owner of the last cell learns a new index. -/
theorem swapRemove (h : Backed place owners) {i : Nat} {d : κ} (hi : i < owners.length)
    (hd : owners[owners.length - 1]? = some d)
    (hp : ∀ e ∈ owners, e ≠ d → place' e = place e)
    (hpd : i ≠ owners.length - 1 → place' d = i) : Backed place' (swapRemove owners i) := by
  intro j e hj
  rw [getElem?_swapRemove hi] at hj
  split at hj
  · rename_i hlt
    split at hj
    · rename_i hji
      obtain rfl := Option.some.inj (hd.symm.trans hj)
      rw [hpd (by omega), hji]
    · have hpe := h j e hj
      have hne : e ≠ d := by
        intro hed
        subst hed
        have hpl := h _ e hd
        omega
      rw [hp e (List.mem_of_getElem? hj) hne, hpe]
  · cases hj

end Backed

theorem forall₂_iff_getElem? {R : α → κ → Prop} {cells : List α} {owners : List κ} :
    List.Forall₂ R cells owners ↔ cells.length = owners.length ∧
      ∀ (i : Nat) (x : α) (c : κ), cells[i]? = some x → owners[i]? = some c → R x c := by
  rw [List.forall₂_iff_get]
  constructor
  · intro ⟨hlen, h⟩
    refine ⟨hlen, ?_⟩
    intro i x c hx hc
    obtain ⟨hi, rfl⟩ := List.getElem?_eq_some_iff.mp hx
    obtain ⟨hj, rfl⟩ := List.getElem?_eq_some_iff.mp hc
    exact h i hi hj
  · intro ⟨hlen, h⟩
    refine ⟨hlen, ?_⟩
    intro i hi hj
    exact h i _ _ (List.getElem?_eq_getElem hi) (List.getElem?_eq_getElem hj)

/-- A removal keeps cells and owners aligned. -/
theorem forall₂_swapRemove {R : α → κ → Prop} {cells : List α} {owners : List κ}
    (h : List.Forall₂ R cells owners) {i : Nat} (hi : i < owners.length) :
    List.Forall₂ R (swapRemove cells i) (swapRemove owners i) := by
  obtain ⟨hlen, hR⟩ := forall₂_iff_getElem?.mp h
  have hic : i < cells.length := by omega
  rw [forall₂_iff_getElem?, length_swapRemove hic, length_swapRemove hi]
  refine ⟨by omega, ?_⟩
  intro j x c hx hc
  rw [getElem?_swapRemove hic] at hx
  rw [getElem?_swapRemove hi] at hc
  rw [hlen] at hx
  split at hx
  · rename_i hj
    rw [if_pos hj] at hc
    exact hR _ x c hx hc
  · cases hx

/-- A cell may be rewritten if the new content suits its owner. -/
theorem forall₂_set {R R' : α → κ → Prop} {cells : List α} {owners : List κ} {i : Nat} {y : α}
    (h : List.Forall₂ R cells owners)
    (hy : ∀ x c, cells[i]? = some x → owners[i]? = some c → R x c → R' y c)
    (hR : ∀ (j : Nat) x c, j ≠ i → owners[j]? = some c → R x c → R' x c) :
    List.Forall₂ R' (cells.set i y) owners := by
  obtain ⟨hlen, h⟩ := forall₂_iff_getElem?.mp h
  rw [forall₂_iff_getElem?, List.length_set]
  refine ⟨hlen, ?_⟩
  intro j x c hx hc
  by_cases hj : j = i
  · subst hj
    obtain ⟨hlt, hx'⟩ := List.getElem?_eq_some_iff.mp hx
    rw [List.length_set] at hlt
    rw [List.getElem_set_self] at hx'
    subst hx'
    have hcell := List.getElem?_eq_getElem hlt
    exact hy _ c hcell hc (h j _ c hcell hc)
  · rw [List.getElem?_set_ne (Ne.symm hj)] at hx
    exact hR j x c hj hc (h j x c hx hc)

end MuduoNet.Lib.Slots
