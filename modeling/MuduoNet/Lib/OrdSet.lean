import Mathlib.Data.List.Sort
import Mathlib.Data.List.Nodup

/-!
# Ordered sets

A set kept as its elements in ascending order, with the operations of `std::set`: insertion
says whether the element is new, removal how many elements went, and the elements below a
bound are a front part of the list.
-/
namespace MuduoNet.Lib

universe u

structure OrdSet (α : Type u) [LinearOrder α] where
  elems : List α
  sorted : elems.Pairwise (· < ·)
  deriving DecidableEq

namespace OrdSet

variable {α : Type u} [LinearOrder α] {s : OrdSet α} {a b x : α}

instance : Membership α (OrdSet α) := ⟨fun s a => a ∈ s.elems⟩

instance (a : α) (s : OrdSet α) : Decidable (a ∈ s) := inferInstanceAs (Decidable (a ∈ s.elems))

def empty : OrdSet α := ⟨[], .nil⟩

def size (s : OrdSet α) : Nat := s.elems.length

theorem sorted_orderedInsert {l : List α} (hl : l.Pairwise (· < ·)) (hx : x ∉ l) :
    (l.orderedInsert (· ≤ ·) x).Pairwise (· < ·) := by
  induction l with
  | nil => exact List.pairwise_singleton _ _
  | cons b l ih =>
    obtain ⟨hb, hl⟩ := List.pairwise_cons.mp hl
    obtain ⟨hxb, hxl⟩ := not_or.mp (fun h => hx (List.mem_cons.mpr h))
    rw [List.orderedInsert_cons]
    split
    · rename_i hle
      have hlt : x < b := lt_of_le_of_ne hle hxb
      apply List.pairwise_cons.mpr
      refine ⟨?_, List.pairwise_cons.mpr ⟨hb, hl⟩⟩
      intro c hc
      rcases List.mem_cons.mp hc with rfl | hc
      · exact hlt
      · exact lt_trans hlt (hb c hc)
    · rename_i hle
      apply List.pairwise_cons.mpr
      refine ⟨?_, ih hl hxl⟩
      intro c hc
      rcases (List.mem_orderedInsert (· ≤ ·)).mp hc with rfl | hc
      · exact lt_of_not_ge hle
      · exact hb c hc

/-- `insert(x)`: whether `x` is new, and the set with it. -/
def insert (s : OrdSet α) (x : α) : Bool × OrdSet α :=
  if h : x ∈ s.elems then (false, s)
  else (true, ⟨s.elems.orderedInsert (· ≤ ·) x, sorted_orderedInsert s.sorted h⟩)

/-- `erase(x)`: the number of elements removed, and the set without `x`. -/
def erase (s : OrdSet α) (x : α) : Nat × OrdSet α :=
  (if x ∈ s then 1 else 0, ⟨s.elems.erase x, s.sorted.sublist List.erase_sublist⟩)

/-- `*begin()`, unless the set is empty. -/
def first (s : OrdSet α) : Option α := s.elems.head?

/-- The elements from `begin()` up to `lower_bound(x)`. -/
def below (s : OrdSet α) (x : α) : List α := s.elems.takeWhile (· < x)

/-- The set from `lower_bound(x)` on. -/
def notBelow (s : OrdSet α) (x : α) : OrdSet α :=
  ⟨s.elems.dropWhile (· < x), s.sorted.sublist (List.dropWhile_sublist _)⟩

theorem nodup (s : OrdSet α) : s.elems.Nodup := s.sorted.imp ne_of_lt

theorem mem_elems : a ∈ s.elems ↔ a ∈ s := Iff.rfl

@[simp] theorem not_mem_empty : a ∉ (empty : OrdSet α) := List.not_mem_nil

theorem insert_new (h : x ∉ s) :
    s.insert x = (true, ⟨s.elems.orderedInsert (· ≤ ·) x, sorted_orderedInsert s.sorted h⟩) :=
  dif_neg h

@[simp] theorem mem_insert : a ∈ (s.insert x).2 ↔ a = x ∨ a ∈ s := by
  by_cases hx : x ∈ s
  · rw [show s.insert x = (false, s) from dif_pos hx]
    constructor
    · exact Or.inr
    · intro h
      rcases h with rfl | h
      · exact hx
      · exact h
  · rw [insert_new hx]
    exact List.mem_orderedInsert _

theorem fst_insert (h : x ∉ s) : (s.insert x).1 = true := by
  rw [insert_new h]

theorem size_insert (h : x ∉ s) : (s.insert x).2.size = s.size + 1 := by
  rw [insert_new h]
  exact List.orderedInsert_length _ _ _

@[simp] theorem mem_erase : a ∈ (s.erase x).2 ↔ a ≠ x ∧ a ∈ s :=
  List.Nodup.mem_erase_iff s.nodup

theorem fst_erase (h : x ∈ s) : (s.erase x).1 = 1 := if_pos h

theorem size_erase (h : x ∈ s) : (s.erase x).2.size + 1 = s.size :=
  List.length_erase_add_one h

/-- The elements before `lower_bound(x)` are those less than `x`. -/
theorem mem_below : a ∈ s.below x ↔ a ∈ s ∧ a < x := by
  obtain ⟨l, hl⟩ := s
  show a ∈ l.takeWhile (· < x) ↔ a ∈ l ∧ a < x
  induction l with
  | nil => simp
  | cons b l ih =>
    obtain ⟨hb, hl'⟩ := List.pairwise_cons.mp hl
    by_cases hbx : b < x
    · rw [List.takeWhile_cons_of_pos (by simpa using hbx), List.mem_cons, ih hl', List.mem_cons]
      constructor
      · intro h
        rcases h with rfl | ⟨h, hax⟩
        · exact ⟨Or.inl rfl, hbx⟩
        · exact ⟨Or.inr h, hax⟩
      · intro ⟨h, hax⟩
        rcases h with rfl | h
        · exact Or.inl rfl
        · exact Or.inr ⟨h, hax⟩
    · rw [List.takeWhile_cons_of_neg (by simpa using hbx)]
      constructor
      · intro h
        cases h
      · intro ⟨h, hax⟩
        rcases List.mem_cons.mp h with rfl | h
        · exact absurd hax hbx
        · exact absurd (lt_trans (hb a h) hax) hbx

theorem below_append_notBelow (s : OrdSet α) (x : α) : s.below x ++ (s.notBelow x).elems = s.elems :=
  List.takeWhile_append_dropWhile

theorem below_nodup (s : OrdSet α) (x : α) : (s.below x).Nodup :=
  s.nodup.sublist (List.takeWhile_sublist _)

theorem below_sorted (s : OrdSet α) (x : α) : (s.below x).Pairwise (· < ·) :=
  s.sorted.sublist (List.takeWhile_sublist _)

theorem mem_notBelow : a ∈ s.notBelow x ↔ a ∈ s ∧ x ≤ a := by
  have hsplit := below_append_notBelow s x
  have hnodup := s.nodup
  rw [← hsplit] at hnodup
  have hdisj := List.disjoint_of_nodup_append hnodup
  have hmem : a ∈ s ↔ a ∈ s.below x ∨ a ∈ s.notBelow x := by
    rw [← mem_elems, ← hsplit, List.mem_append]
    exact Iff.rfl
  constructor
  · intro h
    refine ⟨hmem.mpr (Or.inr h), le_of_not_gt ?_⟩
    intro hax
    exact hdisj (mem_below.mpr ⟨hmem.mpr (Or.inr h), hax⟩) h
  · intro ⟨h, hxa⟩
    rcases hmem.mp h with hbelow | habove
    · exact absurd (mem_below.mp hbelow).2 (not_lt.mpr hxa)
    · exact habove

theorem size_split (s : OrdSet α) (x : α) : (s.below x).length + (s.notBelow x).size = s.size := by
  rw [size, size, ← List.length_append, below_append_notBelow]

/-- `*begin()` is the least element. -/
theorem first_eq_some : s.first = some a ↔ a ∈ s ∧ ∀ b ∈ s, a ≤ b := by
  obtain ⟨l, hl⟩ := s
  show l.head? = some a ↔ a ∈ l ∧ ∀ b ∈ l, a ≤ b
  cases l with
  | nil => simp
  | cons c l =>
    obtain ⟨hc, _⟩ := List.pairwise_cons.mp hl
    rw [List.head?_cons, Option.some.injEq]
    constructor
    · intro h
      subst h
      refine ⟨List.mem_cons_self, ?_⟩
      intro b hb
      rcases List.mem_cons.mp hb with rfl | hb
      · exact le_refl b
      · exact le_of_lt (hc b hb)
    · intro ⟨ha, hmin⟩
      rcases List.mem_cons.mp ha with rfl | ha
      · rfl
      · exact absurd (hc a ha) (not_lt.mpr (hmin c List.mem_cons_self))

theorem first_eq_none : s.first = none ↔ ∀ b, b ∉ s := by
  obtain ⟨l, hl⟩ := s
  show l.head? = none ↔ ∀ b, b ∉ l
  rw [List.head?_eq_none_iff, List.eq_nil_iff_forall_not_mem]

end OrdSet

end MuduoNet.Lib
