import Mathlib.Data.List.Nodup
import Mathlib.Data.List.Perm.Basic
import Mathlib.Logic.Function.Basic

/-!
# What the members of a family hold

Finitely many indices hold a value each, and a list names them. Taking a value from an index
or giving it one changes the values held by just these.
-/
namespace MuduoNet.Lib

variable {ι α : Type} {held : ι → Option α} {l : List (ι × α)}

/-- The list has one entry for each index that holds a value. -/
structure Enumerates (held : ι → Option α) (l : List (ι × α)) : Prop where
  nodup : (l.map Prod.fst).Nodup
  mem : ∀ i a, (i, a) ∈ l ↔ held i = some a

theorem Enumerates.nil : Enumerates (fun _ : ι => (none : Option α)) [] :=
  ⟨List.nodup_nil, by simp⟩

theorem Enumerates.eq_nil (h : Enumerates held l) (hnone : ∀ i, held i = none) : l = [] := by
  apply List.eq_nil_iff_forall_not_mem.mpr
  rintro ⟨i, a⟩ hmem
  rw [h.mem, hnone] at hmem
  cases hmem

variable [DecidableEq ι]

theorem Enumerates.split (h : Enumerates held l) (i : ι) :
    l.Perm ((held i).toList.map (i, ·) ++ l.filter (·.1 ≠ i)) := by
  have hhere : (l.filter (·.1 = i)).Perm ((held i).toList.map (i, ·)) := by
    rw [List.perm_ext_iff_of_nodup]
    · rintro ⟨j, a⟩
      simp only [List.mem_filter, h.mem, decide_eq_true_eq, List.mem_map, Option.mem_toList,
        Prod.mk.injEq]
      grind
    · exact (List.Nodup.of_map _ h.nodup).filter _
    · cases held i <;> simp
  have hsplit := List.filter_append_perm (fun p : ι × α => decide (p.1 = i)) l
  refine hsplit.symm.trans (hhere.append ?_)
  simp

/-- The index `i` gives up what it holds and gets `o`: the values held balance. -/
theorem Enumerates.set (h : Enumerates held l) (i : ι) (o : Option α) :
    ∃ l', ((held i).toList ++ l'.map Prod.snd).Perm (o.toList ++ l.map Prod.snd) ∧
      Enumerates (Function.update held i o) l' := by
  refine ⟨o.toList.map (i, ·) ++ l.filter (·.1 ≠ i), ?_, ?_, ?_⟩
  · have hl := (h.split i).map Prod.snd
    have hsnd : ∀ o : Option α, (o.toList.map (i, ·)).map Prod.snd = o.toList := by
      intro o
      cases o <;> rfl
    rw [List.map_append, hsnd] at hl ⊢
    exact (List.perm_append_comm_assoc _ _ _).trans (hl.symm.append_left _)
  · have hfilter : ((l.filter (·.1 ≠ i)).map Prod.fst).Nodup :=
      h.nodup.sublist (List.filter_sublist.map _)
    cases o with
    | none => exact hfilter
    | some a => simpa using hfilter
  · intro j a
    by_cases hj : j = i
    · subst hj
      cases o <;> simp [eq_comm]
    · rw [Function.update_of_ne hj, ← h.mem]
      cases o <;> simp [hj]

end MuduoNet.Lib
