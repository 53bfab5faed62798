import Mathlib.Data.List.Nodup
import Mathlib.Data.List.Induction
import Mathlib.Logic.Function.Basic

/-!
# Tickets

A ticket is issued under a key with a value, and given up when its key is presented. What is
outstanding after a history is the last value issued under each key and not presented since.
Where no key is issued twice, each ticket is given up at one place of the history at most. The
other entries of a history have nothing to do with tickets.
-/
namespace MuduoNet.Lib

/-- A place in a history that has grown by one entry is the new entry or a place in the old one. -/
theorem concat_eq_split {α : Type} {l pre post : List α} {x y : α} (h : l ++ [x] = pre ++ y :: post) :
    (pre = l ∧ x = y) ∨ ∃ mid, l = pre ++ y :: mid := by
  rcases List.eq_nil_or_concat' post with rfl | ⟨mid, z, rfl⟩
  · obtain ⟨rfl, hx⟩ := List.append_inj' h rfl
    exact .inl ⟨rfl, (List.cons.inj hx).1⟩
  · refine .inr ⟨mid, ?_⟩
    rw [← List.cons_append, ← List.append_assoc] at h
    exact (List.append_inj' h rfl).1

theorem filterMap_concat {α β : Type} (f : α → Option β) (l : List α) (x : α) :
    (l ++ [x]).filterMap f = l.filterMap f ++ (f x).toList := by
  rw [List.filterMap_append]
  cases h : f x <;> simp [h]

theorem append_eq_split {α : Type} {l new pre post : List α} {y : α} (hy : y ∉ new)
    (h : l ++ new = pre ++ y :: post) : ∃ mid, l = pre ++ y :: mid := by
  induction new using List.reverseRecOn generalizing post with
  | nil => exact ⟨post, by rw [← h, List.append_nil]⟩
  | append_singleton new x ih =>
    rw [List.mem_append, not_or] at hy
    rw [← List.append_assoc] at h
    rcases concat_eq_split h with ⟨_, rfl⟩ | ⟨mid, hmid⟩
    · exact absurd (List.mem_singleton_self _) hy.2
    · exact ih hy.1 hmid

/-- The first place at which a property holds is one place. -/
theorem first_split_unique {α : Type} {P : α → Prop} {pre post pre' post' : List α} {x y : α}
    (h : pre ++ x :: post = pre' ++ y :: post') (hx : P x) (hy : P y) (hpre : ∀ e ∈ pre, ¬ P e)
    (hpre' : ∀ e ∈ pre', ¬ P e) : pre = pre' := by
  induction pre generalizing pre' with
  | nil =>
    cases pre' with
    | nil => rfl
    | cons z pre' =>
      obtain ⟨rfl, _⟩ := List.cons.inj h
      exact absurd hx (hpre' x List.mem_cons_self)
  | cons z pre ih =>
    cases pre' with
    | nil =>
      obtain ⟨rfl, _⟩ := List.cons.inj h
      exact absurd hy (hpre z List.mem_cons_self)
    | cons w pre' =>
      obtain ⟨rfl, htail⟩ := List.cons.inj h
      rw [ih htail (fun e he => hpre e (List.mem_cons_of_mem _ he))
        fun e he => hpre' e (List.mem_cons_of_mem _ he)]

theorem exists_first_split {α : Type} {P : α → Prop} {l : List α} (h : ∃ x ∈ l, P x) :
    ∃ pre x post, l = pre ++ x :: post ∧ P x ∧ ∀ e ∈ pre, ¬ P e := by
  induction l with
  | nil => simp at h
  | cons y l ih =>
    by_cases hy : P y
    · exact ⟨[], y, l, rfl, hy, by simp⟩
    · obtain ⟨x, hx, hpx⟩ := h
      rcases List.mem_cons.mp hx with rfl | hx
      · exact absurd hpx hy
      · obtain ⟨pre, z, post, rfl, hz, hpre⟩ := ih ⟨x, hx, hpx⟩
        refine ⟨y :: pre, z, post, rfl, hz, ?_⟩
        intro e he
        rcases List.mem_cons.mp he with rfl | he
        · exact hy
        · exact hpre e he

/-- What only one entry of a history yields is yielded at one place. -/
theorem filterMap_split_unique {α β : Type} {f : α → Option β} {h pre post pre' post' : List α}
    {x y : α} {b : β} (hn : (h.filterMap f).Nodup) (hpre : h = pre ++ x :: post)
    (hpre' : h = pre' ++ y :: post') (hx : f x = some b) (hy : f y = some b) : pre = pre' := by
  subst hpre
  have hb : ∀ l m : List α, ∀ z, f z = some b → ((l ++ z :: m).filterMap f).Nodup →
      ∀ e ∈ l, f e ≠ some b := by
    intro l m z hz hn e he heb
    rw [List.filterMap_append, List.filterMap_cons_some hz, List.nodup_append] at hn
    exact hn.2.2 b (List.mem_filterMap.mpr ⟨e, he, heb⟩) b List.mem_cons_self rfl
  exact first_split_unique hpre' hx hy (hb pre post x hx hn) (hb pre' post' y hy (hpre' ▸ hn))

inductive Ticket (κ α : Type)
  | issue (k : κ) (a : α)
  | present (k : κ)
  | other

namespace Ticket

variable {κ α : Type} {h pre post pre' post' : List (Ticket κ α)} {k : κ} {a b : α}

def key : Ticket κ α → Option κ
  | issue k _ => some k
  | present k => some k
  | other => none

/-- The key that is issued. -/
def issued : Ticket κ α → Option κ
  | issue k _ => some k
  | _ => none

variable [DecidableEq κ]

def act (table : κ → Option α) : Ticket κ α → κ → Option α
  | issue k a => Function.update table k (some a)
  | present k => Function.update table k none
  | other => table

def outstanding (h : List (Ticket κ α)) : κ → Option α := h.foldl act fun _ => none

theorem outstanding_concat (h : List (Ticket κ α)) (e : Ticket κ α) :
    outstanding (h ++ [e]) = act (outstanding h) e := by
  simp [outstanding]

theorem outstanding_append_other (hpost : ∀ e ∈ post, e = other) :
    outstanding (h ++ post) = outstanding h := by
  induction post using List.reverseRecOn with
  | nil => rw [List.append_nil]
  | append_singleton post e ih =>
    rw [← List.append_assoc, outstanding_concat, hpost e (by simp)]
    exact ih fun e he => hpost e (List.mem_append_left _ he)

theorem act_of_ne {e : Ticket κ α} (table : κ → Option α) (hk : e.key ≠ some k) :
    act table e k = table k := by
  cases e with
  | issue j a => exact Function.update_of_ne (fun h => hk (congrArg some h.symm)) _ _
  | present j => exact Function.update_of_ne (fun h => hk (congrArg some h.symm)) _ _
  | other => rfl

theorem outstanding_append_of_ne (hpost : ∀ e ∈ post, e.key ≠ some k) :
    outstanding (h ++ post) k = outstanding h k := by
  induction post using List.reverseRecOn with
  | nil => rw [List.append_nil]
  | append_singleton post e ih =>
    rw [← List.append_assoc, outstanding_concat, act_of_ne _ (hpost e (by simp))]
    exact ih fun e he => hpost e (List.mem_append_left _ he)

/-- An outstanding ticket was issued, and its key has not come up since. -/
theorem outstanding_eq_some (ho : outstanding h k = some a) :
    ∃ pre post, h = pre ++ issue k a :: post ∧ ∀ e ∈ post, e.key ≠ some k := by
  induction h using List.reverseRecOn with
  | nil => cases ho
  | append_singleton h e ih =>
    rw [outstanding_concat] at ho
    by_cases hk : e.key = some k
    · cases e with
      | issue j b =>
        obtain rfl : j = k := Option.some.inj hk
        rw [act, Function.update_self] at ho
        obtain rfl := Option.some.inj ho
        exact ⟨h, [], rfl, by simp⟩
      | present j =>
        obtain rfl : j = k := Option.some.inj hk
        rw [act, Function.update_self] at ho
        cases ho
      | other => cases hk
    · rw [act_of_ne _ hk] at ho
      obtain ⟨pre, post, rfl, hpost⟩ := ih ho
      refine ⟨pre, post ++ [e], by simp, ?_⟩
      intro e' he'
      rcases List.mem_append.mp he' with he' | he'
      · exact hpost e' he'
      · rw [List.mem_singleton.mp he']
        exact hk

theorem issued_of_outstanding (ho : outstanding h k = some a) : k ∈ h.filterMap issued := by
  obtain ⟨pre, post, rfl, _⟩ := outstanding_eq_some ho
  exact List.mem_filterMap.mpr ⟨issue k a, by simp, rfl⟩

/-- A key that was presented and is not issued again stays without a ticket. -/
theorem outstanding_after (hpost : k ∉ post.filterMap issued) :
    outstanding (h ++ present k :: post) k = none := by
  induction post using List.reverseRecOn with
  | nil =>
    rw [outstanding_concat, act, Function.update_self]
  | append_singleton post e ih =>
    rw [List.filterMap_append, List.mem_append, not_or] at hpost
    rw [← List.cons_append, ← List.append_assoc, outstanding_concat]
    cases e with
    | issue j b =>
      have hne : k ≠ j := by
        intro heq
        exact hpost.2 (by simp [issued, heq])
      rw [act, Function.update_of_ne hne]
      exact ih hpost.1
    | present j =>
      by_cases hj : k = j
      · rw [act, hj, Function.update_self]
      · rw [act, Function.update_of_ne hj]
        exact ih hpost.1
    | other => exact ih hpost.1

theorem presented_earlier (hn : (h.filterMap issued).Nodup) (hpre : h = pre ++ present k :: post)
    (ho : outstanding pre k = some a) (hpre' : h = pre' ++ present k :: post')
    (ho' : outstanding pre' k = some b) (hle : pre <+: pre') : pre = pre' := by
  obtain ⟨mid, rfl⟩ := hle
  cases mid with
  | nil => rw [List.append_nil]
  | cons e mid =>
    rw [hpre, List.append_assoc, List.cons_append] at hpre'
    obtain ⟨rfl, rfl⟩ := List.cons_eq_cons.mp (List.append_cancel_left hpre')
    rw [hpre, List.filterMap_append, List.nodup_append] at hn
    have hmid : k ∉ mid.filterMap issued := by
      intro hmem
      have hk := issued_of_outstanding ho
      refine hn.2.2 k hk k ?_ rfl
      rw [List.filterMap_cons_none rfl, List.filterMap_append]
      exact List.mem_append_left _ hmem
    rw [outstanding_after hmid] at ho'
    cases ho'

/-- With no key issued twice, a ticket is given up at one place only. -/
theorem presented_once (hn : (h.filterMap issued).Nodup) (hpre : h = pre ++ present k :: post)
    (ho : outstanding pre k = some a) (hpre' : h = pre' ++ present k :: post')
    (ho' : outstanding pre' k = some b) : pre = pre' := by
  have hle : pre <+: h := ⟨_, hpre.symm⟩
  have hle' : pre' <+: h := ⟨_, hpre'.symm⟩
  rcases List.prefix_or_prefix_of_prefix hle hle' with hlt | hlt
  · exact presented_earlier hn hpre ho hpre' ho' hlt
  · exact (presented_earlier hn hpre' ho' hpre ho hlt).symm

end Ticket

end MuduoNet.Lib
