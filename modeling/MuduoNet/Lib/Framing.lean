import Mathlib.Data.List.Basic

/-!
# Incremental decoding of frames

A decoder looks at the front of what has arrived: it takes a frame off, asks for more, or
rejects. When a verdict other than "more" is not changed by what arrives later, decoding a
stream piece by piece gives the frames of the whole stream, and those are its longest prefix
of valid frames.
-/
namespace MuduoNet.Lib

/-- What a decoder says of the front of its input. -/
inductive Verdict (μ ε : Type)
  | more
  | frame (m : μ) (n : Nat)
  | reject (e : ε)

/-- A decoder with stable verdicts: `frame m n` is decided by the first `n` symbols. -/
structure Framing (α μ ε : Type) where
  head : List α → Verdict μ ε
  frame_bounds : ∀ {bs m n}, head bs = .frame m n → 0 < n ∧ n ≤ bs.length
  frame_take : ∀ {bs m n}, head bs = .frame m n → head (bs.take n) = .frame m n
  frame_append : ∀ {bs m n} (ys : List α), head bs = .frame m n → head (bs ++ ys) = .frame m n
  reject_append : ∀ {bs e} (ys : List α), head bs = .reject e → head (bs ++ ys) = .reject e

variable {α μ ε : Type} {F : Framing α μ ε} {bs rest : List α} {fs gs : List (List α × μ)}

/-- `f` is one whole frame, for the message `m`. -/
def Framing.Valid (F : Framing α μ ε) (f : List α) (m : μ) : Prop := F.head f = .frame m f.length

/-- Taking frames off `bs` for as long as there are any gives `fs` and leaves `rest`. -/
inductive Decodes (F : Framing α μ ε) : List α → List (List α × μ) → List α → Prop
  | stop {bs : List α} : (∀ m n, F.head bs ≠ .frame m n) → Decodes F bs [] bs
  | frame {bs rest : List α} {m : μ} {n : Nat} {fs : List (List α × μ)} :
      F.head bs = .frame m n → Decodes F (bs.drop n) fs rest →
      Decodes F bs ((bs.take n, m) :: fs) rest

/-- The symbols of a list of frames. -/
def symbols (fs : List (List α × μ)) : List α := fs.flatMap Prod.fst

theorem Decodes.symbols_append (h : Decodes F bs fs rest) : bs = symbols fs ++ rest := by
  induction h with
  | stop _ => rfl
  | @frame bs rest m n fs _ _ ih =>
    rw [symbols, List.flatMap_cons, List.append_assoc]
    rw [symbols] at ih
    rw [← ih, List.take_append_drop]

theorem Decodes.exhausted (h : Decodes F bs fs rest) : ∀ m n, F.head rest ≠ .frame m n := by
  induction h with
  | stop hno => exact hno
  | frame _ _ ih => exact ih

theorem Decodes.valid (h : Decodes F bs fs rest) : ∀ f ∈ fs, F.Valid f.1 f.2 := by
  induction h with
  | stop _ =>
    intro f hf
    cases hf
  | frame hhead _ ih =>
    intro f hf
    rcases List.mem_cons.mp hf with rfl | hf
    · have hle := (F.frame_bounds hhead).2
      show F.head _ = .frame _ _
      rw [F.frame_take hhead, List.length_take, Nat.min_eq_left hle]
    · exact ih f hf

theorem Framing.head_nil (F : Framing α μ ε) (m : μ) (n : Nat) : F.head [] ≠ .frame m n := by
  intro h
  obtain ⟨hpos, hle⟩ := F.frame_bounds h
  exact absurd hle (Nat.not_le.mpr hpos)

/-- A valid frame alone decodes to itself. -/
theorem Framing.Valid.decodes {f : List α} {m : μ} (h : F.Valid f m) : Decodes F f [(f, m)] [] := by
  have hstop : Decodes F (f.drop f.length) [] [] := by
    rw [List.drop_length]
    exact .stop F.head_nil
  have hd := Decodes.frame h hstop
  rw [List.take_length] at hd
  exact hd

/-- Every input decodes: a frame is never empty. -/
theorem exists_decodes (F : Framing α μ ε) (bs : List α) : ∃ fs rest, Decodes F bs fs rest := by
  induction hn : bs.length using Nat.strongRecOn generalizing bs with
  | _ k ih =>
    cases hhead : F.head bs with
    | frame m n =>
      obtain ⟨hpos, hle⟩ := F.frame_bounds hhead
      have hlen : (bs.drop n).length < k := by
        rw [List.length_drop]
        omega
      obtain ⟨fs, rest, hd⟩ := ih _ hlen (bs.drop n) rfl
      exact ⟨_, rest, .frame hhead hd⟩
    | more =>
      refine ⟨[], bs, .stop ?_⟩
      intro m n h
      rw [hhead] at h
      cases h
    | reject e =>
      refine ⟨[], bs, .stop ?_⟩
      intro m n h
      rw [hhead] at h
      cases h

/-- Decoding what was left together with what arrives next is decoding the whole. -/
theorem Decodes.append {ys rest' : List α} (h : Decodes F bs fs rest)
    (g : Decodes F (rest ++ ys) gs rest') : Decodes F (bs ++ ys) (fs ++ gs) rest' := by
  induction h with
  | stop _ => exact g
  | @frame bs rest m n fs hhead _ ih =>
    have hle := (F.frame_bounds hhead).2
    have htake : (bs ++ ys).take n = bs.take n := List.take_append_of_le_length hle
    have hdrop : (bs ++ ys).drop n = bs.drop n ++ ys := List.drop_append_of_le_length hle
    rw [List.cons_append, ← htake]
    apply Decodes.frame (F.frame_append ys hhead)
    rw [hdrop]
    exact ih g

/-- No other list of valid frames reaches further. -/
theorem Decodes.longest {r : List α} (h : Decodes F bs fs rest) (hbs : bs = symbols gs ++ r)
    (hvalid : ∀ g ∈ gs, F.Valid g.1 g.2) : gs <+: fs := by
  induction gs generalizing bs fs with
  | nil => exact List.nil_prefix
  | cons g gs ih =>
    obtain ⟨f, m⟩ := g
    have hg : F.head f = .frame m f.length := hvalid _ List.mem_cons_self
    have hsplit : bs = f ++ (symbols gs ++ r) := by
      rw [hbs, symbols, List.flatMap_cons, List.append_assoc, symbols]
    have hhead : F.head bs = .frame m f.length := by
      rw [hsplit]
      exact F.frame_append _ hg
    cases h with
    | stop hno => exact absurd hhead (hno m f.length)
    | frame hhead' hd =>
      rw [hhead] at hhead'
      cases hhead'
      have htake : bs.take f.length = f := by rw [hsplit, List.take_left]
      have hdrop : bs.drop f.length = symbols gs ++ r := by rw [hsplit, List.drop_left]
      rw [htake, List.prefix_cons_inj]
      apply ih hd hdrop
      intro g hmem
      exact hvalid g (List.mem_cons_of_mem _ hmem)

/-- The decoding is determined by the input. -/
theorem Decodes.unique {rest' : List α} (h : Decodes F bs fs rest) (g : Decodes F bs gs rest') :
    fs = gs ∧ rest = rest' := by
  have hfg : fs = gs := by
    apply List.IsPrefix.eq_of_length (g.longest h.symbols_append h.valid)
    apply Nat.le_antisymm
    · exact (g.longest h.symbols_append h.valid).length_le
    · exact (h.longest g.symbols_append g.valid).length_le
  subst hfg
  exact ⟨rfl, List.append_cancel_left (h.symbols_append.symm.trans g.symbols_append)⟩

/-- Behind a rejection nothing is decoded any more. -/
theorem Decodes.of_reject {e : ε} (hrej : F.head rest = .reject e) {ys rest' : List α}
    (h : Decodes F (rest ++ ys) gs rest') : gs = [] ∧ rest' = rest ++ ys := by
  cases h with
  | stop _ => exact ⟨rfl, rfl⟩
  | frame hhead _ =>
    rw [F.reject_append ys hrej] at hhead
    cases hhead

/-- Valid frames one after the other decode to themselves. -/
theorem Decodes.of_valid (h : ∀ f ∈ fs, F.Valid f.1 f.2) : Decodes F (symbols fs) fs [] := by
  induction fs with
  | nil => exact .stop F.head_nil
  | cons f fs ih =>
    have hf : F.Valid f.1 f.2 := h f List.mem_cons_self
    have hrest := ih fun g hg => h g (List.mem_cons_of_mem _ hg)
    exact hf.decodes.append hrest

/-- The front of a stream of valid frames decodes to the first of them. -/
theorem Decodes.of_front {ys : List α} (hvalid : ∀ f ∈ fs, F.Valid f.1 f.2)
    (hbs : bs ++ ys = symbols fs) (h : Decodes F bs gs rest) :
    ∃ ks, fs = gs ++ ks ∧ rest ++ ys = symbols ks := by
  obtain ⟨ks, rest', hks⟩ := exists_decodes F (rest ++ ys)
  have hall := Decodes.of_valid hvalid
  rw [← hbs] at hall
  obtain ⟨rfl, rfl⟩ := hall.unique (h.append hks)
  refine ⟨ks, rfl, ?_⟩
  rw [hks.symbols_append, List.append_nil]

/-- No part of a stream of valid frames is rejected where a frame would begin. -/
theorem head_not_reject {ys : List α} {e : ε} (hvalid : ∀ f ∈ fs, F.Valid f.1 f.2)
    (hbs : rest ++ ys = symbols fs) (hnil : ∀ e, F.head [] ≠ .reject e) : F.head rest ≠ .reject e := by
  intro hrej
  have hwhole := F.reject_append ys hrej
  rw [hbs] at hwhole
  cases fs with
  | nil => exact hnil e hwhole
  | cons f fs =>
    rw [symbols, List.flatMap_cons, F.frame_append _ (hvalid f List.mem_cons_self)] at hwhole
    cases hwhole

end MuduoNet.Lib
