/-!
# Outcomes of computations that can fail

`Sat A x Q` reads: `x` returns a value satisfying `Q`, or fails with an error that
`A` allows. An `A` that allows nothing makes the statement total correctness. The
rules follow the computation: one for each way of building it.
-/
namespace MuduoNet.Lib.Outcome

universe u

variable {ε : Type u} {α β : Type}

def Sat (A : ε → Prop) (x : Except ε α) (Q : α → Prop) : Prop :=
  match x with
  | .ok a => Q a
  | .error e => A e

/-- No error is allowed. -/
def Nothing (_ : ε) : Prop := False

/-- Continue if the condition holds, fail with `e` otherwise. -/
def demand (e : ε) (p : Prop) [Decidable p] : Except ε Unit :=
  if p then .ok () else .error e

@[simp] theorem sat_ok {A : ε → Prop} {a : α} {Q : α → Prop} : Sat A (.ok a) Q ↔ Q a := Iff.rfl

@[simp] theorem sat_pure {A : ε → Prop} {a : α} {Q : α → Prop} : Sat A (pure a) Q ↔ Q a := Iff.rfl

@[simp] theorem sat_error {A : ε → Prop} {e : ε} {Q : α → Prop} :
    Sat A (.error e : Except ε α) Q ↔ A e := Iff.rfl

theorem sat_bind {A : ε → Prop} {x : Except ε α} {f : α → Except ε β} {P : α → Prop}
    {Q : β → Prop} (hx : Sat A x P) (hf : ∀ a, P a → Sat A (f a) Q) : Sat A (x >>= f) Q := by
  cases x with
  | error e => exact hx
  | ok a => exact hf a hx

theorem sat_mono {A B : ε → Prop} {x : Except ε α} {P Q : α → Prop} (hx : Sat A x P)
    (hA : ∀ e, A e → B e) (hP : ∀ a, P a → Q a) : Sat B x Q := by
  cases x with
  | error e => exact hA e hx
  | ok a => exact hP a hx

theorem sat_post {A : ε → Prop} {x : Except ε α} {P Q : α → Prop} (hx : Sat A x P)
    (hP : ∀ a, P a → Q a) : Sat A x Q :=
  sat_mono hx (fun _ h => h) hP

theorem Sat.of_ok {A : ε → Prop} {x : Except ε α} {Q : α → Prop} {a : α} (h : Sat A x Q)
    (hx : x = .ok a) : Q a := by
  subst hx
  exact h

theorem Sat.of_error {A : ε → Prop} {x : Except ε α} {Q : α → Prop} {e : ε} (h : Sat A x Q)
    (hx : x = .error e) : A e := by
  subst hx
  exact h

/-- With every allowed error excluded the computation returns. -/
theorem Sat.returns {A : ε → Prop} {x : Except ε α} {Q : α → Prop} (h : Sat A x Q)
    (hA : ∀ e, ¬ A e) : ∃ a, x = .ok a ∧ Q a := by
  cases x with
  | error e => exact absurd h (hA e)
  | ok a => exact ⟨a, rfl, h⟩

@[simp] theorem demand_true {e : ε} {p : Prop} [Decidable p] (hp : p) :
    demand e p = .ok () := if_pos hp

@[simp] theorem demand_false {e : ε} {p : Prop} [Decidable p] (hp : ¬ p) :
    demand e p = .error e := if_neg hp

theorem demand_eq_ok {e : ε} {p : Prop} [Decidable p] {u : Unit} (h : demand e p = .ok u) : p := by
  unfold demand at h
  split at h
  · assumption
  · cases h

theorem sat_demand {A : ε → Prop} {e : ε} {p : Prop} [Decidable p] {f : Unit → Except ε α}
    {Q : α → Prop} (hp : p) (hf : Sat A (f ()) Q) : Sat A (demand e p >>= f) Q := by
  rw [demand_true hp]
  exact hf

@[simp] theorem ok_bind {a : α} {f : α → Except ε β} : (Except.ok a >>= f) = f a := rfl

@[simp] theorem bind_ok (x : Except ε α) : (x >>= Except.ok) = x := by
  cases x <;> rfl

@[simp] theorem error_bind {e : ε} {f : α → Except ε β} :
    ((Except.error e : Except ε α) >>= f) = .error e := rfl

theorem demand_bind {e : ε} {p : Prop} [Decidable p] {f : Unit → Except ε α} (hp : p) :
    (demand e p >>= f) = f () := by
  rw [demand_true hp, ok_bind]

/-- A computation in two parts that returned ran both of them. -/
theorem bind_eq_ok {x : Except ε α} {f : α → Except ε β} {b : β} (h : (x >>= f) = .ok b) :
    ∃ a, x = .ok a ∧ f a = .ok b := by
  cases x with
  | error e => cases h
  | ok a => exact ⟨a, rfl, h⟩

/-- Each result of `mapM` comes from an element of the list. -/
theorem exists_of_mem_mapM {f : α → Except ε β} {xs : List α} {ys : List β}
    (h : xs.mapM f = .ok ys) {y : β} (hy : y ∈ ys) : ∃ x ∈ xs, f x = .ok y := by
  induction xs generalizing ys with
  | nil =>
    obtain rfl := Except.ok.inj h
    cases hy
  | cons x xs ih =>
    rw [List.mapM_cons] at h
    obtain ⟨first, hfirst, h⟩ := bind_eq_ok h
    obtain ⟨later, hlater, h⟩ := bind_eq_ok h
    obtain rfl := Except.ok.inj h
    rcases List.mem_cons.mp hy with rfl | hy
    · exact ⟨x, List.mem_cons_self, hfirst⟩
    · obtain ⟨x', hx', hf⟩ := ih hlater hy
      exact ⟨x', List.mem_cons_of_mem _ hx', hf⟩

theorem demand_bind_eq_ok {e : ε} {p : Prop} [Decidable p] {f : Unit → Except ε α} {a : α}
    (h : (demand e p >>= f) = .ok a) : p ∧ f () = .ok a := by
  obtain ⟨u, hp, hf⟩ := bind_eq_ok h
  exact ⟨demand_eq_ok hp, hf⟩

/-- What every step of a loop over a list preserves. -/
theorem sat_foldlM {A : ε → Prop} {f : β → α → Except ε β} {I : β → Prop} {l : List α} {b : β}
    (hb : I b) (hf : ∀ b, ∀ a ∈ l, I b → Sat A (f b a) I) : Sat A (l.foldlM f b) I := by
  induction l generalizing b with
  | nil => exact hb
  | cons a l ih =>
    rw [List.foldlM_cons]
    apply sat_bind (hf b a List.mem_cons_self hb)
    intro b' hb'
    exact ih hb' fun b a ha => hf b a (List.mem_cons_of_mem _ ha)

theorem eq_ok_of_toOption {x : Except ε α} {a : α} (h : x.toOption = some a) : x = .ok a := by
  cases x with
  | error e => cases h
  | ok b => exact congrArg Except.ok (Option.some.inj h)

end MuduoNet.Lib.Outcome
