import MuduoNet.Lib.Words

/-!
# Fields behind tags

A record is written field by field, in the order of the tags, without the fields that are not
set. How a value is written is a `FieldCodec`, which comes with the proof that it is read back;
so is a record made of such fields, as long as the tag of the next field is never taken for
another.
-/
namespace MuduoNet.Lib

open Words

/-- A value that is read back from the front of what was written. -/
structure FieldCodec (α : Type) where
  put : α → List UInt8
  take : List UInt8 → Option (α × List UInt8)
  take_put : ∀ a rest, take (put a ++ rest) = some (a, rest)

/-- Seven bits of a number to a byte, the low ones first; the top bit of a byte says that more
follow. No more than `budget + 1` bytes are written. -/
def varintLoop : Nat → Nat → List UInt8
  | 0, n => [UInt8.ofNat n]
  | budget + 1, n =>
    if n < 128 then [UInt8.ofNat n] else UInt8.ofNat (n % 128 + 128) :: varintLoop budget (n / 128)

def varint (n : Nat) : List UInt8 := varintLoop n n

def readVarint : List UInt8 → Option (Nat × List UInt8)
  | [] => none
  | b :: rest =>
    if b.toNat < 128 then some (b.toNat, rest)
    else do
      let (n, rest) ← readVarint rest
      return (b.toNat - 128 + 128 * n, rest)

theorem readVarint_loop {budget n : Nat} (h : n ≤ budget) (rest : List UInt8) :
    readVarint (varintLoop budget n ++ rest) = some (n, rest) := by
  induction budget generalizing n with
  | zero =>
    obtain rfl := Nat.le_zero.mp h
    rfl
  | succ budget ih =>
    unfold varintLoop
    by_cases hsmall : n < 128
    · have hbyte : (UInt8.ofNat n).toNat = n := by
        rw [UInt8.toNat_ofNat']
        omega
      rw [if_pos hsmall, List.singleton_append, readVarint, hbyte, if_pos hsmall]
    · have hbyte : (UInt8.ofNat (n % 128 + 128)).toNat = n % 128 + 128 := by
        rw [UInt8.toNat_ofNat']
        omega
      have hdigits : n % 128 + 128 - 128 + 128 * (n / 128) = n := by omega
      rw [if_neg hsmall, List.cons_append, readVarint, hbyte, if_neg (by omega),
        ih (show n / 128 ≤ budget by omega)]
      show some (_, rest) = _
      rw [hdigits]

theorem readVarint_varint (n : Nat) (rest : List UInt8) :
    readVarint (varint n ++ rest) = some (n, rest) := readVarint_loop (Nat.le_refl n) rest

theorem length_varintLoop {budget n k : Nat} (h : n < 128 ^ (k + 1)) :
    (varintLoop budget n).length ≤ k + 1 := by
  induction budget generalizing n k with
  | zero => exact Nat.le_add_left _ _
  | succ budget ih =>
    unfold varintLoop
    split
    · exact Nat.le_add_left _ _
    · cases k with
      | zero => omega
      | succ k =>
        have hrest : n / 128 < 128 ^ (k + 1) := by
          rw [Nat.div_lt_iff_lt_mul (by decide)]
          exact h
        exact Nat.succ_le_succ (ih hrest)

/-- A number of 64 bits takes at most ten bytes. -/
theorem length_varint {n : Nat} (h : n < 2 ^ 64) : (varint n).length ≤ 10 :=
  length_varintLoop (k := 9) (Nat.lt_trans h (by decide))

namespace FieldCodec

/-- The first `n` bytes, if there are as many. -/
def takeExactly (n : Nat) (bytes : List UInt8) : Option (List UInt8 × List UInt8) :=
  if n ≤ bytes.length then some (bytes.take n, bytes.drop n) else none

theorem takeExactly_append (bytes rest : List UInt8) :
    takeExactly bytes.length (bytes ++ rest) = some (bytes, rest) := by
  unfold takeExactly
  rw [if_pos (by simp), List.take_left, List.drop_left]

/-- Bytes behind their number. -/
def bytes : FieldCodec (List UInt8) where
  put a := varint a.length ++ a
  take l := do
    let (n, rest) ← readVarint l
    takeExactly n rest
  take_put a rest := by
    rw [List.append_assoc, readVarint_varint]
    exact takeExactly_append a rest

/-- Eight bytes, the low ones first. -/
def fixed64 : FieldCodec UInt64 where
  put a := (toBE 8 a.toNat).reverse
  take l := do
    let (digits, rest) ← takeExactly 8 l
    return (UInt64.ofNat (ofBE digits.reverse), rest)
  take_put a rest := by
    have hlen : 8 = (toBE 8 a.toNat).reverse.length := by simp
    have htake : takeExactly 8 ((toBE 8 a.toNat).reverse ++ rest) =
        some ((toBE 8 a.toNat).reverse, rest) := by
      rw [congrArg takeExactly hlen]
      exact takeExactly_append _ rest
    have hlt : a.toNat < 256 ^ 8 := a.toNat_lt
    rw [htake]
    show some (UInt64.ofNat (ofBE (toBE 8 a.toNat).reverse.reverse), rest) = _
    rw [List.reverse_reverse, ofBE_toBE, Nat.mod_eq_of_lt hlt, UInt64.ofNat_toNat]

/-- A number below 128 for each value. -/
def enumeration {α : Type} (number : α → UInt8) (value : UInt8 → Option α)
    (h : ∀ a, value (number a) = some a) : FieldCodec α where
  put a := [number a]
  take
    | [] => none
    | n :: rest => (value n).map (·, rest)
  take_put a rest := by simp [h]

variable {α : Type} (c : FieldCodec α) (tag : UInt8)

def putField : Option α → List UInt8
  | none => []
  | some a => tag :: c.put a

/-- The field, if its tag is next. -/
def takeField (l : List UInt8) : Option (Option α × List UInt8) :=
  if l.head? = some tag then (c.take l.tail).map fun r => (some r.1, r.2) else some (none, l)

theorem takeField_putField (o : Option α) {rest : List UInt8} (h : rest.head? ≠ some tag) :
    c.takeField tag (c.putField tag o ++ rest) = some (o, rest) := by
  unfold takeField
  cases o with
  | none =>
    rw [putField, List.nil_append, if_neg h]
  | some a =>
    rw [putField, List.cons_append, List.head?_cons, if_pos rfl, List.tail_cons, c.take_put]
    rfl

/-- What comes behind a field that may be missing begins with its tag or as the rest does. -/
theorem head_putField (o : Option α) {t : UInt8} {rest : List UInt8} (ht : tag ≠ t)
    (h : rest.head? ≠ some t) : (c.putField tag o ++ rest).head? ≠ some t := by
  cases o with
  | none => exact h
  | some a => simpa [putField] using ht

end FieldCodec

/-- A reader that takes a front part off and does not look at what comes behind. -/
structure Steady {α : Type} (read : List UInt8 → Option (α × List UInt8)) : Prop where
  shorter : ∀ {l a rest}, read l = some (a, rest) → rest.length ≤ l.length
  append : ∀ {l a rest} ys, read l = some (a, rest) → read (l ++ ys) = some (a, rest ++ ys)

namespace Steady

variable {α β : Type} {read : List UInt8 → Option (α × List UInt8)}

theorem of_eq_none (h : ∀ l, read l = none) : Steady read where
  shorter hl := by
    rw [h] at hl
    cases hl
  append _ hl := by
    rw [h] at hl
    cases hl

/-- One reader behind the other. -/
theorem bind (h : Steady read) {next : α → List UInt8 → Option (β × List UInt8)}
    (hnext : ∀ a, Steady (next a)) : Steady fun l => (read l).bind fun r => next r.1 r.2 where
  shorter hl := by
    obtain ⟨⟨a, rest⟩, hread, hl⟩ := Option.bind_eq_some_iff.mp hl
    exact Nat.le_trans ((hnext a).shorter hl) (h.shorter hread)
  append ys hl := by
    obtain ⟨⟨a, rest⟩, hread, hl⟩ := Option.bind_eq_some_iff.mp hl
    rw [h.append ys hread]
    exact (hnext a).append ys hl

theorem map (h : Steady read) (f : α → β) : Steady fun l => (read l).map fun r => (f r.1, r.2) where
  shorter hl := by
    obtain ⟨⟨a, rest⟩, hread, hl⟩ := Option.map_eq_some_iff.mp hl
    obtain ⟨_, rfl⟩ := Prod.mk.inj hl
    exact h.shorter hread
  append ys hl := by
    obtain ⟨⟨a, rest⟩, hread, hl⟩ := Option.map_eq_some_iff.mp hl
    obtain ⟨rfl, rfl⟩ := Prod.mk.inj hl
    rw [h.append ys hread]
    rfl

theorem ite {p : Prop} [Decidable p] {other : List UInt8 → Option (α × List UInt8)} (h : Steady read)
    (h' : Steady other) : Steady fun l => if p then read l else other l := by
  by_cases hp : p
  · simpa only [if_pos hp] using h
  · simpa only [if_neg hp] using h'

end Steady

theorem length_readVarint {l rest : List UInt8} {n : Nat} (h : readVarint l = some (n, rest)) :
    rest.length < l.length := by
  induction l generalizing n rest with
  | nil => cases h
  | cons b l ih =>
    rw [readVarint] at h
    split at h
    · obtain ⟨_, rfl⟩ := Prod.mk.inj (Option.some.inj h)
      exact Nat.lt_succ_self _
    · obtain ⟨⟨k, r⟩, hread, h⟩ := Option.bind_eq_some_iff.mp h
      obtain ⟨_, rfl⟩ := Prod.mk.inj (Option.some.inj h)
      exact Nat.lt_succ_of_lt (ih hread)

theorem readVarint_append {l rest : List UInt8} {n : Nat} (ys : List UInt8)
    (h : readVarint l = some (n, rest)) : readVarint (l ++ ys) = some (n, rest ++ ys) := by
  induction l generalizing n rest with
  | nil => cases h
  | cons b l ih =>
    rw [readVarint] at h
    rw [List.cons_append, readVarint]
    split at h
    · obtain ⟨rfl, rfl⟩ := Prod.mk.inj (Option.some.inj h)
      rw [if_pos ‹_›]
    · obtain ⟨⟨k, r⟩, hread, h⟩ := Option.bind_eq_some_iff.mp h
      obtain ⟨rfl, rfl⟩ := Prod.mk.inj (Option.some.inj h)
      rw [if_neg ‹_›, ih hread]
      rfl

theorem steady_readVarint : Steady readVarint :=
  ⟨fun h => Nat.le_of_lt (length_readVarint h), readVarint_append⟩

theorem takeExactly_taken {n : Nat} {l bytes rest : List UInt8}
    (h : FieldCodec.takeExactly n l = some (bytes, rest)) :
    FieldCodec.takeExactly n bytes = some (bytes, []) := by
  unfold FieldCodec.takeExactly at h
  split at h
  · obtain ⟨rfl, _⟩ := Prod.mk.inj (Option.some.inj h)
    have hlen : n = (l.take n).length := by
      rw [List.length_take]
      omega
    have htake := FieldCodec.takeExactly_append (l.take n) []
    rw [← hlen, List.append_nil] at htake
    exact htake
  · cases h

theorem steady_takeExactly (n : Nat) : Steady (FieldCodec.takeExactly n) where
  shorter h := by
    unfold FieldCodec.takeExactly at h
    split at h
    · obtain ⟨_, rfl⟩ := Prod.mk.inj (Option.some.inj h)
      rw [List.length_drop]
      exact Nat.sub_le _ _
    · cases h
  append ys h := by
    unfold FieldCodec.takeExactly at h ⊢
    split at h
    · rename_i hle
      obtain ⟨rfl, rfl⟩ := Prod.mk.inj (Option.some.inj h)
      rw [if_pos (by rw [List.length_append]; omega), List.take_append_of_le_length hle,
        List.drop_append_of_le_length hle]
    · cases h

end MuduoNet.Lib
