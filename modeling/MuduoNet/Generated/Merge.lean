import MuduoNet.Generated.Basic
import Mathlib.Data.Fintype.Basic

/-!
# Merging what a message is written as

A table of fields is coherent if the constants in the generated code agree with each other. Then
the bytes of a message, parsed into another one, do what `MergeFrom` does, and they are as many as
`ByteSizeLong` says.
-/
namespace MuduoNet.Generated

open Lib

/-- What the generated code relies on. Reading does not look at what comes behind; what is written
is read back, a field that is skipped as it was; a tag below 128 takes one byte, a number or a
length at most ten. -/
structure WireFormat.Lawful (W : WireFormat) : Prop where
  tag_end : (W.ReadTag []).1.1 = 0
  tag_known : ∀ l, (W.ReadTag l).1.2 = true → (W.ReadTag l).1.1 ≤ 127
  tag_unknown : ∀ l, (W.ReadTag l).1.2 = false → (W.ReadTag l).1.1 = 0 ∨ 127 < (W.ReadTag l).1.1
  tag_shorter : ∀ l, (W.ReadTag l).1.1 ≠ 0 → (W.ReadTag l).2.length < l.length
  tag_append : ∀ l ys, (W.ReadTag l).1.1 ≠ 0 →
    W.ReadTag (l ++ ys) = ((W.ReadTag l).1, (W.ReadTag l).2 ++ ys)
  tag_written : ∀ tag, 0 < tag → tag ≤ 127 → W.ReadTag (W.WriteTag tag) = ((tag, true), [])
  tag_size : ∀ tag, 0 < tag → tag ≤ 127 → (W.WriteTag tag).length = 1
  read_fits : ∀ {t l v rest}, W.Read t l = some (v, rest) → t.Fits v
  read_shorter : ∀ {t l v rest}, W.Read t l = some (v, rest) → rest.length ≤ l.length
  read_append : ∀ {t l v rest} ys, W.Read t l = some (v, rest) → W.Read t (l ++ ys) = some (v, rest ++ ys)
  read_written : ∀ t v, t.Fits v → W.Read t (W.Write t v) = some (v, [])
  write_short : ∀ t v, t.Fits v → (W.Write t v).length ≤ 10 + t.width v
  size : ∀ t v, t.Fits v → W.Size t v = (W.Write t v).length
  fixed64_size : ∀ v, (W.Write .fixed64 v).length = 8
  bool_size : ∀ v, (W.Write .bool v).length = 1
  skip_shorter : ∀ {tag l u rest}, W.SkipField tag l = some (u, rest) → rest.length ≤ l.length
  skip_append : ∀ {tag l u rest} ys, W.SkipField tag l = some (u, rest) →
    W.SkipField tag (l ++ ys) = some (u, rest ++ ys)
  skip_written : ∀ {tag l u rest}, W.SkipField tag l = some (u, rest) → tag ≠ 0 →
    ∃ known r, W.ReadTag (W.WriteUnknown u) = ((tag, known), r) ∧ W.SkipField tag r = some (u, [])
  varint_written : ∀ number valid (value : Int32), 0 < number → number < 16 →
    W.WriteUnknown (W.AddVarint number value.toInt64.toUInt64) =
      W.WriteTag (number * 8) ++ W.Write (.enumeration valid) value
  unknown_size : ∀ u, W.UnknownSize u = (W.WriteUnknown u).length

/-- A string is written as it is, among other bytes. -/
def WireFormat.Verbatim (W : WireFormat) : Prop :=
  ∀ (t : FieldType) (v : t.Value), t.width v ≤ (W.Write t v).length

theorem WireFormat.Lawful.readTag_writeTag {W : WireFormat} (hW : W.Lawful) {tag : Nat} (hpos : 0 < tag)
    (hle : tag ≤ 127) (rest : List UInt8) : W.ReadTag (W.WriteTag tag ++ rest) = ((tag, true), rest) := by
  have hwritten := hW.tag_written tag hpos hle
  rw [hW.tag_append _ _ (by rw [hwritten]; exact Nat.ne_of_gt hpos), hwritten, List.nil_append]

theorem WireFormat.Lawful.read_write {W : WireFormat} (hW : W.Lawful) {t : FieldType} {v : t.Value}
    (h : t.Fits v) (rest : List UInt8) : W.Read t (W.Write t v ++ rest) = some (v, rest) := by
  rw [hW.read_append rest (hW.read_written t v h), List.nil_append]

def Label.bit : Label → Option Nat
  | .required bit | .optional bit => some bit
  | .repeated => none

namespace Class

variable (c : Class)

/-- The constants in the generated code agree. -/
structure Coherent : Prop where
  tag : ∀ i : Fin c.fields.length, (c.fields.get i).tag = GeneratedMessage.makeTag (c.fields.get i)
  number : ∀ i : Fin c.fields.length, 0 < (c.fields.get i).number ∧ (c.fields.get i).number < 16
  numbers : ∀ i j : Fin c.fields.length, (c.fields.get i).number = (c.fields.get j).number → i = j
  bit : ∀ i : Fin c.fields.length, ∀ bit ∈ (c.fields.get i).label.bit, bit < 32
  bits : ∀ i j : Fin c.fields.length, ∀ bit ∈ (c.fields.get i).label.bit,
    bit ∈ (c.fields.get j).label.bit → i = j
  required : ∀ bit : Fin 32, c.required.getLsbD bit = true ↔
    ∃ i : Fin c.fields.length, GeneratedMessage.isRequired c i = true ∧
      (c.fields.get i).label.bit = some bit.val

/-- The bits of all the fields. -/
def mask (is_ : List (Fin c.fields.length)) : BitVec 32 :=
  is_.foldr (fun i b => (c.fields.get i).label.mask ||| b) 0

variable {c}

theorem wireType_lt (t : FieldType) : t.wireType < 8 := by
  cases t <;> simp [FieldType.wireType]

theorem Coherent.makeTag_le (h : c.Coherent) (i : Fin c.fields.length) :
    0 < GeneratedMessage.makeTag (c.fields.get i) ∧
      GeneratedMessage.makeTag (c.fields.get i) ≤ 127 := by
  have hnumber := h.number i
  have htype := wireType_lt (c.fields.get i).type
  unfold GeneratedMessage.makeTag
  omega

/-- Each field has its own case. -/
theorem Coherent.case_makeTag (h : c.Coherent) (i : Fin c.fields.length) :
    c.case (GeneratedMessage.makeTag (c.fields.get i)) = some i := by
  have htype := wireType_lt (c.fields.get i).type
  have hle := h.makeTag_le i
  have hdiv : GeneratedMessage.makeTag (c.fields.get i) / 8 = (c.fields.get i).number := by
    unfold GeneratedMessage.makeTag
    omega
  have hfind : (List.finRange c.fields.length).find?
      (fun j => (c.fields.get j).number = GeneratedMessage.makeTag (c.fields.get i) / 8) = some i := by
    rw [List.find?_eq_some_iff_append]
    refine ⟨decide_eq_true hdiv.symm, ?_⟩
    obtain ⟨as, bs, has⟩ := List.append_of_mem (List.mem_finRange i)
    refine ⟨as, bs, has, ?_⟩
    intro j hj
    have hnodup := List.nodup_finRange c.fields.length
    rw [has] at hnodup
    have hne : j ≠ i := by
      rintro rfl
      exact (List.nodup_append.mp hnodup).2.2 j hj j List.mem_cons_self rfl
    rw [hdiv]
    simpa using fun heq => hne (h.numbers j i heq)
  unfold case
  rw [hfind]
  show (if _ then _ else _) = _
  rw [if_pos]
  rw [h.tag i, Nat.mod_eq_of_lt (by omega)]

theorem case_zero (h : c.Coherent) : c.case 0 = none := by
  unfold case
  rw [List.find?_eq_none.mpr]
  · rfl
  · intro i _
    have hpos := (h.number i).1
    simp only [Nat.zero_div, decide_eq_true_eq]
    omega

end Class

namespace Contents

variable {l : Label} {t : FieldType} {has k : BitVec 32}

theorem and_twoPow_ne_zero {bit : Nat} (h : bit < 32) :
    has &&& .twoPow 32 bit ≠ 0 ↔ has.getLsbD bit = true := by
  rw [BitVec.and_twoPow]
  split
  · simp only [*, iff_true]
    intro hzero
    have hbit := congrArg (BitVec.getLsbD · bit) hzero
    simp [h] at hbit
  · simp_all

theorem values_initial (v : t.Value) : values l t 0 (initial l t v) = [] := by
  cases l <;> simp [values, initial]

theorem merge_initial (old : Contents l t) (v : t.Value) : merge l t old 0 (initial l t v) = old := by
  cases l <;> simp [merge, initial]

/-- Setting the values of a field one after the other is merging it. -/
theorem foldl_add (old new : Contents l t) :
    (values l t has new).foldl (add l t) old = merge l t old has new := by
  cases l with
  | repeated =>
    dsimp only [values, merge]
    induction new generalizing old with
    | nil => exact (List.append_nil old).symm
    | cons value new ih => exact (ih (old ++ [value])).trans (by simp)
  | required bit | optional bit =>
    dsimp only [values, merge]
    split <;> rfl

theorem and_twoPow_of_ne {bit : Nat} (h : has &&& .twoPow 32 bit ≠ 0) :
    has &&& .twoPow 32 bit = .twoPow 32 bit := by
  rw [BitVec.and_twoPow] at h ⊢
  by_cases hbit : has.getLsbD bit = true
  · rw [if_pos hbit]
  · rw [if_neg hbit] at h
    exact absurd rfl h

/-- The bit of a field is set with its value. -/
theorem foldl_mask (new : Contents l t) (a : BitVec 32) :
    (values l t has new).foldl (fun b _ => b ||| l.mask) a = a ||| (has &&& l.mask) := by
  cases l with
  | repeated =>
    have hzero : ∀ x y : BitVec 32, x ||| (y &&& Label.repeated.mask) = x := by
      intro x y
      simp [Label.mask]
    have hall : ∀ x : BitVec 32, x ||| Label.repeated.mask = x := by
      intro x
      simp [Label.mask]
    rw [hzero]
    dsimp only [values]
    induction new with
    | nil => rfl
    | cons value new ih => rw [List.foldl_cons, hall, ih]
  | required bit | optional bit =>
    dsimp only [values, Label.mask]
    split
    · rename_i hand
      rw [and_twoPow_of_ne hand]
      rfl
    · rename_i hand
      rw [not_not.mp hand]
      exact BitVec.or_zero.symm

/-- A bit that is set for another field changes nothing here. -/
theorem values_or (h : k &&& l.mask = 0) (new : Contents l t) :
    values l t (has ||| k) new = values l t has new := by
  cases l with
  | repeated => rfl
  | required bit | optional bit =>
    have hand : (has ||| k) &&& .twoPow 32 bit = has &&& .twoPow 32 bit := by
      have hk : k &&& .twoPow 32 bit = 0 := h
      rw [BitVec.and_comm, BitVec.and_or_distrib_left, BitVec.and_comm _ k, hk, BitVec.and_comm]
      simp
    dsimp only [values]
    rw [hand]

theorem mem_values_add (old : Contents l t) (value : t.Value) {w : t.Value}
    (h : w ∈ values l t (has ||| l.mask) (add l t old value)) :
    w = value ∨ w ∈ values l t has old := by
  cases l with
  | repeated =>
    rcases List.mem_append.mp h with h | h
    · exact .inr h
    · exact .inl (List.mem_singleton.mp h)
  | required bit | optional bit =>
    dsimp only [values, add] at h
    split at h
    · exact .inl (List.mem_singleton.mp h)
    · cases h

/-- A field that is not repeated has the value that was set last. -/
theorem values_add {bit : Nat} (hl : l.bit = some bit) (hlt : bit < 32) (old : Contents l t)
    (value : t.Value) : values l t (has ||| l.mask) (add l t old value) = [value] := by
  cases l with
  | repeated => cases hl
  | required b | optional b =>
    obtain rfl := Option.some.inj hl
    have hset : (has ||| .twoPow 32 b) &&& .twoPow 32 b ≠ 0 := by
      rw [and_twoPow_ne_zero hlt, BitVec.getLsbD_or, BitVec.getLsbD_twoPow]
      simp [hlt]
    exact if_pos hset

/-- A setter adds at most its value to what is written. -/
theorem sum_values_add (old : Contents l t) (value : t.Value) (w : t.Value → Nat) :
    ((values l t (has ||| l.mask) (add l t old value)).map w).sum ≤
      ((values l t has old).map w).sum + w value := by
  cases l with
  | repeated => simp [values, add]
  | required bit | optional bit =>
    dsimp only [values, add]
    split
    · simp
    · exact Nat.zero_le _

theorem merge_or {old new : Contents l t} (h : merge l t old has new = new)
    (k : BitVec 32) : merge l t old (has ||| k) new = new := by
  cases l with
  | repeated => exact h
  | required bit | optional bit =>
    dsimp only [merge] at h ⊢
    split
    · rfl
    · rename_i hor
      by_cases hand : has &&& .twoPow 32 bit ≠ 0
      · exfalso
        apply hor
        have hsame : (has ||| k) &&& .twoPow 32 bit = .twoPow 32 bit := by
          rw [BitVec.and_comm, BitVec.and_or_distrib_left, BitVec.and_comm _ has,
            and_twoPow_of_ne hand]
          ext i
          simp
          tauto
        rw [hsame]
        rw [and_twoPow_of_ne hand] at hand
        exact hand
      · rw [if_neg hand] at h
        exact h

theorem merge_or_mask {old new : Contents l t} (value : t.Value) (hbit : ∀ bit ∈ l.bit, bit < 32) :
    merge l t old (has ||| l.mask) (add l t new value) = add l t (merge l t old has new) value := by
  cases l with
  | repeated => exact (List.append_assoc ..).symm
  | required bit | optional bit =>
    have hlt : bit < 32 := hbit bit rfl
    dsimp only [merge, add]
    rw [if_pos]
    rw [and_twoPow_ne_zero hlt]
    simp [Label.mask, hlt]

theorem merge_or_apart (h : k &&& l.mask = 0) (old new : Contents l t) :
    merge l t old (has ||| k) new = merge l t old has new := by
  rw [← foldl_add, ← foldl_add, values_or h]

end Contents

end MuduoNet.Generated
