import MuduoNet.Generated.Merge
import MuduoNet.Lib.Fields

/-!
# A wire format

Tags and numbers as varints, strings behind their lengths, as the encoding of protocol buffers has
them; of the unknown fields, all but the groups. It obeys the laws that the generated code relies on.
-/
namespace MuduoNet.Generated

open Lib

/-- An unknown field: its tag, and what is written behind it. -/
structure PlainField where
  tag : Nat
  body : List UInt8

namespace PlainField

/-- A number, extended to 64 bits. -/
def number (l : List UInt8) : Option (UInt64 × List UInt8) :=
  (readVarint l).map fun r => (UInt64.ofNat r.1, r.2)

/-- Bytes behind their number, an `int`. -/
def delimited (l : List UInt8) : Option (List UInt8 × List UInt8) :=
  (readVarint l).bind fun r => if r.1 < 2 ^ 31 then FieldCodec.takeExactly r.1 r.2 else none

/-- What is written for the field that is read. -/
def body_ (type : Nat) (l : List UInt8) : Option (List UInt8 × List UInt8) :=
  match type with
  | 0 => (number l).map fun r => (varint r.1.toNat, r.2)
  | 1 => FieldCodec.takeExactly 8 l
  | 2 => (delimited l).map fun r => (varint r.1.length ++ r.1, r.2)
  | 5 => FieldCodec.takeExactly 4 l
  | _ => none

end PlainField

open PlainField

def plain : WireFormat where
  ReadTag l :=
    match readVarint l with
    | some (tag, rest) => if tag < 2 ^ 32 then ((tag, tag ≤ 127), rest) else ((0, false), l)
    | none => ((0, false), l)
  WriteTag := varint
  Read
    | .int32, l | .enumeration _, l => (number l).map fun r => (r.1.toInt64.toInt32, r.2)
    | .int64, l => (number l).map fun r => (r.1.toInt64, r.2)
    | .fixed64, l => FieldCodec.fixed64.take l
    | .bool, l => (number l).map fun r => (r.1 != 0, r.2)
    | .string, l | .bytes, l => delimited l
  Write
    | .int32, v | .enumeration _, v => varint v.toInt64.toUInt64.toNat
    | .int64, v => varint v.toUInt64.toNat
    | .fixed64, v => FieldCodec.fixed64.put v
    | .bool, v => [if v then 1 else 0]
    | .string, v | .bytes, v => varint v.length ++ v
  Size
    | .int32, v | .enumeration _, v => (varint v.toInt64.toUInt64.toNat).length
    | .int64, v => (varint v.toUInt64.toNat).length
    | .fixed64, _ => 8
    | .bool, _ => 1
    | .string, v | .bytes, v => (varint v.length).length + v.length
  UnknownField := PlainField
  AddVarint number value := ⟨number * 8, varint value.toNat⟩
  SkipField tag l :=
    if tag / 8 = 0 ∨ 2 ^ 32 ≤ tag then none
    else (body_ (tag % 8) l).map fun r => (⟨tag, r.1⟩, r.2)
  WriteUnknown u := varint u.tag ++ u.body
  UnknownSize u := (varint u.tag).length + u.body.length

theorem steady_number : Steady number := by
  unfold number
  exact steady_readVarint.map UInt64.ofNat

theorem steady_delimited : Steady delimited := by
  have hnext : ∀ n : Nat, Steady fun l => if n < 2 ^ 31 then FieldCodec.takeExactly n l else none := by
    intro n
    exact (steady_takeExactly n).ite (.of_eq_none fun _ => rfl)
  exact steady_readVarint.bind hnext

theorem steady_body (type : Nat) : Steady (body_ type) := by
  unfold body_
  split
  · exact steady_number.map fun n => varint n.toNat
  · exact steady_takeExactly 8
  · exact steady_delimited.map fun v => varint v.length ++ v
  · exact steady_takeExactly 4
  · exact .of_eq_none fun _ => rfl

theorem steady_read (t : FieldType) : Steady (plain.Read t) := by
  cases t with
  | int32 | enumeration valid => exact steady_number.map fun n => n.toInt64.toInt32
  | int64 => exact steady_number.map UInt64.toInt64
  | fixed64 =>
    show Steady FieldCodec.fixed64.take
    have hdigits := (steady_takeExactly 8).map fun digits => UInt64.ofNat (Words.ofBE digits.reverse)
    have heq : FieldCodec.fixed64.take = fun l => (FieldCodec.takeExactly 8 l).map fun r =>
        (UInt64.ofNat (Words.ofBE r.1.reverse), r.2) := by
      funext l
      show (FieldCodec.takeExactly 8 l).bind _ = _
      cases FieldCodec.takeExactly 8 l <;> rfl
    rw [heq]
    exact hdigits
  | bool => exact steady_number.map fun n => n != 0
  | string | bytes => exact steady_delimited

theorem number_varint (n : UInt64) (rest : List UInt8) :
    number (varint n.toNat ++ rest) = some (n, rest) := by
  unfold number
  rw [readVarint_varint, Option.map_some, UInt64.ofNat_toNat]

theorem delimited_written {v : List UInt8} (h : v.length < 2 ^ 31) (rest : List UInt8) :
    delimited (varint v.length ++ v ++ rest) = some (v, rest) := by
  unfold delimited
  rw [List.append_assoc, readVarint_varint, Option.bind_some]
  dsimp only
  rw [if_pos h, FieldCodec.takeExactly_append]

theorem delimited_fits {l v rest : List UInt8} (h : delimited l = some (v, rest)) :
    v.length < 2 ^ 31 := by
  obtain ⟨⟨n, bytes⟩, _, h⟩ := Option.bind_eq_some_iff.mp h
  dsimp only at h
  split at h
  · unfold FieldCodec.takeExactly at h
    split at h
    · obtain ⟨rfl, _⟩ := Prod.mk.inj (Option.some.inj h)
      rw [List.length_take]
      omega
    · cases h
  · cases h

theorem plain_readTag {l rest : List UInt8} {tag : Nat} {known : Bool}
    (h : plain.ReadTag l = ((tag, known), rest)) (hne : tag ≠ 0) :
    readVarint l = some (tag, rest) ∧ tag < 2 ^ 32 ∧ known = decide (tag ≤ 127) := by
  dsimp only [plain] at h
  split at h
  · split at h
    · obtain ⟨hfirst, rfl⟩ := Prod.mk.inj h
      obtain ⟨rfl, rfl⟩ := Prod.mk.inj hfirst
      exact ⟨‹_›, ‹_›, rfl⟩
    · obtain ⟨h, _⟩ := Prod.mk.inj h
      exact absurd (Prod.mk.inj h).1.symm hne
  · obtain ⟨h, _⟩ := Prod.mk.inj h
    exact absurd (Prod.mk.inj h).1.symm hne

theorem plain_readTag_of_ne {l : List UInt8} (hne : (plain.ReadTag l).1.1 ≠ 0) :
    readVarint l = some ((plain.ReadTag l).1.1, (plain.ReadTag l).2) ∧
      (plain.ReadTag l).1.1 < 2 ^ 32 ∧
        (plain.ReadTag l).1.2 = decide ((plain.ReadTag l).1.1 ≤ 127) := by
  have hread : plain.ReadTag l = (((plain.ReadTag l).1.1, (plain.ReadTag l).1.2), (plain.ReadTag l).2) :=
    rfl
  exact plain_readTag hread hne

theorem plain_readTag_varint {tag : Nat} (h : tag < 2 ^ 32) (rest : List UInt8) :
    plain.ReadTag (varint tag ++ rest) = ((tag, decide (tag ≤ 127)), rest) := by
  dsimp only [plain]
  rw [readVarint_varint]
  exact if_pos h

/-- The field that was read is read back from what is written for it. -/
theorem body_written {type : Nat} {l body rest : List UInt8} (h : body_ type l = some (body, rest)) :
    body_ type body = some (body, []) := by
  unfold body_ at h ⊢
  split at h
  · obtain ⟨⟨n, r⟩, _, h⟩ := Option.map_eq_some_iff.mp h
    obtain ⟨rfl, rfl⟩ := Prod.mk.inj h
    have hback := number_varint n []
    rw [List.append_nil] at hback
    rw [hback]
    rfl
  · exact takeExactly_taken h
  · obtain ⟨⟨v, r⟩, hread, h⟩ := Option.map_eq_some_iff.mp h
    obtain ⟨rfl, rfl⟩ := Prod.mk.inj h
    have hback := delimited_written (delimited_fits hread) []
    rw [List.append_nil] at hback
    rw [hback]
    rfl
  · exact takeExactly_taken h
  · cases h

theorem plain_lawful : plain.Lawful where
  tag_end := rfl
  tag_known l h := by
    by_cases hne : (plain.ReadTag l).1.1 = 0
    · omega
    · have hknown := (plain_readTag_of_ne hne).2.2
      rw [h] at hknown
      exact of_decide_eq_true hknown.symm
  tag_unknown l h := by
    by_cases hne : (plain.ReadTag l).1.1 = 0
    · exact .inl hne
    · have hknown := (plain_readTag_of_ne hne).2.2
      rw [h] at hknown
      have hlarge := of_decide_eq_false hknown.symm
      omega
  tag_shorter l hne := length_readVarint (plain_readTag_of_ne hne).1
  tag_append l ys hne := by
    obtain ⟨hread, hlt, hknown⟩ := plain_readTag_of_ne hne
    generalize plain.ReadTag l = r at hread hlt hknown ⊢
    obtain ⟨⟨tag, known⟩, rest⟩ := r
    obtain rfl : known = decide (tag ≤ 127) := hknown
    dsimp only [plain]
    rw [readVarint_append ys hread]
    exact if_pos hlt
  tag_written tag _ hle := by
    have hlt : tag < 2 ^ 32 := by omega
    have hread := plain_readTag_varint hlt []
    rw [List.append_nil, decide_eq_true hle] at hread
    exact hread
  tag_size tag hpos hle := by
    show (varint tag).length = 1
    unfold varint
    obtain ⟨k, rfl⟩ : ∃ k, tag = k + 1 := ⟨tag - 1, by omega⟩
    rw [varintLoop, if_pos (by omega)]
    rfl
  read_fits {t l v rest} h := by
    cases t with
    | string | bytes => exact delimited_fits h
    | int32 | int64 | fixed64 | bool | enumeration valid => trivial
  read_shorter {t l v rest} h := (steady_read t).shorter h
  read_append {t l v rest} ys h := (steady_read t).append ys h
  read_written t v h := by
    have hback := fun n => number_varint n []
    simp only [List.append_nil] at hback
    cases t with
    | int32 | enumeration valid =>
      show (number (varint v.toInt64.toUInt64.toNat)).map _ = _
      rw [hback]
      simp
    | int64 =>
      show (number (varint v.toUInt64.toNat)).map _ = _
      rw [hback]
      simp
    | fixed64 =>
      have htake := FieldCodec.fixed64.take_put v []
      rw [List.append_nil] at htake
      exact htake
    | bool => cases v <;> rfl
    | string | bytes =>
      have htake := delimited_written h []
      rw [List.append_nil] at htake
      exact htake
  write_short t v hfits := by
    cases t with
    | int32 | enumeration valid => exact length_varint (UInt64.toNat_lt _)
    | int64 => exact length_varint (UInt64.toNat_lt _)
    | fixed64 => simp [plain, FieldCodec.fixed64, FieldType.width]
    | bool => exact (by decide : 1 ≤ 10)
    | string | bytes =>
      show (varint v.length ++ v).length ≤ 10 + v.length
      rw [List.length_append]
      have hprefix := length_varint (n := v.length) (Nat.lt_trans hfits (by decide))
      omega
  size t v _ := by
    cases t with
    | fixed64 => exact (by simp [plain, FieldCodec.fixed64])
    | string | bytes => exact List.length_append.symm
    | int32 | int64 | bool | enumeration valid => rfl
  fixed64_size v := by simp [plain, FieldCodec.fixed64]
  bool_size _ := rfl
  skip_shorter {tag l u rest} h := by
    dsimp only [plain] at h
    split at h
    · cases h
    · obtain ⟨⟨body, r⟩, hread, h⟩ := Option.map_eq_some_iff.mp h
      obtain ⟨_, rfl⟩ := Prod.mk.inj h
      exact (steady_body _).shorter hread
  skip_append {tag l u rest} ys h := by
    dsimp only [plain] at h ⊢
    split at h
    · cases h
    · obtain ⟨⟨body, r⟩, hread, h⟩ := Option.map_eq_some_iff.mp h
      obtain ⟨rfl, rfl⟩ := Prod.mk.inj h
      rw [if_neg ‹_›, (steady_body _).append ys hread]
      rfl
  skip_written {tag l u rest} h hne := by
    dsimp only [plain] at h
    split at h
    · cases h
    · rename_i hvalid
      obtain ⟨⟨body, r⟩, hread, h⟩ := Option.map_eq_some_iff.mp h
      obtain ⟨rfl, rfl⟩ := Prod.mk.inj h
      have htag : tag < 2 ^ 32 := by omega
      refine ⟨_, body, plain_readTag_varint htag body, ?_⟩
      dsimp only [plain]
      rw [if_neg hvalid, body_written hread]
      rfl
  varint_written _ _ _ _ _ := rfl
  unknown_size _ := List.length_append.symm

theorem plain_verbatim : plain.Verbatim := by
  intro t v
  cases t with
  | string | bytes =>
    show v.length ≤ (varint v.length ++ v).length
    rw [List.length_append]
    exact Nat.le_add_left _ _
  | int32 | int64 | fixed64 | bool | enumeration valid => exact Nat.zero_le _

end MuduoNet.Generated
