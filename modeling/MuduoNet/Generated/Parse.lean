import MuduoNet.Generated.RoundTrip

/-!
# What is parsed

Whatever the bytes are, a round of the parser reads one field as it can be written again, and does
not look at what comes behind. So every message that was parsed keeps the invariant, and parsing two
strings of bytes, one behind the other, is parsing each and merging the messages.
-/
namespace MuduoNet.Generated

open Lib

namespace GeneratedMessage

variable {W : WireFormat} {c : Class} {m from_ : GeneratedMessage W c}

/-- A number that is no value of its enumeration is written as it was read. -/
theorem rejected_written (hW : W.Lawful) {t : FieldType} {v : t.Value} {raw : UInt64} {number : Nat}
    (h : t.rejected v = some raw) (hnumber : 0 < number ∧ number < 16) :
    t.wireType = 0 ∧ t.Fits v ∧
      W.WriteUnknown (W.AddVarint number raw) = W.WriteTag (number * 8) ++ W.Write t v := by
  cases t with
  | enumeration valid =>
    dsimp only [FieldType.rejected] at h
    split at h
    · cases h
    · obtain rfl := Option.some.inj h
      exact ⟨rfl, trivial, hW.varint_written number valid v hnumber.1 hnumber.2⟩
  | int32 | int64 | fixed64 | bool | string | bytes => cases h

theorem foreign_rejected (hW : W.Lawful) (hc : c.Coherent) {i : Fin c.fields.length}
    {v : (c.fields.get i).type.Value} {raw : UInt64} (h : (c.fields.get i).type.rejected v = some raw) :
    Foreign c (W.AddVarint (c.fields.get i).number raw) := by
  obtain ⟨htype, hfits, hwritten⟩ := rejected_written hW h (hc.number i)
  obtain ⟨hpos, hle⟩ := hc.makeTag_le i
  have htag : (c.fields.get i).number * 8 = makeTag (c.fields.get i) := by
    unfold makeTag
    rw [htype, Nat.add_zero]
  intro m rest
  rw [hwritten, htag, List.append_assoc]
  unfold round
  rw [hW.readTag_writeTag hpos hle]
  dsimp only
  rw [if_pos rfl, hc.case_makeTag i]
  dsimp only
  unfold readField
  rw [hW.read_write hfits]
  simp only [Option.bind_eq_bind, Option.bind_some]
  rw [h]
  rfl

theorem foreign_skipped (hW : W.Lawful) {tag : Nat} {known : Bool} {l bytes rest : List UInt8}
    {u : W.UnknownField} (htag : W.ReadTag l = ((tag, known), bytes))
    (hcase : (if known then c.case tag else none) = none) (hne : tag ≠ 0)
    (h : W.SkipField tag bytes = some (u, rest)) : Foreign c u := by
  obtain ⟨known', r, hread, hskip⟩ := hW.skip_written h hne
  have hnone : (if known' then c.case tag else none) = none := by
    cases hk : known' with
    | false => rfl
    | true =>
      have hle := hW.tag_known (W.WriteUnknown u)
      rw [hread] at hle
      have hsmall : tag ≤ 127 := hle hk
      cases hknown : known with
      | true => rwa [hknown] at hcase
      | false =>
        have hlarge := hW.tag_unknown l
        rw [htag] at hlarge
        have hfar : tag = 0 ∨ 127 < tag := hlarge hknown
        omega
  intro m ys
  unfold round
  rw [hW.tag_append _ _ (by rw [hread]; exact hne), hread]
  dsimp only
  rw [hnone, if_neg hne, hW.skip_append ys hskip]
  rfl

/-- What the parser makes of a value. -/
def readItem (W : WireFormat) (i : Fin c.fields.length) (v : (c.fields.get i).type.Value) : Item W c :=
  match (c.fields.get i).type.rejected v with
  | some raw => .unknown (W.AddVarint (c.fields.get i).number raw)
  | none => .value i v

theorem readItem_readable (hW : W.Lawful) (hc : c.Coherent) {i : Fin c.fields.length}
    {v : (c.fields.get i).type.Value} (hfits : (c.fields.get i).type.Fits v) :
    (readItem W i v).Readable := by
  unfold readItem
  cases hrejected : (c.fields.get i).type.rejected v with
  | some raw => exact foreign_rejected hW hc hrejected
  | none => exact ⟨hrejected, hfits⟩

theorem readField_eq {i : Fin c.fields.length} {v : (c.fields.get i).type.Value}
    {bytes rest : List UInt8} (h : W.Read (c.fields.get i).type bytes = some (v, rest))
    (m : GeneratedMessage W c) : m.readField i bytes = some ((readItem W i v).apply m, rest) := by
  unfold readField readItem
  rw [h]
  simp only [Option.bind_eq_bind, Option.bind_some]
  cases (c.fields.get i).type.rejected v <;> rfl

/-- All that a round can do. -/
theorem round_cases (hW : W.Lawful) (hc : c.Coherent) {l l' : List UInt8} {m' : GeneratedMessage W c}
    (h : m.round l = some (some (m', l'))) : ∃ item : Item W c, item.Readable ∧ m' = item.apply m ∧
      l'.length < l.length ∧ ∀ (t : GeneratedMessage W c) ys,
        t.round (l ++ ys) = some (some (item.apply t, l' ++ ys)) := by
  unfold round at h
  have hshorter := hW.tag_shorter l
  have happend := hW.tag_append l
  generalize htags : W.ReadTag l = r at h hshorter happend
  obtain ⟨⟨tag, known⟩, bytes⟩ := r
  dsimp only at h hshorter happend
  cases hcase : (if known then c.case tag else none) with
  | some i =>
    have htag : tag ≠ 0 := by
      rintro rfl
      rw [Class.case_zero hc, ite_self] at hcase
      cases hcase
    rw [hcase] at h
    dsimp only at h
    cases hread : W.Read (c.fields.get i).type bytes with
    | none =>
      have hnone : m.readField i bytes = none := by
        unfold readField
        rw [hread]
        rfl
      rw [hnone] at h
      cases h
    | some r =>
      obtain ⟨v, rest⟩ := r
      rw [readField_eq hread] at h
      obtain ⟨rfl, rfl⟩ := Prod.mk.inj (Option.some.inj (Option.some.inj h))
      refine ⟨readItem W i v, readItem_readable hW hc (hW.read_fits hread), rfl,
        lt_of_le_of_lt (hW.read_shorter hread) (hshorter htag), ?_⟩
      intro t ys
      unfold round
      rw [happend ys htag]
      dsimp only
      rw [hcase]
      dsimp only
      rw [readField_eq (hW.read_append ys hread)]
      rfl
  | none =>
    rw [hcase] at h
    dsimp only at h
    split at h
    · cases h
    · rename_i htag
      cases hskip : W.SkipField tag bytes with
      | none =>
        rw [hskip] at h
        cases h
      | some r =>
        obtain ⟨u, rest⟩ := r
        rw [hskip] at h
        obtain ⟨rfl, rfl⟩ := Prod.mk.inj (Option.some.inj (Option.some.inj h))
        refine ⟨.unknown u, foreign_skipped hW htags hcase htag hskip, rfl,
          lt_of_le_of_lt (hW.skip_shorter hskip) (hshorter htag), ?_⟩
        intro t ys
        unfold round
        rw [happend ys htag]
        dsimp only
        rw [hcase]
        dsimp only
        rw [if_neg htag, hW.skip_append ys hskip]
        rfl

/-- Where there is no more field does not depend on the message. -/
theorem round_stop {l : List UInt8} (h : m.round l = some none) (t : GeneratedMessage W c) :
    t.round l = some none := by
  unfold round at h ⊢
  generalize W.ReadTag l = r at h ⊢
  obtain ⟨⟨tag, known⟩, bytes⟩ := r
  dsimp only at h ⊢
  cases hcase : (if known then c.case tag else none) with
  | some i =>
    rw [hcase] at h
    dsimp only at h
    cases hread : m.readField i bytes with
    | none =>
      rw [hread] at h
      cases h
    | some r =>
      rw [hread] at h
      cases h
  | none =>
    rw [hcase] at h
    dsimp only at h ⊢
    split at h
    · rw [if_pos ‹_›]
    · cases hskip : W.SkipField tag bytes with
      | none =>
        rw [hskip] at h
        cases h
      | some r =>
        rw [hskip] at h
        cases h

theorem Wf.apply (hc : c.Coherent) (h : m.Wf) {item : Item W c} (hitem : item.Readable) :
    (item.apply m).Wf := by
  cases item with
  | value i v => exact h.store hc hitem.1 hitem.2
  | unknown u => exact h.addUnknown hitem

/-- What has been parsed into a message keeps the invariant. -/
theorem Wf.parsed (hW : W.Lawful) (hc : c.Coherent) (h : m.Wf) {l rest : List UInt8}
    {m' : GeneratedMessage W c} (hparse : m.MergePartialFromCodedStream l = some (m', rest)) :
    m'.Wf := by
  refine readItems_invariant ?_ h hparse
  intro m l m' l' hm hround
  obtain ⟨item, hitem, rfl, _⟩ := round_cases hW hc hround
  exact hm.apply hc hitem

theorem Wf.mergeFrom (hW : W.Lawful) (hc : c.Coherent) (h : m.Wf) (hfrom : from_.Wf) :
    (m.MergeFrom from_).Wf := h.parsed hW hc (merge_serialize hW hc hfrom m)

/-- Merging further fields of the other message. -/
theorem Item.apply_mergeFrom (hc : c.Coherent) (item : Item W c) (m from_ : GeneratedMessage W c) :
    m.MergeFrom (item.apply from_) = item.apply (m.MergeFrom from_) := by
  cases item with
  | unknown u =>
    show GeneratedMessage.mk _ _ (_ ++ (_ ++ [u])) = GeneratedMessage.mk _ _ ((_ ++ _) ++ [u])
    rw [List.append_assoc]
    rfl
  | value i v =>
    unfold Item.apply GeneratedMessage.store MergeFrom
    dsimp only
    congr 1
    · exact (BitVec.or_assoc ..).symm
    · funext j
      by_cases hj : j = i
      · subst hj
        rw [Function.update_self, Function.update_self]
        exact Contents.merge_or_mask v (hc.bit j)
      · rw [Function.update_of_ne hj, Function.update_of_ne hj]
        exact Contents.merge_or_apart (mask_and hc (Ne.symm hj)) _ _

theorem mergeFrom_new (m : GeneratedMessage W c) : m.MergeFrom new = m := by
  unfold MergeFrom new
  dsimp only
  congr 1
  · exact BitVec.or_zero
  · funext i
    exact Contents.merge_initial _ _
  · exact List.append_nil _

theorem foldl_mergeFrom (hc : c.Coherent) (items : List (Item W c)) (m from_ : GeneratedMessage W c) :
    items.foldl Item.apply (m.MergeFrom from_) = m.MergeFrom (items.foldl Item.apply from_) := by
  induction items generalizing from_ with
  | nil => rfl
  | cons item items ih => rw [List.foldl_cons, List.foldl_cons, ← ih, Item.apply_mergeFrom hc]

/-- Two strings of bytes one behind the other are parsed to the first message with the second merged
into it. -/
theorem parse_append (hW : W.Lawful) (hc : c.Coherent) {l₁ l₂ rest : List UInt8}
    {m₁ m₂ : GeneratedMessage W c} (h₁ : m.MergePartialFromCodedStream l₁ = some (m₁, []))
    (h₂ : new.MergePartialFromCodedStream l₂ = some (m₂, rest)) :
    m.MergePartialFromCodedStream (l₁ ++ l₂) = some (m₁.MergeFrom m₂, rest) := by
  have hround : ∀ (m : GeneratedMessage W c) l m' l', m.round l = some (some (m', l')) →
      ∃ item : Item W c, item.Readable ∧ m' = item.apply m ∧ ∀ (t : GeneratedMessage W c) ys,
        t.round (l ++ ys) = some (some (item.apply t, l' ++ ys)) := by
    intro m l m' l' h
    obtain ⟨item, hitem, hm', _, hany⟩ := round_cases hW hc h
    exact ⟨item, hitem, hm', hany⟩
  have hshorter : ∀ (m : GeneratedMessage W c) l m' l', m.round l = some (some (m', l')) →
      l'.length < l.length := by
    intro m l m' l' h
    obtain ⟨_, _, _, hlt, _⟩ := round_cases hW hc h
    exact hlt
  obtain ⟨items₁, _, hm₁, _, hread₁⟩ := readItems_items hround h₁
  obtain ⟨items₂, _, hm₂, hstop, hread₂⟩ := readItems_items hround h₂
  have hmerged : items₂.foldl Item.apply m₁ = m₁.MergeFrom m₂ := by
    rw [hm₂, ← foldl_mergeFrom hc, mergeFrom_new]
  unfold MergePartialFromCodedStream
  rw [← readItems_budget hshorter (show (l₁ ++ l₂).length <
    items₁.length + (items₂.length + ((l₁ ++ l₂).length + 1)) by omega), hread₁, List.nil_append,
    ← hm₁]
  have hsecond := hread₂ m₁ [] ((l₁ ++ l₂).length + 1)
  rw [List.append_nil, List.append_nil] at hsecond
  rw [hsecond, hmerged, readItems_stop (round_stop hstop _)]

end GeneratedMessage

end MuduoNet.Generated
